import RecompStudio.Cpu.Word
import Mathlib.Data.List.Pairwise
import Mathlib.Data.List.Range

/-!
The executable image and the control-flow analysis that cuts a function into
basic blocks.
-/

namespace RecompStudio.CodeGen

open RecompStudio.Insn

/-- A parsed executable. The header check keeps the load range inside the main
memory, so addresses of the image do not wrap. -/
structure Image where
  loadAddress : Word
  codeData : List (BitVec 8)
  load_kseg0 : 0x80000000 ≤ loadAddress.toNat
  end_in_ram : loadAddress.toNat + codeData.length ≤ 0x80200000

namespace Image

theorem text_kseg0 : 0x80000000 ≤ (0x80010000#32).toNat := by decide

def endAddress (img : Image) : Word := img.loadAddress + BitVec.ofNat 32 img.codeData.length

def byteAt (img : Image) (offset : Nat) : Word := (img.codeData.getD offset 0).zeroExtend 32

/-- `read_word`: little-endian, at any alignment. -/
@[grind =] def readWord (img : Image) (addr : Word) : Option Word :=
  if addr < img.loadAddress ∨ img.endAddress ≤ addr then none
  else
    let offset := (addr - img.loadAddress).toNat
    if img.codeData.length ≤ offset + 3 then none
    else
      some (img.byteAt offset ||| (img.byteAt (offset + 1) <<< 8) |||
        (img.byteAt (offset + 2) <<< 16) ||| (img.byteAt (offset + 3) <<< 24))

/-- `ram_to_rom`: the image's own range first, then the BIOS shell's copy. -/
def ramToRom (img : Image) (addr : Word) : Word :=
  let phys := addr &&& 0x1FFFFFFF#32
  let exePhys := img.loadAddress &&& 0x1FFFFFFF#32
  let size := BitVec.ofNat 32 img.codeData.length
  if size ≠ 0 ∧ exePhys ≤ phys ∧ phys < exePhys + size then img.loadAddress + (phys - exePhys)
  else if 0x30000#32 ≤ phys ∧ phys ≤ 0x5AFFF#32 then 0xBFC18000#32 + (phys - 0x30000#32)
  else addr

theorem readWord_range (img : Image) {addr v : Word} (hRead : img.readWord addr = some v) :
    0x80000000 ≤ addr.toNat ∧ addr.toNat < 0x80200000 := by
  unfold readWord at hRead
  split_ifs at hRead with hOutside
  rw [BitVec.lt_def, BitVec.le_def, endAddress, BitVec.toNat_add, BitVec.toNat_ofNat] at hOutside
  have := img.load_kseg0
  have := img.end_in_ram
  omega

theorem readWord_isSome {img : Image} {a c v : Word} (hLo : img.loadAddress ≤ a) (hLe : a ≤ c)
    (hRead : img.readWord c = some v) : (img.readWord a).isSome = true := by
  have hEnd := img.end_in_ram
  unfold readWord at hRead ⊢
  simp only at hRead ⊢
  split_ifs at hRead with hOutside hShort
  rw [BitVec.lt_def, BitVec.le_def, not_or, Nat.not_lt, Nat.not_le] at hOutside
  rw [BitVec.le_def] at hLo hLe
  have hOffset : ∀ x : Word, img.loadAddress.toNat ≤ x.toNat →
      (x - img.loadAddress).toNat = x.toNat - img.loadAddress.toNat := by
    intro x hx
    rw [BitVec.toNat_sub]
    have := x.isLt
    omega
  rw [hOffset c hOutside.1] at hShort
  rw [if_neg, hOffset a hLo, if_neg (by omega)]
  · rfl
  · rw [BitVec.lt_def, BitVec.le_def]
    omega

end Image

/-- `is_control_flow`. -/
def isControlFlow (w : Word) : Bool :=
  match Op.ofWord w with
  | .jr | .jalr | .regimm | .j | .jal | .beq | .bne | .blez | .bgtz | .beql | .bnel | .blezl
  | .bgtzl => true
  | _ => false

inductive ControlFlowType where
  | none | branch | jump | jumpLink | jumpRegister | jumpLinkReg | return
deriving DecidableEq, Repr

structure ControlFlowInstr where
  address : Word
  instruction : Word
  type : ControlFlowType
  target : Word
  hasDelaySlot : Bool
  isLikely : Bool
deriving DecidableEq, Repr

/-- `analyze_instruction`. -/
@[grind =] def analyzeInstruction (addr w : Word) : ControlFlowInstr :=
  let cf (type : ControlFlowType) (target : Word) (likely : Bool) : ControlFlowInstr :=
    ⟨addr, w, type, target, true, likely⟩
  match Op.ofWord w with
  | .jr => cf (if rs w = 31 then .return else .jumpRegister) 0 false
  | .jalr => cf .jumpLinkReg 0 false
  | .regimm | .beq | .bne | .blez | .bgtz => cf .branch (branchTarget addr w) false
  | .beql | .bnel | .blezl | .bgtzl => cf .branch (branchTarget addr w) true
  | .j => cf .jump (jumpTarget addr w) false
  | .jal => cf .jumpLink (jumpTarget addr w) false
  | _ => ⟨addr, w, .none, 0, false, false⟩

/-- `Function`. A non-zero `aliasWalkLo` marks an entry inside the function that
begins there. -/
structure Function where
  startAddr : Word
  endAddr : Word
  isDataSection : Bool
  aliasWalkLo : Word
  aliasGroupEntries : List Word
deriving DecidableEq, Repr

/-- The first address that the analysis of a function walks. -/
def Function.walkLo (f : Function) : Word :=
  if f.aliasWalkLo = 0 then f.startAddr else f.aliasWalkLo

structure BasicBlock where
  startAddr : Word
  endAddr : Word
  exitInstr : ControlFlowInstr
  successors : List Word
  isEntry : Bool
deriving DecidableEq, Repr

/-- The blocks are in address order, as the map that holds them is. -/
structure ControlFlowGraph where
  functionStart : Word
  functionEnd : Word
  blocks : List BasicBlock
deriving DecidableEq, Repr

namespace ControlFlowGraph

def find (cfg : ControlFlowGraph) (addr : Word) : Option BasicBlock :=
  cfg.blocks.find? fun b => b.startAddr == addr

/-- `cfg.blocks.count(addr) > 0`. -/
def hasBlock (cfg : ControlFlowGraph) (addr : Word) : Bool :=
  cfg.blocks.any fun b => b.startAddr == addr

end ControlFlowGraph

/-- The word addresses from `lo` up to a bound. -/
@[grind =] def addrRange (lo : Word) (bound : Nat) : List Word :=
  (List.range ((bound - lo.toNat + 3) / 4)).map fun i => lo + BitVec.ofNat 32 (4 * i)

/-- Insertion into an ascending list without duplicates. -/
def insertAddr (a : Word) : List Word → List Word
  | [] => [a]
  | b :: rest => if a < b then a :: b :: rest else if a = b then b :: rest
      else b :: insertAddr a rest

/-- `std::sort` followed by `std::unique`. -/
def sortUnique (addrs : List Word) : List Word := addrs.foldr insertAddr []

/-- An address inside the walked range of a function. -/
@[grind =] def inRange (f : Function) (a : Word) : Bool := f.walkLo ≤ a ∧ a < f.endAddr

/-- The leaders that one instruction word asks for. -/
def wordBoundaries (f : Function) (addr w : Word) : List Word :=
  if isControlFlow w then
    let target := (analyzeInstruction addr w).target
    (if target ≠ 0 ∧ inRange f target then [target] else []) ++
      (if addr + 8#32 < f.endAddr ∧ inRange f (addr + 8#32) then [addr + 8#32] else [])
  else []

def scanBoundaries (img : Image) (f : Function) (addr : Word) : List Word :=
  match img.readWord addr with
  | none => []
  | some w => wordBoundaries f addr w

/-- The block leaders of a function, ascending. -/
def boundaries (img : Image) (f : Function) : List Word :=
  sortUnique <|
    f.walkLo ::
      ((if f.aliasWalkLo = 0 then []
          else f.startAddr :: f.aliasGroupEntries.filter (inRange f)) ++
        (addrRange f.walkLo f.endAddr.toNat).flatMap (scanBoundaries img f))

/-- The control transfer at an address, if there is one. -/
@[grind =] def transferAt (img : Image) (addr : Word) : Option ControlFlowInstr :=
  match img.readWord addr with
  | none => none
  | some w => if isControlFlow w then some (analyzeInstruction addr w) else none

/-- The word before the last decides the exit if it transfers control, else the
last one. -/
@[grind =] def blockExit (img : Image) (start stop : Word) : ControlFlowInstr :=
  match if start < stop then transferAt img (stop - 4#32) else none with
  | some cf => cf
  | none => (transferAt img stop).getD ⟨stop, 0, .none, 0, false, false⟩

/-- The successors that are leaders of the same function. -/
@[grind =]
def blockSuccessors (f : Function) (leaders : List Word) (stop : Word) (cf : ControlFlowInstr) :
    List Word :=
  let inFunc (a : Word) : Bool := inRange f a && leaders.contains a
  match cf.type with
  | .branch =>
      (if cf.target ≠ 0 ∧ inFunc cf.target then [cf.target] else []) ++
        (if inFunc (cf.address + 8#32) then [cf.address + 8#32] else [])
  | .jump => if cf.target ≠ 0 ∧ inFunc cf.target then [cf.target] else []
  | .jumpLink | .jumpLinkReg =>
      if inFunc (cf.address + 8#32) then [cf.address + 8#32] else []
  | .return | .jumpRegister => []
  | .none => if inFunc (stop + 4#32) then [stop + 4#32] else []

def buildBlock (img : Image) (f : Function) (leaders : List Word) (start stop : Word) :
    BasicBlock :=
  let cf := blockExit img start stop
  ⟨start, stop, cf, blockSuccessors f leaders stop cf, start == f.walkLo⟩

/-- One block for each leader, up to the next one; an empty range is skipped. -/
def buildBlocks (img : Image) (f : Function) (leaders : List Word) : List Word → List BasicBlock
  | [] => []
  | start :: rest =>
      let stop := rest.headD f.endAddr - 4#32
      if stop < start then buildBlocks img f leaders rest
      else buildBlock img f leaders start stop :: buildBlocks img f leaders rest

/-- `analyze_function`. -/
def analyzeFunction (img : Image) (f : Function) : ControlFlowGraph :=
  let leaders := boundaries img f
  ⟨f.walkLo, f.endAddr, buildBlocks img f leaders leaders⟩

theorem insertAddr_nil (a : Word) : insertAddr a [] = [a] := rfl

theorem insertAddr_cons (a b : Word) (rest : List Word) : insertAddr a (b :: rest) =
    if a < b then a :: b :: rest else if a = b then b :: rest else b :: insertAddr a rest := rfl

theorem sortUnique_cons (a : Word) (rest : List Word) :
    sortUnique (a :: rest) = insertAddr a (sortUnique rest) := rfl

theorem mem_insertAddr {x a : Word} {l : List Word} : x ∈ insertAddr a l ↔ x = a ∨ x ∈ l := by
  induction l with
  | nil => rw [insertAddr_nil, List.mem_cons]
  | cons b rest ih =>
      rw [insertAddr_cons]
      split_ifs with hLt hEq
      · simp
      · simp [hEq]
      · simp [ih, or_left_comm]

theorem pairwise_insertAddr {a : Word} {l : List Word} (h : l.Pairwise (· < ·)) :
    (insertAddr a l).Pairwise (· < ·) := by
  induction l with
  | nil => exact List.pairwise_singleton _ _
  | cons b rest ih =>
      obtain ⟨hHead, hRest⟩ := List.pairwise_cons.mp h
      rw [insertAddr_cons]
      split_ifs with hLt hEq
      · refine List.pairwise_cons.mpr ⟨fun x hx => ?_, h⟩
        rcases List.mem_cons.mp hx with rfl | hx
        · exact hLt
        · exact BitVec.lt_trans hLt (hHead x hx)
      · exact h
      · refine List.pairwise_cons.mpr ⟨fun x hx => ?_, ih hRest⟩
        rcases (mem_insertAddr).mp hx with rfl | hx
        · simp only [BitVec.lt_def, ← BitVec.toNat_inj] at hLt hEq ⊢
          omega
        · exact hHead x hx

theorem mem_sortUnique {x : Word} {l : List Word} : x ∈ sortUnique l ↔ x ∈ l := by
  induction l with
  | nil => exact Iff.rfl
  | cons a rest ih => rw [sortUnique_cons, mem_insertAddr, ih, List.mem_cons]

theorem pairwise_sortUnique (l : List Word) : (sortUnique l).Pairwise (· < ·) := by
  induction l with
  | nil => exact List.Pairwise.nil
  | cons a rest ih => exact pairwise_insertAddr ih

/-- A word-aligned address. -/
@[grind =] def Aligned (a : Word) : Prop := a.toNat % 4 = 0

instance (a : Word) : Decidable (Aligned a) := inferInstanceAs (Decidable (_ = _))

theorem aligned_iff {a : Word} : Aligned a ↔ a.toNat % 4 = 0 := Iff.rfl

theorem addrRange_eq (lo : Word) (bound : Nat) :
    addrRange lo bound = (List.range ((bound - lo.toNat + 3) / 4)).map fun i =>
      lo + BitVec.ofNat 32 (4 * i) := rfl

theorem aligned_add {a : Word} (h : Aligned a) (n : Nat) :
    Aligned (a + BitVec.ofNat 32 (4 * n)) := by
  rw [aligned_iff] at h ⊢
  rw [BitVec.toNat_add, BitVec.toNat_ofNat]
  omega

theorem mem_addrRange {lo a : Word} {bound : Nat} (hBound : bound ≤ 2 ^ 32)
    (h : a ∈ addrRange lo bound) :
    ∃ i, a.toNat = lo.toNat + 4 * i ∧ a.toNat < bound ∧ a = lo + BitVec.ofNat 32 (4 * i) := by
  obtain ⟨i, hi, rfl⟩ := List.mem_map.mp h
  rw [List.mem_range] at hi
  refine ⟨i, ?_, ?_, rfl⟩ <;> rw [BitVec.toNat_add, BitVec.toNat_ofNat] <;> omega

theorem mem_addrRange_of {lo a : Word} {bound : Nat} (hLo : lo.toNat ≤ a.toNat)
    (hBound : a.toNat < bound) (hMod : (a.toNat - lo.toNat) % 4 = 0) : a ∈ addrRange lo bound := by
  refine List.mem_map.mpr ⟨(a.toNat - lo.toNat) / 4, List.mem_range.mpr (by omega), ?_⟩
  apply BitVec.eq_of_toNat_eq
  rw [BitVec.toNat_add, BitVec.toNat_ofNat]
  have := a.isLt
  omega

theorem aligned_of_mem_addrRange {lo a : Word} {bound : Nat} (hLo : Aligned lo)
    (h : a ∈ addrRange lo bound) : Aligned a := by
  obtain ⟨i, _, rfl⟩ := List.mem_map.mp h
  exact aligned_add hLo i

theorem addrRange_succ (lo : Word) (n : Nat) :
    addrRange lo (lo.toNat + 4 * n + 1) =
      addrRange lo (lo.toNat + 4 * n) ++ [lo + BitVec.ofNat 32 (4 * n)] := by
  have hSucc : (lo.toNat + 4 * n + 1 - lo.toNat + 3) / 4 = n + 1 := by omega
  have hLen : (lo.toNat + 4 * n - lo.toNat + 3) / 4 = n := by omega
  rw [addrRange_eq, addrRange_eq, hSucc, hLen, List.range_succ, List.map_append, List.map_singleton]

/-- A range is cut at one of its addresses. -/
theorem addrRange_split {lo mid : Word} {bound : Nat} (hLo : lo.toNat ≤ mid.toNat)
    (hMod : (mid.toNat - lo.toNat) % 4 = 0) (hBound : mid.toNat ≤ bound + 3) :
    addrRange lo bound = addrRange lo mid.toNat ++ addrRange mid bound := by
  have hCount : (bound - lo.toNat + 3) / 4 =
      (mid.toNat - lo.toNat + 3) / 4 + (bound - mid.toNat + 3) / 4 := by omega
  rw [addrRange_eq, addrRange_eq, addrRange_eq, hCount, List.range_add, List.map_append,
    List.map_map]
  congr 1
  apply List.map_congr_left
  intro i _
  apply BitVec.eq_of_toNat_eq
  rw [Function.comp_apply, BitVec.toNat_add, BitVec.toNat_add, BitVec.toNat_ofNat,
    BitVec.toNat_ofNat]
  omega

theorem addrRange_cons {lo : Word} {bound : Nat} (hLo : lo.toNat < bound)
    (hWrap : lo.toNat + 4 < 2 ^ 32) :
    addrRange lo bound = lo :: addrRange (lo + 4#32) bound := by
  have hNext : (lo + 4#32).toNat = lo.toNat + 4 := by
    rw [BitVec.toNat_add, BitVec.toNat_ofNat]
    omega
  have hCount : (bound - lo.toNat + 3) / 4 = (bound - (lo.toNat + 4) + 3) / 4 + 1 := by omega
  rw [addrRange_eq, addrRange_eq, hNext, hCount, List.range_succ_eq_map, List.map_cons,
    List.map_map]
  congr 1
  · exact BitVec.add_zero lo
  · apply List.map_congr_left
    intro i _
    apply BitVec.eq_of_toNat_eq
    rw [Function.comp_apply, BitVec.toNat_add, BitVec.toNat_add, BitVec.toNat_add,
      BitVec.toNat_ofNat, BitVec.toNat_ofNat, BitVec.toNat_ofNat]
    omega

theorem addrRange_eq_nil {lo : Word} {bound : Nat} (hBound : bound ≤ lo.toNat) :
    addrRange lo bound = [] := by
  have hNone : (bound - lo.toNat + 3) / 4 = 0 := by omega
  rw [addrRange_eq, hNone]
  rfl

theorem aligned_branchTarget {pc : Word} (h : Aligned pc) (w : Word) :
    Aligned (branchTarget pc w) := by
  rw [aligned_iff] at h ⊢
  simp only [branchTarget, BitVec.toNat_add, BitVec.toNat_shiftLeft, BitVec.toNat_ofNat,
    Nat.shiftLeft_eq]
  omega

theorem aligned_jumpTarget (pc w : Word) : Aligned (jumpTarget pc w) := by
  rw [aligned_iff, jumpTarget]
  have hHigh : ((pc + 4#32) &&& 0xF0000000#32).toNat % 4 = 0 := by
    rw [BitVec.toNat_and, show 4 = 2 ^ 2 from rfl, Nat.and_mod_two_pow]
    simp
  have hLow : ((w &&& 0x03FFFFFF#32) <<< 2).toNat % 4 = 0 := by
    rw [BitVec.toNat_shiftLeft, Nat.shiftLeft_eq]
    omega
  rw [BitVec.toNat_or, show 4 = 2 ^ 2 from rfl, Nat.or_mod_two_pow]
  rw [show (2 : Nat) ^ 2 = 4 from rfl, hHigh, hLow]
  rfl

theorem branchTarget_ne_zero {img : Image} {addr v : Word} (hRead : img.readWord addr = some v)
    (w : Word) : branchTarget addr w ≠ 0 := by
  have hRange := img.readWord_range hRead
  have hOffset : (simm w).toNat < 2 ^ 15 ∨ 2 ^ 32 - 2 ^ 15 ≤ (simm w).toNat := by
    have hImm := (imm16 w).isLt
    rw [simm, BitVec.toNat_signExtend, BitVec.msb_eq_decide]
    split_ifs with hSign
    · have := of_decide_eq_true hSign
      simp only [BitVec.toNat_setWidth]
      omega
    · have := of_decide_eq_false (Bool.eq_false_of_not_eq_true hSign)
      simp only [BitVec.toNat_setWidth]
      omega
  intro hZero
  have hSum : (branchTarget addr w).toNat = 0 := by
    rw [hZero]
    rfl
  rw [branchTarget] at hSum
  simp only [BitVec.toNat_add, BitVec.toNat_shiftLeft, BitVec.toNat_ofNat, Nat.shiftLeft_eq] at hSum
  omega

/-- A direct jump of the image stays in its segment, so its target is not zero. -/
theorem jumpTarget_ne_zero {img : Image} {addr v : Word} (hRead : img.readWord addr = some v)
    (w : Word) :
    jumpTarget addr w ≠ 0 := by
  have hRange := img.readWord_range hRead
  intro hZero
  have hBit : (jumpTarget addr w).getLsbD 31 = false := by rw [hZero]; rfl
  have hSum : (addr + 4#32).toNat = addr.toNat + 4 := by
    rw [BitVec.toNat_add, BitVec.toNat_ofNat]
    omega
  have hHigh : (addr + 4#32).getLsbD 31 = true := by
    rw [← BitVec.msb_eq_getLsbD_last, BitVec.msb_eq_decide, hSum]
    exact decide_eq_true (by omega)
  rw [jumpTarget, BitVec.getLsbD_or, BitVec.getLsbD_and, hHigh] at hBit
  cases hBit

/-- What function discovery guarantees of a function range. -/
structure Function.Valid (f : Function) : Prop where
  nonempty : f.walkLo < f.endAddr
  start_in : inRange f f.startAddr = true
  walk_aligned : Aligned f.walkLo
  start_aligned : Aligned f.startAddr
  end_aligned : Aligned f.endAddr
  entries_aligned : ∀ e ∈ f.aliasGroupEntries, Aligned e

variable {img : Image} {f : Function}

theorem aligned_target {addr : Word} (hAddr : Aligned addr) (w : Word) :
    Aligned (analyzeInstruction addr w).target := by
  unfold analyzeInstruction
  cases Op.ofWord w
  case regimm | beq | bne | blez | bgtz | beql | bnel | blezl | bgtzl =>
    exact aligned_branchTarget hAddr w
  case j | jal => exact aligned_jumpTarget addr w
  all_goals rfl

/-- The target and the address after the delay slot of a control transfer. -/
theorem mem_wordBoundaries {addr w a : Word} :
    a ∈ wordBoundaries f addr w ↔ isControlFlow w = true ∧ inRange f a = true ∧
      ((a = (analyzeInstruction addr w).target ∧ a ≠ 0) ∨ a = addr + 8#32) := by
  unfold wordBoundaries
  cases isControlFlow w
  · simp
  · simp only [if_true, List.mem_append, List.mem_ite_nil_right, List.mem_singleton, true_and]
    constructor
    · rintro (⟨⟨hNonzero, hRange⟩, rfl⟩ | ⟨⟨_, hRange⟩, rfl⟩)
      · exact ⟨hRange, .inl ⟨rfl, hNonzero⟩⟩
      · exact ⟨hRange, .inr rfl⟩
    · rintro ⟨hRange, ⟨rfl, hNonzero⟩ | rfl⟩
      · exact .inl ⟨⟨hNonzero, hRange⟩, rfl⟩
      · have hLt : addr + 8#32 < f.endAddr := (of_decide_eq_true hRange).2
        exact .inr ⟨⟨hLt, hRange⟩, rfl⟩

theorem aligned_of_mem_wordBoundaries {addr w a : Word} (hAddr : Aligned addr)
    (h : a ∈ wordBoundaries f addr w) : Aligned a := by
  obtain ⟨_, _, ⟨rfl, _⟩ | rfl⟩ := (mem_wordBoundaries).mp h
  · exact aligned_target hAddr w
  · exact aligned_add hAddr 2

theorem mem_scanBoundaries {addr a : Word} :
    a ∈ scanBoundaries img f addr ↔
      ∃ w, img.readWord addr = some w ∧ a ∈ wordBoundaries f addr w := by
  unfold scanBoundaries
  cases img.readWord addr <;> simp

theorem mem_boundaries {a : Word} :
    a ∈ boundaries img f ↔ a = f.walkLo ∨
      (f.aliasWalkLo ≠ 0 ∧ (a = f.startAddr ∨ (a ∈ f.aliasGroupEntries ∧ inRange f a = true))) ∨
      ∃ addr ∈ addrRange f.walkLo f.endAddr.toNat, a ∈ scanBoundaries img f addr := by
  unfold boundaries
  rw [mem_sortUnique, List.mem_cons, List.mem_append, List.mem_flatMap]
  by_cases hAlias : f.aliasWalkLo = 0 <;> simp [hAlias]

theorem boundaries_spec (hf : f.Valid) {a : Word} (h : a ∈ boundaries img f) :
    inRange f a = true ∧ Aligned a := by
  rcases (mem_boundaries).mp h with rfl | ⟨_, rfl | ⟨hMem, hRange⟩⟩ | ⟨addr, hAddr, hScan⟩
  · exact ⟨decide_eq_true ⟨BitVec.le_refl _, hf.nonempty⟩, hf.walk_aligned⟩
  · exact ⟨hf.start_in, hf.start_aligned⟩
  · exact ⟨hRange, hf.entries_aligned a hMem⟩
  · obtain ⟨w, _, hWord⟩ := (mem_scanBoundaries).mp hScan
    exact ⟨((mem_wordBoundaries).mp hWord).2.1,
      aligned_of_mem_wordBoundaries (aligned_of_mem_addrRange hf.walk_aligned hAddr) hWord⟩

/-- The extent of a block: from a leader to the word before the next one. -/
structure BlockExtent (f : Function) (leaders : List Word) (b : BasicBlock) : Prop where
  leader : b.startAddr ∈ leaders
  start_le : b.startAddr.toNat ≤ b.endAddr.toNat
  end_lt : b.endAddr.toNat + 4 ≤ f.endAddr.toNat
  start_aligned : Aligned b.startAddr
  end_aligned : Aligned b.endAddr
  no_leader : ∀ a ∈ leaders, a.toNat ≤ b.startAddr.toNat ∨ b.endAddr.toNat < a.toNat

theorem BlockExtent.afterBlock_toNat {f : Function} {leaders : List Word} {b : BasicBlock}
    (h : BlockExtent f leaders b) : (b.endAddr + 4#32).toNat = b.endAddr.toNat + 4 := by
  have hEnd := h.end_lt
  have hBound := f.endAddr.isLt
  rw [BitVec.toNat_add, BitVec.toNat_ofNat]
  omega

theorem sub_four_toNat {a : Word} (h : 4 ≤ a.toNat) : (a - 4#32).toNat = a.toNat - 4 := by
  rw [BitVec.toNat_sub]
  have := a.isLt
  simp only [BitVec.toNat_ofNat]
  omega

/-- The next leader, or the end of the function. -/
theorem next_leader {leaders before rest : List Word} {start : Word}
    (hSplit : leaders = before ++ start :: rest) (hSorted : leaders.Pairwise (· < ·))
    (hLeaders : ∀ a ∈ leaders, inRange f a = true ∧ Aligned a) (hEnd : Aligned f.endAddr) :
    start.toNat < (rest.headD f.endAddr).toNat ∧ Aligned (rest.headD f.endAddr) ∧
      (rest.headD f.endAddr).toNat ≤ f.endAddr.toNat ∧
      ∀ a ∈ leaders, a.toNat ≤ start.toNat ∨ (rest.headD f.endAddr).toNat ≤ a.toNat := by
  subst hSplit
  have hInside : ∀ a ∈ before ++ start :: rest, a.toNat < f.endAddr.toNat :=
    fun a ha => (of_decide_eq_true (hLeaders a ha).1).2
  obtain ⟨_, hTail, hCross⟩ := List.pairwise_append.mp hSorted
  obtain ⟨hAfter, hRest⟩ := List.pairwise_cons.mp hTail
  cases rest with
  | nil =>
      refine ⟨hInside start (by simp), hEnd, le_rfl, fun a ha => .inl ?_⟩
      rcases List.mem_append.mp ha with ha | ha
      · exact (BitVec.lt_def.mp (hCross a ha start (by simp))).le
      · rw [List.mem_singleton.mp ha]
  | cons next rest =>
      refine ⟨hAfter next (by simp), (hLeaders next (by simp)).2,
        (hInside next (by simp)).le, fun a ha => ?_⟩
      rcases List.mem_append.mp ha with ha | ha
      · exact .inl (BitVec.lt_def.mp (hCross a ha start (by simp))).le
      rcases List.mem_cons.mp ha with rfl | ha
      · exact .inl le_rfl
      rcases List.mem_cons.mp ha with rfl | ha
      · exact .inr le_rfl
      · exact .inr (BitVec.lt_def.mp ((List.pairwise_cons.mp hRest).1 a ha)).le

theorem buildBlocks_cons (img : Image) (f : Function) (leaders : List Word) (start : Word)
    (rest : List Word) : buildBlocks img f leaders (start :: rest) =
      if rest.headD f.endAddr - 4#32 < start then buildBlocks img f leaders rest
      else buildBlock img f leaders start (rest.headD f.endAddr - 4#32) ::
        buildBlocks img f leaders rest := rfl

theorem mem_buildBlocks {leaders before rest : List Word} (hSplit : leaders = before ++ rest)
    (hSorted : leaders.Pairwise (· < ·))
    (hLeaders : ∀ a ∈ leaders, inRange f a = true ∧ Aligned a) (hEnd : Aligned f.endAddr)
    {b : BasicBlock} (hb : b ∈ buildBlocks img f leaders rest) :
    b = buildBlock img f leaders b.startAddr b.endAddr ∧ BlockExtent f leaders b := by
  induction rest generalizing before with
  | nil => cases hb
  | cons start rest ih =>
      have hNext : leaders = (before ++ [start]) ++ rest := by simp [hSplit]
      rw [buildBlocks_cons] at hb
      split at hb
      next => exact ih hNext hb
      next hNonempty =>
        rcases List.mem_cons.mp hb with rfl | hb
        · obtain ⟨hLt, hAligned, hLe, hGap⟩ := next_leader hSplit hSorted hLeaders hEnd
          have hStart : Aligned start := (hLeaders start (by simp [hSplit])).2
          rw [aligned_iff] at hAligned hStart
          have hStop := sub_four_toNat (a := rest.headD f.endAddr) (by omega)
          refine ⟨rfl, by simp [buildBlock, hSplit], ?_, ?_, hStart, ?_, fun a ha => ?_⟩
          · simp only [buildBlock, hStop]
            omega
          · simp only [buildBlock, hStop]
            omega
          · simp only [buildBlock, Aligned, hStop]
            omega
          · simp only [buildBlock, hStop]
            have := hGap a ha
            omega
        · exact ih hNext hb

/-- The blocks of a function: built from their extent, which is cut at the
leaders. -/
theorem mem_blocks (hf : f.Valid) {b : BasicBlock} (hb : b ∈ (analyzeFunction img f).blocks) :
    b = buildBlock img f (boundaries img f) b.startAddr b.endAddr ∧
      BlockExtent f (boundaries img f) b := by
  have hSorted : (boundaries img f).Pairwise (· < ·) := pairwise_sortUnique _
  have hBuilt : b ∈ buildBlocks img f (boundaries img f) (boundaries img f) := hb
  exact mem_buildBlocks (List.nil_append _).symm hSorted (fun _ => boundaries_spec hf)
    hf.end_aligned hBuilt

theorem map_buildBlocks (img : Image) {leaders before rest : List Word}
    (hSplit : leaders = before ++ rest)
    (hSorted : leaders.Pairwise (· < ·))
    (hLeaders : ∀ a ∈ leaders, inRange f a = true ∧ Aligned a) (hEnd : Aligned f.endAddr) :
    (buildBlocks img f leaders rest).map BasicBlock.startAddr = rest := by
  induction rest generalizing before with
  | nil => rfl
  | cons start rest ih =>
      have hNext : leaders = (before ++ [start]) ++ rest := by simp [hSplit]
      obtain ⟨hLt, hAligned, _, _⟩ := next_leader hSplit hSorted hLeaders hEnd
      have hStart : Aligned start := (hLeaders start (by simp [hSplit])).2
      rw [aligned_iff] at hAligned hStart
      have hStop := sub_four_toNat (a := rest.headD f.endAddr) (by omega)
      have hNonempty : ¬ rest.headD f.endAddr - 4#32 < start := by
        rw [BitVec.lt_def, hStop]
        omega
      rw [buildBlocks_cons]
      simp only [hNonempty, if_false, List.map_cons]
      rw [ih hNext]
      rfl

/-- Every leader has its block. -/
theorem map_startAddr_blocks (hf : f.Valid) :
    (analyzeFunction img f).blocks.map BasicBlock.startAddr = boundaries img f :=
  map_buildBlocks img (List.nil_append _).symm (pairwise_sortUnique _) (fun _ => boundaries_spec hf)
    hf.end_aligned

theorem hasBlock_iff (hf : f.Valid) {a : Word} :
    (analyzeFunction img f).hasBlock a = true ↔ a ∈ boundaries img f := by
  rw [← map_startAddr_blocks hf, ControlFlowGraph.hasBlock, List.any_eq_true, List.mem_map]
  simp only [beq_iff_eq]

/-- The blocks follow each other without overlap. -/
theorem pairwise_blocks (hf : f.Valid) :
    (analyzeFunction img f).blocks.Pairwise
      (fun b b' => b.endAddr.toNat < b'.startAddr.toNat) := by
  have hStarts : (analyzeFunction img f).blocks.Pairwise
      (fun b b' => b.startAddr < b'.startAddr) := by
    rw [← List.pairwise_map, map_startAddr_blocks hf]
    exact pairwise_sortUnique _
  refine hStarts.imp_of_mem fun hb hb' hLt => ?_
  have hLeader := (mem_blocks hf hb').2.leader
  rw [BitVec.lt_def] at hLt
  rcases (mem_blocks hf hb).2.no_leader _ hLeader with hLe | hAfter
  · omega
  · exact hAfter

theorem successors_eq {leaders : List Word} {b : BasicBlock}
    (hBuilt : b = buildBlock img f leaders b.startAddr b.endAddr) :
    b.successors = blockSuccessors f leaders b.endAddr b.exitInstr := by
  rw [congrArg BasicBlock.successors hBuilt, congrArg BasicBlock.exitInstr hBuilt]
  rfl

/-- A block ends where the next one starts, the last one with the function. -/
theorem buildBlocks_next {leaders before rest : List Word} (hSplit : leaders = before ++ rest)
    (hSorted : leaders.Pairwise (· < ·))
    (hLeaders : ∀ a ∈ leaders, inRange f a = true ∧ Aligned a) (hEnd : Aligned f.endAddr)
    {pre post : List BasicBlock} {b : BasicBlock}
    (hBlocks : buildBlocks img f leaders rest = pre ++ b :: post) :
    b.endAddr + 4#32 = (post.map BasicBlock.startAddr).headD f.endAddr := by
  induction rest generalizing before pre with
  | nil =>
      exact absurd (show [] = pre ++ b :: post from hBlocks).symm (by simp)
  | cons start rest ih =>
      have hNext : leaders = (before ++ [start]) ++ rest := by simp [hSplit]
      have hStarts := map_buildBlocks img hSplit hSorted hLeaders hEnd
      have hRest := map_buildBlocks img hNext hSorted hLeaders hEnd
      rw [buildBlocks_cons] at hBlocks hStarts
      split_ifs at hBlocks hStarts with hEmpty
      · rw [hRest] at hStarts
        exact absurd (congrArg List.length hStarts) (by simp)
      · cases pre with
        | nil =>
            obtain ⟨rfl, hPost⟩ := List.cons.inj hBlocks
            rw [← hPost, hRest, buildBlock]
            exact BitVec.sub_add_cancel _ _
        | cons first pre => exact ih hNext (List.cons.inj hBlocks).2

theorem next_block (hf : f.Valid) {pre post : List BasicBlock} {b : BasicBlock}
    (hBlocks : (analyzeFunction img f).blocks = pre ++ b :: post) :
    b.endAddr + 4#32 = (post.map BasicBlock.startAddr).headD f.endAddr :=
  buildBlocks_next (List.nil_append _).symm (pairwise_sortUnique _) (fun _ => boundaries_spec hf)
    hf.end_aligned hBlocks

/-- Successors are leaders of the function. -/
theorem mem_boundaries_of_successor (hf : f.Valid) {b : BasicBlock}
    (hb : b ∈ (analyzeFunction img f).blocks) {t : Word} (ht : t ∈ b.successors) :
    t ∈ boundaries img f := by
  rw [successors_eq (mem_blocks hf hb).1, blockSuccessors] at ht
  have hIn : ∀ {a : Word}, (inRange f a && (boundaries img f).contains a) = true →
      a ∈ boundaries img f := by
    intro a ha
    simpa using (Bool.and_eq_true_iff.mp ha).2
  cases hType : b.exitInstr.type <;> simp only [hType] at ht
  case branch =>
    rcases List.mem_append.mp ht with ht | ht <;> split_ifs at ht with hCond
    · rw [List.mem_singleton.mp ht]
      exact hIn hCond.2
    · cases ht
    · rw [List.mem_singleton.mp ht]
      exact hIn hCond
    · cases ht
  case jump =>
    split_ifs at ht with hCond
    · rw [List.mem_singleton.mp ht]
      exact hIn hCond.2
    · cases ht
  case jumpLink | jumpLinkReg | none =>
    split_ifs at ht with hCond
    · rw [List.mem_singleton.mp ht]
      exact hIn hCond
    · cases ht
  all_goals cases ht

/-- A branch is followed by its target and by the word after its slot, as far as
they are leaders. -/
theorem mem_successors_of_branch (hf : f.Valid) {b : BasicBlock}
    (hb : b ∈ (analyzeFunction img f).blocks) (hType : b.exitInstr.type = .branch) {t : Word}
    (hTarget : t = b.exitInstr.target ∨ t = b.exitInstr.address + 8#32)
    (hLeader : t ∈ boundaries img f) (hNonzero : t ≠ 0) : t ∈ b.successors := by
  have hIn : (inRange f t && (boundaries img f).contains t) = true := by
    rw [(boundaries_spec hf hLeader).1, Bool.true_and]
    simpa using hLeader
  rw [successors_eq (mem_blocks hf hb).1, blockSuccessors, hType]
  simp only [List.mem_append]
  rcases hTarget with rfl | rfl
  · left
    rw [if_pos ⟨hNonzero, hIn⟩]
    exact List.mem_cons_self
  · right
    rw [if_pos hIn]
    exact List.mem_cons_self

/-- Blocks are found by their start. -/
theorem find_startAddr (hf : f.Valid) {b : BasicBlock}
    (hb : b ∈ (analyzeFunction img f).blocks) :
    (analyzeFunction img f).find b.startAddr = some b := by
  have hNodup : ((analyzeFunction img f).blocks.map BasicBlock.startAddr).Nodup := by
    rw [map_startAddr_blocks hf]
    exact (pairwise_sortUnique _).imp fun hLt hEq => by
      rw [hEq] at hLt
      exact BitVec.lt_irrefl _ hLt
  cases hFind : (analyzeFunction img f).find b.startAddr with
  | none =>
      have hNone := List.find?_eq_none.mp hFind b hb
      simp at hNone
  | some b' =>
      have hMem := List.mem_of_find?_eq_some hFind
      have hStart : b'.startAddr = b.startAddr := by
        simpa using List.find?_some hFind
      rw [List.inj_on_of_nodup_map hNodup hMem hb hStart]

theorem eq_of_startAddr (hf : f.Valid) {b b' : BasicBlock}
    (hb : b ∈ (analyzeFunction img f).blocks) (hb' : b' ∈ (analyzeFunction img f).blocks)
    (hStart : b.startAddr = b'.startAddr) : b = b' := by
  have hFind := find_startAddr hf hb'
  rw [← hStart, find_startAddr hf hb] at hFind
  exact Option.some.inj hFind

/-- The last block has no successor in line. -/
theorem successors_last {b : BasicBlock}
    (hBuilt : b = buildBlock img f (boundaries img f) b.startAddr b.endAddr)
    (hType : b.exitInstr.type = .none) (hEnd : b.endAddr + 4#32 = f.endAddr) :
    b.successors = [] := by
  have hOut : inRange f f.endAddr = false := by
    refine decide_eq_false ?_
    rintro ⟨_, hLt⟩
    exact BitVec.lt_irrefl _ hLt
  rw [successors_eq hBuilt, blockSuccessors, hType]
  simp only [hEnd, hOut, Bool.false_and, Bool.false_eq_true, if_false]

/-- A block without transfer goes on into the next one. -/
theorem successors_next (hf : f.Valid) {b next : BasicBlock}
    (hBuilt : b = buildBlock img f (boundaries img f) b.startAddr b.endAddr)
    (hNext : next ∈ (analyzeFunction img f).blocks) (hType : b.exitInstr.type = .none)
    (hEnd : b.endAddr + 4#32 = next.startAddr) : b.successors = [next.startAddr] := by
  have hLeader : next.startAddr ∈ boundaries img f := (mem_blocks hf hNext).2.leader
  have hIn : (inRange f next.startAddr && (boundaries img f).contains next.startAddr) = true := by
    rw [(boundaries_spec hf hLeader).1, Bool.true_and]
    exact List.contains_iff_mem.mpr hLeader
  rw [successors_eq hBuilt, blockSuccessors, hType]
  simp only [hEnd, hIn, if_true]

/-- A block exit that transfers control: the word it was read from, and where it
stands. -/
structure ExitInstr (img : Image) (b : BasicBlock) (w : Word) : Prop where
  read : img.readWord b.exitInstr.address = some w
  transfers : isControlFlow w = true
  analyzed : b.exitInstr = analyzeInstruction b.exitInstr.address w
  position : b.exitInstr.address = b.endAddr ∨
    (b.exitInstr.address = b.endAddr - 4#32 ∧ b.startAddr < b.endAddr)

@[simp] theorem analyzeInstruction_address (addr w : Word) :
    (analyzeInstruction addr w).address = addr := by
  unfold analyzeInstruction
  cases Op.ofWord w <;> rfl

@[simp] theorem analyzeInstruction_instruction (addr w : Word) :
    (analyzeInstruction addr w).instruction = w := by
  unfold analyzeInstruction
  cases Op.ofWord w <;> rfl

theorem analyzeInstruction_hasDelaySlot {w : Word} (addr : Word) (h : isControlFlow w = true) :
    (analyzeInstruction addr w).hasDelaySlot = true ∧ (analyzeInstruction addr w).type ≠ .none := by
  unfold isControlFlow at h
  unfold analyzeInstruction
  cases hOp : Op.ofWord w <;> simp only [hOp, reduceCtorEq] at h ⊢
  case jr => split_ifs <;> exact ⟨trivial, by decide⟩
  all_goals exact ⟨trivial, by decide⟩

theorem transferAt_eq_some {addr : Word} {cf : ControlFlowInstr}
    (h : transferAt img addr = some cf) :
    ∃ w, img.readWord addr = some w ∧ isControlFlow w = true ∧ cf = analyzeInstruction addr w := by
  unfold transferAt at h
  split at h
  · cases h
  next w hRead =>
    split_ifs at h with hFlow
    exact ⟨w, hRead, hFlow, (Option.some.inj h).symm⟩

theorem blockExit_cases (img : Image) (start stop : Word) :
    (∃ cf, blockExit img start stop = cf ∧ transferAt img (stop - 4#32) = some cf ∧
        start < stop) ∨
      (∃ cf, blockExit img start stop = cf ∧ transferAt img stop = some cf) ∨
      (blockExit img start stop).type = .none := by
  unfold blockExit
  split
  next cf hPrev =>
    split_ifs at hPrev with hLt
    exact .inl ⟨cf, rfl, hPrev, hLt⟩
  next =>
    cases hLast : transferAt img stop with
    | none => exact .inr (.inr rfl)
    | some cf => exact .inr (.inl ⟨cf, rfl, rfl⟩)

theorem exitInstr_of_mem_blocks (hf : f.Valid) {b : BasicBlock}
    (hb : b ∈ (analyzeFunction img f).blocks) (hType : b.exitInstr.type ≠ .none) :
    ∃ w, ExitInstr img b w := by
  have hBuilt := (mem_blocks hf hb).1
  have hExit : b.exitInstr = blockExit img b.startAddr b.endAddr :=
    congrArg BasicBlock.exitInstr hBuilt
  rcases blockExit_cases img b.startAddr b.endAddr with ⟨cf, hcf, hAt, hLt⟩ | ⟨cf, hcf, hAt⟩ | hNone
  · obtain ⟨w, hRead, hFlow, rfl⟩ := transferAt_eq_some hAt
    rw [hcf] at hExit
    have hAddress : b.exitInstr.address = b.endAddr - 4#32 := by simp [hExit]
    exact ⟨w, by rwa [hAddress], hFlow, by rw [hAddress, hExit], .inr ⟨hAddress, hLt⟩⟩
  · obtain ⟨w, hRead, hFlow, rfl⟩ := transferAt_eq_some hAt
    rw [hcf] at hExit
    have hAddress : b.exitInstr.address = b.endAddr := by simp [hExit]
    exact ⟨w, by rwa [hAddress], hFlow, by rw [hAddress, hExit], .inl hAddress⟩
  · rw [← hExit] at hNone
    exact absurd hNone hType

/-- The words of a block that transfer control: the exit, and at most the slot
behind it. -/
theorem transfer_position (hf : f.Valid) {b : BasicBlock}
    (hb : b ∈ (analyzeFunction img f).blocks) {a w : Word} (hAligned : Aligned a)
    (hLo : b.startAddr.toNat ≤ a.toNat) (hHi : a.toNat ≤ b.endAddr.toNat)
    (hRead : img.readWord a = some w) (hFlow : isControlFlow w = true) :
    b.exitInstr.type ≠ .none ∧
      (a = b.exitInstr.address ∨ (a = b.endAddr ∧ b.exitInstr.address = b.endAddr - 4#32)) := by
  have hExtent := (mem_blocks hf hb).2
  have hStart := of_decide_eq_true (boundaries_spec hf hExtent.leader).1
  have hImage := img.readWord_range hRead
  have hEnd := hExtent.end_aligned
  have hEndLt := hExtent.end_lt
  have hWalk := hf.walk_aligned
  rw [aligned_iff] at hAligned hEnd hWalk
  rw [BitVec.le_def, BitVec.lt_def] at hStart
  have hAfter : (a + 8#32).toNat = a.toNat + 8 := by
    rw [BitVec.toNat_add, BitVec.toNat_ofNat]
    omega
  -- the word after the slot leads a block, so the transfer stands at the end of this one
  have hLate : b.endAddr.toNat < a.toNat + 8 := by
    by_cases hInside : a.toNat + 8 < f.endAddr.toNat
    · have hRange : inRange f (a + 8#32) = true := by
        refine decide_eq_true ?_
        rw [BitVec.le_def, BitVec.lt_def, hAfter]
        omega
      have hLeader : a + 8#32 ∈ boundaries img f :=
        (mem_boundaries).mpr (.inr (.inr ⟨a, mem_addrRange_of (by omega) (by omega) (by omega),
          (mem_scanBoundaries).mpr ⟨w, hRead, (mem_wordBoundaries).mpr ⟨hFlow, hRange, .inr rfl⟩⟩⟩))
      have := hExtent.no_leader _ hLeader
      omega
    · omega
  have hTransfer : transferAt img a = some (analyzeInstruction a w) := by
    simp only [transferAt, hRead, hFlow, if_true]
  have hExit : b.exitInstr = blockExit img b.startAddr b.endAddr :=
    congrArg BasicBlock.exitInstr (mem_blocks hf hb).1
  by_cases hPrev : a.toNat + 4 = b.endAddr.toNat
  · have hAt : b.endAddr - 4#32 = a := by
      apply BitVec.eq_of_toNat_eq
      rw [sub_four_toNat (by omega)]
      omega
    have hLt : b.startAddr < b.endAddr := by
      rw [BitVec.lt_def]
      omega
    have hThis : b.exitInstr = analyzeInstruction a w := by
      rw [hExit, blockExit, if_pos hLt, hAt, hTransfer]
    exact ⟨by rw [hThis]; exact (analyzeInstruction_hasDelaySlot a hFlow).2,
      .inl (by rw [hThis, analyzeInstruction_address])⟩
  · have hAt : a = b.endAddr := BitVec.eq_of_toNat_eq (by omega)
    subst hAt
    cases hBefore : (if b.startAddr < b.endAddr then transferAt img (b.endAddr - 4#32)
        else none) with
    | none =>
        have hThis : b.exitInstr = analyzeInstruction b.endAddr w := by
          rw [hExit, blockExit, hBefore, hTransfer, Option.getD_some]
        exact ⟨by rw [hThis]; exact (analyzeInstruction_hasDelaySlot _ hFlow).2,
          .inl (by rw [hThis, analyzeInstruction_address])⟩
    | some cf =>
        split_ifs at hBefore with hLt
        obtain ⟨v, _, hFlow', rfl⟩ := transferAt_eq_some hBefore
        have hThis : b.exitInstr = analyzeInstruction (b.endAddr - 4#32) v := by
          rw [hExit, blockExit, if_pos hLt, hBefore]
        exact ⟨by rw [hThis]; exact (analyzeInstruction_hasDelaySlot _ hFlow').2,
          .inr ⟨rfl, by rw [hThis, analyzeInstruction_address]⟩⟩

end RecompStudio.CodeGen
