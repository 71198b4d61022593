import RecompStudio.Interp.Step

/-!
The jump trampolines that `psx_unknown_dispatch` resolves in RAM, against the interpreter
on the same words.
-/

namespace RecompStudio.Interp

open RecompStudio.Emitted
open RecompStudio.Insn

variable {M : Type}

@[grind =] def readWord (bus : Bus M) (addr : Word) (s : CPUState M) : Word × CPUState M :=
  ((bus.readWord addr s.mem).1, { s with mem := (bus.readWord addr s.mem).2 })

/-- `jr` of a register, with its unused fields zero. -/
def isJrOf (w : Word) (r : RegIndex) : Bool := w &&& 0xFC1FFFFF#32 == 8#32 && rs w == r

/-- The delay slot of the third pattern: a small constant is loaded into a register. -/
def slotConstant (w : Word) (s : CPUState M) : CPUState M :=
  if opcode w = 0x09 ∧ rs w = 0 then s.setGpr (rt w) (simm w) else s

/-- `computed`, when there is a target. -/
def luiTarget (w0 w1 : Word) : Option Word :=
  let hiVal := (w0 &&& 0xFFFF#32) <<< 16
  if opcode w1 = 0x09 ∧ rs w1 = rt w0 ∧ rt w1 = rt w0 then some (hiVal + simm w1)
  else if opcode w1 = 0x0D ∧ rs w1 = rt w0 ∧ rt w1 = rt w0 then some (hiVal ||| (w1 &&& 0xFFFF#32))
  else none

/-- The masks of the fifth pattern, up to its jump. -/
def isTableWalk (w0 w2 w3 w4 : Word) : Bool :=
  w2 &&& 0xFC0007FF#32 == 0x80#32 && w3 &&& 0xFC0007FE#32 == 0x20#32 && rs w3 == rt w0 &&
    rt w3 == rd w2 && rd w3 == rt w0 &&
    w4 &&& 0xFFFF0000#32 ==
      (0x8C000000#32 ||| (rt w0).zeroExtend 32 <<< 21 ||| (rt w0).zeroExtend 32 <<< 16)

/-- The fifth pattern, the vector dispatch through a table. -/
def resolveTable (bus : Bus M) (addr w0 w2 computed : Word) (s : CPUState M) :
    Option (CPUState M) :=
  let (w3, s) := readWord bus (addr + 12#32) s
  let (w4, s) := readWord bus (addr + 16#32) s
  let (w5, s) := readWord bus (addr + 20#32) s
  if isTableWalk w0 w2 w3 w4 then
    let (jrWord, s) := if w5 = 0 then readWord bus (addr + 24#32) s else (w5, s)
    if isJrOf jrWord (rt w0) then
      let (funcPtr, s) := readWord bus (computed + s.gpr (rt w2) <<< 2) s
      some { s with pc := funcPtr }
    else none
  else none

/-- The patterns of `psx_unknown_dispatch`, behind its checks of the address. -/
def resolveTrampoline (bus : Bus M) (addr : Word) (s : CPUState M) : Option (CPUState M) :=
  let (w0, s) := readWord bus addr s
  let (w1, s) := readWord bus (addr + 4#32) s
  let (w2, s) := readWord bus (addr + 8#32) s
  if opcode w0 = 0x02 then
    some { s with pc := (addr &&& 0xF0000000#32) ||| ((w0 &&& 0x03FFFFFF#32) <<< 2) }
  else if opcode w0 = 0x00 ∧ w0 &&& 0x3F#32 = 8#32 then some { s with pc := s.gpr (rs w0) }
  else if opcode w0 = 0x09 ∧ rs w0 = 0 ∧ isJrOf w1 (rt w0) then
    some { slotConstant w2 s with pc := simm w0 }
  else if opcode w0 = 0x0F then
    match luiTarget w0 w1 with
    | some computed =>
        if isJrOf w2 (rt w0) then some { s with pc := computed }
        else resolveTable bus addr w0 w2 computed s
    | none => none
  else none

/-- The word with number `k` behind an address. -/
def wordAddr (addr : Word) (k : Nat) : Word := addr + BitVec.ofNat 32 (4 * k)

/-- The words behind an address, as the interpreter fetches them. -/
def wordsAt (fetch : Word → Word) (addr : Word) (k : Nat) : Word := fetch (wordAddr addr k)

/-- The words at an address are read without effect. -/
def CodeAt (bus : Bus M) (addr : Word) (code : Nat → Word) (m : M) : Prop :=
  ∀ k < 8, bus.readWord (wordAddr addr k) m = (code k, m)

/-- The interpreter accepts the words, and ends with the same program counter, registers
and memory. -/
def Agrees (s : CPUState M) (r : Option (InterpState M)) : Prop :=
  ∃ j, r = some j ∧ j.unsupported = false ∧ j.cpu.pc = s.pc ∧ j.cpu.gpr = s.gpr ∧
    j.cpu.mem = s.mem

/-- A field that a mask keeps whole. -/
theorem field_of_mask {w m v : Word} (lo n : Nat) (hMask : w &&& m = v)
    (hOnes : m.extractLsb' lo n = BitVec.allOnes n) :
    w.extractLsb' lo n = v.extractLsb' lo n := by
  rw [← hMask, BitVec.extractLsb'_and, hOnes, BitVec.and_allOnes]

theorem ofWord_special {w : Word} (hOpcode : opcode w = 0) :
    Op.ofWord w = Op.ofFunct (funct w) := by
  rw [Op.ofWord, hOpcode]
  rfl

theorem ofWord_jr {w : Word} (hOpcode : opcode w = 0) (hFunct : funct w = 8) :
    Op.ofWord w = .jr := by
  rw [ofWord_special hOpcode, hFunct]
  rfl

theorem isJrOf_spec {w : Word} {r : RegIndex} (hJr : isJrOf w r = true) :
    Op.ofWord w = .jr ∧ rs w = r := by
  obtain ⟨hMask, hRs⟩ := Bool.and_eq_true_iff.mp hJr
  have hMask := eq_of_beq hMask
  exact ⟨ofWord_jr (field_of_mask 26 6 hMask (by decide)) (field_of_mask 0 6 hMask (by decide)),
    eq_of_beq hRs⟩

/-- `add` and `addu` differ in the lowest bit. -/
theorem add_or_addu {w : Word} (hMask : w &&& 0xFC0007FE#32 = 0x20#32) :
    Op.ofWord w = .add ∨ Op.ofWord w = .addu := by
  have hOpcode : opcode w = 0 := field_of_mask 26 6 hMask (by decide)
  have hHigh : w.extractLsb' 1 5 = 0x10#5 := field_of_mask 1 5 hMask (by decide)
  have hFunct : (funct w).extractLsb' 1 5 = 0x10#5 := by
    rw [← hHigh, funct, BitVec.extractLsb'_extractLsb'_of_le (by decide)]
  have hCases : ∀ f : BitVec 6, f.extractLsb' 1 5 = 0x10#5 → f = 0x20 ∨ f = 0x21 := by decide
  rw [ofWord_special hOpcode]
  rcases hCases (funct w) hFunct with hAdd | hAddu
  · rw [hAdd]
    exact Or.inl rfl
  · rw [hAddu]
    exact Or.inr rfl

/-- The masked load of the fifth pattern: any offset is accepted. -/
theorem lw_spec {w : Word} {r : RegIndex} (hMask : w &&& 0xFFFF0000#32 =
    (0x8C000000#32 ||| r.zeroExtend 32 <<< 21 ||| r.zeroExtend 32 <<< 16)) :
    Op.ofWord w = .lw ∧ rs w = r ∧ rt w = r := by
  have hFields : ∀ r : RegIndex, opcode (0x8C000000#32 ||| r.zeroExtend 32 <<< 21 |||
        r.zeroExtend 32 <<< 16) = 0x23 ∧
      rs (0x8C000000#32 ||| r.zeroExtend 32 <<< 21 ||| r.zeroExtend 32 <<< 16) = r ∧
      rt (0x8C000000#32 ||| r.zeroExtend 32 <<< 21 ||| r.zeroExtend 32 <<< 16) = r := by decide
  obtain ⟨hOpcode, hRs, hRt⟩ := hFields r
  have hOp : opcode w = 0x23 := (field_of_mask 26 6 hMask (by decide)).trans hOpcode
  refine ⟨?_, (field_of_mask 21 5 hMask (by decide)).trans hRs,
    (field_of_mask 16 5 hMask (by decide)).trans hRt⟩
  rw [Op.ofWord, hOp]
  rfl

variable {h : Host M} {addr : Word} {fetch : Word → Word} {s t : CPUState M}
variable {code : Nat → Word} {fuel depth k : Nat}

/-- The operations of the matched words that are no jumps. -/
def plainOps : List Op := [.lui, .addiu, .ori, .sll, .add, .addu, .lw]

theorem transferTarget_plain {pc w : Word} (hPlain : Op.ofWord w ∈ plainOps) :
    transferTarget pc w s = none := by
  simp only [plainOps, List.mem_cons, List.not_mem_nil, or_false] at hPlain
  rcases hPlain with hOp | hOp | hOp | hOp | hOp | hOp | hOp <;>
    simp only [transferTarget, branchTaken, hOp, Option.map_none]

theorem wordAddr_succ (addr : Word) (k : Nat) : wordAddr addr k + 4#32 = wordAddr addr (k + 1) := by
  rw [wordAddr, wordAddr, BitVec.add_assoc, Nat.mul_succ, BitVec.ofNat_add]

/-- The interpreter at the word with number `k`. -/
def interpretFrom (h : Host M) (fetch : Word → Word) (addr : Word) (depth fuel k : Nat)
    (s : CPUState M) : Option (InterpState M) :=
  (StepHost.onWords h fetch).interpret depth fuel (wordAddr addr k) (.ofCpu s)

theorem interpretFrom_plain (hWords : wordsAt fetch addr = code)
    (hPlain : Op.ofWord (code k) ∈ plainOps)
    (hExec : execPlain h (wordAddr addr k) (code k) s = .advance t) :
    interpretFrom h fetch addr depth (fuel + 1) k s =
      interpretFrom h fetch addr depth fuel (k + 1) t := by
  subst hWords
  rw [interpretFrom, StepHost.interpret_onWords_advance rfl (transferTarget_plain hPlain) hExec,
    wordAddr_succ]
  rfl

/-- What the delay slot at `pc` leaves, executed in `t`. -/
def slotLeaves (h : Host M) (fetch : Word → Word) (depth : Nat) (pc : Word) (t : CPUState M) :
    Option (InterpState M) :=
  (StepHost.onWords h fetch).execDelaySlot true depth pc (.ofCpu t)

theorem interpretFrom_jr (hWords : wordsAt fetch addr = code) (hOp : Op.ofWord (code k) = .jr) :
    interpretFrom h fetch addr depth (fuel + 1) k s =
      (slotLeaves h fetch depth (wordAddr addr (k + 1)) s).map
        (InterpState.setPc · (s.gpr (rs (code k)))) := by
  subst hWords
  have hTarget : transferTarget (wordAddr addr k) (wordsAt fetch addr k) s =
      some (s.gpr (rs (wordsAt fetch addr k))) := by
    rw [transferTarget, hOp]
  have hLink : linkWrite (wordAddr addr k) (wordsAt fetch addr k) s = s := by
    simp only [linkWrite, branchLinks, hOp, Bool.false_eq_true, if_false]
  rw [interpretFrom, StepHost.interpret_onWords_transfer (w := wordsAt fetch addr k) rfl hTarget,
    hLink, wordAddr_succ]
  rfl

theorem interpretFrom_j (hWords : wordsAt fetch addr = code) (hOp : Op.ofWord (code k) = .j) :
    interpretFrom h fetch addr depth (fuel + 1) k s =
      (slotLeaves h fetch depth (wordAddr addr (k + 1)) s).map
        (InterpState.setPc · (jumpTarget (wordAddr addr k) (code k))) := by
  subst hWords
  have hTarget : transferTarget (wordAddr addr k) (wordsAt fetch addr k) s =
      some (jumpTarget (wordAddr addr k) (wordsAt fetch addr k)) := by
    rw [transferTarget, hOp]
  have hLink : linkWrite (wordAddr addr k) (wordsAt fetch addr k) s = s := by
    simp only [linkWrite, branchLinks, hOp, Bool.false_eq_true, if_false]
  rw [interpretFrom, StepHost.interpret_onWords_transfer (w := wordsAt fetch addr k) rfl hTarget,
    hLink, wordAddr_succ]
  rfl

/-- The delay slot at `pc` is accepted and, executed in `t`, gives the registers and the
memory of `u`. -/
def SlotGives (h : Host M) (fetch : Word → Word) (depth : Nat) (pc : Word)
    (t u : CPUState M) : Prop :=
  ∃ j, slotLeaves h fetch depth pc t = some j ∧ j.unsupported = false ∧ j.cpu.gpr = u.gpr ∧
    j.cpu.mem = u.mem

/-- A jump ends like a resolved trampoline if and only if it goes to the same target and
its delay slot leaves the same registers and memory. -/
theorem agrees_jump (u : CPUState M) {pc target p : Word} :
    Agrees { u with pc := p }
        ((slotLeaves h fetch depth pc t).map (InterpState.setPc · target)) ↔
      target = p ∧ SlotGives h fetch depth pc t u := by
  constructor
  · rintro ⟨i, hEq, hFlag, hPc, hGpr, hMem⟩
    obtain ⟨j, hSlot, rfl⟩ := Option.map_eq_some_iff.mp hEq
    exact ⟨hPc, j, hSlot, hFlag, hGpr, hMem⟩
  · rintro ⟨hPc, j, hSlot, hFlag, hGpr, hMem⟩
    exact ⟨j.setPc target, by rw [hSlot, Option.map_some], hFlag, hPc, hGpr, hMem⟩

/-- A trampoline that is resolved. The jump of a table walk is word 5 or word 6. -/
inductive Trampoline where
  | jump
  | jumpRegister
  | loadImmediate
  | address (computed : Word)
  | table (computed : Word) (jr : Nat)

/-- The trampoline that words are recognised as. -/
inductive Recognised (code : Nat → Word) : Trampoline → Prop where
  | jump (hOp : Op.ofWord (code 0) = .j) : Recognised code .jump
  | jumpRegister (hOp : Op.ofWord (code 0) = .jr) : Recognised code .jumpRegister
  | loadImmediate (hOp : Op.ofWord (code 0) = .addiu) (hRs : rs (code 0) = 0)
      (hJr : Op.ofWord (code 1) = .jr) (hRn : rs (code 1) = rt (code 0)) :
      Recognised code .loadImmediate
  | address {computed : Word} (hOp : Op.ofWord (code 0) = .lui)
      (hTarget : luiTarget (code 0) (code 1) = some computed)
      (hJr : Op.ofWord (code 2) = .jr) (hRn : rs (code 2) = rt (code 0)) :
      Recognised code (.address computed)
  | table {computed : Word} {jr : Nat} (hOp : Op.ofWord (code 0) = .lui)
      (hTarget : luiTarget (code 0) (code 1) = some computed)
      (hWalk : isTableWalk (code 0) (code 2) (code 3) (code 4) = true)
      (hNop : jr = 5 ∨ jr = 6 ∧ code 5 = 0)
      (hJr : Op.ofWord (code jr) = .jr) (hRn : rs (code jr) = rt (code 0)) :
      Recognised code (.table computed jr)

/-- What a resolved trampoline does to the state. -/
def resolved (bus : Bus M) (addr : Word) (code : Nat → Word) (s : CPUState M) :
    Trampoline → CPUState M
  | .jump =>
      { s with pc := (addr &&& 0xF0000000#32) ||| ((code 0 &&& 0x03FFFFFF#32) <<< 2) }
  | .jumpRegister => { s with pc := s.gpr (rs (code 0)) }
  | .loadImmediate => { slotConstant (code 2) s with pc := simm (code 0) }
  | .address computed => { s with pc := computed }
  | .table computed _ =>
      let r := readWord bus (computed + s.gpr (rt (code 2)) <<< 2) s
      { r.2 with pc := r.1 }

section Patterns

variable {h : Host M} {bus : Bus M} {addr : Word} {code : Nat → Word} {s s' : CPUState M}

theorem readWord_code (hCode : CodeAt bus addr code s.mem) {k : Nat} (hk : k < 8) {a : Word}
    (ha : a = wordAddr addr k) : readWord bus a s = (code k, s) := by
  rw [readWord, ha, hCode k hk]

/-- The fifth pattern reads the words of a table walk. -/
theorem resolveTable_spec (hCode : CodeAt bus addr code s.mem) {computed : Word}
    (hOp : Op.ofWord (code 0) = .lui) (hTarget : luiTarget (code 0) (code 1) = some computed)
    (hResolved : resolveTable bus addr (code 0) (code 2) computed s = some s') :
    ∃ t, Recognised code t ∧ s' = resolved bus addr code s t := by
  have hRead3 : readWord bus (addr + 12#32) s = (code 3, s) := readWord_code hCode (by decide) rfl
  have hRead4 : readWord bus (addr + 16#32) s = (code 4, s) := readWord_code hCode (by decide) rfl
  have hRead5 : readWord bus (addr + 20#32) s = (code 5, s) := readWord_code hCode (by decide) rfl
  have hRead6 : readWord bus (addr + 24#32) s = (code 6, s) := readWord_code hCode (by decide) rfl
  simp only [resolveTable, hRead3, hRead4, hRead5, hRead6] at hResolved
  by_cases hWalk : isTableWalk (code 0) (code 2) (code 3) (code 4) = true
  swap
  · rw [if_neg hWalk] at hResolved
    exact (nomatch hResolved)
  rw [if_pos hWalk] at hResolved
  -- The jump is behind the load, or behind a nop.
  obtain ⟨jr, hNop, hWord⟩ : ∃ jr, (jr = 5 ∨ jr = 6 ∧ code 5 = 0) ∧
      (if code 5 = 0 then (code 6, s) else (code 5, s)) = (code jr, s) := by
    by_cases hZero : code 5 = 0
    · exact ⟨6, Or.inr ⟨rfl, hZero⟩, if_pos hZero⟩
    · exact ⟨5, Or.inl rfl, if_neg hZero⟩
  simp only [hWord] at hResolved
  by_cases hJr : isJrOf (code jr) (rt (code 0)) = true
  · rw [if_pos hJr] at hResolved
    obtain ⟨hJrOp, hRn⟩ := isJrOf_spec hJr
    exact ⟨.table computed jr, .table hOp hTarget hWalk hNop hJrOp hRn,
      (Option.some.inj hResolved).symm⟩
  · rw [if_neg hJr] at hResolved
    exact (nomatch hResolved)

/-- Whatever is resolved is one of the patterns. -/
theorem resolveTrampoline_spec (hCode : CodeAt bus addr code s.mem)
    (hResolved : resolveTrampoline bus addr s = some s') :
    ∃ t, Recognised code t ∧ s' = resolved bus addr code s t := by
  have hRead0 : readWord bus addr s = (code 0, s) :=
    readWord_code hCode (by decide) (BitVec.add_zero addr).symm
  have hRead1 : readWord bus (addr + 4#32) s = (code 1, s) := readWord_code hCode (by decide) rfl
  have hRead2 : readWord bus (addr + 8#32) s = (code 2, s) := readWord_code hCode (by decide) rfl
  simp only [resolveTrampoline, hRead0, hRead1, hRead2] at hResolved
  by_cases hJ : opcode (code 0) = 0x02
  · rw [if_pos hJ] at hResolved
    refine ⟨.jump, .jump ?_, (Option.some.inj hResolved).symm⟩
    rw [Op.ofWord, hJ]
    rfl
  rw [if_neg hJ] at hResolved
  by_cases hJr : opcode (code 0) = 0x00 ∧ code 0 &&& 0x3F#32 = 8#32
  · rw [if_pos hJr] at hResolved
    exact ⟨.jumpRegister, .jumpRegister (ofWord_jr hJr.1 (field_of_mask 0 6 hJr.2 (by decide))),
      (Option.some.inj hResolved).symm⟩
  rw [if_neg hJr] at hResolved
  by_cases hLi : opcode (code 0) = 0x09 ∧ rs (code 0) = 0 ∧ isJrOf (code 1) (rt (code 0)) = true
  · rw [if_pos hLi] at hResolved
    obtain ⟨hOp, hRs, hJump⟩ := hLi
    obtain ⟨hJrOp, hRn⟩ := isJrOf_spec hJump
    refine ⟨.loadImmediate, .loadImmediate ?_ hRs hJrOp hRn, (Option.some.inj hResolved).symm⟩
    rw [Op.ofWord, hOp]
    rfl
  rw [if_neg hLi] at hResolved
  by_cases hLui : opcode (code 0) = 0x0F
  swap
  · rw [if_neg hLui] at hResolved
    exact (nomatch hResolved)
  rw [if_pos hLui] at hResolved
  have hOp : Op.ofWord (code 0) = .lui := by
    rw [Op.ofWord, hLui]
    rfl
  cases hTarget : luiTarget (code 0) (code 1) with
  | none =>
      rw [hTarget] at hResolved
      exact (nomatch hResolved)
  | some computed =>
      simp only [hTarget] at hResolved
      by_cases hJump : isJrOf (code 2) (rt (code 0)) = true
      · rw [if_pos hJump] at hResolved
        obtain ⟨hJrOp, hRn⟩ := isJrOf_spec hJump
        exact ⟨.address computed, .address hOp hTarget hJrOp hRn, (Option.some.inj hResolved).symm⟩
      · rw [if_neg hJump] at hResolved
        exact resolveTable_spec hCode hOp hTarget hResolved

end Patterns

/-- The registers in front of the jump of a table walk, the pointer that is loaded and what
is loaded. -/
def walkedState (code : Nat → Word) (computed : Word) (s : CPUState M) : CPUState M :=
  let s2 := writeGpr s (rt (code 0)) computed
  let s3 := writeGpr s2 (rd (code 2)) (s2.gpr (rt (code 2)) <<< 2)
  writeGpr s3 (rt (code 0)) (s3.gpr (rt (code 0)) + s3.gpr (rd (code 2)))

def walkedPointer (code : Nat → Word) (computed : Word) (s : CPUState M) : Word :=
  (walkedState code computed s).gpr (rt (code 0)) + simm (code 4)

/-- The condition of each pattern: the registers that its words write make no difference
to the target, and with them written the delay slot leaves what the trampoline leaves. -/
def MeetsInterpreter (h : Host M) (fetch : Word → Word) (depth : Nat) (addr : Word)
    (code : Nat → Word) (s : CPUState M) : Trampoline → Prop
  | .jump =>
      (addr + 4#32) &&& 0xF0000000#32 = addr &&& 0xF0000000#32 ∧
        SlotGives h fetch depth (wordAddr addr 1) s s
  | .jumpRegister => SlotGives h fetch depth (wordAddr addr 1) s s
  | .loadImmediate =>
      (if rt (code 0) = 0 then simm (code 0) = 0 else s.gpr 0 = 0) ∧
        SlotGives h fetch depth (wordAddr addr 2) (writeGpr s (rt (code 0)) (simm (code 0)))
          (slotConstant (code 2) s)
  | .address computed =>
      (rt (code 0) = 0 → computed = 0) ∧
        SlotGives h fetch depth (wordAddr addr 3) (writeGpr s (rt (code 0)) computed) s
  | .table computed jr =>
      let r := h.bus.readWord (walkedPointer code computed s) s.mem
      let r' := h.bus.readWord (computed + s.gpr (rt (code 2)) <<< 2) s.mem
      (if rt (code 0) = 0 then 0 else r.1) = r'.1 ∧
        SlotGives h fetch depth (wordAddr addr (jr + 1))
          (writeGpr { walkedState code computed s with mem := r.2 } (rt (code 0)) r.1)
          { s with mem := r'.2 }

theorem uimm_eq (w : Word) : uimm w = w &&& 0xFFFF#32 := by
  refine BitVec.eq_of_toNat_eq ?_
  rw [uimm, imm16, BitVec.zeroExtend, BitVec.toNat_setWidth, BitVec.extractLsb'_toNat,
    BitVec.toNat_and]
  have hMask : w.toNat &&& 65535 = w.toNat % 2 ^ 16 := Nat.and_two_pow_sub_one_eq_mod _ 16
  have hToNat : (0xFFFF#32).toNat = 65535 := rfl
  rw [hToNat, hMask, Nat.shiftRight_zero]
  omega

/-- The region bits of a jump target. -/
theorem target_inj {a b w : Word} :
    (a &&& 0xF0000000#32) ||| ((w &&& 0x03FFFFFF#32) <<< 2) =
        (b &&& 0xF0000000#32) ||| ((w &&& 0x03FFFFFF#32) <<< 2) ↔
      a &&& 0xF0000000#32 = b &&& 0xF0000000#32 := by
  have hLow : ((w &&& 0x03FFFFFF#32) <<< 2) &&& 0xF0000000#32 = 0#32 := by
    rw [BitVec.shiftLeft_and_distrib, BitVec.and_assoc]
    exact BitVec.and_zero
  have hRegion (x : Word) : ((x &&& 0xF0000000#32) ||| ((w &&& 0x03FFFFFF#32) <<< 2)) &&&
      0xF0000000#32 = x &&& 0xF0000000#32 := by
    rw [BitVec.and_or_distrib_right, hLow, BitVec.or_zero, BitVec.and_assoc, BitVec.and_self]
  refine ⟨fun h => ?_, fun h => by rw [h]⟩
  rw [← hRegion a, ← hRegion b, h]

section Meets

variable (hWords : wordsAt fetch addr = code)

include hWords

/-- The words that set up an address leave it in its register. -/
theorem interpret_address {computed : Word} (hOp : Op.ofWord (code 0) = .lui)
    (hTarget : luiTarget (code 0) (code 1) = some computed) :
    interpretFrom h fetch addr depth 8 0 s =
      interpretFrom h fetch addr depth 6 2 (writeGpr s (rt (code 0)) computed) := by
  have hLui : execPlain h (wordAddr addr 0) (code 0) s =
      .advance (writeGpr s (rt (code 0)) (uimm (code 0) <<< 16)) := by
    simp only [execPlain, hOp, advanceWith]
  have hHigh : rt (code 0) ≠ 0 →
      (writeGpr s (rt (code 0)) (uimm (code 0) <<< 16)).gpr (rt (code 0)) =
        (code 0 &&& 0xFFFF#32) <<< 16 := by
    intro hRt
    rw [writeGpr_self _ _ _ hRt, uimm_eq]
  rw [interpretFrom_plain hWords (by rw [hOp]; decide) hLui]
  -- A write of the zero register is lost, and then so is the target.
  have hWritten {value : Word} (hValue : rt (code 0) ≠ 0 → value = computed) :
      writeGpr (writeGpr s (rt (code 0)) (uimm (code 0) <<< 16)) (rt (code 0)) value =
        writeGpr s (rt (code 0)) computed := by
    rw [writeGpr_twice]
    by_cases hRt : rt (code 0) = 0
    · rw [hRt]
      exact writeGpr_zero_reg s _ _
    · rw [hValue hRt]
  rw [luiTarget] at hTarget
  split_ifs at hTarget with hAddiu hOri
  · obtain ⟨hOpcode, hRs, hRt⟩ := hAddiu
    have hOp1 : Op.ofWord (code 1) = .addiu := by
      rw [Op.ofWord, hOpcode]
      rfl
    refine interpretFrom_plain hWords (by rw [hOp1]; decide) ?_
    simp only [execPlain, hOp1, advanceWith, hRs, hRt]
    exact congrArg _ (hWritten fun hNe => by rw [hHigh hNe]; exact Option.some.inj hTarget)
  · obtain ⟨hOpcode, hRs, hRt⟩ := hOri
    have hOp1 : Op.ofWord (code 1) = .ori := by
      rw [Op.ofWord, hOpcode]
      rfl
    refine interpretFrom_plain hWords (by rw [hOp1]; decide) ?_
    simp only [execPlain, hOp1, advanceWith, hRs, hRt]
    exact congrArg _ (hWritten fun hNe => by
      rw [hHigh hNe, uimm_eq]
      exact Option.some.inj hTarget)

/-- The words of a table walk, up to the load. -/
theorem interpret_walk {computed : Word}
    (hWalk : isTableWalk (code 0) (code 2) (code 3) (code 4) = true) :
    interpretFrom h fetch addr depth 6 2 (writeGpr s (rt (code 0)) computed) =
      interpretFrom h fetch addr depth 3 5
        (writeGpr { walkedState code computed s with
            mem := (h.bus.readWord (walkedPointer code computed s) s.mem).2 } (rt (code 0))
          (h.bus.readWord (walkedPointer code computed s) s.mem).1) := by
  simp only [isTableWalk, Bool.and_eq_true, beq_iff_eq] at hWalk
  obtain ⟨⟨⟨⟨⟨hSll, hAdd⟩, hRs3⟩, hRt3⟩, hRd3⟩, hLw⟩ := hWalk
  have hFunct : funct (code 2) = 0 := field_of_mask 0 6 hSll (by decide)
  have hOpcode : opcode (code 2) = 0 := field_of_mask 26 6 hSll (by decide)
  have hShamt : shamt (code 2) = 2 := field_of_mask 6 5 hSll (by decide)
  have hOp2 : Op.ofWord (code 2) = .sll := by
    rw [ofWord_special hOpcode, hFunct]
    rfl
  obtain ⟨hOp4, hRs4, hRt4⟩ := lw_spec hLw
  generalize hState : writeGpr s (rt (code 0)) computed = s2
  have hExec2 : execPlain h (wordAddr addr 2) (code 2) s2 =
      .advance (writeGpr s2 (rd (code 2)) (s2.gpr (rt (code 2)) <<< 2)) := by
    simp only [execPlain, hOp2, advanceWith, hShamt]
    rfl
  rw [interpretFrom_plain hWords (by rw [hOp2]; decide) hExec2]
  have hExec3 : execPlain h (wordAddr addr 3) (code 3)
      (writeGpr s2 (rd (code 2)) (s2.gpr (rt (code 2)) <<< 2)) =
        .advance (walkedState code computed s) := by
    rw [walkedState, hState]
    rcases add_or_addu hAdd with hOp3 | hOp3 <;>
      simp only [execPlain, hOp3, advanceWith, hRs3, hRt3, hRd3]
  have hPlain3 : Op.ofWord (code 3) ∈ plainOps := by
    rcases add_or_addu hAdd with hOp3 | hOp3 <;> rw [hOp3] <;> decide
  rw [interpretFrom_plain hWords hPlain3 hExec3]
  have hMem : (walkedState code computed s).mem = s.mem := rfl
  refine interpretFrom_plain hWords (by rw [hOp4]; decide) ?_
  simp only [execPlain, hOp4, execLoad, advanceWith, effectiveAddr, hRs4, hRt4, hMem, busLoad,
    walkedPointer]

/-- A trampoline that is resolved ends like the interpreter if and only if the condition of
its pattern holds. -/
theorem recognised_iff {t : Trampoline} (hRecognised : Recognised code t) :
    Agrees (resolved h.bus addr code s t) (interpretFrom h fetch addr depth 8 0 s) ↔
      MeetsInterpreter h fetch depth addr code s t := by
  cases hRecognised with
  | jump hOp =>
      rw [interpretFrom_j hWords hOp, resolved, agrees_jump, jumpTarget, wordAddr_succ, target_inj]
      exact Iff.rfl
  | jumpRegister hOp =>
      rw [interpretFrom_jr hWords hOp, resolved, agrees_jump]
      exact and_iff_right rfl
  | loadImmediate hOp hRs hJr hRn =>
      have hExec : execPlain h (wordAddr addr 0) (code 0) s =
          .advance (writeGpr s (rt (code 0)) (s.gpr 0 + simm (code 0))) := by
        simp only [execPlain, hOp, advanceWith, hRs]
      rw [interpretFrom_plain hWords (by rw [hOp]; decide) hExec, interpretFrom_jr hWords hJr,
        resolved, agrees_jump, hRn, MeetsInterpreter]
      by_cases hZero : rt (code 0) = 0
      · rw [if_pos hZero, hZero, writeGpr_gpr_zero, writeGpr_zero_reg s _ (simm (code 0)), eq_comm]
      · rw [if_neg hZero, writeGpr_self _ _ _ hZero, add_eq_right]
        refine and_congr_right fun hGpr => ?_
        rw [hGpr, zero_add]
  | address hOp hTarget hJr hRn =>
      rw [interpret_address hWords hOp hTarget, interpretFrom_jr hWords hJr, resolved, agrees_jump,
        hRn, MeetsInterpreter]
      by_cases hZero : rt (code 0) = 0
      · rw [hZero, writeGpr_gpr_zero, eq_comm]
        exact and_congr_left fun _ => ⟨fun h _ => h, fun h => h rfl⟩
      · rw [writeGpr_self _ _ _ hZero]
        exact and_congr_left fun _ => ⟨fun _ h => absurd h hZero, fun _ => rfl⟩
  | @table computed jr hOp hTarget hWalk hNop hJr hRn =>
      rw [interpret_address hWords hOp hTarget, interpret_walk hWords hWalk, MeetsInterpreter]
      simp only
      generalize hLoad : h.bus.readWord (walkedPointer code computed s) s.mem = r
      generalize hLoaded :
        writeGpr { walkedState code computed s with mem := r.2 } (rt (code 0)) r.1 = w
      have hGpr : w.gpr (rt (code 0)) = if rt (code 0) = 0 then 0 else r.1 := by
        rw [← hLoaded]
        by_cases hZero : rt (code 0) = 0
        · rw [if_pos hZero, hZero, writeGpr_gpr_zero]
        · rw [if_neg hZero, writeGpr_self _ _ _ hZero]
      have hJump : interpretFrom h fetch addr depth 3 5 w =
          (slotLeaves h fetch depth (wordAddr addr (jr + 1)) w).map
            (InterpState.setPc · (w.gpr (rt (code 0)))) := by
        rcases hNop with rfl | ⟨rfl, hNop⟩
        · rw [interpretFrom_jr hWords hJr, hRn]
        · have hSll : Op.ofWord (code 5) = .sll := by
            rw [hNop]
            rfl
          have hRd : rd (code 5) = 0 := by
            rw [hNop]
            rfl
          have hExec : execPlain h (wordAddr addr 5) (code 5) w = .advance w := by
            simp only [execPlain, hSll, advanceWith, hRd]
            rw [writeGpr_zero (hLoaded ▸ writeGpr_gpr_zero _ _ _)]
          rw [interpretFrom_plain hWords (by rw [hSll]; decide) hExec,
            interpretFrom_jr hWords hJr, hRn]
      rw [hJump, ← hGpr]
      exact agrees_jump { s with
        mem := (h.bus.readWord (computed + s.gpr (rt (code 2)) <<< 2) s.mem).2 }

end Meets

/-- Whatever `psx_unknown_dispatch` resolves is a recognised pattern, and it ends like the
interpreter on the same words if and only if the condition of the pattern holds. -/
theorem trampoline_meets_iff {s' : CPUState M}
    (hCode : CodeAt h.bus addr (wordsAt fetch addr) s.mem)
    (hResolved : resolveTrampoline h.bus addr s = some s') :
    ∃ t, Recognised (wordsAt fetch addr) t ∧ s' = resolved h.bus addr (wordsAt fetch addr) s t ∧
      (Agrees s' (interpretFrom h fetch addr depth 8 0 s) ↔
        MeetsInterpreter h fetch depth addr (wordsAt fetch addr) s t) := by
  obtain ⟨t, hRecognised, rfl⟩ := resolveTrampoline_spec hCode hResolved
  exact ⟨t, hRecognised, rfl, recognised_iff rfl hRecognised⟩

/-- Memory that holds words at an address and nothing else. An exception goes to the
vector, and leaves where it was raised. -/
def codeHost (addr : Word) (code : Nat → Word) : Host Unit where
  bus :=
    { readWord := fun a m => (code ((a - addr).toNat / 4), m)
      readHalf := fun _ m => (0, m)
      readByte := fun _ m => (0, m)
      writeWord := fun _ _ _ m => m
      writeHalf := fun _ _ _ m => m
      writeByte := fun _ _ _ m => m }
  gteCommand := fun _ g => g
  hostFn := fun _ a _ => a
  syscall := fun _ s => (false, s)
  raise := fun _ pc _ s =>
    { s with pc := 0x80000080#32, cop0 := Function.update s.cop0 14 pc }

def codeFetch (addr : Word) (code : Nat → Word) (a : Word) : Word :=
  code ((a - addr).toNat / 4)

def codeState (addr : Word) : CPUState Unit :=
  ⟨fun _ => 0, addr, 0, 0, fun _ => 0, fun _ => 0, fun _ => 0, ()⟩

/-- `j 0x80010000` with `mfc1` in its delay slot, which raises an exception while
coprocessor 1 is off: the jump goes to its target all the same. -/
def jumpCode : Nat → Word
  | 0 => 0x08004000#32
  | 1 => 0x44000000#32
  | _ => 0#32

theorem trampoline_meets_jump :
    ∃ t, Recognised (wordsAt (codeFetch 0x80000100#32 jumpCode) 0x80000100#32) t ∧
      { codeState 0x80000100#32 with pc := 0x80010000#32 } =
        resolved (codeHost 0x80000100#32 jumpCode).bus 0x80000100#32
          (wordsAt (codeFetch 0x80000100#32 jumpCode) 0x80000100#32) (codeState 0x80000100#32) t ∧
      (Agrees { codeState 0x80000100#32 with pc := 0x80010000#32 }
          (interpretFrom (codeHost 0x80000100#32 jumpCode) (codeFetch 0x80000100#32 jumpCode)
            0x80000100#32 1 8 0 (codeState 0x80000100#32)) ↔
        MeetsInterpreter (codeHost 0x80000100#32 jumpCode) (codeFetch 0x80000100#32 jumpCode) 1
          0x80000100#32 (wordsAt (codeFetch 0x80000100#32 jumpCode) 0x80000100#32)
          (codeState 0x80000100#32) t) := by
  have hCode : CodeAt (codeHost 0x80000100#32 jumpCode).bus 0x80000100#32
      (wordsAt (codeFetch 0x80000100#32 jumpCode) 0x80000100#32) () := fun _ _ => rfl
  exact trampoline_meets_iff hCode rfl

/-- `lui $t0, 0`, `addiu $t0, $t0, 0x5C4`, `jr $t0` and a nop: the vector that the kernel
writes. -/
def vectorCode : Nat → Word
  | 0 => 0x3C080000#32
  | 1 => 0x250805C4#32
  | 2 => 0x01000008#32
  | _ => 0#32

/-- The interpreter leaves the target in `$t0`, the resolved trampoline does not. -/
theorem vector_differs :
    ∃ s', resolveTrampoline (codeHost 0xA0#32 vectorCode).bus 0xA0#32 (codeState 0xA0#32) =
        some s' ∧
      ¬Agrees s' (interpretFrom (codeHost 0xA0#32 vectorCode) (codeFetch 0xA0#32 vectorCode)
        0xA0#32 1 8 0 (codeState 0xA0#32)) := by
  refine ⟨{ codeState 0xA0#32 with pc := 0x5C4#32 }, rfl, ?_⟩
  rintro ⟨j, hRun, _, _, hGpr, _⟩
  have hWritten : j.cpu.gpr 8 = 0x5C4#32 :=
    congrArg (fun i : InterpState Unit => i.cpu.gpr 8) (Option.some.inj (hRun.symm.trans rfl))
  rw [hGpr] at hWritten
  revert hWritten
  decide

end RecompStudio.Interp
