import RecompStudio.Cpu.State
import RecompStudio.Library.ByteMemory
import Mathlib.Data.List.FinRange
import Mathlib.Tactic.IntervalCases

/-!
The thread control blocks of the kernel: the context of a suspended thread in
guest memory, and the routines that write it and read it back.
-/

namespace RecompStudio.Threads

open CellStore

variable {M : Type}

/-- The memory callbacks of the CPU, as far as main memory goes. A write also
depends on the status register, whose cache-isolation bit drops it. -/
structure GuestMemory (M : Type) where
  read : M → Word → Word
  write : Word → Word → Word → M → M

/-- Writes go to the cache only. -/
def isolated (sr : Word) : Bool := sr.getLsbD 16

/-- The memory behind a status register. -/
def GuestMemory.store (G : GuestMemory M) (sr : Word) : Store M Word Word :=
  ⟨G.read, G.write sr⟩

/-- The status register pushed as at exception entry. -/
@[grind =] def pushStatus (sr : Word) : Word := (sr &&& ~~~0x3F#32) ||| ((sr &&& 0x0F#32) <<< 2)

/-- The status register popped as `rfe` does, with its oldest pair cleared. -/
@[grind =] def popStatus (sr : Word) : Word := (sr &&& 0xFFFFFFC0#32) ||| ((sr >>> 2) &&& 0x0F#32)

/-- `psx_scheduler_restore_status`. -/
def schedulerRestoreStatus (tcbStatus : Word) : Word :=
  if tcbStatus &&& 3#32 ≠ 0 then tcbStatus else popStatus tcbStatus

def sentinelPc : Word := 0x80000048#32

/-- `psx_is_dispatchable`. -/
def isDispatchable (pc : Word) : Bool := pc != 0 && pc != sentinelPc

/-- The registers of a saved context: all but `$zero` and `$k0`. -/
def savedRegs : List RegIndex :=
  ((List.finRange 32).map fun i => BitVec.ofNat 5 i.val).filter fun r => r != 0 && r != 26

/-- The place of a register in the save area. -/
def regOffset (r : RegIndex) : Word := r.zeroExtend 32 * 4#32

/-- The words of a context, by their place behind the TCB. -/
def contextWords (cpu : CPUState M) (resumePc : Word) : List (Word × Word) :=
  savedRegs.map (fun r => (8#32 + regOffset r, cpu.gpr r)) ++
    [(8#32 + 128#32, resumePc), (8#32 + 132#32, cpu.hi), (8#32 + 136#32, cpu.lo),
      (8#32 + 140#32, pushStatus cpu.sr), (8#32 + 144#32, cpu.cop0 13)]

variable (G : GuestMemory M)

/-- `psx_current_tcb_ptr`. -/
def currentTcbPtr (cpu : CPUState M) : Word :=
  let tcbh := G.read cpu.mem 0x108#32
  if tcbh = 0 then 0 else G.read cpu.mem tcbh

/-- `psx_set_current_tcb`. -/
def setCurrentTcb (cpu : CPUState M) (tcb : Word) : CPUState M :=
  let tcbh := G.read cpu.mem 0x108#32
  if tcbh = 0 then cpu else { cpu with mem := G.write cpu.sr tcbh tcb cpu.mem }

/-- `psx_is_valid_tcb`. -/
def isValidTcb (cpu : CPUState M) (tcb : Word) : Bool :=
  let base := G.read cpu.mem 0x110#32
  let size := G.read cpu.mem 0x114#32
  base != 0 && size != 0 && decide (tcb - base < size) && (tcb - base) % 0xC0#32 == 0

/-- `psx_tcb_state`. -/
def tcbState (cpu : CPUState M) (tcb : Word) : Word :=
  if isValidTcb G cpu tcb then G.read cpu.mem tcb else 0

def runnable : Word := 0x4000#32

/-- `psx_save_context_to_tcb`, but for its check of the resume PC. -/
def saveContextToTcb (cpu : CPUState M) (tcb resumePc : Word) : CPUState M :=
  let words := (contextWords cpu resumePc).map fun w => (tcb + w.1, w.2)
  { cpu with mem := (G.store cpu.sr).writeAll words cpu.mem }

/-- `psx_restore_context_from_tcb`, but for its check of the resume PC, which is
left in `$k0`. -/
def restoreContextFromTcb (cpu : CPUState M) (tcb : Word) : CPUState M :=
  let save := tcb + 8#32
  { cpu with
    gpr := fun r =>
      if r = 0 then cpu.gpr 0
      else if r = 26 then G.read cpu.mem (save + 128#32)
      else G.read cpu.mem (save + regOffset r)
    hi := G.read cpu.mem (save + 132#32)
    lo := G.read cpu.mem (save + 136#32)
    cop0 := fun r =>
      if r = 12 then schedulerRestoreStatus (G.read cpu.mem (save + 140#32))
      else if r = 13 then G.read cpu.mem (save + 144#32)
      else cpu.cop0 r }

/-- A word of a TCB: the blocks are 0xC0 bytes long. -/
def tcbOffset (k : Fin 48) : Word := BitVec.ofNat 32 (4 * k.val)

/-- What the kernel has set up, and what stays while threads are switched: the
pointer to the current TCB and the table of TCBs. -/
structure Kernel where
  tcbh : Word
  base : Word
  size : Word
deriving DecidableEq, Repr

namespace Kernel

variable (K : Kernel)

def isTcb (tcb : Word) : Bool :=
  K.base != 0 && K.size != 0 && decide (tcb - K.base < K.size) && (tcb - K.base) % 0xC0#32 == 0

/-- The words that the kernel's own data takes. -/
@[grind =] def ownWords : List Word := [0x108#32, 0x110#32, 0x114#32, K.tcbh]

/-- The words of the kernel's data and of the TCBs. -/
def cell (a : Word) : Prop := a ∈ K.ownWords ∨ ∃ tcb k, K.isTcb tcb = true ∧ a = tcb + tcbOffset k

/-- The memory has the kernel's data. -/
structure In (m : M) : Prop where
  tcbh : G.read m 0x108#32 = K.tcbh
  base : G.read m 0x110#32 = K.base
  size : G.read m 0x114#32 = K.size

/-- The kernel's data and the TCBs lie in main memory, each at a place of its own. -/
structure Apart : Prop where
  cells : ∀ sr, isolated sr = false → Cells (G.store sr) K.cell
  own : K.ownWords.Nodup
  tcbh : K.tcbh ≠ 0
  fromOwn : ∀ tcb k, K.isTcb tcb = true → tcb + tcbOffset k ∉ K.ownWords
  tcbs : ∀ tcb tcb' k k', K.isTcb tcb = true → K.isTcb tcb' = true →
    tcb + tcbOffset k = tcb' + tcbOffset k' → tcb = tcb'

end Kernel

variable {G} {K : Kernel} {cpu : CPUState M} {tcb tcb' pc : Word}

theorem currentTcbPtr_eq (hApart : K.Apart G) (hIn : K.In G cpu.mem) :
    currentTcbPtr G cpu = G.read cpu.mem K.tcbh := by
  unfold currentTcbPtr
  rw [hIn.tcbh, if_neg hApart.tcbh]

theorem setCurrentTcb_eq (hApart : K.Apart G) (hIn : K.In G cpu.mem) :
    setCurrentTcb G cpu tcb = { cpu with mem := G.write cpu.sr K.tcbh tcb cpu.mem } := by
  unfold setCurrentTcb
  rw [hIn.tcbh, if_neg hApart.tcbh]

theorem isValidTcb_eq (hIn : K.In G cpu.mem) : isValidTcb G cpu tcb = K.isTcb tcb := by
  unfold isValidTcb Kernel.isTcb
  rw [hIn.base, hIn.size]

/-- The places of the words of a context. -/
def contextOffsets : List Word :=
  savedRegs.map (fun r => 8#32 + regOffset r) ++
    [8#32 + 128#32, 8#32 + 132#32, 8#32 + 136#32, 8#32 + 140#32, 8#32 + 144#32]

theorem contextWords_fst (cpu : CPUState M) (pc : Word) :
    (contextWords cpu pc).map Prod.fst = contextOffsets := by
  simp [contextWords, contextOffsets]

theorem contextOffsets_nodup : contextOffsets.Nodup := by decide

theorem contextOffsets_inside {a : Word} (ha : a ∈ contextOffsets) : ∃ k, a = tcbOffset k := by
  have hAll : (contextOffsets.all fun a => a.toNat % 4 == 0 && decide (a.toNat < 192)) = true := by
    decide
  have hThis := List.all_eq_true.mp hAll a ha
  simp only [Bool.and_eq_true, beq_iff_eq, decide_eq_true_eq] at hThis
  obtain ⟨hFour, hLt⟩ := hThis
  refine ⟨⟨a.toNat / 4, by omega⟩, BitVec.eq_of_toNat_eq ?_⟩
  simp only [tcbOffset, BitVec.toNat_ofNat]
  omega

/-- The words that a saved context takes in memory. -/
theorem savedWords_fst (cpu : CPUState M) (tcb pc : Word) :
    ((contextWords cpu pc).map fun w => (tcb + w.1, w.2)).map Prod.fst =
      contextOffsets.map (tcb + ·) := by
  rw [List.map_map, ← contextWords_fst cpu pc, List.map_map]
  rfl

theorem savedWords_cell (hTcb : K.isTcb tcb = true) :
    ∀ w ∈ (contextWords cpu pc).map fun w => (tcb + w.1, w.2), K.cell w.1 := by
  intro w hw
  have hMem := List.mem_map_of_mem (f := Prod.fst) hw
  rw [savedWords_fst] at hMem
  obtain ⟨a, ha, hEq⟩ := List.mem_map.mp hMem
  obtain ⟨k, rfl⟩ := contextOffsets_inside ha
  exact .inr ⟨tcb, k, hTcb, hEq.symm⟩

theorem savedWords_nodup :
    (((contextWords cpu pc).map fun w => (tcb + w.1, w.2)).map Prod.fst).Nodup := by
  rw [savedWords_fst]
  exact contextOffsets_nodup.map fun a b h => add_left_cancel h

theorem read_saveContext (hApart : K.Apart G) (hOn : isolated cpu.sr = false)
    (hTcb : K.isTcb tcb = true) {o v : Word} (hWord : (o, v) ∈ contextWords cpu pc) :
    G.read (saveContextToTcb G cpu tcb pc).mem (tcb + o) = v :=
  Store.read_writeAll_of_mem (hApart.cells _ hOn) (savedWords_cell hTcb) savedWords_nodup
    (List.mem_map.mpr ⟨(o, v), hWord, rfl⟩)

/-- A save touches no word but its own. -/
theorem read_saveContext_of_notMem (hApart : K.Apart G) (hOn : isolated cpu.sr = false)
    (hTcb : K.isTcb tcb = true) {a : Word} (ha : K.cell a)
    (hNot : a ∉ contextOffsets.map (tcb + ·)) :
    G.read (saveContextToTcb G cpu tcb pc).mem a = G.read cpu.mem a :=
  Store.read_writeAll_of_notMem (hApart.cells _ hOn) (savedWords_cell hTcb) ha
    (by rwa [savedWords_fst])

theorem read_saveContext_other (hApart : K.Apart G) (hOn : isolated cpu.sr = false)
    (hTcb : K.isTcb tcb = true) (hTcb' : K.isTcb tcb' = true) (hNe : tcb' ≠ tcb) (k : Fin 48) :
    G.read (saveContextToTcb G cpu tcb pc).mem (tcb' + tcbOffset k) =
      G.read cpu.mem (tcb' + tcbOffset k) := by
  refine read_saveContext_of_notMem hApart hOn hTcb (.inr ⟨tcb', k, hTcb', rfl⟩) fun hMem => ?_
  obtain ⟨a, ha, hEq⟩ := List.mem_map.mp hMem
  obtain ⟨k', rfl⟩ := contextOffsets_inside ha
  exact hNe (hApart.tcbs tcb tcb' k' k hTcb hTcb' hEq).symm

theorem read_saveContext_own (hApart : K.Apart G) (hOn : isolated cpu.sr = false)
    (hTcb : K.isTcb tcb = true) {a : Word} (ha : a ∈ K.ownWords) :
    G.read (saveContextToTcb G cpu tcb pc).mem a = G.read cpu.mem a := by
  refine read_saveContext_of_notMem hApart hOn hTcb (.inl ha) fun hMem => ?_
  obtain ⟨o, ho, rfl⟩ := List.mem_map.mp hMem
  obtain ⟨k, rfl⟩ := contextOffsets_inside ho
  exact hApart.fromOwn tcb k hTcb ha

theorem In.saveContext (hApart : K.Apart G) (hOn : isolated cpu.sr = false)
    (hTcb : K.isTcb tcb = true) (hIn : K.In G cpu.mem) :
    K.In G (saveContextToTcb G cpu tcb pc).mem where
  tcbh := (read_saveContext_own hApart hOn hTcb (by simp [Kernel.ownWords])).trans hIn.tcbh
  base := (read_saveContext_own hApart hOn hTcb (by simp [Kernel.ownWords])).trans hIn.base
  size := (read_saveContext_own hApart hOn hTcb (by simp [Kernel.ownWords])).trans hIn.size

/-- A change of the current thread touches no word but the pointer. -/
theorem read_setCurrentTcb (hApart : K.Apart G) (hOn : isolated cpu.sr = false)
    (hIn : K.In G cpu.mem) {a : Word} (ha : K.cell a) :
    G.read (setCurrentTcb G cpu tcb).mem a = if a = K.tcbh then tcb else G.read cpu.mem a := by
  have hPtr : K.cell K.tcbh := .inl (by simp [Kernel.ownWords])
  rw [setCurrentTcb_eq hApart hIn]
  split
  · rename_i hEq
    subst hEq
    exact (hApart.cells _ hOn).read_write _ _ hPtr
  · rename_i hNe
    exact (hApart.cells _ hOn).read_write_ne _ _ hPtr ha hNe

theorem pushStatus_stacked (sr : Word) : pushStatus sr &&& 3#32 = 0 := by
  apply BitVec.eq_of_getLsbD_eq
  intro i hi
  interval_cases i <;> simp [pushStatus]

theorem popStatus_pushStatus (sr : Word) : popStatus (pushStatus sr) = sr &&& ~~~0x30#32 := by
  apply BitVec.eq_of_getLsbD_eq
  intro i hi
  interval_cases i <;> simp [popStatus, pushStatus]

theorem schedulerRestoreStatus_pushStatus (sr : Word) :
    schedulerRestoreStatus (pushStatus sr) = sr &&& ~~~0x30#32 := by
  unfold schedulerRestoreStatus
  rw [if_neg (by simp [pushStatus_stacked]), popStatus_pushStatus]

/-- A word that `rfe` leaves alone has nothing stacked. -/
theorem stacked_of_popStatus_eq {sr : Word} (h : popStatus sr = sr) : sr &&& 3#32 = 0 := by
  have hBit : ∀ i, sr.getLsbD i = (popStatus sr).getLsbD i := fun i => by rw [h]
  have h0 := hBit 0
  have h1 := hBit 1
  have h2 := hBit 2
  have h3 := hBit 3
  have h4 := hBit 4
  have h5 := hBit 5
  simp [popStatus] at h0 h1 h2 h3 h4 h5
  apply BitVec.eq_of_getLsbD_eq
  intro i hi
  interval_cases i <;> simp_all

/-- What a thread goes on with. -/
structure Context where
  gpr : RegIndex → Word
  hi : Word
  lo : Word
  cause : Word
  sr : Word
  pc : Word

def contextOf (cpu : CPUState M) (pc : Word) : Context :=
  ⟨cpu.gpr, cpu.hi, cpu.lo, cpu.cop0 13, cpu.sr, pc⟩

/-- The CPU has a context, but for `$k0` and the oldest pair of the status
register. -/
structure Resumed (cpu : CPUState M) (c : Context) : Prop where
  gpr : ∀ r, r ≠ 0 → r ≠ 26 → cpu.gpr r = c.gpr r
  hi : cpu.hi = c.hi
  lo : cpu.lo = c.lo
  cause : cpu.cop0 13 = c.cause
  sr : cpu.sr &&& ~~~0x30#32 = c.sr &&& ~~~0x30#32
  pc : cpu.pc = c.pc

/-- A TCB holds a context. -/
structure Holds (G : GuestMemory M) (m : M) (tcb : Word) (c : Context) : Prop where
  gpr : ∀ r ∈ savedRegs, G.read m (tcb + (8#32 + regOffset r)) = c.gpr r
  pc : G.read m (tcb + (8#32 + 128#32)) = c.pc
  hi : G.read m (tcb + (8#32 + 132#32)) = c.hi
  lo : G.read m (tcb + (8#32 + 136#32)) = c.lo
  sr : G.read m (tcb + (8#32 + 140#32)) = pushStatus c.sr
  cause : G.read m (tcb + (8#32 + 144#32)) = c.cause

theorem Holds.congr {m m' : M} {c : Context} (hHolds : Holds G m tcb c)
    (hSame : ∀ k, G.read m' (tcb + tcbOffset k) = G.read m (tcb + tcbOffset k)) :
    Holds G m' tcb c := by
  have hWord : ∀ o ∈ contextOffsets, G.read m' (tcb + o) = G.read m (tcb + o) := by
    intro o ho
    obtain ⟨k, rfl⟩ := contextOffsets_inside ho
    exact hSame k
  have hTail : ∀ o ∈ [8#32 + 128#32, 8#32 + 132#32, 8#32 + 136#32, 8#32 + 140#32, 8#32 + 144#32],
      G.read m' (tcb + o) = G.read m (tcb + o) :=
    fun o ho => hWord o (List.mem_append_right _ ho)
  refine ⟨fun r hr => ?_, ?_, ?_, ?_, ?_, ?_⟩
  · rw [hWord _ (List.mem_append_left _ (List.mem_map_of_mem hr))]
    exact hHolds.gpr r hr
  · exact (hTail _ (by simp)).trans hHolds.pc
  · exact (hTail _ (by simp)).trans hHolds.hi
  · exact (hTail _ (by simp)).trans hHolds.lo
  · exact (hTail _ (by simp)).trans hHolds.sr
  · exact (hTail _ (by simp)).trans hHolds.cause

theorem holds_saveContext (hApart : K.Apart G) (hOn : isolated cpu.sr = false)
    (hTcb : K.isTcb tcb = true) :
    Holds G (saveContextToTcb G cpu tcb pc).mem tcb (contextOf cpu pc) := by
  have hTail : ∀ o v, (o, v) ∈ [(8#32 + 128#32, pc), (8#32 + 132#32, cpu.hi),
      (8#32 + 136#32, cpu.lo), (8#32 + 140#32, pushStatus cpu.sr), (8#32 + 144#32, cpu.cop0 13)] →
      G.read (saveContextToTcb G cpu tcb pc).mem (tcb + o) = v :=
    fun o v h => read_saveContext hApart hOn hTcb (List.mem_append_right _ h)
  refine ⟨fun r hr => ?_, hTail _ pc (by simp), hTail _ cpu.hi (by simp), hTail _ cpu.lo (by simp),
    hTail _ (pushStatus cpu.sr) (by simp), hTail _ (cpu.cop0 13) (by simp)⟩
  exact read_saveContext hApart hOn hTcb (List.mem_append_left _
    (List.mem_map_of_mem (f := fun r => (8#32 + regOffset r, cpu.gpr r)) hr))

theorem mem_savedRegs {r : RegIndex} (hZero : r ≠ 0) (hKernel : r ≠ 26) : r ∈ savedRegs := by
  refine List.mem_filter.mpr ⟨List.mem_map.mpr ⟨r.toFin, List.mem_finRange _, ?_⟩, ?_⟩
  · simp
  · simpa using And.intro hZero hKernel

/-- A restored context goes on where it was saved. -/
theorem resumed_restoreContext {c : Context} (hHolds : Holds G cpu.mem tcb c) :
    Resumed { restoreContextFromTcb G cpu tcb with
      pc := (restoreContextFromTcb G cpu tcb).gpr 26 } c := by
  have hAssoc : ∀ o, tcb + 8#32 + o = tcb + (8#32 + o) := fun o => BitVec.add_assoc _ _ _
  refine ⟨fun r hZero hKernel => ?_, ?_, ?_, ?_, ?_, ?_⟩
  · simp only [restoreContextFromTcb, if_neg hZero, if_neg hKernel]
    rw [hAssoc]
    exact hHolds.gpr r (mem_savedRegs hZero hKernel)
  · exact (congrArg (G.read cpu.mem) (hAssoc _)).trans hHolds.hi
  · exact (congrArg (G.read cpu.mem) (hAssoc _)).trans hHolds.lo
  · exact (congrArg (G.read cpu.mem) (hAssoc _)).trans hHolds.cause
  · change schedulerRestoreStatus (G.read cpu.mem (tcb + 8#32 + 140#32)) &&& _ = _
    rw [hAssoc, hHolds.sr, schedulerRestoreStatus_pushStatus, BitVec.and_assoc, BitVec.and_self]
  · exact (congrArg (G.read cpu.mem) (hAssoc _)).trans hHolds.pc

end RecompStudio.Threads
