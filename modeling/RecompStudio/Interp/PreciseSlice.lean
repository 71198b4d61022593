import RecompStudio.Interp.Step
import RecompStudio.Library.BoundedLoop

/-!
The precise slices: `psx_run_precise` executes one instruction after the other, takes
an interrupt between two of them, and hands control back. It should do so only at an
address that the dispatcher can enter, but a word that it gives up, a call that is
being unwound and the end of its budget leave the loop without asking.
-/

namespace RecompStudio.Interp

open RecompStudio.Emitted
open RecompStudio.BoundedLoop

variable {M : Type}

/-- What `psx_run_precise` reads and calls. -/
structure SliceHost (M : Type) extends RuntimeHost M where
  /-- `(i_stat & i_mask) != 0`. -/
  irqPending : M → Bool
  gameIsFunctionEntry : Word → Bool

/-- `g_slice_exit_reason`. -/
inductive SliceExitReason where
  | dispatchable | unsupported | bail | exhausted
deriving DecidableEq, Repr

/-- The locals of `psx_run_precise`. -/
structure Slice (M : Type) where
  state : InterpState M
  pc : Word
  irqTaken : Bool
  /-- The interrupts that are taken in this slice. -/
  takes : Nat
  /-- The last instruction has transferred control without its delay slot. -/
  slotLeft : Bool

/-- A slice that is left, and why. -/
structure SliceExit (M : Type) where
  reason : SliceExitReason
  slice : Slice M

/-- `MAX_PRECISE_INSNS`. -/
def maxPreciseInsns : Nat := 200000

/-- The interrupts are open for the guest: IEc and IM2. -/
def interruptsOpen (s : CPUState M) : Bool := s.sr &&& 1#32 ≠ 0 && s.sr &&& (1#32 <<< 10) ≠ 0

namespace Stepped

/-- The address behind an instruction. -/
def committed (r : Stepped M) : Word := if r.transferred then r.state.cpu.pc else r.next

end Stepped

namespace SliceHost

variable (H : SliceHost M)

/-- `precise_irq_deliverable`. -/
def preciseIrqDeliverable (i : InterpState M) : Bool :=
  H.irqPending i.cpu.mem && !H.inException i.cpu.mem && interruptsOpen i.cpu

/-- `precise_pc_dispatchable`. -/
def precisePcDispatchable (pc : Word) (m : M) : Bool :=
  if H.hasGameDispatch && H.gameAddressInText pc && !H.dirtyRamIsDirty (pc &&& 0x1FFFFFFF#32) m then
    H.gameIsFunctionEntry pc
  else true

/-- An interrupt is taken at the committed address. A handler that leaves no address
goes on there. -/
def take (committed : Word) (i : InterpState M) (s : Slice M) : Slice M :=
  let j := H.checkInterrupts committed (i.setPc committed)
  let pc := if j.cpu.pc ≠ 0 then j.cpu.pc else committed
  { s with state := j.setPc pc, pc := pc, irqTaken := true, takes := s.takes + 1 }

/-- Behind an instruction that leaves `j` and goes on at `committed`: an interrupt may be
taken. -/
def settle (committed : Word) (j : InterpState M) (s : Slice M) : Slice M :=
  if !s.irqTaken && H.preciseIrqDeliverable j then H.take committed j s
  else { s with state := j.setPc committed, pc := committed }

/-- The slice asks to be left, at an address where it can be. -/
def wantsExit (transferred : Bool) (s : Slice M) : Bool :=
  (s.irqTaken || transferred) && H.precisePcDispatchable s.state.cpu.pc s.state.cpu.mem

/-- The interpreter at the top of the loop, with `g_unsupported_seen` cleared. -/
def cleared (s : Slice M) : InterpState M := { s.state with unsupported := false }

/-- An interrupt is taken at the top of the loop. -/
@[grind =] def takesFirst (s : Slice M) : Bool := !s.irqTaken && H.preciseIrqDeliverable s.state

/-- The rest of a turn, behind `exec_one`. -/
@[grind =]
def afterExec (slotLeft : Bool) (r : Stepped M) (s : Slice M) : Turn (Slice M) (SliceExit M) :=
  if r.state.unsupported then
    .leave ⟨.unsupported, { s with
      state := { r.state with unsupported := false }, pc := r.committed, slotLeft := slotLeft }⟩
  else
    let t := H.settle r.committed r.state s
    if t.state.bail then .leave ⟨.bail, t⟩
    else if H.wantsExit r.transferred t then .leave ⟨.dispatchable, t⟩
    else .again t

/-- The word at the top of the loop. -/
def topWord (s : Slice M) : Word := H.word s.pc (cleared s)

/-- Where the word at the top of the loop goes, if it executes a slot. -/
def topTarget (s : Slice M) : Option Word :=
  transferTarget s.pc (H.topWord s) (H.charged s.pc (cleared s)).cpu

/-- The slot of the word at the top of the loop. -/
def topSlot (depth : Nat) (s : Slice M) : Option (StepHost.LastWord M) :=
  H.slotEnd depth (s.pc + 4#32) { H.charged s.pc (cleared s) with
    cpu := linkWrite s.pc (H.topWord s) (H.charged s.pc (cleared s)).cpu }

/-- The transfer at the top of the loop, whose delay slot is given up. -/
@[grind =] def leavesSlot (depth : Nat) (s : Slice M) : Bool :=
  (H.topTarget s).isSome && (H.topSlot depth s).any H.slotGivenUp

/-- One turn of the loop. -/
@[grind =] def preciseTurn (depth : Nat) (s : Slice M) : Option (Turn (Slice M) (SliceExit M)) :=
  if H.takesFirst s then
    let t := H.take s.pc s.state s
    if H.precisePcDispatchable t.state.cpu.pc t.state.cpu.mem then
      some (.leave ⟨.dispatchable, t⟩)
    else some (.again t)
  else
    (H.execOne true depth s.pc (cleared s)).map fun r => H.afterExec (H.leavesSlot depth s) r s

/-- The loop of `psx_run_precise`. -/
@[grind =] def preciseLoop (depth : Nat) : Nat → Slice M → Option (SliceExit M) :=
  loop (H.preciseTurn depth) fun s => ⟨.exhausted, s⟩

def preciseStart (i : InterpState M) : Slice M := ⟨i, i.cpu.pc, false, 0, false⟩

/-- The slice as it is returned: the program counter is set to the address of the loop. -/
def returned (s : Slice M) : Slice M := { s with state := s.state.setPc s.pc }

/-- `psx_run_precise`, with room for `depth` delay slots inside each other on the host's
stack. -/
@[grind =] def psxRunPrecise (depth : Nat) (i : InterpState M) : Option (SliceExit M) :=
  (H.preciseLoop depth maxPreciseInsns (preciseStart i)).map fun e => ⟨e.reason, returned e.slice⟩

/-- What the native tier is promised: an address that it can enter, no transfer without
its delay slot, and one interrupt at most. -/
structure SafeReturn (s : Slice M) : Prop where
  dispatchable : H.precisePcDispatchable s.state.cpu.pc s.state.cpu.mem = true
  slotDone : s.slotLeft = false
  takes_le : s.takes ≤ 1

/-- The word at the top of the loop is executed, and its slot: the last word that this
comes to, and the address that the interpreter goes on at. -/
inductive Executes (depth : Nat) (s : Slice M) : StepHost.LastWord M → Word → Prop where
  | word (hPlain : H.topTarget s = none)
      (hKnown : H.unknownWord s.pc (H.topWord s) (H.charged s.pc (cleared s)).cpu = false) :
      Executes depth s ⟨s.pc, H.topWord s, H.charged s.pc (cleared s), none⟩
        (H.execSimple s.pc (H.topWord s) (H.charged s.pc (cleared s))).committed
  | slot {e : StepHost.LastWord M} {target : Word} (hTarget : H.topTarget s = some target)
      (hSlot : H.topSlot depth s = some e) (hFine : H.slotGivenUp e = false) :
      Executes depth s e target

/-- What `psx_run_precise` should not find at the top of the loop, for the last time if
`last`. -/
inductive StopsBadly (depth : Nat) (last : Prop) (s : Slice M) : Prop where
  /-- A branch or a jump over a slot that is given up. -/
  | slot {target : Word} {e : StepHost.LastWord M} (hTurn : H.takesFirst s = false)
      (hTarget : H.topTarget s = some target) (hSlot : H.topSlot depth s = some e)
      (hUp : H.slotGivenUp e = true)
  /-- A word with no case, where the dispatcher cannot enter. -/
  | word (hTurn : H.takesFirst s = false) (hPlain : H.topTarget s = none)
      (hUnknown : H.unknownWord s.pc (H.topWord s) (H.charged s.pc (cleared s)).cpu = true)
      (hOwner : H.precisePcDispatchable s.pc (H.charged s.pc (cleared s)).cpu.mem = false)
  /-- A system call or an exception that raises `g_unsupported_seen`, in front of an address
  that cannot be entered. -/
  | raised {e : StepHost.LastWord M} {next : Word} (hTurn : H.takesFirst s = false)
      (hWord : H.Executes depth s e next)
      (hFlag : (H.outside e.pc e.word e.state).unsupported = true)
      (hNext : H.precisePcDispatchable next
        (H.execSimple e.pc e.word e.state).state.cpu.mem = false)
  /-- A call is being unwound, or the budget ends, in front of such an address. -/
  | stopped {e : StepHost.LastWord M} {next : Word} {t : Slice M}
      (hTurn : H.takesFirst s = false) (hWord : H.Executes depth s e next)
      (hQuiet : (H.outside e.pc e.word e.state).unsupported = false)
      (hSettle : t = H.settle next (H.execSimple e.pc e.word e.state).state s)
      (hWhy : t.state.bail = true ∨ last)
      (hNext : H.precisePcDispatchable t.pc t.state.cpu.mem = false)
  /-- The budget ends with an interrupt whose handler leaves such an address. -/
  | taken (hTurn : H.takesFirst s = true) (hLast : last)
      (hNext : H.precisePcDispatchable (H.take s.pc s.state s).pc
        (H.take s.pc s.state s).state.cpu.mem = false)

/-- The slice at the top of the loop. -/
structure AtTop (s : Slice M) : Prop where
  pc_eq : s.state.cpu.pc = s.pc
  slotDone : s.slotLeft = false
  takes_le : s.takes ≤ 1
  untaken : s.irqTaken = false → s.takes = 0

variable {H} {depth : Nat} {committed next : Word} {i : InterpState M} {s t : Slice M}
variable {r : Stepped M} {e : StepHost.LastWord M} {last : Prop}

@[simp] theorem take_pc : (H.take committed i s).state.cpu.pc = (H.take committed i s).pc := rfl

theorem atTop_start : AtTop (preciseStart i) := ⟨rfl, rfl, Nat.zero_le 1, fun _ => rfl⟩

theorem AtTop.take (h : AtTop s) (hUntaken : s.irqTaken = false) :
    AtTop (H.take committed i s) := by
  have hTakes : (H.take committed i s).takes = 1 := by
    rw [SliceHost.take, h.untaken hUntaken]
  exact ⟨rfl, h.slotDone, Nat.le_of_eq hTakes, fun hTaken => by cases hTaken⟩

theorem AtTop.settle (h : AtTop s) : AtTop (H.settle committed i s) := by
  rw [SliceHost.settle]
  split
  · rename_i hTake
    rw [Bool.and_eq_true, Bool.not_eq_true'] at hTake
    exact h.take hTake.1
  · exact ⟨rfl, h.slotDone, h.takes_le, h.untaken⟩

/-- The program counter is set in front of an interrupt, and without one. -/
theorem settle_setPc : H.settle committed (i.setPc committed) s = H.settle committed i s := rfl

/-- A turn that takes an interrupt first. -/
theorem preciseTurn_take (depth : Nat) (hTake : H.takesFirst s = true) :
    H.preciseTurn depth s = some (
      if H.precisePcDispatchable (H.take s.pc s.state s).pc (H.take s.pc s.state s).state.cpu.mem
      then .leave ⟨.dispatchable, H.take s.pc s.state s⟩ else .again (H.take s.pc s.state s)) := by
  rw [preciseTurn, if_pos hTake]
  exact (apply_ite some _ _ _).symm

theorem preciseTurn_exec (depth : Nat) (hTake : H.takesFirst s = false) :
    H.preciseTurn depth s = (H.execOne true depth s.pc (cleared s)).map fun r =>
      H.afterExec (H.leavesSlot depth s) r s := by
  rw [preciseTurn, hTake, if_neg Bool.false_ne_true]

theorem afterExec_flagged {slotLeft : Bool} (hFlag : r.state.unsupported = true) :
    H.afterExec slotLeft r s = .leave ⟨.unsupported, { s with
      state := { r.state with unsupported := false }, pc := r.committed,
        slotLeft := slotLeft }⟩ := by
  rw [afterExec, if_pos hFlag]

theorem afterExec_again {slotLeft : Bool} (hAgain : H.afterExec slotLeft r s = .again t) :
    t = H.settle r.committed r.state s := by
  rw [afterExec] at hAgain
  split at hAgain
  · cases hAgain
  · dsimp only at hAgain
    split at hAgain
    · cases hAgain
    · split at hAgain
      · cases hAgain
      · cases hAgain
        rfl

/-- What a turn that goes on keeps. -/
theorem preciseTurn_again (h : AtTop s) (hTurn : H.preciseTurn depth s = some (.again t)) :
    AtTop t := by
  cases hTake : H.takesFirst s with
  | true =>
      rw [preciseTurn_take _ hTake, Option.some.injEq] at hTurn
      have hUntaken : s.irqTaken = false := by
        rw [takesFirst, Bool.and_eq_true, Bool.not_eq_true'] at hTake
        exact hTake.1
      split at hTurn
      · cases hTurn
      · cases hTurn
        exact h.take hUntaken
  | false =>
      rw [preciseTurn_exec _ hTake, Option.map_eq_some_iff] at hTurn
      obtain ⟨r, -, hAgain⟩ := hTurn
      rw [afterExec_again hAgain]
      exact h.settle

/-- At the top of the loop only the address can break the promise. -/
theorem AtTop.safeReturn_iff (h : AtTop s) :
    H.SafeReturn (returned s) ↔ H.precisePcDispatchable s.pc s.state.cpu.mem = true :=
  ⟨fun hSafe => hSafe.dispatchable, fun hPc => ⟨hPc, h.slotDone, h.takes_le⟩⟩

theorem execOne_none (hPlain : H.topTarget s = none) :
    H.execOne true depth s.pc (cleared s) =
      some (H.execSimple s.pc (H.topWord s) (H.charged s.pc (cleared s))) := by
  rw [topTarget, topWord] at hPlain
  simp only [StepHost.execOne_eq, StepHost.execOneWith, hPlain, topWord]

theorem execOne_some {target : Word} (hTarget : H.topTarget s = some target) :
    H.execOne true depth s.pc (cleared s) = (H.topSlot depth s).map fun e =>
      ⟨(H.slotState e).setPc target, true, s.pc + 4#32⟩ := by
  rw [topTarget, topWord] at hTarget
  simp only [StepHost.execOne_eq, StepHost.execOneWith, hTarget, StepHost.execDelaySlot_eq,
    Option.map_map, Bool.not_true, Bool.and_false, Bool.false_eq_true, if_false]
  rfl

theorem Executes.unique {e' : StepHost.LastWord M} {next' : Word}
    (hWord : H.Executes depth s e next) (hWord' : H.Executes depth s e' next') :
    e' = e ∧ next' = next := by
  cases hWord with
  | word hPlain _ =>
      cases hWord' with
      | word _ _ => exact ⟨rfl, rfl⟩
      | slot hTarget _ _ =>
          rw [hPlain] at hTarget
          cases hTarget
  | slot hTarget hSlot _ =>
      cases hWord' with
      | word hPlain _ =>
          rw [hTarget] at hPlain
          cases hPlain
      | slot hTarget' hSlot' _ =>
          exact ⟨Option.some.inj (hSlot'.symm.trans hSlot),
            Option.some.inj (hTarget'.symm.trans hTarget)⟩

/-- `exec_one` on a word that is executed: what the last word leaves, up to the program
counter, and the flags that are raised outside. -/
theorem Executes.exec (hWord : H.Executes depth s e next) :
    H.leavesSlot depth s = false ∧ ∃ r, H.execOne true depth s.pc (cleared s) = some r ∧
      r.committed = next ∧
      r.state.setPc next = (H.execSimple e.pc e.word e.state).state.setPc next ∧
      r.state.unsupported = (H.outside e.pc e.word e.state).unsupported := by
  cases hWord with
  | word hPlain hKnown =>
      refine ⟨by rw [leavesSlot, hPlain]; rfl, _, execOne_none hPlain, rfl, rfl, ?_⟩
      exact (StepHost.execSimple_flags hKnown).1
  | slot hTarget hSlot hFine =>
      have hKnown : H.unknownWord e.pc e.word e.state.cpu = false :=
        (Bool.or_eq_false_iff.mp hFine).2
      have hDone := StepHost.slotState_executed hFine next
      refine ⟨by simp [leavesSlot, hSlot, hFine], ⟨(H.slotState e).setPc next, true, s.pc + 4#32⟩,
        by rw [execOne_some hTarget, hSlot]; rfl, rfl, hDone, ?_⟩
      exact (congrArg InterpState.unsupported hDone).trans (StepHost.execSimple_flags hKnown).1

/-- How a slice is returned. -/
def SafeExit (H : SliceHost M) (x : SliceExit M) : Prop := H.SafeReturn (returned x.slice)

def exhausted (s : Slice M) : SliceExit M := ⟨.exhausted, s⟩

/-- What is asked of a word that is executed. -/
theorem Executes.stopsBadly_iff (hTake : H.takesFirst s = false)
    (hWord : H.Executes depth s e next) :
    H.StopsBadly depth last s ↔
      if (H.outside e.pc e.word e.state).unsupported then
        H.precisePcDispatchable next (H.execSimple e.pc e.word e.state).state.cpu.mem = false
      else
        let t := H.settle next (H.execSimple e.pc e.word e.state).state s
        (t.state.bail = true ∨ last) ∧ H.precisePcDispatchable t.pc t.state.cpu.mem = false := by
  constructor
  · intro hBad
    cases hBad with
    | slot _ hTarget hSlot hUp =>
        cases hWord with
        | word hPlain _ =>
            rw [hPlain] at hTarget
            cases hTarget
        | slot _ hSlot' hFine =>
            rw [hSlot', Option.some.injEq] at hSlot
            rw [hSlot, hUp] at hFine
            cases hFine
    | word _ hPlain hUnknown _ =>
        cases hWord with
        | word _ hKnown =>
            rw [hUnknown] at hKnown
            cases hKnown
        | slot hTarget _ _ =>
            rw [hPlain] at hTarget
            cases hTarget
    | raised _ hWord' hFlag hNext =>
        obtain ⟨rfl, rfl⟩ := hWord.unique hWord'
        rw [if_pos hFlag]
        exact hNext
    | stopped _ hWord' hQuiet hSettle hWhy hNext =>
        obtain ⟨rfl, rfl⟩ := hWord.unique hWord'
        rw [hQuiet, if_neg Bool.false_ne_true, ← hSettle]
        exact ⟨hWhy, hNext⟩
    | taken hTurn _ _ =>
        rw [hTake] at hTurn
        cases hTurn
  · intro hBad
    split at hBad
    · rename_i hFlag
      exact .raised hTake hWord hFlag hBad
    · rename_i hQuiet
      exact .stopped hTake hWord (eq_false_of_ne_true hQuiet) rfl hBad.1 hBad.2

/-- A turn that executes its word, and the slot of it. -/
theorem executed_meets_iff (h : AtTop s) (hTake : H.takesFirst s = false)
    (hWord : H.Executes depth s e next) :
    TurnMeets (H.preciseTurn depth) exhausted H.SafeExit last s ↔ ¬ H.StopsBadly depth last s := by
  rw [hWord.stopsBadly_iff hTake]
  obtain ⟨hDone, r, hExec, rfl, hState, hFlag⟩ := hWord.exec
  have hTurn : H.preciseTurn depth s = some (H.afterExec false r s) := by
    rw [preciseTurn_exec _ hTake, hExec, hDone, Option.map_some]
  have hSettle : H.settle r.committed r.state s =
      H.settle r.committed (H.execSimple e.pc e.word e.state).state s := by
    rw [← settle_setPc, hState, settle_setPc]
  have hMem : (r.state.setPc r.committed).cpu.mem =
      ((H.execSimple e.pc e.word e.state).state.setPc r.committed).cpu.mem := by
    rw [hState]
  have hTop : AtTop (H.settle r.committed r.state s) := h.settle
  simp only [InterpState.setPc] at hMem
  rw [← hFlag, ← hSettle, ← hMem]
  cases hUp : r.state.unsupported with
  | true =>
      rw [afterExec_flagged hUp] at hTurn
      rw [turnMeets_leave hTurn, if_pos rfl, Bool.not_eq_false]
      exact ⟨fun hSafe => hSafe.dispatchable, fun hPc => ⟨hPc, rfl, h.takes_le⟩⟩
  | false =>
      rw [afterExec, if_neg (by simp [hUp])] at hTurn
      rw [if_neg Bool.false_ne_true]
      dsimp only at hTurn ⊢
      split at hTurn
      · rename_i hBail
        rw [turnMeets_leave hTurn]
        simp only [SafeExit, hTop.safeReturn_iff, hBail, true_or, true_and, Bool.not_eq_false]
      · rename_i hBail
        split at hTurn
        · rename_i hWants
          rw [wantsExit, Bool.and_eq_true, hTop.pc_eq] at hWants
          rw [turnMeets_leave hTurn, SafeExit, hTop.safeReturn_iff]
          simp only [hWants.2, reduceCtorEq, and_false, not_false_eq_true]
        · rw [turnMeets_again hTurn, SafeExit, exhausted, hTop.safeReturn_iff]
          simp only [eq_false_of_ne_true hBail, Bool.false_eq_true, false_or, not_and,
            Bool.not_eq_false]

theorem taken_meets_iff (h : AtTop s) (hTake : H.takesFirst s = true) :
    TurnMeets (H.preciseTurn depth) exhausted H.SafeExit last s ↔ ¬ H.StopsBadly depth last s := by
  have hUntaken : s.irqTaken = false := by
    rw [takesFirst, Bool.and_eq_true, Bool.not_eq_true'] at hTake
    exact hTake.1
  have hTop : AtTop (H.take s.pc s.state s) := h.take hUntaken
  have hBad : H.StopsBadly depth last s ↔ last ∧
      H.precisePcDispatchable (H.take s.pc s.state s).pc
        (H.take s.pc s.state s).state.cpu.mem = false := by
    constructor
    · intro hBad
      cases hBad with
      | taken _ hLast hNext => exact ⟨hLast, hNext⟩
      | slot hTurn | word hTurn | raised hTurn | stopped hTurn =>
          rw [hTake] at hTurn
          cases hTurn
    · exact fun ⟨hLast, hNext⟩ => .taken hTake hLast hNext
  rw [hBad]
  have hTurn := preciseTurn_take depth hTake
  split at hTurn
  · rename_i hPc
    rw [turnMeets_leave hTurn, SafeExit, hTop.safeReturn_iff]
    simp only [hPc, reduceCtorEq, and_false, not_false_eq_true]
  · rw [turnMeets_again hTurn, SafeExit, exhausted, hTop.safeReturn_iff]
    simp only [not_and, Bool.not_eq_false]

/-- A turn at a word with no case. -/
theorem word_meets_iff (h : AtTop s) (hTake : H.takesFirst s = false)
    (hPlain : H.topTarget s = none)
    (hUnknown : H.unknownWord s.pc (H.topWord s) (H.charged s.pc (cleared s)).cpu = true) :
    TurnMeets (H.preciseTurn depth) exhausted H.SafeExit last s ↔ ¬ H.StopsBadly depth last s := by
  have hBad : H.StopsBadly depth last s ↔
      H.precisePcDispatchable s.pc (H.charged s.pc (cleared s)).cpu.mem = false := by
    constructor
    · intro hBad
      cases hBad with
      | word _ _ _ hOwner => exact hOwner
      | slot _ hTarget =>
          rw [hPlain] at hTarget
          cases hTarget
      | raised _ hWord | stopped _ hWord =>
          cases hWord with
          | word _ hKnown =>
              rw [hUnknown] at hKnown
              cases hKnown
          | slot hTarget _ _ =>
              rw [hPlain] at hTarget
              cases hTarget
      | taken hTurn _ _ =>
          rw [hTake] at hTurn
          cases hTurn
    · exact fun hOwner => .word hTake hPlain hUnknown hOwner
  have hDone : H.leavesSlot depth s = false := by rw [leavesSlot, hPlain]; rfl
  have hSame : (H.charged s.pc (cleared s)).cpu.pc = s.pc := h.pc_eq
  have hTurn := preciseTurn_exec depth hTake
  rw [execOne_none hPlain, StepHost.execSimple_unknown hUnknown, Option.map_some,
    afterExec_flagged rfl, hDone] at hTurn
  rw [turnMeets_leave hTurn, hBad, Bool.not_eq_false]
  have hCommitted : (⟨(H.charged s.pc (cleared s)).abort, true, s.pc + 4#32⟩ :
      Stepped M).committed = s.pc := hSame
  constructor
  · intro hSafe
    have hPc := hSafe.dispatchable
    simp only [returned, hCommitted] at hPc
    exact hPc
  · intro hPc
    refine ⟨?_, rfl, h.takes_le⟩
    simp only [returned, hCommitted]
    exact hPc

/-- A turn at a transfer whose slot is given up. -/
theorem slot_meets_iff {target : Word} (hTake : H.takesFirst s = false)
    (hTarget : H.topTarget s = some target) (hSlot : H.topSlot depth s = some e)
    (hUp : H.slotGivenUp e = true) :
    TurnMeets (H.preciseTurn depth) exhausted H.SafeExit last s ↔ ¬ H.StopsBadly depth last s := by
  have hLeft : H.leavesSlot depth s = true := by
    simp [leavesSlot, hTarget, hSlot, hUp]
  have hTurn := preciseTurn_exec depth hTake
  rw [execOne_some hTarget, hSlot, Option.map_some, Option.map_some,
    StepHost.slotState_givenUp hUp, afterExec_flagged rfl, hLeft] at hTurn
  rw [turnMeets_leave hTurn]
  refine ⟨fun hSafe => ?_, fun hGood => absurd (.slot hTake hTarget hSlot hUp) hGood⟩
  cases hSafe.slotDone

/-- A turn keeps the promise exactly if the words at the top of the loop are no bad ones. -/
theorem turn_meets_iff (h : AtTop s) :
    TurnMeets (H.preciseTurn depth) exhausted H.SafeExit last s ↔ ¬ H.StopsBadly depth last s := by
  cases hTake : H.takesFirst s with
  | true => exact taken_meets_iff h hTake
  | false =>
      cases hTarget : H.topTarget s with
      | none =>
          cases hUnknown : H.unknownWord s.pc (H.topWord s) (H.charged s.pc (cleared s)).cpu with
          | true => exact word_meets_iff h hTake hTarget hUnknown
          | false => exact executed_meets_iff h hTake (.word hTarget hUnknown)
      | some target =>
          cases hSlot : H.topSlot depth s with
          | none =>
              -- the host's stack overflows in the slot
              have hTurn := preciseTurn_exec depth hTake
              rw [execOne_some hTarget, hSlot] at hTurn
              refine iff_of_true (turnMeets_none hTurn) fun hBad => ?_
              cases hBad with
              | slot _ _ hSlot' =>
                  rw [hSlot] at hSlot'
                  cases hSlot'
              | word _ hPlain =>
                  rw [hTarget] at hPlain
                  cases hPlain
              | raised _ hWord | stopped _ hWord =>
                  cases hWord with
                  | word hPlain _ =>
                      rw [hTarget] at hPlain
                      cases hPlain
                  | slot _ hSlot' _ =>
                      rw [hSlot] at hSlot'
                      cases hSlot'
              | taken hTurn _ _ =>
                  rw [hTake] at hTurn
                  cases hTurn
          | some e =>
              cases hUp : H.slotGivenUp e with
              | true => exact slot_meets_iff hTake hTarget hSlot hUp
              | false => exact executed_meets_iff h hTake (.slot hTarget hSlot hUp)

end SliceHost

open SliceHost in
/-- `psx_run_precise` returns at an address that the dispatcher can enter, with no delay
slot left out and one interrupt at most, exactly if no turn begins at words that it should
not find there. -/
theorem psxRunPrecise_safe_iff (H : SliceHost M) (depth : Nat) (i : InterpState M) :
    (∀ e, H.psxRunPrecise depth i = some e → H.SafeReturn e.slice) ↔
      ∀ k < maxPreciseInsns, ∀ s, After (H.preciseTurn depth) (preciseStart i) k s →
        ¬ H.StopsBadly depth (k + 1 = maxPreciseInsns) s := by
  have hTop : ∀ {k s}, After (H.preciseTurn depth) (preciseStart i) k s → AtTop s :=
    fun hAfter => hAfter.invariant atTop_start fun _ _ => preciseTurn_again
  have hLoop : (∀ e, H.psxRunPrecise depth i = some e → H.SafeReturn e.slice) ↔
      ∀ e, loop (H.preciseTurn depth) exhausted (199999 + 1) (preciseStart i) = some e →
        H.SafeExit e := by
    simp only [psxRunPrecise, Option.map_eq_some_iff, forall_exists_index, and_imp,
      forall_apply_eq_imp_iff₂]
    rfl
  rw [hLoop, loop_meets_turns_iff]
  refine forall₂_congr fun k _ => forall₂_congr fun s hAfter => ?_
  rw [turn_meets_iff (hTop hAfter)]
  have hLast : (k = 199999) = (k + 1 = maxPreciseInsns) :=
    propext ⟨fun hEq => by rw [hEq]; rfl, fun hEq => Nat.succ.inj hEq⟩
  rw [hLast]

/-- A jump to itself at the second word of a function, with a `nop` in its slot. -/
def waitingHost : SliceHost Unit where
  toRuntimeHost := quietHost fun pc => if pc = 0x80010004#32 then 0x08004001#32 else 0#32
  irqPending := fun _ => false
  gameIsFunctionEntry := fun pc => pc == 0x80010000#32

def waitingState : InterpState Unit := stateAt 0x80010004#32

theorem waitingHost_nop (depth : Nat) :
    waitingHost.execOne true depth 0x80010008#32 waitingState =
      some ⟨waitingState, false, 0x8001000C#32⟩ := by
  have hNop : writeGpr waitingState.cpu 0 0 = waitingState.cpu := by
    have hZero : waitingState.cpu.setGpr 0 0 = waitingState.cpu := CPUState.setGpr_eq_self _ rfl
    rw [writeGpr, hZero, hZero]
  have hStep : waitingHost.execOne true depth 0x80010008#32 waitingState =
      some ⟨{ waitingState with cpu := writeGpr waitingState.cpu 0 0 }, false, 0x8001000C#32⟩ := by
    cases depth <;> rfl
  rw [hStep, hNop]

theorem waitingHost_turn :
    waitingHost.preciseTurn 1 (SliceHost.preciseStart waitingState) =
      some (.again (SliceHost.preciseStart waitingState)) := by
  have hJump : waitingHost.execOne true 1 0x80010004#32 waitingState =
      ((waitingHost.execOne true 0 0x80010008#32 waitingState).map Stepped.state).map fun j =>
        ⟨j.setPc 0x80010004#32, true, 0x80010008#32⟩ := rfl
  rw [waitingHost_nop] at hJump
  have hTake : waitingHost.takesFirst (SliceHost.preciseStart waitingState) = false := rfl
  rw [SliceHost.preciseTurn_exec _ hTake]
  exact congrArg (Option.map fun r => waitingHost.afterExec _ r _) hJump

/-- The budget of a slice ends in the middle of a function. -/
theorem psxRunPrecise_midFunction :
    ¬ ∀ (M : Type) (H : SliceHost M) (depth : Nat) (i : InterpState M) (e : SliceExit M),
      H.psxRunPrecise depth i = some e → H.SafeReturn e.slice := by
  intro h
  have hRun : waitingHost.psxRunPrecise 1 waitingState =
      some ⟨.exhausted, SliceHost.returned (SliceHost.preciseStart waitingState)⟩ := by
    rw [SliceHost.psxRunPrecise, SliceHost.preciseLoop, loop_idle waitingHost_turn]
    rfl
  have hPc := (h Unit waitingHost 1 waitingState _ hRun).dispatchable
  exact absurd hPc (by decide)

end RecompStudio.Interp
