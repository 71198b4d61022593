import RecompStudio.Interp.Step
import RecompStudio.Library.BoundedLoop

/-!
`dirty_ram_dispatch_inner`: the tiers that may execute an address natively, and the loop
that interprets it where they all decline. The answer `0` asks the caller to try
elsewhere, so it should leave the guest alone.
-/

namespace RecompStudio.Interp

open RecompStudio.Emitted
open RecompStudio.Insn
open RecompStudio.BoundedLoop

variable {M : Type}

/-- What `dirty_ram_dispatch_inner` reads and calls. The answers of the tiers are
whether they have handled the address. -/
structure DirtyHost (M : Type) extends RuntimeHost M where
  /-- `g_async_rfe_resume_pc`, zero where none is latched. -/
  asyncRfeResumePc : M → Word
  /-- `psx_check_interrupts` at the entry, where no resume address is set. -/
  entryCheckInterrupts : InterpState M → InterpState M
  /-- `psx_interrupts_checked_at_current_cycle`. -/
  interruptsChecked : Word → M → Bool
  /-- 4096 instructions have been interpreted since the last pump. -/
  pumpDue : M → Bool
  textNativeOk : Word → M → Bool
  dispatchGameCompiled : Word → InterpState M → Bool × InterpState M
  /-- `PSX_HAS_OVERLAY_DISPATCH`. -/
  hasOverlayDispatch : Bool
  overlayDispatch : Word → InterpState M → Bool × InterpState M
  overlayLoaderIsCandidate : Word → M → Bool
  overlayLoaderDispatch : Word → InterpState M → Bool × InterpState M
  /-- `PSX_DIRTY_ENTRY_POLL`. -/
  entryPollEnabled : Bool
  /-- The bytes of the guest's memory. -/
  ram : M → Word → BitVec 8

/-- `psx_main_ram_mirror_phys`. -/
def psxMainRamMirrorPhys (addr : Word) : Word :=
  let phys := addr &&& 0x1FFFFFFF#32
  if phys.ult 0x00800000#32 then phys &&& 0x001FFFFF#32 else phys

/-- `phys_is_overlay_flow_region`: above the kernel window. -/
def physIsOverlayFlowRegion (phys : Word) : Bool := (0x00010000#32).ule phys

/-- `dirty_ram_same_pc`. -/
def dirtyRamSamePc (a b : Word) : Bool := (a ^^^ b) &&& 0x1FFFFFFF#32 == 0

/-- `MAX_INSNS_PER_DISPATCH`. -/
def maxInsnsPerDispatch : Nat := 1000000

/-- The locals of the loop. -/
structure DirtyRun (M : Type) where
  state : InterpState M
  pc : Word
  insnsExecuted : Nat

namespace DirtyHost

variable (H : DirtyHost M)

/-- A handler that leaves no address goes on at the committed one. -/
def resumeAt (committed : Word) (i : InterpState M) : InterpState M :=
  if i.cpu.pc = 0 ∧ committed ≠ 0 then i.setPc committed else i

/-- `dirty_ram_pump_boundary`. -/
def pumpBoundary (committed : Word) (i : InterpState M) : Bool × InterpState M :=
  let j := if H.interruptsChecked committed i.cpu.mem then i else H.checkInterrupts committed i
  if j.bail then (true, j)
  else
    let k := resumeAt committed j
    if k.cpu.pc ≠ 0 ∧ !dirtyRamSamePc k.cpu.pc committed then (true, k)
    else (false, k.setPc committed)

/-- The compiled functions of the game. -/
def gameTier (addr : Word) (i : InterpState M) : Bool × InterpState M :=
  if H.hasGameDispatch && H.textNativeOk (psxMainRamMirrorPhys addr) i.cpu.mem then
    H.dispatchGameCompiled addr i
  else (false, i)

/-- The overlays that are compiled with the game. -/
def overlayTier (addr : Word) (i : InterpState M) : Bool × InterpState M :=
  if H.hasOverlayDispatch then H.overlayDispatch addr i else (false, i)

/-- The tiers that are asked one after the other. -/
def nativeTiers (addr : Word) (i : InterpState M) : Bool × InterpState M :=
  let game := H.gameTier addr i
  if game.1 then game
  else
    let overlay := H.overlayTier addr game.2
    if overlay.1 then overlay else H.overlayLoaderDispatch addr overlay.2

/-- The page is dirty, or it is game text that no compiled function was entered for. -/
def interprets (addr : Word) (i : InterpState M) : Bool :=
  H.dirtyRamIsDirty (psxMainRamMirrorPhys addr) i.cpu.mem ||
    H.hasGameDispatch && H.gameAddressInText addr

/-- The entry into the loop: the flag is cleared, and every 64th time interrupts are
polled. -/
def enter (pollCount addr : Word) (i : InterpState M) : InterpState M :=
  let j := { i with unsupported := false }
  if H.entryPollEnabled && (pollCount + 1#32) &&& 0x3F#32 = 0 then
    H.entryCheckInterrupts (j.setPc addr)
  else j

/-- The pump behind a transfer. -/
def pumpTarget (i : InterpState M) : Bool × InterpState M :=
  if i.cpu.pc ≠ 0 then H.pumpBoundary i.cpu.pc i else (false, i)

/-- The run goes on in dirty overlay code that no candidate executes. -/
def localTurn (allowLocal : Bool) (stop : Word) (executed : Nat) (i : InterpState M) :
    Turn (DirtyRun M) (Bool × InterpState M) :=
  let target := i.cpu.pc
  let phys := target &&& 0x1FFFFFFF#32
  if allowLocal && target ≠ 0 && target ≠ stop && physIsOverlayFlowRegion phys &&
      H.dirtyRamIsDirty phys i.cpu.mem then
    if H.overlayLoaderIsCandidate phys i.cpu.mem then
      let native := H.overlayLoaderDispatch target i
      if native.1 then .leave (true, native.2) else .again ⟨native.2, target, executed⟩
    else .again ⟨i, target, executed⟩
  else .leave (true, i)

/-- Behind a transfer. -/
def transferTurn (allowLocal : Bool) (stop : Word) (executed : Nat) (i : InterpState M) :
    Turn (DirtyRun M) (Bool × InterpState M) :=
  if i.bail then .leave (true, i)
  else if (H.pumpTarget i).1 then .leave (true, (H.pumpTarget i).2)
  else H.localTurn allowLocal stop executed (H.pumpTarget i).2

/-- Behind any other instruction: the run ends at the address it is to stop at, and
where it leaves the dirty pages. -/
def straightTurn (stop pc : Word) (executed : Nat) (i : InterpState M) :
    Turn (DirtyRun M) (Bool × InterpState M) :=
  if (stop ≠ 0 && pc = stop) || !H.dirtyRamIsDirty (pc &&& 0x1FFFFFFF#32) i.cpu.mem then
    .leave (true, (H.pumpBoundary pc (i.setPc pc)).2)
  else .again ⟨i, pc, executed⟩

/-- The rest of a turn, behind `exec_one`. -/
@[grind =] def afterExec (allowLocal : Bool) (stop : Word) (executed : Nat) (r : Stepped M) :
    Turn (DirtyRun M) (Bool × InterpState M) :=
  if r.state.unsupported then
    if executed = 0 then .leave (false, r.state) else .leave (true, r.state.setPc 0)
  else if r.transferred then H.transferTurn allowLocal stop (executed + 1) r.state
  else H.straightTurn stop r.next (executed + 1) r.state

/-- One turn of the loop. -/
@[grind =] def dirtyTurn (depth : Nat) (allowLocal : Bool) (stop : Word) (s : DirtyRun M) :
    Option (Turn (DirtyRun M) (Bool × InterpState M)) :=
  (H.execOne false depth s.pc s.state).map (H.afterExec allowLocal stop s.insnsExecuted)

/-- The end of the budget. -/
def guardYield (s : DirtyRun M) : Bool × InterpState M :=
  let i := s.state.setPc s.pc
  (true, if H.pumpDue i.cpu.mem then resumeAt s.pc (H.checkInterrupts s.pc i) else i)

/-- `dirty_ram_dispatch_inner`, with room for `depth` delay slots inside each other on the
host's stack and the count of the entry polls. There is no answer when the sentinel
unwinds the host's stack, or it overflows. -/
def dirtyRamDispatchInner (depth : Nat) (pollCount addr stop : Word) (i : InterpState M) :
    Option (Bool × InterpState M) :=
  if addr = 0x80000048#32 then
    if H.inException i.cpu.mem then none
    else some (true, i.setPc (H.asyncRfeResumePc i.cpu.mem))
  else
    let native := H.nativeTiers addr i
    if native.1 then some native
    else if H.interprets addr native.2 then
      loop (H.dirtyTurn depth (physIsOverlayFlowRegion (psxMainRamMirrorPhys addr)) stop)
        H.guardYield maxInsnsPerDispatch ⟨H.enter pollCount addr native.2, addr, 0⟩
    else some (false, native.2)

/-- What the guest can tell: its registers and the bytes of its memory. -/
structure GuestSame (i j : InterpState M) : Prop where
  gpr : i.cpu.gpr = j.cpu.gpr
  hi : i.cpu.hi = j.cpu.hi
  lo : i.cpu.lo = j.cpu.lo
  cop0 : i.cpu.cop0 = j.cpu.cop0
  gteData : i.cpu.gteData = j.cpu.gteData
  gteCtrl : i.cpu.gteCtrl = j.cpu.gteCtrl
  ram : H.ram i.cpu.mem = H.ram j.cpu.mem

/-- A word that is executed in `i` with the flag up, set by the poll at the entry or by
what the word calls outside, leaves the guest as `entry` has it. -/
def ExecutedKeeps (pc w : Word) (i entry : InterpState M) : Prop :=
  if Op.ofWord w = .syscall then
    (H.psxSyscall (trapCode w) (i.setPc pc)).unsupported = true →
      H.GuestSame (H.psxSyscall (trapCode w) (i.setPc pc)) entry
  else
    match execPlain H.toHost pc w i.cpu with
    | .trap t => (H.trap t pc w i).unsupported = true → H.GuestSame (H.trap t pc w i) entry
    | .advance s | .transfer s => i.unsupported = true → H.GuestSame { i with cpu := s } entry
    | .unsupported => True

/-- The word at `addr`, and its slot, ask for no more than `entry` has already. A word
with no case is charged; a slot that is given up is charged too, behind the link register;
and a call is made all the same. -/
def FirstKeeps (depth : Nat) (addr : Word) (i entry : InterpState M) : Prop :=
  let w := H.word addr i
  let c := H.charged addr i
  match transferTarget addr w c.cpu with
  | none =>
      if H.unknownWord addr w c.cpu then H.GuestSame c entry else H.ExecutedKeeps addr w c entry
  | some target =>
      ∀ e, H.slotEnd depth (addr + 4#32) { c with cpu := linkWrite addr w c.cpu } = some e →
        if isCall w then
          let r := H.call ⟨addr, w, target, addr + 8#32⟩ (H.slotState e)
          r.state.unsupported = true → H.GuestSame r.state entry
        else if H.slotGivenUp e then
          H.GuestSame
            { i with cpu := { linkWrite addr w i.cpu with mem := e.state.cpu.mem } } entry
        else H.ExecutedKeeps e.pc e.word e.state entry

/-- The answer leaves the guest alone if it is that nothing was done. -/
def LeavesGuest (i : InterpState M) (r : Bool × InterpState M) : Prop :=
  r.1 = false → H.GuestSame r.2 i

variable {H} {depth : Nat} {allowLocal : Bool} {addr stop pollCount : Word} {i j : InterpState M}
variable {s t : DirtyRun M} {r : Bool × InterpState M}

theorem GuestSame.trans {k : InterpState M} (h : H.GuestSame i j) (h' : H.GuestSame j k) :
    H.GuestSame i k :=
  ⟨h.gpr.trans h'.gpr, h.hi.trans h'.hi, h.lo.trans h'.lo, h.cop0.trans h'.cop0,
    h.gteData.trans h'.gteData, h.gteCtrl.trans h'.gteCtrl, h.ram.trans h'.ram⟩

/-- Behind an instruction that is not given up, a turn has handled the address or goes
on. -/
inductive Advances (executed : Nat) : Turn (DirtyRun M) (Bool × InterpState M) → Prop where
  | handled (i : InterpState M) : Advances executed (.leave (true, i))
  | again (i : InterpState M) (pc : Word) : Advances executed (.again ⟨i, pc, executed⟩)

theorem localTurn_advances {executed : Nat} :
    Advances executed (H.localTurn allowLocal stop executed i) := by
  rw [localTurn]
  dsimp only
  split
  · split
    · split
      · exact .handled _
      · exact .again _ _
    · exact .again _ _
  · exact .handled _

theorem transferTurn_advances {executed : Nat} :
    Advances executed (H.transferTurn allowLocal stop executed i) := by
  rw [transferTurn]
  split
  · exact .handled _
  · split
    · exact .handled _
    · exact localTurn_advances

theorem straightTurn_advances {executed : Nat} :
    Advances executed (H.straightTurn stop addr executed i) := by
  rw [straightTurn]
  split
  · exact .handled _
  · exact .again _ _

/-- What a turn does: the flag behind the first instruction is answered with `0`, and
everything else advances. -/
theorem afterExec_cases {executed : Nat} {e : Stepped M}
    {turn : Turn (DirtyRun M) (Bool × InterpState M)}
    (hTurn : H.afterExec allowLocal stop executed e = turn) :
    e.state.unsupported = true ∧ executed = 0 ∧ turn = .leave (false, e.state) ∨
      Advances (executed + 1) turn := by
  subst hTurn
  rw [afterExec]
  split
  · rename_i hFlag
    split
    · rename_i hFirst
      exact .inl ⟨hFlag, hFirst, rfl⟩
    · exact .inr (.handled _)
  · split
    · exact .inr transferTurn_advances
    · exact .inr straightTurn_advances

/-- An answer of a turn is that nothing was done only for the flag, behind the first
instruction. -/
theorem dirtyTurn_leave (hTurn : H.dirtyTurn depth allowLocal stop s = some (.leave r)) :
    r.1 = true ∨ s.insnsExecuted = 0 ∧ ∃ e, H.execOne false depth s.pc s.state = some e ∧
      e.state.unsupported = true ∧ e.state = r.2 := by
  rw [dirtyTurn, Option.map_eq_some_iff] at hTurn
  obtain ⟨e, hExec, hLeave⟩ := hTurn
  obtain ⟨hFlag, hFirst, hEq⟩ | hAdvances := afterExec_cases hLeave
  · cases hEq
    exact .inr ⟨hFirst, e, hExec, hFlag, rfl⟩
  · cases hAdvances
    exact .inl rfl

/-- Every turn that goes on has executed an instruction. -/
theorem dirtyTurn_again (hTurn : H.dirtyTurn depth allowLocal stop s = some (.again t)) :
    t.insnsExecuted = s.insnsExecuted + 1 := by
  rw [dirtyTurn, Option.map_eq_some_iff] at hTurn
  obtain ⟨e, -, hAgain⟩ := hTurn
  obtain ⟨-, -, hEq⟩ | hAdvances := afterExec_cases hAgain
  · cases hEq
  · cases hAdvances
    rfl

theorem insnsExecuted_after {k : Nat} (hAfter : After (H.dirtyTurn depth allowLocal stop) s k t) :
    t.insnsExecuted = s.insnsExecuted + k := by
  induction hAfter with
  | start => rfl
  | next _ hTurn ih => rw [dirtyTurn_again hTurn, ih, Nat.add_assoc]

/-- The flag behind the first instruction is answered with `0`. -/
theorem dirtyTurn_flagged {e : Stepped M} (hExec : H.execOne false depth addr i = some e)
    (hFlag : e.state.unsupported = true) :
    H.dirtyTurn depth allowLocal stop ⟨i, addr, 0⟩ = some (.leave (false, e.state)) := by
  rw [dirtyTurn]
  dsimp only
  rw [hExec, Option.map_some, afterExec, if_pos hFlag, if_pos rfl]

theorem guestSame_congr {k : InterpState M} (hCpu : i.cpu = j.cpu) :
    H.GuestSame i k ↔ H.GuestSame j k := by
  constructor
  · rintro ⟨h₁, h₂, h₃, h₄, h₅, h₆, h₇⟩
    exact ⟨hCpu ▸ h₁, hCpu ▸ h₂, hCpu ▸ h₃, hCpu ▸ h₄, hCpu ▸ h₅, hCpu ▸ h₆, hCpu ▸ h₇⟩
  · rintro ⟨h₁, h₂, h₃, h₄, h₅, h₆, h₇⟩
    exact ⟨hCpu ▸ h₁, hCpu ▸ h₂, hCpu ▸ h₃, hCpu ▸ h₄, hCpu ▸ h₅, hCpu ▸ h₆, hCpu ▸ h₇⟩

/-- The guest cannot tell the program counter of the host. -/
theorem guestSame_setPc {k : InterpState M} {pc : Word} :
    H.GuestSame (i.setPc pc) k ↔ H.GuestSame i k :=
  ⟨fun ⟨h₁, h₂, h₃, h₄, h₅, h₆, h₇⟩ => ⟨h₁, h₂, h₃, h₄, h₅, h₆, h₇⟩,
    fun ⟨h₁, h₂, h₃, h₄, h₅, h₆, h₇⟩ => ⟨h₁, h₂, h₃, h₄, h₅, h₆, h₇⟩⟩

theorem executedKeeps_iff {w pc : Word} {entry : InterpState M}
    (hKnown : H.unknownWord pc w i.cpu = false) :
    H.ExecutedKeeps pc w i entry ↔
      ((H.execSimple pc w i).state.unsupported = true →
        H.GuestSame (H.execSimple pc w i).state entry) := by
  rw [ExecutedKeeps, StepHost.execSimple]
  split
  · exact Iff.rfl
  · rename_i hOp
    rw [StepHost.unknownWord, decide_eq_true (p := Op.ofWord w ≠ .syscall) hOp,
      Bool.true_and] at hKnown
    cases hExec : execPlain H.toHost pc w i.cpu with
    | unsupported =>
        rw [hExec] at hKnown
        cases hKnown
    | advance s => exact Iff.rfl
    | transfer s => exact Iff.rfl
    | trap t => exact Iff.rfl

/-- The first instruction, where it leaves the flag set. -/
theorem firstKeeps_iff {entry : InterpState M} :
    H.FirstKeeps depth addr i entry ↔
      ∀ r, H.execOne false depth addr i = some r → r.state.unsupported = true →
        H.GuestSame r.state entry := by
  rw [FirstKeeps, StepHost.execOne_eq, StepHost.execOneWith]
  dsimp only
  cases hTarget : transferTarget addr (H.word addr i) (H.charged addr i).cpu with
  | none =>
      simp only [Option.some.injEq, forall_eq']
      cases hKnown : H.unknownWord addr (H.word addr i) (H.charged addr i).cpu with
      | false =>
          rw [if_neg Bool.false_ne_true]
          exact executedKeeps_iff hKnown
      | true =>
          rw [if_pos rfl, StepHost.execSimple_unknown hKnown]
          have hCpu : (H.charged addr i).cpu = (H.charged addr i).abort.cpu := rfl
          exact ⟨fun hSame _ => (guestSame_congr hCpu).mp hSame,
            fun hSame => (guestSame_congr hCpu).mpr (hSame rfl)⟩
  | some target =>
      simp only [StepHost.execDelaySlot_eq, Option.map_map, Option.map_eq_some_iff,
        forall_exists_index, and_imp, forall_apply_eq_imp_iff₂, Function.comp_apply]
      refine forall₂_congr fun e hSlot => ?_
      cases hCall : isCall (H.word addr i) with
      | true => rfl
      | false =>
          simp only [Bool.false_and, Bool.false_eq_true, if_false]
          cases hUp : H.slotGivenUp e with
          | true =>
              obtain ⟨m, hState⟩ := StepHost.slotEnd_state hSlot
              have hLink : e.state.cpu = { linkWrite addr (H.word addr i) i.cpu with mem := m } :=
                (congrArg InterpState.cpu hState).trans
                  (congrArg (fun s : CPUState M => { s with mem := m }) linkWrite_mem)
              have hSame : H.GuestSame { i with cpu :=
                  { linkWrite addr (H.word addr i) i.cpu with mem := e.state.cpu.mem } } entry ↔
                  H.GuestSame (e.state.abort.setPc target) entry := by
                rw [guestSame_setPc]
                refine guestSame_congr ?_
                rw [InterpState.abort, hLink]
              rw [if_pos rfl, StepHost.slotState_givenUp hUp, hSame]
              exact ⟨fun hSame _ => hSame, fun hSame => hSame rfl⟩
          | false =>
              have hKnown : H.unknownWord e.pc e.word e.state.cpu = false :=
                (Bool.or_eq_false_iff.mp hUp).2
              rw [if_neg Bool.false_ne_true, StepHost.slotState_executed hUp]
              exact (executedKeeps_iff hKnown).trans (imp_congr Iff.rfl guestSame_setPc.symm)

/-- The loop leaves the guest alone exactly if its first instruction does where it leaves
the flag set. -/
theorem loop_leavesGuest_iff (allowLocal : Bool) (stop : Word) {g : InterpState M} :
    (∀ r, loop (H.dirtyTurn depth allowLocal stop) H.guardYield maxInsnsPerDispatch ⟨i, addr, 0⟩ =
        some r → H.LeavesGuest g r) ↔
      H.FirstKeeps depth addr i g := by
  rw [loop_meets_iff, firstKeeps_iff]
  constructor
  · rintro ⟨hLeave, -⟩ e hExec hFlag
    exact hLeave 0 (by decide) _ .start (false, e.state) (dirtyTurn_flagged hExec hFlag) rfl
  · intro hFlags
    refine ⟨fun k _ t hAfter r hTurn hNothing => ?_, fun t _ hNothing => by cases hNothing⟩
    obtain hHandled | ⟨hFirst, e, hExec, hFlag, hState⟩ := dirtyTurn_leave hTurn
    · rw [hNothing] at hHandled
      cases hHandled
    · -- no instruction has been executed, so the turn is the first one
      have hCount := insnsExecuted_after hAfter
      have hZero : k = 0 := by
        rw [hFirst] at hCount
        dsimp only at hCount
        omega
      subst hZero
      rw [after_zero] at hAfter
      subst hAfter
      rw [← hState]
      exact hFlags e hExec hFlag

end DirtyHost

open DirtyHost in
/-- `dirty_ram_dispatch_inner` answers `0` with the guest as it was exactly if the tiers that
decline leave it so, and, where the address is interpreted then, so do the poll at the
entry and the first instruction wherever that leaves the flag set. -/
theorem dirtyRamDispatchInner_keeps_iff (H : DirtyHost M) (depth : Nat)
    (pollCount addr stop : Word) (i : InterpState M) :
    (∀ j, H.dirtyRamDispatchInner depth pollCount addr stop i = some (false, j) →
        H.GuestSame j i) ↔
      (addr ≠ 0x80000048#32 → (H.nativeTiers addr i).1 = false →
        if H.interprets addr (H.nativeTiers addr i).2 then
          H.FirstKeeps depth addr (H.enter pollCount addr (H.nativeTiers addr i).2) i
        else H.GuestSame (H.nativeTiers addr i).2 i) := by
  rw [dirtyRamDispatchInner]
  by_cases hSentinel : addr = 0x80000048#32
  · rw [if_pos hSentinel]
    refine ⟨fun _ hOther => absurd hSentinel hOther, fun _ j hRun => ?_⟩
    split at hRun <;> cases hRun
  · rw [if_neg hSentinel]
    dsimp only
    cases hNative : (H.nativeTiers addr i).1 with
    | true =>
        refine ⟨fun _ _ hDeclined => absurd hDeclined (by simp), fun _ j hRun => ?_⟩
        rw [if_pos rfl, Option.some.injEq] at hRun
        rw [hRun] at hNative
        cases hNative
    | false =>
        rw [if_neg Bool.false_ne_true]
        simp only [ne_eq, hSentinel, not_false_eq_true, forall_const]
        split
        · rw [← loop_leavesGuest_iff (physIsOverlayFlowRegion (psxMainRamMirrorPhys addr)) stop]
          constructor
          · rintro hKeeps ⟨handled, j⟩ hRun hNothing
            cases hNothing
            exact hKeeps j hRun
          · exact fun hKeeps j hRun => hKeeps (false, j) hRun rfl
        · simp

/-- A dirty page with `bltzal` at its beginning, and `jr` in its slot. -/
def linkingHost : DirtyHost Unit where
  toRuntimeHost := { quietHost fun pc =>
      if pc = 0x80042000#32 then 0x04100001#32 else 0x03E00008#32 with
    dirtyRamIsDirty := fun _ _ => true }
  asyncRfeResumePc := fun _ => 0
  entryCheckInterrupts := fun i => i
  interruptsChecked := fun _ _ => true
  pumpDue := fun _ => false
  textNativeOk := fun _ _ => false
  dispatchGameCompiled := fun _ i => (false, i)
  hasOverlayDispatch := false
  overlayDispatch := fun _ i => (false, i)
  overlayLoaderIsCandidate := fun _ _ => false
  overlayLoaderDispatch := fun _ i => (false, i)
  entryPollEnabled := true
  ram := fun _ _ => 0

/-- A link register is written in front of a slot that is given up. -/
theorem dirtyRamDispatchInner_links :
    ¬ ∀ (M : Type) (H : DirtyHost M) (depth : Nat) (pollCount addr stop : Word)
      (i j : InterpState M),
      H.dirtyRamDispatchInner depth pollCount addr stop i = some (false, j) →
        H.GuestSame j i := by
  intro h
  have hRun : ∃ j, linkingHost.dirtyRamDispatchInner 1 0 0x80042000#32 0 (stateAt 0) =
      some (false, j) ∧ j.cpu.gpr 31 = 0x80042008#32 := ⟨_, rfl, rfl⟩
  obtain ⟨j, hRun, hLink⟩ := hRun
  have hSame := congrFun (h Unit linkingHost 1 0 0x80042000#32 0 (stateAt 0) j hRun).gpr 31
  rw [hLink] at hSame
  exact absurd hSame (by decide)

end RecompStudio.Interp
