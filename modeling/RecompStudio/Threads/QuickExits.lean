import RecompStudio.Runtime.PacedClock
import RecompStudio.Threads.Interrupts

/-!
The quick exits in front of a check for interrupts. Behind a charge of cycles they
leave nothing undone that the check would do.
-/

namespace RecompStudio.Threads

open RecompStudio.Machine RecompStudio.Runtime

variable {M : Type}

/-- `psx_interrupt_delivery_needed`. -/
@[grind =] def deliveryNeeded (h : Host M) : Bool :=
  if h.ctl.deferPending then true
  else if h.live.iStat &&& h.live.iMask = 0 then false
  else if !h.cpu.sr.getLsbD 0 || !h.cpu.sr.getLsbD 10 then false
  else if h.ctl.cooldownUntil ≠ 0 ∧ h.live.cycle < h.ctl.cooldownUntil then false
  else if h.ctl.inException && (decide (2 ≤ h.ctl.nestDepth) || h.ctl.rfePending ||
      h.ctl.reason != .none) then false
  else true

/-- The fast paths at the entry of `psx_check_interrupts`. -/
@[grind =] def leavesAtEntry (idleSkip : Bool) (h : Host M) : Bool :=
  (!h.ctl.inException && (h.live.iStat &&& h.live.iMask) == 0 && !h.ctl.deferPending &&
      !idleSkip) ||
    (h.ctl.inException && !h.cpu.sr.getLsbD 0)

variable (G : GuestMemory M)

/-- The body of `psx_check_interrupts` behind them, up to the delivery. -/
def fullCheck (o : Site) (h : Host M) : Poll M :=
  match honourDeferred G (o.service h) with
  | .returns h => gates h
  | ended => ended

/-- A check at a state of the clock, without the idle skip: the service of the pacing
raises the vertical blank for the edges it fires. -/
def siteAt (t : PacedClock) (resumePc : Option Word) : Site where
  resumePc := resumePc
  raised := if t.edges = 0 then 0 else 1
  skipped := 0
  idleSkip := false

/-- `s_last_interrupt_check_pc` is noted. -/
def noteCheck (h : Host M) : Host M := { h with ctl := { h.ctl with lastCheckPc := h.takePc } }

section Exits

variable {G} {h : Host M} {o : Site}

theorem gates_of_not_needed (hNot : deliveryNeeded h = false) : ∃ h', gates h = .returns h' := by
  unfold gates
  split
  · exact ⟨_, rfl⟩
  rename_i hRaised
  split
  · exact ⟨_, rfl⟩
  rename_i hNested
  split
  · exact ⟨_, rfl⟩
  rename_i hCooled
  dsimp only
  split
  · exact ⟨_, rfl⟩
  rename_i hStatus
  -- All gates are open, and the interrupt would have been asked for.
  have hNest : ¬(h.ctl.inException && (decide (2 ≤ h.ctl.nestDepth) || h.ctl.rfePending ||
      h.ctl.reason != .none)) = true := by
    intro hIs
    rw [Bool.and_eq_true] at hIs
    exact hNested (by rw [hIs.1, hIs.2]; rfl)
  have hStatus' : ¬(!h.cpu.sr.getLsbD 0 || !h.cpu.sr.getLsbD 10) = true := hStatus
  unfold deliveryNeeded at hNot
  rw [if_neg hRaised, if_neg hStatus', if_neg hCooled, if_neg hNest, ite_self] at hNot
  exact absurd hNot Bool.true_eq_false.mp

/-- A status that is masked holds every interrupt back. -/
theorem gates_of_leaves {idleSkip : Bool} (hLeaves : leavesAtEntry idleSkip h = true) :
    ∃ h', gates h = .returns h' := by
  unfold leavesAtEntry at hLeaves
  unfold gates
  rcases Bool.or_eq_true_iff.mp hLeaves with hQuiet | hHandler
  · have hNone : h.live.iStat &&& h.live.iMask = 0 := by
      simp only [Bool.and_eq_true, beq_iff_eq] at hQuiet
      exact hQuiet.1.1.2
    exact ⟨h, if_pos hNone⟩
  · split
    · exact ⟨_, rfl⟩
    · rw [if_pos]
      · exact ⟨_, rfl⟩
      · simp only [Bool.and_eq_true, Bool.not_eq_true'] at hHandler
        rw [hHandler.1, hHandler.2, Bool.not_false, Bool.or_true]
        rfl

/-- No switch is honoured where none is deferred or a handler runs. -/
theorem honourDeferred_kept (hKept : h.ctl.deferPending = false ∨ h.ctl.inException = true) :
    honourDeferred G h = .returns h := by
  unfold honourDeferred
  rw [if_pos]
  rcases hKept with hNone | hIn
  · simp [hNone]
  · simp [hIn]

theorem kept_of_quick {idleSkip : Bool}
    (hQuick : deliveryNeeded h = false ∨ leavesAtEntry idleSkip h = true) :
    h.ctl.deferPending = false ∨ h.ctl.inException = true := by
  rcases hQuick with hNot | hLeaves
  · left
    unfold deliveryNeeded at hNot
    split at hNot
    · exact absurd hNot Bool.true_eq_false.mp
    · rename_i hNone
      simpa using hNone
  · simp only [leavesAtEntry, Bool.or_eq_true, Bool.and_eq_true, Bool.not_eq_true'] at hLeaves
    rcases hLeaves with hQuiet | hHandler
    · exact .inl hQuiet.1.2
    · exact .inr hHandler.1

/-- A service that fires no edge is not seen by the gates. -/
theorem service_quiet (t : PacedClock) (hPaid : t.edges = 0) (resumePc : Option Word) :
    (siteAt t resumePc).service h = noteCheck h := by
  have hRaised : (siteAt t resumePc).raised = 0 := if_pos hPaid
  unfold Site.service
  rw [hRaised, show h.live.iStat ||| 0 = h.live.iStat from BitVec.or_zero]
  rfl

end Exits

/-- Behind a charge that returns, whatever else the host has come to: where no
delivery is needed, or a check leaves at its entry, the body of the check fires no
edge, honours no switch and delivers nothing. -/
theorem quick_exits_agree {count : Nat} {iStat : Word} {lcf : Bool} {devices : DeviceView}
    {s : PacedClock} {e : PacedEvent}
    (hRun : Reach pacedStep PacedOk (.init count iStat lcf devices) s) (hOk : PacedOk s e)
    (hReturn : ChargeReturns s e) {h : Host M} {idleSkip : Bool}
    (hQuick : deliveryNeeded h = false ∨ leavesAtEntry idleSkip h = true)
    (resumePc : Option Word) :
    (pacedStep s e).edges = 0 ∧
      ∃ h', fullCheck G (siteAt (pacedStep s e) resumePc) h = .returns h' := by
  have hInv : PacedInv s := hRun.invariant (init_inv count iStat lcf devices) fun _ e h hOk =>
    pacedStep_inv h e hOk
  have hPaid := chargeReturns_paid hInv hOk hReturn
  refine ⟨hPaid, ?_⟩
  have hQuick' : deliveryNeeded (noteCheck h) = false ∨
      leavesAtEntry idleSkip (noteCheck h) = true := hQuick
  unfold fullCheck
  rw [service_quiet _ hPaid, honourDeferred_kept (kept_of_quick hQuick')]
  rcases hQuick' with hNot | hLeaves
  · exact gates_of_not_needed hNot
  · exact gates_of_leaves hLeaves

/-- Devices without an event. -/
def idleDevices : DeviceView := ⟨0xFFFFFFFF, 0, false⟩

/-- A period passes in a handler, which is left with the edge owed. -/
def owedEdge : PacedClock :=
  ([PacedEvent.guest idleDevices 0 true, .charge 564480] ++
    List.replicate 7 (PacedEvent.callback idleDevices 0) ++
    [PacedEvent.guest idleDevices 0 false]).foldl pacedStep (.init 0 0 false idleDevices)

theorem owedEdge_reached :
    Reach pacedStep PacedOk (.init 0 0 false idleDevices) owedEdge :=
  Reach.start.along _ (by decide)

/-- The next cycle, up to the last callback. -/
def nextCycle : PacedClock :=
  (PacedEvent.charge 1 :: List.replicate 6 (PacedEvent.callback idleDevices 1)).foldl pacedStep
    owedEdge

theorem nextCycle_reached :
    Reach pacedStep PacedOk (.init 0 0 false idleDevices) nextCycle :=
  owedEdge_reached.along _ (by decide)

/-- The thread with nothing pending. -/
def quietThread : Host (Word → Word) where
  live :=
    { cpu := firstThread
      iStat := 0
      iMask := 1
      cycle := 564480
      dispatchDepth := 0
      callUnitDepth := 0
      dirtyResumePc := 0x80010000#32
      pumpSite := 0 }
  ctl := ⟨false, 0, false, .none, 0, 0, 0, 0, 0, 0, false, 0, 0⟩

/-- The thread with the vertical blank raised and masked. -/
def maskedThread : Host (Word → Word) :=
  { quietThread with live := { quietThread.live with iStat := 1, iMask := 4 } }

/-- The charge of one cycle pays the edge, and the check has nothing left to do. -/
theorem quick_exits_agree_masked :
    (pacedStep nextCycle (.callback idleDevices 1)).edges = 0 ∧
      ∃ h', fullCheck wordMemory (siteAt (pacedStep nextCycle (.callback idleDevices 1)) none)
        maskedThread = .returns h' := by
  have hReturn : ChargeReturns nextCycle (.callback idleDevices 1) := by
    refine ⟨by decide, ⟨[], .service 564481 false, 564480⟩, by decide, ?_⟩
    intro target hLoop
    exact absurd (ClockLoop.service.inj hLoop).2 Bool.false_ne_true
  have hOk : PacedOk nextCycle (.callback idleDevices 1) := trivial
  have hQuick : deliveryNeeded maskedThread = false ∨ leavesAtEntry false maskedThread = true :=
    .inl (by decide)
  exact quick_exits_agree wordMemory nextCycle_reached hOk hReturn hQuick none

/-- The host at a state of the clock. -/
def ShowsClock (h : Host M) (t : PacedClock) : Prop :=
  h.live.iStat = t.pacing.iStat ∧ h.ctl.inException = t.pacing.inException ∧
    h.live.cycle = t.clock.count

/-- A charge of no cycles returns with the edge still owed, which the body of a check
would fire. -/
theorem emptyCharge_owes :
    ¬∀ (s : PacedClock) (cycles : Word) (h : Host (Word → Word)),
      Reach pacedStep PacedOk (.init 0 0 false idleDevices) s → s.clock.calls = [] →
      (pacedStep s (.charge cycles)).clock.calls = [] →
      ShowsClock h (pacedStep s (.charge cycles)) → deliveryNeeded h = false →
      leavesAtEntry false h = true → (pacedStep s (.charge cycles)).edges = 0 := by
  intro hClaim
  have hPaid := hClaim owedEdge 0 quietThread owedEdge_reached (by decide)
    (by decide) ⟨by decide, by decide, by decide⟩ (by decide)
    (by decide)
  exact absurd hPaid (by decide)

end RecompStudio.Threads
