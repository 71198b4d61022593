import RecompStudio.Runtime.Cycles
import RecompStudio.Runtime.VblankPacing

/-!
The clock together with the pacing of the vertical blank, which it calls. A charge
that returns leaves no edge that could be paid.
-/

namespace RecompStudio.Runtime

open Machine

/-- What the clock and the pacing read of the devices: the nearest of their events,
unmasked, and the card. -/
structure DeviceView where
  distance : Word
  sioSeq : Word
  cardActive : Bool
deriving DecidableEq, Repr

def DeviceView.pacing (d : DeviceView) (now : Nat) : PacingView := ⟨d.sioSeq, d.cardActive, now⟩

/-- The clock, the pacing and the devices, and `g_ls_replay_active`. -/
structure PacedClock where
  clock : Clock
  pacing : VblankPacing
  devices : DeviceView
  replay : Bool

namespace PacedClock

variable (s : PacedClock)

@[grind =] def view : PacingView := s.devices.pacing s.clock.count

/-- `interrupts_cycles_to_vblank`, as the clock gets it. -/
def toVblank : Word := BitVec.ofNat 32 s.pacing.cyclesToVblank

/-- The minimum of `devices_cycles_to_next_internal_event`. -/
def best : Word := if s.devices.distance < s.toVblank then s.devices.distance else s.toVblank

/-- A call of the clock that opens a loop services the pacing first. -/
def opened (clock : Clock) : PacedClock :=
  { s with
    clock := clock
    pacing :=
      if clock.calls = [] then s.pacing
      else s.pacing.serviceScheduledEvents (s.devices.pacing clock.count) }

/-- `psx_advance_cycles`, up to its first device. -/
def charge (cycles : Word) : PacedClock :=
  if s.replay then s else s.opened (s.clock.advanceCycles cycles s.best)

/-- `psx_devices_mmio_sync`, up to its first device. -/
def sync : PacedClock := s.opened (s.clock.mmioSync s.best)

/-- A device that has been advanced. -/
def afterDevice (clock : Clock) (devices : DeviceView) (iStat : Word) : PacedClock :=
  { s with clock := clock, devices := devices, pacing := { s.pacing with iStat := iStat } }

/-- The call that is open goes on with its next callback, or returns. A device may do
anything to what is read of it and to I_STAT, but does not call the clock. -/
@[grind =] def callback (devices : DeviceView) (iStat : Word) : PacedClock :=
  let clock := s.clock.resume s.best s.toVblank
  match s.clock.calls with
  | [] => s
  | call :: _ =>
      match call.queue with
      | .advance .interrupts c :: _ =>
          { s with
            clock := clock
            pacing := (s.pacing.collect (BitVec.ofNat 32 c)).serviceScheduledEvents s.view }
      | .advance _ _ :: _ => s.afterDevice clock devices iStat
      | .scheduled :: _ =>
          { s with clock := clock, pacing := s.pacing.serviceScheduledEvents s.view }
      | [] =>
          if clock.calls = [] then { s with clock := clock }
          else s.afterDevice clock devices iStat

/-- The edges that `interrupts_service_scheduled_events` would fire. -/
@[grind =] def edges : Nat := (s.pacing.serviceScheduledEvents s.view).raised - s.pacing.raised

/-- The counter of the clock has been overwritten from a snapshot,
`psx_cycles_resync_after_restore`. -/
def restored (count : Nat) : PacedClock :=
  { s with
    clock :=
      { s.clock with count := count, synced := count, nextService := 0, inService := false } }

/-- The machine behind its initialisation. -/
def init (count : Nat) (iStat : Word) (lcf : Bool) (devices : DeviceView) : PacedClock where
  clock := freshClock count false
  pacing := .init iStat lcf (devices.pacing count)
  devices := devices
  replay := false

end PacedClock

/-- What happens to the clock: charges and synchronisations with their callbacks, the
service of a check, and what guest code, exceptions and the host do between them. -/
inductive PacedEvent where
  | charge (cycles : Word)
  | sync
  | callback (devices : DeviceView) (iStat : Word)
  | service
  | guest (devices : DeviceView) (iStat : Word) (inException : Bool)
  | setConservative (on : Bool)
  | setReplay (on : Bool)
  | restore (count : Nat)

def pacedStep (s : PacedClock) : PacedEvent → PacedClock
  | .charge cycles => s.charge cycles
  | .sync => s.sync
  | .callback devices iStat => s.callback devices iStat
  | .service => { s with pacing := s.pacing.serviceScheduledEvents s.view }
  | .guest devices iStat inException =>
      { s with
        devices := devices
        pacing := { s.pacing with iStat := iStat, inException := inException } }
  | .setConservative on => { s with clock := { s.clock with conservative := on } }
  | .setReplay on => { s with replay := on }
  | .restore count => s.restored count

/-- Only callbacks come while a call is open. -/
def PacedOk (s : PacedClock) : PacedEvent → Prop
  | .callback _ _ => True
  | _ => s.clock.calls = []

instance (s : PacedClock) : (e : PacedEvent) → Decidable (PacedOk s e)
  | .callback _ _ => isTrue trivial
  | .charge _ | .sync | .service | .guest _ _ _ | .setConservative _ | .setReplay _ | .restore _ =>
      inferInstanceAs (Decidable (s.clock.calls = []))

/-- A charge of cycles returns: at once, or from its last callback. -/
def ChargeReturns (s : PacedClock) (e : PacedEvent) : Prop :=
  (pacedStep s e).clock.calls = [] ∧
    match e with
    | .charge cycles => cycles.toNat ≠ 0 ∧ s.replay = false
    | .callback _ _ => ∃ call, s.clock.calls = [call] ∧ ∀ target, call.loop ≠ .service target true
    | _ => False

namespace VblankPacing

variable {s : VblankPacing} {v : PacingView}

/-- What a service does not touch, or only its note. -/
theorem serviceLoop_frame (turns : Nat) :
    (serviceLoop v turns s).lastSioSeqSeen = s.lastSioSeqSeen ∧
      (serviceLoop v turns s).lastSioProgressCycle = s.lastSioProgressCycle ∧
      (serviceLoop v turns s).inException = s.inException := by
  induction turns generalizing s with
  | zero => exact ⟨rfl, rfl, rfl⟩
  | succ turns ih =>
      unfold serviceLoop
      split
      · split
        · exact ⟨rfl, rfl, rfl⟩
        · exact ih
      · exact ⟨rfl, rfl, rfl⟩

theorem serviceLoop_early (hEarly : s.cyclesSinceVblank.toNat < vblankCycles) (turns : Nat) :
    serviceLoop v turns s = s := by
  cases turns with
  | zero => rfl
  | succ turns =>
      unfold serviceLoop
      rw [if_neg (Nat.not_le.mpr hEarly)]

theorem serviceLoop_deferred (hDefer : s.shouldDeferVblankForSio v = true) (turns : Nat) :
    serviceLoop v turns s = s := by
  cases turns with
  | zero => rfl
  | succ turns =>
      unfold serviceLoop
      rw [hDefer, if_pos rfl, ite_self]

/-- The loop has nothing left to do. -/
theorem serviceLoop_settled {turns : Nat}
    (hTurns : s.cyclesSinceVblank.toNat / vblankCycles ≤ turns) (more : Nat) :
    serviceLoop v more (serviceLoop v turns s) = serviceLoop v turns s := by
  cases hDefer : s.shouldDeferVblankForSio v with
  | true => rw [serviceLoop_deferred hDefer, serviceLoop_deferred hDefer]
  | false => exact serviceLoop_early (serviceLoop_toNat hDefer hTurns) more

theorem noteSioProgressCycle_same (hSeen : s.lastSioSeqSeen = v.sioSeq) :
    s.noteSioProgressCycle v = s := if_neg (not_not.mpr hSeen.symm)

theorem noteSioProgressCycle_seen : (s.noteSioProgressCycle v).lastSioSeqSeen = v.sioSeq := by
  unfold noteSioProgressCycle
  split
  · rfl
  · rename_i hSame
    exact (not_not.mp hSame).symm

theorem serviceTurns_inside (hIn : s.inException = true) (turns : Nat) :
    s.serviceTurns v turns = s.noteSioProgressCycle v := by
  unfold serviceTurns
  dsimp only
  rw [noteSioProgressCycle_inException, if_pos hIn]

theorem serviceTurns_outside (hOut : s.inException = false) (turns : Nat) :
    s.serviceTurns v turns = serviceLoop v turns (s.noteSioProgressCycle v) := by
  unfold serviceTurns
  dsimp only
  rw [noteSioProgressCycle_inException, hOut, if_neg Bool.false_ne_true]

/-- A second service with the same view does nothing. -/
theorem serviceScheduledEvents_idem :
    (s.serviceScheduledEvents v).serviceScheduledEvents v = s.serviceScheduledEvents v := by
  unfold serviceScheduledEvents
  generalize hTurns : s.cyclesSinceVblank.toNat / vblankCycles = turns
  generalize (s.serviceTurns v turns).cyclesSinceVblank.toNat / vblankCycles = more
  cases hIn : s.inException with
  | true =>
      have hSame := @noteSioProgressCycle_same (s.noteSioProgressCycle v) v
        noteSioProgressCycle_seen
      rw [serviceTurns_inside hIn, serviceTurns_inside (by simpa using hIn), hSame]
  | false =>
      obtain ⟨hSeen, -, hOut⟩ := @serviceLoop_frame (s.noteSioProgressCycle v) v turns
      rw [noteSioProgressCycle_inException, hIn] at hOut
      rw [serviceTurns_outside hIn, serviceTurns_outside hOut,
        noteSioProgressCycle_same (hSeen.trans noteSioProgressCycle_seen)]
      refine serviceLoop_settled ?_ more
      rw [noteSioProgressCycle_cycles, hTurns]

/-- Where no edge is owed none is fired. -/
theorem serviceScheduledEvents_early (hEarly : s.cyclesSinceVblank.toNat < vblankCycles) :
    s.serviceScheduledEvents v = s.noteSioProgressCycle v := by
  unfold serviceScheduledEvents serviceTurns
  dsimp only
  split
  · rfl
  · refine serviceLoop_early ?_ _
    rw [noteSioProgressCycle_cycles]
    exact hEarly

theorem noteSioProgressCycle_raised : (s.noteSioProgressCycle v).raised = s.raised := by
  unfold noteSioProgressCycle
  split <;> rfl

theorem serviceLoop_cycles_le (turns : Nat) :
    (serviceLoop v turns s).cyclesSinceVblank.toNat ≤ s.cyclesSinceVblank.toNat := by
  induction turns generalizing s with
  | zero => exact le_rfl
  | succ turns ih =>
      unfold serviceLoop
      split
      · rename_i hDue
        split
        · exact le_rfl
        · refine ih.trans ?_
          rw [fireVblankEdge_toNat hDue]
          exact Nat.sub_le _ _
      · exact le_rfl

/-- A service gives no cycles. -/
theorem serviceScheduledEvents_cycles_le :
    (s.serviceScheduledEvents v).cyclesSinceVblank.toNat ≤ s.cyclesSinceVblank.toNat := by
  unfold serviceScheduledEvents serviceTurns
  dsimp only
  split
  · rw [noteSioProgressCycle_cycles]
  · exact (serviceLoop_cycles_le _).trans (by rw [noteSioProgressCycle_cycles])

end VblankPacing

/-- An edge that the counter holds. -/
def PacedClock.Owed (s : PacedClock) : Prop := vblankCycles ≤ s.pacing.cyclesSinceVblank.toNat

/-- Between the calls an owed edge keeps the deadline at the next cycle. A call is
alone, and behind each service of the pacing nothing is left to be paid. -/
structure PacedInv (s : PacedClock) : Prop where
  due : s.clock.calls = [] → s.Owed → s.clock.nextService ≤ s.clock.count + 1
  synced : s.clock.calls = [] → s.clock.synced ≤ s.clock.count
  outside : s.clock.calls = [] → s.clock.inService = false
  alone : s.clock.calls.length ≤ 1
  last : ∀ call, s.clock.calls = [call] → call.queue = [] ∨
    ∃ front, call.queue = front ++ [.scheduled]
  exact : ∀ call cycles, s.clock.calls = [call] → call.loop = .exact cycles →
    s.clock.inService = false
  paid : ∀ call, s.clock.calls = [call] → call.queue = [] → s.edges = 0

open PacedClock

variable {s : PacedClock} {e : PacedEvent}

theorem edges_early (hEarly : ¬s.Owed) : s.edges = 0 := by
  unfold edges
  rw [VblankPacing.serviceScheduledEvents_early (Nat.not_le.mp hEarly),
    VblankPacing.noteSioProgressCycle_raised, Nat.sub_self]

/-- A service leaves nothing to be paid. -/
theorem edges_serviced {p : VblankPacing} {t : PacedClock}
    (hPacing : t.pacing = p.serviceScheduledEvents t.view) : t.edges = 0 := by
  unfold edges
  rw [hPacing, VblankPacing.serviceScheduledEvents_idem, Nat.sub_self]

/-- What keeps the clock and the counter of the pacing keeps the invariant between
the calls. -/
theorem PacedInv.idle_congr {t : PacedClock} (h : PacedInv s) (hIdle : s.clock.calls = [])
    (hClock : t.clock = s.clock)
    (hCycles : t.pacing.cyclesSinceVblank.toNat ≤ s.pacing.cyclesSinceVblank.toNat) :
    PacedInv t := by
  have hNone {P : Prop} {call : ClockCall} (hCalls : t.clock.calls = [call]) : P := by
    rw [hClock, hIdle] at hCalls
    exact absurd hCalls.symm (List.cons_ne_nil _ _)
  refine ⟨fun _ hOwed => ?_, fun _ => ?_, fun _ => ?_, ?_, fun _ hCalls => hNone hCalls,
    fun _ _ hCalls => hNone hCalls, fun _ hCalls => hNone hCalls⟩
  · rw [hClock]
    exact h.due hIdle (le_trans hOwed hCycles)
  · rw [hClock]
    exact h.synced hIdle
  · rw [hClock]
    exact h.outside hIdle
  · rw [hClock]
    exact h.alone

/-- An owed edge is due in the next cycle. -/
theorem internalEvent_owed (hOwed : s.Owed) : internalEvent s.best = 1 := by
  have hZero : s.toVblank = 0#32 := by
    unfold toVblank VblankPacing.cyclesToVblank
    rw [if_pos (show vblankCycles ≤ _ from hOwed)]
  have hBest : s.best = 0#32 := by
    unfold best
    rw [hZero, if_neg]
    exact BitVec.not_lt_zero
  unfold internalEvent
  rw [hBest]
  rfl

/-- A call that opens has serviced the pacing. -/
theorem opened_call {clock : Clock} {call : ClockCall} (hCalls : clock.calls = [call])
    (hQueue : call.queue = [])
    (hExact : ∀ cycles, call.loop = .exact cycles → clock.inService = false) :
    PacedInv (s.opened clock) := by
  have hSome {P : Prop} (hNone : clock.calls = []) : P :=
    absurd (hCalls.symm.trans hNone) (List.cons_ne_nil _ _)
  refine ⟨fun hNone => hSome hNone, fun hNone => hSome hNone, fun hNone => hSome hNone, ?_,
    fun call' hIs => ?_, fun call' cycles hIs hLoop => ?_, fun _ _ _ => ?_⟩
  · exact (congrArg List.length hCalls).le
  · obtain ⟨rfl, -⟩ := List.cons.inj (hCalls.symm.trans hIs)
    exact .inl hQueue
  · obtain ⟨rfl, -⟩ := List.cons.inj (hCalls.symm.trans hIs)
    exact hExact cycles hLoop
  · refine edges_serviced (p := s.pacing) ?_
    exact if_neg fun hNone => hSome hNone

theorem opened_idle {clock : Clock} (hCalls : clock.calls = [])
    (hDue : s.Owed → clock.nextService ≤ clock.count + 1) (hSynced : clock.synced ≤ clock.count)
    (hOut : clock.inService = false) : PacedInv (s.opened clock) := by
  have hPacing : (s.opened clock).pacing = s.pacing := if_pos hCalls
  have hNone {P : Prop} {call : ClockCall} (hSome : (s.opened clock).clock.calls = [call]) : P :=
    absurd (hCalls.symm.trans hSome).symm (List.cons_ne_nil _ _)
  refine ⟨fun _ hOwed => hDue ?_, fun _ => hSynced, fun _ => hOut, ?_, fun _ hSome => hNone hSome,
    fun _ _ hSome => hNone hSome, fun _ hSome => hNone hSome⟩
  · unfold Owed at hOwed ⊢
    exact hPacing ▸ hOwed
  · exact (congrArg List.length hCalls).le.trans (Nat.zero_le _)

/-- A service of the devices that are behind opens a call. -/
theorem serviceToNow_open {clock : Clock} (hOut : clock.inService = false)
    (hGap : clock.synced < clock.count) (entry : Nat) (mmio : Bool) (best : Word) :
    (clock.serviceToNow entry mmio best).calls =
      ⟨[], .service clock.count mmio, entry⟩ :: clock.calls := by
  rw [Clock.serviceToNow, if_neg (by simp [hOut]), if_pos hGap]

theorem PacedInv.charge (h : PacedInv s) (hIdle : s.clock.calls = []) (cycles : Word) :
    PacedInv (s.charge cycles) := by
  unfold PacedClock.charge
  split
  · exact h
  · have hOut := h.outside hIdle
    have hSynced := h.synced hIdle
    unfold Clock.advanceCycles
    split
    · exact opened_idle hIdle (h.due hIdle) hSynced hOut
    · rename_i hSome
      dsimp only
      split
      · exact opened_call (congrArg _ hIdle) rfl fun _ _ => hOut
      · rw [if_neg (by simp [hOut])]
        split
        · have hOpen := @serviceToNow_open
            { s.clock with
              charged := s.clock.charged + cycles.toNat
              count := s.clock.count + cycles.toNat }
            hOut (by dsimp only; omega) s.clock.count false s.best
          refine opened_call (hOpen.trans (congrArg _ hIdle)) rfl fun _ hLoop => ?_
          exact absurd hLoop ClockLoop.noConfusion
        · rename_i hLater
          refine opened_idle hIdle (fun hOwed => ?_) (Nat.le_add_right_of_le hSynced) hOut
          have hDue := h.due hIdle hOwed
          dsimp only at hLater ⊢
          omega

theorem PacedInv.sync (h : PacedInv s) (hIdle : s.clock.calls = []) : PacedInv s.sync := by
  have hOut := h.outside hIdle
  have hSynced := h.synced hIdle
  unfold PacedClock.sync Clock.mmioSync
  by_cases hGap : s.clock.synced ≠ s.clock.count
  · have hOpen := serviceToNow_open hOut (by omega) s.clock.count true s.best
    rw [hIdle] at hOpen
    rw [if_pos hGap]
    dsimp only
    rw [if_neg (by simp [hOpen, hIdle])]
    exact opened_call hOpen rfl fun _ hLoop => absurd hLoop ClockLoop.noConfusion
  · rw [if_neg hGap]
    dsimp only
    rw [if_pos rfl]
    exact opened_idle hIdle (fun _ => Nat.zero_le _) hSynced hOut

/-- How a call goes on behind a callback: with its next one, with the next chunk of its
loop, or back to its caller. -/
inductive Resumed (clock t : Clock) (call : ClockCall) (best : Word) : Prop
  | next (cb : Callback) (queue : List Callback) (hQueue : call.queue = cb :: queue)
      (hCalls : t.calls = [{ call with queue := queue }]) (hService : t.inService = clock.inService)
      (hCount : t.count = clock.count)
  | chunk (loop : ClockLoop) (c : Nat) (hQueue : call.queue = [])
      (hCalls : t.calls = [⟨[.advance .cdrom c, .advance .dma c, .advance .timers c,
        .advance .interrupts c, .scheduled], loop, call.entry⟩])
      (hService : t.inService = clock.inService)
      (hExact : ∀ cycles, loop = .exact cycles → ∃ left, call.loop = .exact left)
  | back (hQueue : call.queue = []) (hCalls : t.calls = []) (hCount : t.count = clock.count)
      (hSynced : t.synced ≤ t.count)
      (hService : t.inService = false ∨
        t.inService = clock.inService ∧ ∃ left, call.loop = .exact left)
      (hDeadline : t.nextService = 0 ∨
        t.nextService = t.count + min (internalEvent best) deadlineHardCap)

theorem resume_resumed {clock : Clock} {call : ClockCall} (hCalls : clock.calls = [call])
    (best toVblank : Word) : Resumed clock (clock.resume best toVblank) call best := by
  obtain ⟨queue, loop, entry⟩ := call
  unfold Clock.resume
  rw [hCalls]
  dsimp only
  cases queue with
  | cons cb queue =>
      cases cb <;> exact .next _ _ rfl rfl rfl rfl
  | nil =>
      cases loop with
      | service target mmio =>
          dsimp only
          split
          · exact .chunk _ _ rfl rfl rfl fun _ hLoop => absurd hLoop ClockLoop.noConfusion
          · rename_i hDone
            split
            · exact .back rfl rfl rfl (Nat.not_lt.mp hDone) (.inl rfl) (.inl rfl)
            · exact .back rfl rfl rfl (Nat.not_lt.mp hDone) (.inl rfl) (.inr rfl)
      | exact cycles =>
          dsimp only
          split
          · exact .chunk _ _ rfl rfl rfl fun _ _ => ⟨cycles, rfl⟩
          · exact .back rfl rfl rfl le_rfl (.inr ⟨rfl, cycles, rfl⟩) (.inl rfl)

theorem PacedInv.open (h : PacedInv s) (hOpen : s.clock.calls ≠ []) :
    ∃ call, s.clock.calls = [call] := by
  have hAlone := h.alone
  cases hCalls : s.clock.calls with
  | nil => exact absurd hCalls hOpen
  | cons call rest =>
      rw [hCalls, List.length_cons] at hAlone
      have hRest : rest = [] := List.length_eq_zero_iff.mp (by omega)
      exact ⟨call, by rw [hRest]⟩

/-- A call that is open behind a callback. -/
theorem callback_open {t : PacedClock} {call next : ClockCall} (h : PacedInv s)
    (hBefore : s.clock.calls = [call]) (hCalls : t.clock.calls = [next])
    (hLast : next.queue = [] ∨ ∃ front, next.queue = front ++ [.scheduled])
    (hExact : ∀ cycles, next.loop = .exact cycles → ∃ left, call.loop = .exact left)
    (hService : t.clock.inService = s.clock.inService)
    (hPaid : next.queue = [] → t.edges = 0) : PacedInv t := by
  have hSome {P : Prop} (hNone : t.clock.calls = []) : P :=
    absurd (hCalls.symm.trans hNone) (List.cons_ne_nil _ _)
  refine ⟨fun hNone => hSome hNone, fun hNone => hSome hNone, fun hNone => hSome hNone, ?_,
    fun call' hIs => ?_, fun call' cycles hIs hLoop => ?_, fun call' hIs hQueue => ?_⟩
  · exact (congrArg List.length hCalls).le
  · obtain ⟨rfl, -⟩ := List.cons.inj (hCalls.symm.trans hIs)
    exact hLast
  · obtain ⟨rfl, -⟩ := List.cons.inj (hCalls.symm.trans hIs)
    obtain ⟨left, hLoop'⟩ := hExact cycles hLoop
    rw [hService]
    exact h.exact call left hBefore hLoop'
  · obtain ⟨rfl, -⟩ := List.cons.inj (hCalls.symm.trans hIs)
    exact hPaid hQueue

theorem callback_clock {call : ClockCall} (hBefore : s.clock.calls = [call])
    (devices : DeviceView) (iStat : Word) :
    (s.callback devices iStat).clock = s.clock.resume s.best s.toVblank := by
  unfold PacedClock.callback
  rw [hBefore]
  dsimp only
  split
  · rfl
  · rfl
  · rfl
  · split <;> rfl

/-- The service at the end of a chunk leaves nothing to be paid. -/
theorem callback_scheduled {call : ClockCall} (hBefore : s.clock.calls = [call])
    (hQueue : call.queue = [.scheduled]) (devices : DeviceView) (iStat : Word)
    (hCount : (s.clock.resume s.best s.toVblank).count = s.clock.count) :
    (s.callback devices iStat).edges = 0 := by
  have hStep : s.callback devices iStat =
      { s with
        clock := s.clock.resume s.best s.toVblank
        pacing := s.pacing.serviceScheduledEvents s.view } := by
    unfold PacedClock.callback
    rw [hBefore]
    dsimp only
    rw [hQueue]
  rw [hStep]
  refine edges_serviced (p := s.pacing) ?_
  unfold view
  dsimp only
  rw [hCount]

/-- A call that returns has left the pacing alone since its last service. -/
theorem callback_back {call : ClockCall} (hBefore : s.clock.calls = [call])
    (hQueue : call.queue = []) (devices : DeviceView) (iStat : Word)
    (hBack : (s.clock.resume s.best s.toVblank).calls = []) :
    s.callback devices iStat = { s with clock := s.clock.resume s.best s.toVblank } := by
  unfold PacedClock.callback
  rw [hBefore]
  dsimp only
  rw [hQueue]
  exact if_pos hBack

theorem PacedInv.callback (h : PacedInv s) (devices : DeviceView) (iStat : Word) :
    PacedInv (s.callback devices iStat) := by
  by_cases hIdle : s.clock.calls = []
  · have hSame : s.callback devices iStat = s := by
      unfold PacedClock.callback
      rw [hIdle]
    rw [hSame]
    exact h
  · obtain ⟨call, hCalls⟩ := h.open hIdle
    have hClock := callback_clock hCalls devices iStat
    cases resume_resumed hCalls s.best s.toVblank with
    | next cb queue hQueue hNext hService hCount =>
        rw [← hClock] at hNext hService
        have hLast : (queue = [] ∧ cb = .scheduled) ∨ ∃ front, queue = front ++ [.scheduled] := by
          obtain hNil | ⟨front, hFront⟩ := h.last call hCalls
          · exact absurd (hNil.symm.trans hQueue).symm (List.cons_ne_nil _ _)
          · rw [hQueue] at hFront
            cases front with
            | nil =>
                obtain ⟨hCb, hRest⟩ := List.cons.inj hFront
                exact .inl ⟨hRest, hCb⟩
            | cons first front => exact .inr ⟨front, (List.cons.inj hFront).2⟩
        refine callback_open h hCalls hNext (hLast.imp_left And.left) (fun cycles hLoop =>
          ⟨cycles, hLoop⟩) hService fun hNil => ?_
        obtain ⟨hRest, rfl⟩ | ⟨front, hFront⟩ := hLast
        · exact callback_scheduled hCalls (hRest ▸ hQueue) devices iStat hCount
        · exact absurd (hFront.symm.trans hNil) (List.append_ne_nil_of_right_ne_nil _
            (List.cons_ne_nil _ _))
    | chunk loop c hQueue hNext hService hExact =>
        rw [← hClock] at hNext hService
        refine callback_open h hCalls hNext (.inr ⟨[.advance .cdrom c, .advance .dma c,
          .advance .timers c, .advance .interrupts c], rfl⟩) hExact hService fun hNil => ?_
        exact absurd hNil (List.cons_ne_nil _ _)
    | back hQueue hNone hCount hSynced hService hDeadline =>
        have hStep := callback_back hCalls hQueue devices iStat hNone
        have hSome {P : Prop} {next : ClockCall}
            (hOpen : (s.callback devices iStat).clock.calls = [next]) : P := by
          rw [hClock, hNone] at hOpen
          exact absurd hOpen.symm (List.cons_ne_nil _ _)
        refine ⟨fun _ hOwed => ?_, fun _ => ?_, fun _ => ?_, ?_, fun _ hOpen => hSome hOpen,
          fun _ _ hOpen => hSome hOpen, fun _ hOpen => hSome hOpen⟩
        · rw [hStep] at hOwed ⊢
          have hEvent : internalEvent s.best = 1 := internalEvent_owed hOwed
          rcases hDeadline with hZero | hNext
          · exact hZero.le.trans (Nat.zero_le _)
          · rw [hEvent] at hNext
            exact hNext.le
        · rw [hClock]
          exact hSynced
        · rw [hClock]
          rcases hService with hOut | ⟨hSame, left, hLoop⟩
          · exact hOut
          · exact hSame.trans (h.exact call left hCalls hLoop)
        · rw [hClock, hNone]
          exact Nat.zero_le _

theorem pacedStep_inv (h : PacedInv s) (e : PacedEvent) (hOk : PacedOk s e) :
    PacedInv (pacedStep s e) := by
  have hOther {clock : Clock} {t : PacedClock} (hClock : t.clock = clock)
      (hCalls : clock.calls = []) (hDue : t.Owed → clock.nextService ≤ clock.count + 1)
      (hSynced : clock.synced ≤ clock.count) (hOut : clock.inService = false) : PacedInv t := by
    have hSome {P : Prop} {next : ClockCall} (hOpen : t.clock.calls = [next]) : P := by
      rw [hClock, hCalls] at hOpen
      exact absurd hOpen.symm (List.cons_ne_nil _ _)
    subst hClock
    exact ⟨fun _ => hDue, fun _ => hSynced, fun _ => hOut,
      (congrArg List.length hCalls).le.trans (Nat.zero_le _), fun _ hOpen => hSome hOpen,
      fun _ _ hOpen => hSome hOpen, fun _ hOpen => hSome hOpen⟩
  cases e with
  | charge cycles => exact h.charge hOk cycles
  | sync => exact h.sync hOk
  | callback devices iStat => exact h.callback devices iStat
  | service => exact h.idle_congr hOk rfl VblankPacing.serviceScheduledEvents_cycles_le
  | guest devices iStat inException => exact h.idle_congr hOk rfl le_rfl
  | setConservative on =>
      exact hOther rfl hOk (h.due hOk) (h.synced hOk) (h.outside hOk)
  | setReplay on => exact h.idle_congr hOk rfl le_rfl
  | restore count => exact hOther rfl hOk (fun _ => Nat.zero_le _) le_rfl rfl

/-- A charge that opens no call was not due, so that no edge is owed. -/
theorem charge_early (h : PacedInv s) (hIdle : s.clock.calls = []) {cycles : Word}
    (hSome : cycles.toNat ≠ 0) (hReplay : s.replay = false)
    (hNone : (s.charge cycles).clock.calls = []) : ¬(s.charge cycles).Owed := by
  have hOut := h.outside hIdle
  have hSynced := h.synced hIdle
  have hCharge : s.charge cycles = s.opened (s.clock.advanceCycles cycles s.best) :=
    if_neg (by simp [hReplay])
  rw [hCharge] at hNone ⊢
  have hPacing : (s.opened (s.clock.advanceCycles cycles s.best)).pacing = s.pacing := if_pos hNone
  change (s.clock.advanceCycles cycles s.best).calls = [] at hNone
  intro hOwed
  have hDue := h.due hIdle (show s.Owed by unfold Owed at hOwed ⊢; rwa [hPacing] at hOwed)
  unfold Clock.advanceCycles at hNone
  rw [if_neg hSome] at hNone
  dsimp only at hNone
  split at hNone
  · exact absurd hNone (List.cons_ne_nil _ _)
  · rw [if_neg (by simp [hOut])] at hNone
    split at hNone
    · have hOpen := @serviceToNow_open
        { s.clock with
          charged := s.clock.charged + cycles.toNat
          count := s.clock.count + cycles.toNat }
        hOut (by dsimp only; omega) s.clock.count false s.best
      exact absurd (hOpen.symm.trans hNone) (List.cons_ne_nil _ _)
    · rename_i hLater
      omega

/-- A charge that returns leaves no edge to be paid. -/
theorem chargeReturns_paid (h : PacedInv s) (hOk : PacedOk s e) (hReturn : ChargeReturns s e) :
    (pacedStep s e).edges = 0 := by
  obtain ⟨hNone, hCharge⟩ := hReturn
  cases e with
  | charge cycles =>
      obtain ⟨hSome, hReplay⟩ := hCharge
      exact edges_early (charge_early h hOk hSome hReplay hNone)
  | callback devices iStat =>
      obtain ⟨call, hCalls, -⟩ := hCharge
      have hClock := callback_clock hCalls devices iStat
      cases resume_resumed hCalls s.best s.toVblank with
      | next cb queue hQueue hNext =>
          rw [← hClock] at hNext
          exact absurd (hNext.symm.trans hNone) (List.cons_ne_nil _ _)
      | chunk loop c hQueue hNext =>
          rw [← hClock] at hNext
          exact absurd (hNext.symm.trans hNone) (List.cons_ne_nil _ _)
      | back hQueue hBack hCount =>
          have hPaid := h.paid call hCalls hQueue
          change (s.callback devices iStat).edges = 0
          rw [callback_back hCalls hQueue devices iStat hBack]
          unfold edges view at hPaid ⊢
          dsimp only
          rw [hCount]
          exact hPaid
  | sync | service | guest | setConservative | setReplay | restore => exact absurd hCharge id

theorem init_inv (count : Nat) (iStat : Word) (lcf : Bool) (devices : DeviceView) :
    PacedInv (.init count iStat lcf devices) := by
  have hNone {P : Prop} {call : ClockCall} (hCalls : [] = [call]) : P :=
    absurd hCalls.symm (List.cons_ne_nil _ _)
  exact ⟨fun _ _ => Nat.zero_le _, fun _ => le_rfl, fun _ => rfl, Nat.zero_le _,
    fun _ hCalls => hNone hCalls, fun _ _ hCalls => hNone hCalls, fun _ hCalls => hNone hCalls⟩

end RecompStudio.Runtime
