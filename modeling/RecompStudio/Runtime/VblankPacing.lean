import RecompStudio.Cpu.Word
import RecompStudio.Library.Machine

/-!
The pacing of the vertical blank. Cycles are collected in a 32-bit counter, and
every period that it holds is paid with one edge. Edges are withheld inside an
exception and while a memory card is at work, and are paid when that is over.
-/

namespace RecompStudio.Runtime

open Machine

def vblankCycles : Nat := 564480

def vblankDeferStaleCycles : Nat := vblankCycles * 10

/-- What a service reads of the rest of the machine: `sio_get_seq`,
`sio_card_protocol_active` and `psx_get_cycle_count`. -/
structure PacingView where
  sioSeq : Word
  cardActive : Bool
  now : Nat
deriving DecidableEq, Repr

/-- The variables of the pacing, with the cycles that have been given to it. An
edge is counted as `g_vblank_raise_count` counts it. -/
structure VblankPacing where
  cyclesSinceVblank : Word
  inException : Bool
  lastSioSeqSeen : Word
  lastSioProgressCycle : Nat
  dispatchCount : Word
  iStat : Word
  lcf : Bool
  raised : Nat
  advanced : Nat
deriving DecidableEq, Repr

/-- `interrupts_init`, which leaves the registers of the other modules alone. -/
def VblankPacing.init (iStat : Word) (lcf : Bool) (v : PacingView) : VblankPacing where
  cyclesSinceVblank := 0
  inException := false
  lastSioSeqSeen := v.sioSeq
  lastSioProgressCycle := v.now
  dispatchCount := 0
  iStat := iStat
  lcf := lcf
  raised := 0
  advanced := 0

namespace VblankPacing

variable (s : VblankPacing) (v : PacingView)

/-- `note_sio_progress_cycle`. -/
@[grind =] def noteSioProgressCycle : VblankPacing :=
  if v.sioSeq ≠ s.lastSioSeqSeen then
    { s with lastSioSeqSeen := v.sioSeq, lastSioProgressCycle := v.now }
  else s

/-- `should_defer_vblank_for_sio`. A clock behind the last progress counts as no
time since then. -/
def shouldDeferVblankForSio : Bool :=
  v.cardActive && decide (v.now - s.lastSioProgressCycle < vblankDeferStaleCycles)

/-- `fire_vblank_edge`. `gpu_vblank_tick` raises the same bit again. -/
def fireVblankEdge : VblankPacing :=
  { s with
    cyclesSinceVblank := s.cyclesSinceVblank - BitVec.ofNat 32 vblankCycles
    dispatchCount := 0
    iStat := s.iStat ||| 1#32
    raised := s.raised + 1
    lcf := !s.lcf }

/-- The first turns of the loop of `interrupts_service_scheduled_events`. -/
@[grind =] def serviceLoop : Nat → VblankPacing → VblankPacing
  | 0, s => s
  | turns + 1, s =>
      if vblankCycles ≤ s.cyclesSinceVblank.toNat then
        if s.shouldDeferVblankForSio v then s else serviceLoop turns s.fireVblankEdge
      else s

/-- `interrupts_service_scheduled_events` after some turns of its loop. -/
@[grind =] def serviceTurns (turns : Nat) : VblankPacing :=
  let t := s.noteSioProgressCycle v
  if t.inException then t else serviceLoop v turns t

/-- `interrupts_service_scheduled_events`. The loop has a turn for every period
that the counter holds. -/
@[grind =] def serviceScheduledEvents : VblankPacing :=
  s.serviceTurns v (s.cyclesSinceVblank.toNat / vblankCycles)

/-- `interrupts_cycles_to_vblank`. -/
def cyclesToVblank : Nat :=
  if vblankCycles ≤ s.cyclesSinceVblank.toNat then 0
  else vblankCycles - s.cyclesSinceVblank.toNat

/-- The cycles of `interrupts_advance_cycles`, before its service. -/
def collect (cycles : Word) : VblankPacing :=
  { s with
    cyclesSinceVblank := s.cyclesSinceVblank + cycles
    advanced := s.advanced + cycles.toNat }

end VblankPacing

/-- What happens to the pacing: cycles are given to it, it is serviced alone,
an exception is entered or the level before it is restored. What the card and
the clock have come to meanwhile is what a service reads. -/
inductive PacingEvent where
  | advance (cycles : Word) (v : PacingView)
  | service (v : PacingView)
  | setException (on : Bool)
deriving DecidableEq, Repr

/-- The state an event leaves once it has come to some turn of its loop. -/
def pacingTurns (turns : Nat) (s : VblankPacing) : PacingEvent → VblankPacing
  | .advance cycles v => (s.collect cycles).serviceTurns v turns
  | .service v => s.serviceTurns v turns
  | .setException on => { s with inException := on }

/-- `interrupts_advance_cycles` and the other events. -/
def pacingStep (s : VblankPacing) : PacingEvent → VblankPacing
  | .advance cycles v => (s.collect cycles).serviceScheduledEvents v
  | .service v => s.serviceScheduledEvents v
  | .setException on => { s with inException := on }

/-- The view of a service. -/
def PacingEvent.view : PacingEvent → Option PacingView
  | .advance _ v | .service v => some v
  | .setException _ => none

/-- Every cycle is in the counter or in an edge. -/
def VblankPacing.Accounted (s : VblankPacing) : Prop :=
  s.raised * vblankCycles + s.cyclesSinceVblank.toNat = s.advanced

instance (s : VblankPacing) : Decidable s.Accounted :=
  inferInstanceAs (Decidable (s.raised * vblankCycles + s.cyclesSinceVblank.toNat = s.advanced))

/-- An edge for every period. -/
def VblankPacing.OnTime (s : VblankPacing) : Prop := s.raised = s.advanced / vblankCycles

/-- The counter has room for the cycles of an event. -/
def HasRoom (s : VblankPacing) : PacingEvent → Prop
  | .advance cycles _ => s.cyclesSinceVblank.toNat + cycles.toNat < 2 ^ 32
  | _ => True

instance (s : VblankPacing) : (e : PacingEvent) → Decidable (HasRoom s e)
  | .advance cycles _ =>
      inferInstanceAs (Decidable (s.cyclesSinceVblank.toNat + cycles.toNat < 2 ^ 32))
  | .service _ => isTrue trivial
  | .setException _ => isTrue trivial

/-- An event services the pacing outside an exception and outside the deferral. -/
def Pays (s : VblankPacing) (e : PacingEvent) : Prop :=
  s.inException = false ∧ ∃ v, e.view = some v ∧
    (s.noteSioProgressCycle v).shouldDeferVblankForSio v = false

/-- At every turn of an event the cycles are accounted for, and a service that
pays is on time. -/
def PacedStep (s : VblankPacing) (e : PacingEvent) : Prop :=
  (∀ turns, (pacingTurns turns s e).Accounted) ∧ (Pays s e → (pacingStep s e).OnTime)

/-- Every step of a run is paced. -/
def PacedRun : VblankPacing → List PacingEvent → Prop := RunOk pacingStep PacedStep

namespace VblankPacing

section Turns

variable {s : VblankPacing} {v : PacingView}

@[simp] theorem noteSioProgressCycle_cycles :
    (s.noteSioProgressCycle v).cyclesSinceVblank = s.cyclesSinceVblank := by
  unfold noteSioProgressCycle
  split <;> rfl

@[simp] theorem noteSioProgressCycle_inException :
    (s.noteSioProgressCycle v).inException = s.inException := by
  unfold noteSioProgressCycle
  split <;> rfl

theorem accounted_noteSioProgressCycle :
    (s.noteSioProgressCycle v).Accounted ↔ s.Accounted := by
  unfold noteSioProgressCycle
  split <;> exact Iff.rfl

theorem fireVblankEdge_toNat (hDue : vblankCycles ≤ s.cyclesSinceVblank.toNat) :
    s.fireVblankEdge.cyclesSinceVblank.toNat = s.cyclesSinceVblank.toNat - vblankCycles := by
  have hLe : BitVec.ofNat 32 vblankCycles ≤ s.cyclesSinceVblank := by
    rw [BitVec.le_def]
    exact hDue
  exact BitVec.toNat_sub_of_le hLe

/-- An edge takes one period out of the counter. -/
theorem accounted_fireVblankEdge (hDue : vblankCycles ≤ s.cyclesSinceVblank.toNat) :
    s.fireVblankEdge.Accounted ↔ s.Accounted := by
  have hCycles := fireVblankEdge_toNat hDue
  have hRaised : s.fireVblankEdge.raised = s.raised + 1 := rfl
  have hAdvanced : s.fireVblankEdge.advanced = s.advanced := rfl
  unfold Accounted
  rw [hCycles, hRaised, hAdvanced, Nat.add_mul]
  omega

theorem accounted_serviceLoop (turns : Nat) :
    (serviceLoop v turns s).Accounted ↔ s.Accounted := by
  induction turns generalizing s with
  | zero => exact Iff.rfl
  | succ turns ih =>
      unfold serviceLoop
      split
      · rename_i hDue
        split
        · exact Iff.rfl
        · exact ih.trans (accounted_fireVblankEdge hDue)
      · exact Iff.rfl

theorem accounted_serviceTurns (turns : Nat) :
    (s.serviceTurns v turns).Accounted ↔ s.Accounted := by
  unfold serviceTurns
  dsimp only
  split
  · exact accounted_noteSioProgressCycle
  · exact (accounted_serviceLoop turns).trans accounted_noteSioProgressCycle

/-- An edge leaves one turn less to go. -/
theorem div_fireVblankEdge_le {turns : Nat} (hDue : vblankCycles ≤ s.cyclesSinceVblank.toNat)
    (hTurns : s.cyclesSinceVblank.toNat / vblankCycles ≤ turns + 1) :
    s.fireVblankEdge.cyclesSinceVblank.toNat / vblankCycles ≤ turns := by
  have hPeriod := Nat.sub_mul_div s.cyclesSinceVblank.toNat vblankCycles 1
  rw [Nat.mul_one] at hPeriod
  rw [fireVblankEdge_toNat hDue, hPeriod]
  omega

/-- With no reason to wait, a turn for every period empties the counter of them. -/
theorem serviceLoop_toNat {turns : Nat} (hPays : s.shouldDeferVblankForSio v = false)
    (hTurns : s.cyclesSinceVblank.toNat / vblankCycles ≤ turns) :
    (serviceLoop v turns s).cyclesSinceVblank.toNat < vblankCycles := by
  induction turns generalizing s with
  | zero =>
      have hZero : s.cyclesSinceVblank.toNat / vblankCycles = 0 := Nat.le_zero.mp hTurns
      exact Nat.lt_of_div_eq_zero (by decide) hZero
  | succ turns ih =>
      unfold serviceLoop
      split
      · rename_i hDue
        rw [hPays, if_neg Bool.false_ne_true]
        exact ih hPays (div_fireVblankEdge_le hDue hTurns)
      · omega

/-- Past its end the loop does nothing, so that its turns are enough. -/
theorem serviceLoop_add {turns : Nat} (more : Nat)
    (hTurns : s.cyclesSinceVblank.toNat / vblankCycles ≤ turns) :
    serviceLoop v (turns + more) s = serviceLoop v turns s := by
  induction turns generalizing s with
  | zero =>
      have hZero : s.cyclesSinceVblank.toNat / vblankCycles = 0 := Nat.le_zero.mp hTurns
      have hEarly := Nat.lt_of_div_eq_zero (by decide) hZero
      cases more with
      | zero => rfl
      | succ more =>
          rw [Nat.zero_add, serviceLoop.eq_2, if_neg (Nat.not_le.mpr hEarly)]
          rfl
  | succ turns ih =>
      rw [Nat.succ_add]
      unfold serviceLoop
      split
      · rename_i hDue
        split
        · rfl
        · exact ih (div_fireVblankEdge_le hDue hTurns)
      · rfl

end Turns

/-- An event comes to the state that it leaves. -/
theorem exists_pacingTurns (s : VblankPacing) (e : PacingEvent) :
    ∃ turns, ∀ more, pacingTurns (turns + more) s e = pacingStep s e := by
  have hService : ∀ (s : VblankPacing) v, ∃ turns, ∀ more,
      s.serviceTurns v (turns + more) = s.serviceScheduledEvents v := by
    intro s v
    refine ⟨s.cyclesSinceVblank.toNat / vblankCycles, fun more => ?_⟩
    unfold serviceScheduledEvents serviceTurns
    dsimp only
    split
    · rfl
    · exact serviceLoop_add more (by rw [noteSioProgressCycle_cycles])
  cases e with
  | advance cycles v => exact hService (s.collect cycles) v
  | service v => exact hService s v
  | setException on => exact ⟨0, fun _ => rfl⟩

variable {s : VblankPacing}

theorem accounted_collect (h : s.Accounted) (cycles : Word) :
    (s.collect cycles).Accounted ↔ s.cyclesSinceVblank.toNat + cycles.toNat < 2 ^ 32 := by
  have hCycles : (s.collect cycles).cyclesSinceVblank.toNat =
      (s.cyclesSinceVblank.toNat + cycles.toNat) % 2 ^ 32 := BitVec.toNat_add _ _
  have hRaised : (s.collect cycles).raised = s.raised := rfl
  have hAdvanced : (s.collect cycles).advanced = s.advanced + cycles.toNat := rfl
  unfold Accounted at h ⊢
  rw [hCycles, hRaised, hAdvanced]
  omega

theorem accounted_pacingTurns (h : s.Accounted) (turns : Nat) (e : PacingEvent) :
    (pacingTurns turns s e).Accounted ↔ HasRoom s e := by
  cases e with
  | advance cycles v => exact (accounted_serviceTurns turns).trans (accounted_collect h cycles)
  | service v => exact iff_of_true ((accounted_serviceTurns turns).mpr h) trivial
  | setException on => exact iff_of_true h trivial

theorem accounted_pacingStep (h : s.Accounted) (e : PacingEvent) :
    (pacingStep s e).Accounted ↔ HasRoom s e := by
  obtain ⟨turns, hSame⟩ := exists_pacingTurns s e
  rw [← hSame 0]
  exact accounted_pacingTurns h _ e

theorem serviceScheduledEvents_toNat {v : PacingView} (hOutside : s.inException = false)
    (hPays : (s.noteSioProgressCycle v).shouldDeferVblankForSio v = false) :
    (s.serviceScheduledEvents v).cyclesSinceVblank.toNat < vblankCycles := by
  unfold serviceScheduledEvents serviceTurns
  dsimp only
  rw [noteSioProgressCycle_inException, hOutside, if_neg Bool.false_ne_true]
  exact serviceLoop_toNat hPays (by rw [noteSioProgressCycle_cycles])

theorem pacingStep_toNat {e : PacingEvent} (h : Pays s e) :
    (pacingStep s e).cyclesSinceVblank.toNat < vblankCycles := by
  obtain ⟨hOutside, v, hView, hPays⟩ := h
  cases e with
  | advance cycles w =>
      obtain rfl := Option.some.inj hView
      refine serviceScheduledEvents_toNat (s := s.collect cycles) hOutside ?_
      rw [← hPays]
      unfold noteSioProgressCycle
      split <;> rename_i hSeq
      · rw [if_pos (show w.sioSeq ≠ s.lastSioSeqSeen from hSeq)]
        rfl
      · rw [if_neg (show ¬ w.sioSeq ≠ s.lastSioSeqSeen from hSeq)]
        rfl
  | service w =>
      obtain rfl := Option.some.inj hView
      exact serviceScheduledEvents_toNat hOutside hPays
  | setException on => exact absurd hView (by simp [PacingEvent.view])

theorem onTime_of_accounted (h : s.Accounted) (hEarly : s.cyclesSinceVblank.toNat < vblankCycles) :
    s.OnTime := by
  have hQuotient : s.advanced / vblankCycles = s.raised := by
    rw [← h, Nat.mul_comm, Nat.mul_add_div (by decide), Nat.div_eq_of_lt hEarly, Nat.add_zero]
  exact hQuotient.symm

/-- With the cycles accounted for, an event is paced if the counter has room. -/
theorem pacedStep_iff (h : s.Accounted) (e : PacingEvent) : PacedStep s e ↔ HasRoom s e := by
  refine ⟨fun hPaced => (accounted_pacingTurns h 0 e).mp (hPaced.1 0), fun hRoom => ?_⟩
  refine ⟨fun turns => (accounted_pacingTurns h turns e).mpr hRoom, fun hPays => ?_⟩
  exact onTime_of_accounted ((accounted_pacingStep h e).mpr hRoom) (pacingStep_toNat hPays)

/-- The chunks that the clock makes end at the next edge, or are one cycle when
edges are withheld. They overflow the counter only from its last value. -/
theorem hasRoom_chunk_iff {cycles : Word} {v : PacingView} (hSome : 0 < cycles.toNat)
    (hChunk : cycles.toNat ≤ max 1 s.cyclesToVblank) :
    HasRoom s (.advance cycles v) ↔ s.cyclesSinceVblank ≠ BitVec.allOnes 32 := by
  have hLast : s.cyclesSinceVblank = BitVec.allOnes 32 ↔
      s.cyclesSinceVblank.toNat = 2 ^ 32 - 1 := by
    rw [← BitVec.toNat_inj, BitVec.toNat_allOnes]
  have hFits := s.cyclesSinceVblank.isLt
  have hPeriod : vblankCycles = 564480 := rfl
  unfold HasRoom
  rw [Ne, hLast]
  unfold cyclesToVblank at hChunk
  split at hChunk <;> omega

theorem pacedRun_iff (h : s.Accounted) (es : List PacingEvent) :
    PacedRun s es ↔ RunOk pacingStep HasRoom s es := by
  have hSame : ∀ (s : VblankPacing) e, s.Accounted → (PacedStep s e ↔ HasRoom s e) :=
    fun _ e h => pacedStep_iff h e
  have hStep : ∀ (s : VblankPacing) e, s.Accounted → HasRoom s e → (pacingStep s e).Accounted :=
    fun _ e h hRoom => (accounted_pacingStep h e).mpr hRoom
  exact runOk_congr hSame hStep h es

end VblankPacing

theorem accounted_init (iStat : Word) (lcf : Bool) (v : PacingView) :
    (VblankPacing.init iStat lcf v).Accounted := by
  simp [VblankPacing.Accounted, VblankPacing.init]

/-- In a run from the start every cycle is in the counter or in an edge, at every
turn of every service, and each service that pays leaves an edge for every whole
period, if and only if the counter never overflows. -/
theorem vblank_paced_iff (iStat : Word) (lcf : Bool) (v : PacingView) (es : List PacingEvent) :
    PacedRun (.init iStat lcf v) es ↔ RunOk pacingStep HasRoom (.init iStat lcf v) es :=
  VblankPacing.pacedRun_iff (accounted_init iStat lcf v) es

/-- A handler that runs for 2 ^ 32 cycles. -/
def longHandler : List PacingEvent :=
  [.setException true, .advance 0x80000000 ⟨0, false, 0⟩, .advance 0x80000000 ⟨0, false, 0⟩]

/-- The edges of a long handler are lost. -/
theorem longHandler_not_paced : ¬ PacedRun (.init 0 false ⟨0, false, 0⟩) longHandler := by
  rw [VblankPacing.pacedRun_iff (accounted_init 0 false ⟨0, false, 0⟩)]
  decide

end RecompStudio.Runtime
