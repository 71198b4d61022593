import RecompStudio.Runtime.CdTime

/-!
The distance to the next interrupt of the CD-ROM controller, as the clock is told
it: until its end no sequence of advances raises one.
-/

namespace RecompStudio.Runtime

open Machine

/-- Advances one after the other, with no register access between them. -/
def Cdrom.advances (s : Cdrom) (calls : List (Word × Bool)) : Cdrom :=
  calls.foldl (fun s call => s.advance call.1 call.2) s

def cdCycles (calls : List (Word × Bool)) : Nat := (calls.map fun call => call.1.toNat).sum

section Quiet

open Cdrom

variable {s : Cdrom} {n : Nat}

theorem toInt_le_toNat (w : Word) : w.toInt ≤ (w.toNat : Int) := by
  rw [BitVec.toInt_eq_toNat_cond]
  split <;> omega

theorem processPending_before {cycles : Word}
    (hDelay : s.pending.pending = true → cycles.toInt < s.pending.delay) :
    ∃ delay, s.processPending cycles = s.put { s.pending with delay := delay } s.drive ∧
      (delay = s.pending.delay ∨ delay = s.pending.delay - cycles.toInt) := by
  unfold processPending
  split
  · exact ⟨s.pending.delay, rfl, .inl rfl⟩
  · rename_i hOpen
    have hPending : s.pending.pending = true := by
      simp only [Bool.or_eq_true, Bool.not_eq_true', not_or, Bool.not_eq_false] at hOpen
      exact hOpen.1.1
    rw [if_pos (by have := hDelay hPending; omega)]
    exact ⟨_, rfl, .inr rfl⟩

theorem processReadStream_before (dmaActive : Bool) {cycles : Word}
    (hDelay : s.drive.reading = true → cycles.toInt < s.drive.readDelay) :
    ∃ delay, s.processReadStream cycles dmaActive =
        s.put s.pending (s.drive.setReadDelay delay) ∧
      (s.drive.reading = true → delay = s.drive.readDelay - cycles.toInt) := by
  unfold processReadStream
  split
  · rename_i hIdle
    exact ⟨s.drive.readDelay, rfl, fun h => by simp [h] at hIdle⟩
  · rename_i hReading
    have hOn : s.drive.reading = true := by simpa using hReading
    dsimp only
    rw [if_neg (by have := hDelay hOn; change ¬ s.drive.readDelay - cycles.toInt ≤ 0; omega)]
    exact ⟨_, rfl, fun _ => rfl⟩

/-- An advance to before the next event only takes its cycles off what is to come. -/
theorem advance_before (dmaActive : Bool) {cycles : Word} (hSettled : s.Settled)
    (hQuiet : s.QuietFor (n + 1)) (hLe : cycles.toNat ≤ n) :
    ∃ pendingDelay readDelay, s.advance cycles dmaActive =
        (s.grow cycles).put { s.pending with delay := pendingDelay }
          (s.drive.setReadDelay readDelay) ∧
      (pendingDelay = s.pending.delay ∨ pendingDelay = s.pending.delay - cycles.toInt) ∧
      (s.drive.reading = true → readDelay = s.drive.readDelay - cycles.toInt) := by
  have hInt := toInt_le_toNat cycles
  have hPresent : (s.grow cycles).present = s.grow cycles := by
    apply present_of_waiting
    intro hFlag hEnabled
    have hWait := hQuiet.shown hFlag hEnabled
    have hPositive : 0 < s.presentDelay := by omega
    simp only [grow, if_pos hPositive]
    omega
  obtain ⟨pendingDelay, hPending, hPendingDelay⟩ :=
    @processPending_before (s.grow cycles) cycles fun h => by
      have := hQuiet.pending h
      change cycles.toInt < s.pending.delay
      omega
  obtain ⟨readDelay, hRead, hReadDelay⟩ := @processReadStream_before
    ((s.grow cycles).put { s.pending with delay := pendingDelay } s.drive) dmaActive cycles
    fun h => by
      have := hQuiet.reading h
      change cycles.toInt < s.drive.readDelay
      omega
  refine ⟨pendingDelay, readDelay, ?_, hPendingDelay, hReadDelay⟩
  have hPending' : (s.grow cycles).processPending cycles =
      (s.grow cycles).put { s.pending with delay := pendingDelay } s.drive := hPending
  rw [advance_eq hSettled.queued, hPresent, hPending', hRead, put_present, put_present, hPresent]
  rfl

/-- Behind it as much less is to come, and nothing has been raised. -/
theorem quiet_advance (dmaActive : Bool) {cycles : Word} (hSettled : s.Settled)
    (hQuiet : s.QuietFor (n + 1)) (hLe : cycles.toNat ≤ n) :
    let t := s.advance cycles dmaActive
    t.trace = s.trace ∧ t.Settled ∧ t.QuietFor (n - cycles.toNat + 1) := by
  obtain ⟨pendingDelay, readDelay, hAdvance, hPendingDelay, hReadDelay⟩ :=
    advance_before dmaActive hSettled hQuiet hLe
  have hInt := toInt_le_toNat cycles
  have hShown : s.irqFlag ≠ 0 → s.irqEnabled = true →
      ((n - cycles.toNat + 1 : Nat) : Int) ≤ (s.grow cycles).presentDelay := by
    intro hFlag hEnabled
    have hWait := hQuiet.shown hFlag hEnabled
    have hPositive : 0 < s.presentDelay := by omega
    simp only [grow, if_pos hPositive]
    omega
  have hPending : s.pending.pending = true →
      ((n - cycles.toNat + 1 : Nat) : Int) ≤ pendingDelay := by
    intro hOn
    have hWait := hQuiet.pending hOn
    omega
  have hReading : s.drive.reading = true →
      ((n - cycles.toNat + 1 : Nat) : Int) ≤ readDelay := by
    intro hOn
    have hWait := hQuiet.reading hOn
    have hDelay := hReadDelay hOn
    omega
  intro t
  have hT : t = (s.grow cycles).put { s.pending with delay := pendingDelay }
      (s.drive.setReadDelay readDelay) := hAdvance
  rw [hT]
  refine ⟨rfl, ⟨hSettled.queued, fun hOn => ⟨?_, (hSettled.pending hOn).2⟩, fun hOn => ?_⟩,
    ⟨hShown, hPending, hReading⟩⟩
  · have hLater := hPending hOn
    change 0 < pendingDelay
    omega
  · have hLater := hReading hOn
    change 0 < readDelay
    omega

theorem quiet_advances (calls : List (Word × Bool)) (hSettled : s.Settled)
    (hQuiet : s.QuietFor (n + 1)) (hLe : cdCycles calls ≤ n) :
    (s.advances calls).trace = s.trace := by
  induction calls generalizing s n with
  | nil => rfl
  | cons call rest ih =>
      have hSum : cdCycles (call :: rest) = call.1.toNat + cdCycles rest := List.sum_cons
      obtain ⟨hTrace, hNext, hLeft⟩ := @quiet_advance s n call.2 call.1 hSettled hQuiet
        (by omega)
      exact (ih hNext hLeft (by omega)).trans hTrace

end Quiet

/-- A drive that reads has its next sector before it, in the range of `int`. -/
def Drive.Ahead (d : Drive) : Prop := d.reading = true → 0 < d.readDelay ∧ d.readDelay < 2 ^ 31

section Commands

variable {d : Drive} {cmd : Byte} {params : List Byte}

theorem applySpeed_range (d : Drive) {delay : Int} (hPos : 0 < delay) (hInt : delay < 2 ^ 31) :
    0 < d.applySpeed delay ∧ d.applySpeed delay < 2 ^ 31 := by
  have hPeriod := Nat.div_le_self 564480 d.speed.instantMaxPerFrame
  have hPart := Int.tdiv_le_self d.speed.divisor hPos.le
  unfold Drive.applySpeed Drive.instantPeriod
  split
  · exact ⟨hPos, hInt⟩
  · split <;> omega

theorem pauseCompleteDelay_pos (d : Drive) : 0 < d.pauseCompleteDelay := by
  unfold Drive.pauseCompleteDelay
  split
  · decide
  · have hLba : 0 ≤ max 0 (if d.reading then d.readAt.toLba else d.lastLba) := le_max_left _ _
    have hCycles := Int.tdiv_nonneg (Int.mul_nonneg hLba (by decide : (0 : Int) ≤ 42596))
      (by decide : (0 : Int) ≤ 4500)
    dsimp only
    split <;> omega

theorem seekCompleteDelay_pos (d : Drive) : 0 < d.seekCompleteDelay := by
  unfold Drive.seekCompleteDelay
  refine (applySpeed_range d ?_ ?_).1 <;> split <;> decide

theorem startReadStream_ahead (cmd : Byte) : (d.startReadStream cmd).Ahead := by
  have hRange (d : Drive) : 0 < d.initialReadDelay ∧ d.initialReadDelay < 2 ^ 31 := by
    unfold Drive.initialReadDelay
    apply applySpeed_range <;> split <;> decide
  exact fun _ => hRange _

theorem exec_ahead (hAhead : d.Ahead) : (d.exec cmd params).drive.Ahead := by
  have hStop : d.stopReadStream.xaReset.Ahead := fun h => absurd h Bool.false_ne_true
  unfold Drive.exec
  generalize cmd.toNat = k
  split
  case h_2 =>
    change (d.setLoc params).Ahead
    unfold Drive.setLoc
    split <;> exact hAhead
  case h_4 | h_5 =>
    dsimp only
    split
    · exact hAhead
    · exact startReadStream_ahead cmd
  case h_12 =>
    dsimp only [Drive.acknowledge]
    split <;> exact hAhead
  case h_13 =>
    dsimp only [Drive.acknowledge]
    split
    · split <;> exact hAhead
    · exact hAhead
  case h_18 =>
    change (d.getTD params).drive.Ahead
    unfold Drive.getTD
    split <;> exact hAhead
  all_goals first
    | exact hAhead
    | exact hStop
    | (dsimp only; split <;> exact hAhead)

theorem exec_completion {delay : Int} (hSome : (d.exec cmd params).completion = some delay) :
    0 < delay ∧ cmd.toNat ≠ 0x06 ∧ cmd.toNat ≠ 0x1B := by
  have hHere {x : Int} {k : Nat} (hPos : 0 < x) (hCmd : k ≠ 0x06 ∧ k ≠ 0x1B)
      (h : some x = some delay) : 0 < delay ∧ k ≠ 0x06 ∧ k ≠ 0x1B :=
    Option.some.inj h ▸ ⟨hPos, hCmd⟩
  have hNever {P : Prop} (h : (none : Option Int) = some delay) : P :=
    absurd h (Option.some_ne_none delay).symm
  unfold Drive.exec at hSome
  generalize cmd.toNat = k at hSome
  split at hSome
  all_goals dsimp only [Drive.acknowledge, Drive.fail, Drive.thenComplete] at hSome
  case h_6 =>
    split at hSome
    · exact hNever hSome
    · exact hHere (applySpeed_range _ (by decide) (by decide)).1 (by decide) hSome
  case h_7 => exact hHere (applySpeed_range _ (by decide) (by decide)).1 (by decide) hSome
  case h_8 => exact hHere (pauseCompleteDelay_pos _) (by decide) hSome
  case h_18 =>
    unfold Drive.getTD at hSome
    split at hSome <;> exact hNever hSome
  case h_19 | h_20 =>
    split at hSome
    · exact hNever hSome
    · exact hHere (seekCompleteDelay_pos _) (by decide) hSome
  all_goals first
    | exact hNever hSome
    | exact hHere (by decide) (by decide) hSome
    | (split at hSome <;> exact hNever hSome)

end Commands

/-- What is to come has not come yet. -/
structure Cdrom.Timed (s : Cdrom) : Prop where
  pending : s.pending.pending = true →
    0 < s.pending.delay ∧ s.pending.cmd.toNat ≠ 0x06 ∧ s.pending.cmd.toNat ≠ 0x1B
  reading : s.drive.Ahead

section Steps

open Cdrom

variable {s t : Cdrom}

theorem Cdrom.Timed.congr (h : s.Timed) (hPending : t.pending = s.pending)
    (hReading : t.drive.reading = s.drive.reading)
    (hDelay : t.drive.readDelay = s.drive.readDelay) :
    t.Timed := by
  refine ⟨?_, ?_⟩
  · rw [hPending]
    exact h.pending
  · rw [Drive.Ahead, hReading, hDelay]
    exact h.reading

theorem answer_timed (h : s.Timed) (bytes : List Byte) (type : CdIrq) :
    (s.answer bytes type).Timed := by
  have hDrive : (s.answer bytes type).drive = s.drive := present_drive
  exact h.congr (answer_pending bytes type) (by rw [hDrive]) (by rw [hDrive])

theorem execCommand_timed (h : s.Timed) (cmd : Byte) : (s.execCommand cmd).Timed := by
  refine answer_timed ?_ _ _
  cases hSome : (s.drive.exec cmd s.params).completion with
  | none => exact ⟨h.pending, exec_ahead h.reading⟩
  | some delay => exact ⟨fun _ => exec_completion hSome, exec_ahead h.reading⟩

theorem tryExecuteQueued_timed (h : s.Timed) : s.tryExecuteQueued.Timed := by
  unfold tryExecuteQueued
  split
  · split
    · exact h
    · refine execCommand_timed ?_ _
      exact h.congr rfl rfl rfl
  · exact h

theorem presentPendingDataready_timed (h : s.Timed) : s.presentPendingDataready.Timed := by
  unfold presentPendingDataready
  split
  · split
    · exact h
    · refine answer_timed ?_ _ _
      exact h.congr rfl rfl rfl
  · exact h

theorem present_timed (h : s.Timed) : s.present.Timed :=
  h.congr present_pending (by rw [present_drive]) (by rw [present_drive])

theorem complete_ahead {d : Drive} (hAhead : d.Ahead) (scex : List Byte) (cmd : Byte) :
    (d.complete scex cmd).1.Ahead := by
  unfold Drive.complete
  split
  case h_1 | h_2 =>
    split <;> exact hAhead
  case h_9 =>
    split <;> exact hAhead
  all_goals exact hAhead

theorem processPending_timed (h : s.Timed) (cycles : Word) : (s.processPending cycles).Timed := by
  unfold processPending
  split
  · exact h
  · rename_i hOpen
    split
    · rename_i hWaits
      exact ⟨fun hOn => ⟨hWaits, (h.pending hOn).2⟩, h.reading⟩
    · dsimp only
      have hDone := complete_ahead h.reading s.scex s.pending.cmd
      split
      · rename_i drive bytes type hComplete
        refine answer_timed ⟨fun hOn => absurd hOn Bool.false_ne_true, ?_⟩ _ _
        have hDrive : (s.drive.complete s.scex s.pending.cmd).1 = drive := by
          rw [show s.drive.complete s.scex s.pending.cmd = _ from hComplete]
        exact hDrive ▸ hDone
      · rename_i drive hComplete
        refine ⟨fun hOn => absurd hOn Bool.false_ne_true, ?_⟩
        have hDrive : (s.drive.complete s.scex s.pending.cmd).1 = drive := by
          rw [show s.drive.complete s.scex s.pending.cmd = _ from hComplete]
        exact hDrive ▸ hDone

theorem sectorDue_readDelay (t : Cdrom) (dmaActive : Bool) :
    (t.sectorDue dmaActive).drive.readDelay = t.drive.readDelay := by
  have hAnswer (u : Cdrom) (bytes : List Byte) (type : CdIrq) :
      (u.answer bytes type).drive = u.drive := present_drive
  unfold sectorDue
  dsimp only
  split
  · split
    · rw [hAnswer]
      rfl
    · rfl
  · split <;> rfl

/-- Behind a sector that is due the next one is to come. -/
theorem nextSectorDelay_ahead (hDue : t.drive.readDelay ≤ 0) : t.nextSectorDelay.drive.Ahead := by
  intro
  have hRange : 0 < t.drive.sectorDelay ∧ t.drive.sectorDelay < 2 ^ 31 := by
    unfold Drive.sectorDelay
    apply applySpeed_range <;> split <;> decide
  have hDelay : t.nextSectorDelay.drive.readDelay =
      if t.drive.readDelay + t.drive.sectorDelay ≤ 0 then t.drive.sectorDelay
      else t.drive.readDelay + t.drive.sectorDelay := rfl
  rw [hDelay]
  split <;> omega

theorem processReadStream_timed (h : s.Timed) {cycles : Word} (hSmall : cycles.toNat < 2 ^ 31)
    (dmaActive : Bool) : (s.processReadStream cycles dmaActive).Timed := by
  have hInt : cycles.toInt = (cycles.toNat : Int) := BitVec.toInt_eq_toNat_of_lt (by omega)
  unfold processReadStream
  split
  · exact h
  · rename_i hReading
    have hRange := h.reading (by simpa using hReading)
    dsimp only
    split
    · rename_i hDue
      refine ⟨?_, nextSectorDelay_ahead ((sectorDue_readDelay _ dmaActive).trans_le hDue)⟩
      have hSame (t : Cdrom) : (t.sectorDue dmaActive).nextSectorDelay.pending = t.pending :=
        sectorDue_pending
      rw [hSame]
      exact h.pending
    · rename_i hLater
      refine ⟨h.pending, fun _ => ⟨Int.not_le.mp hLater, ?_⟩⟩
      change s.drive.readDelay - cycles.toInt < 2 ^ 31
      omega

theorem cdStep_timed (h : s.Timed) (e : CdEvent) (hSmall : SmallAdvance s e) :
    (cdStep s e).Timed := by
  cases e with
  | write reg val =>
      dsimp only [cdStep]
      unfold write
      split
      · exact h.congr rfl rfl rfl
      · unfold queueOrExec
        split
        · exact execCommand_timed h val
        · exact h.congr rfl rfl rfl
      · split
        · exact h.congr rfl rfl rfl
        · exact h
      · exact h.congr rfl rfl rfl
      · dsimp only
        split <;> exact h.congr rfl rfl rfl
      · refine tryExecuteQueued_timed (presentPendingDataready_timed ?_)
        exact h.congr rfl rfl rfl
      · exact h
  | read reg =>
      dsimp only [cdStep]
      unfold Cdrom.read
      split
      · exact h
      · split
        · exact h.congr rfl rfl rfl
        · exact h
      · split
        · exact h.congr rfl rfl rfl
        · exact h
      · exact h
  | dmaRead =>
      dsimp only [cdStep]
      unfold Cdrom.dmaRead
      split
      · exact h.congr rfl rfl rfl
      · exact h
  | advance cycles dmaActive =>
      have hGrow : (s.grow cycles).Timed := h.congr rfl rfl rfl
      exact present_timed (processReadStream_timed (processPending_timed
        (tryExecuteQueued_timed (present_timed hGrow)) cycles) hSmall dmaActive)
  | setSpeed speed => exact h.congr rfl rfl rfl

/-- A command that waits, waits behind an interrupt. -/
theorem cdStep_queuedBehind (hBehind : QueuedBehind s) (e : CdEvent) :
    QueuedBehind (cdStep s e) := by
  by_cases hCommand : CommandWrite s e
  · obtain ⟨val, rfl, hIndex⟩ := hCommand
    by_cases hShown : s.irqFlag = 0
    · have hStep : cdStep s (.write 1 val) = s.execCommand val := by
        simp [cdStep, Cdrom.write, hIndex, queueOrExec, hShown]
      rw [hStep]
      exact fun _ => answer_flag _ _
    · obtain ⟨-, hFlag, -⟩ := @cdStep_queues _ val hIndex hShown
      exact fun _ => hFlag ▸ hShown
  · exact (cdStep_queue hBehind e hCommand).1

theorem timed_of_reach {disc : Option Disc} {speed : DiscSpeed} {scex : List Byte}
    (hRun : Reach cdStep SmallAdvance (Cdrom.initial disc speed scex) s) :
    QueuedBehind s ∧ s.Timed := by
  have hStart : QueuedBehind (Cdrom.initial disc speed scex) ∧
      (Cdrom.initial disc speed scex).Timed :=
    ⟨fun h => absurd rfl h, fun h => absurd h Bool.false_ne_true,
      fun h => absurd h Bool.false_ne_true⟩
  exact @Reach.invariant _ _ _ _ _ _ (fun s => QueuedBehind s ∧ s.Timed) hRun hStart
    fun _ e h hSmall => ⟨cdStep_queuedBehind h.1 e, cdStep_timed h.2 e hSmall⟩

theorem Cdrom.Timed.settled (h : s.Timed) (hBehind : QueuedBehind s) : s.Settled :=
  ⟨hBehind, h.pending, fun hOn => (h.reading hOn).1⟩

end Steps

/-- Where the interrupt is let through, no sequence of advances that is shorter than
the distance raises it, and none at all where there is no distance. -/
theorem cd_distance {disc : Option Disc} {speed : DiscSpeed} {scex : List Byte} {s : Cdrom}
    (hRun : Reach cdStep SmallAdvance (Cdrom.initial disc speed scex) s)
    (hInt : s.pending.pending = true → s.pending.delay < 2 ^ 31) {mask : Word}
    (hMask : mask.getLsbD 2 = true) (calls : List (Word × Bool)) :
    (cdCycles calls < s.cyclesToIrq mask → raises (s.advances calls).trace = raises s.trace) ∧
      (s.cyclesToIrq mask = 2 ^ 32 - 1 → raises (s.advances calls).trace = raises s.trace) := by
  obtain ⟨hBehind, hTimed⟩ := timed_of_reach hRun
  have hSettled := hTimed.settled hBehind
  refine ⟨fun hLess => ?_, fun hNone => ?_⟩
  · have hQuiet : s.QuietFor (cdCycles calls + 1) :=
      quietFor_of_le hSettled hMask (Nat.succ_pos _) hLess
    rw [quiet_advances calls hSettled hQuiet le_rfl]
  · -- Each of the three countdowns is an `int`, so none of them is under way.
    have hOrder : CdOrder s := hRun.invariant (initial_order disc speed scex) fun _ e h hSmall =>
      cdStep_order h e hSmall
    unfold Cdrom.cyclesToIrq at hNone
    rw [if_neg (by simp [hMask])] at hNone
    dsimp only at hNone
    have hQuiet : s.QuietFor (cdCycles calls + 1) := by
      refine ⟨fun hFlag hEnabled => ?_, fun hOn => ?_, fun hOn => ?_⟩
      · rw [if_pos ⟨hFlag, hEnabled⟩] at hNone
        have hDelay := hOrder.delay hFlag
        omega
      · have hDelay := hInt hOn
        rw [if_pos (c := s.pending.pending = true ∧ _) ⟨hOn, (hSettled.pending hOn).1⟩] at hNone
        omega
      · have hDelay := (hTimed.reading hOn).2
        rw [if_pos (c := s.drive.reading = true ∧ _) ⟨hOn, hSettled.reading hOn⟩] at hNone
        omega
    rw [quiet_advances calls hSettled hQuiet le_rfl]

theorem getstat_reached :
    Reach cdStep SmallAdvance emptyDrive (cdStep emptyDrive (.write 1 0x01)) :=
  Reach.start.along [CdEvent.write 1 0x01] ⟨trivial, trivial⟩

/-- GetStat: its response is 5000 cycles away, and not raised by two advances that
are shorter together. -/
theorem cd_distance_getstat :
    raises ((cdStep emptyDrive (.write 1 0x01)).advances [(4000, false), (999, true)]).trace =
      raises (cdStep emptyDrive (.write 1 0x01)).trace := by
  have hMask : (0x04 : Word).getLsbD 2 = true := by decide
  exact (cd_distance getstat_reached (by decide) hMask [(4000, false), (999, true)]).1 (by decide)

/-- With the interrupt masked the distance is the greatest one, and the interrupt is
raised all the same. -/
theorem getstat_raised_masked :
    ¬∀ (s : Cdrom) (mask : Word) (calls : List (Word × Bool)),
      Reach cdStep SmallAdvance emptyDrive s → cdCycles calls < s.cyclesToIrq mask →
        raises (s.advances calls).trace = raises s.trace := by
  intro hClaim
  have hSame := hClaim (cdStep emptyDrive (.write 1 0x01)) 0 [(5000, false)] getstat_reached
    (by decide)
  exact absurd hSame (by decide)

end RecompStudio.Runtime
