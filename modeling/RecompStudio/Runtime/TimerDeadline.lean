import RecompStudio.Runtime.RootCounters

/-!
The distance of `timers_cycles_to_irq` and the interrupts of an advance: before
the distance is over there is none, and at its end there is one.
-/

namespace RecompStudio.Runtime

local instance neZero_armed : NeZero 3 := ⟨by decide⟩

namespace Timer

/-- The ticks to the nearest event whose interrupt the mode asks for. -/
@[grind =] def armedTicks (t : Timer) : Nat :=
  min (if t.modeBit modeIrqTarget then t.targetDist else 2 ^ 32 - 1)
    (if t.modeBit modeIrqOverflow then t.overflowDist else 2 ^ 32 - 1)

/-- The counter is reset at its target before the event whose interrupt the mode
asks for. -/
def Preempted (t : Timer) : Prop := t.modeBit modeResetTarget = true ∧ t.targetDist < t.armedTicks

instance (t : Timer) : Decidable t.Preempted := inferInstanceAs (Decidable (_ ∧ _))

/-- No event that asks for an interrupt comes in the next ticks. -/
structure Quiet (t : Timer) (ticks : Nat) : Prop where
  target : t.modeBit modeIrqTarget = true → ticks < t.targetDist
  overflow : t.modeBit modeIrqOverflow = true → ticks < t.overflowDist

theorem Quiet.mono {t : Timer} {m n : Nat} (hQuiet : t.Quiet n) (hLe : m ≤ n) : t.Quiet m :=
  ⟨fun h => hLe.trans_lt (hQuiet.target h), fun h => hLe.trans_lt (hQuiet.overflow h)⟩

theorem quiet_of_lt {t : Timer} {ticks : Nat} (hTicks : ticks < t.armedTicks) : t.Quiet ticks := by
  have hMin := lt_min_iff.mp hTicks
  refine ⟨fun hArmed => ?_, fun hArmed => ?_⟩
  · simpa only [hArmed, if_true] using hMin.1
  · simpa only [hArmed, if_true] using hMin.2

theorem quiet_of_unarmed {t : Timer} (hTarget : t.modeBit modeIrqTarget = false)
    (hOverflow : t.modeBit modeIrqOverflow = false) (ticks : Nat) : t.Quiet ticks := by
  constructor
  · intro hArmed
    rw [hTarget] at hArmed
    cases hArmed
  · intro hArmed
    rw [hOverflow] at hArmed
    cases hArmed

theorem targetDist_le (t : Timer) : t.targetDist ≤ 0x10000 := by
  unfold targetDist turn
  split
  · exact le_rfl
  · exact (BitVec.isLt _).le

theorem overflowDist_le (t : Timer) : t.overflowDist ≤ 0x10000 := Nat.sub_le _ _

/-- What a tick without an interrupt leaves as it was. -/
structure Silent (t u : Timer) : Prop where
  raised : u.raised = t.raised
  target : u.target = t.target
  modeBit : ∀ i < 10, u.modeBit i = t.modeBit i

theorem Silent.refl (t : Timer) : t.Silent t := ⟨rfl, rfl, fun _ _ => rfl⟩

theorem Silent.trans {t u v : Timer} (hFirst : t.Silent u) (hLast : u.Silent v) : t.Silent v where
  raised := hLast.raised.trans hFirst.raised
  target := hLast.target.trans hFirst.target
  modeBit i hi := (hLast.modeBit i hi).trans (hFirst.modeBit i hi)

theorem silent_setCounter (t : Timer) (c : BitVec 16) : t.Silent (t.setCounter c) :=
  ⟨rfl, rfl, fun _ _ => rfl⟩

/-- The flags of the mode lie above what the mode asks for. -/
theorem silent_setFlag (t : Timer) {flag : Word} (hFlag : ∀ i < 10, flag.getLsbD i = false) :
    t.Silent (t.setMode (t.mode ||| flag)) where
  raised := rfl
  target := rfl
  modeBit i hi := by
    change (t.mode ||| flag).getLsbD i = t.mode.getLsbD i
    rw [BitVec.getLsbD_or, hFlag i hi, Bool.or_false]

theorem silent_resetAtTarget (t : Timer) : t.Silent t.resetAtTarget := by
  unfold resetAtTarget
  split
  · exact t.silent_setCounter 0
  · exact Silent.refl t

/-- A target that asks for no interrupt. -/
theorem reachTarget_unarmed {t : Timer} (hArmed : t.modeBit modeIrqTarget = false) :
    t.Silent t.reachTarget ∧
      t.reachTarget.counter = if t.modeBit modeResetTarget then 0 else t.counter := by
  have hFlag : t.Silent (t.setMode (t.mode ||| modeTargetFlag)) := t.silent_setFlag (by decide)
  have hFire : (t.setMode (t.mode ||| modeTargetFlag)).fireIf modeIrqTarget =
      t.setMode (t.mode ||| modeTargetFlag) := by
    rw [fireIf, hFlag.modeBit modeIrqTarget (by decide), hArmed]
    rfl
  rw [reachTarget, hFire]
  refine ⟨hFlag.trans (silent_resetAtTarget _), ?_⟩
  rw [resetAtTarget, hFlag.modeBit modeResetTarget (by decide)]
  split <;> rfl

/-- A wrap that asks for no interrupt. -/
theorem reachOverflow_unarmed {t : Timer} (hArmed : t.modeBit modeIrqOverflow = false) :
    t.Silent t.reachOverflow ∧ t.reachOverflow.counter = t.counter := by
  have hFlag : t.Silent (t.setMode (t.mode ||| modeOverflowFlag)) := t.silent_setFlag (by decide)
  have hFire : t.reachOverflow = t.setMode (t.mode ||| modeOverflowFlag) := by
    rw [reachOverflow, fireIf, hFlag.modeBit modeIrqOverflow (by decide), hArmed]
    rfl
  rw [hFire]
  exact ⟨hFlag, rfl⟩

/-- The counter behind a tick without an interrupt. -/
@[grind =] def nextCounter (t : Timer) : BitVec 16 :=
  if t.counter + 1 = t.target ∧ t.modeBit modeResetTarget = true then 0 else t.counter + 1

theorem at_target_iff (t : Timer) : t.counter + 1 = t.target ↔ t.targetDist = 1 := by
  unfold targetDist turn
  split <;> bv_omega

theorem at_overflow_iff (t : Timer) : t.counter = 0xFFFF ↔ t.overflowDist = 1 := by
  unfold overflowDist
  bv_omega

/-- The first half of a tick, the count and the target. -/
def countOne (t : Timer) : Timer :=
  if t.counter + 1 = t.target then (t.setCounter (t.counter + 1)).reachTarget
  else t.setCounter (t.counter + 1)

theorem tickOne_eq (t : Timer) :
    t.tickOne = if t.counter = 0xFFFF then t.countOne.reachOverflow else t.countOne := rfl

/-- A count that asks for no interrupt at the target. -/
theorem countOne_unarmed {t : Timer}
    (hTarget : ¬ (t.modeBit modeIrqTarget = true ∧ t.counter + 1 = t.target)) :
    t.Silent t.countOne ∧ t.countOne.counter = t.nextCounter := by
  have hCount := t.silent_setCounter (t.counter + 1)
  unfold countOne
  by_cases hAt : t.counter + 1 = t.target
  · have hArmed : (t.setCounter (t.counter + 1)).modeBit modeIrqTarget = false :=
      Bool.eq_false_of_not_eq_true fun hArmed => hTarget ⟨hArmed, hAt⟩
    obtain ⟨hSilent, hCounter⟩ := reachTarget_unarmed hArmed
    rw [if_pos hAt]
    refine ⟨hCount.trans hSilent, hCounter.trans ?_⟩
    simp only [nextCounter, hAt, true_and]
    rfl
  · rw [if_neg hAt]
    refine ⟨hCount, ?_⟩
    simp only [nextCounter, hAt, false_and, if_false]
    rfl

theorem tickOne_quiet {t : Timer} (hQuiet : t.Quiet 1) :
    t.Silent t.tickOne ∧ t.tickOne.counter = t.nextCounter := by
  have hCount := countOne_unarmed (t := t) fun hAt =>
    Nat.lt_irrefl 1 ((t.at_target_iff.1 hAt.2) ▸ hQuiet.target hAt.1)
  rw [tickOne_eq]
  split
  next hWrap =>
    have hArmed : t.modeBit modeIrqOverflow = false := by
      apply Bool.eq_false_of_not_eq_true
      intro hArmed
      exact Nat.lt_irrefl 1 ((t.at_overflow_iff.1 hWrap) ▸ hQuiet.overflow hArmed)
    obtain ⟨hSilent, hCounter⟩ := reachOverflow_unarmed
      ((hCount.1.modeBit modeIrqOverflow (by decide)).trans hArmed)
    exact ⟨hCount.1.trans hSilent, hCounter.trans hCount.2⟩
  next => exact hCount

theorem targetDist_tickOne {t : Timer} (hQuiet : t.Quiet 1) (hFar : 1 < t.targetDist) :
    t.tickOne.targetDist = t.targetDist - 1 := by
  obtain ⟨hSilent, hCounter⟩ := tickOne_quiet hQuiet
  have hNext : t.nextCounter = t.counter + 1 := by
    rw [nextCounter, if_neg]
    intro hAt
    exact Nat.ne_of_gt hFar (t.at_target_iff.1 hAt.1)
  rw [← targetDist_succ hFar, targetDist, hSilent.target, hCounter, hNext]
  rfl

/-- Where the counter is not reset, its wrap comes nearer. -/
theorem overflowDist_tickOne {t : Timer} (hQuiet : t.Quiet 1) (hFar : 1 < t.overflowDist)
    (hReset : ¬ (t.targetDist = 1 ∧ t.modeBit modeResetTarget = true)) :
    t.tickOne.overflowDist = t.overflowDist - 1 := by
  obtain ⟨hSilent, hCounter⟩ := tickOne_quiet hQuiet
  have hNext : t.nextCounter = t.counter + 1 := by
    rw [nextCounter, if_neg]
    intro hAt
    exact hReset ⟨t.at_target_iff.1 hAt.1, hAt.2⟩
  rw [← overflowDist_succ hFar, overflowDist, hCounter, hNext]
  rfl

/-- A tick without an interrupt leaves the rest of the quiet ticks. -/
theorem Quiet.tickOne {t : Timer} {ticks : Nat} (hQuiet : t.Quiet (ticks + 1)) :
    t.tickOne.Quiet ticks := by
  have hFirst : t.Quiet 1 := hQuiet.mono (Nat.succ_le_succ ticks.zero_le)
  have hBit := (tickOne_quiet hFirst).1.modeBit
  constructor
  · intro hArmed
    have hFar := hQuiet.target ((hBit modeIrqTarget (by decide)).symm.trans hArmed)
    rw [targetDist_tickOne hFirst (by omega)]
    omega
  · intro hArmed
    have hFar := hQuiet.overflow ((hBit modeIrqOverflow (by decide)).symm.trans hArmed)
    by_cases hReset : t.targetDist = 1 ∧ t.modeBit modeResetTarget = true
    · -- the counter starts again at zero, with a whole turn before it
      have hZero : t.tickOne.counter = 0 := by
        rw [(tickOne_quiet hFirst).2, nextCounter, if_pos ⟨t.at_target_iff.2 hReset.1, hReset.2⟩]
      have hTurn : t.tickOne.overflowDist = 0x10000 := by
        rw [overflowDist, hZero]
        rfl
      have := t.overflowDist_le
      omega
    · rw [overflowDist_tickOne hFirst (by omega) hReset]
      omega

/-- Quiet ticks raise nothing. -/
theorem raised_quiet {t : Timer} {ticks : Nat} (hQuiet : t.Quiet ticks) :
    (t.advanceCounts ticks).raised = t.raised := by
  induction ticks generalizing t with
  | zero => rfl
  | succ ticks ih =>
      have hFirst : t.Quiet 1 := hQuiet.mono (Nat.succ_le_succ ticks.zero_le)
      rw [advanceCounts_succ, hop_one, ih hQuiet.tickOne, (tickOne_quiet hFirst).1.raised]

theorem raised_disarm (t : Timer) : t.disarm.raised = t.raised := by
  unfold disarm
  split <;> rfl

theorem raised_le_fireIf (t : Timer) (bit : Nat) : t.raised ≤ (t.fireIf bit).raised := by
  unfold fireIf
  split
  · rw [fireIrq, raised_disarm]
    unfold raise
    split
    · split
      · exact Nat.le_succ _
      · exact le_rfl
    · exact Nat.le_succ _
  · exact le_rfl

theorem raised_lt_fireIf {t : Timer} {bit : Nat} (hToggle : t.modeBit modeIrqToggle = false)
    (hArmed : t.modeBit bit = true) : t.raised < (t.fireIf bit).raised := by
  rw [fireIf, if_pos hArmed, fireIrq, raised_disarm, raise, hToggle]
  exact Nat.lt_succ_self _

theorem raised_resetAtTarget (t : Timer) : t.resetAtTarget.raised = t.raised :=
  (silent_resetAtTarget t).raised

theorem raised_le_reachOverflow (t : Timer) : t.raised ≤ t.reachOverflow.raised :=
  raised_le_fireIf (t.setMode (t.mode ||| modeOverflowFlag)) modeIrqOverflow

theorem raised_lt_reachTarget {t : Timer} (hToggle : t.modeBit modeIrqToggle = false)
    (hArmed : t.modeBit modeIrqTarget = true) : t.raised < t.reachTarget.raised := by
  have hFlag : t.Silent (t.setMode (t.mode ||| modeTargetFlag)) := t.silent_setFlag (by decide)
  rw [reachTarget, raised_resetAtTarget]
  exact raised_lt_fireIf ((hFlag.modeBit modeIrqToggle (by decide)).trans hToggle)
    ((hFlag.modeBit modeIrqTarget (by decide)).trans hArmed)

theorem raised_lt_reachOverflow {t : Timer} (hToggle : t.modeBit modeIrqToggle = false)
    (hArmed : t.modeBit modeIrqOverflow = true) : t.raised < t.reachOverflow.raised := by
  have hFlag : t.Silent (t.setMode (t.mode ||| modeOverflowFlag)) := t.silent_setFlag (by decide)
  exact raised_lt_fireIf ((hFlag.modeBit modeIrqToggle (by decide)).trans hToggle)
    ((hFlag.modeBit modeIrqOverflow (by decide)).trans hArmed)

/-- An event that is due at the next tick and asks for an interrupt raises it. -/
theorem raised_lt_tickOne {t : Timer} (hToggle : t.modeBit modeIrqToggle = false)
    (hDue : t.modeBit modeIrqTarget = true ∧ t.targetDist = 1 ∨
      t.modeBit modeIrqOverflow = true ∧ t.overflowDist = 1) : t.raised < t.tickOne.raised := by
  rw [tickOne_eq]
  by_cases hTarget : t.modeBit modeIrqTarget = true ∧ t.counter + 1 = t.target
  · have hRaised : t.raised < t.countOne.raised := by
      rw [countOne, if_pos hTarget.2]
      exact raised_lt_reachTarget (t := t.setCounter (t.counter + 1)) hToggle hTarget.1
    split
    · exact hRaised.trans_le (raised_le_reachOverflow _)
    · exact hRaised
  · obtain ⟨hArmed, hOverflow⟩ : t.modeBit modeIrqOverflow = true ∧ t.overflowDist = 1 := by
      rcases hDue with ⟨hArmed, hDist⟩ | hDue
      · exact absurd ⟨hArmed, t.at_target_iff.2 hDist⟩ hTarget
      · exact hDue
    -- a target at the same tick asks for nothing and leaves the wrap armed
    obtain ⟨hSilent, -⟩ := countOne_unarmed hTarget
    rw [if_pos (t.at_overflow_iff.2 hOverflow), ← hSilent.raised]
    exact raised_lt_reachOverflow ((hSilent.modeBit modeIrqToggle (by decide)).trans hToggle)
      ((hSilent.modeBit modeIrqOverflow (by decide)).trans hArmed)

theorem armedTicks_due {t : Timer} {ticks : Nat} (hTicks : ticks ≤ 0x10000) :
    t.armedTicks = ticks ↔ t.Quiet (ticks - 1) ∧ 0 < ticks ∧
      (t.modeBit modeIrqTarget = true ∧ t.targetDist = ticks ∨
        t.modeBit modeIrqOverflow = true ∧ t.overflowDist = ticks) := by
  have hTarget := t.targetDist_pos
  have hOverflow := t.overflowDist_pos
  have hTargetLe := t.targetDist_le
  have hOverflowLe := t.overflowDist_le
  have hQuiet : t.Quiet (ticks - 1) ↔ (t.modeBit modeIrqTarget = true → ticks - 1 < t.targetDist) ∧
      (t.modeBit modeIrqOverflow = true → ticks - 1 < t.overflowDist) :=
    ⟨fun h => ⟨h.1, h.2⟩, fun h => ⟨h.1, h.2⟩⟩
  have hNoOverflow : min t.targetDist (2 ^ 32 - 1) = t.targetDist := Nat.min_eq_left (by omega)
  have hNoTarget : min (2 ^ 32 - 1) t.overflowDist = t.overflowDist := Nat.min_eq_right (by omega)
  rw [hQuiet, armedTicks]
  cases t.modeBit modeIrqTarget <;> cases t.modeBit modeIrqOverflow <;>
    simp only [if_true, if_false, Bool.false_eq_true, false_implies, true_implies, false_and,
      true_and, and_true, or_false, false_or, or_self, and_false, iff_false, hNoOverflow,
      hNoTarget, min_self] <;> omega

/-- The armed event comes nearer with every tick before it. -/
theorem armedTicks_tickOne {t : Timer} {ticks : Nat} (hArmed : t.armedTicks = ticks + 2)
    (hTicks : ticks + 2 ≤ 0x10000) (hKept : ¬ t.Preempted) :
    t.tickOne.armedTicks = ticks + 1 ∧ ¬ t.tickOne.Preempted := by
  obtain ⟨hQuiet, -, hDue⟩ := (armedTicks_due hTicks).mp hArmed
  have hFirst : t.Quiet 1 := hQuiet.mono (by omega)
  have hBit := (tickOne_quiet hFirst).1.modeBit
  have hReset : t.modeBit modeResetTarget = true → ticks + 2 ≤ t.targetDist := by
    intro hReset
    by_contra hNear
    exact hKept ⟨hReset, by omega⟩
  have hNext : t.tickOne.armedTicks = ticks + 1 := by
    refine (armedTicks_due (by omega)).mpr ⟨hQuiet.tickOne, Nat.succ_pos _, ?_⟩
    rcases hDue with ⟨hAsked, hDist⟩ | ⟨hAsked, hDist⟩
    · refine Or.inl ⟨(hBit modeIrqTarget (by decide)).trans hAsked, ?_⟩
      rw [targetDist_tickOne hFirst (by omega), hDist]
      rfl
    · refine Or.inr ⟨(hBit modeIrqOverflow (by decide)).trans hAsked, ?_⟩
      rw [overflowDist_tickOne hFirst (by omega), hDist]
      · rfl
      · rintro ⟨hNear, hOn⟩
        have := hReset hOn
        omega
  refine ⟨hNext, ?_⟩
  rintro ⟨hOn, hNear⟩
  have hFar := hReset ((hBit modeResetTarget (by decide)).symm.trans hOn)
  rw [hNext, targetDist_tickOne hFirst (by omega)] at hNear
  omega

/-- The ticks to an armed event end with its interrupt. -/
theorem raised_lt_advanceCounts {t : Timer} {ticks : Nat} (hArmed : t.armedTicks = ticks + 1)
    (hTicks : ticks + 1 ≤ 0x10000) (hKept : ¬ t.Preempted)
    (hToggle : t.modeBit modeIrqToggle = false) :
    t.raised < (t.advanceCounts (ticks + 1)).raised := by
  induction ticks generalizing t with
  | zero =>
      rw [advanceCounts_succ, hop_one, advanceCounts_zero]
      exact raised_lt_tickOne hToggle ((armedTicks_due hTicks).mp hArmed).2.2
  | succ ticks ih =>
      have hQuiet : t.Quiet 1 := ((armedTicks_due hTicks).mp hArmed).1.mono (by omega)
      obtain ⟨hSilent, -⟩ := tickOne_quiet hQuiet
      obtain ⟨hNext, hNextKept⟩ := armedTicks_tickOne hArmed hTicks hKept
      rw [advanceCounts_succ, hop_one, ← hSilent.raised]
      exact ih hNext (by omega) hNextKept
        ((hSilent.modeBit modeIrqToggle (by decide)).trans hToggle)

theorem raised_advance {t : Timer} {i : Fin 3} (hFrac : t.frac.val < t.divisor i) {cycles : Nat}
    (hCycles : cycles + hblankDivisor ≤ 2 ^ 32) :
    (t.advance i cycles).raised =
      (t.advanceCounts ((t.frac.val + cycles) / t.divisor i)).raised := by
  unfold advance
  split
  next hZero => rw [hZero, Nat.add_zero, Nat.div_eq_of_lt hFrac, advanceCounts_zero]
  next =>
    split
    next hOne =>
      rw [hOne] at hFrac ⊢
      rw [Nat.lt_one_iff.mp hFrac, Nat.zero_add, Nat.div_one]
    next =>
      rw [advanceDivided_eq t i hCycles]
      rfl

/-- A counter that asks for no interrupt raises none. -/
theorem raised_advance_unarmed {t : Timer} (hTarget : t.modeBit modeIrqTarget = false)
    (hOverflow : t.modeBit modeIrqOverflow = false) (i : Fin 3) (cycles : Nat) :
    (t.advance i cycles).raised = t.raised := by
  unfold advance
  split
  · rfl
  split
  · exact raised_quiet (quiet_of_unarmed hTarget hOverflow cycles)
  · rw [advanceDivided, setFrac_advanceCounts]
    exact raised_quiet (quiet_of_unarmed hTarget hOverflow _)

/-- `timers_cycles_to_irq` of a counter whose interrupt is unmasked and asked for. -/
theorem cyclesToIrq_armed {t : Timer} {i : Fin 3} {mask : Word}
    (hMask : mask.getLsbD (4 + i) = true)
    (hArmed : t.modeBit modeIrqTarget = true ∨ t.modeBit modeIrqOverflow = true) :
    t.armedTicks ≤ 0x10000 ∧ t.cyclesToIrq i mask = t.armedTicks * t.divisor i - t.frac.val := by
  have hTarget := t.targetDist_le
  have hOverflow := t.overflowDist_le
  have hLe : t.armedTicks ≤ 0x10000 := by
    unfold armedTicks
    rcases hArmed with hArmed | hArmed
    · rw [if_pos hArmed]
      omega
    · rw [if_pos hArmed]
      omega
  have hAsked : (t.modeBit modeIrqTarget || t.modeBit modeIrqOverflow) = true := by
    rw [Bool.or_eq_true]
    exact hArmed
  have hProd : t.armedTicks * t.divisor i ≤ 0x10000 * 2146 :=
    Nat.mul_le_mul hLe (t.divisor_le i).2
  refine ⟨hLe, ?_⟩
  have hMin : t.cyclesToIrq i mask =
      min (t.armedTicks * t.divisor i - t.frac.val) (2 ^ 32 - 1) := by
    rw [cyclesToIrq, hMask, hAsked]
    rfl
  rw [hMin]
  omega

theorem cyclesToIrq_unarmed {t : Timer} (hTarget : t.modeBit modeIrqTarget = false)
    (hOverflow : t.modeBit modeIrqOverflow = false) (i : Fin 3) (mask : Word) :
    t.cyclesToIrq i mask = 2 ^ 32 - 1 := by
  rw [cyclesToIrq, hTarget, hOverflow]
  simp

theorem armed_cases (t : Timer) :
    (t.modeBit modeIrqTarget = true ∨ t.modeBit modeIrqOverflow = true) ∨
      t.modeBit modeIrqTarget = false ∧ t.modeBit modeIrqOverflow = false := by
  cases t.modeBit modeIrqTarget <;> cases t.modeBit modeIrqOverflow <;> simp

/-- Before the distance is over no interrupt is raised. -/
theorem raised_before {t : Timer} {i : Fin 3} (hFrac : t.frac.val < t.divisor i) {mask : Word}
    (hMask : mask.getLsbD (4 + i) = true) {cycles : Nat} (hBefore : cycles < t.cyclesToIrq i mask) :
    (t.advance i cycles).raised = t.raised := by
  rcases t.armed_cases with hArmed | ⟨hTarget, hOverflow⟩
  · obtain ⟨hLe, hDist⟩ := cyclesToIrq_armed hMask hArmed
    have hProd : t.armedTicks * t.divisor i ≤ 0x10000 * 2146 :=
      Nat.mul_le_mul hLe (t.divisor_le i).2
    have hTicks : (t.frac.val + cycles) / t.divisor i < t.armedTicks := by
      rw [Nat.div_lt_iff_lt_mul (t.divisor_le i).1]
      omega
    rw [raised_advance hFrac (by unfold hblankDivisor; omega)]
    exact raised_quiet (quiet_of_lt hTicks)
  · exact raised_advance_unarmed hTarget hOverflow i cycles

/-- At the end of the distance the interrupt is raised. -/
theorem raised_at {t : Timer} {i : Fin 3} (hFrac : t.frac.val < t.divisor i) {mask : Word}
    (hMask : mask.getLsbD (4 + i) = true) (hFinite : t.cyclesToIrq i mask ≠ 2 ^ 32 - 1)
    (hKept : ¬ t.Preempted) (hToggle : t.modeBit modeIrqToggle = false) :
    t.raised < (t.advance i (t.cyclesToIrq i mask)).raised := by
  rcases t.armed_cases with hArmed | ⟨hTarget, hOverflow⟩
  · obtain ⟨hLe, hDist⟩ := cyclesToIrq_armed hMask hArmed
    have hPos : 0 < t.armedTicks := ((armedTicks_due hLe).mp rfl).2.1
    have hProd : t.armedTicks * t.divisor i ≤ 0x10000 * 2146 :=
      Nat.mul_le_mul hLe (t.divisor_le i).2
    have hTotal : t.frac.val + t.cyclesToIrq i mask = t.armedTicks * t.divisor i := by
      have hTick : t.divisor i ≤ t.armedTicks * t.divisor i := Nat.le_mul_of_pos_left _ hPos
      omega
    obtain ⟨ticks, hTicks⟩ : ∃ ticks, t.armedTicks = ticks + 1 :=
      ⟨t.armedTicks - 1, (Nat.succ_pred_eq_of_pos hPos).symm⟩
    rw [raised_advance hFrac (by unfold hblankDivisor; omega), hTotal,
      Nat.mul_div_cancel _ (t.divisor_le i).1, hTicks]
    exact raised_lt_advanceCounts hTicks (hTicks ▸ hLe) hKept hToggle
  · exact absurd (cyclesToIrq_unarmed hTarget hOverflow i mask) hFinite

end Timer

namespace RootCounters

/-- Counter `i` is unmasked and the first to be due. -/
def FirstDue (r : RootCounters) (mask : Word) (i : Fin 3) : Prop :=
  mask.getLsbD (4 + i) = true ∧ (r.timer i).cyclesToIrq i mask = r.cyclesToIrq mask

theorem cyclesToIrq_le (r : RootCounters) (mask : Word) (i : Fin 3) :
    r.cyclesToIrq mask ≤ (r.timer i).cyclesToIrq i mask := by
  unfold cyclesToIrq
  match i with
  | 0 | 1 | 2 => omega

theorem exists_eq_cyclesToIrq (r : RootCounters) (mask : Word) :
    ∃ i, (r.timer i).cyclesToIrq i mask = r.cyclesToIrq mask := by
  unfold cyclesToIrq
  rcases min_choice (min ((r.timer 0).cyclesToIrq 0 mask) ((r.timer 1).cyclesToIrq 1 mask))
    ((r.timer 2).cyclesToIrq 2 mask) with hMin | hMin
  · rw [hMin]
    rcases min_choice ((r.timer 0).cyclesToIrq 0 mask) ((r.timer 1).cyclesToIrq 1 mask) with
      hMin | hMin
    · exact ⟨0, hMin.symm⟩
    · exact ⟨1, hMin.symm⟩
  · exact ⟨2, hMin.symm⟩

theorem exists_firstDue {r : RootCounters} {mask : Word}
    (hFinite : r.cyclesToIrq mask ≠ 2 ^ 32 - 1) : ∃ i, r.FirstDue mask i := by
  obtain ⟨i, hMin⟩ := r.exists_eq_cyclesToIrq mask
  refine ⟨i, Bool.eq_true_of_not_eq_false fun hMask => hFinite ?_, hMin⟩
  rw [← hMin, Timer.cyclesToIrq, hMask]
  rfl

end RootCounters

/-- `timers_cycles_to_irq` is the distance to the next unmasked interrupt: no shorter advance
raises one, and an advance of just so many cycles raises that of every timer which is due first,
unless its counter is reset before that or its interrupt toggles. -/
theorem cyclesToIrq_exact (r : RootCounters) (mask : Word) :
    (∀ cycles < r.cyclesToIrq mask, ∀ i : Fin 3, mask.getLsbD (4 + i) = true →
      ((r.advance cycles).timer i).raised = (r.timer i).raised) ∧
    (r.cyclesToIrq mask ≠ 2 ^ 32 - 1 →
      (∃ i, r.FirstDue mask i) ∧
      ∀ i, r.FirstDue mask i → ¬ (r.timer i).Preempted →
        (r.timer i).modeBit modeIrqToggle = false →
        (r.timer i).raised < ((r.advance (r.cyclesToIrq mask)).timer i).raised) := by
  constructor
  · intro cycles hBefore i hMask
    exact Timer.raised_before (r.frac_lt i) hMask (hBefore.trans_le (r.cyclesToIrq_le mask i))
  · intro hFinite
    refine ⟨RootCounters.exists_firstDue hFinite, fun i hDue hKept hToggle => ?_⟩
    rw [← hDue.2] at hFinite ⊢
    exact Timer.raised_at (r.frac_lt i) hDue.1 hFinite hKept hToggle

/-- Counter 0 with target 5 and its interrupt. -/
def armedCounters : RootCounters := (RootCounters.init.writeReg 0 8 5).writeReg 0 4 0x10

theorem cyclesToIrq_exact_armed :
    armedCounters.cyclesToIrq 0x10 = 5 ∧
    ((armedCounters.advance 4).timer 0).raised = (armedCounters.timer 0).raised ∧
    (armedCounters.timer 0).raised < ((armedCounters.advance 5).timer 0).raised := by
  have hDist : armedCounters.cyclesToIrq 0x10 = 5 := by decide
  obtain ⟨hBefore, hAt⟩ := cyclesToIrq_exact armedCounters 0x10
  refine ⟨hDist, hBefore 4 (by rw [hDist]; decide) 0 (by decide), ?_⟩
  have hRaised := (hAt (by rw [hDist]; decide)).2 0 ⟨by decide, by decide⟩ (by decide) (by decide)
  rwa [hDist] at hRaised

end RecompStudio.Runtime
