import RecompStudio.Cpu.Word

/-!
The three root counters. Time is given to a counter in ticks of its clock
source, and the loop of an advance jumps from one target or overflow to the
next.
-/

namespace RecompStudio.Runtime

def modeResetTarget : Nat := 3
def modeIrqTarget : Nat := 4
def modeIrqOverflow : Nat := 5
def modeIrqRepeat : Nat := 6
def modeIrqToggle : Nat := 7
def modeIrqRequest : Word := 0x400
def modeTargetFlag : Word := 0x800
def modeOverflowFlag : Word := 0x1000

/-- The largest divisor of a clock source. -/
def hblankDivisor : Nat := 2146

theorem hblankDivisor_pos : 0 < hblankDivisor := by decide

/-- A counter, with the cycles that its divided clock has left over, its bit of
I_STAT and the number of its calls of `psx_irq_raise`. -/
structure Timer where
  counter : BitVec 16
  mode : Word
  target : BitVec 16
  irqLine : Bool
  frac : Fin hblankDivisor
  irq : Bool
  raised : Nat
deriving DecidableEq, Repr

namespace Timer

@[grind =] def modeBit (t : Timer) (i : Nat) : Bool := t.mode.getLsbD i

def setMode (t : Timer) (mode : Word) : Timer := { t with mode := mode }

/-- `psx_irq_raise` for the counter. -/
def irqRaise (t : Timer) : Timer := { t with irq := true, raised := t.raised + 1 }

/-- The line of `timer_fire_irq`, in its toggle mode and in its pulse mode. -/
def raise (t : Timer) : Timer :=
  if t.modeBit modeIrqToggle then
    if !t.irqLine then
      irqRaise { t with irqLine := true, mode := t.mode &&& ~~~modeIrqRequest }
    else { t with irqLine := false, mode := t.mode ||| modeIrqRequest }
  else irqRaise { t with mode := (t.mode &&& ~~~modeIrqRequest) ||| modeIrqRequest }

/-- A one-shot interrupt is over. -/
def disarm (t : Timer) : Timer :=
  if t.modeBit modeIrqRepeat then t else t.setMode (t.mode &&& ~~~0x30)

/-- `timer_fire_irq`. -/
@[grind =] def fireIrq (t : Timer) : Timer := t.raise.disarm

/-- The interrupt of an event, if its bit in the mode is set. -/
@[grind =] def fireIf (t : Timer) (bit : Nat) : Timer := if t.modeBit bit then t.fireIrq else t

def setCounter (t : Timer) (counter : BitVec 16) : Timer := { t with counter := counter }

@[grind =]
def resetAtTarget (t : Timer) : Timer := if t.modeBit modeResetTarget then t.setCounter 0 else t

/-- What happens at the target. -/
def reachTarget (t : Timer) : Timer :=
  ((t.setMode (t.mode ||| modeTargetFlag)).fireIf modeIrqTarget).resetAtTarget

/-- What happens at the wrap of the counter. -/
def reachOverflow (t : Timer) : Timer :=
  (t.setMode (t.mode ||| modeOverflowFlag)).fireIf modeIrqOverflow

/-- `timer_tick_one`. -/
def tickOne (t : Timer) : Timer :=
  let u := t.setCounter (t.counter + 1)
  let u := if u.counter = u.target then u.reachTarget else u
  if t.counter = 0xFFFF then u.reachOverflow else u

/-- A distance on the counter, a whole turn if it is zero. -/
@[grind =] def turn (d : BitVec 16) : Nat := if d = 0 then 0x10000 else d.toNat

/-- The ticks to the target. -/
def targetDist (t : Timer) : Nat := turn (t.target - t.counter)

@[grind =] def overflowDist (t : Timer) : Nat := 0x10000 - t.counter.toNat

/-- The length of one round of the loop of `timer_advance_counts`. -/
@[grind =] def stepLength (t : Timer) (ticks : Nat) : Nat :=
  max 1 (min (min ticks t.targetDist) t.overflowDist)

/-- One round of the loop. -/
@[grind =] def hop (t : Timer) (step : Nat) : Timer :=
  let u := t.setCounter (t.counter + BitVec.ofNat 16 step)
  let u := if step = t.targetDist then u.reachTarget else u
  if 0xFFFF < t.counter.toNat + step ∨ step = t.overflowDist then u.reachOverflow else u

/-- The loop of `timer_advance_counts`. A round takes one tick at least. -/
@[grind =] def countLoop : Nat → Timer → Nat → Timer
  | 0, t, _ => t
  | rounds + 1, t, ticks =>
      if ticks = 0 then t
      else countLoop rounds (t.hop (t.stepLength ticks)) (ticks - t.stepLength ticks)

/-- `timer_advance_counts`. -/
@[grind =] def advanceCounts (t : Timer) (ticks : Nat) : Timer := countLoop ticks t ticks

/-- The clock source. -/
def src (t : Timer) : BitVec 2 := t.mode.extractLsb' 8 2

/-- The cycles of one tick of timer `i`, `timer_divisor`. -/
def divisor (t : Timer) (i : Fin 3) : Nat :=
  match i with
  | 0 => if t.src = 0 ∨ t.src = 2 then 1 else 5
  | 1 => if t.src = 0 ∨ t.src = 2 then 1 else hblankDivisor
  | 2 => if t.src = 0 ∨ t.src = 1 then 1 else 8

theorem divisor_le (t : Timer) (i : Fin 3) : 0 < t.divisor i ∧ t.divisor i ≤ hblankDivisor := by
  unfold divisor hblankDivisor
  match i with
  | 0 | 1 | 2 => dsimp only; split <;> decide

def setFrac (t : Timer) (frac : Fin hblankDivisor) : Timer := { t with frac := frac }

/-- The cycles that a whole number of ticks leaves of a total. -/
def leftOver (t : Timer) (i : Fin 3) (total : Nat) : Fin hblankDivisor :=
  ⟨total % t.divisor i, (Nat.mod_lt _ (t.divisor_le i).1).trans_le (t.divisor_le i).2⟩

/-- `timer_advance_divided`. -/
def advanceDivided (t : Timer) (i : Fin 3) (cycles : Nat) : Timer :=
  let total := (t.frac.val + cycles) % 2 ^ 32
  (t.setFrac (t.leftOver i total)).advanceCounts (total / t.divisor i)

/-- `timers_advance` for one counter. -/
@[grind =] def advance (t : Timer) (i : Fin 3) (cycles : Nat) : Timer :=
  if cycles = 0 then t
  else if t.divisor i = 1 then t.advanceCounts cycles
  else t.advanceDivided i cycles

/-- `timers_cycles_to_irq` for one counter. -/
@[grind =] def cyclesToIrq (t : Timer) (i : Fin 3) (mask : Word) : Nat :=
  let wantTarget := t.modeBit modeIrqTarget
  let wantOverflow := t.modeBit modeIrqOverflow
  if !mask.getLsbD (4 + i) || !(wantTarget || wantOverflow) then 2 ^ 32 - 1
  else
    let ticks := min (if wantTarget then t.targetDist else 2 ^ 32 - 1)
      (if wantOverflow then t.overflowDist else 2 ^ 32 - 1)
    min (ticks * t.divisor i - t.frac) (2 ^ 32 - 1)

@[simp] theorem setCounter_target (t : Timer) (c : BitVec 16) :
    (t.setCounter c).target = t.target :=
  rfl

@[simp] theorem setCounter_counter (t : Timer) (c : BitVec 16) : (t.setCounter c).counter = c := rfl

theorem overflowDist_pos (t : Timer) : 0 < t.overflowDist := by
  unfold overflowDist
  have := t.counter.isLt
  omega

theorem turn_pos (d : BitVec 16) : 0 < turn d := by
  unfold turn
  split
  · decide
  · bv_omega

theorem turn_pred {d : BitVec 16} (hTurn : 1 < turn d) : turn (d - 1) = turn d - 1 := by
  unfold turn at *
  by_cases hZero : d = 0
  · subst hZero
    decide
  · rw [if_neg hZero] at hTurn ⊢
    rw [if_neg (by bv_omega)]
    bv_omega

theorem targetDist_pos (t : Timer) : 0 < t.targetDist := turn_pos _

/-- Below the next event a tick only counts. -/
theorem hop_one_of_lt {t : Timer} (hTarget : 1 < t.targetDist) (hOverflow : 1 < t.overflowDist) :
    t.hop 1 = t.setCounter (t.counter + 1) := by
  have hNoWrap : ¬ (0xFFFF < t.counter.toNat + 1 ∨ 1 = t.overflowDist) := by
    unfold overflowDist at *
    omega
  simp only [hop, if_neg (Nat.ne_of_lt hTarget), if_neg hNoWrap]
  rfl

theorem targetDist_succ {t : Timer} (hTarget : 1 < t.targetDist) :
    (t.setCounter (t.counter + 1)).targetDist = t.targetDist - 1 := by
  have hSub : t.target - (t.counter + 1) = t.target - t.counter - 1 := by
    rw [BitVec.sub_eq_add_neg, BitVec.sub_eq_add_neg, BitVec.sub_eq_add_neg, BitVec.neg_add,
      BitVec.sub_eq_add_neg, ← BitVec.add_assoc]
  rw [targetDist, setCounter_counter, setCounter_target, hSub]
  exact turn_pred hTarget

theorem overflowDist_succ {t : Timer} (hOverflow : 1 < t.overflowDist) :
    (t.setCounter (t.counter + 1)).overflowDist = t.overflowDist - 1 := by
  unfold overflowDist at *
  simp only [setCounter_counter]
  have : (t.counter + 1).toNat = t.counter.toNat + 1 := by bv_omega
  omega

/-- A round is a tick and the rest of the round. -/
theorem hop_succ {t : Timer} {step : Nat} (hPos : 0 < step) (hTarget : step + 1 ≤ t.targetDist)
    (hOverflow : step + 1 ≤ t.overflowDist) : t.hop (step + 1) = (t.hop 1).hop step := by
  rw [hop_one_of_lt (by omega) (by omega)]
  have hCounter : t.counter + BitVec.ofNat 16 (step + 1) =
      t.counter + 1 + BitVec.ofNat 16 step := by
    rw [BitVec.add_assoc, Nat.add_comm step 1, BitVec.ofNat_add]
    rfl
  have hOver := overflowDist_succ (t := t) (by omega)
  have hAtTarget : (step + 1 = t.targetDist) = (step = t.targetDist - 1) := by
    apply propext
    omega
  have hCount : (t.counter + 1).toNat = t.counter.toNat + 1 := by
    unfold overflowDist at hOverflow
    bv_omega
  have hAtOverflow : (0xFFFF < t.counter.toNat + (step + 1) ∨ step + 1 = t.overflowDist) =
      (0xFFFF < t.counter.toNat + 1 + step ∨ step = t.overflowDist - 1) := by
    apply propext
    omega
  simp only [hop, setCounter_counter, targetDist_succ (t := t) (by omega), hOver, hCount, hCounter,
    hAtTarget, hAtOverflow]
  rfl

theorem countLoop_of_le {rounds : Nat} {t : Timer} {ticks : Nat} (hRounds : ticks ≤ rounds) :
    countLoop rounds t ticks = t.advanceCounts ticks := by
  induction rounds using Nat.strongRecOn generalizing t ticks with
  | ind rounds ih =>
      cases rounds with
      | zero => rw [Nat.le_zero.mp hRounds]; rfl
      | succ rounds =>
          cases ticks with
          | zero => rfl
          | succ ticks =>
              have hStep : 1 ≤ t.stepLength (ticks + 1) := Nat.le_max_left _ _
              rw [advanceCounts, countLoop, countLoop, if_neg (Nat.succ_ne_zero _),
                if_neg (Nat.succ_ne_zero _), ih rounds (by omega) (by omega)]
              by_cases hEq : ticks = rounds
              · subst hEq
                rw [ih ticks (by omega) (by omega)]
              · rw [ih ticks (by omega) (by omega)]

@[simp] theorem advanceCounts_zero (t : Timer) : t.advanceCounts 0 = t := rfl

theorem advanceCounts_step {t : Timer} {ticks : Nat} (hTicks : 0 < ticks) :
    t.advanceCounts ticks =
      (t.hop (t.stepLength ticks)).advanceCounts (ticks - t.stepLength ticks) := by
  cases ticks with
  | zero => omega
  | succ ticks =>
      have hStep : 1 ≤ t.stepLength (ticks + 1) := Nat.le_max_left _ _
      rw [advanceCounts, countLoop, if_neg (Nat.succ_ne_zero _), countLoop_of_le (by omega)]

theorem stepLength_one (t : Timer) : t.stepLength 1 = 1 := by
  have := t.targetDist_pos
  have := t.overflowDist_pos
  unfold stepLength
  omega

/-- An advance is a tick and the rest of the advance. -/
theorem advanceCounts_succ (t : Timer) (ticks : Nat) :
    t.advanceCounts (ticks + 1) = (t.hop 1).advanceCounts ticks := by
  have hTarget := t.targetDist_pos
  have hOverflow := t.overflowDist_pos
  rw [advanceCounts_step (Nat.succ_pos ticks)]
  by_cases hOne : t.stepLength (ticks + 1) = 1
  · rw [hOne]
    rfl
  · -- the round goes on behind its first tick
    have hTicks : 0 < ticks := by
      rcases Nat.eq_zero_or_pos ticks with rfl | hPos
      · exact absurd t.stepLength_one hOne
      · exact hPos
    obtain ⟨step, hStep⟩ : ∃ step, t.stepLength (ticks + 1) = step + 1 :=
      ⟨t.stepLength (ticks + 1) - 1, by unfold stepLength; omega⟩
    have hLength := hStep
    unfold stepLength at hLength hOne
    have hRest : (t.hop 1).stepLength ticks = step := by
      rw [hop_one_of_lt (by omega) (by omega), stepLength, targetDist_succ (by omega),
        overflowDist_succ (by omega)]
      omega
    rw [hStep, hop_succ (by omega) (by omega) (by omega), advanceCounts_step hTicks, hRest]
    congr 1
    omega

/-- A round of one tick is the tick. -/
theorem hop_one (t : Timer) : t.hop 1 = t.tickOne := by
  have hTarget : (1 = t.targetDist) = (t.counter + 1 = t.target) := by
    unfold targetDist turn
    apply propext
    split <;> bv_omega
  have hOverflow : (0xFFFF < t.counter.toNat + 1 ∨ 1 = t.overflowDist) = (t.counter = 0xFFFF) := by
    unfold overflowDist
    apply propext
    bv_omega
  simp only [hop, hTarget, hOverflow]
  rfl

/-- An advance is its ticks, one by one. -/
theorem advanceCounts_eq_iterate (t : Timer) (ticks : Nat) :
    t.advanceCounts ticks = (tickOne^[ticks]) t := by
  induction ticks generalizing t with
  | zero => rfl
  | succ ticks ih => rw [advanceCounts_succ, hop_one, ih, Function.iterate_succ_apply]

/-- Ticks can be given in two parts. -/
theorem advanceCounts_add (t : Timer) (a b : Nat) :
    t.advanceCounts (a + b) = (t.advanceCounts a).advanceCounts b := by
  induction a generalizing t with
  | zero => rw [Nat.zero_add, advanceCounts_zero]
  | succ a ih => rw [Nat.succ_add, advanceCounts_succ, advanceCounts_succ, ih]

theorem src_setMode_or {t : Timer} {flag : Word} (hFlag : flag.extractLsb' 8 2 = 0#2) :
    (t.setMode (t.mode ||| flag)).src = t.src := by
  change (t.mode ||| flag).extractLsb' 8 2 = t.mode.extractLsb' 8 2
  rw [BitVec.extractLsb'_or, hFlag, BitVec.or_zero]

theorem src_setMode_and {t : Timer} {mask : Word}
    (hMask : mask.extractLsb' 8 2 = BitVec.allOnes 2) :
    (t.setMode (t.mode &&& mask)).src = t.src := by
  change (t.mode &&& mask).extractLsb' 8 2 = t.mode.extractLsb' 8 2
  rw [BitVec.extractLsb'_and, hMask, BitVec.and_allOnes]

theorem src_raise (t : Timer) : t.raise.src = t.src := by
  have hClear : (t.setMode (t.mode &&& ~~~modeIrqRequest)).src = t.src :=
    src_setMode_and (by decide)
  unfold raise
  split
  · split
    · exact hClear
    · exact src_setMode_or (by decide)
  · exact (src_setMode_or (t := t.setMode (t.mode &&& ~~~modeIrqRequest)) (by decide)).trans hClear

theorem src_fireIrq (t : Timer) : t.fireIrq.src = t.src := by
  rw [← src_raise t, fireIrq, disarm]
  split
  · rfl
  · exact src_setMode_and (by decide)

theorem src_fireIf (t : Timer) (bit : Nat) : (t.fireIf bit).src = t.src := by
  unfold fireIf
  split
  · exact t.src_fireIrq
  · rfl

theorem src_reachTarget (t : Timer) : t.reachTarget.src = t.src := by
  have hFire : ((t.setMode (t.mode ||| modeTargetFlag)).fireIf modeIrqTarget).src = t.src :=
    (src_fireIf _ _).trans (src_setMode_or (by decide))
  rw [← hFire, reachTarget, resetAtTarget]
  split <;> rfl

theorem src_reachOverflow (t : Timer) : t.reachOverflow.src = t.src :=
  (src_fireIf _ _).trans (src_setMode_or (by decide))

theorem src_hop (t : Timer) (step : Nat) : (t.hop step).src = t.src := by
  have hTarget : ∀ u : Timer, (if step = t.targetDist then u.reachTarget else u).src = u.src := by
    intro u
    split
    · exact u.src_reachTarget
    · rfl
  unfold hop
  dsimp only
  split
  · exact (src_reachOverflow _).trans (hTarget _)
  · exact hTarget _

theorem src_advanceCounts (t : Timer) (ticks : Nat) : (t.advanceCounts ticks).src = t.src := by
  induction ticks generalizing t with
  | zero => rfl
  | succ ticks ih => rw [advanceCounts_succ, ih, src_hop]

theorem divisor_congr {t u : Timer} (hSrc : t.src = u.src) (i : Fin 3) :
    t.divisor i = u.divisor i := by
  simp only [divisor, hSrc]

theorem setFrac_fireIrq (t : Timer) (f : Fin hblankDivisor) :
    (t.setFrac f).fireIrq = t.fireIrq.setFrac f := by
  have hRaise : (t.setFrac f).raise = t.raise.setFrac f := by
    unfold raise
    change ite (t.modeBit modeIrqToggle = true) (ite ((!t.irqLine) = true) _ _) _ = _
    split
    · split <;> rfl
    · rfl
  rw [fireIrq, hRaise, fireIrq, disarm, disarm]
  change ite (t.raise.modeBit modeIrqRepeat = true) _ _ = _
  split <;> rfl

theorem setFrac_fireIf (t : Timer) (f : Fin hblankDivisor) (bit : Nat) :
    (t.setFrac f).fireIf bit = (t.fireIf bit).setFrac f := by
  unfold fireIf
  rw [setFrac_fireIrq]
  change ite (t.modeBit bit = true) _ _ = _
  split <;> rfl

theorem setFrac_reachTarget (t : Timer) (f : Fin hblankDivisor) :
    (t.setFrac f).reachTarget = t.reachTarget.setFrac f := by
  have hReset : ∀ u : Timer, (u.setFrac f).resetAtTarget = u.resetAtTarget.setFrac f := by
    intro u
    unfold resetAtTarget
    change ite (u.modeBit modeResetTarget = true) _ _ = _
    split <;> rfl
  rw [reachTarget, reachTarget, ← hReset, ← setFrac_fireIf]
  rfl

theorem setFrac_reachOverflow (t : Timer) (f : Fin hblankDivisor) :
    (t.setFrac f).reachOverflow = t.reachOverflow.setFrac f := by
  rw [reachOverflow, reachOverflow, ← setFrac_fireIf]
  rfl

/-- The cycles left over play no part in a round. -/
theorem setFrac_hop (t : Timer) (f : Fin hblankDivisor) (step : Nat) :
    (t.setFrac f).hop step = (t.hop step).setFrac f := by
  have hTarget : ∀ u : Timer, (if step = t.targetDist then (u.setFrac f).reachTarget
      else u.setFrac f) = (if step = t.targetDist then u.reachTarget else u).setFrac f := by
    intro u
    split
    · exact setFrac_reachTarget u f
    · rfl
  unfold hop
  change (if 0xFFFF < t.counter.toNat + step ∨ step = t.overflowDist then
      (if step = t.targetDist then ((t.setCounter _).setFrac f).reachTarget
        else (t.setCounter _).setFrac f).reachOverflow
      else (if step = t.targetDist then ((t.setCounter _).setFrac f).reachTarget
        else (t.setCounter _).setFrac f)) = _
  rw [hTarget]
  split
  · exact setFrac_reachOverflow _ f
  · rfl

theorem setFrac_advanceCounts (t : Timer) (f : Fin hblankDivisor) (ticks : Nat) :
    (t.setFrac f).advanceCounts ticks = (t.advanceCounts ticks).setFrac f := by
  induction ticks generalizing t with
  | zero => rfl
  | succ ticks ih => rw [advanceCounts_succ, advanceCounts_succ, setFrac_hop, ih]

theorem advanceDivided_eq (t : Timer) (i : Fin 3) {cycles : Nat}
    (hCycles : cycles + hblankDivisor ≤ 2 ^ 32) :
    t.advanceDivided i cycles = (t.advanceCounts ((t.frac.val + cycles) / t.divisor i)).setFrac
      (t.leftOver i (t.frac.val + cycles)) := by
  have hFrac := t.frac.isLt
  rw [advanceDivided, Nat.mod_eq_of_lt (by omega), setFrac_advanceCounts]

theorem advanceDivided_add (t : Timer) (i : Fin 3) {a b : Nat}
    (hSum : a + b + hblankDivisor ≤ 2 ^ 32) :
    t.advanceDivided i (a + b) = (t.advanceDivided i a).advanceDivided i b := by
  have hDivisor : ∀ n f, ((t.advanceCounts n).setFrac f).divisor i = t.divisor i :=
    fun n f => divisor_congr (src_advanceCounts t n) i
  have hTotal : t.frac.val + (a + b) = t.divisor i * ((t.frac.val + a) / t.divisor i) +
      ((t.frac.val + a) % t.divisor i + b) := by
    rw [← Nat.add_assoc, ← Nat.add_assoc, Nat.div_add_mod]
  have hTicks : (t.frac.val + (a + b)) / t.divisor i =
      (t.frac.val + a) / t.divisor i + ((t.frac.val + a) % t.divisor i + b) / t.divisor i := by
    rw [hTotal, Nat.mul_add_div (t.divisor_le i).1]
  have hLeft : (t.frac.val + (a + b)) % t.divisor i =
      ((t.frac.val + a) % t.divisor i + b) % t.divisor i := by
    rw [hTotal, Nat.mul_add_mod]
  rw [advanceDivided_eq t i hSum, advanceDivided_eq t i (by omega),
    advanceDivided_eq _ i (by omega), setFrac_advanceCounts, hTicks, advanceCounts_add, hDivisor]
  have hFrac : (t.leftOver i (t.frac.val + (a + b))) =
      ((t.advanceCounts ((t.frac.val + a) / t.divisor i)).setFrac
        (t.leftOver i (t.frac.val + a))).leftOver i ((t.leftOver i (t.frac.val + a)).val + b) := by
    apply Fin.ext
    change _ % _ = _ % _
    rw [hDivisor]
    exact hLeft
  rw [hFrac]
  rfl

/-- Cycles can be given in two parts. -/
theorem advance_add (t : Timer) (i : Fin 3) {a b : Nat} (hSum : a + b + hblankDivisor ≤ 2 ^ 32) :
    t.advance i (a + b) = (t.advance i a).advance i b := by
  have hZero : ∀ u : Timer, u.advance i 0 = u := fun u => if_pos rfl
  rcases Nat.eq_zero_or_pos a with rfl | hA
  · rw [Nat.zero_add, hZero]
  rcases Nat.eq_zero_or_pos b with rfl | hB
  · rw [Nat.add_zero, hZero]
  have hPos : ∀ (u : Timer) {n : Nat}, 0 < n → u.advance i n =
      if u.divisor i = 1 then u.advanceCounts n else u.advanceDivided i n :=
    fun u n hn => if_neg (Nat.ne_of_gt hn)
  have hDivisor : (t.advance i a).divisor i = t.divisor i := by
    rw [hPos t hA]
    split
    · exact divisor_congr (src_advanceCounts t a) i
    · exact divisor_congr (src_advanceCounts _ _) i
  rw [hPos t (by omega), hPos _ hB, hDivisor, hPos t hA]
  split
  · exact advanceCounts_add t a b
  · exact advanceDivided_add t i hSum

end Timer

end RecompStudio.Runtime
