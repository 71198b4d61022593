import RecompStudio.Runtime.Timers

/-!
The three counters together: the registers of the timer block, `timers_advance`
and the distance of `timers_cycles_to_irq`.
-/

namespace RecompStudio.Runtime

local instance neZero_counters : NeZero 3 := ⟨by decide⟩

namespace Timer

/-- `timers_write` for the register at offset `reg`. -/
def writeReg (t : Timer) (reg : Nat) (value : Word) : Timer :=
  match reg with
  | 0 => t.setCounter (value.setWidth 16)
  | 4 => { t with
      mode := (value &&& 0x3FF) ||| modeIrqRequest
      counter := 0
      irqLine := false
      frac := ⟨0, by decide⟩ }
  | 8 => { t with target := value.setWidth 16 }
  | _ => t

/-- What a read of counter `i` adds to it in a build that does not charge cycles. -/
def readInc (i : Fin 3) (t : Timer) : BitVec 16 := if i = 2 ∧ t.modeBit 9 then 1 else 8

/-- The counter behind a read of it. -/
@[grind =] def readCounter (blockCycles : Bool) (i : Fin 3) (t : Timer) : Timer :=
  if blockCycles then t
  else
    let u := t.setCounter (t.counter + readInc i t)
    if t.target ≠ 0 ∧ t.counter < t.target ∧ t.target ≤ u.counter then
      (u.setMode (u.mode ||| modeTargetFlag)).resetAtTarget
    else u

/-- `timers_read` for the register at offset `reg`: the value and the counter
behind the read. -/
@[grind =] def readReg (blockCycles : Bool) (i : Fin 3) (t : Timer) (reg : Nat) : Word × Timer :=
  match reg with
  | 0 => ((readCounter blockCycles i t).counter.setWidth 32, readCounter blockCycles i t)
  | 4 => (t.mode, t.setMode (t.mode &&& ~~~(modeTargetFlag ||| modeOverflowFlag)))
  | 8 => (t.target.setWidth 32, t)
  | _ => (0, t)

theorem src_readReg (blockCycles : Bool) (i : Fin 3) (t : Timer) (reg : Nat) :
    (readReg blockCycles i t reg).2.src = t.src := by
  have hReset : ∀ u : Timer, u.resetAtTarget.src = u.src := by
    intro u
    unfold resetAtTarget
    split <;> rfl
  have hCounter : (readCounter blockCycles i t).src = t.src := by
    unfold readCounter
    split
    · rfl
    · dsimp only
      split
      · exact (hReset _).trans (src_setMode_or (by decide))
      · rfl
  unfold readReg
  split
  · exact hCounter
  · exact src_setMode_and (by decide)
  · rfl
  · rfl

theorem frac_readReg (blockCycles : Bool) (i : Fin 3) (t : Timer) (reg : Nat) :
    (readReg blockCycles i t reg).2.frac = t.frac := by
  have hReset : ∀ u : Timer, u.resetAtTarget.frac = u.frac := by
    intro u
    unfold resetAtTarget
    split <;> rfl
  have hCounter : (readCounter blockCycles i t).frac = t.frac := by
    unfold readCounter
    split
    · rfl
    · dsimp only
      split
      · exact hReset _
      · rfl
  unfold readReg
  split
  · exact hCounter
  · rfl
  · rfl
  · rfl

theorem frac_advanceCounts (t : Timer) (ticks : Nat) : (t.advanceCounts ticks).frac = t.frac := by
  rw [show t = t.setFrac t.frac from rfl, setFrac_advanceCounts]
  rfl

theorem divisor_advance (t : Timer) (i : Fin 3) (cycles : Nat) :
    (t.advance i cycles).divisor i = t.divisor i := by
  unfold advance
  split
  · rfl
  split
  · exact divisor_congr (src_advanceCounts t cycles) i
  · exact divisor_congr (src_advanceCounts _ _) i

theorem frac_advance_lt {t : Timer} {i : Fin 3} (hFrac : t.frac.val < t.divisor i) (cycles : Nat) :
    (t.advance i cycles).frac.val < t.divisor i := by
  unfold advance
  split
  · exact hFrac
  split
  · rw [frac_advanceCounts]
    exact hFrac
  · rw [advanceDivided, frac_advanceCounts]
    exact Nat.mod_lt _ (t.divisor_le i).1

end Timer

/-- The counters. The cycles left over are always less than a tick. -/
@[ext]
structure RootCounters where
  timer : Fin 3 → Timer
  frac_lt : ∀ i, (timer i).frac.val < (timer i).divisor i

namespace RootCounters

/-- `timers_init`. -/
def init : RootCounters where
  timer _ := ⟨0, 0, 0, false, ⟨0, by decide⟩, false, 0⟩
  frac_lt i := (Timer.divisor_le _ i).1

/-- The counters with another counter `i`. -/
def set (r : RootCounters) (i : Fin 3) (t : Timer) (hFrac : t.frac.val < t.divisor i) :
    RootCounters where
  timer := Function.update r.timer i t
  frac_lt j := by
    by_cases hj : j = i
    · subst hj
      rw [Function.update_self]
      exact hFrac
    · rw [Function.update_of_ne hj]
      exact r.frac_lt j

theorem frac_writeReg_lt (r : RootCounters) (i : Fin 3) (reg : Nat) (value : Word) :
    ((r.timer i).writeReg reg value).frac.val < ((r.timer i).writeReg reg value).divisor i := by
  unfold Timer.writeReg
  split
  · exact r.frac_lt i
  · exact (Timer.divisor_le _ i).1
  · exact r.frac_lt i
  · exact r.frac_lt i

theorem frac_readReg_lt (r : RootCounters) (blockCycles : Bool) (i : Fin 3) (reg : Nat) :
    (Timer.readReg blockCycles i (r.timer i) reg).2.frac.val <
      (Timer.readReg blockCycles i (r.timer i) reg).2.divisor i := by
  rw [Timer.frac_readReg, Timer.divisor_congr (Timer.src_readReg blockCycles i _ reg)]
  exact r.frac_lt i

/-- A write to register `reg` of counter `i`. -/
def writeReg (r : RootCounters) (i : Fin 3) (reg : Nat) (value : Word) : RootCounters :=
  r.set i ((r.timer i).writeReg reg value) (r.frac_writeReg_lt i reg value)

/-- A read of register `reg` of counter `i`. -/
def readReg (r : RootCounters) (blockCycles : Bool) (i : Fin 3) (reg : Nat) : Word × RootCounters :=
  ((Timer.readReg blockCycles i (r.timer i) reg).1,
    r.set i (Timer.readReg blockCycles i (r.timer i) reg).2 (r.frac_readReg_lt blockCycles i reg))

/-- `timers_advance`. -/
@[grind =] def advance (r : RootCounters) (cycles : Nat) : RootCounters where
  timer i := (r.timer i).advance i cycles
  frac_lt i := by
    rw [Timer.divisor_advance]
    exact Timer.frac_advance_lt (r.frac_lt i) cycles

/-- `timers_cycles_to_irq`. -/
@[grind =] def cyclesToIrq (r : RootCounters) (mask : Word) : Nat :=
  min (min ((r.timer 0).cyclesToIrq 0 mask) ((r.timer 1).cyclesToIrq 1 mask))
    ((r.timer 2).cyclesToIrq 2 mask)

end RootCounters

/-- The batched loop is its ticks one by one, with their interrupts, and an
advance can be made in two parts. -/
theorem timersAdvance_exact :
    (∀ (t : Timer) (ticks : Nat), t.advanceCounts ticks = (Timer.tickOne^[ticks]) t) ∧
    ∀ (r : RootCounters) (a b : Nat), a + b < 2 ^ 31 →
      r.advance (a + b) = (r.advance a).advance b := by
  refine ⟨Timer.advanceCounts_eq_iterate, fun r a b hSum => ?_⟩
  apply RootCounters.ext
  funext i
  apply Timer.advance_add
  unfold hblankDivisor
  omega

theorem timersAdvance_exact_init :
    0x9000 + 0x9000 < 2 ^ 31 ∧
    RootCounters.init.advance (0x9000 + 0x9000) =
        (RootCounters.init.advance 0x9000).advance 0x9000 :=
  ⟨by decide, timersAdvance_exact.2 _ _ _ (by decide)⟩

end RecompStudio.Runtime
