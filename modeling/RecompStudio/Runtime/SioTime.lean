import RecompStudio.Runtime.SioLine

/-!
Time on the serial port: an advance by a number of cycles does what two
advances by its parts do, with the events of a byte and its acknowledge at the
same cycle.
-/

namespace RecompStudio.Runtime

variable {σ : Type}

namespace Sio

/-- A whole call of `sio_advance`. -/
def elapse (P : PadDevice σ) (s : Sio σ) (cycles : Nat) : Sio σ :=
  sioOp P s (.advance (BitVec.ofNat 32 cycles))

/-- More than the transitions that can come without a new byte. -/
def pendingEvents (s : Sio σ) : Nat :=
  (if s.shiftActive then 2 else 0) + (if s.txBuffered then 2 else 0) + if s.pendingAck then 1 else 0

/-- The line some cycles later, for a number of transitions. -/
@[grind =] def lineAfter (P : PadDevice σ) : Nat → Sio σ → Nat → Sio σ
  | 0, s, _ => s
  | events + 1, s, cycles =>
      if cycles = 0 then s
      else match s.nextEvent cycles with
        | (dt, .shift) => lineAfter P events ((s.pass dt).shiftComplete P) (cycles - dt)
        | (dt, .ack) => lineAfter P events (s.pass dt).fireAck (cycles - dt)
        | (dt, .nothing) => s.pass dt

end Sio

variable {P : PadDevice σ} {s : Sio σ} {m dt : Nat}

open Sio

/-- The next event: the end of the byte, unless its acknowledge comes before. -/
theorem nextEvent_eq (hTime : 0 < m) :
    s.nextEvent m =
      if s.shiftActive = true ∧ s.shiftRemaining < m ∧
          (s.pendingAck = true → s.shiftRemaining ≤ s.ackRemaining) then
        (s.shiftRemaining, .shift)
      else if s.pendingAck = true ∧ s.ackRemaining < m then (s.ackRemaining, .ack)
      else (m, .nothing) := by
  unfold nextEvent
  grind

theorem nextEvent_shift (hTime : 0 < m) (hEvent : s.nextEvent m = (dt, .shift)) :
    s.shiftActive = true ∧ dt < m := by
  rw [nextEvent_eq hTime] at hEvent
  grind

theorem nextEvent_ack (hTime : 0 < m) (hEvent : s.nextEvent m = (dt, .ack)) :
    s.pendingAck = true ∧ dt < m := by
  rw [nextEvent_eq hTime] at hEvent
  grind

theorem nextEvent_nothing (hTime : 0 < m) (hEvent : s.nextEvent m = (dt, .nothing)) :
    dt = m ∧ (s.shiftActive = true → m ≤ s.shiftRemaining) ∧
      (s.pendingAck = true → m ≤ s.ackRemaining) := by
  rw [nextEvent_eq hTime] at hEvent
  grind

/-- An event within a part of the time is the next event of all of it. -/
theorem nextEvent_add {event : LineEvent} (b : Nat) (hTime : 0 < m)
    (hEvent : s.nextEvent m = (dt, event)) (hSome : event ≠ .nothing) :
    s.nextEvent (m + b) = (dt, event) := by
  rw [nextEvent_eq (by omega)]
  rw [nextEvent_eq hTime] at hEvent
  grind

/-- Behind a part of the time without an event, the next one is as much nearer. -/
theorem nextEvent_pass {event : LineEvent} {b : Nat} (hTime : 0 < m) (hLater : 0 < b)
    (hQuiet : s.nextEvent m = (m, .nothing)) (hEvent : (s.pass m).nextEvent b = (dt, event)) :
    s.nextEvent (m + b) = (m + dt, event) := by
  obtain ⟨-, hShift, hAck⟩ := nextEvent_nothing hTime hQuiet
  rw [nextEvent_eq (by omega)]
  rw [nextEvent_eq hLater] at hEvent
  simp only [Sio.pass] at hEvent
  grind

theorem pass_pass (s : Sio σ) (a b : Nat) : (s.pass a).pass b = s.pass (a + b) := by
  cases hShift : s.shiftActive <;> cases hAck : s.pendingAck <;>
    simp [Sio.pass, hShift, hAck, Nat.sub_sub]

/-- Something is under way only while the timing is active. -/
def Sio.Timed (s : Sio σ) : Prop :=
  s.timingActive = true ∨ (s.shiftActive = false ∧ s.txBuffered = false ∧ s.pendingAck = false)

theorem timed_settle (h : s.timingActive = true) : s.settle.Timed := by
  unfold settle
  split
  · rename_i hIdle
    simp only [Bool.and_eq_true, Bool.not_eq_true'] at hIdle
    exact .inr ⟨hIdle.1.1, hIdle.1.2, hIdle.2⟩
  · exact .inl h

theorem settle_pendingEvents (s : Sio σ) : s.settle.pendingEvents = s.pendingEvents := by
  unfold settle
  split <;> rfl

theorem shiftComplete_pendingEvents (hShift : s.shiftActive = true) :
    (s.shiftComplete P).pendingEvents < s.pendingEvents := by
  rw [shiftComplete, settle_pendingEvents]
  have hSame : (s.exchange P s.shiftByte).txBuffered = s.txBuffered := rfl
  have hPending : (s.exchange P s.shiftByte).pendingAck = s.pendingAck := rfl
  simp only [pendingEvents, endShift, promote, hShift, ← hSame, ← hPending]
  generalize s.exchange P s.shiftByte = u
  cases u.stat.ack <;> cases u.txBuffered <;> cases u.pendingAck <;> simp

theorem fireAck_pendingEvents (hAck : s.pendingAck = true) :
    s.fireAck.pendingEvents < s.pendingEvents := by
  have hLess : (if s.shiftActive then 2 else 0) + (if s.txBuffered then 2 else 0) <
      s.pendingEvents := by
    simp [pendingEvents, hAck]
  unfold fireAck
  dsimp only
  split
  · rw [settle_pendingEvents]
    exact hLess
  · exact hLess

theorem shiftComplete_timed (hTiming : s.timingActive = true) : (s.shiftComplete P).Timed := by
  apply timed_settle
  have hSame : (s.exchange P s.shiftByte).timingActive = true := hTiming
  simp only [endShift, promote]
  generalize s.exchange P s.shiftByte = u at *
  split <;> split <;> exact hSame

theorem fireAck_timed (hTiming : s.timingActive = true) : s.fireAck.Timed := by
  unfold fireAck
  dsimp only
  split
  · exact timed_settle hTiming
  · exact .inl hTiming

theorem settle_setAdvancing (s : Sio σ) (a : Option (Nat × Nat)) :
    (s.setAdvancing a).settle = s.settle.setAdvancing a := by
  unfold settle
  change ite ((!s.shiftActive && !s.txBuffered && !s.pendingAck) = true) _ _ = _
  split <;> rfl

theorem shiftComplete_setAdvancing (s : Sio σ) (a : Option (Nat × Nat)) :
    (s.setAdvancing a).shiftComplete P = (s.shiftComplete P).setAdvancing a := by
  have hPromote : ∀ u : Sio σ, (u.setAdvancing a).promote = u.promote.setAdvancing a := by
    intro u
    unfold promote
    change ite (u.txBuffered = true) _ _ = _
    split <;> rfl
  have hEnd : ∀ u : Sio σ, (u.setAdvancing a).endShift = u.endShift.setAdvancing a := by
    intro u
    unfold endShift
    change ite (u.stat.ack = true) _ _ = _
    dsimp only
    split <;> rfl
  unfold shiftComplete
  rw [← settle_setAdvancing, ← hPromote, ← hEnd]
  rfl

theorem fireAck_setAdvancing (s : Sio σ) (a : Option (Nat × Nat)) :
    (s.setAdvancing a).fireAck = s.fireAck.setAdvancing a := by
  unfold fireAck
  change ite ((s.pendingAckIrqEn || ctrlAckIrqEn s.ctrl) = true) _ _ = _
  dsimp only
  split
  · rw [← settle_setAdvancing]
    rfl
  · rfl

theorem lineAfter_setAdvancing (events : Nat) (s : Sio σ) (a : Option (Nat × Nat)) (cycles : Nat) :
    lineAfter P events (s.setAdvancing a) cycles =
        (lineAfter P events s cycles).setAdvancing a := by
  induction events generalizing s cycles with
  | zero => rfl
  | succ events ih =>
      unfold lineAfter
      split
      · rfl
      · have hNext : (s.setAdvancing a).nextEvent cycles = s.nextEvent cycles := rfl
        have hPass : ∀ dt, (s.setAdvancing a).pass dt = (s.pass dt).setAdvancing a := fun _ => rfl
        rw [hNext]
        split
        · rw [hPass, shiftComplete_setAdvancing, ih]
        · rw [hPass, fireAck_setAdvancing, ih]
        · rfl

theorem lineAfter_enough {events events' : Nat} {cycles : Nat} (hEnough : s.pendingEvents < events)
    (hEnough' : s.pendingEvents < events') :
    lineAfter P events s cycles = lineAfter P events' s cycles := by
  induction events generalizing s events' cycles with
  | zero => omega
  | succ events ih =>
      obtain ⟨events', rfl⟩ : ∃ n, events' = n + 1 := ⟨events' - 1, by omega⟩
      unfold lineAfter
      by_cases hZero : cycles = 0
      · rw [if_pos hZero, if_pos hZero]
      rw [if_neg hZero, if_neg hZero]
      split
      · rename_i dt hEvent
        have hLess := shiftComplete_pendingEvents (P := P) (s := s.pass dt)
          (nextEvent_shift (by omega) hEvent).1
        have hSame : (s.pass dt).pendingEvents = s.pendingEvents := rfl
        exact ih (by omega) (by omega)
      · rename_i dt hEvent
        have hLess := fireAck_pendingEvents (s := s.pass dt) (nextEvent_ack (by omega) hEvent).1
        have hSame : (s.pass dt).pendingEvents = s.pendingEvents := rfl
        exact ih (by omega) (by omega)
      · rfl

theorem pendingEvents_le (s : Sio σ) : s.pendingEvents ≤ 5 := by
  unfold pendingEvents
  split <;> split <;> split <;> decide

theorem lineAfter_shift {events cycles : Nat} (hCycles : 0 < cycles)
    (hEvent : s.nextEvent cycles = (dt, .shift)) :
    lineAfter P (events + 1) s cycles =
      lineAfter P events ((s.pass dt).shiftComplete P) (cycles - dt) := by
  rw [lineAfter, if_neg (by omega), hEvent]

theorem lineAfter_ack {events cycles : Nat} (hCycles : 0 < cycles)
    (hEvent : s.nextEvent cycles = (dt, .ack)) :
    lineAfter P (events + 1) s cycles =
      lineAfter P events (s.pass dt).fireAck (cycles - dt) := by
  rw [lineAfter, if_neg (by omega), hEvent]

theorem lineAfter_nothing {events cycles : Nat} (hCycles : 0 < cycles)
    (hEvent : s.nextEvent cycles = (dt, .nothing)) :
    lineAfter P (events + 1) s cycles = s.pass dt := by
  rw [lineAfter, if_neg (by omega), hEvent]

/-- The line after two parts of the time. -/
theorem lineAfter_add {events a b : Nat} (hA : 0 < a) (hB : 0 < b)
    (hEnough : s.pendingEvents < events) :
    lineAfter P events s (a + b) = lineAfter P 6 (lineAfter P events s a) b := by
  induction events generalizing s a with
  | zero => omega
  | succ events ih =>
      cases hEvent : s.nextEvent a with
      | mk dt event =>
        have hSame : (s.pass dt).pendingEvents = s.pendingEvents := rfl
        cases event with
        | shift =>
            obtain ⟨hShift, hLess⟩ := nextEvent_shift hA hEvent
            have hFewer := shiftComplete_pendingEvents (P := P) (s := s.pass dt) hShift
            rw [lineAfter_shift (by omega) (nextEvent_add b hA hEvent (by simp)),
              lineAfter_shift hA hEvent, Nat.sub_add_comm (by omega), ih (by omega) (by omega)]
        | ack =>
            obtain ⟨hAck, hLess⟩ := nextEvent_ack hA hEvent
            have hFewer := fireAck_pendingEvents (s := s.pass dt) hAck
            rw [lineAfter_ack (by omega) (nextEvent_add b hA hEvent (by simp)),
              lineAfter_ack hA hEvent, Nat.sub_add_comm (by omega), ih (by omega) (by omega)]
        | nothing =>
            -- the first part only takes its time off, and the second one begins with the same event
            obtain ⟨rfl, -, -⟩ := nextEvent_nothing hA hEvent
            have hBound := pendingEvents_le s
            have hFuel : lineAfter P 6 (s.pass dt) b = lineAfter P (events + 1) (s.pass dt) b :=
              lineAfter_enough (by omega) (by omega)
            rw [lineAfter_nothing hA hEvent, hFuel]
            cases hLater : (s.pass dt).nextEvent b with
            | mk later event =>
              have hAll := nextEvent_pass hA hB hEvent hLater
              cases event with
              | shift =>
                  rw [lineAfter_shift (by omega) hAll, lineAfter_shift hB hLater, pass_pass,
                    Nat.add_sub_add_left]
              | ack =>
                  rw [lineAfter_ack (by omega) hAll, lineAfter_ack hB hLater, pass_pass,
                    Nat.add_sub_add_left]
              | nothing =>
                  rw [lineAfter_nothing (by omega) hAll, lineAfter_nothing hB hLater, pass_pass]

theorem lineAfter_timed {events cycles : Nat} (hTimed : s.Timed) :
    (lineAfter P events s cycles).Timed := by
  induction events generalizing s cycles with
  | zero => exact hTimed
  | succ events ih =>
      unfold lineAfter
      split
      · exact hTimed
      · rename_i hCycles
        split
        · rename_i dt hEvent
          have hShift := (nextEvent_shift (by omega) hEvent).1
          rcases hTimed with hTiming | ⟨hIdle, -⟩
          · exact ih (shiftComplete_timed hTiming)
          · simp [hIdle] at hShift
        · rename_i dt hEvent
          have hAck := (nextEvent_ack (by omega) hEvent).1
          rcases hTimed with hTiming | ⟨-, -, hIdle⟩
          · exact ih (fireAck_timed hTiming)
          · simp [hIdle] at hAck
        · exact hTimed

/-- The rounds of the loop are the line after the time that is left. -/
theorem rounds_lineAfter (n : Nat) : ∀ {s : Sio σ} {m tr : Nat}, 0 < m →
    tr + s.pendingEvents < 8 → s.pendingEvents < n →
    rounds P n (s.setAdvancing (some (m, tr))) = (lineAfter P n s m).setAdvancing none := by
  induction n with
  | zero => intro s m tr _ _ hRounds; omega
  | succ n ih =>
      intro s m tr hTime hRoom hRounds
      cases hEvent : s.nextEvent m with
      | mk dt event =>
        have hSame : (s.pass dt).pendingEvents = s.pendingEvents := rfl
        have hTurn : (s.setAdvancing (some (m, tr))).nextEvent m = (dt, event) := hEvent
        have hIterate := iterate_eq (P := P) (s := s.setAdvancing (some (m, tr))) rfl hTime
          (by omega) hTurn
        have hPass : (s.setAdvancing (some (m, tr))).pass dt =
            (s.pass dt).setAdvancing (some (m, tr)) := rfl
        have hOver : ∀ (u : Sio σ) a b, (u.setAdvancing a).setAdvancing b = u.setAdvancing b :=
          fun _ _ _ => rfl
        rw [rounds_succ, hIterate, hPass]
        cases event with
        | shift =>
            obtain ⟨hShift, hLess⟩ := nextEvent_shift hTime hEvent
            have hFewer := shiftComplete_pendingEvents (P := P) (s := s.pass dt) hShift
            dsimp only
            rw [shiftComplete_setAdvancing, hOver, ih (by omega) (by omega) (by omega),
              lineAfter_shift hTime hEvent]
        | ack =>
            obtain ⟨hAck, hLess⟩ := nextEvent_ack hTime hEvent
            have hFewer := fireAck_pendingEvents (s := s.pass dt) hAck
            dsimp only
            rw [fireAck_setAdvancing, hOver, ih (by omega) (by omega) (by omega),
              lineAfter_ack hTime hEvent]
        | nothing =>
            dsimp only
            rw [hOver, rounds_still rfl, lineAfter_nothing hTime hEvent]

theorem elapse_eq (hStill : s.advancing = none) {cycles : Nat} (hCycles : cycles < 2 ^ 31) :
    s.elapse P cycles = if s.timingActive then lineAfter P 6 s cycles else s := by
  have hNat : (BitVec.ofNat 32 cycles).toNat = cycles := by
    rw [BitVec.toNat_ofNat]
    omega
  have hRun : s.elapse P cycles = rounds P 9 (s.advance (BitVec.ofNat 32 cycles)) := by
    rw [elapse, sioOp, SioOp.events, List.foldl_cons, sioStep_still hStill]
    rfl
  rw [hRun, advance, hNat]
  by_cases hZero : cycles = 0
  · rw [if_pos (.inl hZero), rounds_still hStill, hZero]
    split <;> rfl
  cases hTiming : s.timingActive with
  | false => rw [if_pos (by simp), rounds_still hStill]; rfl
  | true =>
      have hBound := pendingEvents_le s
      have hSelf : s.setAdvancing none = s := by
        rw [← hStill]
        rfl
      rw [if_neg (by simp; omega), rounds_lineAfter 9 (by omega) (by omega) (by omega),
        lineAfter_enough (by omega) (show s.pendingEvents < 6 by omega), ← lineAfter_setAdvancing,
        hSelf]
      rfl

theorem elapse_still (hStill : s.advancing = none) {cycles : Nat} (hCycles : cycles < 2 ^ 31) :
    (s.elapse P cycles).advancing = none := by
  have hSelf : s.setAdvancing none = s := by
    rw [← hStill]
    rfl
  rw [elapse_eq hStill hCycles]
  split
  · rw [← hSelf, lineAfter_setAdvancing]
    rfl
  · exact hStill

theorem lineAfter_idle {events cycles : Nat} (hShift : s.shiftActive = false)
    (hAck : s.pendingAck = false) : lineAfter P (events + 1) s cycles = s := by
  unfold lineAfter
  split
  · rfl
  · rw [nextEvent_free hShift hAck]
    cases s
    simp_all [Sio.pass]

/-- Time can be given to the port in two parts. -/
theorem elapse_add (hStill : s.advancing = none) {a b : Nat} (hSum : a + b < 2 ^ 31) :
    s.elapse P (a + b) = (s.elapse P a).elapse P b := by
  have hZero : ∀ {u : Sio σ}, u.advancing = none → u.elapse P 0 = u := by
    intro u hu
    rw [elapse_eq hu (by decide)]
    split <;> rfl
  rcases Nat.eq_zero_or_pos a with rfl | hA
  · rw [Nat.zero_add, hZero hStill]
  rcases Nat.eq_zero_or_pos b with rfl | hB
  · rw [Nat.add_zero, hZero (elapse_still hStill (by omega))]
  rw [elapse_eq (elapse_still hStill (by omega)) (by omega), elapse_eq hStill hSum,
    elapse_eq hStill (by omega)]
  cases hTiming : s.timingActive with
  | false => simp [hTiming]
  | true =>
      have hBound := pendingEvents_le s
      rw [if_pos rfl, if_pos rfl, lineAfter_add hA hB (by omega)]
      have hTimed : (lineAfter P 6 s a).Timed := lineAfter_timed (.inl hTiming)
      rcases hTimed with hOn | ⟨hShift, -, hAck⟩
      · rw [if_pos hOn]
      · rw [lineAfter_idle hShift hAck]
        split <;> rfl

theorem fireAck_shiftActive (s : Sio σ) : s.fireAck.shiftActive = s.shiftActive := by
  unfold fireAck settle
  dsimp only
  split
  · split <;> rfl
  · rfl

end RecompStudio.Runtime
