import RecompStudio.Runtime.SioReady

/-!
The distance to the next interrupt of the serial port, as the clock is told it,
and the one after which an acknowledge really raises its interrupt. The loop of
`sio_advance` comes to a countdown only when there is time left behind it, and
the distance leaves out a countdown that stands at zero.
-/

namespace RecompStudio.Runtime

variable {σ : Type}

/-- No interrupt is to come, as the distances say it. -/
def noDistance : Nat := 2 ^ 32 - 1

namespace Sio

/-- `sio_cycles_to_irq`. Nothing arms the countdown of the register accesses. -/
@[grind =] def cyclesToIrq (s : Sio σ) (iMask : Word) : Nat :=
  if !iMask.getLsbD 7 then noDistance
  else
    let ack := if s.timingActive ∧ s.pendingAck ∧ 0 < s.ackRemaining then s.ackRemaining
      else noDistance
    let shift := if s.timingActive ∧ s.shiftActive ∧ 0 < s.shiftRemaining then s.shiftRemaining
      else noDistance
    min noDistance (min ack shift)

def setIrq (s : Sio σ) (irq : Bool) : Sio σ := { s with irq := irq }

/-- A call of `sio_advance` sets the bit of the port in I_STAT. -/
def RaisesIrq (P : PadDevice σ) (s : Sio σ) (cycles : Nat) : Prop :=
  ((s.setIrq false).elapse P cycles).irq = true

/-- The first round of a call of `sio_advance` comes to an event. -/
@[grind =] def Fires (s : Sio σ) (cycles : Nat) : Prop :=
  s.timingActive = true ∧ 0 < cycles ∧ (s.nextEvent cycles).2 ≠ .nothing

/-- No advance that is shorter than the distance raises an interrupt that the
mask lets through, and an advance by a finite distance comes to an event. -/
def DistanceHolds (P : PadDevice σ) (s : Sio σ) (iMask : Word) : Prop :=
  (∀ k < s.cyclesToIrq iMask, iMask.getLsbD 7 = true → ¬ s.RaisesIrq P k) ∧
    (s.cyclesToIrq iMask ≠ noDistance → s.Fires (s.cyclesToIrq iMask))

/-- The acknowledge under way raises an interrupt when it comes. -/
def ackInterrupts (s : Sio σ) : Bool := s.pendingAckIrqEn || ctrlAckIrqEn s.ctrl

/-- A countdown has come to zero and its event is left to the next advance. -/
def Due (s : Sio σ) : Prop :=
  s.shiftActive = true ∧ s.shiftRemaining = 0 ∨ s.pendingAck = true ∧ s.ackRemaining = 0

/-- The longest countdown under way. -/
@[grind =] def longest (s : Sio σ) : Nat :=
  max (if s.shiftActive then s.shiftRemaining else 0) (if s.pendingAck then s.ackRemaining else 0)

/-- The byte in the shifter is acknowledged when it is over. -/
def shiftAcked (P : PadDevice σ) (s : Sio σ) : Bool := (s.exchange P s.shiftByte).stat.ack

/-- The acknowledge under way behind a byte that is due, and whether it raises an
interrupt. -/
@[grind =] def ackBehind (P : PadDevice σ) (s : Sio σ) : Option Nat :=
  if s.shiftAcked P then some sioAckCycles
  else if s.pendingAck then some s.ackRemaining else none

def behindInterrupts (P : PadDevice σ) (s : Sio σ) : Bool :=
  if s.shiftAcked P then s.shiftAckIrqEn || ctrlAckIrqEn s.ctrl else s.ackInterrupts

/-- The byte in the buffer is acknowledged: by its device, or because the
acknowledge behind the byte before comes within its time and is still to be seen. -/
def bufferAcked (P : PadDevice σ) (s : Sio σ) : Prop :=
  (∃ r, s.ackBehind P = some r ∧ r < sioBaudCycles) ∨
    ((s.exchange P s.shiftByte).bus.processByte P (ctrlSlot s.ctrl) s.txBuffer).2.ack = true

/-- A countdown that is not at zero ends within some time. -/
def CountsWithin (s : Sio σ) (cycles : Nat) : Prop :=
  s.pendingAck = true ∧ 0 < s.ackRemaining ∧ s.ackRemaining ≤ cycles ∨
    s.shiftActive = true ∧ 0 < s.shiftRemaining ∧ s.shiftRemaining ≤ cycles

/-- The events behind a countdown at zero raise no interrupt before the other
countdown ends: neither the acknowledge under way, if it is due, nor, behind a
byte that is due, the acknowledge that is under way then and the one of the byte
in the buffer. -/
def DueQuietly (P : PadDevice σ) (s : Sio σ) : Prop :=
  if s.shiftActive = true ∧ s.shiftRemaining = 0 then
    (∀ r, s.ackBehind P = some r → s.behindInterrupts P = true → s.CountsWithin (r + 1)) ∧
    (s.txBuffered = true → s.bufferAcked P →
      (s.txBufferAckIrqEn || ctrlAckIrqEn s.ctrl) = true →
        s.CountsWithin (sioBaudCycles + sioAckCycles + 1))
  else s.ackInterrupts = true → s.CountsWithin 1

/-- The states whose distance is right: there is none, since the interrupt is
masked or nothing is under way, or it has been left at zero and raises nothing
ahead of the other countdown. -/
def DistanceRight (P : PadDevice σ) (s : Sio σ) (iMask : Word) : Prop :=
  iMask.getLsbD 7 = false ∨ s.timingActive = false ∨
    (s.shiftActive = false ∧ s.pendingAck = false) ∨ (s.Due ∧ s.DueQuietly P)

/-- The interrupt that comes first of what is under way, as the time before it,
within a number of events. -/
@[grind =] def firstIrq (P : PadDevice σ) : Nat → Sio σ → Option Nat
  | 0, _ => none
  | events + 1, s =>
      if s.shiftActive = true ∧ (s.pendingAck = true → s.shiftRemaining ≤ s.ackRemaining) then
        (firstIrq P events ((s.pass s.shiftRemaining).shiftComplete P)).map (s.shiftRemaining + ·)
      else if s.pendingAck then
        if s.ackInterrupts then some s.ackRemaining
        else (firstIrq P events (s.pass s.ackRemaining).fireAck).map (s.ackRemaining + ·)
      else none

end Sio

variable {P : PadDevice σ} {s : Sio σ}

open Sio

theorem settle_irq (s : Sio σ) : s.settle.irq = s.irq := by
  unfold settle
  split <;> rfl

theorem shiftComplete_irq (s : Sio σ) : (s.shiftComplete P).irq = s.irq := by
  have hExchange : (s.exchange P s.shiftByte).irq = s.irq := rfl
  rw [shiftComplete, settle_irq, ← hExchange]
  generalize s.exchange P s.shiftByte = u
  unfold promote endShift
  dsimp only
  split <;> split <;> rfl

theorem fireAck_irq (s : Sio σ) : s.fireAck.irq = (s.irq || s.ackInterrupts) := by
  unfold fireAck
  dsimp only
  split
  · rename_i hOn
    rw [settle_irq, ackInterrupts, hOn, Bool.or_true]
  · rename_i hOff
    rw [ackInterrupts, Bool.eq_false_of_not_eq_true hOff, Bool.or_false]

/-- The bit of the port is set behind some time if it was before, or if the first
interrupt comes within this time. -/
theorem lineAfter_irq {events cycles : Nat} :
    (lineAfter P events s cycles).irq = true ↔
      s.irq = true ∨ ∃ t, s.firstIrq P events = some t ∧ t < cycles := by
  induction events generalizing s cycles with
  | zero => simp [lineAfter, firstIrq]
  | succ events ih =>
      rcases Nat.eq_zero_or_pos cycles with rfl | hTime
      · simp [lineAfter]
      by_cases hFirst : s.shiftActive = true ∧
          (s.pendingAck = true → s.shiftRemaining ≤ s.ackRemaining)
      · rw [firstIrq, if_pos hFirst]
        by_cases hIn : s.shiftRemaining < cycles
        · have hEvent : s.nextEvent cycles = (s.shiftRemaining, .shift) := by
            rw [nextEvent_eq hTime, if_pos ⟨hFirst.1, hIn, hFirst.2⟩]
          rw [lineAfter_shift hTime hEvent, ih, shiftComplete_irq]
          refine or_congr Iff.rfl ⟨?_, ?_⟩
          · rintro ⟨t, hSome, hLess⟩
            exact ⟨s.shiftRemaining + t, by rw [hSome]; rfl, by omega⟩
          · rintro ⟨t, hSome, hLess⟩
            obtain ⟨t', hSome', rfl⟩ := Option.map_eq_some_iff.mp hSome
            exact ⟨t', hSome', by omega⟩
        · have hEvent : s.nextEvent cycles = (cycles, .nothing) := by
            rw [nextEvent_eq hTime, if_neg fun h => hIn h.2.1,
              if_neg fun h => absurd (hFirst.2 h.1) (by omega)]
          rw [lineAfter_nothing hTime hEvent]
          refine (or_iff_left ?_).symm
          rintro ⟨t, hSome, hLess⟩
          obtain ⟨t', -, rfl⟩ := Option.map_eq_some_iff.mp hSome
          omega
      · rw [firstIrq, if_neg hFirst]
        have hNoShift : ¬ (s.shiftActive = true ∧ s.shiftRemaining < cycles ∧
            (s.pendingAck = true → s.shiftRemaining ≤ s.ackRemaining)) :=
          fun h => hFirst ⟨h.1, h.2.2⟩
        by_cases hAck : s.pendingAck = true
        · rw [if_pos hAck]
          by_cases hIn : s.ackRemaining < cycles
          · have hEvent : s.nextEvent cycles = (s.ackRemaining, .ack) := by
              rw [nextEvent_eq hTime, if_neg hNoShift, if_pos ⟨hAck, hIn⟩]
            rw [lineAfter_ack hTime hEvent, ih, fireAck_irq]
            have hSame : (s.pass s.ackRemaining).ackInterrupts = s.ackInterrupts := rfl
            have hIrq : (s.pass s.ackRemaining).irq = s.irq := rfl
            rw [hSame, hIrq]
            cases hOn : s.ackInterrupts with
            | true =>
                rw [if_pos rfl]
                exact iff_of_true (.inl (Bool.or_true _)) (.inr ⟨_, rfl, hIn⟩)
            | false =>
                rw [if_neg Bool.false_ne_true, Bool.or_false]
                refine or_congr Iff.rfl ⟨?_, ?_⟩
                · rintro ⟨t, hSome, hLess⟩
                  exact ⟨s.ackRemaining + t, by rw [hSome]; rfl, by omega⟩
                · rintro ⟨t, hSome, hLess⟩
                  obtain ⟨t', hSome', rfl⟩ := Option.map_eq_some_iff.mp hSome
                  exact ⟨t', hSome', by omega⟩
          · have hEvent : s.nextEvent cycles = (cycles, .nothing) := by
              rw [nextEvent_eq hTime, if_neg hNoShift, if_neg fun h => hIn h.2]
            rw [lineAfter_nothing hTime hEvent]
            refine (or_iff_left ?_).symm
            rintro ⟨t, hSome, hLess⟩
            split at hSome
            · obtain rfl := Option.some.inj hSome
              omega
            · obtain ⟨t', -, rfl⟩ := Option.map_eq_some_iff.mp hSome
              omega
        · have hEvent : s.nextEvent cycles = (cycles, .nothing) := by
            rw [nextEvent_eq hTime, if_neg hNoShift, if_neg fun h => hAck h.1]
          rw [lineAfter_nothing hTime hEvent, if_neg hAck]
          exact (or_iff_left fun ⟨t, hSome, _⟩ => absurd hSome (by simp)).symm

theorem settle_setIrq (s : Sio σ) (irq : Bool) : (s.setIrq irq).settle = s.settle.setIrq irq := by
  unfold settle
  change ite ((!s.shiftActive && !s.txBuffered && !s.pendingAck) = true) _ _ = _
  split <;> rfl

theorem shiftComplete_setIrq (s : Sio σ) (irq : Bool) :
    (s.setIrq irq).shiftComplete P = (s.shiftComplete P).setIrq irq := by
  have hPromote (u : Sio σ) : (u.setIrq irq).promote = u.promote.setIrq irq := by
    unfold promote
    change ite (u.txBuffered = true) _ _ = _
    split <;> rfl
  have hEnd (u : Sio σ) : (u.setIrq irq).endShift = u.endShift.setIrq irq := by
    unfold endShift
    change ite (u.stat.ack = true) _ _ = _
    dsimp only
    split <;> rfl
  unfold shiftComplete
  rw [← settle_setIrq, ← hPromote, ← hEnd]
  rfl

theorem fireAck_setIrq (s : Sio σ) (irq : Bool) (hOff : s.ackInterrupts = false) :
    (s.setIrq irq).fireAck = s.fireAck.setIrq irq := by
  unfold fireAck
  change ite (s.ackInterrupts = true) _ _ = (ite (s.ackInterrupts = true) _ _ : Sio σ).setIrq irq
  rw [hOff, if_neg Bool.false_ne_true, if_neg Bool.false_ne_true]
  rfl

theorem firstIrq_setIrq (events : Nat) (s : Sio σ) (irq : Bool) :
    (s.setIrq irq).firstIrq P events = s.firstIrq P events := by
  induction events generalizing s with
  | zero => rfl
  | succ events ih =>
      have hPass (dt : Nat) : (s.setIrq irq).pass dt = (s.pass dt).setIrq irq := rfl
      have hInterrupts : (s.setIrq irq).ackInterrupts = s.ackInterrupts := rfl
      rw [firstIrq, firstIrq, hPass, hPass, hInterrupts, shiftComplete_setIrq, ih]
      cases hOff : s.ackInterrupts with
      | true => rfl
      | false =>
          have hFire (dt : Nat) : ((s.pass dt).setIrq irq).fireAck =
              (s.pass dt).fireAck.setIrq irq :=
            fireAck_setIrq _ irq hOff
          rw [hFire, ih]
          rfl

theorem raisesIrq_iff (hStill : s.advancing = none) {cycles : Nat} (hCycles : cycles < 2 ^ 31) :
    s.RaisesIrq P cycles ↔
      s.timingActive = true ∧ ∃ t, s.firstIrq P 6 = some t ∧ t < cycles := by
  have hQuiet : (s.setIrq false).irq = false := rfl
  have hTiming : (s.setIrq false).timingActive = s.timingActive := rfl
  have hStill' : (s.setIrq false).advancing = none := hStill
  rw [RaisesIrq, elapse_eq hStill' hCycles, hTiming]
  cases s.timingActive with
  | false => simp [hQuiet]
  | true =>
      rw [if_pos rfl, lineAfter_irq, firstIrq_setIrq, hQuiet]
      simp

theorem pass_zero (s : Sio σ) : s.pass 0 = s := by
  cases s
  simp [Sio.pass]

/-- The end of a byte: its acknowledge is under way, or what was under way
before, and the byte of the buffer is in the shifter. -/
theorem shiftComplete_line (s : Sio σ) :
    let acked := (s.exchange P s.shiftByte).stat.ack
    let u := s.shiftComplete P
    u.pendingAck = (acked || s.pendingAck) ∧
      u.ackRemaining = (if acked then sioAckCycles else s.ackRemaining) ∧
      u.ackInterrupts = (if acked then s.shiftAckIrqEn || ctrlAckIrqEn s.ctrl
        else s.ackInterrupts) := by
  have hSettle (v : Sio σ) : v.settle.pendingAck = v.pendingAck ∧
      v.settle.ackRemaining = v.ackRemaining ∧ v.settle.ackInterrupts = v.ackInterrupts := by
    unfold settle
    split <;> exact ⟨rfl, rfl, rfl⟩
  have hPromote (v : Sio σ) : v.promote.pendingAck = v.pendingAck ∧
      v.promote.ackRemaining = v.ackRemaining ∧ v.promote.ackInterrupts = v.ackInterrupts := by
    unfold promote
    split <;> exact ⟨rfl, rfl, rfl⟩
  dsimp only
  rw [shiftComplete, (hSettle _).1, (hSettle _).2.1, (hSettle _).2.2, (hPromote _).1,
    (hPromote _).2.1, (hPromote _).2.2]
  have hPending : (s.exchange P s.shiftByte).pendingAck = s.pendingAck := rfl
  have hRemaining : (s.exchange P s.shiftByte).ackRemaining = s.ackRemaining := rfl
  have hInterrupts : (s.exchange P s.shiftByte).ackInterrupts = s.ackInterrupts := rfl
  have hEnabled : (s.exchange P s.shiftByte).shiftAckIrqEn = s.shiftAckIrqEn := rfl
  have hCtrl : (s.exchange P s.shiftByte).ctrl = s.ctrl := rfl
  rw [← hPending, ← hRemaining, ← hInterrupts, ← hEnabled, ← hCtrl]
  generalize s.exchange P s.shiftByte = v
  unfold endShift
  cases v.stat.ack <;> exact ⟨rfl, rfl, rfl⟩

/-- The shifter behind the end of a byte. -/
theorem shiftComplete_shifter (s : Sio σ) :
    let u := s.shiftComplete P
    u.shiftActive = s.txBuffered ∧ u.txBuffered = false ∧ u.ctrl = s.ctrl ∧
      u.stat.ack = false ∧ u.bus = (s.exchange P s.shiftByte).bus := by
  have hSettle (v : Sio σ) : v.settle.shiftActive = v.shiftActive ∧
      v.settle.txBuffered = v.txBuffered ∧ v.settle.ctrl = v.ctrl ∧
      v.settle.stat = v.stat ∧ v.settle.bus = v.bus := by
    unfold settle
    split <;> exact ⟨rfl, rfl, rfl, rfl, rfl⟩
  have hEnd (v : Sio σ) : v.endShift.shiftActive = false ∧ v.endShift.txBuffered = v.txBuffered ∧
      v.endShift.ctrl = v.ctrl ∧ v.endShift.stat.ack = false ∧ v.endShift.bus = v.bus := by
    unfold endShift
    dsimp only
    split <;> exact ⟨rfl, rfl, rfl, rfl, rfl⟩
  have hPromote (v : Sio σ) : v.promote.shiftActive = (v.txBuffered || v.shiftActive) ∧
      v.promote.txBuffered = false ∧ v.promote.ctrl = v.ctrl ∧
      v.promote.stat.ack = v.stat.ack ∧ v.promote.bus = v.bus := by
    unfold promote
    cases hOn : v.txBuffered <;> exact ⟨by simp, by simp, rfl, rfl, rfl⟩
  obtain ⟨hShift, hBuffer, hCtrl, hAck, hBus⟩ := hEnd (s.exchange P s.shiftByte)
  have hBuffer' : (s.exchange P s.shiftByte).endShift.txBuffered = s.txBuffered := hBuffer
  have hCtrl' : (s.exchange P s.shiftByte).endShift.ctrl = s.ctrl := hCtrl
  dsimp only
  rw [shiftComplete, (hSettle _).1, (hSettle _).2.1, (hSettle _).2.2.1, (hSettle _).2.2.2.1,
    (hSettle _).2.2.2.2, (hPromote _).1, (hPromote _).2.1, (hPromote _).2.2.1,
    (hPromote _).2.2.2.1, (hPromote _).2.2.2.2, hShift, hBuffer', Bool.or_false]
  exact ⟨rfl, rfl, hCtrl', hAck, hBus⟩

/-- The byte of the buffer is in the shifter. -/
theorem shiftComplete_buffered (hBuffer : s.txBuffered = true) :
    let u := s.shiftComplete P
    u.shiftRemaining = sioBaudCycles ∧ u.shiftByte = s.txBuffer ∧
      u.shiftAckIrqEn = s.txBufferAckIrqEn := by
  have hSettle (v : Sio σ) : v.settle.shiftRemaining = v.shiftRemaining ∧
      v.settle.shiftByte = v.shiftByte ∧ v.settle.shiftAckIrqEn = v.shiftAckIrqEn := by
    unfold settle
    split <;> exact ⟨rfl, rfl, rfl⟩
  have hEnd (v : Sio σ) : v.endShift.txBuffered = v.txBuffered ∧
      v.endShift.txBuffer = v.txBuffer ∧ v.endShift.txBufferAckIrqEn = v.txBufferAckIrqEn := by
    unfold endShift
    dsimp only
    split <;> exact ⟨rfl, rfl, rfl⟩
  obtain ⟨hBuffered, hByte, hEnabled⟩ := hEnd (s.exchange P s.shiftByte)
  have hOn : (s.exchange P s.shiftByte).endShift.txBuffered = true := hBuffered.trans hBuffer
  dsimp only
  rw [shiftComplete, (hSettle _).1, (hSettle _).2.1, (hSettle _).2.2, promote, if_pos hOn]
  exact ⟨rfl, hByte, hEnabled⟩

/-- An acknowledge that raises no interrupt leaves the shifter alone, and is to be
seen. -/
theorem fireAck_line (s : Sio σ) :
    s.fireAck.shiftActive = s.shiftActive ∧ s.fireAck.pendingAck = false ∧
      s.fireAck.shiftRemaining = s.shiftRemaining ∧
      s.fireAck.shiftAckIrqEn = s.shiftAckIrqEn ∧ s.fireAck.ctrl = s.ctrl ∧
      s.fireAck.txBuffered = s.txBuffered ∧ s.fireAck.stat.ack = true := by
  unfold fireAck settle
  dsimp only
  split
  · split <;> exact ⟨rfl, rfl, rfl, rfl, rfl, rfl, rfl⟩
  · exact ⟨rfl, rfl, rfl, rfl, rfl, rfl, rfl⟩

theorem firstIrq_shift {events : Nat} (hShift : s.shiftActive = true)
    (hFirst : s.pendingAck = true → s.shiftRemaining ≤ s.ackRemaining) :
    s.firstIrq P (events + 1) =
      (((s.pass s.shiftRemaining).shiftComplete P).firstIrq P events).map
        (s.shiftRemaining + ·) := by
  rw [firstIrq, if_pos ⟨hShift, hFirst⟩]

theorem firstIrq_ack {events : Nat} (hAck : s.pendingAck = true)
    (hFirst : s.shiftActive = true → s.ackRemaining < s.shiftRemaining) :
    s.firstIrq P (events + 1) =
      if s.ackInterrupts then some s.ackRemaining
      else ((s.pass s.ackRemaining).fireAck.firstIrq P events).map (s.ackRemaining + ·) := by
  rw [firstIrq, if_neg (fun h => absurd (h.2 hAck) (Nat.not_le.mpr (hFirst h.1))), if_pos hAck]

theorem firstIrq_nothing {events : Nat} (hShift : s.shiftActive = false)
    (hAck : s.pendingAck = false) : s.firstIrq P events = none := by
  cases events with
  | zero => rfl
  | succ events =>
      rw [firstIrq, if_neg (fun h => by simp [hShift] at h), if_neg (by simp [hAck])]

theorem firstIrq_idle {events : Nat} (hShift : s.shiftActive = false) :
    s.firstIrq P (events + 1) =
      if s.pendingAck = true ∧ s.ackInterrupts = true then some s.ackRemaining else none := by
  cases hAck : s.pendingAck with
  | false =>
      rw [firstIrq_nothing hShift hAck]
      simp
  | true =>
      rw [firstIrq_ack hAck fun hOn => absurd hOn (by simp [hShift])]
      cases hOn : s.ackInterrupts with
      | true => simp
      | false =>
          have hNoShift : (s.pass s.ackRemaining).fireAck.shiftActive = false := by
            rw [(fireAck_line _).1]
            exact hShift
          rw [firstIrq_nothing hNoShift (fireAck_line _).2.1]
          simp

/-- The byte in the shifter is the last one: its interrupt, or the one of the
acknowledge before it. -/
theorem firstIrq_last {events : Nat} (hShift : s.shiftActive = true)
    (hBuffer : s.txBuffered = false)
    (hFirst : s.pendingAck = true → s.shiftRemaining ≤ s.ackRemaining) :
    s.firstIrq P (events + 2) =
      if s.shiftAcked P then
        if (s.shiftAckIrqEn || ctrlAckIrqEn s.ctrl) = true then
          some (s.shiftRemaining + sioAckCycles) else none
      else if s.pendingAck = true ∧ s.ackInterrupts = true then some s.ackRemaining else none := by
  rw [firstIrq_shift hShift hFirst]
  have hPassed : (s.pass s.shiftRemaining).shiftAcked P = s.shiftAcked P := rfl
  obtain ⟨hPending, hRemaining, hInterrupts⟩ :=
    shiftComplete_line (P := P) (s.pass s.shiftRemaining)
  obtain ⟨hActive, -⟩ := shiftComplete_shifter (P := P) (s.pass s.shiftRemaining)
  have hIdle : ((s.pass s.shiftRemaining).shiftComplete P).shiftActive = false :=
    hActive.trans hBuffer
  rw [firstIrq_idle hIdle, hPending, hRemaining, hInterrupts]
  change Option.map _ (if ((s.shiftAcked P || s.pendingAck) = true ∧
    (if s.shiftAcked P then s.shiftAckIrqEn || ctrlAckIrqEn s.ctrl else s.ackInterrupts) = true)
    then some (if s.shiftAcked P then sioAckCycles else (s.pass s.shiftRemaining).ackRemaining)
    else none) = _
  cases s.shiftAcked P with
  | true => simp
  | false =>
      simp only [Bool.false_or, Bool.false_eq_true, if_false]
      split
      · rename_i hOn
        have hLater := hFirst hOn.1
        have hPass : (s.pass s.shiftRemaining).ackRemaining =
            s.ackRemaining - s.shiftRemaining := by
          simp [Sio.pass, hOn.1]
        rw [hPass, Option.map_some, Nat.add_sub_cancel' hLater]
      · rfl

/-- The acknowledge under way comes before the end of the last byte. -/
theorem firstIrq_ack_last {events : Nat} (hShift : s.shiftActive = true)
    (hBuffer : s.txBuffered = false) (hAck : s.pendingAck = true)
    (hFirst : s.ackRemaining < s.shiftRemaining) :
    s.firstIrq P (events + 3) =
      if s.ackInterrupts then some s.ackRemaining
      else if (s.shiftAckIrqEn || ctrlAckIrqEn s.ctrl) = true then
        some (s.shiftRemaining + sioAckCycles) else none := by
  rw [firstIrq_ack hAck fun _ => hFirst]
  cases hOn : s.ackInterrupts with
  | true => rfl
  | false =>
      obtain ⟨hActive, hNoAck, hRemaining, hEnabled, hCtrl, hNoBuffer, hSeen⟩ :=
        fireAck_line (s.pass s.ackRemaining)
      have hAcked : (s.pass s.ackRemaining).fireAck.shiftAcked P = true := by
        change ((s.pass s.ackRemaining).fireAck.stat.ack || _) = true
        rw [hSeen, Bool.true_or]
      rw [firstIrq_last (hActive.trans hShift) (hNoBuffer.trans hBuffer)
        (fun h => absurd h (by simp [hNoAck])), hAcked, hRemaining, hEnabled, hCtrl]
      have hPass : (s.pass s.ackRemaining).shiftRemaining = s.shiftRemaining - s.ackRemaining := by
        simp [Sio.pass, hShift]
      have hSame : (s.pass s.ackRemaining).shiftAckIrqEn = s.shiftAckIrqEn := rfl
      have hSame' : (s.pass s.ackRemaining).ctrl = s.ctrl := rfl
      rw [hPass, hSame, hSame']
      simp only [Bool.false_eq_true, if_false, if_true]
      split
      · rw [Option.map_some, ← Nat.add_assoc, Nat.add_sub_cancel' hFirst.le]
      · rfl

/-- Beyond the range of `int` a call does nothing. -/
theorem not_raisesIrq_of_le (hStill : s.advancing = none) {cycles : Nat}
    (hLong : 2 ^ 31 ≤ cycles) (hWord : cycles < 2 ^ 32) : ¬ s.RaisesIrq P cycles := by
  have hNat : (BitVec.ofNat 32 cycles).toNat = cycles := by
    rw [BitVec.toNat_ofNat]
    omega
  have hSame : (s.setIrq false).elapse P cycles = s.setIrq false := by
    have hStart : (s.setIrq false).advance (BitVec.ofNat 32 cycles) = s.setIrq false := by
      rw [advance, hNat, if_pos (.inr (.inl hLong))]
    have hStill' : (s.setIrq false).advancing = none := hStill
    rw [elapse, sioOp, SioOp.events, List.foldl_cons, sioStep_still hStill']
    exact (congrArg (rounds P 9) hStart).trans (rounds_still hStill' 9)
  rw [RaisesIrq, hSame]
  exact Bool.false_ne_true

theorem cyclesToIrq_of_masked {iMask : Word} (hMask : iMask.getLsbD 7 = false) :
    s.cyclesToIrq iMask = noDistance := by
  rw [cyclesToIrq, hMask]
  rfl

theorem cyclesToIrq_le {iMask : Word} : s.cyclesToIrq iMask ≤ noDistance := by
  unfold cyclesToIrq
  split
  · exact le_rfl
  · exact min_le_left _ _

theorem cyclesToIrq_eq {iMask : Word} (hMask : iMask.getLsbD 7 = true)
    (hTiming : s.timingActive = true) (hShift : s.shiftRemaining < 2 ^ 31)
    (hAck : s.ackRemaining < 2 ^ 31) :
    s.cyclesToIrq iMask =
      if s.pendingAck = true ∧ 0 < s.ackRemaining then
        if s.shiftActive = true ∧ 0 < s.shiftRemaining then min s.ackRemaining s.shiftRemaining
        else s.ackRemaining
      else if s.shiftActive = true ∧ 0 < s.shiftRemaining then s.shiftRemaining
      else noDistance := by
  unfold cyclesToIrq noDistance
  simp only [hMask, hTiming, Bool.not_true, Bool.false_eq_true, if_false, true_and]
  split <;> split <;> omega

theorem ackBehind_eq (s : Sio σ) :
    s.ackBehind P =
      if (s.shiftComplete P).pendingAck then some (s.shiftComplete P).ackRemaining else none := by
  obtain ⟨hPending, hRemaining, -⟩ := shiftComplete_line (P := P) s
  rw [hPending, hRemaining, ackBehind]
  change (if s.shiftAcked P then _ else _) =
    if s.shiftAcked P || s.pendingAck then some (if s.shiftAcked P then _ else _) else none
  cases s.shiftAcked P <;> rfl

theorem behindInterrupts_eq (s : Sio σ) :
    s.behindInterrupts P = (s.shiftComplete P).ackInterrupts := by
  rw [(shiftComplete_line (P := P) s).2.2]
  rfl

/-- The byte of the buffer is acknowledged at its end. -/
theorem bufferAcked_iff (hBuffer : s.txBuffered = true) :
    s.bufferAcked P ↔
      ((s.shiftComplete P).pendingAck = true ∧
        (s.shiftComplete P).ackRemaining < sioBaudCycles) ∨
      (s.shiftComplete P).shiftAcked P = true := by
  obtain ⟨-, -, hCtrl, hSeen, hBus⟩ := shiftComplete_shifter (P := P) s
  obtain ⟨-, hByte, -⟩ := shiftComplete_buffered (P := P) hBuffer
  rw [bufferAcked, ackBehind_eq]
  refine or_congr ?_ ?_
  · cases (s.shiftComplete P).pendingAck <;> simp
  · change _ ↔ ((s.shiftComplete P).stat.ack || ((s.shiftComplete P).bus.processByte P
      (ctrlSlot (s.shiftComplete P).ctrl) (s.shiftComplete P).shiftByte).2.ack) = true
    rw [hSeen, hBus, hCtrl, hByte, Bool.false_or]

theorem cyclesToIrq_le_iff {iMask : Word} (hMask : iMask.getLsbD 7 = true)
    (hTiming : s.timingActive = true) {cycles : Nat} (hCycles : cycles < noDistance) :
    s.cyclesToIrq iMask ≤ cycles ↔ s.CountsWithin cycles := by
  unfold noDistance at hCycles
  unfold cyclesToIrq CountsWithin noDistance
  simp only [hMask, hTiming, Bool.not_true, Bool.false_eq_true, if_false, true_and, min_le_iff]
  grind

/-- The condition on what is due, with the distance. -/
theorem dueQuietly_eq {iMask : Word} (hMask : iMask.getLsbD 7 = true)
    (hTiming : s.timingActive = true) (hAck : s.ackRemaining < 2 ^ 31) :
    s.DueQuietly P =
      if s.shiftActive = true ∧ s.shiftRemaining = 0 then
        (∀ r, s.ackBehind P = some r → s.behindInterrupts P = true →
          s.cyclesToIrq iMask ≤ r + 1) ∧
        (s.txBuffered = true → s.bufferAcked P →
          (s.txBufferAckIrqEn || ctrlAckIrqEn s.ctrl) = true →
            s.cyclesToIrq iMask ≤ sioBaudCycles + sioAckCycles + 1)
      else s.ackInterrupts = true → s.cyclesToIrq iMask ≤ 1 := by
  have hWithin {cycles : Nat} (hCycles : cycles < noDistance) :=
    propext (cyclesToIrq_le_iff hMask hTiming hCycles)
  have hBehind : ∀ r, s.ackBehind P = some r → r + 1 < noDistance := by
    intro r hSome
    unfold noDistance
    rw [ackBehind] at hSome
    split at hSome
    · obtain rfl := Option.some.inj hSome
      decide
    · split at hSome
      · have := Option.some.inj hSome
        omega
      · simp at hSome
  have hFirst : (∀ r, s.ackBehind P = some r → s.behindInterrupts P = true →
      s.CountsWithin (r + 1)) = (∀ r, s.ackBehind P = some r → s.behindInterrupts P = true →
        s.cyclesToIrq iMask ≤ r + 1) :=
    propext (forall_congr' fun r => imp_congr_right fun hSome => by
      rw [hWithin (hBehind r hSome)])
  rw [DueQuietly, hFirst, ← hWithin (by decide), ← hWithin (by decide)]

/-- The acknowledge comes before the end of the last byte, which is acknowledged itself. -/
theorem within_ack_last {d : Nat} (hShift : s.shiftActive = true) (hBuffer : s.txBuffered = false)
    (hByte : s.shiftRemaining = sioBaudCycles) (hAck : s.pendingAck = true)
    (hFirst : s.ackRemaining < sioBaudCycles) :
    (∀ t, s.firstIrq P 5 = some t → d ≤ t + 1) ↔
      (s.ackInterrupts = true → d ≤ s.ackRemaining + 1) ∧
      ((s.shiftAckIrqEn || ctrlAckIrqEn s.ctrl) = true → d ≤ sioBaudCycles + sioAckCycles + 1) := by
  rw [firstIrq_ack_last hShift hBuffer hAck (by rw [hByte]; exact hFirst), hByte]
  cases s.ackInterrupts <;> cases (s.shiftAckIrqEn || ctrlAckIrqEn s.ctrl) <;> simp
  omega

/-- The last byte ends before the acknowledge, which the distance knows. -/
theorem within_last {d : Nat} (hShift : s.shiftActive = true) (hBuffer : s.txBuffered = false)
    (hByte : s.shiftRemaining = sioBaudCycles)
    (hLong : s.pendingAck = true → sioBaudCycles ≤ s.ackRemaining ∧ d ≤ s.ackRemaining + 1) :
    (∀ t, s.firstIrq P 5 = some t → d ≤ t + 1) ↔
      (s.shiftAcked P = true → (s.shiftAckIrqEn || ctrlAckIrqEn s.ctrl) = true →
        d ≤ sioBaudCycles + sioAckCycles + 1) := by
  rw [firstIrq_last hShift hBuffer (by rw [hByte]; exact fun h => (hLong h).1), hByte]
  cases s.shiftAcked P with
  | true =>
      cases (s.shiftAckIrqEn || ctrlAckIrqEn s.ctrl) <;> simp
  | false =>
      refine iff_of_true ?_ (fun h => absurd h Bool.false_ne_true)
      intro t hSome
      rw [if_neg Bool.false_ne_true] at hSome
      split at hSome
      · rename_i hOn
        obtain rfl := Option.some.inj hSome
        exact (hLong hOn.1).2
      · exact absurd hSome (by simp)

/-- A byte that is over, with another one behind it in the buffer. -/
theorem within_buffered {d : Nat} (hShift : s.shiftActive = true) (hBuffer : s.txBuffered = false)
    (hByte : s.shiftRemaining = sioBaudCycles)
    (hKept : s.pendingAck = true → sioBaudCycles ≤ s.ackRemaining → d = s.ackRemaining) :
    (∀ t, s.firstIrq P 5 = some t → d ≤ t + 1) ↔
      (∀ r, (if s.pendingAck = true then some s.ackRemaining else none) = some r →
        s.ackInterrupts = true → d ≤ r + 1) ∧
      ((s.pendingAck = true ∧ s.ackRemaining < sioBaudCycles) ∨ s.shiftAcked P = true →
        (s.shiftAckIrqEn || ctrlAckIrqEn s.ctrl) = true →
          d ≤ sioBaudCycles + sioAckCycles + 1) := by
  have hAckBehind : (∀ r, (if s.pendingAck = true then some s.ackRemaining else none) = some r →
      s.ackInterrupts = true → d ≤ r + 1) ↔
        (s.pendingAck = true → s.ackInterrupts = true → d ≤ s.ackRemaining + 1) := by
    cases s.pendingAck <;> simp
  rw [hAckBehind]
  by_cases hFirst : s.pendingAck = true ∧ s.ackRemaining < sioBaudCycles
  · rw [within_ack_last hShift hBuffer hByte hFirst.1 hFirst.2]
    simp only [hFirst, and_self, true_or, true_imp_iff]
  · have hLong : s.pendingAck = true → sioBaudCycles ≤ s.ackRemaining ∧ d ≤ s.ackRemaining + 1 := by
      intro hOn
      have hLe : sioBaudCycles ≤ s.ackRemaining := Nat.le_of_not_lt fun h => hFirst ⟨hOn, h⟩
      exact ⟨hLe, by have := hKept hOn hLe; omega⟩
    rw [within_last hShift hBuffer hByte hLong, or_iff_right hFirst]
    exact ⟨fun h => ⟨fun hOn _ => (hLong hOn).2, h⟩, And.right⟩

/-- An acknowledge that the end of a byte leaves under way for a byte more is the one that
the distance was taken from. -/
theorem cyclesToIrq_kept {iMask : Word} (hMask : iMask.getLsbD 7 = true)
    (hTiming : s.timingActive = true) (hAck : s.ackRemaining < 2 ^ 31)
    (hOver : s.shiftRemaining = 0) (hOn : (s.shiftComplete P).pendingAck = true)
    (hLong : sioBaudCycles ≤ (s.shiftComplete P).ackRemaining) :
    s.cyclesToIrq iMask = (s.shiftComplete P).ackRemaining := by
  have hDistance := cyclesToIrq_eq hMask hTiming (by omega) hAck
  obtain ⟨hPending, hRemaining, -⟩ := shiftComplete_line (P := P) s
  rw [hPending] at hOn
  rw [hRemaining] at hLong ⊢
  cases hSeen : (s.exchange P s.shiftByte).stat.ack with
  | true =>
      rw [hSeen, if_pos rfl] at hLong
      exact absurd hLong (by decide)
  | false =>
      rw [hSeen] at hOn hLong
      have hPositive : 0 < s.ackRemaining := Nat.lt_of_lt_of_le (by decide) hLong
      rw [hDistance, if_pos ⟨hOn, hPositive⟩, if_neg (by omega)]
      rfl

/-- A byte that is over: the acknowledge is the one behind it. -/
theorem dueByte_iff {iMask : Word} (hMask : iMask.getLsbD 7 = true)
    (hTiming : s.timingActive = true) (hAck : s.ackRemaining < 2 ^ 31)
    (hByte : s.shiftActive = true) (hOver : s.shiftRemaining = 0) :
    (∀ t, s.firstIrq P 6 = some t → s.cyclesToIrq iMask ≤ t + 1) ↔
      (∀ r, s.ackBehind P = some r → s.behindInterrupts P = true →
        s.cyclesToIrq iMask ≤ r + 1) ∧
      (s.txBuffered = true → s.bufferAcked P →
        (s.txBufferAckIrqEn || ctrlAckIrqEn s.ctrl) = true →
          s.cyclesToIrq iMask ≤ sioBaudCycles + sioAckCycles + 1) := by
  have hNoTime (o : Option Nat) : o.map (0 + ·) = o := by simp
  rw [firstIrq_shift hByte (by omega), hOver, pass_zero, hNoTime, ackBehind_eq,
    behindInterrupts_eq]
  obtain ⟨hActive, hEmpty, hCtrl, -, -⟩ := shiftComplete_shifter (P := P) s
  cases hBuffer : s.txBuffered with
  | false =>
      rw [firstIrq_idle (hActive.trans hBuffer)]
      cases (s.shiftComplete P).pendingAck <;> cases (s.shiftComplete P).ackInterrupts <;> simp
  | true =>
      obtain ⟨hRemaining, -, hEnabled⟩ := shiftComplete_buffered (P := P) hBuffer
      rw [bufferAcked_iff hBuffer, ← hEnabled, ← hCtrl, imp_iff_right (rfl : true = true)]
      exact within_buffered (hActive.trans hBuffer) hEmpty hRemaining
        (cyclesToIrq_kept hMask hTiming hAck hOver)

/-- An acknowledge is due, and a byte under way ends later. -/
theorem dueAck_iff {iMask : Word} (hMask : iMask.getLsbD 7 = true)
    (hTiming : s.timingActive = true) (hShift : s.shiftRemaining < 2 ^ 31)
    (hAck : s.ackRemaining < 2 ^ 31) (hAckOn : s.pendingAck = true) (hAckDue : s.ackRemaining = 0)
    (hLater : s.shiftActive = true → 0 < s.shiftRemaining) :
    (∀ t, s.firstIrq P 6 = some t → s.cyclesToIrq iMask ≤ t + 1) ↔
      (s.ackInterrupts = true → s.cyclesToIrq iMask ≤ 1) := by
  rw [firstIrq_ack hAckOn (by rw [hAckDue]; exact hLater), hAckDue, pass_zero]
  cases s.ackInterrupts with
  | true => simp
  | false =>
      refine iff_of_true ?_ (fun h => absurd h Bool.false_ne_true)
      intro t hSome
      obtain ⟨hActive, hNoAck, hRemaining, -⟩ := fireAck_line s
      cases hShifting : s.shiftActive with
      | false =>
          rw [firstIrq_nothing (hActive.trans hShifting) hNoAck] at hSome
          simp at hSome
      | true =>
          rw [firstIrq_shift (hActive.trans hShifting) (fun h => absurd h (by simp [hNoAck])),
            hRemaining] at hSome
          obtain ⟨t', hSome', rfl⟩ := Option.map_eq_some_iff.mp hSome
          obtain ⟨t'', -, rfl⟩ := Option.map_eq_some_iff.mp hSome'
          rw [cyclesToIrq_eq hMask hTiming hShift hAck, if_neg (by omega),
            if_pos ⟨hShifting, hLater hShifting⟩]
          omega

/-- What is due raises its interrupts where the condition leaves them. -/
theorem dueQuietly_iff {iMask : Word} (hMask : iMask.getLsbD 7 = true)
    (hTiming : s.timingActive = true) (hShift : s.shiftRemaining < 2 ^ 31)
    (hAck : s.ackRemaining < 2 ^ 31) (hDue : s.Due) :
    (∀ t, s.firstIrq P 6 = some t → s.cyclesToIrq iMask ≤ t + 1) ↔ s.DueQuietly P := by
  rw [dueQuietly_eq hMask hTiming hAck]
  by_cases hByte : s.shiftActive = true ∧ s.shiftRemaining = 0
  · rw [if_pos hByte]
    exact dueByte_iff hMask hTiming hAck hByte.1 hByte.2
  · rw [if_neg hByte]
    obtain ⟨hAckOn, hAckDue⟩ := hDue.resolve_left hByte
    exact dueAck_iff hMask hTiming hShift hAck hAckOn hAckDue fun hOn =>
      Nat.pos_of_ne_zero fun h => hByte ⟨hOn, h⟩

/-- The longest countdown under way behind the end of a byte. -/
theorem shiftComplete_longest (s : Sio σ) :
    (s.shiftComplete P).longest ≤
        max sioBaudCycles (if s.pendingAck then s.ackRemaining else 0) := by
  obtain ⟨hPending, hRemaining, -⟩ := shiftComplete_line (P := P) s
  have hShifter :
    (if (s.shiftComplete P).shiftActive then (s.shiftComplete P).shiftRemaining else 0)
      ≤ sioBaudCycles := by
    rw [(shiftComplete_shifter s).1]
    cases hBuffer : s.txBuffered with
    | false => exact Nat.zero_le _
    | true =>
        rw [if_pos rfl, (shiftComplete_buffered hBuffer).1]
  rw [longest, hPending, hRemaining]
  refine max_le (hShifter.trans (le_max_left _ _)) ?_
  cases (s.exchange P s.shiftByte).stat.ack with
  | true => exact le_max_of_le_left (show sioAckCycles ≤ sioBaudCycles by decide)
  | false => exact le_max_right _ _

/-- The first interrupt comes within the countdowns under way, and a byte and an
acknowledge more for every event. -/
theorem firstIrq_le {events t : Nat} (hFirst : s.firstIrq P events = some t) :
    t ≤ s.longest + events * sioBaudCycles := by
  induction events generalizing s t with
  | zero => simp [firstIrq] at hFirst
  | succ events ih =>
      rw [Nat.succ_mul]
      by_cases hByte : s.shiftActive = true ∧
        (s.pendingAck = true → s.shiftRemaining ≤ s.ackRemaining)
      · rw [firstIrq_shift hByte.1 hByte.2] at hFirst
        obtain ⟨t', hNext, rfl⟩ := Option.map_eq_some_iff.mp hFirst
        have hBound := (ih hNext).trans (Nat.add_le_add_right (shiftComplete_longest _) _)
        have hPass : (if (s.pass s.shiftRemaining).pendingAck then
            (s.pass s.shiftRemaining).ackRemaining else 0) ≤ s.longest - s.shiftRemaining := by
          simp only [Sio.pass, longest]
          grind
        have hLong : s.shiftRemaining ≤ s.longest := by
          simp [longest, hByte.1]
        omega
      · cases hAck : s.pendingAck with
        | false =>
            rw [firstIrq, if_neg hByte, if_neg (by simp [hAck])] at hFirst
            simp at hFirst
        | true =>
            have hBefore : s.shiftActive = true → s.ackRemaining < s.shiftRemaining := by
              intro hOn
              by_contra hLate
              exact hByte ⟨hOn, fun _ => Nat.le_of_not_lt hLate⟩
            have hLong : s.ackRemaining ≤ s.longest := by
              simp [longest, hAck]
            rw [firstIrq_ack hAck hBefore] at hFirst
            split at hFirst
            · have := Option.some.inj hFirst
              omega
            · obtain ⟨t', hNext, rfl⟩ := Option.map_eq_some_iff.mp hFirst
              have hBound := ih hNext
              have hPass : (s.pass s.ackRemaining).fireAck.longest ≤
                  s.longest - s.ackRemaining := by
                obtain ⟨hActive, hNoAck, hRemaining, -⟩ := fireAck_line (s.pass s.ackRemaining)
                rw [longest, hActive, hNoAck, hRemaining]
                simp only [Sio.pass, longest]
                grind
              omega

/-- The advances short of the distance raise no interrupt where the first one
does not come before it. -/
theorem quiet_iff {iMask : Word} (hStill : s.advancing = none) (hMask : iMask.getLsbD 7 = true)
    (hTiming : s.timingActive = true) (hShift : s.shiftRemaining < 2 ^ 31)
    (hAck : s.ackRemaining < 2 ^ 31) :
    (∀ k < s.cyclesToIrq iMask, ¬ s.RaisesIrq P k) ↔
      ∀ t, s.firstIrq P 6 = some t → s.cyclesToIrq iMask ≤ t + 1 := by
  have hDistance := cyclesToIrq_eq hMask hTiming hShift hAck
  refine ⟨fun h t hFirst => ?_, fun h k hLess hRaises => ?_⟩
  · by_contra hEarly
    have hRange : t + 1 < 2 ^ 31 := by
      have hBound := firstIrq_le hFirst
      by_cases hSome : s.pendingAck = true ∧ 0 < s.ackRemaining ∨
          s.shiftActive = true ∧ 0 < s.shiftRemaining
      · have hFinite : s.cyclesToIrq iMask < 2 ^ 31 := by
          rw [hDistance]
          grind
        omega
      · have hNone : s.longest = 0 := by
          unfold longest
          grind
        rw [hNone] at hBound
        have hTimes : 6 * sioBaudCycles = 6528 := rfl
        omega
    exact h (t + 1) (by omega) ((raisesIrq_iff hStill hRange).mpr ⟨hTiming, t, hFirst, by omega⟩)
  · rcases Nat.lt_or_ge k (2 ^ 31) with hShort | hLong
    · obtain ⟨-, t, hFirst, hBefore⟩ := (raisesIrq_iff hStill hShort).mp hRaises
      have := h t hFirst
      omega
    · have hWord : s.cyclesToIrq iMask ≤ 2 ^ 32 - 1 := cyclesToIrq_le
      exact not_raisesIrq_of_le hStill hLong (by omega) hRaises

/-- A finite distance is one of a countdown, and an advance by it comes to an
event only where another countdown has been left at zero. -/
theorem fires_iff_due {iMask : Word} (hMask : iMask.getLsbD 7 = true)
    (hTiming : s.timingActive = true) (hShift : s.shiftRemaining < 2 ^ 31)
    (hAck : s.ackRemaining < 2 ^ 31) (hFinite : s.cyclesToIrq iMask ≠ noDistance) :
    s.Fires (s.cyclesToIrq iMask) ↔ s.Due := by
  have hDistance := cyclesToIrq_eq hMask hTiming hShift hAck
  have hTime : 0 < s.cyclesToIrq iMask := by
    rw [hDistance] at hFinite ⊢
    unfold noDistance at hFinite ⊢
    grind
  rw [Fires, nextEvent_eq hTime, Due]
  grind

/-- The event of the distance comes one cycle behind it. -/
theorem fires_behind {iMask : Word} (hMask : iMask.getLsbD 7 = true)
    (hTiming : s.timingActive = true) (hShift : s.shiftRemaining < 2 ^ 31)
    (hAck : s.ackRemaining < 2 ^ 31) (hFinite : s.cyclesToIrq iMask ≠ noDistance) :
    s.Fires (s.cyclesToIrq iMask + 1) := by
  have hDistance := cyclesToIrq_eq hMask hTiming hShift hAck
  rw [Fires, nextEvent_eq (Nat.succ_pos _)]
  grind

/-- Nothing is due before the distance ends, and no interrupt comes up to it. -/
theorem quiet_of_not_due {iMask : Word} (hMask : iMask.getLsbD 7 = true)
    (hTiming : s.timingActive = true) (hShift : s.shiftRemaining < 2 ^ 31)
    (hAck : s.ackRemaining < 2 ^ 31) (hNotDue : ¬ s.Due)
    (hFinite : s.cyclesToIrq iMask ≠ noDistance) {k : Nat} (hLess : k ≤ s.cyclesToIrq iMask) :
    ¬ s.Fires k := by
  have hDistance := cyclesToIrq_eq hMask hTiming hShift hAck
  rintro ⟨-, hTime, hEvent⟩
  rw [nextEvent_eq hTime] at hEvent
  unfold Due at hNotDue
  grind

/-- The part of the condition for the states with something under way. -/
theorem distanceHolds_timed {iMask : Word} (hStill : s.advancing = none)
    (hMask : iMask.getLsbD 7 = true) (hTiming : s.timingActive = true)
    (hShift : s.shiftRemaining < 2 ^ 31) (hAck : s.ackRemaining < 2 ^ 31) :
    s.DistanceHolds P iMask ↔
      (s.shiftActive = false ∧ s.pendingAck = false) ∨ (s.Due ∧ s.DueQuietly P) := by
  have hQuiet := quiet_iff (P := P) hStill hMask hTiming hShift hAck
  have hDistance := cyclesToIrq_eq hMask hTiming hShift hAck
  by_cases hDue : s.Due
  · have hFires : s.cyclesToIrq iMask ≠ noDistance → s.Fires (s.cyclesToIrq iMask) :=
      fun hFinite => (fires_iff_due hMask hTiming hShift hAck hFinite).mpr hDue
    rw [dueQuietly_iff hMask hTiming hShift hAck hDue] at hQuiet
    have hBusy : ¬ (s.shiftActive = false ∧ s.pendingAck = false) := by
      rintro ⟨hNoShift, hNoAck⟩
      rcases hDue with ⟨hOn, -⟩ | ⟨hOn, -⟩
      · exact Bool.noConfusion (hNoShift.symm.trans hOn)
      · exact Bool.noConfusion (hNoAck.symm.trans hOn)
    refine ⟨fun h => .inr ⟨hDue, hQuiet.mp fun k hLess => h.1 k hLess hMask⟩, fun h => ?_⟩
    exact ⟨fun k hLess _ => hQuiet.mpr (h.resolve_left hBusy).2 k hLess, hFires⟩
  · refine ⟨fun h => .inl ?_, fun h => ?_⟩
    · -- Something under way makes the distance finite, and nothing is due.
      have hInfinite : s.cyclesToIrq iMask = noDistance := by
        by_contra hFinite
        exact hDue ((fires_iff_due hMask hTiming hShift hAck hFinite).mp (h.2 hFinite))
      rw [hDistance] at hInfinite
      unfold noDistance at hInfinite
      unfold Due at hDue
      grind
    · obtain ⟨hNoShift, hNoAck⟩ := h.resolve_right fun h => hDue h.1
      have hInfinite : s.cyclesToIrq iMask = noDistance := by
        rw [hDistance, if_neg (by simp [hNoAck]), if_neg (by simp [hNoShift])]
      refine ⟨fun k hLess _ => hQuiet.mpr ?_ k hLess, fun h => absurd hInfinite h⟩
      intro t hFirst
      rw [firstIrq_nothing hNoShift hNoAck] at hFirst
      simp at hFirst

/-- The port is advanced by parts as by their sum in every state, and its distance
is right in no state with something under way that is not due. -/
theorem sio_advance_and_distance_iff (P : PadDevice σ) (s : Sio σ) (iMask : Word)
    (hStill : s.advancing = none) (hShift : s.shiftRemaining < 2 ^ 31)
    (hAck : s.ackRemaining < 2 ^ 31) :
    ((∀ a b, a + b < 2 ^ 31 → s.elapse P (a + b) = (s.elapse P a).elapse P b) ∧
      s.DistanceHolds P iMask) ↔ s.DistanceRight P iMask := by
  refine (and_iff_right fun a b hSum => elapse_add hStill hSum).trans ?_
  rw [DistanceRight]
  cases hMask : iMask.getLsbD 7 with
  | false =>
      refine iff_of_true ⟨fun _ _ h => absurd (hMask.symm.trans h) Bool.false_ne_true,
        fun h => absurd (cyclesToIrq_of_masked hMask) h⟩ (.inl rfl)
  | true =>
      rw [or_iff_right (show ¬ true = false from Bool.noConfusion)]
      cases hTiming : s.timingActive with
      | false =>
          refine iff_of_true ⟨fun k hLess _ hRaises => ?_, fun h => absurd ?_ h⟩ (.inl rfl)
          · rcases Nat.lt_or_ge k (2 ^ 31) with hShort | hLong
            · have hTimed := ((raisesIrq_iff hStill hShort).mp hRaises).1
              exact Bool.noConfusion (hTiming.symm.trans hTimed)
            · have hWord := Nat.lt_of_lt_of_le hLess cyclesToIrq_le
              exact not_raisesIrq_of_le hStill hLong (hWord.trans (by decide)) hRaises
          · unfold cyclesToIrq
            simp [hTiming, noDistance]
      | true =>
          rw [or_iff_right (show ¬ true = false from Bool.noConfusion)]
          exact distanceHolds_timed hStill hMask hTiming hShift hAck

/-- A port with two cards. The acknowledge of the first byte, which raises no
interrupt, is due while the second byte is shifted. -/
def dueAck : Sio Unit :=
  ([SioEvent.ctrl 0x0003, .tx 0x81, .tx 0x52].foldl (sioStep ackingPads)
    (.initial (fun _ => ⟨true, fun _ => 0xFF⟩) ())).elapse ackingPads 1258

theorem sio_advance_and_distance_iff_due :
    dueAck.cyclesToIrq 0x80 = 918 ∧
    (∀ a b, a + b < 2 ^ 31 →
      dueAck.elapse ackingPads (a + b) = (dueAck.elapse ackingPads a).elapse ackingPads b) ∧
      dueAck.DistanceHolds ackingPads 0x80 := by
  refine ⟨by decide, (sio_advance_and_distance_iff ackingPads dueAck 0x80 (by decide) (by decide)
    (by decide)).mpr (.inr (.inr (.inr ⟨.inr (by decide), ?_⟩)))⟩
  rw [DueQuietly, if_neg (by decide)]
  intro hInterrupts
  exact absurd hInterrupts (by decide)

/-- The acknowledge of a pad comes 1258 cycles behind the byte, and the advance by
that time comes to no event. -/
theorem padByte_not_fires :
    ¬ ([SioEvent.ctrl 0x1003, .tx 0x01].foldl (sioStep ackingPads) emptyPort).DistanceHolds
      ackingPads 0x80 := by
  rintro ⟨-, hFires⟩
  exact absurd (hFires (by decide)).2.2 (by decide)

end RecompStudio.Runtime
