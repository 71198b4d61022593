import RecompStudio.Runtime.Sio

/-!
The line of the serial port: a byte that is written while nothing is under way,
with time behind it for the shift and the acknowledge, is given to the devices
once and leaves nothing under way.
-/

namespace RecompStudio.Runtime

/-- The registers and the clock as the guest and the host use them: an advance
is a whole call of `sio_advance`. -/
inductive SioOp where
  | tx (b : Byte)
  | ctrl (v : BitVec 16)
  | mode (v : BitVec 16)
  | baud (v : BitVec 16)
  | readRx
  | readStat
  | advance (cycles : Word)

/-- The steps of an operation. The loop of `sio_advance` makes at most eight
transitions. -/
def SioOp.events : SioOp → List SioEvent
  | .tx b => [.tx b]
  | .ctrl v => [.ctrl v]
  | .mode v => [.mode v]
  | .baud v => [.baud v]
  | .readRx => [.readRx]
  | .readStat => [.readStat]
  | .advance cycles => .advance cycles :: List.replicate 9 .iterate

variable {σ : Type}

def sioOp (P : PadDevice σ) (s : Sio σ) (op : SioOp) : Sio σ := op.events.foldl (sioStep P) s

/-- The time that passes in an operation. -/
def SioOp.cycles : SioOp → Nat
  | .advance cycles => if cycles.toNat < 2 ^ 31 then cycles.toNat else 0
  | _ => 0

def gapCycles (gap : List SioOp) : Nat := (gap.map SioOp.cycles).sum

/-- Two control words that differ in nothing the bus depends on. -/
structure SameLine (v w : BitVec 16) : Prop where
  txEn : ctrlTxEn w = ctrlTxEn v
  select : ctrlSelect w = ctrlSelect v
  slot : ctrlSlot w = ctrlSlot v

/-- The operations between two bytes: the clock, reads, and writes that leave
TX enabled and the selection as it is. -/
def SioOp.Quiet (v : BitVec 16) : SioOp → Prop
  | .tx _ => False
  | .ctrl w => SameLine v w ∧ ctrlReset w = false
  | _ => True

/-- The byte goes to the pads at once. -/
def Sio.PadPath (s : Sio σ) (b : Byte) : Prop :=
  s.bus.active ≠ .memcard ∧ (s.bus.active = .pad ∨ s.owner = .pad ∨ b = 0x01)

/-- No byte waits behind the one in the shifter. The owner of the bus stands with
the number of bytes that have been written. -/
structure Held (v : BitVec 16) (owner : BusOwner × Nat) (s : Sio σ) : Prop where
  ctrl : SameLine v s.ctrl
  owner : (s.owner, s.byteIndex) = owner
  buffer : s.txBuffered = false

/-- Nothing is under way. -/
structure LineFree (v : BitVec 16) (owner : BusOwner × Nat) (s : Sio σ) : Prop
    extends Held v owner s where
  shift : s.shiftActive = false
  ack : s.pendingAck = false

/-- A byte and its acknowledge are over within some time: it is in the shifter
with the devices as they were, or the devices have it. -/
inductive UnderWay (v : BitVec 16) (owner : BusOwner × Nat) (before after : Bus σ) (b : Byte)
    (within : Nat) (s : Sio σ) : Prop where
  | shifting (hHeld : Held v owner s) (hShift : s.shiftActive = true) (hAck : s.pendingAck = false)
      (hTiming : s.timingActive = true) (hByte : s.shiftByte = b) (hBus : s.bus = before)
      (hWithin : s.shiftRemaining + (sioAckCycles + 1) ≤ within)
  | acking (hHeld : Held v owner s) (hShift : s.shiftActive = false) (hAck : s.pendingAck = true)
      (hTiming : s.timingActive = true) (hBus : s.bus = after)
      (hWithin : s.ackRemaining + 1 ≤ within)
  | ended (hFree : LineFree v owner s) (hBus : s.bus = after)

section Rounds

variable {P : PadDevice σ} {v : BitVec 16} {owner : BusOwner × Nat}
    {before after : Bus σ} {b : Byte}
  {within : Nat} {s : Sio σ} {m tr : Nat}

theorem nextEvent_shifting (hShift : s.shiftActive = true) (hAck : s.pendingAck = false)
    (hTime : 0 < m) :
    s.nextEvent m = if s.shiftRemaining < m then (s.shiftRemaining, .shift) else (m, .nothing) := by
  unfold Sio.nextEvent
  by_cases hZero : s.shiftRemaining = 0
  · simp [hShift, hZero, hTime]
  · by_cases hLess : s.shiftRemaining < m
    · simp [hShift, hAck, hZero, hLess]
    · simp [hShift, hAck, hZero, hLess]

theorem nextEvent_acking (hShift : s.shiftActive = false) (hAck : s.pendingAck = true)
    (hTime : 0 < m) :
    s.nextEvent m = if s.ackRemaining < m then (s.ackRemaining, .ack) else (m, .nothing) := by
  unfold Sio.nextEvent
  by_cases hZero : s.ackRemaining = 0
  · simp [hShift, hAck, hZero, hTime]
  · simp [hShift, hAck, hZero]

theorem nextEvent_free (hShift : s.shiftActive = false) (hAck : s.pendingAck = false) :
    s.nextEvent m = (m, .nothing) := by
  simp [Sio.nextEvent, hShift, hAck]

theorem iterate_eq {dt : Nat} {event : Sio.LineEvent} (hTurn : s.advancing = some (m, tr))
    (hTime : 0 < m) (hRoom : tr < 8) (hEvent : s.nextEvent m = (dt, event)) :
    s.iterate P =
      match event with
      | .shift => ((s.pass dt).shiftComplete P).setAdvancing (some (m - dt, tr + 1))
      | .ack => (s.pass dt).fireAck.setAdvancing (some (m - dt, tr + 1))
      | .nothing => (s.pass dt).setAdvancing none := by
  have hGuard : ¬(m = 0 ∨ 8 ≤ tr) := by omega
  simp only [Sio.iterate, hTurn, if_neg hGuard, hEvent]
  cases event <;> rfl

theorem sioStep_iterate (s : Sio σ) : sioStep P s .iterate = s.iterate P := by
  simp [sioStep, SioEvent.isIterate, Sio.apply]

theorem sioStep_still (hStill : s.advancing = none) (e : SioEvent) :
    sioStep P s e = s.apply P e := by
  simp [sioStep, hStill]

theorem iterate_still (hStill : s.advancing = none) : s.iterate P = s := by
  simp [Sio.iterate, hStill]

/-- Rounds that are made in a row. -/
def rounds (P : PadDevice σ) (n : Nat) (s : Sio σ) : Sio σ :=
  (List.replicate n SioEvent.iterate).foldl (sioStep P) s

theorem rounds_succ (n : Nat) : rounds P (n + 1) s = rounds P n (s.iterate P) := by
  unfold rounds
  rw [List.replicate_succ, List.foldl_cons, sioStep_iterate]

theorem rounds_still (hStill : s.advancing = none) (n : Nat) : rounds P n s = s := by
  induction n with
  | zero => rfl
  | succ n ih => rw [rounds_succ, iterate_still hStill, ih]

theorem Held.pass (h : Held v owner s) (dt : Nat) : Held v owner (s.pass dt) :=
  ⟨h.ctrl, h.owner, h.buffer⟩

theorem Held.setAdvancing (h : Held v owner s) (a : Option (Nat × Nat)) :
    Held v owner (s.setAdvancing a) :=
  ⟨h.ctrl, h.owner, h.buffer⟩

theorem LineFree.setAdvancing (h : LineFree v owner s) (a : Option (Nat × Nat)) :
    LineFree v owner (s.setAdvancing a) :=
  ⟨h.toHeld.setAdvancing a, h.shift, h.ack⟩

theorem UnderWay.setAdvancing (h : UnderWay v owner before after b within s)
    (a : Option (Nat × Nat)) : UnderWay v owner before after b within (s.setAdvancing a) := by
  cases h with
  | shifting hHeld hShift hAck hTiming hByte hBus hWithin =>
      exact .shifting (hHeld.setAdvancing a) hShift hAck hTiming hByte hBus hWithin
  | acking hHeld hShift hAck hTiming hBus hWithin =>
      exact .acking (hHeld.setAdvancing a) hShift hAck hTiming hBus hWithin
  | ended hFree hBus => exact .ended (hFree.setAdvancing a) hBus

theorem LineFree.settle (h : LineFree v owner s) : LineFree v owner s.settle := by
  unfold Sio.settle
  split
  · exact ⟨⟨h.ctrl, h.owner, h.buffer⟩, h.shift, h.ack⟩
  · exact h

theorem settle_bus (s : Sio σ) : s.settle.bus = s.bus := by
  unfold Sio.settle
  split <;> rfl

/-- The end of a shift with no byte behind it. -/
theorem shiftComplete_underWay (hHeld : Held v owner s) (hAck : s.pendingAck = false)
    (hTiming : s.timingActive = true)
    (hAfter : (s.bus.processByte P (ctrlSlot s.ctrl) s.shiftByte).1 = after) :
    UnderWay v owner before after b (sioAckCycles + 1) (s.shiftComplete P) ∧
      (s.shiftComplete P).shiftActive = false := by
  have hHeldEx : Held v owner (s.exchange P s.shiftByte) := ⟨hHeld.ctrl, hHeld.owner, hHeld.buffer⟩
  have hBusEx : (s.exchange P s.shiftByte).bus = after := hAfter
  have hAckEx : (s.exchange P s.shiftByte).pendingAck = false := hAck
  have hTimingEx : (s.exchange P s.shiftByte).timingActive = true := hTiming
  unfold Sio.shiftComplete
  generalize s.exchange P s.shiftByte = u at *
  cases hAcked : u.stat.ack with
  | true =>
      have hSettle : u.endShift.promote.settle = u.endShift.promote := by
        simp [Sio.settle, Sio.promote, Sio.endShift, hAcked, hHeldEx.buffer]
      rw [hSettle]
      refine ⟨.acking ⟨?_, ?_, ?_⟩ ?_ ?_ ?_ ?_ ?_, ?_⟩ <;>
        simp [Sio.promote, Sio.endShift, hAcked, hHeldEx.buffer, hHeldEx.ctrl, hHeldEx.owner,
          hTimingEx, hBusEx]
  | false =>
      have hFree : LineFree v owner u.endShift.promote := by
        refine ⟨⟨?_, ?_, ?_⟩, ?_, ?_⟩ <;>
          simp [Sio.promote, Sio.endShift, hAcked, hHeldEx.buffer, hHeldEx.ctrl, hHeldEx.owner,
            hAckEx]
      refine ⟨.ended hFree.settle ((settle_bus _).trans ?_), hFree.settle.shift⟩
      simp [Sio.promote, Sio.endShift, hAcked, hHeldEx.buffer, hBusEx]

theorem fireAck_free (hHeld : Held v owner s) (hShift : s.shiftActive = false) :
    LineFree v owner s.fireAck ∧ s.fireAck.bus = s.bus := by
  unfold Sio.fireAck
  dsimp only
  split
  · exact ⟨LineFree.settle ⟨⟨hHeld.ctrl, hHeld.owner, hHeld.buffer⟩, hShift, rfl⟩, settle_bus _⟩
  · exact ⟨⟨⟨hHeld.ctrl, hHeld.owner, hHeld.buffer⟩, hShift, rfl⟩, rfl⟩

/-- The transitions that are still to come. -/
def Sio.toCome (s : Sio σ) : Nat :=
  if s.shiftActive then 2 else if s.pendingAck then 1 else 0

theorem UnderWay.mono {within' : Nat} (h : UnderWay v owner before after b within s)
    (hLe : within ≤ within') : UnderWay v owner before after b within' s := by
  cases h with
  | shifting hHeld hShift hAck hTiming hByte hBus hWithin =>
      exact .shifting hHeld hShift hAck hTiming hByte hBus (hWithin.trans hLe)
  | acking hHeld hShift hAck hTiming hBus hWithin =>
      exact .acking hHeld hShift hAck hTiming hBus (hWithin.trans hLe)
  | ended hFree hBus => exact .ended hFree hBus

theorem UnderWay.pass (h : UnderWay v owner before after b within s)
    (hShift : s.shiftActive = true → m ≤ s.shiftRemaining)
    (hAck : s.pendingAck = true → m ≤ s.ackRemaining) :
    UnderWay v owner before after b (within - m) (s.pass m) := by
  cases h with
  | shifting hHeld hShifting hNoAck hTiming hByte hBus hWithin =>
      refine .shifting (hHeld.pass m) hShifting hNoAck hTiming hByte hBus ?_
      have hLe := hShift hShifting
      simp only [Sio.pass, hShifting, if_true]
      omega
  | acking hHeld hNoShift hAcking hTiming hBus hWithin =>
      refine .acking (hHeld.pass m) hNoShift hAcking hTiming hBus ?_
      have hLe := hAck hAcking
      simp only [Sio.pass, hAcking, if_true]
      omega
  | ended hFree hBus => exact .ended ⟨hFree.toHeld.pass m, hFree.shift, hFree.ack⟩ hBus

/-- A round ends the advance, or it comes to the next transition with the time
that is left. -/
theorem iterate_underWay (h : UnderWay v owner before after b within s)
    (hAfter : (before.processByte P (ctrlSlot v) b).1 = after)
    (hTurn : s.advancing = some (m, tr)) (hTime : 0 < m) (hRoom : tr < 8) :
    (UnderWay v owner before after b (within - m) (s.iterate P) ∧
      (s.iterate P).advancing = none) ∨
    ∃ left, 0 < left ∧ left ≤ m ∧ (s.iterate P).advancing = some (left, tr + 1) ∧
      (s.iterate P).toCome < s.toCome ∧
      UnderWay v owner before after b (within - (m - left)) (s.iterate P) := by
  have hQuiet (hEvent : s.nextEvent m = (m, .nothing))
      (hShift : s.shiftActive = true → m ≤ s.shiftRemaining)
      (hAck : s.pendingAck = true → m ≤ s.ackRemaining) :
      UnderWay v owner before after b (within - m) (s.iterate P) ∧
        (s.iterate P).advancing = none := by
    rw [iterate_eq hTurn hTime hRoom hEvent]
    exact ⟨(h.pass hShift hAck).setAdvancing none, rfl⟩
  cases h with
  | shifting hHeld hShift hAck hTiming hByte hBus hWithin =>
      have hEvent := nextEvent_shifting hShift hAck hTime
      by_cases hLess : s.shiftRemaining < m
      · rw [if_pos hLess] at hEvent
        obtain ⟨hDone, hEnded⟩ : UnderWay v owner before after b (sioAckCycles + 1)
            ((s.pass s.shiftRemaining).shiftComplete P) ∧
            ((s.pass s.shiftRemaining).shiftComplete P).shiftActive = false := by
          refine shiftComplete_underWay (hHeld.pass _) hAck hTiming ?_
          have hSlot : ctrlSlot s.ctrl = ctrlSlot v := hHeld.ctrl.slot
          change (s.bus.processByte P (ctrlSlot s.ctrl) s.shiftByte).1 = after
          rw [hBus, hSlot, hByte]
          exact hAfter
        rw [iterate_eq hTurn hTime hRoom hEvent]
        refine .inr ⟨m - s.shiftRemaining, by omega, Nat.sub_le _ _, rfl, ?_, ?_⟩
        · have hCome : s.toCome = 2 := by simp [Sio.toCome, hShift]
          rw [hCome]
          simp only [Sio.toCome, Sio.setAdvancing, hEnded, Bool.false_eq_true, if_false]
          split <;> omega
        · exact (hDone.mono (by omega)).setAdvancing _
      · rw [if_neg hLess] at hEvent
        exact .inl (hQuiet hEvent (fun _ => by omega) (by simp [hAck]))
  | acking hHeld hShift hAck hTiming hBus hWithin =>
      have hEvent := nextEvent_acking hShift hAck hTime
      by_cases hLess : s.ackRemaining < m
      · rw [if_pos hLess] at hEvent
        obtain ⟨hFree, hSame⟩ := fireAck_free (hHeld.pass s.ackRemaining) hShift
        rw [iterate_eq hTurn hTime hRoom hEvent]
        refine .inr ⟨m - s.ackRemaining, by omega, Nat.sub_le _ _, rfl, ?_, ?_⟩
        · simp [Sio.toCome, Sio.setAdvancing, hShift, hAck, hFree.shift, hFree.ack]
        · exact .ended (hFree.setAdvancing _) (hSame.trans hBus)
      · rw [if_neg hLess] at hEvent
        exact .inl (hQuiet hEvent (by simp [hShift]) (fun _ => by omega))
  | ended hFree hBus =>
      refine .inl (hQuiet (nextEvent_free hFree.shift hFree.ack) ?_ ?_)
      · simp [hFree.shift]
      · simp [hFree.ack]

/-- A whole advance takes its time off what a byte under way still needs. -/
theorem rounds_underWay (hAfter : (before.processByte P (ctrlSlot v) b).1 = after) (n : Nat) :
    ∀ {s : Sio σ} {within m tr : Nat}, UnderWay v owner before after b within s →
      s.advancing = some (m, tr) → 0 < m → tr + s.toCome < 8 → s.toCome < n →
      UnderWay v owner before after b (within - m) (rounds P n s) ∧
        (rounds P n s).advancing = none := by
  induction n with
  | zero => intro s within m tr _ _ _ _ hRounds; omega
  | succ n ih =>
      intro s within m tr h hTurn hTime hRoom hRounds
      rw [rounds_succ]
      rcases iterate_underWay h hAfter hTurn hTime (by omega) with
        ⟨hDone, hStill⟩ | ⟨left, hLeft, hLe, hNext, hCome, hDone⟩
      · rw [rounds_still hStill]
        exact ⟨hDone, hStill⟩
      · have hRest := ih hDone hNext hLeft (by omega) (by omega)
        rwa [Nat.sub_sub, Nat.sub_add_cancel hLe] at hRest

end Rounds

section Exchange

variable {P : PadDevice σ} {v : BitVec 16} {owner : BusOwner × Nat}
    {before after : Bus σ} {b : Byte}
  {within : Nat} {s t : Sio σ}

/-- A state that differs in nothing a byte under way depends on. -/
theorem UnderWay.congr (h : UnderWay v owner before after b within s)
    (hCtrl : SameLine v t.ctrl) (hOwner : (t.owner, t.byteIndex) = (s.owner, s.byteIndex))
    (hBuffer : t.txBuffered = s.txBuffered)
    (hShift : t.shiftActive = s.shiftActive) (hAck : t.pendingAck = s.pendingAck)
    (hTiming : t.timingActive = s.timingActive) (hByte : t.shiftByte = s.shiftByte)
    (hBus : t.bus = s.bus) (hShiftLeft : t.shiftRemaining = s.shiftRemaining)
    (hAckLeft : t.ackRemaining = s.ackRemaining) :
    UnderWay v owner before after b within t := by
  have hHeld (hs : Held v owner s) : Held v owner t :=
    ⟨hCtrl, hOwner.trans hs.owner, hBuffer.trans hs.buffer⟩
  cases h with
  | shifting hs hShifting hNoAck hTimed hIs hBefore hWithin =>
      exact .shifting (hHeld hs) (hShift.trans hShifting) (hAck.trans hNoAck) (hTiming.trans hTimed)
        (hByte.trans hIs) (hBus.trans hBefore) (hShiftLeft ▸ hWithin)
  | acking hs hNoShift hAcking hTimed hAfter hWithin =>
      exact .acking (hHeld hs) (hShift.trans hNoShift) (hAck.trans hAcking) (hTiming.trans hTimed)
        (hBus.trans hAfter) (hAckLeft ▸ hWithin)
  | ended hs hAfter =>
      exact .ended ⟨hHeld hs.toHeld, hShift.trans hs.shift, hAck.trans hs.ack⟩ (hBus.trans hAfter)

/-- A write to SIO_CTRL that keeps the line as it is. -/
theorem ctrlWrite_sameLine {w : BitVec 16} (hCtrl : SameLine v s.ctrl) (hSame : SameLine v w)
    (hReset : ctrlReset w = false) :
    s.ctrlWrite P w = ({ s with ctrl := w } : Sio σ).ackBits w := by
  have hTx : ctrlTxEn w = ctrlTxEn s.ctrl := hSame.txEn.trans hCtrl.txEn.symm
  have hSelect : ctrlSelect w = ctrlSelect s.ctrl := hSame.select.trans hCtrl.select.symm
  simp [Sio.ctrlWrite, Sio.resetPort, Sio.assertSelect, Sio.disableTx, Sio.deassertSelect, hReset,
    hTx, hSelect]

theorem UnderWay.ctrl (h : UnderWay v owner before after b within s) : SameLine v s.ctrl := by
  cases h with
  | shifting hHeld => exact hHeld.ctrl
  | acking hHeld => exact hHeld.ctrl
  | ended hFree => exact hFree.ctrl

theorem sioOp_underWay {op : SioOp} (h : UnderWay v owner before after b within s)
    (hAfter : (before.processByte P (ctrlSlot v) b).1 = after) (hStill : s.advancing = none)
    (hQuiet : op.Quiet v) :
    UnderWay v owner before after b (within - op.cycles) (sioOp P s op) ∧
      (sioOp P s op).advancing = none := by
  cases op with
  | tx b => exact hQuiet.elim
  | ctrl w =>
      have hStep : sioOp P s (.ctrl w) = ({ s with ctrl := w } : Sio σ).ackBits w := by
        rw [← ctrlWrite_sameLine (P := P) h.ctrl hQuiet.1 hQuiet.2]
        exact sioStep_still hStill _
      rw [hStep]
      unfold Sio.ackBits
      split
      · exact ⟨h.congr hQuiet.1 rfl rfl rfl rfl rfl rfl rfl rfl rfl, hStill⟩
      · exact ⟨h.congr hQuiet.1 rfl rfl rfl rfl rfl rfl rfl rfl rfl, hStill⟩
  | mode w =>
      have hStep : sioOp P s (.mode w) = { s with mode := w } :=
        sioStep_still hStill _
      rw [hStep]
      exact ⟨h.congr h.ctrl rfl rfl rfl rfl rfl rfl rfl rfl rfl, hStill⟩
  | baud w =>
      have hStep : sioOp P s (.baud w) = { s with baud := w } :=
        sioStep_still hStill _
      rw [hStep]
      exact ⟨h.congr h.ctrl rfl rfl rfl rfl rfl rfl rfl rfl rfl, hStill⟩
  | readRx =>
      have hStep : sioOp P s .readRx = s.rxRead :=
        sioStep_still hStill _
      rw [hStep]
      exact ⟨h.congr h.ctrl rfl rfl rfl rfl rfl rfl rfl rfl rfl, hStill⟩
  | readStat =>
      have hStep : sioOp P s .readStat = s.statRead :=
        sioStep_still hStill _
      rw [hStep]
      unfold Sio.statRead
      split
      · exact ⟨h.congr h.ctrl rfl rfl rfl rfl rfl rfl rfl rfl rfl, hStill⟩
      · exact ⟨h.congr h.ctrl rfl rfl rfl rfl rfl rfl rfl rfl rfl, hStill⟩
  | advance cycles =>
      have hStep : sioOp P s (.advance cycles) = rounds P 9 (s.advance cycles) := by
        change rounds P 9 (sioStep P s (.advance cycles)) = _
        rw [sioStep_still hStill]
        rfl
      rw [hStep]
      by_cases hIdle : cycles.toNat = 0 ∨ 2 ^ 31 ≤ cycles.toNat
      · have hSame : s.advance cycles = s := if_pos (hIdle.elim .inl fun h => .inr (.inl h))
        have hNone : SioOp.cycles (.advance cycles) = 0 := by
          simp only [SioOp.cycles]
          split <;> omega
        rw [hSame, rounds_still hStill, hNone]
        exact ⟨h, hStill⟩
      · have hCycles : SioOp.cycles (.advance cycles) = cycles.toNat := by
          simp only [SioOp.cycles]
          split <;> omega
        rw [hCycles]
        cases hTiming : s.timingActive with
        | true =>
            have hTurn : s.advance cycles = s.setAdvancing (some (cycles.toNat, 0)) := by
              unfold Sio.advance
              rw [if_neg]
              simp only [hTiming, Bool.not_true, Bool.false_eq_true, or_false]
              exact hIdle
            rw [hTurn]
            refine rounds_underWay hAfter 9 (h.setAdvancing _) rfl (by omega) ?_ ?_
            · unfold Sio.toCome
              split
              · omega
              · split <;> omega
            · unfold Sio.toCome
              split
              · omega
              · split <;> omega
        | false =>
            have hSame : s.advance cycles = s := by simp [Sio.advance, hTiming]
            rw [hSame, rounds_still hStill]
            refine ⟨?_, hStill⟩
            cases h with
            | shifting _ _ _ hTimed => rw [hTiming] at hTimed; exact absurd hTimed (by simp)
            | acking _ _ _ hTimed => rw [hTiming] at hTimed; exact absurd hTimed (by simp)
            | ended hFree hBus => exact .ended hFree hBus

theorem gap_underWay (hAfter : (before.processByte P (ctrlSlot v) b).1 = after)
    (gap : List SioOp) :
    ∀ {s : Sio σ} {within : Nat}, UnderWay v owner before after b within s → s.advancing = none →
      (∀ op ∈ gap, op.Quiet v) →
      UnderWay v owner before after b (within - gapCycles gap) (gap.foldl (sioOp P) s) ∧
        (gap.foldl (sioOp P) s).advancing = none := by
  induction gap with
  | nil => intro s within h hStill _; exact ⟨h, hStill⟩
  | cons op rest ih =>
      intro s within h hStill hQuiet
      obtain ⟨hNext, hNextStill⟩ := sioOp_underWay h hAfter hStill (hQuiet op List.mem_cons_self)
      have hRest := ih hNext hNextStill fun op hOp => hQuiet op (List.mem_cons_of_mem _ hOp)
      rw [Nat.sub_sub] at hRest
      exact hRest

/-- The owner behind a byte. -/
def ownerBehind (owner : BusOwner × Nat) (b : Byte) : BusOwner × Nat :=
  (if owner.2 = 0 then (if b = 0x81 then .card else if b = 0x01 then .pad else .unknown)
    else owner.1, (owner.2 + 1) % 2 ^ 32)

/-- The byte that is written while nothing is under way goes into the shifter. -/
theorem txWrite_underWay (hFree : LineFree v owner s) (hEnabled : ctrlTxEn v = true)
    (hPath : ¬s.PadPath b) :
    UnderWay v (ownerBehind owner b) s.bus after b (sioBaudCycles + (sioAckCycles + 1))
        (s.txWrite P b) ∧
      (s.txWrite P b).advancing = s.advancing := by
  have hTx : ctrlTxEn s.ctrl = true := hFree.ctrl.txEn.trans hEnabled
  have hStep : s.txWrite P b = s.shiftPath b := by
    unfold Sio.txWrite
    unfold Sio.PadPath at hPath
    rw [hTx, if_neg (by simp), if_neg hPath]
  rw [hStep, ← hFree.owner]
  refine ⟨.shifting ⟨?_, ?_, ?_⟩ ?_ ?_ ?_ ?_ ?_ ?_, ?_⟩ <;>
    simp [Sio.shiftPath, ownerBehind, hFree.shift, hFree.ctrl, hFree.buffer, hFree.ack]

/-- A byte that is written while nothing is under way, with the time for its
shift and its acknowledge behind it, is given to the devices once. -/
theorem byte_exchanged (hFree : LineFree v owner s) (hStill : s.advancing = none)
    (hEnabled : ctrlTxEn v = true) (hPath : ¬s.PadPath b) (gap : List SioOp)
    (hQuiet : ∀ op ∈ gap, op.Quiet v)
    (hTime : sioBaudCycles + (sioAckCycles + 1) ≤ gapCycles gap) :
    LineFree v (ownerBehind owner b) (gap.foldl (sioOp P) (sioOp P s (.tx b))) ∧
      (gap.foldl (sioOp P) (sioOp P s (.tx b))).advancing = none ∧
      (gap.foldl (sioOp P) (sioOp P s (.tx b))).bus =
        (s.bus.processByte P (ctrlSlot v) b).1 := by
  have hStep : sioOp P s (.tx b) = s.txWrite P b := sioStep_still hStill _
  obtain ⟨hWritten, hAdvancing⟩ := txWrite_underWay (P := P) hFree hEnabled hPath
  obtain ⟨hDone, hDoneStill⟩ := gap_underWay rfl gap hWritten (hAdvancing.trans hStill) hQuiet
  rw [hStep]
  rw [Nat.sub_eq_zero_of_le hTime] at hDone
  cases hDone with
  | shifting _ _ _ _ _ _ hWithin => omega
  | acking _ _ _ _ _ hWithin => omega
  | ended hOver hBus => exact ⟨hOver, hDoneStill, hBus⟩

end Exchange

/-- A transaction: bytes, each with the operations behind it. The bytes received
are what SIO_RX_DATA holds then. -/
def transact (P : PadDevice σ) (s : Sio σ) : List (Byte × List SioOp) → Sio σ × List Byte
  | [] => (s, [])
  | (b, gap) :: rest =>
      let t := gap.foldl (sioOp P) (sioOp P s (.tx b))
      ((transact P t rest).1, t.bus.rx :: (transact P t rest).2)

/-- The steps of operations one after the other. -/
def opEvents (ops : List SioOp) : List SioEvent := ops.flatMap SioOp.events

theorem foldl_sioOp (P : PadDevice σ) (s : Sio σ) (ops : List SioOp) :
    ops.foldl (sioOp P) s = (opEvents ops).foldl (sioStep P) s := by
  induction ops generalizing s with
  | nil => rfl
  | cons op rest ih =>
      rw [List.foldl_cons, ih, opEvents, opEvents, List.flatMap_cons, List.foldl_append]
      rfl

/-- The steps of a transaction. -/
def transactEvents (bytes : List (Byte × List SioOp)) : List SioEvent :=
  bytes.flatMap fun x => .tx x.1 :: opEvents x.2

theorem transact_fst (P : PadDevice σ) (s : Sio σ) (bytes : List (Byte × List SioOp)) :
    (transact P s bytes).1 = (transactEvents bytes).foldl (sioStep P) s := by
  induction bytes generalizing s with
  | nil => rfl
  | cons x rest ih =>
      obtain ⟨b, gap⟩ := x
      rw [transact, ih, foldl_sioOp, transactEvents, transactEvents, List.flatMap_cons,
        List.foldl_append]
      rfl

/-- The operations behind each byte leave the selection alone and the time for
the byte. -/
def Paced (v : BitVec 16) (bytes : List (Byte × List SioOp)) : Prop :=
  ∀ x ∈ bytes, (∀ op ∈ x.2, op.Quiet v) ∧ sioBaudCycles + (sioAckCycles + 1) ≤ gapCycles x.2

/-- Bytes given to the devices one after the other. -/
def Bus.feed (P : PadDevice σ) (k : Slot) (s : Bus σ) (bytes : List Byte) : Bus σ :=
  bytes.foldl (fun s b => (s.processByte P k b).1) s

/-- What each of them leaves to be read. -/
@[grind =] def Bus.replies (P : PadDevice σ) (k : Slot) : Bus σ → List Byte → List Byte
  | _, [] => []
  | s, b :: rest => (s.processByte P k b).1.rx :: (s.processByte P k b).1.replies P k rest

/-- No byte of the row goes to the pads. -/
@[grind =] def Bus.OffPads (P : PadDevice σ) (k : Slot) : Bus σ → List Byte → Prop
  | _, [] => True
  | s, b :: rest => (s.active = .memcard ∨ (s.active = .none ∧ b ≠ 0x01)) ∧
      (s.processByte P k b).1.OffPads P k rest

theorem transact_eq_feed {P : PadDevice σ} {v : BitVec 16} (hEnabled : ctrlTxEn v = true)
    (bytes : List (Byte × List SioOp)) :
    ∀ {s : Sio σ} {owner : BusOwner × Nat}, LineFree v owner s → s.advancing = none →
      owner.1 ≠ .pad → (owner.2 = 0 → ∀ b ∈ (bytes.map Prod.fst).head?, b ≠ 0x01) →
      owner.2 + bytes.length < 2 ^ 32 → Paced v bytes →
      s.bus.OffPads P (ctrlSlot v) (bytes.map Prod.fst) →
      (∃ owner', LineFree v owner' (transact P s bytes).1) ∧
        (transact P s bytes).1.advancing = none ∧
        (transact P s bytes).1.bus = s.bus.feed P (ctrlSlot v) (bytes.map Prod.fst) ∧
        (transact P s bytes).2 = s.bus.replies P (ctrlSlot v) (bytes.map Prod.fst) := by
  induction bytes with
  | nil => intro s owner hFree hStill _ _ _ _ _; exact ⟨⟨owner, hFree⟩, hStill, rfl, rfl⟩
  | cons x rest ih =>
      intro s owner hFree hStill hOwner hFirst hCount hPaced hOff
      obtain ⟨b, gap⟩ := x
      obtain ⟨hQuiet, hTime⟩ := hPaced _ List.mem_cons_self
      obtain ⟨hHere, hRestOff⟩ := hOff
      have hOwnerIs : s.owner = owner.1 := congrArg Prod.fst hFree.owner
      have hPath : ¬s.PadPath b := by
        rintro ⟨hNotCard, hPad⟩
        rcases hHere with hCard | ⟨hNone, hByte⟩
        · exact hNotCard hCard
        · rcases hPad with hPad | hPad | hPad
          · rw [hNone] at hPad; exact absurd hPad (by simp)
          · exact hOwner (hOwnerIs ▸ hPad)
          · exact hByte hPad
      obtain ⟨hNext, hNextStill, hBus⟩ :=
        byte_exchanged (P := P) hFree hStill hEnabled hPath gap hQuiet hTime
      have hLength : owner.2 + (rest.length + 1) < 2 ^ 32 := hCount
      have hIndex : (ownerBehind owner b).2 = owner.2 + 1 := Nat.mod_eq_of_lt (by omega)
      have hNextOwner : (ownerBehind owner b).1 ≠ .pad := by
        simp only [ownerBehind]
        by_cases hZero : owner.2 = 0
        · rw [if_pos hZero]
          have hByte : b ≠ 0x01 := hFirst hZero b rfl
          rw [if_neg hByte]
          split <;> simp
        · rw [if_neg hZero]
          exact hOwner
      have hRest := ih hNext hNextStill hNextOwner (fun hZero => by omega) (by omega)
        (fun y hy => hPaced y (List.mem_cons_of_mem _ hy)) (by rw [hBus]; exact hRestOff)
      rw [hBus] at hRest
      obtain ⟨hRestFree, hRestStill, hRestBus, hRestReplies⟩ := hRest
      refine ⟨hRestFree, hRestStill, hRestBus, ?_⟩
      simp only [transact, List.map_cons, Bus.replies, hBus, hRestReplies]

/-- What a byte to the card leaves alone. -/
theorem mcProcessByte_frame (s : Bus σ) (b : Byte) :
    (s.mcProcessByte b).1.slots = s.slots ∧ (s.mcProcessByte b).1.active = s.active ∧
      (s.mcProcessByte b).1.selectedSlot = s.selectedSlot ∧
      (s.mcProcessByte b).1.taken = s.taken ∧
      (s.mc.state ≠ .idle → (s.mcProcessByte b).1.mcSlot = s.mcSlot) ∧
      (s.mc.state ≠ .writeChk → (s.mcProcessByte b).1.cards = s.cards) := by
  unfold Bus.mcProcessByte
  cases hState : s.mc.state with
  | idle =>
      dsimp only
      split <;> exact ⟨rfl, rfl, rfl, rfl, fun h => absurd rfl h, fun _ => rfl⟩
  | cmd =>
      dsimp only
      split <;> exact ⟨rfl, rfl, rfl, rfl, fun _ => rfl, fun _ => rfl⟩
  | addrLsb =>
      dsimp only [Bus.address]
      split <;> exact ⟨rfl, rfl, rfl, rfl, fun _ => rfl, fun _ => rfl⟩
  | writeChk =>
      dsimp only [Bus.commit]
      split
      · exact ⟨rfl, rfl, rfl, rfl, fun _ => rfl, fun h => absurd rfl h⟩
      · split <;> exact ⟨rfl, rfl, rfl, rfl, fun _ => rfl, fun h => absurd rfl h⟩
  | _ => exact ⟨rfl, rfl, rfl, rfl, fun _ => rfl, fun _ => rfl⟩

end RecompStudio.Runtime
