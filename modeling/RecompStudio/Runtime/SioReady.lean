import RecompStudio.Runtime.SioTime
import RecompStudio.Library.Machine

/-!
What a driver can poll for: a port with nothing under way that says that it can
take a byte, and a clock that runs while something is under way.
-/

namespace RecompStudio.Runtime

open Machine

variable {σ : Type}

/-- Whoever waits for TX_RDY and TX_EMPTY waits for something that is still to
come, and the time it takes is passing. -/
structure Sio.Pollable (s : Sio σ) : Prop where
  ready : s.shiftActive = false → s.txBuffered = false → s.pendingAck = false →
    s.stat.txRdy = true ∧ s.stat.txEmpty = true
  timed : s.shiftActive = true ∨ s.pendingAck = true → s.timingActive = true

/-- The round under way ends with the acknowledge. -/
def Sio.ackDone (s : Sio σ) : Bool :=
  match s.advancing with
  | some (m, tr) => m ≠ 0 && tr < 8 && (s.nextEvent m).2 = .ack
  | none => false

/-- A byte takes the pad path of a write to TX. -/
def Sio.TakesPadPath (s : Sio σ) (b : Byte) : Prop :=
  s.bus.active ≠ .memcard ∧ (s.bus.active = .pad ∨ s.owner = .pad ∨ b = 0x01)

instance (s : Sio σ) (b : Byte) : Decidable (s.TakesPadPath b) :=
  inferInstanceAs (Decidable (_ ∧ _))

/-- The pad path arms the acknowledge of a byte: the pad answers it, and the
interrupt of the acknowledge is enabled. -/
def Sio.armsPadAck (P : PadDevice σ) (s : Sio σ) (b : Byte) : Bool :=
  (s.stat.ack || (s.bus.processByte P (ctrlSlot s.ctrl) b).2.ack) && ctrlAckIrqEn s.ctrl

/-- Whether the acknowledge under way is still one that the pad path has armed.
A byte that is written behind it, a reset, the end of TX or of the selection, and
the end of the acknowledge end this. -/
def Sio.padAckBehind (P : PadDevice σ) (s : Sio σ) (padAck : Bool) : SioEvent → Bool
  | .tx b =>
      if !ctrlTxEn s.ctrl then padAck
      else if s.TakesPadPath b then s.armsPadAck P b
      else false
  | .ctrl v =>
      padAck && !ctrlReset v && !(ctrlTxEn s.ctrl && !ctrlTxEn v) &&
        !(ctrlSelect s.ctrl && !ctrlSelect v)
  | .iterate => padAck && !s.ackDone
  | _ => padAck

/-- The port, and whether the acknowledge under way is the pad path's. -/
structure AckWatch (σ : Type) where
  port : Sio σ
  padAck : Bool

def AckWatch.step (P : PadDevice σ) (w : AckWatch σ) (e : SioEvent) : AckWatch σ where
  port := sioStep P w.port e
  padAck :=
    if w.port.advancing.isSome && !e.isIterate then w.padAck
    else w.port.padAckBehind P w.padAck e

/-- No acknowledge of the pad path comes to its end. -/
def AckNotPads (w : AckWatch σ) (e : SioEvent) : Prop :=
  e = .iterate → w.port.ackDone = true → w.padAck = false

/-- The invariant. A byte waits only behind another one, and outside an
acknowledge of the pad path an empty shifter is shown as ready. -/
structure Sio.LineReady (s : Sio σ) (padAck : Bool) : Prop where
  ready : padAck = false → s.shiftActive = false → s.stat.txRdy = true ∧ s.stat.txEmpty = true
  timed : s.shiftActive = true ∨ s.pendingAck = true → s.timingActive = true
  buffer : s.txBuffered = true → s.shiftActive = true
  armed : padAck = true → s.pendingAck = true ∧ s.shiftActive = false ∧ s.stat.txRdy = false

section Steps

variable {P : PadDevice σ} {s t : Sio σ} {padAck : Bool}

open Sio

theorem Sio.LineReady.pollable (h : s.LineReady padAck) : s.Pollable where
  ready hShift _ hAck := by
    refine h.ready ?_ hShift
    by_contra hPad
    have hOn := (h.armed (Bool.eq_true_of_not_eq_false hPad)).1
    exact Bool.noConfusion (hAck.symm.trans hOn)
  timed := h.timed

/-- While a byte is shifted, or without an acknowledge, none of the pad path is
under way. -/
theorem Sio.LineReady.padAck_of_shift (h : s.LineReady padAck) (hShift : s.shiftActive = true) :
    padAck = false := by
  by_contra hPad
  have hOff := (h.armed (Bool.eq_true_of_not_eq_false hPad)).2.1
  exact Bool.noConfusion (hShift.symm.trans hOff)

theorem Sio.LineReady.padAck_of_noAck (h : s.LineReady padAck) (hAck : s.pendingAck = false) :
    padAck = false := by
  by_contra hPad
  have hOn := (h.armed (Bool.eq_true_of_not_eq_false hPad)).1
  exact Bool.noConfusion (hAck.symm.trans hOn)

theorem Sio.LineReady.congr (h : s.LineReady padAck) (hShift : t.shiftActive = s.shiftActive)
    (hBuffer : t.txBuffered = s.txBuffered) (hAck : t.pendingAck = s.pendingAck)
    (hTiming : t.timingActive = s.timingActive) (hRdy : t.stat.txRdy = s.stat.txRdy)
    (hEmpty : t.stat.txEmpty = s.stat.txEmpty) : t.LineReady padAck := by
  refine ⟨?_, ?_, ?_, ?_⟩
  · rw [hShift, hRdy, hEmpty]
    exact h.ready
  · rw [hShift, hAck, hTiming]
    exact h.timed
  · rw [hShift, hBuffer]
    exact h.buffer
  · rw [hAck, hShift, hRdy]
    exact h.armed

theorem Sio.LineReady.ofIdle (hShift : t.shiftActive = false) (hBuffer : t.txBuffered = false)
    (hAck : t.pendingAck = false) (hRdy : t.stat.txRdy = true) (hEmpty : t.stat.txEmpty = true) :
    t.LineReady false := by
  refine ⟨fun _ _ => ⟨hRdy, hEmpty⟩, fun hPending => ?_, fun hOn => ?_, fun hOn => ?_⟩
  · rcases hPending with hOn | hOn
    · exact Bool.noConfusion (hShift.symm.trans hOn)
    · exact Bool.noConfusion (hAck.symm.trans hOn)
  · exact Bool.noConfusion (hBuffer.symm.trans hOn)
  · exact Bool.noConfusion hOn

/-- The next byte is in the shifter. -/
theorem Sio.LineReady.ofShift (hShift : t.shiftActive = true) (hTiming : t.timingActive = true) :
    t.LineReady false :=
  ⟨fun _ hOff => Bool.noConfusion (hShift.symm.trans hOff), fun _ => hTiming, fun _ => hShift,
    fun hOn => Bool.noConfusion hOn⟩

theorem padFastPath_ready (b : Byte) : (s.padFastPath P b).LineReady (s.armsPadAck P b) := by
  unfold padFastPath
  dsimp only
  split
  · rename_i hArms
    have hArmed : s.armsPadAck P b = true := by
      rw [armsPadAck, Bool.and_eq_true]
      exact hArms
    rw [hArmed]
    exact ⟨fun hOff => Bool.noConfusion hOff, fun _ => rfl, fun hOn => Bool.noConfusion hOn,
      fun _ => ⟨rfl, rfl, rfl⟩⟩
  · rename_i hArms
    have hArmed : s.armsPadAck P b = false := by
      rw [armsPadAck, ← Bool.not_eq_true, Bool.and_eq_true]
      exact hArms
    rw [hArmed]
    exact .ofIdle rfl rfl rfl rfl rfl

theorem shiftPath_ready (h : s.LineReady padAck) (b : Byte) : (s.shiftPath b).LineReady false := by
  unfold shiftPath
  dsimp only
  split
  · exact .ofShift rfl rfl
  · rename_i hOn
    have hShift : s.shiftActive = true := by simpa using hOn
    split <;> exact .ofShift hShift (h.timed (.inl hShift))

theorem ctrlWrite_ready (h : s.LineReady padAck) (v : BitVec 16) :
    (s.ctrlWrite P v).LineReady (s.padAckBehind P padAck (.ctrl v)) := by
  have hAcked : (({ s with ctrl := v } : Sio σ).ackBits v).LineReady padAck := by
    unfold ackBits
    split <;> exact h.congr rfl rfl rfl rfl rfl rfl
  have hReset {u : Sio σ} {g : Bool} (h : u.LineReady g) :
      (u.resetPort P v).LineReady (g && !ctrlReset v) := by
    unfold resetPort
    split
    · rename_i hOn
      rw [hOn, Bool.not_true, Bool.and_false]
      exact .ofIdle rfl rfl rfl rfl rfl
    · rename_i hOff
      rw [Bool.eq_false_of_not_eq_true hOff, Bool.not_false, Bool.and_true]
      exact h
  have hAssert {u : Sio σ} {g : Bool} (h : u.LineReady g) :
      (u.assertSelect s.ctrl v).LineReady g := by
    unfold assertSelect
    split
    · exact h.congr rfl rfl rfl rfl rfl rfl
    · exact h
  have hDisable {u : Sio σ} {g : Bool} (h : u.LineReady g) :
      (u.disableTx s.ctrl v).LineReady (g && !(ctrlTxEn s.ctrl && !ctrlTxEn v)) := by
    unfold disableTx
    split
    · rename_i hOn
      simp only [Bool.and_eq_true] at hOn
      rw [hOn.1.1, hOn.1.2, Bool.and_self, Bool.not_true, Bool.and_false]
      dsimp only
      split <;> exact .ofIdle rfl rfl rfl rfl rfl
    · rename_i hOff
      cases hEnd : (ctrlTxEn s.ctrl && !ctrlTxEn v) with
      | false => rwa [Bool.not_false, Bool.and_true]
      | true =>
          -- Without a byte or an acknowledge under way there is none to clear.
          have hAck : u.pendingAck = false := by
            rw [hEnd, Bool.true_and, Bool.or_eq_true, not_or] at hOff
            exact Bool.eq_false_of_not_eq_true hOff.2
          obtain rfl := h.padAck_of_noAck hAck
          exact h
  have hDeassert {u : Sio σ} {g : Bool} (h : u.LineReady g) :
      (u.deassertSelect P s.ctrl v).LineReady (g && !(ctrlSelect s.ctrl && !ctrlSelect v)) := by
    unfold deassertSelect
    split
    · rename_i hOn
      rw [hOn, Bool.not_true, Bool.and_false]
      exact .ofIdle rfl rfl rfl rfl rfl
    · rename_i hOff
      rw [Bool.eq_false_of_not_eq_true hOff, Bool.not_false, Bool.and_true]
      exact h
  exact hDeassert (hDisable (hAssert (hReset hAcked)))

theorem pass_ready (h : s.LineReady padAck) (dt : Nat) : (s.pass dt).LineReady padAck :=
  h.congr rfl rfl rfl rfl rfl rfl

theorem settle_ready (h : s.LineReady false) : s.settle.LineReady false := by
  unfold settle
  split
  · rename_i hIdle
    simp only [Bool.and_eq_true, Bool.not_eq_true'] at hIdle
    obtain ⟨⟨hShift, hBuffer⟩, hAck⟩ := hIdle
    obtain ⟨hRdy, hEmpty⟩ := h.ready rfl hShift
    exact .ofIdle hShift hBuffer hAck hRdy hEmpty
  · exact h

/-- The end of a byte leaves the port ready, or the next byte in the shifter. -/
theorem shiftComplete_ready (h : s.LineReady padAck) (hShift : s.shiftActive = true) :
    (s.shiftComplete P).LineReady false := by
  apply settle_ready
  have hTiming : (s.exchange P s.shiftByte).timingActive = true := h.timed (.inl hShift)
  generalize s.exchange P s.shiftByte = u at hTiming ⊢
  have hEnded : u.endShift.timingActive = true := by
    unfold endShift
    dsimp only
    split <;> exact hTiming
  generalize u.endShift = w at hEnded
  unfold promote
  split
  · exact .ofShift rfl hEnded
  · rename_i hBuffer
    exact ⟨fun _ _ => ⟨rfl, rfl⟩, fun _ => hEnded, fun hOn => absurd hOn hBuffer,
      fun hOn => Bool.noConfusion hOn⟩

theorem fireAck_txBuffered : s.fireAck.txBuffered = s.txBuffered := by
  unfold fireAck settle
  dsimp only
  split
  · split <;> rfl
  · rfl

theorem fireAck_pendingAck : s.fireAck.pendingAck = false := by
  unfold fireAck settle
  dsimp only
  split
  · split <;> rfl
  · rfl

theorem fireAck_txRdy : s.fireAck.stat.txRdy = s.stat.txRdy := by
  unfold fireAck settle
  dsimp only
  split
  · split <;> rfl
  · rfl

/-- An acknowledge leaves the transmitter's bits as they are. -/
theorem fireAck_ready (h : s.LineReady false) (hAck : s.pendingAck = true) :
    s.fireAck.LineReady false := by
  have hFired : ({ s with
      pendingAck := false
      stat := { s.stat with ack := true }
      ackVisibleReads := 2
      pendingAckIrqEn := false } : Sio σ).LineReady false :=
    ⟨h.ready, fun _ => h.timed (.inr hAck), h.buffer, fun hOn => Bool.noConfusion hOn⟩
  unfold fireAck
  dsimp only
  split
  · exact settle_ready (hFired.congr rfl rfl rfl rfl rfl rfl)
  · exact hFired

theorem iterate_ready (h : s.LineReady padAck) (hPad : s.ackDone = true → padAck = false) :
    (s.iterate P).LineReady (padAck && !s.ackDone) := by
  cases hTurn : s.advancing with
  | none =>
      have hDone : s.ackDone = false := by simp [ackDone, hTurn]
      rwa [iterate_still hTurn, hDone, Bool.not_false, Bool.and_true]
  | some turn =>
      obtain ⟨m, tr⟩ := turn
      by_cases hOver : m = 0 ∨ 8 ≤ tr
      · have hDone : s.ackDone = false := by
          simp only [ackDone, hTurn, Bool.and_eq_false_iff, decide_eq_false_iff_not]
          omega
        simp only [iterate, hTurn, if_pos hOver, hDone, Bool.not_false, Bool.and_true]
        exact h.congr rfl rfl rfl rfl rfl rfl
      · obtain ⟨⟨dt, event⟩, hEvent⟩ : ∃ next, s.nextEvent m = next := ⟨_, rfl⟩
        have hTime : 0 < m := by omega
        have hRoom : tr < 8 := by omega
        have hDone : s.ackDone = decide (event = .ack) := by
          simp [ackDone, hTurn, hEvent, hTime.ne', hRoom]
        rw [iterate_eq hTurn hTime hRoom hEvent]
        have hPass := pass_ready h dt
        cases event with
        | shift =>
            have hShift := (nextEvent_shift hTime hEvent).1
            rw [h.padAck_of_shift hShift, Bool.false_and]
            exact (shiftComplete_ready hPass hShift).congr rfl rfl rfl rfl rfl rfl
        | ack =>
            have hAck := (nextEvent_ack hTime hEvent).1
            obtain rfl := hPad hDone
            exact (fireAck_ready hPass hAck).congr rfl rfl rfl rfl rfl rfl
        | nothing =>
            rw [hDone]
            simp only [reduceCtorEq, decide_false, Bool.not_false, Bool.and_true]
            exact hPass.congr rfl rfl rfl rfl rfl rfl

/-- Behind an acknowledge of the pad path nothing is under way, and TX_RDY is
clear. -/
theorem iterate_not_pollable (h : s.LineReady true) (hDone : s.ackDone = true) :
    ¬ (s.iterate P).Pollable := by
  intro hPollable
  obtain ⟨-, hShift, hRdy⟩ := h.armed rfl
  have hBuffer : s.txBuffered = false := by
    by_contra hOn
    exact Bool.noConfusion (hShift.symm.trans (h.buffer (Bool.eq_true_of_not_eq_false hOn)))
  unfold ackDone at hDone
  split at hDone
  · rename_i m tr hTurn
    simp only [Bool.and_eq_true, decide_eq_true_eq, ne_eq] at hDone
    obtain ⟨⟨hTime, hRoom⟩, hEvent⟩ := hDone
    obtain ⟨⟨dt, event⟩, hNext⟩ : ∃ next, s.nextEvent m = next := ⟨_, rfl⟩
    rw [hNext] at hEvent
    dsimp only at hEvent
    subst hEvent
    rw [iterate_eq hTurn (by omega) hRoom hNext] at hPollable
    have hEnd := hPollable.ready ((fireAck_shiftActive (s.pass dt)).trans hShift)
      ((fireAck_txBuffered (s := s.pass dt)).trans hBuffer) fireAck_pendingAck
    have hStill : (s.pass dt).fireAck.stat.txRdy = false := fireAck_txRdy.trans hRdy
    exact Bool.noConfusion (hStill.symm.trans hEnd.1)
  · exact Bool.noConfusion hDone

theorem apply_ready (h : s.LineReady padAck) (e : SioEvent)
    (hPad : e = .iterate → s.ackDone = true → padAck = false) :
    (s.apply P e).LineReady (s.padAckBehind P padAck e) := by
  cases e with
  | tx b =>
      dsimp only [apply, txWrite, padAckBehind]
      split
      · exact h
      · split
        · rename_i hPath
          rw [if_pos (show s.TakesPadPath b from hPath)]
          exact padFastPath_ready b
        · rename_i hPath
          rw [if_neg (show ¬ s.TakesPadPath b from hPath)]
          exact shiftPath_ready h b
  | ctrl v => exact ctrlWrite_ready h v
  | mode v => exact h.congr rfl rfl rfl rfl rfl rfl
  | baud v => exact h.congr rfl rfl rfl rfl rfl rfl
  | readRx => exact h.congr rfl rfl rfl rfl rfl rfl
  | readStat =>
      dsimp only [apply, statRead]
      split <;> exact h.congr rfl rfl rfl rfl rfl rfl
  | advance cycles =>
      dsimp only [apply, advance]
      split
      · exact h
      · exact h.congr rfl rfl rfl rfl rfl rfl
  | iterate => exact iterate_ready h (hPad rfl)

theorem step_ready {w : AckWatch σ} (h : w.port.LineReady w.padAck) (e : SioEvent)
    (hPad : AckNotPads w e) : (w.step P e).port.LineReady (w.step P e).padAck := by
  dsimp only [AckWatch.step, sioStep]
  split
  · exact h
  · exact apply_ready h e hPad

theorem ackNotPads_of_pollable {w : AckWatch σ} (h : w.port.LineReady w.padAck) (e : SioEvent)
    (hPollable : (w.step P e).port.Pollable) : AckNotPads w e := by
  rintro rfl hDone
  by_contra hPad
  rw [Bool.not_eq_false] at hPad
  rw [hPad] at h
  refine iterate_not_pollable (P := P) h hDone ?_
  rwa [← sioStep_iterate]

end Steps

/-- From `sio_init` the port is pollable in every state of a run if and only if
no acknowledge that the pad path has armed comes to its end. -/
theorem sio_pollable_iff (P : PadDevice σ) (cards : Slot → Card) (pad : σ) (es : List SioEvent) :
    Along (sioStep P) Sio.Pollable (.initial cards pad) es ↔
      RunOk (AckWatch.step P) AckNotPads ⟨.initial cards pad, false⟩ es := by
  have hStart : (Sio.initial cards pad).LineReady false := .ofIdle rfl rfl rfl rfl rfl
  have hHolds : ∀ w : AckWatch σ, w.port.LineReady w.padAck → w.port.Pollable :=
    fun _ h => h.pollable
  have hKept : ∀ (w : AckWatch σ) e, w.port.LineReady w.padAck → AckNotPads w e →
      (w.step P e).port.LineReady (w.step P e).padAck := fun _ e h hPad => step_ready h e hPad
  have hLost : ∀ (w : AckWatch σ) e, w.port.LineReady w.padAck → (w.step P e).port.Pollable →
      AckNotPads w e := fun _ e h hPollable => ackNotPads_of_pollable h e hPollable
  have hPort : ∀ (w : AckWatch σ) e, (w.step P e).port = sioStep P w.port e := fun _ _ => rfl
  exact (along_map AckWatch.port hPort ⟨_, false⟩ es).symm.trans
    (along_iff_runOk hHolds hKept hLost hStart es)

/-- Pads that acknowledge their first byte, as a connected pad does. -/
def ackingPads : PadDevice Unit := ⟨fun s _ _ => (s, 0xFF, true), id⟩

def emptyPort : Sio Unit := .initial (fun _ => ⟨false, fun _ => 0xFF⟩) ()

/-- TX, SELECT and the acknowledge interrupt are enabled, a pad is addressed, and
its acknowledge comes. -/
def padProbe : List SioEvent := [.ctrl 0x1003, .tx 0x01, .advance 1300, .iterate, .iterate]

/-- Behind the acknowledge of a pad nothing is under way, and TX_RDY stays
clear. -/
theorem padProbe_not_pollable : ¬ Along (sioStep ackingPads) Sio.Pollable emptyPort padProbe := by
  intro h
  have hEnd : (padProbe.foldl (sioStep ackingPads) emptyPort).Pollable := h.last
  have hReady := hEnd.ready (by decide) (by decide) (by decide)
  exact absurd hReady.1 (by decide)

end RecompStudio.Runtime
