import RecompStudio.Runtime.Pads
import RecompStudio.Runtime.SioLine
import RecompStudio.Library.Machine

/-!
The transactions of the pads, as they show on the bus: the bytes that a pad sends
and acknowledges from the access byte on, whatever the host does to it between
two of them.
-/

namespace RecompStudio.Runtime

open Machine

/-- A transaction that has begun: the pad, whether it was in configuration mode
then, the command, the bytes sent behind it, and the acknowledges from the access
byte on. -/
structure PadTransaction where
  slot : Slot
  inConfig : Bool
  command : Option Byte
  sent : List Byte
  acks : Nat

/-- The bytes behind the access byte, as the ID says. -/
def frameBytes (id : Byte) : Nat := 2 + 2 * (id &&& 0x0F).toNat

/-- The commands 0x44 to 0x4F. -/
def IsConfigCommand (cmd : Byte) : Prop := 0x44 ≤ cmd.toNat ∧ cmd.toNat ≤ 0x4F

/-- The bus with the transaction under way and those that have been answered to
their end. -/
structure PadWatch where
  bus : Bus Pads
  current : Option PadTransaction
  ended : List PadTransaction

/-- A byte with the reply of the bus. An acknowledge begins a transaction and goes
on with it, and a byte without one is the last of it. -/
@[grind =]
def PadWatch.record (w : PadWatch) (b : Byte) (after : Bus Pads) (reply : Reply) : PadWatch :=
  if after.active ≠ .pad then { w with bus := after }
  else match w.current with
    | none =>
        { w with
          bus := after
          current := if reply.ack then
              some ⟨after.selectedSlot, (w.bus.pad.slots after.selectedSlot).inConfig, none, [], 1⟩
            else none }
    | some t =>
        if t.command.isNone then
          { w with
            bus := after
            current := if reply.ack then
                some { t with command := some b, sent := [after.rx], acks := t.acks + 1 }
              else none }
        else if reply.ack then
          { w with
            bus := after
            current := some { t with sent := t.sent ++ [after.rx], acks := t.acks + 1 } }
        else
          { bus := after
            current := none
            ended := w.ended ++ [{ t with sent := t.sent ++ [after.rx] }] }

/-- What comes to the pads: the bytes of the bus, the end of SELECT and the reset
of the port, and between them the host. -/
inductive PadEvent where
  | byte (slot : Slot) (b : Byte)
  | host (h : PadHost)
  | deselect
  | reset

@[grind =] def padStep (w : PadWatch) : PadEvent → PadWatch
  | .byte slot b =>
      w.record b (w.bus.processByte padDevice slot b).1 (w.bus.processByte padDevice slot b).2
  | .host h => { w with bus := { w.bus with pad := w.bus.pad.host h } }
  | .deselect => { w with bus := w.bus.deselect padDevice, current := none }
  | .reset => { w with bus := w.bus.reset padDevice, current := none }

/-- A transaction that has been answered sends and acknowledges as many bytes as
its ID says. -/
def PadTransaction.Complete (t : PadTransaction) : Prop :=
  ∃ id rest, t.sent = id :: rest ∧ t.sent.length = frameBytes id ∧ t.acks = frameBytes id

/-- The commands of the configuration mode are answered only in it. -/
def PadTransaction.ConfigAnswered (t : PadTransaction) : Prop :=
  ∀ cmd, t.command = some cmd → IsConfigCommand cmd → t.inConfig = true

/-- The pads have the access byte of a transaction. -/
structure Accessed (s : Bus Pads) (t : PadTransaction) : Prop where
  active : s.active = .pad
  state : s.pad.state = .waitAccess
  slot : t.slot = s.selectedSlot
  inConfig : t.inConfig = (s.pad.slots s.selectedSlot).inConfig
  command : t.command = none
  sent : t.sent = []
  acks : t.acks = 1

/-- The pads are sending the answer to a command. -/
structure Answering (s : Bus Pads) (t : PadTransaction) : Prop where
  active : s.active = .pad
  state : s.pad.state = .sendResponse
  slot : t.slot = s.selectedSlot
  command : t.command = some s.pad.currentCmd
  sent : t.sent = s.pad.response.take s.pad.responseIdx
  acks : t.acks = s.pad.responseIdx + 1
  len : s.pad.responseLen = s.pad.response.length
  frame : ∃ id rest, s.pad.response = id :: rest ∧ s.pad.responseLen = frameBytes id
  started : 0 < s.pad.responseIdx
  idx : s.pad.responseIdx < s.pad.responseLen
  config : s.pad.legacyCfg = false → IsConfigCommand s.pad.currentCmd →
    t.inConfig = true ∧ (s.pad.slots s.selectedSlot).inConfig = true

/-- The transaction under way, as the pads have it. -/
def Watched (s : Bus Pads) : Option PadTransaction → Prop
  | none => s.pad.state = .idle
  | some t => Accessed s t ∨ Answering s t

/-- The states of a run: the transaction under way is the one of the pads, and
those that have ended were coherent. -/
structure WatchOk (legacyCfg : Bool) (w : PadWatch) : Prop where
  legacy : w.bus.pad.legacyCfg = legacyCfg
  current : Watched w.bus w.current
  ended : ∀ t ∈ w.ended, t.Complete ∧ (legacyCfg = false → t.ConfigAnswered)

/-- The ID of a pad goes from one type to the other. -/
def TypeFlips (p q : PadSlot) : Prop :=
  p.curId = 0x41 ∧ q.curId = 0x73 ∨ p.curId = 0x73 ∧ q.curId = 0x41

/-- A step leaves the transaction under way as it has begun. The type that a pad
reports changes only between transactions, and the host changes it neither in
configuration mode nor while it is locked. -/
structure PadSteady (before after : PadWatch) : Prop where
  kept : ∀ t t', before.current = some t → after.current = some t' →
    t'.slot = t.slot ∧ t'.inConfig = t.inConfig ∧ t.sent <+: t'.sent ∧
      (t.command ≠ none → t'.command = t.command ∧
        after.bus.pad.responseLen = before.bus.pad.responseLen)
  reported : ∀ k, TypeFlips (before.bus.pad.slots k) (after.bus.pad.slots k) →
    before.current = none
  requested : ∀ k, (after.bus.pad.slots k).analog ≠ (before.bus.pad.slots k).analog →
    (before.current = none ∧ (before.bus.pad.slots k).inConfig = false ∧
      (before.bus.pad.slots k).analogModeLocked = false ∧
      (before.bus.pad.slots k).typeReq = some (after.bus.pad.slots k).analog) ∨
    ∃ t, before.current = some t ∧ t.slot = k ∧ t.command = some 0x44 ∧
      (before.bus.pad.slots k).inConfig = true

section Bytes

variable {σ : Type} {P : PadDevice σ}

theorem mcProcessByte_pad (s : Bus σ) (b : Byte) : (s.mcProcessByte b).1.pad = s.pad := by
  have hAddress : (s.address b).pad = s.pad := by
    unfold Bus.address
    dsimp only
    split <;> rfl
  have hCommit : (s.commit b).pad = s.pad := by
    unfold Bus.commit
    dsimp only
    split
    · rfl
    · split <;> rfl
  unfold Bus.mcProcessByte
  split <;> first
    | rfl
    | exact hAddress
    | exact hCommit
    | (dsimp only; split <;> rfl)

theorem toCard_pads {s u : Bus σ} {b : Byte} (hPad : u.pad = s.pad) (hCard : u.active = .memcard) :
    (u.toCard b).1.active ≠ .pad ∧ (u.toCard b).1.pad = s.pad := by
  refine ⟨fun hActive => ?_, (mcProcessByte_pad u b).trans hPad⟩
  have hSame : (u.toCard b).1.active = u.active := (mcProcessByte_frame u b).2.1
  exact ActiveDevice.noConfusion ((hCard.symm.trans hSame.symm).trans hActive)

/-- A byte of the bus goes to the pad of the selected slot, which is another one
than before only if no pad was active; or it leaves the pads alone. -/
theorem processByte_pads (s : Bus σ) (slot : Slot) (b : Byte) :
    (∃ u : Bus σ, u.pad = s.pad ∧ (s.active = .pad → u.selectedSlot = s.selectedSlot) ∧
      s.processByte P slot b = u.toPad P b) ∨
    (s.active ≠ .pad ∧ (s.processByte P slot b).1.active ≠ .pad ∧
      (s.processByte P slot b).1.pad = s.pad) := by
  unfold Bus.processByte
  dsimp only
  cases hActive : s.active with
  | pad =>
      exact .inl ⟨{ s with active := .pad, taken := s.taken ++ [(slot, b)] }, rfl,
        fun _ => rfl, rfl⟩
  | none =>
      dsimp only
      unfold Bus.select
      dsimp only
      by_cases hAccess : b = 0x01
      · rw [if_pos hAccess]
        refine .inl ⟨_, ?_, fun h => ActiveDevice.noConfusion h, rfl⟩
        split <;> rfl
      · rw [if_neg hAccess]
        refine .inr ⟨ActiveDevice.noConfusion, ?_⟩
        split
        · exact toCard_pads rfl rfl
        · split
          · exact toCard_pads rfl rfl
          · refine ⟨fun h => ?_, rfl⟩
            exact ActiveDevice.noConfusion (show ActiveDevice.none = .pad from h)
  | memcard =>
      dsimp only
      split
      · split
        · exact .inl ⟨{ s with
            active := .none, selectedSlot := slot, taken := s.taken ++ [(slot, b)] }, rfl,
            fun h => ActiveDevice.noConfusion h, rfl⟩
        · refine .inr ⟨ActiveDevice.noConfusion, fun h => ?_, rfl⟩
          exact ActiveDevice.noConfusion (show ActiveDevice.none = .pad from h)
      · exact .inr ⟨ActiveDevice.noConfusion, toCard_pads rfl rfl⟩

end Bytes

section Frames

variable {p : PadSlot} {legacyCfg : Bool} {cmd : Byte} {frame : List Byte}

theorem pollFrame_bytes (p : PadSlot) :
    ∃ rest, p.pollFrame = p.curId :: rest ∧ p.pollFrame.length = frameBytes p.curId := by
  refine ⟨_, rfl, ?_⟩
  unfold PadSlot.pollFrame PadSlot.curId
  cases p.inConfig <;> cases p.analog <;> rfl

theorem configFrame_bytes (p : PadSlot) (legacyCfg : Bool) :
    ∃ id rest, p.configFrame legacyCfg = id :: rest ∧
      (p.configFrame legacyCfg).length = frameBytes id := by
  unfold PadSlot.configFrame
  cases legacyCfg with
  | true => exact ⟨_, _, rfl, rfl⟩
  | false =>
      cases hConfig : p.inConfig with
      | false =>
          obtain ⟨rest, hFrame, hLength⟩ := pollFrame_bytes p
          exact ⟨_, rest, hFrame, hLength⟩
      | true =>
          have hId : p.curId = 0xF3 := by
            rw [PadSlot.curId, hConfig]
            rfl
          rw [hId]
          exact ⟨_, _, rfl, rfl⟩

theorem cannedFrame_bytes (p : PadSlot) (cmd : Byte) :
    ∃ id rest, p.cannedFrame cmd = id :: rest ∧ (p.cannedFrame cmd).length = frameBytes id := by
  unfold PadSlot.cannedFrame
  split
  · exact ⟨_, _, rfl, rfl⟩
  · split
    · exact ⟨_, _, rfl, rfl⟩
    · split
      · exact ⟨_, _, rfl, rfl⟩
      · split <;> exact ⟨_, _, rfl, rfl⟩

/-- An answer is as long as its ID says. -/
theorem answer_bytes (hAnswer : p.answer legacyCfg cmd = some frame) :
    ∃ id rest, frame = id :: rest ∧ frame.length = frameBytes id := by
  unfold PadSlot.answer at hAnswer
  dsimp only at hAnswer
  split at hAnswer
  · obtain rfl := Option.some.inj hAnswer
    obtain ⟨rest, hFrame, hLength⟩ := pollFrame_bytes p
    exact ⟨_, rest, hFrame, hLength⟩
  · split at hAnswer
    · obtain rfl := Option.some.inj hAnswer
      exact configFrame_bytes p legacyCfg
    · split at hAnswer
      · obtain rfl := Option.some.inj hAnswer
        exact cannedFrame_bytes p cmd
      · split at hAnswer
        · obtain rfl := Option.some.inj hAnswer
          exact cannedFrame_bytes p cmd
        · exact absurd hAnswer (Option.some_ne_none frame).symm

/-- The commands of the configuration mode have an answer only in it. -/
theorem answer_inConfig (hModern : legacyCfg = false) (hCommand : IsConfigCommand cmd)
    (hAnswer : p.answer legacyCfg cmd = some frame) : p.inConfig = true := by
  have hPoll : cmd ≠ 0x42 := by
    rintro rfl
    exact absurd hCommand.1 (by decide)
  have hEnter : cmd ≠ 0x43 := by
    rintro rfl
    exact absurd hCommand.1 (by decide)
  unfold PadSlot.answer at hAnswer
  dsimp only at hAnswer
  rw [if_neg hPoll, if_neg fun h => hEnter h.2, if_neg fun h => by simp [hModern] at h] at hAnswer
  split at hAnswer
  · rename_i hConfig
    exact hConfig.2.2.1
  · exact absurd hAnswer (Option.some_ne_none frame).symm

end Frames

section Steps

variable {s u : Bus Pads} {b : Byte}

theorem applyRequest_inConfig (p : PadSlot) : p.applyRequest.inConfig = p.inConfig := by
  unfold PadSlot.applyRequest
  split
  · split <;> rfl
  · rfl

/-- Only the command that enters and leaves the configuration mode changes it. -/
theorem latch_inConfig (p : PadSlot) (legacyCfg : Bool) {cmd : Byte} (hCmd : cmd ≠ 0x43)
    (idx : Nat) (b : Byte) : (p.latch legacyCfg cmd idx b).inConfig = p.inConfig := by
  unfold PadSlot.latch
  split
  · rfl
  · rw [if_neg fun h => hCmd h.1]
    split
    · rfl
    · split
      · split
        · rfl
        · split <;> rfl
      · rfl

theorem isConfigCommand_ne {cmd : Byte} (hCommand : IsConfigCommand cmd) : cmd ≠ 0x43 := by
  rintro rfl
  exact absurd hCommand.1 (by decide)

theorem toPad_eq {r : Pads × Byte × Bool} (hRun : u.pad.processByte u.selectedSlot b = r) :
    u.toPad padDevice b =
      ({ u with active := .pad, pad := r.1, rx := r.2.1 }, ⟨r.2.2, true⟩) := by
  rw [← hRun]
  rfl

/-- A byte to idle pads begins a transaction if it is acknowledged. -/
theorem access_watched (hIdle : u.pad.state = .idle) :
    let after := (u.toPad padDevice b).1
    ((u.toPad padDevice b).2.ack = true ∧
      Accessed after ⟨u.selectedSlot, (u.pad.slots u.selectedSlot).inConfig, none, [], 1⟩) ∨
    ((u.toPad padDevice b).2.ack = false ∧ after.pad.state = .idle) := by
  have hRun : u.pad.processByte u.selectedSlot b = u.pad.applyRequests.access u.selectedSlot b := by
    rw [Pads.processByte, hIdle]
  rw [toPad_eq hRun]
  unfold Pads.access
  split
  · exact .inl ⟨rfl, rfl, rfl, rfl, (applyRequest_inConfig _).symm, rfl, rfl, rfl⟩
  · exact .inr ⟨rfl, hIdle⟩

/-- A command byte is answered with an acknowledge, or ends the transaction. -/
theorem command_watched {t : PadTransaction} (h : Accessed s t) (hPad : u.pad = s.pad)
    (hSlot : u.selectedSlot = s.selectedSlot) :
    let after := (u.toPad padDevice b).1
    ((u.toPad padDevice b).2.ack = true ∧
      Answering after { t with command := some b, sent := [after.rx], acks := t.acks + 1 }) ∨
    ((u.toPad padDevice b).2.ack = false ∧ after.pad.state = .idle) := by
  have hRun : u.pad.processByte u.selectedSlot b = u.pad.command u.selectedSlot b := by
    rw [Pads.processByte, hPad, h.state]
  rw [toPad_eq hRun]
  unfold Pads.command
  dsimp only
  split
  · rename_i frame hAnswer
    obtain ⟨id, rest, rfl, hLength⟩ := answer_bytes hAnswer
    refine .inl ⟨rfl, rfl, rfl, h.slot.trans hSlot.symm, rfl, rfl, ?_, rfl,
      ⟨id, rest, rfl, hLength⟩,
      Nat.one_pos, ?_, fun hModern hCommand => ?_⟩
    · rw [h.acks]
    · change 1 < (id :: rest).length
      rw [hLength, frameBytes]
      omega
    · have hAnswered := answer_inConfig hModern hCommand hAnswer
      have hConfig : (u.pad.slots u.selectedSlot).inConfig = true := hAnswered
      refine ⟨?_, ?_⟩
      · rw [h.inConfig, ← hPad, ← hSlot]
        exact hConfig
      · change (if u.selectedSlot = u.selectedSlot then _ else _ : PadSlot).inConfig = true
        rw [if_pos rfl]
        exact hConfig
  · exact .inr ⟨rfl, rfl⟩

/-- A byte behind the command goes on with the answer, or ends it. -/
theorem respond_watched {t : PadTransaction} (h : Answering s t) (hPad : u.pad = s.pad)
    (hSlot : u.selectedSlot = s.selectedSlot) :
    let after := (u.toPad padDevice b).1
    ((u.toPad padDevice b).2.ack = true ∧
      Answering after { t with sent := t.sent ++ [after.rx], acks := t.acks + 1 }) ∨
    ((u.toPad padDevice b).2.ack = false ∧ after.pad.state = .idle ∧
      ({ t with sent := t.sent ++ [after.rx] } : PadTransaction).Complete) := by
  have hRun : u.pad.processByte u.selectedSlot b = u.pad.respond u.selectedSlot b := by
    rw [Pads.processByte, hPad, h.state]
  rw [toPad_eq hRun]
  obtain ⟨hActive, hState, hTxnSlot, hCommand, hSent, hAcks, hLen, ⟨id, rest, hResponse, hFrame⟩, -,
    hIdx, hConfig⟩ := h
  rw [← hPad] at hState hCommand hSent hAcks hLen hResponse hFrame hIdx hConfig
  rw [← hSlot] at hTxnSlot hConfig
  have hNext : t.sent ++ [u.pad.response.getD u.pad.responseIdx 0xFF] =
      u.pad.response.take (u.pad.responseIdx + 1) := by
    have hIn : u.pad.responseIdx < u.pad.response.length := hLen ▸ hIdx
    rw [hSent, List.take_add_one, List.getD_eq_getElem?_getD, List.getElem?_eq_getElem hIn]
    rfl
  unfold Pads.respond
  dsimp only
  rw [if_pos (show (u.pad.setSlot u.selectedSlot _).responseIdx <
    (u.pad.setSlot u.selectedSlot _).responseLen from hIdx)]
  split
  · rename_i hMore
    refine .inl ⟨rfl, rfl, hState, hTxnSlot, hCommand, hNext, congrArg (· + 1) hAcks, hLen,
      ⟨id, rest, hResponse, hFrame⟩, Nat.succ_pos _, hMore, fun hModern hConfigCommand => ?_⟩
    obtain ⟨hStarted, hKept⟩ := hConfig hModern hConfigCommand
    refine ⟨hStarted, ?_⟩
    change (if u.selectedSlot = u.selectedSlot then _ else _ : PadSlot).inConfig = true
    rw [if_pos rfl]
    exact (latch_inConfig _ _ (isConfigCommand_ne hConfigCommand) _ _).trans hKept
  · rename_i hLast
    have hEnd : u.pad.responseIdx + 1 = u.pad.responseLen := by
      have hOver : ¬ u.pad.responseIdx + 1 < u.pad.responseLen := hLast
      omega
    have hAll : u.pad.response.take (u.pad.responseIdx + 1) = u.pad.response := by
      rw [hEnd, hLen, List.take_length]
    refine .inr ⟨rfl, rfl, id, rest, (hNext.trans hAll).trans hResponse, ?_, ?_⟩
    · change (t.sent ++ [u.pad.response.getD u.pad.responseIdx 0xFF]).length = frameBytes id
      rw [hNext, hAll, ← hLen, hFrame]
    · change t.acks = frameBytes id
      rw [hAcks, hEnd, hFrame]

/-- A request of the host is taken up only outside of the configuration mode and
by a pad that is not locked. -/
theorem applyRequest_analog {p : PadSlot} (hChanged : p.applyRequest.analog ≠ p.analog) :
    p.inConfig = false ∧ p.analogModeLocked = false ∧ p.typeReq = some p.applyRequest.analog := by
  unfold PadSlot.applyRequest at hChanged ⊢
  split at hChanged
  · rename_i analog hRequest
    split at hChanged
    · rename_i hFree
      rw [hRequest, if_pos hFree]
      exact ⟨by simpa using hFree.1, by simpa using hFree.2, rfl⟩
    · exact absurd rfl hChanged
  · exact absurd rfl hChanged

theorem latch_analog {p : PadSlot} {legacyCfg : Bool} {cmd : Byte} {idx : Nat}
    (hChanged : (p.latch legacyCfg cmd idx b).analog ≠ p.analog) :
    cmd = 0x44 ∧ legacyCfg = false := by
  unfold PadSlot.latch at hChanged
  split at hChanged
  · exact absurd rfl hChanged
  · rename_i hModern
    refine ⟨?_, Bool.eq_false_of_not_eq_true hModern⟩
    by_contra hCmd
    rw [if_neg fun h : cmd = 0x44 ∧ idx = 2 => hCmd h.1,
      if_neg fun h : cmd = 0x44 ∧ idx = 3 => hCmd h.1] at hChanged
    split at hChanged <;> exact hChanged rfl

/-- What changes the type of a pad: the request of the host between transactions,
or the command 0x44. -/
theorem processByte_analog {s : Pads} {slot k : Slot}
    (hChanged : ((s.processByte slot b).1.slots k).analog ≠ (s.slots k).analog) :
    (s.state = .idle ∧ (s.slots k).inConfig = false ∧ (s.slots k).analogModeLocked = false ∧
      (s.slots k).typeReq = some ((s.processByte slot b).1.slots k).analog) ∨
    (s.state = .sendResponse ∧ k = slot ∧ s.currentCmd = 0x44 ∧ s.legacyCfg = false) := by
  unfold Pads.processByte at hChanged ⊢
  cases hState : s.state with
  | idle =>
      rw [hState] at hChanged
      have hSlots : ((s.applyRequests.access slot b).1.slots k) = (s.slots k).applyRequest := by
        unfold Pads.access
        split <;> rfl
      dsimp only at hChanged ⊢
      rw [hSlots] at hChanged ⊢
      exact .inl ⟨rfl, applyRequest_analog hChanged⟩
  | waitAccess =>
      rw [hState] at hChanged
      refine absurd ?_ hChanged
      unfold Pads.command
      dsimp only
      split
      all_goals
        unfold Pads.setSlot
        try unfold Pads.endTransaction
        dsimp only
        split
        · rename_i hSlot
          rw [hSlot]
        · rfl
  | sendResponse =>
      rw [hState] at hChanged
      have hSlots : ((s.respond slot b).1.slots k) =
          if k = slot then (s.slots slot).latch s.legacyCfg s.currentCmd s.responseIdx b
          else s.slots k := by
        unfold Pads.respond
        dsimp only
        split
        · split <;> rfl
        · rfl
      dsimp only at hChanged
      rw [hSlots] at hChanged
      by_cases hSlot : k = slot
      · rw [if_pos hSlot, hSlot] at hChanged
        exact .inr ⟨rfl, hSlot, latch_analog hChanged⟩
      · rw [if_neg hSlot] at hChanged
        exact absurd rfl hChanged

theorem processByte_legacyCfg (s : Pads) (slot : Slot) :
    (s.processByte slot b).1.legacyCfg = s.legacyCfg := by
  unfold Pads.processByte
  split
  · unfold Pads.access
    split <;> rfl
  · unfold Pads.command
    dsimp only
    split <;> rfl
  · unfold Pads.respond
    dsimp only
    split
    · split <;> rfl
    · rfl

/-- The host changes nothing that a transaction depends on. -/
theorem host_slots (s : Pads) (h : PadHost) :
    ∃ slots : Slot → PadSlot, s.host h = { s with slots := slots } ∧
      ∀ k, (slots k).inConfig = (s.slots k).inConfig ∧ (slots k).analog = (s.slots k).analog := by
  have hSet (slot : Slot) (p : PadSlot) (hConfig : p.inConfig = (s.slots slot).inConfig)
      (hAnalog : p.analog = (s.slots slot).analog) (k : Slot) :
      ((s.setSlot slot p).slots k).inConfig = (s.slots k).inConfig ∧
        ((s.setSlot slot p).slots k).analog = (s.slots k).analog := by
    unfold Pads.setSlot
    dsimp only
    split
    · rename_i hSlot
      rw [hSlot]
      exact ⟨hConfig, hAnalog⟩
    · exact ⟨rfl, rfl⟩
  cases h <;> exact ⟨_, rfl, hSet _ _ rfl rfl⟩

variable {w : PadWatch} {legacyCfg : Bool}

theorem Watched.inactive (h : Watched s w.current) (hInactive : s.active ≠ .pad) :
    w.current = none := by
  cases hCurrent : w.current with
  | none => rfl
  | some t =>
      rw [hCurrent] at h
      rcases h with hAccessed | hAnswering
      · exact absurd hAccessed.active hInactive
      · exact absurd hAnswering.active hInactive

/-- A byte that comes to the pads. -/
theorem record_watchOk (h : WatchOk legacyCfg w) (hPad : u.pad = w.bus.pad)
    (hSlot : w.bus.active = .pad → u.selectedSlot = w.bus.selectedSlot) :
    WatchOk legacyCfg (w.record b (u.toPad padDevice b).1 (u.toPad padDevice b).2) := by
  have hLegacy : (u.toPad padDevice b).1.pad.legacyCfg = legacyCfg := by
    rw [toPad_eq rfl]
    exact (processByte_legacyCfg _ _).trans ((congrArg Pads.legacyCfg hPad).trans h.legacy)
  have hActive : (u.toPad padDevice b).1.active = .pad := rfl
  unfold PadWatch.record
  rw [if_neg (not_not_intro hActive)]
  have hCurrent := h.current
  cases hWatch : w.current with
  | none =>
      rw [hWatch] at hCurrent
      have hIdle : u.pad.state = .idle := hPad ▸ hCurrent
      refine ⟨hLegacy, ?_, h.ended⟩
      dsimp only
      rcases access_watched (b := b) hIdle with ⟨hAck, hAccessed⟩ | ⟨hAck, hEnd⟩
      · rw [hAck, if_pos rfl, ← hPad]
        exact .inl hAccessed
      · rw [hAck, if_neg Bool.false_ne_true]
        exact hEnd
  | some t =>
      rw [hWatch] at hCurrent
      dsimp only
      rcases hCurrent with hAccessed | hAnswering
      · rw [if_pos (by rw [hAccessed.command]; rfl)]
        refine ⟨hLegacy, ?_, h.ended⟩
        dsimp only
        rcases command_watched (b := b) hAccessed hPad (hSlot hAccessed.active) with
          ⟨hAck, hNext⟩ | ⟨hAck, hEnd⟩
        · rw [hAck, if_pos rfl]
          exact .inr hNext
        · rw [hAck, if_neg Bool.false_ne_true]
          exact hEnd
      · rw [if_neg (by rw [hAnswering.command]; exact Bool.false_ne_true)]
        rcases respond_watched (b := b) hAnswering hPad (hSlot hAnswering.active) with
          ⟨hAck, hNext⟩ | ⟨hAck, hEnd, hComplete⟩
        · rw [hAck, if_pos rfl]
          exact ⟨hLegacy, .inr hNext, h.ended⟩
        · rw [hAck, if_neg Bool.false_ne_true]
          refine ⟨hLegacy, hEnd, fun t' hMem => ?_⟩
          rcases List.mem_append.mp hMem with hBefore | hLast
          · exact h.ended t' hBefore
          · obtain rfl := List.mem_singleton.mp hLast
            refine ⟨hComplete, fun hModern cmd hCmd hConfigCommand => ?_⟩
            have hSame : w.bus.pad.currentCmd = cmd :=
              Option.some.inj (hAnswering.command.symm.trans hCmd)
            rw [← hSame] at hConfigCommand
            exact (hAnswering.config (h.legacy.trans hModern) hConfigCommand).1

theorem padStep_watchOk (h : WatchOk legacyCfg w) (e : PadEvent) :
    WatchOk legacyCfg (padStep w e) := by
  cases e with
  | byte slot b =>
      rw [padStep]
      rcases processByte_pads (P := padDevice) w.bus slot b with
        ⟨u, hPad, hSlot, hByte⟩ | ⟨hInactive, hAfter, hPad⟩
      · rw [hByte]
        exact record_watchOk h hPad hSlot
      · have hNone := h.current.inactive hInactive
        have hIdle : w.bus.pad.state = .idle := by
          have hCurrent := h.current
          rwa [hNone] at hCurrent
        rw [PadWatch.record, if_pos hAfter]
        refine ⟨(congrArg Pads.legacyCfg hPad).trans h.legacy, ?_, h.ended⟩
        dsimp only
        rw [hNone]
        exact (congrArg Pads.state hPad).trans hIdle
  | host hostCall =>
      obtain ⟨slots, hHost, hSlots⟩ := host_slots w.bus.pad hostCall
      rw [padStep, hHost]
      refine ⟨h.legacy, ?_, h.ended⟩
      have hCurrent := h.current
      dsimp only
      cases hWatch : w.current with
      | none =>
          rw [hWatch] at hCurrent
          exact hCurrent
      | some t =>
          rw [hWatch] at hCurrent
          rcases hCurrent with hAccessed | hAnswering
          · exact .inl { hAccessed with inConfig := hAccessed.inConfig.trans (hSlots _).1.symm }
          · exact .inr { hAnswering with
              config := fun hModern hCommand =>
                ⟨(hAnswering.config hModern hCommand).1,
                  (hSlots _).1.trans (hAnswering.config hModern hCommand).2⟩ }
  | deselect => exact ⟨h.legacy, rfl, h.ended⟩
  | reset => exact ⟨h.legacy, rfl, h.ended⟩

theorem Watched.of_idle (h : Watched s w.current) (hIdle : s.pad.state = .idle) :
    w.current = none := by
  cases hCurrent : w.current with
  | none => rfl
  | some t =>
      rw [hCurrent] at h
      rcases h with hAccessed | hAnswering
      · exact PadState.noConfusion (hIdle.symm.trans hAccessed.state)
      · exact PadState.noConfusion (hIdle.symm.trans hAnswering.state)

theorem Watched.of_sending (h : Watched s w.current) (hSending : s.pad.state = .sendResponse) :
    ∃ t, w.current = some t ∧ Answering s t := by
  cases hCurrent : w.current with
  | none =>
      rw [hCurrent] at h
      exact PadState.noConfusion (hSending.symm.trans h)
  | some t =>
      rw [hCurrent] at h
      rcases h with hAccessed | hAnswering
      · exact PadState.noConfusion (hSending.symm.trans hAccessed.state)
      · exact ⟨t, rfl, hAnswering⟩

theorem record_bus (w : PadWatch) (b : Byte) (after : Bus Pads) (reply : Reply) :
    (w.record b after reply).bus = after := by
  unfold PadWatch.record
  split
  · rfl
  · split
    · rfl
    · split
      · rfl
      · split <;> rfl

/-- The type of a pad changes by a request that it takes up, or by the command
0x44 of the transaction under way. -/
theorem padStep_analog (h : WatchOk legacyCfg w) (e : PadEvent) (k : Slot)
    (hChanged : ((padStep w e).bus.pad.slots k).analog ≠ (w.bus.pad.slots k).analog) :
    (w.current = none ∧ (w.bus.pad.slots k).inConfig = false ∧
      (w.bus.pad.slots k).analogModeLocked = false ∧
      (w.bus.pad.slots k).typeReq = some ((padStep w e).bus.pad.slots k).analog) ∨
    ∃ t, w.current = some t ∧ t.slot = k ∧ t.command = some 0x44 ∧
      (w.bus.pad.slots k).inConfig = true := by
  cases e with
  | byte slot b =>
      rw [padStep, record_bus] at hChanged ⊢
      rcases processByte_pads (P := padDevice) w.bus slot b with
        ⟨u, hPad, hSlot, hByte⟩ | ⟨-, -, hPad⟩
      · rw [hByte, toPad_eq rfl, hPad] at hChanged ⊢
        rcases processByte_analog hChanged with ⟨hIdle, hFree⟩ | ⟨hSending, hK, hCmd, hModern⟩
        · exact .inl ⟨h.current.of_idle hIdle, hFree⟩
        · obtain ⟨t, hCurrent, hAnswering⟩ := h.current.of_sending hSending
          have hSelected : w.bus.selectedSlot = k := (hSlot hAnswering.active).symm.trans hK.symm
          have hConfig := (hAnswering.config hModern (by rw [hCmd]; exact ⟨by decide, by decide⟩)).2
          rw [hSelected] at hConfig
          exact .inr ⟨t, hCurrent, hAnswering.slot.trans hSelected,
            hAnswering.command.trans (congrArg some hCmd), hConfig⟩
      · rw [hPad] at hChanged
        exact absurd rfl hChanged
  | host hostCall =>
      obtain ⟨slots, hHost, hSlots⟩ := host_slots w.bus.pad hostCall
      rw [padStep, hHost] at hChanged
      exact absurd (hSlots k).2 hChanged
  | deselect => exact absurd rfl hChanged
  | reset => exact absurd rfl hChanged

/-- A pad whose ID goes from one type to the other is not in configuration mode. -/
theorem TypeFlips.analog {p q : PadSlot} (h : TypeFlips p q) :
    p.inConfig = false ∧ q.analog ≠ p.analog := by
  unfold TypeFlips PadSlot.curId at h
  cases hP : p.inConfig <;> cases hQ : q.inConfig <;> cases hPAnalog : p.analog <;>
    cases hQAnalog : q.analog <;> simp [hP, hQ, hPAnalog, hQAnalog] at h ⊢

theorem respond_len {s : Pads} {slot : Slot} (hAck : (s.respond slot b).2.2 = true) :
    (s.respond slot b).1.responseLen = s.responseLen := by
  unfold Pads.respond at hAck ⊢
  dsimp only at hAck ⊢
  split at hAck
  · rename_i hIdx
    rw [if_pos hIdx]
    split at hAck
    · rename_i hMore
      rw [if_pos hMore]
      rfl
    · exact absurd hAck Bool.false_ne_true
  · exact absurd hAck Bool.false_ne_true

/-- A byte goes on with the transaction under way. -/
theorem record_kept (h : WatchOk legacyCfg w) (hPad : u.pad = w.bus.pad)
    {t t' : PadTransaction} (hCurrent : w.current = some t)
    (hNext : (w.record b (u.toPad padDevice b).1 (u.toPad padDevice b).2).current = some t') :
    t'.slot = t.slot ∧ t'.inConfig = t.inConfig ∧ t.sent <+: t'.sent ∧
      (t.command ≠ none → t'.command = t.command ∧
        (u.toPad padDevice b).1.pad.responseLen = w.bus.pad.responseLen) := by
  have hActive : (u.toPad padDevice b).1.active = .pad := rfl
  have hWatched := h.current
  unfold PadWatch.record at hNext
  rw [if_neg (not_not_intro hActive), hCurrent] at hNext
  rw [hCurrent] at hWatched
  dsimp only at hNext
  rcases hWatched with hAccessed | hAnswering
  · rw [if_pos (by rw [hAccessed.command]; rfl)] at hNext
    dsimp only at hNext
    split at hNext
    · obtain rfl := Option.some.inj hNext
      rw [hAccessed.sent]
      exact ⟨rfl, rfl, List.nil_prefix, fun h => absurd hAccessed.command h⟩
    · exact absurd hNext (Option.some_ne_none t').symm
  · rw [if_neg (by rw [hAnswering.command]; exact Bool.false_ne_true)] at hNext
    split at hNext
    · rename_i hAck
      obtain rfl := Option.some.inj hNext
      refine ⟨rfl, rfl, List.prefix_append _ _, fun _ => ⟨rfl, ?_⟩⟩
      have hRun : u.pad.processByte u.selectedSlot b = u.pad.respond u.selectedSlot b := by
        rw [Pads.processByte, hPad, hAnswering.state]
      rw [toPad_eq hRun] at hAck ⊢
      exact (respond_len hAck).trans (congrArg Pads.responseLen hPad)
    · exact absurd hNext (Option.some_ne_none t').symm

theorem padStep_steady (h : WatchOk legacyCfg w) (e : PadEvent) : PadSteady w (padStep w e) := by
  refine ⟨fun t t' hCurrent hNext => ?_, fun k hFlips => ?_, padStep_analog h e⟩
  · cases e with
    | byte slot b =>
        rw [padStep] at hNext ⊢
        rcases processByte_pads (P := padDevice) w.bus slot b with
          ⟨u, hPad, -, hByte⟩ | ⟨hInactive, -⟩
        · rw [hByte] at hNext ⊢
          rw [record_bus]
          exact record_kept h hPad hCurrent hNext
        · exact absurd ((h.current.inactive hInactive).symm.trans hCurrent)
            (Option.some_ne_none t).symm
    | host hostCall =>
        obtain ⟨slots, hHost, -⟩ := host_slots w.bus.pad hostCall
        rw [padStep, hHost] at hNext ⊢
        obtain rfl := Option.some.inj (hCurrent.symm.trans hNext)
        exact ⟨rfl, rfl, List.prefix_rfl, fun _ => ⟨rfl, rfl⟩⟩
    | deselect => exact absurd hNext (Option.some_ne_none t').symm
    | reset => exact absurd hNext (Option.some_ne_none t').symm
  · obtain ⟨hNoConfig, hChanged⟩ := hFlips.analog
    rcases padStep_analog h e k hChanged with ⟨hNone, -⟩ | ⟨-, -, -, -, hConfig⟩
    · exact hNone
    · exact absurd (hNoConfig.symm.trans hConfig) Bool.false_ne_true

/-- The frame of the transaction under way is as long as its ID says. -/
theorem Watched.frame {t : PadTransaction} (h : Watched s (some t)) {id : Byte} {rest : List Byte}
    (hSent : t.sent = id :: rest) : s.pad.responseLen = frameBytes id := by
  rcases h with hAccessed | hAnswering
  · exact absurd (hAccessed.sent.symm.trans hSent) (List.cons_ne_nil _ _).symm
  · obtain ⟨id', rest', hResponse, hFrame⟩ := hAnswering.frame
    have hHead := hAnswering.sent.symm.trans hSent
    obtain ⟨n, hIdx⟩ := Nat.exists_eq_succ_of_ne_zero hAnswering.started.ne'
    rw [hResponse, hIdx, List.take_succ_cons] at hHead
    rw [hFrame, (List.cons.inj hHead).1]

end Steps

/-- Whatever the host does between the bytes, every transaction that a pad answers
is as long as its ID says and keeps its ID, and the type of the pad changes in none
of them. -/
theorem pad_transactions_coherent (bus : Bus Pads) (hIdle : bus.pad.state = .idle) {w : PadWatch}
    (hReach : Reach padStep (fun _ _ => True) ⟨bus, none, []⟩ w) :
    (∀ t ∈ w.ended, t.Complete ∧ (bus.pad.legacyCfg = false → t.ConfigAnswered)) ∧
    (∀ t, w.current = some t → ∀ id rest, t.sent = id :: rest →
      w.bus.pad.responseLen = frameBytes id ∧ (bus.pad.legacyCfg = false → t.ConfigAnswered)) ∧
    ∀ e, PadSteady w (padStep w e) := by
  have hStart : WatchOk bus.pad.legacyCfg ⟨bus, none, []⟩ :=
    ⟨rfl, hIdle, fun t hMem => absurd hMem List.not_mem_nil⟩
  have hOk : WatchOk bus.pad.legacyCfg w :=
    hReach.invariant hStart fun _ e h _ => padStep_watchOk h e
  refine ⟨hOk.ended, fun t hCurrent id rest hSent => ?_, fun e => padStep_steady hOk e⟩
  have hWatched := hOk.current
  rw [hCurrent] at hWatched
  refine ⟨hWatched.frame hSent, fun hModern cmd hCmd hCommand => ?_⟩
  rcases hWatched with hAccessed | hAnswering
  · exact absurd (hAccessed.command.symm.trans hCmd) (Option.some_ne_none cmd).symm
  · have hSame : w.bus.pad.currentCmd = cmd :=
      Option.some.inj (hAnswering.command.symm.trans hCmd)
    rw [← hSame] at hCommand
    exact (hAnswering.config (hOk.legacy.trans hModern) hCommand).1

/-- A digital pad that knows the configuration mode, in both ports. -/
def digitalPads : Pads where
  slots := fun _ => ⟨true, false, false, false, none, true, ⟨false, .off, 0⟩, 0xFFFF, 0x80, 0x80,
    0x80, 0x80⟩
  state := .idle
  currentCmd := 0
  response := []
  responseLen := 0
  responseIdx := 0
  legacyCfg := false

/-- A poll with a request of the host in its middle, and the poll behind it. -/
def twoPolls : List PadEvent :=
  [.byte false 0x01, .byte false 0x42, .host (.requestType false true), .byte false 0,
    .byte false 0,
    .byte false 0, .byte false 0x01, .byte false 0x42] ++ List.replicate 7 (.byte false 0)

def padBus : Bus Pads := (Sio.initial (fun _ => ⟨false, fun _ => 0⟩) digitalPads).bus

/-- The poll under way stays a digital one, and the next one is analog. -/
theorem pad_transactions_coherent_twoPolls :
    ((twoPolls.foldl padStep ⟨padBus, none, []⟩).ended.map fun t => (t.sent.length, t.acks)) =
        [(4, 4), (8, 8)] ∧
      ∀ t ∈ (twoPolls.foldl padStep ⟨padBus, none, []⟩).ended, t.Complete :=
  ⟨by decide, fun t hMem => ((pad_transactions_coherent padBus rfl
    (Reach.start.run twoPolls fun _ _ _ => trivial)).1 t hMem).1⟩

end RecompStudio.Runtime
