import RecompStudio.Library.Machine
import RecompStudio.Runtime.CardProtocol

/-!
When the image of a card changes: in a run in which the bytes for a card that is
being addressed come with its own slot selected, only the checksum of a whole
write to the slot of the card changes it, and only in the sector written.
-/

namespace RecompStudio.Runtime

open Machine

variable {σ : Type}

/-- What a card has been sent since its own 0x81, as far as a write depends on it. -/
@[grind =] def SentSoFar (mc : McVars) (bytes : List Byte) : Prop :=
  match mc.state with
  | .cmd => bytes = [0x81]
  | .id1 => bytes = [0x81, mc.cmd] ∧ (mc.cmd = 0x52 ∨ mc.cmd = 0x57 ∨ mc.cmd = 0x53)
  | .id2 => (∃ x, bytes = [0x81, mc.cmd, x]) ∧ (mc.cmd = 0x52 ∨ mc.cmd = 0x57 ∨ mc.cmd = 0x53)
  | .addrMsb => (∃ x y, bytes = [0x81, mc.cmd, x, y]) ∧ (mc.cmd = 0x52 ∨ mc.cmd = 0x57)
  | .addrLsb => (∃ x y, bytes = [0x81, mc.cmd, x, y, mc.sectorMsb]) ∧
      (mc.cmd = 0x52 ∨ mc.cmd = 0x57)
  | .writeLsbEcho | .writeData | .writeChk =>
      (∃ x y, bytes = (SectorWrite.mk x y mc.sectorMsb mc.sectorLsb mc.data).sent mc.dataIdx) ∧
        mc.sector = sectorOf mc.sectorMsb mc.sectorLsb ∧ mc.state = bufferState mc.dataIdx ∧
        mc.dataIdx ≤ 128
  | _ => True

/-- The card in the middle of a transaction is the one of the selected slot, and
the bytes it has were all sent to that slot. -/
structure Tracked (s : Bus σ) : Prop where
  saved : ∀ k, (s.slots k).state = .idle
  idle : s.active ≠ .memcard → s.mc.state = .idle
  slot : s.mc.state ≠ .idle → s.mcSlot = s.selectedSlot
  sent : ∃ before bytes, s.taken = before ++ bytes.map (fun b => (s.mcSlot, b)) ∧
    SentSoFar s.mc bytes

theorem sent_succ (x y msb lsb b : Byte) (data : Nat → Byte) (n : Nat) :
    (SectorWrite.mk x y msb lsb (fun i => if i = n then b else data i)).sent (n + 1) =
      (SectorWrite.mk x y msb lsb data).sent n ++ [b] := by
  have hSame : (List.range n).map (fun i => if i = n then b else data i) =
      (List.range n).map data :=
    List.map_congr_left fun i hi => if_neg (List.mem_range.mp hi).ne
  simp only [SectorWrite.sent, List.range_succ, List.map_append, hSame, List.map_cons,
    List.map_nil, if_true, List.append_assoc]

theorem sentSoFar_buffered {mc : McVars} {x y : Byte}
    (hSector : mc.sector = sectorOf mc.sectorMsb mc.sectorLsb)
    (hState : mc.state = bufferState mc.dataIdx) (hIndex : mc.dataIdx ≤ 128) :
    SentSoFar mc ((SectorWrite.mk x y mc.sectorMsb mc.sectorLsb mc.data).sent mc.dataIdx) := by
  unfold SentSoFar
  have hCases : bufferState mc.dataIdx = .writeLsbEcho ∨ bufferState mc.dataIdx = .writeData ∨
      bufferState mc.dataIdx = .writeChk := by
    unfold bufferState
    split
    · exact .inl rfl
    · split
      · exact .inr (.inl rfl)
      · exact .inr (.inr rfl)
  rw [← hState] at hCases
  rcases hCases with hIs | hIs | hIs <;>
    simp only [hIs] <;> exact ⟨⟨x, y, rfl⟩, hSector, hIs ▸ hState, hIndex⟩

section Card

variable {s : Bus σ} {b : Byte}

/-- A byte to the card in the middle of a transaction. -/
theorem mcProcessByte_sent {bytes : List Byte} (hBusy : s.mc.state ≠ .idle)
    (h : SentSoFar s.mc bytes) : SentSoFar (s.mcProcessByte b).1.mc (bytes ++ [b]) := by
  unfold Bus.mcProcessByte
  cases hState : s.mc.state with
  | idle => exact absurd hState hBusy
  | cmd =>
      simp only [SentSoFar, hState] at h
      subst h
      dsimp only
      by_cases hKnown : b = 0x52 ∨ b = 0x57 ∨ b = 0x53
      · rw [if_pos hKnown]
        exact ⟨rfl, hKnown⟩
      · rw [if_neg hKnown]
        trivial
  | id1 =>
      simp only [SentSoFar, hState] at h
      obtain ⟨rfl, hCmd⟩ := h
      exact ⟨⟨b, rfl⟩, hCmd⟩
  | id2 =>
      simp only [SentSoFar, hState] at h
      obtain ⟨⟨x, rfl⟩, hCmd⟩ := h
      by_cases hId : s.mc.cmd = 0x53
      · simp [SentSoFar, Bus.answer, hId]
      · simp only [SentSoFar, Bus.answer, if_neg hId]
        exact ⟨⟨x, b, rfl⟩, by tauto⟩
  | addrMsb =>
      simp only [SentSoFar, hState] at h
      obtain ⟨⟨x, y, rfl⟩, hCmd⟩ := h
      exact ⟨⟨x, y, rfl⟩, hCmd⟩
  | addrLsb =>
      simp only [SentSoFar, hState] at h
      obtain ⟨⟨x, y, rfl⟩, hCmd⟩ := h
      by_cases hRead : s.mc.cmd = 0x52
      · simp [SentSoFar, Bus.address, Bus.answer, hRead]
      · have hWrite : s.mc.cmd = 0x57 := hCmd.resolve_left hRead
        simp only [Bus.address, Bus.answer, if_neg hRead, SentSoFar]
        exact ⟨⟨x, y, by simp [SectorWrite.sent, hWrite]⟩, trivial, rfl, Nat.zero_le _⟩
  | writeLsbEcho =>
      simp only [SentSoFar, hState] at h
      obtain ⟨⟨x, y, rfl⟩, hSector, hIndex, hLe⟩ := h
      have hZero : s.mc.dataIdx = 0 := by
        by_contra hSome
        rw [bufferState, if_neg hSome] at hIndex
        split at hIndex <;> exact absurd hIndex (by simp)
      have hNext : McState.writeData = bufferState (s.mc.dataIdx + 1) := by
        rw [hZero]
        rfl
      rw [← sent_succ]
      exact sentSoFar_buffered hSector hNext (Nat.succ_le_of_lt (hZero ▸ by decide))
  | writeData =>
      simp only [SentSoFar, hState] at h
      obtain ⟨⟨x, y, rfl⟩, hSector, hIndex, hLe⟩ := h
      have hFirst : s.mc.dataIdx ≠ 0 := by
        intro hZero
        rw [hZero] at hIndex
        exact absurd hIndex (by decide)
      have hRoom : s.mc.dataIdx < 128 := by
        by_contra hFull
        rw [bufferState, if_neg hFirst, if_neg hFull] at hIndex
        exact absurd hIndex (by simp)
      rw [← sent_succ]
      exact sentSoFar_buffered hSector (bufferState_succ _).symm hRoom
  | writeChk =>
      have hNext : (s.commit b).mc.state = .writeAck1 := by
        unfold Bus.commit
        dsimp only
        split
        · rfl
        · split <;> rfl
      simp [SentSoFar, hNext]
  | readData =>
      by_cases hLast : 128 ≤ s.mc.dataIdx + 1
      · simp only [Bus.answer, SentSoFar, if_pos hLast]
      · simp only [Bus.answer, SentSoFar, if_neg hLast]
  | _ => simp [SentSoFar, Bus.answer]

/-- The byte is the checksum of a whole write to a card, and the step takes it. -/
def CommitsWrite (s t : Bus σ) (k : Slot) (w : SectorWrite) : Prop :=
  (∃ before, s.taken = before ++ (w.sent 128).map fun b => (k, b)) ∧
    t.taken = s.taken ++ [(k, w.checksum)] ∧ w.sector < memcardSectors ∧
    t.cards = written s.cards k w

theorem commit_cards (s : Bus σ) (b : Byte) :
    (s.commit b).cards = s.cards ∨
      b = checksumOf s.mc.sectorMsb s.mc.sectorLsb s.mc.data ∧ s.mc.sector < memcardSectors ∧
        (s.commit b).cards = fun k => if k = s.mcSlot then
          (s.cards k).writeSector s.mc.sector s.mc.data else s.cards k := by
  unfold Bus.commit
  dsimp only
  split
  · rename_i hRight
    exact .inr ⟨hRight.1, hRight.2, rfl⟩
  · split <;> exact .inl rfl

/-- A byte to the card in the middle of a transaction, with the slot of the card
selected. -/
theorem mcProcessByte_tracked (h : Tracked s) (hActive : s.active = .memcard)
    (hBusy : s.mc.state ≠ .idle) :
    let t := (({ s with taken := s.taken ++ [(s.selectedSlot, b)] } : Bus σ).mcProcessByte b).1
    Tracked t ∧ (t.cards = s.cards ∨ ∃ w, CommitsWrite s t s.selectedSlot w) := by
  intro t
  obtain ⟨hSaved, -, hSlot, before, bytes, hTaken, hSent⟩ := h
  have hSlot := hSlot hBusy
  obtain ⟨hSlots, hSameActive, hSelected, hNewTaken, hMcSlot, hCards⟩ :=
    mcProcessByte_frame ({ s with taken := s.taken ++ [(s.selectedSlot, b)] } : Bus σ) b
  have hMcSlot : t.mcSlot = s.selectedSlot := (hMcSlot hBusy).trans hSlot
  have hAppended : t.taken = before ++ (bytes ++ [b]).map (fun b => (t.mcSlot, b)) := by
    rw [hNewTaken, hMcSlot, hTaken, hSlot]
    simp
  refine ⟨⟨fun k => ?_, fun hOff => ?_, fun _ => hMcSlot.trans hSelected.symm, before, bytes ++ [b],
    hAppended, mcProcessByte_sent hBusy hSent⟩, ?_⟩
  · rw [hSlots]
    exact hSaved k
  · exact absurd (hSameActive.trans hActive) hOff
  · by_cases hCheck : s.mc.state = .writeChk
    · have hStep : t = ({ s with taken := s.taken ++ [(s.selectedSlot, b)] } : Bus σ).commit b := by
        simp only [t, Bus.mcProcessByte, hCheck]
      rcases commit_cards ({ s with taken := s.taken ++ [(s.selectedSlot, b)] } : Bus σ) b with
        hSame | ⟨hRight, hSector, hWritten⟩
      · exact .inl (hStep ▸ hSame)
      · simp only [SentSoFar, hCheck] at hSent
        obtain ⟨⟨x, y, rfl⟩, hIs, hIndex, hLe⟩ := hSent
        have hFull : s.mc.dataIdx = 128 := by
          by_contra hLess
          have hRoom : s.mc.dataIdx < 128 := by omega
          unfold bufferState at hIndex
          rw [if_pos hRoom] at hIndex
          split at hIndex <;> exact absurd hIndex (by simp)
        refine .inr ⟨⟨x, y, s.mc.sectorMsb, s.mc.sectorLsb, s.mc.data⟩, ⟨before, ?_⟩, ?_, ?_, ?_⟩
        · rw [hTaken, hSlot, hFull]
        · rw [hNewTaken, hRight]
          rfl
        · exact lt_of_eq_of_lt hIs.symm hSector
        · rw [hStep, hWritten]
          funext k
          simp only [written, SectorWrite.sector, ← hIs, hSlot]
    · exact .inl (hCards hCheck)

theorem opened_tracked (hSaved : ∀ k, (s.slots k).state = .idle) (hActive : s.active = .memcard)
    (hIdle : s.mc.state = .idle) :
    let t :=
      (({ s with taken := s.taken ++ [(s.selectedSlot, 0x81)] } : Bus σ).mcProcessByte 0x81).1
    Tracked t ∧ t.cards = s.cards := by
  intro t
  by_cases hPresent : (s.cards s.selectedSlot).present = true
  · have hStep : t = { s with
        taken := s.taken ++ [(s.selectedSlot, 0x81)]
        mcSlot := s.selectedSlot
        mc.state := .cmd
        rx := 0xFF } := by
      simp only [t, Bus.mcProcessByte, hIdle, hPresent, if_true, Bus.answer]
    rw [hStep]
    exact ⟨⟨hSaved, fun hOff => absurd hActive hOff, fun _ => rfl, s.taken, [0x81], rfl, rfl⟩, rfl⟩
  · have hStep : t = { s with
        taken := s.taken ++ [(s.selectedSlot, 0x81)]
        mcSlot := s.selectedSlot
        rx := 0xFF } := by
      simp only [t, Bus.mcProcessByte, hIdle, if_neg hPresent]
    rw [hStep]
    refine ⟨⟨hSaved, fun hOff => absurd hActive hOff, fun hBusy => absurd hIdle hBusy, _, [],
      (List.append_nil _).symm, ?_⟩, rfl⟩
    simp only [SentSoFar, hIdle]

/-- A bus on which no card is in the middle of a transaction. -/
theorem tracked_idle (hSaved : ∀ k, (s.slots k).state = .idle) (hIdle : s.mc.state = .idle) :
    Tracked s := by
  refine ⟨hSaved, fun _ => hIdle, fun hBusy => absurd hIdle hBusy, s.taken, [],
    (List.append_nil _).symm, ?_⟩
  simp only [SentSoFar, hIdle]

theorem toPad_tracked (P : PadDevice σ) (hSaved : ∀ k, (s.slots k).state = .idle)
    (hIdle : s.mc.state = .idle) :
    Tracked (s.toPad P b).1 ∧ (s.toPad P b).1.cards = s.cards :=
  ⟨tracked_idle hSaved hIdle, rfl⟩

theorem select_tracked (P : PadDevice σ) (k : Slot) (hSaved : ∀ k, (s.slots k).state = .idle)
    (hIdle : s.mc.state = .idle) :
    Tracked (({ s with taken := s.taken ++ [(k, b)] } : Bus σ).select P k b).1 ∧
      (({ s with taken := s.taken ++ [(k, b)] } : Bus σ).select P k b).1.cards = s.cards := by
  unfold Bus.select
  dsimp only
  by_cases hPad : b = 0x01
  · rw [if_pos hPad, if_neg (not_not.mpr hIdle)]
    exact toPad_tracked P hSaved hIdle
  · rw [if_neg hPad]
    by_cases hCard : b = 0x81
    · subst hCard
      exact opened_tracked (s := { s with
        mc := { s.slots k with state := .idle }
        active := .memcard
        mcSlot := k
        selectedSlot := k }) hSaved rfl rfl
    · have hLoaded : (s.slots k).state = .idle := hSaved k
      rw [if_neg hCard, if_neg (fun hBusy => hBusy.1 hLoaded)]
      exact ⟨tracked_idle hSaved rfl, rfl⟩

/-- A byte keeps track of the card and changes an image only as the checksum of
a whole write, if the slot of a card that takes it is selected. -/
theorem processByte_tracked (P : PadDevice σ) {k : Slot} (h : Tracked s)
    (hKept : s.active = .memcard → (s.mc.state ≠ .idle ∨ b = 0x81) → k = s.selectedSlot) :
    Tracked (s.processByte P k b).1 ∧ ((s.processByte P k b).1.cards = s.cards ∨
      ∃ w, CommitsWrite s (s.processByte P k b).1 k w) := by
  cases hActive : s.active with
  | none =>
      have hStep : s.processByte P k b =
          ({ s with taken := s.taken ++ [(k, b)] } : Bus σ).select P k b := by
        simp only [Bus.processByte, hActive]
      obtain ⟨hTracked, hCards⟩ := select_tracked P k h.saved (h.idle (by simp [hActive]))
      rw [hStep]
      exact ⟨hTracked, .inl hCards⟩
  | pad =>
      have hStep : s.processByte P k b =
          ({ s with taken := s.taken ++ [(k, b)] } : Bus σ).toPad P b := by
        simp only [Bus.processByte, hActive]
      rw [hStep]
      exact ⟨tracked_idle h.saved (h.idle (by simp [hActive])), .inl rfl⟩
  | memcard =>
      by_cases hOther : s.mc.state = .idle ∧ b ≠ 0x81
      · have hStep : s.processByte P k b =
            if b = 0x01 then ({ s with
                taken := s.taken ++ [(k, b)], active := .none, selectedSlot := k } :
                  Bus σ).toPad P b
            else ({ s with
                taken := s.taken ++ [(k, b)], active := .none, selectedSlot := k } :
                  Bus σ).stray := by
          simp only [Bus.processByte, hActive, if_pos hOther]
        rw [hStep]
        split
        · exact ⟨tracked_idle h.saved hOther.1, .inl rfl⟩
        · exact ⟨tracked_idle h.saved hOther.1, .inl rfl⟩
      · have hStep : s.processByte P k b =
            ({ s with taken := s.taken ++ [(k, b)] } : Bus σ).toCard b := by
          simp only [Bus.processByte, hActive, if_neg hOther]
        obtain rfl : k = s.selectedSlot := hKept hActive (by tauto)
        rw [hStep]
        by_cases hIdle : s.mc.state = .idle
        · obtain rfl : b = 0x81 := by tauto
          obtain ⟨hTracked, hCards⟩ := opened_tracked h.saved hActive hIdle
          exact ⟨hTracked, .inl hCards⟩
        · exact mcProcessByte_tracked h hActive hIdle

end Card

section Steps

variable {P : PadDevice σ} {s : Sio σ}

/-- The round under way ends with the byte in the shifter. -/
def Sio.shiftDone (s : Sio σ) : Bool :=
  match s.advancing with
  | some (m, tr) => m ≠ 0 && tr < 8 && (s.nextEvent m).2 = .shift
  | none => false

/-- The devices are released: no card and no slot is in the middle of anything. -/
structure Released (before after : Bus σ) : Prop where
  saved : ∀ k, (after.slots k).state = .idle
  idle : after.mc.state = .idle
  active : after.active = .none
  cards : after.cards = before.cards
  taken : after.taken = []

theorem reset_released (s : Bus σ) : Released s (s.reset P) :=
  ⟨fun _ => rfl, rfl, rfl, rfl, rfl⟩

theorem deselect_released {before : Bus σ} (s : Bus σ) (hCards : s.cards = before.cards) :
    Released before (s.deselect P) :=
  ⟨fun _ => rfl, rfl, rfl, hCards, rfl⟩

/-- What a write to SIO_CTRL does to the devices. -/
def Bus.control (P : PadDevice σ) (s : Bus σ) (old v : BitVec 16) : Bus σ :=
  let s := if ctrlReset v then s.reset P else s
  if ctrlSelect old && !ctrlSelect v then s.deselect P else s

theorem control_released (s : Bus σ) (old v : BitVec 16) :
    s.control P old v = s ∨ Released s (s.control P old v) := by
  have hReset : (if ctrlReset v then s.reset P else s).cards = s.cards := by
    split <;> rfl
  unfold Bus.control
  dsimp only
  split
  · exact .inr (deselect_released _ hReset)
  · split
    · exact .inr (reset_released s)
    · exact .inl rfl

theorem ctrlWrite_bus (v : BitVec 16) : (s.ctrlWrite P v).bus = s.bus.control P s.ctrl v := by
  have hAck : (({ s with ctrl := v } : Sio σ).ackBits v).bus = s.bus := by
    unfold Sio.ackBits
    split <;> rfl
  have hReset (u : Sio σ) :
      (u.resetPort P v).bus = if ctrlReset v then u.bus.reset P else u.bus := by
    unfold Sio.resetPort
    split <;> rfl
  have hAssert (u : Sio σ) : (u.assertSelect s.ctrl v).bus = u.bus := by
    unfold Sio.assertSelect
    split <;> rfl
  have hDisable (u : Sio σ) : (u.disableTx s.ctrl v).bus = u.bus := by
    unfold Sio.disableTx
    split
    · dsimp only
      split <;> rfl
    · rfl
  have hDeassert (u : Sio σ) : (u.deassertSelect P s.ctrl v).bus =
      if ctrlSelect s.ctrl && !ctrlSelect v then u.bus.deselect P else u.bus := by
    unfold Sio.deassertSelect
    split <;> rfl
  unfold Sio.ctrlWrite
  rw [hDeassert, hDisable, hAssert, hReset, hAck]
  rfl

theorem iterate_bus :
    (s.iterate P).bus = s.bus ∨ s.shiftDone = true ∧
      (s.iterate P).bus = (s.bus.processByte P (ctrlSlot s.ctrl) s.shiftByte).1 := by
  cases hTurn : s.advancing with
  | none => exact .inl (congrArg Sio.bus (iterate_still hTurn))
  | some turn =>
      obtain ⟨m, tr⟩ := turn
      by_cases hOver : m = 0 ∨ 8 ≤ tr
      · left
        simp only [Sio.iterate, hTurn, if_pos hOver]
        rfl
      · obtain ⟨⟨dt, event⟩, hEvent⟩ : ∃ next, s.nextEvent m = next := ⟨_, rfl⟩
        rw [iterate_eq hTurn (by omega) (by omega) hEvent]
        cases event with
        | shift =>
            refine .inr ⟨?_, ?_⟩
            · have hTime : m ≠ 0 := by omega
              have hRoom : tr < 8 := by omega
              simp [Sio.shiftDone, hTurn, hEvent, hTime, hRoom]
            · have hEnd (u : Sio σ) : u.endShift.promote.settle.bus = u.bus := by
                rw [settle_bus]
                unfold Sio.promote Sio.endShift
                split <;> split <;> rfl
              exact hEnd _
        | ack =>
            left
            have hAck (u : Sio σ) : u.fireAck.bus = u.bus := by
              unfold Sio.fireAck
              dsimp only
              split
              · exact settle_bus _
              · rfl
            exact hAck _
        | nothing => exact .inl rfl

/-- What a step does to the devices: nothing, a byte, or a write to SIO_CTRL. -/
theorem sioStep_bus (e : SioEvent) :
    (sioStep P s e).bus = s.bus ∨
      (∃ b, (sioStep P s e).bus = (s.bus.processByte P (ctrlSlot s.ctrl) b).1 ∧
        (s.bus.active ≠ .memcard ∨ e = .iterate ∧ s.shiftDone = true ∧ b = s.shiftByte)) ∨
      ∃ v, e = .ctrl v ∧ (sioStep P s e).bus = s.bus.control P s.ctrl v := by
  unfold sioStep
  split
  · exact .inl rfl
  · cases e with
    | tx b =>
        dsimp only [Sio.apply, Sio.txWrite]
        split
        · exact .inl rfl
        · split
          · rename_i hPad
            refine .inr (.inl ⟨b, ?_, .inl hPad.1⟩)
            unfold Sio.padFastPath
            dsimp only
            split <;> rfl
          · left
            unfold Sio.shiftPath
            dsimp only
            split
            · rfl
            · split <;> rfl
    | ctrl v => exact .inr (.inr ⟨v, rfl, ctrlWrite_bus v⟩)
    | mode v => exact .inl rfl
    | baud v => exact .inl rfl
    | readRx => exact .inl rfl
    | readStat =>
        left
        dsimp only [Sio.apply, Sio.statRead]
        split <;> rfl
    | advance cycles =>
        left
        dsimp only [Sio.apply, Sio.advance]
        split <;> rfl
    | iterate =>
        rcases iterate_bus (P := P) (s := s) with hSame | ⟨hDone, hByte⟩
        · exact .inl hSame
        · exact .inr (.inl ⟨s.shiftByte, hByte, .inr ⟨rfl, hDone, rfl⟩⟩)

/-- A card that takes the byte of the shifter is the one of the selected slot. -/
def SlotKept (s : Sio σ) (e : SioEvent) : Prop :=
  e = .iterate → s.shiftDone = true → s.bus.active = .memcard →
    (s.bus.mc.state ≠ .idle ∨ s.shiftByte = 0x81) → ctrlSlot s.ctrl = s.bus.selectedSlot

instance (s : Sio σ) (e : SioEvent) : Decidable (SlotKept s e) :=
  inferInstanceAs (Decidable (_ → _ → _ → _ → _))

theorem sioStep_tracked (h : Tracked s.bus) (e : SioEvent) (hKept : SlotKept s e) :
    Tracked (sioStep P s e).bus ∧ ((sioStep P s e).bus.cards = s.bus.cards ∨
      ∃ k w, CommitsWrite s.bus (sioStep P s e).bus k w) := by
  rcases sioStep_bus (P := P) (s := s) e with hSame | ⟨b, hByte, hWhen⟩ | ⟨v, -, hControl⟩
  · rw [hSame]
    exact ⟨h, .inl rfl⟩
  · rw [hByte]
    have hSlot : s.bus.active = .memcard → (s.bus.mc.state ≠ .idle ∨ b = 0x81) →
        ctrlSlot s.ctrl = s.bus.selectedSlot := by
      rcases hWhen with hOff | ⟨hIterate, hDone, rfl⟩
      · exact fun hActive => absurd hActive hOff
      · exact hKept hIterate hDone
    obtain ⟨hTracked, hCards⟩ := processByte_tracked P h hSlot
    exact ⟨hTracked, hCards.imp_right fun hCommit => ⟨_, hCommit⟩⟩
  · rw [hControl]
    rcases control_released (P := P) s.bus s.ctrl v with hSame | hReleased
    · rw [hSame]
      exact ⟨h, .inl rfl⟩
    · exact ⟨tracked_idle hReleased.saved hReleased.idle, .inl hReleased.cards⟩

end Steps

/-- Exactly the bytes of a sector are replaced. -/
def ReplacesSector (w : SectorWrite) (before after : Card) : Prop :=
  after.present = before.present ∧ ∀ a, after.data a =
    if w.sector * 128 ≤ a ∧ a < w.sector * 128 + 128 then w.data (a - w.sector * 128)
    else before.data a

/-- The image of a card is left alone, or the step takes the checksum of a whole
write that was sent to its slot and does that write. -/
def OnlyByWrite (before after : Bus σ) (k : Slot) : Prop :=
  after.cards k = before.cards k ∨
    ∃ w : SectorWrite, (∃ earlier, before.taken = earlier ++ (w.sent 128).map fun b => (k, b)) ∧
      after.taken = before.taken ++ [(k, w.checksum)] ∧ w.sector < memcardSectors ∧
      ReplacesSector w (before.cards k) (after.cards k)

theorem CommitsWrite.onlyByWrite {s t : Bus σ} {j : Slot} {w : SectorWrite}
    (h : CommitsWrite s t j w) (k : Slot) : OnlyByWrite s t k := by
  obtain ⟨hSent, hTaken, hSector, hCards⟩ := h
  by_cases hSlot : k = j
  · subst hSlot
    by_cases hPresent : (s.cards k).present = true
    · refine .inr ⟨w, hSent, hTaken, hSector, ?_⟩
      have hWritten : t.cards k = (s.cards k).writeSector w.sector w.data := by
        rw [hCards, written, if_pos rfl]
      rw [hWritten, Card.writeSector, if_pos ⟨hPresent, hSector⟩]
      exact ⟨rfl, fun a => rfl⟩
    · left
      rw [hCards, written, if_pos rfl, Card.writeSector, if_neg (fun h => hPresent h.1)]
  · left
    rw [hCards, written, if_neg hSlot]

theorem initial_tracked (cards : Slot → Card) (pad : σ) : Tracked (Sio.initial cards pad).bus :=
  tracked_idle (fun _ => rfl) rfl

theorem reach_tracked {P : PadDevice σ} {cards : Slot → Card} {pad : σ} {s : Sio σ}
    (hRun : Reach (sioStep P) SlotKept (Sio.initial cards pad) s) : Tracked s.bus :=
  hRun.invariant (initial_tracked cards pad)
    fun _ e h hKept => (sioStep_tracked h e hKept).1

/-- In every run in which a card that is being addressed takes its bytes with its
own slot selected, an image changes only by the checksum of a whole write. -/
theorem card_changes_by_write {P : PadDevice σ} {cards : Slot → Card} {pad : σ} {s : Sio σ}
    (hRun : Reach (sioStep P) SlotKept (Sio.initial cards pad) s) (e : SioEvent)
    (hKept : SlotKept s e) (k : Slot) : OnlyByWrite s.bus (sioStep P s e).bus k := by
  rcases (sioStep_tracked (reach_tracked hRun) e hKept).2 with hSame | ⟨j, w, hCommit⟩
  · exact .inl (congrFun hSame k)
  · exact hCommit.onlyByWrite k

/-- Pads that answer nothing. -/
def noPads : PadDevice Unit := ⟨fun s _ _ => (s, 0xFF, false), id⟩

def blankCard : Card := ⟨true, fun _ => 0xFF⟩

def blankPort : Sio Unit := Sio.initial (fun _ => blankCard) ()

/-- A write of the sixth sector. -/
def sixthSector : SectorWrite := ⟨0x00, 0x00, 0x00, 0x05, fun i => BitVec.ofNat 8 i⟩

/-- Bytes with time behind each of them. -/
def spaced (bytes : List Byte) : List SioEvent :=
  transactEvents (bytes.map fun b => (b, [.advance 1300]))

/-- The write of the sixth sector with the second slot selected, up to its
checksum in the shifter. -/
def sixthInSecond : List SioEvent :=
  [.ctrl 0x2003] ++ spaced (sixthSector.sent 128) ++ [.tx sixthSector.checksum, .advance 1300]

theorem sixthInSecond_kept :
    RunOk (sioStep noPads) SlotKept blankPort sixthInSecond ∧
      let s := sixthInSecond.foldl (sioStep noPads) blankPort
      SlotKept s .iterate ∧ ((sioStep noPads s .iterate).bus.cards true).data 767 = 127 := by
  decide +kernel

theorem card_changes_by_write_second :
    let s := sixthInSecond.foldl (sioStep noPads) blankPort
    ((sioStep noPads s .iterate).bus.cards true).data 767 = 127 ∧
      ∀ k, OnlyByWrite s.bus (sioStep noPads s .iterate).bus k := by
  obtain ⟨hOk, hKept, hData⟩ := sixthInSecond_kept
  exact ⟨hData, card_changes_by_write (Reach.start.along _ hOk) .iterate hKept⟩

/-- The first card is addressed and given no command, so that it waits for the
next 0x81. -/
def firstWaits : List SioEvent := [.ctrl 0x0003] ++ spaced [0x81, 0x00]

theorem written_across_slots :
    RunOk (sioStep noPads) (fun s _ => s.bus.active ≠ .pad) blankPort
        (firstWaits ++ sixthInSecond) ∧
      let s := (firstWaits ++ sixthInSecond).foldl (sioStep noPads) blankPort
      (s.bus.cards false).data 767 = 0xFF ∧
        ((sioStep noPads s .iterate).bus.cards false).data 767 = 127 ∧
        (sioStep noPads s .iterate).bus.taken.getLast?.map Prod.fst = some true := by
  decide +kernel

/-- The write that is sent behind it with the other slot selected goes to the
first card. -/
theorem card_changes_across_slots :
    ¬∀ (s : Sio Unit) (e : SioEvent) (k : Slot),
      Reach (sioStep noPads) (fun _ _ => True) blankPort s →
      OnlyByWrite s.bus (sioStep noPads s e).bus k := by
  intro hClaim
  obtain ⟨hOk, hStep⟩ := written_across_slots
  have hRun : Reach (sioStep noPads) (fun _ _ => True) blankPort _ :=
    (Reach.start.along _ hOk).mono fun _ _ _ => trivial
  generalize (firstWaits ++ sixthInSecond).foldl (sioStep noPads) blankPort = s at hStep hRun
  obtain ⟨hBefore, hAfter, hLast⟩ := hStep
  rcases hClaim s .iterate false hRun with hSame | ⟨w, -, hTaken, -, -⟩
  · rw [hSame, hBefore] at hAfter
    exact absurd hAfter (by decide)
  · rw [hTaken, List.getLast?_concat] at hLast
    exact absurd hLast (by simp)

end RecompStudio.Runtime
