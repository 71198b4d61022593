import RecompStudio.Runtime.CardSafety

/-!
What is written to a sector of a card is what is read from it later, whatever
else has gone over the bus in between.
-/

namespace RecompStudio.Runtime

open Machine

variable {σ : Type}

section Still

variable {P : PadDevice σ} {s : Sio σ}

theorem iterate_advancing {m tr : Nat} (hTurn : s.advancing = some (m, tr)) :
    (s.iterate P).advancing = none ∨
      tr < 8 ∧ ∃ left, (s.iterate P).advancing = some (left, tr + 1) := by
  by_cases hOver : m = 0 ∨ 8 ≤ tr
  · left
    simp only [Sio.iterate, hTurn, if_pos hOver]
    rfl
  · obtain ⟨⟨dt, event⟩, hEvent⟩ : ∃ next, s.nextEvent m = next := ⟨_, rfl⟩
    rw [iterate_eq hTurn (by omega) (by omega) hEvent]
    cases event with
    | shift => exact .inr ⟨by omega, _, rfl⟩
    | ack => exact .inr ⟨by omega, _, rfl⟩
    | nothing => exact .inl rfl

/-- The loop of an advance is over within its rounds. -/
theorem rounds_end (n : Nat) : ∀ {s : Sio σ} {m tr : Nat}, s.advancing = some (m, tr) → tr ≤ 8 →
    8 < tr + n → (rounds P n s).advancing = none := by
  induction n with
  | zero => intro s m tr _ hRoom hRounds; omega
  | succ n ih =>
      intro s m tr hTurn _ hRounds
      rw [rounds_succ]
      rcases iterate_advancing (P := P) hTurn with hNone | ⟨hRoom, left, hNext⟩
      · rw [rounds_still hNone]
        exact hNone
      · exact ih hNext (by omega) (by omega)

theorem txWrite_advancing (b : Byte) : (s.txWrite P b).advancing = s.advancing := by
  unfold Sio.txWrite
  split
  · rfl
  · split
    · unfold Sio.padFastPath
      dsimp only
      split <;> rfl
    · unfold Sio.shiftPath
      dsimp only
      split
      · rfl
      · split <;> rfl

theorem ctrlWrite_advancing (v : BitVec 16) : (s.ctrlWrite P v).advancing = s.advancing := by
  have hAck (u : Sio σ) : (u.ackBits v).advancing = u.advancing := by
    unfold Sio.ackBits
    split <;> rfl
  have hReset (u : Sio σ) : (u.resetPort P v).advancing = u.advancing := by
    unfold Sio.resetPort
    split <;> rfl
  have hAssert (u : Sio σ) : (u.assertSelect s.ctrl v).advancing = u.advancing := by
    unfold Sio.assertSelect
    split <;> rfl
  have hDisable (u : Sio σ) : (u.disableTx s.ctrl v).advancing = u.advancing := by
    unfold Sio.disableTx
    split
    · dsimp only
      split <;> rfl
    · rfl
  have hDeassert (u : Sio σ) : (u.deassertSelect P s.ctrl v).advancing = u.advancing := by
    unfold Sio.deassertSelect
    split <;> rfl
  unfold Sio.ctrlWrite
  rw [hDeassert, hDisable, hAssert, hReset, hAck]

/-- Between two operations no advance is under way. -/
theorem sioOp_still (hStill : s.advancing = none) (op : SioOp) :
    (sioOp P s op).advancing = none := by
  cases op with
  | tx b =>
      change (sioStep P s (.tx b)).advancing = none
      rw [sioStep_still hStill]
      exact (txWrite_advancing b).trans hStill
  | ctrl v =>
      change (sioStep P s (.ctrl v)).advancing = none
      rw [sioStep_still hStill]
      exact (ctrlWrite_advancing v).trans hStill
  | mode v =>
      change (sioStep P s (.mode v)).advancing = none
      rw [sioStep_still hStill]
      exact hStill
  | baud v =>
      change (sioStep P s (.baud v)).advancing = none
      rw [sioStep_still hStill]
      exact hStill
  | readRx =>
      change (sioStep P s .readRx).advancing = none
      rw [sioStep_still hStill]
      exact hStill
  | readStat =>
      change (sioStep P s .readStat).advancing = none
      rw [sioStep_still hStill]
      dsimp only [Sio.apply, Sio.statRead]
      split <;> exact hStill
  | advance cycles =>
      change (rounds P 9 (sioStep P s (.advance cycles))).advancing = none
      rw [sioStep_still hStill]
      dsimp only [Sio.apply, Sio.advance]
      split
      · rw [rounds_still hStill]
        exact hStill
      · exact rounds_end 9 rfl (Nat.zero_le 8) (by decide)

theorem ops_still (hStill : s.advancing = none) (ops : List SioOp) :
    (ops.foldl (sioOp P) s).advancing = none := by
  induction ops generalizing s with
  | nil => exact hStill
  | cons op rest ih => exact ih (sioOp_still hStill op)

end Still

/-- No card is in the middle of a transaction that the bus does not hold. -/
structure Parked (s : Bus σ) : Prop where
  saved : ∀ k, (s.slots k).state = .idle
  idle : s.active ≠ .memcard → s.mc.state = .idle

section Parked

variable {s : Bus σ}

theorem Parked.ofIdle (hSaved : ∀ k, (s.slots k).state = .idle) (hIdle : s.mc.state = .idle) :
    Parked s :=
  ⟨hSaved, fun _ => hIdle⟩

theorem toCard_parked (hSaved : ∀ k, (s.slots k).state = .idle) (hActive : s.active = .memcard)
    (b : Byte) : Parked (s.toCard b).1 := by
  obtain ⟨hSlots, hSame, -⟩ := mcProcessByte_frame s b
  refine ⟨fun k => ?_, fun hOff => absurd (hSame.trans hActive) hOff⟩
  change ((s.mcProcessByte b).1.slots k).state = .idle
  rw [hSlots]
  exact hSaved k

theorem processByte_parked (P : PadDevice σ) (k : Slot) (b : Byte) (h : Parked s) :
    Parked (s.processByte P k b).1 := by
  by_cases hActive : s.active = .memcard
  · unfold Bus.processByte
    dsimp only
    rw [hActive]
    dsimp only
    split
    · rename_i hIdle
      split
      · exact .ofIdle h.saved hIdle.1
      · exact .ofIdle h.saved hIdle.1
    · refine toCard_parked ?_ rfl b
      exact h.saved
  · have hTracked : Tracked s := tracked_idle h.saved (h.idle hActive)
    have hNext := (processByte_tracked (k := k) (b := b) P hTracked fun hCard =>
      absurd hCard hActive).1
    exact ⟨hNext.saved, hNext.idle⟩

theorem sioStep_parked {P : PadDevice σ} {s : Sio σ} (h : Parked s.bus) (e : SioEvent) :
    Parked (sioStep P s e).bus := by
  rcases sioStep_bus (P := P) (s := s) e with hSame | ⟨b, hByte, -⟩ | ⟨v, -, hControl⟩
  · rw [hSame]
    exact h
  · rw [hByte]
    exact processByte_parked P _ b h
  · rw [hControl]
    rcases control_released (P := P) s.bus s.ctrl v with hSame | hReleased
    · rw [hSame]
      exact h
    · exact .ofIdle hReleased.saved hReleased.idle

theorem events_parked {P : PadDevice σ} (es : List SioEvent) :
    ∀ {s : Sio σ}, Parked s.bus → Parked (es.foldl (sioStep P) s).bus := by
  induction es with
  | nil => intro s h; exact h
  | cons e rest ih => intro s h; exact ih (sioStep_parked h e)

end Parked

/-- SELECT is off, no device is being addressed, and nothing is under way: the
port as a deselect leaves it. -/
structure FreePort (s : Sio σ) : Prop where
  deselected : ctrlSelect s.ctrl = false
  active : s.bus.active = .none
  shift : s.shiftActive = false
  buffer : s.txBuffered = false
  ack : s.pendingAck = false

/-- A control word that selects a slot and enables TX. -/
structure Selects (v : BitVec 16) (k : Slot) : Prop where
  txEn : ctrlTxEn v = true
  select : ctrlSelect v = true
  slot : ctrlSlot v = k
  reset : ctrlReset v = false

section Transactions

variable {P : PadDevice σ} {s : Sio σ} {v : BitVec 16} {k : Slot}

theorem ctrlWrite_free (hSelected : ctrlSelect s.ctrl = true) (hStill : s.advancing = none)
    (hReset : ctrlReset v = false) (hDeselects : ctrlSelect v = false) :
    FreePort (sioOp P s (.ctrl v)) := by
  have hStep : sioOp P s (.ctrl v) = s.ctrlWrite P v := sioStep_still hStill _
  rw [hStep]
  have hAck (u : Sio σ) : (u.ackBits v).ctrl = u.ctrl := by
    unfold Sio.ackBits
    split <;> rfl
  have hAssert (u : Sio σ) : (u.assertSelect s.ctrl v).ctrl = u.ctrl := by
    unfold Sio.assertSelect
    split <;> rfl
  have hDisable (u : Sio σ) : (u.disableTx s.ctrl v).ctrl = u.ctrl := by
    unfold Sio.disableTx
    split
    · dsimp only
      split <;> rfl
    · rfl
  have hNoReset (u : Sio σ) : u.resetPort P v = u := by
    unfold Sio.resetPort
    rw [hReset, if_neg (by decide)]
  unfold Sio.ctrlWrite Sio.deassertSelect
  rw [hSelected, hDeselects, if_pos (by decide)]
  refine ⟨?_, rfl, rfl, rfl, rfl⟩
  rw [hNoReset]
  change ctrlSelect (Sio.disableTx _ s.ctrl v).ctrl = false
  rw [hDisable, hAssert, hAck]
  exact hDeselects

/-- The start of a transaction on a free port. -/
theorem ctrlWrite_selects (hFree : FreePort s) (hStill : s.advancing = none) (hv : Selects v k) :
    LineFree v (.none, 0) (sioOp P s (.ctrl v)) ∧ (sioOp P s (.ctrl v)).bus = s.bus ∧
      (sioOp P s (.ctrl v)).advancing = none := by
  have hStep : sioOp P s (.ctrl v) = (({ s with ctrl := v } : Sio σ).ackBits v).freeBus := by
    change sioStep P s (.ctrl v) = _
    rw [sioStep_still hStill]
    simp [Sio.apply, Sio.ctrlWrite, Sio.resetPort, Sio.assertSelect, Sio.disableTx,
      Sio.deassertSelect, hv.reset, hv.select, hv.txEn, hFree.deselected]
  rw [hStep]
  unfold Sio.ackBits
  split
  · exact ⟨⟨⟨⟨rfl, rfl, rfl⟩, rfl, hFree.buffer⟩, hFree.shift, hFree.ack⟩, rfl, hStill⟩
  · exact ⟨⟨⟨⟨rfl, rfl, rfl⟩, rfl, hFree.buffer⟩, hFree.shift, hFree.ack⟩, rfl, hStill⟩

/-- A transaction that no byte of goes to the pads is given to the devices byte by
byte. -/
theorem transaction_feeds (hFree : FreePort s) (hStill : s.advancing = none) (hv : Selects v k)
    {bytes : List (Byte × List SioOp)} {rest : List Byte}
    (hBytes : bytes.map Prod.fst = 0x81 :: rest) (hLength : rest.length < 1000)
    (hPaced : Paced v bytes) (hOff : s.bus.OffPads P k (0x81 :: rest)) :
    let t := transact P (sioOp P s (.ctrl v)) bytes
    t.1.bus = s.bus.feed P k (0x81 :: rest) ∧ t.2 = s.bus.replies P k (0x81 :: rest) ∧
      t.1.advancing = none ∧ SameLine v t.1.ctrl := by
  obtain ⟨hLine, hBus, hNext⟩ := ctrlWrite_selects (P := P) hFree hStill hv
  have hCount : bytes.length = rest.length + 1 := by
    rw [← List.length_map (f := Prod.fst), hBytes, List.length_cons]
  obtain ⟨⟨_, hLineDone⟩, hDone, hFed, hReplies⟩ :=
    transact_eq_feed (P := P) hv.txEn bytes hLine hNext
    (by simp) (fun _ b hb => by rw [hBytes] at hb; simp at hb; rw [← hb]; decide)
    (by omega) hPaced (by rw [hBus, hv.slot, hBytes]; exact hOff)
  rw [hBus, hv.slot, hBytes] at hFed hReplies
  exact ⟨hFed, hReplies, hDone, hLineDone.ctrl⟩

end Transactions

/-- The step takes the checksum of a whole write of a sector to a slot. -/
def WritesSector (P : PadDevice σ) (k : Slot) (sector : Nat) (s : Sio σ) (e : SioEvent) : Prop :=
  ∃ w : SectorWrite, w.sector = sector ∧
    (∃ earlier, s.bus.taken = earlier ++ (w.sent 128).map fun b => (k, b)) ∧
    (sioStep P s e).bus.taken = s.bus.taken ++ [(k, w.checksum)]

/-- The steps between a write and a read of the same sector. -/
def OtherTraffic (P : PadDevice σ) (k : Slot) (sector : Nat) (s : Sio σ) (e : SioEvent) : Prop :=
  SlotKept s e ∧ ¬WritesSector P k sector s e

/-- A card holds the bytes of a write. -/
structure Holds (card : Card) (w : SectorWrite) : Prop where
  present : card.present = true
  data : ∀ i < 128, card.sectorData w.sector i = w.data i

theorem Holds.step {before after : Bus σ} {k : Slot} {w : SectorWrite}
    (h : Holds (before.cards k) w) (hStep : OnlyByWrite before after k)
    (hOther : ∀ w' : SectorWrite, w'.sector = w.sector →
      (∃ earlier, before.taken = earlier ++ (w'.sent 128).map fun b => (k, b)) →
      after.taken ≠ before.taken ++ [(k, w'.checksum)]) : Holds (after.cards k) w := by
  rcases hStep with hSame | ⟨w', hSent, hTaken, -, hPresent, hData⟩
  · rw [hSame]
    exact h
  · have hApart : w'.sector ≠ w.sector := fun hIs => hOther w' hIs hSent hTaken
    refine ⟨hPresent.trans h.present, fun i hi => ?_⟩
    unfold Card.sectorData
    rw [hData, if_neg (by omega)]
    exact h.data i hi

theorem written_holds {cards : Slot → Card} {k : Slot} (hPresent : (cards k).present = true)
    (w : SectorWrite) (hSector : w.sector < memcardSectors) : Holds (written cards k w k) w := by
  have hCard : written cards k w k = (cards k).writeSector w.sector w.data := if_pos rfl
  rw [hCard, Card.writeSector, if_pos ⟨hPresent, hSector⟩]
  refine ⟨hPresent, fun i hi => ?_⟩
  unfold Card.sectorData
  dsimp only
  rw [if_pos (by omega), Nat.add_sub_cancel_left]

/-- Other traffic leaves what a card holds. -/
theorem holds_between {P : PadDevice σ} {k : Slot} {w : SectorWrite} (es : List SioEvent) :
    ∀ {s : Sio σ}, Tracked s.bus → Holds (s.bus.cards k) w →
      RunOk (sioStep P) (OtherTraffic P k w.sector) s es →
      Holds ((es.foldl (sioStep P) s).bus.cards k) w := by
  induction es with
  | nil => intro s _ h _; exact h
  | cons e rest ih =>
      intro s hTracked h hOk
      obtain ⟨⟨hKept, hOther⟩, hRest⟩ := hOk
      obtain ⟨hNext, hCards⟩ := sioStep_tracked (P := P) hTracked e hKept
      have hStep : OnlyByWrite s.bus (sioStep P s e).bus k := by
        rcases hCards with hSame | ⟨j, w', hCommit⟩
        · exact .inl (congrFun hSame k)
        · exact hCommit.onlyByWrite k
      exact ih hNext (h.step hStep fun w' hIs hSent hTaken => hOther ⟨w', hIs, hSent, hTaken⟩) hRest

/-- The replies of a read that gives the bytes of a write. -/
def readReplies (w : SectorWrite) : List Byte :=
  [0x5A, 0x5D, 0x00, 0x00, 0x5C, 0x5D, w.msb, w.lsb] ++ (List.range 128).map w.data ++
    [w.checksum, 0x47]

/-- On a port that is free, a write to a card ends with 0x47. A read of the same
sector from a free port later gives the bytes of the write, if no other write
of the sector has gone to that slot and the cards were given their bytes with
their own slots selected. -/
theorem write_read {P : PadDevice σ} {cards : Slot → Card} {pad : σ} {history : List SioOp}
    (hFree : FreePort (history.foldl (sioOp P) (Sio.initial cards pad))) {k : Slot}
    (hPresent : ((history.foldl (sioOp P) (Sio.initial cards pad)).bus.cards k).present = true)
    {v : BitVec 16} (hv : Selects v k) (w : SectorWrite) (hSector : w.sector < memcardSectors)
    {a b c : Byte} {writing : List (Byte × List SioOp)}
    (hWriting : writing.map Prod.fst = w.bytes a b c) (hPaced : Paced v writing) :
    let written := transact P
      (sioOp P (history.foldl (sioOp P) (Sio.initial cards pad)) (.ctrl v)) writing
    written.2.getLast? = some 0x47 ∧
      ∀ (between : List SioOp) (v' : BitVec 16) (x y : Byte) (echo fill tail : List Byte)
        (reading : List (Byte × List SioOp)),
        RunOk (sioStep P) (OtherTraffic P k w.sector) written.1 (opEvents between) →
        FreePort (between.foldl (sioOp P) written.1) → Selects v' k →
        echo.length = 4 → fill.length = 128 → tail.length = 2 →
        reading.map Prod.fst = readBytes x y w.msb w.lsb echo fill tail → Paced v' reading →
        (transact P (sioOp P (between.foldl (sioOp P) written.1) (.ctrl v')) reading).2.drop 2 =
          readReplies w := by
  generalize hStart : history.foldl (sioOp P) (Sio.initial cards pad) = s at hFree hPresent
  have hStill : s.advancing = none := hStart ▸ ops_still rfl history
  have hParked : Parked s.bus := by
    rw [← hStart, foldl_sioOp]
    exact events_parked _ (.ofIdle (fun _ => rfl) rfl)
  obtain ⟨hDone, hLast, hOff⟩ := write_transaction (P := P) hFree.active hPresent w hSector a b c
  have hCount : (w.bytes a b c).tail.length < 1000 := by
    simp [SectorWrite.bytes, SectorWrite.sent]
  obtain ⟨hBus, hReplies, hWrittenStill, -⟩ :=
    transaction_feeds (P := P) hFree hStill hv hWriting hCount hPaced hOff
  intro written
  have hReplies : written.2 = s.bus.replies P k (w.bytes a b c) := hReplies
  have hBus : written.1.bus = s.bus.feed P k (w.bytes a b c) := hBus
  rw [hReplies]
  refine ⟨hLast, ?_⟩
  intro between v' x y echo fill tail reading hOk hFree' hv' hEcho hFill hTail hReading hPaced'
  have hWrittenParked : Parked written.1.bus := by
    rw [transact_fst]
    exact events_parked _ (sioStep_parked hParked (.ctrl v))
  have hWrittenTracked : Tracked written.1.bus :=
    tracked_idle hWrittenParked.saved (by rw [hBus]; exact hDone.state)
  have hWrittenHolds : Holds (written.1.bus.cards k) w := by
    rw [hBus, hDone.cards]
    exact written_holds hPresent w hSector
  have hHolds := holds_between (opEvents between) hWrittenTracked hWrittenHolds hOk
  rw [← foldl_sioOp] at hHolds
  have hStill' := ops_still (P := P) hWrittenStill between
  generalize between.foldl (sioOp P) written.1 = u at hHolds hFree' hStill' ⊢
  obtain ⟨p, q, r, t, rfl⟩ := List.length_eq_four.mp hEcho
  obtain ⟨e, f, rfl⟩ := List.length_eq_two.mp hTail
  obtain ⟨hRead, hReadOff⟩ := read_transaction (P := P) hFree'.active hHolds.present x y w.msb
    w.lsb hSector hFill p q r t e f
  have hReadCount : (readBytes x y w.msb w.lsb [p, q, r, t] fill [e, f]).tail.length < 1000 := by
    simp [readBytes, hFill]
  obtain ⟨-, hReadReplies, -⟩ :=
    transaction_feeds (P := P) hFree' hStill' hv' hReading hReadCount hPaced' hReadOff
  have hData : (List.range 128).map ((u.bus.cards k).sectorData w.sector) =
      (List.range 128).map w.data :=
    List.map_congr_left fun i hi => hHolds.data i (List.mem_range.mp hi)
  have hSum : checksumOf w.msb w.lsb ((u.bus.cards k).sectorData w.sector) = w.checksum :=
    checksumOf_congr hHolds.data
  rw [hReadReplies]
  refine hRead.trans ?_
  change _ ++ (List.range 128).map ((u.bus.cards k).sectorData w.sector) ++
    [checksumOf w.msb w.lsb ((u.bus.cards k).sectorData w.sector), 0x47] = _
  rw [hData, hSum]
  rfl

/-- Bytes with an advance behind each of them. -/
def timed (bytes : List Byte) : List (Byte × List SioOp) := bytes.map fun b => (b, [.advance 1300])

theorem timed_bytes (bytes : List Byte) : (timed bytes).map Prod.fst = bytes := by
  simp [timed, Function.comp_def]

theorem timed_paced (v : BitVec 16) (bytes : List Byte) : Paced v (timed bytes) := by
  intro x hx
  obtain ⟨b, -, rfl⟩ := List.mem_map.mp hx
  have hTime : sioBaudCycles + (sioAckCycles + 1) ≤ gapCycles [.advance 1300] := by decide
  refine ⟨fun op hOp => ?_, hTime⟩
  obtain rfl := List.mem_singleton.mp hOp
  trivial

theorem ctrl_otherTraffic {P : PadDevice σ} {s : Sio σ} (hStill : s.advancing = none) (k : Slot)
    (sector : Nat) (v : BitVec 16) : OtherTraffic P k sector s (.ctrl v) := by
  refine ⟨fun hIs => absurd hIs (by simp), ?_⟩
  rintro ⟨w, -, -, hTaken⟩
  rw [sioStep_still hStill] at hTaken
  have hBus : (s.apply P (.ctrl v)).bus = s.bus.control P s.ctrl v := ctrlWrite_bus v
  rw [hBus] at hTaken
  rcases control_released (P := P) s.bus s.ctrl v with hSame | hReleased
  · rw [hSame] at hTaken
    exact absurd hTaken (by simp)
  · rw [hReleased.taken] at hTaken
    exact absurd hTaken (by simp)

/-- A deselect between a write and a read. -/
theorem deselect_between {P : PadDevice σ} {s : Sio σ} {v u : BitVec 16} {k : Slot}
    (hStill : s.advancing = none) (hv : Selects v k) (hLine : SameLine v s.ctrl)
    (hReset : ctrlReset u = false) (hDeselects : ctrlSelect u = false) (sector : Nat) :
    RunOk (sioStep P) (OtherTraffic P k sector) s (opEvents [.ctrl u]) ∧
      FreePort ([SioOp.ctrl u].foldl (sioOp P) s) :=
  ⟨⟨ctrl_otherTraffic hStill k sector u, trivial⟩,
    ctrlWrite_free (hLine.select.trans hv.select) hStill hReset hDeselects⟩

/-- The sixth sector of the second card is written, the port deselected, and the
sector read. -/
theorem write_read_sixth :
    let written := transact noPads (sioOp noPads blankPort (.ctrl 0x2003))
      (timed (sixthSector.bytes 0x00 0x00 0x00))
    let deselected := [SioOp.ctrl 0x2000].foldl (sioOp noPads) written.1
    written.2.getLast? = some 0x47 ∧
      (transact noPads (sioOp noPads deselected (.ctrl 0x2003))
        (timed (readBytes 0x00 0x00 0x00 0x05
        (List.replicate 4 0x00) (List.replicate 128 0x00) (List.replicate 2 0x00)))).2.drop 2 =
        readReplies sixthSector := by
  have hFree : FreePort (([] : List SioOp).foldl (sioOp noPads) blankPort) :=
    ⟨by decide, rfl, rfl, rfl, rfl⟩
  have hv : Selects 0x2003 true := ⟨by decide, by decide, by decide, by decide⟩
  have hSector : sixthSector.sector < memcardSectors := by decide
  have hCount : (sixthSector.bytes 0x00 0x00 0x00).tail.length < 1000 := by
    simp [SectorWrite.bytes, SectorWrite.sent]
  have hOff := (write_transaction (P := noPads) hFree.active rfl sixthSector hSector
    (k := true) 0x00 0x00 0x00).2.2
  obtain ⟨-, -, hStill, hLine⟩ := transaction_feeds (P := noPads) hFree rfl hv
    (timed_bytes (sixthSector.bytes 0x00 0x00 0x00)) hCount (timed_paced _ _) hOff
  obtain ⟨hLast, hRead⟩ := write_read hFree rfl hv sixthSector hSector
    (timed_bytes (sixthSector.bytes 0x00 0x00 0x00)) (timed_paced _ _)
  obtain ⟨hOther, hDeselected⟩ := deselect_between (P := noPads) (u := 0x2000) hStill hv hLine
    (by decide) (by decide) sixthSector.sector
  exact ⟨hLast, hRead [.ctrl 0x2000] 0x2003 0x00 0x00 _ _ _ _ hOther hDeselected hv rfl rfl rfl
    (timed_bytes _) (timed_paced _ _)⟩

def emptySector : SectorWrite := ⟨0x00, 0x00, 0x00, 0x05, fun _ => 0x00⟩

/-- A byte can be sent with SELECT off: the card that a 0x81 has addressed takes
the 0x81 of the write for a command. -/
theorem write_read_unselected :
    ¬∀ (history : List SioOp) (k : Slot) (v : BitVec 16) (w : SectorWrite) (a b c : Byte)
      (writing : List (Byte × List SioOp)),
      ctrlSelect (history.foldl (sioOp noPads) blankPort).ctrl = false →
      ((history.foldl (sioOp noPads) blankPort).bus.cards k).present = true → Selects v k →
      w.sector < memcardSectors → writing.map Prod.fst = w.bytes a b c → Paced v writing →
      (transact noPads (sioOp noPads (history.foldl (sioOp noPads) blankPort) (.ctrl v))
        writing).2.getLast? = some 0x47 := by
  intro hClaim
  have hLast := hClaim [.ctrl 0x0001, .tx 0x81, .advance 1300] false 0x0003 emptySector
    0x00 0x00 0x00 (timed (emptySector.bytes 0x00 0x00 0x00)) (by decide)
    (by decide) ⟨by decide, by decide, by decide, by decide⟩ (by decide) (timed_bytes _)
    (timed_paced _ _)
  have hReplies : (transact noPads (sioOp noPads ([SioOp.ctrl 0x0001, .tx 0x81,
      .advance 1300].foldl (sioOp noPads) blankPort) (.ctrl 0x0003))
      (timed (emptySector.bytes 0x00 0x00 0x00))).2.all (fun r => r != 0x47) = true := by
    decide +kernel
  have hMem := List.mem_of_getLast? hLast
  exact absurd (List.all_eq_true.mp hReplies _ hMem) (by decide)

end RecompStudio.Runtime
