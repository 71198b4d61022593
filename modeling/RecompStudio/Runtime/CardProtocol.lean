import RecompStudio.Runtime.SioLine

/-!
What a card answers to the bytes of a whole read and of a whole write, and what
the write leaves on it.
-/

namespace RecompStudio.Runtime

/-- A write of a sector, with the two bytes behind the command. -/
structure SectorWrite where
  x : Byte
  y : Byte
  msb : Byte
  lsb : Byte
  data : Nat → Byte

namespace SectorWrite

def sector (w : SectorWrite) : Nat := sectorOf w.msb w.lsb

def checksum (w : SectorWrite) : Byte := checksumOf w.msb w.lsb w.data

/-- The bytes of the write up to some of its data. -/
@[grind =] def sent (w : SectorWrite) (n : Nat) : List Byte :=
  [0x81, 0x57, w.x, w.y, w.msb, w.lsb] ++ (List.range n).map w.data

/-- The whole write, with the bytes for the acknowledge behind it. -/
def bytes (w : SectorWrite) (a b c : Byte) : List Byte := w.sent 128 ++ [w.checksum, a, b, c]

end SectorWrite

/-- A read of a sector: the bytes behind the address are sent for the answers. -/
def readBytes (x y msb lsb : Byte) (echo fill tail : List Byte) : List Byte :=
  [0x81, 0x52, x, y, msb, lsb] ++ echo ++ fill ++ tail

variable {σ : Type}

/-- The card of a slot is in a state of its protocol. -/
structure CardAt (j : Slot) (cards : Slot → Card) (state : McState) (s : Bus σ) : Prop where
  active : s.active = .memcard
  slot : s.mcSlot = j
  cards : s.cards = cards
  state : s.mc.state = state

variable {P : PadDevice σ} {k j : Slot} {s : Bus σ} {cards : Slot → Card} {st : McState}

theorem feed_append (a b : List Byte) : s.feed P k (a ++ b) = (s.feed P k a).feed P k b :=
  List.foldl_append ..

theorem feed_cons (b : Byte) (rest : List Byte) :
    s.feed P k (b :: rest) = (s.processByte P k b).1.feed P k rest :=
  rfl

theorem replies_append (a b : List Byte) :
    s.replies P k (a ++ b) = s.replies P k a ++ (s.feed P k a).replies P k b := by
  induction a generalizing s with
  | nil => rfl
  | cons x rest ih => simp only [List.cons_append, Bus.replies, feed_cons, ih]

theorem offPads_append (a b : List Byte) :
    s.OffPads P k (a ++ b) ↔ s.OffPads P k a ∧ (s.feed P k a).OffPads P k b := by
  induction a generalizing s with
  | nil => simp [Bus.OffPads, Bus.feed]
  | cons x rest ih => simp only [List.cons_append, Bus.OffPads, feed_cons, ih, and_assoc]

/-- A byte in the middle of a transaction is the card's, whatever slot is
selected. -/
theorem CardAt.processByte (h : CardAt j cards st s) (hBusy : st ≠ .idle) (b : Byte) :
    s.processByte P k b = ({ s with taken := s.taken ++ [(k, b)] } : Bus σ).toCard b := by
  have hState : s.mc.state ≠ .idle := h.state ▸ hBusy
  simp [Bus.processByte, h.active, hState]

/-- A byte in the middle of a transaction that only moves the card's own protocol on. -/
theorem CardAt.answers {m : McVars} {r b : Byte} (h : CardAt j cards st s) (hBusy : st ≠ .idle)
    (hNext : ∀ x, (({ s with taken := x } : Bus σ).mcProcessByte b).1 =
      { s with taken := x, mc := m, rx := r }) :
    ∃ t, (s.processByte P k b).1 = t ∧ CardAt j cards m.state t ∧ t.mc = m ∧ t.rx = r := by
  have hSent : (s.processByte P k b).1 =
      { s with taken := s.taken ++ [(k, b)], mc := m, rx := r } := by
    rw [h.processByte hBusy]
    exact hNext _
  exact ⟨_, hSent, ⟨h.active, h.slot, h.cards, rfl⟩, rfl, rfl⟩

/-- The command and the first byte of the address. -/
theorem CardAt.head {c : Byte} (h : CardAt j cards .cmd s) (hCmd : c = 0x52 ∨ c = 0x57)
    (x y msb : Byte) :
    ∃ t, s.feed P k [c, x, y, msb] = t ∧ CardAt j cards .addrLsb t ∧ t.mc.cmd = c ∧
      t.mc.sectorMsb = msb ∧ (s.replies P k [c, x, y, msb]).tail = [0x5A, 0x5D, 0x00] ∧
      s.OffPads P k [c, x, y, msb] := by
  have hKnown : c = 0x52 ∨ c = 0x57 ∨ c = 0x53 := hCmd.imp_right .inl
  have hNoId : c ≠ 0x53 := by
    rintro rfl
    rcases hCmd with hRead | hWrite
    · exact absurd hRead (by decide)
    · exact absurd hWrite (by decide)
  obtain ⟨s₁, hS₁, h₁, hMc₁, -⟩ := h.answers (P := P) (k := k) (b := c)
    (m := { s.mc with cmd := c, state := .id1, flag := 0x00 }) (r := s.mc.flag) nofun
    fun x => by simp only [Bus.mcProcessByte, Bus.answer, h.state, if_pos hKnown]
  obtain ⟨s₂, hS₂, h₂, hMc₂, hRx₂⟩ := h₁.answers (P := P) (k := k) (b := x)
    (m := { s₁.mc with state := .id2 }) (r := 0x5A) nofun
    fun x => by simp only [Bus.mcProcessByte, Bus.answer, h₁.state]
  have hCmd₂ : s₂.mc.cmd = c := by rw [hMc₂, hMc₁]
  obtain ⟨s₃, hS₃, h₃, hMc₃, hRx₃⟩ := h₂.answers (P := P) (k := k) (b := y)
    (m := { s₂.mc with state := .addrMsb }) (r := 0x5D) nofun
    fun x => by simp only [Bus.mcProcessByte, Bus.answer, h₂.state, hCmd₂, if_neg hNoId]
  obtain ⟨s₄, hS₄, h₄, hMc₄, hRx₄⟩ := h₃.answers (P := P) (k := k) (b := msb)
    (m := { s₃.mc with sectorMsb := msb, state := .addrLsb }) (r := 0x00) nofun
    fun x => by simp only [Bus.mcProcessByte, Bus.answer, h₃.state]
  refine ⟨s₄, ?_, h₄, ?_, ?_, ?_, .inl h.active, ?_⟩
  · rw [feed_cons, hS₁, feed_cons, hS₂, feed_cons, hS₃, feed_cons, hS₄]
    rfl
  · rw [hMc₄, hMc₃]
    exact hCmd₂
  · rw [hMc₄]
  · simp only [Bus.replies, hS₁, hS₂, hS₃, hS₄, hRx₂, hRx₃, hRx₄, List.tail_cons]
  · simp only [Bus.OffPads, hS₁, hS₂, hS₃, h₁.active, h₂.active, h₃.active, true_or, and_true]

/-- The command of a write and its address. -/
theorem CardAt.writeHead (h : CardAt j cards .cmd s) (w : SectorWrite) :
    let t := s.feed P k [0x57, w.x, w.y, w.msb, w.lsb]
    CardAt j cards .writeLsbEcho t ∧ t.mc.sectorMsb = w.msb ∧ t.mc.sectorLsb = w.lsb ∧
      t.mc.sector = w.sector ∧ t.mc.dataIdx = 0 ∧
      s.OffPads P k [0x57, w.x, w.y, w.msb, w.lsb] := by
  obtain ⟨s₁, hS₁, h₁, hCmd, hMsb, -, hOff⟩ :=
    h.head (P := P) (k := k) (.inr rfl) w.x w.y w.msb
  have hWrite : s₁.mc.cmd ≠ 0x52 := by
    rw [hCmd]
    decide
  obtain ⟨s₂, hS₂, h₂, hMc₂, -⟩ := h₁.answers (P := P) (k := k) (b := w.lsb)
    (m := { s₁.mc with
      sectorLsb := w.lsb
      sector := sectorOf s₁.mc.sectorMsb w.lsb
      dataIdx := 0
      state := .writeLsbEcho }) (r := s₁.mc.sectorMsb) nofun
    fun x => by simp only [Bus.mcProcessByte, Bus.address, Bus.answer, h₁.state, if_neg hWrite]
  have hFeed : s.feed P k [0x57, w.x, w.y, w.msb, w.lsb] = s₂ := by
    change s.feed P k ([0x57, w.x, w.y, w.msb] ++ [w.lsb]) = s₂
    rw [feed_append, hS₁, feed_cons, hS₂]
    rfl
  have hOffAll : s.OffPads P k [0x57, w.x, w.y, w.msb, w.lsb] := by
    change s.OffPads P k ([0x57, w.x, w.y, w.msb] ++ [w.lsb])
    rw [offPads_append, hS₁]
    exact ⟨hOff, .inl h₁.active, trivial⟩
  rw [hFeed]
  refine ⟨h₂, ?_, ?_, ?_, ?_, hOffAll⟩
  · rw [hMc₂]
    exact hMsb
  · rw [hMc₂]
  · rw [hMc₂, hMsb]
    rfl
  · rw [hMc₂]

/-- The state of a card that has some of the bytes of a sector. -/
@[grind =] def bufferState (n : Nat) : McState :=
  if n = 0 then .writeLsbEcho else if n < 128 then .writeData else .writeChk

theorem bufferState_busy (n : Nat) : bufferState n ≠ .idle := by
  unfold bufferState
  split
  · simp
  · split <;> simp

theorem bufferState_succ (n : Nat) :
    bufferState (n + 1) = if 128 ≤ n + 1 then .writeChk else .writeData := by
  unfold bufferState
  rw [if_neg (Nat.succ_ne_zero n)]
  by_cases hLast : 128 ≤ n + 1
  · rw [if_pos hLast, if_neg (by omega)]
  · rw [if_neg hLast, if_pos (by omega)]

/-- Some of the bytes of a write are in the buffer. -/
structure Buffered (j : Slot) (cards : Slot → Card) (w : SectorWrite) (n : Nat) (s : Bus σ) : Prop
    extends CardAt j cards (bufferState n) s where
  msb : s.mc.sectorMsb = w.msb
  lsb : s.mc.sectorLsb = w.lsb
  sector : s.mc.sector = w.sector
  index : s.mc.dataIdx = n
  data : ∀ i < n, s.mc.data i = w.data i

theorem Buffered.next {w : SectorWrite} {n : Nat} (h : Buffered j cards w n s) (hRoom : n < 128) :
    Buffered j cards w (n + 1) (s.processByte P k (w.data n)).1 := by
  obtain ⟨hAt, hMsb, hLsb, hSector, hIndex, hData⟩ := h
  rw [hAt.processByte (bufferState_busy n)]
  obtain ⟨hActive, hSlot, hCards, hState⟩ := hAt
  have hBuffer : ∀ i < n + 1, (if i = n then w.data n else s.mc.data i) = w.data i := by
    intro i hi
    split
    · rename_i hLast
      rw [hLast]
    · exact hData i (by omega)
  have hSent : ∃ rx, (Bus.toCard { s with taken := s.taken ++ [(k, w.data n)] } (w.data n)).1 =
      { s with
        taken := s.taken ++ [(k, w.data n)]
        mc.state := bufferState (n + 1)
        mc.data := fun i => if i = n then w.data n else s.mc.data i
        mc.dataIdx := n + 1
        rx := rx } := by
    by_cases hFirst : n = 0
    · subst hFirst
      have hEcho : s.mc.state = .writeLsbEcho := hState
      exact ⟨s.mc.sectorLsb, by
        simp [Bus.toCard, Bus.mcProcessByte, Bus.answer, Bus.buffer, hEcho, hIndex, bufferState]⟩
    · have hMore : s.mc.state = .writeData := by
        rw [hState, bufferState, if_neg hFirst, if_pos hRoom]
      exact ⟨0x00, by
        simp only [Bus.toCard, Bus.mcProcessByte, Bus.answer, Bus.buffer, hMore, hIndex,
          bufferState_succ]⟩
  obtain ⟨rx, hSent⟩ := hSent
  rw [hSent]
  exact ⟨⟨hActive, hSlot, hCards, rfl⟩, hMsb, hLsb, hSector, rfl, hBuffer⟩

theorem Buffered.feed {w : SectorWrite} (h : Buffered j cards w 0 s) (n : Nat) (hRoom : n ≤ 128) :
    Buffered j cards w n (s.feed P k ((List.range n).map w.data)) ∧
      s.OffPads P k ((List.range n).map w.data) := by
  induction n with
  | zero => exact ⟨h, trivial⟩
  | succ n ih =>
      obtain ⟨hBefore, hOff⟩ := ih (by omega)
      rw [List.range_succ, List.map_append, feed_append, offPads_append]
      exact ⟨hBefore.next (by omega), hOff, .inl hBefore.active, trivial⟩

theorem checksumOf_congr {msb lsb : Byte} {data data' : Nat → Byte}
    (hSame : ∀ i < 128, data i = data' i) : checksumOf msb lsb data = checksumOf msb lsb data' := by
  unfold checksumOf
  refine List.foldl_ext _ _ _ fun sum i hi => ?_
  rw [hSame i (List.mem_range.mp hi)]

theorem writeSector_congr (card : Card) (sector : Nat) {data data' : Nat → Byte}
    (hSame : ∀ i < 128, data i = data' i) :
    card.writeSector sector data = card.writeSector sector data' := by
  unfold Card.writeSector
  split
  · congr 1
    funext a
    split
    · exact hSame _ (by omega)
    · rfl
  · rfl

/-- The cards behind a write to one of them. -/
def written (cards : Slot → Card) (j : Slot) (w : SectorWrite) : Slot → Card :=
  fun k => if k = j then (cards k).writeSector w.sector w.data else cards k

/-- The right checksum, and the bytes for the acknowledge. -/
theorem Buffered.commit {w : SectorWrite} (h : Buffered j cards w 128 s)
    (hSector : w.sector < memcardSectors) (a b c : Byte) :
    let t := s.feed P k [w.checksum, a, b, c]
    CardAt j (written cards j w) .idle t ∧ t.rx = 0x47 ∧
      s.OffPads P k [w.checksum, a, b, c] := by
  obtain ⟨⟨hActive, hSlot, hCards, hState⟩, hMsb, hLsb, hIs, hIndex, hData⟩ := h
  have hState : s.mc.state = .writeChk := hState
  have hChecksum : checksumOf s.mc.sectorMsb s.mc.sectorLsb s.mc.data = w.checksum := by
    rw [hMsb, hLsb]
    exact checksumOf_congr hData
  have hWritten : (fun k => if k = j then (cards k).writeSector w.sector s.mc.data else cards k) =
      written cards j w := by
    funext k
    unfold written
    rw [writeSector_congr _ _ hData]
  have hSent : (s.processByte P k w.checksum).1 =
      { s with
        taken := s.taken ++ [(k, w.checksum)]
        cards := written cards j w
        mc.state := .writeAck1
        mc.checksum := 0x47
        rx := 0x00 } := by
    simp [Bus.processByte, Bus.toCard, Bus.mcProcessByte, Bus.answer, Bus.commit, hActive, hState,
      hChecksum, hIs, hSector, hSlot, hCards, hWritten]
  rw [feed_cons, Bus.OffPads, hSent]
  simp only [Bus.feed, Bus.OffPads, Bus.processByte, Bus.toCard, Bus.mcProcessByte, Bus.answer,
    hActive, List.foldl_cons, List.foldl_nil]
  refine ⟨⟨?_, ?_, ?_, ?_⟩, ?_, ?_⟩ <;> simp [hSlot]

/-- The bytes of a write behind its 0x81. -/
theorem CardAt.write (h : CardAt j cards .cmd s) (w : SectorWrite)
    (hSector : w.sector < memcardSectors) (a b c : Byte) :
    CardAt j (written cards j w) .idle (s.feed P k (w.bytes a b c).tail) ∧
      (s.feed P k (w.bytes a b c).tail).rx = 0x47 ∧ s.OffPads P k (w.bytes a b c).tail := by
  have hSplit : (w.bytes a b c).tail = [0x57, w.x, w.y, w.msb, w.lsb] ++
      ((List.range 128).map w.data ++ [w.checksum, a, b, c]) := by
    simp [SectorWrite.bytes, SectorWrite.sent]
  obtain ⟨hHead, hMsb, hLsb, hIs, hIndex, hHeadOff⟩ := h.writeHead (P := P) (k := k) w
  have hStart : Buffered j cards w 0 (s.feed P k [0x57, w.x, w.y, w.msb, w.lsb]) :=
    ⟨hHead, hMsb, hLsb, hIs, hIndex, fun i hi => absurd hi (Nat.not_lt_zero i)⟩
  obtain ⟨hFull, hDataOff⟩ := hStart.feed (P := P) (k := k) 128 le_rfl
  obtain ⟨hDone, hRx, hEndOff⟩ := hFull.commit (P := P) (k := k) hSector a b c
  rw [hSplit]
  simp only [feed_append, offPads_append]
  exact ⟨hDone, hRx, hHeadOff, hDataOff, hEndOff⟩

/-- The bytes of a sector. -/
@[grind =] def Card.sectorData (card : Card) (sector : Nat) : Nat → Byte :=
  fun i => card.data (sector * 128 + i)

/-- The command of a read and its address. -/
theorem CardAt.readHead (h : CardAt j cards .cmd s) (hPresent : (cards j).present = true)
    (x y msb lsb : Byte) (hSector : sectorOf msb lsb < memcardSectors) :
    let t := s.feed P k [0x52, x, y, msb, lsb]
    CardAt j cards .readAck1 t ∧ t.mc.sectorMsb = msb ∧ t.mc.sectorLsb = lsb ∧
      t.mc.sector = sectorOf msb lsb ∧
      (∀ i < 128, t.mc.data i = (cards j).sectorData (sectorOf msb lsb) i) ∧
      t.mc.checksum = checksumOf msb lsb ((cards j).sectorData (sectorOf msb lsb)) ∧
      (s.replies P k [0x52, x, y, msb, lsb]).tail = [0x5A, 0x5D, 0x00, 0x00] ∧
      s.OffPads P k [0x52, x, y, msb, lsb] := by
  have hRead : ∀ buf, ∀ i < 128, (cards j).readSector (sectorOf msb lsb) buf i =
      (cards j).sectorData (sectorOf msb lsb) i := by
    intro buf i hi
    simp [Card.readSector, Card.sectorData, hPresent, hSector, hi]
  obtain ⟨s₁, hS₁, h₁, hCmd, hMsb, hReplies, hOff⟩ :=
    h.head (P := P) (k := k) (.inl rfl) x y msb
  have hIn : sectorOf s₁.mc.sectorMsb lsb < memcardSectors := hMsb ▸ hSector
  obtain ⟨s₂, hS₂, h₂, hMc₂, hRx₂⟩ := h₁.answers (P := P) (k := k) (b := lsb)
    (m := { s₁.mc with
      sectorLsb := lsb
      sector := sectorOf s₁.mc.sectorMsb lsb
      dataIdx := 0
      data := (cards j).readSector (sectorOf s₁.mc.sectorMsb lsb) s₁.mc.data
      checksum := checksumOf s₁.mc.sectorMsb lsb
        ((cards j).readSector (sectorOf s₁.mc.sectorMsb lsb) s₁.mc.data)
      state := .readAck1 }) (r := 0x00) nofun
    fun x => by simp only [Bus.mcProcessByte, Bus.address, Bus.answer, h₁.state, h₁.cards,
      h₁.slot, if_pos hCmd, if_pos hIn]
  rw [hMsb] at hMc₂
  have hFeed : s.feed P k [0x52, x, y, msb, lsb] = s₂ := by
    change s.feed P k ([0x52, x, y, msb] ++ [lsb]) = s₂
    rw [feed_append, hS₁, feed_cons, hS₂]
    rfl
  have hOffAll : s.OffPads P k [0x52, x, y, msb, lsb] := by
    change s.OffPads P k ([0x52, x, y, msb] ++ [lsb])
    rw [offPads_append, hS₁]
    exact ⟨hOff, .inl h₁.active, trivial⟩
  have hAll : (s.replies P k [0x52, x, y, msb, lsb]).tail =
      (s.replies P k [0x52, x, y, msb]).tail ++ [s₂.rx] := by
    change (s.replies P k ([0x52, x, y, msb] ++ [lsb])).tail = _
    rw [replies_append, hS₁, ← hS₂]
    rfl
  rw [hFeed, hAll, hReplies, hRx₂]
  refine ⟨h₂, ?_, ?_, ?_, ?_, ?_, rfl, hOffAll⟩
  · rw [hMc₂]
    exact hMsb
  · rw [hMc₂]
  · rw [hMc₂]
  · rw [hMc₂]
    exact hRead _
  · rw [hMc₂]
    dsimp only
    exact checksumOf_congr (hRead _)

/-- The acknowledge of a read and the echo of its address. -/
theorem CardAt.readEcho (h : CardAt j cards .readAck1 s) (a b c d : Byte) :
    let t := s.feed P k [a, b, c, d]
    CardAt j cards .readData t ∧ t.mc.sector = s.mc.sector ∧ t.mc.data = s.mc.data ∧
      t.mc.checksum = s.mc.checksum ∧ t.mc.dataIdx = 0 ∧
      s.replies P k [a, b, c, d] = [0x5C, 0x5D, s.mc.sectorMsb, s.mc.sectorLsb] ∧
      s.OffPads P k [a, b, c, d] := by
  obtain ⟨s₁, hS₁, h₁, hMc₁, hRx₁⟩ := h.answers (P := P) (k := k) (b := a)
    (m := { s.mc with state := .readAck2 }) (r := 0x5C) nofun
    fun x => by simp only [Bus.mcProcessByte, Bus.answer, h.state]
  obtain ⟨s₂, hS₂, h₂, hMc₂, hRx₂⟩ := h₁.answers (P := P) (k := k) (b := b)
    (m := { s₁.mc with state := .readMsbEcho }) (r := 0x5D) nofun
    fun x => by simp only [Bus.mcProcessByte, Bus.answer, h₁.state]
  obtain ⟨s₃, hS₃, h₃, hMc₃, hRx₃⟩ := h₂.answers (P := P) (k := k) (b := c)
    (m := { s₂.mc with state := .readLsbEcho }) (r := s₂.mc.sectorMsb) nofun
    fun x => by simp only [Bus.mcProcessByte, Bus.answer, h₂.state]
  obtain ⟨s₄, hS₄, h₄, hMc₄, hRx₄⟩ := h₃.answers (P := P) (k := k) (b := d)
    (m := { s₃.mc with dataIdx := 0, state := .readData }) (r := s₃.mc.sectorLsb) nofun
    fun x => by simp only [Bus.mcProcessByte, Bus.answer, h₃.state]
  have hSame : s₃.mc = { s.mc with state := .readLsbEcho } := by rw [hMc₃, hMc₂, hMc₁]
  have hFeed : s.feed P k [a, b, c, d] = s₄ := by
    rw [feed_cons, hS₁, feed_cons, hS₂, feed_cons, hS₃, feed_cons, hS₄]
    rfl
  have hReplies : s.replies P k [a, b, c, d] =
      [0x5C, 0x5D, s.mc.sectorMsb, s.mc.sectorLsb] := by
    simp only [Bus.replies, hS₁, hS₂, hS₃, hS₄, hRx₁, hRx₂, hRx₃, hRx₄, hSame]
    rw [hMc₂, hMc₁]
  have hOff : s.OffPads P k [a, b, c, d] := by
    simp only [Bus.OffPads, hS₁, hS₂, hS₃, h.active, h₁.active, h₂.active, h₃.active, true_or,
      and_true]
  rw [hFeed]
  refine ⟨h₄, ?_, ?_, ?_, ?_, hReplies, hOff⟩
  · rw [hMc₄, hSame]
  · rw [hMc₄, hSame]
  · rw [hMc₄, hSame]
  · rw [hMc₄]

theorem CardAt.readData (fill : List Byte) :
    ∀ {s : Bus σ} {i : Nat}, CardAt j cards .readData s → s.mc.dataIdx = i →
      i + fill.length = 128 → 0 < fill.length →
      let t := s.feed P k fill
      CardAt j cards .readChk t ∧ t.mc.sector = s.mc.sector ∧ t.mc.checksum = s.mc.checksum ∧
        s.replies P k fill = (List.range fill.length).map (fun n => s.mc.data (i + n)) ∧
        s.OffPads P k fill := by
  induction fill with
  | nil => intro s i _ _ _ hSome; exact absurd hSome (Nat.lt_irrefl 0)
  | cons b rest ih =>
      intro s i h hIndex hLength _
      obtain ⟨hActive, hSlot, hCards, hState⟩ := h
      have hSent : (s.processByte P k b).1 = { s with
          taken := s.taken ++ [(k, b)]
          mc.state := if 128 ≤ i + 1 then .readChk else .readData
          mc.dataIdx := i + 1
          rx := s.mc.data i } := by
        simp [Bus.processByte, Bus.toCard, Bus.mcProcessByte, Bus.answer, hActive, hState, hIndex]
      have hFill : i + (rest.length + 1) = 128 := hLength
      rw [feed_cons, Bus.replies, Bus.OffPads, hSent]
      cases rest with
      | nil =>
          have hLast : 128 ≤ i + 1 := hFill.ge
          refine ⟨⟨hActive, hSlot, hCards, if_pos hLast⟩, rfl, rfl, ?_, .inl hActive, trivial⟩
          simp [Bus.replies, List.range_succ]
      | cons b' rest' =>
          have hMore : ¬128 ≤ i + 1 := by
            simp only [List.length_cons] at hFill
            omega
          obtain ⟨hDone, hSector, hChecksum, hReplies, hOff⟩ :=
            ih (s := { s with
                taken := s.taken ++ [(k, b)]
                mc.state := if 128 ≤ i + 1 then .readChk else .readData
                mc.dataIdx := i + 1
                rx := s.mc.data i })
              (i := i + 1) ⟨hActive, hSlot, hCards, if_neg hMore⟩ rfl (by omega) (by simp)
          refine ⟨hDone, hSector, hChecksum, ?_, .inl hActive, hOff⟩
          rw [hReplies, List.length_cons (a := b), List.range_succ_eq_map, List.map_cons,
            List.map_map]
          congr 1
          refine List.map_congr_left fun n _ => ?_
          simp only [Function.comp_apply, Nat.succ_eq_add_one]
          congr 1
          omega

theorem CardAt.readEnd (h : CardAt j cards .readChk s) (hSector : s.mc.sector < memcardSectors)
    (a b : Byte) :
    CardAt j cards .idle (s.feed P k [a, b]) ∧
      s.replies P k [a, b] = [s.mc.checksum, 0x47] ∧ s.OffPads P k [a, b] := by
  obtain ⟨hActive, hSlot, hCards, hState⟩ := h
  simp only [Bus.feed, Bus.OffPads, Bus.replies, Bus.processByte, Bus.toCard, Bus.mcProcessByte,
    Bus.answer, hActive, hState, List.foldl_cons, List.foldl_nil]
  refine ⟨⟨?_, ?_, ?_, ?_⟩, ?_, ?_⟩ <;> simp [hSlot, hCards, hSector]

/-- The bytes of a read behind its 0x81. -/
theorem CardAt.read (h : CardAt j cards .cmd s) (hPresent : (cards j).present = true)
    (x y msb lsb : Byte) (hSector : sectorOf msb lsb < memcardSectors) {fill : List Byte}
    (hFill : fill.length = 128) (a b c d e f : Byte) :
    let bytes := (readBytes x y msb lsb [a, b, c, d] fill [e, f]).tail
    CardAt j cards .idle (s.feed P k bytes) ∧
      (s.replies P k bytes).tail = [0x5A, 0x5D, 0x00, 0x00, 0x5C, 0x5D, msb, lsb] ++
        (List.range 128).map ((cards j).sectorData (sectorOf msb lsb)) ++
        [checksumOf msb lsb ((cards j).sectorData (sectorOf msb lsb)), 0x47] ∧
      s.OffPads P k bytes := by
  have hSplit : (readBytes x y msb lsb [a, b, c, d] fill [e, f]).tail =
      [0x52, x, y, msb, lsb] ++ ([a, b, c, d] ++ (fill ++ [e, f])) := by
    simp [readBytes]
  obtain ⟨hHead, hMsb, hLsb, hIs, hData, hChecksum, hHeadReplies, hHeadOff⟩ :=
    h.readHead (P := P) (k := k) hPresent x y msb lsb hSector
  obtain ⟨hEcho, hEchoIs, hEchoData, hEchoSum, hEchoIdx, hEchoReplies, hEchoOff⟩ :=
    hHead.readEcho (P := P) (k := k) a b c d
  obtain ⟨hFull, hFullIs, hFullSum, hFullReplies, hFullOff⟩ :=
    CardAt.readData (P := P) (k := k) fill hEcho hEchoIdx (by omega) (by omega)
  obtain ⟨hDone, hDoneReplies, hDoneOff⟩ :=
    hFull.readEnd (P := P) (k := k) (by rw [hFullIs, hEchoIs, hIs]; exact hSector) e f
  have hBytes : (List.range fill.length).map
      (fun n => ((s.feed P k [0x52, x, y, msb, lsb]).feed P k [a, b, c, d]).mc.data (0 + n)) =
      (List.range 128).map ((cards j).sectorData (sectorOf msb lsb)) := by
    rw [hFill, hEchoData]
    refine List.map_congr_left fun n hn => ?_
    rw [Nat.zero_add]
    exact hData n (List.mem_range.mp hn)
  dsimp only
  rw [hSplit]
  simp only [feed_append, offPads_append, replies_append]
  refine ⟨hDone, ?_, hHeadOff, hEchoOff, hFullOff, hDoneOff⟩
  rw [List.tail_append_of_ne_nil (by simp [Bus.replies]), hHeadReplies, hEchoReplies, hFullReplies,
    hBytes, hDoneReplies, hFullSum, hEchoSum, hChecksum, hMsb, hLsb]
  simp

/-- A card that is there is addressed by 0x81. -/
theorem card_opened (hNone : s.active = .none) (hPresent : (s.cards k).present = true) :
    CardAt k s.cards .cmd (s.processByte P k 0x81).1 := by
  refine ⟨?_, ?_, ?_, ?_⟩ <;>
    simp [Bus.processByte, Bus.select, Bus.toCard, Bus.mcProcessByte, Bus.answer, Bus.loadSlot,
      hNone, hPresent]

theorem offPads_opened (hNone : s.active = .none) (rest : List Byte) :
    s.OffPads P k (0x81 :: rest) ↔ (s.processByte P k 0x81).1.OffPads P k rest :=
  and_iff_right (.inr ⟨hNone, by decide⟩)

theorem replies_getLast? {bytes : List Byte} (hSome : bytes ≠ []) :
    (s.replies P k bytes).getLast? = some (s.feed P k bytes).rx := by
  induction bytes generalizing s with
  | nil => exact absurd rfl hSome
  | cons b rest ih =>
      cases rest with
      | nil => rfl
      | cons b' rest' =>
          rw [Bus.replies, feed_cons, ← ih (by simp), Bus.replies, List.getLast?_cons_cons]

theorem write_transaction (hNone : s.active = .none) (hPresent : (s.cards k).present = true)
    (w : SectorWrite) (hSector : w.sector < memcardSectors) (a b c : Byte) :
    CardAt k (written s.cards k w) .idle (s.feed P k (w.bytes a b c)) ∧
      (s.replies P k (w.bytes a b c)).getLast? = some 0x47 ∧ s.OffPads P k (w.bytes a b c) := by
  obtain ⟨hDone, hRx, hOff⟩ := (card_opened (P := P) hNone hPresent).write (P := P) (k := k)
    w hSector a b c
  have hBytes : w.bytes a b c = 0x81 :: (w.bytes a b c).tail := rfl
  rw [replies_getLast? (by rw [hBytes]; simp), hBytes, feed_cons, offPads_opened hNone]
  exact ⟨hDone, congrArg some hRx, hOff⟩

theorem read_transaction (hNone : s.active = .none) (hPresent : (s.cards k).present = true)
    (x y msb lsb : Byte) (hSector : sectorOf msb lsb < memcardSectors) {fill : List Byte}
    (hFill : fill.length = 128) (a b c d e f : Byte) :
    let bytes := readBytes x y msb lsb [a, b, c, d] fill [e, f]
    (s.replies P k bytes).drop 2 = [0x5A, 0x5D, 0x00, 0x00, 0x5C, 0x5D, msb, lsb] ++
        (List.range 128).map ((s.cards k).sectorData (sectorOf msb lsb)) ++
        [checksumOf msb lsb ((s.cards k).sectorData (sectorOf msb lsb)), 0x47] ∧
      s.OffPads P k bytes := by
  obtain ⟨-, hReplies, hOff⟩ := (card_opened (P := P) hNone hPresent).read (P := P) (k := k)
    hPresent x y msb lsb hSector hFill a b c d e f
  exact ⟨hReplies, (offPads_opened hNone _).mpr hOff⟩

end RecompStudio.Runtime
