import Mathlib.Logic.Relation
import Mathlib.Tactic.Ring
import RecompStudio.Library.Serial

/-!
`ISOReader::ListFilesByLBA`: a directory extent is read into a buffer and its
records are walked. A byte outside the buffer has no value, and the result with
one among its reads has none either.
-/

namespace RecompStudio.Disc

open Serial

@[grind =] def sectorSize : Nat := 2048

/-- `ISOFileEntry`. -/
structure FileEntry where
  name : List Byte
  lba : Nat
  size : Nat
  isDirectory : Bool
deriving DecidableEq, Repr

/-- An entry, and the bytes of the record it was read from. -/
structure Found where
  record : List Byte
  entry : FileEntry
deriving DecidableEq, Repr

def dot : List Byte := [0x2E]
def dotDot : List Byte := [0x2E, 0x2E]
def semicolon : Byte := 0x3B

/-- `Read733`. -/
def read733 (data : List Byte) (i : Nat) : Option Nat := do
  let b0 ← data[i]?
  let b1 ← data[i + 1]?
  let b2 ← data[i + 2]?
  let b3 ← data[i + 3]?
  return leValue [b0, b1, b2, b3]

/-- The loop over the name: up to the version separator. -/
def nameLoop : Nat → List Byte → Option (List Byte)
  | 0, _ => some []
  | _ + 1, [] => none
  | n + 1, c :: rest => if c = semicolon then some [] else (nameLoop n rest).map (c :: ·)

/-- The name behind its length. -/
@[grind =] def readName (nameLen : Byte) (namePtr : List Byte) : Option (List Byte) := do
  if nameLen = 1 then
    let c ← namePtr[0]?
    if c = 0 then return dot
    if c = 1 then return dotDot
  nameLoop nameLen.toNat namePtr

/-- `ParseDirectoryRecord`. The inner `none` is its `false`. -/
@[grind =] def parseDirectoryRecord (data : List Byte) : Option (Option FileEntry) := do
  let recordLen ← data[0]?
  if recordLen = 0 ∨ recordLen.toNat < 33 then return none
  let lba ← read733 data 2
  let size ← read733 data 10
  let flags ← data[25]?
  let nameLen ← data[32]?
  if nameLen = 0 then return none
  let name ← readName nameLen (data.drop 33)
  return some ⟨name, lba, size, flags &&& 2 ≠ 0⟩

/-- The buffer `dir_data`: whole sectors, fewer than 2^21 of them. -/
structure DirData where
  sectors : List (Bytes sectorSize)
  bounded : sectors.length < 2 ^ 21

namespace DirData

def bytes (d : DirData) : List Byte := d.sectors.flatMap Subtype.val

theorem length_flatMap_val (sectors : List (Bytes sectorSize)) :
    (sectors.flatMap Subtype.val).length = sectorSize * sectors.length := by
  induction sectors with
  | nil => rfl
  | cons sector sectors ih =>
      rw [List.flatMap_cons, List.length_append, ih, sector.property, List.length_cons]
      ring

theorem length_bytes (d : DirData) : d.bytes.length = sectorSize * d.sectors.length :=
  length_flatMap_val d.sectors

theorem length_bytes_lt (d : DirData) : d.bytes.length + sectorSize ≤ 2 ^ 32 := by
  have hBounded := d.bounded
  rw [length_bytes]
  simp only [sectorSize] at *
  omega

end DirData

/-- The entries that are kept. -/
def isListed (e : FileEntry) : Bool := e.name ≠ dot ∧ e.name ≠ dotDot

/-- What is pushed for a record. -/
@[grind =] def pushed (record : List Byte) (parsed : Option FileEntry) : List Found :=
  match parsed with
  | some e => if isListed e then [⟨record, e⟩] else []
  | none => []

theorem lt_length_of_getElem? {bs : List Byte} {o : Nat} {b : Byte} (h : bs[o]? = some b) :
    o < bs.length := (List.getElem?_eq_some_iff.mp h).1

/-- The walk over the records. -/
@[grind =] def walk (d : DirData) (dirSize offset : Nat) : Option (List Found) :=
  if offset < dirSize then
    match hByte : d.bytes[offset]? with
    | none => none
    | some recordLen =>
        if hZero : recordLen = 0 then
          if offset % sectorSize ≠ 0 then
            walk d dirSize ((offset + (sectorSize - offset % sectorSize)) % 2 ^ 32)
          else some []
        else if d.bytes.length < (offset + recordLen.toNat) % 2 ^ 32 then some []
        else do
          let parsed ← parseDirectoryRecord (d.bytes.drop offset)
          let rest ← walk d dirSize ((offset + recordLen.toNat) % 2 ^ 32)
          return pushed ((d.bytes.drop offset).take recordLen.toNat) parsed ++ rest
  else some []
termination_by d.bytes.length - offset
decreasing_by
  -- offsets stay below 2^32, so each turn moves on
  · have hIn := lt_length_of_getElem? hByte
    have hLength := d.length_bytes_lt
    simp only [sectorSize] at *
    omega
  · have hIn := lt_length_of_getElem? hByte
    have hLength := d.length_bytes_lt
    have hLen : recordLen.toNat ≠ 0 := fun h => hZero (BitVec.eq_of_toNat_eq h)
    simp only [sectorSize] at *
    omega

section List

variable (isOpen : Bool) (readSector : BitVec 32 → Option (Bytes sectorSize))
    (lba dirSize : BitVec 32)

/-- The number of sectors, computed in 32 bits. -/
def numSectors : Nat := ((dirSize + 2047) / 2048).toNat

/-- The loop that reads the sectors. A failed read has the value `none`. -/
def readSectors : Nat → Option (List (Bytes sectorSize))
  | 0 => some []
  | i + 1 => do
      let sectors ← readSectors i
      let sector ← readSector (lba + BitVec.ofNat 32 i)
      return sectors ++ [sector]

theorem numSectors_eq : numSectors dirSize = (dirSize.toNat + 2047) % 2 ^ 32 / 2048 := by
  rw [numSectors, BitVec.toNat_udiv, BitVec.toNat_add]
  rfl

theorem numSectors_lt : numSectors dirSize < 2 ^ 21 := by
  rw [numSectors_eq]
  omega

/-- What the sectors of the extent hold. -/
def ReadsAs (sectors : List (Bytes sectorSize)) : Prop :=
  ∀ i sector, sectors[i]? = some sector → readSector (lba + BitVec.ofNat 32 i) = some sector

variable {readSector lba} in
theorem ReadsAs.unique {sectors sectors' : List (Bytes sectorSize)}
    (h : ReadsAs readSector lba sectors) (h' : ReadsAs readSector lba sectors')
    (hLength : sectors.length = sectors'.length) : sectors = sectors' := by
  refine List.ext_getElem hLength fun i hi hi' => ?_
  have hLeft := h i _ (List.getElem?_eq_getElem hi)
  have hRight := h' i _ (List.getElem?_eq_getElem hi')
  exact Option.some.inj (hLeft.symm.trans hRight)

theorem readsAs_concat {sectors : List (Bytes sectorSize)} {sector : Bytes sectorSize} :
    ReadsAs readSector lba (sectors ++ [sector]) ↔
      ReadsAs readSector lba sectors ∧
        readSector (lba + BitVec.ofNat 32 sectors.length) = some sector := by
  constructor
  · intro h
    refine ⟨fun i s hs => h i s ?_, h _ _ (by simp)⟩
    rw [List.getElem?_append_left (List.getElem?_eq_some_iff.mp hs).1, hs]
  · rintro ⟨hInit, hLast⟩ i s hs
    rcases Nat.lt_or_ge i sectors.length with hIn | hOut
    · rw [List.getElem?_append_left hIn] at hs
      exact hInit i s hs
    · rw [List.getElem?_append_right hOut, List.getElem?_singleton] at hs
      split at hs
      · obtain rfl : i = sectors.length := by omega
        rw [hLast, hs]
      · exact absurd hs (by simp)

theorem readSectors_eq_some_iff {n : Nat} {sectors : List (Bytes sectorSize)} :
    readSectors readSector lba n = some sectors ↔
      sectors.length = n ∧ ReadsAs readSector lba sectors := by
  induction n generalizing sectors with
  | zero =>
      constructor
      · intro h
        obtain rfl : [] = sectors := Option.some.inj h
        exact ⟨rfl, fun i s hs => nomatch hs⟩
      · rintro ⟨hLength, -⟩
        rw [List.length_eq_zero_iff.mp hLength]
        rfl
  | succ n ih =>
      rw [readSectors]
      constructor
      · intro h
        obtain ⟨init, hInit, hRest⟩ := Option.bind_eq_some_iff.mp h
        obtain ⟨last, hLast, hEq⟩ := Option.bind_eq_some_iff.mp hRest
        obtain rfl : init ++ [last] = sectors := Option.some.inj hEq
        obtain ⟨rfl, hReads⟩ := ih.mp hInit
        exact ⟨by simp, (readsAs_concat readSector lba).mpr ⟨hReads, hLast⟩⟩
      · rintro ⟨hLength, hReads⟩
        have hNe : sectors ≠ [] := List.ne_nil_of_length_eq_add_one hLength
        rw [← List.dropLast_concat_getLast hNe] at hReads ⊢
        obtain ⟨hInit, hLast⟩ := (readsAs_concat readSector lba).mp hReads
        have hInitLength : sectors.dropLast.length = n := by rw [List.length_dropLast]; omega
        rw [ih.mpr ⟨hInitLength, hInit⟩, ← hInitLength]
        simp only [Option.bind_eq_bind, Option.bind_some]
        rw [hLast]
        rfl

/-- `ListFilesByLBA`, with the bytes of each record beside its entry. -/
@[grind =] def listRecords : Option (List Found) :=
  if isOpen = false ∨ lba = 0 ∨ dirSize = 0 then some []
  else
    match hRead : readSectors readSector lba (numSectors dirSize) with
    | none => some []
    | some sectors => walk ⟨sectors, by
        rw [((readSectors_eq_some_iff readSector lba).mp hRead).1]
        exact numSectors_lt dirSize⟩ dirSize.toNat 0

/-- `ListFilesByLBA`. -/
def listFilesByLBA : Option (List FileEntry) :=
  (listRecords isOpen readSector lba dirSize).map fun r => r.map Found.entry

end List

/-- The name has `k` characters: then comes the separator, or its length is used up. -/
def NameEnds (namePtr : List Byte) (nameLen k : Nat) : Prop :=
  k ≤ nameLen ∧ (∀ j < k, ∃ c, namePtr[j]? = some c ∧ c ≠ semicolon) ∧
    (k = nameLen ∨ namePtr[k]? = some semicolon)

theorem nameEnds_cons {c : Byte} (hChar : c ≠ semicolon) {rest : List Byte} {n k : Nat} :
    NameEnds (c :: rest) (n + 1) (k + 1) ↔ NameEnds rest n k := by
  constructor
  · rintro ⟨hLe, hChars, hEnd⟩
    refine ⟨by omega, fun j hj => hChars (j + 1) (by omega), hEnd.imp (fun h => by omega) id⟩
  · rintro ⟨hLe, hChars, hEnd⟩
    refine ⟨by omega, fun j hj => ?_, hEnd.imp (fun h => by omega) id⟩
    cases j with
    | zero => exact ⟨c, rfl, hChar⟩
    | succ j => exact hChars j (by omega)

/-- The loop has a value exactly where the name ends inside the bytes it reads. -/
theorem nameLoop_eq_some_iff {nameLen : Nat} {namePtr name : List Byte} :
    nameLoop nameLen namePtr = some name ↔
      NameEnds namePtr nameLen name.length ∧ name <+: namePtr := by
  induction nameLen generalizing namePtr name with
  | zero =>
      constructor
      · intro h
        obtain rfl : [] = name := Option.some.inj h
        exact ⟨⟨le_rfl, fun j hj => absurd hj (Nat.not_lt_zero j), .inl rfl⟩, List.nil_prefix⟩
      · rintro ⟨⟨hLe, -, -⟩, -⟩
        rw [List.length_eq_zero_iff.mp (Nat.le_zero.mp hLe)]
        rfl
  | succ n ih =>
      cases namePtr with
      | nil =>
          constructor
          · intro h
            exact absurd h (by simp [nameLoop])
          · rintro ⟨⟨-, -, hEnd⟩, hPrefix⟩
            rw [List.prefix_nil.mp hPrefix] at hEnd
            exact absurd hEnd (by simp)
      | cons c rest =>
          by_cases hChar : c = semicolon
          · rw [nameLoop, if_pos hChar]
            constructor
            · intro h
              obtain rfl : [] = name := Option.some.inj h
              exact ⟨⟨Nat.zero_le _, fun j hj => absurd hj (Nat.not_lt_zero j),
                .inr (by rw [hChar]; rfl)⟩, List.nil_prefix⟩
            · rintro ⟨⟨-, hChars, -⟩, -⟩
              cases name with
              | nil => rfl
              | cons first tail =>
                  obtain ⟨c', hFirst, hNe⟩ := hChars 0 (by simp)
                  obtain rfl : c = c' := Option.some.inj hFirst
                  exact absurd hChar hNe
          · rw [nameLoop, if_neg hChar, Option.map_eq_some_iff]
            constructor
            · rintro ⟨tail, hTail, rfl⟩
              obtain ⟨hEnds, hPrefix⟩ := ih.mp hTail
              exact ⟨(nameEnds_cons hChar).mpr hEnds, List.cons_prefix_cons.mpr ⟨rfl, hPrefix⟩⟩
            · rintro ⟨hEnds, hPrefix⟩
              cases name with
              | nil =>
                  obtain ⟨-, -, hEnd⟩ := hEnds
                  simp only [List.length_nil, List.getElem?_cons_zero, Option.some.injEq] at hEnd
                  exact absurd hEnd (by simp [hChar])
              | cons first tail =>
                  obtain ⟨rfl, hTail⟩ := List.cons_prefix_cons.mp hPrefix
                  exact ⟨tail, ih.mpr ⟨(nameEnds_cons hChar).mp hEnds, hTail⟩, rfl⟩

theorem NameEnds.length_take {namePtr : List Byte} {n k : Nat} (h : NameEnds namePtr n k) :
    (namePtr.take k).length = k := by
  rw [List.length_take]
  cases k with
  | zero => rfl
  | succ k =>
      obtain ⟨c, hLast, -⟩ := h.2.1 k (Nat.lt_succ_self k)
      have hIn := lt_length_of_getElem? hLast
      omega

theorem nameLoop_of_nameEnds {namePtr : List Byte} {n k : Nat} (h : NameEnds namePtr n k) :
    nameLoop n namePtr = some (namePtr.take k) :=
  nameLoop_eq_some_iff.2 ⟨h.length_take.symm ▸ h, List.take_prefix k namePtr⟩

/-- The names that stand for the directory itself and for its parent. -/
def SpecialName (nameLen : Byte) (namePtr : List Byte) : Prop :=
  nameLen = 1 ∧ (namePtr[0]? = some 0 ∨ namePtr[0]? = some 1)

theorem readName_special {nameLen : Byte} {namePtr : List Byte} (h : SpecialName nameLen namePtr) :
    readName nameLen namePtr = some dot ∨ readName nameLen namePtr = some dotDot := by
  obtain ⟨rfl, hZero | hOne⟩ := h
  · exact .inl (by simp [readName, hZero])
  · exact .inr (by simp [readName, hOne])

theorem readName_regular {nameLen : Byte} {namePtr : List Byte}
    (h : ¬ SpecialName nameLen namePtr) :
    readName nameLen namePtr = nameLoop nameLen.toNat namePtr := by
  by_cases hOne : nameLen = 1
  · subst hOne
    cases namePtr with
    | nil => rfl
    | cons c rest =>
        have hZeroNe : c ≠ 0 := fun hEq => h ⟨rfl, .inl (by rw [hEq]; rfl)⟩
        have hOneNe : c ≠ 1 := fun hEq => h ⟨rfl, .inr (by rw [hEq]; rfl)⟩
        rw [readName, if_pos rfl]
        exact (if_neg hZeroNe).trans (if_neg hOneNe)
  · rw [readName, if_neg hOne]

/-- The name is part of the bytes of its record. -/
def Found.Own (f : Found) : Prop := f.entry.name <+: f.record.drop 33

/-- A record whose name ends inside it, or whose name is one of the two that are
not listed and ends inside the buffer. -/
@[grind =] def Fits (data : List Byte) : Prop :=
  ∀ recordLen nameLen, data[0]? = some recordLen → 33 ≤ recordLen.toNat →
    data[32]? = some nameLen → nameLen ≠ 0 →
    SpecialName nameLen (data.drop 33) ∨
      ∃ k, NameEnds (data.drop 33) nameLen.toNat k ∧
        (33 + k ≤ recordLen.toNat ∨ (data.drop 33).take k = dot ∨ (data.drop 33).take k = dotDot)

section Record

variable {data : List Byte} {recordLen : Byte}

theorem getElem?_of_lt_length {i : Nat} (h : i < data.length) : ∃ b, data[i]? = some b :=
  ⟨data[i], List.getElem?_eq_getElem h⟩

theorem read733_of_lt {i : Nat} (h : i + 3 < data.length) : ∃ v, read733 data i = some v := by
  obtain ⟨b0, h0⟩ := @getElem?_of_lt_length data i (by omega)
  obtain ⟨b1, h1⟩ := @getElem?_of_lt_length data (i + 1) (by omega)
  obtain ⟨b2, h2⟩ := @getElem?_of_lt_length data (i + 2) (by omega)
  obtain ⟨b3, h3⟩ := getElem?_of_lt_length h
  exact ⟨leValue [b0, b1, b2, b3], by simp [read733, h0, h1, h2, h3]⟩

theorem parseDirectoryRecord_short (hLen : data[0]? = some recordLen)
    (hShort : recordLen.toNat < 33) : parseDirectoryRecord data = some none := by
  simp [parseDirectoryRecord, hLen, hShort]

/-- The fixed part of a record lies in it. -/
theorem parseDirectoryRecord_long (hLen : data[0]? = some recordLen) (hLong : 33 ≤ recordLen.toNat)
    (hInside : recordLen.toNat ≤ data.length) :
    ∃ nameLen lba size isDirectory, data[32]? = some nameLen ∧
      parseDirectoryRecord data =
        if nameLen = 0 then some none
        else (readName nameLen (data.drop 33)).map fun name =>
          some ⟨name, lba, size, isDirectory⟩ := by
  obtain ⟨lba, hLba⟩ := @read733_of_lt data 2 (by omega)
  obtain ⟨size, hSize⟩ := @read733_of_lt data 10 (by omega)
  obtain ⟨flags, hFlags⟩ := @getElem?_of_lt_length data 25 (by omega)
  obtain ⟨nameLen, hName⟩ := @getElem?_of_lt_length data 32 (by omega)
  refine ⟨nameLen, lba, size, flags &&& 2 ≠ 0, hName, ?_⟩
  have hNonzero : ¬ (recordLen = 0 ∨ recordLen.toNat < 33) := by
    rintro (rfl | hShort)
    · exact absurd hLong (by decide)
    · omega
  rw [parseDirectoryRecord, hLen, hLba, hSize, hFlags, hName]
  simp only [Option.bind_eq_bind, Option.bind_some, if_neg hNonzero, Option.pure_def]
  split
  · rfl
  · cases readName nameLen (data.drop 33) <;> rfl

/-- The name of an entry that is kept lies in the record exactly if it ends there. -/
theorem own_iff_prefixed {name : List Byte} {lba size : Nat} {isDirectory : Bool}
    (hPrefix : name <+: data.drop 33) (hInside : recordLen.toNat ≤ data.length)
    (hLong : 33 ≤ recordLen.toNat) :
    (∀ f ∈ pushed (data.take recordLen.toNat) (some ⟨name, lba, size, isDirectory⟩), f.Own) ↔
      33 + name.length ≤ recordLen.toNat ∨ name = dot ∨ name = dotDot := by
  have hOwn : name <+: (data.take recordLen.toNat).drop 33 ↔
      33 + name.length ≤ recordLen.toNat := by
    rw [List.drop_take]
    constructor
    · intro h
      have hLength := h.length_le
      simp only [List.length_take, List.length_drop] at hLength
      omega
    · intro h
      exact List.prefix_take_iff.mpr ⟨hPrefix, by omega⟩
  by_cases hListed : isListed ⟨name, lba, size, isDirectory⟩
  · have hNames := of_decide_eq_true hListed
    simp only [pushed, if_pos hListed, List.mem_singleton, forall_eq]
    exact hOwn.trans ⟨.inl, fun h => h.resolve_right (not_or.mpr hNames)⟩
  · have hNames : name = dot ∨ name = dotDot := by
      by_contra hNone
      exact hListed (decide_eq_true (not_or.mp hNone))
    simp only [pushed, if_neg hListed, List.not_mem_nil, false_implies, implies_true, true_iff]
    exact .inr hNames

/-- The entry of a record is read from its own bytes exactly if it fits. -/
theorem parseDirectoryRecord_own_iff (hLen : data[0]? = some recordLen)
    (hInside : recordLen.toNat ≤ data.length) :
    (∃ parsed, parseDirectoryRecord data = some parsed ∧
      ∀ f ∈ pushed (data.take recordLen.toNat) parsed, f.Own) ↔ Fits data := by
  by_cases hLong : 33 ≤ recordLen.toNat
  case neg =>
    constructor
    · intro _ len nameLen hLen' hLong'
      obtain rfl : recordLen = len := Option.some.inj (hLen.symm.trans hLen')
      exact absurd hLong' hLong
    · intro _
      exact ⟨none, parseDirectoryRecord_short hLen (by omega), fun f hf => nomatch hf⟩
  obtain ⟨nameLen, lba, size, isDirectory, hName, hParse⟩ :=
    parseDirectoryRecord_long hLen hLong hInside
  have hFits : Fits data ↔ (nameLen ≠ 0 → SpecialName nameLen (data.drop 33) ∨
      ∃ k, NameEnds (data.drop 33) nameLen.toNat k ∧ (33 + k ≤ recordLen.toNat ∨
        (data.drop 33).take k = dot ∨ (data.drop 33).take k = dotDot)) := by
    constructor
    · exact fun h => h recordLen nameLen hLen hLong hName
    · intro h len n hLen' _ hName'
      obtain rfl : recordLen = len := Option.some.inj (hLen.symm.trans hLen')
      obtain rfl : nameLen = n := Option.some.inj (hName.symm.trans hName')
      exact h
  rw [hFits, hParse]
  by_cases hZero : nameLen = 0
  · rw [if_pos hZero]
    exact ⟨fun _ h => absurd hZero h, fun _ => ⟨none, rfl, fun f hf => nomatch hf⟩⟩
  rw [if_neg hZero]
  by_cases hSpecial : SpecialName nameLen (data.drop 33)
  · refine ⟨fun _ _ => .inl hSpecial, fun _ => ?_⟩
    -- neither of the two names is pushed
    rcases readName_special hSpecial with hRead | hRead
    all_goals
      rw [hRead]
      exact ⟨_, rfl, fun f hf => absurd hf (by simp [pushed, isListed])⟩
  rw [readName_regular hSpecial]
  constructor
  · rintro ⟨parsed, hParsed, hOwn⟩ -
    obtain ⟨name, hRead, rfl⟩ := Option.map_eq_some_iff.mp hParsed
    obtain ⟨hEnds, hPrefix⟩ := nameLoop_eq_some_iff.1 hRead
    refine .inr ⟨name.length, hEnds, ?_⟩
    rw [← List.prefix_iff_eq_take.mp hPrefix]
    exact (own_iff_prefixed hPrefix hInside hLong).mp hOwn
  · intro h
    obtain ⟨k, hEnds, hPlace⟩ := (h hZero).resolve_left hSpecial
    rw [nameLoop_of_nameEnds hEnds]
    refine ⟨_, rfl, (own_iff_prefixed (List.take_prefix k _) hInside hLong).mpr ?_⟩
    rw [hEnds.length_take]
    exact hPlace

end Record

/-- From one place of the walk to the next. -/
inductive Next (bytes : List Byte) (dirSize : Nat) : Nat → Nat → Prop
  | skip {o : Nat} (hMore : o < dirSize) (hZero : bytes[o]? = some 0)
      (hTail : o % sectorSize ≠ 0) : Next bytes dirSize o (o + (sectorSize - o % sectorSize))
  | record {o : Nat} {recordLen : Byte} (hMore : o < dirSize)
      (hLen : bytes[o]? = some recordLen) (hNonzero : recordLen ≠ 0)
      (hInside : o + recordLen.toNat ≤ bytes.length) : Next bytes dirSize o (o + recordLen.toNat)

/-- A record of the walk that lies in the buffer. -/
def RecordAt (bytes : List Byte) (dirSize o : Nat) : Prop :=
  o < dirSize ∧ ∃ recordLen, bytes[o]? = some recordLen ∧ recordLen ≠ 0 ∧
    o + recordLen.toNat ≤ bytes.length

section Walk

variable {d : DirData} {dirSize o : Nat}

theorem walk_end (hEnd : dirSize ≤ o) : walk d dirSize o = some [] := by
  rw [walk, if_neg (by omega)]

theorem walk_outside (hMore : o < dirSize) (hOut : d.bytes[o]? = none) :
    walk d dirSize o = none := by
  rw [walk, if_pos hMore]
  split
  · rfl
  · rename_i recordLen hByte
    exact absurd (hOut.symm.trans hByte) (by simp)

variable {recordLen : Byte}

theorem walk_eq (hMore : o < dirSize) (hLen : d.bytes[o]? = some recordLen) :
    walk d dirSize o =
      if recordLen = 0 then
        if o % sectorSize ≠ 0 then walk d dirSize ((o + (sectorSize - o % sectorSize)) % 2 ^ 32)
        else some []
      else if d.bytes.length < (o + recordLen.toNat) % 2 ^ 32 then some []
      else do
        let parsed ← parseDirectoryRecord (d.bytes.drop o)
        let rest ← walk d dirSize ((o + recordLen.toNat) % 2 ^ 32)
        return pushed ((d.bytes.drop o).take recordLen.toNat) parsed ++ rest := by
  rw [walk, if_pos hMore]
  split
  · rename_i hNone
    exact absurd (hNone.symm.trans hLen) (by simp)
  · rename_i len hByte
    obtain rfl : len = recordLen := Option.some.inj (hByte.symm.trans hLen)
    simp only [dite_eq_ite]

theorem offset_mod (hLen : d.bytes[o]? = some recordLen) :
    (o + recordLen.toNat) % 2 ^ 32 = o + recordLen.toNat := by
  have hIn := lt_length_of_getElem? hLen
  have hLength := d.length_bytes_lt
  simp only [sectorSize] at *
  omega

theorem boundary_mod (hLen : d.bytes[o]? = some recordLen) :
    (o + (sectorSize - o % sectorSize)) % 2 ^ 32 = o + (sectorSize - o % sectorSize) := by
  have hIn := lt_length_of_getElem? hLen
  have hLength := d.length_bytes_lt
  simp only [sectorSize] at *
  omega

theorem walk_skip (hMore : o < dirSize) (hZero : d.bytes[o]? = some 0)
    (hTail : o % sectorSize ≠ 0) :
    walk d dirSize o = walk d dirSize (o + (sectorSize - o % sectorSize)) := by
  rw [walk_eq hMore hZero, if_pos rfl, if_pos hTail, boundary_mod hZero]

theorem walk_stop (hMore : o < dirSize) (hZero : d.bytes[o]? = some 0)
    (hBoundary : o % sectorSize = 0) : walk d dirSize o = some [] := by
  rw [walk_eq hMore hZero, if_pos rfl, if_neg (not_not.mpr hBoundary)]

theorem walk_over (hMore : o < dirSize) (hLen : d.bytes[o]? = some recordLen)
    (hNonzero : recordLen ≠ 0) (hOver : d.bytes.length < o + recordLen.toNat) :
    walk d dirSize o = some [] := by
  rw [walk_eq hMore hLen, if_neg hNonzero, offset_mod hLen, if_pos hOver]

theorem walk_record (hMore : o < dirSize) (hLen : d.bytes[o]? = some recordLen)
    (hNonzero : recordLen ≠ 0) (hInside : o + recordLen.toNat ≤ d.bytes.length) :
    walk d dirSize o = (do
      let parsed ← parseDirectoryRecord (d.bytes.drop o)
      let rest ← walk d dirSize (o + recordLen.toNat)
      return pushed ((d.bytes.drop o).take recordLen.toNat) parsed ++ rest) := by
  rw [walk_eq hMore hLen, if_neg hNonzero, offset_mod hLen, if_neg (by omega)]

/-- Nothing follows a place with no next one. -/
theorem forall_reached_of_stuck {P : Nat → Prop} (hStuck : ∀ o', ¬ Next d.bytes dirSize o o') :
    (∀ p, Relation.ReflTransGen (Next d.bytes dirSize) o p → P p) ↔ P o := by
  refine ⟨fun h => h o .refl, fun hP p hReach => ?_⟩
  rcases hReach.cases_head with rfl | ⟨o', hNext, -⟩
  · exact hP
  · exact absurd hNext (hStuck o')

/-- A place, and what follows its only next one. -/
theorem forall_reached_of_next {P : Nat → Prop} {o' : Nat} (hNext : Next d.bytes dirSize o o')
    (hOnly : ∀ o'', Next d.bytes dirSize o o'' → o'' = o') :
    (∀ p, Relation.ReflTransGen (Next d.bytes dirSize) o p → P p) ↔
      P o ∧ ∀ p, Relation.ReflTransGen (Next d.bytes dirSize) o' p → P p := by
  constructor
  · exact fun h => ⟨h o .refl, fun p hReach => h p (hReach.head hNext)⟩
  · rintro ⟨hHere, hRest⟩ p hReach
    rcases hReach.cases_head with rfl | ⟨o'', hStep, hReach'⟩
    · exact hHere
    · rw [hOnly o'' hStep] at hReach'
      exact hRest p hReach'

/-- A record, and the rest of the walk. -/
theorem own_bind_iff {parsed : Option (Option FileEntry)} {rest : Option (List Found)}
    {record : List Byte} :
    (∃ r, (do
        let p ← parsed
        let l ← rest
        return pushed record p ++ l) = some r ∧ ∀ f ∈ r, f.Own) ↔
      (∃ p, parsed = some p ∧ ∀ f ∈ pushed record p, f.Own) ∧
        ∃ l, rest = some l ∧ ∀ f ∈ l, f.Own := by
  cases parsed with
  | none => simp
  | some p =>
      cases rest with
      | none => simp
      | some l => simp [or_imp, forall_and]

/-- The walk reads inside the buffer and takes each name from its own record
exactly if every record it comes to fits. -/
theorem walk_own_iff (hBound : dirSize ≤ d.bytes.length) :
    (∃ r, walk d dirSize o = some r ∧ ∀ f ∈ r, f.Own) ↔
      ∀ p, Relation.ReflTransGen (Next d.bytes dirSize) o p →
        RecordAt d.bytes dirSize p → Fits (d.bytes.drop p) := by
  have hNil : ∃ r, some ([] : List Found) = some r ∧ ∀ f ∈ r, f.Own :=
    ⟨[], rfl, fun f hf => nomatch hf⟩
  induction hLeft : d.bytes.length - o using Nat.strong_induction_on generalizing o with
  | _ left ih =>
      by_cases hMore : o < dirSize
      case neg =>
        rw [walk_end (by omega), forall_reached_of_stuck]
        · exact iff_of_true hNil fun h => absurd h.1 hMore
        · rintro o' (⟨h, -, -⟩ | ⟨h, -, -, -⟩)
          all_goals exact hMore h
      obtain ⟨recordLen, hLen⟩ := @getElem?_of_lt_length d.bytes o (by omega)
      by_cases hZero : recordLen = 0
      · subst hZero
        have hNone : RecordAt d.bytes dirSize o → Fits (d.bytes.drop o) := by
          rintro ⟨-, len, hLen', hNonzero, -⟩
          exact absurd (Option.some.inj (hLen'.symm.trans hLen)) hNonzero
        by_cases hTail : o % sectorSize = 0
        · rw [walk_stop hMore hLen hTail, forall_reached_of_stuck]
          · exact iff_of_true hNil hNone
          · rintro o' (⟨-, -, h⟩ | ⟨-, h, hNonzero, -⟩)
            · exact h hTail
            · exact hNonzero (Option.some.inj (h.symm.trans hLen))
        · have hNext : Next d.bytes dirSize o _ := .skip hMore hLen hTail
          have hLeft' : d.bytes.length - (o + (sectorSize - o % sectorSize)) < left := by
            simp only [sectorSize] at *
            omega
          rw [walk_skip hMore hLen hTail, forall_reached_of_next hNext]
          · exact (ih _ hLeft' rfl).trans (and_iff_right hNone).symm
          · rintro o' (⟨-, -, -⟩ | ⟨-, h, hNonzero, -⟩)
            · rfl
            · exact absurd (Option.some.inj (h.symm.trans hLen)) hNonzero
      by_cases hInside : o + recordLen.toNat ≤ d.bytes.length
      · have hNext : Next d.bytes dirSize o _ := .record hMore hLen hZero hInside
        have hPos : recordLen.toNat ≠ 0 := fun h => hZero (BitVec.eq_of_toNat_eq h)
        have hLeft' : d.bytes.length - (o + recordLen.toNat) < left := by omega
        have hHere : (RecordAt d.bytes dirSize o → Fits (d.bytes.drop o)) ↔ Fits (d.bytes.drop o) :=
          ⟨fun h => h ⟨hMore, recordLen, hLen, hZero, hInside⟩, fun h _ => h⟩
        have hRecord := @parseDirectoryRecord_own_iff (d.bytes.drop o) recordLen
          (by rw [List.getElem?_drop]; exact hLen) (by rw [List.length_drop]; omega)
        rw [walk_record hMore hLen hZero hInside, forall_reached_of_next hNext]
        · exact own_bind_iff.trans (and_congr (hRecord.trans hHere.symm) (ih _ hLeft' rfl))
        · rintro o' (⟨-, h, -⟩ | ⟨-, h, -, -⟩)
          · exact absurd (Option.some.inj (hLen.symm.trans h)) hZero
          · rw [Option.some.inj (hLen.symm.trans h)]
      · rw [walk_over hMore hLen hZero (by omega), forall_reached_of_stuck]
        · refine iff_of_true hNil ?_
          rintro ⟨-, len, hLen', -, hIn⟩
          obtain rfl : recordLen = len := Option.some.inj (hLen.symm.trans hLen')
          exact absurd hIn hInside
        · rintro o' (⟨-, h, -⟩ | ⟨-, h, -, hIn⟩)
          · exact hZero (Option.some.inj (hLen.symm.trans h))
          · rw [← Option.some.inj (hLen.symm.trans h)] at hIn
            exact hInside hIn

end Walk

variable {isOpen : Bool} {readSector : BitVec 32 → Option (Bytes sectorSize)}
    {lba dirSize : BitVec 32}

theorem listRecords_of_readsAs (hOpen : isOpen = true) (hLba : lba ≠ 0) (hSize : dirSize ≠ 0)
    {sectors : List (Bytes sectorSize)} (hCount : sectors.length = numSectors dirSize)
    (hReads : ReadsAs readSector lba sectors) :
    ∃ hBounded, listRecords isOpen readSector lba dirSize =
      walk ⟨sectors, hBounded⟩ dirSize.toNat 0 := by
  have hRead := (readSectors_eq_some_iff readSector lba).mpr ⟨hCount, hReads⟩
  refine ⟨hCount ▸ numSectors_lt dirSize, ?_⟩
  have hGuard : ¬ (isOpen = false ∨ lba = 0 ∨ dirSize = 0) := by
    rintro (h | h | h)
    · exact absurd (hOpen.symm.trans h) (by decide)
    · exact hLba h
    · exact hSize h
  rw [listRecords, if_neg hGuard]
  split
  · rename_i hNone
    exact absurd (hNone.symm.trans hRead) (by simp)
  · rename_i sectors' hSome
    obtain rfl : sectors' = sectors := Option.some.inj (hSome.symm.trans hRead)
    rfl

/-- Where a sector cannot be read, nothing is listed. -/
theorem listRecords_of_unread
    (hUnread : ∀ sectors, sectors.length = numSectors dirSize → ¬ ReadsAs readSector lba sectors) :
    listRecords isOpen readSector lba dirSize = some [] := by
  rw [listRecords]
  split
  · rfl
  · split
    · rfl
    · rename_i sectors hSome
      obtain ⟨hCount, hReads⟩ := (readSectors_eq_some_iff readSector lba).mp hSome
      exact absurd hReads (hUnread sectors hCount)

/-- The size of a directory that 32 bits round up to whole sectors. -/
def maxDirSize : Nat := 0xFFFFF800

/-- What the listing rests on: a size that can be rounded up, and records that fit
wherever the walk comes to one. -/
def ExtentFits (readSector : BitVec 32 → Option (Bytes sectorSize))
    (lba dirSize : BitVec 32) : Prop :=
  dirSize.toNat ≤ maxDirSize ∧
    ∀ sectors, sectors.length = (dirSize.toNat + 2047) / 2048 → ReadsAs readSector lba sectors →
      ∀ o, Relation.ReflTransGen (Next (sectors.flatMap Subtype.val) dirSize.toNat) 0 o →
        RecordAt (sectors.flatMap Subtype.val) dirSize.toNat o →
        Fits ((sectors.flatMap Subtype.val).drop o)

theorem listRecords_own_iff :
    (∃ r, listRecords isOpen readSector lba dirSize = some r ∧ ∀ f ∈ r, f.Own) ↔
      isOpen = false ∨ lba = 0 ∨ dirSize = 0 ∨ ExtentFits readSector lba dirSize := by
  by_cases hGuard : isOpen = false ∨ lba = 0 ∨ dirSize = 0
  · refine iff_of_true ⟨[], by rw [listRecords, if_pos hGuard], fun f hf => nomatch hf⟩ ?_
    exact hGuard.imp id (Or.imp id .inl)
  have hOpen : isOpen = true := by simpa using fun h => hGuard (.inl h)
  have hLba : lba ≠ 0 := fun h => hGuard (.inr (.inl h))
  have hSize : dirSize ≠ 0 := fun h => hGuard (.inr (.inr h))
  have hOnly : (isOpen = false ∨ lba = 0 ∨ dirSize = 0 ∨ ExtentFits readSector lba dirSize) ↔
      ExtentFits readSector lba dirSize :=
    ⟨fun h => ((h.resolve_left fun h => hGuard (.inl h)).resolve_left hLba).resolve_left hSize,
      fun h => .inr (.inr (.inr h))⟩
  have hPos : dirSize.toNat ≠ 0 := fun h => hSize (BitVec.eq_of_toNat_eq h)
  have hCount := numSectors_eq dirSize
  have hLt := dirSize.isLt
  rw [hOnly]
  by_cases hMax : dirSize.toNat ≤ maxDirSize
  · have hRound : numSectors dirSize = (dirSize.toNat + 2047) / 2048 := by
      simp only [maxDirSize] at hMax
      omega
    by_cases hUnread : ∀ sectors, sectors.length = numSectors dirSize →
      ¬ ReadsAs readSector lba sectors
    · refine iff_of_true ⟨[], listRecords_of_unread hUnread, fun f hf => nomatch hf⟩ ⟨hMax, ?_⟩
      exact fun sectors hLength hReads =>
        absurd hReads (hUnread sectors (hLength.trans hRound.symm))
    · obtain ⟨sectors, hUnread⟩ := not_forall.mp hUnread
      obtain ⟨hLength, hReads⟩ := Classical.not_imp.mp hUnread
      have hReads := not_not.mp hReads
      obtain ⟨hBounded, hList⟩ := listRecords_of_readsAs hOpen hLba hSize hLength hReads
      have hBound : dirSize.toNat ≤ (DirData.mk sectors hBounded).bytes.length := by
        rw [DirData.length_bytes, hLength, hRound]
        simp only [sectorSize]
        omega
      rw [hList, walk_own_iff hBound]
      constructor
      · intro h
        refine ⟨hMax, fun sectors' hLength' hReads' => ?_⟩
        obtain rfl : sectors = sectors' :=
          hReads.unique hReads' (hLength.trans (hRound.trans hLength'.symm))
        exact h
      · exact fun h => h.2 sectors (hLength.trans hRound) hReads
  · -- the rounded size is zero, and the first byte lies outside the buffer
    have hNone : numSectors dirSize = 0 := by
      simp only [maxDirSize] at hMax
      omega
    obtain ⟨hBounded, hList⟩ :=
      @listRecords_of_readsAs isOpen readSector lba dirSize hOpen hLba hSize
      [] hNone.symm fun i s hs => nomatch hs
    refine iff_of_false ?_ fun h => hMax h.1
    rw [hList, walk_outside (by omega) rfl]
    rintro ⟨r, hr, -⟩
    exact nomatch hr

end RecompStudio.Disc
