import RecompStudio.Disc.Directory

/-!
Directories in sectors: records that do not cross sectors and zeros behind them.
The listing of one is its records, without those of the directory itself and of
its parent.
-/

namespace RecompStudio.Disc

open Serial

/-- A number with both ends first. -/
@[grind =]
def bothEndian (x : BitVec 32) : List Byte := leBytes 4 x.toNat ++ (leBytes 4 x.toNat).reverse

/-- The identifiers of the directory itself and of its parent. -/
def isSpecial (ident : List Byte) : Bool := ident = [0] ∨ ident = [1]

/-- The name in an identifier, without the version. -/
def nameOf (ident : List Byte) : List Byte := ident.takeWhile (· ≠ semicolon)

/-- A directory record. -/
structure Record where
  attributeLength : Byte
  lba : BitVec 32
  size : BitVec 32
  date : Bytes 7
  flags : Byte
  interleave : Bytes 6
  ident : List Byte
  systemUse : List Byte
  ident_ne : ident ≠ []
  named : isSpecial ident = false → nameOf ident ≠ dot ∧ nameOf ident ≠ dotDot
  length_le : 33 + ident.length + systemUse.length ≤ 255

namespace Record

@[grind =] def length (r : Record) : Nat := 33 + r.ident.length + r.systemUse.length

def bytes (r : Record) : List Byte :=
  BitVec.ofNat 8 r.length :: r.attributeLength :: (bothEndian r.lba ++ (bothEndian r.size ++
    (r.date.val ++ r.flags :: (r.interleave.val ++
      BitVec.ofNat 8 r.ident.length :: (r.ident ++ r.systemUse)))))

/-- Its entry, if it is listed. -/
@[grind =] def entry (r : Record) : FileEntry :=
  ⟨nameOf r.ident, r.lba.toNat, r.size.toNat, r.flags &&& 2 ≠ 0⟩

theorem length_bothEndian (x : BitVec 32) : (bothEndian x).length = 8 := by
  simp [bothEndian]

theorem length_bytes (r : Record) : r.bytes.length = r.length := by
  have hDate := r.date.property
  have hInterleave := r.interleave.property
  simp only [bytes, List.length_cons, List.length_append, length_bothEndian, hDate, hInterleave,
    length]
  omega

theorem toNat_length (r : Record) : (BitVec.ofNat 8 r.length).toNat = r.length := by
  have hLe := r.length_le
  rw [BitVec.toNat_ofNat]
  exact Nat.mod_eq_of_lt (by simp only [length]; omega)

theorem toNat_identLength (r : Record) :
    (BitVec.ofNat 8 r.ident.length).toNat = r.ident.length := by
  have hLe := r.length_le
  rw [BitVec.toNat_ofNat]
  exact Nat.mod_eq_of_lt (by omega)

theorem length_ne (r : Record) : BitVec.ofNat 8 r.length ≠ 0 := by
  intro h
  have hLength := r.toNat_length
  rw [h] at hLength
  change 0 = 33 + r.ident.length + r.systemUse.length at hLength
  omega

theorem read733_bothEndian {front rest : List Byte} {i : Nat} (hFront : front.length = i)
    (x : BitVec 32) : read733 (front ++ (bothEndian x ++ rest)) i = some x.toNat := by
  have hByte (j : Nat) (hj : j < 4) :
      (front ++ (bothEndian x ++ rest))[i + j]? = (leBytes 4 x.toNat)[j]? := by
    rw [List.getElem?_append_right (by omega), hFront, Nat.add_sub_cancel_left, bothEndian,
      List.append_assoc, List.getElem?_append_left (by simpa using hj)]
  have hValue : leValue (leBytes 4 x.toNat) = x.toNat := by
    rw [leValue_leBytes]
    exact Nat.mod_eq_of_lt x.isLt
  have h0 := hByte 0 (by decide)
  have h1 := hByte 1 (by decide)
  have h2 := hByte 2 (by decide)
  have h3 := hByte 3 (by decide)
  rw [Nat.add_zero] at h0
  rw [read733, h0, h1, h2, h3]
  exact congrArg some hValue

theorem getElem?_behind {front rest : List Byte} {b : Byte} {i : Nat} (hFront : front.length = i) :
    (front ++ b :: rest)[i]? = some b := by
  rw [List.getElem?_append_right (by omega), hFront, Nat.sub_self]
  rfl

section Parse

variable (r : Record) (rest : List Byte)

theorem read733_lba : read733 (r.bytes ++ rest) 2 = some r.lba.toNat := by
  rw [show r.bytes ++ rest = [BitVec.ofNat 8 r.length, r.attributeLength] ++ (bothEndian r.lba ++ _)
    by rw [bytes, List.cons_append, List.cons_append, List.append_assoc]; rfl]
  exact read733_bothEndian rfl r.lba

theorem read733_size : read733 (r.bytes ++ rest) 10 = some r.size.toNat := by
  rw [show r.bytes ++ rest = (BitVec.ofNat 8 r.length :: r.attributeLength :: bothEndian r.lba) ++
    (bothEndian r.size ++ _) by simp only [bytes, List.cons_append, List.append_assoc]; rfl]
  exact read733_bothEndian (by simp [length_bothEndian]) r.size

theorem flags_read : (r.bytes ++ rest)[25]? = some r.flags := by
  rw [show r.bytes ++ rest = (BitVec.ofNat 8 r.length :: r.attributeLength ::
    (bothEndian r.lba ++ (bothEndian r.size ++ r.date.val))) ++ r.flags :: _
    by simp only [bytes, List.cons_append, List.append_assoc]; rfl]
  exact getElem?_behind (by simp [length_bothEndian, r.date.property])

/-- The bytes in front of the identifier, without its length. -/
@[grind =] def front (r : Record) : List Byte :=
  BitVec.ofNat 8 r.length :: r.attributeLength :: (bothEndian r.lba ++ (bothEndian r.size ++
    (r.date.val ++ r.flags :: r.interleave.val)))

theorem length_front : r.front.length = 32 := by
  simp [front, length_bothEndian, r.date.property, r.interleave.property]

theorem bytes_front : r.bytes ++ rest =
    r.front ++ BitVec.ofNat 8 r.ident.length :: (r.ident ++ (r.systemUse ++ rest)) := by
  simp [bytes, front]

theorem nameLen_read : (r.bytes ++ rest)[32]? = some (BitVec.ofNat 8 r.ident.length) := by
  rw [bytes_front]
  exact getElem?_behind r.length_front

theorem drop_bytes : (r.bytes ++ rest).drop 33 = r.ident ++ (r.systemUse ++ rest) := by
  rw [bytes_front, List.drop_append, List.drop_eq_nil_of_le (by rw [length_front]; omega),
    length_front]
  rfl

end Parse

theorem nameLoop_ident (ident rest : List Byte) :
    nameLoop ident.length (ident ++ rest) = some (nameOf ident) := by
  induction ident with
  | nil => rfl
  | cons c ident ih =>
      rw [List.length_cons, List.cons_append, nameLoop, nameOf, List.takeWhile_cons]
      by_cases hChar : c = semicolon
      · rw [if_pos hChar, if_neg (by simpa using hChar)]
      · rw [if_neg hChar, if_pos (by simpa using hChar), ih]
        rfl

/-- What is pushed for a record. -/
def found (r : Record) : List Found := if isSpecial r.ident then [] else [⟨r.bytes, r.entry⟩]

theorem readName_ident (r : Record) (rest : List Byte) :
    ∃ name, readName (BitVec.ofNat 8 r.ident.length) (r.ident ++ rest) = some name ∧
      if isSpecial r.ident then name = dot ∨ name = dotDot else name = nameOf r.ident := by
  by_cases hSpecial : isSpecial r.ident
  · have hIdent := of_decide_eq_true hSpecial
    have hName : SpecialName (BitVec.ofNat 8 r.ident.length) (r.ident ++ rest) := by
      rcases hIdent with hSelf | hParent
      · exact ⟨by rw [hSelf]; rfl, .inl (by rw [hSelf]; rfl)⟩
      · exact ⟨by rw [hParent]; rfl, .inr (by rw [hParent]; rfl)⟩
    simp only [if_pos hSpecial]
    rcases readName_special hName with hRead | hRead
    · exact ⟨dot, hRead, .inl rfl⟩
    · exact ⟨dotDot, hRead, .inr rfl⟩
  · have hName : ¬ SpecialName (BitVec.ofNat 8 r.ident.length) (r.ident ++ rest) := by
      rintro ⟨hOne, hFirst⟩
      have hLength : r.ident.length = 1 := by
        rw [← r.toNat_identLength, hOne]
        rfl
      obtain ⟨c, hIdent⟩ := List.length_eq_one_iff.mp hLength
      rw [hIdent] at hFirst
      refine hSpecial (decide_eq_true ?_)
      rw [hIdent]
      exact hFirst.imp (fun h => by rw [Option.some.inj h]) (fun h => by rw [Option.some.inj h])
    simp only [if_neg hSpecial]
    refine ⟨nameOf r.ident, ?_, rfl⟩
    rw [readName_regular hName, toNat_identLength, nameLoop_ident]

/-- The parser on a record, with anything behind it. -/
theorem parseDirectoryRecord_bytes (r : Record) (rest : List Byte) :
    ∃ parsed, parseDirectoryRecord (r.bytes ++ rest) = some parsed ∧
      pushed r.bytes parsed = r.found := by
  obtain ⟨name, hRead, hName⟩ := r.readName_ident (r.systemUse ++ rest)
  have hLong : ¬ (BitVec.ofNat 8 r.length = 0 ∨ (BitVec.ofNat 8 r.length).toNat < 33) := by
    rw [toNat_length, length]
    rintro (h | h)
    · exact r.length_ne h
    · omega
  have hNameLen : BitVec.ofNat 8 r.ident.length ≠ 0 := by
    intro h
    have hLength := r.toNat_identLength
    rw [h] at hLength
    exact r.ident_ne (List.length_eq_zero_iff.mp hLength.symm)
  have hFirst : (r.bytes ++ rest)[0]? = some (BitVec.ofNat 8 r.length) := rfl
  refine ⟨some ⟨name, r.lba.toNat, r.size.toNat, r.flags &&& 2 ≠ 0⟩, ?_, ?_⟩
  · rw [parseDirectoryRecord, hFirst, read733_lba, read733_size, flags_read, nameLen_read,
      drop_bytes]
    simp only [Option.bind_eq_bind, Option.bind_some, if_neg hLong, if_neg hNameLen, hRead]
    rfl
  · by_cases hSpecial : isSpecial r.ident
    · rw [if_pos hSpecial] at hName
      rw [found, if_pos hSpecial]
      rcases hName with rfl | rfl
      · rfl
      · rfl
    · rw [if_neg hSpecial] at hName
      have hListed : isListed ⟨name, r.lba.toNat, r.size.toNat, r.flags &&& 2 ≠ 0⟩ := by
        rw [hName]
        exact decide_eq_true (r.named (by simpa using hSpecial))
      rw [found, if_neg hSpecial, entry, ← hName]
      exact if_pos hListed

end Record

def recordBytes (l : List Record) : List Byte := l.flatMap Record.bytes

/-- A sector with records, and zeros behind them. -/
def recordSector (l : List Record) : Bytes sectorSize := Bytes.ofList sectorSize (recordBytes l)

/-- A directory: the records of each sector, and sectors without any behind them. -/
structure Directory where
  sectors : List (List Record)
  unused : Nat
  nonempty : ∀ l ∈ sectors, l ≠ []
  inside : ∀ l ∈ sectors, (recordBytes l).length ≤ sectorSize

namespace Directory

def blocks (dir : Directory) : List (Bytes sectorSize) :=
  (dir.sectors ++ List.replicate dir.unused []).map recordSector

/-- Its records other than those of itself and of its parent. -/
def entries (dir : Directory) : List FileEntry :=
  (dir.sectors.flatten.filter fun r => !isSpecial r.ident).map Record.entry

/-- The extent at `lba` holds the directory. -/
structure Recorded (dir : Directory) (isOpen : Bool)
    (readSector : BitVec 32 → Option (Bytes sectorSize)) (lba dirSize : BitVec 32) : Prop where
  opened : isOpen = true
  lba_ne : lba ≠ 0
  reads : ReadsAs readSector lba dir.blocks
  size : dirSize.toNat = sectorSize * dir.blocks.length

end Directory

section Walk

variable {d : DirData} {o : Nat}

theorem getElem?_zero_of_drop {b : Byte} {rest : List Byte} (hDrop : d.bytes.drop o = b :: rest) :
    d.bytes[o]? = some b := by
  rw [← List.head?_drop, hDrop]
  rfl

theorem drop_of_append {first rest : List Byte} (hDrop : d.bytes.drop o = first ++ rest) :
    d.bytes.drop (o + first.length) = rest := by
  rw [← List.drop_drop, hDrop, List.drop_left]

theorem length_le_of_drop {first rest : List Byte} (hDrop : d.bytes.drop o = first ++ rest)
    (hFirst : first ≠ []) : o + first.length ≤ d.bytes.length := by
  have hLength := congrArg List.length hDrop
  have hPos := List.length_pos_iff.mpr hFirst
  simp only [List.length_drop, List.length_append] at hLength
  omega

theorem walk_bytes (r : Record) {rest : List Byte} (hDrop : d.bytes.drop o = r.bytes ++ rest) :
    walk d d.bytes.length o =
      (walk d d.bytes.length (o + r.bytes.length)).map fun l => r.found ++ l := by
  have hInside := length_le_of_drop hDrop (by simp [Record.bytes])
  have hPos : 0 < r.bytes.length := List.length_pos_iff.mpr (by simp [Record.bytes])
  have hLen : d.bytes[o]? = some (BitVec.ofNat 8 r.length) := getElem?_zero_of_drop hDrop
  obtain ⟨parsed, hParsed, hPushed⟩ := r.parseDirectoryRecord_bytes rest
  have hLength : (BitVec.ofNat 8 r.length).toNat = r.bytes.length := by
    rw [r.toNat_length, r.length_bytes]
  rw [walk_record (by omega) hLen r.length_ne (by omega), hLength, hDrop, hParsed, List.take_left]
  simp only [Option.bind_eq_bind, Option.bind_some, hPushed]
  cases walk d d.bytes.length (o + r.bytes.length) <;> rfl

theorem walk_recordBytes (l : List Record) {rest : List Byte}
    (hDrop : d.bytes.drop o = recordBytes l ++ rest) :
    walk d d.bytes.length o =
      (walk d d.bytes.length (o + (recordBytes l).length)).map fun f =>
          l.flatMap Record.found ++ f := by
  induction l generalizing o with
  | nil =>
      change _ = Option.map (fun f => f) (walk d d.bytes.length o)
      exact Option.map_id'.symm ▸ rfl
  | cons r l ih =>
      have hBytes : recordBytes (r :: l) = r.bytes ++ recordBytes l := rfl
      rw [hBytes, List.append_assoc] at hDrop
      rw [walk_bytes r hDrop, ih (drop_of_append hDrop), hBytes, List.length_append, Option.map_map,
        Nat.add_assoc]
      congr 1
      funext f
      exact (List.append_assoc _ _ _).symm

theorem recordSector_val {l : List Record} (hInside : (recordBytes l).length ≤ sectorSize) :
    (recordSector l).val =
      recordBytes l ++ List.replicate (sectorSize - (recordBytes l).length) 0 := by
  change (recordBytes l ++ List.replicate sectorSize 0).take sectorSize = _
  rw [List.take_append, List.take_of_length_le hInside, List.take_replicate,
    Nat.min_eq_left (Nat.sub_le _ _)]

/-- The walk over one sector: from its last record to the next boundary. -/
theorem walk_sector {l : List Record} (hNonempty : l ≠ [])
    (hInside : (recordBytes l).length ≤ sectorSize) (hBoundary : o % sectorSize = 0)
    {rest : List Byte} (hDrop : d.bytes.drop o = (recordSector l).val ++ rest) :
    walk d d.bytes.length o =
      (walk d d.bytes.length (o + sectorSize)).map fun f => l.flatMap Record.found ++ f := by
  have hPos : 0 < (recordBytes l).length := by
    obtain ⟨r, l', rfl⟩ := List.exists_cons_of_ne_nil hNonempty
    exact List.length_pos_iff.mpr (by simp [recordBytes, Record.bytes])
  rw [recordSector_val hInside, List.append_assoc] at hDrop
  rw [walk_recordBytes l hDrop]
  congr 1
  obtain hFull | hShort := hInside.eq_or_lt
  · rw [hFull]
  have hTail := drop_of_append hDrop
  rw [← Nat.succ_pred_eq_of_pos (Nat.sub_pos_of_lt hShort), List.replicate_succ] at hTail
  have hZero := getElem?_zero_of_drop hTail
  have hMore := lt_length_of_getElem? hZero
  have hMod : (o + (recordBytes l).length) % sectorSize = (recordBytes l).length := by
    rw [Nat.add_mod, hBoundary, Nat.zero_add, Nat.mod_mod, Nat.mod_eq_of_lt hShort]
  rw [walk_skip hMore hZero (by omega), hMod]
  congr 1
  omega

/-- The walk over the sectors behind a boundary. -/
theorem walk_sectors {sectors : List (List Record)} {unused : Nat}
    (hNonempty : ∀ l ∈ sectors, l ≠ [])
    (hInside : ∀ l ∈ sectors, (recordBytes l).length ≤ sectorSize)
    (hBoundary : o % sectorSize = 0) (hDrop : d.bytes.drop o =
      ((sectors ++ List.replicate unused []).map recordSector).flatMap Subtype.val) :
    walk d d.bytes.length o = some (sectors.flatten.flatMap Record.found) := by
  induction sectors generalizing o with
  | nil =>
      cases unused with
      | zero =>
          exact walk_end (List.drop_eq_nil_iff.mp hDrop)
      | succ n =>
          have hEmpty : (recordSector []).val = 0 :: List.replicate (sectorSize - 1) 0 := by
            rw [@recordSector_val [] (Nat.zero_le _)]
            exact List.replicate_succ
          rw [List.nil_append, List.replicate_succ, List.map_cons, List.flatMap_cons,
            hEmpty] at hDrop
          have hZero := getElem?_zero_of_drop hDrop
          exact walk_stop (lt_length_of_getElem? hZero) hZero hBoundary
  | cons l sectors ih =>
      rw [List.cons_append, List.map_cons, List.flatMap_cons] at hDrop
      have hNext := drop_of_append hDrop
      rw [(recordSector l).property] at hNext
      rw [walk_sector (hNonempty l List.mem_cons_self)
        (hInside l List.mem_cons_self) hBoundary hDrop,
        ih (fun l' hl' => hNonempty l' (List.mem_cons_of_mem l hl'))
          (fun l' hl' => hInside l' (List.mem_cons_of_mem l hl'))
          (by rw [Nat.add_mod_right, hBoundary]) hNext,
        List.flatten_cons, List.flatMap_append]
      rfl

end Walk

theorem map_entry_found (l : List Record) :
    (l.flatMap Record.found).map Found.entry =
      (l.filter fun r => !isSpecial r.ident).map Record.entry := by
  induction l with
  | nil => rfl
  | cons r l ih =>
      rw [List.flatMap_cons, List.map_append, ih, List.filter_cons, Record.found]
      cases isSpecial r.ident <;> rfl

section List

variable {isOpen : Bool} {readSector : BitVec 32 → Option (Bytes sectorSize)}
    {lba dirSize : BitVec 32}

/-- A directory is listed as its records, in their order. -/
theorem listFilesByLBA_directory {dir : Directory}
    (h : dir.Recorded isOpen readSector lba dirSize) :
    listFilesByLBA isOpen readSector lba dirSize = some dir.entries := by
  have hEntries := map_entry_found dir.sectors.flatten
  have hBlocks : dirSize.toNat = 2048 * dir.blocks.length := h.size
  by_cases hSize : dirSize = 0
  · -- without a sector there is no record
    have hNone : dir.sectors = [] := by
      have hZero : dirSize.toNat = 0 := congrArg BitVec.toNat hSize
      rw [hZero, Directory.blocks, List.length_map, List.length_append] at hBlocks
      exact List.length_eq_zero_iff.mp (by omega)
    rw [listFilesByLBA, listRecords, if_pos (.inr (.inr hSize)), Directory.entries, hNone]
    rfl
  have hCount : dir.blocks.length = numSectors dirSize := by
    have hLt := dirSize.isLt
    rw [numSectors_eq]
    omega
  obtain ⟨hBounded, hList⟩ := listRecords_of_readsAs h.opened h.lba_ne hSize hCount h.reads
  have hBytes : dirSize.toNat = (DirData.mk dir.blocks hBounded).bytes.length := by
    rw [DirData.length_bytes, h.size]
  rw [listFilesByLBA, hList, hBytes, walk_sectors dir.nonempty dir.inside rfl rfl]
  exact congrArg some hEntries

variable (isOpen readSector lba dirSize) in
/-- What the listing is for: it reads inside its buffer, takes each name from the
record of its entry, and lists a directory as its records. -/
structure ListingKept : Prop where
  own : ∃ r, listRecords isOpen readSector lba dirSize = some r ∧ ∀ f ∈ r, f.Own
  directory : ∀ dir : Directory, dir.Recorded isOpen readSector lba dirSize →
    listFilesByLBA isOpen readSector lba dirSize = some dir.entries

/-- The name length of a record and the rounded size are not checked: the listing
keeps to its extent exactly if they fit. -/
theorem listing_kept_iff (isOpen : Bool) (readSector : BitVec 32 → Option (Bytes sectorSize))
    (lba dirSize : BitVec 32) :
    ListingKept isOpen readSector lba dirSize ↔
      isOpen = false ∨ lba = 0 ∨ dirSize = 0 ∨ ExtentFits readSector lba dirSize :=
  ⟨fun h => listRecords_own_iff.mp h.own,
    fun h => ⟨listRecords_own_iff.mpr h, fun _ hRecorded => listFilesByLBA_directory hRecorded⟩⟩

end List

/-- A record of 34 bytes with a name of five. -/
def longNameSector : Bytes sectorSize :=
  Bytes.ofList sectorSize (34 :: (List.replicate 31 0 ++ 5 :: List.replicate 5 0x41))

theorem longNameSector_not_fits : ¬ Fits longNameSector.val := by
  intro h
  rcases h 34 5 rfl (by decide) rfl (by decide) with ⟨hOne, -⟩ | ⟨k, ⟨hLe, -, hEnd⟩, hPlace⟩
  · exact absurd hOne (by decide)
  · have hNone : ∀ j < 6, (longNameSector.val.drop 33)[j]? ≠ some semicolon := by decide
    obtain rfl : k = 5 := hEnd.resolve_right (hNone k (Nat.lt_succ_of_le hLe))
    rcases hPlace with hShort | hDot | hDots
    · exact absurd hShort (by decide)
    · exact absurd hDot (by decide)
    · exact absurd hDots (by decide)

/-- A size that rounds up to no sector, and a name that leaves its record. -/
theorem listing_not_kept :
    ¬ ListingKept true (fun _ => some (recordSector [])) 1 0xFFFFF801 ∧
      ¬ ListingKept true (fun _ => some longNameSector) 1 2048 := by
  constructor
  · intro h
    rcases listRecords_own_iff.mp h.own with hOpen | hLba | hSize | hFits
    · exact absurd hOpen (by decide)
    · exact absurd hLba (by decide)
    · exact absurd hSize (by decide)
    · exact absurd hFits.1 (by decide)
  · intro h
    rcases listRecords_own_iff.mp h.own with hOpen | hLba | hSize | hFits
    · exact absurd hOpen (by decide)
    · exact absurd hLba (by decide)
    · exact absurd hSize (by decide)
    · have hReads : ReadsAs (fun _ => some longNameSector) 1 [longNameSector] := by
        intro i sector hSector
        rw [List.getElem?_singleton] at hSector
        split at hSector
        · exact hSector
        · exact absurd hSector (by simp)
      have hBytes : [longNameSector].flatMap Subtype.val = longNameSector.val := List.append_nil _
      have hRecord := hFits.2 [longNameSector] rfl hReads 0 .refl
      rw [hBytes] at hRecord
      exact longNameSector_not_fits (hRecord ⟨by decide, 34, rfl, by decide, by
        rw [longNameSector.property]
        decide⟩)

end RecompStudio.Disc
