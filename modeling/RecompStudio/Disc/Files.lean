import RecompStudio.Disc.Directory

/-!
Files of a disc: the search for a path, and the read of a file by its sectors.
-/

namespace RecompStudio.Disc

open Serial

/-- What the functions on files use of `ISOReader`. -/
structure Volume where
  isOpen : Bool
  readSector : BitVec 32 → Option (Bytes sectorSize)
  rootLba : BitVec 32
  rootSize : BitVec 32

/-- `toupper` in the C locale. -/
@[grind =] def toUpper (c : Byte) : Byte := if 0x61 ≤ c.toNat ∧ c.toNat ≤ 0x7A then c - 0x20 else c

@[grind =] def upper (name : List Byte) : List Byte := name.map toUpper

namespace Volume

variable (volume : Volume)

/-- `ListFiles`. As in `ListFilesByLBA`, a read outside the directory has no value. -/
def listFiles (path : List Byte) : Option (List FileEntry) :=
  if volume.isOpen = false then some []
  else do
    let root ← listFilesByLBA true volume.readSector volume.rootLba volume.rootSize
    if path = [] then return root
    match root.find? fun e => e.isDirectory && upper e.name == upper path with
    | some e =>
        listFilesByLBA true volume.readSector (BitVec.ofNat 32 e.lba)
          (if 0 < e.size then BitVec.ofNat 32 e.size else 2048)
    | none => return []

/-- Where `FindFile` cuts a path in two: at a slash, or else at a backslash. -/
def separator (path : List Byte) : Option Nat :=
  match path.findIdx? (· == 0x2F) with
  | some i => some i
  | none => path.findIdx? (· == 0x5C)

/-- `FindFile`. The inner `none` is its `false`. -/
def findFile (path : List Byte) : Option (Option FileEntry) :=
  if volume.isOpen = false then some none
  else
    match separator path with
    | some i => do
        let files ← volume.listFiles (path.take i)
        return files.find? fun e => upper e.name == upper (path.drop (i + 1))
    | none => do
        let files ← volume.listFiles []
        return files.find? fun e => upper e.name == upper path

/-- The loop of `ReadFile` from a sector on. -/
def readFrom (lba : BitVec 32) : (sectors i remaining : Nat) → List Byte
  | 0, _, _ => []
  | n + 1, i, remaining =>
      match volume.readSector (lba + BitVec.ofNat 32 i) with
      | none => []
      | some sector =>
          sector.val.take (min remaining sectorSize) ++
            readFrom lba n (i + 1) (remaining - min remaining sectorSize)

/-- `ReadFile`: the bytes that it puts into the buffer. -/
def readFile (path : List Byte) (maxSize : Nat) : Option (List Byte) := do
  match ← volume.findFile path with
  | none => return []
  | some e =>
      let size := min e.size maxSize
      return volume.readFrom (BitVec.ofNat 32 e.lba) ((size + sectorSize - 1) / sectorSize) 0 size

end Volume

section Read

variable {volume : Volume} {lba : BitVec 32}

/-- The byte of an extent, if its sector is read. -/
def Volume.byteAt (volume : Volume) (lba : BitVec 32) (j : Nat) : Option Byte :=
  (volume.readSector (lba + BitVec.ofNat 32 (j / sectorSize))).bind fun sector =>
    sector.val[j % sectorSize]?

/-- The loop gives the bytes up to the first sector that is not read. -/
theorem readFrom_spec (n i remaining : Nat) (hSize : remaining ≤ n * sectorSize) :
    ∃ k ≤ n, (∀ m < k, (volume.readSector (lba + BitVec.ofNat 32 (i + m))).isSome) ∧
      (k = n ∨ volume.readSector (lba + BitVec.ofNat 32 (i + k)) = none) ∧
      (volume.readFrom lba n i remaining).length = min remaining (k * sectorSize) ∧
      ∀ j < (volume.readFrom lba n i remaining).length,
        (volume.readFrom lba n i remaining)[j]? = volume.byteAt lba (i * sectorSize + j) := by
  have hPos : 0 < sectorSize := by decide
  induction n generalizing i remaining with
  | zero =>
      refine ⟨0, le_rfl, fun m hm => absurd hm (Nat.not_lt_zero m), .inl rfl, ?_, fun j hj => ?_⟩
      · rw [Nat.zero_mul, Nat.min_zero]
        rfl
      · exact absurd hj (Nat.not_lt_zero j)
  | succ n ih =>
      unfold Volume.readFrom
      cases hRead : volume.readSector (lba + BitVec.ofNat 32 i) with
      | none =>
          refine ⟨0, Nat.zero_le _, fun m hm => absurd hm (Nat.not_lt_zero m), .inr hRead, ?_,
            fun j hj => absurd hj (Nat.not_lt_zero j)⟩
          rw [Nat.zero_mul, Nat.min_zero]
          rfl
      | some sector =>
          have hLength : sector.val.length = sectorSize := sector.property
          rw [Nat.succ_mul] at hSize
          obtain ⟨k, hk, hAll, hEnd, hCount, hBytes⟩ :=
            ih (i + 1) (remaining - min remaining sectorSize) (by omega)
          generalize volume.readFrom lba n (i + 1) (remaining - min remaining sectorSize) = rest
            at hCount hBytes ⊢
          have hFirst : (sector.val.take (min remaining sectorSize)).length =
              min remaining sectorSize := by
            rw [List.length_take, hLength]
            omega
          refine ⟨k + 1, by omega, fun m hm => ?_, ?_, ?_, fun j hj => ?_⟩
          · cases m with
            | zero =>
                rw [Nat.add_zero, hRead]
                rfl
            | succ m =>
                have := hAll m (by omega)
                rwa [show i + (m + 1) = i + 1 + m by omega]
          · rw [show i + (k + 1) = i + 1 + k by omega]
            exact hEnd.imp_left fun h => by omega
          · rw [List.length_append, hFirst, hCount, Nat.succ_mul]
            omega
          · rw [List.length_append, hFirst, hCount] at hj
            by_cases hHere : j < min remaining sectorSize
            · have hDiv : (i * sectorSize + j) / sectorSize = i := by
                rw [Nat.add_comm, Nat.add_mul_div_right _ _ hPos, Nat.div_eq_of_lt (by omega),
                  Nat.zero_add]
              have hMod : (i * sectorSize + j) % sectorSize = j := Nat.mul_add_mod_of_lt (by omega)
              have hByte : volume.byteAt lba (i * sectorSize + j) = sector.val[j]? := by
                unfold Volume.byteAt
                rw [hDiv, hMod, hRead, Option.bind_some]
              rw [hByte, List.getElem?_append_left (by rw [hFirst]; exact hHere)]
              exact List.getElem?_take_of_lt hHere
            · have hIndex : (i + 1) * sectorSize + (j - min remaining sectorSize) =
                  i * sectorSize + j := by
                rw [Nat.succ_mul]
                omega
              rw [List.getElem?_append_right (by rw [hFirst]; omega), hFirst,
                hBytes _ (by rw [hCount]; omega), hIndex]

end Read

variable {volume : Volume}

theorem toUpper_separator (c : Byte) :
    (toUpper c = 0x2F ↔ c = 0x2F) ∧ (toUpper c = 0x5C ↔ c = 0x5C) := by
  unfold toUpper
  split
  · rename_i hLower
    constructor
    · constructor
      · intro h
        bv_omega
      · intro h
        bv_omega
    · constructor
      · intro h
        bv_omega
      · intro h
        bv_omega
  · exact ⟨Iff.rfl, Iff.rfl⟩

theorem findIdx_upper (path : List Byte) :
    ((upper path).findIdx? (· == 0x2F) = path.findIdx? (· == 0x2F)) ∧
      (upper path).findIdx? (· == 0x5C) = path.findIdx? (· == 0x5C) := by
  constructor
  · rw [upper, List.findIdx?_map]
    congr 1
    funext c
    exact Bool.eq_iff_iff.mpr (by simpa using (toUpper_separator c).1)
  · rw [upper, List.findIdx?_map]
    congr 1
    funext c
    exact Bool.eq_iff_iff.mpr (by simpa using (toUpper_separator c).2)

theorem upper_upper (name : List Byte) : upper (upper name) = upper name := by
  have hOnce : ∀ c, toUpper (toUpper c) = toUpper c := by
    intro c
    unfold toUpper
    split
    · split
      · bv_omega
      · rfl
    · rfl
  rw [upper, upper, List.map_map]
  exact List.map_congr_left fun c _ => hOnce c

theorem separator_upper (path : List Byte) :
    Volume.separator (upper path) = Volume.separator path := by
  unfold Volume.separator
  rw [(findIdx_upper path).1, (findIdx_upper path).2]

theorem listFiles_upper (path : List Byte) :
    volume.listFiles (upper path) = volume.listFiles path := by
  unfold Volume.listFiles
  rw [upper_upper]
  have hEmpty : upper path = [] ↔ path = [] := List.map_eq_nil_iff
  simp only [hEmpty]

/-- The case of a path does not matter. -/
theorem findFile_upper (path : List Byte) :
    volume.findFile (upper path) = volume.findFile path := by
  unfold Volume.findFile
  rw [separator_upper]
  have hTake (n : Nat) : (upper path).take n = upper (path.take n) := List.map_take.symm
  have hDrop (n : Nat) : (upper path).drop n = upper (path.drop n) := List.map_drop.symm
  simp only [hTake, hDrop, listFiles_upper, upper_upper]

/-- The sectors that so many bytes take. -/
def sectorsFor (size : Nat) : Nat := (size + sectorSize - 1) / sectorSize

theorem lt_sectorsFor_iff {k size : Nat} : k < sectorsFor size ↔ k * sectorSize < size := by
  unfold sectorsFor sectorSize
  omega

/-- What `ReadFile` gives of a file that is found: the bytes of its extent, up to the
length that is asked for or to the first sector that is not read. -/
def ReadsFile (volume : Volume) (e : FileEntry) (size : Nat) (bytes : List Byte) : Prop :=
  ∃ k ≤ sectorsFor size,
    (∀ m < k, (volume.readSector (BitVec.ofNat 32 e.lba + BitVec.ofNat 32 m)).isSome) ∧
    (k = sectorsFor size ∨
      volume.readSector (BitVec.ofNat 32 e.lba + BitVec.ofNat 32 k) = none) ∧
    bytes.length = min size (k * sectorSize) ∧
    ∀ j < bytes.length, bytes[j]? = volume.byteAt (BitVec.ofNat 32 e.lba) j

/-- A read comes from the first entry of the directory with the name of the path in
whatever case. It is short if and only if a sector of the file is not read, and what it
gives are bytes of the file from its start. -/
theorem readFile_spec (path : List Byte) (maxSize : Nat) :
    volume.readFile (upper path) maxSize = volume.readFile path maxSize ∧
      match volume.findFile path with
      | none => volume.readFile path maxSize = none
      | some none => volume.readFile path maxSize = some []
      | some (some e) => ∃ bytes, volume.readFile path maxSize = some bytes ∧
          ReadsFile volume e (min e.size maxSize) bytes ∧
          (bytes.length = min e.size maxSize ↔
            ∀ m < sectorsFor (min e.size maxSize),
              (volume.readSector (BitVec.ofNat 32 e.lba + BitVec.ofNat 32 m)).isSome) := by
  constructor
  · unfold Volume.readFile
    rw [findFile_upper]
  · cases hFind : volume.findFile path with
    | none =>
        unfold Volume.readFile
        rw [hFind]
        rfl
    | some found =>
        cases found with
        | none =>
            unfold Volume.readFile
            rw [hFind]
            rfl
        | some e =>
            dsimp only
            have hEnough : min e.size maxSize ≤ sectorsFor (min e.size maxSize) * sectorSize :=
              Nat.not_lt.mp fun h => absurd (lt_sectorsFor_iff.2 h) (Nat.lt_irrefl _)
            generalize hSize : min e.size maxSize = size at hEnough ⊢
            obtain ⟨k, hk, hAll, hEnd, hLength, hBytes⟩ :=
              @readFrom_spec volume (BitVec.ofNat 32 e.lba) _ 0 size hEnough
            simp only [Nat.zero_add, Nat.zero_mul] at hAll hEnd hBytes
            refine ⟨_, ?_, ⟨k, hk, hAll, hEnd, hLength, hBytes⟩, ?_⟩
            · unfold Volume.readFile
              rw [hFind]
              change some (volume.readFrom _ (sectorsFor (min e.size maxSize)) 0
                (min e.size maxSize)) = _
              rw [hSize]
            · rw [hLength]
              constructor
              · intro hWhole m hm
                rcases hEnd with rfl | hNone
                · exact hAll m hm
                · refine hAll m (Nat.lt_of_not_le fun hLe => ?_)
                  have := lt_sectorsFor_iff.1 (Nat.lt_of_le_of_lt hLe hm)
                  omega
              · intro hReads
                rcases hEnd with rfl | hNone
                · exact Nat.min_eq_left hEnough
                · refine Nat.min_eq_left (Nat.not_lt.mp fun hShort => ?_)
                  have hRead := hReads k (lt_sectorsFor_iff.2 hShort)
                  rw [hNone] at hRead
                  exact absurd hRead (by simp)

end RecompStudio.Disc
