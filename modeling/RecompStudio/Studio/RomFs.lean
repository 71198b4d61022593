import RecompStudio.Library.Serial
import RecompStudio.Studio.Aes

/-!
The metadata tables of a RomFS image. Their links are followed through a check of
32 bits, so a read outside a table is a result of its own: `none`.
-/

namespace RecompStudio.Studio.RomFs

open Serial

def kRomFsMaxNameSize : Nat := 0x300
def kRomFsListLimit : Nat := 64
def kNone : BitVec 32 := 0xFFFFFFFF

def le32 (bytes : List Byte) (pos : Nat) : Option (BitVec 32) :=
  match (bytes.drop pos).take 4 with
  | [b0, b1, b2, b3] =>
      some (b0.setWidth 32 ||| b1.setWidth 32 <<< 8 ||| b2.setWidth 32 <<< 16 |||
        b3.setWidth 32 <<< 24)
  | _ => none

def le64 (bytes : List Byte) (pos : Nat) : Option (BitVec 64) := do
  let low ← le32 bytes pos
  let high ← le32 bytes (pos + 4)
  return low.setWidth 64 ||| high.setWidth 64 <<< 32

theorem le32_isSome (bytes : List Byte) (pos : Nat) :
    (le32 bytes pos).isSome ↔ pos + 4 ≤ bytes.length := by
  rw [le32]
  split
  next h =>
    have hLength := congrArg List.length h
    rw [List.length_take, List.length_drop] at hLength
    simp only [List.length_cons, List.length_nil] at hLength
    exact iff_of_true rfl (by omega)
  next hNot =>
    refine iff_of_false Bool.false_ne_true fun hIn => ?_
    have hLength : ((bytes.drop pos).take 4).length = 4 := by
      rw [List.length_take, List.length_drop]
      omega
    match hList : (bytes.drop pos).take 4, hLength with
    | [b0, b1, b2, b3], _ => exact hNot b0 b1 b2 b3 hList

theorem exists_le32 {bytes : List Byte} {pos : Nat} (h : pos + 4 ≤ bytes.length) :
    ∃ w, le32 bytes pos = some w :=
  Option.isSome_iff_exists.mp ((le32_isSome bytes pos).mpr h)

theorem exists_le64 {bytes : List Byte} {pos : Nat} (h : pos + 8 ≤ bytes.length) :
    ∃ w, le64 bytes pos = some w := by
  obtain ⟨low, hLow⟩ := @exists_le32 bytes pos (by omega)
  obtain ⟨high, hHigh⟩ := @exists_le32 bytes (pos + 4) (by omega)
  exact ⟨_, by rw [le64, hLow, hHigh]; rfl⟩

/-- The size of an entry's name, padded to four bytes. -/
def paddedName (nameSize : BitVec 32) : Nat := ((nameSize.setWidth 64 + 3) &&& ~~~3).toNat

def walkRomFsFiles (table : List Byte) (pos : Nat) (count bytes : BitVec 64) :
    Option (BitVec 64 × BitVec 64) :=
  if pos + 0x20 ≤ table.length then
    match le64 table (pos + 0x10), le32 table (pos + 0x1C) with
    | some size, some nameSize =>
        if kRomFsMaxNameSize < nameSize.toNat then some (count, bytes)
        else
          walkRomFsFiles table (pos + (0x20 + paddedName nameSize)) (count + 1) (bytes + size)
    | _, _ => none
  else some (count, bytes)
termination_by table.length - pos

theorem walkRomFsFiles_isSome (table : List Byte) (pos : Nat) (count bytes : BitVec 64) :
    (walkRomFsFiles table pos count bytes).isSome := by
  fun_induction walkRomFsFiles table pos count bytes with
  | case1 pos count bytes hIn size nameSize hSize hName hLong => rfl
  | case2 pos count bytes hIn size nameSize hSize hName hShort ih => exact ih
  | case3 pos count bytes hIn hNot =>
      obtain ⟨size, hSize⟩ := @exists_le64 table (pos + 0x10) (by omega)
      obtain ⟨nameSize, hName⟩ := @exists_le32 table (pos + 0x1C) (by omega)
      exact absurd hName (hNot size nameSize hSize)
  | case4 pos count bytes hOut => rfl

variable (fromUtf8 : List Byte → String)

@[grind =] def romFsName (table : List Byte) (pos headerSize : Nat) : Option String := do
  let nameSize ← le32 table (pos + headerSize - 4)
  if kRomFsMaxNameSize < nameSize.toNat ∨ table.length < pos + headerSize + nameSize.toNat then
    return ""
  else return fromUtf8 ((table.drop (pos + headerSize)).take nameSize.toNat)

/-- The loops' check of a link: the sum has 32 bits. -/
def Passes (table : List Byte) (headerSize : Nat) (link : BitVec 32) : Prop :=
  link ≠ kNone ∧ (link + BitVec.ofNat 32 headerSize).toNat ≤ table.length

instance (table : List Byte) (headerSize : Nat) (link : BitVec 32) :
    Decidable (Passes table headerSize link) :=
  inferInstanceAs (Decidable (_ ∧ _))

/-- The loop over one chain of the root, with the turns that its guard leaves. -/
def listEntries (table : List Byte) (headerSize : Nat) (suffix : String) :
    Nat → BitVec 32 → List String → Option (List String)
  | 0, _, names => some names
  | turns + 1, link, names =>
      if Passes table headerSize link ∧ names.length < kRomFsListLimit then do
        let name ← romFsName fromUtf8 table link.toNat headerSize
        let next ← le32 table (link + 4).toNat
        listEntries table headerSize suffix turns next
          (if name = "" then names else names ++ [name ++ suffix])
      else some names

def romFsRootEntries (dirs files : List Byte) : Option (List String) :=
  if dirs.length < 0x18 then some []
  else do
    let child ← le32 dirs 0x08
    let names ← listEntries fromUtf8 dirs 0x18 "/" (4 * kRomFsListLimit - 1) child []
    let file ← le32 dirs 0x0C
    listEntries fromUtf8 files 0x20 "" (4 * kRomFsListLimit - 1) file names

/-- What reads a range: the answer and the bytes it leaves in its output. -/
abbrev RangeReader := BitVec 64 → BitVec 64 → Bool × List Byte

structure RomFsHeader where
  dirMetaOffset : BitVec 64
  dirMetaSize : BitVec 64
  fileMetaOffset : BitVec 64
  fileMetaSize : BitVec 64
  dataOffset : BitVec 64

/-- The answer of `readRomFsRootFile` and its two outputs. -/
structure RootFile where
  found : Bool
  foundName : String
  out : List Byte

variable (wanted : String → Bool)

/-- The loop over the files of the root, with the turns that its guard leaves. -/
def findRootFile (read : RangeReader) (dataBase : BitVec 64) (files : List Byte)
    (limit : BitVec 64) (file : RootFile) : Nat → BitVec 32 → Option RootFile
  | 0, _ => some { file with found := false }
  | turns + 1, link =>
      if Passes files 0x20 link then do
        let name ← romFsName fromUtf8 files link.toNat 0x20
        if name ≠ "" ∧ wanted name = true then
          let offset ← le64 files (link + 0x08).toNat
          let size ← le64 files (link + 0x10).toNat
          if limit < size then return { file with found := false }
          else
            let answer := read (dataBase + offset) size
            return { found := answer.1, foundName := name, out := answer.2 }
        else
          let next ← le32 files (link + 4).toNat
          findRootFile read dataBase files limit file turns next
      else some { file with found := false }

def readRomFsRootFile (read : RangeReader) (base : BitVec 64) (header : RomFsHeader)
    (files : List Byte) (foundName : String) (limit : BitVec 64) (out : List Byte) :
    Option RootFile :=
  let file := { found := false, foundName, out }
  let dirs := read (base + header.dirMetaOffset) header.dirMetaSize
  if dirs.1 = false then some file
  else if dirs.2.length < 0x18 then some file
  else do
    let first ← le32 dirs.2 0x0C
    findRootFile fromUtf8 wanted read (base + header.dataOffset) files limit file 65535 first

/-- Where a link leads, when its entry is read inside the table. -/
@[grind =] def nextLink (table : List Byte) (link : BitVec 32) : BitVec 32 :=
  (le32 table (link + 4).toNat).getD 0

/-- The links of a chain that pass the loops' check. -/
def chain (table : List Byte) (headerSize : Nat) : Nat → BitVec 32 → List (BitVec 32)
  | 0, _ => []
  | turns + 1, link =>
      if Passes table headerSize link then
        link :: chain table headerSize turns (nextLink table link)
      else []

@[grind =] def HeaderInside (table : List Byte) (headerSize : Nat) (link : BitVec 32) : Prop :=
  link.toNat + headerSize ≤ table.length

def named (table : List Byte) (headerSize : Nat) (link : BitVec 32) : Bool :=
  romFsName fromUtf8 table link.toNat headerSize != some ""

/-- No link that is reached before the list is full leaves the table. -/
def EntriesInside (table : List Byte) (headerSize taken : Nat) (links : List (BitVec 32)) : Prop :=
  ∀ n link, links[n]? = some link →
    taken + (links.take n).countP (named fromUtf8 table headerSize) < kRomFsListLimit →
      HeaderInside table headerSize link

def hit (files : List Byte) (link : BitVec 32) : Bool :=
  (romFsName fromUtf8 files link.toNat 0x20).any fun name => name ≠ "" ∧ wanted name = true

/-- No link that is reached before a wanted name leaves the table. -/
def SearchInside (files : List Byte) (links : List (BitVec 32)) : Prop :=
  ∀ n link, links[n]? = some link →
    (links.take n).all (fun before => hit fromUtf8 wanted files before = false) = true →
      HeaderInside files 0x20 link

section

variable {table : List Byte} {headerSize : Nat} {link : BitVec 32}

/-- The 32-bit sum of the next link's place wraps only onto the start of the table. -/
theorem exists_nextLink (hHeader : 8 ≤ headerSize) (hIn : HeaderInside table headerSize link) :
    le32 table (link + 4).toNat = some (nextLink table link) := by
  rw [HeaderInside] at hIn
  have hSum : (link + 4).toNat + 4 ≤ table.length := by
    rw [BitVec.toNat_add, show (4 : BitVec 32).toNat = 4 from rfl]
    omega
  obtain ⟨next, hNext⟩ := exists_le32 hSum
  rw [nextLink, hNext, Option.getD_some]

theorem exists_romFsName (hHeader : 4 ≤ headerSize) (hIn : HeaderInside table headerSize link) :
    ∃ name, romFsName fromUtf8 table link.toNat headerSize = some name := by
  rw [HeaderInside] at hIn
  obtain ⟨nameSize, hSize⟩ :=
    @exists_le32 table (link.toNat + headerSize - 4) (by omega)
  rw [romFsName, hSize]
  by_cases hLong : kRomFsMaxNameSize < nameSize.toNat ∨
      table.length < link.toNat + headerSize + nameSize.toNat
  · exact ⟨_, if_pos hLong⟩
  · exact ⟨_, if_neg hLong⟩

theorem romFsName_outside (hHeader : 4 ≤ headerSize)
    (hOut : ¬ HeaderInside table headerSize link) :
    romFsName fromUtf8 table link.toNat headerSize = none := by
  rw [HeaderInside] at hOut
  have hNone : le32 table (link.toNat + headerSize - 4) = none := by
    rw [← Option.not_isSome_iff_eq_none, le32_isSome]
    omega
  rw [romFsName, hNone]
  rfl

theorem chain_succ (turns : Nat) (hPass : Passes table headerSize link) :
    chain table headerSize (turns + 1) link =
      link :: chain table headerSize turns (nextLink table link) :=
  if_pos hPass

theorem chain_stop (turns : Nat) (hStop : ¬ Passes table headerSize link) :
    chain table headerSize turns link = [] := by
  cases turns with
  | zero => rfl
  | succ turns => exact if_neg hStop

end

theorem entriesInside_nil (table : List Byte) (headerSize taken : Nat) :
    EntriesInside fromUtf8 table headerSize taken [] := nofun

theorem searchInside_nil (files : List Byte) : SearchInside fromUtf8 wanted files [] := nofun

theorem entriesInside_cons (table : List Byte) (headerSize taken : Nat) (link : BitVec 32)
    (links : List (BitVec 32)) :
    EntriesInside fromUtf8 table headerSize taken (link :: links) ↔
      (taken < kRomFsListLimit → HeaderInside table headerSize link) ∧
        EntriesInside fromUtf8 table headerSize
          (taken + if named fromUtf8 table headerSize link = true then 1 else 0) links := by
  constructor
  · intro h
    refine ⟨h 0 link rfl, fun n entry hEntry hTaken => h (n + 1) entry hEntry ?_⟩
    rw [List.take_succ_cons, List.countP_cons]
    omega
  · rintro ⟨hFirst, hRest⟩ n entry hEntry hTaken
    cases n with
    | zero =>
        obtain rfl : link = entry := Option.some_inj.mp hEntry
        exact hFirst hTaken
    | succ n =>
        rw [List.take_succ_cons, List.countP_cons] at hTaken
        exact hRest n entry hEntry (by omega)

theorem searchInside_cons (files : List Byte) (link : BitVec 32) (links : List (BitVec 32)) :
    SearchInside fromUtf8 wanted files (link :: links) ↔
      HeaderInside files 0x20 link ∧
        (hit fromUtf8 wanted files link = false → SearchInside fromUtf8 wanted files links) := by
  constructor
  · intro h
    refine ⟨h 0 link rfl rfl, fun hMiss n entry hEntry hBefore => h (n + 1) entry hEntry ?_⟩
    rw [List.take_succ_cons, List.all_cons, hBefore, Bool.and_true]
    exact decide_eq_true hMiss
  · rintro ⟨hFirst, hRest⟩ n entry hEntry hBefore
    cases n with
    | zero =>
        obtain rfl : link = entry := Option.some_inj.mp hEntry
        exact hFirst
    | succ n =>
        rw [List.take_succ_cons, List.all_cons, Bool.and_eq_true, decide_eq_true_eq] at hBefore
        exact hRest hBefore.1 n entry hEntry hBefore.2

theorem length_names {table : List Byte} {headerSize : Nat} {link : BitVec 32} {name : String}
    (suffix : String) (names : List String)
    (hName : romFsName fromUtf8 table link.toNat headerSize = some name) :
    (if name = "" then names else names ++ [name ++ suffix]).length =
      names.length + if named fromUtf8 table headerSize link = true then 1 else 0 := by
  have hNamed : named fromUtf8 table headerSize link = true ↔ name ≠ "" := by
    rw [named, hName, bne_iff_ne, ne_eq, Option.some_inj]
  by_cases hEmpty : name = ""
  · rw [if_pos hEmpty, if_neg (hNamed.not.mpr (not_not.mpr hEmpty)), Nat.add_zero]
  · rw [if_neg hEmpty, if_pos (hNamed.mpr hEmpty), List.length_append, List.length_singleton]

/-- With the number of names that the loop leaves, when its reads are inside. -/
theorem listEntries_iff (table : List Byte) {headerSize : Nat} (hHeader : 8 ≤ headerSize)
    (suffix : String) (turns : Nat) (link : BitVec 32) (names : List String)
    (hNames : names.length ≤ kRomFsListLimit) :
    let links := chain table headerSize turns link
    let walked := listEntries fromUtf8 table headerSize suffix turns link names
    (walked.isSome ↔ EntriesInside fromUtf8 table headerSize names.length links) ∧
      ∀ all, walked = some all → all.length =
        min kRomFsListLimit
          (names.length + links.countP (named fromUtf8 table headerSize)) := by
  induction turns generalizing link names with
  | zero =>
      refine ⟨iff_of_true rfl (entriesInside_nil fromUtf8 _ _ _), fun all hAll => ?_⟩
      obtain rfl := Option.some_inj.mp hAll
      exact (Nat.min_eq_right hNames).symm
  | succ turns ih =>
      intro links walked
      by_cases hPass : Passes table headerSize link
      · have hLinks : links = link :: chain table headerSize turns (nextLink table link) :=
          chain_succ turns hPass
        rw [hLinks, entriesInside_cons, List.countP_cons]
        by_cases hTaken : names.length < kRomFsListLimit
        · have hWalked : walked = _ := if_pos (And.intro hPass hTaken)
          by_cases hIn : HeaderInside table headerSize link
          · obtain ⟨name, hName⟩ := exists_romFsName fromUtf8 (by omega) hIn
            rw [hName, exists_nextLink hHeader hIn] at hWalked
            have hLength := length_names fromUtf8 suffix names hName
            have hRest := ih (nextLink table link)
              (if name = "" then names else names ++ [name ++ suffix]) (by
                rw [hLength]
                split <;> omega)
            rw [hLength] at hRest
            rw [hWalked]
            refine ⟨hRest.1.trans ⟨fun h => ⟨fun _ => hIn, h⟩, And.right⟩, fun all hAll => ?_⟩
            rw [hRest.2 all hAll]
            omega
          · rw [romFsName_outside fromUtf8 (by omega) hIn] at hWalked
            rw [hWalked]
            exact ⟨iff_of_false Bool.false_ne_true fun h => hIn (h.1 hTaken), nofun⟩
        · have hWalked : walked = some names := if_neg fun h => hTaken h.2
          rw [hWalked]
          refine ⟨iff_of_true rfl ⟨fun h => absurd h hTaken, fun n entry _ h => ?_⟩,
            fun all hAll => ?_⟩
          · omega
          · obtain rfl := Option.some_inj.mp hAll
            omega
      · have hWalked : walked = some names := if_neg fun h => hPass h.1
        have hLinks : links = [] := chain_stop (turns + 1) hPass
        rw [hWalked, hLinks]
        refine ⟨iff_of_true rfl (entriesInside_nil fromUtf8 _ _ _), fun all hAll => ?_⟩
        obtain rfl := Option.some_inj.mp hAll
        exact (Nat.min_eq_right hNames).symm

theorem findRootFile_iff (read : RangeReader) (dataBase : BitVec 64) (files : List Byte)
    (limit : BitVec 64) (file : RootFile) (turns : Nat) (link : BitVec 32) :
    (findRootFile fromUtf8 wanted read dataBase files limit file turns link).isSome ↔
      SearchInside fromUtf8 wanted files (chain files 0x20 turns link) := by
  induction turns generalizing link with
  | zero =>
      exact iff_of_true rfl (searchInside_nil fromUtf8 wanted files)
  | succ turns ih =>
      by_cases hPass : Passes files 0x20 link
      · rw [chain_succ turns hPass, searchInside_cons, findRootFile, if_pos hPass]
        by_cases hIn : HeaderInside files 0x20 link
        · obtain ⟨name, hName⟩ := exists_romFsName fromUtf8 (by omega) hIn
          have hHit : hit fromUtf8 wanted files link = decide (name ≠ "" ∧ wanted name = true) := by
            rw [hit, hName, Option.any_some]
          rw [hName, exists_nextLink (by omega) hIn, hHit, Option.bind_eq_bind, Option.bind_some]
          by_cases hWanted : name ≠ "" ∧ wanted name = true
          · rw [HeaderInside] at hIn
            have hOffsetIn : (link + 0x08).toNat + 8 ≤ files.length := by
              rw [BitVec.toNat_add, show (0x08 : BitVec 32).toNat = 0x08 from rfl]
              omega
            have hSizeIn : (link + 0x10).toNat + 8 ≤ files.length := by
              rw [BitVec.toNat_add, show (0x10 : BitVec 32).toNat = 0x10 from rfl]
              omega
            obtain ⟨offset, hOffset⟩ := exists_le64 hOffsetIn
            obtain ⟨size, hSize⟩ := exists_le64 hSizeIn
            rw [if_pos hWanted, hOffset, hSize, decide_eq_true hWanted]
            refine iff_of_true ?_ ⟨hIn, nofun⟩
            rw [Option.bind_eq_bind, Option.bind_some, Option.bind_some]
            split <;> rfl
          · rw [if_neg hWanted, decide_eq_false hWanted]
            exact (ih (nextLink files link)).trans ⟨fun h => ⟨hIn, fun _ => h⟩, fun h => h.2 rfl⟩
        · rw [romFsName_outside fromUtf8 (by omega) hIn]
          exact iff_of_false Bool.false_ne_true fun h => hIn h.1
      · rw [chain_stop (turns + 1) hPass, findRootFile, if_neg hPass]
        exact iff_of_true rfl (searchInside_nil fromUtf8 wanted files)

/-- The link that the root directory holds at a place. -/
def rootLink (dirs : List Byte) (pos : Nat) : BitVec 32 := (le32 dirs pos).getD 0

theorem le32_root {dirs : List Byte} (hDirs : 0x18 ≤ dirs.length) {pos : Nat} (hPos : pos ≤ 0x14) :
    le32 dirs pos = some (rootLink dirs pos) := by
  obtain ⟨link, hLink⟩ := @exists_le32 dirs pos (by omega)
  rw [rootLink, hLink, Option.getD_some]

/-- The first links of the two chains that are listed. -/
def childLinks (dirs : List Byte) : List (BitVec 32) :=
  chain dirs 0x18 (4 * kRomFsListLimit - 1) (rootLink dirs 0x08)

def fileLinks (dirs files : List Byte) : List (BitVec 32) :=
  chain files 0x20 (4 * kRomFsListLimit - 1) (rootLink dirs 0x0C)

/-- The names that the directories of the root fill the list with. -/
def childNames (dirs : List Byte) : Nat :=
  min kRomFsListLimit ((childLinks dirs).countP (named fromUtf8 dirs 0x18))

def RootEntriesInside (dirs files : List Byte) : Prop :=
  0x18 ≤ dirs.length →
    EntriesInside fromUtf8 dirs 0x18 0 (childLinks dirs) ∧
      EntriesInside fromUtf8 files 0x20 (childNames fromUtf8 dirs) (fileLinks dirs files)

/-- The directory table is what the reader answers. -/
def RootFileInside (dirs : Bool × List Byte) (files : List Byte) : Prop :=
  dirs.1 = true → 0x18 ≤ dirs.2.length →
    SearchInside fromUtf8 wanted files (chain files 0x20 65535 (rootLink dirs.2 0x0C))

theorem romFsRootEntries_iff (dirs files : List Byte) :
    (romFsRootEntries fromUtf8 dirs files).isSome ↔ RootEntriesInside fromUtf8 dirs files := by
  rw [romFsRootEntries]
  by_cases hShort : dirs.length < 0x18
  · rw [if_pos hShort]
    exact iff_of_true rfl fun h => absurd h (by omega)
  · have hDirs : 0x18 ≤ dirs.length := by omega
    rw [if_neg hShort, le32_root hDirs (by omega), le32_root hDirs (by omega)]
    obtain ⟨hChildren, hCount⟩ := @listEntries_iff fromUtf8 dirs 0x18 (by omega) "/"
      (4 * kRomFsListLimit - 1) (rootLink dirs 0x08) [] (Nat.zero_le _)
    rw [Option.bind_eq_bind, Option.bind_some]
    cases hNames : listEntries fromUtf8 dirs 0x18 "/" (4 * kRomFsListLimit - 1)
        (rootLink dirs 0x08) [] with
    | none =>
        rw [hNames] at hChildren
        exact iff_of_false Bool.false_ne_true fun h =>
          Bool.false_ne_true (hChildren.mpr (h hDirs).1)
    | some names =>
        have hLength : names.length = childNames fromUtf8 dirs := by
          rw [hCount names hNames, List.length_nil, Nat.zero_add]
          rfl
        have hFiles := (@listEntries_iff fromUtf8 files 0x20 (by omega) ""
          (4 * kRomFsListLimit - 1) (rootLink dirs 0x0C) names
          (hLength ▸ Nat.min_le_left _ _)).1
        rw [hNames] at hChildren
        rw [hLength] at hFiles
        exact hFiles.trans
          ⟨fun h _ => ⟨hChildren.mp rfl, h⟩, fun h => (h hDirs).2⟩

theorem readRomFsRootFile_iff (read : RangeReader) (base : BitVec 64) (header : RomFsHeader)
    (files : List Byte) (foundName : String) (limit : BitVec 64) (out : List Byte) :
    (readRomFsRootFile fromUtf8 wanted read base header files foundName limit out).isSome ↔
      RootFileInside fromUtf8 wanted (read (base + header.dirMetaOffset) header.dirMetaSize)
        files := by
  rw [readRomFsRootFile]
  generalize read (base + header.dirMetaOffset) header.dirMetaSize = dirs
  by_cases hRead : dirs.1 = false
  · rw [if_pos hRead]
    exact iff_of_true rfl fun h => absurd (hRead.symm.trans h) Bool.false_ne_true
  · by_cases hShort : dirs.2.length < 0x18
    · rw [if_neg hRead, if_pos hShort]
      exact iff_of_true rfl fun _ h => absurd h (by omega)
    · have hDirs : 0x18 ≤ dirs.2.length := by omega
      rw [if_neg hRead, if_neg hShort, le32_root hDirs (by omega)]
      exact (findRootFile_iff fromUtf8 wanted read _ files limit _ 65535 _).trans
        ⟨fun h _ _ => h, fun h => h (Bool.eq_true_of_not_eq_false hRead) hDirs⟩

/-- The walks over a file system image: the packed one never reads outside its table, and the two
linked ones keep inside theirs exactly on links that are safe, whatever the tables hold. -/
theorem walks_inside_iff (table dirs files : List Byte) (read : RangeReader) (base : BitVec 64)
    (header : RomFsHeader) (foundName : String) (limit : BitVec 64) (out : List Byte) :
    (walkRomFsFiles table 0 0 0).isSome ∧
      ((romFsRootEntries fromUtf8 dirs files).isSome ↔ RootEntriesInside fromUtf8 dirs files) ∧
      ((readRomFsRootFile fromUtf8 wanted read base header files foundName limit out).isSome ↔
        RootFileInside fromUtf8 wanted (read (base + header.dirMetaOffset) header.dirMetaSize)
          files) :=
  ⟨walkRomFsFiles_isSome table 0 0 0, romFsRootEntries_iff fromUtf8 dirs files,
    readRomFsRootFile_iff fromUtf8 wanted read base header files foundName limit out⟩

/-- A root directory alone, whose first child is placed 16 bytes below `2 ^ 32`. -/
def wrappingRoot : List Byte :=
  [0, 0, 0, 0, 0xFF, 0xFF, 0xFF, 0xFF, 0xF0, 0xFF, 0xFF, 0xFF, 0xFF, 0xFF, 0xFF, 0xFF,
    0xFF, 0xFF, 0xFF, 0xFF, 0, 0, 0, 0]

theorem root_read_outside : romFsRootEntries (fun _ => "") wrappingRoot [] = none := by
  decide

end RecompStudio.Studio.RomFs
