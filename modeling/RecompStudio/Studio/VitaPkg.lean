import RecompStudio.Studio.CtrStream

/-!
The items of a package: one is read at once, and all are written out in chunks.
Both decipher the same range of the data area.
-/

namespace RecompStudio.Studio

open BlockModes Serial

structure VitaPkgItem where
  name : String
  offset : BitVec 64
  size : BitVec 64
  flags : BitVec 32

def VitaPkgItem.kind (item : VitaPkgItem) : BitVec 32 := item.flags &&& 0xFF

def VitaPkgItem.isDirectory (item : VitaPkgItem) : Bool := item.kind = 4 ∨ item.kind = 18

structure VitaPkgInfo where
  items : List VitaPkgItem
  dataOffset : BitVec 64
  dataSize : BitVec 64
  itemKey : List Byte
  itemCounter : List Byte

/-- An open package: its bytes, and where the next ones are read. -/
structure PkgFile where
  bytes : List Byte
  pos : Nat

namespace PkgFile

/-- A position may be behind the end, not before the start. -/
@[grind =] def seek (file : PkgFile) (pos : Int) : Option PkgFile :=
  if pos < 0 then none else some { file with pos := pos.toNat }

def rest (file : PkgFile) : List Byte := file.bytes.drop file.pos

/-- At most so many bytes, fewer only at the end of the file. -/
def read (file : PkgFile) (maxSize : Int) : List Byte × PkgFile :=
  let out := file.rest.take maxSize.toNat
  (out, { file with pos := file.pos + out.length })

theorem rest_read (file : PkgFile) (maxSize : Int) :
    (file.read maxSize).2.rest = file.rest.drop maxSize.toNat := by
  change file.bytes.drop (file.pos + (file.rest.take maxSize.toNat).length) = _
  rw [← List.drop_drop, List.length_take]
  change file.rest.drop _ = _
  rcases Nat.le_total maxSize.toNat file.rest.length with h | h
  · rw [Nat.min_eq_left h]
  · rw [Nat.min_eq_right h, List.drop_length, List.drop_eq_nil_of_le h]

end PkgFile

/-- The directory that the items are written to, and what the file system answers. -/
structure Destination where
  path : String
  cleanPath : String → String
  filePath : String → String
  absolutePath : String → String
  mkpath : String → Bool
  opens : String → Bool
  writes : String → List Byte → List Byte → Bool
  flushes : String → Bool
  errorString : String → String

/-- One decrypted range out of the data area. -/
def readDecrypted (file : PkgFile) (info : VitaPkgInfo) (offset : BitVec 64) (size : Int) :
    Option (List Byte) :=
  if size < 0 then none
  else if info.dataSize < offset ∨ info.dataSize - offset < BitVec.ofInt 64 size then none
  else
    let stream := CtrStream.make info.itemKey info.itemCounter
    if stream.isValid = false then none
    else
      match file.seek (info.dataOffset + offset).toInt with
      | none => none
      | some placed =>
          let out := (placed.read size).1
          if (out.length : Int) ≠ size then none else some ((stream.seek offset).apply out).1

/-- `none` stands for a package that cannot be opened. -/
def readVitaPkgItem (file : Option PkgFile) (fileError : String) (info : VitaPkgInfo)
    (item : VitaPkgItem) (maxSize : Int) : Except String (List Byte) :=
  match file with
  | none => .error ("Could not read the package: " ++ fileError)
  | some file =>
      match readDecrypted file info item.offset (min maxSize item.size.toInt) with
      | none => .error (item.name ++ " could not be read out of the package.")
      | some out => .ok out

def kChunk : Int := 2 ^ 20

def nextChunk (file : PkgFile) (remaining : Nat) : List Byte × PkgFile :=
  file.read (min kChunk (BitVec.ofNat 64 remaining).toInt)

/-- The bytes that are written to the target of an item, and the error that ends them. -/
@[grind =]
def extractChunks (dest : Destination) (item : VitaPkgItem) (target : String) (stream : CtrStream)
    (file : PkgFile) (remaining : Nat) (written : List Byte) : List Byte × Option String :=
  let unwritten := "Could not write " ++ target ++ ": " ++ dest.errorString target
  if 0 < remaining then
    let chunk := (nextChunk file remaining).1
    if _ : (nextChunk file remaining).1 = [] then
      (written, some ("The package ends inside " ++ item.name ++ "."))
    else
      let plain := stream.apply chunk
      if dest.writes target written plain.1 = false then (written, some unwritten)
      else
        extractChunks dest item target plain.2 (nextChunk file remaining).2
          (remaining - chunk.length) (written ++ plain.1)
  else if dest.flushes target = false then (written, some unwritten)
  else (written, none)
termination_by remaining
decreasing_by
  have hChunk : 0 < (nextChunk file remaining).1.length := List.length_pos_of_ne_nil ‹_›
  omega

/-- A file that an item is written to. -/
structure WrittenFile where
  item : VitaPkgItem
  relative : String
  target : String
  bytes : List Byte
  complete : Bool

/-- The files written so far, and the error that ended the extraction. -/
structure Extraction where
  files : List WrittenFile
  error : Option String

/-- The relative paths that are reported. -/
def Extraction.extracted (e : Extraction) : List String :=
  (e.files.filter (·.complete)).map (·.relative)

/-- A name that climbs out of the destination is refused rather than followed. -/
@[grind =] def unusable (relative : String) : Bool :=
  relative.isEmpty || relative.startsWith "/" || relative.startsWith "../" ||
    decide ("/../".toList <:+: relative.toList)

/-- One item of the loop of `extractVitaPkg`. -/
@[grind =] def extractItem (dest : Destination) (info : VitaPkgInfo)
    (wanted : Option (VitaPkgItem → Bool)) (file : PkgFile) (item : VitaPkgItem) : Extraction :=
  let relative := dest.cleanPath item.name
  let target := dest.filePath relative
  if wanted.any (fun f => item.isDirectory || !f item) then ⟨[], none⟩
  else if unusable relative then
    ⟨[], some ("The package contains an unusable path: " ++ item.name)⟩
  else if item.isDirectory then
    if dest.mkpath target = false then ⟨[], some ("Could not create " ++ target ++ ".")⟩
    else ⟨[], none⟩
  else if dest.mkpath (dest.absolutePath target) = false then
    ⟨[], some ("Could not create " ++ dest.absolutePath target ++ ".")⟩
  else if info.dataSize < item.offset ∨ info.dataSize - item.offset < item.size then
    ⟨[], some (item.name ++ " lies outside the package's data area.")⟩
  else
    let stream := CtrStream.make info.itemKey info.itemCounter
    if stream.isValid = false then ⟨[], some "The package key could not be prepared."⟩
    else
      match file.seek (info.dataOffset + item.offset).toInt with
      | none => ⟨[], some ("Could not seek to " ++ item.name ++ " in the package.")⟩
      | some placed =>
          if dest.opens target = false then
            ⟨[], some ("Could not write " ++ target ++ ": " ++ dest.errorString target)⟩
          else
            let result := extractChunks dest item target (stream.seek item.offset) placed
              item.size.toNat []
            ⟨[⟨item, relative, target, result.1, result.2 = none⟩], result.2⟩

/-- The loop over the items, up to the first error. Every item starts with a `seek`, so
the position that the last one left is not used. -/
@[grind =] def extractItems (dest : Destination) (info : VitaPkgInfo)
    (wanted : Option (VitaPkgItem → Bool)) (file : PkgFile) : List VitaPkgItem → Extraction
  | [] => ⟨[], none⟩
  | item :: items =>
      let first := extractItem dest info wanted file item
      match first.error with
      | some e => ⟨first.files, some e⟩
      | none =>
          let rest := extractItems dest info wanted file items
          ⟨first.files ++ rest.files, rest.error⟩

def extractVitaPkg (dest : Destination) (file : Option PkgFile) (fileError : String)
    (info : VitaPkgInfo) (wanted : Option (VitaPkgItem → Bool)) : Extraction :=
  match file with
  | none => ⟨[], some ("Could not read the package: " ++ fileError)⟩
  | some file =>
      if dest.mkpath dest.path = false then ⟨[], some ("Could not create " ++ dest.path ++ ".")⟩
      else extractItems dest info wanted file info.items

/-- A file system that does everything. -/
structure Destination.Works (dest : Destination) : Prop where
  mkpath : ∀ path, dest.mkpath path = true
  opens : ∀ path, dest.opens path = true
  writes : ∀ path written chunk, dest.writes path written chunk = true
  flushes : ∀ path, dest.flushes path = true

/-- The next chunk is the front of what is left of the file. -/
theorem nextChunk_eq (file : PkgFile) {remaining : Nat} (hPos : 0 < remaining)
    (hLt : remaining < 2 ^ 63) :
    ∃ n, 0 < n ∧ n ≤ remaining ∧ (nextChunk file remaining).1 = file.rest.take n ∧
      (nextChunk file remaining).2.rest = file.rest.drop n := by
  have hInt : (BitVec.ofNat 64 remaining).toInt = remaining := by
    rw [BitVec.toInt_eq_toNat_of_lt, BitVec.toNat_ofNat, Nat.mod_eq_of_lt (by omega)]
    rw [BitVec.toNat_ofNat, Nat.mod_eq_of_lt (by omega)]
    omega
  refine ⟨(min kChunk (BitVec.ofNat 64 remaining).toInt).toNat, ?_, ?_, rfl, ?_⟩
  · rw [hInt, kChunk]
    omega
  · rw [hInt, kChunk]
    omega
  · exact file.rest_read _

section Chunks

variable {dest : Destination} {item : VitaPkgItem} {target : String} {aes : Aes}
  {base : Bytes 16} {p remaining : Nat} {stream : CtrStream} {file : PkgFile}
  {written : List Byte}

/-- A chunk goes through the stream at its position, which then stands behind it. -/
theorem extractChunks_step (hPos : 0 < remaining) (hSome : (nextChunk file remaining).1 ≠ []) :
    extractChunks dest item target stream file remaining written =
      let chunk := (nextChunk file remaining).1
      if dest.writes target written (stream.apply chunk).1 = false then
        (written, some ("Could not write " ++ target ++ ": " ++ dest.errorString target))
      else extractChunks dest item target (stream.apply chunk).2 (nextChunk file remaining).2
        (remaining - chunk.length) (written ++ (stream.apply chunk).1) := by
  rw [extractChunks, if_pos hPos]
  simp only [hSome, dif_neg, not_false_eq_true]

/-- Chunks without an error are the deciphered bytes from the stream's position on. -/
theorem extractChunks_none (hAt : CtrStream.At aes base p stream) (hValid : aes.isValid = true)
    (hLt : remaining < 2 ^ 63)
    (hNone : (extractChunks dest item target stream file remaining written).2 = none) :
    remaining ≤ file.rest.length ∧
      (extractChunks dest item target stream file remaining written).1 =
        written ++ xorStream (CtrStream.keystreamAt aes base) p (file.rest.take remaining) := by
  induction remaining using Nat.strong_induction_on generalizing p stream file written with
  | _ remaining ih =>
      rcases Nat.eq_zero_or_pos remaining with rfl | hPos
      · rw [extractChunks, if_neg (Nat.lt_irrefl 0)] at hNone ⊢
        by_cases hFlush : dest.flushes target = false
        · rw [if_pos hFlush] at hNone
          exact absurd hNone (Option.some_ne_none _)
        · rw [if_neg hFlush]
          exact ⟨Nat.zero_le _, (List.append_nil written).symm⟩
      · obtain ⟨n, hFirst, hLe, hChunk, hAfter⟩ := nextChunk_eq file hPos hLt
        by_cases hEnd : (nextChunk file remaining).1 = []
        · rw [extractChunks, if_pos hPos] at hNone
          simp only [hEnd, dif_pos] at hNone
          exact absurd hNone (Option.some_ne_none _)
        · rw [extractChunks_step hPos hEnd] at hNone ⊢
          by_cases hWrite : dest.writes target written
              (stream.apply (nextChunk file remaining).1).1 = false
          · rw [if_pos hWrite] at hNone
            exact absurd hNone (Option.some_ne_none _)
          · rw [if_neg hWrite] at hNone ⊢
            obtain ⟨hPlain, hNext⟩ := hAt.apply hValid (nextChunk file remaining).1
            have hLength := List.length_pos_of_ne_nil hEnd
            obtain ⟨hRest, hBytes⟩ := ih _ (by omega) hNext (by omega) hNone
            rw [hAfter, List.length_drop, hChunk, List.length_take] at hRest
            have hWhole : n ≤ file.rest.length := by
              rw [hChunk, List.length_take] at hLength
              omega
            have hTaken : (file.rest.take n).length = n := List.length_take_of_le hWhole
            refine ⟨by omega, ?_⟩
            rw [hBytes, hPlain, hAfter, hChunk, hTaken, List.append_assoc]
            have hSplit : file.rest.take remaining =
                file.rest.take n ++ (file.rest.drop n).take (remaining - n) := by
              rw [← List.take_add, Nat.add_sub_cancel' hLe]
            rw [hSplit, xorStream_append, hTaken]

/-- With a file system that does everything, only the end of the package is an error. -/
theorem extractChunks_works (hWorks : dest.Works) (hLt : remaining < 2 ^ 63)
    (hRest : remaining ≤ file.rest.length) :
    (extractChunks dest item target stream file remaining written).2 = none := by
  induction remaining using Nat.strong_induction_on generalizing stream file written with
  | _ remaining ih =>
      rcases Nat.eq_zero_or_pos remaining with rfl | hPos
      · rw [extractChunks, if_neg (Nat.lt_irrefl 0), if_neg]
        rw [hWorks.flushes]
        exact Bool.noConfusion
      · obtain ⟨n, hFirst, hLe, hChunk, hAfter⟩ := nextChunk_eq file hPos hLt
        have hLength : (nextChunk file remaining).1.length = n := by
          rw [hChunk]
          exact List.length_take_of_le (by omega)
        have hSome : (nextChunk file remaining).1 ≠ [] :=
          List.ne_nil_of_length_pos (hLength ▸ hFirst)
        rw [extractChunks_step hPos hSome,
          if_neg (by rw [hWorks.writes]; exact Bool.noConfusion)]
        refine ih _ (by omega) (by omega) ?_
        rw [hAfter, List.length_drop, hLength]
        omega

end Chunks

section Items

variable {dest : Destination} {info : VitaPkgInfo} {wanted : Option (VitaPkgItem → Bool)}
  {file placed : PkgFile} {item : VitaPkgItem} {out : List Byte}

/-- Behind a `seek`, a stream with a key stands at the offset. -/
theorem make_seek_at {key counter : List Byte}
    (hValid : (CtrStream.make key counter).isValid = true) :
    ∃ aes base, aes.isValid = true ∧ ∀ offset : BitVec 64,
      CtrStream.At aes base offset.toNat ((CtrStream.make key counter).seek offset) := by
  by_cases hLength : counter.length = 16
  · by_cases hKey : (Aes.setKey key).isValid = false
    · rw [CtrStream.make, dif_pos hLength, if_pos hKey] at hValid
      exact absurd (hValid.symm.trans hKey) Bool.noConfusion
    · have hAes := Bool.eq_true_of_not_eq_false hKey
      have hMake : CtrStream.At (Aes.setKey key) ⟨counter, hLength⟩ 0
          (CtrStream.make key counter) := by
        rw [CtrStream.make, dif_pos hLength, if_neg hKey]
        exact @CtrStream.seek_at _ _
          { CtrStream.empty with aes := Aes.setKey key, base := ⟨counter, hLength⟩ } hAes rfl rfl 0
      exact ⟨_, _, hAes, fun offset =>
        CtrStream.seek_at hValid hMake.aes_eq hMake.base_eq offset⟩
  · rw [CtrStream.make, dif_neg hLength] at hValid
    exact absurd hValid Bool.noConfusion

/-- An item lies in the data area. -/
@[grind =] def Fits (info : VitaPkgInfo) (item : VitaPkgItem) : Prop :=
  ¬(info.dataSize < item.offset ∨ info.dataSize - item.offset < item.size)

/-- The deciphered bytes of an item, when the package holds all of them. -/
structure Holds (file : PkgFile) (info : VitaPkgInfo) (item : VitaPkgItem) (out : List Byte) :
    Prop where
  fits : Fits info item
  valid : (CtrStream.make info.itemKey info.itemCounter).isValid = true
  bytes : ∃ placed, file.seek (info.dataOffset + item.offset).toInt = some placed ∧
    item.size.toNat ≤ placed.rest.length ∧
    out = (((CtrStream.make info.itemKey info.itemCounter).seek item.offset).apply
      (placed.rest.take item.size.toNat)).1

theorem toInt_size {size : BitVec 64} (hSize : size.toNat < 2 ^ 63) : size.toInt = size.toNat :=
  BitVec.toInt_eq_toNat_of_lt (by omega)

theorem readDecrypted_eq_some (hSize : item.size.toNat < 2 ^ 63) :
    readDecrypted file info item.offset item.size.toInt = some out ↔ Holds file info item out := by
  have hNonneg : ¬item.size.toInt < 0 := by
    rw [toInt_size hSize]
    omega
  rw [readDecrypted, if_neg hNonneg, BitVec.ofInt_toInt]
  by_cases hFits : info.dataSize < item.offset ∨ info.dataSize - item.offset < item.size
  · rw [if_pos hFits]
    exact ⟨fun h => absurd h (Option.some_ne_none _).symm, fun h => absurd hFits h.fits⟩
  rw [if_neg hFits]
  by_cases hValid : (CtrStream.make info.itemKey info.itemCounter).isValid = false
  · simp only [hValid, if_true]
    exact ⟨fun h => absurd h (Option.some_ne_none _).symm,
      fun h => absurd (h.valid.symm.trans hValid) Bool.noConfusion⟩
  have hReady := Bool.eq_true_of_not_eq_false hValid
  simp only [hReady, Bool.true_eq_false, if_false]
  cases hSeek : file.seek (info.dataOffset + item.offset).toInt with
  | none =>
      refine ⟨fun h => absurd h (Option.some_ne_none _).symm, fun h => ?_⟩
      obtain ⟨placed, hPlaced, _⟩ := h.bytes
      exact absurd (hSeek.symm.trans hPlaced) (Option.some_ne_none _).symm
  | some placed =>
      have hRead : (placed.read item.size.toInt).1 = placed.rest.take item.size.toNat := by
        rw [toInt_size hSize]
        rfl
      simp only [hRead]
      by_cases hRest : item.size.toNat ≤ placed.rest.length
      · rw [if_neg, Option.some_inj]
        · constructor
          · intro h
            exact ⟨hFits, hReady, placed, hSeek, hRest, h.symm⟩
          · intro h
            obtain ⟨other, hOther, _, hOut⟩ := h.bytes
            rw [hOut, Option.some.inj (hSeek.symm.trans hOther)]
        · rw [List.length_take_of_le hRest, toInt_size hSize, not_not]
      · rw [if_pos]
        · refine ⟨fun h => absurd h (Option.some_ne_none _).symm, fun h => ?_⟩
          obtain ⟨other, hOther, hLe, _⟩ := h.bytes
          rw [Option.some.inj (hSeek.symm.trans hOther)] at hRest
          exact absurd hLe hRest
        · rw [List.length_take, toInt_size hSize]
          omega

theorem readVitaPkgItem_eq_ok {fileError : String} {maxSize : Int}
    (hMax : (item.size.toNat : Int) ≤ maxSize) (hLt : maxSize < 2 ^ 63) :
    readVitaPkgItem (some file) fileError info item maxSize = .ok out ↔
      Holds file info item out := by
  have hSize : item.size.toNat < 2 ^ 63 := by omega
  have hMin : min maxSize item.size.toInt = item.size.toInt := by
    rw [toInt_size hSize]
    omega
  rw [← readDecrypted_eq_some hSize, readVitaPkgItem, hMin]
  cases readDecrypted file info item.offset item.size.toInt with
  | none => exact ⟨(nomatch ·), (nomatch ·)⟩
  | some bytes => rw [Except.ok.injEq, Option.some_inj]

/-- The caller asked for the item. -/
def selected (wanted : Option (VitaPkgItem → Bool)) (item : VitaPkgItem) : Bool :=
  !wanted.any (fun f => item.isDirectory || !f item)

/-- What can become of one item. A file system that does everything only refuses
unusable paths and items that the package does not hold. -/
inductive ItemOutcome (dest : Destination) (info : VitaPkgInfo)
    (wanted : Option (VitaPkgItem → Bool)) (file : PkgFile) (item : VitaPkgItem) :
    Extraction → Prop where
  | skipped (hSkip : selected wanted item = false) : ItemOutcome _ _ _ _ _ ⟨[], none⟩
  | directory (hDirectory : item.isDirectory = true) : ItemOutcome _ _ _ _ _ ⟨[], none⟩
  | refused (e : String) (hSelected : selected wanted item = true)
      (hWhy : dest.Works → unusable (dest.cleanPath item.name) = true ∨
        item.isDirectory = false ∧ ∀ out, ¬Holds file info item out) :
      ItemOutcome _ _ _ _ _ ⟨[], some e⟩
  | written (placed : PkgFile) (result : List Byte × Option String)
      (hSelected : selected wanted item = true) (hFits : Fits info item)
      (hValid : (CtrStream.make info.itemKey info.itemCounter).isValid = true)
      (hFile : item.isDirectory = false)
      (hSeek : file.seek (info.dataOffset + item.offset).toInt = some placed)
      (hResult : result = extractChunks dest item (dest.filePath (dest.cleanPath item.name))
        ((CtrStream.make info.itemKey info.itemCounter).seek item.offset) placed
        item.size.toNat []) :
      ItemOutcome _ _ _ _ _
        ⟨[⟨item, dest.cleanPath item.name, dest.filePath (dest.cleanPath item.name), result.1,
          result.2 = none⟩], result.2⟩

theorem extractItem_outcome (dest : Destination) (info : VitaPkgInfo)
    (wanted : Option (VitaPkgItem → Bool)) (file : PkgFile) (item : VitaPkgItem) :
    ItemOutcome dest info wanted file item (extractItem dest info wanted file item) := by
  have hNot {b : Bool} (hWorks : b = true) (hFails : b = false) : False :=
    Bool.noConfusion (hWorks.symm.trans hFails)
  rw [extractItem]
  by_cases hSkip : wanted.any (fun f => item.isDirectory || !f item) = true
  · rw [if_pos hSkip]
    exact .skipped (by rw [selected, hSkip]; rfl)
  have hSelected : selected wanted item = true := by
    rw [selected, Bool.eq_false_of_not_eq_true hSkip]
    rfl
  rw [if_neg hSkip]
  by_cases hPath : unusable (dest.cleanPath item.name) = true
  · rw [if_pos hPath]
    exact .refused _ hSelected fun _ => Or.inl hPath
  rw [if_neg hPath]
  by_cases hDirectory : item.isDirectory = true
  · rw [if_pos hDirectory]
    by_cases hMade : dest.mkpath (dest.filePath (dest.cleanPath item.name)) = false
    · rw [if_pos hMade]
      exact .refused _ hSelected fun hWorks => absurd hMade (hNot (hWorks.mkpath _))
    · rw [if_neg hMade]
      exact .directory hDirectory
  have hFile := Bool.eq_false_of_not_eq_true hDirectory
  rw [if_neg hDirectory]
  by_cases hMade :
      dest.mkpath (dest.absolutePath (dest.filePath (dest.cleanPath item.name))) = false
  · rw [if_pos hMade]
    exact .refused _ hSelected fun hWorks => absurd hMade (hNot (hWorks.mkpath _))
  rw [if_neg hMade]
  by_cases hFits : info.dataSize < item.offset ∨ info.dataSize - item.offset < item.size
  · rw [if_pos hFits]
    exact .refused _ hSelected fun _ => Or.inr ⟨hFile, fun _ h => h.fits hFits⟩
  rw [if_neg hFits]
  by_cases hValid : (CtrStream.make info.itemKey info.itemCounter).isValid = false
  · rw [if_pos hValid]
    exact .refused _ hSelected fun _ => Or.inr ⟨hFile, fun _ h => hNot h.valid hValid⟩
  rw [if_neg hValid]
  cases hSeek : file.seek (info.dataOffset + item.offset).toInt with
  | none =>
      refine .refused _ hSelected fun _ => Or.inr ⟨hFile, fun _ h => ?_⟩
      obtain ⟨placed, hPlaced, _⟩ := h.bytes
      exact absurd (hSeek.symm.trans hPlaced) (Option.some_ne_none _).symm
  | some placed =>
      by_cases hOpen : dest.opens (dest.filePath (dest.cleanPath item.name)) = false
      · simp only [hOpen, if_true]
        exact .refused _ hSelected fun hWorks => absurd hOpen (hNot (hWorks.opens _))
      · simp only [Bool.eq_true_of_not_eq_false hOpen, Bool.true_eq_false, if_false]
        exact .written placed _ hSelected hFits (Bool.eq_true_of_not_eq_false hValid) hFile hSeek
          rfl

/-- A complete file has the bytes that the package holds. -/
theorem ItemOutcome.complete {e : Extraction}
    (hOutcome : ItemOutcome dest info wanted file item e) {f : WrittenFile} (hf : f ∈ e.files) :
    f.item = item ∧
      (f.complete = true → item.size.toNat < 2 ^ 63 → Holds file info item f.bytes) := by
  cases hOutcome with
  | skipped => exact absurd hf List.not_mem_nil
  | directory => exact absurd hf List.not_mem_nil
  | refused => exact absurd hf List.not_mem_nil
  | written placed result _ hFits hValid _ hSeek hResult =>
      rw [List.mem_singleton.mp hf]
      refine ⟨rfl, fun hComplete hSize => ⟨hFits, hValid, placed, hSeek, ?_⟩⟩
      obtain ⟨aes, base, hAes, hSeeks⟩ := make_seek_at hValid
      have hNone : result.2 = none := of_decide_eq_true hComplete
      rw [hResult] at hNone
      obtain ⟨hRest, hBytes⟩ := extractChunks_none (hSeeks item.offset) hAes hSize hNone
      refine ⟨hRest, ?_⟩
      change result.1 = _
      rw [hResult, hBytes, List.nil_append, ((hSeeks item.offset).apply hAes _).1]

/-- Without an error every file that was asked for is complete. -/
theorem ItemOutcome.done {e : Extraction} (hOutcome : ItemOutcome dest info wanted file item e)
    (hNone : e.error = none) (hSelected : selected wanted item = true)
    (hFile : item.isDirectory = false) :
    ∃ f ∈ e.files, f.item = item ∧ f.complete = true ∧ f.relative = dest.cleanPath item.name := by
  cases hOutcome with
  | skipped hSkip => exact absurd (hSkip.symm.trans hSelected) Bool.noConfusion
  | directory hDirectory => exact absurd (hDirectory.symm.trans hFile) Bool.noConfusion
  | refused => exact absurd hNone (Option.some_ne_none _)
  | written placed result => exact ⟨_, List.mem_singleton_self _, rfl, decide_eq_true hNone, rfl⟩

/-- What the caller of an extraction asks for can be read. -/
def Readable (dest : Destination) (file : PkgFile) (info : VitaPkgInfo)
    (wanted : Option (VitaPkgItem → Bool)) (item : VitaPkgItem) : Prop :=
  selected wanted item = true → unusable (dest.cleanPath item.name) = false ∧
    (item.isDirectory = false → item.size.toNat < 2 ^ 63 ∧ ∃ out, Holds file info item out)

theorem ItemOutcome.works {e : Extraction} (hOutcome : ItemOutcome dest info wanted file item e)
    (hWorks : dest.Works) (hReadable : Readable dest file info wanted item) : e.error = none := by
  cases hOutcome with
  | skipped => rfl
  | directory => rfl
  | refused _ hSelected hWhy =>
      obtain ⟨hPath, hHolds⟩ := hReadable hSelected
      rcases hWhy hWorks with hBad | ⟨hFile, hNone⟩
      · exact absurd (hBad.symm.trans hPath) Bool.noConfusion
      · obtain ⟨out, hOut⟩ := (hHolds hFile).2
        exact absurd hOut (hNone out)
  | written placed result hSelected _ _ hFile hSeek hResult =>
      obtain ⟨hSize, out, hOut⟩ := (hReadable hSelected).2 hFile
      obtain ⟨other, hOther, hRest, _⟩ := hOut.bytes
      rw [← Option.some.inj (hSeek.symm.trans hOther)] at hRest
      change result.2 = none
      rw [hResult]
      exact extractChunks_works hWorks hSize hRest

end Items

variable (dest : Destination) (info : VitaPkgInfo) (wanted : Option (VitaPkgItem → Bool))
  (file : PkgFile)

theorem extractItems_complete (items : List VitaPkgItem) {f : WrittenFile}
    (hf : f ∈ (extractItems dest info wanted file items).files) :
    f.item ∈ items ∧
      (f.complete = true → f.item.size.toNat < 2 ^ 63 → Holds file info f.item f.bytes) := by
  induction items with
  | nil => exact absurd hf List.not_mem_nil
  | cons item items ih =>
      have hOutcome := extractItem_outcome dest info wanted file item
      have hFirst (hf : f ∈ (extractItem dest info wanted file item).files) :
          f.item ∈ item :: items ∧
            (f.complete = true → f.item.size.toNat < 2 ^ 63 → Holds file info f.item f.bytes) := by
        obtain ⟨hItem, hHolds⟩ := hOutcome.complete hf
        rw [hItem]
        exact ⟨List.mem_cons_self, hHolds⟩
      rw [extractItems] at hf
      cases hError : (extractItem dest info wanted file item).error with
      | some e =>
          simp only [hError] at hf
          exact hFirst hf
      | none =>
          simp only [hError] at hf
          rcases List.mem_append.mp hf with hf | hf
          · exact hFirst hf
          · exact ⟨List.mem_cons_of_mem _ (ih hf).1, (ih hf).2⟩

theorem extractItems_done (items : List VitaPkgItem)
    (hNone : (extractItems dest info wanted file items).error = none) {item : VitaPkgItem}
    (hItem : item ∈ items) (hSelected : selected wanted item = true)
    (hFile : item.isDirectory = false) :
    ∃ f ∈ (extractItems dest info wanted file items).files,
      f.item = item ∧ f.complete = true ∧ f.relative = dest.cleanPath item.name := by
  induction items with
  | nil => exact absurd hItem List.not_mem_nil
  | cons first items ih =>
      have hOutcome := extractItem_outcome dest info wanted file first
      rw [extractItems] at hNone ⊢
      cases hError : (extractItem dest info wanted file first).error with
      | some e =>
          simp only [hError] at hNone
          exact absurd hNone (Option.some_ne_none _)
      | none =>
          simp only [hError] at hNone ⊢
          rcases List.mem_cons.mp hItem with rfl | hItem
          · obtain ⟨f, hf, hIs⟩ := hOutcome.done hError hSelected hFile
            exact ⟨f, List.mem_append_left _ hf, hIs⟩
          · obtain ⟨f, hf, hIs⟩ := ih hNone hItem
            exact ⟨f, List.mem_append_right _ hf, hIs⟩

theorem extractItems_works (hWorks : dest.Works) (items : List VitaPkgItem)
    (hReadable : ∀ item ∈ items, Readable dest file info wanted item) :
    (extractItems dest info wanted file items).error = none := by
  induction items with
  | nil => rfl
  | cons item items ih =>
      have hError := (extractItem_outcome dest info wanted file item).works hWorks
        (hReadable item List.mem_cons_self)
      rw [extractItems]
      simp only [hError]
      exact ih fun other hOther => hReadable other (List.mem_cons_of_mem _ hOther)

/-- Whatever calls came before, the byte at a position is XORed with one byte of the
keystream, that of the counter block of the position. So the chunks of an extraction
write for each item what reading the item at once returns. -/
theorem stream_positions_extraction :
    (∀ (key : List Byte) (base : Bytes 16) (ops : List CtrStream.Op),
        key.length = 16 ∨ key.length = 32 →
          (CtrStream.make key base.val).run ops =
            CtrStream.positioned (CtrStream.keystreamAt (Aes.setKey key) base) 0 ops) ∧
      (∀ (base : Bytes 16) (n : Nat),
        beValue (CtrStream.counterAt base n).val = (beValue base.val + n) % 2 ^ 128) ∧
      ∀ (dest : Destination) (file : PkgFile) (fileError : String) (info : VitaPkgInfo)
        (wanted : Option (VitaPkgItem → Bool)),
        let reads (item : VitaPkgItem) (out : List Byte) := ∀ maxSize : Int,
          item.size.toNat ≤ maxSize → maxSize < 2 ^ 63 →
            readVitaPkgItem (some file) fileError info item maxSize = .ok out
        let e := extractVitaPkg dest (some file) fileError info wanted
        (∀ f ∈ e.files, f.item ∈ info.items ∧ (f.complete = true → reads f.item f.bytes)) ∧
          (e.error = none → ∀ item ∈ info.items, selected wanted item = true →
            item.isDirectory = false → ∃ f ∈ e.files,
              f.item = item ∧ f.complete = true ∧ f.relative = dest.cleanPath item.name) ∧
          (dest.Works →
            (∀ item ∈ info.items, selected wanted item = true →
              unusable (dest.cleanPath item.name) = false ∧ (item.isDirectory = false →
                item.size.toNat < 2 ^ 63 ∧ ∃ out, reads item out)) →
            e.error = none) := by
  refine ⟨?_, CtrStream.beValue_counterAt, ?_⟩
  · intro key base ops hKey
    exact (CtrStream.make_at hKey base).run (Aes.isValid_of_length hKey) ops
  · intro dest file fileError info wanted reads e
    by_cases hMade : dest.mkpath dest.path = false
    · have he : e = ⟨[], some ("Could not create " ++ dest.path ++ ".")⟩ := if_pos hMade
      rw [he]
      refine ⟨fun f hf => absurd hf List.not_mem_nil, fun h => absurd h (Option.some_ne_none _),
        fun hWorks => ?_⟩
      exact absurd ((hWorks.mkpath _).symm.trans hMade) Bool.noConfusion
    · have he : e = extractItems dest info wanted file info.items := if_neg hMade
      rw [he]
      refine ⟨fun f hf => ?_, fun hNone item hItem => ?_, fun hWorks hReads => ?_⟩
      · obtain ⟨hItem, hHolds⟩ := extractItems_complete dest info wanted file info.items hf
        refine ⟨hItem, fun hComplete maxSize hMax hLt => ?_⟩
        exact (readVitaPkgItem_eq_ok hMax hLt).mpr (hHolds hComplete (by omega))
      · exact extractItems_done dest info wanted file info.items hNone hItem
      · refine extractItems_works dest info wanted file hWorks info.items
          fun item hItem hSelected => ?_
        obtain ⟨hPath, hRead⟩ := hReads item hItem hSelected
        refine ⟨hPath, fun hFile => ?_⟩
        obtain ⟨hSize, out, hOut⟩ := hRead hFile
        exact ⟨hSize, out, (readVitaPkgItem_eq_ok (Int.le_refl _) (by omega)).mp
          (hOut item.size.toNat (Int.le_refl _) (by omega))⟩

/-- A chunk across a block's end, behind a `seek`. -/
theorem stream_positions_at_fifteen :
    let key := List.replicate 16 (0 : Byte)
    let ks := CtrStream.keystreamAt (Aes.setKey key) CtrStream.zeros
    (CtrStream.make key CtrStream.zeros.val).run [.seek 15, .apply [1, 2]] =
      [[1 ^^^ ks 15, 2 ^^^ ks 16]] :=
  stream_positions_extraction.1 (List.replicate 16 0) CtrStream.zeros [.seek 15, .apply [1, 2]]
    (Or.inl rfl)

end RecompStudio.Studio
