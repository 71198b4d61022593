import RecompStudio.Disc.Cue
import Mathlib.Tactic.Common

/-!
Disc images as `ISOReader` opens and reads them: the image files of a sheet, one behind the
other, and its tracks.
-/

namespace RecompStudio.Disc

open Serial

/-- The bytes of a file. -/
structure FileData where
  size : Nat
  byte : Nat → Byte

namespace FileData

def bytes (data : FileData) : List Byte := (List.range data.size).map data.byte

/-- A read of so many bytes, which fails if there are fewer. -/
def read (data : FileData) (offset size : Nat) : Option (Nat → Byte) :=
  if offset + size ≤ data.size then some fun i => data.byte (offset + i) else none

end FileData

/-- `ImageFile`. -/
structure ImageFile where
  path : List Byte
  baseLba : BitVec 32
  sectorCount : BitVec 32
  sectorSize : Nat
  audioOnly : Bool
  stream : FileData

/-- `CDTrack`. -/
structure CDTrack where
  number : BitVec 32
  isAudio : Bool
  startLba : BitVec 32
  fileBaseLba : BitVec 32
  fileIndexLba : BitVec 32
  sectorSize : Nat
  filePath : List Byte
deriving DecidableEq, Repr

/-- A sort by the track numbers. The order of equal numbers is open. -/
structure TrackSort where
  sort : List CDTrack → List CDTrack
  perm : ∀ tracks, (sort tracks).Perm tracks
  sorted : ∀ tracks, (sort tracks).Pairwise fun a b => a.number.toInt ≤ b.number.toInt

/-- `ISOReader`, when it is open. -/
structure ISOReader where
  images : List ImageFile
  tracks : List CDTrack

/-- The sector size of a file without one of its own. -/
def inferredSectorSize (fileSize : Nat) : Nat :=
  if fileSize % rawSectorSize = 0 then rawSectorSize else cookedSectorSize

/-- One image file, the `index`-th of the sheet. -/
def openImage (tracks : List CueTrackSpec) (spec : CueFileSpec) (index : Nat) (discLba : BitVec 32)
    (data : FileData) : Option ImageFile :=
  let sectorSize := if spec.sectorSize = 0 then inferredSectorSize data.size else spec.sectorSize
  if data.size = 0 ∨ data.size % sectorSize ≠ 0 then none
  else
    let own := tracks.filter (·.fileIndex == index)
    some {
      path := spec.path
      baseLba := discLba
      sectorCount := BitVec.ofNat 32 (data.size / sectorSize)
      sectorSize
      audioOnly := !own.isEmpty && own.all (·.isAudio)
      stream := data }

/-- The loop over the files. -/
def openImages (files : List Byte → Option FileData) (tracks : List CueTrackSpec) :
    List CueFileSpec → (index : Nat) → (discLba : BitVec 32) → Option (List ImageFile)
  | [], _, _ => some []
  | spec :: specs, index, discLba => do
      let data ← files spec.path
      let image ← openImage tracks spec index discLba data
      let rest ← openImages files tracks specs (index + 1) (discLba + image.sectorCount)
      return image :: rest

def openTrack (images : List ImageFile) (spec : CueTrackSpec) : Option CDTrack := do
  let image ← images[spec.fileIndex]?
  let indexLba := if spec.hasIndex01 then spec.index01Lba else 0
  if image.sectorCount < indexLba then none
  else
    return {
      number := spec.number
      isAudio := spec.isAudio
      startLba := image.baseLba + indexLba
      fileBaseLba := image.baseLba
      fileIndexLba := indexLba
      sectorSize := image.sectorSize
      filePath := image.path }

/-- The track of an image whose sheet has none. -/
def wholeTrack (image : ImageFile) : CDTrack where
  number := 1
  isAudio := false
  startLba := image.baseLba
  fileBaseLba := image.baseLba
  fileIndexLba := 0
  sectorSize := image.sectorSize
  filePath := image.path

namespace ISOReader

/-- `Open`, from the sheet on. -/
def openSheet (sort : TrackSort) (files : List Byte → Option FileData) (sheet : CueSheet) :
    Option ISOReader := do
  let images ← openImages files sheet.tracks sheet.files 0 0
  let tracks ← sheet.tracks.mapM (openTrack images)
  let tracks := if tracks.isEmpty then (images.head?.map wholeTrack).toList else tracks
  return { images, tracks := sort.sort tracks }

def toLower (c : Byte) : Byte := if 0x41 ≤ c.toNat ∧ c.toNat ≤ 0x5A then c + 0x20 else c

/-- `ends_with_ci`. -/
def endsWithCi (value suffix : List Byte) : Bool :=
  suffix.map toLower <:+ value.map toLower

/-- `Open`. The paths of a sheet are relative to it. -/
def openFile (sort : TrackSort) (files : List Byte → Option FileData)
    (resolve : List Byte → List Byte) (filename : List Byte) : Option ISOReader := do
  let data ← files filename
  if endsWithCi filename (ascii ".cue") then
    let sheet ← CueSheet.read resolve data.bytes
    openSheet sort files sheet
  else openSheet sort files (CueSheet.bare filename)

variable (reader : ISOReader) (lba : BitVec 32)

/-- `FindImageFile`. -/
def findImageFile : Option ImageFile :=
  reader.images.find? fun image => image.baseLba ≤ lba ∧ lba - image.baseLba < image.sectorCount

/-- `FindTrack`. -/
def findTrack : Option CDTrack :=
  reader.tracks.foldl (fun found track =>
    if track.startLba ≤ lba ∧ (∀ t ∈ found, t.startLba ≤ track.startLba) then some track else found)
    none

/-- The user data of a raw sector. -/
def userData (raw : Nat → Byte) (i : Nat) : Byte := raw ((if raw 15 = 1 then 16 else 24) + i)

/-- Whether a sector is audio. -/
def refuses (image : ImageFile) : Bool :=
  image.audioOnly ||
    (reader.findTrack lba).any fun track => track.isAudio && decide (track.startLba ≤ lba)

/-- `ReadSector`. -/
def readSector : Option (Nat → Byte) := do
  let image ← reader.findImageFile lba
  let localLba := (lba - image.baseLba).toNat
  if reader.refuses lba image then none
  else if image.sectorSize = rawSectorSize then
    let raw ← image.stream.read (localLba * rawSectorSize) rawSectorSize
    return userData raw
  else image.stream.read (localLba * cookedSectorSize) cookedSectorSize

/-- `ReadRawSector`. -/
def readRawSector : Option (Nat → Byte) := do
  let image ← reader.findImageFile lba
  if image.sectorSize = rawSectorSize then
    image.stream.read ((lba - image.baseLba).toNat * rawSectorSize) rawSectorSize
  else none

/-- `GetSectorCount`. -/
def sectorCount : BitVec 32 :=
  let total := (reader.images.map (·.sectorCount.toNat)).sum
  if 2 ^ 32 - 1 < total then BitVec.allOnes 32 else BitVec.ofNat 32 total

/-- `TrackStartLBA`. -/
def trackStartLba (track : BitVec 32) : BitVec 32 :=
  match reader.tracks.find? (·.number == track) with
  | some t => t.startLba
  | none => 0

end ISOReader

end RecompStudio.Disc
