import Mathlib.Data.List.Infix
import RecompStudio.Library.Serial

/-!
Cue sheets as `ISOReader::Open` reads them: lines with `FILE`, `TRACK` and
`INDEX`, the last two scanned as `sscanf` does.
-/

namespace RecompStudio.Disc

open Serial

/-- The bytes of a text. -/
def ascii (s : String) : List Byte := s.toList.map fun c => BitVec.ofNat 8 c.toNat

def isSpace (c : Byte) : Bool := c = 0x20 ∨ (9 ≤ c.toNat ∧ c.toNat ≤ 13)
def isDigit (c : Byte) : Bool := 0x30 ≤ c.toNat ∧ c.toNat ≤ 0x39

/-- White space in a format. -/
def skipSpace (s : List Byte) : List Byte := s.dropWhile isSpace

/-- Other characters in a format. -/
def scanText (w s : List Byte) : Option (List Byte) :=
  if w <+: s then some (s.drop w.length) else none

/-- `%d`. A number outside `int` wraps. -/
def scanInt (s : List Byte) : Option (BitVec 32 × List Byte) :=
  let (negative, t) := match skipSpace s with
    | 0x2D :: t => (true, t)
    | 0x2B :: t => (false, t)
    | t => (false, t)
  let digits := t.takeWhile isDigit
  let v : Int := digits.foldl (fun v c => 10 * v + (c.toNat - 0x30)) 0
  if digits = [] then none
  else some (BitVec.ofInt 32 (if negative then -v else v), t.drop digits.length)

/-- `%31s`. -/
def scanWord (s : List Byte) : Option (List Byte) :=
  let w := (skipSpace s).takeWhile fun c => !isSpace c
  if w = [] then none else some (w.take 31)

/-- A line up to its first zero byte. -/
def cStr (line : List Byte) : List Byte := line.takeWhile (· ≠ 0)

/-- `sscanf` of `TRACK %d %31s`. -/
def scanTrack (line : List Byte) : Option (BitVec 32 × List Byte) := do
  let s ← scanText (ascii "TRACK") (skipSpace line)
  let (number, s) ← scanInt s
  let type ← scanWord s
  return (number, type)

/-- `sscanf` of `INDEX %d %d:%d:%d`. -/
def scanIndex (line : List Byte) : Option (BitVec 32 × BitVec 32 × BitVec 32 × BitVec 32) := do
  let s ← scanText (ascii "INDEX") (skipSpace line)
  let (idx, s) ← scanInt s
  let (mm, s) ← scanInt s
  let s ← scanText (ascii ":") s
  let (ss, s) ← scanInt s
  let s ← scanText (ascii ":") s
  let (ff, _) ← scanInt s
  return (idx, mm, ss, ff)

/-- What is left of a text from the first occurrence of a word. -/
def suffixAt (w : List Byte) : List Byte → Option (List Byte)
  | [] => if w = [] then some [] else none
  | c :: s => if w <+: c :: s then some (c :: s) else suffixAt w s

/-- The text between the first two quotes. -/
def quoted (s : List Byte) : Option (List Byte) :=
  match s.dropWhile (· ≠ 0x22) with
  | [] => none
  | _ :: t => if 0x22 ∈ t then some (t.takeWhile (· ≠ 0x22)) else none

def rawSectorSize : Nat := 2352
def cookedSectorSize : Nat := 2048

/-- `CueFileSpec`. -/
structure CueFileSpec where
  path : List Byte
  sectorSize : Nat
deriving DecidableEq, Repr

/-- `CueTrackSpec`. -/
structure CueTrackSpec where
  number : BitVec 32
  isAudio : Bool
  fileIndex : Nat
  index01Lba : BitVec 32
  hasIndex01 : Bool
  sectorSize : Nat
deriving DecidableEq, Repr

/-- `track_sector_size`. -/
def trackSectorSize (type : List Byte) : Nat :=
  if ascii "/2048" <:+: type then cookedSectorSize else rawSectorSize

/-- `cue_msf_to_lba`. -/
def cueMsfToLba (mm ss ff : BitVec 32) : BitVec 32 := (mm * 60 + ss) * 75 + ff

/-- The files and tracks of the lines read so far. -/
structure CueSheet where
  files : List CueFileSpec
  tracks : List CueTrackSpec
  currentFile : Option Nat
  currentTrack : Option Nat
deriving DecidableEq, Repr

namespace CueSheet

def empty : CueSheet := ⟨[], [], none, none⟩

def addFile (c : CueSheet) (path : List Byte) : CueSheet :=
  { c with files := c.files ++ [⟨path, 0⟩], currentFile := some c.files.length,
           currentTrack := none }

/-- The largest of the sizes is kept. -/
def raiseSectorSize (size : Nat) (f : CueFileSpec) : CueFileSpec :=
  if f.sectorSize = 0 ∨ f.sectorSize < size then { f with sectorSize := size } else f

def addTrack (c : CueSheet) (file : Nat) (number : BitVec 32) (type : List Byte) : CueSheet :=
  { c with
    tracks := c.tracks ++
      [⟨number, ascii "AUDIO" <:+: type, file, 0, false, trackSectorSize type⟩]
    currentTrack := some c.tracks.length
    files := c.files.modify file (raiseSectorSize (trackSectorSize type)) }

def setIndex01 (c : CueSheet) (track : Nat) (lba : BitVec 32) : CueSheet :=
  { c with tracks := c.tracks.modify track fun tr =>
      { tr with index01Lba := lba, hasIndex01 := true } }

/-- One line of the loop. Without a value the sheet is refused. -/
def readLine (resolve : List Byte → List Byte) (c : CueSheet) (line : List Byte) :
    Option CueSheet :=
  match suffixAt (ascii "FILE") line, suffixAt (ascii "BINARY") line with
  | some rest, some _ => (quoted rest).map fun path => c.addFile (resolve path)
  | _, _ =>
      match scanTrack (cStr line) with
      | some (number, type) => c.currentFile.map fun file => c.addTrack file number type
      | none =>
          match scanIndex (cStr line), c.currentTrack with
          | some (idx, mm, ss, ff), some track =>
              if idx = 1 then some (c.setIndex01 track (cueMsfToLba mm ss ff)) else some c
          | _, _ => some c

/-- The loop over the lines of a cue file. -/
def read (resolve : List Byte → List Byte) (text : List Byte) : Option CueSheet := do
  let c ← (text.splitOn 0x0A).foldlM (readLine resolve) empty
  if c.files = [] then none else some c

/-- What stands for a sheet where an image is opened by itself. -/
def bare (path : List Byte) : CueSheet :=
  ⟨[⟨path, 0⟩], [⟨1, false, 0, 0, true, rawSectorSize⟩], none, none⟩

end CueSheet

end RecompStudio.Disc
