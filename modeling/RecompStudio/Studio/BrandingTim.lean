import RecompStudio.Library.PatchLog
import RecompStudio.Library.Serial
import RecompStudio.Studio.Aes
import Mathlib.Algebra.Group.Int.Defs
import Mathlib.Tactic.Common

/-!
The images that the branding patcher writes into a BIOS: the palette that is chosen
for one, and the 4-bit TIM that it becomes.
-/

namespace RecompStudio.Studio.Branding

open Serial (Byte)

/-- The BIOS in memory. Its size never changes. -/
structure Rom where
  size : Nat
  byte : Nat → Byte

namespace Rom

variable (rom : Rom)

def read16 (offset : Nat) : BitVec 16 := rom.byte (offset + 1) ++ rom.byte offset

@[grind =] def read32 (offset : Nat) : BitVec 32 :=
  rom.byte (offset + 3) ++ rom.byte (offset + 2) ++ rom.byte (offset + 1) ++ rom.byte offset

/-- Bytes in a row, stored from an offset on. -/
def write (offset : Nat) (bytes : List Byte) : Rom :=
  { rom with
    byte := fun i => if offset ≤ i then bytes.getD (i - offset) (rom.byte i) else rom.byte i }

def write16 (offset : Nat) (value : BitVec 16) : Rom :=
  rom.write offset [value.extractLsb' 0 8, value.extractLsb' 8 8]

def wordBytes (value : BitVec 32) : List Byte :=
  [value.extractLsb' 0 8, value.extractLsb' 8 8, value.extractLsb' 16 8, value.extractLsb' 24 8]

def write32 (offset : Nat) (value : BitVec 32) : Rom := rom.write offset (wordBytes value)

/-- A range of the buffer. -/
def mid (offset size : Nat) : List Byte := PatchLog.slice rom.byte offset size

variable {rom} {offset i : Nat} {bytes : List Byte}

theorem read16_congr {rom' : Rom} (h : ∀ i < 2, rom'.byte (offset + i) = rom.byte (offset + i)) :
    rom'.read16 offset = rom.read16 offset := by
  rw [read16, read16, h 1 (by decide), show rom'.byte offset = rom.byte offset from h 0 (by decide)]

theorem read32_congr {rom' : Rom} (h : ∀ i < 4, rom'.byte (offset + i) = rom.byte (offset + i)) :
    rom'.read32 offset = rom.read32 offset := by
  rw [read32, read32, h 3 (by decide), h 2 (by decide), h 1 (by decide),
    show rom'.byte offset = rom.byte offset from h 0 (by decide)]

theorem write_byte_outside (h : i < offset ∨ offset + bytes.length ≤ i) :
    (rom.write offset bytes).byte i = rom.byte i := by
  rw [write]
  rcases h with hBefore | hBehind
  · exact if_neg (by omega)
  · refine (if_pos (by omega)).trans ?_
    rw [List.getD_eq_getElem?_getD, List.getElem?_eq_none (by omega), Option.getD_none]

theorem write_byte (hi : i < bytes.length) :
    (rom.write offset bytes).byte (offset + i) = bytes.getD i 0 := by
  change (if offset ≤ offset + i then bytes.getD (offset + i - offset) _ else _) = _
  rw [if_pos (Nat.le_add_right offset i), Nat.add_sub_cancel_left, List.getD_eq_getElem?_getD,
    List.getD_eq_getElem?_getD, List.getElem?_eq_getElem hi, Option.getD_some, Option.getD_some]

theorem mid_write : (rom.write offset bytes).mid offset bytes.length = bytes := by
  refine List.ext_getElem (PatchLog.length_slice _ _ _) fun i _ hi => ?_
  have hByte := @write_byte rom offset i bytes hi
  rw [List.getD_eq_getElem?_getD, List.getElem?_eq_getElem hi, Option.getD_some] at hByte
  rw [← hByte]
  simp only [mid, PatchLog.slice, List.getElem_map, List.getElem_range]

theorem write_patches :
    PatchLog.Patches rom.byte ⟨offset, bytes⟩ (rom.write offset bytes).byte where
  frame _ hOut := write_byte_outside (by simp only [PatchLog.Entry.Covers] at hOut; omega)
  describes := mid_write

/-- A buffer that differs only between two offsets. -/
structure Inside (first last : Nat) (rom rom' : Rom) : Prop where
  size : rom'.size = rom.size
  frame : ∀ i, i < first ∨ last ≤ i → rom'.byte i = rom.byte i

namespace Inside

variable {first last : Nat} {rom rom' : Rom}

theorem refl : Inside first last rom rom := ⟨rfl, fun _ _ => rfl⟩

theorem write (h : Inside first last rom rom') (hFirst : first ≤ offset)
    (hLast : offset + bytes.length ≤ last) : Inside first last rom (rom'.write offset bytes) where
  size := h.size
  frame i hi := (write_byte_outside (by omega)).trans (h.frame i hi)

theorem write16 {value : BitVec 16} (h : Inside first last rom rom') (hFirst : first ≤ offset)
    (hLast : offset + 2 ≤ last) : Inside first last rom (rom'.write16 offset value) :=
  h.write hFirst hLast

theorem write32 {value : BitVec 32} (h : Inside first last rom rom') (hFirst : first ≤ offset)
    (hLast : offset + 4 ≤ last) : Inside first last rom (rom'.write32 offset value) :=
  h.write hFirst hLast

theorem trans {rom'' : Rom} (h : Inside first last rom rom') (h' : Inside first last rom' rom'') :
    Inside first last rom rom'' :=
  ⟨h'.size.trans h.size, fun i hi => (h'.frame i hi).trans (h.frame i hi)⟩

theorem mono {last' : Nat} (h : Inside first last rom rom') (hLast : last ≤ last') :
    Inside first last' rom rom' :=
  ⟨h.size, fun i hi => h.frame i (hi.imp_right hLast.trans)⟩

theorem mid {size : Nat} (h : Inside first last rom rom')
    (hOut : offset + size ≤ first ∨ last ≤ offset) :
    rom'.mid offset size = rom.mid offset size :=
  PatchLog.slice_congr fun i _ _ => h.frame i (by omega)

end Inside

end Rom

structure Rgb where
  a : Byte
  r : Byte
  g : Byte
  b : Byte
deriving DecidableEq, Repr

structure Image where
  width : Nat
  height : Nat
  pixel : Nat → Nat → Rgb

/-- All pixels, row by row. -/
def Image.pixels (image : Image) : List Rgb :=
  (List.range image.height).flatMap fun y => (List.range image.width).map fun x => image.pixel x y

def qRgb (r g b : Nat) : Rgb :=
  { a := 255, r := BitVec.ofNat 8 r, g := BitVec.ofNat 8 g, b := BitVec.ofNat 8 b }

def clear : Rgb := { a := 0, r := 0, g := 0, b := 0 }

/-- `qAlpha(pixel) < 128` in transparent mode. -/
def isClear (transparent : Bool) (pixel : Rgb) : Bool := transparent && decide (pixel.a.toNat < 128)

def colorDistance (p q : Rgb) : Int :=
  let dr : Int := p.r.toNat - q.r.toNat
  let dg : Int := p.g.toNat - q.g.toNat
  let db : Int := p.b.toNat - q.b.toNat
  dr * dr + dg * dg + db * db

structure WeightedColor where
  r : Nat
  g : Nat
  b : Nat
  count : Nat
deriving DecidableEq, Repr, Inhabited

structure ColorBox where
  indices : List Nat
  count : Nat
  rMin : Nat
  rMax : Nat
  gMin : Nat
  gMax : Nat
  bMin : Nat
  bMax : Nat
deriving DecidableEq, Repr

/-- A sort by a comparison, which leaves the order of equal elements open. -/
structure StdSort where
  sort : (Nat → Nat → Bool) → List Nat → List Nat
  perm : ∀ less l, (sort less l).Perm l

section Palette

variable (colors : List WeightedColor)

def color (index : Nat) : WeightedColor := colors.getD index default

/-- `updateBox`, for the box of so many indices. -/
def updateBox (indices : List Nat) : ColorBox :=
  indices.foldl (fun box index =>
    let c := color colors index
    { box with
      count := box.count + c.count
      rMin := min box.rMin c.r
      rMax := max box.rMax c.r
      gMin := min box.gMin c.g
      gMax := max box.gMax c.g
      bMin := min box.bMin c.b
      bMax := max box.bMax c.b })
    { indices, count := 0, rMin := 255, rMax := 0, gMin := 255, gMax := 0, bMin := 255, bMax := 0 }

namespace ColorBox

variable (box : ColorBox)

def rRange : Nat := box.rMax - box.rMin
def gRange : Nat := box.gMax - box.gMin
def bRange : Nat := box.bMax - box.bMin

def score : Int := (max (max box.rRange box.gRange) box.bRange + 1) * box.count

/-- The channel that is widest. -/
def channel : Nat :=
  if box.gRange ≤ box.rRange ∧ box.bRange ≤ box.rRange then 0
  else if box.bRange ≤ box.gRange then 1
  else 2

def less (lhs rhs : Nat) : Bool :=
  let a := color colors lhs
  let b := color colors rhs
  if box.channel = 0 then a.r < b.r else if box.channel = 1 then a.g < b.g else a.b < b.b

end ColorBox

/-- The first box with the highest score among those of two and more colours. -/
def bestBox : List ColorBox → Nat → Option Nat → Int → Option Nat
  | [], _, best, _ => best
  | box :: rest, i, best, bestScore =>
      if box.indices.length < 2 then bestBox rest (i + 1) best bestScore
      else if bestScore < box.score then bestBox rest (i + 1) (some i) box.score
      else bestBox rest (i + 1) best bestScore

/-- The loop for the split, over the indices but the last one. -/
def splitIndex (count : Nat) : List Nat → (accumulated split : Nat) → Nat
  | [], _, split => split
  | [_], _, split => split
  | index :: rest, accumulated, split =>
      let accumulated := accumulated + (color colors index).count
      if count ≤ accumulated * 2 then split + 1 else splitIndex count rest accumulated (split + 1)

variable (std : StdSort)

def sortedIndices (box : ColorBox) : List Nat := std.sort (box.less colors) box.indices

def splitBoxes (colorCount : Nat) (boxes : List ColorBox) : List ColorBox :=
  if boxes.length < colorCount then
    match bestBox boxes 0 none (-1) with
    | none => boxes
    | some best =>
        match _ : boxes[best]? with
        | none => boxes
        | some box =>
            let indices := sortedIndices colors std box
            let split := splitIndex colors box.count indices 0 0
            splitBoxes colorCount (boxes.eraseIdx best ++
              [updateBox colors (indices.take split), updateBox colors (indices.drop split)])
  else boxes
termination_by colorCount - boxes.length
decreasing_by
  obtain ⟨hLt, -⟩ := List.getElem?_eq_some_iff.mp ‹_›
  rw [List.length_append, List.length_eraseIdx_of_lt hLt, List.length_cons, List.length_singleton]
  omega

/-- The average colour of a box. -/
def boxColor (box : ColorBox) : Rgb :=
  let weighted := box.indices.map (color colors)
  let count := (weighted.map (·.count)).sum
  qRgb ((weighted.map fun c => c.r * c.count).sum / count)
    ((weighted.map fun c => c.g * c.count).sum / count)
    ((weighted.map fun c => c.b * c.count).sum / count)

/-- `updateBox` of all colours. -/
def firstBox : ColorBox := updateBox colors (List.range colors.length)

def boxes (colorCount : Nat) : List ColorBox := splitBoxes colors std colorCount [firstBox colors]

/-- The entries are repeated up to 16, and then cut. -/
def padPalette (palette : List Rgb) : List Rgb :=
  (palette ++ List.replicate (16 - palette.length) (palette.getLastD clear)).take 16

end Palette

/-- The upper five bits of each channel. -/
def colorKey (pixel : Rgb) : Nat :=
  pixel.r.toNat / 8 + pixel.g.toNat / 8 * 32 + pixel.b.toNat / 8 * 1024

def histogram (image : Image) (transparent : Bool) (key : Nat) : Nat :=
  (image.pixels.filter fun pixel => !isClear transparent pixel).countP fun pixel =>
    colorKey pixel == key

/-- The colour in the middle of a key's cell. -/
def keyColor (key count : Nat) : WeightedColor where
  r := key % 32 * 8 + 4
  g := key / 32 % 32 * 8 + 4
  b := key / 1024 % 32 * 8 + 4
  count

def histogramColors (image : Image) (transparent : Bool) : List WeightedColor :=
  ((List.range 32768).filter fun key => histogram image transparent key ≠ 0).map fun key =>
    keyColor key (histogram image transparent key)

/-- An image without colours gets one of its own. -/
@[grind =] def imageColors (image : Image) (transparent : Bool) : List WeightedColor :=
  let colors := histogramColors image transparent
  if colors.isEmpty then [{ r := 255, g := 255, b := 255, count := 1 }] else colors

def makePalette (std : StdSort) (image : Image) (colorCount : Nat)
    (transparent : Bool) : List Rgb :=
  let colors := imageColors image transparent
  let averages := (boxes colors std colorCount).map (boxColor colors)
  padPalette (if transparent then clear :: averages else averages)

theorem length_makePalette (std : StdSort) (image : Image) (colorCount : Nat) (transparent : Bool) :
    (makePalette std image colorCount transparent).length = 16 := by
  rw [makePalette, padPalette, List.length_take, List.length_append, List.length_replicate]
  omega

/-- The nearest entry from `first` on, the first one of several. -/
def nearestColor (pixel : Rgb) (palette : List Rgb) (first : Nat) : Nat :=
  ((List.range' first (palette.length - first)).foldl (fun best i =>
    let distance := colorDistance pixel (palette.getD i clear)
    if distance < best.2 then (i, distance) else best) (first, (2 ^ 31 - 1 : Int))).1

def toPsxColor (color : Rgb) (transparent : Bool) : BitVec 16 :=
  if transparent then 0
  else
    let value := BitVec.ofNat 16
      (color.r.toNat / 8 + color.g.toNat / 8 * 32 + color.b.toNat / 8 * 1024)
    if value &&& 0x7FFF = 0 then 1 else value

def pixelIndex (transparent : Bool) (palette : List Rgb) (pixel : Rgb) : Nat :=
  if isClear transparent pixel then 0
  else nearestColor pixel palette (if transparent then 1 else 0)

/-- The bytes of the pixels, two in each. -/
def encodePixels (image : Image) (transparent : Bool) (palette : List Rgb) : List Byte :=
  (List.range image.height).flatMap fun y => (List.range ((image.width + 1) / 2)).map fun x =>
    BitVec.ofNat 8 (pixelIndex transparent palette (image.pixel (2 * x) y)) |||
      BitVec.ofNat 8 (pixelIndex transparent palette (image.pixel (2 * x + 1) y)) <<< 4

/-- The stored palette. -/
def clutBytes (transparent : Bool) (palette : List Rgb) : List Byte :=
  (List.range 16).flatMap fun i =>
    let value := toPsxColor (palette.getD i clear) (transparent && i == 0)
    [value.extractLsb' 0 8, value.extractLsb' 8 8]

theorem length_clutBytes (transparent : Bool) (palette : List Rgb) :
    (clutBytes transparent palette).length = 32 := by
  simp only [clutBytes, List.length_flatMap, List.length_cons, List.length_nil, List.map_const',
    List.length_range, List.sum_replicate_nat, Nat.reduceAdd, Nat.reduceMul]

theorem length_encodePixels (image : Image) (transparent : Bool) (palette : List Rgb) :
    (encodePixels image transparent palette).length = image.height * ((image.width + 1) / 2) := by
  simp only [encodePixels, List.length_flatMap, List.length_map, List.length_range, List.map_const',
    List.sum_replicate_nat]

/-- The words of an image whose rows are a multiple of four pixels. -/
theorem length_encodePixels_of_mod (image : Image) (transparent : Bool) (palette : List Rgb)
    (hWidth : image.width % 4 = 0) :
    (encodePixels image transparent palette).length = image.width / 4 * image.height * 2 := by
  have hHalf : (image.width + 1) / 2 = image.width / 4 * 2 := by omega
  rw [length_encodePixels, hHalf, ← Nat.mul_assoc, Nat.mul_comm image.height]

structure TimInfo where
  offset : Nat
  clutDataOffset : Nat
  imageDataOffset : Nat
  width : Nat
  height : Nat
  imageWords : Nat
  totalSize : Nat
  clutX : BitVec 16
  clutY : BitVec 16
  imageX : BitVec 16
  imageY : BitVec 16
deriving DecidableEq, Repr

/-- A number as `arg(n, 0, 16)` prints it behind `0x`. -/
def hex (n : Nat) : String := "0x" ++ String.ofList (Nat.toDigits 16 n)

@[grind =]
def parseTim (rom : Rom) (offset expectedWidth expectedHeight : Nat) : Except String TimInfo :=
  if rom.size < offset + 32 ∨ rom.read32 offset ≠ 0x10 ∨ rom.read32 (offset + 4) ≠ 0x08 then
    .error ("Expected a 4-bit TIM at BIOS offset " ++ hex offset ++ ".")
  else
    let clutLength := rom.read32 (offset + 8)
    if clutLength ≠ 44 ∨ rom.read16 (offset + 16) ≠ 16 ∨ rom.read16 (offset + 18) ≠ 1 then
      .error ("Unexpected TIM CLUT layout at BIOS offset " ++ hex offset ++ ".")
    else
      let imageBlock := offset + 8 + clutLength.toNat
      let imageLength := (rom.read32 imageBlock).toNat
      let imageWords := (rom.read16 (imageBlock + 8)).toNat
      let height := (rom.read16 (imageBlock + 10)).toNat
      let width := imageWords * 4
      if width ≠ expectedWidth ∨ height ≠ expectedHeight ∨
          imageLength ≠ 12 + imageWords * height * 2 then
        .error ("Unexpected TIM dimensions at BIOS offset " ++ hex offset ++ ": " ++
          toString width ++ "x" ++ toString height ++ ".")
      else
        let total := imageBlock + imageLength - offset
        if rom.size < offset + total then
          .error ("TIM at BIOS offset " ++ hex offset ++ " is truncated.")
        else
          .ok {
            offset
            clutDataOffset := offset + 20
            imageDataOffset := imageBlock + 12
            width
            height
            imageWords
            totalSize := total
            clutX := rom.read16 (offset + 12)
            clutY := rom.read16 (offset + 14)
            imageX := rom.read16 (imageBlock + 4)
            imageY := rom.read16 (imageBlock + 6) }

/-- The header of a 4-bit TIM of so many pixels, at an offset where all of it fits. -/
structure IsTim (rom : Rom) (offset width height : Nat) : Prop where
  magic : rom.read32 offset = 0x10
  flags : rom.read32 (offset + 4) = 0x08
  clutLength : rom.read32 (offset + 8) = 44
  clutWidth : rom.read16 (offset + 16) = 16
  clutHeight : rom.read16 (offset + 18) = 1
  imageLength : (rom.read32 (offset + 52)).toNat = 12 + width / 4 * height * 2
  imageWords : (rom.read16 (offset + 60)).toNat * 4 = width
  imageHeight : (rom.read16 (offset + 62)).toNat = height
  fits : offset + (64 + width / 4 * height * 2) ≤ rom.size

/-- What is read of a TIM. -/
@[grind =] def timAt (rom : Rom) (offset width height : Nat) : TimInfo where
  offset
  clutDataOffset := offset + 20
  imageDataOffset := offset + 64
  width
  height
  imageWords := width / 4
  totalSize := 64 + width / 4 * height * 2
  clutX := rom.read16 (offset + 12)
  clutY := rom.read16 (offset + 14)
  imageX := rom.read16 (offset + 56)
  imageY := rom.read16 (offset + 58)

section Parse

variable {rom : Rom} {offset width height : Nat} {info : TimInfo}

/-- The image block, behind a palette of 44 bytes. -/
theorem imageBlock_eq : offset + 8 + (44 : BitVec 32).toNat = offset + 52 := rfl

theorem parseTim_of_isTim (h : IsTim rom offset width height) :
    parseTim rom offset width height = .ok (timAt rom offset width height) := by
  have hFits := h.fits
  have hWords : (rom.read16 (offset + 60)).toNat = width / 4 := by
    rw [← h.imageWords, Nat.mul_div_cancel _ (by decide)]
  have hWidth : width / 4 * 4 = width := by rw [← hWords, h.imageWords]
  rw [parseTim, if_neg fun hNot => ?_]
  · simp only [h.clutLength, h.clutWidth, h.clutHeight, ne_eq, not_true_eq_false, or_self, if_false,
      imageBlock_eq, Nat.add_assoc offset, Nat.reduceAdd, h.imageLength, h.imageHeight, hWords]
    rw [if_neg fun hNot => ?_, if_neg fun hNot => ?_]
    · have hTotal : offset + (52 + (12 + width / 4 * height * 2)) - offset =
          64 + width / 4 * height * 2 := by omega
      rw [timAt, hTotal, hWidth]
    · omega
    · exact absurd hWidth (by simpa only [or_false] using hNot)
  · rw [h.magic, h.flags] at hNot
    rcases hNot with hNot | hNot | hNot
    · omega
    · exact hNot rfl
    · exact hNot rfl

theorem isTim_of_parseTim (h : parseTim rom offset width height = .ok info) :
    IsTim rom offset width height ∧ info = timAt rom offset width height := by
  have hTim : IsTim rom offset width height := by
    rw [parseTim] at h
    split at h
    · exact nomatch h
    · rename_i hMagic
      dsimp only at h
      split at h
      · exact nomatch h
      · rename_i hClut
        push Not at hMagic hClut
        obtain ⟨-, hMagic, hFlags⟩ := hMagic
        obtain ⟨hLength, hWidth, hHeight⟩ := hClut
        rw [hLength, imageBlock_eq] at h
        split at h
        · exact nomatch h
        · rename_i hSize
          push Not at hSize
          obtain ⟨hWords, hRows, hImage⟩ := hSize
          split at h
          · exact nomatch h
          · rename_i hFits
            have hQuarter : (rom.read16 (offset + 60)).toNat = width / 4 := by
              rw [← hWords, Nat.mul_div_cancel _ (by decide)]
            rw [Nat.add_assoc offset 52, Nat.add_assoc offset 52, hQuarter, hRows] at hImage
            exact {
              magic := hMagic
              flags := hFlags
              clutLength := hLength
              clutWidth := hWidth
              clutHeight := hHeight
              imageLength := hImage
              imageWords := hWords
              imageHeight := hRows
              fits := by omega }
  exact ⟨hTim, Except.ok.inj (h.symm.trans (parseTim_of_isTim hTim))⟩

theorem parseTim_offset (h : parseTim rom offset width height = .ok info) :
    info.offset = offset := by
  rw [(isTim_of_parseTim h).2, timAt]

/-- Only the header counts, without the palette in it. -/
theorem IsTim.congr {rom' : Rom} (h : IsTim rom offset width height) (hSize : rom'.size = rom.size)
    (hByte : ∀ i, i < 20 ∨ 52 ≤ i ∧ i < 64 → rom'.byte (offset + i) = rom.byte (offset + i)) :
    IsTim rom' offset width height := by
  have h16 : ∀ k, k + 2 ≤ 20 ∨ 52 ≤ k ∧ k + 2 ≤ 64 →
      rom'.read16 (offset + k) = rom.read16 (offset + k) := by
    intro k hk
    refine Rom.read16_congr fun j hj => ?_
    rw [Nat.add_assoc, hByte (k + j) (by omega)]
  have h32 : ∀ k, k + 4 ≤ 20 ∨ 52 ≤ k ∧ k + 4 ≤ 64 →
      rom'.read32 (offset + k) = rom.read32 (offset + k) := by
    intro k hk
    refine Rom.read32_congr fun j hj => ?_
    rw [Nat.add_assoc, hByte (k + j) (by omega)]
  exact {
    magic := (h32 0 (by decide)).trans h.magic
    flags := (h32 4 (by decide)).trans h.flags
    clutLength := (h32 8 (by decide)).trans h.clutLength
    clutWidth := (h16 16 (by decide)).trans h.clutWidth
    clutHeight := (h16 18 (by decide)).trans h.clutHeight
    imageLength := (congrArg BitVec.toNat (h32 52 (by decide))).trans h.imageLength
    imageWords := by rw [h16 60 (by decide), h.imageWords]
    imageHeight := (congrArg BitVec.toNat (h16 62 (by decide))).trans h.imageHeight
    fits := hSize ▸ h.fits }

end Parse

inductive PatchKind where
  | tim (width height : Nat)
  | timSlot (encodedSize width height : Nat)
  | instruction
  | brandingPresentGate
deriving DecidableEq, Repr

/-- A record of the manifest. Of the bytes before and after, the manifest of a TIM has the
hashes, and that of an instruction the words. -/
structure Patch where
  kind : PatchKind
  description : String
  offset : Nat
  before : List Byte
  after : List Byte
deriving DecidableEq, Repr

/-- An image that was read, with the hash of its file. -/
structure SourceImage where
  name : String
  path : String
  sha256 : String
deriving DecidableEq, Repr

/-- The BIOS so far, the records of its patches and the images that were read for them. -/
structure Patched where
  rom : Rom
  patches : List Patch
  sourceImages : List SourceImage

def Patched.record (s : Patched) (rom : Rom) (kind : PatchKind) (description : String)
    (offset size : Nat) : Patched where
  rom
  sourceImages := s.sourceImages
  patches := s.patches ++
    [{ kind, description, offset, before := s.rom.mid offset size, after := rom.mid offset size }]

/-- The new colours and pixels, within the TIM that is there. -/
@[grind =]
def timRom (rom : Rom) (info : TimInfo) (image : Image) (palette : List Rgb) (transparent : Bool) :
    Rom :=
  (rom.write info.clutDataOffset (clutBytes transparent palette)).write info.imageDataOffset
    (encodePixels image transparent palette)

@[grind =] def patchTim (std : StdSort) (s : Patched) (offset width height : Nat) (image : Image)
    (transparent : Bool) (description : String) : Except String Patched :=
  match parseTim s.rom offset width height with
  | .error e => .error e
  | .ok info =>
      if image.width ≠ width ∨ image.height ≠ height then
        .error ("Internal image size mismatch for " ++ description ++ ".")
      else
        let palette := makePalette std image (if transparent then 15 else 16) transparent
        .ok (s.record (timRom s.rom info image palette transparent) (.tim width height) description
          offset info.totalSize)

/-- The new TIM, over the zeros that its slot is filled with. -/
def slotRom (rom : Rom) (original : TimInfo) (slotEnd : Nat) (image : Image) (palette : List Rgb)
    (transparent : Bool) : Rom :=
  let offset := original.offset
  let imageBlock := offset + 52
  let imageWords := image.width / 4
  let rom := rom.write offset (List.replicate (slotEnd - offset) 0)
  let rom := ((rom.write32 offset 0x10).write32 (offset + 4) 0x08).write32 (offset + 8) 44
  let rom := (rom.write16 (offset + 12) original.clutX).write16 (offset + 14) original.clutY
  let rom := (rom.write16 (offset + 16) 16).write16 (offset + 18) 1
  let rom := rom.write (offset + 20) (clutBytes transparent palette)
  let rom := rom.write32 imageBlock (BitVec.ofNat 32 (12 + imageWords * image.height * 2))
  let rom := rom.write16 (imageBlock + 4) original.imageX
  let rom := rom.write16 (imageBlock + 6) original.imageY
  let rom := rom.write16 (imageBlock + 8) (BitVec.ofNat 16 imageWords)
  let rom := rom.write16 (imageBlock + 10) (BitVec.ofNat 16 image.height)
  rom.write (imageBlock + 12) (encodePixels image transparent palette)

def rewriteTimSlot (s : Patched) (original : TimInfo) (slotEnd : Nat) (image : Image)
    (palette : List Rgb) (transparent : Bool) (description : String) : Except String Patched :=
  if image.width = 0 ∨ image.height = 0 ∨ image.width % 4 ≠ 0 ∨ palette.length ≠ 16 ∨
      slotEnd ≤ original.offset ∨ s.rom.size < slotEnd then
    .error ("Invalid replacement TIM slot for " ++ description ++ ".")
  else
    let encodedSize := 64 + image.width / 4 * image.height * 2
    let slotSize := slotEnd - original.offset
    if slotSize < encodedSize then
      .error ("Replacement TIM for " ++ description ++ " needs " ++ toString encodedSize ++
        " bytes but its verified slot has " ++ toString slotSize ++ ".")
    else
      .ok (s.record (slotRom s.rom original slotEnd image palette transparent)
        (.timSlot encodedSize image.width image.height) description original.offset slotSize)

variable {std : StdSort} {s s' : Patched} {offset width height slotEnd : Nat} {image : Image}
  {palette : List Rgb} {transparent : Bool} {description : String} {original : TimInfo}

theorem patchTim_of_isTim (h : IsTim s.rom offset width height) (hWidth : image.width = width)
    (hHeight : image.height = height) :
    patchTim std s offset width height image transparent description =
      .ok (s.record (timRom s.rom (timAt s.rom offset width height) image
        (makePalette std image (if transparent then 15 else 16) transparent) transparent)
        (.tim width height) description offset (64 + width / 4 * height * 2)) := by
  rw [patchTim, parseTim_of_isTim h]
  exact if_neg fun hNot => hNot.elim (absurd hWidth) (absurd hHeight)

theorem isTim_of_patchTim
    (h : patchTim std s offset width height image transparent description = .ok s') :
    IsTim s.rom offset width height ∧ image.width = width ∧ image.height = height := by
  rw [patchTim] at h
  split at h
  · exact nomatch h
  · rename_i info hParse
    split at h
    · exact nomatch h
    · rename_i hSize
      push Not at hSize
      exact ⟨(isTim_of_parseTim hParse).1, hSize⟩

/-- A TIM that is patched changes nothing outside of it. -/
theorem timRom_inside {rom : Rom} (hWidth : image.width % 4 = 0) :
    Rom.Inside offset (offset + (64 + image.width / 4 * image.height * 2)) rom
      (timRom rom (timAt rom offset image.width image.height) image palette transparent) := by
  refine (Rom.Inside.refl.write ?_ ?_).write ?_ ?_
  · exact Nat.le_add_right offset 20
  · rw [length_clutBytes]
    exact Nat.add_le_add_left (Nat.le_add_right_of_le (by decide : 52 ≤ 64)) offset
  · exact Nat.le_add_right offset 64
  · rw [length_encodePixels_of_mod _ _ _ hWidth]
    exact (Nat.add_assoc _ _ _).le

/-- Of a slot that is zeroed, the TIM takes only so many bytes. -/
theorem slotRom_encoded {rom : Rom} (hWidth : image.width % 4 = 0) :
    Rom.Inside original.offset (original.offset + (64 + image.width / 4 * image.height * 2))
      (rom.write original.offset (List.replicate (slotEnd - original.offset) 0))
      (slotRom rom original slotEnd image palette transparent) := by
  have hPixels := length_encodePixels_of_mod image transparent palette hWidth
  have hClut := length_clutBytes transparent palette
  rw [slotRom]
  refine (Rom.Inside.write16 (Rom.Inside.write16 (Rom.Inside.write16 (Rom.Inside.write16
    (Rom.Inside.write32 ?_ ?_ ?_) ?_ ?_) ?_ ?_) ?_ ?_) ?_ ?_).write ?_ ?_
  · refine (Rom.Inside.write16 (Rom.Inside.write16 (Rom.Inside.write16 (Rom.Inside.write16
      (Rom.Inside.write32 (Rom.Inside.write32 (Rom.Inside.write32 Rom.Inside.refl
        ?_ ?_) ?_ ?_) ?_ ?_) ?_ ?_) ?_ ?_) ?_ ?_) ?_ ?_).write ?_ ?_
    all_goals omega
  all_goals omega

/-- A slot that is rewritten changes nothing outside of it. -/
theorem slotRom_inside {rom : Rom} (hWidth : image.width % 4 = 0)
    (hEnd : original.offset + (64 + image.width / 4 * image.height * 2) ≤ slotEnd) :
    Rom.Inside original.offset slotEnd rom
      (slotRom rom original slotEnd image palette transparent) := by
  have hZero : Rom.Inside original.offset slotEnd rom
      (rom.write original.offset (List.replicate (slotEnd - original.offset) 0)) :=
    Rom.Inside.refl.write le_rfl (by rw [List.length_replicate]; omega)
  exact hZero.trans ((slotRom_encoded hWidth).mono hEnd)

/-- Behind the TIM, a slot is zero. -/
theorem slotRom_rest {rom : Rom} {i : Nat} (hWidth : image.width % 4 = 0)
    (hRest : original.offset + (64 + image.width / 4 * image.height * 2) ≤ i) (hEnd : i < slotEnd) :
    (slotRom rom original slotEnd image palette transparent).byte i = 0 := by
  have hZero := @Rom.write_byte rom original.offset (i - original.offset)
    (List.replicate (slotEnd - original.offset) 0) (by rw [List.length_replicate]; omega)
  rw [Nat.add_sub_cancel' (by omega)] at hZero
  rw [(slotRom_encoded hWidth).frame i (Or.inr hRest), hZero, List.getD_eq_getElem?_getD,
    List.getElem?_replicate]
  exact (congrArg (Option.getD · 0) (if_pos (by omega))).trans rfl

/-- When a slot is rewritten, the TIM fits in it. -/
theorem rewriteTimSlot_eq_ok
    (h : rewriteTimSlot s original slotEnd image palette transparent description = .ok s') :
    (image.width % 4 = 0 ∧
      original.offset + (64 + image.width / 4 * image.height * 2) ≤ slotEnd ∧
      slotEnd ≤ s.rom.size ∧ 0 < image.width ∧ 0 < image.height ∧ palette.length = 16) ∧
    s' = s.record (slotRom s.rom original slotEnd image palette transparent)
      (.timSlot (64 + image.width / 4 * image.height * 2) image.width image.height) description
      original.offset (slotEnd - original.offset) := by
  rw [rewriteTimSlot] at h
  split at h
  · exact nomatch h
  · rename_i hSlot
    dsimp only at h
    split at h
    · exact nomatch h
    · rename_i hFits
      push Not at hSlot
      obtain ⟨hWide, hHigh, hWidth, hPalette, hStart, hEnd⟩ := hSlot
      exact ⟨⟨hWidth, by omega, hEnd, Nat.pos_of_ne_zero hWide, Nat.pos_of_ne_zero hHigh, hPalette⟩,
        (Except.ok.inj h).symm⟩

end RecompStudio.Studio.Branding
