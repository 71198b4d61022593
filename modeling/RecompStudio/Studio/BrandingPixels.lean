import RecompStudio.Studio.BrandingStock
import RecompStudio.Studio.MedianCut
import Mathlib.Data.List.GetD
import Mathlib.Tactic.Common
import Mathlib.Tactic.Linarith

/-!
What is read back of an image that the branding patcher has written: the header, and for
each pixel a colour of the palette that is nearest to it and is not the transparent one.
-/

namespace RecompStudio.Studio.Branding

open Serial (Byte)

section Nearest

variable {palette : List Rgb} {pixel : Rgb} {first : Nat}

theorem colorDistance_lt (p q : Rgb) : colorDistance p q < 2 ^ 31 - 1 := by
  have hSquare : ∀ a b : Byte, ((a.toNat : Int) - b.toNat) * (a.toNat - b.toNat) ≤ 255 * 255 := by
    intro a b
    have hA := a.isLt
    have hB := b.isLt
    nlinarith
  have hR := hSquare p.r q.r
  have hG := hSquare p.g q.g
  have hB := hSquare p.b q.b
  rw [colorDistance]
  omega

/-- The search among more entries, with the best one so far. -/
theorem nearest_fold (entries : List Nat) (best : Nat × Int) :
    let found := entries.foldl (fun best i =>
      let distance := colorDistance pixel (palette.getD i clear)
      if distance < best.2 then (i, distance) else best) best
    found.2 ≤ best.2 ∧ (∀ i ∈ entries, found.2 ≤ colorDistance pixel (palette.getD i clear)) ∧
      (found = best ∨ found.1 ∈ entries ∧
        found.2 = colorDistance pixel (palette.getD found.1 clear)) := by
  induction entries generalizing best with
  | nil => exact ⟨le_rfl, nofun, Or.inl rfl⟩
  | cons entry entries ih =>
      simp only [List.foldl_cons]
      split
      · rename_i hLess
        obtain ⟨hLe, hAll, hFound⟩ := ih (entry, colorDistance pixel (palette.getD entry clear))
        refine ⟨hLe.trans hLess.le, List.forall_mem_cons.mpr ⟨hLe, hAll⟩, Or.inr ?_⟩
        rcases hFound with hSame | ⟨hMem, hDistance⟩
        · rw [hSame]
          exact ⟨List.mem_cons_self, rfl⟩
        · exact ⟨List.mem_cons_of_mem _ hMem, hDistance⟩
      · rename_i hNotLess
        obtain ⟨hLe, hAll, hFound⟩ := ih best
        refine ⟨hLe, List.forall_mem_cons.mpr ⟨hLe.trans (not_lt.mp hNotLess), hAll⟩, ?_⟩
        exact hFound.imp_right fun ⟨hMem, hDistance⟩ => ⟨List.mem_cons_of_mem _ hMem, hDistance⟩

/-- From the first entry on, no other one is nearer. -/
theorem nearestColor_spec (hFirst : first < palette.length) :
    first ≤ nearestColor pixel palette first ∧
      nearestColor pixel palette first < palette.length ∧
      ∀ i, first ≤ i → i < palette.length →
        colorDistance pixel (palette.getD (nearestColor pixel palette first) clear) ≤
          colorDistance pixel (palette.getD i clear) := by
  obtain ⟨-, hAll, hFound⟩ := @nearest_fold palette pixel
    (List.range' first (palette.length - first)) (first, (2 ^ 31 - 1 : Int))
  have hFirstMem : first ∈ List.range' first (palette.length - first) :=
    List.mem_range'_1.mpr ⟨le_rfl, by omega⟩
  rcases hFound with hSame | ⟨hMem, hDistance⟩
  · have hBelow := hAll first hFirstMem
    rw [hSame] at hBelow
    exact absurd hBelow (not_le.mpr (colorDistance_lt _ _))
  · obtain ⟨hLe, hLt⟩ := List.mem_range'_1.mp hMem
    refine ⟨hLe, by rw [nearestColor]; omega, fun i hFirst hLast => ?_⟩
    rw [nearestColor, ← hDistance]
    exact hAll i (List.mem_range'_1.mpr ⟨hFirst, by omega⟩)

end Nearest

/-- The entries of rows that are all of one length. -/
theorem getElem?_rows {α : Type} (f : Nat → Nat → α) {rows size x y : Nat} (hx : x < size)
    (hy : y < rows) :
    ((List.range rows).flatMap fun y => (List.range size).map fun x => f x y)[y * size + x]? =
      some (f x y) := by
  induction rows with
  | zero => exact absurd hy (Nat.not_lt_zero _)
  | succ rows ih =>
      have hLength :
        ((List.range rows).flatMap fun y => (List.range size).map fun x => f x y).length =
          rows * size := by
        simp only [List.length_flatMap, List.length_map, List.length_range, List.map_const',
          List.sum_replicate_nat]
      rw [List.range_succ, List.flatMap_append, List.flatMap_singleton]
      rcases Nat.lt_or_eq_of_le (Nat.lt_succ_iff.mp hy) with hBefore | rfl
      · rw [List.getElem?_append_left, ih hBefore]
        rw [hLength]
        calc y * size + x < y * size + size := Nat.add_lt_add_left hx _
          _ = (y + 1) * size := (Nat.succ_mul y size).symm
          _ ≤ rows * size := Nat.mul_le_mul_right _ hBefore
      · rw [List.getElem?_append_right (hLength ▸ Nat.le_add_right _ _), hLength,
          Nat.add_sub_cancel_left, List.getElem?_map, List.getElem?_range hx]
        rfl

/-- The colour that is stored for an entry of the palette. -/
def storedColor (rom : Rom) (offset i : Nat) : BitVec 16 := rom.read16 (offset + 20 + i * 2)

/-- The entry that is stored for a pixel, in one half of a byte. -/
def storedIndex (rom : Rom) (offset width x y : Nat) : Nat :=
  let byte := (rom.byte (offset + 64 + (y * (width / 2) + x / 2))).toNat
  if x % 2 = 0 then byte % 16 else byte / 16

theorem toNat_nibbles : ∀ low high : Fin 16,
    (BitVec.ofNat 8 low ||| BitVec.ofNat 8 high <<< 4).toNat % 16 = low ∧
      (BitVec.ofNat 8 low ||| BitVec.ofNat 8 high <<< 4).toNat / 16 = high := by
  decide

/-- The colour of an entry, with the first one transparent. -/
def entryColor (transparent : Bool) (palette : List Rgb) (i : Nat) : BitVec 16 :=
  toPsxColor (palette.getD i clear) (transparent && i == 0)

section Stored

variable {rom : Rom} {offset : Nat} {image : Image} {palette : List Rgb} {transparent : Bool}

/-- A palette and pixels, as they are stored. -/
structure Stores (rom : Rom) (offset : Nat) (image : Image) (palette : List Rgb)
    (transparent : Bool) : Prop where
  color : ∀ i < 16, storedColor rom offset i = entryColor transparent palette i
  index : ∀ x < image.width, ∀ y < image.height, storedIndex rom offset image.width x y =
    pixelIndex transparent palette (image.pixel x y)

/-- The entry that is found for a pixel, past the transparent one. -/
theorem nearest_visible (pixel : Rgb) (transparent : Bool) (hPalette : palette.length = 16) :
    let first := if transparent then 1 else 0
    first ≤ nearestColor pixel palette first ∧
      nearestColor pixel palette first < palette.length ∧
      ∀ i, first ≤ i → i < palette.length →
        colorDistance pixel (palette.getD (nearestColor pixel palette first) clear) ≤
          colorDistance pixel (palette.getD i clear) := by
  refine nearestColor_spec ?_
  rw [hPalette]
  split
  · decide
  · decide

theorem pixelIndex_lt (pixel : Rgb) (transparent : Bool) (hPalette : palette.length = 16) :
    pixelIndex transparent palette pixel < 16 := by
  rw [pixelIndex]
  split
  · decide
  · exact hPalette ▸ (nearest_visible pixel transparent hPalette).2.1

theorem getElem?_clutBytes {i k : Nat} (hi : i < 16) (hk : k < 2) :
    (clutBytes transparent palette)[i * 2 + k]? =
      some ((entryColor transparent palette i).extractLsb' (8 * k) 8) :=
  getElem?_rows (fun k i => (entryColor transparent palette i).extractLsb' (8 * k) 8) hk hi

theorem getElem?_encodePixels {x y : Nat} (hx : x < (image.width + 1) / 2) (hy : y < image.height) :
    (encodePixels image transparent palette)[y * ((image.width + 1) / 2) + x]? =
      some (BitVec.ofNat 8 (pixelIndex transparent palette (image.pixel (2 * x) y)) |||
        BitVec.ofNat 8 (pixelIndex transparent palette (image.pixel (2 * x + 1) y)) <<< 4) :=
  getElem?_rows _ hx hy

/-- Bytes that are written at one offset are read there. -/
theorem stores_of_bytes (hPalette : palette.length = 16) (hWidth : image.width % 4 = 0)
    (hClut : ∀ i byte, (clutBytes transparent palette)[i]? = some byte →
      rom.byte (offset + 20 + i) = byte)
    (hPixels : ∀ i byte, (encodePixels image transparent palette)[i]? = some byte →
      rom.byte (offset + 64 + i) = byte) :
    Stores rom offset image palette transparent where
  color i hi := by
    have hLow : rom.byte (offset + 20 + i * 2) = _ :=
      hClut _ _ (getElem?_clutBytes hi (by decide : 0 < 2))
    have hHigh : rom.byte (offset + 20 + i * 2 + 1) = _ :=
      hClut _ _ (getElem?_clutBytes hi (by decide : 1 < 2))
    rw [storedColor, Rom.read16, hLow, hHigh]
    exact BitVec.extractLsb'_append_extractLsb'
  index x hx y hy := by
    have hHalf : (image.width + 1) / 2 = image.width / 2 := by omega
    have hByte :=
      hPixels _ _ (@getElem?_encodePixels image palette transparent (x / 2) y (by omega) hy)
    have hLow := pixelIndex_lt (image.pixel (2 * (x / 2)) y) transparent hPalette
    have hHigh := pixelIndex_lt (image.pixel (2 * (x / 2) + 1) y) transparent hPalette
    obtain ⟨hEven, hOdd⟩ := toNat_nibbles ⟨_, hLow⟩ ⟨_, hHigh⟩
    rw [hHalf] at hByte
    rw [storedIndex, hByte]
    dsimp only at hEven hOdd ⊢
    split
    · rw [hEven, show 2 * (x / 2) = x by omega]
    · rw [hOdd, show 2 * (x / 2) + 1 = x by omega]

theorem entryColor_eq_zero_iff {i : Nat} :
    entryColor transparent palette i = 0 ↔ transparent = true ∧ i = 0 := by
  have hStored : ∀ entry : Rgb, toPsxColor entry false ≠ 0 := by
    intro entry hZero
    simp only [toPsxColor, Bool.false_eq_true, if_false] at hZero
    split at hZero
    · exact absurd hZero (by decide)
    · rename_i hVisible
      rw [hZero] at hVisible
      exact hVisible rfl
  rw [entryColor]
  cases hFirst : transparent && i == 0 with
  | false =>
      refine iff_of_false (hStored _) fun ⟨hTransparent, hi⟩ => ?_
      rw [hTransparent, hi] at hFirst
      exact absurd hFirst (by decide)
  | true =>
      rw [Bool.and_eq_true, beq_iff_eq] at hFirst
      exact iff_of_true rfl hFirst

/-- The image, as the stored pixels show it: the transparent entry is that of the clear
pixels, and of the entries that are not transparent each other pixel has a nearest one. -/
structure Shows (rom : Rom) (offset : Nat) (image : Image) (palette : List Rgb)
    (transparent : Bool) : Prop where
  zero : transparent = true → ∀ x < image.width, ∀ y < image.height,
    (storedIndex rom offset image.width x y = 0 ↔ (image.pixel x y).a.toNat < 128)
  visible : ∀ x < image.width, ∀ y < image.height, isClear transparent (image.pixel x y) = false →
    storedIndex rom offset image.width x y < 16 ∧
      storedColor rom offset (storedIndex rom offset image.width x y) ≠ 0
  nearest : ∀ x < image.width, ∀ y < image.height, isClear transparent (image.pixel x y) = false →
    ∀ i < 16, storedColor rom offset i ≠ 0 →
      colorDistance (image.pixel x y)
        (palette.getD (storedIndex rom offset image.width x y) clear) ≤
          colorDistance (image.pixel x y) (palette.getD i clear)

theorem pixelIndex_of_clear {pixel : Rgb} (h : isClear transparent pixel = true) :
    pixelIndex transparent palette pixel = 0 := if_pos h

theorem pixelIndex_of_visible {pixel : Rgb} (h : isClear transparent pixel = false) :
    pixelIndex transparent palette pixel =
      nearestColor pixel palette (if transparent then 1 else 0) :=
  if_neg (Bool.eq_false_iff.mp h)

theorem Stores.shows (h : Stores rom offset image palette transparent)
    (hPalette : palette.length = 16) : Shows rom offset image palette transparent where
  zero hTransparent x hx y hy := by
    subst hTransparent
    rw [h.index x hx y hy]
    cases hClear : isClear true (image.pixel x y) with
    | true =>
        exact iff_of_true (pixelIndex_of_clear hClear) (of_decide_eq_true hClear)
    | false =>
        obtain ⟨hFirst, -⟩ := nearest_visible (image.pixel x y) true hPalette
        rw [pixelIndex_of_visible hClear]
        exact iff_of_false (Nat.pos_iff_ne_zero.mp hFirst) (of_decide_eq_false hClear)
  visible x hx y hy hVisible := by
    have hIndex := pixelIndex_lt (image.pixel x y) transparent hPalette
    rw [h.index x hx y hy]
    refine ⟨hIndex, ?_⟩
    rw [h.color _ hIndex, ne_eq, entryColor_eq_zero_iff, pixelIndex_of_visible hVisible]
    rintro ⟨rfl, hZero⟩
    obtain ⟨hFirst, -⟩ := nearest_visible (image.pixel x y) true hPalette
    exact Nat.pos_iff_ne_zero.mp hFirst hZero
  nearest x hx y hy hVisible i hi hStored := by
    obtain ⟨-, -, hNearest⟩ := nearest_visible (image.pixel x y) transparent hPalette
    rw [h.index x hx y hy, pixelIndex_of_visible hVisible]
    refine hNearest i ?_ (hPalette ▸ hi)
    rw [h.color i hi, ne_eq, entryColor_eq_zero_iff] at hStored
    split
    · rename_i hTransparent
      exact Nat.pos_of_ne_zero fun hZero => hStored ⟨hTransparent, hZero⟩
    · exact Nat.zero_le i

end Stored

namespace Rom

variable {rom : Rom} {offset offset' : Nat} {bytes : List Byte}

theorem write_byte_before {i : Nat} (h : i < offset) :
    (rom.write offset bytes).byte i = rom.byte i :=
  write_byte_outside (Or.inl h)

theorem write_getElem? {i : Nat} {byte : Byte} (h : bytes[i]? = some byte) :
    (rom.write offset bytes).byte (offset + i) = byte := by
  obtain ⟨hi, -⟩ := List.getElem?_eq_some_iff.mp h
  rw [write_byte hi, List.getD_eq_getElem?_getD, h, Option.getD_some]

def halfBytes (value : BitVec 16) : List Byte := [value.extractLsb' 0 8, value.extractLsb' 8 8]

/-- A word among bytes that are there. -/
theorem read32_of_drop {value : BitVec 32} {k : Nat} {rest : List Byte}
    (hBytes : ∀ i byte, bytes[i]? = some byte → rom.byte (offset + i) = byte)
    (hDrop : bytes.drop k = wordBytes value ++ rest) : rom.read32 (offset + k) = value := by
  have hByte : ∀ i byte, (bytes.drop k)[i]? = some byte → rom.byte (offset + k + i) = byte := by
    intro i byte hAt
    rw [List.getElem?_drop] at hAt
    rw [Nat.add_assoc, hBytes _ _ hAt]
  rw [hDrop] at hByte
  have h0 : rom.byte (offset + k) = _ := hByte 0 _ rfl
  rw [read32, hByte 3 _ rfl, hByte 2 _ rfl, hByte 1 _ rfl, h0,
    BitVec.extractLsb'_append_extractLsb'_eq_extractLsb' (show 24 = 16 + 8 from rfl),
    BitVec.extractLsb'_append_extractLsb'_eq_extractLsb' (show 16 = 8 + 8 from rfl),
    BitVec.extractLsb'_append_extractLsb'_eq_extractLsb' (show 8 = 0 + 8 from rfl)]
  exact BitVec.extractLsb'_eq_self

theorem read16_of_drop {value : BitVec 16} {k : Nat} {rest : List Byte}
    (hBytes : ∀ i byte, bytes[i]? = some byte → rom.byte (offset + i) = byte)
    (hDrop : bytes.drop k = halfBytes value ++ rest) : rom.read16 (offset + k) = value := by
  have hByte : ∀ i byte, (bytes.drop k)[i]? = some byte → rom.byte (offset + k + i) = byte := by
    intro i byte hAt
    rw [List.getElem?_drop] at hAt
    rw [Nat.add_assoc, hBytes _ _ hAt]
  rw [hDrop] at hByte
  have h0 : rom.byte (offset + k) = _ := hByte 0 _ rfl
  rw [read16, hByte 1 _ rfl, h0]
  exact BitVec.extractLsb'_append_extractLsb'

/-- Bytes are written in two parts. -/
theorem write_append {bytes' : List Byte} : rom.write offset (bytes ++ bytes') =
    (rom.write offset bytes).write (offset + bytes.length) bytes' := by
  refine congrArg (Rom.mk rom.size) (funext fun i => ?_)
  simp only [write]
  by_cases hBefore : offset ≤ i
  · rw [if_pos hBefore, if_pos hBefore, List.getD_eq_getElem?_getD]
    by_cases hFirst : i < offset + bytes.length
    · rw [if_neg (by omega), List.getElem?_append_left (by omega), List.getD_eq_getElem?_getD]
    · rw [if_pos (by omega), List.getElem?_append_right (by omega), List.getD_eq_getElem?_getD,
        List.getD_eq_getElem?_getD, List.getElem?_eq_none (l := bytes) (by omega), Option.getD_none,
        Nat.sub_sub]
  · rw [if_neg hBefore, if_neg (by omega), if_neg hBefore]

end Rom

section Written

variable {std : StdSort} {rom : Rom} {s s' : Patched} {offset width height slotEnd : Nat}
  {image : Image} {palette : List Rgb} {transparent : Bool} {description : String}
  {original : TimInfo}

theorem timRom_stores (hPalette : palette.length = 16) (hWidth : image.width % 4 = 0) :
    Stores
      (timRom rom (timAt rom offset width height) image palette transparent) offset image palette
      transparent := by
  refine stores_of_bytes hPalette hWidth (fun i byte hByte => ?_) fun i byte hByte => ?_
  · obtain ⟨hi, -⟩ := List.getElem?_eq_some_iff.mp hByte
    rw [length_clutBytes] at hi
    rw [timRom, Rom.write_byte_outside (Or.inl _)]
    · exact Rom.write_getElem? hByte
    · show offset + 20 + i < offset + 64
      omega
  · exact Rom.write_getElem? hByte

/-- The header of a TIM that is patched stays. -/
theorem timRom_header {i : Nat} (hi : i < 20 ∨ 52 ≤ i ∧ i < 64) :
    (timRom rom (timAt rom offset width height) image palette transparent).byte (offset + i) =
      rom.byte (offset + i) := by
  have hClut := length_clutBytes transparent palette
  rw [timRom, Rom.write_byte_outside (Or.inl _), Rom.write_byte_outside]
  · show offset + i < offset + 20 ∨ offset + 20 + _ ≤ offset + i
    omega
  · show offset + i < offset + 64
    omega

theorem timRom_timAt :
    timAt
      (timRom rom (timAt rom offset width height) image palette transparent) offset width height =
      timAt rom offset width height := by
  have hRead : ∀ k, k + 2 ≤ 20 ∨ 52 ≤ k ∧ k + 2 ≤ 64 →
      (timRom rom (timAt rom offset width height) image palette transparent).read16 (offset + k) =
        rom.read16 (offset + k) := by
    intro k hk
    refine Rom.read16_congr fun i hi => ?_
    rw [Nat.add_assoc, timRom_header (by omega)]
  generalize timRom rom (timAt rom offset width height) image palette transparent = rom' at hRead ⊢
  rw [timAt, timAt, hRead 12 (by decide), hRead 14 (by decide), hRead 56 (by decide),
    hRead 58 (by decide)]

/-- The header of a slot, up to its palette. -/
def slotHead (original : TimInfo) : List Byte :=
  Rom.wordBytes 0x10 ++ Rom.wordBytes 0x08 ++ Rom.wordBytes 44 ++ Rom.halfBytes original.clutX ++
    Rom.halfBytes original.clutY ++ Rom.halfBytes 16 ++ Rom.halfBytes 1

/-- The header of its image block. -/
def imageHead (original : TimInfo) (image : Image) : List Byte :=
  Rom.wordBytes (BitVec.ofNat 32 (12 + image.width / 4 * image.height * 2)) ++
    Rom.halfBytes original.imageX ++ Rom.halfBytes original.imageY ++
    Rom.halfBytes (BitVec.ofNat 16 (image.width / 4)) ++
      Rom.halfBytes (BitVec.ofNat 16 image.height)

theorem slotRom_eq : slotRom rom original slotEnd image palette transparent =
    ((((rom.write original.offset (List.replicate (slotEnd - original.offset) 0)).write
      original.offset (slotHead original)).write (original.offset + 20)
      (clutBytes transparent palette)).write (original.offset + 52)
      (imageHead original image)).write (original.offset + 64)
      (encodePixels image transparent palette) := by
  simp only [slotHead, imageHead, Rom.write_append]
  rfl

section Slot

variable {i : Nat} {byte : Byte}

theorem slotRom_head (hByte : (slotHead original)[i]? = some byte) :
    (slotRom rom original slotEnd image palette transparent).byte (original.offset + i) = byte := by
  obtain ⟨hi, -⟩ := List.getElem?_eq_some_iff.mp hByte
  have hHead : i < 20 := hi
  rw [slotRom_eq, Rom.write_byte_before (by omega), Rom.write_byte_before (by omega),
    Rom.write_byte_before (by omega)]
  exact Rom.write_getElem? hByte

theorem slotRom_clut (hByte : (clutBytes transparent palette)[i]? = some byte) :
    (slotRom rom original slotEnd image palette transparent).byte (original.offset + 20 + i) =
      byte := by
  obtain ⟨hi, -⟩ := List.getElem?_eq_some_iff.mp hByte
  rw [length_clutBytes] at hi
  rw [slotRom_eq, Rom.write_byte_before (by omega), Rom.write_byte_before (by omega)]
  exact Rom.write_getElem? hByte

theorem slotRom_imageHead (hByte : (imageHead original image)[i]? = some byte) :
    (slotRom rom original slotEnd image palette transparent).byte (original.offset + 52 + i) =
      byte := by
  obtain ⟨hi, -⟩ := List.getElem?_eq_some_iff.mp hByte
  have hHead : i < 12 := hi
  rw [slotRom_eq, Rom.write_byte_before (by omega)]
  exact Rom.write_getElem? hByte

end Slot

theorem slotRom_stores (hPalette : palette.length = 16) (hWidth : image.width % 4 = 0) :
    Stores (slotRom rom original slotEnd image palette transparent) original.offset image palette
      transparent :=
  stores_of_bytes hPalette hWidth (fun _ _ => slotRom_clut) fun _ _ => Rom.write_getElem?

/-- What a slot's image block says of the image. -/
theorem slotRom_image :
    (slotRom rom original slotEnd image palette transparent).read32 (original.offset + 52) =
        BitVec.ofNat 32 (12 + image.width / 4 * image.height * 2) ∧
      (slotRom rom original slotEnd image palette transparent).read16 (original.offset + 56) =
        original.imageX ∧
      (slotRom rom original slotEnd image palette transparent).read16 (original.offset + 58) =
        original.imageY ∧
      (slotRom rom original slotEnd image palette transparent).read16 (original.offset + 60) =
        BitVec.ofNat 16 (image.width / 4) ∧
      (slotRom rom original slotEnd image palette transparent).read16 (original.offset + 62) =
        BitVec.ofNat 16 image.height :=
  ⟨Rom.read32_of_drop (k := 0) (fun _ _ => slotRom_imageHead) rfl,
    Rom.read16_of_drop (k := 4) (fun _ _ => slotRom_imageHead) rfl,
    Rom.read16_of_drop (k := 6) (fun _ _ => slotRom_imageHead) rfl,
    Rom.read16_of_drop (k := 8) (fun _ _ => slotRom_imageHead) rfl,
    Rom.read16_of_drop (k := 10) (fun _ _ => slotRom_imageHead) rfl⟩

/-- The slot holds a TIM of the new image. -/
theorem slotRom_isTim
    (hFits : original.offset + (64 + image.width / 4 * image.height * 2) ≤ slotEnd)
    (hSize : slotEnd ≤ rom.size) (hSlot : slotEnd ≤ original.offset + 0x10000)
    (hWidth : image.width % 4 = 0) (hWide : 0 < image.width) (hHigh : 0 < image.height) :
    IsTim (slotRom rom original slotEnd image palette transparent) original.offset image.width
      image.height := by
  obtain ⟨hLength, -, -, hImageWords, hImageHeight⟩ :=
    @slotRom_image rom slotEnd image palette transparent original
  have hArea : image.width / 4 * image.height * 2 < 2 ^ 16 := by omega
  have hWords : image.width / 4 ≤ image.width / 4 * image.height := Nat.le_mul_of_pos_right _ hHigh
  have hHeight : image.height ≤ image.width / 4 * image.height :=
    Nat.le_mul_of_pos_left _ (by omega)
  exact {
    magic := Rom.read32_of_drop (k := 0) (fun _ _ => slotRom_head) rfl
    flags := Rom.read32_of_drop (k := 4) (fun _ _ => slotRom_head) rfl
    clutLength := Rom.read32_of_drop (k := 8) (fun _ _ => slotRom_head) rfl
    clutWidth := Rom.read16_of_drop (k := 16) (fun _ _ => slotRom_head) rfl
    clutHeight := Rom.read16_of_drop (k := 18) (fun _ _ => slotRom_head) rfl
    imageLength := by
      rw [hLength, BitVec.toNat_ofNat, Nat.mod_eq_of_lt]
      omega
    imageWords := by
      rw [hImageWords, BitVec.toNat_ofNat, Nat.mod_eq_of_lt]
      · omega
      · omega
    imageHeight := by
      rw [hImageHeight, BitVec.toNat_ofNat, Nat.mod_eq_of_lt]
      omega
    fits := by
      rw [(slotRom_inside hWidth hFits).size]
      exact hFits.trans hSize }

/-- What is parsed of the slot afterwards: the new image, where the old one was. -/
theorem slotRom_timAt :
    timAt (slotRom rom original slotEnd image palette transparent) original.offset image.width
        image.height =
      { timAt rom original.offset image.width image.height with
        clutX := original.clutX
        clutY := original.clutY
        imageX := original.imageX
        imageY := original.imageY } := by
  obtain ⟨-, hImageX, hImageY, -, -⟩ :=
    @slotRom_image rom slotEnd image palette transparent original
  have hClutX : (slotRom rom original slotEnd image palette transparent).read16
      (original.offset + 12) = original.clutX :=
    Rom.read16_of_drop (fun _ _ => slotRom_head) rfl
  have hClutY : (slotRom rom original slotEnd image palette transparent).read16
      (original.offset + 14) = original.clutY :=
    Rom.read16_of_drop (fun _ _ => slotRom_head) rfl
  simp only [timAt, hClutX, hClutY, hImageX, hImageY]

end Written

/-- The boxes of an image's palette: none is empty, and there are not too many. They share
the image's colours among them, or a white where it has none. -/
structure MedianCut (std : StdSort) (image : Image) (transparent : Bool) (colorCount : Nat) :
    Prop where
  nonempty : ∀ box ∈ boxes (imageColors image transparent) std colorCount, box.indices ≠ []
  total : ∀ box ∈ boxes (imageColors image transparent) std colorCount,
    0 < box.total (imageColors image transparent)
  few : (boxes (imageColors image transparent) std colorCount).length ≤ colorCount
  distinct : (imageKeys image transparent).Nodup
  colors : ∀ key, key ∈ imageKeys image transparent ↔
    ∃ pixel ∈ image.pixels, isClear transparent pixel = false ∧ colorKey pixel = key
  share : imageKeys image transparent ≠ [] →
    ((boxes (imageColors image transparent) std colorCount).flatMap
      (·.keys (imageKeys image transparent))).Perm (imageKeys image transparent)
  white : imageKeys image transparent = [] →
    boxes (imageColors image transparent) std colorCount =
      [updateBox [{ r := 255, g := 255, b := 255, count := 1 }] [0]]

theorem medianCut (std : StdSort) (image : Image) (transparent : Bool) {colorCount : Nat}
    (hCount : 0 < colorCount) : MedianCut std image transparent colorCount where
  nonempty := boxes_partition.nonempty
  total _ := boxes_total
  few := length_boxes hCount
  distinct := nodup_imageKeys
  colors _ := mem_imageKeys
  share := boxes_keys
  white := boxes_of_no_keys

/-- The images in the BIOS: how their palettes are chosen, and what a TIM that is patched and a
slot that is rewritten hold afterwards. -/
theorem images_written (std : StdSort) :
    (∀ image transparent colorCount, 0 < colorCount → MedianCut std image transparent colorCount) ∧
    (∀ s s' offset width height image transparent description,
      patchTim std s offset width height image transparent description = .ok s' →
        Rom.Inside offset (offset + (64 + width / 4 * height * 2)) s.rom s'.rom ∧
        parseTim s'.rom offset width height = .ok (timAt s.rom offset width height) ∧
        Shows s'.rom offset image
          (makePalette std image (if transparent then 15 else 16) transparent)
          transparent) ∧
    (∀ s s' original slotEnd image palette transparent description,
      slotEnd ≤ original.offset + 0x10000 →
      rewriteTimSlot s original slotEnd image palette transparent description = .ok s' →
        Rom.Inside original.offset slotEnd s.rom s'.rom ∧
        parseTim s'.rom original.offset image.width image.height =
          .ok { timAt s.rom original.offset image.width image.height with
            clutX := original.clutX
            clutY := original.clutY
            imageX := original.imageX
            imageY := original.imageY } ∧
        Shows s'.rom original.offset image palette transparent) := by
  refine ⟨fun image transparent _ => medianCut std image transparent, ?_, ?_⟩
  · intro s s' offset width height image transparent description h
    obtain ⟨hTim, rfl, rfl⟩ := isTim_of_patchTim h
    have hWidth : image.width % 4 = 0 := by
      have := hTim.imageWords
      omega
    rw [patchTim_of_isTim hTim rfl rfl] at h
    cases h
    refine ⟨timRom_inside hWidth, ?_, (timRom_stores (length_makePalette _ _ _ _) hWidth).shows
      (length_makePalette _ _ _ _)⟩
    refine (parseTim_of_isTim (hTim.congr (timRom_inside hWidth).size ?_)).trans
      (congrArg Except.ok timRom_timAt)
    exact fun _ => timRom_header
  · intro s s' original slotEnd image palette transparent description hSlot h
    obtain ⟨⟨hWidth, hFits, hSize, hWide, hHigh, hPalette⟩, rfl⟩ := rewriteTimSlot_eq_ok h
    refine ⟨slotRom_inside hWidth hFits, ?_, (slotRom_stores hPalette hWidth).shows hPalette⟩
    exact (parseTim_of_isTim (slotRom_isTim hFits hSize hSlot hWidth hWide hHigh)).trans
      (congrArg Except.ok slotRom_timAt)

/-- Red and green columns behind a clear one. -/
def columns (width height : Nat) : Image where
  width
  height
  pixel x _ := if x = 0 then clear else if x % 2 = 0 then qRgb 0 248 0 else qRgb 248 0 0

/-- A 24 × 12 TIM gets columns, of which the first is stored as transparent, and a 120 × 90
image of columns takes the place of a larger one. -/
theorem images_written_stock :
    (∃ s', patchTim mergeSort (unpatched stockBios) 0x5FF50 24 12 (columns 24 12) true "Columns" =
        .ok s' ∧
      Shows s'.rom 0x5FF50 (columns 24 12) (makePalette mergeSort (columns 24 12) 15 true) true ∧
      storedIndex s'.rom 0x5FF50 24 0 5 = 0 ∧ storedIndex s'.rom 0x5FF50 24 1 5 ≠ 0) ∧
    ∃ (original : TimInfo) (s' : Patched), rewriteTimSlot (unpatched stockBios) original 0x5E2F0
      (columns 120 90) (qRgb 248 0 0 :: qRgb 0 248 0 :: List.replicate 14 clear) false "Splash" =
        .ok s' ∧
      Shows s'.rom original.offset (columns 120 90)
        (qRgb 248 0 0 :: qRgb 0 248 0 :: List.replicate 14 clear) false := by
  constructor
  · obtain ⟨s', h⟩ := @exists_patchTim mergeSort (unpatched stockBios) 0x5FF50 24 12
      (columns 24 12) true "Columns" stock_stockBios.trademark rfl rfl
    have hShows := ((images_written mergeSort).2.1 _ _ _ _ _ _ _ _ h).2.2
    have hClear := hShows.zero rfl 0 (by decide) 5 (by decide)
    have hRed := hShows.zero rfl 1 (by decide) 5 (by decide)
    exact ⟨s', h, hShows, hClear.mpr (by decide), fun h => absurd (hRed.mp h) (by decide)⟩
  · have hParsed := parseTim_offset (parseTim_of_isTim stock_stockBios.sony)
    generalize timAt stockBios 0x5CC30 240 48 = original at hParsed
    obtain ⟨s', h⟩ := @exists_rewriteTimSlot (unpatched stockBios) original 0x5E2F0
      (columns 120 90) (qRgb 248 0 0 :: qRgb 0 248 0 :: List.replicate 14 clear) false "Splash"
      rfl rfl rfl (by rw [hParsed]; decide) (by decide)
    exact ⟨original, s', h, ((images_written mergeSort).2.2 _ _ _ _ _ _ _ _
      (by rw [hParsed]; decide) h).2.2⟩

/-- Of a blank image no colour is left, but there is a box. -/
theorem imageKeys_blank (width height : Nat) : imageKeys (blank width height) true = [] := by
  refine List.eq_nil_iff_forall_not_mem.mpr fun key hKey => ?_
  obtain ⟨pixel, hMem, hVisible, -⟩ := mem_imageKeys.mp hKey
  obtain ⟨y, -, hRow⟩ := List.mem_flatMap.mp hMem
  obtain ⟨x, -, rfl⟩ := List.mem_map.mp hRow
  have hClear : isClear true clear = false := hVisible
  exact absurd hClear (by decide)

theorem blank_not_partition : ¬∀ (std : StdSort) (image : Image) (transparent : Bool)
    (colorCount : Nat), 0 < colorCount →
      Partition (imageKeys image transparent).length
        (boxes (imageColors image transparent) std colorCount) := by
  intro hAll
  have hPerm := (hAll mergeSort (blank 24 12) true 15 (by decide)).perm
  rw [boxes_of_no_keys (imageKeys_blank 24 12), imageKeys_blank, List.flatMap_singleton,
    indices_updateBox] at hPerm
  exact absurd hPerm.length_eq (by decide)

end RecompStudio.Studio.Branding
