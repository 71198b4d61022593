import RecompStudio.Studio.BrandingTim
import Mathlib.Data.List.GetD
import Mathlib.Data.List.Perm.Basic
import Mathlib.Tactic.Common

/-!
The median cut of the palette. Its boxes share the colours among them, and none is empty.
-/

namespace RecompStudio.Studio.Branding

variable {colors : List WeightedColor} {std : StdSort}

theorem indices_updateBox (colors : List WeightedColor) (indices : List Nat) :
    (updateBox colors indices).indices = indices := by
  have hFold : ∀ (l : List Nat) (box : ColorBox), (l.foldl (fun box index =>
      let c := color colors index
      { box with
        count := box.count + c.count
        rMin := min box.rMin c.r
        rMax := max box.rMax c.r
        gMin := min box.gMin c.g
        gMax := max box.gMax c.g
        bMin := min box.bMin c.b
        bMax := max box.bMax c.b }) box).indices = box.indices := by
    intro l
    induction l with
    | nil => exact fun _ => rfl
    | cons index l ih => exact fun box => ih _
  exact hFold indices _

/-- The box that is split has two colours at least. -/
theorem two_le_of_bestBox {boxes : List ColorBox} {i j : Nat} {best : Option Nat} {score : Int}
    (h : bestBox boxes i best score = some j) :
    best = some j ∨ i ≤ j ∧ ∃ box, boxes[j - i]? = some box ∧ 2 ≤ box.indices.length := by
  induction boxes generalizing i best score with
  | nil => exact Or.inl h
  | cons box boxes ih =>
      have hRest : ∀ {best' : Option Nat} {score' : Int},
          bestBox boxes (i + 1) best' score' = some j → best' = some j ∨
            i ≤ j ∧ ∃ box', (box :: boxes)[j - i]? = some box' ∧ 2 ≤ box'.indices.length := by
        intro best' score' h'
        refine (ih h').imp_right fun ⟨hLe, box', hBox, hTwo⟩ => ⟨by omega, box', ?_, hTwo⟩
        rwa [show j - i = j - (i + 1) + 1 by omega, List.getElem?_cons_succ]
      rw [bestBox] at h
      split at h
      · exact hRest h
      · rename_i hSize
        split at h
        · rcases hRest h with hSome | hLater
          · cases hSome
            refine Or.inr ⟨le_rfl, box, ?_, Nat.not_lt.mp hSize⟩
            rw [Nat.sub_self, List.getElem?_cons_zero]
          · exact Or.inr hLater
        · exact hRest h

theorem splitIndex_cons_cons (count index next : Nat) (indices : List Nat)
    (accumulated split : Nat) :
    splitIndex colors count (index :: next :: indices) accumulated split =
      if count ≤ (accumulated + (color colors index).count) * 2 then split + 1
      else splitIndex colors count (next :: indices) (accumulated + (color colors index).count)
        (split + 1) := rfl

/-- Of two indices and more, both sides of the split get one. -/
theorem splitIndex_bounds {count : Nat} {indices : List Nat} {accumulated split : Nat}
    (hTwo : 2 ≤ indices.length) :
    split < splitIndex colors count indices accumulated split ∧
      splitIndex colors count indices accumulated split < split + indices.length := by
  induction indices generalizing accumulated split with
  | nil => exact absurd hTwo (by decide)
  | cons index indices ih =>
      cases indices with
      | nil => exact absurd hTwo (Nat.not_succ_le_self 1)
      | cons next indices =>
          rw [splitIndex_cons_cons]
          split
          · simp only [List.length_cons]
            omega
          · cases indices with
            | nil =>
                simp only [splitIndex, List.length_cons, List.length_nil]
                omega
            | cons last indices =>
                have hNext := @ih (accumulated + (color colors index).count) (split + 1)
                  (by simp only [List.length_cons]; omega)
                simp only [List.length_cons] at hNext ⊢
                omega

/-- The boxes share the first `n` indices among them, and none is empty. -/
structure Partition (n : Nat) (boxes : List ColorBox) : Prop where
  perm : (boxes.flatMap (·.indices)).Perm (List.range n)
  nonempty : ∀ box ∈ boxes, box.indices ≠ []

namespace Partition

variable {n : Nat} {boxes : List ColorBox}

theorem first (hColors : colors ≠ []) : Partition colors.length [firstBox colors] where
  perm := by
    rw [List.flatMap_singleton, firstBox, indices_updateBox]
  nonempty box hBox := by
    rw [List.mem_singleton.mp hBox, firstBox, indices_updateBox]
    exact fun hNil => hColors (List.length_eq_zero_iff.mp (List.range_eq_nil.mp hNil))

theorem split {best : Nat} {box : ColorBox} {left right : List Nat} (h : Partition n boxes)
    (hBox : boxes[best]? = some box) (hPerm : (left ++ right).Perm box.indices)
    (hLeft : left ≠ []) (hRight : right ≠ []) :
    Partition n (boxes.eraseIdx best ++ [updateBox colors left, updateBox colors right]) where
  perm := by
    obtain ⟨hLt, hAt⟩ := List.getElem?_eq_some_iff.mp hBox
    have hBoxes : (box :: boxes.eraseIdx best).Perm boxes := by
      rw [← hAt]
      exact List.getElem_cons_eraseIdx_perm hLt
    have hErase : ((boxes.eraseIdx best).flatMap (·.indices) ++ box.indices).Perm (List.range n) :=
      List.perm_append_comm.trans ((List.Perm.flatMap_right ColorBox.indices hBoxes).trans h.perm)
    refine List.Perm.trans ?_ hErase
    simp only [List.flatMap_append, List.flatMap_cons, List.flatMap_nil, List.append_nil,
      indices_updateBox]
    exact hPerm.append_left _
  nonempty b hb := by
    rcases List.mem_append.mp hb with hb | hb
    · exact h.nonempty b (List.mem_of_mem_eraseIdx hb)
    · simp only [List.mem_cons, List.not_mem_nil, or_false] at hb
      rcases hb with rfl | rfl
      · rwa [indices_updateBox]
      · rwa [indices_updateBox]

end Partition

/-- The loop keeps the boxes a partition, and makes no more of them than are asked for. -/
theorem splitBoxes_partition {n colorCount : Nat} {boxes : List ColorBox}
    (h : Partition n boxes) :
    Partition n (splitBoxes colors std colorCount boxes) ∧
      (splitBoxes colors std colorCount boxes).length ≤ max colorCount boxes.length := by
  fun_induction splitBoxes colors std colorCount boxes with
  | case1 boxes hFew hBest => exact ⟨h, le_max_right _ _⟩
  | case2 boxes hFew best hBest hNone => exact ⟨h, le_max_right _ _⟩
  | case3 boxes hFew best hBest box hBox indices split ih =>
      obtain ⟨-, box', hAt, hTwo⟩ := (two_le_of_bestBox hBest).resolve_left nofun
      cases hBox.symm.trans hAt
      have hPerm : indices.Perm box.indices := std.perm _ _
      have hBounds : 0 < split ∧ split < 0 + indices.length :=
        splitIndex_bounds (hPerm.length_eq.symm ▸ hTwo)
      have hLeft : indices.take split ≠ [] :=
        List.ne_nil_of_length_pos (by rw [List.length_take]; omega)
      have hRight : indices.drop split ≠ [] :=
        List.ne_nil_of_length_pos (by rw [List.length_drop]; omega)
      obtain ⟨hPartition, hLength⟩ := ih (h.split hBox
        ((List.take_append_drop split indices).symm ▸ hPerm) hLeft hRight)
      refine ⟨hPartition, hLength.trans ?_⟩
      obtain ⟨hLt, -⟩ := List.getElem?_eq_some_iff.mp hBox
      rw [List.length_append, List.length_eraseIdx_of_lt hLt, List.length_cons,
        List.length_singleton]
      omega
  | case4 boxes hMany => exact ⟨h, le_max_right _ _⟩

/-- The distinct 15-bit colours of the pixels that are not clear. -/
def imageKeys (image : Image) (transparent : Bool) : List Nat :=
  (List.range 32768).filter fun key => histogram image transparent key ≠ 0

/-- The colours of a box, by their keys. -/
def ColorBox.keys (box : ColorBox) (keys : List Nat) : List Nat := box.indices.map (keys.getD · 0)

/-- The pixels of a box, by which its average is divided. -/
def ColorBox.total (box : ColorBox) (colors : List WeightedColor) : Nat :=
  (box.indices.map fun index => (color colors index).count).sum

variable {image : Image} {transparent : Bool}

theorem colorKey_lt (pixel : Rgb) : colorKey pixel < 32768 := by
  have hR := pixel.r.isLt
  have hG := pixel.g.isLt
  have hB := pixel.b.isLt
  rw [colorKey]
  omega

theorem mem_imageKeys {key : Nat} : key ∈ imageKeys image transparent ↔
    ∃ pixel ∈ image.pixels, isClear transparent pixel = false ∧ colorKey pixel = key := by
  rw [imageKeys, List.mem_filter]
  constructor
  · rintro ⟨-, hCount⟩
    have hPos := Nat.pos_of_ne_zero (of_decide_eq_true hCount)
    rw [histogram, List.countP_pos_iff] at hPos
    obtain ⟨pixel, hPixel, hKey⟩ := hPos
    obtain ⟨hMem, hClear⟩ := List.mem_filter.mp hPixel
    exact ⟨pixel, hMem, (Bool.not_eq_true' _).mp hClear, beq_iff_eq.mp hKey⟩
  · rintro ⟨pixel, hMem, hClear, rfl⟩
    refine ⟨List.mem_range.mpr (colorKey_lt pixel), decide_eq_true (Nat.pos_iff_ne_zero.mp ?_)⟩
    rw [histogram, List.countP_pos_iff]
    exact ⟨pixel, List.mem_filter.mpr ⟨hMem, (Bool.not_eq_true' _).mpr hClear⟩, beq_self_eq_true _⟩

theorem nodup_imageKeys : (imageKeys image transparent).Nodup := List.nodup_range.filter _

theorem histogramColors_eq : histogramColors image transparent =
    (imageKeys image transparent).map fun key =>
      keyColor key (histogram image transparent key) := rfl

theorem imageColors_of_keys (hKeys : imageKeys image transparent ≠ []) :
    imageColors image transparent = histogramColors image transparent := by
  rw [imageColors, histogramColors_eq]
  exact if_neg fun hEmpty => hKeys (List.map_eq_nil_iff.mp (List.isEmpty_iff.mp hEmpty))

theorem imageColors_of_no_keys (hKeys : imageKeys image transparent = []) :
    imageColors image transparent = [{ r := 255, g := 255, b := 255, count := 1 }] := by
  rw [imageColors, histogramColors_eq, hKeys]
  rfl

theorem imageColors_ne_nil : imageColors image transparent ≠ [] := by
  by_cases hKeys : imageKeys image transparent = []
  · rw [imageColors_of_no_keys hKeys]
    exact List.cons_ne_nil _ _
  · rw [imageColors_of_keys hKeys, histogramColors_eq]
    exact fun hNil => hKeys (List.map_eq_nil_iff.mp hNil)

theorem imageColors_count {entry : WeightedColor} (h : entry ∈ imageColors image transparent) :
    0 < entry.count := by
  by_cases hKeys : imageKeys image transparent = []
  · rw [imageColors_of_no_keys hKeys, List.mem_singleton] at h
    rw [h]
    exact Nat.one_pos
  · rw [imageColors_of_keys hKeys, histogramColors_eq, List.mem_map] at h
    obtain ⟨key, hKey, rfl⟩ := h
    exact Nat.pos_of_ne_zero (of_decide_eq_true (List.mem_filter.mp hKey).2)

variable {colorCount : Nat} {box : ColorBox}

theorem boxes_partition : Partition (imageColors image transparent).length
    (boxes (imageColors image transparent) std colorCount) :=
  (splitBoxes_partition (Partition.first imageColors_ne_nil)).1

theorem length_boxes (hCount : 0 < colorCount) :
    (boxes (imageColors image transparent) std colorCount).length ≤ colorCount :=
  splitBoxes_partition (Partition.first imageColors_ne_nil) |>.2.trans (max_le le_rfl hCount)

/-- No average is divided by zero. -/
theorem boxes_total (h : box ∈ boxes (imageColors image transparent) std colorCount) :
    0 < box.total (imageColors image transparent) := by
  have hPartition := @boxes_partition std image transparent colorCount
  obtain ⟨index, rest, hIndices⟩ := List.exists_cons_of_ne_nil (hPartition.nonempty box h)
  have hMem : index ∈ List.range (imageColors image transparent).length :=
    hPartition.perm.subset (List.mem_flatMap.mpr ⟨box, h, hIndices ▸ List.mem_cons_self⟩)
  have hColor : color (imageColors image transparent) index ∈ imageColors image transparent := by
    rw [color, List.getD_eq_getElem _ _ (List.mem_range.mp hMem)]
    exact List.getElem_mem _
  rw [ColorBox.total, hIndices, List.map_cons, List.sum_cons]
  exact Nat.add_pos_left (imageColors_count hColor) _

/-- The boxes share the image's colours among them. -/
theorem boxes_keys (hKeys : imageKeys image transparent ≠ []) :
    ((boxes (imageColors image transparent) std colorCount).flatMap
      (·.keys (imageKeys image transparent))).Perm (imageKeys image transparent) := by
  have hPerm := (@boxes_partition std image transparent colorCount).perm
  rw [imageColors_of_keys hKeys, histogramColors_eq, List.length_map] at hPerm
  rw [imageColors_of_keys hKeys, histogramColors_eq]
  have hAll := hPerm.map ((imageKeys image transparent).getD · 0)
  rw [List.map_flatMap] at hAll
  refine hAll.trans (.of_eq ?_)
  refine List.ext_getElem (by rw [List.length_map, List.length_range]) fun i hi hi' => ?_
  rw [List.getElem_map, List.getElem_range, List.getD_eq_getElem _ _ hi']

/-- Without colours there is one box, for a white that is not in the image. -/
theorem boxes_of_no_keys (hKeys : imageKeys image transparent = []) :
    boxes (imageColors image transparent) std colorCount =
      [updateBox [{ r := 255, g := 255, b := 255, count := 1 }] [0]] := by
  rw [imageColors_of_no_keys hKeys, boxes, splitBoxes]
  split
  · rfl
  · rfl

end RecompStudio.Studio.Branding
