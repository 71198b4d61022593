import Mathlib.Data.List.Sort
import Mathlib.Data.Prod.Lex
import Mathlib.Order.MinMax

/-!
Half-open intervals, given by their two ends, and the merging of overlapping and
touching ones.
-/

namespace RecompStudio.Intervals

variable {α : Type} [LinearOrder α]

/-- The intervals in order, by their lower and then by their upper ends. -/
@[grind =] def sort (l : List (α × α)) : List (α × α) :=
  ((l.map toLex).insertionSort (· ≤ ·)).map ofLex

/-- Merges ascending intervals into the current one as long as they overlap or
touch it. -/
@[grind =] def coalesceFrom (cur : α × α) : List (α × α) → List (α × α)
  | [] => [cur]
  | r :: rest =>
      if r.1 ≤ cur.2 then coalesceFrom (cur.1, max cur.2 r.2) rest else cur :: coalesceFrom r rest

def coalesce : List (α × α) → List (α × α)
  | [] => []
  | r :: rest => coalesceFrom r rest

/-- An interval inside another one. -/
def Inside (r s : α × α) : Prop := s.1 ≤ r.1 ∧ r.2 ≤ s.2

theorem Inside.trans {r s t : α × α} (h : Inside r s) (h' : Inside s t) : Inside r t :=
  ⟨h'.1.trans h.1, h.2.trans h'.2⟩

theorem mem_sort {r : α × α} {l : List (α × α)} : r ∈ sort l ↔ r ∈ l := by
  rw [sort, List.mem_map]
  constructor
  · rintro ⟨x, hx, rfl⟩
    obtain ⟨s, hs, rfl⟩ := List.mem_map.mp (List.mem_insertionSort (· ≤ ·) |>.mp hx)
    exact hs
  · intro hr
    exact ⟨toLex r, (List.mem_insertionSort (· ≤ ·)).mpr (List.mem_map_of_mem hr), rfl⟩

theorem pairwise_sort (l : List (α × α)) : (sort l).Pairwise fun r s => r.1 ≤ s.1 := by
  rw [sort, List.pairwise_map]
  refine (List.pairwise_insertionSort (· ≤ ·) (l.map toLex)).imp fun {r s} h => ?_
  rcases Prod.Lex.le_iff.mp h with hLt | ⟨hEq, _⟩
  · exact hLt.le
  · exact hEq.le

section Coalesce

variable {cur : α × α} {l : List (α × α)}

/-- Merged intervals begin and end where given ones do. -/
theorem ends_of_mem_coalesceFrom {s : α × α} (hs : s ∈ coalesceFrom cur l) :
    (s.1 = cur.1 ∨ ∃ r ∈ l, s.1 = r.1) ∧ (s.2 = cur.2 ∨ ∃ r ∈ l, s.2 = r.2) := by
  induction l generalizing cur with
  | nil =>
      obtain rfl := List.mem_singleton.mp hs
      exact ⟨.inl rfl, .inl rfl⟩
  | cons r rest ih =>
      rw [coalesceFrom] at hs
      split at hs
      · obtain ⟨hLo, hHi⟩ := ih hs
        refine ⟨hLo.imp_right fun ⟨t, ht, hEq⟩ => ⟨t, List.mem_cons_of_mem r ht, hEq⟩, ?_⟩
        rcases hHi with hMax | ⟨t, ht, hEq⟩
        · rcases max_choice cur.2 r.2 with hLeft | hRight
          · exact .inl (hMax.trans hLeft)
          · exact .inr ⟨r, List.mem_cons_self, hMax.trans hRight⟩
        · exact .inr ⟨t, List.mem_cons_of_mem r ht, hEq⟩
      · rcases List.mem_cons.mp hs with rfl | hs
        · exact ⟨.inl rfl, .inl rfl⟩
        · obtain ⟨hLo, hHi⟩ := ih hs
          refine ⟨.inr ?_, .inr ?_⟩
          · rcases hLo with hEq | ⟨t, ht, hEq⟩
            · exact ⟨r, List.mem_cons_self, hEq⟩
            · exact ⟨t, List.mem_cons_of_mem r ht, hEq⟩
          · rcases hHi with hEq | ⟨t, ht, hEq⟩
            · exact ⟨r, List.mem_cons_self, hEq⟩
            · exact ⟨t, List.mem_cons_of_mem r ht, hEq⟩

/-- Every given interval lies inside a merged one. -/
theorem inside_coalesceFrom (hLow : ∀ r ∈ l, cur.1 ≤ r.1)
    (hSorted : l.Pairwise fun r s => r.1 ≤ s.1)
    {r : α × α} (hr : r ∈ cur :: l) : ∃ s ∈ coalesceFrom cur l, Inside r s := by
  induction l generalizing cur r with
  | nil =>
      obtain rfl := List.mem_singleton.mp hr
      exact ⟨r, List.mem_cons_self, le_rfl, le_rfl⟩
  | cons t rest ih =>
      obtain ⟨hFirst, hRest⟩ := List.pairwise_cons.mp hSorted
      have hLow' : ∀ r ∈ rest, cur.1 ≤ r.1 := fun r hr => hLow r (List.mem_cons_of_mem t hr)
      rw [coalesceFrom]
      split
      · have hWide : ∃ q ∈ (cur.1, max cur.2 t.2) :: rest, Inside r q := by
          rcases List.mem_cons.mp hr with rfl | hr
          · exact ⟨_, List.mem_cons_self, le_rfl, le_max_left _ _⟩
          · rcases List.mem_cons.mp hr with rfl | hr
            · exact ⟨_, List.mem_cons_self, hLow r List.mem_cons_self, le_max_right _ _⟩
            · exact ⟨r, List.mem_cons_of_mem _ hr, le_rfl, le_rfl⟩
        obtain ⟨q, hq, hInside⟩ := hWide
        obtain ⟨s, hs, hOuter⟩ := @ih (cur.1, max cur.2 t.2) hLow' hRest _ hq
        exact ⟨s, hs, hInside.trans hOuter⟩
      · rcases List.mem_cons.mp hr with rfl | hr
        · exact ⟨r, List.mem_cons_self, le_rfl, le_rfl⟩
        · obtain ⟨s, hs, hInside⟩ := ih hFirst hRest hr
          exact ⟨s, List.mem_cons_of_mem cur hs, hInside⟩

/-- The merged intervals ascend with gaps between them. -/
theorem separated_coalesceFrom (hLow : ∀ r ∈ l, cur.1 ≤ r.1)
    (hSorted : l.Pairwise fun r s => r.1 ≤ s.1) :
    (coalesceFrom cur l).Pairwise fun r s => r.2 < s.1 := by
  induction l generalizing cur with
  | nil => exact List.pairwise_singleton _ _
  | cons t rest ih =>
      obtain ⟨hFirst, hRest⟩ := List.pairwise_cons.mp hSorted
      rw [coalesceFrom]
      split
      · exact ih (fun r hr => hLow r (List.mem_cons_of_mem t hr)) hRest
      · rename_i hGap
        refine List.pairwise_cons.mpr ⟨fun s hs => ?_, ih hFirst hRest⟩
        rcases (ends_of_mem_coalesceFrom hs).1 with hEq | ⟨r, hr, hEq⟩
        · rw [hEq]
          exact not_le.mp hGap
        · rw [hEq]
          exact (not_le.mp hGap).trans_le (hFirst r hr)

theorem lt_of_mem_coalesceFrom (hCur : cur.1 < cur.2) (hLt : ∀ r ∈ l, r.1 < r.2) {s : α × α}
    (hs : s ∈ coalesceFrom cur l) : s.1 < s.2 := by
  induction l generalizing cur with
  | nil =>
      obtain rfl := List.mem_singleton.mp hs
      exact hCur
  | cons r rest ih =>
      have hRest : ∀ r ∈ rest, r.1 < r.2 := fun t ht => hLt t (List.mem_cons_of_mem r ht)
      rw [coalesceFrom] at hs
      split at hs
      · exact @ih (cur.1, max cur.2 r.2) (hCur.trans_le (le_max_left _ _)) hRest hs
      · rcases List.mem_cons.mp hs with rfl | hs
        · exact hCur
        · exact ih (hLt r List.mem_cons_self) hRest hs

end Coalesce

variable {l : List (α × α)}

theorem ends_of_mem_coalesce {s : α × α} (hs : s ∈ coalesce l) :
    (∃ r ∈ l, s.1 = r.1) ∧ ∃ r ∈ l, s.2 = r.2 := by
  cases l with
  | nil => cases hs
  | cons r rest =>
      obtain ⟨hLo, hHi⟩ := ends_of_mem_coalesceFrom hs
      exact ⟨hLo.elim (fun h => ⟨r, List.mem_cons_self, h⟩)
          fun ⟨t, ht, h⟩ => ⟨t, List.mem_cons_of_mem r ht, h⟩,
        hHi.elim (fun h => ⟨r, List.mem_cons_self, h⟩)
          fun ⟨t, ht, h⟩ => ⟨t, List.mem_cons_of_mem r ht, h⟩⟩

theorem inside_coalesce (hSorted : l.Pairwise fun r s => r.1 ≤ s.1) {r : α × α} (hr : r ∈ l) :
    ∃ s ∈ coalesce l, Inside r s := by
  cases l with
  | nil => cases hr
  | cons t rest =>
      obtain ⟨hFirst, hRest⟩ := List.pairwise_cons.mp hSorted
      exact inside_coalesceFrom hFirst hRest hr

theorem separated_coalesce (hSorted : l.Pairwise fun r s => r.1 ≤ s.1) :
    (coalesce l).Pairwise fun r s => r.2 < s.1 := by
  cases l with
  | nil => exact .nil
  | cons t rest =>
      obtain ⟨hFirst, hRest⟩ := List.pairwise_cons.mp hSorted
      exact separated_coalesceFrom hFirst hRest

theorem lt_of_mem_coalesce (hLt : ∀ r ∈ l, r.1 < r.2) {s : α × α} (hs : s ∈ coalesce l) :
    s.1 < s.2 := by
  cases l with
  | nil => cases hs
  | cons r rest =>
      exact lt_of_mem_coalesceFrom (hLt r List.mem_cons_self)
        (fun t ht => hLt t (List.mem_cons_of_mem r ht)) hs

end RecompStudio.Intervals
