import Mathlib.Data.List.Count
import Mathlib.Data.List.Nodup
import Mathlib.Logic.Function.Iterate
import Mathlib.Tactic.Common

/-!
Pictures that are painted place by place: what a sequence of strokes leaves, and two
pictures of which one is an enlargement of the other.
-/

namespace RecompStudio.Painting

variable {α β : Type*}

/-- The places of a grid, row by row. -/
@[grind =] def grid (w h : Nat) (f : Nat → Nat → α) : List α :=
  (List.range h).flatMap fun row => (List.range w).map fun col => f col row

theorem mem_grid {w h : Nat} {f : Nat → Nat → α} {q : α} :
    q ∈ grid w h f ↔ ∃ col < w, ∃ row < h, f col row = q := by
  simp only [grid, List.mem_flatMap, List.mem_map, List.mem_range]
  constructor
  · rintro ⟨row, hRow, col, hCol, rfl⟩
    exact ⟨col, hCol, row, hRow, rfl⟩
  · rintro ⟨col, hCol, row, hRow, rfl⟩
    exact ⟨row, hRow, col, hCol, rfl⟩

theorem nodup_grid {w h : Nat} {f : Nat → Nat → α}
    (hInj : ∀ col row col' row', f col row = f col' row' → col = col' ∧ row = row') :
    (grid w h f).Nodup := by
  rw [grid, List.nodup_flatMap]
  constructor
  · intro row _
    exact List.nodup_range.map fun col col' h => (hInj col row col' row h).1
  · refine List.nodup_range.imp fun {row row'} hNe => ?_
    intro q hq hq'
    obtain ⟨col, -, rfl⟩ := List.mem_map.mp hq
    obtain ⟨col', -, hSame⟩ := List.mem_map.mp hq'
    exact hNe (hInj col' row' col row hSame).2.symm

variable [DecidableEq α]

/-- A stroke at each place, which makes a colour of the one before it. -/
def paint (g : α → β → β) (places : List α) (v : α → β) : α → β :=
  places.foldl (fun v p => Function.update v p (g p (v p))) v

/-- A place has had as many strokes as it comes up. -/
theorem paint_apply (g : α → β → β) (places : List α) (v : α → β) (q : α) :
    paint g places v q = (g q)^[places.count q] (v q) := by
  induction places generalizing v with
  | nil => rfl
  | cons p places ih =>
      change paint g places (Function.update v p (g p (v p))) q = _
      rw [ih, List.count_cons]
      by_cases hPlace : p = q
      · subst hPlace
        rw [Function.update_self, beq_self_eq_true, if_pos rfl, Function.iterate_succ_apply]
      · rw [Function.update_of_ne (Ne.symm hPlace), if_neg (by simpa using hPlace), Nat.add_zero]

theorem paint_of_notMem (g : α → β → β) {places : List α} (v : α → β) {q : α}
    (hOut : q ∉ places) : paint g places v q = v q := by
  rw [paint_apply, List.count_eq_zero_of_not_mem hOut]
  rfl

theorem paint_of_mem (g : α → β → β) {places : List α} (v : α → β) {q : α}
    (hNodup : places.Nodup) (hIn : q ∈ places) : paint g places v q = g q (v q) := by
  rw [paint_apply, List.count_eq_one_of_mem hNodup hIn]
  rfl

theorem paint_const (c : β) (places : List α) (v : α → β) (q : α) :
    paint (fun _ _ => c) places v q = if q ∈ places then c else v q := by
  by_cases hIn : q ∈ places
  · have hCount := List.count_pos_iff.mpr hIn
    rw [if_pos hIn, paint_apply, ← Nat.succ_pred_eq_of_pos hCount, Function.iterate_succ_apply']
  · rw [if_neg hIn, paint_of_notMem _ _ hIn]

/-- Strokes whose colours are read from the picture while it is painted. -/
def reading (g : (α → β) → α → β → β) (places : List α) (v : α → β) : α → β :=
  places.foldl (fun v p => Function.update v p (g v p (v p))) v

/-- Where no stroke changes what the others read, the colours of the first picture do. -/
theorem reading_eq_paint {g : (α → β) → α → β → β} {places : List α} {v : α → β}
    (hApart : ∀ u, (∀ q, q ∉ places → u q = v q) → ∀ p ∈ places, g u p = g v p) :
    reading g places v = paint (g v) places v := by
  have hSome (some : List α) (hSub : some ⊆ places) (u : α → β)
      (hu : ∀ q, q ∉ places → u q = v q) : reading g some u = paint (g v) some u := by
    induction some generalizing u with
    | nil => rfl
    | cons p rest ih =>
        have hp := hSub List.mem_cons_self
        change reading g rest (Function.update u p (g u p (u p))) = _
        rw [hApart u hu p hp, ih (fun q hq => hSub (List.mem_cons_of_mem p hq))]
        · rfl
        · intro q hq
          have hOther : q ≠ p := fun h => hq (h.symm ▸ hp)
          rw [Function.update_of_ne hOther, hu q hq]
  exact hSome places (List.Subset.refl places) v fun _ _ => rfl

/-- A colour on each place of a list. -/
def stamp {ι : Type*} (place : ι → α) (color : ι → β) (is : List ι) (v : α → β) : α → β :=
  is.foldl (fun v i => Function.update v (place i) (color i)) v

theorem stamp_of_notMem {ι : Type*} {place : ι → α} {color : ι → β} {is : List ι} {v : α → β}
    {q : α} (hOut : ∀ i ∈ is, place i ≠ q) : stamp place color is v q = v q := by
  induction is generalizing v with
  | nil => rfl
  | cons i is ih =>
      change stamp place color is (Function.update v (place i) (color i)) q = v q
      rw [ih fun j hj => hOut j (List.mem_cons_of_mem _ hj),
        Function.update_of_ne (hOut i List.mem_cons_self).symm]

/-- Where all that is stamped on a place has one colour, the place has it. -/
theorem stamp_of_mem {ι : Type*} {place : ι → α} {color : ι → β} {is : List ι} {v : α → β} {q : α}
    {c : β} (hColor : ∀ i ∈ is, place i = q → color i = c) (hIn : ∃ i ∈ is, place i = q) :
    stamp place color is v q = c := by
  induction is generalizing v with
  | nil =>
      obtain ⟨i, hi, -⟩ := hIn
      cases hi
  | cons i is ih =>
      change stamp place color is (Function.update v (place i) (color i)) q = c
      by_cases hLater : ∃ j ∈ is, place j = q
      · exact ih (fun j hj => hColor j (List.mem_cons_of_mem _ hj)) hLater
      · have hNone : ∀ j ∈ is, place j ≠ q := fun j hj hPlace => hLater ⟨j, hj, hPlace⟩
        obtain ⟨j, hj, hPlace⟩ := hIn
        have hHere : place i = q := by
          rcases List.mem_cons.mp hj with rfl | hj
          · exact hPlace
          · exact absurd hPlace (hNone j hj)
        rw [stamp_of_notMem hNone, ← hHere, Function.update_self]
        exact hColor i List.mem_cons_self hHere

variable {γ : Type*} {of : γ → α} {cell : γ → Prop}

/-- Each cell of the enlarged picture has the colour of the place it is of. -/
def Enlarges (of : γ → α) (cell : γ → Prop) (u : γ → β) (v : α → β) : Prop :=
  ∀ q, cell q → u q = v (of q)

variable [DecidableEq γ]

/-- The same strokes on both pictures, in any order. -/
theorem Enlarges.paint {u : γ → β} {v : α → β} (h : Enlarges of cell u v) {k : γ → β → β}
    {g : α → β → β} {cells : List γ} {places : List α}
    (hStroke : ∀ q ∈ cells, cell q → k q = g (of q))
    (hCells : cells.Nodup) (hPlaces : places.Nodup)
    (hMem : ∀ q, cell q → (q ∈ cells ↔ of q ∈ places)) :
    Enlarges of cell (paint k cells u) (paint g places v) := by
  intro q hq
  by_cases hIn : q ∈ cells
  · rw [paint_of_mem k u hCells hIn, paint_of_mem g v hPlaces ((hMem q hq).mp hIn),
      hStroke q hIn hq, h q hq]
  · rw [paint_of_notMem k u hIn, paint_of_notMem g v fun hPlace => hIn ((hMem q hq).mpr hPlace),
      h q hq]

/-- A colour on a place, and on each cell of it. -/
theorem Enlarges.stamp {u : γ → β} {v : α → β} (h : Enlarges of cell u v) {ι : Type*}
    {place : ι → γ} {color : ι → β} {is : List ι} {p : α} {c : β} (hColor : ∀ i ∈ is, color i = c)
    (hMem : ∀ q, cell q → ((∃ i ∈ is, place i = q) ↔ of q = p)) :
    Enlarges of cell (Painting.stamp place color is u) (Function.update v p c) := by
  intro q hq
  by_cases hIn : of q = p
  · rw [stamp_of_mem (fun i hi _ => hColor i hi) ((hMem q hq).mpr hIn), hIn, Function.update_self]
  · have hOut : ∀ i ∈ is, place i ≠ q := fun i hi hPlace => hIn ((hMem q hq).mp ⟨i, hi, hPlace⟩)
    rw [stamp_of_notMem hOut, h q hq, Function.update_of_ne hIn]

theorem Enlarges.fill {u : γ → β} {v : α → β} (h : Enlarges of cell u v) (c : β) {cells : List γ}
    {places : List α} (hMem : ∀ q, cell q → (q ∈ cells ↔ of q ∈ places)) :
    Enlarges of cell (Painting.paint (fun _ _ => c) cells u)
      (Painting.paint (fun _ _ => c) places v) := by
  intro q hq
  rw [paint_const, paint_const, if_congr (hMem q hq) rfl (h q hq)]

end RecompStudio.Painting
