import Mathlib.Data.List.Basic
import Mathlib.Tactic.Common

/-!
A buffer that is patched range by range, and a log that keeps what each patch left in
its range. The log describes the buffer at the end when its ranges are disjoint.
-/

namespace RecompStudio.PatchLog

variable {α : Type}

/-- The cells of a range. -/
@[grind =]
def slice (s : Nat → α) (offset size : Nat) : List α := (List.range size).map fun i =>
    s (offset + i)

/-- What a patch left in its range. -/
structure Entry (α : Type) where
  offset : Nat
  after : List α

namespace Entry

@[grind =] def Covers (e : Entry α) (i : Nat) : Prop := e.offset ≤ i ∧ i < e.offset + e.after.length

def Describes (e : Entry α) (s : Nat → α) : Prop := slice s e.offset e.after.length = e.after

def Disjoint (e f : Entry α) : Prop :=
  e.offset + e.after.length ≤ f.offset ∨ f.offset + f.after.length ≤ e.offset

theorem Disjoint.symm {e f : Entry α} (h : e.Disjoint f) : f.Disjoint e := Or.symm h

end Entry

theorem slice_congr {s t : Nat → α} {offset size : Nat}
    (h : ∀ i, offset ≤ i → i < offset + size → s i = t i) :
    slice s offset size = slice t offset size :=
  List.map_congr_left fun i hi =>
    h (offset + i) (Nat.le_add_right offset i) (Nat.add_lt_add_left (List.mem_range.mp hi) offset)

theorem slice_eq_iff {s t : Nat → α} {offset size : Nat} :
    slice s offset size = slice t offset size ↔
      ∀ i, offset ≤ i → i < offset + size → s i = t i := by
  refine ⟨fun h i hLe hLt => ?_, slice_congr⟩
  have hAt := List.map_inj_left.mp h (i - offset) (List.mem_range.mpr (by omega))
  rwa [Nat.add_sub_cancel' hLe] at hAt

theorem length_slice (s : Nat → α) (offset size : Nat) : (slice s offset size).length = size := by
  rw [slice, List.length_map, List.length_range]

theorem getElem?_slice {s : Nat → α} {offset size i : Nat} (hi : i < size) :
    (slice s offset size)[i]? = some (s (offset + i)) := by
  rw [slice, List.getElem?_map, List.getElem?_range hi]
  rfl

/-- A patch changes nothing but its range. -/
structure Patches (s : Nat → α) (e : Entry α) (t : Nat → α) : Prop where
  frame : ∀ i, ¬ e.Covers i → t i = s i
  describes : e.Describes t

inductive Run : (Nat → α) → List (Entry α) → (Nat → α) → Prop where
  | nil (s : Nat → α) : Run s [] s
  | cons {s t u : Nat → α} {e : Entry α} {es : List (Entry α)} (first : Patches s e t)
      (rest : Run t es u) : Run s (e :: es) u

namespace Run

variable {s t u : Nat → α} {e : Entry α} {es fs : List (Entry α)}

theorem single (h : Patches s e t) : Run s [e] t := .cons h (.nil t)

theorem append (h : Run s es t) (h' : Run t fs u) : Run s (es ++ fs) u := by
  induction h with
  | nil => exact h'
  | cons first _ ih => exact .cons first (ih h')

/-- Outside of all ranges the buffer is as it was. -/
theorem frame (h : Run s es t) {i : Nat} (hOut : ∀ e ∈ es, ¬ e.Covers i) : t i = s i := by
  induction h with
  | nil => rfl
  | cons first _ ih =>
      rw [ih fun e he => hOut e (List.mem_cons_of_mem _ he),
        first.frame i (hOut _ List.mem_cons_self)]

/-- A range that no later patch touches is as its patch left it. -/
theorem describes_first (h : Run s (e :: es) t) (hLater : ∀ f ∈ es, e.Disjoint f) :
    e.Describes t := by
  cases h with
  | cons first rest =>
      rw [Entry.Describes, ← first.describes, length_slice]
      refine slice_congr fun i hLe hLt => ?_
      rw [rest.frame fun f hf hCovers => ?_]
      rcases hLater f hf with hBefore | hBehind
      · have := hCovers.1
        omega
      · have := hCovers.2
        omega

/-- With disjoint ranges, every entry describes the end. -/
theorem describes (h : Run s es t) (hDisjoint : es.Pairwise Entry.Disjoint) :
    ∀ e ∈ es, e.Describes t := by
  induction h with
  | nil => exact nofun
  | cons first rest ih =>
      intro e he
      obtain ⟨hLater, hRest⟩ := List.pairwise_cons.mp hDisjoint
      rcases List.mem_cons.mp he with rfl | he
      · exact (cons first rest).describes_first hLater
      · exact ih hRest e he

end Run

end RecompStudio.PatchLog
