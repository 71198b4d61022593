import Mathlib.Algebra.BigOperators.Intervals
import Mathlib.Algebra.Order.BigOperators.Group.Finset
import Mathlib.Algebra.Order.Ring.Int
import Mathlib.Tactic.Linarith

/-!
Checked arithmetic and checked tables: an operation whose result leaves its
range, or an access outside a table, has no value.
-/

namespace RecompStudio.Checked

/-- A value in an interval. One outside has none. -/
def within (low high v : Int) : Option Int := if low ≤ v ∧ v ≤ high then some v else none

@[grind =] def int32 (v : Int) : Option Int := within (-2 ^ 31) (2 ^ 31 - 1) v

def int16 (v : Int) : Option Int := within (-2 ^ 15) (2 ^ 15 - 1) v

section Within

variable {low high v : Int}

theorem within_of_bounds (hLow : low ≤ v) (hHigh : v ≤ high) : within low high v = some v :=
  if_pos ⟨hLow, hHigh⟩

theorem int32_of_abs_le {b : Int} (hV : |v| ≤ b) (hB : b < 2 ^ 31) : int32 v = some v := by
  obtain ⟨hLow, hHigh⟩ := abs_le.mp hV
  exact within_of_bounds (by omega) (by omega)

theorem int16_of_abs_lt (hV : |v| < 2 ^ 15) : int16 v = some v := by
  obtain ⟨hLow, hHigh⟩ := abs_lt.mp hV
  exact within_of_bounds (by omega) (by omega)

end Within

section Table

variable {α β : Type} {n : Nat}

/-- An element of a table of `n`. -/
def lookup (table : Fin n → α) (i : Nat) : Option α :=
    if h : i < n then some (table ⟨i, h⟩) else none

/-- A table with one element replaced. -/
def store (table : Fin n → α) (i : Nat) (a : α) : Option (Fin n → α) :=
  if h : i < n then some (Function.update table ⟨i, h⟩ a) else none

/-- The table of the values of `f`, if it has one everywhere. -/
def tabulate (n : Nat) (f : Nat → Option α) : Option (Fin n → α) :=
  if h : ∀ i : Fin n, (f i).isSome then some fun i => (f i).get (h i) else none

theorem lookup_of_lt (table : Fin n → α) {i : Nat} (h : i < n) :
    lookup table i = some (table ⟨i, h⟩) := dif_pos h

theorem store_of_lt (table : Fin n → α) {i : Nat} (h : i < n) (a : α) :
    store table i a = some (Function.update table ⟨i, h⟩ a) := dif_pos h

theorem tabulate_of_forall {f : Nat → Option α} (g : Fin n → α)
    (h : ∀ i : Fin n, f i = some (g i)) :
    tabulate n f = some g := by
  have hSome (i : Fin n) : (f i).isSome := by rw [h i, Option.isSome_some]
  rw [tabulate, dif_pos hSome]
  congr 1
  funext i
  exact Option.get_of_mem (hSome i) (h i)

/-- A property of all elements of a table, from one of each computed value. -/
theorem exists_tabulate {f : Nat → Option α} {P : α → Prop}
    (h : ∀ i < n, ∃ a, f i = some a ∧ P a) :
    ∃ g : Fin n → α, tabulate n f = some g ∧ ∀ i, P (g i) := by
  choose g hValue hP using h
  exact ⟨fun i => g i i.2, tabulate_of_forall _ fun i => hValue i i.2, fun i => hP i i.2⟩

end Table

/-- The sum of the first `n` terms, in `int` arithmetic. -/
def sum (terms : Nat → Option Int) : Nat → Option Int
  | 0 => some 0
  | n + 1 => do
      let partialSum ← sum terms n
      let term ← terms n
      int32 (partialSum + term)

/-- Terms that are small enough together have a sum, and it is as small. -/
theorem sum_of_abs_le {terms : Nat → Option Int} {b : Int} {n : Nat}
    (hTerms : ∀ i < n, ∃ t, terms i = some t ∧ |t| ≤ b) (hBound : n * b < 2 ^ 31) (hB : 0 ≤ b) :
    ∃ s, sum terms n = some s ∧ |s| ≤ n * b := by
  induction n with
  | zero => exact ⟨0, rfl, by simp⟩
  | succ n ih =>
      push_cast at hBound
      obtain ⟨s, hSum, hS⟩ := ih (fun i hi => hTerms i (by omega)) (by nlinarith)
      obtain ⟨t, hTerm, hT⟩ := hTerms n (Nat.lt_succ_self n)
      have hNext : |s + t| ≤ (n + 1) * b := by
        have hTriangle := abs_add_le s t
        linarith
      refine ⟨s + t, ?_, by exact_mod_cast hNext⟩
      rw [sum, hSum, hTerm]
      simp only [Option.bind_eq_bind, Option.bind_some]
      exact int32_of_abs_le hNext (by linarith)

end RecompStudio.Checked
