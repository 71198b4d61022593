import Mathlib.Order.Basic
import Mathlib.Order.Defs.LinearOrder
import Mathlib.Order.Lattice

/-!
Binary search with signed inclusive bounds, as C code writes it with `int`.
The midpoint is computed from the sum of the bounds, which has to stay within
a limit.
-/

namespace BinarySearch

inductive Result where
  | running
  | overflow
  | notFound
  | found (index : Nat)
deriving DecidableEq, Repr

variable {κ : Type*} [LinearOrder κ]

@[grind =] def search (limit : Int) (key : Nat → κ) (k : κ) : Nat → Int → Int → Result
  | 0, _, _ => .running
  | fuel + 1, lo, hi =>
      if hi < lo then .notFound
      else if limit < lo + hi then .overflow
      else if key ((lo + hi) / 2).toNat = k then .found ((lo + hi) / 2).toNat
      else if key ((lo + hi) / 2).toNat < k then
        search limit key k fuel ((lo + hi) / 2 + 1) hi
      else search limit key k fuel lo ((lo + hi) / 2 - 1)

variable {limit : Int} {key : Nat → κ} {k : κ}

/-- The bounds enclose every index that can hold the key. -/
structure Window (key : Nat → κ) (k : κ) (n : Nat) (lo hi : Int) : Prop where
  lo_nonneg : 0 ≤ lo
  lo_le : lo ≤ hi + 1
  hi_lt : hi < n
  below : ∀ i : Nat, i < n → (i : Int) < lo → key i < k
  above : ∀ i : Nat, i < n → hi < (i : Int) → k < key i

theorem Window.full (key : Nat → κ) (k : κ) (n : Nat) : Window key k n 0 ((n : Int) - 1) where
  lo_nonneg := Int.le_refl 0
  lo_le := by omega
  hi_lt := by omega
  below := by intro i _ hi; omega
  above := by intro i hi hAbove; omega

variable {n : Nat}

theorem Window.raise (hMono : ∀ i j, i < j → j < n → key i < key j) {lo hi : Int}
    (h : Window key k n lo hi) (hLive : lo ≤ hi) (hKey : key ((lo + hi) / 2).toNat < k) :
    Window key k n ((lo + hi) / 2 + 1) hi where
  lo_nonneg := by have := h.lo_nonneg; omega
  lo_le := by omega
  hi_lt := h.hi_lt
  below := by
    have hLo := h.lo_nonneg
    have hHi := h.hi_lt
    intro i hIndex hBelow
    rcases Nat.lt_or_ge i ((lo + hi) / 2).toNat with hLt | hGe
    · exact (hMono i _ hLt (by omega)).trans hKey
    · have hEq : i = ((lo + hi) / 2).toNat := by omega
      rwa [hEq]
  above := h.above

theorem Window.lower (hMono : ∀ i j, i < j → j < n → key i < key j) {lo hi : Int}
    (h : Window key k n lo hi) (hLive : lo ≤ hi) (hKey : k < key ((lo + hi) / 2).toNat) :
    Window key k n lo ((lo + hi) / 2 - 1) where
  lo_nonneg := h.lo_nonneg
  lo_le := by omega
  hi_lt := by have := h.hi_lt; omega
  below := h.below
  above := by
    have hLo := h.lo_nonneg
    have hHi := h.hi_lt
    intro i hIndex hAbove
    rcases Nat.lt_or_ge ((lo + hi) / 2).toNat i with hLt | hGe
    · exact hKey.trans (hMono _ i hLt hIndex)
    · have hEq : i = ((lo + hi) / 2).toNat := by omega
      rwa [hEq]

/-- On a strictly increasing table the search ends with the index of the key,
or with the answer that no index holds it. -/
theorem search_window (hMono : ∀ i j, i < j → j < n → key i < key j)
    (hLimit : 2 * ((n : Int) - 1) ≤ limit) (fuel : Nat) (lo hi : Int)
    (h : Window key k n lo hi) (hFuel : hi - lo + 1 < fuel) :
    (∃ i < n, key i = k ∧ search limit key k fuel lo hi = .found i) ∨
      ((∀ i < n, key i ≠ k) ∧ search limit key k fuel lo hi = .notFound) := by
  induction fuel generalizing lo hi with
  | zero =>
      have := h.lo_le
      omega
  | succ fuel ih =>
      have hLo := h.lo_nonneg
      have hHi := h.hi_lt
      rw [search]
      by_cases hEmpty : hi < lo
      · refine Or.inr ⟨?_, if_pos hEmpty⟩
        intro i hi' hEq
        rcases Int.lt_or_le (i : Int) lo with hBelow | hAbove
        · exact (h.below i hi' hBelow).ne hEq
        · exact (h.above i hi' (by omega)).ne hEq.symm
      · rw [if_neg hEmpty, if_neg (by omega)]
        by_cases hHit : key ((lo + hi) / 2).toNat = k
        · exact Or.inl ⟨_, by omega, hHit, if_pos hHit⟩
        · rw [if_neg hHit]
          split
          · rename_i hLess
            exact ih _ _ (h.raise hMono (by omega) hLess) (by omega)
          · rename_i hNotLess
            have hGreater := lt_of_le_of_ne (not_lt.mp hNotLess) (Ne.symm hHit)
            exact ih _ _ (h.lower hMono (by omega) hGreater) (by omega)

/-- A reported index was the midpoint of bounds whose sum stayed in range. -/
theorem search_found_midpoint (fuel : Nat) (lo hi : Int) {i : Nat} (hHi : hi < n)
    (hLo : 0 ≤ lo) (h : search limit key k fuel lo hi = .found i) :
    key i = k ∧ ∃ lo' hi' : Int, lo' ≤ hi' ∧ hi' < n ∧ lo' + hi' ≤ limit ∧
      i = ((lo' + hi') / 2).toNat := by
  induction fuel generalizing lo hi with
  | zero => simp [search] at h
  | succ fuel ih =>
      rw [search] at h
      split at h
      · exact absurd h (by simp)
      · split at h
        · exact absurd h (by simp)
        · split at h
          · rename_i hLive hRange hHit
            obtain rfl := Result.found.inj h
            exact ⟨hHit, lo, hi, by omega, hHi, by omega, rfl⟩
          · split at h
            · exact ih _ _ hHi (by omega) h
            · exact ih _ _ (by omega) hLo h

end BinarySearch
