import Mathlib.Data.Finset.Card
import Mathlib.Data.Finset.Range
import Mathlib.Logic.Function.Basic
import Mathlib.Tactic.Ring

/-!
Linear probing over a table whose cells hold the index of a stored record.
The table is a function from slot numbers to cells; only slots below the
capacity are ever visited. Both loops take fuel, and the results below say
how much fuel is enough.
-/

namespace OpenAddressing

variable {ι κ : Type*}

/-- The slot of the `d`-th probe that starts at `home`. -/
@[grind =] def probe (capacity home d : Nat) : Nat := (home + d) % capacity

/-- Probe for a key. `none` means that the fuel ended before the loop did. -/
@[grind =]
def search [DecidableEq κ] (capacity : Nat) (cell : Nat → Option ι) (key : ι → κ) (k : κ) :
    Nat → Nat → Option (Option ι)
  | 0, _ => none
  | fuel + 1, slot =>
      match cell slot with
      | none => some none
      | some i =>
          if key i = k then some (some i)
          else search capacity cell key k fuel ((slot + 1) % capacity)

/-- Probe for the first empty slot. -/
def vacant (capacity : Nat) (cell : Nat → Option ι) : Nat → Nat → Option Nat
  | 0, _ => none
  | fuel + 1, slot =>
      match cell slot with
      | none => some slot
      | some _ => vacant capacity cell fuel ((slot + 1) % capacity)

/-- The slots in use. -/
@[grind =] def occupied (capacity : Nat) (cell : Nat → Option ι) : Finset Nat :=
  (Finset.range capacity).filter (fun s => (cell s).isSome)

/-- Every stored record can be reached from the home slot of its key without
crossing an empty slot, every used slot holds a stored record, and no record
takes more than one slot. -/
structure Represents (capacity : Nat) (home : κ → Nat) (key : ι → κ)
    (cell : Nat → Option ι) (stored : List ι) : Prop where
  reachable : ∀ i ∈ stored, ∃ d < capacity,
    cell (probe capacity (home (key i)) d) = some i ∧
      ∀ e < d, (cell (probe capacity (home (key i)) e)).isSome
  sound : ∀ s < capacity, ∀ i, cell s = some i → i ∈ stored
  count : (occupied capacity cell).card = stored.length

section Probe

variable {capacity home : Nat}

theorem probe_lt (hCapacity : 0 < capacity) (d : Nat) : probe capacity home d < capacity :=
  Nat.mod_lt _ hCapacity

theorem probe_zero (hHome : home < capacity) : probe capacity home 0 = home :=
  Nat.mod_eq_of_lt hHome

theorem probe_succ (d : Nat) :
    (probe capacity home d + 1) % capacity = probe capacity home (d + 1) := by
  simp [probe, Nat.add_assoc]

/-- A full round of probes visits every slot. -/
theorem exists_probe (hHome : home < capacity) {s : Nat} (hs : s < capacity) :
    ∃ d < capacity, probe capacity home d = s := by
  by_cases h : home ≤ s
  · refine ⟨s - home, by omega, ?_⟩
    rw [probe, Nat.add_sub_cancel' h, Nat.mod_eq_of_lt hs]
  · refine ⟨capacity - home + s, by omega, ?_⟩
    have hSum : home + (capacity - home + s) = s + capacity := by omega
    rw [probe, hSum, Nat.add_mod_right, Nat.mod_eq_of_lt hs]

end Probe

section Loops

variable {capacity home : Nat} {cell : Nat → Option ι} {key : ι → κ} {k : κ}

/-- The search runs past every used slot whose key differs. -/
theorem search_skip [DecidableEq κ] (d : Nat)
    (hSkip : ∀ e < d, ∃ i, cell (probe capacity home e) = some i ∧ key i ≠ k)
    (fuel : Nat) (hHome : home < capacity) :
    search capacity cell key k (d + fuel) home =
      search capacity cell key k fuel (probe capacity home d) := by
  induction d generalizing fuel with
  | zero => rw [Nat.zero_add, probe_zero hHome]
  | succ d ih =>
      obtain ⟨i, hCell, hKey⟩ := hSkip d (Nat.lt_succ_self d)
      have hFuel : d + 1 + fuel = d + (fuel + 1) := by omega
      rw [hFuel, ih (fun e he => hSkip e (by omega)), search, hCell]
      simp only [hKey, if_false]
      rw [probe_succ]

/-- The insertion loop stops at the first empty slot. -/
theorem vacant_eq (d : Nat)
    (hUsed : ∀ e < d, (cell (probe capacity home e)).isSome)
    (hFree : cell (probe capacity home d) = none)
    (fuel : Nat) (hFuel : d < fuel) (hHome : home < capacity) :
    vacant capacity cell fuel home = some (probe capacity home d) := by
  have hRun : ∀ n ≤ d, ∀ rest, vacant capacity cell (n + rest) home =
      vacant capacity cell rest (probe capacity home n) := by
    intro n
    induction n with
    | zero => intro _ rest; rw [Nat.zero_add, probe_zero hHome]
    | succ n ih =>
        intro hn rest
        obtain ⟨i, hCell⟩ := Option.isSome_iff_exists.mp (hUsed n (by omega))
        have hSplit : n + 1 + rest = n + (rest + 1) := by omega
        rw [hSplit, ih (by omega), vacant, hCell]
        simp only [probe_succ]
  obtain ⟨rest, rfl⟩ := Nat.exists_eq_add_of_lt hFuel
  rw [Nat.add_assoc, hRun d le_rfl, vacant, hFree]

/-- With a free slot in the table, some probe is the first to meet one. -/
theorem exists_first_free (hHome : home < capacity)
    (hFree : ∃ s < capacity, cell s = none) :
    ∃ d < capacity, cell (probe capacity home d) = none ∧
      ∀ e < d, (cell (probe capacity home e)).isSome := by
  obtain ⟨s, hs, hEmpty⟩ := hFree
  obtain ⟨d, hd, hProbe⟩ := exists_probe hHome hs
  have hExists : ∃ n, cell (probe capacity home n) = none := ⟨d, by rw [hProbe, hEmpty]⟩
  classical
  refine ⟨Nat.find hExists, lt_of_le_of_lt (Nat.find_min' hExists (by rw [hProbe, hEmpty])) hd,
    Nat.find_spec hExists, fun e he => ?_⟩
  exact Option.isSome_iff_ne_none.mpr (Nat.find_min hExists he)

end Loops

variable {capacity : Nat} {home : κ → Nat} {key : ι → κ} {cell : Nat → Option ι}
variable {stored : List ι}

theorem Represents.empty (capacity : Nat) (home : κ → Nat) (key : ι → κ) :
    Represents capacity home key (fun _ => none) [] where
  reachable := by simp
  sound := by simp
  count := by simp [occupied]

theorem Represents.exists_free (h : Represents capacity home key cell stored)
    (hLoad : stored.length < capacity) : ∃ s < capacity, cell s = none := by
  by_contra hFull
  push Not at hFull
  have hAll : occupied capacity cell = Finset.range capacity := by
    refine Finset.filter_true_of_mem fun s hs => ?_
    exact Option.isSome_iff_ne_none.mpr (hFull s (Finset.mem_range.mp hs))
  have hCount := h.count
  rw [hAll, Finset.card_range] at hCount
  omega

/-- Writing a new record into the first empty slot of its probe sequence keeps
the representation. -/
theorem Represents.store (h : Represents capacity home key cell stored) (i : ι)
    (hHome : home (key i) < capacity) {d : Nat} (hd : d < capacity)
    (hFree : cell (probe capacity (home (key i)) d) = none)
    (hUsed : ∀ e < d, (cell (probe capacity (home (key i)) e)).isSome) :
    Represents capacity home key
      (Function.update cell (probe capacity (home (key i)) d) (some i)) (stored ++ [i]) := by
  set target := probe capacity (home (key i)) d with hTarget
  have hCapacity : 0 < capacity := by omega
  have hKeep : ∀ s, (cell s).isSome → Function.update cell target (some i) s = cell s := by
    intro s hs
    refine Function.update_of_ne ?_ _ _
    rintro rfl
    simp [hFree] at hs
  have hGrow : ∀ s, (cell s).isSome → (Function.update cell target (some i) s).isSome := by
    intro s hs
    rwa [hKeep s hs]
  refine ⟨?_, ?_, ?_⟩
  · intro j hj
    rcases List.mem_append.mp hj with hOld | hNew
    · obtain ⟨e, he, hCell, hPath⟩ := h.reachable j hOld
      refine ⟨e, he, ?_, fun f hf => hGrow _ (hPath f hf)⟩
      rw [hKeep _ (by simp [hCell]), hCell]
    · obtain rfl : j = i := by simpa using hNew
      exact ⟨d, hd, Function.update_self _ _ _, fun e he => hGrow _ (hUsed e he)⟩
  · intro s hs j hCell
    by_cases hEq : s = target
    · subst hEq
      rw [Function.update_self] at hCell
      simp [(Option.some.inj hCell).symm]
    · rw [Function.update_of_ne hEq] at hCell
      exact List.mem_append_left _ (h.sound s hs j hCell)
  · have hSplit : occupied capacity (Function.update cell target (some i)) =
        insert target (occupied capacity cell) := by
      ext s
      by_cases hEq : s = target
      · simp [occupied, hEq, hTarget, probe_lt hCapacity]
      · simp [occupied, hEq, Function.update_of_ne]
    have hNew : target ∉ occupied capacity cell := by simp [occupied, hFree]
    rw [hSplit, Finset.card_insert_of_notMem hNew, h.count]
    simp

/-- A stored key is found, whatever fuel beyond one full round is given. -/
theorem Represents.search_stored [DecidableEq κ]
    (h : Represents capacity home key cell stored)
    (hDistinct : ∀ i ∈ stored, ∀ j ∈ stored, key i = key j → i = j)
    {i : ι} (hi : i ∈ stored) (hHome : home (key i) < capacity)
    {fuel : Nat} (hFuel : capacity ≤ fuel) :
    search capacity cell key (key i) fuel (home (key i)) = some (some i) := by
  obtain ⟨d, hd, hCell, hPath⟩ := h.reachable i hi
  have hCapacity : 0 < capacity := by omega
  -- The first probe that meets the key can come no later than the record's own slot.
  have hExists : ∃ n, ∃ j, cell (probe capacity (home (key i)) n) = some j ∧ key j = key i :=
    ⟨d, i, hCell, rfl⟩
  classical
  obtain ⟨j, hFound, hKey⟩ := Nat.find_spec hExists
  set n := Nat.find hExists with hn
  have hnd : n ≤ d := Nat.find_min' hExists ⟨i, hCell, rfl⟩
  have hj : j ∈ stored := h.sound _ (probe_lt hCapacity n) j hFound
  obtain rfl : j = i := hDistinct j hj i hi hKey
  have hSkip : ∀ e < n, ∃ l, cell (probe capacity (home (key j)) e) = some l ∧ key l ≠ key j := by
    intro e he
    obtain ⟨l, hl⟩ := Option.isSome_iff_exists.mp (hPath e (by omega))
    exact ⟨l, hl, fun hSame => Nat.find_min hExists he ⟨l, hl, hSame⟩⟩
  obtain ⟨rest, rfl⟩ := Nat.exists_eq_add_of_lt (show n < fuel by omega)
  rw [Nat.add_assoc, search_skip n hSkip _ hHome, search, hFound]
  simp

/-- A key that is not stored is reported absent once the table has a free slot. -/
theorem Represents.search_absent [DecidableEq κ]
    (h : Represents capacity home key cell stored)
    (hLoad : stored.length < capacity) {k : κ} (hk : ∀ i ∈ stored, key i ≠ k)
    (hHome : home k < capacity) {fuel : Nat} (hFuel : capacity ≤ fuel) :
    search capacity cell key k fuel (home k) = some none := by
  obtain ⟨d, hd, hFree, hPath⟩ := exists_first_free hHome (h.exists_free hLoad)
  have hCapacity : 0 < capacity := by omega
  have hSkip : ∀ e < d, ∃ l, cell (probe capacity (home k) e) = some l ∧ key l ≠ k := by
    intro e he
    obtain ⟨l, hl⟩ := Option.isSome_iff_exists.mp (hPath e he)
    exact ⟨l, hl, hk l (h.sound _ (probe_lt hCapacity e) l hl)⟩
  obtain ⟨rest, rfl⟩ := Nat.exists_eq_add_of_lt (show d < fuel by omega)
  rw [Nat.add_assoc, search_skip d hSkip _ hHome, search, hFree]

/-- The insertion loop finds a slot at which `Represents.store` applies. -/
theorem Represents.exists_vacant (h : Represents capacity home key cell stored)
    (hLoad : stored.length < capacity) {k : κ} (hHome : home k < capacity)
    {fuel : Nat} (hFuel : capacity ≤ fuel) :
    ∃ d < capacity, vacant capacity cell fuel (home k) = some (probe capacity (home k) d) ∧
      cell (probe capacity (home k) d) = none ∧
      ∀ e < d, (cell (probe capacity (home k) e)).isSome := by
  obtain ⟨d, hd, hFree, hPath⟩ := exists_first_free hHome (h.exists_free hLoad)
  exact ⟨d, hd, vacant_eq d hPath hFree fuel (by omega) hHome, hFree, hPath⟩

end OpenAddressing
