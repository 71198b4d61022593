import Mathlib.Data.List.Basic

/-!
What a run of a machine leaves in a field of its state. Each event may write the
field, depending on the state it comes in; the last write of the run decides, and
without one the field is as it was. A mark that is never cleared needs no last
write: some event of the run makes it.
-/

namespace RecompStudio.LastWrite

variable {S E F A : Type}

/-- The last write of a run. -/
def last (step : S → E → S) (writes : S → E → Option A) : S → List E → Option A
  | _, [] => none
  | s, e :: rest => (last step writes (step s e) rest).or (writes s e)

/-- From states with an invariant, nothing but the writes changes a field, and it
shows what is written. -/
structure Governs (step : S → E → S) (writes : S → E → Option A) (field : S → F)
    (shown : A → F → Prop) (inv : S → Prop) : Prop where
  stays : ∀ s e, inv s → inv (step s e)
  keeps : ∀ s e, inv s → writes s e = none → field (step s e) = field s
  written : ∀ s e a, inv s → writes s e = some a → shown a (field (step s e))

variable {step : S → E → S} {writes : S → E → Option A} {field : S → F} {shown : A → F → Prop}
  {inv : S → Prop}

namespace Governs

variable (hGoverns : Governs step writes field shown inv) {s : S} {es : List E}
include hGoverns

theorem run_inv (hInv : inv s) : inv (es.foldl step s) := by
  induction es generalizing s with
  | nil => exact hInv
  | cons e rest ih => exact ih (hGoverns.stays s e hInv)

/-- A run without a write keeps the field. -/
theorem run_none (hInv : inv s) (hLast : last step writes s es = none) :
    field (es.foldl step s) = field s := by
  induction es generalizing s with
  | nil => rfl
  | cons e rest ih =>
      obtain ⟨hRest, hFirst⟩ := Option.or_eq_none_iff.mp hLast
      exact (ih (hGoverns.stays s e hInv) hRest).trans (hGoverns.keeps s e hInv hFirst)

/-- The field shows the last write. -/
theorem run_some (hInv : inv s) {a : A} (hLast : last step writes s es = some a) :
    shown a (field (es.foldl step s)) := by
  induction es generalizing s with
  | nil => exact absurd hLast (Option.some_ne_none a).symm
  | cons e rest ih =>
      rw [last] at hLast
      have hNext := hGoverns.stays s e hInv
      cases hRest : last step writes (step s e) rest with
      | some b =>
          rw [hRest, Option.some_or] at hLast
          exact ih hNext (hRest.trans hLast)
      | none =>
          rw [hRest, Option.none_or] at hLast
          rw [List.foldl_cons, hGoverns.run_none hNext hRest]
          exact hGoverns.written s e a hInv hLast

end Governs

/-- A mark that no event clears is there if it was, or if some event of the run
makes it. -/
theorem run_mark_iff {mark : S → Prop} {makes : S → E → Prop}
    (hStays : ∀ s e, inv s → inv (step s e))
    (hStep : ∀ s e, inv s → (mark (step s e) ↔ mark s ∨ makes s e)) {s : S} (hInv : inv s)
    (es : List E) : mark (es.foldl step s) ↔
      mark s ∨ ∃ before e after, es = before ++ e :: after ∧ makes (before.foldl step s) e := by
  induction es generalizing s with
  | nil => simp
  | cons e rest ih =>
      rw [List.foldl_cons, ih (hStays s e hInv), hStep s e hInv, or_assoc]
      refine or_congr_right ⟨?_, ?_⟩
      · rintro (hMakes | ⟨before, d, after, rfl, hMakes⟩)
        · exact ⟨[], e, rest, rfl, hMakes⟩
        · exact ⟨e :: before, d, after, rfl, hMakes⟩
      · rintro ⟨before, d, after, hSplit, hMakes⟩
        cases before with
        | nil =>
            obtain ⟨rfl, -⟩ := List.cons.inj hSplit
            exact .inl hMakes
        | cons b before =>
            obtain ⟨rfl, hRest⟩ := List.cons.inj hSplit
            exact .inr ⟨before, d, after, hRest, hMakes⟩

/-- A mark that events make in any state. -/
theorem run_mark_iff_mem {mark : S → Prop} {makes : E → Prop}
    (hStays : ∀ s e, inv s → inv (step s e))
    (hStep : ∀ s e, inv s → (mark (step s e) ↔ mark s ∨ makes e)) {s : S} (hInv : inv s)
    (es : List E) : mark (es.foldl step s) ↔ mark s ∨ ∃ e ∈ es, makes e := by
  have hRun := @run_mark_iff _ _ _ _ _ (fun _ e => makes e) hStays hStep _ hInv es
  rw [hRun]
  refine or_congr_right ⟨?_, ?_⟩
  · rintro ⟨before, e, after, rfl, hMakes⟩
    exact ⟨e, List.mem_append_right _ List.mem_cons_self, hMakes⟩
  · rintro ⟨e, he, hMakes⟩
    obtain ⟨before, after, rfl⟩ := List.append_of_mem he
    exact ⟨before, e, after, rfl, hMakes⟩

end RecompStudio.LastWrite
