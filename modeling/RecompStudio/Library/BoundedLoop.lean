import Mathlib.Tactic.Common

/-!
Loops with a limit on their turns. A turn goes on, leaves the loop with a result,
or has no answer; behind the last turn the result is read off the state.
-/

namespace RecompStudio.BoundedLoop

variable {S R : Type}

/-- How a turn ends. -/
inductive Turn (S R : Type) where
  | again (s : S)
  | leave (r : R)

/-- At most so many turns. -/
@[grind =] def loop (body : S → Option (Turn S R)) (out : S → R) : Nat → S → Option R
  | 0, s => some (out s)
  | n + 1, s =>
      match body s with
      | none => none
      | some (.leave r) => some r
      | some (.again t) => loop body out n t

/-- The state behind so many turns that go on. -/
inductive After (body : S → Option (Turn S R)) (s : S) : Nat → S → Prop where
  | start : After body s 0 s
  | next {k : Nat} {t u : S} (hAfter : After body s k t) (hTurn : body t = some (.again u)) :
      After body s (k + 1) u

variable {body : S → Option (Turn S R)} {out : S → R} {s t u : S} {n k : Nat}

theorem After.head (hTurn : body s = some (.again t)) (hAfter : After body t k u) :
    After body s (k + 1) u := by
  induction hAfter with
  | start => exact .next .start hTurn
  | next _ hLast ih => exact ih.next hLast

@[simp] theorem after_zero : After body s 0 t ↔ t = s := by
  constructor
  · intro hAfter
    cases hAfter with
    | start => rfl
  · rintro rfl
    exact .start

theorem after_succ :
    After body s (k + 1) u ↔ ∃ t, body s = some (.again t) ∧ After body t k u := by
  refine ⟨fun hAfter => ?_, fun ⟨t, hFirst, hRest⟩ => hRest.head hFirst⟩
  induction k generalizing u with
  | zero =>
      cases hAfter with
      | next hAfter hTurn =>
          rw [after_zero] at hAfter
          exact ⟨u, hAfter ▸ hTurn, .start⟩
  | succ k ih =>
      cases hAfter with
      | next hAfter hTurn =>
          obtain ⟨t, hFirst, hRest⟩ := ih hAfter
          exact ⟨t, hFirst, hRest.next hTurn⟩

/-- What every turn keeps holds behind all of them. -/
theorem After.invariant {Inv : S → Prop} (hAfter : After body s k t) (hStart : Inv s)
    (hTurn : ∀ s t, Inv s → body s = some (.again t) → Inv t) : Inv t := by
  induction hAfter with
  | start => exact hStart
  | next _ hLast ih => exact hTurn _ _ ih hLast

/-- A turn that changes nothing is repeated to the limit. -/
theorem loop_idle (hIdle : body s = some (.again s)) : loop body out n s = some (out s) := by
  induction n with
  | zero => rfl
  | succ n ih => rw [loop, hIdle]; exact ih

/-- The results of a loop meet a condition exactly if those of the turns that leave it
do, and those that are read off the states behind the last turn. -/
theorem loop_meets_iff {P : R → Prop} :
    (∀ r, loop body out n s = some r → P r) ↔
      (∀ k < n, ∀ t, After body s k t → ∀ r, body t = some (.leave r) → P r) ∧
        ∀ t, After body s n t → P (out t) := by
  induction n generalizing s with
  | zero => simp [loop]
  | succ n ih =>
      rw [Nat.forall_lt_succ_left]
      cases hTurn : body s with
      | none => simp [loop, after_succ, hTurn]
      | some turn =>
          cases turn with
          | leave r => simp [loop, after_succ, hTurn]
          | again u => simp [loop, after_succ, hTurn, ih]

/-- What a turn gives meets a condition: its result, and for the last turn what is read
off the state behind it. -/
def TurnMeets (body : S → Option (Turn S R)) (out : S → R) (P : R → Prop) (last : Prop) (s : S) :
    Prop :=
  (∀ r, body s = some (.leave r) → P r) ∧ (last → ∀ t, body s = some (.again t) → P (out t))

theorem turnMeets_none {P : R → Prop} {last : Prop} (hTurn : body s = none) :
    TurnMeets body out P last s := by
  simp [TurnMeets, hTurn]

theorem turnMeets_leave {P : R → Prop} {last : Prop} {r : R} (hTurn : body s = some (.leave r)) :
    TurnMeets body out P last s ↔ P r := by
  simp [TurnMeets, hTurn]

theorem turnMeets_again {P : R → Prop} {last : Prop} (hTurn : body s = some (.again t)) :
    TurnMeets body out P last s ↔ (last → P (out t)) := by
  simp [TurnMeets, hTurn]

/-- The results of a loop meet a condition exactly if those of its turns do. -/
theorem loop_meets_turns_iff {P : R → Prop} :
    (∀ r, loop body out (n + 1) s = some r → P r) ↔
      ∀ k < n + 1, ∀ t, After body s k t → TurnMeets body out P (k = n) t := by
  rw [loop_meets_iff]
  constructor
  · rintro ⟨hLeave, hOut⟩ k hk t hAfter
    refine ⟨hLeave k hk t hAfter, fun hLast u hTurn => hOut u ?_⟩
    subst hLast
    exact hAfter.next hTurn
  · intro hTurns
    refine ⟨fun k hk t hAfter => (hTurns k hk t hAfter).1, fun t hAfter => ?_⟩
    cases hAfter with
    | next hAfter hTurn => exact (hTurns n (Nat.lt_succ_self n) _ hAfter).2 rfl _ hTurn

end RecompStudio.BoundedLoop
