import Mathlib.Logic.Relation

/-!
Machines that take one event after the other, and what holds in every state of
their runs.
-/

namespace RecompStudio.Machine

variable {S E : Type}

/-- The states of the runs from a state all of whose steps meet a condition on
the event and the state before it. -/
inductive Reach (step : S → E → S) (ok : S → E → Prop) (s : S) : S → Prop where
  | start : Reach step ok s s
  | next {t : S} (hReach : Reach step ok s t) (e : E) (hOk : ok t e) : Reach step ok s (step t e)

variable {step : S → E → S} {ok : S → E → Prop} {s t : S}

/-- What holds in the beginning and is kept by every step holds in every state. -/
theorem Reach.invariant {Inv : S → Prop} (hReach : Reach step ok s t) (hStart : Inv s)
    (hStep : ∀ s e, Inv s → ok s e → Inv (step s e)) : Inv t := by
  induction hReach with
  | start => exact hStart
  | next _ e hOk ih => exact hStep _ e ih hOk

theorem Reach.mono {ok' : S → E → Prop} (hReach : Reach step ok s t)
    (hOk : ∀ s e, ok s e → ok' s e) : Reach step ok' s t := by
  induction hReach with
  | start => exact .start
  | next _ e h ih => exact .next ih e (hOk _ e h)

/-- A run goes on with events that meet the condition in every state. -/
theorem Reach.run (hReach : Reach step ok s t) (es : List E) (hOk : ∀ t, ∀ e ∈ es, ok t e) :
    Reach step ok s (es.foldl step t) := by
  induction es generalizing t with
  | nil => exact hReach
  | cons e rest ih =>
      exact ih (hReach.next e (hOk t e List.mem_cons_self)) fun t e he =>
        hOk t e (List.mem_cons_of_mem _ he)

/-- Events that meet the condition in the states they come in. -/
def RunOk (step : S → E → S) (ok : S → E → Prop) : S → List E → Prop
  | _, [] => True
  | s, e :: rest => ok s e ∧ RunOk step ok (step s e) rest

instance decidableRunOk [∀ s e, Decidable (ok s e)] :
    ∀ (s : S) (es : List E), Decidable (RunOk step ok s es)
  | _, [] => isTrue trivial
  | s, e :: rest =>
      have := decidableRunOk (step s e) rest
      inferInstanceAs (Decidable (ok s e ∧ RunOk step ok (step s e) rest))

theorem Reach.along (hReach : Reach step ok s t) (es : List E) (hOk : RunOk step ok t es) :
    Reach step ok s (es.foldl step t) := by
  induction es generalizing t with
  | nil => exact hReach
  | cons e rest ih => exact ih (hReach.next e hOk.1) hOk.2

/-- Two conditions that agree where an invariant holds allow the same runs. -/
theorem runOk_congr {ok' : S → E → Prop} {Inv : S → Prop}
    (hSame : ∀ s e, Inv s → (ok s e ↔ ok' s e))
    (hStep : ∀ s e, Inv s → ok' s e → Inv (step s e)) (hStart : Inv s) (es : List E) :
    RunOk step ok s es ↔ RunOk step ok' s es := by
  induction es generalizing s with
  | nil => exact Iff.rfl
  | cons e rest ih =>
      refine ⟨fun ⟨hOk, hRest⟩ => ?_, fun ⟨hOk, hRest⟩ => ?_⟩
      · have hOk' := (hSame s e hStart).mp hOk
        exact ⟨hOk', (ih (hStep s e hStart hOk')).mp hRest⟩
      · exact ⟨(hSame s e hStart).mpr hOk, (ih (hStep s e hStart hOk)).mpr hRest⟩

/-- A property in every state of a run, the first and the last included. -/
def Along (step : S → E → S) (Q : S → Prop) : S → List E → Prop
  | s, [] => Q s
  | s, e :: rest => Q s ∧ Along step Q (step s e) rest

theorem Along.last {Q : S → Prop} {es : List E} (h : Along step Q s es) :
    Q (es.foldl step s) := by
  induction es generalizing s with
  | nil => exact h
  | cons e rest ih => exact ih h.2

/-- A property of the states behind a map that follows the steps. -/
theorem along_map {S' : Type} (f : S' → S) {step' : S' → E → S'} {Q : S → Prop}
    (hStep : ∀ s e, f (step' s e) = step (f s) e) (s : S') (es : List E) :
    Along step' (fun s => Q (f s)) s es ↔ Along step Q (f s) es := by
  induction es generalizing s with
  | nil => exact Iff.rfl
  | cons e rest ih => rw [Along, Along, ih, hStep]

/-- A condition on the steps that decides, where an invariant holds, whether a
property outlives the step decides it for runs. -/
theorem along_iff_runOk {Q Inv : S → Prop} (hHolds : ∀ s, Inv s → Q s)
    (hKept : ∀ s e, Inv s → ok s e → Inv (step s e))
    (hLost : ∀ s e, Inv s → Q (step s e) → ok s e) (hStart : Inv s) (es : List E) :
    Along step Q s es ↔ RunOk step ok s es := by
  induction es generalizing s with
  | nil => exact iff_of_true (hHolds s hStart) trivial
  | cons e rest ih =>
      refine ⟨fun ⟨_, hRest⟩ => ?_, fun ⟨hOk, hRest⟩ => ?_⟩
      · have hNext : Q (step s e) := by
          cases rest with
          | nil => exact hRest
          | cons d rest => exact hRest.1
        have hOk := hLost s e hStart hNext
        exact ⟨hOk, (ih (hKept s e hStart hOk)).mp hRest⟩
      · exact ⟨hHolds s hStart, (ih (hKept s e hStart hOk)).mpr hRest⟩

end RecompStudio.Machine
