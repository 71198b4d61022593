import Mathlib.Logic.Basic
import Mathlib.Tactic.SimpRw

/-!
Code generators. A generator carries a state of its own and appends
instructions; the machine that runs what it emits has another. The rules here
follow both at once: what the generator knows after it has emitted a piece, and
what the machine has done after it has run that piece.
-/

namespace RecompStudio.Staged

variable {C I O S α β : Type}

/-- What a generator returns, its state afterwards, and the code it adds. -/
structure Emitted (C I α : Type) where
  value : α
  state : C
  code : List I

/-- A generator with state `C` of code for instructions `I`. -/
def Emit (C I α : Type) := C → Emitted C I α

namespace Emit

instance : Monad (Emit C I) where
  pure a c := ⟨a, c, []⟩
  bind m f c := ⟨(f (m c).value (m c).state).value, (f (m c).value (m c).state).state,
    (m c).code ++ (f (m c).value (m c).state).code⟩

def get : Emit C I C := fun c => ⟨c, c, []⟩

def modify (f : C → C) : Emit C I Unit := fun c => ⟨(), f c, []⟩

def emit (i : I) : Emit C I Unit := fun c => ⟨(), c, [i]⟩

def emitAll (is : List I) : Emit C I Unit := fun c => ⟨(), c, is⟩

end Emit

/-- Running a piece of straight-line code. A step that does not go on to the
next instruction says how the piece is left. -/
def run (step : S → I → Except O S) (code : List I) (s : S) : Except O S := code.foldlM step s

variable {step : S → I → Except O S}

@[simp] theorem run_nil (s : S) : run step [] s = .ok s := rfl

theorem run_cons (i : I) (code : List I) (s : S) :
    run step (i :: code) s = (step s i).bind (run step code) := rfl

theorem run_append (code code' : List I) (s : S) :
    run step (code ++ code') s = (run step code s).bind (run step code') :=
  List.foldlM_append

/-- The piece runs through, and `Q` holds afterwards. -/
def RunsTo (step : S → I → Except O S) (code : List I) (s : S) (Q : S → Prop) : Prop :=
  ∃ s', run step code s = .ok s' ∧ Q s'

theorem RunsTo.nil {s : S} {Q : S → Prop} (h : Q s) : RunsTo step [] s Q := ⟨s, rfl, h⟩

theorem RunsTo.cons {i : I} {code : List I} {s s₁ : S} {Q : S → Prop} (hStep : step s i = .ok s₁)
    (h : RunsTo step code s₁ Q) : RunsTo step (i :: code) s Q := by
  obtain ⟨s', hRun, hQ⟩ := h
  refine ⟨s', ?_, hQ⟩
  rw [run_cons, hStep]
  exact hRun

theorem RunsTo.mono {code : List I} {s : S} {Q R : S → Prop} (h : RunsTo step code s Q)
    (hQR : ∀ s', Q s' → R s') : RunsTo step code s R := by
  obtain ⟨s', hRun, hQ⟩ := h
  exact ⟨s', hRun, hQR s' hQ⟩

/-- The piece that the generator emits in state `c` runs through from `s`, and
`Q` holds of what it returns and of the two states afterwards. -/
def wp (step : S → I → Except O S) (m : Emit C I α) (c : C) (s : S) (Q : α → C → S → Prop) :
    Prop :=
  ∃ s', run step (m c).code s = .ok s' ∧ Q (m c).value (m c).state s'

variable {m : Emit C I α} {f : α → Emit C I β} {c : C} {s : S}

theorem wp_mono {Q R : α → C → S → Prop} (h : wp step m c s Q)
    (hQR : ∀ a c' s', Q a c' s' → R a c' s') : wp step m c s R := by
  obtain ⟨s', hRun, hQ⟩ := h
  exact ⟨s', hRun, hQR _ _ _ hQ⟩

theorem wp_pure {a : α} {Q : α → C → S → Prop} (h : Q a c s) :
    wp step (pure a : Emit C I α) c s Q := ⟨s, rfl, h⟩

theorem wp_bind {Q : β → C → S → Prop}
    (h : wp step m c s fun a c' s' => wp step (f a) c' s' Q) : wp step (m >>= f) c s Q := by
  obtain ⟨s₁, hRun, s₂, hRun', hQ⟩ := h
  refine ⟨s₂, ?_, hQ⟩
  show run step ((m c).code ++ (f (m c).value (m c).state).code) s = .ok s₂
  rw [run_append, hRun]
  exact hRun'

theorem wp_get {Q : C → C → S → Prop} (h : Q c c s) : wp step (Emit.get : Emit C I C) c s Q :=
  ⟨s, rfl, h⟩

theorem wp_modify {g : C → C} {Q : Unit → C → S → Prop} (h : Q () (g c) s) :
    wp step (Emit.modify g : Emit C I Unit) c s Q := ⟨s, rfl, h⟩

theorem wp_emit {i : I} {Q : Unit → C → S → Prop} {s' : S} (hStep : step s i = .ok s')
    (h : Q () c s') : wp step (Emit.emit i : Emit C I Unit) c s Q := by
  refine ⟨s', ?_, h⟩
  show run step [i] s = .ok s'
  rw [run_cons, hStep]
  rfl

theorem wp_emitAll {is : List I} {Q : Unit → C → S → Prop} (h : RunsTo step is s (Q () c)) :
    wp step (Emit.emitAll is : Emit C I Unit) c s Q := h

/-- After the piece comes the rest of the code. -/
theorem wp_run {Q : α → C → S → Prop} (h : wp step m c s Q) (rest : List I) :
    ∃ s', run step ((m c).code ++ rest) s = run step rest s' ∧
      Q (m c).value (m c).state s' := by
  obtain ⟨s', hRun, hQ⟩ := h
  refine ⟨s', ?_, hQ⟩
  rw [run_append, hRun]
  rfl

/-- As `wp`, for a piece that may be left on its way. Then `E` holds of how. -/
@[grind =] def wpLeave (step : S → I → Except O S) (m : Emit C I α) (c : C) (s : S)
    (Q : α → C → S → Prop) (E : O → Prop) : Prop :=
  match run step (m c).code s with
  | .ok s' => Q (m c).value (m c).state s'
  | .error o => E o

theorem wpLeave_of_wp {Q : α → C → S → Prop} {E : O → Prop} (h : wp step m c s Q) :
    wpLeave step m c s Q E := by
  obtain ⟨s', hRun, hQ⟩ := h
  rw [wpLeave, hRun]
  exact hQ

theorem wpLeave_mono {Q R : α → C → S → Prop} {E : O → Prop} (h : wpLeave step m c s Q E)
    (hQR : ∀ a c' s', Q a c' s' → R a c' s') : wpLeave step m c s R E := by
  unfold wpLeave at h ⊢
  split
  · next hRun =>
    rw [hRun] at h
    exact hQR _ _ _ h
  · next hRun =>
    rw [hRun] at h
    exact h

theorem wpLeave_bind {Q : β → C → S → Prop} {E : O → Prop}
    (h : wpLeave step m c s (fun a c' s' => wpLeave step (f a) c' s' Q E) E) :
    wpLeave step (m >>= f) c s Q E := by
  unfold wpLeave at h
  have hCode : run step ((m >>= f) c).code s =
      (run step (m c).code s).bind (run step (f (m c).value (m c).state).code) :=
    run_append _ _ _
  rw [wpLeave, hCode]
  cases hRun : run step (m c).code s with
  | ok s' =>
      rw [hRun] at h
      exact h
  | error o =>
      rw [hRun] at h
      exact h

theorem wpLeave_emitAll_error {is : List I} {o : O} {Q : Unit → C → S → Prop} {E : O → Prop}
    (hRun : run step is s = .error o) (h : E o) :
    wpLeave step (Emit.emitAll is : Emit C I Unit) c s Q E := by
  show match run step is s with
    | .ok s' => Q () c s'
    | .error o => E o
  rw [hRun]
  exact h

theorem wpLeave_emit_error {i : I} {o : O} {Q : Unit → C → S → Prop} {E : O → Prop}
    (hStep : step s i = .error o) (h : E o) :
    wpLeave step (Emit.emit i : Emit C I Unit) c s Q E := by
  have hRun : run step [i] s = .error o := by
    rw [run_cons, hStep]
    rfl
  exact wpLeave_emitAll_error hRun h

theorem wpLeave_run {Q : α → C → S → Prop} {E : O → Prop} (h : wpLeave step m c s Q E)
    (rest : List I) :
    (∃ s', run step ((m c).code ++ rest) s = run step rest s' ∧ Q (m c).value (m c).state s') ∨
      ∃ o, run step ((m c).code ++ rest) s = .error o ∧ E o := by
  unfold wpLeave at h
  rw [run_append]
  cases hRun : run step (m c).code s with
  | ok s' =>
      rw [hRun] at h
      exact .inl ⟨s', rfl, h⟩
  | error o =>
      rw [hRun] at h
      exact .inr ⟨o, rfl, h⟩

end RecompStudio.Staged
