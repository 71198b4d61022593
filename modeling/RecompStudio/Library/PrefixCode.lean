import Mathlib.Data.List.Infix
import Mathlib.Tactic.Common

/-!
Codes without a word that begins another: a stream is cut into code words in at
most one way, and what is left over at its end begins with none.
-/

namespace RecompStudio.PrefixCode

variable {α : Type}

/-- No code word begins another, and none is empty. -/
structure PrefixFree (C : List α → Prop) : Prop where
  eq_of_prefix : ∀ {a b}, C a → C b → a <+: b → a = b
  not_nil : ¬C []

/-- A stream as code words and a rest that no code word begins. -/
structure Framing (C : List α → Prop) (ws : List α) (cs : List (List α)) (rest : List α) :
    Prop where
  words : cs.flatten ++ rest = ws
  codes : ∀ c ∈ cs, C c
  stuck : ∀ c, C c → ¬c <+: rest

/-- A list up to the first place where a property holds of what has been read. -/
def First (P : List α → Prop) (t : List α) : Prop := P t ∧ ∀ t', t' <+: t → P t' → t' = t

variable {C : List α → Prop} {ws rest rest' c : List α} {cs cs' : List (List α)}

theorem Framing.nil (hStuck : ∀ c, C c → ¬c <+: ws) : Framing C ws [] ws :=
  ⟨rfl, fun _ h => absurd h (by simp), hStuck⟩

theorem Framing.cons (hCode : C c) (h : Framing C ws cs rest) :
    Framing C (c ++ ws) (c :: cs) rest where
  words := by rw [List.flatten_cons, List.append_assoc, h.words]
  codes d hd := by
    rcases List.mem_cons.mp hd with rfl | hd
    · exact hCode
    · exact h.codes d hd
  stuck := h.stuck

/-- The code word at the start of a stream is the first of its framing. -/
theorem Framing.of_append (hFree : PrefixFree C) (hCode : C c) (h : Framing C (c ++ ws) cs rest) :
    ∃ ds, cs = c :: ds ∧ Framing C ws ds rest := by
  cases cs with
  | nil =>
      have hRest : rest = c ++ ws := h.words
      exact absurd (hRest ▸ List.prefix_append c ws) (h.stuck c hCode)
  | cons d ds =>
      have hWords : d ++ (ds.flatten ++ rest) = c ++ ws := by
        rw [← h.words, List.flatten_cons, List.append_assoc]
      have hD : C d := h.codes d (.head _)
      have hEq : d = c := by
        rcases List.prefix_or_prefix_of_prefix (List.prefix_append d _)
          (hWords ▸ List.prefix_append c ws) with hPrefix | hPrefix
        · exact hFree.eq_of_prefix hD hCode hPrefix
        · exact (hFree.eq_of_prefix hCode hD hPrefix).symm
      subst hEq
      exact ⟨ds, rfl, List.append_cancel_left hWords, fun e he => h.codes e (.tail _ he), h.stuck⟩

theorem Framing.unique (hFree : PrefixFree C) (h : Framing C ws cs rest)
    (h' : Framing C ws cs' rest') : cs' = cs ∧ rest' = rest := by
  induction cs generalizing ws cs' with
  | nil =>
      have hRest : rest = ws := h.words
      cases cs' with
      | nil => exact ⟨rfl, (show rest' = ws from h'.words).trans hRest.symm⟩
      | cons d ds =>
          refine absurd ?_ (h.stuck d (h'.codes d (.head _)))
          rw [hRest, ← h'.words, List.flatten_cons, List.append_assoc]
          exact List.prefix_append _ _
  | cons c cs ih =>
      have hCode : C c := h.codes c (.head _)
      have hWords : c ++ (cs.flatten ++ rest) = ws := by
        rw [← h.words, List.flatten_cons, List.append_assoc]
      subst hWords
      obtain ⟨ds, rfl, h''⟩ := h'.of_append hFree hCode
      obtain ⟨rfl, rfl⟩ := ih ⟨rfl, fun d hd => h.codes d (.tail _ hd), h.stuck⟩ h''
      exact ⟨rfl, rfl⟩

theorem exists_framing (hFree : PrefixFree C) (ws : List α) :
    ∃ cs rest, Framing C ws cs rest := by
  induction hLength : ws.length using Nat.strong_induction_on generalizing ws with
  | _ n ih =>
      by_cases hBegins : ∃ c, C c ∧ c <+: ws
      · obtain ⟨c, hCode, ws', rfl⟩ := hBegins
        have hPos : 0 < c.length := by
          refine List.length_pos_iff.mpr fun hNil => ?_
          exact hFree.not_nil (hNil ▸ hCode)
        have hShorter : ws'.length < n := by
          rw [← hLength, List.length_append]
          omega
        obtain ⟨cs, rest, h⟩ := ih _ hShorter ws' rfl
        exact ⟨c :: cs, rest, h.cons hCode⟩
      · exact ⟨[], ws, .nil fun c hCode hPrefix => hBegins ⟨c, hCode, hPrefix⟩⟩

theorem Framing.of_stuck (hFree : PrefixFree C) (hStuck : ∀ c, C c → ¬c <+: ws)
    (h : Framing C ws cs rest) : cs = [] ∧ rest = ws :=
  (Framing.nil hStuck).unique hFree h

end RecompStudio.PrefixCode
