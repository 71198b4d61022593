import Mathlib.Data.List.Basic
import Mathlib.Data.Prod.Lex

/-!
Worklist search over a finite universe. Visiting a node pushes further work and
may mark other nodes as seen, which are then never visited themselves.
-/

namespace RecompStudio.Worklist

variable {α : Type}

/-- How new work joins the pending work. -/
structure Discipline (α : Type) where
  add : List α → List α → List α
  mem_add : ∀ new old x, x ∈ add new old ↔ x ∈ new ∨ x ∈ old

/-- The last pushed is the first popped. -/
def stack : Discipline α where
  add new old := new.reverse ++ old
  mem_add := by simp

/-- The first pushed is the first popped. -/
@[grind =] def queue : Discipline α where
  add new old := old ++ new
  mem_add := by simp [or_comm]

structure Search (α : Type) where
  discipline : Discipline α
  domain : List α
  marks : α → List α
  pushes : α → List α

/-- The nodes that were visited, and with the marked ones all that were seen. -/
structure Trail (α : Type) where
  seen : List α
  visited : List α
deriving DecidableEq

/-- Visiting a node. -/
@[grind =] def Search.visit (S : Search α) (t : Trail α) (a : α) : Trail α :=
  ⟨a :: (S.marks a ++ t.seen), a :: t.visited⟩

variable {S : Search α} {work : List α} {t : Trail α}

/-- What holds between two pops: the visited nodes are of the domain, what they
marked is seen, what they pushed is seen or pending, and nothing else is seen. -/
structure Covered (S : Search α) (work : List α) (t : Trail α) : Prop where
  visited_seen : ∀ v ∈ t.visited, v ∈ t.seen
  visited_domain : ∀ v ∈ t.visited, v ∈ S.domain
  marked : ∀ v ∈ t.visited, ∀ x ∈ S.marks v, x ∈ t.seen
  pushed : ∀ v ∈ t.visited, ∀ x ∈ S.pushes v, x ∈ S.domain → x ∈ t.seen ∨ x ∈ work
  seen : ∀ x ∈ t.seen, x ∈ t.visited ∨ ∃ v ∈ t.visited, x ∈ S.marks v

theorem covered_start (S : Search α) (work : List α) : Covered S work ⟨[], []⟩ :=
  ⟨by simp, by simp, by simp, by simp, by simp⟩

theorem Covered.visit {a : α} {rest : List α} (h : Covered S (a :: rest) t)
    (hDomain : a ∈ S.domain) :
    Covered S (S.discipline.add (S.pushes a) rest) (S.visit t a) := by
  refine ⟨?_, ?_, ?_, ?_, ?_⟩
  · intro v hv
    rcases List.mem_cons.mp hv with rfl | hv
    · exact List.mem_cons_self
    · simp [Search.visit, h.visited_seen v hv]
  · intro v hv
    rcases List.mem_cons.mp hv with rfl | hv
    · exact hDomain
    · exact h.visited_domain v hv
  · intro v hv x hx
    rcases List.mem_cons.mp hv with rfl | hv
    · simp [Search.visit, hx]
    · simp [Search.visit, h.marked v hv x hx]
  · intro v hv x hx hIn
    rw [S.discipline.mem_add]
    rcases List.mem_cons.mp hv with rfl | hv
    · exact .inr (.inl hx)
    · rcases h.pushed v hv x hx hIn with hSeen | hWork
      · exact .inl (by simp [Search.visit, hSeen])
      · rcases List.mem_cons.mp hWork with rfl | hRest
        · exact .inl List.mem_cons_self
        · exact .inr (.inr hRest)
  · intro x hx
    rcases List.mem_cons.mp hx with rfl | hx
    · exact .inl List.mem_cons_self
    rcases List.mem_append.mp hx with hMark | hSeen
    · exact .inr ⟨a, List.mem_cons_self, hMark⟩
    · rcases h.seen x hSeen with hVisited | ⟨v, hv, hMark⟩
      · exact .inl (List.mem_cons_of_mem _ hVisited)
      · exact .inr ⟨v, List.mem_cons_of_mem _ hv, hMark⟩

theorem Covered.skip {a : α} {rest : List α} (h : Covered S (a :: rest) t)
    (hOld : ¬ (a ∉ t.seen ∧ a ∈ S.domain)) : Covered S rest t := by
  refine ⟨h.visited_seen, h.visited_domain, h.marked, fun v hv x hx hIn => ?_, h.seen⟩
  rcases h.pushed v hv x hx hIn with hSeen | hWork
  · exact .inl hSeen
  · rcases List.mem_cons.mp hWork with rfl | hRest
    · exact .inl (not_not.mp fun hNew => hOld ⟨hNew, hIn⟩)
    · exact .inr hRest

/-- Without marks every seen node was visited. -/
theorem Covered.visited_of_seen (h : Covered S work t) (hMarks : ∀ a, S.marks a = []) {x : α}
    (hx : x ∈ t.seen) : x ∈ t.visited := by
  rcases h.seen x hx with hVisited | ⟨v, _, hMark⟩
  · exact hVisited
  · rw [hMarks v] at hMark
    cases hMark

variable [DecidableEq α]

/-- The nodes of the domain that are not seen yet. -/
def Search.fresh (S : Search α) (t : Trail α) : List α := S.domain.filter fun x => x ∉ t.seen

theorem Search.fresh_visit_lt (S : Search α) {t : Trail α} {a : α} (hNew : a ∉ t.seen)
    (hDomain : a ∈ S.domain) : (S.fresh (S.visit t a)).length < (S.fresh t).length := by
  have hSub : S.fresh (S.visit t a) = (S.fresh t).filter fun x => x ∉ (S.visit t a).seen := by
    rw [fresh, fresh, List.filter_filter]
    refine List.filter_congr fun x _ => ?_
    by_cases hx : x ∈ t.seen <;> simp [visit, hx]
  rw [hSub]
  have hMem : a ∈ S.fresh t := by simp [fresh, hNew, hDomain]
  exact List.length_filter_lt_length_iff_exists.mpr ⟨a, hMem, by simp [visit]⟩

/-- Pops until no work is left; work that is seen or outside the domain is
dropped. -/
@[grind =] def Search.run (S : Search α) (work : List α) (t : Trail α) : Trail α :=
  match work with
  | [] => t
  | a :: rest =>
      if a ∉ t.seen ∧ a ∈ S.domain then
        S.run (S.discipline.add (S.pushes a) rest) (S.visit t a)
      else S.run rest t
termination_by ((S.fresh t).length, work.length)
decreasing_by
  · rename_i hNew
    exact Prod.Lex.left _ _ (S.fresh_visit_lt hNew.1 hNew.2)
  · exact Prod.Lex.right _ (by simp)

/-- The search keeps its invariant to the end, where nothing is pending. -/
theorem covered_run (h : Covered S work t) : Covered S [] (S.run work t) := by
  induction work, t using Search.run.induct S with
  | case1 t =>
      rw [Search.run]
      exact h
  | case2 t a rest hNew ih =>
      rw [Search.run, if_pos hNew]
      exact ih (h.visit hNew.2)
  | case3 t a rest hOld ih =>
      rw [Search.run, if_neg hOld]
      exact ih (h.skip hOld)

theorem seen_subset_run {x : α} (hx : x ∈ t.seen) : x ∈ (S.run work t).seen := by
  induction work, t using Search.run.induct S with
  | case1 t =>
      rw [Search.run]
      exact hx
  | case2 t a rest hNew ih =>
      rw [Search.run, if_pos hNew]
      exact ih (by simp [Search.visit, hx])
  | case3 t a rest hOld ih =>
      rw [Search.run, if_neg hOld]
      exact ih hx

/-- All initial work of the domain is seen in the end. -/
theorem work_subset_run {x : α} (hx : x ∈ work) (hDomain : x ∈ S.domain) :
    x ∈ (S.run work t).seen := by
  induction work, t using Search.run.induct S with
  | case1 t => cases hx
  | case2 t a rest hNew ih =>
      rw [Search.run, if_pos hNew]
      rcases List.mem_cons.mp hx with rfl | hx
      · exact seen_subset_run List.mem_cons_self
      · exact ih ((S.discipline.mem_add _ _ _).mpr (.inr hx))
  | case3 t a rest hOld ih =>
      rw [Search.run, if_neg hOld]
      rcases List.mem_cons.mp hx with rfl | hx
      · exact seen_subset_run (not_not.mp fun hNew => hOld ⟨hNew, hDomain⟩)
      · exact ih hx

/-- What the initial work has and visiting hands on, all that is seen has. -/
theorem seen_of_closed {P : α → Prop} (hWork : ∀ x ∈ work, P x) (hSeen : ∀ x ∈ t.seen, P x)
    (hMarks : ∀ a, P a → ∀ x ∈ S.marks a, P x) (hPushes : ∀ a, P a → ∀ x ∈ S.pushes a, P x) :
    ∀ x ∈ (S.run work t).seen, P x := by
  induction work, t using Search.run.induct S with
  | case1 t =>
      rw [Search.run]
      exact hSeen
  | case2 t a rest hNew ih =>
      rw [Search.run, if_pos hNew]
      obtain ⟨hHere, hRest⟩ := List.forall_mem_cons.mp hWork
      apply ih
      · intro x hx
        rcases (S.discipline.mem_add _ _ _).mp hx with hPush | hOld
        · exact hPushes a hHere x hPush
        · exact hRest x hOld
      · intro x hx
        rw [Search.visit, List.mem_cons, List.mem_append] at hx
        rcases hx with rfl | hMark | hOld
        · exact hHere
        · exact hMarks a hHere x hMark
        · exact hSeen x hOld
  | case3 t a rest hOld ih =>
      rw [Search.run, if_neg hOld]
      exact ih (List.forall_mem_cons.mp hWork).2 hSeen

end RecompStudio.Worklist
