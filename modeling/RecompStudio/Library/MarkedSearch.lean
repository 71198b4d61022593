import RecompStudio.Library.Worklist

/-!
What marking costs. A marked node is never visited, so its own pushes are lost;
the plain search, which marks nothing, gives the order in which nodes would be
discovered, and marking is harmless if the lost pushes were no news in it.
-/

namespace RecompStudio.Worklist

variable {α : Type} {S : Search α}

/-- A queue with some entries dropped that are done, come earlier in the queue,
or are outside the domain. -/
inductive Thinned (S : Search α) : List α → List α → List α → Prop where
  | nil (done : List α) : Thinned S done [] []
  | keep {done w w' : List α} (a : α) (h : Thinned S (a :: done) w w') :
      Thinned S done (a :: w) (a :: w')
  | drop {done w w' : List α} {a : α} (hOld : a ∈ done ∨ a ∉ S.domain) (h : Thinned S done w w') :
      Thinned S done w (a :: w')

namespace Thinned

theorem refl (done w : List α) : Thinned S done w w := by
  induction w generalizing done with
  | nil => exact .nil done
  | cons a w ih => exact .keep a (ih _)

theorem mono {done done' w w' : List α} (h : Thinned S done w w')
    (hSub : ∀ x ∈ done, x ∈ done' ∨ x ∉ S.domain) : Thinned S done' w w' := by
  induction h generalizing done' with
  | nil => exact .nil done'
  | keep a _ ih =>
      refine .keep a (ih fun x hx => ?_)
      rcases List.mem_cons.mp hx with rfl | hx
      · exact .inl List.mem_cons_self
      · exact (hSub x hx).imp_left (List.mem_cons_of_mem a)
  | drop hOld _ ih =>
      refine .drop ?_ (ih hSub)
      rcases hOld with hDone | hOut
      · exact hSub _ hDone
      · exact .inr hOut

theorem append {done w w' : List α} (h : Thinned S done w w') (new : List α) :
    Thinned S done (w ++ new) (w' ++ new) := by
  induction h with
  | nil done => exact refl done new
  | keep a _ ih => exact .keep a ih
  | drop hOld _ ih => exact .drop hOld ih

theorem append_old {done w w' : List α} (h : Thinned S done w w') {new : List α}
    (hNew : ∀ b ∈ new, b ∈ S.domain → b ∈ done ∨ b ∈ w') : Thinned S done w (w' ++ new) := by
  induction h with
  | nil done =>
      induction new with
      | nil => exact .nil done
      | cons b new ih =>
          refine .drop ?_ (ih fun c hc => hNew c (List.mem_cons_of_mem b hc))
          by_cases hDomain : b ∈ S.domain
          · exact .inl (by simpa using hNew b List.mem_cons_self hDomain)
          · exact .inr hDomain
  | keep a _ ih =>
      refine .keep a (ih fun b hb hDomain => ?_)
      rcases hNew b hb hDomain with hDone | hPending
      · exact .inl (List.mem_cons_of_mem a hDone)
      · rcases List.mem_cons.mp hPending with rfl | hPending
        · exact .inl List.mem_cons_self
        · exact .inr hPending
  | @drop done w w' a hOld _ ih =>
      refine .drop hOld (ih fun b hb hDomain => ?_)
      rcases hNew b hb hDomain with hDone | hPending
      · exact .inl hDone
      · rcases List.mem_cons.mp hPending with rfl | hPending
        · exact .inl (hOld.resolve_right (not_not.mpr hDomain))
        · exact .inr hPending

/-- A head that is new has not been dropped. -/
theorem head {done w w' : List α} {a : α} (h : Thinned S done w (a :: w')) (hNew : a ∉ done)
    (hDomain : a ∈ S.domain) : ∃ rest, w = a :: rest ∧ Thinned S (a :: done) rest w' := by
  cases h with
  | keep _ h => exact ⟨_, rfl, h⟩
  | drop hOld _ => exact absurd hOld (by simp [hNew, hDomain])

end Thinned

/-- What a search should see: its initial work and what these nodes push, as far
as it is in the domain. -/
inductive Reached (S : Search α) (init : List α) : α → Prop where
  | start {a : α} (hWork : a ∈ init) (hDomain : a ∈ S.domain) : Reached S init a
  | push {a b : α} (hReached : Reached S init a) (hPush : b ∈ S.pushes a)
      (hDomain : b ∈ S.domain) : Reached S init b

/-- The same search without marks. -/
@[grind =] def Search.plain (S : Search α) : Search α := { S with marks := fun _ => [] }

/-- The search and the plain one side by side: what the plain one visited is
seen, and what is seen beyond that was marked. -/
structure Beside (S : Search α) (init work work' : List α) (t t' : Trail α) : Prop where
  thinned : Thinned S t'.visited work work'
  covered : Covered S.plain work' t'
  initial : ∀ b ∈ init, b ∈ S.domain → b ∈ t'.visited ∨ b ∈ work'
  seen : ∀ x ∈ t'.visited, x ∈ t.seen
  marked : ∀ x ∈ t.seen, x ∈ t'.visited ∨ ∃ a ∈ t'.visited, x ∈ S.marks a

namespace Beside

variable {init rest rest' : List α} {t t' : Trail α} {a : α}

/-- Both searches visit a node that is new for both. -/
theorem visit (h : Beside S init (a :: rest) (a :: rest') t t')
    (hQueue : S.discipline = queue) (hThinned : Thinned S (a :: t'.visited) rest rest')
    (hDomain : a ∈ S.domain) :
    Beside S init (S.discipline.add (S.pushes a) rest)
      (S.plain.discipline.add (S.plain.pushes a) rest') (S.visit t a) (S.plain.visit t' a) := by
  refine ⟨?_, h.covered.visit hDomain, ?_, ?_, ?_⟩
  · simp only [Search.plain, hQueue, queue, Search.visit]
    exact hThinned.append _
  · intro b hb hIn
    simp only [Search.plain, hQueue, queue, Search.visit, List.mem_cons, List.mem_append]
    have := h.initial b hb hIn
    simp only [List.mem_cons] at this
    tauto
  · intro x hx
    rcases List.mem_cons.mp hx with rfl | hx
    · exact List.mem_cons_self
    · simp [Search.visit, h.seen x hx]
  · intro x hx
    rcases List.mem_cons.mp hx with rfl | hx
    · exact .inl List.mem_cons_self
    rcases List.mem_append.mp hx with hMark | hx
    · exact .inr ⟨a, List.mem_cons_self, hMark⟩
    · rcases h.marked x hx with hVisited | ⟨m, hm, hMark⟩
      · exact .inl (List.mem_cons_of_mem a hVisited)
      · exact .inr ⟨m, List.mem_cons_of_mem a hm, hMark⟩

/-- Only the plain search visits a marked node, which pushes nothing new. -/
theorem lose (h : Beside S init (a :: rest) (a :: rest') t t') (hQueue : S.discipline = queue)
    (hThinned : Thinned S (a :: t'.visited) rest rest') (hDomain : a ∈ S.domain)
    (hSeen : a ∈ t.seen)
    (hPushes : ∀ b ∈ S.pushes a, b ∈ S.domain →
      b ∈ init ∨ ∃ p ∈ t'.visited, b ∈ S.pushes p) :
    Beside S init rest (S.plain.discipline.add (S.plain.pushes a) rest') t
      (S.plain.visit t' a) := by
  refine ⟨?_, h.covered.visit hDomain, ?_, ?_, ?_⟩
  · simp only [Search.plain, hQueue, queue, Search.visit]
    apply hThinned.append_old
    intro b hb hIn
    have hOld : b ∈ t'.visited ∨ b ∈ a :: rest' := by
      rcases hPushes b hb hIn with hInit | ⟨p, hp, hPush⟩
      · exact h.initial b hInit hIn
      · exact (h.covered.pushed p hp b hPush hIn).imp_left
          (h.covered.visited_of_seen fun _ => rfl)
    simp only [List.mem_cons] at hOld ⊢
    tauto
  · intro b hb hIn
    simp only [Search.plain, hQueue, queue, Search.visit, List.mem_cons, List.mem_append]
    have := h.initial b hb hIn
    simp only [List.mem_cons] at this
    tauto
  · intro x hx
    rcases List.mem_cons.mp hx with rfl | hx
    · exact hSeen
    · exact h.seen x hx
  · intro x hx
    rcases h.marked x hx with hVisited | ⟨m, hm, hMark⟩
    · exact .inl (List.mem_cons_of_mem a hVisited)
    · exact .inr ⟨m, List.mem_cons_of_mem a hm, hMark⟩

end Beside

theorem beside_start (S : Search α) (init : List α) :
    Beside S init init init ⟨[], []⟩ ⟨[], []⟩ :=
  ⟨.refl _ _, covered_start _ _, fun _ hb _ => .inr hb, by simp, by simp⟩

variable [DecidableEq α] {init work : List α} {t : Trail α}

/-- The nodes in the order in which the plain search visits them. -/
def Search.order (S : Search α) (init : List α) : List α :=
  (S.plain.run init ⟨[], []⟩).visited.reverse

/-- The part of a list before a node. -/
def before (l : List α) (x : α) : List α := l.takeWhile fun a => a ≠ x

/-- Every marked node that comes after the node that marks it pushes only
initial work and what some node before it has pushed. -/
def Search.MarksLoseNothing (S : Search α) (init : List α) : Prop :=
  ∀ x ∈ S.order init, ∀ a ∈ before (S.order init) x, x ∈ S.marks a →
    ∀ b ∈ S.pushes x, b ∈ S.domain → b ∈ init ∨ ∃ p ∈ before (S.order init) x, b ∈ S.pushes p

/-- A property of the initial work that pushing keeps holds of every visited
node. -/
theorem visited_induction {P : α → Prop} (hWork : ∀ a ∈ work, a ∈ S.domain → P a)
    (hPush : ∀ a, P a → ∀ b ∈ S.pushes a, b ∈ S.domain → P b) (hVisited : ∀ a ∈ t.visited, P a) :
    ∀ a ∈ (S.run work t).visited, P a := by
  induction work, t using Search.run.induct S with
  | case1 t =>
      rw [Search.run]
      exact hVisited
  | case2 t a rest hNew ih =>
      rw [Search.run, if_pos hNew]
      have ha : P a := hWork a List.mem_cons_self hNew.2
      apply ih
      · intro b hb hDomain
        rcases (S.discipline.mem_add _ _ _).mp hb with hPushed | hRest
        · exact hPush a ha b hPushed hDomain
        · exact hWork b (List.mem_cons_of_mem _ hRest) hDomain
      · intro b hb
        rcases List.mem_cons.mp hb with rfl | hb
        · exact ha
        · exact hVisited b hb
  | case3 t a rest hOld ih =>
      rw [Search.run, if_neg hOld]
      exact ih (fun b hb => hWork b (List.mem_cons_of_mem _ hb)) hVisited

theorem reached_of_visited {a : α} (ha : a ∈ (S.run init ⟨[], []⟩).visited) :
    Reached S init a :=
  visited_induction (fun _ => .start) (fun _ hReached _ => .push hReached) (by simp) a ha

/-- The plain search visits everything that is reached. -/
theorem mem_order_of_reached {a : α} (ha : Reached S init a) : a ∈ S.order init := by
  have hCovered := covered_run (covered_start S.plain init)
  have hSeen : ∀ x ∈ (S.plain.run init ⟨[], []⟩).seen, x ∈ S.order init := fun x hx =>
    List.mem_reverse.mpr (hCovered.visited_of_seen (fun _ => rfl) hx)
  induction ha with
  | start hWork hDomain => exact hSeen _ (work_subset_run hWork hDomain)
  | push hReached hPush hDomain ih =>
      rcases hCovered.pushed _ (List.mem_reverse.mp ih) _ hPush hDomain with hOld | hPending
      · exact hSeen _ hOld
      · cases hPending

theorem visited_suffix_run : t.visited <:+ (S.run work t).visited := by
  induction work, t using Search.run.induct S with
  | case1 t =>
      unfold Search.run
      exact List.suffix_rfl
  | case2 t a rest hNew ih =>
      rw [Search.run, if_pos hNew]
      exact (List.suffix_cons a t.visited).trans ih
  | case3 t a rest hOld ih =>
      rw [Search.run, if_neg hOld]
      exact ih

/-- When a search visits a node, what it visited so far is what its order has
before the node. -/
theorem before_visit {a : α} (hNew : a ∉ t.visited) :
    before (S.run work (S.visit t a)).visited.reverse a = t.visited.reverse := by
  have hSuffix : (S.visit t a).visited <:+ (S.run work (S.visit t a)).visited := visited_suffix_run
  obtain ⟨later, hLater⟩ := hSuffix
  rw [← hLater, Search.visit, List.reverse_append, List.reverse_cons, List.append_assoc, before]
  rw [List.takeWhile_append_of_pos (fun b hb => by
    have hb := List.mem_reverse.mp hb
    simp only [ne_eq, decide_eq_true_eq]
    rintro rfl
    exact hNew hb)]
  simp

/-- Both searches drop an entry that is old for the plain one. -/
theorem Beside.skip {rest' : List α} {t' : Trail α} {a : α}
    (h : Beside S init work (a :: rest') t t')
    (hOld : a ∈ t'.visited ∨ a ∉ S.domain) :
    ∃ rest, Beside S init rest rest' t t' ∧ S.run work t = S.run rest t := by
  have hCovered : Covered S.plain rest' t' := h.covered.skip fun hNew =>
    hOld.elim (fun hVisited => hNew.1 (h.covered.visited_seen a hVisited)) fun hOut => hOut hNew.2
  have hInitial : ∀ b ∈ init, b ∈ S.domain → b ∈ t'.visited ∨ b ∈ rest' := by
    intro b hb hDomain
    rcases h.initial b hb hDomain with hVisited | hPending
    · exact .inl hVisited
    · rcases List.mem_cons.mp hPending with rfl | hPending
      · exact .inl (hOld.resolve_right (not_not.mpr hDomain))
      · exact .inr hPending
  cases h.thinned with
  | drop _ hThinned => exact ⟨work, ⟨hThinned, hCovered, hInitial, h.seen, h.marked⟩, rfl⟩
  | @keep _ rest _ _ hThinned =>
      refine ⟨rest, ⟨hThinned.mono ?_, hCovered, hInitial, h.seen, h.marked⟩, ?_⟩
      · intro x hx
        rcases List.mem_cons.mp hx with rfl | hx
        · exact hOld
        · exact .inl hx
      · rw [Search.run, if_neg]
        rintro ⟨hNew, hDomain⟩
        exact hNew (h.seen a (hOld.resolve_right (not_not.mpr hDomain)))

/-- Run from side by side, the search sees in the end what the plain one
visits. -/
theorem Beside.run {work' : List α} {t' : Trail α} (h : Beside S init work work' t t')
    (hQueue : S.discipline = queue) (hLose : S.MarksLoseNothing init)
    (hOrder : (S.plain.run work' t').visited.reverse = S.order init) :
    ∀ x ∈ (S.plain.run work' t').visited, x ∈ (S.run work t).seen := by
  induction work', t' using Search.run.induct S.plain generalizing work t with
  | case1 t' =>
      rw [Search.run]
      cases h.thinned
      rw [Search.run]
      exact h.seen
  | case2 t' a rest' hNew ih =>
      rw [Search.run, if_pos hNew] at hOrder ⊢
      have hFresh : a ∉ t'.visited := fun hVisited => hNew.1 (h.covered.visited_seen a hVisited)
      obtain ⟨rest, rfl, hThinned⟩ := h.thinned.head hFresh hNew.2
      by_cases hSeen : a ∈ t.seen
      · rw [Search.run, if_neg (fun hVisit => hVisit.1 hSeen)]
        refine ih (h.lose hQueue hThinned hNew.2 hSeen ?_) hOrder
        have hBefore :
            before (S.plain.run (S.plain.discipline.add (S.plain.pushes a) rest')
              (S.plain.visit t' a)).visited.reverse a = t'.visited.reverse := before_visit hFresh
        rw [hOrder] at hBefore
        obtain ⟨m, hm, hMark⟩ := (h.marked a hSeen).resolve_left hFresh
        intro b hb hDomain
        have hLast : a ∈ S.order init := by
          rw [← hOrder, List.mem_reverse]
          exact visited_suffix_run.subset List.mem_cons_self
        have := hLose a hLast m (by rw [hBefore]; exact List.mem_reverse.mpr hm) hMark b hb hDomain
        rw [hBefore] at this
        simpa using this
      · rw [Search.run, if_pos ⟨hSeen, hNew.2⟩]
        exact ih (h.visit hQueue hThinned hNew.2) hOrder
  | case3 t' a rest' hOld ih =>
      rw [Search.run, if_neg hOld] at hOrder ⊢
      have hOld' : a ∈ t'.visited ∨ a ∉ S.domain := by
        by_cases hDomain : a ∈ S.domain
        · refine .inl (h.covered.visited_of_seen (fun _ => rfl) ?_)
          exact not_not.mp fun hNew => hOld ⟨hNew, hDomain⟩
        · exact .inr hDomain
      obtain ⟨rest, hRest, hRun⟩ := h.skip hOld'
      rw [hRun]
      exact ih hRest hOrder

/-- A breadth-first search whose marks lose nothing sees all that is reached. -/
theorem seen_of_reached (hQueue : S.discipline = queue) (hLose : S.MarksLoseNothing init) {a : α}
    (ha : Reached S init a) : a ∈ (S.run init ⟨[], []⟩).seen :=
  (beside_start S init).run hQueue hLose rfl a (List.mem_reverse.mp (mem_order_of_reached ha))

/-- The search for at most `fuel` pops. -/
def Search.runFor (S : Search α) : Nat → List α → Trail α → Option (Trail α)
  | 0, _, _ => none
  | _ + 1, [], t => some t
  | fuel + 1, a :: rest, t =>
      if a ∉ t.seen ∧ a ∈ S.domain then
        S.runFor fuel (S.discipline.add (S.pushes a) rest) (S.visit t a)
      else S.runFor fuel rest t

/-- A bounded run that ends is the run. -/
theorem run_of_runFor {fuel : Nat} {t' : Trail α} (h : S.runFor fuel work t = some t') :
    S.run work t = t' := by
  induction fuel generalizing work t with
  | zero => cases h
  | succ fuel ih =>
      cases work with
      | nil =>
          rw [Search.run]
          exact Option.some.inj h
      | cons a rest =>
          rw [Search.runFor] at h
          rw [Search.run]
          split
          · rename_i hNew
            rw [if_pos hNew] at h
            exact ih h
          · rename_i hOld
            rw [if_neg hOld] at h
            exact ih h

end RecompStudio.Worklist
