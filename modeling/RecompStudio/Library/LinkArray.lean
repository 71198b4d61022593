import Mathlib.Data.List.Basic
import Mathlib.Logic.Function.Basic

/-!
Chains of values in one array of links that only grows: every bucket has its
first and its last link, and a value that is added goes behind the last one.
-/

namespace RecompStudio.LinkArray

variable {β α : Type}

structure Link (α : Type) where
  value : α
  next : Option Nat
deriving DecidableEq, Repr

/-- The array of links, and the ends of the chain of every bucket. -/
structure Chains (β α : Type) where
  links : List (Link α)
  head : β → Option Nat
  tail : β → Option Nat

/-- From a link the array leads over the values at their positions to the end. -/
inductive Leads (links : List (Link α)) : Option Nat → List (Nat × α) → Option Nat → Prop where
  | here (start : Option Nat) : Leads links start [] start
  | link {i : Nat} {l : Link α} {path : List (Nat × α)} {stop : Option Nat}
      (hLink : links[i]? = some l) (hRest : Leads links l.next path stop) :
      Leads links (some i) ((i, l.value) :: path) stop

namespace Leads

variable {links links' : List (Link α)} {start middle stop : Option Nat}
  {path path' : List (Nat × α)}

/-- A path depends on the links that it visits only. -/
theorem congr (h : Leads links start path stop)
    (hSame : ∀ i ∈ path.map Prod.fst, links'[i]? = links[i]?) : Leads links' start path stop := by
  induction h with
  | here start => exact .here start
  | link hLink _ ih =>
      refine .link ?_ (ih fun i hi => hSame i (List.mem_cons_of_mem _ hi))
      rw [hSame _ List.mem_cons_self]
      exact hLink

theorem append (h : Leads links start path middle) (h' : Leads links middle path' stop) :
    Leads links start (path ++ path') stop := by
  induction h with
  | here start => exact h'
  | link hLink _ ih => exact .link hLink (ih h')

theorem split (h : Leads links start (path ++ path') stop) :
    ∃ middle, Leads links start path middle ∧ Leads links middle path' stop := by
  induction path generalizing start with
  | nil => exact ⟨start, .here start, h⟩
  | cons a rest ih =>
      cases h with
      | link hLink hRest =>
          obtain ⟨middle, hFront, hBack⟩ := ih hRest
          exact ⟨middle, .link hLink hFront, hBack⟩

theorem ends (h : Leads links start [] stop) : start = stop := by
  cases h
  rfl

theorem one {i : Nat} {a : α} (h : Leads links start [(i, a)] stop) :
    start = some i ∧ links[i]? = some ⟨a, stop⟩ := by
  cases h with
  | link hLink hRest =>
      rw [← hRest.ends]
      exact ⟨rfl, hLink⟩

end Leads

namespace Chains

variable (c : Chains β α)

def empty : Chains β α := ⟨[], fun _ => none, fun _ => none⟩

/-- The loop that follows the links, for at most `fuel` of them. -/
@[grind =] def follow (links : List (Link α)) : Nat → Option Nat → List α
  | 0, _ => []
  | _ + 1, none => []
  | fuel + 1, some i =>
      match links[i]? with
      | none => []
      | some l => l.value :: follow links fuel l.next

/-- The values of a bucket. -/
@[grind =] def walk (b : β) : List α := follow c.links c.links.length (c.head b)

/-- The array with one of its links turned to another position. -/
@[grind =] def linkAt (links : List (Link α)) (turned : Option Nat) (n : Nat) : List (Link α) :=
  match turned with
  | none => links
  | some t => links.modify t fun l => { l with next := some n }

/-- The link behind which the next value of a bucket goes. -/
def turned (b : β) : Option Nat :=
  match c.head b with
  | none => none
  | some _ => c.tail b

variable [DecidableEq β]

/-- A value goes to the end of the chain of a bucket. -/
@[grind =] def push (b : β) (a : α) : Chains β α where
  links := linkAt c.links (c.turned b) c.links.length ++ [⟨a, none⟩]
  head := match c.head b with
    | none => Function.update c.head b (some c.links.length)
    | some _ => c.head
  tail := Function.update c.tail b (some c.links.length)

omit [DecidableEq β]

/-- The chains lead over the given positions, which no two of them share. -/
structure Laid (c : Chains β α) (path : β → List (Nat × α)) : Prop where
  leads : ∀ b, Leads c.links (c.head b) (path b) none
  last : ∀ b t, (path b).getLast? = some t → c.tail b = some t.1
  apart : ∀ b b' i, i ∈ (path b).map Prod.fst → i ∈ (path b').map Prod.fst → b = b'
  nodup : ∀ b, ((path b).map Prod.fst).Nodup
  inside : ∀ b, ∀ i ∈ (path b).map Prod.fst, i < c.links.length
  short : ∀ b, (path b).length ≤ c.links.length

theorem laid_empty : Laid (empty : Chains β α) fun _ => [] where
  leads _ := .here none
  last _ _ h := by cases h
  apart _ _ _ h := by cases h
  nodup _ := List.nodup_nil
  inside _ _ h := by cases h
  short _ := Nat.le_refl 0

theorem follow_of_leads {links : List (Link α)} {start : Option Nat} {path : List (Nat × α)}
    (h : Leads links start path none) {fuel : Nat} (hFuel : path.length ≤ fuel) :
    follow links fuel start = path.map Prod.snd := by
  induction fuel generalizing start path with
  | zero =>
      rw [List.eq_nil_of_length_eq_zero (Nat.le_zero.mp hFuel)]
      rfl
  | succ fuel ih =>
      cases h with
      | here => rfl
      | link hLink hRest =>
          rw [follow, hLink]
          exact congrArg _ (ih hRest (Nat.le_of_succ_le_succ hFuel))

section Laid

variable {c : Chains β α} {path : β → List (Nat × α)} {b : β} {i : Nat}

/-- A walk comes by the values of the path. -/
theorem Laid.walk (h : Laid c path) (b : β) : c.walk b = (path b).map Prod.snd :=
  follow_of_leads (h.leads b) (h.short b)

theorem Laid.head_none (h : Laid c path) (hHead : c.head b = none) : path b = [] := by
  have hLeads := h.leads b
  rw [hHead] at hLeads
  generalize path b = route at hLeads
  cases hLeads
  rfl

theorem Laid.head_some (h : Laid c path) (hHead : c.head b = some i) :
    path b ≠ [] := by
  have hLeads := h.leads b
  intro hNil
  rw [hHead, hNil] at hLeads
  cases hLeads

/-- A new link behind the array, with another one turned to it, leaves the links
that are not turned. -/
theorem getElem?_linkAt {links : List (Link α)} {last : Option Nat} {n i : Nat} (a : α)
    (hInside : i < links.length) (hNe : last ≠ some i) :
    (linkAt links last n ++ [⟨a, none⟩])[i]? = links[i]? := by
  cases last with
  | none => exact List.getElem?_append_left hInside
  | some t =>
      have hOther : t ≠ i := fun hSame => hNe (congrArg some hSame)
      rw [linkAt, List.getElem?_append_left (by rw [List.length_modify]; exact hInside),
        List.getElem?_modify_ne _ _ hOther]

theorem getElem?_linkAt_self {links : List (Link α)} {n t : Nat} {v : α} {next : Option Nat}
    (a : α) (hCell : links[t]? = some ⟨v, next⟩) :
    (linkAt links (some t) n ++ [⟨a, none⟩])[t]? = some ⟨v, some n⟩ := by
  obtain ⟨hInside, -⟩ := List.getElem?_eq_some_iff.mp hCell
  rw [linkAt, List.getElem?_append_left (by rw [List.length_modify]; exact hInside),
    List.getElem?_modify_eq, hCell]
  rfl

theorem length_linkAt (links : List (Link α)) (last : Option Nat) (n : Nat) :
    (linkAt links last n).length = links.length := by
  cases last with
  | none => rfl
  | some t => exact List.length_modify _ _ _

theorem getElem?_linkAt_new (links : List (Link α)) (last : Option Nat) (n : Nat) (a : α) :
    (linkAt links last n ++ [⟨a, none⟩])[links.length]? = some ⟨a, none⟩ := by
  have hLength := length_linkAt links last n
  rw [List.getElem?_append_right (Nat.le_of_eq hLength), hLength, Nat.sub_self]
  rfl

/-- What is turned when a value is added is the end of a chain that is not empty. -/
theorem Laid.turned (h : Laid c path) (b : β) :
    path b = [] ∧ c.head b = none ∧ c.turned b = none ∨
      ∃ front t v, path b = front ++ [(t, v)] ∧ c.turned b = some t := by
  cases hHead : c.head b with
  | none => exact .inl ⟨h.head_none hHead, rfl, by rw [Chains.turned, hHead]⟩
  | some i =>
      obtain ⟨front, ⟨t, v⟩, hPath⟩ := List.eq_nil_or_concat (path b) |>.resolve_left
        (h.head_some hHead)
      rw [List.concat_eq_append] at hPath
      refine .inr ⟨front, t, v, hPath, ?_⟩
      rw [Chains.turned, hHead]
      exact h.last b (t, v) (by rw [hPath, List.getLast?_concat])

theorem Laid.turned_mem (h : Laid c path) {t : Nat} (hTurned : c.turned b = some t) :
    t ∈ (path b).map Prod.fst := by
  rcases h.turned b with ⟨-, -, hNone⟩ | ⟨front, t', v, hPath, hSome⟩
  · rw [hNone] at hTurned
    cases hTurned
  · rw [hSome] at hTurned
    cases hTurned
    rw [hPath, List.map_append]
    exact List.mem_append_right _ List.mem_cons_self

variable [DecidableEq β]

/-- The chain of the bucket gets longer by the new link. -/
theorem Laid.leads_push_self (h : Laid c path) (b : β) (a : α) :
    Leads (c.push b a).links ((c.push b a).head b) (path b ++ [(c.links.length, a)]) none := by
  have hNew : Leads (c.push b a).links (some c.links.length) [(c.links.length, a)] none :=
    .link (getElem?_linkAt_new c.links (c.turned b) c.links.length a) (.here _)
  rcases h.turned b with ⟨hNil, hHead, -⟩ | ⟨front, t, v, hPath, hTurned⟩
  · have hStart : (c.push b a).head b = some c.links.length := by
      rw [push, hHead]
      exact Function.update_self _ _ _
    rw [hNil, hStart]
    exact hNew
  · have hStart : (c.push b a).head b = c.head b := by
      cases hHead : c.head b with
      | none =>
          rw [h.head_none hHead] at hPath
          exact absurd hPath.symm (List.append_ne_nil_of_right_ne_nil _ (List.cons_ne_nil _ _))
      | some i => rw [push, hHead, hHead]
    have hLeads := h.leads b
    rw [hPath] at hLeads
    obtain ⟨middle, hFront, hLast⟩ := hLeads.split
    obtain ⟨rfl, hCell⟩ := hLast.one
    have hNodup := h.nodup b
    rw [hPath, List.map_append, List.nodup_append] at hNodup
    -- the links in front of the end are as they were, and the end leads to the new one
    have hFront' : Leads (c.push b a).links (c.head b) front (some t) := by
      refine hFront.congr fun i hi => getElem?_linkAt a ?_ ?_
      · refine h.inside b i ?_
        rw [hPath, List.map_append]
        exact List.mem_append_left _ hi
      · rw [hTurned]
        intro hSame
        exact hNodup.2.2 i hi t List.mem_cons_self (Option.some.inj hSame).symm
    have hEnd : (c.push b a).links[t]? = some ⟨v, some c.links.length⟩ := by
      rw [push, hTurned]
      exact getElem?_linkAt_self a hCell
    rw [hStart, hPath]
    exact (hFront'.append (.link hEnd (.here _))).append hNew

theorem Laid.leads_push_ne (h : Laid c path) {b b' : β} (hNe : b' ≠ b) (a : α) :
    Leads (c.push b a).links ((c.push b a).head b') (path b') none := by
  have hStart : (c.push b a).head b' = c.head b' := by
    cases hHead : c.head b with
    | none =>
        rw [push, hHead]
        exact Function.update_of_ne hNe _ _
    | some i => rw [push, hHead]
  rw [hStart]
  refine (h.leads b').congr fun i hi => getElem?_linkAt a (h.inside b' i hi) fun hTurned => ?_
  exact hNe (h.apart b' b i hi (h.turned_mem hTurned))

theorem length_push (c : Chains β α) (b : β) (a : α) :
    (c.push b a).links.length = c.links.length + 1 := by
  rw [push, List.length_append, length_linkAt]
  rfl

/-- A value that is added is the last one of its bucket. -/
theorem Laid.push (h : Laid c path) (b : β) (a : α) :
    Laid (c.push b a) (Function.update path b (path b ++ [(c.links.length, a)])) := by
  have hOld : ∀ b', ∀ i ∈ ((Function.update path b (path b ++ [(c.links.length, a)])) b').map
      Prod.fst, i ∈ (path b').map Prod.fst ∨ b' = b ∧ i = c.links.length := by
    intro b' i hi
    by_cases hSame : b' = b
    · subst hSame
      rw [Function.update_self, List.map_append, List.mem_append] at hi
      exact hi.imp id fun hNew => ⟨rfl, List.mem_singleton.mp hNew⟩
    · rw [Function.update_of_ne hSame] at hi
      exact .inl hi
  have hBelow : ∀ b', ∀ i ∈ (path b').map Prod.fst, i ≠ c.links.length :=
    fun b' i hi => Nat.ne_of_lt (h.inside b' i hi)
  constructor
  case leads =>
    intro b'
    by_cases hSame : b' = b
    · subst hSame
      rw [Function.update_self]
      exact h.leads_push_self b' a
    · rw [Function.update_of_ne hSame]
      exact h.leads_push_ne hSame a
  case last =>
    intro b' t ht
    by_cases hSame : b' = b
    · subst hSame
      rw [Function.update_self, List.getLast?_concat] at ht
      cases ht
      exact Function.update_self _ _ _
    · rw [Function.update_of_ne hSame] at ht
      exact (Function.update_of_ne hSame _ _).trans (h.last b' t ht)
  case apart =>
    intro b₁ b₂ i h₁ h₂
    rcases hOld b₁ i h₁ with h₁ | ⟨rfl, hNew₁⟩
    · rcases hOld b₂ i h₂ with h₂ | ⟨-, hNew₂⟩
      · exact h.apart b₁ b₂ i h₁ h₂
      · exact absurd hNew₂ (hBelow b₁ i h₁)
    · rcases hOld b₂ i h₂ with h₂ | ⟨rfl, -⟩
      · exact absurd hNew₁ (hBelow b₂ i h₂)
      · rfl
  case nodup =>
    intro b'
    by_cases hSame : b' = b
    · subst hSame
      rw [Function.update_self, List.map_append, List.nodup_append]
      refine ⟨h.nodup b', List.pairwise_singleton _ _, fun i hi j hj => ?_⟩
      rw [List.mem_singleton.mp hj]
      exact hBelow b' i hi
    · rw [Function.update_of_ne hSame]
      exact h.nodup b'
  case inside =>
    intro b' i hi
    rw [length_push]
    rcases hOld b' i hi with hi | ⟨-, rfl⟩
    · exact Nat.lt_succ_of_lt (h.inside b' i hi)
    · exact Nat.lt_succ_self _
  case short =>
    intro b'
    rw [length_push]
    have hShort := h.short b'
    by_cases hSame : b' = b
    · subst hSame
      rw [Function.update_self, List.length_append]
      exact Nat.succ_le_succ hShort
    · rw [Function.update_of_ne hSame]
      exact Nat.le_succ_of_le hShort

end Laid

/-- The buckets hold the given values, in the order in which they were added. -/
def Holds (c : Chains β α) (values : β → List α) : Prop :=
  ∃ path, Laid c path ∧ ∀ b, values b = (path b).map Prod.snd

variable {c : Chains β α} {values : β → List α}

theorem Holds.walk (h : Holds c values) (b : β) : c.walk b = values b := by
  obtain ⟨path, hLaid, hValues⟩ := h
  rw [hLaid.walk, hValues]

theorem holds_empty : Holds (empty : Chains β α) fun _ => [] :=
  ⟨fun _ => [], laid_empty, fun _ => rfl⟩

theorem Holds.push [DecidableEq β] (h : Holds c values) (b : β) (a : α) :
    Holds (c.push b a) (Function.update values b (values b ++ [a])) := by
  obtain ⟨path, hLaid, hValues⟩ := h
  refine ⟨_, hLaid.push b a, fun b' => ?_⟩
  by_cases hSame : b' = b
  · subst hSame
    rw [Function.update_self, Function.update_self, List.map_append, hValues]
    rfl
  · rw [Function.update_of_ne hSame, Function.update_of_ne hSame]
    exact hValues b'

end Chains

end RecompStudio.LinkArray
