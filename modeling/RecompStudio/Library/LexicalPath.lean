import Mathlib.Data.List.Basic
import Mathlib.Tactic.Common

/-!
Paths as text, without a file system: the normal form that resolves `.`, `..` and
repeated separators, and where a path leads from a place.
-/

namespace RecompStudio.LexicalPath

abbrev Name := List Char

def dot : Name := ['.']
def dotdot : Name := ['.', '.']

/-- A name that leads one level down. -/
structure Proper (name : Name) : Prop where
  ne_nil : name ≠ []
  ne_dot : name ≠ dot
  ne_dotdot : name ≠ dotdot
  noSlash : '/' ∉ name

@[grind =] def components (path : List Char) : List Name := path.splitOn '/'

@[grind =] def joined (names : List Name) : List Char := ['/'].intercalate names

theorem mem_components {path : List Char} {name : Name} (hMem : name ∈ components path) :
    '/' ∉ name := by
  induction path generalizing name with
  | nil =>
      obtain rfl := List.mem_singleton.mp hMem
      exact List.not_mem_nil
  | cons x path ih =>
      obtain ⟨first, rest, hRest⟩ := List.exists_cons_of_ne_nil (List.splitOn_ne_nil '/' path)
      rw [components, hRest] at ih
      rw [components, List.splitOn_cons_eq_if_modifyHead, hRest] at hMem
      by_cases hSlash : (x == '/') = true
      · rw [if_pos hSlash] at hMem
        rcases List.mem_cons.mp hMem with rfl | hMem
        · exact List.not_mem_nil
        · exact ih hMem
      · rw [if_neg hSlash, List.modifyHead_cons] at hMem
        rcases List.mem_cons.mp hMem with rfl | hMem
        · rw [beq_iff_eq] at hSlash
          exact List.not_mem_cons_of_ne_of_not_mem (Ne.symm hSlash) (ih List.mem_cons_self)
        · exact ih (List.mem_cons_of_mem _ hMem)

/-- A step up, on the names that are kept so far, the last one first. -/
def climb (rooted : Bool) : List Name → List Name
  | [] => if rooted then [] else [dotdot]
  | last :: rest => if last = dotdot then dotdot :: last :: rest else rest

@[grind =] def push (rooted : Bool) (kept : List Name) (name : Name) : List Name :=
  if name = [] ∨ name = dot then kept
  else if name = dotdot then climb rooted kept
  else name :: kept

def normal (rooted : Bool) (names : List Name) : List Name :=
  (names.foldl (push rooted) []).reverse

def clean (path : List Char) : List Char :=
  let names := normal (path.head? = some '/') (components path)
  if path.head? = some '/' then '/' :: joined names
  else if path = [] then []
  else if names = [] then dot
  else joined names

/-- Names that lead down, below so many steps up. A root has nothing above it. -/
def Kept (rooted : Bool) (kept : List Name) : Prop :=
  ∃ names climbs, kept = names ++ List.replicate climbs dotdot ∧ (∀ name ∈ names, Proper name) ∧
    (rooted = true → climbs = 0)

theorem climb_dotdot (rooted : Bool) (rest : List Name) :
    climb rooted (dotdot :: rest) = dotdot :: dotdot :: rest := by
  rw [climb, if_pos rfl]

theorem kept_climb {rooted : Bool} {kept : List Name} (h : Kept rooted kept) :
    Kept rooted (climb rooted kept) := by
  obtain ⟨names, climbs, rfl, hProper, hRoot⟩ := h
  cases names with
  | nil =>
      cases climbs with
      | zero =>
          cases rooted with
          | true => exact ⟨[], 0, rfl, hProper, fun _ => rfl⟩
          | false => exact ⟨[], 1, rfl, hProper, nofun⟩
      | succ climbs =>
          refine ⟨[], climbs + 2, ?_, hProper, fun h => absurd (hRoot h) (by omega)⟩
          exact climb_dotdot rooted _
  | cons last names =>
      refine ⟨names, climbs, ?_, fun x hx => hProper x (List.mem_cons_of_mem _ hx), hRoot⟩
      exact if_neg (hProper last List.mem_cons_self).ne_dotdot

theorem kept_push {rooted : Bool} {kept : List Name} (h : Kept rooted kept) {name : Name}
    (hSlash : '/' ∉ name) : Kept rooted (push rooted kept name) := by
  rw [push]
  by_cases hSkip : name = [] ∨ name = dot
  · rw [if_pos hSkip]
    exact h
  rw [if_neg hSkip]
  by_cases hUp : name = dotdot
  · rw [if_pos hUp]
    exact kept_climb h
  · rw [if_neg hUp]
    obtain ⟨names, climbs, rfl, hProper, hRoot⟩ := h
    refine ⟨name :: names, climbs, rfl, fun x hx => ?_, hRoot⟩
    rcases List.mem_cons.mp hx with rfl | hx
    · exact ⟨fun h => hSkip (Or.inl h), fun h => hSkip (Or.inr h), hUp, hSlash⟩
    · exact hProper x hx

theorem kept_foldl {rooted : Bool} {names kept : List Name} (hNames : ∀ x ∈ names, '/' ∉ x)
    (h : Kept rooted kept) : Kept rooted (names.foldl (push rooted) kept) := by
  induction names generalizing kept with
  | nil => exact h
  | cons name names ih =>
      exact ih (fun x hx => hNames x (List.mem_cons_of_mem _ hx))
        (kept_push h (hNames name List.mem_cons_self))

/-- A normal form goes up first and then only down. -/
theorem normal_spec (rooted : Bool) (path : List Char) :
    ∃ climbs names, normal rooted (components path) = List.replicate climbs dotdot ++ names ∧
      (∀ name ∈ names, Proper name) ∧ (rooted = true → climbs = 0) := by
  have hEmpty : Kept rooted [] := ⟨[], 0, rfl, nofun, fun _ => rfl⟩
  obtain ⟨names, climbs, hEq, hProper, hRoot⟩ :=
    kept_foldl (fun x => @mem_components path x) hEmpty
  refine ⟨climbs, names.reverse, ?_, fun x hx => hProper x (List.mem_reverse.mp hx), hRoot⟩
  rw [normal, hEq, List.reverse_append, List.reverse_replicate]

/-- One component, from a place that is given by its names from the root. -/
@[grind =] def enter (place : List Name) (name : Name) : List Name :=
  if name = [] ∨ name = dot then place
  else if name = dotdot then place.dropLast
  else place ++ [name]

@[grind =] def follow (place : List Name) (path : List Char) : List Name :=
  (components path).foldl enter place

theorem foldl_enter {names : List Name} (hProper : ∀ name ∈ names, Proper name)
    (place : List Name) : names.foldl enter place = place ++ names := by
  induction names generalizing place with
  | nil => exact (List.append_nil place).symm
  | cons name names ih =>
      have hName := hProper name List.mem_cons_self
      have hEnter : enter place name = place ++ [name] := by
        rw [enter, if_neg (not_or.mpr ⟨hName.ne_nil, hName.ne_dot⟩), if_neg hName.ne_dotdot]
      rw [List.foldl_cons, hEnter, ih fun x hx => hProper x (List.mem_cons_of_mem _ hx),
        List.append_assoc, List.singleton_append]

theorem follow_joined {names : List Name} (hProper : ∀ name ∈ names, Proper name)
    (place : List Name) : follow place (joined names) = place ++ names := by
  rcases List.eq_nil_or_concat names with rfl | ⟨front, last, rfl⟩
  · exact (List.append_nil place).symm
  · rw [follow, components, joined, List.splitOn_intercalate '/'
      (fun x hx => (hProper x hx).noSlash) (by simp)]
    exact foldl_enter hProper place

theorem follow_slash (place : List Name) (path more : List Char) :
    follow place (path ++ '/' :: more) = follow (follow place path) more := by
  rw [follow, components, List.splitOn_append_cons_self, List.foldl_append]
  rfl

theorem proper_enter {place : List Name} (hPlace : ∀ x ∈ place, Proper x) {name : Name}
    (hSlash : '/' ∉ name) : ∀ x ∈ enter place name, Proper x := by
  intro x hx
  rw [enter] at hx
  by_cases hSkip : name = [] ∨ name = dot
  · rw [if_pos hSkip] at hx
    exact hPlace x hx
  by_cases hUp : name = dotdot
  · rw [if_neg hSkip, if_pos hUp] at hx
    exact hPlace x (List.dropLast_subset place hx)
  · rw [if_neg hSkip, if_neg hUp] at hx
    rcases List.mem_append.mp hx with hx | hx
    · exact hPlace x hx
    · obtain rfl := List.mem_singleton.mp hx
      exact ⟨fun h => hSkip (Or.inl h), fun h => hSkip (Or.inr h), hUp, hSlash⟩

theorem proper_follow {place : List Name} (hPlace : ∀ x ∈ place, Proper x) (path : List Char) :
    ∀ x ∈ follow place path, Proper x := by
  have hNames (x : Name) := @mem_components path x
  rw [follow]
  generalize components path = names at hNames
  induction names generalizing place with
  | nil => exact hPlace
  | cons name names ih =>
      exact ih (proper_enter hPlace (hNames name List.mem_cons_self))
        fun x hx => hNames x (List.mem_cons_of_mem _ hx)

/-- A normal form that is no parent reference and has no root stays below its place. -/
theorem follow_clean {path : List Char} (hRoot : (clean path).head? ≠ some '/')
    (hParent : clean path ≠ dotdot) (hClimb : ¬ dotdot ++ ['/'] <+: clean path)
    (place : List Name) : ∃ names, follow place (clean path) = place ++ names := by
  by_cases hAbsolute : path.head? = some '/'
  · rw [clean] at hRoot
    simp only [hAbsolute, if_true] at hRoot
    exact absurd (List.head?_cons) hRoot
  by_cases hNil : path = []
  · subst hNil
    exact ⟨[], (List.append_nil place).symm⟩
  obtain ⟨climbs, names, hEq, hProper, -⟩ := normal_spec false path
  have hClean : clean path = if List.replicate climbs dotdot ++ names = [] then dot
      else joined (List.replicate climbs dotdot ++ names) := by
    rw [← hEq, clean]
    simp only [hAbsolute, decide_false, hNil, if_false]
  by_cases hNone : List.replicate climbs dotdot ++ names = []
  · rw [if_pos hNone] at hClean
    rw [hClean]
    exact ⟨[], (List.append_nil place).symm⟩
  rw [if_neg hNone] at hClean
  cases climbs with
  | zero =>
      rw [List.replicate_zero, List.nil_append] at hClean
      exact ⟨names, hClean ▸ follow_joined hProper place⟩
  | succ climbs =>
      -- The first step up is the whole path, or a separator follows it.
      rw [List.replicate_succ, List.cons_append, joined] at hClean
      cases hRest : List.replicate climbs dotdot ++ names with
      | nil =>
          rw [hRest, List.intercalate_singleton] at hClean
          exact absurd hClean hParent
      | cons next rest =>
          rw [hRest, List.intercalate_cons_cons] at hClean
          exact absurd ⟨_, by rw [hClean]⟩ hClimb

end RecompStudio.LexicalPath
