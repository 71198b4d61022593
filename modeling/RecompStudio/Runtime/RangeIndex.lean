import RecompStudio.Library.LinkArray
import RecompStudio.Runtime.OverlaySafety

/-!
The page index of the code ranges, through which the owner of an address is
found. A walk over the links of a page comes by the candidates with code on it in
the order of their registration, so that the index only leaves out candidates
without the address, until it has no room for another link.
-/

namespace RecompStudio.Runtime

open LinkArray

/-- `RANGE_PAGE_COUNT`. -/
def rangePageCount : Nat := 512

/-- `RANGE_LINK_CAP`. -/
def rangeLinkCap : Nat := candCap * 8

structure RangeIndex where
  chains : Chains Nat Nat
  overflow : Bool

namespace RangeIndex

variable (x : RangeIndex)

/-- The index after `overlay_loader_init`. -/
def init : RangeIndex := ⟨Chains.empty, false⟩

/-- The pages of the links of a range. -/
def pages (r : CodeRange) : List Nat :=
  let first := pageOf r.lo
  let last := pageOf (r.lo + r.len - 1)
  if rangePageCount ≤ first then []
  else
    let last := if rangePageCount ≤ last then rangePageCount - 1 else last
    List.range' first (last + 1 - first)

/-- The loop over the pages of all ranges of a candidate, with room for `cap`
links. -/
def addPages (cap ci : Nat) : List Nat → (Nat → Bool) → RangeIndex → RangeIndex
  | [], _, x => x
  | p :: rest, seen, x =>
      if seen p then addPages cap ci rest seen x
      else if cap ≤ x.chains.links.length then { x with overflow := true }
      else addPages cap ci rest (setBit seen p) { x with chains := x.chains.push p ci }

def addLinks (cap ci : Nat) (ranges : List CodeRange) : RangeIndex :=
  addPages cap ci (ranges.flatMap pages) (fun _ => false) x

/-- `range_index_add_candidate`. -/
def addCandidate (ci : Nat) (ranges : List CodeRange) : RangeIndex :=
  x.addLinks rangeLinkCap ci ranges

end RangeIndex

/-- The loader with the page index of its candidates. -/
structure RangeLoader where
  loader : Loader
  index : RangeIndex

namespace Loader

variable (s : Loader)

/-- A scan over some of the candidates, whose answer the cache of hot addresses
remembers. -/
def scanOwners (phys : Nat) (indices : List Nat) : Loader × Option Nat :=
  match scanRanges phys indices s with
  | (s, none) => (s, none)
  | (s, some i) =>
      ({ s with pcCache := fun slot =>
          if slot = pcSlot phys then some (phys, i) else s.pcCache slot }, some i)

/-- The check of an entry of the chain. -/
def checkEntry (i : Nat) : Loader :=
  match s.cands[i]? with
  | none => s
  | some c => if c.state = .blacklist then s else s.setCand i (c.validate s.mem).1

end Loader

namespace RangeLoader

variable (s : RangeLoader)

/-- `cand_register`. -/
def candRegister (f : DllFunction) : RangeLoader :=
  if candCap ≤ s.loader.cands.length then s
  else ⟨s.loader.candRegister f, s.index.addCandidate s.loader.cands.length (f.ranges.take 16)⟩

/-- `register_sljit_candidate`. -/
def registerSljit (shard : SljitShard) : RangeLoader :=
  if candCap ≤ s.loader.cands.length then s
  else ⟨s.loader.registerSljit shard, s.index.addCandidate s.loader.cands.length [shard.range]⟩

/-- The candidates that a lookup which misses the cache tries one after the
other: those of the page, or all of them once the index is only partial. -/
def tried (phys : Nat) : List Nat :=
  if s.index.overflow then List.range s.loader.cands.length
  else s.index.chains.walk (pageOf phys)

/-- `overlay_find_by_range`. -/
def findByRange (phys : Nat) : RangeLoader × Option Nat :=
  if rangePageCount ≤ pageOf phys then (s, none)
  else
    let found := Loader.orElse (s.loader.cachedOwner phys) fun t => t.scanOwners phys (s.tried phys)
    (⟨found.1, s.index⟩, found.2)

end RangeLoader

/-- Writing an element back leaves a list. -/
theorem set_of_getElem? {α : Type} {l : List α} {i : Nat} {a : α} (h : l[i]? = some a) :
    l.set i a = l := by
  obtain ⟨hi, rfl⟩ := List.getElem?_eq_some_iff.mp h
  exact List.set_getElem_self hi

namespace RangeIndex

variable {x : RangeIndex} {values : Nat → List Nat}

theorem mem_pages {r : CodeRange} {p : Nat} : p ∈ pages r ↔ r.OnPage p := by
  have hPos := r.pos
  have hInside := r.inside
  have hFirst : pageOf r.lo < rangePageCount := by
    rw [pageOf, rangePageCount]
    rw [ramSize] at hInside
    omega
  have hLast : pageOf (r.lo + r.len - 1) < rangePageCount := by
    rw [pageOf, rangePageCount]
    rw [ramSize] at hInside
    omega
  unfold pages
  dsimp only
  rw [if_neg (Nat.not_le_of_lt hFirst), if_neg (Nat.not_le_of_lt hLast), List.mem_range'_1,
    CodeRange.OnPage]
  constructor
  · rintro ⟨hLo, hHi⟩
    exact ⟨hLo, by omega⟩
  · rintro ⟨hLo, hHi⟩
    exact ⟨hLo, by omega⟩

/-- The buckets with a candidate behind those of its pages. -/
@[grind =] def appended (values : Nat → List Nat) (ci : Nat) (new : Nat → Bool) : Nat → List Nat :=
  fun p => if new p then values p ++ [ci] else values p

/-- Either the index has no room, or every page that was not seen has got the
candidate behind its others. -/
theorem holds_addPages (cap ci : Nat) (pages : List Nat) {seen : Nat → Bool}
    (h : x.chains.Holds values) :
    (addPages cap ci pages seen x).overflow = true ∧
        (∃ values', (addPages cap ci pages seen x).chains.Holds values') ∨
      (addPages cap ci pages seen x).overflow = x.overflow ∧
        (addPages cap ci pages seen x).chains.Holds
          (appended values ci fun p => decide (p ∈ pages) && !seen p) := by
  induction pages generalizing x values seen with
  | nil =>
      refine .inr ⟨rfl, ?_⟩
      have hSame : (appended values ci fun p => decide (p ∈ []) && !seen p) = values := by
        funext p
        simp [appended]
      rw [hSame]
      exact h
  | cons q rest ih =>
      rw [addPages]
      split
      next hSeen =>
        have hNew : (fun p => decide (p ∈ q :: rest) && !seen p) =
            fun p => decide (p ∈ rest) && !seen p := by
          funext p
          by_cases hp : p = q
          · subst hp
            simp [hSeen]
          · simp [hp]
        rw [hNew]
        exact ih h
      split
      next => exact .inl ⟨rfl, values, h⟩
      next hSeen _ =>
        have hValues : appended (Function.update values q (values q ++ [ci])) ci
            (fun p => decide (p ∈ rest) && !setBit seen q p) =
              appended values ci fun p => decide (p ∈ q :: rest) && !seen p := by
          funext p
          by_cases hp : p = q
          · subst hp
            simp [appended, setBit, hSeen]
          · simp [appended, setBit, hp]
        rcases @ih { x with chains := x.chains.push q ci } _ (setBit seen q)
          (h.push q ci) with hFull | ⟨hSame, hHolds⟩
        · exact .inl hFull
        · rw [hValues] at hHolds
          exact .inr ⟨hSame, hHolds⟩

/-- Some range of the candidate lies on the page. -/
def onPage (ranges : List CodeRange) (p : Nat) : Bool := ranges.any fun r => decide (p ∈ pages r)

theorem onPage_eq (ranges : List CodeRange) (p : Nat) :
    onPage ranges p = decide (p ∈ ranges.flatMap pages) := by
  rw [Bool.eq_iff_iff, decide_eq_true_iff, List.mem_flatMap, onPage, List.any_eq_true]
  simp only [decide_eq_true_iff]

/-- The candidates with code on a page, in the order of their registration. -/
def onPages (all : List (List CodeRange)) (p : Nat) : List Nat :=
  (List.range all.length).filter fun i => (all[i]?).any fun ranges => onPage ranges p

/-- The index lists the candidates with the given ranges, unless it is partial. -/
def Lists (x : RangeIndex) (all : List (List CodeRange)) : Prop :=
  ∃ values, x.chains.Holds values ∧ (x.overflow = false → values = onPages all)

theorem lists_init : init.Lists [] :=
  ⟨fun _ => [], Chains.holds_empty, fun _ => rfl⟩

theorem onPages_concat (all : List (List CodeRange)) (ranges : List CodeRange) :
    onPages (all ++ [ranges]) = appended (onPages all) all.length (onPage ranges) := by
  funext p
  have hOld : (List.range all.length).filter
      (fun i => ((all ++ [ranges])[i]?).any fun ranges => onPage ranges p) = onPages all p := by
    refine List.filter_congr fun i hi => ?_
    rw [List.getElem?_append_left (List.mem_range.mp hi)]
  have hNew : (all ++ [ranges])[all.length]? = some ranges := by
    rw [List.getElem?_append_right (Nat.le_refl _), Nat.sub_self]
    rfl
  rw [onPages, List.length_append, List.length_singleton, List.range_succ, List.filter_append,
    hOld, appended, List.filter_singleton, hNew]
  cases hPage : onPage ranges p <;> simp [hPage]

theorem Lists.addLinks {all : List (List CodeRange)} (h : x.Lists all) (cap : Nat)
    (ranges : List CodeRange) : (x.addLinks cap all.length ranges).Lists (all ++ [ranges]) := by
  obtain ⟨values, hHolds, hValues⟩ := h
  rcases @holds_addPages _ _ cap all.length (ranges.flatMap pages) (fun _ => false) hHolds with
    ⟨hFull, values', hHolds'⟩ | ⟨hSame, hHolds'⟩
  · exact ⟨values', hHolds', fun hRoom => absurd (hFull.symm.trans hRoom) (by decide)⟩
  · refine ⟨_, hHolds', fun hRoom => ?_⟩
    rw [RangeIndex.addLinks, hSame] at hRoom
    rw [onPages_concat, hValues hRoom]
    congr 1
    funext p
    rw [onPage_eq, Bool.not_false, Bool.and_true]

end RangeIndex

end RecompStudio.Runtime
