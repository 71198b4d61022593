import RecompStudio.Runtime.LazyManifest

/-!
Whether a cached DLL is found once its code is in memory: the verdict on a
manifest entry is right while every store into the code of a checked entry falls
on a watched page, and then the search comes up with an entry of the address
whenever there is one with its bytes in memory.
-/

namespace RecompStudio.Runtime

open LinkArray Machine

namespace LazyMan

/-- A cached verdict tells whether the bytes match while the generations stay. -/
structure Faithful (m : Memory) (lm : LazyMan) : Prop where
  hash : lm.state = .valid → candGensum m lm.ranges = lm.valGen → candCrc m.ram lm.ranges = lm.crc
  miss : lm.state = .invalid → candGensum m lm.ranges = lm.valGen →
    candCrc m.ram lm.ranges ≠ lm.crc
  le : lm.state ≠ .unknown → lm.valGen ≤ candGensum m lm.ranges

/-- The sum of generations has not come round since the check. -/
def Near (m : Memory) (lm : LazyMan) : Prop :=
  lm.state ≠ .unknown → candGensum m lm.ranges < lm.valGen + 2 ^ 32

instance (m : Memory) (lm : LazyMan) : Decidable (lm.Near m) := inferInstanceAs (Decidable (_ → _))

/-- A store into the code of a checked entry begins on a watched page of it. -/
def Noted (m : Memory) (lm : LazyMan) (st : GuestStore) : Prop :=
  lm.state ≠ .unknown → (∃ r ∈ lm.ranges, r.Touched st.phys st.width.bytes) →
    m.watched (pageOf st.phys) = true ∧ ∃ r ∈ lm.ranges, r.OnPage (pageOf st.phys)

structure Judged (m : Memory) (lm : LazyMan) : Prop extends Faithful m lm where
  near : lm.Near m

/-- What a check leaves of an entry. -/
@[grind =] def code (lm : LazyMan) : Nat × List CodeRange × Word := (lm.entry, lm.ranges, lm.crc)

variable {m m' : Memory} {lm : LazyMan}

theorem Faithful.of_same (h : Faithful m lm) (hRam : m'.ram = m.ram)
    (hGens : m'.pageGen = m.pageGen) : Faithful m' lm := by
  have hSum := candGensum_congr hGens lm.ranges
  refine ⟨fun hState hGen => ?_, fun hState hGen => ?_, fun hState => ?_⟩
  · rw [hRam]
    exact h.hash hState (hSum.symm.trans hGen)
  · rw [hRam]
    exact h.miss hState (hSum.symm.trans hGen)
  · rw [hSum]
    exact h.le hState

theorem Faithful.write {T : KernelBodies} (h : Faithful m lm) {st : GuestStore}
    (hNoted : Noted m lm st) : Faithful (m.write T st.phys st.width.bytes st.val) lm := by
  have hGens : ∀ p, m.pageGen p ≤ (m.write T st.phys st.width.bytes st.val).pageGen p := by
    intro p
    rw [write_pageGen]
    split <;> omega
  have hGrown := candGensum_le hGens lm.ranges
  by_cases hTouched : ∃ r ∈ lm.ranges, r.Touched st.phys st.width.bytes
  · -- the store has moved the sum past the one of the check
    have hMoved : lm.state ≠ .unknown →
        lm.valGen < candGensum (m.write T st.phys st.width.bytes st.val) lm.ranges := by
      intro hState
      obtain ⟨hWatched, r, hr, hPage⟩ := hNoted hState hTouched
      have hLess := candGensum_lt hGens hr hPage.1 hPage.2 (by
        rw [write_pageGen, if_pos ⟨rfl, hWatched⟩]
        exact Nat.lt_succ_self _)
      exact Nat.lt_of_le_of_lt (h.le hState) hLess
    refine ⟨fun hState hGen => ?_, fun hState hGen => ?_, fun hState => ?_⟩
    · have hLess := hMoved (by rw [hState]; decide)
      omega
    · have hLess := hMoved (by rw [hState]; decide)
      omega
    · exact Nat.le_of_lt (hMoved hState)
  · have hMiss : ∀ r ∈ lm.ranges, ¬r.Touched st.phys st.width.bytes :=
      fun r hr hHit => hTouched ⟨r, hr, hHit⟩
    refine ⟨fun hState hGen => ?_, fun hState hGen => ?_, fun hState => ?_⟩
    · have hLe := h.le (by rw [hState]; decide)
      rw [candCrc_write st.val hMiss]
      exact h.hash hState (by omega)
    · have hLe := h.le (by rw [hState]; decide)
      rw [candCrc_write st.val hMiss]
      exact h.miss hState (by omega)
    · exact (h.le hState).trans hGrown

theorem Judged.current_iff (h : Judged m lm) (hState : lm.state ≠ .unknown) :
    lm.Current m ↔ candGensum m lm.ranges = lm.valGen := by
  have hLe := h.le hState
  have hNear := h.near hState
  rw [Current]
  omega

theorem Judged.rehash {state : LazyState}
    (hValid : state = .valid → candCrc m.ram lm.ranges = lm.crc)
    (hInvalid : state = .invalid → candCrc m.ram lm.ranges ≠ lm.crc) :
    Judged m { lm with valGen := candGensum m lm.ranges, state := state } where
  hash hState _ := hValid hState
  miss hState _ := hInvalid hState
  le _ := Nat.le_refl _
  near _ := Nat.lt_add_of_pos_right (by decide)

/-- A check says whether the live bytes match. -/
structure Verdict (m : Memory) (lm : LazyMan) (after : LazyMan × Bool) : Prop where
  judged : Judged m after.1
  code : after.1.code = lm.code
  answer : after.2 = decide (candCrc m.ram lm.ranges = lm.crc)

theorem Judged.lazyManMatches (h : Judged m lm) : Verdict m lm (lm.lazyManMatches m) := by
  unfold LazyMan.lazyManMatches
  split
  next hFast =>
    have hSame := (h.current_iff (by rw [hFast.1]; decide)).mp hFast.2
    exact ⟨h, rfl, (decide_eq_true (h.hash hFast.1 hSame)).symm⟩
  split
  next hFast =>
    have hSame := (h.current_iff (by rw [hFast.1]; decide)).mp hFast.2
    exact ⟨h, rfl, (decide_eq_false (h.miss hFast.1 hSame)).symm⟩
  split
  next hMatch =>
    refine ⟨Judged.rehash (fun _ => hMatch) fun hState => ?_, rfl, (decide_eq_true hMatch).symm⟩
    cases hState
  next hMiss =>
    refine ⟨Judged.rehash (fun hState => ?_) fun _ => hMiss, rfl, (decide_eq_false hMiss).symm⟩
    cases hState

end LazyMan

/-- What a check leaves of an entry of the index. -/
@[grind =] def IndexedMan.place (lm : IndexedMan) : Nat × Nat × List CodeRange × Word :=
  (lm.cacheIdx, lm.toLazyMan.code)

namespace LazyLoader

/-- The verdicts on all entries are right. -/
def AllJudged (s : LazyLoader) : Prop := ∀ lm ∈ s.index.mans, lm.Judged s.loader.mem

/-- The entry is eligible, and its bytes are in memory. -/
@[grind =] def available (s : LazyLoader) (regionStart phys li : Nat) : Bool :=
  (s.index.mans[li]?).any fun lm =>
    s.eligible lm regionStart phys && decide (candCrc s.loader.mem.ram lm.ranges = lm.crc)

/-- A part of the search leaves everything but the verdicts, and these right. -/
structure Searched (s s' : LazyLoader) : Prop where
  loader : s'.loader = s.loader
  cache : s'.index.cache = s.index.cache
  links : s'.index.links = s.index.links
  loaded : s'.loaded = s.loaded
  code : s'.index.mans.map IndexedMan.place = s.index.mans.map IndexedMan.place
  judged : s'.AllJudged

variable {s s' s'' : LazyLoader}

theorem Searched.refl (h : s.AllJudged) : Searched s s := ⟨rfl, rfl, rfl, rfl, rfl, h⟩

theorem Searched.trans (h : Searched s s') (h' : Searched s' s'') : Searched s s'' :=
  ⟨h'.loader.trans h.loader, h'.cache.trans h.cache, h'.links.trans h.links,
    h'.loaded.trans h.loaded, h'.code.trans h.code, h'.judged⟩

/-- An entry of the one index, and the one at its place in the other. -/
theorem Searched.man (h : Searched s s') (li : Nat) :
    (s'.index.mans[li]?).map IndexedMan.place = (s.index.mans[li]?).map IndexedMan.place := by
  rw [← List.getElem?_map, ← List.getElem?_map, h.code]

theorem Searched.any (h : Searched s s') {p p' : IndexedMan → Bool} (li : Nat)
    (hSame : ∀ lm lm', lm'.place = lm.place → p' lm' = p lm) :
    (s'.index.mans[li]?).any p' = (s.index.mans[li]?).any p := by
  have hMan := h.man li
  cases hNew : s'.index.mans[li]? with
  | none =>
      cases hOld : s.index.mans[li]? with
      | none => rfl
      | some lm =>
          rw [hNew, hOld] at hMan
          cases hMan
  | some lm' =>
      cases hOld : s.index.mans[li]? with
      | none =>
          rw [hNew, hOld] at hMan
          cases hMan
      | some lm =>
          rw [hNew, hOld] at hMan
          exact hSame lm lm' (Option.some.inj hMan)

theorem Searched.eligible (h : Searched s s') {lm lm' : IndexedMan} (hCode : lm'.place = lm.place)
    (regionStart phys : Nat) :
    s'.eligible lm' regionStart phys = s.eligible lm regionStart phys := by
  simp only [IndexedMan.place, LazyMan.code, Prod.mk.injEq] at hCode
  unfold LazyLoader.eligible LazyMan.contains
  rw [h.cache, h.loaded, hCode.1, hCode.2.1, hCode.2.2.1]

theorem Searched.available (h : Searched s s') : s'.available = s.available := by
  funext regionStart phys li
  refine h.any li fun lm lm' hCode => ?_
  rw [h.eligible hCode, h.loader]
  simp only [IndexedMan.place, LazyMan.code, Prod.mk.injEq] at hCode
  rw [hCode.2.2.1, hCode.2.2.2]

/-- The check of an entry says whether its bytes are in memory. -/
theorem manMatches_searched (h : s.AllJudged) (li : Nat) : Searched s (s.manMatches li).1 ∧
    (s.manMatches li).2 = (s.index.mans[li]?).any fun lm =>
      decide (candCrc s.loader.mem.ram lm.ranges = lm.crc) := by
  unfold LazyLoader.manMatches
  split
  next hNone =>
    rw [hNone]
    exact ⟨.refl h, rfl⟩
  next lm hMan =>
    have hVerdict := (h lm (List.mem_of_getElem? hMan)).lazyManMatches
    rw [hMan, Option.any_some]
    refine ⟨⟨rfl, rfl, rfl, rfl, ?_, fun lm' hMem => ?_⟩, hVerdict.answer⟩
    · have hPlace : IndexedMan.place
          { lm with toLazyMan := (lm.lazyManMatches s.loader.mem).1 } = lm.place :=
        congrArg (lm.cacheIdx, ·) hVerdict.code
      dsimp only
      rw [List.map_set, hPlace]
      refine set_of_getElem? ?_
      rw [List.getElem?_map, hMan]
      rfl
    · rcases List.mem_or_eq_of_mem_set hMem with hOld | rfl
      · exact h lm' hOld
      · exact hVerdict.judged

theorem allMatch_searched (h : s.AllJudged) (indices : List Nat) :
    Searched s (allMatch indices s).1 := by
  induction indices generalizing s with
  | nil => exact .refl h
  | cons li rest ih =>
      have hOne := (manMatches_searched h li).1
      rw [allMatch]
      split
      next t hMatch =>
        rw [hMatch] at hOne
        exact hOne.trans (ih hOne.judged)
      next t hMiss =>
        rw [hMiss] at hOne
        exact hOne

theorem bundleMatches_searched (h : s.AllJudged) (ci : Nat) :
    Searched s (s.bundleMatches ci).1 := by
  unfold LazyLoader.bundleMatches
  split
  · exact .refl h
  split
  · exact .refl h
  have hAll := allMatch_searched h (s.index.bundle ci)
  split
  next t hMatch =>
    rw [hMatch] at hAll
    exact hAll
  next t hMiss =>
    rw [hMiss] at hAll
    exact hAll

theorem isLoadable_searched (h : s.AllJudged) (li regionStart phys : Nat) :
    Searched s (s.isLoadable li regionStart phys).1 ∧
      (s.isLoadable li regionStart phys).2 = s.available regionStart phys li := by
  unfold LazyLoader.isLoadable LazyLoader.available
  split
  next hNone =>
    rw [hNone]
    exact ⟨.refl h, rfl⟩
  next lm hMan =>
    obtain ⟨hSearched, hAnswer⟩ := manMatches_searched h li
    rw [hMan, Option.any_some] at hAnswer
    rw [hMan, Option.any_some]
    split
    next hEligible => exact ⟨hSearched, by rw [hAnswer, hEligible, Bool.true_and]⟩
    next hNot => exact ⟨.refl h, by rw [Bool.eq_false_of_not_eq_true hNot, Bool.false_and]⟩

/-- A loadable entry is taken as the fall-back if there was none. -/
theorem pick_searched (h : s.AllJudged) {li regionStart phys : Nat}
    (hLi : s.available regionStart phys li = true) (picked : Picked) :
    Searched s (s.pick li picked).1 ∧
      (s.pick li picked).2.fallback = picked.fallback.or (some li) := by
  unfold LazyLoader.pick
  split
  next hNone =>
    rw [LazyLoader.available, hNone] at hLi
    cases hLi
  next lm hMan => exact ⟨bundleMatches_searched h lm.cacheIdx, rfl⟩

/-- The fall-back of a loop is the first available entry of it. -/
theorem pickAll_searched (regionStart phys : Nat) (indices : List Nat) (h : s.AllJudged)
    (picked : Picked) :
    Searched s (pickAll regionStart phys indices s picked).1 ∧
      (pickAll regionStart phys indices s picked).2.fallback =
        picked.fallback.or (indices.find? (s.available regionStart phys)) := by
  induction indices generalizing s picked with
  | nil => exact ⟨.refl h, (Option.or_none).symm⟩
  | cons li rest ih =>
      obtain ⟨hLoadable, hAnswer⟩ := isLoadable_searched h li regionStart phys
      rw [pickAll, List.find?_cons, ← hAnswer]
      split
      next t hMatch =>
        rw [hMatch] at hLoadable hAnswer ⊢
        have hLi : t.available regionStart phys li = true := by
          rw [hLoadable.available]
          exact hAnswer.symm
        obtain ⟨hPick, hFallback⟩ := pick_searched hLoadable.judged hLi picked
        obtain ⟨hRest, hFound⟩ := ih hPick.judged (t.pick li picked).2
        refine ⟨(hLoadable.trans hPick).trans hRest, ?_⟩
        rw [hFound, hFallback, Option.or_assoc, Option.some_or]
      next t hMiss =>
        rw [hMiss] at hLoadable ⊢
        obtain ⟨hRest, hFound⟩ := ih hLoadable.judged picked
        rw [hLoadable.available] at hFound
        exact ⟨hLoadable.trans hRest, hFound⟩

theorem Searched.enclosing (h : Searched s s') (phys : Nat) :
    s'.enclosing phys = s.enclosing phys := by
  unfold LazyLoader.enclosing
  rw [h.links]
  split
  · rfl
  refine List.filter_congr fun li _ => ?_
  have hAny := @Searched.any _ _ h (fun lm => decide (lm.entry = phys)) (fun lm =>
    decide (lm.entry = phys)) li fun lm lm' hCode => by
      simp only [IndexedMan.place, LazyMan.code, Prod.mk.injEq] at hCode
      rw [hCode.2.1]
  have hAll : ∀ o : Option IndexedMan, (o.all fun lm => decide (lm.entry ≠ phys)) =
      !(o.any fun lm => decide (lm.entry = phys)) := by
    intro o
    cases o with
    | none => rfl
    | some lm => exact decide_not
  rw [hAll, hAll, hAny]

/-- The search comes up with the first available entry at the address, or else with
the first one that encloses it. -/
theorem select_searched (h : s.AllJudged) (overlayFloor phys : Nat) :
    Searched s (s.select overlayFloor phys).1 ∧
      (s.select overlayFloor phys).2.fallback =
        ((s.index.entries phys).find? (s.available (s.regionStart overlayFloor phys) phys)).or
          ((s.enclosing phys).find? (s.available (s.regionStart overlayFloor phys) phys)) := by
  obtain ⟨hExact, hFound⟩ := pickAll_searched (s.regionStart overlayFloor phys) phys
    (s.index.entries phys) h ⟨none, none⟩
  rw [Option.none_or] at hFound
  unfold LazyLoader.select
  dsimp only
  rw [← hFound]
  split
  next li hSome =>
    rw [hSome]
    exact ⟨hExact, rfl⟩
  next hNone =>
    obtain ⟨hRest, hEnclosing⟩ := pickAll_searched (s.regionStart overlayFloor phys) phys
      ((pickAll (s.regionStart overlayFloor phys) phys (s.index.entries phys) s
        ⟨none, none⟩).1.enclosing phys) hExact.judged
      (pickAll (s.regionStart overlayFloor phys) phys (s.index.entries phys) s ⟨none, none⟩).2
    rw [hExact.available] at hEnclosing
    refine ⟨hExact.trans hRest, ?_⟩
    rw [hEnclosing, hNone, hExact.enclosing]

/-- The index links the entries to their pages. -/
def Listed (x : LazyIndex) : Prop := x.links.Lists (x.mans.map fun lm => lm.ranges)

theorem mem_newest {x : LazyIndex} {p : IndexedMan → Bool} {li : Nat} {lm : IndexedMan}
    (hMan : x.mans[li]? = some lm) (hp : p lm = true) : li ∈ x.newest p := by
  rw [LazyIndex.newest, List.mem_reverse, List.mem_filter, List.mem_range, hMan]
  exact ⟨(List.getElem?_eq_some_iff.mp hMan).1, hp⟩

/-- An entry whose ranges have the address encloses it. -/
theorem mem_enclosing (hListed : Listed s.index) (hRoom : s.index.links.overflow = false)
    {li phys : Nat} {lm : IndexedMan} (hMan : s.index.mans[li]? = some lm)
    (hContains : lm.contains phys = true) (hOther : lm.entry ≠ phys) :
    li ∈ s.enclosing phys := by
  rw [LazyMan.contains, decide_eq_false hOther, Bool.false_or, List.any_eq_true] at hContains
  obtain ⟨r, hr, hIn⟩ := hContains
  obtain ⟨hLo, hHi⟩ := of_decide_eq_true hIn
  have hInside := r.inside
  have hPage : ¬rangePageCount ≤ pageOf phys := by
    rw [rangePageCount, pageOf]
    rw [ramSize] at hInside
    omega
  have hOnPage : r.OnPage (pageOf phys) := by
    have hPos := r.pos
    rw [CodeRange.OnPage, pageOf, pageOf, pageOf]
    omega
  obtain ⟨values, hHolds, hValues⟩ := hListed
  rw [enclosing, if_neg hPage, hHolds.walk, hValues hRoom, List.mem_filter, hMan,
    RangeIndex.onPages, List.mem_filter, List.mem_range, List.length_map, List.getElem?_map, hMan]
  refine ⟨⟨(List.getElem?_eq_some_iff.mp hMan).1, ?_⟩, decide_eq_true hOther⟩
  rw [Option.map_some, Option.any_some, RangeIndex.onPage, List.any_eq_true]
  exact ⟨r, hr, decide_eq_true (RangeIndex.mem_pages.mpr hOnPage)⟩

/-- The search comes up with an entry if and only if there is one that is available. -/
theorem select_isSome (h : s.AllJudged) (hListed : Listed s.index)
    (hRoom : s.index.links.overflow = false) (overlayFloor phys : Nat) :
    (s.select overlayFloor phys).2.fallback.isSome = true ↔
      ∃ li, s.available (s.regionStart overlayFloor phys) phys li = true := by
  rw [(select_searched h overlayFloor phys).2, Option.isSome_or, Bool.or_eq_true,
    List.find?_isSome, List.find?_isSome]
  constructor
  · rintro (⟨li, -, hLi⟩ | ⟨li, -, hLi⟩)
    · exact ⟨li, hLi⟩
    · exact ⟨li, hLi⟩
  · rintro ⟨li, hLi⟩
    have hSome := hLi
    rw [LazyLoader.available, Option.any_eq_true] at hSome
    obtain ⟨lm, hMan, hBoth⟩ := hSome
    have hEligible := (Bool.and_eq_true_iff.mp hBoth).1
    rw [LazyLoader.eligible, Option.any_eq_true] at hEligible
    obtain ⟨e, -, hAll⟩ := hEligible
    have hContains := (Bool.and_eq_true_iff.mp hAll).2
    by_cases hEntry : lm.entry = phys
    · exact .inl ⟨li, mem_newest hMan (decide_eq_true hEntry), hLi⟩
    · exact .inr ⟨li, mem_enclosing hListed hRoom hMan hContains hEntry, hLi⟩

end LazyLoader

namespace LazyIndex

/-- An index that has just been built: nothing is checked yet. -/
structure Fresh (x : LazyIndex) : Prop where
  listed : LazyLoader.Listed x
  unknown : ∀ lm ∈ x.mans, lm.state = .unknown

variable {x : LazyIndex}

theorem Fresh.of_cache (h : x.Fresh) (cache : List CacheEntry) :
    Fresh { x with cache := cache } := ⟨h.listed, h.unknown⟩

theorem Fresh.addMan (h : x.Fresh) (ci : Nat) (f : ManFn) : (x.addMan ci f).Fresh := by
  unfold LazyIndex.addMan
  split
  · exact h
  next crc _ =>
    split
    · exact h
    split
    · obtain ⟨values, hHolds, -⟩ := h.listed
      exact ⟨⟨values, hHolds, fun hRoom => Bool.noConfusion hRoom⟩, h.unknown⟩
    · have hLinks := RangeIndex.Lists.addLinks h.listed lazyRangeLinkCap f.ranges
      rw [List.length_map] at hLinks
      refine ⟨?_, fun lm hMem => ?_⟩
      · unfold LazyLoader.Listed
        dsimp only
        rw [List.map_append]
        exact hLinks
      · rcases List.mem_append.mp hMem with hOld | hNew
        · exact h.unknown lm hOld
        · rw [List.mem_singleton.mp hNew]

theorem Fresh.addMans (h : x.Fresh) (ci : Nat) (man : List ManFn) : (addMans ci man x).Fresh := by
  induction man generalizing x with
  | nil => exact h
  | cons f rest ih =>
      rw [LazyIndex.addMans]
      split
      · exact h.addMan ci f
      · exact ih (h.addMan ci f)

theorem Fresh.addFiles (h : x.Fresh) (ci : Nat) (manifests : List (Option (List ManFn))) :
    (addFiles ci manifests x).Fresh := by
  induction manifests generalizing x ci with
  | nil => exact h
  | cons file rest ih =>
      cases file with
      | none => exact ih h (ci + 1)
      | some man =>
          rw [LazyIndex.addFiles]
          split
          · exact (h.of_cache _).addMans ci man
          · exact ih ((h.of_cache _).addMans ci man) (ci + 1)

theorem rebuild_fresh (cache : List CacheEntry) (manifests : List (Option (List ManFn))) :
    (rebuild cache manifests).Fresh := by
  have hEmpty : Fresh ⟨[], cache, RangeIndex.init⟩ :=
    ⟨RangeIndex.lists_init, fun _ hMem => absurd hMem List.not_mem_nil⟩
  exact hEmpty.addFiles 0 manifests

end LazyIndex

/-- What happens to the manifest entries: stores, registrations of candidates, checks,
lazy loads, new scans of the cache, and the end of a shadow run. -/
inductive LazyEvent where
  | register (f : DllFunction)
  | registerSljit (shard : SljitShard)
  | store (st : GuestStore)
  | check (li : Nat)
  | tryLoad (phys : Nat) (load : Nat → List DllFunction)
  | rescan (cache : List CacheEntry) (manifests : List (Option (List ManFn)))
  | shadowEnd (i passes : Nat) (touch : Bool) (ram : Nat → Byte)

def lazyStep (T : KernelBodies) (overlayFloor : Nat) (s : LazyLoader) : LazyEvent → LazyLoader
  | .register f => { s with loader := s.loader.candRegister f }
  | .registerSljit shard => { s with loader := s.loader.registerSljit shard }
  | .store st => { s with loader := s.loader.store T st }
  | .check li => (s.manMatches li).1
  | .tryLoad phys load => (s.tryLoadRegion overlayFloor phys load).1
  | .rescan cache manifests => { s with index := LazyIndex.rebuild cache manifests }
  | .shadowEnd i passes touch ram => { s with loader := s.loader.shadowEnd i passes touch ram }

namespace LazyLoader

/-- No sum of generations has come round since the last checks. -/
def AllNear (s : LazyLoader) : Prop := ∀ lm ∈ s.index.mans, lm.Near s.loader.mem

instance (s : LazyLoader) : Decidable s.AllNear := inferInstanceAs (Decidable (∀ _ ∈ _, _))

end LazyLoader

/-- What the cached verdicts rest on: a store into the code of a checked entry falls on
a watched page, no sum of generations comes round between two checks, and a shadow
run gives the code of the checked entries back as it was. -/
def LazyOk (s : LazyLoader) : LazyEvent → Prop
  | .register _ => True
  | .registerSljit _ => True
  | .store st => ∀ lm ∈ s.index.mans, lm.Noted s.loader.mem st
  | .check _ => s.AllNear
  | .tryLoad _ _ => s.AllNear
  | .rescan _ _ => True
  | .shadowEnd _ _ _ ram =>
      ∀ lm ∈ s.index.mans, lm.state ≠ .unknown → ∀ r ∈ lm.ranges, ∀ a, r.lo ≤ a →
        a < r.lo + r.len → ram a = s.loader.mem.ram a

/-- What every state of a run keeps. -/
structure LazyKept (s : LazyLoader) : Prop where
  listed : LazyLoader.Listed s.index
  faithful : ∀ lm ∈ s.index.mans, lm.Faithful s.loader.mem

variable {T : KernelBodies} {overlayFloor : Nat} {s start : LazyLoader}

theorem LazyIndex.Fresh.kept (h : s.index.Fresh) : LazyKept s where
  listed := h.listed
  faithful lm hMem := by
    have hState := h.unknown lm hMem
    refine ⟨fun hValid => ?_, fun hInvalid => ?_, fun hKnown => absurd hState hKnown⟩
    · rw [hState] at hValid
      cases hValid
    · rw [hState] at hInvalid
      cases hInvalid

theorem LazyKept.judged (h : LazyKept s) (hNear : s.AllNear) : s.AllJudged :=
  fun lm hMem => ⟨h.faithful lm hMem, hNear lm hMem⟩

theorem LazyKept.searched (h : LazyKept s) {s' : LazyLoader}
    (hSearched : LazyLoader.Searched s s') :
    LazyKept s' where
  listed := by
    have hRanges : (s'.index.mans.map fun lm => lm.ranges) = s.index.mans.map fun lm =>
        lm.ranges := by
      have hParts := congrArg (List.map fun k => k.2.2.1) hSearched.code
      rw [List.map_map, List.map_map] at hParts
      exact hParts
    have hListed := h.listed
    unfold LazyLoader.Listed at hListed ⊢
    rw [hSearched.links, hRanges]
    exact hListed
  faithful lm hMem := (hSearched.judged lm hMem).toFaithful

theorem LazyKept.of_memory (h : LazyKept s) {loader : Loader} {loaded : List String}
    (hRam : loader.mem.ram = s.loader.mem.ram) (hGens : loader.mem.pageGen = s.loader.mem.pageGen) :
    LazyKept ⟨loader, s.index, loaded⟩ where
  listed := h.listed
  faithful lm hMem := (h.faithful lm hMem).of_same hRam hGens

theorem loadAll_memory (functions : List DllFunction) (s : Loader) :
    (functions.foldl Loader.candRegister s).mem.ram = s.mem.ram ∧
      (functions.foldl Loader.candRegister s).mem.pageGen = s.mem.pageGen := by
  induction functions generalizing s with
  | nil => exact ⟨rfl, rfl⟩
  | cons f rest ih =>
      obtain ⟨hRam, hGens⟩ := ih (s.candRegister f)
      obtain ⟨hOneRam, hOneGens⟩ := candRegister_memory s f
      exact ⟨hRam.trans hOneRam, hGens.trans hOneGens⟩

theorem LazyKept.loadSelected (h : LazyKept s) (load : Nat → List DllFunction) (li : Nat) :
    LazyKept (s.loadSelected load li).1 := by
  unfold LazyLoader.loadSelected
  split
  · exact h
  next ci e _ =>
    split
    · exact h
    · obtain ⟨hRam, hGens⟩ := loadAll_memory (load ci) s.loader
      exact h.of_memory hRam hGens

theorem LazyKept.loadIf (h : LazyKept s) (load : Nat → List DllFunction) (li : Option Nat) :
    LazyKept (s.loadIf load li).1 := by
  cases li with
  | none => exact h
  | some li => exact h.loadSelected load li

theorem LazyKept.tryLoadRegion (h : LazyKept s) (hNear : s.AllNear) (phys : Nat)
    (load : Nat → List DllFunction) :
    LazyKept (s.tryLoadRegion overlayFloor phys load).1 := by
  have hFound := h.searched (LazyLoader.select_searched (h.judged hNear) overlayFloor phys).1
  unfold LazyLoader.tryLoadRegion
  dsimp only
  have hBest := hFound.loadIf load (s.select overlayFloor phys).2.best
  split
  next t hLoaded =>
    rw [hLoaded] at hBest
    exact hBest
  next t hMissing =>
    rw [hMissing] at hBest
    exact hBest.loadIf load _

theorem lazyStep_kept (h : LazyKept s) (e : LazyEvent) (hOk : LazyOk s e) :
    LazyKept (lazyStep T overlayFloor s e) := by
  cases e with
  | register f =>
      obtain ⟨hRam, hGens⟩ := candRegister_memory s.loader f
      exact h.of_memory hRam hGens
  | registerSljit shard =>
      obtain ⟨hRam, hGens⟩ := registerSljit_memory s.loader shard
      exact h.of_memory hRam hGens
  | store st =>
      refine ⟨h.listed, fun lm hMem => ?_⟩
      change lm.Faithful (s.loader.store T st).mem
      unfold Loader.store
      split
      · exact (h.faithful lm hMem).write (hOk lm hMem)
      · exact h.faithful lm hMem
  | check li => exact h.searched (LazyLoader.manMatches_searched (h.judged hOk) li).1
  | tryLoad phys load => exact h.tryLoadRegion hOk phys load
  | rescan cache manifests => exact LazyIndex.Fresh.kept (LazyIndex.rebuild_fresh cache manifests)
  | shadowEnd i passes touch ram =>
      refine ⟨h.listed, fun lm hMem => ?_⟩
      have hOld := h.faithful lm hMem
      have hCrc : lm.state ≠ .unknown →
          candCrc ram lm.ranges = candCrc s.loader.mem.ram lm.ranges :=
        fun hState => candCrc_congr (hOk lm hMem hState)
      refine ⟨fun hValid hGen => ?_, fun hInvalid hGen => ?_, hOld.le⟩
      · exact (hCrc (by rw [hValid]; decide)).trans (hOld.hash hValid hGen)
      · intro hSame
        exact hOld.miss hInvalid hGen ((hCrc (by rw [hInvalid]; decide)).symm.trans hSame)

/-- In every run in which the stores into the code of checked entries fall on watched
pages, a check tells whether the bytes of its entry are in memory, and the search
for a DLL comes up with an entry whenever there is one with its bytes in memory. -/
theorem lazyManMatches_iff_crc (hStart : start.index.Fresh)
    (hRun : Reach (lazyStep T overlayFloor) LazyOk start s) (hNear : s.AllNear) :
    (∀ li lm, s.index.mans[li]? = some lm →
      ((s.manMatches li).2 = true ↔ candCrc s.loader.mem.ram lm.ranges = lm.crc)) ∧
    (s.index.links.overflow = false → ∀ phys,
      (s.select overlayFloor phys).2.fallback.isSome = true ↔
        ∃ li, s.available (s.regionStart overlayFloor phys) phys li = true) := by
  have hKept : LazyKept s := hRun.invariant hStart.kept fun s e h hOk => lazyStep_kept h e hOk
  have hJudged := hKept.judged hNear
  refine ⟨fun li lm hMan => ?_, fun hRoom phys =>
    LazyLoader.select_isSome hJudged hKept.listed hRoom overlayFloor phys⟩
  rw [(LazyLoader.manMatches_searched hJudged li).2, hMan, Option.any_some, decide_eq_true_iff]

/-- One cached DLL with a function of one word at the address `0x10000`, compiled from
a word one, in memory full of zeros. -/
def oneCached : LazyLoader where
  loader := emptyLoader
  index := LazyIndex.rebuild [⟨"gcc/80010000_1.dll", 0x10000, 0, 0⟩]
    [some [⟨0x80010000, some (candCrc (writeBytes (fun _ => 0) 0x10000 4 1) [oneWord]), [oneWord]⟩]]
  loaded := []

/-- The word is in memory before the entry is checked for the first time. -/
theorem lazyManMatches_iff_crc_stored :
    let s := lazyStep oneBody 0x98000 oneCached (.store ⟨0x10000, .word, 1⟩)
    (s.manMatches 0).2 = true ∧ (s.select 0x98000 0x10000).2.fallback.isSome = true := by
  intro s
  have hFresh : oneCached.index.Fresh := LazyIndex.rebuild_fresh _ _
  have hOk : LazyOk oneCached (.store ⟨0x10000, .word, 1⟩) :=
    fun lm hMem hState => absurd (hFresh.unknown lm hMem) hState
  have hRun : Reach (lazyStep oneBody 0x98000) LazyOk oneCached s := Reach.start.next _ hOk
  have hNear : s.AllNear := by decide
  obtain ⟨hCheck, hSelect⟩ := lazyManMatches_iff_crc hFresh hRun hNear
  have hMan : ((s.index.mans[0]?).any fun lm =>
      decide (candCrc s.loader.mem.ram lm.ranges = lm.crc)) = true := by decide +kernel
  obtain ⟨lm, hGet, hCrc⟩ := (Option.any_eq_true _ _).mp hMan
  have hRoom : s.index.links.overflow = false := by decide
  have hLi : s.available (s.regionStart 0x98000 0x10000) 0x10000 0 = true := by decide +kernel
  exact ⟨(hCheck 0 lm hGet).mpr (of_decide_eq_true hCrc), (hSelect hRoom 0x10000).mpr ⟨0, hLi⟩⟩

/-- The entry is checked before its word is in memory. The page is not watched, and the
DLL is never found. -/
theorem unwatched_entry_missed :
    let s :=
      [LazyEvent.check 0, .store ⟨0x10000, .word, 1⟩].foldl (lazyStep oneBody 0x98000) oneCached
    (s.manMatches 0).2 = false ∧
      s.available (s.regionStart 0x98000 0x10000) 0x10000 0 = true ∧
      (s.select 0x98000 0x10000).2.fallback = none := by
  decide +kernel

end RecompStudio.Runtime
