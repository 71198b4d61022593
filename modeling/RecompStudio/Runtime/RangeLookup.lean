import RecompStudio.Runtime.RangeIndex

/-!
The owner of an address, as the three lookups find it: the page index gives the
answer of the plain scan in the order of registration, and the cache of hot
addresses gives it unless it remembers a later owner from the time before an
earlier one became valid.
-/

namespace RecompStudio.Runtime

open LinkArray Machine

section Scan

variable {s : Loader} {i phys : Nat}

/-- The code ranges of all candidates. -/
@[grind =] def Loader.allRanges (s : Loader) : List (List CodeRange) := s.cands.map Candidate.ranges

theorem setCand_allRanges {c c' : Candidate} (hc : s.cands[i]? = some c)
    (hRanges : c'.ranges = c.ranges) : (s.setCand i c').allRanges = s.allRanges := by
  unfold Loader.allRanges Loader.setCand
  rw [List.map_set, hRanges]
  refine set_of_getElem? ?_
  rw [List.getElem?_map, hc]
  rfl

theorem rangeCandidateMatches_allRanges (s : Loader) (i phys : Nat) :
    (s.rangeCandidateMatches i phys).1.allRanges = s.allRanges := by
  unfold Loader.rangeCandidateMatches
  split
  · rfl
  next c hc =>
    split
    · rfl
    · exact setCand_allRanges hc (c.validate_ranges s.mem)

/-- A candidate without the address is left out of a scan without a trace. -/
theorem scanRanges_filter (phys : Nat) (keep : Nat → Bool) {all : List (List CodeRange)}
    (hKeep : ∀ i ranges, all[i]? = some ranges → keep i = false →
      ranges.any (fun r => r.lo ≤ phys ∧ phys < r.lo + r.len) = false)
    (indices : List Nat) (s : Loader) (hAll : s.allRanges = all) :
    Loader.scanRanges phys (indices.filter keep) s = Loader.scanRanges phys indices s := by
  induction indices generalizing s with
  | nil => rfl
  | cons i rest ih =>
      have hNext := rangeCandidateMatches_allRanges s i phys
      cases hKept : keep i with
      | true =>
          rw [List.filter_cons_of_pos hKept, Loader.scanRanges, Loader.scanRanges]
          split
          · rfl
          next t hMiss =>
            rw [hMiss] at hNext
            exact ih t (hNext.trans hAll)
      | false =>
          have hMiss : s.rangeCandidateMatches i phys = (s, false) := by
            unfold Loader.rangeCandidateMatches
            split
            · rfl
            next c hc =>
              have hNot : c.contains phys = false := by
                refine hKeep i c.ranges ?_ hKept
                rw [← hAll, Loader.allRanges, List.getElem?_map, hc]
                rfl
              rw [hNot, if_pos (.inr rfl)]
          rw [List.filter_cons_of_neg (by rw [hKept]; decide), Loader.scanRanges, hMiss]
          exact ih s hAll

/-- The index leaves out candidates without the address only. -/
theorem scanRanges_onPages (s : Loader) (phys : Nat) :
    Loader.scanRanges phys (RangeIndex.onPages s.allRanges (pageOf phys)) s =
      Loader.scanRanges phys (List.range s.cands.length) s := by
  have hLength : s.allRanges.length = s.cands.length := List.length_map _
  rw [RangeIndex.onPages, hLength]
  refine scanRanges_filter phys _ (fun i ranges hRanges hOff => ?_) _ s rfl
  rw [hRanges, Option.any_some, RangeIndex.onPage, List.any_eq_false] at hOff
  rw [List.any_eq_false]
  intro r hr hIn
  refine hOff r hr (decide_eq_true (RangeIndex.mem_pages.mpr ?_))
  obtain ⟨hLo, hHi⟩ := of_decide_eq_true hIn
  have hPos := r.pos
  rw [CodeRange.OnPage, pageOf, pageOf, pageOf]
  omega

end Scan

namespace RangeLoader

/-- The index belongs to the candidates. -/
def Indexed (s : RangeLoader) : Prop := s.index.Lists s.loader.allRanges

theorem cachedOwner_allRanges (s : Loader) (phys : Nat) :
    (s.cachedOwner phys).1.allRanges = s.allRanges := by
  unfold Loader.cachedOwner
  split
  · rfl
  next pc i _ =>
    split
    · have hSame := rangeCandidateMatches_allRanges s i phys
      split
      next t hMatch =>
        rw [hMatch] at hSame
        exact hSame
      next t hMiss =>
        rw [hMiss] at hSame
        exact hSame
    · rfl

/-- Whichever of the candidates a lookup tries, it finds what the scan of all of
them finds. -/
theorem findByRange_eq {s : RangeLoader} (h : s.Indexed) (phys : Nat) :
    s.findByRange phys = (⟨(s.loader.findByRange phys).1, s.index⟩,
      (s.loader.findByRange phys).2) := by
  have hPage : rangePageCount ≤ pageOf phys ↔ ramSize ≤ phys := by
    rw [rangePageCount, pageOf, ramSize]
    omega
  unfold RangeLoader.findByRange Loader.findByRange
  by_cases hOut : ramSize ≤ phys
  · rw [if_pos hOut, if_pos (hPage.mpr hOut)]
  rw [if_neg hOut, if_neg (fun hIn => hOut (hPage.mp hIn))]
  have hScan : ∀ t : Loader, t.allRanges = s.loader.allRanges →
      t.scanOwners phys (s.tried phys) = t.scanAll phys := by
    intro t hAll
    have hLength : s.loader.cands.length = t.cands.length := by
      have hSizes := congrArg List.length hAll
      rw [Loader.allRanges, Loader.allRanges, List.length_map, List.length_map] at hSizes
      exact hSizes.symm
    have hSame : Loader.scanRanges phys (s.tried phys) t =
        Loader.scanRanges phys (List.range t.cands.length) t := by
      unfold RangeLoader.tried
      split
      next => rw [hLength]
      next hRoom =>
        obtain ⟨values, hHolds, hValues⟩ := h
        have hWalk := hHolds.walk (pageOf phys)
        rw [hValues (Bool.eq_false_of_not_eq_true hRoom), ← hAll] at hWalk
        rw [hWalk, scanRanges_onPages]
    unfold Loader.scanOwners Loader.scanAll
    exact hSame ▸ rfl
  have hCached := cachedOwner_allRanges s.loader phys
  have hEnd : Loader.orElse (s.loader.cachedOwner phys)
      (fun t => t.scanOwners phys (s.tried phys)) =
        Loader.orElse (s.loader.cachedOwner phys) fun t => t.scanAll phys := by
    unfold Loader.orElse
    split
    · rfl
    next t hNone =>
      rw [hNone] at hCached
      exact hScan t hCached
  rw [hEnd]

end RangeLoader

/-- Both cached verdicts tell whether the bytes match while the generations stay. -/
structure Candidate.Faithful (m : Memory) (c : Candidate) : Prop extends c.Sound m where
  miss : c.state = .invalid → candGensum m c.ranges = c.valGen → candCrc m.ram c.ranges ≠ c.crcCode

/-- The verdicts are right, and no counter has come round. -/
structure Judged (m : Memory) (c : Candidate) : Prop extends c.Faithful m where
  near : c.Near m

section Verdicts

variable {m m' : Memory} {c c' : Candidate}

theorem Candidate.Faithful.of_same (h : c.Faithful m) (hRam : m'.ram = m.ram)
    (hGens : m'.pageGen = m.pageGen) (hWatched : ∀ p, m.watched p = true → m'.watched p = true)
    (hRanges : c'.ranges = c.ranges) (hCrc : c'.crcCode = c.crcCode)
    (hValGen : c'.valGen = c.valGen) (hState : c'.state = c.state ∨ c'.state = .blacklist) :
    c'.Faithful m' where
  toSound := by
    refine h.toSound.of_same hRam hGens hWatched hRanges hCrc hValGen fun hValid => ?_
    rcases hState with hSame | hBlack
    · rw [← hSame]
      exact hValid
    · rw [hBlack] at hValid
      cases hValid
  miss hInvalid := by
    rcases hState with hSame | hBlack
    · rw [hRanges, hCrc, hValGen, hRam, candGensum_congr hGens]
      exact h.miss (hSame.symm.trans hInvalid)
    · rw [hBlack] at hInvalid
      cases hInvalid

theorem Candidate.Faithful.write {T : KernelBodies} (h : c.Faithful m) {st : GuestStore}
    (hNoted : st.Noted c) : c.Faithful (m.write T st.phys st.width.bytes st.val) where
  toSound := h.toSound.write hNoted
  miss hInvalid hSum := by
    have hGens : ∀ p, m.pageGen p ≤ (m.write T st.phys st.width.bytes st.val).pageGen p := by
      intro p
      rw [write_pageGen]
      split <;> omega
    have hLe := h.le
    by_cases hTouched : ∃ r ∈ c.ranges, r.Touched st.phys st.width.bytes
    · obtain ⟨r, hr, hPage⟩ := hNoted hTouched
      have hLess := candGensum_lt hGens hr hPage.1 hPage.2 (by
        rw [write_pageGen, if_pos ⟨rfl, h.watched r hr _ hPage⟩]
        exact Nat.lt_succ_self _)
      omega
    · have hMiss : ∀ r ∈ c.ranges, ¬r.Touched st.phys st.width.bytes :=
        fun r hr hHit => hTouched ⟨r, hr, hHit⟩
      have hGrown := candGensum_le hGens c.ranges
      rw [candCrc_write st.val hMiss]
      exact h.miss hInvalid (by omega)

theorem Judged.current_iff (h : Judged m c) : c.Current m ↔ candGensum m c.ranges = c.valGen := by
  have hLe := h.le
  have hNear := h.near
  rw [Candidate.Near] at hNear
  rw [Candidate.Current]
  omega

/-- A verdict that has just been reached. -/
theorem Judged.rehash (h : Judged m c) {state : EntryState}
    (hValid : state = .valid → candCrc m.ram c.ranges = c.crcCode)
    (hInvalid : state = .invalid → candCrc m.ram c.ranges ≠ c.crcCode) :
    Judged m { c with valGen := candGensum m c.ranges, state := state } where
  hash hState _ := hValid hState
  le := Nat.le_refl _
  watched := h.watched
  miss hState _ := hInvalid hState
  near := Nat.lt_add_of_pos_right (by decide)

/-- The bytes of a candidate, and whether it may run at all. -/
@[grind =] def Candidate.code (c : Candidate) : List CodeRange × Word × Bool :=
  (c.ranges, c.crcCode, decide (c.state = .blacklist))

/-- A check says whether the live bytes match. -/
structure Verdict (m : Memory) (c : Candidate) (after : Candidate × Bool) : Prop where
  judged : Judged m after.1
  code : after.1.code = c.code
  answer : after.2 = decide (candCrc m.ram c.ranges = c.crcCode)

theorem Judged.validate (h : Judged m c) (hRuns : c.state ≠ .blacklist) :
    Verdict m c (c.validate m) := by
  have hCode : ∀ (gen : Nat) (state : EntryState), state ≠ .blacklist →
      ({ c with valGen := gen, state := state } : Candidate).code = c.code := by
    intro gen state hState
    rw [Candidate.code, Candidate.code, decide_eq_false hState, decide_eq_false hRuns]
  unfold Candidate.validate
  split
  next hFast => exact ⟨h, rfl, (decide_eq_true (h.hash hFast.1 (h.current_iff.mp hFast.2))).symm⟩
  split
  next hFast => exact ⟨h, rfl, (decide_eq_false (h.miss hFast.1 (h.current_iff.mp hFast.2))).symm⟩
  split
  next hMatch =>
    refine ⟨h.rehash (fun _ => hMatch) (fun hState => ?_), hCode _ _ (by decide),
      (decide_eq_true hMatch).symm⟩
    cases hState
  next hMiss =>
    refine ⟨h.rehash (fun hState => ?_) (fun _ => hMiss), hCode _ _ (by decide),
      (decide_eq_false hMiss).symm⟩
    cases hState

end Verdicts

namespace Loader

variable (s : Loader)

/-- The candidate is not blacklisted, has the address, and its bytes are there. -/
@[grind =] def owns (phys i : Nat) : Bool :=
  (s.cands[i]?).any fun c =>
    decide (c.state ≠ .blacklist) && c.contains phys &&
      decide (candCrc s.mem.ram c.ranges = c.crcCode)

/-- The plain scan in the order of registration. -/
@[grind =]
def firstOwner (phys : Nat) : Option Nat := (List.range s.cands.length).find? (s.owns phys)

/-- The verdicts on all candidates are right. -/
def AllJudged (s : Loader) : Prop := ∀ c ∈ s.cands, Judged s.mem c

end Loader

/-- A lookup leaves memory, the owners of all addresses and the right verdicts. -/
structure Looked (s s' : Loader) : Prop where
  mem : s'.mem = s.mem
  code : s'.cands.map Candidate.code = s.cands.map Candidate.code
  judged : s'.AllJudged

section Owners

variable {s s' s'' : Loader} {phys i : Nat}

theorem Looked.refl (h : s.AllJudged) : Looked s s := ⟨rfl, rfl, h⟩

theorem Looked.trans (h : Looked s s') (h' : Looked s' s'') : Looked s s'' :=
  ⟨h'.mem.trans h.mem, h'.code.trans h.code, h'.judged⟩

theorem owns_eq (s : Loader) (phys i : Nat) : s.owns phys i =
    ((s.cands.map Candidate.code)[i]?).any fun k => !k.2.2 &&
      k.1.any (fun r => r.lo ≤ phys ∧ phys < r.lo + r.len) &&
        decide (candCrc s.mem.ram k.1 = k.2.1) := by
  rw [Loader.owns, List.getElem?_map]
  cases s.cands[i]? with
  | none => rfl
  | some c =>
      have hState : decide (c.state ≠ .blacklist) = !decide (c.state = .blacklist) :=
        decide_not
      simp only [Option.any_some, Option.map_some, Candidate.code, Candidate.contains, hState]

theorem Looked.owns (h : Looked s s') : s'.owns = s.owns := by
  funext phys i
  rw [owns_eq, owns_eq, h.code, h.mem]

theorem Looked.length (h : Looked s s') : s'.cands.length = s.cands.length := by
  have hSizes := congrArg List.length h.code
  rw [List.length_map, List.length_map] at hSizes
  exact hSizes

theorem Looked.firstOwner (h : Looked s s') : s'.firstOwner = s.firstOwner := by
  funext phys
  rw [Loader.firstOwner, Loader.firstOwner, h.owns, h.length]

theorem setCand_looked (h : s.AllJudged) {c c' : Candidate} (hc : s.cands[i]? = some c)
    (hJudged : Judged s.mem c') (hCode : c'.code = c.code) : Looked s (s.setCand i c') where
  mem := rfl
  code := by
    rw [Loader.setCand, List.map_set, hCode]
    refine set_of_getElem? ?_
    rw [List.getElem?_map, hc]
    rfl
  judged d hd := by
    rcases List.mem_or_eq_of_mem_set hd with hOld | rfl
    · exact h d hOld
    · exact hJudged

/-- The check of a candidate says whether it owns the address. -/
theorem rangeCandidateMatches_owns (h : s.AllJudged) (i phys : Nat) :
    Looked s (s.rangeCandidateMatches i phys).1 ∧
      (s.rangeCandidateMatches i phys).2 = s.owns phys i := by
  unfold Loader.rangeCandidateMatches Loader.owns
  split
  next hNone =>
    rw [hNone]
    exact ⟨.refl h, rfl⟩
  next c hc =>
    rw [hc, Option.any_some]
    split
    next hOut =>
      refine ⟨.refl h, ?_⟩
      rcases hOut with hBlack | hMiss
      · simp [hBlack]
      · have hNot : c.contains phys = false := by simpa using hMiss
        rw [hNot, Bool.and_false, Bool.false_and]
    next hIn =>
      rw [not_or] at hIn
      have hContains : c.contains phys = true := by simpa using hIn.2
      have hVerdict := (h c (List.mem_of_getElem? hc)).validate hIn.1
      refine ⟨setCand_looked h hc hVerdict.judged hVerdict.code, ?_⟩
      rw [hVerdict.answer, hContains, decide_eq_true hIn.1, Bool.true_and, Bool.true_and]

theorem scanRanges_owns (phys : Nat) (indices : List Nat) (h : s.AllJudged) :
    Looked s (Loader.scanRanges phys indices s).1 ∧
      (Loader.scanRanges phys indices s).2 = indices.find? (s.owns phys) := by
  induction indices generalizing s with
  | nil => exact ⟨.refl h, rfl⟩
  | cons i rest ih =>
      obtain ⟨hLooked, hAnswer⟩ := rangeCandidateMatches_owns h i phys
      rw [Loader.scanRanges, List.find?_cons, ← hAnswer]
      split
      next t hMatch =>
        rw [hMatch] at hLooked ⊢
        exact ⟨hLooked, rfl⟩
      next t hMiss =>
        rw [hMiss] at hLooked ⊢
        obtain ⟨hRest, hFound⟩ := ih hLooked.judged
        rw [hLooked.owns] at hFound
        exact ⟨hLooked.trans hRest, hFound⟩

theorem cachedOwner_owns (h : s.AllJudged) (phys : Nat) :
    Looked s (s.cachedOwner phys).1 ∧
      (s.cachedOwner phys).2 = (s.pcCache (Loader.pcSlot phys)).bind fun e =>
        if e.1 = phys ∧ s.owns phys e.2 = true then some e.2 else none := by
  unfold Loader.cachedOwner
  split
  next hNone =>
    rw [hNone]
    exact ⟨.refl h, rfl⟩
  next pc i hSlot =>
    rw [hSlot, Option.bind_some]
    split
    next hSame =>
      obtain ⟨hLooked, hAnswer⟩ := rangeCandidateMatches_owns h i phys
      rw [← hAnswer]
      split
      next t hMatch =>
        rw [hMatch] at hLooked ⊢
        exact ⟨hLooked, (if_pos ⟨hSame, rfl⟩).symm⟩
      next t hMiss =>
        rw [hMiss] at hLooked ⊢
        exact ⟨hLooked, (if_neg fun hBoth => Bool.false_ne_true hBoth.2).symm⟩
    next hOther => exact ⟨.refl h, (if_neg fun hBoth => hOther hBoth.1).symm⟩

theorem scanAll_owns (h : s.AllJudged) (phys : Nat) :
    Looked s (s.scanAll phys).1 ∧ (s.scanAll phys).2 = s.firstOwner phys := by
  obtain ⟨hLooked, hFound⟩ := scanRanges_owns phys (List.range s.cands.length) h
  unfold Loader.scanAll
  rw [Loader.firstOwner, ← hFound]
  split
  next t hNone =>
    rw [hNone] at hLooked ⊢
    exact ⟨hLooked, rfl⟩
  next t i hSome =>
    rw [hSome] at hLooked ⊢
    exact ⟨⟨hLooked.mem, hLooked.code, hLooked.judged⟩, rfl⟩

/-- No owner is found outside main memory. -/
theorem owns_of_outside (hOut : ramSize ≤ phys) (i : Nat) : s.owns phys i = false := by
  rw [Loader.owns]
  cases s.cands[i]? with
  | none => rfl
  | some c =>
      have hMiss : c.contains phys = false := by
        rw [Candidate.contains, List.any_eq_false]
        intro r _ hIn
        have hInside := r.inside
        obtain ⟨-, hBelow⟩ := of_decide_eq_true hIn
        omega
      rw [Option.any_some, hMiss, Bool.and_false, Bool.false_and]

/-- The remembered owner of the address, if it still owns it. -/
@[grind =] def Loader.remembered (s : Loader) (phys : Nat) : Option Nat :=
  (s.pcCache (Loader.pcSlot phys)).bind fun e =>
    if e.1 = phys ∧ s.owns phys e.2 = true then some e.2 else none

/-- A lookup answers with the remembered owner, or else with the first one. -/
theorem findByRange_owns (h : s.AllJudged) (phys : Nat) :
    Looked s (s.findByRange phys).1 ∧
      (s.findByRange phys).2 = (s.remembered phys).or (s.firstOwner phys) := by
  unfold Loader.findByRange
  split
  next hOut =>
    have hFirst : s.firstOwner phys = none := by
      rw [Loader.firstOwner, List.find?_eq_none]
      intro i _
      rw [owns_of_outside hOut]
      exact Bool.false_ne_true
    have hNone : s.remembered phys = none := by
      rw [Loader.remembered]
      cases s.pcCache (Loader.pcSlot phys) with
      | none => rfl
      | some e =>
          rw [Option.bind_some, if_neg]
          rw [owns_of_outside hOut]
          exact fun hBoth => Bool.false_ne_true hBoth.2
    rw [hFirst, hNone]
    exact ⟨.refl h, rfl⟩
  next =>
    obtain ⟨hLooked, hCached⟩ := cachedOwner_owns h phys
    change (s.cachedOwner phys).2 = s.remembered phys at hCached
    rw [← hCached]
    unfold Loader.orElse
    split
    next t i hSome =>
      rw [hSome] at hLooked ⊢
      exact ⟨hLooked, rfl⟩
    next t hNone =>
      rw [hNone] at hLooked ⊢
      obtain ⟨hScan, hFound⟩ := scanAll_owns hLooked.judged phys
      rw [hLooked.firstOwner] at hFound
      exact ⟨hLooked.trans hScan, hFound⟩

/-- The cache of hot addresses does not remember a later owner while an earlier
one has its bytes in memory as well. -/
def Loader.CacheInOrder (s : Loader) (phys : Nat) : Prop :=
  ∀ i, s.pcCache (Loader.pcSlot phys) = some (phys, i) → s.owns phys i = true →
    ∀ j < i, s.owns phys j = false

theorem lt_of_owns (hOwns : s.owns phys i = true) : i < s.cands.length := by
  rw [Loader.owns, Option.any_eq_true] at hOwns
  obtain ⟨c, hc, -⟩ := hOwns
  exact (List.getElem?_eq_some_iff.mp hc).1

theorem findByRange_eq_firstOwner (h : s.AllJudged) (phys : Nat) :
    (s.findByRange phys).2 = s.firstOwner phys ↔ s.CacheInOrder phys := by
  rw [(findByRange_owns h phys).2]
  unfold Loader.CacheInOrder Loader.remembered
  cases hSlot : s.pcCache (Loader.pcSlot phys) with
  | none => simp
  | some e =>
      obtain ⟨pc, i⟩ := e
      rw [Option.bind_some]
      by_cases hOwner : pc = phys ∧ s.owns phys i = true
      · obtain ⟨rfl, hOwns⟩ := hOwner
        rw [if_pos ⟨rfl, hOwns⟩, Option.some_or, eq_comm, Loader.firstOwner,
          List.find?_range_eq_some]
        constructor
        · rintro ⟨-, -, hEarlier⟩ i' hi' - j hj
          cases hi'
          simpa using hEarlier j hj
        · intro hOrder
          refine ⟨hOwns, List.mem_range.mpr (lt_of_owns hOwns), fun j hj => ?_⟩
          rw [hOrder i rfl hOwns j hj]
          rfl
      · rw [if_neg hOwner, Option.none_or]
        refine ⟨fun _ i' hi' hOwns => ?_, fun _ => rfl⟩
        cases hi'
        exact absurd ⟨rfl, hOwns⟩ hOwner

end Owners

/-- What happens to the candidates: registrations, stores, the lookups, the checks
of entries, calls and returns, and the end of a shadow run. -/
inductive LookupEvent where
  | register (f : DllFunction)
  | registerSljit (shard : SljitShard)
  | store (st : GuestStore)
  | find (phys : Nat)
  | checkEntry (i : Nat)
  | called (i : Nat)
  | returned
  | shadowEnd (i passes : Nat) (touch : Bool) (ram : Nat → Byte)

def lookupStep (T : KernelBodies) (s : RangeLoader) : LookupEvent → RangeLoader
  | .register f => s.candRegister f
  | .registerSljit shard => s.registerSljit shard
  | .store st => ⟨s.loader.store T st, s.index⟩
  | .find phys => (s.findByRange phys).1
  | .checkEntry i => ⟨s.loader.checkEntry i, s.index⟩
  | .called i => ⟨s.loader.push i, s.index⟩
  | .returned => ⟨s.loader.pop, s.index⟩
  | .shadowEnd i passes touch ram => ⟨s.loader.shadowEnd i passes touch ram, s.index⟩

namespace RangeLoader

/-- The state that `overlay_loader_init` leaves. -/
structure Started (s : RangeLoader) : Prop where
  cands : s.loader.cands = []
  index : s.index = RangeIndex.init
  pcCache : s.loader.pcCache = fun _ => none

/-- The sums of generations have not come round since the last checks. -/
def AllNear (s : RangeLoader) : Prop := ∀ c ∈ s.loader.cands, c.Near s.loader.mem

instance (s : RangeLoader) : Decidable s.AllNear := inferInstanceAs (Decidable (∀ _ ∈ _, _))

end RangeLoader

/-- What the cached verdicts rest on: shards are registered as valid with their
bytes in memory, stores begin on a page of the code that they write into, no sum
of generations comes round between two checks, and a shadow run gives the code
back as it was. -/
def LookupOk (s : RangeLoader) : LookupEvent → Prop
  | .register _ => True
  | .registerSljit shard => shard.Present s.loader.mem.ram
  | .store st => ∀ c ∈ s.loader.cands, st.Noted c
  | .find _ => s.AllNear
  | .checkEntry _ => s.AllNear
  | .called _ => True
  | .returned => True
  | .shadowEnd _ _ _ ram =>
      ∀ c ∈ s.loader.cands, ∀ r ∈ c.ranges, ∀ a, r.lo ≤ a → a < r.lo + r.len →
        ram a = s.loader.mem.ram a

/-- What every state of a run keeps. -/
structure RangeKept (s : RangeLoader) : Prop where
  indexed : s.Indexed
  faithful : ∀ c ∈ s.loader.cands, c.Faithful s.loader.mem

variable {T : KernelBodies} {s start : RangeLoader}

theorem allJudged (h : RangeKept s) (hNear : s.AllNear) : s.loader.AllJudged :=
  fun c hc => ⟨h.faithful c hc, hNear c hc⟩

theorem RangeKept.looked (h : RangeKept s) {t : Loader} (hLooked : Looked s.loader t)
    : RangeKept ⟨t, s.index⟩ where
  indexed := by
    have hAll : t.allRanges = s.loader.allRanges := by
      have hFst := congrArg (List.map Prod.fst) hLooked.code
      rw [List.map_map, List.map_map] at hFst
      exact hFst
    have hLists : s.index.Lists s.loader.allRanges := h.indexed
    rw [← hAll] at hLists
    exact hLists
  faithful c hc := (hLooked.judged c hc).toFaithful

theorem checkEntry_looked {s : Loader} (h : s.AllJudged) (i : Nat) : Looked s (s.checkEntry i) := by
  unfold Loader.checkEntry
  split
  · exact .refl h
  next c hc =>
    split
    · exact .refl h
    next hRuns =>
      have hVerdict := (h c (List.mem_of_getElem? hc)).validate hRuns
      exact setCand_looked h hc hVerdict.judged hVerdict.code

/-- A registration watches the pages of its ranges and puts a candidate with a right
verdict behind the others, of which it may retire some. -/
structure Grown (s s' : Loader) (ranges : List CodeRange) : Prop where
  allRanges : s'.allRanges = s.allRanges ++ [ranges]
  faithful : (∀ c ∈ s.cands, c.Faithful s.mem) → ∀ c ∈ s'.cands, c.Faithful s'.mem

theorem grown_append {s : Loader} {old : List Candidate} {ranges : List CodeRange} {addr : Nat}
    {crcCode : Word} {state : EntryState} {dll : Option Nat}
    (hValid : state = .valid → candCrc s.mem.ram ranges = crcCode)
    (hInvalid : state = .invalid → candCrc s.mem.ram ranges ≠ crcCode)
    (hRanges : old.map Candidate.ranges = s.allRanges)
    (hOld : ∀ c ∈ old, ∃ d ∈ s.cands, c = d ∨ c = { d with state := .blacklist }) :
    Grown s { s with
      mem := s.watch ranges
      cands := old ++
        [⟨addr, ranges, crcCode, candGensum (s.watch ranges) ranges, state, dll, 0, false⟩] }
      ranges := by
  obtain ⟨hRam, hGens, hKeep, hCover⟩ := watch_fold ranges s.mem
  refine ⟨?_, fun hFaithful c hc => ?_⟩
  · rw [Loader.allRanges, List.map_append, hRanges]
    rfl
  · rcases List.mem_append.mp hc with hOldMem | hNew
    · obtain ⟨d, hd, rfl | rfl⟩ := hOld c hOldMem
      · exact (hFaithful c hd).of_same hRam hGens hKeep rfl rfl rfl (.inl rfl)
      · exact (hFaithful d hd).of_same hRam hGens hKeep rfl rfl rfl (.inr rfl)
    · obtain rfl := List.mem_singleton.mp hNew
      have hLive : candCrc (s.watch ranges).ram ranges = candCrc s.mem.ram ranges :=
        congrArg (candCrc · ranges) hRam
      exact
        { hash := fun hState _ => hLive.trans (hValid hState)
          le := Nat.le_refl _
          watched := hCover
          miss := fun hState _ hSame => hInvalid hState (hLive.symm.trans hSame) }

theorem candRegister_grown {s : Loader} (f : DllFunction) (hRoom : ¬candCap ≤ s.cands.length) :
    Grown s (s.candRegister f) (f.ranges.take 16) := by
  unfold Loader.candRegister
  rw [if_neg hRoom]
  obtain ⟨hRam, -⟩ := watch_fold (f.ranges.take 16) s.mem
  have hLive : candCrc (s.watch (f.ranges.take 16)).ram (f.ranges.take 16) =
      candCrc s.mem.ram (f.ranges.take 16) := congrArg (candCrc · _) hRam
  refine grown_append ?_ ?_ ?_ ?_
  · intro hState
    rw [← hLive]
    by_contra hNot
    rw [if_neg hNot] at hState
    cases hState
  · intro hState hSame
    rw [if_pos (hLive.trans hSame)] at hState
    cases hState
  · split
    · rw [Loader.retire, List.map_map]
      refine List.map_congr_left fun o _ => ?_
      dsimp only [Function.comp]
      split <;> rfl
    · rfl
  · intro c hc
    split at hc
    · obtain ⟨d, hd, rfl⟩ := List.mem_map.mp hc
      refine ⟨d, hd, ?_⟩
      split
      · exact .inr rfl
      · exact .inl rfl
    · exact ⟨c, hc, .inl rfl⟩

theorem registerSljit_grown {s : Loader} {shard : SljitShard} (hRoom : ¬candCap ≤ s.cands.length)
    (hPresent : shard.Present s.mem.ram) : Grown s (s.registerSljit shard) [shard.range] := by
  unfold Loader.registerSljit
  rw [if_neg hRoom]
  obtain ⟨hRam, -⟩ := watch_fold [shard.range] s.mem
  have hLive : candCrc (s.watch [shard.range]).ram [shard.range] =
      candCrc s.mem.ram [shard.range] := congrArg (candCrc · _) hRam
  refine grown_append (fun _ => ?_) (fun hState => ?_) rfl fun c hc => ⟨c, hc, .inl rfl⟩
  · rcases hPresent with hZero | hSame
    · rw [if_neg (by simpa using hZero), hLive]
    · split
      · exact hSame
      · rw [hLive]
  · cases hState

theorem RangeKept.grown (h : RangeKept s) {t : Loader} {ranges : List CodeRange}
    (hGrown : Grown s.loader t ranges) :
    RangeKept ⟨t, s.index.addCandidate s.loader.cands.length ranges⟩ where
  indexed := by
    have hLength : s.loader.allRanges.length = s.loader.cands.length := List.length_map _
    have hLists := RangeIndex.Lists.addLinks h.indexed rangeLinkCap ranges
    rw [hLength, ← hGrown.allRanges] at hLists
    exact hLists
  faithful := hGrown.faithful h.faithful

theorem store_allRanges (T : KernelBodies) (s : Loader) (st : GuestStore) :
    (s.store T st).allRanges = s.allRanges := by
  unfold Loader.store
  split
  · unfold Loader.allRanges
    dsimp only
    split
    · rw [Loader.activeWriteCheck, List.map_map]
      have hSame : ∀ e ∈ s.cands.zipIdx, (Candidate.ranges ∘ fun e : Candidate × Nat =>
          if e.2 ∈ s.active ∧ ∃ r ∈ e.1.ranges, r.Touched st.phys st.width.bytes then
            { e.1 with state := .blacklist } else e.1) e = (Candidate.ranges ∘ Prod.fst) e := by
        intro e _
        dsimp only [Function.comp]
        split <;> rfl
      refine (List.map_congr_left hSame).trans ?_
      rw [← List.map_map, List.zipIdx_map_fst]
    · rfl
  · rfl

theorem store_faithful {s : Loader} (h : ∀ c ∈ s.cands, c.Faithful s.mem) {st : GuestStore}
    (hNoted : ∀ c ∈ s.cands, st.Noted c) :
    ∀ c ∈ (s.store T st).cands, c.Faithful (s.store T st).mem := by
  intro c hc
  obtain ⟨o, ho, hEq⟩ := mem_store_cands hc
  have hOld : o.Faithful (s.store T st).mem := by
    unfold Loader.store
    split
    · exact (h o ho).write (hNoted o ho)
    · exact h o ho
  rcases hEq with rfl | rfl
  · exact hOld
  · exact hOld.of_same rfl rfl (fun _ hp => hp) rfl rfl rfl (.inr rfl)

theorem shadowEnd_allRanges (s : Loader) (i passes : Nat) (touch : Bool) (ram : Nat → Byte) :
    (s.shadowEnd i passes touch ram).allRanges = s.allRanges := by
  unfold Loader.shadowEnd Loader.allRanges
  apply List.ext_getElem?
  intro j
  rw [List.getElem?_map, List.getElem?_map, List.getElem?_modify]
  cases s.cands[j]? with
  | none => rfl
  | some c =>
      change some (if i = j then _ else c : Candidate).ranges = _
      split <;> rfl

theorem shadowEnd_faithful {s : Loader} (h : ∀ c ∈ s.cands, c.Faithful s.mem) {i passes : Nat}
    {touch : Bool} {ram : Nat → Byte} (hSame : ∀ c ∈ s.cands, ∀ r ∈ c.ranges, ∀ a, r.lo ≤ a →
      a < r.lo + r.len → ram a = s.mem.ram a) :
    ∀ c ∈ (s.shadowEnd i passes touch ram).cands,
      c.Faithful (s.shadowEnd i passes touch ram).mem := by
  have hCopied : ∀ c ∈ s.cands, c.Faithful { s.mem with ram := ram } := by
    intro c hc
    have hCrc : candCrc ram c.ranges = candCrc s.mem.ram c.ranges := candCrc_congr (hSame c hc)
    refine ⟨⟨fun hValid hSum => ?_, (h c hc).le, (h c hc).watched⟩, fun hInvalid hSum => ?_⟩
    · rw [hCrc]
      exact (h c hc).hash hValid hSum
    · rw [hCrc]
      exact (h c hc).miss hInvalid hSum
  intro c hc
  obtain ⟨j, hj⟩ := List.getElem?_of_mem hc
  rw [Loader.shadowEnd, List.getElem?_modify] at hj
  obtain ⟨o, ho, rfl⟩ := Option.map_eq_some_iff.mp hj
  have hOld := hCopied o (List.mem_of_getElem? ho)
  split
  · exact hOld.of_same rfl rfl (fun _ hp => hp) rfl rfl rfl (.inl rfl)
  · exact hOld

theorem lookupStep_kept (h : RangeKept s) (e : LookupEvent) (hOk : LookupOk s e) :
    RangeKept (lookupStep T s e) := by
  have hSame : ∀ t : Loader, t.allRanges = s.loader.allRanges →
      (∀ c ∈ t.cands, c.Faithful t.mem) → RangeKept ⟨t, s.index⟩ := by
    intro t hAll hFaithful
    have hLists : s.index.Lists s.loader.allRanges := h.indexed
    rw [← hAll] at hLists
    exact ⟨hLists, hFaithful⟩
  cases e with
  | register f =>
      unfold lookupStep RangeLoader.candRegister
      dsimp only
      split
      · exact h
      next hRoom => exact h.grown (candRegister_grown f hRoom)
  | registerSljit shard =>
      unfold lookupStep RangeLoader.registerSljit
      dsimp only
      split
      · exact h
      next hRoom => exact h.grown (registerSljit_grown hRoom hOk)
  | store st => exact hSame _ (store_allRanges T s.loader st) (store_faithful h.faithful hOk)
  | find phys =>
      rw [lookupStep, RangeLoader.findByRange_eq h.indexed]
      exact h.looked (findByRange_owns (allJudged h hOk) phys).1
  | checkEntry i => exact h.looked (checkEntry_looked (allJudged h hOk) i)
  | called i =>
      refine hSame _ ?_ ?_
      · unfold Loader.push
        split <;> rfl
      · unfold Loader.push
        split <;> exact h.faithful
  | returned => exact hSame _ rfl h.faithful
  | shadowEnd i passes touch ram =>
      exact hSame _ (shadowEnd_allRanges s.loader i passes touch ram)
        (shadowEnd_faithful h.faithful hOk)

/-- In every run whose steps are such as the cached verdicts rest on, the lookup of an
owner gives the answer of the plain scan in the order of registration, unless the
cache of hot addresses is out of order. -/
theorem findByRange_iff_cacheInOrder (hStart : start.Started)
    (hRun : Reach (lookupStep T) LookupOk start s) (hNear : s.AllNear) (phys : Nat) :
    (s.findByRange phys).2 = s.loader.firstOwner phys ↔ s.loader.CacheInOrder phys := by
  have hKept : RangeKept s := by
    refine hRun.invariant ⟨?_, fun c hc => ?_⟩ fun s e h hOk => lookupStep_kept h e hOk
    · have hAll : start.loader.allRanges = [] := by
        rw [Loader.allRanges, hStart.cands, List.map_nil]
      rw [RangeLoader.Indexed, hStart.index, hAll]
      exact RangeIndex.lists_init
    · rw [hStart.cands] at hc
      cases hc
  rw [RangeLoader.findByRange_eq hKept.indexed]
  exact findByRange_eq_firstOwner (allJudged hKept hNear) phys

def emptyRangeLoader : RangeLoader := ⟨emptyLoader, RangeIndex.init⟩

/-- The eight bytes at the address `0x10000`. -/
def twoWords : CodeRange := ⟨0x10000, 8, by decide, by decide⟩

/-- A function over two words and one over the first of them are registered, and
only the second one has its bytes in memory. -/
def reordered : RangeLoader :=
  lookupStep oneBody (lookupStep oneBody emptyRangeLoader (.register ⟨0x10000, [twoWords],
    some (candCrc (writeBytes (fun _ => 0) 0x10004 4 1) [twoWords]), 0⟩))
      (.register ⟨0x10000, [oneWord], none, 1⟩)

theorem reordered_near : reordered.AllNear := by decide +kernel

theorem findByRange_iff_cacheInOrder_reordered :
    (reordered.findByRange 0x10000).2 = reordered.loader.firstOwner 0x10000 := by
  have hRun : Reach (lookupStep oneBody) LookupOk emptyRangeLoader reordered :=
    (Reach.start.next (LookupEvent.register _) trivial).next (LookupEvent.register _) trivial
  refine (findByRange_iff_cacheInOrder ⟨rfl, rfl, rfl⟩ hRun reordered_near 0x10000).mpr ?_
  intro i hSlot
  have hNone : reordered.loader.pcCache (Loader.pcSlot 0x10000) = none := by decide +kernel
  exact absurd (hNone.symm.trans hSlot) (Option.some_ne_none _).symm

/-- The second function is looked up, the first one gets its bytes, and the lookup
goes on finding the second. -/
theorem later_owner_found :
    let s := [LookupEvent.find 0x10000, .store ⟨0x10004, .word, 1⟩].foldl
      (lookupStep oneBody) reordered
    (s.findByRange 0x10000).2 = some 1 ∧ s.loader.firstOwner 0x10000 = some 0 := by
  decide +kernel

end RecompStudio.Runtime
