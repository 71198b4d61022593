import Mathlib.Algebra.Order.BigOperators.Group.List
import Mathlib.Algebra.Order.Group.Nat
import RecompStudio.Library.Machine
import RecompStudio.Runtime.OverlayLoader

/-!
What the cached verdicts of the overlay loader are worth: a candidate that is
called has the CRC-32 of its live bytes, as long as every store is noted on a
page of the code it writes, the counters do not wrap around between two checks,
and a shard is only registered as valid when its bytes are there.
-/

namespace RecompStudio.Runtime

open Machine

section Sums

variable {m m' : Memory}

theorem pagegenSum_range (r : CodeRange) : m.pagegenSum r.lo r.len =
    ((List.range (pageOf (r.lo + r.len - 1) + 1 - pageOf r.lo)).map fun i =>
      m.pageGen (pageOf r.lo + i)).sum := by
  have hPos := r.pos
  have hInside := r.inside
  rw [Memory.pagegenSum, if_neg (by omega), Nat.min_eq_left (by omega)]

theorem pagegenSum_le (hGens : ∀ p, m.pageGen p ≤ m'.pageGen p) (r : CodeRange) :
    m.pagegenSum r.lo r.len ≤ m'.pagegenSum r.lo r.len := by
  rw [pagegenSum_range, pagegenSum_range]
  exact List.sum_le_sum fun i _ => hGens _

/-- A page of the range has moved on. -/
theorem pagegenSum_lt (hGens : ∀ p, m.pageGen p ≤ m'.pageGen p) (r : CodeRange) {p : Nat}
    (hFirst : pageOf r.lo ≤ p) (hLast : p ≤ pageOf (r.lo + r.len - 1))
    (hMoved : m.pageGen p < m'.pageGen p) :
    m.pagegenSum r.lo r.len < m'.pagegenSum r.lo r.len := by
  rw [pagegenSum_range, pagegenSum_range]
  refine List.sum_lt_sum _ _ (fun i _ => hGens _) ⟨p - pageOf r.lo, ?_, ?_⟩
  · exact List.mem_range.mpr (by omega)
  · rwa [show pageOf r.lo + (p - pageOf r.lo) = p by omega]

theorem candGensum_le (hGens : ∀ p, m.pageGen p ≤ m'.pageGen p) (ranges : List CodeRange) :
    candGensum m ranges ≤ candGensum m' ranges :=
  List.sum_le_sum fun r _ => pagegenSum_le hGens r

theorem candGensum_lt (hGens : ∀ p, m.pageGen p ≤ m'.pageGen p) {ranges : List CodeRange}
    {r : CodeRange} (hr : r ∈ ranges) {p : Nat} (hFirst : pageOf r.lo ≤ p)
    (hLast : p ≤ pageOf (r.lo + r.len - 1)) (hMoved : m.pageGen p < m'.pageGen p) :
    candGensum m ranges < candGensum m' ranges :=
  List.sum_lt_sum _ _ (fun r _ => pagegenSum_le hGens r)
    ⟨r, hr, pagegenSum_lt hGens r hFirst hLast hMoved⟩

theorem candGensum_congr (hGens : m'.pageGen = m.pageGen) (ranges : List CodeRange) :
    candGensum m' ranges = candGensum m ranges := by
  simp only [candGensum, pagegenSum_range, hGens]

theorem candCrc_congr {ram ram' : Nat → Byte} {ranges : List CodeRange}
    (hSame : ∀ r ∈ ranges, ∀ a, r.lo ≤ a → a < r.lo + r.len → ram' a = ram a) :
    candCrc ram' ranges = candCrc ram ranges := by
  have hBytes : ∀ r ∈ ranges, r.bytes ram' = r.bytes ram := by
    intro r hr
    refine List.map_congr_left fun i hi => ?_
    exact hSame r hr _ (by omega) (by have := List.mem_range.mp hi; omega)
  rw [candCrc, candCrc]
  congr 1
  refine List.foldl_ext _ _ _ fun crc r hr => ?_
  rw [hBytes r hr]

end Sums

/-- The page is one of those that a range lies in. -/
def CodeRange.OnPage (r : CodeRange) (p : Nat) : Prop :=
  pageOf r.lo ≤ p ∧ p ≤ pageOf (r.lo + r.len - 1)

/-- The cached verdict of a candidate: valid means that the bytes match while
the generations of its pages, all of them watched, have not moved. -/
structure Candidate.Sound (m : Memory) (c : Candidate) : Prop where
  hash : c.state = .valid → candGensum m c.ranges = c.valGen →
    candCrc m.ram c.ranges = c.crcCode
  le : c.valGen ≤ candGensum m c.ranges
  watched : ∀ r ∈ c.ranges, ∀ p, r.OnPage p → m.watched p = true

/-- No sum of generations has come round to the one of the last check. -/
@[grind =] def Candidate.Near (m : Memory) (c : Candidate) : Prop :=
  candGensum m c.ranges < c.valGen + 2 ^ 32

instance (m : Memory) (c : Candidate) : Decidable (c.Near m) := inferInstanceAs (Decidable (_ < _))

/-- A store that writes into the code of a candidate begins on a page of it. -/
def GuestStore.Noted (st : GuestStore) (c : Candidate) : Prop :=
  (∃ r ∈ c.ranges, r.Touched st.phys st.width.bytes) → ∃ r ∈ c.ranges, r.OnPage (pageOf st.phys)

section Store

variable {T : KernelBodies} {s : Loader} {m m' : Memory} {c : Candidate}

theorem Candidate.Sound.of_same (h : c.Sound m) {c' : Candidate} (hRam : m'.ram = m.ram)
    (hGens : m'.pageGen = m.pageGen) (hWatched : ∀ p, m.watched p = true → m'.watched p = true)
    (hRanges : c'.ranges = c.ranges) (hCrc : c'.crcCode = c.crcCode)
    (hValGen : c'.valGen = c.valGen) (hState : c'.state = .valid → c.state = .valid) :
    c'.Sound m' where
  hash := by
    rw [hRanges, hCrc, hValGen, hRam, candGensum_congr hGens]
    exact fun hValid => h.hash (hState hValid)
  le := by
    rw [hRanges, hValGen, candGensum_congr hGens]
    exact h.le
  watched := by
    rw [hRanges]
    exact fun r hr p hp => hWatched p (h.watched r hr p hp)

theorem textNoteWrite_pageGen (phys size : Nat) (val : Word) :
    (m.textNoteWrite phys size val).pageGen = m.pageGen ∧
      (m.textNoteWrite phys size val).watched = m.watched := by
  unfold Memory.textNoteWrite
  split
  · exact ⟨rfl, rfl⟩
  · split <;> exact ⟨rfl, rfl⟩

theorem markKernelWrite_pageGen (phys : Nat) :
    (m.markKernelWrite T phys).pageGen = m.pageGen ∧
      (m.markKernelWrite T phys).watched = m.watched := by
  unfold Memory.markKernelWrite Memory.kblessNoteWrite
  split
  · split <;> exact ⟨rfl, rfl⟩
  · exact ⟨rfl, rfl⟩

/-- A store moves the generation of its first page, if that is watched. -/
theorem write_pageGen (phys size : Nat) (val : Word) (p : Nat) :
    (m.write T phys size val).pageGen p =
      if p = pageOf phys ∧ m.watched p = true then m.pageGen p + 1 else m.pageGen p := by
  obtain ⟨hKernel, hKernelWatched⟩ := markKernelWrite_pageGen (m := m) (T := T) phys
  obtain ⟨hText, hTextWatched⟩ :=
    textNoteWrite_pageGen (m := m.markKernelWrite T phys) phys size val
  simp only [Memory.write, Memory.watchNoteWrite, hTextWatched, hKernelWatched]
  split
  · simp only [hText, hKernel]
    by_cases hp : p = pageOf phys
    · subst hp
      simp [*]
    · simp [hp]
  · simp only [hText, hKernel]
    by_cases hp : p = pageOf phys
    · subst hp
      simp [*]
    · simp [hp]

theorem write_watched (phys size : Nat) (val : Word) :
    (m.write T phys size val).watched = m.watched := by
  obtain ⟨-, hKernelWatched⟩ := markKernelWrite_pageGen (m := m) (T := T) phys
  obtain ⟨-, hTextWatched⟩ := textNoteWrite_pageGen (m := m.markKernelWrite T phys) phys size val
  simp only [Memory.write, Memory.watchNoteWrite]
  split <;> simp only [hTextWatched, hKernelWatched]

/-- The bytes of ranges that a store does not touch. -/
theorem candCrc_write {phys size : Nat} (val : Word) {ranges : List CodeRange}
    (hMiss : ∀ r ∈ ranges, ¬r.Touched phys size) :
    candCrc (m.write T phys size val).ram ranges = candCrc m.ram ranges := by
  refine candCrc_congr fun r hr a hLo hHi => ?_
  have := hMiss r hr
  rw [CodeRange.Touched] at this
  exact writeBytes_of_outside val (by omega)

theorem Candidate.Sound.write (h : c.Sound m) {st : GuestStore} (hNoted : st.Noted c) :
    c.Sound (m.write T st.phys st.width.bytes st.val) := by
  have hGens : ∀ p, m.pageGen p ≤ (m.write T st.phys st.width.bytes st.val).pageGen p := by
    intro p
    rw [write_pageGen]
    split <;> omega
  refine ⟨fun hValid hSum => ?_, h.le.trans (candGensum_le hGens _), ?_⟩
  · by_cases hTouched : ∃ r ∈ c.ranges, r.Touched st.phys st.width.bytes
    · -- The noted page is watched, so that the sum has moved past the one of the check.
      obtain ⟨r, hr, hPage⟩ := hNoted hTouched
      have hLess := candGensum_lt hGens hr hPage.1 hPage.2 (by
        rw [write_pageGen, if_pos ⟨rfl, h.watched r hr _ hPage⟩]
        omega)
      have := h.le
      omega
    · have hMiss : ∀ r ∈ c.ranges, ¬r.Touched st.phys st.width.bytes :=
        fun r hr hHit => hTouched ⟨r, hr, hHit⟩
      rw [candCrc_write st.val hMiss]
      have := candGensum_le hGens c.ranges
      have := h.le
      exact h.hash hValid (by omega)
  · rw [write_watched]
    exact h.watched

end Store

/-- What a dispatch relies on of a candidate, and a property of its ranges. -/
structure Checked (P : CodeRange → Prop) (m : Memory) (c : Candidate) : Prop where
  sound : c.Sound m
  near : c.Near m
  allowed : ∀ r ∈ c.ranges, P r

/-- The last check of the candidate found its bytes, and no page has moved. -/
def Live (m : Memory) (c : Candidate) : Prop :=
  c.state = .valid ∧ candGensum m c.ranges = c.valGen

/-- A part of a dispatch leaves the bytes and the generations, and all the
candidates are still as they should be. -/
structure Steady (P : CodeRange → Prop) (s s' : Loader) : Prop where
  ram : s'.mem.ram = s.mem.ram
  gens : s'.mem.pageGen = s.mem.pageGen
  checked : ∀ c ∈ s'.cands, Checked P s'.mem c

section Dispatch

variable {P : CodeRange → Prop} {s s' s'' : Loader} {m m' : Memory} {c : Candidate}

theorem Checked.crc (h : Checked P m c) (hLive : Live m c) :
    candCrc m.ram c.ranges = c.crcCode := h.sound.hash hLive.1 hLive.2

theorem Checked.of_same (h : Checked P m c) {c' : Candidate} (hRam : m'.ram = m.ram)
    (hGens : m'.pageGen = m.pageGen) (hWatched : ∀ p, m.watched p = true → m'.watched p = true)
    (hRanges : c'.ranges = c.ranges) (hCrc : c'.crcCode = c.crcCode)
    (hValGen : c'.valGen = c.valGen) (hState : c'.state = .valid → c.state = .valid) :
    Checked P m' c' where
  sound := h.sound.of_same hRam hGens hWatched hRanges hCrc hValGen hState
  near := by
    rw [Candidate.Near, hRanges, hValGen, candGensum_congr hGens]
    exact h.near
  allowed := by
    rw [hRanges]
    exact h.allowed

theorem Steady.refl (h : ∀ c ∈ s.cands, Checked P s.mem c) : Steady P s s := ⟨rfl, rfl, h⟩

theorem Steady.trans (h : Steady P s s') (h' : Steady P s' s'') : Steady P s s'' :=
  ⟨h'.ram.trans h.ram, h'.gens.trans h.gens, h'.checked⟩

/-- Between two checks that are near each other, 32 bits tell whether the sum
has moved. -/
theorem Checked.current_iff (h : Checked P m c) :
    c.Current m ↔ candGensum m c.ranges = c.valGen := by
  have hLe := h.sound.le
  have hNear := h.near
  rw [Candidate.Near] at hNear
  rw [Candidate.Current]
  omega

theorem Checked.rehash (h : Checked P m c) {state : EntryState}
    (hState : state = .valid → candCrc m.ram c.ranges = c.crcCode) :
    Checked P m { c with valGen := candGensum m c.ranges, state := state } where
  sound := ⟨fun hValid _ => hState hValid, le_rfl, h.sound.watched⟩
  near := Nat.lt_add_of_pos_right (by decide)
  allowed := h.allowed

theorem Checked.validate (h : Checked P m c) :
    Checked P m (c.validate m).1 ∧ ((c.validate m).2 = true → Live m (c.validate m).1) := by
  unfold Candidate.validate
  split
  · rename_i hFast
    exact ⟨h, fun _ => ⟨hFast.1, h.current_iff.mp hFast.2⟩⟩
  · split
    · exact ⟨h, fun hFalse => absurd hFalse (by simp)⟩
    · split
      · rename_i hMatch
        exact ⟨h.rehash fun _ => hMatch, fun _ => ⟨rfl, rfl⟩⟩
      · exact ⟨h.rehash fun hValid => EntryState.noConfusion hValid,
          fun hFalse => absurd hFalse (by simp)⟩

theorem revalidate_of_live (hLive : Live m c) : c.revalidate m = (c, true) := by
  rw [Candidate.revalidate, if_pos ⟨hLive.1, by rw [Candidate.Current, hLive.2]⟩]

theorem setCand_steady (h : ∀ c ∈ s.cands, Checked P s.mem c) (i : Nat)
    (hc : Checked P s.mem c) : Steady P s (s.setCand i c) := by
  refine ⟨rfl, rfl, fun d hd => ?_⟩
  rcases List.mem_or_eq_of_mem_set hd with hOld | rfl
  · exact h d hOld
  · exact hc

theorem push_steady (h : ∀ c ∈ s.cands, Checked P s.mem c) (i : Nat) :
    Steady P s (s.push i) := by
  unfold Loader.push
  split <;> exact ⟨rfl, rfl, h⟩

/-- Watching sets the bits of the pages of the ranges and nothing else. -/
theorem watch_fold (ranges : List CodeRange) (m : Memory) :
    let m' := ranges.foldl (fun m r => m.watchSetRange r.lo r.len) m
    m'.ram = m.ram ∧ m'.pageGen = m.pageGen ∧ (∀ p, m.watched p = true → m'.watched p = true) ∧
      ∀ r ∈ ranges, ∀ p, r.OnPage p → m'.watched p = true := by
  induction ranges generalizing m with
  | nil => simp
  | cons r rest ih =>
      have hPos := r.pos
      have hInside := r.inside
      have hOne : m.watchSetRange r.lo r.len = { m with
          watched := setBits m.watched (pageOf r.lo) (pageOf (r.lo + r.len - 1)) true } := by
        rw [Memory.watchSetRange, if_neg (by omega), Nat.min_eq_left (by omega)]
      obtain ⟨hRam, hGens, hKeep, hCover⟩ := ih (m.watchSetRange r.lo r.len)
      rw [hOne] at hRam hGens hKeep hCover
      rw [List.foldl_cons, hOne]
      refine ⟨hRam, hGens, fun p hp => hKeep p ?_, ?_⟩
      · simp [setBits, hp]
      · intro q hq p hPage
        rcases List.mem_cons.mp hq with rfl | hRest
        · exact hKeep p (by simp [setBits, hPage.1, hPage.2])
        · exact hCover q hRest p hPage

/-- What a registration of ranges does to a loader: it watches more pages and
adds one sound candidate, and may retire some of the others. -/
structure Registered (ranges : List CodeRange) (s s' : Loader) : Prop where
  ram : s'.mem.ram = s.mem.ram
  gens : s'.mem.pageGen = s.mem.pageGen
  watched : ∀ p, s.mem.watched p = true → s'.mem.watched p = true
  cands : ∀ c ∈ s'.cands, (∃ d ∈ s.cands, c = d ∨ c = { d with state := .blacklist }) ∨
    (c.Sound s'.mem ∧ c.Near s'.mem ∧ ∀ r ∈ c.ranges, r ∈ ranges)

theorem Registered.refl (ranges : List CodeRange) (s : Loader) : Registered ranges s s :=
  ⟨rfl, rfl, fun _ hp => hp, fun c hc => .inl ⟨c, hc, .inl rfl⟩⟩

theorem Registered.sound {ranges : List CodeRange} (h : Registered ranges s s')
    (hSound : ∀ c ∈ s.cands, c.Sound s.mem) : ∀ c ∈ s'.cands, c.Sound s'.mem := by
  intro c hc
  rcases h.cands c hc with ⟨d, hd, rfl | rfl⟩ | ⟨hNew, -⟩
  · exact (hSound c hd).of_same h.ram h.gens h.watched rfl rfl rfl id
  · exact (hSound d hd).of_same h.ram h.gens h.watched rfl rfl rfl fun hValid =>
      EntryState.noConfusion hValid
  · exact hNew

theorem Registered.steady {ranges : List CodeRange} (h : Registered ranges s s')
    (hChecked : ∀ c ∈ s.cands, Checked P s.mem c) (hAllowed : ∀ r ∈ ranges, P r) :
    Steady P s s' := by
  refine ⟨h.ram, h.gens, fun c hc => ?_⟩
  rcases h.cands c hc with ⟨d, hd, rfl | rfl⟩ | ⟨hSound, hNear, hRanges⟩
  · exact (hChecked c hd).of_same h.ram h.gens h.watched rfl rfl rfl id
  · exact (hChecked d hd).of_same h.ram h.gens h.watched rfl rfl rfl fun hValid =>
      EntryState.noConfusion hValid
  · exact ⟨hSound, hNear, fun r hr => hAllowed r (hRanges r hr)⟩

theorem registered_append {old : List Candidate} {ranges : List CodeRange} {addr : Nat}
    {crcCode : Word} {state : EntryState} {dll : Option Nat}
    (hState : state = .valid → candCrc s.mem.ram ranges = crcCode)
    (hOld : ∀ c ∈ old, ∃ d ∈ s.cands, c = d ∨ c = { d with state := .blacklist }) :
    Registered ranges s { s with
      mem := s.watch ranges
      cands := old ++
        [⟨addr, ranges, crcCode, candGensum (s.watch ranges) ranges, state, dll, 0, false⟩] } := by
  obtain ⟨hRam, hGens, hKeep, hCover⟩ := watch_fold ranges s.mem
  refine ⟨hRam, hGens, hKeep, fun c hc => ?_⟩
  rcases List.mem_append.mp hc with hOldMem | hNew
  · exact .inl (hOld c hOldMem)
  · obtain rfl := List.mem_singleton.mp hNew
    refine .inr ⟨⟨fun hValid _ => ?_, le_rfl, hCover⟩, ?_, fun r hr => hr⟩
    · rw [← hState hValid]
      exact congrArg (candCrc · ranges) hRam
    · exact Nat.lt_add_of_pos_right (by decide)

theorem candRegister_registered (s : Loader) (f : DllFunction) :
    Registered (f.ranges.take 16) s (s.candRegister f) := by
  unfold Loader.candRegister
  split
  · exact .refl _ s
  · obtain ⟨hRam, -⟩ := watch_fold (f.ranges.take 16) s.mem
    have hLive : candCrc (s.watch (f.ranges.take 16)).ram (f.ranges.take 16) =
        candCrc s.mem.ram (f.ranges.take 16) := congrArg (candCrc · _) hRam
    refine registered_append ?_ ?_
    · intro hValid
      rw [← hLive]
      by_contra hNot
      rw [if_neg hNot] at hValid
      exact EntryState.noConfusion hValid
    · intro c hc
      split at hc
      · obtain ⟨d, hd, rfl⟩ := List.mem_map.mp hc
        refine ⟨d, hd, ?_⟩
        split
        · exact .inr rfl
        · exact .inl rfl
      · exact ⟨c, hc, .inl rfl⟩

/-- A shard from the cache is registered as valid with the hash of its file. -/
def SljitShard.Present (shard : SljitShard) (ram : Nat → Byte) : Prop :=
  shard.crcOverride = 0 ∨ candCrc ram [shard.range] = shard.crcOverride

theorem registerSljit_registered {shard : SljitShard} (hPresent : shard.Present s.mem.ram) :
    Registered [shard.range] s (s.registerSljit shard) := by
  unfold Loader.registerSljit
  split
  · exact .refl _ s
  · obtain ⟨hRam, -⟩ := watch_fold [shard.range] s.mem
    have hLive : candCrc (s.watch [shard.range]).ram [shard.range] =
        candCrc s.mem.ram [shard.range] := congrArg (candCrc · _) hRam
    refine registered_append (fun _ => ?_) fun c hc => ⟨c, hc, .inl rfl⟩
    rcases hPresent with hZero | hSame
    · rw [if_neg (by simpa using hZero), hLive]
    · split
      · exact hSame
      · rw [hLive]

theorem candRegister_memory (s : Loader) (f : DllFunction) :
    (s.candRegister f).mem.ram = s.mem.ram ∧ (s.candRegister f).mem.pageGen = s.mem.pageGen :=
  ⟨(candRegister_registered s f).ram, (candRegister_registered s f).gens⟩

theorem registerSljit_memory (s : Loader) (shard : SljitShard) :
    (s.registerSljit shard).mem.ram = s.mem.ram ∧
      (s.registerSljit shard).mem.pageGen = s.mem.pageGen := by
  unfold Loader.registerSljit
  split
  · exact ⟨rfl, rfl⟩
  · obtain ⟨hRam, hGens, -⟩ := watch_fold [shard.range] s.mem
    exact ⟨hRam, hGens⟩

/-- The candidate at an index is live. -/
def Owned (s : Loader) (i : Nat) : Prop := ∃ c, s.cands[i]? = some c ∧ Live s.mem c

theorem setCand_owned {i : Nat} {d : Candidate} (hd : s.cands[i]? = some d)
    (hLive : Live s.mem c) : Owned (s.setCand i c) i := by
  obtain ⟨hi, -⟩ := List.getElem?_eq_some_iff.mp hd
  exact ⟨c, by rw [Loader.setCand, List.getElem?_set_self hi], hLive⟩

theorem rangeCandidateMatches_steady (h : ∀ c ∈ s.cands, Checked P s.mem c) (i phys : Nat) :
    Steady P s (s.rangeCandidateMatches i phys).1 ∧
      ((s.rangeCandidateMatches i phys).2 = true → Owned (s.rangeCandidateMatches i phys).1 i) := by
  unfold Loader.rangeCandidateMatches
  split
  · exact ⟨.refl h, fun hFalse => absurd hFalse (by simp)⟩
  · rename_i c hc
    split
    · exact ⟨.refl h, fun hFalse => absurd hFalse (by simp)⟩
    · obtain ⟨hChecked, hLive⟩ := (h c (List.mem_of_getElem? hc)).validate
      exact ⟨setCand_steady h i hChecked, fun hOk => setCand_owned hc (hLive hOk)⟩

theorem scanRanges_steady (phys : Nat) (indices : List Nat)
    (h : ∀ c ∈ s.cands, Checked P s.mem c) :
    Steady P s (Loader.scanRanges phys indices s).1 ∧
      ∀ i, (Loader.scanRanges phys indices s).2 = some i →
        Owned (Loader.scanRanges phys indices s).1 i := by
  induction indices generalizing s with
  | nil => exact ⟨.refl h, fun i hNone => absurd hNone (by simp [Loader.scanRanges])⟩
  | cons i rest ih =>
      obtain ⟨hSteady, hOwned⟩ := rangeCandidateMatches_steady h i phys
      rw [Loader.scanRanges]
      split
      · rename_i t hMatches
        rw [hMatches] at hSteady hOwned
        refine ⟨hSteady, fun j hj => ?_⟩
        obtain rfl := Option.some.inj hj
        exact hOwned rfl
      · rename_i t hMatches
        rw [hMatches] at hSteady
        obtain ⟨hRest, hRestOwned⟩ := ih hSteady.checked
        exact ⟨hSteady.trans hRest, hRestOwned⟩

/-- A search keeps the candidates as they should be, and what it comes up with
has a property. -/
structure Delivers {α : Type} (P : CodeRange → Prop) (s : Loader) (R : Loader → α → Prop)
    (found : Loader × Option α) : Prop where
  steady : Steady P s found.1
  found : ∀ a, found.2 = some a → R found.1 a

theorem Delivers.none {α : Type} {R : Loader → α → Prop} (h : Steady P s s') :
    Delivers P s R (s', none) := ⟨h, fun _ hNone => absurd hNone (by simp)⟩

theorem Delivers.some {α : Type} {R : Loader → α → Prop} {a : α} (h : Steady P s s')
    (ha : R s' a) : Delivers P s R (s', some a) := by
  refine ⟨h, fun b hb => ?_⟩
  obtain rfl := Option.some.inj hb
  exact ha

theorem Delivers.orElse {α : Type} {R : Loader → α → Prop} {found : Loader × Option α}
    {next : Loader → Loader × Option α} (h : Delivers P s R found)
    (hNext : ∀ t, Steady P s t → Delivers P t R (next t)) :
    Delivers P s R (Loader.orElse found next) := by
  obtain ⟨t, _ | a⟩ := found
  · have hRest := hNext t h.steady
    exact ⟨h.steady.trans hRest.steady, hRest.found⟩
  · exact h

theorem cachedOwner_delivers (phys : Nat) (h : ∀ c ∈ s.cands, Checked P s.mem c) :
    Delivers P s Owned (s.cachedOwner phys) := by
  unfold Loader.cachedOwner
  split
  · exact .none (.refl h)
  · rename_i pc i _
    split
    · obtain ⟨hSteady, hOwned⟩ := rangeCandidateMatches_steady h i phys
      split
      · rename_i t hMatches
        rw [hMatches] at hSteady hOwned
        exact .some hSteady (hOwned rfl)
      · rename_i t hMatches
        rw [hMatches] at hSteady
        exact .none hSteady
    · exact .none (.refl h)

theorem scanAll_delivers (phys : Nat) (h : ∀ c ∈ s.cands, Checked P s.mem c) :
    Delivers P s Owned (s.scanAll phys) := by
  obtain ⟨hSteady, hOwned⟩ := scanRanges_steady phys (List.range s.cands.length) h
  unfold Loader.scanAll
  split
  · rename_i t hNone
    rw [hNone] at hSteady
    exact .none hSteady
  · rename_i t i hSome
    rw [hSome] at hSteady hOwned
    exact .some ⟨hSteady.ram, hSteady.gens, hSteady.checked⟩ (hOwned i rfl)

theorem findByRange_delivers (phys : Nat) (h : ∀ c ∈ s.cands, Checked P s.mem c) :
    Delivers P s Owned (s.findByRange phys) := by
  unfold Loader.findByRange
  split
  · exact .none (.refl h)
  · exact (cachedOwner_delivers phys h).orElse fun t hSteady =>
      scanAll_delivers phys hSteady.checked

theorem registerSljit_owned {i : Nat} (hOwned : Owned s i) (shard : SljitShard) :
    Owned (s.registerSljit shard) i := by
  obtain ⟨c, hc, hLive⟩ := hOwned
  unfold Loader.registerSljit
  split
  · exact ⟨c, hc, hLive⟩
  · obtain ⟨-, hGens, -⟩ := watch_fold [shard.range] s.mem
    obtain ⟨hi, -⟩ := List.getElem?_eq_some_iff.mp hc
    exact ⟨c, by rw [List.getElem?_append_left hi, hc],
      hLive.1, (candGensum_congr hGens c.ranges).trans hLive.2⟩

/-- The candidates that the lazy sources come up with. -/
structure PassSources.Ok (P : CodeRange → Prop) (ram : Nat → Byte) (src : PassSources) : Prop where
  scanned : ∀ shard ∈ src.scanned, P shard.range ∧ shard.Present ram
  jit : ∀ shard ∈ src.jit, P shard.range ∧ shard.Present ram
  region : ∀ functions, src.region = some functions → ∀ f ∈ functions, ∀ r ∈ f.ranges, P r
  lateRegion : ∀ functions, src.lateRegion = some functions → ∀ f ∈ functions, ∀ r ∈ f.ranges, P r

theorem registerAll_steady (shards : List SljitShard) (h : ∀ c ∈ s.cands, Checked P s.mem c)
    (hShards : ∀ shard ∈ shards, P shard.range ∧ shard.Present s.mem.ram) :
    Steady P s (shards.foldl Loader.registerSljit s) ∧
      ∀ i, Owned s i → Owned (shards.foldl Loader.registerSljit s) i := by
  induction shards generalizing s with
  | nil => exact ⟨.refl h, fun i hi => hi⟩
  | cons shard rest ih =>
      obtain ⟨hAllowed, hPresent⟩ := hShards shard List.mem_cons_self
      have hOne := (registerSljit_registered hPresent).steady h (by simpa using hAllowed)
      obtain ⟨hRest, hOwned⟩ := ih hOne.checked (by
        rw [hOne.ram]
        exact fun shard hMem => hShards shard (List.mem_cons_of_mem _ hMem))
      exact ⟨hOne.trans hRest, fun i hi => hOwned i (registerSljit_owned hi shard)⟩

theorem loadAll_steady (functions : List DllFunction) (h : ∀ c ∈ s.cands, Checked P s.mem c)
    (hFunctions : ∀ f ∈ functions, ∀ r ∈ f.ranges, P r) :
    Steady P s (functions.foldl Loader.candRegister s) := by
  induction functions generalizing s with
  | nil => exact .refl h
  | cons f rest ih =>
      have hOne := (candRegister_registered s f).steady h fun r hr =>
        hFunctions f List.mem_cons_self r (List.mem_of_mem_take hr)
      exact hOne.trans (ih hOne.checked fun g hMem => hFunctions g (List.mem_cons_of_mem _ hMem))

theorem discover_steady (h : ∀ c ∈ s.cands, Checked P s.mem c) {src : PassSources}
    (hSrc : src.Ok P s.mem.ram) (o : Settings) (lazyLoaded : Bool) (phys : Nat) :
    Steady P s (s.discover o src lazyLoaded phys).1 ∧
      ∀ i, (s.discover o src lazyLoaded phys).2.1 = some i →
        Owned (s.discover o src lazyLoaded phys).1 i := by
  obtain ⟨hScan, -⟩ := registerAll_steady src.scanned h hSrc.scanned
  unfold Loader.discover
  dsimp only
  split
  · exact ⟨.refl h, fun i hNone => absurd hNone (by simp)⟩
  split
  · exact ⟨hScan, fun i hNone => absurd hNone (by simp)⟩
  · have hFound : Delivers P (src.scanned.foldl Loader.registerSljit s) Owned
        (if o.cpsMode then (src.scanned.foldl Loader.registerSljit s).findByRange phys
          else (src.scanned.foldl Loader.registerSljit s, none)) := by
      split
      · exact findByRange_delivers phys hScan.checked
      · exact .none (.refl hScan.checked)
    split
    · rename_i functions _ hRegion
      refine ⟨(hScan.trans hFound.steady).trans ?_, fun i hNone => absurd hNone (by simp)⟩
      exact loadAll_steady functions hFound.steady.checked (hSrc.region functions hRegion)
    · have hRam := (hScan.trans hFound.steady).ram
      obtain ⟨hJit, hOwned⟩ := registerAll_steady src.jit hFound.steady.checked (by
        rw [hRam]
        exact hSrc.jit)
      exact ⟨(hScan.trans hFound.steady).trans hJit, fun i hi => hOwned i (hFound.found i hi)⟩

/-- The bytes of a candidate that is called, and the property of its ranges. -/
def Outcome.Called (P : CodeRange → Prop) (s : Loader) : Outcome → Prop
  | .call c => candCrc s.mem.ram c.ranges = c.crcCode ∧ ∀ r ∈ c.ranges, P r
  | .shadow c => candCrc s.mem.ram c.ranges = c.crcCode ∧ ∀ r ∈ c.ranges, P r
  | _ => True

theorem continuation_delivers (h : ∀ c ∈ s.cands, Checked P s.mem c) (o : Settings) (addr : Nat)
    {i : Nat} (hOwned : Owned s i) :
    Delivers P s (Outcome.Called P) (s.continuation o addr i) := by
  obtain ⟨c, hc, hLive⟩ := hOwned
  have hChecked := h c (List.mem_of_getElem? hc)
  have hSet := setCand_steady h i hChecked
  -- The owner has just been found live, so that the second check is the fast one.
  simp only [Loader.continuation, hc, revalidate_of_live hLive]
  split
  · have hPush := push_steady hSet.checked i
    refine .some (hSet.trans hPush) ⟨?_, hChecked.allowed⟩
    rw [hPush.ram]
    exact hChecked.crc hLive
  · exact .some hSet trivial

theorem entryChain_delivers (o : Settings) (addr : Nat) (indices : List Nat)
    (h : ∀ c ∈ s.cands, Checked P s.mem c) :
    Delivers P s (Outcome.Called P) (Loader.entryChain o addr indices s) := by
  induction indices generalizing s with
  | nil => exact .none (.refl h)
  | cons i rest ih =>
      rw [Loader.entryChain]
      split
      · exact ih h
      · rename_i c hc
        split
        · exact ih h
        · obtain ⟨hChecked, hLive⟩ := (h c (List.mem_of_getElem? hc)).validate
          have hSet := setCand_steady h i hChecked
          split
          · rename_i d hValid
            rw [hValid] at hChecked hLive hSet
            have hCrc := hChecked.crc (hLive rfl)
            split
            · exact .some hSet trivial
            · have hPush := push_steady hSet.checked i
              refine .some (hSet.trans hPush) ⟨?_, hChecked.allowed⟩
              rw [hPush.ram]
              exact hCrc
            · exact .some hSet ⟨hCrc, hChecked.allowed⟩
          · rename_i d hStale
            rw [hStale] at hSet
            have hRest := ih hSet.checked
            exact ⟨hSet.trans hRest.steady, hRest.found⟩

theorem continueAt_delivers (h : ∀ c ∈ s.cands, Checked P s.mem c) (o : Settings) (addr : Nat)
    {owner : Option Nat} (hOwner : ∀ i, owner = some i → Owned s i) :
    Delivers P s (Outcome.Called P) (s.continueAt o addr owner) := by
  unfold Loader.continueAt
  split
  · split
    · exact continuation_delivers h o addr (hOwner _ rfl)
    · have hFound := findByRange_delivers (addr % 0x20000000) h
      split
      · rename_i t i hSome
        rw [hSome] at hFound
        have hRun := continuation_delivers hFound.steady.checked o addr (hFound.found i rfl)
        exact ⟨hFound.steady.trans hRun.steady, hRun.found⟩
      · rename_i t hNone
        rw [hNone] at hFound
        exact .none hFound.steady
  · exact .none (.refl h)

theorem lateLoad_delivers (h : ∀ c ∈ s.cands, Checked P s.mem c) {src : PassSources}
    {ram : Nat → Byte} (hSrc : src.Ok P ram) (lazyLoaded : Bool) :
    Delivers P s (Outcome.Called P) (s.lateLoad src lazyLoaded) := by
  unfold Loader.lateLoad
  split
  · rename_i functions _ hRegion
    exact .some (loadAll_steady functions h (hSrc.lateRegion functions hRegion)) trivial
  · exact .some (.refl h) trivial

theorem pass_delivers (h : ∀ c ∈ s.cands, Checked P s.mem c) {src : PassSources}
    (hSrc : src.Ok P s.mem.ram) (o : Settings) (lazyLoaded : Bool) (addr : Nat) :
    Delivers P s (Outcome.Called P) (s.pass o src lazyLoaded addr) := by
  obtain ⟨hSteady, hOwned⟩ := discover_steady h hSrc o lazyLoaded (addr % 0x20000000)
  unfold Loader.pass
  dsimp only
  split
  · exact .some hSteady trivial
  · have hRest := ((continueAt_delivers hSteady.checked o addr hOwned).orElse fun t ht =>
      (entryChain_delivers o addr (t.chain (addr % 0x20000000)) ht.checked).orElse fun u hu =>
        lateLoad_delivers hu.checked hSrc lazyLoaded)
    exact ⟨hSteady.trans hRest.steady, hRest.found⟩

end Dispatch

def Loader.Sound (s : Loader) : Prop := ∀ c ∈ s.cands, c.Sound s.mem

/-- The range is apart from what the caller's pending cycles write. -/
def DispatchInput.Apart (d : DispatchInput) (r : CodeRange) : Prop :=
  ∀ st ∈ d.flush, ¬r.Touched st.phys st.width.bytes

/-- No sum of generations has come round since the last check, the cycles that
are pending write no code, and the shards that are found have their bytes. -/
structure DispatchInput.Ok (s : Loader) (d : DispatchInput) : Prop where
  near : ∀ c ∈ s.cands, c.Near s.mem
  apart : ∀ c ∈ s.cands, ∀ r ∈ c.ranges, d.Apart r
  first : d.first.Ok d.Apart s.mem.ram
  second : d.second.Ok d.Apart s.mem.ram

def LoaderStepOk (s : Loader) : LoaderEvent → Prop
  | .register _ => True
  | .registerSljit shard => shard.Present s.mem.ram
  | .store st => ∀ c ∈ s.cands, st.Noted c
  | .dispatch d => d.Ok s
  | .returned => True
  | .shadowEnd _ _ _ ram =>
      ∀ c ∈ s.cands, ∀ r ∈ c.ranges, ∀ a, r.lo ≤ a → a < r.lo + r.len → ram a = s.mem.ram a

section Runs

variable {T : KernelBodies} {s : Loader} {d : DispatchInput}

theorem mem_activeWriteCheck {phys size : Nat} {c : Candidate}
    (hc : c ∈ s.activeWriteCheck phys size) :
    ∃ o ∈ s.cands, c = o ∨ c = { o with state := .blacklist } := by
  obtain ⟨⟨o, i⟩, ho, rfl⟩ := List.mem_map.mp hc
  refine ⟨o, List.fst_mem_of_mem_zipIdx ho, ?_⟩
  dsimp only
  split
  · exact .inr rfl
  · exact .inl rfl

/-- A store leaves the candidates, up to those it blacklists. -/
theorem mem_store_cands {st : GuestStore} {c : Candidate} (hc : c ∈ (s.store T st).cands) :
    ∃ o ∈ s.cands, c = o ∨ c = { o with state := .blacklist } := by
  unfold Loader.store at hc
  split at hc
  · dsimp only at hc
    split at hc
    · exact mem_activeWriteCheck hc
    · exact ⟨c, hc, .inl rfl⟩
  · exact ⟨c, hc, .inl rfl⟩

theorem store_sound (h : s.Sound) {st : GuestStore} (hNoted : ∀ c ∈ s.cands, st.Noted c) :
    (s.store T st).Sound := by
  intro c hc
  obtain ⟨o, ho, hEq⟩ := mem_store_cands hc
  have hOld : o.Sound (s.store T st).mem := by
    unfold Loader.store
    split
    · exact (h o ho).write (hNoted o ho)
    · exact h o ho
  rcases hEq with rfl | rfl
  · exact hOld
  · exact hOld.of_same rfl rfl (fun _ hp => hp) rfl rfl rfl fun hValid =>
      EntryState.noConfusion hValid

theorem candCrc_store {st : GuestStore} {ranges : List CodeRange}
    (hMiss : ∀ r ∈ ranges, ¬r.Touched st.phys st.width.bytes) :
    candCrc (s.store T st).mem.ram ranges = candCrc s.mem.ram ranges := by
  unfold Loader.store
  split
  · exact candCrc_write st.val hMiss
  · rfl

/-- Stores that are apart from the code of all candidates. -/
theorem flush_sound (flush : List GuestStore) (h : s.Sound)
    (hApart : ∀ c ∈ s.cands, ∀ r ∈ c.ranges, ∀ st ∈ flush, ¬r.Touched st.phys st.width.bytes) :
    (flush.foldl (Loader.store T) s).Sound := by
  induction flush generalizing s with
  | nil => exact h
  | cons st rest ih =>
      refine ih (store_sound h fun c hc hTouched => ?_) fun c hc r hr st' hst' => ?_
      · obtain ⟨r, hr, hHit⟩ := hTouched
        exact absurd hHit (hApart c hc r hr st List.mem_cons_self)
      · obtain ⟨o, ho, rfl | rfl⟩ := mem_store_cands hc
        · exact hApart c ho r hr st' (List.mem_cons_of_mem _ hst')
        · exact hApart o ho r hr st' (List.mem_cons_of_mem _ hst')

theorem candCrc_flush (flush : List GuestStore) {ranges : List CodeRange}
    (hApart : ∀ r ∈ ranges, ∀ st ∈ flush, ¬r.Touched st.phys st.width.bytes) :
    candCrc (flush.foldl (Loader.store T) s).mem.ram ranges = candCrc s.mem.ram ranges := by
  induction flush generalizing s with
  | nil => rfl
  | cons st rest ih =>
      rw [List.foldl_cons, ih fun r hr st' hst' => hApart r hr st' (List.mem_cons_of_mem _ hst')]
      exact candCrc_store fun r hr => hApart r hr st List.mem_cons_self

/-- The passes of a dispatch, before the pending cycles are committed. -/
theorem passes_delivers (h : s.Sound) (hOk : d.Ok s) :
    Delivers d.Apart s (Outcome.Called d.Apart)
      (match s.pass d.settings d.first false d.addr with
        | (s, some .retry) => s.pass d.settings d.second true d.addr
        | ended => ended) := by
  have hChecked : ∀ c ∈ s.cands, Checked d.Apart s.mem c :=
    fun c hc => ⟨h c hc, hOk.near c hc, hOk.apart c hc⟩
  have hFirst := pass_delivers hChecked hOk.first d.settings false d.addr
  split
  · rename_i t hRetry
    rw [hRetry] at hFirst
    have hSecond := pass_delivers hFirst.steady.checked (hFirst.steady.ram ▸ hOk.second)
      d.settings true d.addr
    exact ⟨hFirst.steady.trans hSecond.steady, hSecond.found⟩
  · exact hFirst

theorem dispatch_sound (h : s.Sound) (hOk : d.Ok s) :
    (s.dispatch T d).1.Sound ∧ ∀ c, (s.dispatch T d).2 = some c →
      candCrc (s.dispatch T d).1.mem.ram c.ranges = c.crcCode := by
  have hEnded := passes_delivers h hOk
  have hChecked := hEnded.steady.checked
  unfold Loader.dispatch
  dsimp only
  split
  · rename_i c hCall
    obtain ⟨hCrc, hApart⟩ := hEnded.found _ hCall
    refine ⟨flush_sound d.flush (fun c hc => (hChecked c hc).sound) fun c hc =>
      (hChecked c hc).allowed, fun c' hc' => ?_⟩
    obtain rfl := Option.some.inj hc'
    exact (candCrc_flush d.flush hApart).trans hCrc
  · rename_i c hCall
    obtain ⟨hCrc, hApart⟩ := hEnded.found _ hCall
    refine ⟨flush_sound d.flush (fun c hc => (hChecked c hc).sound) fun c hc =>
      (hChecked c hc).allowed, fun c' hc' => ?_⟩
    obtain rfl := Option.some.inj hc'
    exact (candCrc_flush d.flush hApart).trans hCrc
  · exact ⟨fun c hc => (hChecked c hc).sound, fun c hNone => absurd hNone (by simp)⟩

theorem shadowEnd_sound (h : s.Sound) {i passes : Nat} {touch : Bool} {ram : Nat → Byte}
    (hSame : ∀ c ∈ s.cands, ∀ r ∈ c.ranges, ∀ a, r.lo ≤ a → a < r.lo + r.len →
    ram a = s.mem.ram a) :
    (s.shadowEnd i passes touch ram).Sound := by
  have hCopied : ∀ c ∈ s.cands, c.Sound { s.mem with ram := ram } := by
    intro c hc
    refine ⟨fun hValid hSum => ?_, (h c hc).le, (h c hc).watched⟩
    rw [candCrc_congr (hSame c hc)]
    exact (h c hc).hash hValid hSum
  intro c hc
  obtain ⟨j, hj⟩ := List.getElem?_of_mem hc
  simp only [Loader.shadowEnd, List.getElem?_modify] at hj
  split at hj
  · obtain ⟨o, ho, rfl⟩ := Option.map_eq_some_iff.mp hj
    exact (hCopied o (List.mem_of_getElem? ho)).of_same rfl rfl (fun _ hp => hp) rfl rfl rfl id
  · obtain ⟨o, ho, rfl⟩ := Option.map_eq_some_iff.mp hj
    exact hCopied o (List.mem_of_getElem? ho)

theorem loaderStep_sound (h : s.Sound) (e : LoaderEvent) (hOk : LoaderStepOk s e) :
    (loaderStep T s e).Sound := by
  cases e with
  | register f => exact (candRegister_registered s f).sound h
  | registerSljit shard => exact (registerSljit_registered hOk).sound h
  | store st => exact store_sound h hOk
  | dispatch d => exact (dispatch_sound h hOk).1
  | returned => exact h
  | shadowEnd i passes touch ram => exact shadowEnd_sound h hOk

end Runs

/-- In every run whose steps are such as the loader relies on, a candidate that
a dispatch calls has the CRC-32 of its live bytes at the moment of the call. -/
theorem crc_of_called {T : KernelBodies} {start s : Loader} (hStart : start.cands = [])
    (hRun : Reach (loaderStep T) LoaderStepOk start s) {d : DispatchInput}
    (hOk : LoaderStepOk s (.dispatch d)) {c : Candidate} (hCall : (s.dispatch T d).2 = some c) :
    candCrc (s.dispatch T d).1.mem.ram c.ranges = c.crcCode := by
  have hSound : s.Sound := by
    refine hRun.invariant ?_ fun s e h hOk => loaderStep_sound h e hOk
    intro c hc
    rw [hStart] at hc
    exact absurd hc List.not_mem_nil
  exact (dispatch_sound hSound hOk).2 c hCall

def emptyLoader : Loader := ⟨zeroMemory, [], [], fun _ => none⟩

/-- The four bytes at the address `0x10000`. -/
theorem oneWord_pos : 0 < 4 := by decide

def oneWord : CodeRange := ⟨0x10000, 4, oneWord_pos, by decide⟩

def noSources : PassSources := ⟨false, [], false, none, [], none⟩

/-- A dispatch to `0x80010000` with nothing in the way. -/
def plainDispatch : DispatchInput where
  addr := 0x80010000
  settings := ⟨true, false, false, true, false, false, none, fun _ => false⟩
  first := noSources
  second := noSources
  flush := []

theorem noSources_ok (P : CodeRange → Prop) (ram : Nat → Byte) : noSources.Ok P ram where
  scanned := by simp [noSources]
  jit := by simp [noSources]
  region := by simp [noSources]
  lateRegion := by simp [noSources]

/-- A function that is registered while its bytes are in memory is called. -/
theorem crc_of_called_registered :
    let s := loaderStep oneBody emptyLoader (.register ⟨0x10000, [oneWord], none, 0⟩)
    ∃ c, (s.dispatch oneBody plainDispatch).2 = some c ∧
      candCrc (s.dispatch oneBody plainDispatch).1.mem.ram c.ranges = c.crcCode := by
  intro s
  have hRun : Reach (loaderStep oneBody) LoaderStepOk emptyLoader s := Reach.start.next _ trivial
  have hNear : ∀ c ∈ s.cands, c.Near s.mem := by
    intro c hc
    rcases (candRegister_registered emptyLoader _).cands c hc with ⟨d, hd, _⟩ | ⟨_, hNear, _⟩
    · exact absurd hd List.not_mem_nil
    · exact hNear
  have hOk : LoaderStepOk s (.dispatch plainDispatch) :=
    { near := hNear
      apart := fun c hc r hr st hst => absurd hst List.not_mem_nil
      first := noSources_ok _ _
      second := noSources_ok _ _ }
  have hCalled : (s.dispatch oneBody plainDispatch).2.isSome = true := by decide +kernel
  obtain ⟨c, hCall⟩ := Option.isSome_iff_exists.mp hCalled
  exact ⟨c, hCall, crc_of_called rfl hRun hOk hCall⟩

/-- A shard from the cache is called though its bytes are not in memory. -/
theorem crc_of_called_reloaded :
    ¬∀ (T : KernelBodies) (start s : Loader) (d : DispatchInput) (c : Candidate),
      start.cands = [] → Reach (loaderStep T) (fun _ _ => True) start s →
      (∀ c ∈ s.cands, c.Near s.mem) → (s.dispatch T d).2 = some c →
      candCrc (s.dispatch T d).1.mem.ram c.ranges = c.crcCode := by
  intro hClaim
  have hNear : ((emptyLoader.registerSljit ⟨0x10000, oneWord, 1⟩).cands.all fun c =>
      c.Near (emptyLoader.registerSljit ⟨0x10000, oneWord, 1⟩).mem) = true := by decide
  have hCalled : (((emptyLoader.registerSljit ⟨0x10000, oneWord, 1⟩).dispatch oneBody
      plainDispatch).2.map fun c => (candCrc ((emptyLoader.registerSljit
        ⟨0x10000, oneWord, 1⟩).dispatch oneBody plainDispatch).1.mem.ram c.ranges, c.crcCode)) =
      some (0x2144DF1C, 1) := by decide +kernel
  obtain ⟨c, hCall, hPair⟩ := Option.map_eq_some_iff.mp hCalled
  have hRun : Reach (loaderStep oneBody) (fun _ _ => True) emptyLoader
      (emptyLoader.registerSljit ⟨0x10000, oneWord, 1⟩) :=
    Reach.start.next (LoaderEvent.registerSljit ⟨0x10000, oneWord, 1⟩) trivial
  have hCrc := hClaim oneBody emptyLoader _ plainDispatch c rfl hRun
    (fun c hc => of_decide_eq_true (List.all_eq_true.mp hNear c hc)) hCall
  obtain ⟨hLive, hCode⟩ := Prod.mk.inj hPair
  rw [hLive, hCode] at hCrc
  exact absurd hCrc (by decide)

end RecompStudio.Runtime
