import RecompStudio.Runtime.OverlaySafety

/-!
What the passes of a dispatch do to the stack of active candidates and to the
watched pages: at most one candidate is pushed, whatever is on the stack, and the
pages of every candidate's code stay watched.
-/

namespace RecompStudio.Runtime

namespace Loader

variable (s : Loader) (d : DispatchInput)

/-- The passes of a dispatch, before the pending cycles are committed. -/
@[grind =] def passes : Loader × Option Outcome :=
  match s.pass d.settings d.first false d.addr with
  | (s, some .retry) => s.pass d.settings d.second true d.addr
  | ended => ended

/-- The candidate that a dispatch calls natively, as the passes push it on a
stack with room. -/
def called : Option Nat := (passes { s with active := [] } d).1.active.head?

/-- The same loader with other activations. -/
@[grind =] def withActive (a : List Nat) (s : Loader) : Loader := { s with active := a }

/-- What a part of a dispatch finds, with other activations. -/
@[grind =] def foundWith {α : Type} (a : List Nat) (found : Loader × α) : Loader × α :=
  (found.1.withActive a, found.2)

section Searches

variable (a : List Nat) (s : Loader)

theorem registerSljit_withActive (shard : SljitShard) :
    (s.withActive a).registerSljit shard = (s.registerSljit shard).withActive a := by
  obtain ⟨mem, cands, active, pcCache⟩ := s
  dsimp only [withActive, registerSljit]
  split <;> rfl

theorem candRegister_withActive (f : DllFunction) :
    (s.withActive a).candRegister f = (s.candRegister f).withActive a := by
  obtain ⟨mem, cands, active, pcCache⟩ := s
  dsimp only [withActive, candRegister]
  split <;> rfl

theorem rangeCandidateMatches_withActive (i phys : Nat) :
    (s.withActive a).rangeCandidateMatches i phys =
      foundWith a (s.rangeCandidateMatches i phys) := by
  obtain ⟨mem, cands, active, pcCache⟩ := s
  dsimp only [withActive, rangeCandidateMatches]
  split
  · rfl
  · split <;> rfl

theorem scanRanges_withActive (phys : Nat) (indices : List Nat) :
    scanRanges phys indices (s.withActive a) = foundWith a (scanRanges phys indices s) := by
  induction indices generalizing s with
  | nil => rfl
  | cons i rest ih =>
      rw [scanRanges, scanRanges, rangeCandidateMatches_withActive]
      obtain ⟨t, _ | _⟩ := s.rangeCandidateMatches i phys
      · exact ih t
      · rfl

theorem cachedOwner_withActive (phys : Nat) :
    (s.withActive a).cachedOwner phys = foundWith a (s.cachedOwner phys) := by
  have hCache : (s.withActive a).pcCache = s.pcCache := rfl
  rw [cachedOwner, cachedOwner, hCache]
  match s.pcCache (pcSlot phys) with
  | none => rfl
  | some (pc, i) =>
      dsimp only
      rw [rangeCandidateMatches_withActive]
      split
      · match s.rangeCandidateMatches i phys with
        | (t, true) => rfl
        | (t, false) => rfl
      · rfl

theorem scanAll_withActive (phys : Nat) :
    (s.withActive a).scanAll phys = foundWith a (s.scanAll phys) := by
  have hCands : (s.withActive a).cands = s.cands := rfl
  rw [scanAll, scanAll, hCands, scanRanges_withActive]
  match scanRanges phys (List.range s.cands.length) s with
  | (t, none) => rfl
  | (t, some i) => rfl

theorem findByRange_withActive (phys : Nat) :
    (s.withActive a).findByRange phys = foundWith a (s.findByRange phys) := by
  rw [findByRange, findByRange]
  split
  · rfl
  · rw [cachedOwner_withActive]
    match s.cachedOwner phys with
    | (t, some i) => rfl
    | (t, none) => exact scanAll_withActive a t phys

theorem registerAll_withActive (shards : List SljitShard) :
    shards.foldl registerSljit (s.withActive a) = (shards.foldl registerSljit s).withActive a :=
  List.foldl_hom (withActive a) fun t shard => registerSljit_withActive a t shard

theorem loadAll_withActive (functions : List DllFunction) :
    functions.foldl candRegister (s.withActive a) = (functions.foldl candRegister s).withActive a :=
  List.foldl_hom (withActive a) fun t f => candRegister_withActive a t f

theorem discover_withActive (o : Settings) (src : PassSources) (lazyLoaded : Bool) (phys : Nat) :
    (s.withActive a).discover o src lazyLoaded phys =
      foundWith a (s.discover o src lazyLoaded phys) := by
  have hChain : ∀ t : Loader, (t.withActive a).chain phys = t.chain phys := fun _ => rfl
  rw [discover, discover, hChain]
  split
  · rfl
  · dsimp only
    rw [registerAll_withActive, hChain]
    split
    · rfl
    · generalize src.scanned.foldl registerSljit s = t
      have hFound : (if o.cpsMode then (t.withActive a).findByRange phys
          else (t.withActive a, none)) =
          foundWith a (if o.cpsMode then t.findByRange phys else (t, none)) := by
        split
        · exact findByRange_withActive a t phys
        · rfl
      rw [hFound]
      generalize (if o.cpsMode then t.findByRange phys else (t, none)) = found
      have hWants : (foundWith a found).1.wantsRegion src (foundWith a found).2 =
        found.1.wantsRegion src found.2 := rfl
      rw [hWants]
      split
      · exact congrArg (·, none, true) (loadAll_withActive a found.1 _)
      · exact congrArg (·, found.2, false) (registerAll_withActive a found.1 src.jit)

theorem lateLoad_withActive (src : PassSources) (lazyLoaded : Bool) :
    (s.withActive a).lateLoad src lazyLoaded = foundWith a (s.lateLoad src lazyLoaded) := by
  rw [lateLoad, lateLoad]
  split
  · exact congrArg (·, some Outcome.retry) (loadAll_withActive a s _)
  · rfl

end Searches

/-- A part of a dispatch that calls the candidate `o`, if any: with room on the stack
it pushes that and nothing else. -/
def Pushes (o : Option Nat) (run : Loader → Loader × Option Outcome) (s : Loader) : Prop :=
  (o ≠ none → ∃ c, (run s).2 = some (.call c)) ∧
    ∀ a : List Nat, (o ≠ none → a.length < 64) →
      run (s.withActive a) = foundWith (o.toList ++ a) (run s)

section Calls

variable {s : Loader}

theorem Pushes.silent {run : Loader → Loader × Option Outcome}
    (h : ∀ a, run (s.withActive a) = foundWith a (run s)) : Pushes none run s :=
  ⟨fun hSome => absurd rfl hSome, fun a _ => h a⟩

theorem setCand_push_withActive (i : Nat) (d : Candidate) {a : List Nat}
    (hRoom : a.length < 64) :
    ((s.withActive a).setCand i d).push i = ((s.setCand i d).push i).withActive (i :: a) := by
  unfold push
  rw [if_pos (show ((s.withActive a).setCand i d).active.length < 64 from hRoom)]
  split <;> rfl

theorem continuation_pushes (s : Loader) (o : Settings) (addr i : Nat) :
    ∃ j, Pushes j (fun s => s.continuation o addr i) s := by
  have hCands : ∀ a, (s.withActive a).cands[i]? = s.cands[i]? := fun _ => rfl
  have hMem : ∀ a, (s.withActive a).mem = s.mem := fun _ => rfl
  cases hc : s.cands[i]? with
  | none =>
      refine ⟨none, Pushes.silent fun a => ?_⟩
      simp only [continuation, hCands, hc]
      rfl
  | some c =>
      rcases hCheck : c.revalidate s.mem with ⟨d, _ | _⟩
      · refine ⟨none, Pushes.silent fun a => ?_⟩
        simp only [continuation, hCands, hMem, hc, hCheck]
        rfl
      · by_cases hRuns : o.runsContinuation addr i d
        · refine ⟨some i, ?_, fun a hRoom => ?_⟩
          · exact fun _ => ⟨d, by simp [continuation, hc, hCheck, hRuns]⟩
          · simp only [continuation, hCands, hMem, hc, hCheck, if_pos hRuns]
            exact congrArg (·, some (Outcome.call d))
              (setCand_push_withActive i d (hRoom (Option.some_ne_none i)))
        · refine ⟨none, Pushes.silent fun a => ?_⟩
          simp only [continuation, hCands, hMem, hc, hCheck, if_neg hRuns]
          rfl

theorem continueAt_pushes (s : Loader) (o : Settings) (addr : Nat) (owner : Option Nat) :
    ∃ j, Pushes j (fun s => s.continueAt o addr owner) s := by
  have hChain : ∀ a, (s.withActive a).chain (addr % 0x20000000) = s.chain (addr % 0x20000000) :=
    fun _ => rfl
  by_cases hMiss : s.chain (addr % 0x20000000) = [] ∧ o.cpsMode = true
  · cases owner with
    | some i =>
        obtain ⟨j, hCall, hRun⟩ := continuation_pushes s o addr i
        refine ⟨j, ?_, fun a hRoom => ?_⟩
        · simpa only [continueAt, if_pos hMiss] using hCall
        · simp only [continueAt, hChain, if_pos hMiss]
          exact hRun a hRoom
    | none =>
        have hFind := fun a => findByRange_withActive a s (addr % 0x20000000)
        rcases hOwner : s.findByRange (addr % 0x20000000) with ⟨t, _ | i⟩
        · refine ⟨none, Pushes.silent fun a => ?_⟩
          simp only [continueAt, hChain, if_pos hMiss, hFind, hOwner, foundWith]
        · obtain ⟨j, hCall, hRun⟩ := continuation_pushes t o addr i
          refine ⟨j, ?_, fun a hRoom => ?_⟩
          · simpa only [continueAt, if_pos hMiss, hOwner] using hCall
          · simp only [continueAt, hChain, if_pos hMiss, hFind, hOwner]
            exact hRun a hRoom
  · refine ⟨none, Pushes.silent fun a => ?_⟩
    simp only [continueAt, hChain, if_neg hMiss]
    rfl

theorem entryChain_pushes (o : Settings) (addr : Nat) (indices : List Nat) (s : Loader) :
    ∃ j, Pushes j (entryChain o addr indices) s := by
  induction indices generalizing s with
  | nil => exact ⟨none, Pushes.silent fun a => rfl⟩
  | cons i rest ih =>
      have hCands : ∀ a, (s.withActive a).cands[i]? = s.cands[i]? := fun _ => rfl
      have hMem : ∀ a, (s.withActive a).mem = s.mem := fun _ => rfl
      cases hc : s.cands[i]? with
      | none =>
          obtain ⟨j, hCall, hRun⟩ := ih s
          refine ⟨j, ?_, fun a hRoom => ?_⟩
          · simpa only [entryChain, hc] using hCall
          · simp only [entryChain, hCands, hc]
            exact hRun a hRoom
      | some c =>
          by_cases hBlack : c.state = .blacklist
          · obtain ⟨j, hCall, hRun⟩ := ih s
            refine ⟨j, ?_, fun a hRoom => ?_⟩
            · simpa only [entryChain, hc, if_pos hBlack] using hCall
            · simp only [entryChain, hCands, hc, if_pos hBlack]
              exact hRun a hRoom
          · rcases hCheck : c.validate s.mem with ⟨d, _ | _⟩
            · obtain ⟨j, hCall, hRun⟩ := ih (s.setCand i d)
              refine ⟨j, ?_, fun a hRoom => ?_⟩
              · simpa only [entryChain, hc, if_neg hBlack, hCheck] using hCall
              · simp only [entryChain, hCands, hMem, hc, if_neg hBlack, hCheck]
                exact hRun a hRoom
            · cases hGate : o.entryGate addr d with
              | interp | shadow =>
                  refine ⟨none, Pushes.silent fun a => ?_⟩
                  simp only [entryChain, hCands, hMem, hc, if_neg hBlack, hCheck, hGate]
                  rfl
              | native =>
                  refine ⟨some i, ?_, fun a hRoom => ?_⟩
                  · exact fun _ => ⟨d, by simp [entryChain, hc, if_neg hBlack, hCheck, hGate]⟩
                  · simp only [entryChain, hCands, hMem, hc, if_neg hBlack, hCheck, hGate]
                    exact congrArg (·, some (Outcome.call d))
                      (setCand_push_withActive i d (hRoom (Option.some_ne_none i)))

/-- A part that goes on where the first one found nothing. -/
theorem Pushes.orElse {first next : Loader → Loader × Option Outcome} {j j' : Option Nat}
    (hFirst : Pushes j first s) (hNext : (first s).2 = none → Pushes j' next (first s).1) :
    ∃ k, Pushes k (fun s => Loader.orElse (first s) next) s := by
  rcases hRun : first s with ⟨t, _ | out⟩
  · obtain ⟨hCall, hRest⟩ := hNext (by rw [hRun])
    have hSilent : j = none := by
      by_contra hSome
      obtain ⟨c, hFound⟩ := hFirst.1 hSome
      simp [hRun] at hFound
    refine ⟨j', ?_, fun a hRoom => ?_⟩
    · simpa only [Loader.orElse, hRun] using hCall
    · have hSame := hFirst.2 a fun hSome => absurd hSilent hSome
      simp only [hRun, hSilent, foundWith, Option.toList_none, List.nil_append] at hSame hRest
      simp only [hSame, hRun, Loader.orElse]
      exact hRest a hRoom
  · refine ⟨j, ?_, fun a hRoom => ?_⟩
    · simpa only [Loader.orElse, hRun] using hFirst.1
    · have hSame := hFirst.2 a hRoom
      simp only [hRun, foundWith] at hSame
      simp only [hSame, hRun, Loader.orElse, foundWith]

/-- The entry chain and the late load behind it. -/
theorem entry_pushes (s : Loader) (o : Settings) (src : PassSources) (lazyLoaded : Bool)
    (addr : Nat) : ∃ j, Pushes j (fun s =>
      Loader.orElse (entryChain o addr (s.chain (addr % 0x20000000)) s) fun s =>
        s.lateLoad src lazyLoaded) s := by
  obtain ⟨j, hChain⟩ := entryChain_pushes o addr (s.chain (addr % 0x20000000)) s
  have hHere : Pushes j (fun s => entryChain o addr (s.chain (addr % 0x20000000)) s) s := hChain
  exact hHere.orElse fun _ => Pushes.silent fun a => lateLoad_withActive a _ src lazyLoaded

theorem pass_pushes (s : Loader) (o : Settings) (src : PassSources) (lazyLoaded : Bool)
    (addr : Nat) : ∃ j, Pushes j (fun s => s.pass o src lazyLoaded addr) s := by
  have hDiscover := fun a => discover_withActive a s o src lazyLoaded (addr % 0x20000000)
  rcases hFound : s.discover o src lazyLoaded (addr % 0x20000000) with ⟨t, owner, _ | _⟩
  · obtain ⟨j, hFirst⟩ := continueAt_pushes t o addr owner
    obtain ⟨j', hEntry⟩ := entry_pushes (t.continueAt o addr owner).1 o src lazyLoaded addr
    obtain ⟨k, hCall, hRun⟩ := hFirst.orElse fun _ => hEntry
    refine ⟨k, ?_, fun a hRoom => ?_⟩
    · simpa only [pass, hFound, Bool.false_eq_true, if_false] using hCall
    · simp only [pass, hDiscover, hFound, foundWith, Bool.false_eq_true, if_false]
      exact hRun a hRoom
  · refine ⟨none, Pushes.silent fun a => ?_⟩
    simp only [pass, hDiscover, hFound, foundWith, if_true]

/-- The first pass is the last one unless it asks for another. -/
theorem passes_of_ended {s t : Loader} {d : DispatchInput} {out : Option Outcome}
    (hFirst : s.pass d.settings d.first false d.addr = (t, out)) (hEnded : out ≠ some .retry) :
    s.passes d = (t, out) := by
  rw [passes, hFirst]
  split
  · rename_i hRetry
    exact absurd (Prod.mk.inj hRetry).2 hEnded
  · rfl

theorem passes_pushes (s : Loader) (d : DispatchInput) :
    ∃ j, Pushes j (fun s => s.passes d) s := by
  obtain ⟨j, hCall, hRun⟩ := pass_pushes s d.settings d.first false d.addr
  rcases hFirst : s.pass d.settings d.first false d.addr with ⟨t, out⟩
  by_cases hRetry : out = some .retry
  · subst hRetry
    have hSilent : j = none := by
      by_contra hSome
      obtain ⟨c, hFound⟩ := hCall hSome
      simp [hFirst] at hFound
    obtain ⟨k, hCall', hRun'⟩ := pass_pushes t d.settings d.second true d.addr
    refine ⟨k, ?_, fun a hRoom => ?_⟩
    · simpa only [passes, hFirst] using hCall'
    · have hSame := hRun a fun hSome => absurd hSilent hSome
      simp only [hFirst, hSilent, foundWith, Option.toList_none, List.nil_append] at hSame
      simp only [passes, hSame, hFirst]
      exact hRun' a hRoom
  · refine ⟨j, ?_, fun a hRoom => ?_⟩
    · simpa only [passes_of_ended hFirst hRetry, hFirst] using hCall
    · have hSame := hRun a hRoom
      simp only [hFirst, foundWith] at hSame
      simp only [passes_of_ended hFirst hRetry, passes_of_ended hSame hRetry, foundWith]

theorem store_active (T : KernelBodies) (s : Loader) (st : GuestStore) :
    (s.store T st).active = s.active := by
  unfold store
  split <;> rfl

theorem flush_active (T : KernelBodies) (stores : List GuestStore) (s : Loader) :
    (stores.foldl (store T) s).active = s.active := by
  induction stores generalizing s with
  | nil => rfl
  | cons st rest ih => rw [List.foldl_cons, ih, store_active]

theorem dispatch_eq (T : KernelBodies) (s : Loader) (d : DispatchInput) :
    s.dispatch T d = match (s.passes d).2 with
      | some (.call c) => (d.flush.foldl (store T) (s.passes d).1, some c)
      | some (.shadow c) => (d.flush.foldl (store T) (s.passes d).1, some c)
      | _ => ((s.passes d).1, none) := rfl

theorem dispatch_active_passes (T : KernelBodies) (s : Loader) (d : DispatchInput) :
    (s.dispatch T d).1.active = (s.passes d).1.active := by
  rw [dispatch_eq]
  split
  · exact flush_active T d.flush _
  · exact flush_active T d.flush _
  · rfl

/-- The dispatch pushes the candidate that it calls, if the stack has room. -/
theorem dispatch_active (T : KernelBodies) (s : Loader) (d : DispatchInput)
    (hRoom : s.called d ≠ none → s.active.length < 64) :
    (s.dispatch T d).1.active = (s.called d).toList ++ s.active := by
  obtain ⟨j, -, hRun⟩ := passes_pushes s d
  have hCalled : s.called d = j := by
    have hEmpty : passes (s.withActive []) d = foundWith (j.toList ++ []) (s.passes d) :=
      hRun [] fun _ => by decide
    have hHead : s.called d = (passes (s.withActive []) d).1.active.head? := rfl
    rw [hHead, hEmpty]
    cases j <;> rfl
  have hHere := hRun s.active (hCalled ▸ hRoom)
  rw [dispatch_active_passes, hCalled]
  exact congrArg (fun found => found.1.active) hHere

end Calls

/-- A property that every part of a dispatch keeps: a checked candidate has the
ranges it had. -/
structure Kept (Inv : Loader → Prop) : Prop where
  check : ∀ {s : Loader} {i : Nat} {c d : Candidate}, Inv s → s.cands[i]? = some c →
    d.ranges = c.ranges → Inv (s.setCand i d)
  push : ∀ {s : Loader} (i : Nat), Inv s → Inv (s.push i)
  cache : ∀ {s : Loader} (pcCache : Nat → Option (Nat × Nat)), Inv s →
    Inv { s with pcCache := pcCache }
  register : ∀ {s : Loader} (f : DllFunction), Inv s → Inv (s.candRegister f)
  registerSljit : ∀ {s : Loader} (shard : SljitShard), Inv s → Inv (s.registerSljit shard)

section Kept

variable {Inv : Loader → Prop} {s : Loader}

theorem Kept.rangeCandidateMatches (hKept : Kept Inv) (h : Inv s) (i phys : Nat) :
    Inv (s.rangeCandidateMatches i phys).1 := by
  unfold Loader.rangeCandidateMatches
  split
  · exact h
  · rename_i c hc
    split
    · exact h
    · exact hKept.check h hc (c.validate_ranges s.mem)

theorem Kept.scanRanges (hKept : Kept Inv) (phys : Nat) (indices : List Nat) (h : Inv s) :
    Inv (Loader.scanRanges phys indices s).1 := by
  induction indices generalizing s with
  | nil => exact h
  | cons i rest ih =>
      have hMatch := hKept.rangeCandidateMatches h i phys
      rw [Loader.scanRanges]
      split
      · rename_i t hEq
        rwa [hEq] at hMatch
      · rename_i t hEq
        rw [hEq] at hMatch
        exact ih hMatch

theorem Kept.findByRange (hKept : Kept Inv) (h : Inv s) (phys : Nat) :
    Inv (s.findByRange phys).1 := by
  have hCached : Inv (s.cachedOwner phys).1 := by
    unfold cachedOwner
    split
    · exact h
    · rename_i pc i hSlot
      split
      · have hMatch := hKept.rangeCandidateMatches h i phys
        split
        · rename_i t hEq
          rwa [hEq] at hMatch
        · rename_i t hEq
          rwa [hEq] at hMatch
      · exact h
  rw [Loader.findByRange]
  split
  · exact h
  · rcases hOwner : s.cachedOwner phys with ⟨t, _ | i⟩
    · rw [hOwner] at hCached
      have hScan := hKept.scanRanges phys (List.range t.cands.length) hCached
      simp only [orElse, scanAll]
      split
      · rename_i u hEq
        rwa [hEq] at hScan
      · rename_i u i hEq
        rw [hEq] at hScan
        exact hKept.cache _ hScan
    · rwa [hOwner] at hCached

theorem Kept.registerAll (hKept : Kept Inv) (h : Inv s) (shards : List SljitShard) :
    Inv (shards.foldl Loader.registerSljit s) := by
  induction shards generalizing s with
  | nil => exact h
  | cons shard rest ih => exact ih (hKept.registerSljit shard h)

theorem Kept.loadAll (hKept : Kept Inv) (h : Inv s) (functions : List DllFunction) :
    Inv (functions.foldl candRegister s) := by
  induction functions generalizing s with
  | nil => exact h
  | cons f rest ih => exact ih (hKept.register f h)

theorem Kept.discover (hKept : Kept Inv) (h : Inv s) (o : Settings) (src : PassSources)
    (lazyLoaded : Bool) (phys : Nat) : Inv (s.discover o src lazyLoaded phys).1 := by
  have hScanned := hKept.registerAll h src.scanned
  unfold Loader.discover
  split
  · exact h
  · dsimp only
    split
    · exact hScanned
    · have hFound : Inv (if o.cpsMode then
          (src.scanned.foldl Loader.registerSljit s).findByRange phys
          else (src.scanned.foldl Loader.registerSljit s, none)).1 := by
        split
        · exact hKept.findByRange hScanned phys
        · exact hScanned
      split
      · exact hKept.loadAll hFound _
      · exact hKept.registerAll hFound src.jit

theorem Kept.continuation (hKept : Kept Inv) (h : Inv s) (o : Settings) (addr i : Nat) :
    Inv (s.continuation o addr i).1 := by
  unfold Loader.continuation
  split
  · exact h
  · rename_i c hc
    have hRanges := c.revalidate_ranges s.mem
    split
    · rename_i d hEq
      rw [hEq] at hRanges
      split
      · exact hKept.push i (hKept.check h hc hRanges)
      · exact hKept.check h hc hRanges
    · rename_i d hEq
      rw [hEq] at hRanges
      exact hKept.check h hc hRanges

theorem Kept.continueAt (hKept : Kept Inv) (h : Inv s) (o : Settings) (addr : Nat)
    (owner : Option Nat) : Inv (s.continueAt o addr owner).1 := by
  have hFind := hKept.findByRange h (addr % 0x20000000)
  unfold Loader.continueAt
  split
  · split
    · exact hKept.continuation h o addr _
    · split
      · rename_i t i hEq
        rw [hEq] at hFind
        exact hKept.continuation hFind o addr i
      · rename_i t hEq
        rwa [hEq] at hFind
  · exact h

theorem Kept.entryChain (hKept : Kept Inv) (o : Settings) (addr : Nat) (indices : List Nat)
    (h : Inv s) : Inv (Loader.entryChain o addr indices s).1 := by
  induction indices generalizing s with
  | nil => exact h
  | cons i rest ih =>
      rw [Loader.entryChain]
      split
      · exact ih h
      · rename_i c hc
        have hRanges := c.validate_ranges s.mem
        split
        · exact ih h
        · split
          · rename_i d hEq
            rw [hEq] at hRanges
            split
            · exact hKept.check h hc hRanges
            · exact hKept.push i (hKept.check h hc hRanges)
            · exact hKept.check h hc hRanges
          · rename_i d hEq
            rw [hEq] at hRanges
            exact ih (hKept.check h hc hRanges)

theorem Kept.orElse {found : Loader × Option Outcome}
    {next : Loader → Loader × Option Outcome} (h : Inv found.1)
    (hNext : ∀ t, Inv t → Inv (next t).1) : Inv (Loader.orElse found next).1 := by
  match found with
  | (t, some out) => exact h
  | (t, none) => exact hNext t h

theorem Kept.pass (hKept : Kept Inv) (h : Inv s) (o : Settings) (src : PassSources)
    (lazyLoaded : Bool) (addr : Nat) : Inv (s.pass o src lazyLoaded addr).1 := by
  have hFound := hKept.discover h o src lazyLoaded (addr % 0x20000000)
  unfold Loader.pass
  dsimp only
  split
  · exact hFound
  · apply Kept.orElse (hKept.continueAt hFound o addr _)
    intro t ht
    apply Kept.orElse (hKept.entryChain o addr _ ht)
    intro u hu
    unfold lateLoad
    split
    · exact hKept.loadAll hu _
    · exact hu

theorem Kept.passes (hKept : Kept Inv) (h : Inv s) (d : DispatchInput) :
    Inv (s.passes d).1 := by
  have hFirst := hKept.pass h d.settings d.first false d.addr
  unfold Loader.passes
  split
  · rename_i t hEq
    rw [hEq] at hFirst
    exact hKept.pass hFirst d.settings d.second true d.addr
  · exact hFirst

end Kept

/-- The pages of every candidate's code are watched. -/
def Watched (s : Loader) : Prop :=
  ∀ c ∈ s.cands, ∀ r ∈ c.ranges, ∀ p, r.OnPage p → s.mem.watched p = true

theorem watched_kept : Kept Watched where
  check := by
    intro s i c d h hc hRanges e he r hr p hp
    rcases List.mem_or_eq_of_mem_set he with hOld | rfl
    · exact h e hOld r hr p hp
    · exact h c (List.mem_of_getElem? hc) r (hRanges ▸ hr) p hp
  push := by
    intro s i h
    unfold push
    split <;> exact h
  cache := fun _ h => h
  register := by
    intro s f h c hc r hr p hp
    have hRegistered := candRegister_registered s f
    rcases hRegistered.cands c hc with ⟨d, hd, rfl | rfl⟩ | ⟨hSound, -⟩
    · exact hRegistered.watched p (h c hd r hr p hp)
    · exact hRegistered.watched p (h d hd r hr p hp)
    · exact hSound.watched r hr p hp
  registerSljit := by
    intro s shard h
    obtain ⟨-, -, hKeep, hCover⟩ := watch_fold [shard.range] s.mem
    unfold registerSljit
    split
    · exact h
    · intro c hc r hr p hp
      rcases List.mem_append.mp hc with hOld | hNew
      · exact hKeep p (h c hOld r hr p hp)
      · obtain rfl := List.mem_singleton.mp hNew
        exact hCover r hr p hp

theorem store_watched (T : KernelBodies) {s : Loader} (h : s.Watched) (st : GuestStore) :
    (s.store T st).Watched := by
  intro c hc r hr p hp
  obtain ⟨o, ho, hEq⟩ := mem_store_cands hc
  have hRanges : c.ranges = o.ranges := by
    rcases hEq with rfl | rfl <;> rfl
  have hMem : (s.store T st).mem.watched = s.mem.watched := by
    unfold store
    split
    · exact write_watched _ _ _
    · rfl
  rw [hMem]
  exact h o ho r (hRanges ▸ hr) p hp

theorem flush_watched (T : KernelBodies) (stores : List GuestStore) {s : Loader} (h : s.Watched) :
    (stores.foldl (store T) s).Watched := by
  induction stores generalizing s with
  | nil => exact h
  | cons st rest ih => exact ih (store_watched T h st)

theorem dispatch_watched (T : KernelBodies) {s : Loader} (h : s.Watched) (d : DispatchInput) :
    (s.dispatch T d).1.Watched := by
  have hPasses := watched_kept.passes h d
  rw [dispatch_eq]
  split
  · exact flush_watched T d.flush hPasses
  · exact flush_watched T d.flush hPasses
  · exact hPasses

theorem shadowEnd_watched {s : Loader} (h : s.Watched) (i passes : Nat) (touch : Bool)
    (ram : Nat → Byte) : (s.shadowEnd i passes touch ram).Watched := by
  intro c hc r hr p hp
  obtain ⟨j, hj⟩ := List.getElem?_of_mem hc
  simp only [shadowEnd, List.getElem?_modify] at hj
  obtain ⟨o, ho, rfl⟩ := Option.map_eq_some_iff.mp hj
  have hOld := h o (List.mem_of_getElem? ho)
  split at hr
  · exact hOld r hr p hp
  · exact hOld r hr p hp

end Loader

/-- A store on a watched page blacklists the candidates of the stack that it writes
into. -/
theorem Loader.store_blacklists (T : KernelBodies) {s : Loader} (hWatched : s.Watched)
    {st : GuestStore} {i : Nat} (hi : i ∈ s.active) {c : Candidate} (hc : s.cands[i]? = some c)
    (hHit : ∃ r ∈ c.ranges, r.Touched st.phys st.width.bytes) (hNoted : st.Noted c) :
    ∃ c', (s.store T st).cands[i]? = some c' ∧ c'.state = .blacklist := by
  obtain ⟨r, hr, hPage⟩ := hNoted hHit
  have hPageWatched := hWatched c (List.mem_of_getElem? hc) r hr _ hPage
  have hInside : st.phys < ramSize := by
    obtain ⟨q, hq, hTouched⟩ := hHit
    exact hTouched.1.trans_le q.inside
  refine ⟨{ c with state := .blacklist }, ?_, rfl⟩
  rw [Loader.store, if_pos hInside]
  dsimp only
  rw [if_pos hPageWatched, Loader.activeWriteCheck, List.getElem?_map, List.getElem?_zipIdx, hc]
  simp only [Option.map_some, Nat.zero_add]
  rw [if_pos ⟨hi, hHit⟩]

end RecompStudio.Runtime
