import RecompStudio.Runtime.Interlock

/-!
What single calls cost, and a service that leaves nothing under way and a chosen
word outside the cache.
-/

namespace RecompStudio.Runtime

variable {t : Timing} {a : Nat}

theorem hits_icacheFetch {addr : Nat} (hAligned : addr % 4 = 0) (hCached : addr < 0xA0000000) :
    (t.icacheFetch addr).icache.Hits addr := by
  unfold Timing.icacheFetch
  split_ifs with hHit
  · exact hHit
  · omega
  · exact Icache.hits_refill hAligned

theorem icacheFetch_miss (hMiss : ¬t.icache.Hits a) (hCached : a < 0xA0000000) :
    t.icacheFetch a =
      { t.clearGiveBack with icache := t.icache.refill a }.charge (3 + (4 - a % 16 / 4)) := by
  rw [Timing.icacheFetch, if_neg hMiss, if_neg (by omega)]

/-- A data read outside the scratchpad costs its completion. -/
theorem cycReadmem_costs {phys size complCost armRt : Nat} (hData : phys < 0x1F800000) :
    t.cycleCount + complCost ≤ (t.cycReadmem phys size complCost armRt).cycleCount := by
  unfold Timing.cycReadmem
  simp only
  rw [if_neg (by omega)]
  simp only [Timing.charge, Timing.clearGiveBack]
  omega

theorem cycLoad_costs (size rt : Nat) (regMask : Word) :
    t.cycleCount < (t.cycLoad 0 size rt regMask).cycleCount := by
  have hBase : t.cycleCount ≤ (t.cycBase.cycDeps regMask).cycleCount := (Advances.cycBase t).count
  have hPending := (Advances.cancelPending (t.cycBase.cycDeps regMask) rt).count
  have hRead : ((t.cycBase.cycDeps regMask).cancelPending rt).cycLds.cycleCount + 2 ≤
      (t.cycLoad 0 size rt regMask).cycleCount :=
    cycReadmem_costs (by decide)
  have hLds : ((t.cycBase.cycDeps regMask).cancelPending rt).cycLds.cycleCount =
      ((t.cycBase.cycDeps regMask).cancelPending rt).cycleCount := rfl
  omega

/-- A state as after a reset: nothing is cached, pending or under way. -/
def coldTiming : Timing where
  cycleCount := 0
  icache := Icache.reset
  readAbsorb _ := 0
  readAbsorbWhich := 0
  readFudge := 0
  ldWhich := 0x20
  ldAbsorb := 0
  muldivTsDone := 0
  gteTsDone := 0

/-- Fetches outside the image that fall on the place of a word in the cache. -/
def evict (a : Word) : List TimingCall :=
  [.fetch (a &&& 0x1FFFFFFF#32), .fetch ((a &&& 0x1FFFFFFF#32) + 0x20000000#32),
    .fetch (a &&& 0x1FFFFFFF#32)]

/-- A service that waits for both deadlines and evicts a word. -/
def evictingService (a : Word) : List TimingCall := .gteStall :: .muldivStall :: evict a

theorem clearGiveBack_of_miss (hMiss : ¬t.icache.Hits a) (hCached : a < 0xA0000000) :
    (t.icacheFetch a).readAbsorb = Function.update t.readAbsorb t.readAbsorbWhich 0 ∧
      (t.icacheFetch a).readAbsorbWhich = 0 := by
  rw [icacheFetch_miss hMiss hCached]
  exact ⟨rfl, rfl⟩

theorem icacheFetch_deadlines :
    (t.icacheFetch a).muldivTsDone = t.muldivTsDone ∧
        (t.icacheFetch a).gteTsDone = t.gteTsDone := by
  unfold Timing.icacheFetch
  split_ifs <;> exact ⟨rfl, rfl⟩

/-- Nothing is under way, and the word is not cached. -/
structure Settled (t : Timing) (a : Nat) : Prop where
  evicted : ¬t.icache.Hits a
  which : t.readAbsorbWhich = 0
  absorb : t.readAbsorb 0 = 0
  muldiv : t.muldivTsDone ≤ t.cycleCount
  gte : t.gteTsDone ≤ t.cycleCount

theorem settled_evict {a : Word} (hAligned : a.toNat % 4 = 0) (hLo : 0x80000000 ≤ a.toNat)
    (hHi : a.toNat < 0x80200000) (hMuldiv : t.muldivTsDone ≤ t.cycleCount)
    (hGte : t.gteTsDone ≤ t.cycleCount) : Settled (TimingCall.run t (evict a)) a.toNat := by
  obtain ⟨low, hLow, hLowEq⟩ : ∃ low, (a &&& 0x1FFFFFFF#32).toNat = low ∧
      low = a.toNat % 536870912 := by
    refine ⟨_, rfl, ?_⟩
    rw [BitVec.toNat_and, show (0x1FFFFFFF#32).toNat = 2 ^ 29 - 1 by simp,
      Nat.and_two_pow_sub_one_eq_mod]
  obtain ⟨high, hHigh, hHighEq⟩ : ∃ high, ((a &&& 0x1FFFFFFF#32) + 0x20000000#32).toNat = high ∧
      high = low + 536870912 := by
    refine ⟨_, rfl, ?_⟩
    rw [BitVec.toNat_add, hLow, BitVec.toNat_ofNat]
    omega
  have hPlace : icacheIndex high = icacheIndex low := by
    unfold icacheIndex
    omega
  have hPlace' : icacheIndex a.toNat = icacheIndex low := by
    unfold icacheIndex
    omega
  have hNe : high ≠ low := by omega
  have hNe' : a.toNat ≠ low := by omega
  have hLowBound : low % 4 = 0 ∧ low < 0xA0000000 := by omega
  have hHighBound : high % 4 = 0 ∧ high < 0xA0000000 := by omega
  have hRun : TimingCall.run t (evict a) =
      ((t.icacheFetch low).icacheFetch high).icacheFetch low := by
    rw [evict, TimingCall.run_cons, TimingCall.run_cons, TimingCall.run_cons, TimingCall.run_nil,
      TimingCall.exec_fetch, TimingCall.exec_fetch, TimingCall.exec_fetch, hLow, hHigh]
  rw [hRun]
  -- the first fetch puts its own tag there, so the two behind it miss
  have hFirst := hits_icacheFetch (t := t) hLowBound.1 hLowBound.2
  have hCount := (Advances.icacheFetch t low).count
  have hDeadlines := icacheFetch_deadlines (t := t) (a := low)
  generalize t.icacheFetch low = u at hFirst hCount hDeadlines ⊢
  obtain ⟨-, hWhich⟩ := clearGiveBack_of_miss (hFirst.other hPlace hNe) hHighBound.2
  have hSecond := hits_icacheFetch (t := u) hHighBound.1 hHighBound.2
  have hCount' := (Advances.icacheFetch u high).count
  have hDeadlines' := icacheFetch_deadlines (t := u) (a := high)
  generalize u.icacheFetch high = v at hWhich hSecond hCount' hDeadlines' ⊢
  obtain ⟨hAbsorb, hWhich'⟩ :=
    clearGiveBack_of_miss (hSecond.other hPlace.symm hNe.symm) hLowBound.2
  have hThird := hits_icacheFetch (t := v) hLowBound.1 hLowBound.2
  have hCount'' := (Advances.icacheFetch v low).count
  have hDeadlines'' := icacheFetch_deadlines (t := v) (a := low)
  refine ⟨hThird.other hPlace' hNe', hWhich', ?_, by omega, by omega⟩
  rw [hAbsorb, hWhich, Function.update_self]

theorem stall_near {deadline : Nat} (hNear : deadline ≤ t.cycleCount + 255) :
    t.stall deadline = deadline - t.cycleCount :=
  Nat.mod_eq_of_lt (by omega)

/-- After the stalls no deadline lies ahead. -/
theorem settled_service {a : Word} (hAligned : a.toNat % 4 = 0) (hLo : 0x80000000 ≤ a.toNat)
    (hHi : a.toNat < 0x80200000) (hMuldiv : t.muldivTsDone ≤ t.cycleCount + 255)
    (hGte : t.gteTsDone ≤ t.cycleCount + 255) :
    Settled (TimingCall.run t (evictingService a)) a.toNat := by
  have hWaited : t.gteStall.gteTsDone ≤ t.gteStall.cycleCount ∧
      t.gteStall.muldivTsDone = t.muldivTsDone ∧ t.cycleCount ≤ t.gteStall.cycleCount := by
    unfold Timing.gteStall
    split_ifs with hAhead
    · rw [stall_near hGte]
      refine ⟨?_, rfl, Nat.le_add_right _ _⟩
      change t.gteTsDone ≤ t.cycleCount + (t.gteTsDone - t.cycleCount)
      omega
    · exact ⟨by omega, rfl, le_rfl⟩
  rw [evictingService, TimingCall.run_cons, TimingCall.run_cons]
  simp only [TimingCall.exec]
  generalize t.gteStall = u at hWaited ⊢
  have hDone : u.muldivStall.gteTsDone ≤ u.muldivStall.cycleCount ∧
      u.muldivStall.muldivTsDone ≤ u.muldivStall.cycleCount := by
    unfold Timing.muldivStall
    split_ifs with hAhead hNext
    · exact ⟨hWaited.1, show u.muldivTsDone - 1 ≤ u.cycleCount by omega⟩
    · rw [stall_near (by omega)]
      refine ⟨hWaited.1.trans (Nat.le_add_right _ _), ?_⟩
      change u.muldivTsDone ≤ u.cycleCount + (u.muldivTsDone - u.cycleCount)
      omega
    · omega
  exact settled_evict hAligned hLo hHi hDone.2 hDone.1

/-- A fetch costs cycles then, and nothing else changes. -/
theorem Settled.later (h : Settled t a) (hCached : a < 0xA0000000) :
    Later (3 + (4 - a % 16 / 4)) t (t.icacheFetch a) where
  count := by rw [icacheFetch_miss h.evicted hCached]; rfl
  absorb := by
    rw [(clearGiveBack_of_miss h.evicted hCached).1, h.which, Function.update_eq_self_iff]
    exact h.absorb.symm
  which := (clearGiveBack_of_miss h.evicted hCached).2.trans h.which.symm
  fudge := by rw [icacheFetch_miss h.evicted hCached]; rfl
  pending := by rw [icacheFetch_miss h.evicted hCached]; rfl
  giveBack := by rw [icacheFetch_miss h.evicted hCached]; rfl
  muldiv := .inl ⟨h.muldiv, by
    rw [icacheFetch_deadlines.1]
    exact h.muldiv.trans (Advances.icacheFetch t a).count⟩
  gte := .inl ⟨h.gte, by
    rw [icacheFetch_deadlines.2]
    exact h.gte.trans (Advances.icacheFetch t a).count⟩

end RecompStudio.Runtime
