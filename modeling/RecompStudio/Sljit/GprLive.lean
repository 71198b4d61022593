import RecompStudio.Sljit.GprCache

/-!
What the register cache means. The guest registers are spread over the host
registers and the CPU state in memory; every operation of the cache keeps that
picture of the guest, and none disturbs an operand that is in use.
-/

namespace RecompStudio.Sljit

open RecompStudio.Staged

variable {M : Type}

/-- Two states that differ at most in the general registers and the program
counter. -/
structure SameRest (s t : CPUState M) : Prop where
  hi : s.hi = t.hi
  lo : s.lo = t.lo
  cop0 : s.cop0 = t.cop0
  gteData : s.gteData = t.gteData
  gteCtrl : s.gteCtrl = t.gteCtrl
  mem : s.mem = t.mem

/-- The host state `st` stands for the guest state `g` under the cache `c`,
except that the slot `hole` still has to be filled. Outside continuation-passing
mode the program counter is zero while a shard runs. -/
structure LiveExcept (cps : Bool) (used : Finset RegIndex) (hole : Option Nat) (c : GprCache)
    (g : CPUState M) (st : HostState M) : Prop where
  wf : c.Wf used
  cached : ∀ {k : Nat} {s : GprSlot} {r}, c.slots[k]? = some s → s.reg = some r →
    hole ≠ some k → low (st.regs (.slot k)) = g.gpr r
  stored : ∀ r, (∀ {k : Nat} {s : GprSlot}, c.slots[k]? = some s → s.reg = some r →
    s.dirty = false) → st.cpu.gpr r = g.gpr r
  rest : SameRest st.cpu g
  zero : g.gpr 0 = 0
  pc : cps = false → st.cpu.pc = 0
  running : st.skip = 0

abbrev Live (cps : Bool) (used : Finset RegIndex) (c : GprCache) (g : CPUState M)
    (st : HostState M) : Prop := LiveExcept cps used none c g st

/-- The operand holds the value, in a pinned slot if it lies in one. -/
def Holds (c : GprCache) (st : HostState M) (v : Word) : Operand → Prop
  | .imm x => low x = v
  | .reg (.slot k) =>
      low (st.regs (.slot k)) = v ∧ ∃ s, c.slots[k]? = some s ∧ s.pinned = true
  | .reg r => low (st.regs r) = v
  | .mem _ => False

/-- The cache may have moved, but not what an operand can lie in. -/
structure Keeps (c : GprCache) (st : HostState M) (c' : GprCache) (st' : HostState M) : Prop where
  scratch : ∀ r, (∀ k, r ≠ .slot k) → st'.regs r = st.regs r
  pinned : ∀ {k : Nat} {s : GprSlot}, c.slots[k]? = some s → s.pinned = true →
    st'.regs (.slot k) = st.regs (.slot k) ∧ ∃ s', c'.slots[k]? = some s' ∧ s'.pinned = true
  flags : st'.flags = st.flags

/-- Whatever is written to the register, the guest register then has it. -/
def Ready (cps : Bool) (used : Finset RegIndex) (n : RegIndex) (c : GprCache) (g : CPUState M)
    (st : HostState M) (d : HostReg) : Prop :=
  ∀ x, Live cps used c ((g.setGpr n (low x)).setGpr 0 0) (st.setReg d x)

theorem Holds.low_eval {c : GprCache} {st : HostState M} {v : Word} {a : Operand}
    (h : Holds c st v a) (p : Platform M) : low (st.eval p a) = v := by
  cases a with
  | imm x => exact h
  | mem f => cases h
  | reg r =>
      cases r with
      | slot k => exact h.1
      | _ => exact h

theorem Holds.keep {c c' : GprCache} {st st' : HostState M} {v : Word} {a : Operand}
    (h : Holds c st v a) (hKeeps : Keeps c st c' st') : Holds c' st' v a := by
  cases a with
  | imm x => exact h
  | mem f => cases h
  | reg r =>
      cases r with
      | slot k =>
          obtain ⟨hValue, s, hAt, hPinned⟩ := h
          obtain ⟨hSame, hPinned'⟩ := hKeeps.pinned hAt hPinned
          exact ⟨hSame ▸ hValue, hPinned'⟩
      | _ =>
          simp only [Holds] at h ⊢
          rw [hKeeps.scratch _ (by simp), h]

namespace Keeps

theorem refl (c : GprCache) (st : HostState M) : Keeps c st c st :=
  ⟨fun _ _ => rfl, fun hAt hPinned => ⟨rfl, _, hAt, hPinned⟩, rfl⟩

theorem trans {c₁ c₂ c₃ : GprCache} {st₁ st₂ st₃ : HostState M} (h : Keeps c₁ st₁ c₂ st₂)
    (h' : Keeps c₂ st₂ c₃ st₃) : Keeps c₁ st₁ c₃ st₃ where
  scratch r hr := (h'.scratch r hr).trans (h.scratch r hr)
  pinned hAt hPinned := by
    obtain ⟨hSame, s, hAt', hPinned'⟩ := h.pinned hAt hPinned
    obtain ⟨hSame', hPinned''⟩ := h'.pinned hAt' hPinned'
    exact ⟨hSame'.trans hSame, hPinned''⟩
  flags := h'.flags.trans h.flags

end Keeps

section Slots

theorem getElem?_modify_some {l : List GprSlot} {k j : Nat} {f : GprSlot → GprSlot} {t : GprSlot}
    (h : (l.modify k f)[j]? = some t) : ∃ s, l[j]? = some s ∧ t = if k = j then f s else s := by
  rw [List.getElem?_modify] at h
  obtain ⟨s, hs, rfl⟩ := Option.map_eq_some_iff.mp h
  exact ⟨s, hs, rfl⟩

theorem countP_modify_le (l : List GprSlot) (k : Nat) {f : GprSlot → GprSlot} {q : GprSlot → Bool}
    (hf : ∀ s, q (f s) = true → q s = true) : (l.modify k f).countP q ≤ l.countP q := by
  induction l generalizing k with
  | nil => simp
  | cons s rest ih =>
      cases k with
      | zero =>
          simp only [List.modify_zero_cons, List.countP_cons]
          by_cases h : q (f s) = true
          · simp [h, hf s h]
          · simp [h]
      | succ k =>
          simp only [List.modify_succ_cons, List.countP_cons]
          exact Nat.add_le_add_right (ih k) _

theorem countP_modify_le_succ (l : List GprSlot) (k : Nat) (f : GprSlot → GprSlot)
    (q : GprSlot → Bool) : (l.modify k f).countP q ≤ l.countP q + 1 := by
  induction l generalizing k with
  | nil => simp
  | cons s rest ih =>
      cases k with
      | zero =>
          simp only [List.modify_zero_cons, List.countP_cons]
          split <;> split <;> omega
      | succ k =>
          simp only [List.modify_succ_cons, List.countP_cons]
          exact (Nat.add_le_add_right (ih k) _).trans (by omega)

variable {used : Finset RegIndex} {c : GprCache}

/-- A change of slots that brings no register in. -/
theorem GprCache.Wf.of_slots (hWf : c.Wf used) {c' : GprCache}
    (hLength : c'.slots.length = c.slots.length)
    (hFrom : ∀ {k : Nat} {t : GprSlot}, c'.slots[k]? = some t → ∃ s, c.slots[k]? = some s ∧
      (∀ r, t.reg = some r → s.reg = some r) ∧ (t.reg = none → t.pinned = false) ∧
      t.lru < 0xFFFFFFFF) : c'.Wf used where
  distinct hj hk hr hr' := by
    obtain ⟨s, hs, hRegs, -⟩ := hFrom hj
    obtain ⟨t, ht, hRegt, -⟩ := hFrom hk
    exact hWf.distinct hs ht (hRegs _ hr) (hRegt _ hr')
  refs hk hr := by
    obtain ⟨s, hs, hReg, -⟩ := hFrom hk
    exact hWf.refs hs (hReg _ hr)
  zero := hWf.zero
  unpinned hk hNone := by
    obtain ⟨s, hs, -, hPinned, -⟩ := hFrom hk
    exact hPinned hNone
  fits := hLength ▸ hWf.fits
  lru hk := by
    obtain ⟨s, hs, -, -, hLru⟩ := hFrom hk
    exact hLru

theorem GprCache.Wf.touch (hWf : c.Wf used) {k : Nat} {f : GprSlot → GprSlot} {s : GprSlot}
    {n : RegIndex} (hAt : c.slots[k]? = some s) (hn : s.reg = some n)
    (hReg : ∀ s, (f s).reg = s.reg) (hLru : c.lru + 1 < 0xFFFFFFFF) :
    (c.touch k f).Wf used := by
  refine hWf.of_slots (List.length_modify ..) ?_
  intro j t hj
  obtain ⟨s', hs', rfl⟩ := getElem?_modify_some hj
  refine ⟨s', hs', ?_⟩
  by_cases hjk : k = j
  · subst hjk
    obtain rfl : s' = s := Option.some.inj (hs'.symm.trans hAt)
    simp only [if_true]
    exact ⟨fun r hr => (hReg s').symm.trans hr,
      fun hNone => absurd (hn.symm.trans ((hReg s').symm.trans hNone)) (by simp), hLru⟩
  · rw [if_neg hjk]
    exact ⟨fun _ hr => hr, hWf.unpinned hs', hWf.lru hs'⟩

/-- A slot that does not hold `n`, taken over for it. -/
theorem GprCache.Wf.take (hWf : c.Wf used) {n : RegIndex} (hUsed : n ∈ used)
    (hFind : gprFind c n = none) (k : Nat) :
    (c.setSlot k fun s => { s with reg := some n, dirty := false, pinned := false }).Wf used where
  distinct hi hj hr hr' := by
    obtain ⟨s, hs, rfl⟩ := getElem?_modify_some hi
    obtain ⟨t, ht, rfl⟩ := getElem?_modify_some hj
    split at hr
    · split at hr'
      · omega
      · cases hr
        exact absurd hr' (gprFind_none hFind ht)
    · split at hr'
      · cases hr'
        exact absurd hr (gprFind_none hFind hs)
      · exact hWf.distinct hs ht hr hr'
  refs hk hr := by
    obtain ⟨s, hs, rfl⟩ := getElem?_modify_some hk
    split at hr
    · cases hr
      exact hUsed
    · exact hWf.refs hs hr
  zero := hWf.zero
  unpinned hk hNone := by
    obtain ⟨s, hs, rfl⟩ := getElem?_modify_some hk
    split at hNone
    · cases hNone
    · next hNe =>
      rw [if_neg hNe]
      exact hWf.unpinned hs hNone
  fits := by
    simp only [GprCache.setSlot, List.length_modify]
    exact hWf.fits
  lru hk := by
    obtain ⟨s, hs, rfl⟩ := getElem?_modify_some hk
    split
    · show s.lru < _
      exact hWf.lru hs
    · exact hWf.lru hs

theorem GprCache.Wf.mapSlots (hWf : c.Wf used) {f : GprSlot → GprSlot}
    (hReg : ∀ s r, (f s).reg = some r → s.reg = some r)
    (hPinned : ∀ s, (s.reg = none → s.pinned = false) → (f s).reg = none → (f s).pinned = false)
    (hLru : ∀ s, (f s).lru = s.lru) : (c.mapSlots f).Wf used := by
  refine hWf.of_slots (List.length_map _) ?_
  intro k t hk
  simp only [GprCache.mapSlots, List.getElem?_map] at hk
  obtain ⟨s, hs, rfl⟩ := Option.map_eq_some_iff.mp hk
  exact ⟨s, hs, hReg s, hPinned s (hWf.unpinned hs), (hLru s).symm ▸ hWf.lru hs⟩

end Slots

variable {p : Platform M} {cps : Bool} {used : Finset RegIndex} {hole : Option Nat}
variable {c : GprCache} {g : CPUState M} {st : HostState M} {n : RegIndex}

theorem LiveExcept.of_live (h : Live cps used c g st) (k : Nat) :
    LiveExcept cps used (some k) c g st :=
  { h with cached := fun hAt hReg _ => h.cached hAt hReg (by simp) }

/-- A register outside the cache does not matter. -/
theorem LiveExcept.setReg (h : LiveExcept cps used hole c g st) {r : HostReg}
    (hr : ∀ k, r ≠ .slot k) (x : BitVec 64) : LiveExcept cps used hole c g (st.setReg r x) :=
  { h with
    cached := fun {k} _ _ hAt hReg hHole => by
      rw [HostState.setReg_regs, Function.update_of_ne (hr k).symm]
      exact h.cached hAt hReg hHole }

theorem LiveExcept.setFlags (h : LiveExcept cps used hole c g st)
    (f : Option (FlagType × Word × Word)) :
    LiveExcept cps used hole c g { st with flags := f } :=
  { h with }

/-- Registers and memory of the guest that lie outside the cache. -/
theorem LiveExcept.setRest (h : LiveExcept cps used hole c g st) {cpu' g' : CPUState M}
    (hCpu : cpu'.gpr = st.cpu.gpr) (hGuest : g'.gpr = g.gpr) (hPc : cpu'.pc = st.cpu.pc)
    (hRest : SameRest cpu' g') : LiveExcept cps used hole c g' { st with cpu := cpu' } where
  wf := h.wf
  cached hAt hReg hHole := (h.cached hAt hReg hHole).trans (congrFun hGuest.symm _)
  stored r hClean := by rw [hCpu, hGuest, h.stored r hClean]
  rest := hRest
  zero := by rw [hGuest, h.zero]
  pc hCps := hPc.trans (h.pc hCps)
  running := h.running

theorem LiveExcept.setRegs (h : LiveExcept cps used hole c g st) (regs : HostReg → BitVec 64)
    (hSlots : ∀ k, regs (.slot k) = st.regs (.slot k)) :
    LiveExcept cps used hole c g { st with regs := regs } :=
  { h with
    cached := fun {k} _ _ hAt hReg hHole =>
      (congrArg low (hSlots k)).trans (h.cached hAt hReg hHole) }

theorem LiveExcept.setSpilled (h : LiveExcept cps used hole c g st) {r : RegIndex} {v : Word}
    (hv : v = g.gpr r) :
    LiveExcept cps used hole c g { st with cpu := st.cpu.setGpr r v } :=
  { h with
    stored := fun r' hClean => by
      simp only [CPUState.setGpr_gpr, Function.update_apply]
      split
      · next hEq => rw [hv, hEq]
      · exact h.stored r' hClean
    rest := ⟨h.rest.hi, h.rest.lo, h.rest.cop0, h.rest.gteData, h.rest.gteCtrl, h.rest.mem⟩ }

/-- A slot whose register memory knows can be taken over. -/
theorem LiveExcept.take (h : Live cps used c g st) (hUsed : n ∈ used)
    (hFind : gprFind c n = none) {k : Nat} {s : GprSlot} (hAt : c.slots[k]? = some s)
    (hStored : ∀ r, s.reg = some r → st.cpu.gpr r = g.gpr r) :
    LiveExcept cps used (some k)
      (c.setSlot k fun s => { s with reg := some n, dirty := false, pinned := false }) g st where
  wf := h.wf.take hUsed hFind k
  cached := by
    intro j t r hj hr hHole
    obtain ⟨s', hs', rfl⟩ := getElem?_modify_some hj
    have hjk : k ≠ j := fun hEq => hHole (congrArg some hEq)
    rw [if_neg hjk] at hr
    exact h.cached hs' hr (by simp)
  stored := by
    intro r hClean
    by_cases hr : s.reg = some r
    · exact hStored r hr
    · refine h.stored r ?_
      intro j t ht htr
      have hjk : k ≠ j := by
        rintro rfl
        exact hr (Option.some.inj (ht.symm.trans hAt) ▸ htr)
      refine hClean (k := j) ?_ htr
      simp only [GprCache.setSlot, List.getElem?_modify_ne _ _ hjk, ht]
  rest := h.rest
  zero := h.zero
  pc := h.pc
  running := h.running

theorem keeps_setSlot {k : Nat} {s : GprSlot} (hAt : c.slots[k]? = some s)
    (hPinned : s.pinned = false) (f : GprSlot → GprSlot) {st' : HostState M}
    (hRegs : st'.regs = st.regs) (hFlags : st'.flags = st.flags) :
    Keeps c st (c.setSlot k f) st' where
  scratch r _ := by rw [hRegs]
  pinned := by
    intro j t ht htp
    have hjk : k ≠ j := by
      rintro rfl
      obtain rfl := Option.some.inj (ht.symm.trans hAt)
      simp [hPinned] at htp
    exact ⟨by rw [hRegs], t, by simp [GprCache.setSlot, List.getElem?_modify_ne _ _ hjk, ht], htp⟩
  flags := hFlags

/-- What `gpr_alloc` leaves: the register has the slot `k`, and what lay there
before is in memory. -/
structure Allocated (cps : Bool) (used : Finset RegIndex) (n : RegIndex) (g : CPUState M)
    (c : GprCache) (st : HostState M) (k : Nat) (c' : GprCache) (st' : HostState M) : Prop where
  live : LiveExcept cps used (some k) c' g st'
  keeps : Keeps c st c' st'
  lru : c'.lru = c.lru
  pins : c'.pins ≤ c.pins
  found : gprFind c n ≠ none → st' = st ∧ c' = c
  slot : ∃ s, c'.slots[k]? = some s ∧ s.reg = some n ∧
    (gprFind c n = none → s.dirty = false ∧ s.pinned = false)

theorem Allocated.of_take (hUsed : n ∈ used) (hFind : gprFind c n = none) {k : Nat} {s : GprSlot}
    (hAt : c.slots[k]? = some s) (hUnpinned : s.pinned = false) {st' : HostState M}
    (hLive : Live cps used c g st') (hRegs : st'.regs = st.regs) (hFlags : st'.flags = st.flags)
    (hStored : ∀ r, s.reg = some r → st'.cpu.gpr r = g.gpr r) :
    Allocated cps used n g c st k
      (c.setSlot k fun s => { s with reg := some n, dirty := false, pinned := false }) st' where
  live := .take hLive hUsed hFind hAt hStored
  keeps := keeps_setSlot hAt hUnpinned _ hRegs hFlags
  lru := rfl
  pins := countP_modify_le _ _ (by simp)
  found h := absurd hFind h
  slot := by
    refine ⟨{ s with reg := some n, dirty := false, pinned := false }, ?_, rfl, fun _ => ⟨rfl, rfl⟩⟩
    simp only [GprCache.setSlot, List.getElem?_modify_eq, hAt]
    rfl

theorem step_spill (hRunning : st.skip = 0) (k : Nat) (r : RegIndex) :
    step p st (spill k r) =
      .ok { st with cpu := st.cpu.setGpr r (low (st.regs (.slot k))) } := by
  rw [step_of_running hRunning]
  simp [execute, spill, HostState.write, HostState.eval, Op1.apply, Field.write]

theorem wp_gprAlloc (hLive : Live cps used c g st) (hUsed : n ∈ used) (hPins : c.pins ≤ 3) :
    wp (step p) (gprAlloc n) c st (Allocated cps used n g c st) := by
  unfold gprAlloc
  refine wp_bind (wp_get ?_)
  cases hFind : gprFind c n with
  | some k =>
      obtain ⟨s, hAt, hReg⟩ := gprFind_some hFind
      exact wp_pure ⟨.of_live hLive k, Keeps.refl c st, rfl, Nat.le_refl _, fun _ => ⟨rfl, rfl⟩,
        s, hAt, hReg, by simp [hFind]⟩
  | none =>
      obtain ⟨s, hAt, hFree⟩ := hLive.wf.pickSlot_free hUsed hFind hPins
      have hUnpinned : s.pinned = false := hFree.elim (hLive.wf.unpinned hAt) id
      dsimp only
      generalize (pickSlot c.slots 0 none 0xFFFFFFFF).getD 0 = k at hAt ⊢
      rw [hAt]
      obtain ⟨reg, dirty, pinned, lru⟩ := s
      -- a dirty slot is written back first
      by_cases hDirty : ∃ r, reg = some r ∧ dirty = true
      · obtain ⟨r, rfl, rfl⟩ := hDirty
        have hValue := hLive.cached hAt rfl (by simp)
        refine wp_bind (wp_emit (step_spill hLive.running k r) (wp_bind (wp_modify (wp_pure ?_))))
        refine .of_take hUsed hFind hAt hUnpinned (hLive.setSpilled hValue) rfl rfl ?_
        intro r' hr'
        cases hr'
        simp [hValue]
      · have hClean : ∀ r, reg = some r → st.cpu.gpr r = g.gpr r := by
          rintro r rfl
          refine hLive.stored r fun {j s} hs hr => ?_
          have hj := hLive.wf.distinct hs hAt hr rfl
          subst hj
          obtain rfl := Option.some.inj (hs.symm.trans hAt)
          simpa using hDirty
        split
        · next r _ _ hEq =>
          cases hEq
          exact absurd ⟨r, rfl, rfl⟩ hDirty
        · exact wp_bind (wp_modify (wp_pure
            (.of_take hUsed hFind hAt hUnpinned hLive rfl rfl hClean)))

theorem LiveExcept.touch (h : LiveExcept cps used hole c g st) {k : Nat} {s : GprSlot}
    (hAt : c.slots[k]? = some s) (hn : s.reg = some n) {f : GprSlot → GprSlot}
    (hReg : ∀ s, (f s).reg = s.reg) (hDirty : ∀ s, s.dirty = true → (f s).dirty = true)
    (hLru : c.lru + 1 < 0xFFFFFFFF) : LiveExcept cps used hole (c.touch k f) g st :=
  { h with
    wf := h.wf.touch hAt hn hReg hLru
    cached := by
      intro j t r hj hr hHole
      obtain ⟨s', hs', rfl⟩ := getElem?_modify_some hj
      refine h.cached hs' ?_ hHole
      split at hr
      · exact (hReg s').symm.trans hr
      · exact hr
    stored := by
      intro r hClean
      refine h.stored r ?_
      intro j t ht htr
      by_contra hNotClean
      have hTouched : (c.touch k f).slots[j]? =
          some (if k = j then { f t with lru := c.lru + 1 } else t) := by
        simp only [GprCache.touch, List.getElem?_modify, ht]
        rfl
      have hFalse := hClean hTouched (by split <;> simp [hReg, htr])
      split at hFalse
      · simp [hDirty t (by simpa using hNotClean)] at hFalse
      · exact hNotClean hFalse }

/-- A hole is filled with what its guest register has. -/
theorem LiveExcept.fill {k : Nat} (h : LiveExcept cps used (some k) c g st) {s : GprSlot}
    (hAt : c.slots[k]? = some s) (hReg : s.reg = some n) {x : BitVec 64} (hx : low x = g.gpr n) :
    Live cps used c g (st.setReg (.slot k) x) :=
  { h with
    cached := by
      intro j t r ht hr _
      by_cases hjk : j = k
      · subst hjk
        obtain rfl := Option.some.inj (ht.symm.trans hAt)
        obtain rfl := Option.some.inj (hr.symm.trans hReg)
        simp [hx]
      · rw [HostState.setReg_regs, Function.update_of_ne (by simp [hjk])]
        exact h.cached ht hr (by simpa using fun hEq => hjk hEq.symm) }

theorem LiveExcept.ready {k : Nat} (h : LiveExcept cps used (some k) c g st) {s : GprSlot}
    (hAt : c.slots[k]? = some s) (hReg : s.reg = some n) (hDirty : s.dirty = true) :
    Ready cps used n c g st (.slot k) := by
  have hn : n ≠ 0 := fun hEq => h.wf.zero (hEq ▸ h.wf.refs hAt hReg)
  intro x
  refine { h with cached := ?_, stored := ?_, rest := ?_, zero := by simp }
  · intro j t r ht hr _
    have hr0 : r ≠ 0 := fun hEq => h.wf.zero (hEq ▸ h.wf.refs ht hr)
    by_cases hjk : j = k
    · subst hjk
      obtain rfl := Option.some.inj (ht.symm.trans hAt)
      obtain rfl := Option.some.inj (hr.symm.trans hReg)
      simp only [HostState.setReg_regs, CPUState.setGpr_gpr, Function.update_self,
        Function.update_of_ne hr0]
    · have hrn : r ≠ n := fun hEq => hjk (h.wf.distinct ht hAt hr (hEq ▸ hReg))
      rw [HostState.setReg_regs, Function.update_of_ne (by simp [hjk])]
      simp only [CPUState.setGpr_gpr, Function.update_of_ne hr0, Function.update_of_ne hrn]
      exact h.cached ht hr (by simpa using fun hEq => hjk hEq.symm)
  · intro r hClean
    have hrn : r ≠ n := by
      rintro rfl
      exact absurd (hClean hAt hReg) (by simp [hDirty])
    have hStored := h.stored r hClean
    simp only [HostState.setReg_cpu, CPUState.setGpr_gpr, Function.update_apply]
    split
    · next hEq => rw [hStored, hEq, h.zero]
    · exact hStored
  · exact ⟨h.rest.hi, h.rest.lo, h.rest.cop0, h.rest.gteData, h.rest.gteCtrl, h.rest.mem⟩

theorem keeps_touch {c' : GprCache} {st' : HostState M} (h : Keeps c st c' st') (k : Nat)
    {f : GprSlot → GprSlot} (hPinned : ∀ s, s.pinned = true → (f s).pinned = true) :
    Keeps c st (c'.touch k f) st' where
  scratch := h.scratch
  pinned := by
    intro j s hAt hPin
    obtain ⟨hSame, s', hAt', hPin'⟩ := h.pinned hAt hPin
    refine ⟨hSame, if k = j then { f s' with lru := c'.lru + 1 } else s', ?_, ?_⟩
    · simp only [GprCache.touch, List.getElem?_modify, hAt']
      rfl
    · split
      · exact hPinned s' hPin'
      · exact hPin'
  flags := h.flags

/-- A slot that is not pinned can be loaded. -/
theorem Keeps.setSlot {c' : GprCache} {st' : HostState M} (h : Keeps c st c' st') {k : Nat}
    {s : GprSlot} (hAt : c'.slots[k]? = some s) (hPinned : s.pinned = false) (x : BitVec 64) :
    Keeps c st c' (st'.setReg (.slot k) x) where
  scratch r hr := by
    rw [HostState.setReg_regs, Function.update_of_ne (hr k)]
    exact h.scratch r hr
  pinned := by
    intro j t ht hPin
    obtain ⟨hSame, s', hAt', hPin'⟩ := h.pinned ht hPin
    have hjk : j ≠ k := by
      rintro rfl
      obtain rfl := Option.some.inj (hAt'.symm.trans hAt)
      simp [hPinned] at hPin'
    rw [HostState.setReg_regs, Function.update_of_ne (by simp [hjk])]
    exact ⟨hSame, s', hAt', hPin'⟩
  flags := h.flags

/-- What `gpr_src` leaves: an operand with the value of the register. -/
structure Fetched (cps : Bool) (used : Finset RegIndex) (n : RegIndex) (g : CPUState M)
    (c : GprCache) (st : HostState M) (a : Operand) (c' : GprCache) (st' : HostState M) :
    Prop where
  live : Live cps used c' g st'
  keeps : Keeps c st c' st'
  holds : Holds c' st' (g.gpr n) a
  pins : c'.pins ≤ c.pins + 1
  lru : c'.lru ≤ c.lru + 1

/-- The slot of a register with its value is pinned and becomes the operand. -/
theorem Fetched.of_slot {k : Nat} {c' : GprCache} {st' : HostState M} {s : GprSlot}
    (hLive : Live cps used c' g st') (hKeeps : Keeps c st c' st') (hLru : c'.lru = c.lru)
    (hPins : c'.pins ≤ c.pins) (hAt : c'.slots[k]? = some s) (hReg : s.reg = some n)
    (hLimit : c.lru + 1 < 0xFFFFFFFF) :
    Fetched cps used n g c st (.reg (.slot k)) (c'.touch k fun s => { s with pinned := true })
      st' where
  live := hLive.touch hAt hReg (fun _ => rfl) (fun _ h => h) (hLru ▸ hLimit)
  keeps := keeps_touch hKeeps k fun _ _ => rfl
  holds := by
    refine ⟨hLive.cached hAt hReg (by simp), { s with pinned := true, lru := c'.lru + 1 }, ?_, rfl⟩
    simp only [GprCache.touch, List.getElem?_modify_eq, hAt]
    rfl
  pins := (countP_modify_le_succ _ _ _ _).trans (by simpa [GprCache.pins] using hPins)
  lru := by simp [GprCache.touch, hLru]

theorem wp_gprSrc (hLive : Live cps used c g st) (hUsed : n ≠ 0 → n ∈ used) (hPins : c.pins ≤ 3)
    (hLimit : c.lru + 1 < 0xFFFFFFFF) :
    wp (step p) (gprSrc n) c st (Fetched cps used n g c st) := by
  unfold gprSrc
  by_cases hn : n = 0
  · rw [if_pos hn]
    have hHolds : Holds c st (g.gpr n) (.imm 0) := by
      rw [hn, hLive.zero]
      rfl
    exact wp_pure ⟨hLive, Keeps.refl c st, hHolds, by omega, by omega⟩
  · rw [if_neg hn]
    refine wp_bind (wp_get ?_)
    cases hFind : gprFind c n with
    | some k =>
        obtain ⟨s, hAt, hReg⟩ := gprFind_some hFind
        exact wp_bind (wp_pure (wp_bind (wp_modify (wp_pure
          (.of_slot hLive (Keeps.refl c st) rfl (Nat.le_refl _) hAt hReg hLimit)))))
    | none =>
        refine wp_bind (wp_mono (wp_gprAlloc hLive (hUsed hn) hPins) ?_)
        intro k c₁ st₁ hAlloc
        obtain ⟨s, hAt, hReg, hClean⟩ := hAlloc.slot
        -- the new slot is the only one of the register, and it is clean
        have hStored : st₁.cpu.gpr n = g.gpr n := by
          refine hAlloc.live.stored n ?_
          intro j t ht htr
          have hjk := hAlloc.live.wf.distinct ht hAt htr hReg
          subst hjk
          obtain rfl := Option.some.inj (ht.symm.trans hAt)
          exact (hClean hFind).1
        have hStep : step p st₁ (.op1 .mov32 (.reg (.slot k)) (.mem (.gpr n))) =
            .ok (st₁.setReg (.slot k) (p.extension.widen (st₁.cpu.gpr n))) := by
          rw [step_of_running hAlloc.live.running]
          simp [execute, HostState.write, HostState.eval, Op1.apply, Field.read]
        refine wp_bind (wp_emit hStep (wp_bind (wp_pure (wp_bind (wp_modify (wp_pure ?_))))))
        refine .of_slot (hAlloc.live.fill hAt hReg (by simp [hStored])) ?_ hAlloc.lru hAlloc.pins
          hAt hReg hLimit
        exact hAlloc.keeps.setSlot hAt (hClean hFind).2 _

/-- What `gpr_dst` leaves: a register that stands for the guest register once it
is written. -/
structure Prepared (cps : Bool) (used : Finset RegIndex) (n : RegIndex) (g : CPUState M)
    (c : GprCache) (st : HostState M) (d : HostReg) (c' : GprCache) (st' : HostState M) :
    Prop where
  ready : Ready cps used n c' g st' d
  keeps : Keeps c st c' st'
  notCtrl : d ≠ .ctrl
  running : st'.skip = 0
  pins : c'.pins ≤ c.pins
  lru : c'.lru ≤ c.lru + 1

theorem wp_gprDst (hLive : Live cps used c g st) (hUsed : n ≠ 0 → n ∈ used) (hPins : c.pins ≤ 3)
    (hLimit : c.lru + 1 < 0xFFFFFFFF) :
    wp (step p) (gprDst n) c st (Prepared cps used n g c st) := by
  unfold gprDst
  by_cases hn : n = 0
  · rw [if_pos hn]
    refine wp_pure ⟨fun x => ?_, Keeps.refl c st, by simp, hLive.running, Nat.le_refl _, by omega⟩
    have hSame : (g.setGpr n (low x)).setGpr 0 0 = g := by
      rw [hn, CPUState.setGpr, CPUState.setGpr_gpr, Function.update_idem]
      exact CPUState.setGpr_eq_self g hLive.zero
    rw [hSame]
    exact hLive.setReg (by simp) x
  · rw [if_neg hn]
    refine wp_bind (wp_mono (wp_gprAlloc hLive (hUsed hn) hPins) ?_)
    intro k c₁ st₁ hAlloc
    obtain ⟨s, hAt, hReg, -⟩ := hAlloc.slot
    have hLimit₁ : c₁.lru + 1 < 0xFFFFFFFF := hAlloc.lru ▸ hLimit
    have hDirty := hAlloc.live.touch hAt hReg (f := fun s => { s with dirty := true })
      (fun _ => rfl) (fun _ _ => rfl) hLimit₁
    refine wp_bind (wp_modify (wp_pure ⟨?_, keeps_touch hAlloc.keeps k fun _ h => h, by simp,
      hAlloc.live.running, ?_, ?_⟩))
    · refine hDirty.ready (s := { s with dirty := true, lru := c₁.lru + 1 }) ?_ hReg rfl
      simp only [GprCache.touch, List.getElem?_modify_eq, hAt]
      rfl
    · refine le_trans ?_ hAlloc.pins
      exact countP_modify_le c₁.slots k
        (f := fun s => { s with dirty := true, lru := c₁.lru + 1 }) fun _ h => h
    · simp [GprCache.touch, hAlloc.lru]

theorem LiveExcept.unpin (h : LiveExcept cps used hole c g st) :
    LiveExcept cps used hole (c.mapSlots GprSlot.unpin) g st :=
  { h with
    wf := h.wf.mapSlots (fun _ _ hr => hr) (fun _ _ _ => rfl) fun _ => rfl
    cached := by
      intro k t r hk hr hHole
      simp only [GprCache.mapSlots, List.getElem?_map] at hk
      obtain ⟨s, hs, rfl⟩ := Option.map_eq_some_iff.mp hk
      exact h.cached hs hr hHole
    stored := by
      intro r hClean
      refine h.stored r fun {k s} hs hr => ?_
      refine hClean (k := k) (s := s.unpin) ?_ hr
      simp [GprCache.mapSlots, hs] }

theorem pins_unpin (c : GprCache) : (c.mapSlots GprSlot.unpin).pins = 0 := by
  simp [GprCache.pins, GprCache.mapSlots, List.countP_map, GprSlot.unpin, Function.comp_def]

/-- Where memory has the whole guest state, an empty cache stands for it. -/
theorem Live.reset (hWf : c.Wf used) (hGpr : st.cpu.gpr = g.gpr) (hRest : SameRest st.cpu g)
    (hZero : g.gpr 0 = 0) (hPc : cps = false → st.cpu.pc = 0) (hRunning : st.skip = 0) :
    Live cps used (c.mapSlots GprSlot.reset) g st where
  wf := hWf.mapSlots (fun _ _ hr => by cases hr) (fun _ _ _ => rfl) fun _ => rfl
  cached := by
    intro k t r hk hr
    simp only [GprCache.mapSlots, List.getElem?_map] at hk
    obtain ⟨s, hs, rfl⟩ := Option.map_eq_some_iff.mp hk
    cases hr
  stored r _ := by rw [hGpr]
  rest := hRest
  zero := hZero
  pc := hPc
  running := hRunning

theorem pins_reset (c : GprCache) : (c.mapSlots GprSlot.reset).pins = 0 := by
  simp [GprCache.pins, GprCache.mapSlots, List.countP_map, GprSlot.reset, Function.comp_def]

/-- Two host states that differ in the guest registers in memory only. -/
structure SameHost (st st' : HostState M) : Prop where
  regs : st'.regs = st.regs
  flags : st'.flags = st.flags
  skip : st'.skip = st.skip
  pc : st'.cpu.pc = st.cpu.pc
  rest : SameRest st'.cpu st.cpu

/-- The stores of a flush bring to memory every register whose slot they save. -/
theorem run_flushStores {gpr : RegIndex → Word} (l : List GprSlot) (k : Nat) (st : HostState M)
    (hRunning : st.skip = 0)
    (hCached : ∀ {i : Nat} {s : GprSlot} {r}, l[i]? = some s → s.reg = some r →
      low (st.regs (.slot (k + i))) = gpr r) :
    ∃ st', run (step p) (flushStores k l) st = .ok st' ∧ SameHost st st' ∧
      ∀ r, (st.cpu.gpr r = gpr r ∨ ∃ s ∈ l, s.reg = some r ∧ s.dirty = true) →
        st'.cpu.gpr r = gpr r := by
  induction l generalizing k st with
  | nil =>
      refine ⟨st, rfl, ⟨rfl, rfl, rfl, rfl, ⟨rfl, rfl, rfl, rfl, rfl, rfl⟩⟩, ?_⟩
      rintro r (hr | ⟨s, hs, -⟩)
      · exact hr
      · cases hs
  | cons s rest ih =>
      have hCached' : ∀ {i : Nat} {t : GprSlot} {r}, rest[i]? = some t → t.reg = some r →
          low (st.regs (.slot (k + 1 + i))) = gpr r := by
        intro i t r ht hr
        have := hCached (i := i + 1) ht hr
        rwa [show k + (i + 1) = k + 1 + i by omega] at this
      by_cases hDirty : ∃ r, s.reg = some r ∧ s.dirty = true
      · obtain ⟨r₀, hReg, hDirty⟩ := hDirty
        have hValue : low (st.regs (.slot k)) = gpr r₀ := hCached (i := 0) rfl hReg
        obtain ⟨st', hRun, hSame, hGpr⟩ := ih (k + 1)
          { st with cpu := st.cpu.setGpr r₀ (low (st.regs (.slot k))) } hRunning hCached'
        refine ⟨st', ?_, ⟨hSame.regs, hSame.flags, hSame.skip, hSame.pc,
          ⟨hSame.rest.hi, hSame.rest.lo, hSame.rest.cop0, hSame.rest.gteData, hSame.rest.gteCtrl,
            hSame.rest.mem⟩⟩, ?_⟩
        · simp only [flushStores, hReg, hDirty, if_true]
          rw [run_cons, step_spill hRunning]
          exact hRun
        · intro r hr
          refine hGpr r ?_
          by_cases hEq : r = r₀
          · exact .inl (by simp [hEq, hValue])
          · rcases hr with hr | ⟨t, ht, htr, htd⟩
            · exact .inl (by simpa [Function.update_of_ne hEq] using hr)
            · cases ht with
              | head => exact absurd (Option.some.inj (htr.symm.trans hReg)) hEq
              | tail _ ht => exact .inr ⟨t, ht, htr, htd⟩
      · obtain ⟨st', hRun, hSame, hGpr⟩ := ih (k + 1) st hRunning hCached'
        refine ⟨st', ?_, hSame, ?_⟩
        · rw [flushStores]
          split
          · next r hr =>
            rw [if_neg fun h => hDirty ⟨r, hr, h⟩]
            exact hRun
          · exact hRun
        · rintro r (hr | ⟨t, ht, htr, htd⟩)
          · exact hGpr r (.inl hr)
          · cases ht with
            | head => exact absurd ⟨r, htr, htd⟩ hDirty
            | tail _ ht => exact hGpr r (.inr ⟨t, ht, htr, htd⟩)

/-- What `gpr_flush` leaves: memory has every guest register. -/
structure Flushed (cps : Bool) (used : Finset RegIndex) (g : CPUState M) (c : GprCache)
    (st : HostState M) (c' : GprCache) (st' : HostState M) : Prop where
  live : Live cps used c' g st'
  host : SameHost st st'
  gpr : st'.cpu.gpr = g.gpr
  cache : c' = c.mapSlots GprSlot.clean

theorem GprSlot.clean_reg (s : GprSlot) : s.clean.reg = s.reg := by
  unfold GprSlot.clean
  split <;> rfl

theorem GprSlot.clean_pinned (s : GprSlot) : s.clean.pinned = s.pinned := by
  unfold GprSlot.clean
  split <;> rfl

theorem GprSlot.clean_lru (s : GprSlot) : s.clean.lru = s.lru := by
  unfold GprSlot.clean
  split <;> rfl

theorem pins_clean (c : GprCache) : (c.mapSlots GprSlot.clean).pins = c.pins := by
  simp [GprCache.pins, GprCache.mapSlots, List.countP_map, GprSlot.clean_pinned, Function.comp_def]

theorem wp_gprFlush (hLive : Live cps used c g st) :
    wp (step p) gprFlush c st fun _ c' st' => Flushed cps used g c st c' st' := by
  unfold gprFlush
  refine wp_bind (wp_get ?_)
  obtain ⟨st', hRun, hSame, hGpr⟩ := run_flushStores (p := p) c.slots 0 st hLive.running
    fun {i s r} hs hr => by simpa using hLive.cached hs hr (by simp)
  -- a register is dirty in some slot, or memory has it already
  have hAll : st'.cpu.gpr = g.gpr := by
    funext r
    refine hGpr r ?_
    by_cases hDirty : ∃ s ∈ c.slots, s.reg = some r ∧ s.dirty = true
    · exact .inr hDirty
    · refine .inl (hLive.stored r fun {k s} hs hr => ?_)
      have := fun h => hDirty ⟨s, List.mem_of_getElem? hs, hr, h⟩
      simpa using this
  refine wp_bind (wp_emitAll ⟨st', hRun, wp_modify ⟨?_, hSame, hAll, rfl⟩⟩)
  refine ⟨?_, ?_, fun r _ => congrFun hAll r, ?_, hLive.zero,
    fun h => hSame.pc.trans (hLive.pc h), hSame.skip.trans hLive.running⟩
  · exact hLive.wf.mapSlots (fun s r hr => s.clean_reg.symm.trans hr)
      (fun s h hNone => s.clean_pinned.trans (h (s.clean_reg.symm.trans hNone))) GprSlot.clean_lru
  · intro k t r hk hr _
    simp only [GprCache.mapSlots, List.getElem?_map] at hk
    obtain ⟨s, hs, rfl⟩ := Option.map_eq_some_iff.mp hk
    rw [hSame.regs]
    exact hLive.cached hs (s.clean_reg.symm.trans hr) (by simp)
  · exact ⟨hSame.rest.hi.trans hLive.rest.hi, hSame.rest.lo.trans hLive.rest.lo,
      hSame.rest.cop0.trans hLive.rest.cop0, hSame.rest.gteData.trans hLive.rest.gteData,
      hSame.rest.gteCtrl.trans hLive.rest.gteCtrl, hSame.rest.mem.trans hLive.rest.mem⟩

end RecompStudio.Sljit
