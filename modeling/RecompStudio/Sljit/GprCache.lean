import RecompStudio.Sljit.Lir
import Mathlib.Data.Finset.Card
import Mathlib.Data.List.Nodup

/-!
The block-local register cache of the overlay compiler: which host register
holds which guest register, and which of them memory does not know yet.
-/

namespace RecompStudio.Sljit

open RecompStudio.Staged
open RecompStudio.Staged.Emit

variable {M : Type}

structure GprSlot where
  reg : Option RegIndex
  dirty : Bool
  pinned : Bool
  lru : Nat
deriving DecidableEq, Repr

/-- `s_gpr`, as many slots as are active, and `s_gpr_lru`. -/
structure GprCache where
  slots : List GprSlot
  lru : Nat
deriving DecidableEq, Repr

abbrev Emit := Staged.Emit GprCache Lir

def GprSlot.reset (s : GprSlot) : GprSlot := { s with reg := none, dirty := false, pinned := false }

@[grind =] def GprSlot.clean (s : GprSlot) : GprSlot :=
  if s.reg.isSome && s.dirty then { s with dirty := false } else s

def GprSlot.unpin (s : GprSlot) : GprSlot := { s with pinned := false }

@[grind =] def GprCache.mapSlots (c : GprCache) (f : GprSlot → GprSlot) : GprCache :=
  { c with slots := c.slots.map f }

def GprCache.setSlot (c : GprCache) (k : Nat) (f : GprSlot → GprSlot) : GprCache :=
  { c with slots := c.slots.modify k f }

/-- `lru = ++s_gpr_lru`. -/
@[grind =] def GprCache.touch (c : GprCache) (k : Nat) (f : GprSlot → GprSlot) : GprCache :=
  { slots := c.slots.modify k fun s => { f s with lru := c.lru + 1 }, lru := c.lru + 1 }

/-- The store of a guest register from its slot. -/
def spill (k : Nat) (r : RegIndex) : Lir := .op1 .mov32 (.mem (.gpr r)) (.reg (.slot k))

def gprReset : Emit Unit := modify (·.mapSlots GprSlot.reset)

/-- The stores of the dirty slots from slot `k` on. -/
def flushStores : Nat → List GprSlot → List Lir
  | _, [] => []
  | k, s :: rest =>
      match s.reg with
      | some r => if s.dirty then spill k r :: flushStores (k + 1) rest
          else flushStores (k + 1) rest
      | none => flushStores (k + 1) rest

def gprFlush : Emit Unit := do
  let c ← get
  emitAll (flushStores 0 c.slots)
  modify (·.mapSlots GprSlot.clean)

def gprFind (c : GprCache) (n : RegIndex) : Option Nat := c.slots.findIdx? (·.reg == some n)

/-- The loop of `gpr_alloc` over the slots from `j` on: the first empty one, or
the unpinned one that was used the longest ago. -/
@[grind =] def pickSlot : List GprSlot → Nat → Option Nat → Nat → Option Nat
  | [], _, victim, _ => victim
  | s :: rest, j, victim, best =>
      if s.reg.isNone then some j
      else if !s.pinned && decide (s.lru < best) then pickSlot rest (j + 1) (some j) s.lru
      else pickSlot rest (j + 1) victim best

def gprAlloc (n : RegIndex) : Emit Nat := do
  let c ← get
  match gprFind c n with
  | some k => pure k
  | none =>
      let k := (pickSlot c.slots 0 none 0xFFFFFFFF).getD 0
      match c.slots[k]? with
      | some ⟨some r, true, _, _⟩ => emit (spill k r)
      | _ => pure ()
      modify (·.setSlot k fun s => { s with reg := some n, dirty := false, pinned := false })
      pure k

def gprSrc (n : RegIndex) : Emit Operand :=
  if n = 0 then pure (.imm 0)
  else do
    let c ← get
    let k ← match gprFind c n with
      | some k => pure k
      | none => do
          let k ← gprAlloc n
          emit (.op1 .mov32 (.reg (.slot k)) (.mem (.gpr n)))
          pure k
    modify (·.touch k fun s => { s with pinned := true })
    pure (.reg (.slot k))

def gprDst (n : RegIndex) : Emit HostReg :=
  if n = 0 then pure .r0
  else do
    let k ← gprAlloc n
    modify (·.touch k fun s => { s with dirty := true })
    pure (.slot k)

def gprUnpin : Emit Unit := modify (·.mapSlots GprSlot.unpin)

def asReg (a : Operand) (scratch : HostReg) : Emit Operand :=
  match a with
  | .imm v => do
      emit (.op1 .mov32 (.reg scratch) (.imm v))
      pure (.reg scratch)
  | _ => pure a

/-- How many slots the instruction at hand has pinned. -/
@[grind =] def GprCache.pins (c : GprCache) : Nat := c.slots.countP (·.pinned)

/-- What the cache keeps to: no guest register twice, only registers that the
fragment refers to, and a slot for each of them or at least four. -/
structure GprCache.Wf (used : Finset RegIndex) (c : GprCache) : Prop where
  distinct : ∀ {j k : Nat} {s t : GprSlot} {r}, c.slots[j]? = some s → c.slots[k]? = some t →
    s.reg = some r →
    t.reg = some r → j = k
  refs : ∀ {k : Nat} {s : GprSlot} {r}, c.slots[k]? = some s → s.reg = some r → r ∈ used
  zero : 0 ∉ used
  unpinned : ∀ {k : Nat} {s : GprSlot}, c.slots[k]? = some s → s.reg = none → s.pinned = false
  fits : used.card ≤ c.slots.length ∨ 4 ≤ c.slots.length
  lru : ∀ {k : Nat} {s : GprSlot}, c.slots[k]? = some s → s.lru < 0xFFFFFFFF

theorem pickSlot_isSome_of_victim (slots : List GprSlot) (j v best : Nat) :
    (pickSlot slots j (some v) best).isSome := by
  induction slots generalizing j v best with
  | nil => rfl
  | cons s rest ih =>
      rw [pickSlot]
      split
      · rfl
      · split
        · exact ih _ _ _
        · exact ih _ _ _

theorem pickSlot_isSome {slots : List GprSlot} {s : GprSlot} (j : Nat) (victim : Option Nat)
    {best : Nat} (hMem : s ∈ slots) (hFree : s.reg = none ∨ s.pinned = false ∧ s.lru < best) :
    (pickSlot slots j victim best).isSome := by
  induction slots generalizing j victim best with
  | nil => cases hMem
  | cons t rest ih =>
      rw [pickSlot]
      split
      · rfl
      · next hSome =>
        split
        · exact pickSlot_isSome_of_victim _ _ _ _
        · next hTaken =>
          cases hMem with
          | head =>
              rcases hFree with hNone | ⟨hUnpinned, hLru⟩
              · simp [hNone] at hSome
              · simp [hUnpinned, hLru] at hTaken
          | tail _ hRest => exact ih _ _ hRest hFree

/-- A slot that is picked is empty or not pinned. -/
theorem pickSlot_free {slots : List GprSlot} {j best k : Nat} {victim : Option Nat}
    (hPick : pickSlot slots j victim best = some k) :
    victim = some k ∨
      ∃ i s, slots[i]? = some s ∧ k = j + i ∧ (s.reg = none ∨ s.pinned = false) := by
  induction slots generalizing j victim best with
  | nil => exact .inl hPick
  | cons t rest ih =>
      rw [pickSlot] at hPick
      split at hPick
      · next hNone =>
        exact .inr ⟨0, t, rfl, (Option.some.inj hPick).symm,
          .inl (Option.isNone_iff_eq_none.mp hNone)⟩
      · split at hPick
        · next hTake =>
          rcases ih hPick with hVictim | ⟨i, s, hAt, hk, hFree⟩
          · have hUnpinned : t.pinned = false := by
              cases hPinned : t.pinned with
              | false => rfl
              | true => simp [hPinned] at hTake
            exact .inr ⟨0, t, rfl, (Option.some.inj hVictim).symm, .inr hUnpinned⟩
          · exact .inr ⟨i + 1, s, hAt, by omega, hFree⟩
        · rcases ih hPick with hVictim | ⟨i, s, hAt, hk, hFree⟩
          · exact .inl hVictim
          · exact .inr ⟨i + 1, s, hAt, by omega, hFree⟩

theorem gprFind_some {c : GprCache} {n : RegIndex} {k : Nat} (h : gprFind c n = some k) :
    ∃ s, c.slots[k]? = some s ∧ s.reg = some n := by
  obtain ⟨hk, hReg, -⟩ := List.findIdx?_eq_some_iff_getElem.mp h
  exact ⟨c.slots[k], List.getElem?_eq_getElem hk, by simpa using hReg⟩

theorem gprFind_none {c : GprCache} {n : RegIndex} (h : gprFind c n = none) {k : Nat} {s : GprSlot}
    (hAt : c.slots[k]? = some s) : s.reg ≠ some n := by
  have hAll := List.findIdx?_eq_none_iff.mp h s (List.mem_of_getElem? hAt)
  simpa using hAll

variable {used : Finset RegIndex} {c : GprCache}

/-- A register that is not cached finds a slot: either every register of the
fragment has one, or there are more slots than an instruction can pin. -/
theorem GprCache.Wf.exists_free (hWf : c.Wf used) {n : RegIndex} (hUsed : n ∈ used)
    (hFind : gprFind c n = none) (hPins : c.pins ≤ 3) :
    ∃ s ∈ c.slots, s.reg = none ∨ s.pinned = false := by
  by_contra hAll
  push Not at hAll
  rcases hWf.fits with hFits | hFits
  · -- all slots would hold different registers of the fragment other than `n`
    have hSome : ∀ {k : Nat} {s : GprSlot}, c.slots[k]? = some s → s.reg = some (s.reg.getD 0) := by
      intro k s hAt
      obtain ⟨r, hr⟩ := Option.ne_none_iff_exists'.mp (hAll s (List.mem_of_getElem? hAt)).1
      rw [hr]
      rfl
    have hNodup : (c.slots.map fun s => s.reg.getD 0).Nodup := by
      rw [List.nodup_iff_getElem?_ne_getElem?]
      intro i j hij hj hEq
      simp only [List.length_map] at hj
      simp only [List.getElem?_map, List.getElem?_eq_getElem hj,
        List.getElem?_eq_getElem (hij.trans hj), Option.map_some, Option.some.injEq] at hEq
      have hi := List.getElem?_eq_getElem (hij.trans hj)
      have hj' := List.getElem?_eq_getElem hj
      exact absurd (hWf.distinct hi hj' (hSome hi) (hEq ▸ hSome hj')) (by omega)
    have hSub : (c.slots.map fun s => s.reg.getD 0).toFinset ⊆ used.erase n := by
      intro r hr
      rw [List.mem_toFinset, List.mem_map] at hr
      obtain ⟨s, hs, rfl⟩ := hr
      obtain ⟨k, hAt⟩ := List.getElem?_of_mem hs
      refine Finset.mem_erase.mpr ⟨?_, hWf.refs hAt (hSome hAt)⟩
      intro hEq
      exact gprFind_none hFind hAt (hEq ▸ hSome hAt)
    have hCard := Finset.card_le_card hSub
    rw [List.toFinset_card_of_nodup hNodup, List.length_map,
      Finset.card_erase_of_mem hUsed] at hCard
    have hPos := Finset.card_pos.mpr ⟨n, hUsed⟩
    omega
  · have hCount : c.pins = c.slots.length := by
      rw [GprCache.pins, List.countP_eq_length]
      intro s hs
      simpa using (hAll s hs).2
    omega

theorem GprCache.Wf.pickSlot_free (hWf : c.Wf used) {n : RegIndex} (hUsed : n ∈ used)
    (hFind : gprFind c n = none) (hPins : c.pins ≤ 3) :
    ∃ s, c.slots[(pickSlot c.slots 0 none 0xFFFFFFFF).getD 0]? = some s ∧
      (s.reg = none ∨ s.pinned = false) := by
  obtain ⟨s, hMem, hFree⟩ := hWf.exists_free hUsed hFind hPins
  obtain ⟨k', hAt⟩ := List.getElem?_of_mem hMem
  have hPick := pickSlot_isSome 0 none hMem (hFree.imp_right fun h => ⟨h, hWf.lru hAt⟩)
  obtain ⟨k, hk⟩ := Option.isSome_iff_exists.mp hPick
  rw [hk]
  rcases Sljit.pickSlot_free hk with hVictim | ⟨i, t, hAtI, hEq, hFreeT⟩
  · cases hVictim
  · exact ⟨t, by simpa [hEq] using hAtI, hFreeT⟩

end RecompStudio.Sljit
