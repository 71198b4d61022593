import RecompStudio.Runtime.Icache
import Mathlib.Logic.Function.Basic
import Mathlib.Tactic.SplitIfs

/-!
The cycle cost of an instruction: the fetch, the load-delay interlock, and the
completion deadlines of the multiplier and the geometry engine. Both backends
charge cycles through these calls only.
-/

namespace RecompStudio.Runtime

/-- The processor state that decides what an instruction costs. -/
structure Timing where
  cycleCount : Nat
  icache : Icache
  readAbsorb : Nat → Nat
  readAbsorbWhich : Nat
  readFudge : Nat
  ldWhich : Nat
  ldAbsorb : Nat
  muldivTsDone : Nat
  gteTsDone : Nat

/-- `PSX_MULT_TAB24`. -/
def multTab24 (zeros : Nat) : BitVec 8 := if zeros < 12 then 14 else if zeros < 21 then 10 else 7

def clz32 (v : Word) : Nat := 31 - Nat.log2 v.toNat

/-- `psx_mult_latency_s`. -/
def multLatencyS (rs : Word) : BitVec 8 :=
  multTab24 (clz32 ((rs ^^^ rs.sshiftRight 31) ||| 0x400#32))

/-- `psx_mult_latency_u`. -/
def multLatencyU (rs : Word) : BitVec 8 := multTab24 (clz32 (rs ||| 0x400#32))

/-- `psx_gte_cmd_latency`. -/
def gteCmdLatency (cmd : Word) : BitVec 8 :=
  match (cmd &&& 0x3F#32).toNat with
  | 0x00 => 14
  | 0x01 => 14
  | 0x06 => 7
  | 0x0C => 5
  | 0x10 => 7
  | 0x11 => 7
  | 0x12 => 7
  | 0x13 => 18
  | 0x14 => 12
  | 0x16 => 43
  | 0x1A => 7
  | 0x1B => 16
  | 0x1C => 10
  | 0x1E => 13
  | 0x20 => 29
  | 0x28 => 4
  | 0x29 => 7
  | 0x2A => 16
  | 0x2D => 4
  | 0x2E => 4
  | 0x30 => 22
  | 0x3D => 4
  | 0x3E => 4
  | 0x3F => 38
  | _ => 0

/-- `psx_mmio_read_wait`: the wait of the device region that is read. -/
def mmioReadWait (phys size : Nat) : Nat :=
  if phys < 0x00800000 then 3
  else if 0x1FC00000 ≤ phys ∧ phys ≤ 0x1FC7FFFF then 0
  else if 0x1F000000 ≤ phys ∧ phys ≤ 0x1F7FFFFF then 0
  else if 0x1F801000 ≤ phys ∧ phys ≤ 0x1F802FFF then
    if 0x1F801C00 ≤ phys ∧ phys ≤ 0x1F801FFF then (if size = 4 then 36 else 16)
    else if 0x1F801800 ≤ phys ∧ phys ≤ 0x1F80180F then 6 * size
    else if 0x1F801810 ≤ phys ∧ phys ≤ 0x1F801817 then 1
    else if 0x1F801820 ≤ phys ∧ phys ≤ 0x1F801827 then 1
    else if 0x1F801000 ≤ phys ∧ phys ≤ 0x1F801023 then 1
    else if 0x1F801040 ≤ phys ∧ phys ≤ 0x1F80104F then 1
    else if 0x1F801050 ≤ phys ∧ phys ≤ 0x1F80105F then 1
    else if 0x1F801070 ≤ phys ∧ phys ≤ 0x1F801077 then 1
    else if 0x1F801080 ≤ phys ∧ phys ≤ 0x1F8010FF then 1
    else if 0x1F801100 ≤ phys ∧ phys ≤ 0x1F80113F then 1
    else 0
  else 0

namespace Timing

variable (t : Timing)

/-- `psx_advance_cycles`. -/
def charge (cycles : Nat) : Timing := { t with cycleCount := t.cycleCount + cycles }

/-- A miss and a data read end the give-back that is under way. -/
def clearGiveBack : Timing :=
  { t with
    readAbsorb := Function.update t.readAbsorb t.readAbsorbWhich 0
    readAbsorbWhich := 0 }

/-- `psx_icache_fetch`. -/
@[grind =] def icacheFetch (addr : Nat) : Timing :=
  if t.icache.Hits addr then t
  else if 0xA0000000 ≤ addr then t.clearGiveBack.charge 4
  else { t.clearGiveBack with icache := t.icache.refill addr }.charge (3 + (4 - addr % 16 / 4))

/-- `psx_cyc_base`: a give-back is consumed instead of the cycle. -/
def cycBase : Timing :=
  if t.readAbsorb t.readAbsorbWhich = 0 then t.charge 1
  else
    { t with
      readAbsorb := Function.update t.readAbsorb t.readAbsorbWhich
        (t.readAbsorb t.readAbsorbWhich - 1) }

/-- `psx_cyc_deps`. -/
def cycDeps (regMask : Word) : Timing :=
  { t with readAbsorb := fun n => if n ≠ 0 ∧ regMask.getLsbD n then 0 else t.readAbsorb n }

/-- `psx_cyc_lds`: the pending load of the instruction before is committed. -/
def cycLds : Timing :=
  { t with
    readAbsorb := Function.update t.readAbsorb t.ldWhich (t.ldAbsorb % 256)
    readFudge := t.ldWhich
    readAbsorbWhich := t.readAbsorbWhich ||| t.ldWhich % 32
    ldWhich := 0x20 }

/-- `psx_cyc_step`. -/
def cycStep (regMask : Word) : Timing := (t.cycBase.cycDeps regMask).cycLds

/-- `psx_cyc_readmem`. -/
def cycReadmem (phys size complCost armRt : Nat) : Timing :=
  let t := t.clearGiveBack
  if 0x1F800000 ≤ phys ∧ phys ≤ 0x1F8003FF then { t with ldAbsorb := 0, ldWhich := armRt }
  else
    let cost := mmioReadWait phys size + complCost
    { (t.charge (t.readFudge / 16 % 4 / 2 * 2)).charge cost with
      ldAbsorb := cost, ldWhich := armRt }

/-- A load to the register of the pending load cancels that one. -/
def cancelPending (rt : Nat) : Timing := if t.ldWhich = rt then { t with ldWhich := 0 } else t

/-- `psx_cyc_load_timing`. -/
def cycLoad (addr : Word) (size rt : Nat) (regMask : Word) : Timing :=
  (((t.cycBase.cycDeps regMask).cancelPending rt).cycLds).cycReadmem
    (addr &&& 0x1FFFFFFF#32).toNat size 2 rt

/-- `psx_cyc_cop_load_word`. -/
def cycCopLoad (addr : Word) : Timing := t.cycReadmem (addr &&& 0x1FFFFFFF#32).toNat 4 1 0x20

/-- The way to a deadline, as the 32-bit difference. -/
def stall (deadline : Nat) : Nat := (deadline - t.cycleCount) % 2 ^ 32

/-- `psx_muldiv_set`. -/
def muldivSet (latency : BitVec 8) : Timing :=
  { t with muldivTsDone := t.cycleCount + latency.toNat }

/-- `psx_muldiv_stall`. -/
def muldivStall : Timing :=
  if t.cycleCount < t.muldivTsDone then
    if t.muldivTsDone = t.cycleCount + 1 then { t with muldivTsDone := t.muldivTsDone - 1 }
    else
      { t with
        readAbsorb := Function.update t.readAbsorb t.readAbsorbWhich
          (t.readAbsorb t.readAbsorbWhich - t.stall t.muldivTsDone) }.charge
        (t.stall t.muldivTsDone)
  else t

/-- `psx_gte_stall`. -/
def gteStall : Timing :=
  if t.cycleCount < t.gteTsDone then t.charge (t.stall t.gteTsDone) else t

/-- `psx_gte_set`: a command waits for the one before. -/
def gteSet (latency : BitVec 8) : Timing :=
  { t.gteStall with gteTsDone := t.gteStall.cycleCount + latency.toNat }

/-- `psx_gte_read`: the stall is handed on as a give-back. -/
def gteRead (rt : Nat) : Timing :=
  { t.gteStall with
    ldAbsorb := if t.cycleCount < t.gteTsDone then t.stall t.gteTsDone else 0
    ldWhich := rt }

/-- A move from COP0 is a delayed load without give-back. -/
def moveCop0 (rt : Nat) : Timing := { t with ldAbsorb := 0, ldWhich := rt }

end Timing

/-- A call into the cycle model. -/
inductive TimingCall where
  | advance (cycles : Nat)
  | fetch (addr : Word)
  | step (regMask : Word)
  | load (addr : Word) (size : Nat) (rt : RegIndex) (regMask : Word)
  | copLoad (addr : Word)
  | moveCop0 (rt : RegIndex)
  | muldivSet (latency : BitVec 8)
  | muldivStall
  | gteSet (latency : BitVec 8)
  | gteStall
  | gteRead (rt : RegIndex)
deriving DecidableEq, Repr

namespace TimingCall

@[grind =] def exec (t : Timing) : TimingCall → Timing
  | .advance cycles => t.charge cycles
  | .fetch addr => t.icacheFetch addr.toNat
  | .step regMask => t.cycStep regMask
  | .load addr size rt regMask => t.cycLoad addr size rt.toNat regMask
  | .copLoad addr => t.cycCopLoad addr
  | .moveCop0 rt => t.moveCop0 rt.toNat
  | .muldivSet latency => t.muldivSet latency
  | .muldivStall => t.muldivStall
  | .gteSet latency => t.gteSet latency
  | .gteStall => t.gteStall
  | .gteRead rt => t.gteRead rt.toNat

theorem exec_fetch (t : Timing) (addr : Word) :
    exec t (.fetch addr) = t.icacheFetch addr.toNat := rfl

def isFetch : TimingCall → Bool
  | .fetch _ => true
  | _ => false

def fetches (calls : List TimingCall) : Bool := calls.any isFetch

@[simp] theorem fetches_nil : fetches [] = false := rfl

@[simp] theorem fetches_cons (c : TimingCall) (calls : List TimingCall) :
    fetches (c :: calls) = (c.isFetch || fetches calls) := rfl

@[simp] theorem fetches_append (calls calls' : List TimingCall) :
    fetches (calls ++ calls') = (fetches calls || fetches calls') := List.any_append

/-- Some calls in a row. -/
def run (t : Timing) (calls : List TimingCall) : Timing := calls.foldl exec t

@[simp] theorem run_nil (t : Timing) : run t [] = t := rfl

@[simp] theorem run_cons (t : Timing) (c : TimingCall) (calls : List TimingCall) :
    run t (c :: calls) = run (c.exec t) calls := rfl

@[simp] theorem run_append (t : Timing) (calls calls' : List TimingCall) :
    run t (calls ++ calls') = run (run t calls) calls' := List.foldl_append

end TimingCall

/-- The same state `n` cycles later: a deadline has passed in both, or moved along. -/
structure Later (n : Nat) (u v : Timing) : Prop where
  count : v.cycleCount = u.cycleCount + n
  absorb : v.readAbsorb = u.readAbsorb
  which : v.readAbsorbWhich = u.readAbsorbWhich
  fudge : v.readFudge = u.readFudge
  pending : v.ldWhich = u.ldWhich
  giveBack : v.ldAbsorb = u.ldAbsorb
  muldiv : (u.muldivTsDone ≤ u.cycleCount ∧ v.muldivTsDone ≤ v.cycleCount) ∨
    v.muldivTsDone = u.muldivTsDone + n
  gte : (u.gteTsDone ≤ u.cycleCount ∧ v.gteTsDone ≤ v.cycleCount) ∨ v.gteTsDone = u.gteTsDone + n

namespace Later

variable {n : Nat} {u v : Timing}

theorem charge (h : Later n u v) (cycles : Nat) : Later n (u.charge cycles) (v.charge cycles) where
  count := by
    have := h.count
    simp only [Timing.charge]
    omega
  absorb := h.absorb
  which := h.which
  fudge := h.fudge
  pending := h.pending
  giveBack := h.giveBack
  muldiv := h.muldiv.imp_left fun hPast =>
    ⟨hPast.1.trans (Nat.le_add_right _ _), hPast.2.trans (Nat.le_add_right _ _)⟩
  gte := h.gte.imp_left fun hPast =>
    ⟨hPast.1.trans (Nat.le_add_right _ _), hPast.2.trans (Nat.le_add_right _ _)⟩

theorem clearGiveBack (h : Later n u v) : Later n u.clearGiveBack v.clearGiveBack where
  count := h.count
  absorb := by simp only [Timing.clearGiveBack, h.absorb, h.which]
  which := rfl
  fudge := h.fudge
  pending := h.pending
  giveBack := h.giveBack
  muldiv := h.muldiv
  gte := h.gte

theorem giveBacks (h : Later n u v) (absorb : Nat → Nat) :
    Later n { u with readAbsorb := absorb } { v with readAbsorb := absorb } :=
  { h with absorb := rfl }

theorem cycBase (h : Later n u v) : Later n u.cycBase v.cycBase := by
  unfold Timing.cycBase
  rw [h.absorb, h.which]
  split_ifs
  · exact h.charge 1
  · exact { h with absorb := rfl, which := rfl }

theorem cycDeps (h : Later n u v) (regMask : Word) :
    Later n (u.cycDeps regMask) (v.cycDeps regMask) :=
  { h with absorb := by simp only [Timing.cycDeps, h.absorb] }

theorem cycLds (h : Later n u v) : Later n u.cycLds v.cycLds where
  count := h.count
  absorb := by simp only [Timing.cycLds, h.absorb, h.pending, h.giveBack]
  which := by simp only [Timing.cycLds, h.which, h.pending]
  fudge := h.pending
  pending := rfl
  giveBack := h.giveBack
  muldiv := h.muldiv
  gte := h.gte

theorem cycStep (h : Later n u v) (regMask : Word) :
    Later n (u.cycStep regMask) (v.cycStep regMask) :=
  (h.cycBase.cycDeps regMask).cycLds

theorem arm (h : Later n u v) (cost rt : Nat) :
    Later n { u with ldAbsorb := cost, ldWhich := rt } { v with ldAbsorb := cost, ldWhich := rt } :=
  { h with pending := rfl, giveBack := rfl }

theorem cycReadmem (h : Later n u v) (phys size complCost armRt : Nat) :
    Later n (u.cycReadmem phys size complCost armRt) (v.cycReadmem phys size complCost armRt) := by
  have hClear := h.clearGiveBack
  unfold Timing.cycReadmem
  simp only [hClear.fudge]
  split_ifs
  · exact { hClear.arm _ _ with fudge := rfl }
  · exact ((hClear.charge _).charge _).arm _ _

theorem cancelPending (h : Later n u v) (rt : Nat) :
    Later n (u.cancelPending rt) (v.cancelPending rt) := by
  unfold Timing.cancelPending
  rw [h.pending]
  split_ifs
  · exact { h with pending := rfl }
  · exact h

theorem cycLoad (h : Later n u v) (addr : Word) (size rt : Nat) (regMask : Word) :
    Later n (u.cycLoad addr size rt regMask) (v.cycLoad addr size rt regMask) :=
  (((h.cycBase.cycDeps regMask).cancelPending rt).cycLds).cycReadmem ..

theorem muldivSet (h : Later n u v) (latency : BitVec 8) :
    Later n (u.muldivSet latency) (v.muldivSet latency) where
  count := h.count
  absorb := h.absorb
  which := h.which
  fudge := h.fudge
  pending := h.pending
  giveBack := h.giveBack
  muldiv := .inr (by
    have := h.count
    simp only [Timing.muldivSet]
    omega)
  gte := h.gte

/-- The way to a deadline that moved along is the same. -/
theorem stall_eq (h : Later n u v) (deadline : Nat) :
    v.stall (deadline + n) = u.stall deadline := by
  rw [Timing.stall, Timing.stall, h.count, Nat.add_sub_add_right]

theorem muldivStall (h : Later n u v) : Later n u.muldivStall v.muldivStall := by
  have hCount := h.count
  rcases h.muldiv with ⟨hPast, hPast'⟩ | hAlong
  · rw [Timing.muldivStall, Timing.muldivStall, if_neg (by omega), if_neg (by omega)]
    exact h
  · by_cases hAhead : u.cycleCount < u.muldivTsDone
    · have hAhead' : v.cycleCount < v.muldivTsDone := by omega
      rw [Timing.muldivStall, Timing.muldivStall, if_pos hAhead, if_pos hAhead']
      by_cases hNext : u.muldivTsDone = u.cycleCount + 1
      · have hNext' : v.muldivTsDone = v.cycleCount + 1 := by omega
        rw [if_pos hNext, if_pos hNext']
        refine { h with muldiv := .inr ?_ }
        change v.muldivTsDone - 1 = u.muldivTsDone - 1 + n
        omega
      · have hNext' : ¬v.muldivTsDone = v.cycleCount + 1 := by omega
        have hWay : v.stall v.muldivTsDone = u.stall u.muldivTsDone := by
          rw [hAlong, h.stall_eq]
        have hConsumed (stall : Nat) :
            Function.update v.readAbsorb v.readAbsorbWhich
                (v.readAbsorb v.readAbsorbWhich - stall) =
              Function.update u.readAbsorb u.readAbsorbWhich
                (u.readAbsorb u.readAbsorbWhich - stall) := by
          rw [h.absorb, h.which]
        rw [if_neg hNext, if_neg hNext', hWay, hConsumed]
        exact (h.giveBacks _).charge _
    · have hPast : ¬v.cycleCount < v.muldivTsDone := by omega
      rw [Timing.muldivStall, Timing.muldivStall, if_neg hAhead, if_neg hPast]
      exact h

theorem gteStall (h : Later n u v) : Later n u.gteStall v.gteStall := by
  have hCount := h.count
  rcases h.gte with ⟨hPast, hPast'⟩ | hAlong
  · rw [Timing.gteStall, Timing.gteStall, if_neg (by omega), if_neg (by omega)]
    exact h
  · by_cases hAhead : u.cycleCount < u.gteTsDone
    · have hAhead' : v.cycleCount < v.gteTsDone := by omega
      rw [Timing.gteStall, Timing.gteStall, if_pos hAhead, if_pos hAhead', hAlong, h.stall_eq]
      exact h.charge _
    · have hPast : ¬v.cycleCount < v.gteTsDone := by omega
      rw [Timing.gteStall, Timing.gteStall, if_neg hAhead, if_neg hPast]
      exact h

theorem gteSet (h : Later n u v) (latency : BitVec 8) :
    Later n (u.gteSet latency) (v.gteSet latency) :=
  { h.gteStall with
    gte := .inr (by
      have := h.gteStall.count
      simp only [Timing.gteSet]
      omega) }

theorem gteRead (h : Later n u v) (rt : Nat) : Later n (u.gteRead rt) (v.gteRead rt) := by
  have hCount := h.count
  have hWay : (if v.cycleCount < v.gteTsDone then v.stall v.gteTsDone else 0) =
      if u.cycleCount < u.gteTsDone then u.stall u.gteTsDone else 0 := by
    rcases h.gte with ⟨hPast, hPast'⟩ | hAlong
    · rw [if_neg (by omega), if_neg (by omega)]
    · rw [hAlong, h.stall_eq]
      exact if_congr (by omega) rfl rfl
  unfold Timing.gteRead
  rw [hWay]
  exact h.gteStall.arm _ _

theorem moveCop0 (h : Later n u v) (rt : Nat) : Later n (u.moveCop0 rt) (v.moveCop0 rt) :=
  h.arm 0 rt

theorem icacheFetch (h : Later n u v) (hTags : v.icache = u.icache) (addr : Nat) :
    Later n (u.icacheFetch addr) (v.icacheFetch addr) ∧
      (v.icacheFetch addr).icache = (u.icacheFetch addr).icache := by
  unfold Timing.icacheFetch
  rw [hTags]
  split_ifs
  · exact ⟨h, hTags⟩
  · exact ⟨h.clearGiveBack.charge 4, hTags⟩
  · refine ⟨Later.charge ?_ _, rfl⟩
    exact { h.clearGiveBack with }

end Later

/-- The clock does not go back, and a deadline is set to at most 255 cycles ahead. -/
structure Advances (t t' : Timing) : Prop where
  count : t.cycleCount ≤ t'.cycleCount
  muldiv : t'.muldivTsDone ≤ max t.muldivTsDone (t'.cycleCount + 255)
  gte : t'.gteTsDone ≤ max t.gteTsDone (t'.cycleCount + 255)

namespace Advances

variable {t t' t'' : Timing}

theorem refl (t : Timing) : Advances t t := ⟨le_rfl, le_max_left _ _, le_max_left _ _⟩

theorem trans (h : Advances t t') (h' : Advances t' t'') : Advances t t'' := by
  obtain ⟨hCount, hMuldiv, hGte⟩ := h
  obtain ⟨hCount', hMuldiv', hGte'⟩ := h'
  constructor <;> omega

/-- Only the clock moved, as far as the deadlines go. -/
theorem of_eq (hCount : t.cycleCount ≤ t'.cycleCount) (hMuldiv : t'.muldivTsDone = t.muldivTsDone)
    (hGte : t'.gteTsDone = t.gteTsDone) : Advances t t' :=
  ⟨hCount, hMuldiv ▸ le_max_left _ _, hGte ▸ le_max_left _ _⟩

theorem charge (t : Timing) (cycles : Nat) : Advances t (t.charge cycles) :=
  of_eq (Nat.le_add_right _ _) rfl rfl

theorem icacheFetch (t : Timing) (addr : Nat) : Advances t (t.icacheFetch addr) := by
  unfold Timing.icacheFetch
  split_ifs
  · exact refl t
  · exact of_eq (Nat.le_add_right _ _) rfl rfl
  · exact of_eq (Nat.le_add_right _ _) rfl rfl

theorem cycBase (t : Timing) : Advances t t.cycBase := by
  unfold Timing.cycBase
  split_ifs
  · exact charge t 1
  · exact of_eq le_rfl rfl rfl

theorem cycStep (t : Timing) (regMask : Word) : Advances t (t.cycStep regMask) :=
  (cycBase t).trans (of_eq le_rfl rfl rfl)

theorem cycReadmem (t : Timing) (phys size complCost armRt : Nat) :
    Advances t (t.cycReadmem phys size complCost armRt) := by
  unfold Timing.cycReadmem
  simp only
  split_ifs
  · exact of_eq le_rfl rfl rfl
  · exact of_eq ((Nat.le_add_right _ _).trans (Nat.le_add_right _ _)) rfl rfl

theorem cancelPending (t : Timing) (rt : Nat) : Advances t (t.cancelPending rt) := by
  unfold Timing.cancelPending
  split_ifs <;> exact of_eq le_rfl rfl rfl

theorem cycLoad (t : Timing) (addr : Word) (size rt : Nat) (regMask : Word) :
    Advances t (t.cycLoad addr size rt regMask) := by
  have hDeps : Advances t (t.cycBase.cycDeps regMask) :=
    (cycBase t).trans (of_eq le_rfl rfl rfl)
  have hLds : Advances t ((t.cycBase.cycDeps regMask).cancelPending rt).cycLds :=
    (hDeps.trans (cancelPending _ rt)).trans (of_eq le_rfl rfl rfl)
  exact hLds.trans (cycReadmem ..)

theorem gteStall (t : Timing) : Advances t t.gteStall := by
  unfold Timing.gteStall
  split_ifs
  · exact charge t _
  · exact refl t

theorem muldivStall (t : Timing) : Advances t t.muldivStall := by
  unfold Timing.muldivStall
  split_ifs
  · exact ⟨le_rfl, (Nat.sub_le _ 1).trans (le_max_left _ _), le_max_left _ _⟩
  · exact of_eq (Nat.le_add_right _ _) rfl rfl
  · exact refl t

theorem muldivSet (t : Timing) (latency : BitVec 8) : Advances t (t.muldivSet latency) := by
  have hSmall : latency.toNat ≤ 255 := Nat.le_of_lt_succ latency.isLt
  refine ⟨le_rfl, ?_, le_max_left _ _⟩
  simp only [Timing.muldivSet]
  omega

theorem gteSet (t : Timing) (latency : BitVec 8) : Advances t (t.gteSet latency) := by
  have hSmall : latency.toNat ≤ 255 := Nat.le_of_lt_succ latency.isLt
  obtain ⟨hCount, hMuldiv, -⟩ := gteStall t
  refine ⟨hCount, hMuldiv, ?_⟩
  simp only [Timing.gteSet]
  omega

theorem gteRead (t : Timing) (rt : Nat) : Advances t (t.gteRead rt) :=
  (gteStall t).trans (of_eq le_rfl rfl rfl)

theorem exec (t : Timing) (c : TimingCall) : Advances t (c.exec t) := by
  cases c with
  | advance cycles => exact charge t cycles
  | fetch addr => exact icacheFetch t _
  | step regMask => exact cycStep t regMask
  | load addr size rt regMask => exact cycLoad ..
  | copLoad addr => exact cycReadmem ..
  | moveCop0 rt => exact of_eq le_rfl rfl rfl
  | muldivSet latency => exact muldivSet t latency
  | muldivStall => exact muldivStall t
  | gteSet latency => exact gteSet t latency
  | gteStall => exact gteStall t
  | gteRead rt => exact gteRead t _

theorem run (t : Timing) (calls : List TimingCall) : Advances t (TimingCall.run t calls) := by
  induction calls generalizing t with
  | nil => exact refl t
  | cons c calls ih => exact (exec t c).trans (ih _)

end Advances

namespace TimingCall

variable {n : Nat} {u v t : Timing}

/-- Only a fetch reads or writes the tags. -/
theorem icache_exec {c : TimingCall} (hOther : c.isFetch = false) :
    (c.exec t).icache = t.icache := by
  have hBase : t.cycBase.icache = t.icache := by
    unfold Timing.cycBase
    split_ifs <;> rfl
  have hRead (t : Timing) (phys size complCost armRt : Nat) :
      (t.cycReadmem phys size complCost armRt).icache = t.icache := by
    unfold Timing.cycReadmem
    simp only
    split_ifs <;> rfl
  have hGte : t.gteStall.icache = t.icache := by
    unfold Timing.gteStall
    split_ifs <;> rfl
  cases c with
  | fetch addr => cases hOther
  | step regMask => exact hBase
  | load addr size rt regMask =>
      rw [exec, Timing.cycLoad, hRead]
      refine Eq.trans ?_ hBase
      simp only [Timing.cycLds, Timing.cancelPending]
      split_ifs <;> rfl
  | copLoad addr => exact hRead ..
  | muldivStall =>
      rw [exec, Timing.muldivStall]
      split_ifs <;> rfl
  | gteSet latency => exact hGte
  | gteStall => exact hGte
  | gteRead rt => exact hGte
  | _ => rfl

theorem icache_run {calls : List TimingCall} (hOther : fetches calls = false) :
    (run t calls).icache = t.icache := by
  induction calls generalizing t with
  | nil => rfl
  | cons c calls ih =>
      obtain ⟨hFirst, hRest⟩ := Bool.or_eq_false_iff.mp hOther
      rw [run_cons, ih hRest, icache_exec hFirst]

theorem later_exec (h : Later n u v) {c : TimingCall} (hOther : c.isFetch = false) :
    Later n (c.exec u) (c.exec v) := by
  cases c with
  | fetch addr => cases hOther
  | advance cycles => exact h.charge cycles
  | step regMask => exact h.cycStep regMask
  | load addr size rt regMask => exact h.cycLoad ..
  | copLoad addr => exact h.cycReadmem ..
  | moveCop0 rt => exact h.moveCop0 _
  | muldivSet latency => exact h.muldivSet latency
  | muldivStall => exact h.muldivStall
  | gteSet latency => exact h.gteSet latency
  | gteStall => exact h.gteStall
  | gteRead rt => exact h.gteRead _

/-- Calls other than fetches cost the same whatever the cache holds. -/
theorem later_run (h : Later n u v) {calls : List TimingCall}
    (hOther : fetches calls = false) : Later n (run u calls) (run v calls) := by
  induction calls generalizing u v with
  | nil => exact h
  | cons c calls ih =>
      obtain ⟨hFirst, hRest⟩ := Bool.or_eq_false_iff.mp hOther
      exact ih (later_exec h hFirst) hRest

end TimingCall

end RecompStudio.Runtime
