import Mathlib.Tactic.IntervalCases
import RecompStudio.Runtime.CardSafety
import RecompStudio.Runtime.DmaInterrupts
import RecompStudio.Runtime.Mmio

/-!
Accesses of a byte and of a half in the six blocks, against the lanes of the
register that holds the address. The accesses behave as the lanes of the word
access at every address but those of some bytes of the SIO and the timers.
-/

namespace RecompStudio.Runtime

local instance neZero_timers : NeZero 3 := ⟨by decide⟩

theorem mergeLanes_full (old val : Word) : mergeLanes old val 0xFFFFFFFF = val := by
  unfold mergeLanes
  rw [show (0xFFFFFFFF : Word) = BitVec.allOnes 32 by decide, BitVec.not_allOnes, BitVec.and_zero,
    BitVec.zero_or, BitVec.and_allOnes]

/-- A value inside its lanes needs no mask. -/
theorem or_eq_mergeLanes {old val mask : Word} (hVal : val &&& mask = val) :
    (old &&& ~~~mask) ||| val = mergeLanes old val mask := by
  unfold mergeLanes
  rw [hVal]

/-- The lanes behind the width of a register read as zero. -/
theorem ushiftRight_setWidth_eq_zero {w : Nat} (x : BitVec w) {n m : Nat} (h : w ≤ n) :
    ((x.setWidth 32) >>> n).setWidth m = 0 := by
  apply BitVec.eq_of_getLsbD_eq
  intro i _
  rw [BitVec.getLsbD_setWidth, BitVec.getLsbD_ushiftRight, BitVec.getLsbD_setWidth,
    BitVec.getLsbD_of_ge x (n + i) (by omega)]
  simp

/-- The registers of the six blocks. -/
inductive IoRegister where
  | memCtrl (i : Nat)
  | sioData
  | sioMode
  | sioCtrl
  | sioBaud
  | ramSize
  | stat
  | mask
  | dma (r : DmaBoard.Register)
  | timer (i : Fin 3) (reg : Nat)
deriving DecidableEq, Repr

/-- The address of the register that holds `addr`. The upper registers of the SIO
are of 16 bits. -/
def registerBase (addr : Nat) : Nat :=
  if 0x1F801048 ≤ addr ∧ addr < 0x1F801050 then addr / 2 * 2 else addr / 4 * 4

/-- The register at an address. -/
@[grind =] def ioRegister (base : Nat) : Option IoRegister :=
  if 0x1F801000 ≤ base ∧ base < 0x1F801040 then some (.memCtrl ((base - 0x1F801000) / 4))
  else if base = 0x1F801040 then some .sioData
  else if base = 0x1F801048 then some .sioMode
  else if base = 0x1F80104A then some .sioCtrl
  else if base = 0x1F80104E then some .sioBaud
  else if base = 0x1F801060 then some .ramSize
  else if base = 0x1F801070 then some .stat
  else if base = 0x1F801074 then some .mask
  else if 0x1F801080 ≤ base ∧ base < 0x1F801100 then
    (DmaBoard.register (BitVec.ofNat 32 base)).map .dma
  else if h : 0x1F801100 ≤ base ∧ base < 0x1F801130 then
    some (.timer ⟨(base - 0x1F801100) / 16, by omega⟩ ((base - 0x1F801100) % 16))
  else none

/-- The content of a register of a counter. -/
def Timer.content (t : Timer) (reg : Nat) : Word := (Timer.readReg true 0 t reg).1

namespace DmaBoard

variable {μ γ σ : Type} (D : DmaDevices μ γ σ) (ctx : StoreContext) (b : DmaBoard μ γ σ)

/-- A write to some lanes of a register: a write of the whole register that leaves
its other lanes as they are, with no flag acknowledged in them. Transfers start and
stop by the highest lane of CHCR alone. -/
@[grind =] def writeLanes (r : Register) (val mask : Word) : DmaBoard μ γ σ :=
  match r with
  | .dpcr => b.writeRegister D ctx r (mergeLanes b.dma.dpcr val mask) 0xFFFFFFFF
  | .dicr =>
      b.writeRegister D ctx r (mergeLanes (b.dma.dicr &&& ~~~0x7F000000) val mask) 0xFFFFFFFF
  | .madr ch => b.writeRegister D ctx r (mergeLanes (b.dma.channel ch).madr val mask) 0xFFFFFFFF
  | .bcr ch => b.writeRegister D ctx r (mergeLanes (b.dma.channel ch).bcr val mask) 0xFFFFFFFF
  | .chcr ch =>
      if mask.getLsbD 24 then
        b.writeRegister D ctx r (mergeLanes (b.dma.channel ch).chcr val mask) 0xFFFFFFFF
      else
        b.setDma (b.dma.modify ch fun c => c.setChcr (mergeLanes c.chcr val mask))

end DmaBoard

namespace IoBoard

variable {μ γ σ π : Type} (E : IoDevices μ γ σ π) (ctx : StoreContext) (s : IoBoard μ γ σ π)

/-- What a write of `val` to the lanes of a register under `mask` is to do: every
register takes the lanes, and those that act on a write act if their lanes are among
them. -/
@[grind =] def writeLanes (r : Option IoRegister) (val mask : Word) : IoBoard μ γ σ π :=
  match r with
  | none => s
  | some (.memCtrl i) =>
      { s with memCtrl := Function.update s.memCtrl i (mergeLanes (s.memCtrl i) val mask) }
  | some .ramSize => { s with ramSizeReg := mergeLanes s.ramSizeReg val mask }
  | some .stat => { s with iStat := s.iStat &&& (val ||| ~~~mask).setWidth 11 }
  | some .mask => { s with iMask := (mergeLanes (s.iMask.setWidth 32) val mask).setWidth 11 }
  | some .sioData => if mask.getLsbD 0 then s.sioTx E (val.setWidth 8) else s
  | some .sioMode => s.setSioMode ((mergeLanes (s.sio.mode.setWidth 32) val mask).setWidth 16)
  | some .sioCtrl => s.sioCtrl E ((mergeLanes (s.sio.ctrl.setWidth 32) val mask).setWidth 16)
  | some .sioBaud => s.setSioBaud ((mergeLanes (s.sio.baud.setWidth 32) val mask).setWidth 16)
  | some (.dma r) => s.setDma (s.dma.writeLanes E.dma ctx r val mask)
  | some (.timer i reg) =>
      if mask &&& 0xFFFF = 0 then s
      else s.setTimers (s.timers.writeReg i reg
        (mergeLanes ((s.timers.timer i).content reg) val mask))

end IoBoard

section Accesses

variable {μ γ σ π : Type} (E : IoDevices μ γ σ π) (ctx : StoreContext) (s : IoBoard μ γ σ π)
  (addr : Nat)

/-- The place of a byte in its register, in bits. -/
def byteLane (addr : Nat) : Nat := 8 * (addr - registerBase addr)

/-- The place of a half in its register. The lowest bit of its address is ignored. -/
def halfLane (addr : Nat) : Nat := 8 * (addr / 2 * 2 - registerBase addr)

/-- A read of a byte is its lane of the word read of the register. -/
@[grind =] def ReadsByte : Prop :=
  (s.mmioRead8 addr).1 = ((s.mmioRead32 E (registerBase addr)).1 >>> byteLane addr).setWidth 8

@[grind =] def ReadsHalf : Prop :=
  (s.mmioRead16 E addr).1 =
    ((s.mmioRead32 E (registerBase addr)).1 >>> halfLane addr).setWidth 16

/-- A write of a byte writes its lane of the register and nothing else. -/
@[grind =] def WritesByte (val : BitVec 8) : Prop :=
  s.mmioWrite8 E ctx addr val =
    s.writeLanes E ctx (ioRegister (registerBase addr)) (val.setWidth 32 <<< byteLane addr)
      ((0xFF : Word) <<< byteLane addr)

@[grind =] def WritesHalf (val : BitVec 16) : Prop :=
  s.mmioWrite16 E ctx addr val =
    s.writeLanes E ctx (ioRegister (registerBase addr)) (val.setWidth 32 <<< halfLane addr)
      ((0xFFFF : Word) <<< halfLane addr)

/-- The bytes of the SIO that are read from another place, and the bytes of the
registers of the counters, which have no route. -/
def byteReadSlips : Prop :=
  addr ∈ [0x1F801041, 0x1F801042, 0x1F801043, 0x1F801045, 0x1F801046, 0x1F801047, 0x1F801049,
    0x1F80104A, 0x1F80104B, 0x1F80104E, 0x1F80104F] ∨
  (0x1F801100 ≤ addr ∧ addr % 16 ∈ [0, 1, 4, 5, 8, 9])

/-- The bytes of the SIO that are written to another place, the bytes above a mode
register and, where reads move the counters, the bytes of a counter. -/
def byteWriteSlips (blockCycles : Bool) : Prop :=
  addr ∈ [0x1F801041, 0x1F801042, 0x1F801043, 0x1F801048, 0x1F801049, 0x1F80104A, 0x1F80104B,
    0x1F80104E, 0x1F80104F] ∨
  (0x1F801100 ≤ addr ∧ (addr % 16 ∈ [6, 7] ∨ (addr % 16 < 4 ∧ blockCycles = false)))

/-- Halves at odd addresses. -/
def halfReadSlips : Prop :=
  addr ∈ [0x1F801041, 0x1F801045, 0x1F801049, 0x1F80104B, 0x1F80104F] ∨
  (0x1F801100 ≤ addr ∧ addr % 16 ∈ [1, 5, 9])

def halfWriteSlips : Prop :=
  addr ∈ [0x1F801041, 0x1F801049, 0x1F80104B, 0x1F80104F] ∨
  (0x1F801100 ≤ addr ∧ addr % 16 ∈ [1, 5, 9])

variable {E ctx s addr}

theorem registerBase_of_word (h : addr < 0x1F801048 ∨ 0x1F801050 ≤ addr) :
    registerBase addr = addr / 4 * 4 := by
  unfold registerBase
  rw [if_neg (by omega)]

theorem byteLane_of_word (h : addr < 0x1F801048 ∨ 0x1F801050 ≤ addr) :
    byteLane addr = 8 * (addr % 4) := by
  unfold byteLane
  rw [registerBase_of_word h]
  omega

theorem halfLane_of_word (h : addr < 0x1F801048 ∨ 0x1F801050 ≤ addr) :
    halfLane addr = 16 * (addr / 2 % 2) := by
  unfold halfLane
  rw [registerBase_of_word h]
  omega

theorem memCtrlAt_word : s.memCtrlAt (addr / 4 * 4) = s.memCtrlAt addr := by
  unfold IoBoard.memCtrlAt
  rw [show (addr / 4 * 4 - 0x1F801000) / 4 = (addr - 0x1F801000) / 4 by omega]

theorem readsByte_memCtrl (hLow : 0x1F801000 ≤ addr) (hHigh : addr < 0x1F801040) :
    ReadsByte E s addr := by
  unfold ReadsByte IoBoard.mmioRead8 IoBoard.mmioRead32
  rw [byteLane_of_word (by omega), registerBase_of_word (by omega), if_pos (by omega),
    if_pos (by omega), memCtrlAt_word]

theorem readsHalf_memCtrl (hLow : 0x1F801000 ≤ addr) (hHigh : addr < 0x1F801040) :
    ReadsHalf E s addr := by
  unfold ReadsHalf IoBoard.mmioRead16 IoBoard.mmioRead32
  rw [halfLane_of_word (by omega), registerBase_of_word (by omega), if_pos (by omega),
    if_pos (by omega), memCtrlAt_word]

theorem readsByte_system (hLow : 0x1F801060 ≤ addr) (hHigh : addr < 0x1F801080) :
    ReadsByte E s addr := by
  unfold ReadsByte IoBoard.mmioRead8 IoBoard.mmioRead32
  rw [byteLane_of_word (by omega), registerBase_of_word (by omega)]
  interval_cases addr <;> simp [ushiftRight_setWidth_eq_zero]

theorem readsHalf_system (hLow : 0x1F801060 ≤ addr) (hHigh : addr < 0x1F801080) :
    ReadsHalf E s addr := by
  unfold ReadsHalf IoBoard.mmioRead16 IoBoard.mmioRead32
  rw [halfLane_of_word (by omega), registerBase_of_word (by omega)]
  interval_cases addr <;> simp [ushiftRight_setWidth_eq_zero]

theorem readsByte_dma (hLow : 0x1F801080 ≤ addr) (hHigh : addr < 0x1F801100) :
    ReadsByte E s addr := by
  unfold ReadsByte IoBoard.mmioRead8 IoBoard.mmioRead32
  rw [byteLane_of_word (by omega), registerBase_of_word (by omega)]
  simp (disch := omega) only [if_pos, if_neg]

theorem readsHalf_dma (hLow : 0x1F801080 ≤ addr) (hHigh : addr < 0x1F801100) :
    ReadsHalf E s addr := by
  unfold ReadsHalf IoBoard.mmioRead16 IoBoard.mmioRead32
  rw [halfLane_of_word (by omega), registerBase_of_word (by omega)]
  simp (disch := omega) only [if_pos, if_neg]

theorem readsByte_sio (hLow : 0x1F801040 ≤ addr) (hHigh : addr < 0x1F801060)
    (hGood : ¬byteReadSlips addr) : ReadsByte E s addr := by
  unfold ReadsByte IoBoard.mmioRead8 IoBoard.mmioRead32 IoBoard.sioRead byteLane registerBase
  unfold byteReadSlips at hGood
  interval_cases addr <;> simp at hGood ⊢

theorem readsHalf_sio (hLow : 0x1F801040 ≤ addr) (hHigh : addr < 0x1F801060)
    (hGood : ¬halfReadSlips addr) : ReadsHalf E s addr := by
  unfold ReadsHalf IoBoard.mmioRead16 IoBoard.mmioRead32 IoBoard.sioRead halfLane registerBase
  unfold halfReadSlips at hGood
  interval_cases addr <;> simp [ushiftRight_setWidth_eq_zero] at hGood ⊢

/-- The counter and the register of an address of the timers. -/
theorem timersRead_eq (i : Fin 3) {reg : Nat} (hAddr : addr = 0x1F801100 + 16 * i.val + reg)
    (hReg : reg < 16) :
    s.timersRead E addr =
      ((Timer.readReg E.blockCycles i (s.timers.timer i) reg).1,
        s.setTimers (s.timers.readReg i reg E.blockCycles).2) := by
  have hIndex : (addr - 0x1F801100) / 16 = i.val := by omega
  have hOffset : (addr - 0x1F801100) % 16 = reg := by omega
  have hCounter : (addr - 0x1F801100) / 16 < 3 := hIndex.trans_lt i.isLt
  unfold IoBoard.timersRead
  rw [dif_pos hCounter, hOffset, show (⟨_, hCounter⟩ : Fin 3) = i from Fin.ext hIndex]
  rfl

theorem timersWrite_eq (i : Fin 3) {reg : Nat} (hAddr : addr = 0x1F801100 + 16 * i.val + reg)
    (hReg : reg < 16) (value : Word) :
    s.timersWrite addr value = s.setTimers (s.timers.writeReg i reg value) := by
  have hIndex : (addr - 0x1F801100) / 16 = i.val := by omega
  have hOffset : (addr - 0x1F801100) % 16 = reg := by omega
  have hCounter : (addr - 0x1F801100) / 16 < 3 := hIndex.trans_lt i.isLt
  unfold IoBoard.timersWrite
  rw [dif_pos hCounter, hOffset, show (⟨_, hCounter⟩ : Fin 3) = i from Fin.ext hIndex]

/-- The registers of a counter are of 16 bits. -/
theorem readReg_lt (i : Fin 3) (reg : Nat) :
    (Timer.readReg E.blockCycles i (s.timers.timer i) reg).1.toNat < 2 ^ 16 := by
  unfold Timer.readReg
  split
  · rw [BitVec.toNat_setWidth_of_le (by decide)]
    exact BitVec.isLt _
  · exact s.timers.mode_lt i
  · rw [BitVec.toNat_setWidth_of_le (by decide)]
    exact BitVec.isLt _
  · exact Nat.two_pow_pos 16

theorem ushiftRight_setWidth_of_lt {x : Word} (hx : x.toNat < 2 ^ 16) {n : Nat} (hn : 16 ≤ n)
    (m : Nat) : (x >>> n).setWidth m = 0#m := by
  have hZero : x >>> n = 0#32 := by
    apply BitVec.eq_of_toNat_eq
    rw [BitVec.toNat_ushiftRight, Nat.shiftRight_eq_div_pow]
    exact Nat.div_eq_of_lt (hx.trans_le (Nat.pow_le_pow_right (by decide) hn))
  rw [hZero, BitVec.setWidth_zero]

theorem exists_counter (hLow : 0x1F801100 ≤ addr) (hHigh : addr < 0x1F801130) :
    ∃ i : Fin 3, ∃ k < 16, addr = 0x1F801100 + 16 * i.val + k :=
  ⟨⟨(addr - 0x1F801100) / 16, by omega⟩, (addr - 0x1F801100) % 16, by omega, by dsimp only; omega⟩

theorem mmioRead32_timers (hLow : 0x1F801100 ≤ addr) (hHigh : addr < 0x1F801130) :
    s.mmioRead32 E addr = s.timersRead E addr := by
  unfold IoBoard.mmioRead32
  simp (disch := omega) only [if_pos, if_neg]

theorem mmioRead8_timers (hLow : 0x1F801100 ≤ addr) : s.mmioRead8 addr = (0, s) := by
  unfold IoBoard.mmioRead8
  simp (disch := omega) only [if_neg]

theorem mmioRead16_timers (hLow : 0x1F801100 ≤ addr) (hHigh : addr < 0x1F801130) :
    s.mmioRead16 E addr = ((s.timersRead E addr).1.setWidth 16, (s.timersRead E addr).2) := by
  unfold IoBoard.mmioRead16
  simp (disch := omega) only [if_pos, if_neg]

/-- What the word read of a timer register shows in the lane of a byte or a half. -/
theorem wordRead_timers (i : Fin 3) {k : Nat} (hk : k < 16)
    (hAddr : addr = 0x1F801100 + 16 * i.val + k) :
    (s.mmioRead32 E (registerBase addr)).1 =
      (Timer.readReg E.blockCycles i (s.timers.timer i) (k / 4 * 4)).1 := by
  have := i.isLt
  rw [registerBase_of_word (by omega), mmioRead32_timers (by omega) (by omega),
    @timersRead_eq _ _ _ _ _ _ _ i (k / 4 * 4) (by omega) (by omega)]

theorem readsByte_timers (hLow : 0x1F801100 ≤ addr) (hHigh : addr < 0x1F801130)
    (hGood : ¬byteReadSlips addr) : ReadsByte E s addr := by
  obtain ⟨i, k, hk, hAddr⟩ := exists_counter hLow hHigh
  unfold byteReadSlips at hGood
  rw [not_or, not_and] at hGood
  have hLane := hGood.2 hLow
  simp only [List.mem_cons, List.not_mem_nil, or_false] at hLane
  unfold ReadsByte
  rw [mmioRead8_timers hLow, byteLane_of_word (by omega), wordRead_timers i hk hAddr]
  rcases Nat.lt_or_ge (k % 4) 2 with hLane' | hUpper
  · have hUnused : k / 4 * 4 = 12 := by omega
    rw [hUnused]
    simp [Timer.readReg]
  · exact (ushiftRight_setWidth_of_lt (readReg_lt i _) (by omega) _).symm

theorem readsHalf_timers (hLow : 0x1F801100 ≤ addr) (hHigh : addr < 0x1F801130)
    (hGood : ¬halfReadSlips addr) : ReadsHalf E s addr := by
  obtain ⟨i, k, hk, hAddr⟩ := exists_counter hLow hHigh
  unfold halfReadSlips at hGood
  rw [not_or, not_and] at hGood
  have hLane := hGood.2 hLow
  simp only [List.mem_cons, List.not_mem_nil, or_false] at hLane
  unfold ReadsHalf
  rw [mmioRead16_timers hLow hHigh, timersRead_eq i hAddr hk, halfLane_of_word (by omega),
    wordRead_timers i hk hAddr]
  rcases Nat.lt_or_ge (k % 4) 2 with hLower | hUpper
  · rw [show 16 * (addr / 2 % 2) = 0 by omega, BitVec.ushiftRight_zero]
    rcases Nat.eq_zero_or_pos (k % 4) with hAligned | hOdd
    · rw [show k / 4 * 4 = k by omega]
    · rw [show k = 13 by omega]
      rfl
  · rw [ushiftRight_setWidth_of_lt (readReg_lt i _) (by omega)]
    have hUnused : (Timer.readReg E.blockCycles i (s.timers.timer i) k).1 = 0 := by
      unfold Timer.readReg
      split <;> first | rfl | omega
    rw [hUnused]
    rfl

theorem readsByte (hLow : 0x1F801000 ≤ addr) (hHigh : addr < 0x1F801130)
    (hGood : ¬byteReadSlips addr) : ReadsByte E s addr := by
  rcases Nat.lt_or_ge addr 0x1F801040 with h | hSio
  · exact readsByte_memCtrl hLow h
  rcases Nat.lt_or_ge addr 0x1F801060 with h | hSystem
  · exact readsByte_sio hSio h hGood
  rcases Nat.lt_or_ge addr 0x1F801080 with h | hDma
  · exact readsByte_system hSystem h
  rcases Nat.lt_or_ge addr 0x1F801100 with h | hTimers
  · exact readsByte_dma hDma h
  · exact readsByte_timers hTimers hHigh hGood

theorem readsHalf (hLow : 0x1F801000 ≤ addr) (hHigh : addr < 0x1F801130)
    (hGood : ¬halfReadSlips addr) : ReadsHalf E s addr := by
  rcases Nat.lt_or_ge addr 0x1F801040 with h | hSio
  · exact readsHalf_memCtrl hLow h
  rcases Nat.lt_or_ge addr 0x1F801060 with h | hSystem
  · exact readsHalf_sio hSio h hGood
  rcases Nat.lt_or_ge addr 0x1F801080 with h | hDma
  · exact readsHalf_system hSystem h
  rcases Nat.lt_or_ge addr 0x1F801100 with h | hTimers
  · exact readsHalf_dma hDma h
  · exact readsHalf_timers hTimers hHigh hGood

/-- A counter whose bytes differ, before a read and behind it. -/
@[grind =] def Timer.marked : Timer :=
  ⟨0x01FF, 0x0101, 0xFFFF, false, ⟨0, hblankDivisor_pos⟩, false, 0⟩

@[grind =] def TimerBlock.marked : TimerBlock where
  timer _ := Timer.marked
  frac_lt i := (Timer.divisor_le _ i).1
  mode_lt _ := by decide

/-- A port whose bytes differ, with an idle shifter that a byte starts. -/
@[grind =] def Sio.marked (p : Sio π) : Sio π :=
  { p with
    bus := { p.bus with rx := 0xFF, active := .memcard }
    stat := ⟨true, true, true, true, true⟩
    mode := 0xFF01
    ctrl := 0x0003
    baud := 0xFFFF
    shiftActive := false }

/-- A board whose registers of 16 bits differ from each other in each byte. -/
@[grind =] def IoBoard.marked (s : IoBoard μ γ σ π) : IoBoard μ γ σ π :=
  { s with sio := s.sio.marked, timers := .marked }

theorem marked_bytes : ∀ blockCycles (i : Fin 3), ∀ k ∈ [0, 1, 4, 5, 8, 9],
    0 ≠ ((Timer.readReg blockCycles i Timer.marked (k / 4 * 4)).1 >>>
      (8 * (k % 4))).setWidth 8 := by
  decide +kernel

theorem marked_oddHalves : ∀ blockCycles (i : Fin 3), ∀ k ∈ [1, 5, 9],
    (Timer.readReg blockCycles i Timer.marked k).1.setWidth 16 ≠
      ((Timer.readReg blockCycles i Timer.marked (k / 4 * 4)).1 >>> 0).setWidth 16 := by
  decide +kernel

theorem not_readsByte (hSlips : byteReadSlips addr) (hHigh : addr < 0x1F801130) :
    ¬ReadsByte E s.marked addr := by
  rcases hSlips with hSio | ⟨hLow, hLane⟩
  · unfold ReadsByte IoBoard.mmioRead8 IoBoard.mmioRead32 IoBoard.sioRead byteLane registerBase
    simp only [List.mem_cons, List.not_mem_nil, or_false] at hSio
    rcases hSio with rfl | rfl | rfl | rfl | rfl | rfl | rfl | rfl | rfl | rfl | rfl <;>
      simp [IoBoard.marked, Sio.marked, SioStat.value]
  · obtain ⟨i, k, hk, hAddr⟩ := exists_counter hLow hHigh
    unfold ReadsByte
    rw [mmioRead8_timers hLow, byteLane_of_word (by omega), wordRead_timers i hk hAddr,
      show addr % 4 = k % 4 by omega]
    exact marked_bytes E.blockCycles i k (by rwa [show k = addr % 16 by omega])

theorem not_readsHalf (hSlips : halfReadSlips addr) (hHigh : addr < 0x1F801130) :
    ¬ReadsHalf E s.marked addr := by
  rcases hSlips with hSio | ⟨hLow, hLane⟩
  · unfold ReadsHalf IoBoard.mmioRead16 IoBoard.mmioRead32 IoBoard.sioRead halfLane registerBase
    simp only [List.mem_cons, List.not_mem_nil, or_false] at hSio
    rcases hSio with rfl | rfl | rfl | rfl | rfl <;>
      simp [IoBoard.marked, Sio.marked, SioStat.value]
  · obtain ⟨i, k, hk, hAddr⟩ := exists_counter hLow hHigh
    have hOdd : k ∈ [1, 5, 9] := by rwa [show k = addr % 16 by omega]
    simp only [List.mem_cons, List.not_mem_nil, or_false] at hLane
    unfold ReadsHalf
    rw [mmioRead16_timers hLow hHigh, timersRead_eq i hAddr hk, halfLane_of_word (by omega),
      wordRead_timers i hk hAddr, show 16 * (addr / 2 % 2) = 0 by omega]
    exact marked_oddHalves E.blockCycles i k hOdd

/-- A value moved to a lane stays inside it. -/
theorem lane_and {w : Nat} (val : BitVec w) {ones : Word} (hOnes : ∀ i < w, ones.getLsbD i = true)
    (n : Nat) : (val.setWidth 32 <<< n) &&& (ones <<< n) = val.setWidth 32 <<< n := by
  rw [← BitVec.shiftLeft_and_distrib]
  congr 1
  apply BitVec.eq_of_getLsbD_eq
  intro i hi
  rw [BitVec.getLsbD_and, BitVec.getLsbD_setWidth]
  rcases Nat.lt_or_ge i w with h | h
  · rw [hOnes i h, Bool.and_true]
  · rw [BitVec.getLsbD_of_ge val i h, Bool.and_false, Bool.false_and]

theorem byte_and_lane (val : BitVec 8) (n : Nat) :
    (val.setWidth 32 <<< n) &&& ((0xFF : Word) <<< n) = val.setWidth 32 <<< n :=
  lane_and val (by decide) n

theorem half_and_lane (val : BitVec 16) (n : Nat) :
    (val.setWidth 32 <<< n) &&& ((0xFFFF : Word) <<< n) = val.setWidth 32 <<< n :=
  lane_and val (by decide) n

theorem writeMemCtrl_eq {val mask : Word} (hVal : val &&& mask = val) :
    s.writeMemCtrl addr val mask =
      s.writeLanes E ctx (some (.memCtrl ((addr - 0x1F801000) / 4))) val mask := by
  unfold IoBoard.writeMemCtrl IoBoard.writeLanes
  rw [or_eq_mergeLanes hVal]
  rfl

theorem writeRamSize_eq {val mask : Word} (hVal : val &&& mask = val) :
    s.writeRamSize val mask = s.writeLanes E ctx (some .ramSize) val mask := by
  unfold IoBoard.writeRamSize IoBoard.writeLanes
  rw [or_eq_mergeLanes hVal]

/-- An acknowledge is an acknowledge of the bits of its lanes. -/
theorem writeStatMasked_eq (val mask : Word) :
    s.writeStatMasked val mask = s.writeLanes E ctx (some .stat) val mask := by
  have hStat : ((s.iStat.setWidth 32 &&& ~~~(mask &&& 0x7FF)) |||
      (s.iStat.setWidth 32 &&& val &&& (mask &&& 0x7FF))).setWidth 11 =
      s.iStat &&& (val ||| ~~~mask).setWidth 11 := by
    have hLow : ∀ i < 11, (0x7FF : Word).getLsbD i = true := by decide
    apply BitVec.eq_of_getLsbD_eq
    intro i hi
    have hWord : i < 32 := by omega
    simp only [BitVec.getLsbD_setWidth, BitVec.getLsbD_or, BitVec.getLsbD_and, BitVec.getLsbD_not,
      hLow i hi, hi, hWord, decide_true, Bool.true_and, Bool.and_true]
    cases mask.getLsbD i <;> simp
  unfold IoBoard.writeStatMasked IoBoard.writeLanes
  dsimp only
  rw [hStat]

/-- The flags of DICR are acknowledged in the lanes of the write alone. -/
theorem Dma.writeDicr_eq (d : Dma) (val mask : Word) :
    d.writeDicr val mask =
      d.writeDicr (mergeLanes (d.dicr &&& ~~~0x7F000000) val mask) 0xFFFFFFFF := by
  have hDicr :
      let merged := mergeLanes (d.dicr &&& ~~~0x7F000000) val mask
      ((d.dicr &&& ~~~(0x00FF807F &&& mask)) ||| (val &&& (0x00FF807F &&& mask))) &&&
          ~~~(val &&& (0x7F000000 &&& mask)) =
        ((d.dicr &&& ~~~(0x00FF807F &&& 0xFFFFFFFF)) |||
            (merged &&& (0x00FF807F &&& 0xFFFFFFFF))) &&&
          ~~~(merged &&& (0x7F000000 &&& 0xFFFFFFFF)) := by
    have hApart : ∀ i < 32, ¬((0x00FF807F : Word).getLsbD i = true ∧
        (0x7F000000 : Word).getLsbD i = true) := by decide
    have hFull : ∀ i < 32, (0xFFFFFFFF : Word).getLsbD i = true := by decide
    apply BitVec.eq_of_getLsbD_eq
    intro i hi
    have hBit := hApart i hi
    simp only [BitVec.getLsbD_or, BitVec.getLsbD_and, BitVec.getLsbD_not, getLsbD_mergeLanes,
      hFull i hi, hi, decide_true, Bool.true_and, Bool.and_true]
    -- a bit is a control bit, a flag or neither
    cases hControl : (0x00FF807F : Word).getLsbD i <;>
      cases hFlag : (0x7F000000 : Word).getLsbD i <;>
      cases mask.getLsbD i <;> simp_all
  unfold writeDicr
  dsimp only at hDicr ⊢
  rw [hDicr]

/-- A write to the lanes of a register of the DMA controller is a write of the whole
register that leaves the others as they are. -/
theorem DmaBoard.writeRegister_eq {D : DmaDevices μ γ σ} (b : DmaBoard μ γ σ)
    (r : DmaBoard.Register) (val mask : Word) :
    b.writeRegister D ctx r val mask = b.writeLanes D ctx r val mask := by
  have hModify : ∀ ch (f g : DmaChannel → DmaChannel), f (b.dma.channel ch) = g (b.dma.channel ch) →
      b.setDma (b.dma.modify ch f) = b.setDma (b.dma.modify ch g) := by
    intro ch f g h
    unfold Dma.modify
    rw [h]
  cases r with
  | madr ch =>
      apply hModify
      rw [mergeLanes_full]
  | bcr ch =>
      apply hModify
      rw [mergeLanes_full]
  | dpcr =>
      unfold writeLanes writeRegister
      rw [mergeLanes_full]
  | dicr =>
      unfold writeLanes writeRegister
      dsimp only
      rw [Dma.writeDicr_eq]
  | chcr ch =>
      have hMerge : b.mergeChcr ch val mask =
          b.mergeChcr ch (mergeLanes (b.dma.channel ch).chcr val mask) 0xFFFFFFFF := by
        apply hModify
        rw [mergeLanes_full]
      unfold writeLanes writeRegister writeChcr
      dsimp only
      rw [← hMerge]
      cases mask.getLsbD 24 with
      | false => rfl
      | true => rfl

theorem dmaWriteMasked_eq (val mask : Word) :
    s.dmaWriteMasked E ctx addr val mask =
      s.writeLanes E ctx ((DmaBoard.register (BitVec.ofNat 32 addr)).map .dma) val mask := by
  unfold IoBoard.dmaWriteMasked DmaBoard.writeMasked
  cases DmaBoard.register (BitVec.ofNat 32 addr) with
  | none =>
      unfold IoBoard.setDma IoBoard.writeLanes
      rw [if_neg (lt_irrefl _)]
      rfl
  | some r =>
      unfold IoBoard.writeLanes
      dsimp only [Option.map_some]
      rw [DmaBoard.writeRegister_eq]

theorem ioRegister_memCtrl (hLow : 0x1F801000 ≤ addr) (hHigh : addr < 0x1F801040) :
    ioRegister (addr / 4 * 4) = some (.memCtrl ((addr - 0x1F801000) / 4)) := by
  unfold ioRegister
  rw [if_pos (by omega), show (addr / 4 * 4 - 0x1F801000) / 4 = (addr - 0x1F801000) / 4 by omega]

theorem ioRegister_dma (hLow : 0x1F801080 ≤ addr) (hHigh : addr < 0x1F801100) :
    ioRegister (addr / 4 * 4) =
      (DmaBoard.register (BitVec.ofNat 32 (addr / 4 * 4))).map .dma := by
  unfold ioRegister
  simp (disch := omega) only [if_pos, if_neg]

theorem ioRegister_timers (i : Fin 3) {k : Nat} (hk : k < 16)
    (hAddr : addr = 0x1F801100 + 16 * i.val + k) :
    ioRegister (addr / 4 * 4) = some (.timer i (k / 4 * 4)) := by
  have := i.isLt
  have hRange : 0x1F801100 ≤ addr / 4 * 4 ∧ addr / 4 * 4 < 0x1F801130 := by omega
  have hIndex : (addr / 4 * 4 - 0x1F801100) / 16 = i.val := by omega
  have hOffset : (addr / 4 * 4 - 0x1F801100) % 16 = k / 4 * 4 := by omega
  unfold ioRegister
  simp (disch := omega) only [if_neg]
  rw [dif_pos hRange, hOffset]
  exact congrArg (fun j => some (IoRegister.timer j (k / 4 * 4))) (Fin.ext hIndex)

theorem writesByte_memCtrl (hLow : 0x1F801000 ≤ addr) (hHigh : addr < 0x1F801040)
    (val : BitVec 8) : WritesByte E ctx s addr val := by
  unfold WritesByte IoBoard.mmioWrite8
  rw [byteLane_of_word (by omega), registerBase_of_word (by omega), ioRegister_memCtrl hLow hHigh]
  dsimp only
  rw [if_pos (by omega)]
  exact writeMemCtrl_eq (byte_and_lane val _)

theorem writesHalf_memCtrl (hLow : 0x1F801000 ≤ addr) (hHigh : addr < 0x1F801040)
    (val : BitVec 16) : WritesHalf E ctx s addr val := by
  unfold WritesHalf IoBoard.mmioWrite16
  rw [halfLane_of_word (by omega), registerBase_of_word (by omega), ioRegister_memCtrl hLow hHigh]
  dsimp only
  rw [if_pos (by omega)]
  exact writeMemCtrl_eq (half_and_lane val _)

theorem ioRegister_gap (hGap : 0x1F801064 ≤ addr ∧ addr < 0x1F801070 ∨
    0x1F801078 ≤ addr ∧ addr < 0x1F801080) : ioRegister (addr / 4 * 4) = none := by
  unfold ioRegister
  simp (disch := omega) only [if_neg, dif_neg]

theorem ioRegister_ramSize (hLow : 0x1F801060 ≤ addr) (hHigh : addr < 0x1F801064) :
    ioRegister (addr / 4 * 4) = some .ramSize := by
  rw [show addr / 4 * 4 = 0x1F801060 by omega]
  rfl

theorem ioRegister_stat (hLow : 0x1F801070 ≤ addr) (hHigh : addr < 0x1F801074) :
    ioRegister (addr / 4 * 4) = some .stat := by
  rw [show addr / 4 * 4 = 0x1F801070 by omega]
  rfl

theorem ioRegister_mask (hLow : 0x1F801074 ≤ addr) (hHigh : addr < 0x1F801078) :
    ioRegister (addr / 4 * 4) = some .mask := by
  rw [show addr / 4 * 4 = 0x1F801074 by omega]
  rfl

theorem writesByte_system (hLow : 0x1F801060 ≤ addr) (hHigh : addr < 0x1F801080)
    (val : BitVec 8) : WritesByte E ctx s addr val := by
  unfold WritesByte IoBoard.mmioWrite8
  rw [byteLane_of_word (by omega), registerBase_of_word (by omega)]
  by_cases hGap : 0x1F801064 ≤ addr ∧ addr < 0x1F801070 ∨ 0x1F801078 ≤ addr
  · rw [ioRegister_gap (by omega)]
    simp (disch := omega) only [if_neg]
    rfl
  rcases Nat.lt_or_ge addr 0x1F801064 with h | hStat
  · rw [ioRegister_ramSize hLow h, ← writeRamSize_eq (byte_and_lane val _)]
    simp (disch := omega) only [if_pos, if_neg]
  rcases Nat.lt_or_ge addr 0x1F801074 with h | hMask
  · rw [ioRegister_stat (by omega) h, ← writeStatMasked_eq]
    simp (disch := omega) only [if_pos, if_neg]
  · rw [ioRegister_mask hMask (by omega)]
    simp (disch := omega) only [if_pos, if_neg]
    rfl

/-- The upper half of the interrupt registers holds nothing. -/
theorem writeLanes_upper (val : Word) {r : IoRegister} (hr : r = .stat ∨ r = .mask) :
    s.writeLanes E ctx (some r) val ((0xFFFF : Word) <<< 16) = s := by
  have hUpper : ∀ i < 11, ((0xFFFF : Word) <<< 16).getLsbD i = false := by decide
  rcases hr with rfl | rfl
  · have hStat : s.iStat &&& (val ||| ~~~((0xFFFF : Word) <<< 16)).setWidth 11 = s.iStat := by
      apply BitVec.eq_of_getLsbD_eq
      intro i hi
      have hWord : i < 32 := by omega
      simp only [BitVec.getLsbD_setWidth, BitVec.getLsbD_or, BitVec.getLsbD_and,
        BitVec.getLsbD_not, hUpper i hi, hi, hWord, decide_true, Bool.not_false, Bool.or_true,
        Bool.and_true]
    unfold IoBoard.writeLanes
    dsimp only
    rw [hStat]
  · have hMask : (mergeLanes (s.iMask.setWidth 32) val ((0xFFFF : Word) <<< 16)).setWidth 11 =
        s.iMask := by
      apply BitVec.eq_of_getLsbD_eq
      intro i hi
      have hWord : i < 32 := by omega
      rw [BitVec.getLsbD_setWidth, getLsbD_mergeLanes, hUpper i hi, BitVec.getLsbD_setWidth]
      simp [hi, hWord]
    unfold IoBoard.writeLanes
    dsimp only
    rw [hMask]

theorem writesHalf_system (hLow : 0x1F801060 ≤ addr) (hHigh : addr < 0x1F801080)
    (val : BitVec 16) : WritesHalf E ctx s addr val := by
  unfold WritesHalf IoBoard.mmioWrite16
  rw [halfLane_of_word (by omega), registerBase_of_word (by omega)]
  by_cases hGap : 0x1F801064 ≤ addr ∧ addr < 0x1F801070 ∨ 0x1F801078 ≤ addr
  · rw [ioRegister_gap (by omega)]
    simp (disch := omega) only [if_neg]
    rfl
  rcases Nat.lt_or_ge addr 0x1F801064 with h | hStat
  · rw [ioRegister_ramSize hLow h, ← writeRamSize_eq (half_and_lane val _)]
    simp (disch := omega) only [if_pos, if_neg]
  rcases Nat.lt_or_ge addr 0x1F801074 with h | hMask
  · rw [ioRegister_stat (by omega) h]
    rcases Nat.lt_or_ge addr 0x1F801073 with hRouted | hLast
    · rw [← writeStatMasked_eq]
      simp (disch := omega) only [if_pos, if_neg]
    · rw [show 16 * (addr / 2 % 2) = 16 by omega, writeLanes_upper _ (Or.inl rfl)]
      simp (disch := omega) only [if_neg]
  · rw [ioRegister_mask hMask (by omega)]
    rcases Nat.lt_or_ge addr 0x1F801077 with hRouted | hLast
    · simp (disch := omega) only [if_pos, if_neg]
      rfl
    · rw [show 16 * (addr / 2 % 2) = 16 by omega, writeLanes_upper _ (Or.inr rfl)]
      simp (disch := omega) only [if_neg]

theorem writesByte_dma (hLow : 0x1F801080 ≤ addr) (hHigh : addr < 0x1F801100)
    (val : BitVec 8) : WritesByte E ctx s addr val := by
  unfold WritesByte IoBoard.mmioWrite8
  rw [byteLane_of_word (by omega), registerBase_of_word (by omega), ioRegister_dma hLow hHigh,
    ← dmaWriteMasked_eq]
  simp (disch := omega) only [if_pos, if_neg]

theorem writesHalf_dma (hLow : 0x1F801080 ≤ addr) (hHigh : addr < 0x1F801100)
    (val : BitVec 16) : WritesHalf E ctx s addr val := by
  unfold WritesHalf IoBoard.mmioWrite16
  rw [halfLane_of_word (by omega), registerBase_of_word (by omega), ioRegister_dma hLow hHigh,
    ← dmaWriteMasked_eq]
  simp (disch := omega) only [if_pos, if_neg]

theorem mergeLanes_half (old : Word) (val : BitVec 16) :
    (mergeLanes old (val.setWidth 32) 0xFFFF#32).setWidth 16 = val := by
  have hOnes : ∀ i < 16, (0xFFFF#32).getLsbD i = true := by decide
  apply BitVec.eq_of_getLsbD_eq
  intro i hi
  rw [BitVec.getLsbD_setWidth, getLsbD_mergeLanes, hOnes i hi, BitVec.getLsbD_setWidth]
  simp [hi, show i < 32 by omega]

theorem writesByte_sio (hLow : 0x1F801040 ≤ addr) (hHigh : addr < 0x1F801060)
    (hGood : ¬byteWriteSlips addr E.blockCycles) (val : BitVec 8) :
    WritesByte E ctx s addr val := by
  unfold WritesByte IoBoard.mmioWrite8 IoBoard.sioWrite byteLane registerBase
  unfold byteWriteSlips at hGood
  interval_cases addr <;> simp [ioRegister, IoBoard.writeLanes] at hGood ⊢

theorem writesHalf_sio (hLow : 0x1F801040 ≤ addr) (hHigh : addr < 0x1F801060)
    (hGood : ¬halfWriteSlips addr) (val : BitVec 16) : WritesHalf E ctx s addr val := by
  unfold WritesHalf IoBoard.mmioWrite16 IoBoard.sioWrite halfLane registerBase
  unfold halfWriteSlips at hGood
  interval_cases addr <;> simp [ioRegister, IoBoard.writeLanes, mergeLanes_half] at hGood ⊢

/-- A write to a counter looks at 16 bits of the value. -/
theorem Timer.writeReg_congr (t : Timer) (reg : Nat) {v w : Word}
    (h : v.setWidth 16 = w.setWidth 16) : t.writeReg reg v = t.writeReg reg w := by
  have hMode : ∀ x : Word, x &&& 0x3FF = (x.setWidth 16).setWidth 32 &&& 0x3FF := by
    intro x
    have hUpper : ∀ i < 32, 16 ≤ i → (0x3FF : Word).getLsbD i = false := by decide
    apply BitVec.eq_of_getLsbD_eq
    intro i hi
    rw [BitVec.getLsbD_and, BitVec.getLsbD_and, BitVec.getLsbD_setWidth, BitVec.getLsbD_setWidth]
    rcases Nat.lt_or_ge i 16 with hLow | hHigh
    · simp [hLow, hi]
    · rw [hUpper i hi hHigh, Bool.and_false, Bool.and_false]
  unfold writeReg
  rw [hMode v, hMode w, h]

theorem Timer.writeReg_unused (t : Timer) {reg : Nat} (hReg : reg ∉ [0, 4, 8]) (v : Word) :
    t.writeReg reg v = t := by
  unfold writeReg
  split
  · exact absurd (by decide) hReg
  · exact absurd (by decide) hReg
  · exact absurd (by decide) hReg
  · rfl

/-- A read before a write to the same register leaves no trace, unless it moves the
counter. -/
theorem Timer.writeReg_readReg (t : Timer) (i : Fin 3) {reg : Nat} {blockCycles : Bool}
    (hStill : reg = 0 → blockCycles = true) (v : Word) :
    (Timer.readReg blockCycles i t reg).2.writeReg reg v = t.writeReg reg v ∧
      (Timer.readReg blockCycles i t reg).1 = t.content reg := by
  by_cases hReg : reg = 0
  · subst hReg
    rw [hStill rfl]
    exact ⟨rfl, rfl⟩
  · unfold readReg
    split
    · exact absurd rfl hReg
    · exact ⟨rfl, rfl⟩
    · exact ⟨rfl, rfl⟩
    · exact ⟨rfl, by unfold content readReg; split <;> first | contradiction | rfl⟩

/-- A write of what it holds changes no register but the mode. -/
theorem Timer.writeReg_content (t : Timer) {reg : Nat} (hReg : reg ≠ 4) :
    t.writeReg reg (t.content reg) = t := by
  have hWide : ∀ x : BitVec 16, (x.setWidth 32).setWidth 16 = x := by
    intro x
    rw [BitVec.setWidth_setWidth_of_le _ (by decide), BitVec.setWidth_eq]
  unfold writeReg
  split
  · change t.setCounter ((t.counter.setWidth 32).setWidth 16) = t
    rw [hWide]
    rfl
  · exact absurd rfl hReg
  · change ({ t with target := (t.target.setWidth 32).setWidth 16 } : Timer) = t
    rw [hWide]
  · rfl

theorem setTimers_self {timers : TimerBlock} (h : timers = s.timers) : s.setTimers timers = s := by
  subst h
  rfl

theorem TimerBlock.writeReg_congr (t : TimerBlock) (i : Fin 3) (reg : Nat) {v w : Word}
    (h : v.setWidth 16 = w.setWidth 16) : t.writeReg i reg v = t.writeReg i reg w := by
  apply TimerBlock.ext
  change Function.update t.timer i _ = Function.update t.timer i _
  rw [Timer.writeReg_congr _ reg h]

theorem TimerBlock.writeReg_self (t : TimerBlock) (i : Fin 3) (reg : Nat) {v : Word}
    (h : (t.timer i).writeReg reg v = t.timer i) : t.writeReg i reg v = t := by
  apply TimerBlock.ext
  change Function.update t.timer i _ = t.timer
  rw [h, Function.update_eq_self]

theorem setWidth_mergeLanes_of_upper {old val mask : Word} (hUpper : mask &&& 0xFFFF = 0) :
    (mergeLanes old val mask).setWidth 16 = old.setWidth 16 := by
  have hOnes : ∀ i < 16, (0xFFFF : Word).getLsbD i = true := by decide
  apply BitVec.eq_of_getLsbD_eq
  intro i hi
  have hMask := congrArg (fun m : Word => m.getLsbD i) hUpper
  simp only [BitVec.getLsbD_and, hOnes i hi, Bool.and_true] at hMask
  rw [BitVec.getLsbD_setWidth, BitVec.getLsbD_setWidth, getLsbD_mergeLanes, hMask]
  simp

theorem writeLanes_timer_upper (i : Fin 3) (reg : Nat) (val : Word) {mask : Word}
    (hUpper : mask &&& 0xFFFF = 0) :
    s.writeLanes E ctx (some (.timer i reg)) val mask = s :=
  if_pos hUpper

theorem writeLanes_timer_lower (i : Fin 3) (reg : Nat) (val : Word) {mask : Word}
    (hLower : mask &&& 0xFFFF ≠ 0) :
    s.writeLanes E ctx (some (.timer i reg)) val mask =
      s.setTimers (s.timers.writeReg i reg
        (mergeLanes ((s.timers.timer i).content reg) val mask)) :=
  if_neg hLower

theorem mmioWrite16_timers (hLow : 0x1F801100 ≤ addr) (hHigh : addr < 0x1F801130)
    (val : BitVec 16) : s.mmioWrite16 E ctx addr val = s.timersWrite addr (val.setWidth 32) := by
  unfold IoBoard.mmioWrite16
  simp (disch := omega) only [if_pos, if_neg]

/-- A byte of a timer is read, merged and written. -/
theorem mmioWrite8_timers (i : Fin 3) {k : Nat} (hk : k < 16)
    (hAddr : addr = 0x1F801100 + 16 * i.val + k) (val : BitVec 8) :
    s.mmioWrite8 E ctx addr val =
      let read := s.timers.readReg i (k / 4 * 4) E.blockCycles
      s.setTimers (read.2.writeReg i (k / 4 * 4)
        (mergeLanes read.1 (val.setWidth 32 <<< (8 * (k % 4)))
          ((0xFF : Word) <<< (8 * (k % 4))))) := by
  have := i.isLt
  have hWord : addr / 4 * 4 = 0x1F801100 + 16 * i.val + k / 4 * 4 := by omega
  unfold IoBoard.mmioWrite8
  simp (disch := omega) only [if_pos, if_neg]
  rw [timersRead_eq i hWord (by omega), timersWrite_eq i hWord (by omega),
    show addr % 4 = k % 4 by omega, or_eq_mergeLanes (byte_and_lane val _)]
  rfl

theorem writesHalf_timers (hLow : 0x1F801100 ≤ addr) (hHigh : addr < 0x1F801130)
    (hGood : ¬halfWriteSlips addr) (val : BitVec 16) : WritesHalf E ctx s addr val := by
  obtain ⟨i, k, hk, hAddr⟩ := exists_counter hLow hHigh
  unfold halfWriteSlips at hGood
  rw [not_or, not_and] at hGood
  have hLane := hGood.2 hLow
  simp only [List.mem_cons, List.not_mem_nil, or_false] at hLane
  unfold WritesHalf
  rw [mmioWrite16_timers hLow hHigh, timersWrite_eq i hAddr hk, halfLane_of_word (by omega),
    registerBase_of_word (by omega), ioRegister_timers i hk hAddr]
  rcases Nat.lt_or_ge (k % 4) 2 with hLower | hUpper
  · rw [show 16 * (addr / 2 % 2) = 0 by omega, writeLanes_timer_lower i _ _ (by decide)]
    rcases Nat.eq_zero_or_pos (k % 4) with hAligned | hOdd
    · rw [show k / 4 * 4 = k by omega]
      rw [TimerBlock.writeReg_congr _ i k]
      rw [BitVec.shiftLeft_zero, BitVec.setWidth_setWidth_of_le _ (by decide), BitVec.setWidth_eq]
      exact (mergeLanes_half _ val).symm
    · rw [show k = 13 by omega]
      rfl
  · rw [show 16 * (addr / 2 % 2) = 16 by omega, writeLanes_timer_upper i _ _ (by decide)]
    apply setTimers_self
    apply TimerBlock.writeReg_self
    apply Timer.writeReg_unused
    simp
    omega

theorem TimerBlock.writeReg_readReg (t : TimerBlock) (i : Fin 3) {reg : Nat} {blockCycles : Bool}
    (hStill : reg = 0 → blockCycles = true) (v : Word) :
    (t.readReg i reg blockCycles).2.writeReg i reg v = t.writeReg i reg v := by
  apply TimerBlock.ext
  change Function.update (Function.update t.timer i _) i
    (Timer.writeReg (Function.update t.timer i _ i) reg v) = Function.update t.timer i _
  rw [Function.update_self, Function.update_idem, (Timer.writeReg_readReg _ i hStill v).1]

theorem writesByte_timers (hLow : 0x1F801100 ≤ addr) (hHigh : addr < 0x1F801130)
    (hGood : ¬byteWriteSlips addr E.blockCycles) (val : BitVec 8) :
    WritesByte E ctx s addr val := by
  obtain ⟨i, k, hk, hAddr⟩ := exists_counter hLow hHigh
  unfold byteWriteSlips at hGood
  rw [not_or, not_and] at hGood
  have hLane := hGood.2 hLow
  simp only [List.mem_cons, List.not_mem_nil, or_false, not_or, not_and,
    Bool.not_eq_false] at hLane
  have hStill : k / 4 * 4 = 0 → E.blockCycles = true := fun h => hLane.2 (by omega)
  unfold WritesByte
  rw [mmioWrite8_timers i hk hAddr, byteLane_of_word (by omega), registerBase_of_word (by omega),
    ioRegister_timers i hk hAddr, show addr % 4 = k % 4 by omega]
  dsimp only
  rw [TimerBlock.writeReg_readReg _ i hStill]
  have hRead : (s.timers.readReg i (k / 4 * 4) E.blockCycles).1 =
      (s.timers.timer i).content (k / 4 * 4) :=
    (Timer.writeReg_readReg (s.timers.timer i) i hStill 0).2
  rw [hRead]
  rcases Nat.lt_or_ge (k % 4) 2 with hLower | hUpper
  · rw [writeLanes_timer_lower]
    have hMask : ∀ n < 2, ((0xFF : Word) <<< (8 * n)) &&& 0xFFFF ≠ 0 := by decide
    exact hMask _ hLower
  · have hMask : ∀ n < 4, 2 ≤ n → ((0xFF : Word) <<< (8 * n)) &&& 0xFFFF = 0 := by decide
    have hZero := hMask (k % 4) (by omega) hUpper
    rw [writeLanes_timer_upper i _ _ hZero]
    apply setTimers_self
    apply TimerBlock.writeReg_self
    rw [Timer.writeReg_congr _ _ (setWidth_mergeLanes_of_upper hZero)]
    exact Timer.writeReg_content _ (by omega)

theorem writesByte (hLow : 0x1F801000 ≤ addr) (hHigh : addr < 0x1F801130)
    (hGood : ¬byteWriteSlips addr E.blockCycles) (val : BitVec 8) :
    WritesByte E ctx s addr val := by
  rcases Nat.lt_or_ge addr 0x1F801040 with h | hSio
  · exact writesByte_memCtrl hLow h val
  rcases Nat.lt_or_ge addr 0x1F801060 with h | hSystem
  · exact writesByte_sio hSio h hGood val
  rcases Nat.lt_or_ge addr 0x1F801080 with h | hDma
  · exact writesByte_system hSystem h val
  rcases Nat.lt_or_ge addr 0x1F801100 with h | hTimers
  · exact writesByte_dma hDma h val
  · exact writesByte_timers hTimers hHigh hGood val

theorem writesHalf (hLow : 0x1F801000 ≤ addr) (hHigh : addr < 0x1F801130)
    (hGood : ¬halfWriteSlips addr) (val : BitVec 16) : WritesHalf E ctx s addr val := by
  rcases Nat.lt_or_ge addr 0x1F801040 with h | hSio
  · exact writesHalf_memCtrl hLow h val
  rcases Nat.lt_or_ge addr 0x1F801060 with h | hSystem
  · exact writesHalf_sio hSio h hGood val
  rcases Nat.lt_or_ge addr 0x1F801080 with h | hDma
  · exact writesHalf_system hSystem h val
  rcases Nat.lt_or_ge addr 0x1F801100 with h | hTimers
  · exact writesHalf_dma hDma h val
  · exact writesHalf_timers hTimers hHigh hGood val

section Slips

variable {P : PadDevice π} {p : Sio π}

theorem shiftActive_txWrite (b : Byte) : (p.marked.txWrite P b).shiftActive = true := by
  have hEnabled : ctrlTxEn 0x0003 = true := by decide
  unfold Sio.txWrite
  rw [show ctrlTxEn p.marked.ctrl = true from hEnabled, if_neg (by decide), if_neg fun h => h.1 rfl]
  unfold Sio.shiftPath
  exact congrArg Sio.shiftActive (if_pos (show (!p.marked.shiftActive) = true from rfl))

/-- A write to CTRL without a reset keeps MODE and sets CTRL. -/
theorem ctrlWrite_registers {v : BitVec 16} (hReset : ctrlReset v = false) :
    (p.ctrlWrite P v).mode = p.mode ∧ (p.ctrlWrite P v).ctrl = v := by
  have hAck (u : Sio π) : (u.ackBits v).mode = u.mode ∧ (u.ackBits v).ctrl = u.ctrl := by
    unfold Sio.ackBits
    split <;> exact ⟨rfl, rfl⟩
  have hPort (u : Sio π) : u.resetPort P v = u := by
    unfold Sio.resetPort
    rw [hReset]
    rfl
  have hAssert (u : Sio π) : (u.assertSelect p.ctrl v).mode = u.mode ∧
      (u.assertSelect p.ctrl v).ctrl = u.ctrl := by
    unfold Sio.assertSelect
    split <;> exact ⟨rfl, rfl⟩
  have hDisable (u : Sio π) : (u.disableTx p.ctrl v).mode = u.mode ∧
      (u.disableTx p.ctrl v).ctrl = u.ctrl := by
    unfold Sio.disableTx
    split
    · dsimp only
      split <;> exact ⟨rfl, rfl⟩
    · exact ⟨rfl, rfl⟩
  have hDeassert (u : Sio π) : (u.deassertSelect P p.ctrl v).mode = u.mode ∧
      (u.deassertSelect P p.ctrl v).ctrl = u.ctrl := by
    unfold Sio.deassertSelect
    split <;> exact ⟨rfl, rfl⟩
  unfold Sio.ctrlWrite
  dsimp only
  rw [hPort, (hDeassert _).1, (hDeassert _).2, (hDisable _).1, (hDisable _).2, (hAssert _).1,
    (hAssert _).2, (hAck _).1, (hAck _).2]
  exact ⟨rfl, rfl⟩

end Slips

theorem sioTx_ne (b : Byte) : s.marked.sioTx E b ≠ s.marked := by
  intro h
  have hActive := congrArg (fun t => t.sio.shiftActive) h
  exact Bool.noConfusion ((shiftActive_txWrite b).symm.trans hActive)

theorem setSioMode_ne {v w : BitVec 16} (hNe : v ≠ w) : s.setSioMode v ≠ s.setSioMode w :=
  fun h => hNe (congrArg (fun t => t.sio.mode) h)

theorem ne_setSioMode {v : BitVec 16} (hNe : s.sio.mode ≠ v) : s ≠ s.setSioMode v :=
  fun h => hNe (congrArg (fun t => t.sio.mode) h)

theorem ne_sioCtrl {v : BitVec 16} (hReset : ctrlReset v = false) (hNe : s.sio.ctrl ≠ v) :
    s ≠ s.sioCtrl E v :=
  fun h => hNe ((congrArg (fun t => t.sio.ctrl) h).trans (ctrlWrite_registers hReset).2)

theorem ne_setSioBaud {v : BitVec 16} (hNe : s.sio.baud ≠ v) : s ≠ s.setSioBaud v :=
  fun h => hNe (congrArg (fun t => t.sio.baud) h)

theorem setSioMode_ne_sioCtrl {v : BitVec 16} (hReset : ctrlReset v = false) :
    s.marked.setSioMode 0 ≠ s.marked.sioCtrl E v := by
  intro h
  have hMode := congrArg (fun t => t.sio.mode) h
  have hStill : (0 : BitVec 16) = 0xFF01 := hMode.trans (ctrlWrite_registers hReset).1
  exact absurd hStill (by decide)

theorem timers_setTimers (t : TimerBlock) : (s.setTimers t).timers = t := rfl

theorem timer_writeReg (t : TimerBlock) (i : Fin 3) (reg : Nat) (v : Word) :
    (t.writeReg i reg v).timer i = (t.timer i).writeReg reg v :=
  Function.update_self ..

theorem timer_readReg (t : TimerBlock) (i : Fin 3) (reg : Nat) (blockCycles : Bool) :
    (t.readReg i reg blockCycles).2.timer i = (Timer.readReg blockCycles i (t.timer i) reg).2 :=
  Function.update_self ..

/-- A byte above a mode register starts the counter anew, and a byte of a counter that
a read moves changes the others of it. -/
theorem marked_byteWrites : ∀ blockCycles (i : Fin 3), ∀ k < 16,
    k ∈ [6, 7] ∨ (k < 4 ∧ blockCycles = false) →
      let reg := k / 4 * 4
      let read := Timer.readReg blockCycles i Timer.marked reg
      let mask := (0xFF : Word) <<< (8 * (k % 4))
      read.2.writeReg reg (mergeLanes read.1 0 mask) ≠
        if mask &&& 0xFFFF = 0 then Timer.marked
        else Timer.marked.writeReg reg (mergeLanes (Timer.marked.content reg) 0 mask) := by
  decide

theorem marked_oddWrites : ∀ k ∈ [1, 5, 9],
    Timer.marked.writeReg k 0 ≠
      Timer.marked.writeReg (k / 4 * 4)
        (mergeLanes (Timer.marked.content (k / 4 * 4)) 0 ((0xFFFF : Word) <<< 0)) := by
  decide

theorem not_writesByte (hSlips : byteWriteSlips addr E.blockCycles) (hHigh : addr < 0x1F801130) :
    ¬WritesByte E ctx s.marked addr 0 := by
  rcases hSlips with hSio | ⟨hLow, hLane⟩
  · have hMode : s.marked.sio.mode = 0xFF01 := rfl
    have hCtrl : s.marked.sio.ctrl = 0x0003 := rfl
    have hBaud : s.marked.sio.baud = 0xFFFF := rfl
    unfold WritesByte IoBoard.mmioWrite8 IoBoard.sioWrite byteLane registerBase
    simp only [List.mem_cons, List.not_mem_nil, or_false] at hSio
    rcases hSio with rfl | rfl | rfl | rfl | rfl | rfl | rfl | rfl | rfl <;>
      simp [ioRegister, IoBoard.writeLanes, hMode, hCtrl, hBaud]
    · exact sioTx_ne 0
    · exact sioTx_ne 0
    · exact sioTx_ne 0
    · exact setSioMode_ne (by decide)
    · exact setSioMode_ne (by decide)
    · exact setSioMode_ne_sioCtrl (by decide)
    · exact setSioMode_ne_sioCtrl (by decide)
    · exact ne_setSioBaud (by rw [hBaud]; decide)
    · exact ne_setSioBaud (by rw [hBaud]; decide)
  · obtain ⟨i, k, hk, hAddr⟩ := exists_counter hLow hHigh
    have hSlip : k ∈ [6, 7] ∨ (k < 4 ∧ E.blockCycles = false) := by
      rwa [show addr % 16 = k by omega] at hLane
    unfold WritesByte
    rw [mmioWrite8_timers i hk hAddr, byteLane_of_word (by omega), registerBase_of_word (by omega),
      ioRegister_timers i hk hAddr, show addr % 4 = k % 4 by omega]
    intro h
    have hZero : (0 : BitVec 8).setWidth 32 <<< (8 * (k % 4)) = (0 : Word) :=
      BitVec.zero_shiftLeft ..
    rw [hZero] at h
    apply marked_byteWrites E.blockCycles i k hk hSlip
    split
    · rename_i hUpper
      rw [writeLanes_timer_upper i _ _ hUpper] at h
      have hTimer := congrArg (fun t => t.timers.timer i) h
      simp only [timers_setTimers, timer_writeReg, timer_readReg] at hTimer
      exact hTimer
    · rename_i hLower
      rw [writeLanes_timer_lower i _ _ hLower] at h
      have hTimer := congrArg (fun t => t.timers.timer i) h
      simp only [timers_setTimers, timer_writeReg, timer_readReg] at hTimer
      exact hTimer

theorem not_writesHalf (hSlips : halfWriteSlips addr) (hHigh : addr < 0x1F801130) :
    ¬WritesHalf E ctx s.marked addr 0 := by
  rcases hSlips with hSio | ⟨hLow, hLane⟩
  · have hMode : s.marked.sio.mode = 0xFF01 := rfl
    have hCtrl : s.marked.sio.ctrl = 0x0003 := rfl
    have hBaud : s.marked.sio.baud = 0xFFFF := rfl
    unfold WritesHalf IoBoard.mmioWrite16 IoBoard.sioWrite halfLane registerBase
    simp only [List.mem_cons, List.not_mem_nil, or_false] at hSio
    rcases hSio with rfl | rfl | rfl | rfl <;>
      simp [ioRegister, IoBoard.writeLanes, hMode, hCtrl, hBaud]
    · exact (sioTx_ne 0).symm
    · exact ne_setSioMode (by rw [hMode]; decide)
    · exact ne_sioCtrl (by decide) (by rw [hCtrl]; decide)
    · exact ne_setSioBaud (by rw [hBaud]; decide)
  · obtain ⟨i, k, hk, hAddr⟩ := exists_counter hLow hHigh
    have hOdd : k ∈ [1, 5, 9] := by rwa [show k = addr % 16 by omega]
    simp only [List.mem_cons, List.not_mem_nil, or_false] at hLane
    unfold WritesHalf
    rw [mmioWrite16_timers hLow hHigh, timersWrite_eq i hAddr hk, halfLane_of_word (by omega),
      registerBase_of_word (by omega), ioRegister_timers i hk hAddr,
      show 16 * (addr / 2 % 2) = 0 by omega, writeLanes_timer_lower i _ _ (by decide)]
    intro h
    have hTimer := congrArg (fun t => t.timers.timer i) h
    simp only [timers_setTimers, timer_writeReg] at hTimer
    exact marked_oddWrites k hOdd hTimer

/-- A write to all lanes of a register is the word write at its address. -/
theorem mmioWrite32_eq (hLow : 0x1F801000 ≤ addr) (hHigh : addr < 0x1F801130)
    (hBase : registerBase addr = addr) (val : Word) :
    s.mmioWrite32 E ctx addr val = s.writeLanes E ctx (ioRegister addr) val 0xFFFFFFFF := by
  have hInside : val &&& 0xFFFFFFFF = val := by
    rw [show (0xFFFFFFFF : Word) = BitVec.allOnes 32 by decide, BitVec.and_allOnes]
  by_cases hSio : 0x1F801040 ≤ addr ∧ addr < 0x1F801060
  · obtain ⟨hFirst, hLast⟩ := hSio
    have hFull : ∀ old val : Word, mergeLanes old val 0xFFFFFFFF#32 = val := mergeLanes_full
    unfold IoBoard.mmioWrite32 IoBoard.sioWrite
    unfold registerBase at hBase
    interval_cases addr <;> simp [ioRegister, IoBoard.writeLanes, hFull] at hBase ⊢
  have hWord : addr / 4 * 4 = addr := by
    rwa [registerBase_of_word (by omega)] at hBase
  unfold IoBoard.mmioWrite32
  rcases Nat.lt_or_ge addr 0x1F801040 with h | hUpper
  · rw [if_pos (by omega), writeMemCtrl_eq hInside, ← ioRegister_memCtrl hLow h, hWord]
  rcases Nat.lt_or_ge addr 0x1F801080 with h | hDma
  · by_cases hGap : 0x1F801064 ≤ addr ∧ addr < 0x1F801070 ∨ 0x1F801078 ≤ addr
    · have hNone := @ioRegister_gap addr (by omega)
      rw [hWord] at hNone
      rw [hNone]
      simp (disch := omega) only [if_neg]
      rfl
    · obtain rfl | rfl | rfl : addr = 0x1F801060 ∨ addr = 0x1F801070 ∨ addr = 0x1F801074 := by
        omega
      · exact writeRamSize_eq hInside
      · exact writeStatMasked_eq val _
      · rfl
  rcases Nat.lt_or_ge addr 0x1F801100 with h | hTimers
  · have hRegister := ioRegister_dma hDma h
    rw [hWord] at hRegister
    rw [hRegister, ← dmaWriteMasked_eq]
    simp (disch := omega) only [if_pos, if_neg]
  · obtain ⟨i, k, hk, hAddr⟩ := exists_counter hTimers hHigh
    have hRegister := ioRegister_timers i hk hAddr
    rw [hWord, show k / 4 * 4 = k by omega] at hRegister
    rw [hRegister, writeLanes_timer_lower i _ _ (by decide), mergeLanes_full]
    simp (disch := omega) only [if_pos, if_neg]
    exact timersWrite_eq i hAddr hk val

end Accesses

/-- A byte and a half behave as the lanes of their register at every address but those
that are listed. -/
theorem mmioLanes_iff {μ γ σ π : Type} (E : IoDevices μ γ σ π) (ctx : StoreContext)
    (board : IoBoard μ γ σ π) {addr : Nat} (hLow : 0x1F801000 ≤ addr)
    (hHigh : addr < 0x1F801130) :
    (registerBase addr = addr → ∀ (s : IoBoard μ γ σ π) val,
      s.mmioWrite32 E ctx addr val = s.writeLanes E ctx (ioRegister addr) val 0xFFFFFFFF) ∧
    ((∀ s : IoBoard μ γ σ π, ReadsByte E s addr) ↔ ¬byteReadSlips addr) ∧
    ((∀ s : IoBoard μ γ σ π, ReadsHalf E s addr) ↔ ¬halfReadSlips addr) ∧
    ((∀ (s : IoBoard μ γ σ π) val, WritesByte E ctx s addr val) ↔
      ¬byteWriteSlips addr E.blockCycles) ∧
    ((∀ (s : IoBoard μ γ σ π) val, WritesHalf E ctx s addr val) ↔ ¬halfWriteSlips addr) := by
  refine ⟨fun hBase s val => mmioWrite32_eq hLow hHigh hBase val, ⟨?_, ?_⟩, ⟨?_, ?_⟩, ⟨?_, ?_⟩,
    ⟨?_, ?_⟩⟩
  · exact fun h hSlips => not_readsByte hSlips hHigh (h board.marked)
  · exact fun hGood s => readsByte hLow hHigh hGood
  · exact fun h hSlips => not_readsHalf hSlips hHigh (h board.marked)
  · exact fun hGood s => readsHalf hLow hHigh hGood
  · exact fun h hSlips => not_writesByte hSlips hHigh (h board.marked 0)
  · exact fun hGood s val => writesByte hLow hHigh hGood val
  · exact fun h hSlips => not_writesHalf hSlips hHigh (h board.marked 0)
  · exact fun hGood s val => writesHalf hLow hHigh hGood val

def quietDevices : IoDevices Unit Unit Unit Unit := ⟨idleDevices, noPads, true⟩

/-- The board behind the reset of its devices. -/
def quietBoard : IoBoard Unit Unit Unit Unit where
  memCtrl _ := 0
  ramSizeReg := 0
  iStat := 0
  iMask := 0
  sio := blankPort
  dma := idleBoard 0x07654321 0
  timers := { RootCounters.init with mode_lt := fun _ => Nat.two_pow_pos 16 }

/-- A counter has its halves and not its bytes. -/
theorem mmioLanes_iff_counter :
    (0x1F801000 ≤ 0x1F801100 ∧ 0x1F801100 < 0x1F801130) ∧
    (∀ s, ReadsHalf quietDevices s 0x1F801100) ∧ ¬∀ s, ReadsByte quietDevices s 0x1F801100 := by
  obtain ⟨-, hByte, hHalf, -⟩ :=
    @mmioLanes_iff _ _ _ _ quietDevices ⟨false, 0⟩ quietBoard 0x1F801100 (by decide) (by decide)
  refine ⟨by decide, hHalf.mpr ?_, fun h => hByte.mp h ?_⟩
  · unfold halfReadSlips
    decide
  · unfold byteReadSlips
    decide

def counting : IoBoard Unit Unit Unit Unit :=
  quietBoard.mmioWrite32 quietDevices ⟨false, 0⟩ 0x1F801100 5

/-- A byte read of the first counter at 5, and a byte write to CTRL that goes to MODE. -/
theorem subWord_slips :
    ((counting.mmioRead32 quietDevices 0x1F801100).1 = 5 ∧
      (counting.mmioRead8 0x1F801100).1 = 0 ∧ ¬ReadsByte quietDevices counting 0x1F801100) ∧
    (quietBoard.mmioWrite8 quietDevices ⟨false, 0⟩ 0x1F80104A 2).sio.mode = 2 ∧
      ¬WritesByte quietDevices ⟨false, 0⟩ quietBoard 0x1F80104A 2 := by
  have hMode : (quietBoard.mmioWrite8 quietDevices ⟨false, 0⟩ 0x1F80104A 2).sio.mode = 2 := by
    decide +kernel
  refine ⟨⟨by decide +kernel, by decide +kernel, ?_⟩, hMode, fun h => ?_⟩
  · unfold ReadsByte
    decide +kernel
  · have hSpec : (quietBoard.writeLanes quietDevices ⟨false, 0⟩
        (ioRegister (registerBase 0x1F80104A)) ((2 : BitVec 8).setWidth 32 <<< byteLane 0x1F80104A)
        ((0xFF : Word) <<< byteLane 0x1F80104A)).sio.mode = 0 := by
      decide +kernel
    rw [WritesByte] at h
    rw [h, hSpec] at hMode
    exact absurd hMode (by decide)

end RecompStudio.Runtime
