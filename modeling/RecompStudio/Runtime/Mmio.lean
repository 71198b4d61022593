import RecompStudio.Runtime.DmaRegisters
import RecompStudio.Runtime.RootCounters
import RecompStudio.Runtime.Sio

/-!
The I/O window of the CPU from the memory control to the timers: six routing
functions, for reads and writes of each width, that find the device of an address
and the lanes of its register. They begin when the devices have caught up with the
clock. The devices behind the timers are left out.
-/

namespace RecompStudio.Runtime

/-- The value of `sio_stat`. -/
@[grind =] def SioStat.value (s : SioStat) : BitVec 16 :=
  (if s.txRdy then 0x001 else 0) ||| (if s.rxRdy then 0x002 else 0) |||
    (if s.txEmpty then 0x004 else 0) ||| (if s.ack then 0x080 else 0) |||
    (if s.irq then 0x200 else 0)

/-- The counters, with mode registers of 16 bits. -/
@[ext]
structure TimerBlock extends RootCounters where
  mode_lt : ∀ i, (timer i).mode.toNat < 2 ^ 16

namespace TimerBlock

variable (t : TimerBlock) (i : Fin 3) (reg : Nat)

theorem toNat_or_lt {a b : Word} (ha : a.toNat < 2 ^ 16) (hb : b.toNat < 2 ^ 16) :
    (a ||| b).toNat < 2 ^ 16 := by
  rw [BitVec.toNat_or]
  exact Nat.or_lt_two_pow ha hb

theorem toNat_and_lt {a b : Word} (ha : a.toNat < 2 ^ 16) : (a &&& b).toNat < 2 ^ 16 := by
  rw [BitVec.toNat_and]
  exact Nat.lt_of_le_of_lt Nat.and_le_left ha

theorem mode_writeReg_lt {u : Timer} (h : u.mode.toNat < 2 ^ 16) (value : Word) :
    (u.writeReg reg value).mode.toNat < 2 ^ 16 := by
  unfold Timer.writeReg
  split
  · exact h
  · refine toNat_or_lt ?_ (by decide)
    rw [BitVec.and_comm]
    exact toNat_and_lt (by decide)
  · exact h
  · exact h

theorem mode_readReg_lt {u : Timer} (h : u.mode.toNat < 2 ^ 16) (blockCycles : Bool) :
    (Timer.readReg blockCycles i u reg).2.mode.toNat < 2 ^ 16 := by
  have hReset : ∀ v : Timer, v.resetAtTarget.mode = v.mode := by
    intro v
    unfold Timer.resetAtTarget
    split <;> rfl
  have hCounter : (Timer.readCounter blockCycles i u).mode.toNat < 2 ^ 16 := by
    unfold Timer.readCounter
    split
    · exact h
    · dsimp only
      split
      · rw [hReset]
        exact toNat_or_lt h (by decide)
      · exact h
  unfold Timer.readReg
  split
  · exact hCounter
  · exact toNat_and_lt h
  · exact h
  · exact h

theorem mode_set_lt {u : Timer} (h : u.mode.toNat < 2 ^ 16) (j : Fin 3) :
    (Function.update t.timer i u j).mode.toNat < 2 ^ 16 := by
  by_cases hj : j = i
  · subst hj
    rw [Function.update_self]
    exact h
  · rw [Function.update_of_ne hj]
    exact t.mode_lt j

def writeReg (value : Word) : TimerBlock where
  toRootCounters := t.toRootCounters.writeReg i reg value
  mode_lt := t.mode_set_lt i (mode_writeReg_lt reg (t.mode_lt i) value)

def readReg (blockCycles : Bool) : Word × TimerBlock :=
  ((t.toRootCounters.readReg blockCycles i reg).1,
    { toRootCounters := (t.toRootCounters.readReg blockCycles i reg).2
      mode_lt := t.mode_set_lt i (mode_readReg_lt i reg (t.mode_lt i) blockCycles) })

end TimerBlock

/-- The devices behind the registers, and the build flag of the counters. -/
structure IoDevices (μ γ σ π : Type) where
  dma : DmaDevices μ γ σ
  pad : PadDevice π
  blockCycles : Bool

/-- The state of the six blocks. -/
structure IoBoard (μ γ σ π : Type) where
  memCtrl : Nat → Word
  ramSizeReg : Word
  iStat : BitVec 11
  iMask : BitVec 11
  sio : Sio π
  dma : DmaBoard μ γ σ
  timers : TimerBlock

namespace IoBoard

variable {μ γ σ π : Type} (E : IoDevices μ γ σ π) (ctx : StoreContext) (s : IoBoard μ γ σ π)

/-- `interrupt_write_stat_masked`: ones in the value keep their bits. -/
def writeStatMasked (val mask : Word) : IoBoard μ γ σ π :=
  let stat := s.iStat.setWidth 32
  { s with
    iStat := ((stat &&& ~~~(mask &&& 0x7FF)) ||| (stat &&& val &&& (mask &&& 0x7FF))).setWidth 11 }

/-- `interrupt_write_mask_masked`. -/
def writeMaskMasked (val mask : Word) : IoBoard μ γ σ π :=
  { s with iMask := (mergeLanes (s.iMask.setWidth 32) val mask).setWidth 11 }

/-- `sio_read`. -/
def sioRead (addr : Nat) : Word × IoBoard μ γ σ π :=
  if addr = 0x1F801040 then (s.sio.bus.rx.setWidth 32, { s with sio := s.sio.rxRead })
  else if addr = 0x1F801044 then (s.sio.stat.value.setWidth 32, { s with sio := s.sio.statRead })
  else if addr = 0x1F801048 then (s.sio.mode.setWidth 32, s)
  else if addr = 0x1F80104A then (s.sio.ctrl.setWidth 32, s)
  else if addr = 0x1F80104E then (s.sio.baud.setWidth 32, s)
  else (0, s)

def setSioMode (mode : BitVec 16) : IoBoard μ γ σ π := { s with sio := { s.sio with mode := mode } }

def setSioBaud (baud : BitVec 16) : IoBoard μ γ σ π := { s with sio := { s.sio with baud := baud } }

def sioTx (b : Byte) : IoBoard μ γ σ π := { s with sio := s.sio.txWrite E.pad b }

def sioCtrl (v : BitVec 16) : IoBoard μ γ σ π := { s with sio := s.sio.ctrlWrite E.pad v }

/-- `sio_write`. -/
def sioWrite (addr : Nat) (value : Word) : IoBoard μ γ σ π :=
  if addr = 0x1F801040 then s.sioTx E (value.setWidth 8)
  else if addr = 0x1F801048 then s.setSioMode (value.setWidth 16)
  else if addr = 0x1F80104A then s.sioCtrl E (value.setWidth 16)
  else if addr = 0x1F80104E then s.setSioBaud (value.setWidth 16)
  else s

/-- `dma_read`. -/
def dmaRead (addr : Nat) : Word := s.dma.read (BitVec.ofNat 32 addr)

/-- Another DMA controller, with the interrupt that it may have raised. -/
def setDma (dma : DmaBoard μ γ σ) : IoBoard μ γ σ π :=
  { s with
    dma := dma
    iStat := if s.dma.dma.raised < dma.dma.raised then s.iStat ||| 8 else s.iStat }

/-- `dma_write_masked`. -/
def dmaWriteMasked (addr : Nat) (val mask : Word) : IoBoard μ γ σ π :=
  s.setDma (s.dma.writeMasked E.dma ctx (BitVec.ofNat 32 addr) val mask)

def setTimers (timers : TimerBlock) : IoBoard μ γ σ π := { s with timers := timers }

/-- `timers_read`. -/
def timersRead (addr : Nat) : Word × IoBoard μ γ σ π :=
  if h : (addr - 0x1F801100) / 16 < 3 then
    let read := s.timers.readReg ⟨_, h⟩ ((addr - 0x1F801100) % 16) E.blockCycles
    (read.1, s.setTimers read.2)
  else (0, s)

/-- `timers_write`. -/
def timersWrite (addr : Nat) (value : Word) : IoBoard μ γ σ π :=
  if h : (addr - 0x1F801100) / 16 < 3 then
    s.setTimers (s.timers.writeReg ⟨_, h⟩ ((addr - 0x1F801100) % 16) value)
  else s

/-- A memory control register. -/
def memCtrlAt (addr : Nat) : Word := s.memCtrl ((addr - 0x1F801000) / 4)

/-- A write to the lanes of a memory control register. -/
def writeMemCtrl (addr : Nat) (val mask : Word) : IoBoard μ γ σ π :=
  { s with
    memCtrl := Function.update s.memCtrl ((addr - 0x1F801000) / 4)
      ((s.memCtrlAt addr &&& ~~~mask) ||| val) }

def writeRamSize (val mask : Word) : IoBoard μ γ σ π :=
  { s with ramSizeReg := (s.ramSizeReg &&& ~~~mask) ||| val }

/-- `mmio_read32`. -/
def mmioRead32 (addr : Nat) : Word × IoBoard μ γ σ π :=
  if 0x1F801000 ≤ addr ∧ addr ≤ 0x1F80103C then (s.memCtrlAt addr, s)
  else if 0x1F801040 ≤ addr ∧ addr ≤ 0x1F80105F then s.sioRead addr
  else if addr = 0x1F801060 then (s.ramSizeReg, s)
  else if addr = 0x1F801070 then (s.iStat.setWidth 32, s)
  else if addr = 0x1F801074 then (s.iMask.setWidth 32, s)
  else if 0x1F801080 ≤ addr ∧ addr ≤ 0x1F8010FF then (s.dmaRead addr, s)
  else if 0x1F801100 ≤ addr ∧ addr ≤ 0x1F80112F then s.timersRead E addr
  else (0, s)

/-- `mmio_read16`. -/
def mmioRead16 (addr : Nat) : BitVec 16 × IoBoard μ γ σ π :=
  if 0x1F801000 ≤ addr ∧ addr ≤ 0x1F80103F then
    ((s.memCtrlAt addr >>> (16 * (addr / 2 % 2))).setWidth 16, s)
  else if 0x1F801060 ≤ addr ∧ addr ≤ 0x1F801063 then
    ((s.ramSizeReg >>> (16 * (addr / 2 % 2))).setWidth 16, s)
  else if 0x1F801040 ≤ addr ∧ addr ≤ 0x1F80105F then
    ((s.sioRead addr).1.setWidth 16, (s.sioRead addr).2)
  else if 0x1F801070 ≤ addr ∧ addr ≤ 0x1F801072 then
    ((s.iStat.setWidth 32 >>> (16 * (addr / 2 % 2))).setWidth 16, s)
  else if 0x1F801074 ≤ addr ∧ addr ≤ 0x1F801076 then
    ((s.iMask.setWidth 32 >>> (16 * (addr / 2 % 2))).setWidth 16, s)
  else if 0x1F801100 ≤ addr ∧ addr ≤ 0x1F80112F then
    ((s.timersRead E addr).1.setWidth 16, (s.timersRead E addr).2)
  else if 0x1F801080 ≤ addr ∧ addr ≤ 0x1F8010FF then
    ((s.dmaRead (addr / 4 * 4) >>> (16 * (addr / 2 % 2))).setWidth 16, s)
  else (0, s)

/-- `mmio_read8`, which has no route to the timers. -/
def mmioRead8 (addr : Nat) : BitVec 8 × IoBoard μ γ σ π :=
  if 0x1F801000 ≤ addr ∧ addr ≤ 0x1F80103F then
    ((s.memCtrlAt addr >>> (8 * (addr % 4))).setWidth 8, s)
  else if 0x1F801060 ≤ addr ∧ addr ≤ 0x1F801063 then
    ((s.ramSizeReg >>> (8 * (addr % 4))).setWidth 8, s)
  else if 0x1F801070 ≤ addr ∧ addr ≤ 0x1F801077 then
    let val := if addr < 0x1F801074 then s.iStat else s.iMask
    ((val.setWidth 32 >>> (8 * (addr % 4))).setWidth 8, s)
  else if 0x1F801040 ≤ addr ∧ addr ≤ 0x1F80104F then
    ((s.sioRead (addr / 4 * 4)).1.setWidth 8, (s.sioRead (addr / 4 * 4)).2)
  else if 0x1F801080 ≤ addr ∧ addr ≤ 0x1F8010FF then
    ((s.dmaRead (addr / 4 * 4) >>> (8 * (addr % 4))).setWidth 8, s)
  else (0, s)

/-- `mmio_write32`. -/
def mmioWrite32 (addr : Nat) (val : Word) : IoBoard μ γ σ π :=
  if 0x1F801000 ≤ addr ∧ addr ≤ 0x1F80103C then s.writeMemCtrl addr val 0xFFFFFFFF
  else if 0x1F801040 ≤ addr ∧ addr ≤ 0x1F80105F then s.sioWrite E addr val
  else if addr = 0x1F801060 then s.writeRamSize val 0xFFFFFFFF
  else if addr = 0x1F801070 then s.writeStatMasked val 0xFFFFFFFF
  else if addr = 0x1F801074 then s.writeMaskMasked val 0xFFFFFFFF
  else if 0x1F801080 ≤ addr ∧ addr ≤ 0x1F8010FF then s.dmaWriteMasked E ctx addr val 0xFFFFFFFF
  else if 0x1F801100 ≤ addr ∧ addr ≤ 0x1F80112F then s.timersWrite addr val
  else s

/-- `mmio_write16`. -/
def mmioWrite16 (addr : Nat) (val : BitVec 16) : IoBoard μ γ σ π :=
  let shift := 16 * (addr / 2 % 2)
  if 0x1F801000 ≤ addr ∧ addr ≤ 0x1F80103F then
    s.writeMemCtrl addr (val.setWidth 32 <<< shift) ((0xFFFF : Word) <<< shift)
  else if 0x1F801060 ≤ addr ∧ addr ≤ 0x1F801063 then
    s.writeRamSize (val.setWidth 32 <<< shift) ((0xFFFF : Word) <<< shift)
  else if 0x1F801040 ≤ addr ∧ addr ≤ 0x1F80105F then s.sioWrite E addr (val.setWidth 32)
  else if 0x1F801070 ≤ addr ∧ addr ≤ 0x1F801072 then
    s.writeStatMasked (val.setWidth 32 <<< shift) ((0xFFFF : Word) <<< shift)
  else if 0x1F801074 ≤ addr ∧ addr ≤ 0x1F801076 then
    s.writeMaskMasked (val.setWidth 32 <<< shift) ((0xFFFF : Word) <<< shift)
  else if 0x1F801100 ≤ addr ∧ addr ≤ 0x1F80112F then s.timersWrite addr (val.setWidth 32)
  else if 0x1F801080 ≤ addr ∧ addr ≤ 0x1F8010FF then
    s.dmaWriteMasked E ctx (addr / 4 * 4) (val.setWidth 32 <<< shift) ((0xFFFF : Word) <<< shift)
  else s

/-- `mmio_write8`. A byte of a timer is read, merged and written as a word. -/
def mmioWrite8 (addr : Nat) (val : BitVec 8) : IoBoard μ γ σ π :=
  let shift := 8 * (addr % 4)
  if 0x1F801000 ≤ addr ∧ addr ≤ 0x1F80103F then
    s.writeMemCtrl addr (val.setWidth 32 <<< shift) ((0xFF : Word) <<< shift)
  else if 0x1F801060 ≤ addr ∧ addr ≤ 0x1F801063 then
    s.writeRamSize (val.setWidth 32 <<< shift) ((0xFF : Word) <<< shift)
  else if 0x1F801070 ≤ addr ∧ addr ≤ 0x1F801073 then
    s.writeStatMasked (val.setWidth 32 <<< shift) ((0xFF : Word) <<< shift)
  else if 0x1F801074 ≤ addr ∧ addr ≤ 0x1F801077 then
    s.writeMaskMasked (val.setWidth 32 <<< shift) ((0xFF : Word) <<< shift)
  else if 0x1F801040 ≤ addr ∧ addr ≤ 0x1F80105F then
    s.sioWrite E (addr / 4 * 4) (val.setWidth 32)
  else if 0x1F801080 ≤ addr ∧ addr ≤ 0x1F8010FF then
    s.dmaWriteMasked E ctx (addr / 4 * 4) (val.setWidth 32 <<< shift) ((0xFF : Word) <<< shift)
  else if 0x1F801100 ≤ addr ∧ addr ≤ 0x1F80112F then
    let cur := s.timersRead E (addr / 4 * 4)
    cur.2.timersWrite (addr / 4 * 4)
      ((cur.1 &&& ~~~((0xFF : Word) <<< shift)) ||| (val.setWidth 32 <<< shift))
  else s

end IoBoard

end RecompStudio.Runtime
