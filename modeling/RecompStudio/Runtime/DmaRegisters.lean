import RecompStudio.Library.Machine
import RecompStudio.Runtime.DmaTransfers

/-!
The registers of the DMA controller: a write to a lane of a register, the start
of a transfer, and the controller as a machine that takes register writes and
cycles in any order.
-/

namespace RecompStudio.Runtime

local instance neZero_channels : NeZero 7 := ⟨by decide⟩

/-- A register whose lanes under the mask are written. -/
@[grind =] def mergeLanes (old val mask : Word) : Word := (old &&& ~~~mask) ||| (val &&& mask)

theorem getLsbD_mergeLanes (old val mask : Word) (i : Nat) :
    (mergeLanes old val mask).getLsbD i =
      if mask.getLsbD i then val.getLsbD i else old.getLsbD i := by
  unfold mergeLanes
  rw [BitVec.getLsbD_or, BitVec.getLsbD_and, BitVec.getLsbD_and, BitVec.getLsbD_not]
  by_cases hi : i < 32
  · cases mask.getLsbD i <;> simp [hi]
  · simp [BitVec.getLsbD_of_ge _ i (not_lt.mp hi)]

/-- The devices behind the controller. -/
structure DmaDevices (μ γ σ : Type) where
  mdec : MdecDevice μ
  gpu : GpuDevice γ
  spu : SpuDevice σ

/-- The controller with all its devices. `halted` is set by `psx_fatal_halt`,
which does not return. -/
structure DmaBoard (μ γ σ : Type) extends DmaSide μ where
  gpu : γ
  spu : σ
  halted : Bool

namespace DmaChannel

/-- `transfer_word_count`, for a block size of the register. -/
def wordCount (c : DmaChannel) : Nat :=
  if c.syncMode = 1 then c.fullBlock * (if c.blockCount = 0 then 1 else c.blockCount)
  else c.fullBlock

/-- A transfer of the channel is not over yet. -/
@[grind =] def inFlight (c : DmaChannel) : Bool := c.async.active || c.delayed.active

/-- Another transfer is counted. -/
def start (c : DmaChannel) : DmaChannel := { c with started := c.started + 1 }

/-- `start_async_mdec_transfer`. A transfer that is under way goes on. -/
@[grind =] def startAsync (words : Nat) (c : DmaChannel) : DmaChannel :=
  if c.async.active then c else { c.start with async := ⟨true, words, words, 0⟩ }

/-- `start_async_cdrom_transfer`. -/
def startCdrom (words : Nat) (c : DmaChannel) : DmaChannel :=
  if c.async.active then c
  else if words = 0 then c.start.ended
  else { c.start with async := ⟨true, words, words, 0⟩ }

/-- A transfer of no words is over at once. -/
def startsEmpty (words : Nat) (c : DmaChannel) : Bool := !c.async.active && decide (words = 0)

/-- `schedule_delayed_complete`. -/
def startDelayed (words cyclesPerWord : Nat) (c : DmaChannel) : DmaChannel :=
  if words = 0 ∨ cyclesPerWord = 0 then c.start.complete
  else { c.start with delayed := ⟨true, words, min (words * cyclesPerWord) (2 ^ 32 - 1)⟩ }

def setMadr (madr : Word) (c : DmaChannel) : DmaChannel := { c with madr := madr }

def setBcr (bcr : Word) (c : DmaChannel) : DmaChannel := { c with bcr := bcr }

def setChcr (chcr : Word) (c : DmaChannel) : DmaChannel := { c with chcr := chcr }

/-- Software clears the start bit. -/
def stop (c : DmaChannel) : DmaChannel :=
  { c.cancel with cancelled := c.cancelled + c.inFlight.toNat }

end DmaChannel

/-- `cdrom_dma_sector_word_count`. -/
def Cdrom.sectorWordCount (s : Cdrom) : Nat :=
  let size :=
    if s.drive.sector.size = 0 then if s.drive.modeBit 5 then 2340 else 2048
    else s.drive.sector.size
  (size + 3) / 4

namespace Dma

/-- A DICR write: the control bits under the mask are written, and the flags are
acknowledged by ones. -/
@[grind =] def writeDicr (d : Dma) (val mask : Word) : Dma :=
  let written := (d.dicr &&& ~~~(0x00FF807F &&& mask)) ||| (val &&& (0x00FF807F &&& mask))
  { d with dicr := written &&& ~~~(val &&& (0x7F000000 &&& mask)) }.raiseOnMasterEdge d.dicr

/-- `dicr_read_value`. -/
def dicrReadValue (v : Word) : Word :=
  (v &&& ~~~0x80000000) ||| (if masterFlag v then 0x80000000 else 0)

end Dma

namespace DmaBoard

variable {μ γ σ : Type}

def setDma (b : DmaBoard μ γ σ) (dma : Dma) : DmaBoard μ γ σ := { b with dma := dma }

/-- `transfer_word_count`. -/
def transferWordCount (b : DmaBoard μ γ σ) (ch : Fin 7) : Nat :=
  if ch = dmaCdrom ∧ (b.dma.channel ch).blockSize = 0 then b.cdrom.sectorWordCount
  else (b.dma.channel ch).wordCount

/-- `validate_transfer_length` does not halt. -/
def lengthOk (b : DmaBoard μ γ σ) (ch : Fin 7) : Bool :=
  ch = 2 && (b.dma.channel ch).syncMode = 2 || decide (b.transferWordCount ch ≤ 0x80000)

/-- The start bit of an enabled channel. -/
def kicked (b : DmaBoard μ γ σ) (ch : Fin 7) : Bool :=
  (b.dma.channel ch).chcrBit 24 && b.dma.enabled ch

variable (D : DmaDevices μ γ σ) (ctx : StoreContext)

def startGpu (b : DmaBoard μ γ σ) : DmaBoard μ γ σ :=
  let moved := executeCh2Gpu D.gpu b.ram ctx (b.dma.channel 2) b.gpu
  { b with
    dma := b.dma.act 2 (fun c => (c.setMadr moved.madr).startDelayed moved.words 1)
      fun _ => decide (moved.words = 0)
    gpu := moved.device
    ram := moved.ram }

/-- `execute_ch3_cdrom`: a transfer from RAM is dropped. -/
def startCd (b : DmaBoard μ γ σ) : DmaBoard μ γ σ :=
  if (b.dma.channel dmaCdrom).fromRam then b.setDma (b.dma.modify dmaCdrom DmaChannel.clearBusy)
  else
    b.setDma (b.dma.act dmaCdrom (DmaChannel.startCdrom (b.transferWordCount dmaCdrom))
      (DmaChannel.startsEmpty (b.transferWordCount dmaCdrom)))

def startSpu (b : DmaBoard μ γ σ) : DmaBoard μ γ σ :=
  let moved := executeCh4Spu D.spu ctx (b.dma.channel 4) (b.transferWordCount 4) b.spu b.ram
  { b with
    dma := b.dma.act 4 (fun c => (c.setMadr moved.madr).startDelayed moved.words 48)
      fun _ => decide (moved.words = 0)
    spu := moved.device
    ram := moved.ram }

def startOtc (b : DmaBoard μ γ σ) : DmaBoard μ γ σ :=
  { b with
    dma := b.dma.act 6 (fun c => c.start.complete) fun _ => true
    ram := executeCh6Otc ctx (b.dma.channel 6) b.ram }

/-- The channels of `try_execute`. Channel 5 is not implemented. -/
@[grind =] def execute (b : DmaBoard μ γ σ) (ch : Fin 7) : DmaBoard μ γ σ :=
  match ch with
  | 0 => b.setDma (b.dma.modify 0 (DmaChannel.startAsync (b.transferWordCount 0)))
  | 1 => b.setDma (b.dma.modify 1 (DmaChannel.startAsync (b.transferWordCount 1)))
  | 2 => b.startGpu D ctx
  | 3 => b.startCd
  | 4 => b.startSpu D ctx
  | 5 => { b with halted := true }
  | 6 => b.startOtc ctx

/-- The second start bit is cleared by a start. -/
def clearTrigger (b : DmaBoard μ γ σ) (ch : Fin 7) : DmaBoard μ γ σ :=
  b.setDma (b.dma.modify ch fun c => c.setChcr (c.chcr &&& ~~~0x10000000))

/-- `try_execute`. -/
def tryExecute (b : DmaBoard μ γ σ) (ch : Fin 7) : DmaBoard μ γ σ :=
  if !b.kicked ch then b
  else if (b.clearTrigger ch).lengthOk ch then (b.clearTrigger ch).execute D ctx ch
  else { b.clearTrigger ch with halted := true }

/-- A write to CHCR, with its lanes merged. -/
def mergeChcr (b : DmaBoard μ γ σ) (ch : Fin 7) (val mask : Word) : DmaBoard μ γ σ :=
  b.setDma (b.dma.modify ch fun c => c.setChcr (mergeLanes c.chcr val mask))

/-- A write to CHCR. Only its highest lane starts and cancels transfers. -/
def writeChcr (b : DmaBoard μ γ σ) (ch : Fin 7) (val mask : Word) : DmaBoard μ γ σ :=
  let b := b.mergeChcr ch val mask
  if !mask.getLsbD 24 then b
  else if (b.dma.channel ch).chcrBit 24 then b.tryExecute D ctx ch
  else b.setDma (b.dma.modify ch DmaChannel.stop)

/-- The registers of the controller. -/
inductive Register where
  | madr (ch : Fin 7)
  | bcr (ch : Fin 7)
  | chcr (ch : Fin 7)
  | dpcr
  | dicr
deriving DecidableEq, Repr

/-- The register at an address. -/
def register (addr : Word) : Option Register :=
  if addr = 0x1F8010F0 then some .dpcr
  else if addr = 0x1F8010F4 then some .dicr
  else if h : 0x1F801080 ≤ addr.toNat ∧ addr.toNat ≤ 0x1F8010EF then
    let ch : Fin 7 := ⟨(addr.toNat - 0x1F801080) / 0x10, by omega⟩
    match (addr.toNat - 0x1F801080) % 0x10 with
    | 0 => some (.madr ch)
    | 4 => some (.bcr ch)
    | 8 => some (.chcr ch)
    | _ => none
  else none

/-- A write to a register. -/
def writeRegister (b : DmaBoard μ γ σ) (r : Register) (val mask : Word) : DmaBoard μ γ σ :=
  match r with
  | .dpcr => b.setDma { b.dma with dpcr := mergeLanes b.dma.dpcr val mask }
  | .dicr => b.setDma (b.dma.writeDicr val mask)
  | .madr ch => b.setDma (b.dma.modify ch fun c => c.setMadr (mergeLanes c.madr val mask))
  | .bcr ch => b.setDma (b.dma.modify ch fun c => c.setBcr (mergeLanes c.bcr val mask))
  | .chcr ch => b.writeChcr D ctx ch val mask

/-- `dma_write_masked`. -/
def writeMasked (b : DmaBoard μ γ σ) (addr val mask : Word) : DmaBoard μ γ σ :=
  match register addr with
  | none => b
  | some r => b.writeRegister D ctx r val mask

/-- `dma_read`. -/
def read (b : DmaBoard μ γ σ) (addr : Word) : Word :=
  match register addr with
  | none => 0
  | some .dpcr => b.dma.dpcr
  | some .dicr => Dma.dicrReadValue b.dma.dicr
  | some (.madr ch) => (b.dma.channel ch).madr
  | some (.bcr ch) => (b.dma.channel ch).bcr
  | some (.chcr ch) => (b.dma.channel ch).chcr

end DmaBoard

/-- What happens to the controller. The CPU and the other devices work between
its own steps and leave anything in the memory and the devices around it. -/
inductive DmaEvent (μ γ σ : Type) where
  | write (ctx : StoreContext) (addr val mask : Word)
  | advance (cycles : Nat)
  | outside (side : DmaSide μ) (gpu : γ) (spu : σ)

section Step

variable {μ γ σ : Type} (D : DmaDevices μ γ σ)

/-- `dma_advance`. -/
def DmaBoard.advance (b : DmaBoard μ γ σ) (cycles : Nat) : DmaBoard μ γ σ :=
  { b with toDmaSide := b.toDmaSide.advanceDma D.mdec cycles }

/-- The devices and the memory change around the controller. -/
def DmaBoard.around (b : DmaBoard μ γ σ) (side : DmaSide μ) (gpu : γ) (spu : σ) : DmaBoard μ γ σ :=
  { b with toDmaSide := { side with dma := b.dma }, gpu := gpu, spu := spu }

/-- A step. Nothing happens after a halt. -/
@[grind =] def dmaStep (b : DmaBoard μ γ σ) (e : DmaEvent μ γ σ) : DmaBoard μ γ σ :=
  if b.halted then b
  else
    match e with
    | .write ctx addr val mask => b.writeMasked D ctx addr val mask
    | .advance cycles => b.advance D cycles
    | .outside side gpu spu => b.around side gpu spu

end Step

/-- `dma_init`. -/
def Dma.init : Dma :=
  ⟨fun _ => ⟨0, 0, 0, ⟨false, 0, 0, 0⟩, ⟨false, 0, 0⟩, 0, 0, 0⟩, 0x07654321, 0, false, 0⟩

end RecompStudio.Runtime
