import RecompStudio.Runtime.CdTime
import Mathlib.Logic.Function.Iterate

/-!
The DMA controller under the clock: the transfers of the MDEC and the CD-ROM,
which move words as time passes, and the transfers of the other channels, which
are only completed late. The MDEC is a device behind the controller with an
interface of its own. What moves words is metered: it does one unit of work after the other
as long as it is ready, every unit costs the same time, and time that is given while it is
not ready is lost.
-/

namespace RecompStudio.Metered

variable {S : Type}

/-- A process: when it can do a unit of work, and what the unit does. -/
structure Process (S : Type) where
  ready : S → Bool
  work : S → S

namespace Process

variable (p : Process S)

/-- A unit, if the process is ready. -/
def unit (s : S) : S := if p.ready s then p.work s else s

/-- At most so many units. -/
def units (n : Nat) (s : S) : S := p.unit^[n] s

/-- The units that are really done. -/
def doneOf : Nat → S → Nat
  | 0, _ => 0
  | n + 1, s => if p.ready s then 1 + doneOf n (p.work s) else 0

end Process

/-- A process that is given time: it takes time while it is open, a unit costs
`cost`, and it saves up no more than `cap`. It is open whenever it is ready. -/
structure Meter (S : Type) extends Process S where
  isOpen : S → Bool
  cost : Nat
  cap : Nat
  open_of_ready : ∀ s, ready s = true → isOpen s = true

namespace Meter

variable (p : Meter S)

/-- The process and the time it has saved, behind some more time. -/
def spend (time : Nat) (s : S × Nat) : S × Nat :=
  if p.isOpen s.1 then
    let saved := min (s.2 + time) p.cap
    (p.units (saved / p.cost) s.1, saved - p.doneOf (saved / p.cost) s.1 * p.cost)
  else s

end Meter

end RecompStudio.Metered

namespace RecompStudio.Runtime

open Metered

/-- `DMAAsyncChannel`. -/
structure DmaAsync where
  active : Bool
  total : Nat
  remaining : Nat
  accum : Nat
deriving DecidableEq, Repr

/-- `DMADelayedComplete`. -/
structure DelayedComplete where
  active : Bool
  totalWords : Nat
  cyclesRemaining : Nat
deriving DecidableEq, Repr

/-- A channel: its registers, its entry of `mdec_async` or `cdrom_async`, its
entry of `delayed_complete`, and how many of its transfers have been started,
completed and cancelled. -/
structure DmaChannel where
  madr : Word
  bcr : Word
  chcr : Word
  async : DmaAsync
  delayed : DelayedComplete
  started : Nat
  completed : Nat
  cancelled : Nat
deriving DecidableEq, Repr

/-- The controller, with its bit of I_STAT and the number of its calls of
`psx_irq_raise`. -/
structure Dma where
  channel : Fin 7 → DmaChannel
  dpcr : Word
  dicr : Word
  irq : Bool
  raised : Nat

def dmaMdecIn : Fin 7 := 0
def dmaMdecOut : Fin 7 := 1
def dmaCdrom : Fin 7 := 3

namespace DmaChannel

def chcrBit (c : DmaChannel) (i : Nat) : Bool := c.chcr.getLsbD i

/-- The start bits are cleared. -/
def clearBusy (c : DmaChannel) : DmaChannel := { c with chcr := c.chcr &&& ~~~0x11000000 }

/-- The channel part of `complete_transfer`. -/
def complete (c : DmaChannel) : DmaChannel := { c.clearBusy with completed := c.completed + 1 }

/-- `cancel_async_transfer`. -/
def cancel (c : DmaChannel) : DmaChannel :=
  { c with async := ⟨false, 0, 0, 0⟩, delayed := ⟨false, 0, 0⟩ }

/-- A transfer is over. -/
def ended (c : DmaChannel) : DmaChannel := c.cancel.complete

/-- The estimate of a transfer in `dma_cycles_to_irq`. -/
def asyncDistance (c : DmaChannel) : Nat :=
  if !c.async.active || c.async.remaining = 0 then 2 ^ 32 - 1
  else c.async.remaining - c.async.accum

def delayedDistance (c : DmaChannel) : Nat :=
  if c.delayed.active then c.delayed.cyclesRemaining else 2 ^ 32 - 1

/-- The channel part of `advance_delayed_complete`. -/
def delay (cycles : Nat) (c : DmaChannel) : DmaChannel :=
  if !c.delayed.active then c
  else if cycles < c.delayed.cyclesRemaining then
    { c with delayed.cyclesRemaining := c.delayed.cyclesRemaining - cycles }
  else { c with delayed := ⟨false, 0, 0⟩ }.complete

/-- The late completion is due. -/
def delayDue (cycles : Nat) (c : DmaChannel) : Bool :=
  c.delayed.active && decide (c.delayed.cyclesRemaining ≤ cycles)

end DmaChannel

namespace Dma

/-- `dicr_master_flag`. -/
def masterFlag (v : Word) : Bool := v.getLsbD 15 || (v.getLsbD 23 && v &&& 0x7F000000 != 0)

/-- `channel_enabled`. -/
def enabled (d : Dma) (ch : Fin 7) : Bool := d.dpcr.getLsbD (ch.val * 4 + 3)

/-- `channel_irq_flag_armed`. -/
def irqArmed (d : Dma) (ch : Fin 7) : Bool := d.dicr.getLsbD (16 + ch.val) && d.dicr.getLsbD 23

def modify (d : Dma) (ch : Fin 7) (f : DmaChannel → DmaChannel) : Dma :=
  { d with channel := Function.update d.channel ch (f (d.channel ch)) }

/-- `raise_dma_irq_on_master_edge`. -/
@[grind =] def raiseOnMasterEdge (d : Dma) (before : Word) : Dma :=
  if !masterFlag before && masterFlag d.dicr then { d with irq := true, raised := d.raised + 1 }
  else d

/-- The flag of a completed channel. -/
@[grind =] def flag (d : Dma) (ch : Fin 7) : Dma :=
  if d.irqArmed ch then
    { d with dicr := d.dicr ||| BitVec.twoPow 32 (24 + ch.val) }.raiseOnMasterEdge d.dicr
  else d

/-- A channel changes, and if it completes it is flagged. A completion is
`complete_transfer`: the start bits are cleared in the change. -/
@[grind =]
def act (d : Dma) (ch : Fin 7) (f : DmaChannel → DmaChannel)
    (completes : DmaChannel → Bool) : Dma :=
  if completes (d.channel ch) then (d.modify ch f).flag ch else d.modify ch f

/-- `finish_async_mdec_transfer`. -/
def finish (d : Dma) (ch : Fin 7) : Dma := d.act ch DmaChannel.ended fun _ => true

/-- `advance_delayed_complete`. -/
def advanceDelayed (d : Dma) (ch : Fin 7) (cycles : Nat) : Dma :=
  d.act ch (DmaChannel.delay cycles) (DmaChannel.delayDue cycles)

/-- The channel moves words as time passes. -/
def live (d : Dma) (ch : Fin 7) : Bool :=
  (d.channel ch).async.active && (d.channel ch).chcrBit 24 && d.enabled ch

/-- `dma_cdrom_transfer_active`. -/
def cdromTransferActive (d : Dma) : Bool := d.live dmaCdrom && !(d.channel dmaCdrom).chcrBit 0

/-- The minimum over the transfers and the late completions of the channels that
count. -/
def nearest (d : Dma) (counts : Fin 7 → Bool) : Nat :=
  let async := [dmaMdecIn, dmaMdecOut, dmaCdrom].map fun ch =>
    if counts ch then (d.channel ch).asyncDistance else 2 ^ 32 - 1
  let delayed := (List.finRange 7).map fun ch =>
    if counts ch then (d.channel ch).delayedDistance else 2 ^ 32 - 1
  (async ++ delayed).foldl min (2 ^ 32 - 1)

/-- `dma_cycles_to_irq`. -/
def cyclesToIrq (d : Dma) (mask : Word) : Nat :=
  if mask.getLsbD 3 then d.nearest fun _ => true else 2 ^ 32 - 1

end Dma

/-- What a word of a transfer works on: the device, RAM and the place in RAM. -/
structure Transfer (δ : Type) where
  device : δ
  ram : Word → Word
  addr : Word
  remaining : Nat

/-- A device on a channel: whether it is ready for a word, and what the word does
to it and to the word of RAM at the address. -/
structure DmaPort (δ : Type) where
  cyclesPerWord : Nat
  ready : δ → Bool
  move : δ → Word → δ × Word

/-- The next address, forwards or backwards inside RAM. -/
def nextAddr (back : Bool) (addr : Word) : Word :=
    (if back then addr - 4 else addr + 4) &&& 0x1FFFFC

namespace DmaPort

variable {δ : Type}

@[grind =] def word (port : DmaPort δ) (back : Bool) (t : Transfer δ) : Transfer δ :=
  let moved := port.move t.device (t.ram t.addr)
  ⟨moved.1, Function.update t.ram t.addr moved.2, nextAddr back t.addr, t.remaining - 1⟩

/-- The loop of a transfer: it is left when the device is not ready, and the
cycles are saved while it is. -/
def meter (port : DmaPort δ) (back : Bool) : Meter (Transfer δ) where
  ready t := port.ready t.device && decide (0 < t.remaining)
  work := port.word back
  isOpen t := port.ready t.device
  cost := port.cyclesPerWord
  cap := 2 ^ 32 - 1
  open_of_ready _ h := (Bool.and_eq_true_iff.mp h).1

end DmaPort

/-- The MDEC, as the functions `mdec_dma_*` use it. -/
structure MdecDevice (μ : Type) where
  writeReady : μ → Bool
  readReady : μ → Bool
  writeWord : μ → Word → μ
  readWord : μ → μ × Word

/-- The ports. A write to RAM is discarded while the cache is isolated. -/
def mdecInPort {μ : Type} (M : MdecDevice μ) : DmaPort μ :=
  ⟨1, M.writeReady, fun m w => (M.writeWord m w, w)⟩

def mdecOutPort {μ : Type} (M : MdecDevice μ) (isolated : Bool) : DmaPort μ :=
  ⟨14, M.readReady, fun m w => ((M.readWord m).1, if isolated then w else (M.readWord m).2)⟩

namespace SectorBuffer

/-- The next four bytes, as a word. -/
@[grind =] def word (b : SectorBuffer) : Word :=
  b.data (b.readPos + 3) ++ b.data (b.readPos + 2) ++ b.data (b.readPos + 1) ++ b.data b.readPos

/-- `cdrom_dma_ready`, with the request bit. -/
def dmaReady (request : Bool) (b : SectorBuffer) : Bool :=
  request && b.available && decide (b.readPos + 4 ≤ b.size)

/-- What `cdrom_dma_read` leaves behind. -/
def take (b : SectorBuffer) : SectorBuffer :=
  { b with readPos := b.readPos + 4, available := decide (b.readPos + 4 < b.size) }

end SectorBuffer

def cdromPort (request isolated : Bool) : DmaPort SectorBuffer :=
  ⟨1, SectorBuffer.dmaReady request, fun b w => (b.take, if isolated then w else b.word)⟩

/-- The controller with the devices and the RAM it moves words between. `cdIrq`
is the bit of the CD-ROM in I_STAT, and `isolated` the cache bit of the status
register. -/
structure DmaSide (μ : Type) where
  dma : Dma
  mdec : μ
  cdrom : Cdrom
  cdIrq : Bool
  ram : Word → Word
  isolated : Bool

section Channel

variable {δ : Type}

/-- A transfer as its channel holds it. -/
def DmaChannel.transfer (c : DmaChannel) (device : δ) (ram : Word → Word) : Transfer δ × Nat :=
  (⟨device, ram, c.madr &&& 0x1FFFFC, c.async.remaining⟩, c.async.accum)

/-- A transfer has moved its last word. -/
def DmaChannel.exhausts (after : Transfer δ × Nat) (c : DmaChannel) : Bool :=
  decide (after.1.remaining ≠ c.async.remaining ∧ after.1.remaining = 0)

/-- What a transfer leaves in its channel. -/
def DmaChannel.note (after : Transfer δ × Nat) (c : DmaChannel) : DmaChannel :=
  let noted := { c with async.remaining := after.1.remaining, async.accum := after.2 }
  if after.1.remaining = c.async.remaining then noted
  else if after.1.remaining = 0 then { noted with madr := after.1.addr }.ended
  else { noted with madr := after.1.addr }

/-- The words of a channel in some cycles. -/
def DmaChannel.run (port : DmaPort δ) (c : DmaChannel) (device : δ) (ram : Word → Word)
    (cycles : Nat) : Transfer δ × Nat :=
  (port.meter (c.chcrBit 1)).spend cycles (c.transfer device ram)

def Dma.note (d : Dma) (ch : Fin 7) (after : Transfer δ × Nat) : Dma :=
  d.act ch (DmaChannel.note after) (DmaChannel.exhausts after)

end Channel

namespace DmaSide

variable {μ : Type}

/-- `advance_mdec_channel`, for a channel with its port and the direction it is
made for. -/
def advanceMdec (port : DmaPort μ) (ch : Fin 7) (fromRam : Bool) (b : DmaSide μ) (cycles : Nat) :
    DmaSide μ :=
  if !b.dma.live ch then b
  else if (b.dma.channel ch).chcrBit 0 != fromRam then { b with dma := b.dma.finish ch }
  else
    let after := (b.dma.channel ch).run port b.mdec b.ram cycles
    { b with dma := b.dma.note ch after, mdec := after.1.device, ram := after.1.ram }

def advanceMdecIn (M : MdecDevice μ) (b : DmaSide μ) (cycles : Nat) : DmaSide μ :=
  b.advanceMdec (mdecInPort M) dmaMdecIn true cycles

def advanceMdecOut (M : MdecDevice μ) (b : DmaSide μ) (cycles : Nat) : DmaSide μ :=
  b.advanceMdec (mdecOutPort M b.isolated) dmaMdecOut false cycles

/-- The request bit of the data FIFO. -/
def request (b : DmaSide μ) : Bool := b.cdrom.drive.request.getLsbD 7

/-- The part of `dma_advance` for the CD-ROM. -/
def advanceCdromDma (b : DmaSide μ) (cycles : Nat) : DmaSide μ :=
  if !b.dma.cdromTransferActive then b
  else
    let after := (b.dma.channel dmaCdrom).run (cdromPort b.request b.isolated) b.cdrom.drive.sector
      b.ram cycles
    { b with
      cdrom := b.cdrom.setSector after.1.device
      dma := b.dma.note dmaCdrom after
      ram := after.1.ram }

/-- The late completions of `dma_advance`. -/
def advanceDelayed (b : DmaSide μ) (cycles : Nat) : DmaSide μ :=
  { b with dma := (List.finRange 7).foldl (fun d ch => d.advanceDelayed ch cycles) b.dma }

/-- `dma_advance`. -/
def advanceDma (M : MdecDevice μ) (b : DmaSide μ) (cycles : Nat) : DmaSide μ :=
  if cycles = 0 then b
  else (((b.advanceMdecIn M cycles).advanceMdecOut M cycles).advanceCdromDma cycles).advanceDelayed
    cycles

/-- An interrupt that the CD-ROM has presented. -/
def presented (before after : Cdrom) : Bool :=
  (after.trace.drop before.trace.length).any fun e => match e with
    | .raise _ _ => true
    | _ => false

/-- `cdrom_advance`. -/
def advanceCdrom (b : DmaSide μ) (cycles : Nat) : DmaSide μ :=
  let after := b.cdrom.advance (BitVec.ofNat 32 cycles) b.dma.cdromTransferActive
  { b with cdrom := after, cdIrq := b.cdIrq || presented b.cdrom after }

/-- The CD-ROM and the DMA in `advance_devices`. -/
def advance (M : MdecDevice μ) (b : DmaSide μ) (cycles : Nat) : DmaSide μ :=
  (b.advanceCdrom cycles).advanceDma M cycles

end DmaSide

end RecompStudio.Runtime
