import RecompStudio.Runtime.Memory

/-!
The serial port of pads and memory cards: one bus with a shifter, a one-byte
buffer and an acknowledge that comes some cycles behind a byte, and the protocol
of the cards, whose working variables both slots share. The pads are a device
behind the bus with an interface of their own.
-/

namespace RecompStudio.Runtime

/-- A slot, as the SLOT bit of the control register selects it. -/
abbrev Slot := Bool

/-- `McState`. -/
inductive McState where
  | idle | cmd | id1 | id2 | addrMsb | addrLsb
  | readAck1 | readAck2 | readMsbEcho | readLsbEcho | readData | readChk | readEnd
  | writeLsbEcho | writeData | writeChk | writeAck1 | writeAck2 | writeEnd
  | getId1 | getId2 | getId3 | getId4
deriving DecidableEq, Repr

/-- `McSlotState`, which the working variables repeat. -/
structure McVars where
  state : McState
  cmd : Byte
  sector : Nat
  sectorMsb : Byte
  sectorLsb : Byte
  data : Nat → Byte
  dataIdx : Nat
  checksum : Byte
  flag : Byte

structure Card where
  present : Bool
  data : Nat → Byte

inductive ActiveDevice where
  | none | pad | memcard
deriving DecidableEq, Repr

inductive BusOwner where
  | none | card | pad | unknown
deriving DecidableEq, Repr

/-- The pads behind the bus: what a byte to a slot does to them, with the byte
they answer and whether they acknowledge, and the reset of their transaction. -/
structure PadDevice (σ : Type) where
  process : σ → Slot → Byte → σ × Byte × Bool
  release : σ → σ

/-- The devices, and the bytes they have taken since the bus was selected, each
with the slot that was selected then. -/
structure Bus (σ : Type) where
  mc : McVars
  mcSlot : Slot
  slots : Slot → McVars
  cards : Slot → Card
  active : ActiveDevice
  selectedSlot : Slot
  pad : σ
  rx : Byte
  taken : List (Slot × Byte)

/-- What a byte leaves in the status: an acknowledge, and a byte to be read. -/
structure Reply where
  ack : Bool
  rxRdy : Bool
deriving DecidableEq, Repr

def memcardSectors : Nat := 1024

/-- `memcard_read_sector`, into a buffer. -/
def Card.readSector (card : Card) (sector : Nat) (buf : Nat → Byte) : Nat → Byte :=
  if card.present ∧ sector < memcardSectors then
    fun i => if i < 128 then card.data (sector * 128 + i) else buf i
  else buf

/-- `memcard_write_sector`. -/
def Card.writeSector (card : Card) (sector : Nat) (buf : Nat → Byte) : Card :=
  if card.present ∧ sector < memcardSectors then
    { card with data := fun a =>
        if sector * 128 ≤ a ∧ a < sector * 128 + 128 then buf (a - sector * 128) else card.data a }
  else card

/-- The sector number of two address bytes. -/
def sectorOf (msb lsb : Byte) : Nat := msb.toNat * 256 + lsb.toNat

/-- The checksum of a sector's address and bytes. -/
def checksumOf (msb lsb : Byte) (data : Nat → Byte) : Byte :=
  (List.range 128).foldl (fun sum i => sum ^^^ data i) (msb ^^^ lsb)

namespace Bus

variable {σ : Type}

/-- The card goes on to a state with an answer. -/
def answer (s : Bus σ) (state : McState) (rx : Byte) : Bus σ :=
  { s with mc.state := state, rx := rx }

/-- A byte of the sector goes into the buffer. -/
def buffer (s : Bus σ) (b : Byte) : Bus σ :=
  { s with
    mc.data := fun i => if i = s.mc.dataIdx then b else s.mc.data i
    mc.dataIdx := s.mc.dataIdx + 1 }

/-- The last byte of the address. -/
def address (s : Bus σ) (b : Byte) : Bus σ :=
  let s := { s with mc.sectorLsb := b, mc.sector := sectorOf s.mc.sectorMsb b, mc.dataIdx := 0 }
  if s.mc.cmd = 0x52 then
    let data := if s.mc.sector < memcardSectors then
        (s.cards s.mcSlot).readSector s.mc.sector s.mc.data
      else fun i => if i < 128 then 0xFF else s.mc.data i
    ({ s with
      mc.data := data
      mc.checksum := checksumOf s.mc.sectorMsb b data } : Bus σ).answer .readAck1 0x00
  else s.answer .writeLsbEcho s.mc.sectorMsb

/-- The checksum byte of a write. -/
def commit (s : Bus σ) (b : Byte) : Bus σ :=
  let s := s.answer .writeAck1 0x00
  if b = checksumOf s.mc.sectorMsb s.mc.sectorLsb s.mc.data ∧ s.mc.sector < memcardSectors then
    { s with
      cards := fun k => if k = s.mcSlot then (s.cards k).writeSector s.mc.sector s.mc.data
        else s.cards k
      mc.checksum := 0x47 }
  else if memcardSectors ≤ s.mc.sector then { s with mc.checksum := 0xFF }
  else { s with mc.checksum := 0x4E }

/-- `mc_process_byte`, with the acknowledge. -/
def mcProcessByte (s : Bus σ) (b : Byte) : Bus σ × Bool :=
  match s.mc.state with
  | .idle =>
      let s := { s with mcSlot := s.selectedSlot, rx := 0xFF }
      if (s.cards s.mcSlot).present then (s.answer .cmd 0xFF, true) else (s, false)
  | .cmd =>
      let s := { s with mc.cmd := b }
      if b = 0x52 ∨ b = 0x57 ∨ b = 0x53 then
        ({ s.answer .id1 s.mc.flag with mc.flag := 0x00 }, true)
      else (s.answer .idle 0xFF, false)
  | .id1 => (s.answer .id2 0x5A, true)
  | .id2 => (s.answer (if s.mc.cmd = 0x53 then .getId1 else .addrMsb) 0x5D, true)
  | .getId1 => (s.answer .getId2 0x04, true)
  | .getId2 => (s.answer .getId3 0x00, true)
  | .getId3 => (s.answer .getId4 0x00, true)
  | .getId4 => (s.answer .idle 0x80, false)
  | .addrMsb => ({ s with mc.sectorMsb := b }.answer .addrLsb 0x00, true)
  | .addrLsb => (s.address b, true)
  | .readAck1 => (s.answer .readAck2 0x5C, true)
  | .readAck2 => (s.answer .readMsbEcho 0x5D, true)
  | .readMsbEcho => (s.answer .readLsbEcho s.mc.sectorMsb, true)
  | .readLsbEcho => ({ s with mc.dataIdx := 0 }.answer .readData s.mc.sectorLsb, true)
  | .readData =>
      let t := { s with mc.dataIdx := s.mc.dataIdx + 1 }
      (t.answer (if 128 ≤ t.mc.dataIdx then .readChk else .readData) (s.mc.data s.mc.dataIdx), true)
  | .readChk => (s.answer .readEnd s.mc.checksum, true)
  | .readEnd => (s.answer .idle (if s.mc.sector < memcardSectors then 0x47 else 0xFF), false)
  | .writeLsbEcho => ((s.buffer b).answer .writeData s.mc.sectorLsb, true)
  | .writeData =>
      let t := s.buffer b
      (t.answer (if 128 ≤ t.mc.dataIdx then .writeChk else .writeData) 0x00, true)
  | .writeChk => (s.commit b, true)
  | .writeAck1 => (s.answer .writeAck2 0x5C, true)
  | .writeAck2 => (s.answer .writeEnd 0x5D, true)
  | .writeEnd => ({ s with mc.flag := 0x00 }.answer .idle s.mc.checksum, false)

/-- `mc_save_slot`. -/
def saveSlot (s : Bus σ) (slot : Slot) : Bus σ :=
  { s with slots := fun k => if k = slot then s.mc else s.slots k }

/-- `mc_load_slot`. -/
def loadSlot (s : Bus σ) (slot : Slot) : Bus σ := { s with mc := s.slots slot }

/-- A byte to the card. -/
def toCard (s : Bus σ) (b : Byte) : Bus σ × Reply :=
  ((s.mcProcessByte b).1, ⟨(s.mcProcessByte b).2, true⟩)

/-- A byte to the pads, `pad_process_byte`. -/
def toPad (P : PadDevice σ) (s : Bus σ) (b : Byte) : Bus σ × Reply :=
  let (pad, rx, ack) := P.process s.pad s.selectedSlot b
  ({ s with active := .pad, pad := pad, rx := rx }, ⟨ack, true⟩)

/-- A byte that no device takes. -/
def stray (s : Bus σ) : Bus σ × Reply := ({ s with rx := 0xFF }, ⟨false, false⟩)

/-- `sio_process_byte` while no device is active. -/
def select (P : PadDevice σ) (s : Bus σ) (slot : Slot) (b : Byte) : Bus σ × Reply :=
  let s := { s with selectedSlot := slot }
  if b = 0x01 then
    (if s.mc.state ≠ .idle then { s.saveSlot s.mcSlot with mc.state := .idle } else s).toPad P b
  else if b = 0x81 then
    { s.loadSlot slot with mc.state := .idle, active := .memcard, mcSlot := slot }.toCard b
  else
    let s := s.loadSlot slot
    if s.mc.state ≠ .idle ∧ slot = s.mcSlot then { s with active := .memcard }.toCard b
    else { s with mc.state := .idle }.stray

/-- `sio_process_byte`. -/
@[grind =] def processByte (P : PadDevice σ) (s : Bus σ) (slot : Slot) (b : Byte) : Bus σ × Reply :=
  let s := { s with taken := s.taken ++ [(slot, b)] }
  match s.active with
  | .none => s.select P slot b
  | .pad => s.toPad P b
  | .memcard =>
      if s.mc.state = .idle ∧ b ≠ 0x81 then
        let s := { s with active := .none, selectedSlot := slot }
        if b = 0x01 then s.toPad P b else s.stray
      else s.toCard b

/-- What a reset does to the devices. -/
def reset (P : PadDevice σ) (s : Bus σ) : Bus σ :=
  { s with
    pad := P.release s.pad
    mc.state := .idle
    slots := fun k => { s.slots k with state := .idle }
    active := .none
    taken := [] }

/-- What the end of SELECT does to the devices. -/
def deselect (P : PadDevice σ) (s : Bus σ) : Bus σ :=
  { s with
    pad := P.release s.pad
    mc.state := .idle
    slots := fun k =>
      { state := .idle, cmd := 0, sector := 0, sectorMsb := 0, sectorLsb := 0
        data := (s.slots k).data, dataIdx := 0, checksum := 0
        flag := if s.active = .memcard ∧ k = s.mcSlot then s.mc.flag else (s.slots k).flag }
    active := .none
    taken := [] }

end Bus

/-- The bits of `sio_stat`. -/
structure SioStat where
  txRdy : Bool
  rxRdy : Bool
  txEmpty : Bool
  ack : Bool
  irq : Bool
deriving DecidableEq, Repr

def SioStat.idle : SioStat := ⟨true, false, true, false, false⟩

def ctrlTxEn (v : BitVec 16) : Bool := v.getLsbD 0
def ctrlSelect (v : BitVec 16) : Bool := v.getLsbD 1
def ctrlAck (v : BitVec 16) : Bool := v.getLsbD 4
def ctrlReset (v : BitVec 16) : Bool := v.getLsbD 6
def ctrlAckIrqEn (v : BitVec 16) : Bool := v.getLsbD 12
def ctrlSlot (v : BitVec 16) : Slot := v.getLsbD 13

def sioBaudCycles : Nat := 1088
def sioAckCycles : Nat := 170

/-- The port. `irq` is its bit of I_STAT, and `advancing` is the loop of a
`sio_advance` under way: the cycles left and the transitions made. -/
structure Sio (σ : Type) where
  bus : Bus σ
  stat : SioStat
  mode : BitVec 16
  ctrl : BitVec 16
  baud : BitVec 16
  shiftActive : Bool
  shiftByte : Byte
  shiftRemaining : Nat
  txBuffered : Bool
  txBuffer : Byte
  shiftAckIrqEn : Bool
  txBufferAckIrqEn : Bool
  pendingAck : Bool
  ackRemaining : Nat
  pendingAckIrqEn : Bool
  owner : BusOwner
  byteIndex : Nat
  timingActive : Bool
  ackVisibleReads : Nat
  irq : Bool
  advancing : Option (Nat × Nat)

namespace Sio

variable {σ : Type}

/-- The shifter, the buffer and the acknowledge are emptied. -/
def clearLine (s : Sio σ) : Sio σ :=
  { s with
    shiftActive := false
    shiftRemaining := 0
    txBuffered := false
    shiftAckIrqEn := false
    txBufferAckIrqEn := false
    pendingAck := false
    ackRemaining := 0
    pendingAckIrqEn := false
    timingActive := false }

/-- Nobody owns the bus. -/
def freeBus (s : Sio σ) : Sio σ := { s with owner := .none, byteIndex := 0 }

/-- A byte is given to the devices at once. -/
def exchange (P : PadDevice σ) (s : Sio σ) (b : Byte) : Sio σ :=
  let (bus, reply) := s.bus.processByte P (ctrlSlot s.ctrl) b
  { s with
    bus := bus
    stat := { s.stat with
      txRdy := true
      txEmpty := true
      rxRdy := s.stat.rxRdy || reply.rxRdy
      ack := s.stat.ack || reply.ack } }

/-- The pad path of a write to TX: the byte is exchanged at once, and the
acknowledge comes behind it. -/
def padFastPath (P : PadDevice σ) (s : Sio σ) (b : Byte) : Sio σ :=
  let s := { s.clearLine with owner := .pad, byteIndex := (s.byteIndex + 1) % 2 ^ 32 }.exchange P b
  if s.stat.ack ∧ ctrlAckIrqEn s.ctrl then
    { s with
      stat := { s.stat with ack := false, txRdy := false, txEmpty := false }
      pendingAck := true
      ackRemaining := sioBaudCycles + sioAckCycles
      pendingAckIrqEn := true
      timingActive := true }
  else { s with stat := { s.stat with txRdy := true, txEmpty := true } }

/-- The paced path of a write to TX. -/
def shiftPath (s : Sio σ) (b : Byte) : Sio σ :=
  let s := { s with
    owner := if s.byteIndex = 0 then
        (if b = 0x81 then .card else if b = 0x01 then .pad else .unknown)
      else s.owner
    byteIndex := (s.byteIndex + 1) % 2 ^ 32 }
  if !s.shiftActive then
    { s with
      shiftByte := b
      shiftActive := true
      shiftRemaining := sioBaudCycles
      shiftAckIrqEn := ctrlAckIrqEn s.ctrl
      stat := { s.stat with txRdy := false, txEmpty := false }
      timingActive := true }
  else if !s.txBuffered then
    { s with
      txBuffer := b
      txBuffered := true
      txBufferAckIrqEn := ctrlAckIrqEn s.ctrl
      stat := { s.stat with txEmpty := false } }
  else s

/-- A write to SIO_TX_DATA. -/
def txWrite (P : PadDevice σ) (s : Sio σ) (b : Byte) : Sio σ :=
  if !ctrlTxEn s.ctrl then s
  else if s.bus.active ≠ .memcard ∧ (s.bus.active = .pad ∨ s.owner = .pad ∨ b = 0x01) then
    s.padFastPath P b
  else s.shiftPath b

def ackBits (s : Sio σ) (v : BitVec 16) : Sio σ :=
  if ctrlAck v then
    { s with stat := { s.stat with irq := false, ack := false }, ackVisibleReads := 0 }
  else s

def resetPort (P : PadDevice σ) (s : Sio σ) (v : BitVec 16) : Sio σ :=
  if ctrlReset v then
    { s.clearLine.freeBus with
      stat := .idle
      mode := 0
      ctrl := 0
      baud := 0
      bus := s.bus.reset P
      ackVisibleReads := 0 }
  else s

def assertSelect (s : Sio σ) (old v : BitVec 16) : Sio σ :=
  if !ctrlSelect old && ctrlSelect v then s.freeBus else s

def disableTx (s : Sio σ) (old v : BitVec 16) : Sio σ :=
  if ctrlTxEn old && !ctrlTxEn v && (s.shiftActive || s.txBuffered || s.pendingAck) then
    let s := if ctrlSelect v then s.clearLine else s.clearLine.freeBus
    { s with stat := { s.stat with txRdy := true, txEmpty := true } }
  else s

def deassertSelect (P : PadDevice σ) (s : Sio σ) (old v : BitVec 16) : Sio σ :=
  if ctrlSelect old && !ctrlSelect v then
    { s.clearLine.freeBus with
      bus := s.bus.deselect P
      stat := { s.stat with txRdy := true, txEmpty := true } }
  else s

/-- A write to SIO_CTRL. -/
def ctrlWrite (P : PadDevice σ) (s : Sio σ) (v : BitVec 16) : Sio σ :=
  let acked := ({ s with ctrl := v } : Sio σ).ackBits v
  (((acked.resetPort P v).assertSelect s.ctrl v).disableTx s.ctrl v).deassertSelect P s.ctrl v

/-- The two reads with an effect, SIO_RX_DATA and SIO_STAT. -/
def rxRead (s : Sio σ) : Sio σ := { s with stat := { s.stat with rxRdy := false } }

def statRead (s : Sio σ) : Sio σ :=
  if s.ackVisibleReads = 1 then
    { s with ackVisibleReads := 0, stat := { s.stat with ack := false } }
  else { s with ackVisibleReads := s.ackVisibleReads - 1 }

/-- The timing is over when nothing is under way. -/
def settle (s : Sio σ) : Sio σ :=
  if !s.shiftActive && !s.txBuffered && !s.pendingAck then { s with timingActive := false } else s

/-- The byte in the shifter is done, and its acknowledge is under way if there is
one. -/
def endShift (s : Sio σ) : Sio σ :=
  let ended := { s with shiftActive := false, stat := { s.stat with ack := false, rxRdy := true } }
  if s.stat.ack then
    { ended with
      pendingAck := true
      ackRemaining := sioAckCycles
      pendingAckIrqEn := s.shiftAckIrqEn }
  else ended

/-- The byte in the buffer goes into the shifter. -/
def promote (s : Sio σ) : Sio σ :=
  if s.txBuffered then
    { s with
      shiftByte := s.txBuffer
      shiftActive := true
      shiftRemaining := sioBaudCycles
      shiftAckIrqEn := s.txBufferAckIrqEn
      txBuffered := false
      txBufferAckIrqEn := false
      stat := { s.stat with txEmpty := true }
      byteIndex := (s.byteIndex + 1) % 2 ^ 32 }
  else { s with stat := { s.stat with txRdy := true, txEmpty := true } }

/-- `sio_handle_shift_complete`. -/
@[grind =] def shiftComplete (P : PadDevice σ) (s : Sio σ) : Sio σ :=
  (s.exchange P s.shiftByte).endShift.promote.settle

/-- `sio_fire_ack_irq`, behind the end of the acknowledge. -/
def fireAck (s : Sio σ) : Sio σ :=
  let enabled := s.pendingAckIrqEn || ctrlAckIrqEn s.ctrl
  let s := { s with
    pendingAck := false
    stat := { s.stat with ack := true }
    ackVisibleReads := 2
    pendingAckIrqEn := false }
  if enabled then ({ s with stat := { s.stat with irq := true }, irq := true } : Sio σ).settle
    else s

/-- Where the loop of `sio_advance` stands. -/
def setAdvancing (s : Sio σ) (advancing : Option (Nat × Nat)) : Sio σ :=
  { s with advancing := advancing }

/-- The start of `sio_advance`, for a cycle count in the range of `int`. -/
def advance (s : Sio σ) (cycles : Word) : Sio σ :=
  if cycles.toNat = 0 ∨ 2 ^ 31 ≤ cycles.toNat ∨ !s.timingActive then s
  else s.setAdvancing (some (cycles.toNat, 0))

/-- The time that one round of `sio_advance` passes, and the event at its end. -/
inductive LineEvent where
  | shift | ack | nothing
deriving DecidableEq, Repr

def nextEvent (s : Sio σ) (remaining : Nat) : Nat × LineEvent :=
  if s.shiftActive ∧ s.shiftRemaining = 0 then (0, .shift)
  else if s.pendingAck ∧ s.ackRemaining = 0 then (0, .ack)
  else
    let (dt, event) := if s.shiftActive ∧ s.shiftRemaining < remaining then
        (s.shiftRemaining, LineEvent.shift) else (remaining, .nothing)
    if s.pendingAck ∧ s.ackRemaining < dt then (s.ackRemaining, .ack) else (dt, event)

/-- Time passes for what is under way. -/
def pass (s : Sio σ) (dt : Nat) : Sio σ :=
  { s with
    shiftRemaining := if s.shiftActive then s.shiftRemaining - dt else s.shiftRemaining
    ackRemaining := if s.pendingAck then s.ackRemaining - dt else s.ackRemaining }

/-- One round of the loop of `sio_advance`. -/
def iterate (P : PadDevice σ) (s : Sio σ) : Sio σ :=
  match s.advancing with
  | none => s
  | some (remaining, transitions) =>
      if remaining = 0 ∨ 8 ≤ transitions then s.setAdvancing none
      else
        let (dt, event) := s.nextEvent remaining
        match event with
        | .shift => ((s.pass dt).shiftComplete P).setAdvancing
            (some (remaining - dt, transitions + 1))
        | .ack => (s.pass dt).fireAck.setAdvancing (some (remaining - dt, transitions + 1))
        | .nothing => (s.pass dt).setAdvancing none

/-- The port behind `sio_init`, with the cards and the pads. -/
def initial (cards : Slot → Card) (pad : σ) : Sio σ where
  bus :=
    let vars : McVars := ⟨.idle, 0, 0, 0, 0, fun _ => 0, 0, 0, 0x08⟩
    ⟨vars, false, fun _ => vars, cards, .none, false, pad, 0xFF, []⟩
  stat := .idle
  mode := 0
  ctrl := 0
  baud := 0
  shiftActive := false
  shiftByte := 0
  shiftRemaining := 0
  txBuffered := false
  txBuffer := 0
  shiftAckIrqEn := false
  txBufferAckIrqEn := false
  pendingAck := false
  ackRemaining := 0
  pendingAckIrqEn := false
  owner := .none
  byteIndex := 0
  timingActive := false
  ackVisibleReads := 0
  irq := false
  advancing := none

end Sio

/-- What the guest and the clock do to the port. An advance is followed by the
rounds of its loop. -/
inductive SioEvent where
  | tx (b : Byte)
  | ctrl (v : BitVec 16)
  | mode (v : BitVec 16)
  | baud (v : BitVec 16)
  | readRx
  | readStat
  | advance (cycles : Word)
  | iterate
deriving DecidableEq

def SioEvent.isIterate : SioEvent → Bool
  | .iterate => true
  | _ => false

@[grind =] def Sio.apply {σ : Type} (P : PadDevice σ) (s : Sio σ) : SioEvent → Sio σ
  | .tx b => s.txWrite P b
  | .ctrl v => s.ctrlWrite P v
  | .mode v => { s with mode := v }
  | .baud v => { s with baud := v }
  | .readRx => s.rxRead
  | .readStat => s.statRead
  | .advance cycles => s.advance cycles
  | .iterate => s.iterate P

/-- One step. While an advance is under way, only its loop goes on. -/
def sioStep {σ : Type} (P : PadDevice σ) (s : Sio σ) (e : SioEvent) : Sio σ :=
  if s.advancing.isSome && !e.isIterate then s else s.apply P e

end RecompStudio.Runtime
