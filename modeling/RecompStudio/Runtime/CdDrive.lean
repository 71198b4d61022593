import RecompStudio.Runtime.Memory

/-!
The drive of the CD-ROM controller: its position, its mode, the sector buffer
and what the commands and their delayed completions do to them. The disc is
what the image reader returns; decoded audio leaves the controller and is no
part of its state.
-/

namespace RecompStudio.Runtime

/-- The mounted image, as the functions `iso_*` read it. -/
structure Disc where
  raw : Int → Option (Nat → Byte)
  user : Int → Option (Nat → Byte)
  sectors : Nat
  trackCount : Int
  trackStart : Int → Nat

def bcdToBin (bcd : Byte) : Nat := (bcd >>> 4).toNat * 10 + (bcd &&& 0x0F).toNat

def binToBcd (val : Nat) : Byte := BitVec.ofNat 8 (val / 10 * 16 + val % 10)

/-- A position in minutes, seconds and frames. -/
structure Msf where
  min : Nat
  sec : Nat
  sect : Nat
deriving DecidableEq, Repr

@[grind =] def Msf.toLba (p : Msf) : Int := (p.min * 60 + p.sec : Nat) * 75 + p.sect - 150

/-- `advance_msf`. -/
def Msf.advance (p : Msf) : Msf :=
  let (sec, sect) := if 75 ≤ p.sect + 1 then (p.sec + 1, 0) else (p.sec, p.sect + 1)
  if 60 ≤ sec then ⟨p.min + 1, 0, sect⟩ else ⟨p.min, sec, sect⟩

/-- `lba_to_msf`. -/
def lbaToMsf (lba : Int) (pregap : Nat) : Msf :=
  let frames := (lba + pregap).toNat
  ⟨frames / 4500, frames % 4500 / 75, frames % 4500 % 75⟩

def cdStatError : Byte := 0x01
def cdStatMotor : Byte := 0x02
def cdStatSeekErr : Byte := 0x04
def cdStatIdError : Byte := 0x08
def cdStatShell : Byte := 0x10
def cdStatRead : Byte := 0x20
def cdStatSeek : Byte := 0x40
def cdStatPlay : Byte := 0x80

/-- The codes of the interrupts. -/
inductive CdIrq where
  | dataReady | complete | ack | dataEnd | error
deriving DecidableEq, Repr

def CdIrq.code : CdIrq → Byte
  | .dataReady => 1
  | .complete => 2
  | .ack => 3
  | .dataEnd => 4
  | .error => 5

/-- `CDROMSectorDelivery`, as far as it is read off the raw sector. -/
structure SectorHead where
  rawMode : Byte
  xaFile : Byte
  xaChannel : Byte
  xaSubmode : Byte
  xaCoding : Byte
deriving DecidableEq, Repr

/-- `classify_raw_sector`. -/
def classifyRawSector : Option (Nat → Byte) → SectorHead
  | none => ⟨0, 0, 0, 0, 0⟩
  | some raw => if raw 15 = 0x02 then ⟨0x02, raw 16, raw 17, raw 18, raw 19⟩
      else ⟨raw 15, 0, 0, 0, 0⟩

/-- `xa_is_audio_realtime`. -/
def SectorHead.audioRealtime (d : SectorHead) : Bool :=
  d.rawMode = 0x02 && d.xaSubmode &&& 0x44 = 0x44

/-- The stream of XA audio that is being decoded. -/
structure XaStream where
  file : Byte
  channel : Byte
  coding : Byte
  active : Bool
deriving DecidableEq, Repr

def XaStream.reset : XaStream := ⟨0xFF, 0xFF, 0xFF, false⟩

/-- The sector buffer and the bytes taken from it. -/
structure SectorBuffer where
  data : Nat → Byte
  readPos : Nat
  size : Nat
  available : Bool

/-- The speed settings: the divisor, and the sectors of a frame when it is 0. -/
structure DiscSpeed where
  divisor : Int
  instantMaxPerFrame : Nat
deriving DecidableEq, Repr

structure Drive where
  disc : Option Disc
  speed : DiscSpeed
  stat : Byte
  request : Byte
  mode : Byte
  seek : Msf
  seekFar : Bool
  reading : Bool
  readAt : Msf
  readCmd : Byte
  readDelay : Int
  filterFile : Byte
  filterChannel : Byte
  muted : Bool
  xa : XaStream
  sector : SectorBuffer
  lastLba : Int
  lastHead : SectorHead
  pendingDataready : Option Byte

/-- What a command answers at once, and the completion it leaves. -/
structure CdOutcome where
  drive : Drive
  response : List Byte
  irq : CdIrq
  completion : Option Int

namespace Drive

@[grind =] def modeBit (d : Drive) (i : Nat) : Bool := d.mode.getLsbD i

/-- `instant_period`. -/
def instantPeriod (d : Drive) : Int := max 500 (564480 / d.speed.instantMaxPerFrame : Nat)

/-- `apply_speed`. -/
def applySpeed (d : Drive) (delay : Int) : Int :=
  if d.xa.active then delay
  else if d.speed.divisor = 0 then d.instantPeriod
  else max 500 (delay.tdiv d.speed.divisor)

/-- `sector_delay_cycles`. -/
def sectorDelay (d : Drive) : Int := d.applySpeed (if d.modeBit 7 then 225792 else 451584)

/-- `initial_read_delay_cycles`. -/
def initialReadDelay (d : Drive) : Int := d.applySpeed (if d.modeBit 7 then 451584 else 903168)

/-- `seek_complete_delay_cycles`. -/
def seekCompleteDelay (d : Drive) : Int := d.applySpeed (if d.seekFar then 1806336 else 0x800)

/-- `pause_complete_delay_cycles`. -/
def pauseCompleteDelay (d : Drive) : Int :=
  if !d.reading ∧ d.stat &&& (cdStatRead ||| cdStatPlay) = 0 then 5000
  else
    let lba := max 0 (if d.reading then d.readAt.toLba else d.lastLba)
    let cycles := 1124584 + (lba * 42596).tdiv 4500
    if d.modeBit 7 then cycles else cycles * 2

/-- `clear_sector_buffer`. -/
@[grind =] def clearSectorBuffer (d : Drive) : Drive :=
  { d with
    sector := { d.sector with readPos := 0, size := 0, available := false }
    request := d.request &&& ~~~0x80 }

/-- `start_read_stream`. -/
@[grind =] def startReadStream (d : Drive) (cmd : Byte) : Drive :=
  let d := { d.clearSectorBuffer with pendingDataready := none }
  let d := if d.modeBit 6 then { d with xa := .reset } else d
  { d with
    readAt := d.seek
    readCmd := cmd
    readDelay := d.initialReadDelay
    reading := true
    stat := d.stat ||| cdStatRead }

/-- `stop_read_stream`. -/
def stopReadStream (d : Drive) : Drive :=
  { d with reading := false, readCmd := 0, readDelay := 0, pendingDataready := none }

/-- `xa_reset_decode`. -/
def xaReset (d : Drive) : Drive := { d with xa := .reset }

/-- `maybe_deliver_xa_audio`: the stream behind it, and whether the sector was
audio. -/
def deliverXa (d : Drive) (raw : Option (Nat → Byte)) (head : SectorHead) : XaStream × Bool :=
  if !d.modeBit 6 || raw.isNone || d.muted || !head.audioRealtime then (d.xa, false)
  else if d.modeBit 3 ∧ (head.xaFile ≠ d.filterFile ∨ head.xaChannel ≠ d.filterChannel) then
    (d.xa, false)
  else if head.xaCoding &&& 0x30 ≠ 0 ∨ (head.xaCoding &&& 0x0C ≠ 0 ∧ head.xaCoding &&& 0x0C ≠ 0x04)
  then (d.xa, false)
  else (⟨head.xaFile, head.xaChannel, head.xaCoding, true⟩, true)

/-- `read_sector_at`, with whether the sector is data for the guest. -/
def readSectorAt (d : Drive) (at' : Msf) : Drive × Bool :=
  let lba := at'.toLba
  let raw := d.disc.bind fun disc => disc.raw lba
  let user : Nat → Byte := match raw with
    | some bytes => fun i => bytes (24 + i)
    | none => match d.disc.bind fun disc => disc.user lba with
      | some bytes => bytes
      | none => fun _ => 0
  let head := classifyRawSector raw
  let (xa, audio) := d.deliverXa raw head
  let delivered := !(audio || (d.modeBit 3 && head.audioRealtime))
  let (size, data) : Nat × (Nat → Byte) :=
    if !delivered then (0, fun _ => 0)
    else if d.modeBit 5 then
      match raw with
      | some bytes => (2340, fun i => if i < 2340 then bytes (12 + i) else 0)
      | none => (2060, fun i =>
          if i = 0 then binToBcd at'.min else if i = 1 then binToBcd at'.sec
          else if i = 2 then binToBcd at'.sect else if i = 3 then 0x02
          else if i < 12 then 0 else if i < 2060 then user (i - 12) else 0)
    else (2048, fun i => if i < 2048 then user i else 0)
  ({ d with
      xa := xa
      sector := ⟨data, 0, size, delivered⟩
      lastLba := lba
      lastHead := head }, delivered)

/-- The next sector of the stream, `deliver_read_sector_without_irq`. -/
def nextSector (d : Drive) : Drive × Bool :=
  let (read, delivered) := d.readSectorAt d.readAt
  ({ read with readAt := d.readAt.advance }, delivered)

/-- `data_fifo_ready`. -/
def dataFifoReady (d : Drive) : Bool :=
  d.request.getLsbD 7 && d.sector.available && d.sector.readPos < d.sector.size

/-- Bytes are taken out of the buffer. -/
def takeBytes (d : Drive) (n : Nat) : Drive :=
  { d with sector := { d.sector with
      readPos := d.sector.readPos + n
      available := d.sector.available && d.sector.readPos + n < d.sector.size } }

/-- A response at once and nothing behind it. -/
def acknowledge (d : Drive) (response : List Byte) : CdOutcome := ⟨d, response, .ack, none⟩

def fail (d : Drive) (response : List Byte) : CdOutcome := ⟨d, response, .error, none⟩

def thenComplete (d : Drive) (delay : Int) : CdOutcome := ⟨d, [d.stat], .ack, some delay⟩

/-- `SetLoc`. -/
def setLoc (d : Drive) (params : List Byte) : Drive :=
  match params with
  | m :: s :: f :: _ =>
      let current := if 0 ≤ d.lastLba then d.lastLba else d.seek.toLba
      let seek : Msf := ⟨bcdToBin m, bcdToBin s, bcdToBin f⟩
      { d with seek := seek, seekFar := 16 < (current - seek.toLba).natAbs }
  | _ => d

/-- `GetlocL`. -/
def getlocL (d : Drive) : List Byte :=
  let p := lbaToMsf (if 0 ≤ d.lastLba then d.lastLba else d.readAt.toLba) 150
  [binToBcd p.min, binToBcd p.sec, binToBcd p.sect,
    if d.lastHead.rawMode = 0 then 0x02 else d.lastHead.rawMode,
    d.lastHead.xaFile, d.lastHead.xaChannel, d.lastHead.xaSubmode, d.lastHead.xaCoding]

/-- `GetlocP`. -/
def getlocP (d : Drive) : List Byte :=
  let lba := if d.reading then d.readAt.toLba else if 0 ≤ d.lastLba then d.lastLba
    else d.seek.toLba
  let r := lbaToMsf lba 0
  let a := lbaToMsf lba 150
  [0x01, 0x01, binToBcd r.min, binToBcd r.sec, binToBcd r.sect, binToBcd a.min, binToBcd a.sec,
    binToBcd a.sect]

/-- `GetTD`. -/
@[grind =] def getTD (d : Drive) (params : List Byte) : CdOutcome :=
  match d.disc with
  | none => d.fail [d.stat ||| cdStatError, 0x80]
  | some disc =>
      let raw := params.headD 0
      let lba : Int := if raw = 0xAA ∨ bcdToBin raw = 0 then disc.sectors
        else disc.trackStart (bcdToBin raw)
      let p := lbaToMsf lba 150
      d.acknowledge [d.stat, binToBcd p.min, binToBcd p.sec]

/-- The commands of `exec_command`. -/
@[grind =] def exec (d : Drive) (cmd : Byte) (params : List Byte) : CdOutcome :=
  let noDisc := d.disc.isNone
  match cmd.toNat with
  | 0x01 =>
      let d := { d with stat := d.stat ||| if noDisc then cdStatShell else cdStatMotor }
      d.acknowledge [d.stat]
  | 0x02 => (d.setLoc params).acknowledge [d.stat]
  | 0x03 =>
      if noDisc then d.fail [d.stat ||| cdStatError]
      else
        let d := { d with
          stat := (d.stat &&& ~~~(cdStatSeek ||| cdStatRead)) ||| cdStatMotor ||| cdStatPlay }
        d.acknowledge [d.stat]
  | 0x06 | 0x1B =>
      if noDisc then d.fail [d.stat ||| cdStatError]
      else
        let d := d.startReadStream cmd
        d.acknowledge [d.stat]
  | 0x07 =>
      if d.stat &&& cdStatMotor ≠ 0 then d.fail [d.stat ||| cdStatError, 0x20]
      else d.thenComplete (d.applySpeed 30000)
  | 0x08 =>
      let d := d.stopReadStream.xaReset
      let d := { d with stat := d.stat &&& ~~~(cdStatRead ||| cdStatPlay ||| cdStatSeek) }
      d.thenComplete (d.applySpeed 30000)
  | 0x09 =>
      let delay := d.pauseCompleteDelay
      let d := d.stopReadStream.xaReset
      { d with stat := d.stat &&& ~~~cdStatRead }.thenComplete delay
  | 0x0A =>
      let d := d.stopReadStream.xaReset
      { d with stat := if noDisc then cdStatShell else cdStatMotor }.thenComplete 1136000
  | 0x0B => { d with muted := true }.acknowledge [d.stat]
  | 0x0C => { d with muted := false }.acknowledge [d.stat]
  | 0x0D =>
      let d := match params with
        | file :: channel :: _ => { d with filterFile := file, filterChannel := channel }.xaReset
        | _ => d
      d.acknowledge [d.stat]
  | 0x0E =>
      let d := match params with
        | mode :: _ =>
            let d := { d with mode := mode }
            if d.modeBit 6 then d else d.xaReset
        | _ => d
      d.acknowledge [d.stat]
  | 0x0F => d.acknowledge [d.stat, d.mode, 0x00, d.filterFile, d.filterChannel]
  | 0x10 => d.acknowledge d.getlocL
  | 0x11 => d.acknowledge d.getlocP
  | 0x13 =>
      let last := match d.disc with
        | some disc => max 1 disc.trackCount
        | none => 1
      d.acknowledge [d.stat, 0x01, binToBcd last.toNat]
  | 0x14 => d.getTD params
  | 0x15 | 0x16 =>
      if noDisc then d.fail [d.stat ||| cdStatError ||| cdStatSeekErr]
      else
        let d := d.xaReset
        let d := { d with stat := d.stat ||| cdStatSeek }
        d.thenComplete d.seekCompleteDelay
  | 0x19 =>
      if params.head? = some 0x20 then d.acknowledge [0x94, 0x09, 0x19, 0xC0]
      else d.acknowledge [d.stat]
  | 0x1A => d.thenComplete 33868
  | 0x1E => d.thenComplete 30000000
  | _ => d.fail [d.stat ||| cdStatError]

/-- The delayed completions of `process_pending`. -/
def complete (d : Drive) (scex : List Byte) (cmd : Byte) : Drive × Option (List Byte × CdIrq) :=
  match cmd.toNat with
  | 0x06 | 0x1B =>
      if d.reading then
        let (d, delivered) := d.nextSector
        (d, if delivered then some ([d.stat], .dataReady) else none)
      else (d, none)
  | 0x07 =>
      let d := { d with stat := d.stat ||| cdStatMotor }
      (d, some ([d.stat], .complete))
  | 0x08 =>
      let d := { d with
        stat := d.stat &&& ~~~(cdStatMotor ||| cdStatRead ||| cdStatPlay ||| cdStatSeek) }
      (d, some ([d.stat], .complete))
  | 0x09 =>
      let d := { d with stat := d.stat &&& ~~~cdStatRead }
      (d, some ([d.stat], .complete))
  | 0x0A => (d, some ([d.stat], .complete))
  | 0x15 | 0x16 =>
      let d := { d with stat := d.stat &&& ~~~cdStatSeek, seekFar := false }
      (d, some ([d.stat], .complete))
  | 0x1A =>
      if d.disc.isNone then (d, some ([d.stat ||| cdStatIdError, 0x80], .error))
      else (d, some ([d.stat, 0x00, 0x20, 0x00] ++ scex, .complete))
  | 0x1E => (d, some ([d.stat], .complete))
  | _ => (d, none)

end Drive

end RecompStudio.Runtime
