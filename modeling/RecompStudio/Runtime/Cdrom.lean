import RecompStudio.Runtime.CdDrive

/-!
The CD-ROM controller in front of the drive: its registers, the one interrupt it
shows at a time, the command that waits for an acknowledge, and the time that
passes. The trace keeps what `trace_cdrom` marks with I, F and C.
-/

namespace RecompStudio.Runtime

/-- What the controller has done: a new interrupt over the flag that stood
before, its presentation with the cycles it has waited, and a command. -/
inductive CdTrace where
  | irq (before : Byte) (type : CdIrq)
  | raise (generation age : Nat)
  | exec (cmd : Byte) (params : List Byte)
deriving DecidableEq, Repr

structure PendingCmd where
  cmd : Byte
  pending : Bool
  delay : Int
deriving DecidableEq, Repr

structure QueuedCmd where
  cmd : Byte
  params : List Byte
deriving DecidableEq, Repr

/-- The state. The age of an interrupt counts the cycles of the advances behind
the one it was set in. -/
structure Cdrom where
  index : Nat
  irqEnable : Byte
  irqFlag : Byte
  latched : Bool
  generation : Nat
  presentDelay : Int
  age : Nat
  params : List Byte
  response : List Byte
  responseRead : Nat
  drive : Drive
  scex : List Byte
  pending : PendingCmd
  queued : Option QueuedCmd
  trace : List CdTrace

def cdromIrqPresentDelay : Int := 5000
def cdFifoSize : Nat := 16

namespace Cdrom

/-- `response_clear` and the pushes behind it. -/
def respond (s : Cdrom) (bytes : List Byte) : Cdrom :=
  { s with response := bytes.take cdFifoSize, responseRead := 0 }

/-- `set_irq`. -/
def setIrq (s : Cdrom) (type : CdIrq) : Cdrom :=
  { s with
    irqFlag := type.code
    generation := s.generation + 1
    latched := false
    presentDelay := cdromIrqPresentDelay
    age := 0
    trace := s.trace ++ [.irq s.irqFlag type] }

def irqEnabled (s : Cdrom) : Bool := s.irqEnable.getLsbD (s.irqFlag.toNat - 1)

/-- `present_cdrom_irq`, which `fire_cdrom_irq` and `refresh_cdrom_irq_line` call. -/
@[grind =] def present (s : Cdrom) : Cdrom :=
  if 0 < s.presentDelay then s
  else if s.irqFlag ≠ 0 ∧ s.irqEnabled ∧ !s.latched then
    { s with latched := true, trace := s.trace ++ [.raise s.generation s.age] }
  else s

/-- A response with its interrupt. -/
def answer (s : Cdrom) (bytes : List Byte) (type : CdIrq) : Cdrom :=
  ((s.respond bytes).setIrq type).present

def setDrive (s : Cdrom) (drive : Drive) : Cdrom := { s with drive := drive }

/-- The completion that a command leaves behind. -/
def schedule (s : Cdrom) (cmd : Byte) : Option Int → Cdrom
  | some delay => { s with pending := ⟨cmd, true, delay⟩ }
  | none => s

def noteExec (s : Cdrom) (cmd : Byte) : Cdrom :=
  { s with params := [], trace := s.trace ++ [.exec cmd s.params] }

/-- `exec_command`. -/
def execCommand (s : Cdrom) (cmd : Byte) : Cdrom :=
  let outcome := s.drive.exec cmd s.params
  (((s.noteExec cmd).setDrive outcome.drive).schedule cmd outcome.completion).answer
    outcome.response outcome.irq

/-- `try_execute_queued_command`. -/
def tryExecuteQueued (s : Cdrom) : Cdrom :=
  match s.queued with
  | some q => if s.irqFlag ≠ 0 then s
      else ({ s with queued := none, params := q.params } : Cdrom).execCommand q.cmd
  | none => s

/-- `queue_or_exec_command`. -/
def queueOrExec (s : Cdrom) (cmd : Byte) : Cdrom :=
  if s.irqFlag = 0 then s.execCommand cmd
  else { s with queued := some ⟨cmd, s.params⟩, params := [] }

/-- `process_pending`. -/
def processPending (s : Cdrom) (cycles : Word) : Cdrom :=
  if !s.pending.pending || cycles = 0 || s.irqFlag ≠ 0 then s
  else if 0 < s.pending.delay - cycles.toInt then
    { s with pending := { s.pending with delay := s.pending.delay - cycles.toInt } }
  else
    let s := { s with pending := ⟨s.pending.cmd, false, s.pending.delay - cycles.toInt⟩ }
    let s := s.respond []
    match s.drive.complete s.scex s.pending.cmd with
    | (drive, some (bytes, type)) => (s.setDrive drive).answer bytes type
    | (drive, none) => s.setDrive drive

/-- The sector that is due in `process_read_stream`. -/
def sectorDue (s : Cdrom) (dmaActive : Bool) : Cdrom :=
  let (drive, delivered) := s.drive.nextSector
  if s.irqFlag = 0 then
    if delivered then (s.setDrive drive).answer [drive.stat] .dataReady else s.setDrive drive
  else if dmaActive ∨ !delivered then s.setDrive drive
  else s.setDrive { drive with pendingDataready := some drive.stat }

/-- The delay of the next sector, with the clamp of a large debt. -/
def nextSectorDelay (s : Cdrom) : Cdrom :=
  let delay := s.drive.readDelay + s.drive.sectorDelay
  s.setDrive { s.drive with readDelay := if delay ≤ 0 then s.drive.sectorDelay else delay }

/-- `process_read_stream`. -/
def processReadStream (s : Cdrom) (cycles : Word) (dmaActive : Bool) : Cdrom :=
  if !s.drive.reading then s
  else
    let s := s.setDrive { s.drive with readDelay := s.drive.readDelay - cycles.toInt }
    if s.drive.readDelay ≤ 0 then (s.sectorDue dmaActive).nextSectorDelay else s

/-- `present_pending_dataready`. -/
def presentPendingDataready (s : Cdrom) : Cdrom :=
  match s.drive.pendingDataready with
  | some stat => if s.irqFlag ≠ 0 then s
      else (s.setDrive { s.drive with pendingDataready := none }).answer [stat] .dataReady
  | none => s

/-- The bits of an acknowledge. -/
def clearFlag (s : Cdrom) (val : Byte) : Cdrom :=
  let flag := s.irqFlag &&& ~~~(val &&& 0x1F)
  { s with
    latched := if s.irqFlag &&& 0x1F ≠ 0 ∧ flag &&& 0x1F = 0 then false else s.latched
    irqFlag := flag
    params := if val.getLsbD 6 then [] else s.params }

/-- The acknowledge of the interrupt. -/
def acknowledge (s : Cdrom) (val : Byte) : Cdrom :=
  (s.clearFlag val).presentPendingDataready.tryExecuteQueued

/-- `cdrom_write` to one of the four registers. -/
def write (s : Cdrom) (reg : Fin 4) (val : Byte) : Cdrom :=
  match reg, s.index with
  | 0, _ => { s with index := (val &&& 0x03).toNat }
  | 1, 0 => s.queueOrExec val
  | 2, 0 => if s.params.length < cdFifoSize then { s with params := s.params ++ [val] } else s
  | 2, 1 => { s with irqEnable := val &&& 0x1F }
  | 3, 0 =>
      let d := { s.drive with request := val }
      s.setDrive (if val.getLsbD 7 then d else { d with sector.readPos := 0 })
  | 3, 1 => s.acknowledge val
  | _, _ => s

/-- `cdrom_read`, with the value read. -/
def read (s : Cdrom) (reg : Fin 4) : Cdrom × Byte :=
  match reg with
  | 0 =>
      let bit (i : Nat) (b : Bool) : Byte := if b then BitVec.twoPow 8 i else 0
      (s, BitVec.ofNat 8 s.index ||| bit 3 s.params.isEmpty ||| bit 4 (s.params.length < cdFifoSize)
        ||| bit 5 (s.responseRead < s.response.length) ||| bit 6 s.drive.dataFifoReady
        ||| bit 7 s.queued.isSome)
  | 1 =>
      if s.responseRead < s.response.length then
        ({ s with responseRead := s.responseRead + 1 }, s.response.getD s.responseRead 0)
      else (s, 0)
  | 2 =>
      if s.drive.dataFifoReady then
        (s.setDrive (s.drive.takeBytes 1), s.drive.sector.data s.drive.sector.readPos)
      else (s, 0)
  | 3 => (s, if s.index = 0 ∨ s.index = 2 then s.irqEnable else s.irqFlag ||| 0xE0)

/-- `cdrom_dma_read`, without the word. -/
def dmaRead (s : Cdrom) : Cdrom :=
  if s.drive.request.getLsbD 7 ∧ s.drive.sector.available ∧
      s.drive.sector.readPos + 4 ≤ s.drive.sector.size then
    s.setDrive (s.drive.takeBytes 4)
  else s

/-- The age of the interrupt. -/
@[grind =] def grow (s : Cdrom) (cycles : Word) : Cdrom :=
  { s with
    age := s.age + cycles.toNat
    presentDelay := if 0 < s.presentDelay then max 0 (s.presentDelay - cycles.toInt)
      else s.presentDelay }

/-- `cdrom_advance`, with what `dma_cdrom_transfer_active` answers. -/
def advance (s : Cdrom) (cycles : Word) (dmaActive : Bool) : Cdrom :=
  ((((s.grow cycles).present.tryExecuteQueued).processPending cycles).processReadStream cycles
    dmaActive).present

/-- The controller behind `cdrom_init`. -/
def initial (disc : Option Disc) (speed : DiscSpeed) (scex : List Byte) : Cdrom where
  index := 0
  irqEnable := 0x1F
  irqFlag := 0
  latched := false
  generation := 0
  presentDelay := 0
  age := 0
  params := []
  response := []
  responseRead := 0
  drive :=
    { disc := disc
      speed := speed
      stat := if disc.isSome then cdStatMotor else cdStatShell
      request := 0
      mode := 0
      seek := ⟨0, 0, 0⟩
      seekFar := false
      reading := false
      readAt := ⟨0, 0, 0⟩
      readCmd := 0
      readDelay := 0
      filterFile := 0
      filterChannel := 0
      muted := false
      xa := .reset
      sector := ⟨fun _ => 0, 0, 0, false⟩
      lastLba := -1
      lastHead := ⟨0, 0, 0, 0, 0⟩
      pendingDataready := none }
  scex := scex
  pending := ⟨0, false, 0⟩
  queued := none
  trace := []

end Cdrom

/-- What the guest, the DMA, the clock and the host do to the controller. -/
inductive CdEvent where
  | write (reg : Fin 4) (val : Byte)
  | read (reg : Fin 4)
  | dmaRead
  | advance (cycles : Word) (dmaActive : Bool)
  | setSpeed (speed : DiscSpeed)
deriving DecidableEq

@[grind =] def cdStep (s : Cdrom) : CdEvent → Cdrom
  | .write reg val => s.write reg val
  | .read reg => (s.read reg).1
  | .dmaRead => s.dmaRead
  | .advance cycles dmaActive => s.advance cycles dmaActive
  | .setSpeed speed => s.setDrive { s.drive with speed := speed }

end RecompStudio.Runtime
