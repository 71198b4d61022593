import RecompStudio.Cpu.State
import RecompStudio.Library.Serial

/-!
The snapshot file: a header with the integrity key and fourteen sections, each
with its tag and length, that hold the whole machine. The boot snapshot and the
user's save states are written and loaded by the same two functions.
-/

namespace RecompStudio.BootState

open Serial

/-- A module whose snapshot is a list of its static variables. -/
structure SnapModule where
  Field : Type
  decEq : DecidableEq Field
  fields : List Field
  size : Field → Nat
  stateful : ∃ f ∈ fields, 0 < size f
  bounded : fieldsSize size fields ≤ 64 * 1024 * 1024

namespace SnapModule

variable (D : SnapModule)

instance : DecidableEq D.Field := D.decEq

/-- The values of the variables. -/
abbrev Vars : Type := ∀ f : D.Field, Bytes (D.size f)

def snapshotBytes : Nat := fieldsSize D.size D.fields

def snapshotWrite (s : D.Vars) : List Byte := writeFields D.size s D.fields

def snapshotRead (p : List Byte) (s : D.Vars) : Option D.Vars :=
  if p.length = D.snapshotBytes then some (readFields D.size p s D.fields) else none

end SnapModule

/-- The variables of `GPU_SNAP_FIELDS`. -/
inductive GpuField where
  | texpageX | texpageY | semiTransparency | texpageColors | ditherEnabled | drawToDisplay
  | textureDisable | textureWindowValue | setMaskBit | checkMaskBit | interlaceField | reverseFlag
  | drawAreaLeft | drawAreaTop | drawAreaRight | drawAreaBottom | drawOffsetX | drawOffsetY
  | hres1 | hres2 | vres | videoMode | displayDepth | verticalInterlace | displayDisabled
  | irq1Flag | dmaDirection | lcf | displayAreaX | displayAreaY
  | hDisplayX1 | hDisplayX2 | vDisplayY1 | vDisplayY2 | gpureadLatch | gp0State | gp0CmdBuf
  | gp0WordsCollected | gp0WordsNeeded | gp0NextSourceAddr | gp0CmdSourceAddr
  | polylineColor | polylinePrevX | polylinePrevY | polylinePrevC | polylineSemiTrans
  | polylineHasPrev | vramWriteX | vramWriteY | vramWriteW | vramWriteH | vramWriteCol
  | vramWriteRow | vramWriteRemaining | vramReadActive | vramReadX | vramReadY | vramReadW
  | vramReadH | vramReadCol | vramReadRow
deriving DecidableEq, Repr

def gpuSnapFields : List GpuField :=
  [.texpageX, .texpageY, .semiTransparency, .texpageColors, .ditherEnabled, .drawToDisplay,
    .textureDisable, .textureWindowValue, .setMaskBit, .checkMaskBit, .interlaceField,
    .reverseFlag, .drawAreaLeft, .drawAreaTop, .drawAreaRight, .drawAreaBottom, .drawOffsetX,
    .drawOffsetY, .hres1, .hres2, .vres, .videoMode, .displayDepth, .verticalInterlace,
    .displayDisabled, .irq1Flag, .dmaDirection, .lcf, .displayAreaX, .displayAreaY, .hDisplayX1,
    .hDisplayX2, .vDisplayY1, .vDisplayY2, .gpureadLatch, .gp0State, .gp0CmdBuf,
    .gp0WordsCollected, .gp0WordsNeeded, .gp0NextSourceAddr, .gp0CmdSourceAddr, .polylineColor,
    .polylinePrevX, .polylinePrevY, .polylinePrevC, .polylineSemiTrans, .polylineHasPrev,
    .vramWriteX, .vramWriteY, .vramWriteW, .vramWriteH, .vramWriteCol, .vramWriteRow,
    .vramWriteRemaining, .vramReadActive, .vramReadX, .vramReadY, .vramReadW, .vramReadH,
    .vramReadCol, .vramReadRow]

/-- The sizes of the variables: `uint16_t`, the buffer of 16 words, else 4 bytes. -/
@[grind =] def GpuField.size : GpuField → Nat
  | .gp0CmdBuf => 64
  | .polylineColor | .polylinePrevC => 2
  | .vramWriteX | .vramWriteY | .vramWriteW | .vramWriteH | .vramWriteCol | .vramWriteRow => 2
  | .vramReadX | .vramReadY | .vramReadW | .vramReadH | .vramReadCol | .vramReadRow => 2
  | _ => 4

def gpuModule : SnapModule where
  Field := GpuField
  decEq := inferInstance
  fields := gpuSnapFields
  size := GpuField.size
  stateful := ⟨.texpageX, by decide, by decide⟩
  bounded := by decide

/-- The variables of `SPU_SNAP_FIELDS`. -/
inductive SpuField where
  | spuRegs | voices | transferAddr | keyOnCount | endxLatch | konLatch | koffLatch
deriving DecidableEq, Repr

/-- 256 registers of 2 bytes, 24 voices of 92, else 4 bytes. -/
@[grind =] def SpuField.size : SpuField → Nat
  | .spuRegs => 512
  | .voices => 2208
  | _ => 4

def spuSnapFields : List SpuField :=
  [.spuRegs, .voices, .transferAddr, .keyOnCount, .endxLatch, .konLatch, .koffLatch]

def spuModule : SnapModule where
  Field := SpuField
  decEq := inferInstance
  fields := spuSnapFields
  size := SpuField.size
  stateful := ⟨.spuRegs, by decide, by decide⟩
  bounded := by decide

/-- The other devices, each with its own variables. -/
structure Devices where
  cdrom : SnapModule
  dma : SnapModule
  sio : SnapModule

structure CpuRegs where
  gpr : RegIndex → Word
  pc : Word
  hi : Word
  lo : Word
  cop0 : RegIndex → Word
  gteData : RegIndex → Word
  gteCtrl : RegIndex → Word

structure TimerRegs where
  counter : Fin 3 → BitVec 16
  mode : Fin 3 → Word
  target : Fin 3 → BitVec 16
  irqLine : Fin 3 → Word
  frac : Fin 3 → Word

def ramSize : Nat := 2 * 1024 * 1024

def spadSize : Nat := 1024

def vramSize : Nat := 1024 * 512 * 2

def spuRamSize : Nat := 512 * 1024

/-- The words of the bitmap of dirty pages. -/
def dirtyWords : Nat := 16

structure Machine (D : Devices) where
  cpu : CpuRegs
  ram : Bytes ramSize
  scratchpad : Bytes spadSize
  iStat : Word
  iMask : Word
  timers : TimerRegs
  cycleCount : BitVec 64
  gpu : gpuModule.Vars
  vram : Bytes vramSize
  spu : spuModule.Vars
  spuRam : Bytes spuRamSize
  cdrom : D.cdrom.Vars
  dma : D.dma.Vars
  sio : D.sio.Vars
  dirty : Fin dirtyWords → Word

/-- The words of a register file. -/
@[grind =]
def regWords (regs : RegIndex → Word) : List Word := List.ofFn fun i : Fin 32 => regs (.ofFin i)

@[grind =] def CpuRegs.words (c : CpuRegs) : List Word :=
  regWords c.gpr ++ ([c.pc, c.hi, c.lo] ++ (regWords c.cop0 ++ (regWords c.gteData ++
    regWords c.gteCtrl)))

/-- `CpuRegs` in memory. -/
def CpuRegs.bytes (c : CpuRegs) : List Byte := arrayBytes 4 c.words

/-- `TimerRegs` in memory, with two bytes behind each array of half-words that
nothing sets. -/
def TimerRegs.bytes (t : TimerRegs) (unset₁ unset₂ : Bytes 2) : List Byte :=
  arrayBytes 2 (List.ofFn t.counter) ++ (unset₁.val ++ (arrayBytes 4 (List.ofFn t.mode) ++
    (arrayBytes 2 (List.ofFn t.target) ++ (unset₂.val ++ (arrayBytes 4 (List.ofFn t.irqLine) ++
      arrayBytes 4 (List.ofFn t.frac))))))

def TimerRegs.ofBytes (p : List Byte) : TimerRegs where
  counter i := arrayGet 2 p i
  mode i := arrayGet 4 (p.drop 8) i
  target i := arrayGet 2 (p.drop 20) i
  irqLine i := arrayGet 4 (p.drop 28) i
  frac i := arrayGet 4 (p.drop 40) i

/-- The tags of the sections. -/
inductive Tag where
  | cpu | ram | spad | irq | timer | clock | gpu | vram | spu | spuram | cdrom | dma | sio | dirty
deriving DecidableEq, Repr

def Tag.code : Tag → Nat
  | .cpu => 0x01 | .ram => 0x02 | .spad => 0x03 | .irq => 0x04 | .timer => 0x05 | .clock => 0x06
  | .gpu => 0x07 | .vram => 0x08 | .spu => 0x09 | .spuram => 0x0A | .cdrom => 0x0B | .dma => 0x0C
  | .sio => 0x0D | .dirty => 0x0E

/-- The tags, in the order that the sections are written in. -/
def Tag.all : List Tag :=
  [.cpu, .ram, .spad, .irq, .timer, .clock, .gpu, .vram, .spu, .spuram, .cdrom, .dma, .sio, .dirty]

/-- The tag with a code. -/
def Tag.ofCode (code : Nat) : Option Tag := Tag.all.find? fun t => t.code == code

/-- What the running build puts into the integrity key. -/
structure Build where
  codegenHash : Word
  abiTag : Word
  codegenVer : Word
deriving DecidableEq, Repr

/-- What a snapshot is saved and loaded for. -/
structure Key where
  biosChecksum : Word
  entryPc : Word
  build : Build
deriving DecidableEq, Repr

structure Section where
  tag : Nat
  payload : List Byte

/-- A section in the file. -/
def Section.bytes (s : Section) : List Byte :=
  leBytes 4 s.tag ++ leBytes 4 0 ++ leBytes 8 s.payload.length ++ s.payload

/-- The key fields of the header in their order: magic, version, BIOS checksum,
entry, codegen hash, ABI tag and codegen version. -/
def headerKey (key : Key) : List Word :=
  [0x50535842#32, 2#32, key.biosChecksum, key.entryPc, key.build.codegenHash, key.build.abiTag,
    key.build.codegenVer]

def headerBytes (key : Key) (sectionCount : Word) : List Byte :=
  arrayBytes 4 (headerKey key ++ [sectionCount, 0#32])

variable {D : Devices}

/-- What the section with a tag holds. The bytes that `TimerRegs` leaves unset come
from outside. -/
def sectionPayload (unset₁ unset₂ : Bytes 2) (m : Machine D) : Tag → List Byte
  | .cpu => m.cpu.bytes
  | .ram => m.ram.val
  | .spad => m.scratchpad.val
  | .irq => arrayBytes 4 [m.iStat, m.iMask]
  | .timer => m.timers.bytes unset₁ unset₂
  | .clock => bitsBytes 8 m.cycleCount
  | .gpu => gpuModule.snapshotWrite m.gpu
  | .vram => m.vram.val
  | .spu => spuModule.snapshotWrite m.spu
  | .spuram => m.spuRam.val
  | .cdrom => D.cdrom.snapshotWrite m.cdrom
  | .dma => D.dma.snapshotWrite m.dma
  | .sio => D.sio.snapshotWrite m.sio
  | .dirty => arrayBytes 4 (List.ofFn m.dirty)

/-- `boot_state_save`: the bytes of the file. -/
def bootStateSave (key : Key) (unset₁ unset₂ : Bytes 2) (m : Machine D) : List Byte :=
  headerBytes key 14#32 ++
    Tag.all.flatMap fun t => Section.bytes ⟨t.code, sectionPayload unset₁ unset₂ m t⟩

/-- `dirty_ram_set_bitmap_words`. -/
def setBitmapWords (p : List Byte) (dirty : Fin dirtyWords → Word) : Fin dirtyWords → Word :=
  fun i => if i.val < p.length / 4 then arrayGet 4 p i else dirty i

/-- `apply_section` for a known tag. -/
@[grind =] def applyTag (entryPc : Word) (p : List Byte) (m : Machine D) : Tag → Option (Machine D)
  | .cpu =>
      if p.length = 524 then
        some { m with
          cpu :=
            { gpr := fun r => arrayGet 4 p r.toNat
              pc := entryPc
              hi := arrayGet 4 p 33
              lo := arrayGet 4 p 34
              cop0 := fun r => arrayGet 4 p (35 + r.toNat)
              gteData := fun r => arrayGet 4 p (67 + r.toNat)
              gteCtrl := fun r => arrayGet 4 p (99 + r.toNat) } }
      else none
  | .ram => if p.length = ramSize then some { m with ram := .ofList _ p } else none
  | .spad => if p.length = spadSize then some { m with scratchpad := .ofList _ p } else none
  | .irq =>
      if p.length = 8 then some { m with iStat := arrayGet 4 p 0, iMask := arrayGet 4 p 1 }
      else none
  | .timer => if p.length = 52 then some { m with timers := .ofBytes p } else none
  | .clock => if p.length = 8 then some { m with cycleCount := bitsOf 8 p } else none
  | .gpu => (gpuModule.snapshotRead p m.gpu).map fun s => { m with gpu := s }
  | .vram => if p.length = vramSize then some { m with vram := .ofList _ p } else none
  | .spu => (spuModule.snapshotRead p m.spu).map fun s => { m with spu := s }
  | .spuram => if p.length = spuRamSize then some { m with spuRam := .ofList _ p } else none
  | .cdrom => (D.cdrom.snapshotRead p m.cdrom).map fun s => { m with cdrom := s }
  | .dma => (D.dma.snapshotRead p m.dma).map fun s => { m with dma := s }
  | .sio => (D.sio.snapshotRead p m.sio).map fun s => { m with sio := s }
  | .dirty =>
      if p.length % 4 ≠ 0 then none else some { m with dirty := setBitmapWords p m.dirty }

/-- `apply_section`. -/
@[grind =] def applySection (entryPc : Word) (s : Section) (m : Machine D) : Option (Machine D) :=
  match Tag.ofCode s.tag with
  | none => none
  | some t => applyTag entryPc s.payload m t

/-- The record at the start of the file's rest. -/
def readSection (file : List Byte) : Option (Section × List Byte) :=
  if file.length < 16 then none
  else
    let len := leValue ((file.drop 8).take 8)
    if len > 64 * 1024 * 1024 then none
    else if (file.drop 16).length < len then none
    else some (⟨leValue (file.take 4), (file.drop 16).take len⟩, (file.drop 16).drop len)

/-- The loop of `boot_state_load`: whether it went through, the machine, and the
mask of the tags seen. -/
def loadSections (entryPc : Word) : Nat → List Byte → Machine D → Nat → Bool × Machine D × Nat
  | 0, _, m, seen => (true, m, seen)
  | n + 1, file, m, seen =>
      match readSection file with
      | none => (false, m, seen)
      | some (s, rest) =>
          match applySection entryPc s m with
          | none => (false, m, seen)
          | some m' =>
              loadSections entryPc n rest m' (if s.tag < 32 then seen ||| 2 ^ s.tag else seen)

/-- The tags that have to be seen. -/
def required : Nat := 0x7FFE

/-- The header of a file is there and has the key. -/
def headerAccepted (key : Key) (file : List Byte) : Bool :=
  decide (36 ≤ file.length) &&
    (List.range 7).all fun i => arrayGet 4 file i == (headerKey key).getD i 0

/-- `boot_state_load`. -/
def bootStateLoad (key : Key) (file : Option (List Byte)) (m : Machine D) : Bool × Machine D :=
  match file with
  | none => (false, m)
  | some file =>
      if headerAccepted key file then
        let (ok, m', seen) :=
          loadSections key.entryPc (arrayGet 4 file 7).toNat (file.drop 36) m 0
        (ok && (seen &&& required == required), m')
      else (false, m)

/-- A machine with nothing in it. -/
@[irreducible] def Machine.zero (D : Devices) : Machine D where
  cpu := ⟨fun _ => 0, 0, 0, 0, fun _ => 0, fun _ => 0, fun _ => 0⟩
  ram := .ofList _ []
  scratchpad := .ofList _ []
  iStat := 0
  iMask := 0
  timers := ⟨fun _ => 0, fun _ => 0, fun _ => 0, fun _ => 0, fun _ => 0⟩
  cycleCount := 0
  gpu _ := .ofList _ []
  vram := .ofList _ []
  spu _ := .ofList _ []
  spuRam := .ofList _ []
  cdrom _ := .ofList _ []
  dma _ := .ofList _ []
  sio _ := .ofList _ []
  dirty _ := 0

/-- A device with one byte. -/
def byteModule : SnapModule where
  Field := Unit
  decEq := inferInstance
  fields := [()]
  size _ := 1
  stateful := ⟨(), by decide, by decide⟩
  bounded := by decide

def byteDevices : Devices := ⟨byteModule, byteModule, byteModule⟩

def gameKey : Key := ⟨0, 0x80010000#32, ⟨0, 0, 0⟩⟩

end RecompStudio.BootState
