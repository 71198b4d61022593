import RecompStudio.Mdec.Ranges

/-!
The registers and the two FIFOs of the decoder: commands word by word, control
writes, and the words that are read back.
-/

namespace RecompStudio.Mdec

open Checked

/-- `MDECState`. The lists are the filled parts of the two buffers. -/
structure MDECState where
  command : Word
  expectedHalfwords : Nat
  input : List Halfword
  inputCap : Nat
  output : List Byte
  outputPos : Nat
  outputCap : Nat
  yQuant : Quant
  uvQuant : Quant
  scale : Scale
  outputBit15 : Bool
  outputSigned : Bool
  outputDepth : BitVec 2
  currentBlock : Nat
  busy : Bool
  enableDmaIn : Bool
  enableDmaOut : Bool
  decodeInputPos : Nat

namespace MDECState

def settings (m : MDECState) : Settings :=
  ⟨⟨m.outputBit15, m.outputSigned, m.outputDepth⟩, m.yQuant, m.uvQuant, m.scale⟩

end MDECState

/-- `mdec_init`. -/
def init : MDECState where
  command := 0
  expectedHalfwords := 0
  input := []
  inputCap := 0
  output := []
  outputPos := 0
  outputCap := 0
  yQuant := fun _ => 1
  uvQuant := fun _ => 1
  scale := ⟨fun _ => 0, by decide⟩
  outputBit15 := false
  outputSigned := false
  outputDepth := 3
  currentBlock := 4
  busy := false
  enableDmaIn := false
  enableDmaOut := false
  decodeInputPos := 0

/-- A capacity doubled until it is enough. -/
@[grind =] def grow (cap need : Nat) : Nat :=
  if 0 < cap ∧ cap < need then grow (cap * 2) need else cap
termination_by need - cap

section Alloc

-- Whether `realloc` succeeds for a number of elements.
variable (alloc : Nat → Bool)

/-- The capacity that `ensure_*_capacity` leaves, and whether it is enough. -/
def ensureCapacity (initial cap need : Nat) : Bool × Nat :=
  if need ≤ cap then (true, cap)
  else
    let newCap := grow (if cap = 0 then initial else cap) need
    if alloc newCap then (true, newCap) else (false, cap)

/-- `append_byte`. A byte without room is dropped. -/
@[grind =] def appendByte (m : MDECState) (value : Byte) : MDECState :=
  let (enough, cap) := ensureCapacity alloc 4096 m.outputCap (m.output.length + 1)
  if enough then { m with output := m.output ++ [value], outputCap := cap } else m

def clearOutput (m : MDECState) : MDECState := { m with output := [], outputPos := 0 }

/-- `finish_command`. -/
def finishCommand (m : MDECState) : MDECState :=
  { m with expectedHalfwords := 0, input := [], busy := false }

/-- `input_byte`. -/
@[grind =] def inputByte (m : MDECState) (byteIndex : Nat) : Option Byte := do
  let hw ← m.input[byteIndex / 2]?
  some (if byteIndex % 2 = 1 then hw.extractLsb' 8 8 else hw.extractLsb' 0 8)

/-- `execute_decode`. -/
def executeDecode (m : MDECState) : Option MDECState := do
  let (bytes, pos) ← decode m.settings m.input
  some { bytes.foldl (appendByte alloc) (clearOutput m) with decodeInputPos := pos }

/-- The other index of an entry of the matrix, which is stored transposed. -/
def transposed (t : Nat) : Nat := t % 8 * 8 + t / 8 % 8

def Scale.ofHalfwords (h : Fin 64 → Halfword) : Scale where
  entry i := sar 3 (h i).toInt
  bounded i := by
    have hLow := BitVec.le_toInt (h i)
    have hHigh := BitVec.toInt_lt (x := h i)
    unfold sar
    omega

/-- The operation of a command word. -/
def opOf (command : Word) : Nat := (command.extractLsb' 29 3).toNat

/-- `execute_command`. -/
def executeCommand (m : MDECState) : Option MDECState := do
  match opOf m.command with
  | 2 => do
      let yQuant ← tabulate 64 (inputByte m)
      let uvQuant ← if m.command.getLsbD 0 then tabulate 64 fun i => inputByte m (64 + i)
        else some yQuant
      some (finishCommand { m with yQuant := yQuant, uvQuant := uvQuant })
  | 3 => do
      let entries ← tabulate 64 fun t => m.input[transposed t]?
      some (finishCommand { m with scale := Scale.ofHalfwords entries })
  | 1 => do
      let m ← executeDecode alloc m
      some (finishCommand m)
  | _ => some (finishCommand m)

/-- The halfwords of data that a command word asks for. -/
def expectedOf (value : Word) : Nat :=
  match opOf value with
  | 1 => (value.extractLsb' 0 16).toNat * 2
  | 2 => if value.getLsbD 0 then 64 else 32
  | 3 => 64
  | _ => 0

/-- The fields that a command word sets. -/
def openCommand (m : MDECState) (value : Word) : MDECState :=
  { m with
    command := value
    outputBit15 := value.getLsbD 25
    outputSigned := value.getLsbD 26
    outputDepth := value.extractLsb' 27 2
    currentBlock := 4
    input := []
    busy := true
    expectedHalfwords := expectedOf value }

/-- `begin_command`. -/
def beginCommand (m : MDECState) (value : Word) : MDECState :=
  let m := openCommand m value
  if m.expectedHalfwords = 0 then finishCommand m
  else
    let (enough, cap) := ensureCapacity alloc 256 m.inputCap m.expectedHalfwords
    if enough then { m with inputCap := cap } else finishCommand m

/-- A halfword into the input buffer, inside its capacity. -/
def pushInput (m : MDECState) (value : Halfword) : Option MDECState :=
  if m.input.length < m.inputCap then some { m with input := m.input ++ [value] } else none

/-- A word of data: the upper half only if the command still waits for one. -/
def pushWord (m : MDECState) (value : Word) : Option MDECState := do
  let m ← pushInput m (value.extractLsb' 0 16)
  if m.input.length < m.expectedHalfwords then pushInput m (value.extractLsb' 16 16) else some m

/-- `write_data`. -/
def writeData (m : MDECState) (value : Word) : Option MDECState :=
  if m.busy ∧ m.input.length < m.expectedHalfwords then do
    let m ← pushWord m value
    if m.expectedHalfwords ≤ m.input.length then executeCommand alloc m else some m
  else some (beginCommand alloc m value)

end Alloc

/-- `soft_reset`: the tables and the buffers stay. -/
def softReset (m : MDECState) : MDECState :=
  { init with
    inputCap := m.inputCap
    outputCap := m.outputCap
    yQuant := m.yQuant
    uvQuant := m.uvQuant
    scale := m.scale }

/-- `mdec_write` to the control register. -/
def writeControl (m : MDECState) (value : Word) : MDECState :=
  let m := if value.getLsbD 31 then softReset m else m
  { m with enableDmaIn := value.getLsbD 30, enableDmaOut := value.getLsbD 29 }

/-- `mdec_dma_write_ready`. -/
def writeReady (m : MDECState) : Bool :=
  decide (m.output.length ≤ m.outputPos) &&
    (!m.busy || decide (m.input.length < m.expectedHalfwords))

/-- `mdec_dma_read_ready`. -/
def readReady (m : MDECState) : Bool := decide (m.outputPos < m.output.length)

/-- Bytes as a word, the first one lowest. A byte that is missing is zero. -/
def wordOf (bytes : List Byte) : Word :=
  (bytes.getD 3 0) ++ (bytes.getD 2 0) ++ (bytes.getD 1 0) ++ (bytes.getD 0 0)

/-- `mdec_dma_read_word`, also the read of the data register. -/
@[grind =] def readWord (m : MDECState) : Word × MDECState :=
  let bytes := (m.output.drop m.outputPos).take 4
  let m := { m with outputPos := m.outputPos + bytes.length }
  (wordOf bytes, if m.output.length ≤ m.outputPos then clearOutput m else m)

/-- The words of data that the command under way still waits for. -/
def remainingWords (m : MDECState) : Nat :=
  if m.busy ∧ m.input.length < m.expectedHalfwords then
    (m.expectedHalfwords - m.input.length + 1) / 2
  else 0

def flagIf (b : Bool) (n : Nat) : Word := if b then 1#32 <<< n else 0

/-- Their number less one, or all ones. -/
def remainingField (m : MDECState) : Word :=
  if remainingWords m ≠ 0 then BitVec.ofNat 32 ((remainingWords m - 1) % 0x10000) else 0xFFFF

/-- The read of the status register. -/
def readStatus (m : MDECState) : Word :=
  remainingField m ||| (BitVec.ofNat 32 (m.currentBlock % 8) <<< 16) |||
    flagIf m.outputBit15 23 ||| flagIf m.outputSigned 24 |||
      (m.outputDepth.zeroExtend 32 <<< 25) |||
    flagIf (!writeReady m) 30 ||| flagIf (m.enableDmaOut && readReady m) 27 |||
    flagIf (m.enableDmaIn && writeReady m) 28 ||| flagIf m.busy 29 |||
    flagIf (decide (m.output.length ≤ m.outputPos)) 31

end RecompStudio.Mdec
