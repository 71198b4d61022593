import RecompStudio.Library.Checked
import Mathlib.Data.BitVec
import Mathlib.Logic.Function.Basic

/-!
The sound processor: its registers and RAM, the envelope and the decoder of each
voice, and the accesses that reach them. Records for debugging are left out.
-/

namespace RecompStudio.Spu

abbrev Byte := BitVec 8

/-- The registers by their number, that of the low halfword of the address. -/
abbrev Regs := Nat → BitVec 16

abbrev Ram := Nat → Byte

def ramSize : Nat := 512 * 1024

def voiceCount : Nat := 24

def blockSamples : Nat := 28

inductive AdsrPhase where
  | attack
  | decay
  | sustain
  | release
deriving DecidableEq, Repr

structure Voice where
  active : Bool
  curAddr : BitVec 32
  repeatAddr : BitVec 32
  samples : List Int
  sampleIdx : Nat
  phase : Nat
  hist1 : Int
  hist2 : Int
  flags : Byte
  envLevel : BitVec 16
  adsrDivider : BitVec 32
  adsrPhase : AdsrPhase

/-- A voice as `memset` leaves it. -/
@[grind =] def Voice.zero : Voice := ⟨false, 0, 0, [], 0, 0, 0, 0, 0, 0, 0, .attack⟩

/-- The increment for a rate, before the curve is looked at: a shift of the complemented
or plain value, in 32 bits. -/
def rateIncrement (speed : Nat) (invIncrement : Bool) : Int :=
  let base : Int := 7 - (speed % 4 : Nat)
  let increment := if invIncrement then -base - 1 else base
  if speed < 0x2C then (BitVec.ofInt 32 increment <<< ((0x2F - speed) / 4)).toInt else increment

def rateDivinco (speed : Nat) : Nat :=
  if 0x30 ≤ speed then 32768 >>> ((speed - 0x2C) / 4) else 32768

/-- The increment of the level and that of the divider. -/
@[grind =]
def calcVcDelta (zs speed : Nat) (logMode decMode invIncrement : Bool) (current : BitVec 16) :
    Int × Nat :=
  let increment := rateIncrement speed invIncrement
  let divinco := rateDivinco speed
  let curved :=
    if logMode then
      if decMode then ((current.toInt * increment) >>> (15 : Nat), divinco)
      else if 0x6000 ≤ (current &&& 0x7FFF).toNat then
        if speed < 0x28 then (increment >>> (2 : Nat), divinco)
        else if 0x2C ≤ speed then (increment, divinco >>> 2)
        else (increment >>> (1 : Nat), divinco >>> 1)
      else (increment, divinco)
    else (increment, divinco)
  (curved.1, if curved.2 = 0 ∧ speed < zs then 1 else curved.2)

/-- The envelope registers of a voice, as one word. -/
def adsrWord (regs : Regs) (idx : Nat) : BitVec 32 := regs (idx * 8 + 5) ++ regs (idx * 8 + 4)

/-- `(raw >> pos)` masked to so many bits. -/
def field (raw : BitVec 32) (pos width : Nat) : Nat := raw.toNat / 2 ^ pos % 2 ^ width

/-- The increments of a phase, and the level that an over- or underflow is reset to. -/
def phaseDelta (raw : BitVec 32) (level : BitVec 16) : AdsrPhase → (Int × Nat) × BitVec 16
  | .attack => (calcVcDelta 0x7F (field raw 8 7) (field raw 15 1 = 1) false false level, 0x7FFF)
  | .decay => (calcVcDelta (0x1F * 4) (field raw 4 4 * 4) true true true level, 0)
  | .sustain =>
      let dec : Bool := field raw 30 1 = 1
      (calcVcDelta 0x7F (field raw 22 7) (field raw 31 1 = 1) dec dec level,
        if dec then 0 else 0x7FFF)
  | .release =>
      (calcVcDelta (0x1F * 4) (field raw 16 5 * 4) (field raw 21 1 = 1) true true level, 0)

/-- The level a step of the divider leads to: an over- or underflow shows in bit 15. -/
def steppedLevel (phase : AdsrPhase) (prev : BitVec 16) (increment : Int) (reset : BitVec 16) :
    BitVec 16 :=
  let next := BitVec.ofInt 16 (prev.toNat + increment)
  if phase = .attack then if (prev ^^^ next) &&& next &&& 0x8000 ≠ 0 then reset else next
  else if next &&& 0x8000 ≠ 0 then reset else next

/-- One sample of the envelope. -/
def adsrRun (regs : Regs) (idx : Nat) (v : Voice) : Voice :=
  let raw := adsrWord regs idx
  let sustainLvl := (field raw 0 4 + 1) * 2 ^ 11
  let phase := if v.adsrPhase = .attack ∧ v.envLevel = 0x7FFF then .decay else v.adsrPhase
  let delta := phaseDelta raw v.envLevel phase
  let divider := v.adsrDivider + BitVec.ofNat 32 delta.1.2
  if divider &&& 0x8000 ≠ 0 then
    let level := steppedLevel phase v.envLevel delta.1.1 delta.2
    { v with
      adsrDivider := 0
      envLevel := level
      adsrPhase := if phase = .decay ∧ level.toNat < sustainLvl then .sustain else phase }
  else { v with adsrDivider := divider, adsrPhase := phase }

def clamp16 (v : Int) : Int := if 32767 < v then 32767 else if v < -32768 then -32768 else v

/-- The weights of the last two samples. -/
def filterWeights (filter : Nat) : Int × Int :=
  [(0, 0), (60, 0), (115, -52), (98, -55), (122, -60)].getD filter (0, 0)

/-- Samples decoded one after the other, each from a nibble and the last two samples. -/
def decodeNibbles (shift filter : Nat) : List Nat → Int × Int → List Int × (Int × Int)
  | [], hist => ([], hist)
  | n :: ns, hist =>
      let sample4 : Int := if n < 8 then n else n - 16
      let w := filterWeights filter
      let s := clamp16 ((sample4 * 2 ^ 12) >>> shift +
        (hist.1 * w.1 + hist.2 * w.2 + 32) >>> (6 : Nat))
      let rest := decodeNibbles shift filter ns (s, hist.1)
      (s :: rest.1, rest.2)

/-- The address that is decoded: a block that would cross the end of RAM is read from its
start. -/
def blockAddr (v : Voice) : Nat :=
  let addr := v.curAddr.toNat % ramSize
  if ramSize < addr + 16 then 0 else addr

/-- The nibbles behind a block's two header bytes, the low one of each byte first. -/
def blockNibbles (ram : Ram) (addr : Nat) : List Nat :=
  (List.range 14).flatMap fun b =>
    [(ram (addr + 2 + b)).toNat % 16, (ram (addr + 2 + b)).toNat / 16]

/-- The voice with the block at its address decoded. -/
def decodedVoice (ram : Ram) (v : Voice) : Voice :=
  let addr := blockAddr v
  let header := (ram addr).toNat
  let flags := ram (addr + 1)
  let filter := if 4 < header / 16 then 0 else header / 16
  let shift := if 12 < header % 16 then 12 else header % 16
  let decoded := decodeNibbles shift filter (blockNibbles ram addr) (v.hist1, v.hist2)
  { v with
    samples := decoded.1
    hist1 := decoded.2.1
    hist2 := decoded.2.2
    repeatAddr := if flags &&& 4 ≠ 0 then BitVec.ofNat 32 addr else v.repeatAddr
    flags := flags
    sampleIdx := 0
    curAddr := BitVec.ofNat 32 ((addr + 16) % ramSize) }

/-- The decoder behind an end block jumps to the repeat address. Without the repeat flag
the envelope is forced to zero and released. -/
def jumpedVoice (v : Voice) : Voice :=
  if v.flags &&& 1 = 0 then v
  else
    let v := { v with curAddr := BitVec.ofNat 32 (v.repeatAddr.toNat % ramSize) }
    if v.flags &&& 2 ≠ 0 then v
    else { v with adsrPhase := .release, adsrDivider := 0, envLevel := 0 }

/-- The loop over the phase, with so many samples left in the block: it is left at the
block's end even when more of the phase could be consumed. -/
def consumePhase : Nat → Nat → Nat → Nat × Nat
  | 0, sampleIdx, phase => (sampleIdx, phase)
  | left + 1, sampleIdx, phase =>
      if 0x1000 ≤ phase then consumePhase left (sampleIdx + 1) (phase - 0x1000)
      else (sampleIdx, phase)

/-- Frames of the CD input, by their place in the ring. -/
abbrev CdRing := Nat → Int × Int

def cdRingFrames : Nat := 44100 * 8

structure SpuState where
  ram : Ram
  regs : Regs
  voices : Nat → Voice
  endx : BitVec 32
  transferAddr : Nat
  cdRing : CdRing
  cdReadPos : Nat
  cdWritePos : Nat
  cdFrameCount : Nat
  cdPushFrames : BitVec 64
  cdOverflowFrames : BitVec 64
  cdUnderflowFrames : BitVec 64

namespace SpuState

@[grind =] def setVoice (s : SpuState) (idx : Nat) (v : Voice) : SpuState :=
  { s with voices := Function.update s.voices idx v }

def voiceReg (s : SpuState) (voice reg : Nat) : BitVec 16 := s.regs (voice * 8 + reg)

def decodeBlock (s : SpuState) (idx : Nat) : SpuState :=
  let v := s.voices idx
  let addr := blockAddr v
  let flags := s.ram (addr + 1)
  { s.setVoice idx (decodedVoice s.ram v) with
    regs := if flags &&& 4 ≠ 0 then
        Function.update s.regs (idx * 8 + 7) (BitVec.ofNat 16 (addr / 8))
      else s.regs
    endx := if flags &&& 1 ≠ 0 then s.endx ||| 1 <<< idx else s.endx }

/-- `(raw * level) >> 15`, clamped. -/
def shape (raw : Int) (level : BitVec 16) : Int := clamp16 ((raw * level.toNat) >>> (15 : Nat))

/-- The next sample of a voice. -/
def voiceNextSample (s : SpuState) (idx : Nat) : Int × SpuState :=
  if (s.voices idx).active = false then (0, s)
  else
    let ready := if blockSamples ≤ (s.voices idx).sampleIdx then
        (s.setVoice idx (jumpedVoice (s.voices idx))).decodeBlock idx
      else s
    let v := ready.voices idx
    let shaped := shape (v.samples.getD v.sampleIdx 0) v.envLevel
    let stepped := adsrRun ready.regs idx v
    let active := !(stepped.adsrPhase = .release ∧ stepped.envLevel = 0 : Bool)
    let pitch := (ready.voiceReg idx 2).toNat % 0x4000
    let pitch := if pitch = 0 then 0x1000 else pitch
    let position := consumePhase (blockSamples - stepped.sampleIdx) stepped.sampleIdx
      ((stepped.phase + pitch) % 2 ^ 32)
    (shaped, ready.setVoice idx { stepped with
      active := active
      sampleIdx := position.1
      phase := position.2 })

/-- A voice that is keyed on. -/
def keyedVoice (s : SpuState) (idx : Nat) : Voice :=
  { Voice.zero with
    active := true
    curAddr := BitVec.ofNat 32 ((s.voiceReg idx 3).toNat * 8 % ramSize)
    repeatAddr := BitVec.ofNat 32 ((s.voiceReg idx 7).toNat * 8 % ramSize)
    sampleIdx := blockSamples }

/-- The voices of a mask, each for itself. -/
def keyOn (s : SpuState) (mask : BitVec 32) : SpuState :=
  { s with
    voices := fun idx =>
      if idx < voiceCount ∧ mask.getLsbD idx then s.keyedVoice idx else s.voices idx
    endx := s.endx &&& ~~~(mask &&& 0xFFFFFF) }

/-- Voices that are not active stay as they are. -/
def keyOff (s : SpuState) (mask : BitVec 32) : SpuState :=
  { s with
    voices := fun idx =>
      if idx < voiceCount ∧ mask.getLsbD idx ∧ (s.voices idx).active then
        { s.voices idx with adsrPhase := .release, adsrDivider := 0 }
      else s.voices idx }

def regIndex (addr : BitVec 32) : Nat := (addr - 0x1F801C00).toNat / 2

def storeByte (s : SpuState) (a : Nat) (b : Byte) : SpuState :=
  { s with ram := Function.update s.ram a b }

def byteOf (value : BitVec 32) (i : Nat) : Byte := value.extractLsb' (8 * i) 8

/-- A halfword for the transfer port. -/
def transferHalf (s : SpuState) (value : BitVec 32) : SpuState :=
  let s' := if s.transferAddr + 1 < ramSize then
      (s.storeByte s.transferAddr (byteOf value 0)).storeByte (s.transferAddr + 1) (byteOf value 1)
    else s
  { s' with transferAddr := (s.transferAddr + 2) % ramSize }

def setRepeat (s : SpuState) (idx : Nat) (value : BitVec 16) : SpuState :=
  s.setVoice idx { s.voices idx with
    repeatAddr := BitVec.ofNat 32 (value.toNat * 8 % ramSize) }

def write (s : SpuState) (addr value : BitVec 32) : SpuState :=
  if 0x1F801C00 ≤ addr ∧ addr ≤ 0x1F801DFF then
    let idx := regIndex addr
    let half := value.setWidth 16
    let s := { s with regs := Function.update s.regs idx half }
    let s := if idx < voiceCount * 8 ∧ idx % 8 = 7 then s.setRepeat (idx / 8) half else s
    let s := if addr = 0x1F801D88 then s.keyOn (half.setWidth 32) else s
    let s := if addr = 0x1F801D8A then s.keyOn (half.setWidth 32 <<< 16) else s
    let s := if addr = 0x1F801D8C then s.keyOff (half.setWidth 32) else s
    let s := if addr = 0x1F801D8E then s.keyOff (half.setWidth 32 <<< 16) else s
    let s := if addr = 0x1F801DA6 then
        { s with transferAddr := if half.toNat * 8 < ramSize then half.toNat * 8 else 0 }
      else s
    if addr = 0x1F801DA8 then s.transferHalf value else s
  else s

def dmaWrite (s : SpuState) (word : BitVec 32) : SpuState :=
  let s' := if s.transferAddr + 3 < ramSize then
      (((s.storeByte s.transferAddr (byteOf word 0)).storeByte (s.transferAddr + 1)
        (byteOf word 1)).storeByte (s.transferAddr + 2) (byteOf word 2)).storeByte
        (s.transferAddr + 3) (byteOf word 3)
    else s
  { s' with transferAddr := (s.transferAddr + 4) % ramSize }

def cdAudioReset (s : SpuState) : SpuState :=
  { s with
    cdRing := fun _ => (0, 0)
    cdReadPos := 0
    cdWritePos := 0
    cdFrameCount := 0
    cdPushFrames := 0
    cdOverflowFrames := 0
    cdUnderflowFrames := 0 }

/-- The frames written to the ring one after the other. -/
def storeFrames (s : SpuState) : List (Int × Int) → SpuState
  | [] => s
  | f :: fs =>
      storeFrames
        { s with
          cdRing := Function.update s.cdRing s.cdWritePos f
          cdWritePos := (s.cdWritePos + 1) % cdRingFrames } fs

/-- A push longer than the ring only keeps its end. -/
def skipFrames (s : SpuState) (frames : Nat) : SpuState :=
  if cdRingFrames < frames then
    { s with cdOverflowFrames := s.cdOverflowFrames + BitVec.ofNat 64 (frames - cdRingFrames) }
  else s

/-- The oldest frames make room. -/
def dropFrames (s : SpuState) (inFrames : Nat) : SpuState :=
  if cdRingFrames < s.cdFrameCount + inFrames then
    let drop := s.cdFrameCount + inFrames - cdRingFrames
    { s with
      cdReadPos := (s.cdReadPos + drop) % cdRingFrames
      cdFrameCount := s.cdFrameCount - drop
      cdOverflowFrames := s.cdOverflowFrames + BitVec.ofNat 64 drop }
  else s

def countFrames (s : SpuState) (inFrames : Nat) : SpuState :=
  { s with
    cdFrameCount := s.cdFrameCount + inFrames
    cdPushFrames := s.cdPushFrames + BitVec.ofNat 64 inFrames }

/-- `none` stands for a null pointer; a buffer may be longer than the frames of the call. -/
def cdAudioPush (s : SpuState) (stereo : Option (List (Int × Int))) (frames : Int) : SpuState :=
  match stereo with
  | none => s
  | some stereo =>
      if frames ≤ 0 then s
      else
        let skip := frames.toNat - cdRingFrames
        let input := (stereo.take frames.toNat).drop skip
        let inFrames := frames.toNat - skip
        ((((s.skipFrames frames.toNat).dropFrames inFrames).storeFrames input).countFrames inFrames)

def cdAudioPop (s : SpuState) : Option (Int × Int) × SpuState :=
  if s.cdFrameCount = 0 then (none, s)
  else
    (some (s.cdRing s.cdReadPos),
      { s with
        cdReadPos := (s.cdReadPos + 1) % cdRingFrames
        cdFrameCount := s.cdFrameCount - 1 })

def directVolume (raw : BitVec 16) : Int :=
  let magnitude : Int := (raw.toNat % 0x8000 : Nat)
  let v := if 0x8000 ≤ raw.toNat then magnitude
    else if 0x4000 ≤ magnitude then magnitude - 0x8000 else magnitude
  let v := if 0x3FFF < v then 0x3FFF else v
  if v < -0x4000 then -0x4000 else v

def cdInputVolume (raw : BitVec 16) : Int := raw.toInt

/-- `mix += (sample * vol) >> shift` in `int32_t`. -/
def addTerm (mix sample vol : Int) (shift : Nat) : Option Int := do
  let product ← Checked.int32 (sample * vol)
  Checked.int32 (mix + product >>> shift)

/-- The voices of a frame. -/
def mixVoices : List Nat → SpuState × Int × Int → Option (SpuState × Int × Int)
  | [], state => some state
  | idx :: rest, (s, mixL, mixR) => do
      let (sample, s) := s.voiceNextSample idx
      if sample = 0 then mixVoices rest (s, mixL, mixR)
      else
        let mixL ← addTerm mixL sample (directVolume (s.voiceReg idx 0)) 14
        let mixR ← addTerm mixR sample (directVolume (s.voiceReg idx 1)) 14
        mixVoices rest (s, mixL, mixR)

/-- The registers that a call of `spu_render` reads at its start. -/
structure RenderRegs where
  ctrl : BitVec 16
  mainL : Int
  mainR : Int
  cdVolL : Int
  cdVolR : Int

def renderRegs (s : SpuState) : RenderRegs :=
  ⟨s.regs (regIndex 0x1F801DAA), directVolume (s.regs (regIndex 0x1F801D80)),
    directVolume (s.regs (regIndex 0x1F801D82)), cdInputVolume (s.regs (regIndex 0x1F801DB0)),
    cdInputVolume (s.regs (regIndex 0x1F801DB2))⟩

def RenderRegs.enabled (r : RenderRegs) : Bool := r.ctrl &&& 0x8000 ≠ 0

def RenderRegs.cdEnabled (r : RenderRegs) : Bool := r.ctrl &&& 1 ≠ 0

/-- The CD input added to the mix. -/
def mixCd (r : RenderRegs) (state : SpuState × Int × Int) : Option (SpuState × Int × Int) :=
  let (s, mixL, mixR) := state
  if r.cdEnabled then
    match s.cdAudioPop with
    | (some (cdL, cdR), s) => do
        let mixL ← addTerm mixL cdL r.cdVolL 15
        let mixR ← addTerm mixR cdR r.cdVolR 15
        some (s, mixL, mixR)
    | (none, s) =>
        some (if s.cdPushFrames ≠ 0 then { s with cdUnderflowFrames := s.cdUnderflowFrames + 1 }
          else s, mixL, mixR)
  else some (s, mixL, mixR)

/-- One frame, if no product or sum leaves `int32_t`. -/
@[grind =] def renderFrame (r : RenderRegs) (s : SpuState) : Option ((Int × Int) × SpuState) :=
  if r.enabled then do
    let (s, mixL, mixR) ← (mixVoices (List.range voiceCount) (s, 0, 0)).bind (mixCd r)
    let productL ← Checked.int32 (mixL * r.mainL)
    let productR ← Checked.int32 (mixR * r.mainR)
    some ((clamp16 (productL >>> (14 : Nat)), clamp16 (productR >>> (14 : Nat))), s)
  else some ((0, 0), s)

def renderFrames (r : RenderRegs) : Nat → SpuState → Option (List (Int × Int) × SpuState)
  | 0, s => some ([], s)
  | n + 1, s => do
      let (frame, s) ← renderFrame r s
      let (frames, s) ← renderFrames r n s
      some (frame :: frames, s)

def render (s : SpuState) (frames : Int) : Option (List (Int × Int) × SpuState) :=
  renderFrames s.renderRegs frames.toNat s

def init : SpuState :=
  cdAudioReset
    { ram := fun _ => 0
      regs := fun _ => 0
      voices := fun _ => Voice.zero
      endx := 0
      transferAddr := 0
      cdRing := fun _ => (0, 0)
      cdReadPos := 0
      cdWritePos := 0
      cdFrameCount := 0
      cdPushFrames := 0
      cdOverflowFrames := 0
      cdUnderflowFrames := 0 }

end SpuState

end RecompStudio.Spu
