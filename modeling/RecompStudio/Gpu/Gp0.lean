import RecompStudio.Cpu.Word
import Mathlib.Tactic.Common

/-!
The command port of the GPU: the parser that cuts the words written to GP0 into
commands, with its two tables of opcodes, and what it hands to the drawing code.
-/

namespace RecompStudio.Gpu

abbrev Opcode := BitVec 8

abbrev Color := BitVec 16

def opcode (w : Word) : Opcode := w.extractLsb' 24 8

/-- The value of the first range that an opcode is in. -/
def lookupRange {α : Type} (table : List (Nat × Nat × α)) (op : Opcode) : Option α :=
  (table.find? fun r => decide (r.1 ≤ op.toNat) && decide (op.toNat ≤ r.2.1)).map fun r => r.2.2

/-- The cases of `gp0_command_word_count`, with its NOP ranges. -/
def wordCounts : List (Nat × Nat × Int) :=
  [(0x00, 0x00, 1), (0x01, 0x01, 1), (0x02, 0x02, 3), (0x1F, 0x1F, 1),
    (0x20, 0x23, 4), (0x24, 0x27, 7), (0x28, 0x2B, 5), (0x2C, 0x2F, 9),
    (0x30, 0x33, 6), (0x34, 0x37, 9), (0x38, 0x3B, 8), (0x3C, 0x3F, 12),
    (0x40, 0x47, 3), (0x48, 0x4F, -1), (0x50, 0x57, 4), (0x58, 0x5F, -1),
    (0x60, 0x63, 3), (0x64, 0x67, 4), (0x68, 0x6B, 2), (0x6C, 0x6F, 3),
    (0x70, 0x73, 2), (0x74, 0x77, 3), (0x78, 0x7B, 2), (0x7C, 0x7F, 3),
    (0x80, 0x9F, 4), (0xA0, 0xBF, 3), (0xC0, 0xDF, 3),
    (0xE0, 0xE0, 1), (0xE1, 0xE1, 1), (0xE2, 0xE2, 1), (0xE3, 0xE3, 1),
    (0xE4, 0xE4, 1), (0xE5, 0xE5, 1), (0xE6, 0xE6, 1),
    (0x03, 0x1E, 1), (0xE7, 0xEF, 1), (0xFF, 0xFF, 1)]

/-- `gp0_command_word_count`: 0 for an unknown command, -1 for a polyline. -/
def commandWordCount (op : Opcode) : Int := (lookupRange wordCounts op).getD 0

/-- What `gp0_execute_command` chooses among. -/
inductive Gp0Exec where
  | nop | fillRect | drawMode | textureWindow | drawAreaTl | drawAreaBr | drawOffset | maskBit
  | monoTri | texturedTri | monoQuad | texturedQuad
  | shadedTri | shadedTexturedTri | shadedQuad | shadedTexturedQuad
  | monoLine | shadedLine | monoRect | texturedRect | monoDot | texturedDot
  | mono8x8 | textured8x8 | mono16x16 | textured16x16
  | vramToVram | cpuToVram | vramToCpu
deriving DecidableEq, Repr

/-- The cases of `gp0_execute_command`, with its NOP ranges. -/
def execs : List (Nat × Nat × Gp0Exec) :=
  [(0x00, 0x01, .nop), (0x02, 0x02, .fillRect),
    (0xE1, 0xE1, .drawMode), (0xE2, 0xE2, .textureWindow), (0xE3, 0xE3, .drawAreaTl),
    (0xE4, 0xE4, .drawAreaBr), (0xE5, 0xE5, .drawOffset), (0xE6, 0xE6, .maskBit),
    (0x20, 0x23, .monoTri), (0x24, 0x27, .texturedTri), (0x28, 0x2B, .monoQuad),
    (0x2C, 0x2F, .texturedQuad), (0x30, 0x33, .shadedTri), (0x34, 0x37, .shadedTexturedTri),
    (0x38, 0x3B, .shadedQuad), (0x3C, 0x3F, .shadedTexturedQuad),
    (0x40, 0x47, .monoLine), (0x50, 0x57, .shadedLine),
    (0x60, 0x63, .monoRect), (0x64, 0x67, .texturedRect), (0x68, 0x6B, .monoDot),
    (0x6C, 0x6F, .texturedDot), (0x70, 0x73, .mono8x8), (0x74, 0x77, .textured8x8),
    (0x78, 0x7B, .mono16x16), (0x7C, 0x7F, .textured16x16),
    (0x80, 0x9F, .vramToVram), (0xA0, 0xBF, .cpuToVram), (0xC0, 0xDF, .vramToCpu),
    (0x03, 0x1E, .nop), (0xE0, 0xE0, .nop), (0xE7, 0xEF, .nop), (0xFF, 0xFF, .nop)]

def commandExec (op : Opcode) : Option Gp0Exec := lookupRange execs op

inductive Gp0State where
  | idle | collecting | vramWrite | polylineMono | polylineShaded
deriving DecidableEq, Repr

structure Point where
  x : Word
  y : Word
deriving DecidableEq, Repr

/-- The polyline under way. `hasPrev` is 0 before the first vertex and, in a shaded
polyline, 1 where a color is due and 2 where a vertex is. -/
structure Polyline where
  color : Color
  prev : Point
  prevColor : Color
  semiTrans : Bool
  hasPrev : Nat
deriving DecidableEq, Repr

/-- The transfer to VRAM under way. -/
structure VramWrite where
  x : Nat
  y : Nat
  w : Nat
  h : Nat
  col : Nat
  row : Nat
  remaining : Nat
deriving DecidableEq, Repr

/-- The drawing settings that the parser itself reads. -/
structure DrawEnv where
  offset : Point
  setMaskBit : Bool
  checkMaskBit : Bool
deriving DecidableEq, Repr

structure GpuState where
  state : Gp0State
  cmdBuf : Nat → Word
  wordsCollected : Nat
  wordsNeeded : Nat
  polyline : Polyline
  vramWrite : VramWrite
  env : DrawEnv

/-- What the parser hands to the drawing code: a whole command, a piece of a
polyline, or a pixel of a transfer, which is kept off masked places if `check` is
set. -/
inductive Action where
  | execute (exec : Gp0Exec) (command : List Word)
  | startPolyline (semiTrans : Bool)
  | line (start stop : Point) (color : Color)
  | shadedLine (start : Point) (startColor : Color) (stop : Point) (stopColor : Color)
  | pixel (x y : Nat) (color : Color) (check : Bool)
  | commit (x y w h : Nat)
deriving DecidableEq, Repr

/-- The two fatal halts. -/
inductive Halt where
  | unknownCommand (op : Opcode) (word : Word)
  | unimplementedCommand (op : Opcode) (word : Word)
deriving DecidableEq, Repr

/-- `parse_vertex`. -/
def parseVertex (w : Word) : Point :=
  ⟨(w.extractLsb' 0 11).signExtend 32, (w.extractLsb' 16 11).signExtend 32⟩

def Point.add (p q : Point) : Point := ⟨p.x + q.x, p.y + q.y⟩

/-- `rgb888_to_rgb555` of the low 24 bits. -/
def rgb555 (w : Word) : Color :=
  (w.extractLsb' 3 5).zeroExtend 16 ||| ((w.extractLsb' 11 5).zeroExtend 16 <<< 5) |||
    ((w.extractLsb' 19 5).zeroExtend 16 <<< 10)

/-- The end of a polyline. -/
def isTerminator (w : Word) : Bool := w &&& 0xF000F000#32 == 0x50005000#32

/-- A dimension of a transfer: 0 is the greatest. -/
@[grind =] def transferWidth (w : Word) : Nat :=
  let n := (w &&& 0x3FF#32).toNat
  if n = 0 then 0x400 else n

def transferHeight (w : Word) : Nat :=
  let n := ((w >>> 16) &&& 0x1FF#32).toNat
  if n = 0 then 0x200 else n

/-- `gp0_exec_cpu_to_vram`. -/
def execCpuToVram (s : GpuState) : GpuState :=
  let w := transferWidth (s.cmdBuf 2)
  let h := transferHeight (s.cmdBuf 2)
  let remaining := (w * h + 1) / 2
  { s with
    vramWrite :=
      { x := (s.cmdBuf 1 &&& 0x3FF#32).toNat
        y := ((s.cmdBuf 1 >>> 16) &&& 0x1FF#32).toNat
        w := w, h := h, col := 0, row := 0, remaining := remaining }
    state := if remaining > 0 then .vramWrite else s.state }

/-- The settings that a command makes. -/
def execEnv (exec : Gp0Exec) (w : Word) (env : DrawEnv) : DrawEnv :=
  match exec with
  | .drawOffset =>
      { env with
        offset := ⟨(w.extractLsb' 0 11).signExtend 32, (w.extractLsb' 11 11).signExtend 32⟩ }
  | .maskBit => { env with setMaskBit := w.getLsbD 0, checkMaskBit := w.getLsbD 1 }
  | _ => env

/-- `gp0_execute_command`. -/
def executeCommand (s : GpuState) : Except Halt (GpuState × List Action) :=
  match commandExec (opcode (s.cmdBuf 0)) with
  | none => .error (.unimplementedCommand (opcode (s.cmdBuf 0)) (s.cmdBuf 0))
  | some exec =>
      let s' := if exec = .cpuToVram then execCpuToVram s else s
      .ok ({ s' with env := execEnv exec (s.cmdBuf 0) s.env },
        [.execute exec ((List.range s.wordsNeeded).map s.cmdBuf)])

/-- A pixel of a transfer, at the place of the cursor. -/
def DrawEnv.pixel (env : DrawEnv) (t : VramWrite) (p : Color) : Action :=
  .pixel ((t.x + t.col) % 1024) ((t.y + t.row) % 512)
    (if env.setMaskBit then p ||| 0x8000#16 else p) env.checkMaskBit

/-- The cursor moves on; it says whether that was the last pixel. -/
def VramWrite.advance (t : VramWrite) : VramWrite × Bool :=
  if t.col + 1 = t.w then ({ t with col := 0, row := t.row + 1 }, t.row + 1 == t.h)
  else ({ t with col := t.col + 1 }, false)

/-- `gp0_commit_cpu_to_vram`. -/
def GpuState.commit (s : GpuState) (t : VramWrite) (pixels : List Action) :
    GpuState × List Action :=
  ({ s with state := .idle, vramWrite := { t with remaining := 0 } },
    pixels ++ [.commit t.x t.y t.w t.h])

/-- A word of a transfer: two pixels, the low half first. -/
def writeVram (s : GpuState) (val : Word) : GpuState × List Action :=
  let p₀ := s.env.pixel s.vramWrite (val.extractLsb' 0 16)
  let (t₁, done₁) := s.vramWrite.advance
  if done₁ then s.commit t₁ [p₀]
  else
    let p₁ := s.env.pixel t₁ (val.extractLsb' 16 16)
    let (t₂, done₂) := t₁.advance
    if done₂ then s.commit t₂ [p₀, p₁]
    else
      let t₃ := { t₂ with remaining := (t₂.remaining + 2 ^ 32 - 1) % 2 ^ 32 }
      if t₃.remaining = 0 then s.commit t₃ [p₀, p₁]
      else ({ s with vramWrite := t₃ }, [p₀, p₁])

/-- A word of a mono polyline. -/
def writePolylineMono (s : GpuState) (val : Word) : GpuState × List Action :=
  if isTerminator val then ({ s with state := .idle }, [])
  else
    let p := (parseVertex val).add s.env.offset
    ({ s with polyline := { s.polyline with prev := p, hasPrev := 1 } },
      if s.polyline.hasPrev ≠ 0 then [.line s.polyline.prev p s.polyline.color] else [])

/-- A word of a shaded polyline. -/
def writePolylineShaded (s : GpuState) (val : Word) : GpuState × List Action :=
  let p := (parseVertex val).add s.env.offset
  if s.polyline.hasPrev = 0 then
    ({ s with polyline :=
      { s.polyline with prev := p, prevColor := s.polyline.color, hasPrev := 1 } }, [])
  else if s.polyline.hasPrev = 1 then
    if isTerminator val then ({ s with state := .idle }, [])
    else ({ s with polyline := { s.polyline with color := rgb555 val, hasPrev := 2 } }, [])
  else
    ({ s with polyline :=
      { s.polyline with prev := p, prevColor := s.polyline.color, hasPrev := 1 } },
      [.shadedLine s.polyline.prev s.polyline.prevColor p s.polyline.color])

/-- A word of a command of more than one word. -/
def writeCollecting (s : GpuState) (val : Word) : Except Halt (GpuState × List Action) :=
  let s := { s with
    cmdBuf := Function.update s.cmdBuf s.wordsCollected val
    wordsCollected := s.wordsCollected + 1 }
  if s.wordsCollected ≥ s.wordsNeeded then executeCommand { s with state := .idle }
  else .ok (s, [])

/-- The first word of a command. -/
def writeIdle (s : GpuState) (val : Word) : Except Halt (GpuState × List Action) :=
  let op := opcode val
  let count := commandWordCount op
  if count = 0 then .error (.unknownCommand op val)
  else if count < 0 then
    let shaded := op &&& 0x10#8 ≠ 0
    .ok ({ s with
      polyline :=
        { s.polyline with
          semiTrans := val.getLsbD 25, color := rgb555 val, prevColor := rgb555 val, hasPrev := 0 }
      state := if shaded then .polylineShaded else .polylineMono },
      [.startPolyline (val.getLsbD 25)])
  else
    let s := { s with
      cmdBuf := Function.update s.cmdBuf 0 val
      wordsCollected := 1
      wordsNeeded := count.toNat }
    if count = 1 then executeCommand s else .ok ({ s with state := .collecting }, [])

/-- `gpu_write_gp0`. -/
def writeGp0 (s : GpuState) (val : Word) : Except Halt (GpuState × List Action) :=
  match s.state with
  | .vramWrite => .ok (writeVram s val)
  | .polylineMono => .ok (writePolylineMono s val)
  | .polylineShaded => .ok (writePolylineShaded s val)
  | .collecting => writeCollecting s val
  | .idle => writeIdle s val

/-- A stream of words: what is done at each, up to a halt, and how it ends. -/
@[grind =] def writeAll (s : GpuState) : List Word → List (List Action) × Except Halt GpuState
  | [] => ([], .ok s)
  | val :: vals =>
      match writeGp0 s val with
      | .error halt => ([], .error halt)
      | .ok (s', actions) => (actions :: (writeAll s' vals).1, (writeAll s' vals).2)

/-- The parser as `gpu_reset_state` leaves it. -/
def GpuState.reset (s : GpuState) : GpuState :=
  { s with
    state := .idle, wordsCollected := 0, wordsNeeded := 0
    vramWrite := { s.vramWrite with remaining := 0 }
    env := ⟨⟨0, 0⟩, false, false⟩ }

/-- `gp1_reset_command_buffer`. -/
def GpuState.resetCommandBuffer (s : GpuState) : GpuState :=
  { s with
    state := .idle, wordsCollected := 0, wordsNeeded := 0
    vramWrite := { s.vramWrite with remaining := 0 } }

/-- The states that the GPU can be in: words come to GP0, and GP1 resets. The other
commands of GP1 touch none of this. -/
inductive Reachable : GpuState → Prop where
  | reset (s : GpuState) : Reachable s.reset
  | resetCommandBuffer {s : GpuState} (h : Reachable s) : Reachable s.resetCommandBuffer
  | word {s s' : GpuState} {val : Word} {actions : List Action} (h : Reachable s)
      (hWrite : writeGp0 s val = .ok (s', actions)) : Reachable s'

end RecompStudio.Gpu
