import RecompStudio.Gte.Registers
import RecompStudio.Gte.Divide

/-!
The commands of the coprocessor. The accumulators are exact: none of them
leaves the 64-bit type of the source. Besides the registers a command carries
the record of what it accumulates and of the values it limits, which the
registers never depend on.
-/

namespace RecompStudio.Gte

/-- An accumulator of one of MAC1 to MAC3 before its shift, a check of the
shifted one, or a value that is limited or checked for another register. -/
inductive Event where
  | accumulated (i : Fin 3) (exact : Int)
  | macChecked (i : Fin 3) (value : Int)
  | ir (i : Fin 3) (lm : Bool) (value : Int)
  | colour (i : Fin 3) (value : Int)
  | sz (value : Int)
  | divided (h sz3 : BitVec 16)
  | mac0 (exact : Int)
  | sx (value : Int)
  | sy (value : Int)
  | ir0 (value : Int)
deriving DecidableEq, Repr

def flagBit (n : Nat) : Word := 1#32 <<< n

/-- The lower bound of `saturate_ir`. -/
def irFloor (lm : Bool) : Int := if lm then 0 else -0x8000

/-- The bits that the source sets: `saturate_ir`, `check_mac_overflow` and the
like. An accumulator sets none by itself. -/
def Event.raises : Event → Word
  | .accumulated _ _ => 0
  | .macChecked i v =>
      (if v > 0x7FFFFFFFF then flagBit (30 - i) else 0) |||
        (if v < -0x800000000 then flagBit (27 - i) else 0)
  | .ir i lm v =>
      if v < irFloor lm then flagBit (24 - i) else if v > 0x7FFF then flagBit (24 - i) else 0
  | .colour i v => if v < 0 then flagBit (21 - i) else if v > 255 then flagBit (21 - i) else 0
  | .sz v => if v < 0 then flagBit 18 else if v > 0xFFFF then flagBit 18 else 0
  | .divided h sz3 => if sz3.toNat * 2 ≤ h.toNat then flagDivOvf else 0
  | .mac0 v =>
      (if v > 0x7FFFFFFF then flagBit 16 else 0) ||| (if v < -0x80000000 then flagBit 15 else 0)
  | .sx v => if v < -0x400 then flagBit 14 else if v > 0x3FF then flagBit 14 else 0
  | .sy v => if v < -0x400 then flagBit 13 else if v > 0x3FF then flagBit 13 else 0
  | .ir0 v => if v < 0 then flagBit 12 else if v > 0x1000 then flagBit 12 else 0

/-- A command under way. -/
structure Pass where
  regs : GTEState
  log : List Event
deriving DecidableEq, Repr

/-- The record of some events, and their bits in the flag register. -/
@[grind =] def Pass.meet (p : Pass) (events : List Event) : Pass :=
  { regs := { p.regs with flag := events.foldl (fun flag e => flag ||| e.raises) p.regs.flag }
    log := p.log ++ events }

@[grind =] def Pass.update (p : Pass) (change : GTEState → GTEState) : Pass :=
  { p with regs := change p.regs }

/-- A value cut off at two bounds. -/
def limit (low high v : Int) : Int := if v < low then low else if v > high then high else v

def limitIr (lm : Bool) (v : Int) : BitVec 16 := BitVec.ofInt 16 (limit (irFloor lm) 0x7FFF v)

def limitColour (v : Int) : BitVec 8 := BitVec.ofInt 8 (limit 0 255 v)

def limitSz (v : Int) : BitVec 16 := BitVec.ofInt 16 (limit 0 0xFFFF v)

def limitScreen (v : Int) : BitVec 16 := BitVec.ofInt 16 (limit (-0x400) 0x3FF v)

def limitIr0 (v : Int) : BitVec 16 := BitVec.ofInt 16 (limit 0 0x1000 v)

@[grind =] def Vec3.map {α β : Type} (f : α → β) (v : Vec3 α) : Vec3 β := ⟨f v.x, f v.y, f v.z⟩

@[grind =] def Vec3.zip {α β γ : Type} (f : α → β → γ) (v : Vec3 α) (w : Vec3 β) : Vec3 γ :=
  ⟨f v.x w.x, f v.y w.y, f v.z w.z⟩

def dot (row v : Vec3 (BitVec 16)) : Int :=
  row.x.toInt * v.x.toInt + row.y.toInt * v.y.toInt + row.z.toInt * v.z.toInt

/-- A matrix applied to a vector. -/
@[grind =]
def Mat3.apply (m : Mat3) (v : Vec3 (BitVec 16)) : Vec3 Int := ⟨dot m.r0 v, dot m.r1 v, dot m.r2 v⟩

/-- The shifts of a signed value. -/
@[grind =] def shl (n : Nat) (v : Int) : Int := v * 2 ^ n

def sar (n : Nat) (v : Int) : Int := v / 2 ^ n

/-- A translation before the shift. -/
def shiftedUp (v : Vec3 Word) : Vec3 Int := v.map fun w => shl 12 w.toInt

@[grind =] def GTEState.irVec (g : GTEState) : Vec3 (BitVec 16) := ⟨g.ir1, g.ir2, g.ir3⟩

def GTEState.macVec (g : GTEState) : Vec3 Word := ⟨g.mac1, g.mac2, g.mac3⟩

/-- The colour components of a packed word. -/
def components (rgb : Word) : Vec3 Int :=
  ⟨(rgb &&& 0xFF#32).toNat, ((rgb >>> 8) &&& 0xFF#32).toNat, ((rgb >>> 16) &&& 0xFF#32).toNat⟩

/-- `lm` and `sf` of the instruction word. -/
def instrLm (w : Word) : Bool := w.getLsbD 10

def instrSf (w : Word) : Nat := if w.getLsbD 19 then 12 else 0

/-- The record of three accumulators. -/
def Pass.accumulate (p : Pass) (acc : Vec3 Int) : Pass :=
  p.meet [.accumulated 0 acc.x, .accumulated 1 acc.y, .accumulated 2 acc.z]

/-- `check_mac_overflow` of the three. -/
def Pass.checkMac (p : Pass) (v : Vec3 Int) : Pass :=
  p.meet [.macChecked 0 v.x, .macChecked 1 v.y, .macChecked 2 v.z]

/-- The three values as `int32_t`, in MAC1 to MAC3. -/
def Pass.setMac (p : Pass) (v : Vec3 Int) : Pass :=
  p.update fun g =>
    { g with
      mac1 := BitVec.ofInt 32 v.x
      mac2 := BitVec.ofInt 32 v.y
      mac3 := BitVec.ofInt 32 v.z }

/-- `saturate_ir` of three values, into IR1 to IR3. -/
@[grind =] def Pass.setIr (p : Pass) (lm : Bool) (v : Vec3 Int) : Pass :=
  (p.meet [.ir 0 lm v.x, .ir 1 lm v.y, .ir 2 lm v.z]).update fun g =>
    { g with ir1 := limitIr lm v.x, ir2 := limitIr lm v.y, ir3 := limitIr lm v.z }

/-- MAC1 to MAC3, and from them IR1 to IR3. -/
def Pass.store (p : Pass) (lm : Bool) (v : Vec3 Int) : Pass :=
  let p := p.setMac v
  p.setIr lm (p.regs.macVec.map BitVec.toInt)

/-- `push_rgb` with the code byte of RGBC. -/
def Pass.pushRgb (p : Pass) (r g b : BitVec 8) : Pass :=
  p.update fun s =>
    { s with
      rgb0 := s.rgb1
      rgb1 := s.rgb2
      rgb2 := s.rgbc.extractLsb' 24 8 ++ b ++ g ++ r }

/-- The colour of MAC1 to MAC3, limited and pushed. -/
def Pass.pushColour (p : Pass) : Pass :=
  let v := p.regs.macVec.map fun m => sar 4 m.toInt
  (p.meet [.colour 0 v.x, .colour 1 v.y, .colour 2 v.z]).pushRgb
    (limitColour v.x) (limitColour v.y) (limitColour v.z)

/-- `push_sz`. -/
def Pass.pushSz (p : Pass) (v : Int) : Pass :=
  (p.meet [.sz v]).update fun g =>
    { g with sz0 := g.sz1, sz1 := g.sz2, sz2 := g.sz3, sz3 := limitSz v }

/-- `push_sxy`. -/
def Pass.pushSxy (p : Pass) (sx sy : Int) : Pass :=
  (p.meet [.sx sx, .sy sy]).update fun g =>
    let packed := limitScreen sy ++ limitScreen sx
    { g with sxy0 := g.sxy1, sxy1 := g.sxy2, sxy2 := packed, sxy3 := packed }

def flagErrorMask : Word := 0x7F87E000#32

def flagErrorBit : Word := 0x80000000#32

/-- `set_error_flag`. -/
def Pass.setErrorFlag (p : Pass) : Pass :=
  p.update fun g =>
    { g with flag := if g.flag &&& flagErrorMask ≠ 0 then g.flag ||| flagErrorBit else g.flag }

/-- Every command clears the flags first. -/
def begin (g : GTEState) : Pass := { regs := { g with flag := 0 }, log := [] }

/-- `light_transform`. -/
def lightTransform (w : Word) (v : GTEState → Vec3 (BitVec 16)) (p : Pass) : Pass :=
  let acc := p.regs.l.apply (v p.regs)
  (p.accumulate acc).store (instrLm w) (acc.map (sar 12))

/-- The accumulators of `light_color`. -/
def lightColorAcc (g : GTEState) : Vec3 Int :=
  (shiftedUp g.bk).zip (· + ·) (g.lc.apply g.irVec)

/-- `light_color`. -/
def lightColor (w : Word) (p : Pass) : Pass :=
  let acc := lightColorAcc p.regs
  (p.accumulate acc).store (instrLm w) (acc.map (sar 12))

/-- The products of a colour with IR1 to IR3. -/
def tinted (colour : Vec3 Int) (g : GTEState) : Vec3 Int :=
  colour.zip (fun c ir => c * ir.toInt) g.irVec

/-- `color_output`. -/
def colorOutput (w : Word) (p : Pass) : Pass :=
  let acc := (tinted (components p.regs.rgbc) p.regs).map (shl 4)
  ((p.accumulate acc).store (instrLm w) (acc.map (sar 12))).pushColour

/-- IR1 to IR3 before the shift. -/
def depthCueBase (g : GTEState) : Vec3 Int := g.irVec.map fun ir => shl 12 ir.toInt

/-- The distance to the far colour before the shift. -/
def depthCueFar (g : GTEState) : Vec3 Int := (shiftedUp g.fc).zip (· - ·) (depthCueBase g)

/-- The values that the steps towards the far colour are limited from. -/
def depthCueRaw (sf : Nat) (g : GTEState) : Vec3 Int :=
  (depthCueFar g).map fun d => (BitVec.ofInt 32 (sar sf d)).toInt

/-- The accumulators of the interpolation. -/
def depthCueAcc (sf : Nat) (g : GTEState) : Vec3 Int :=
  (depthCueBase g).zip (fun base raw => base + g.ir0.toInt * (limitIr false raw).toInt)
    (depthCueRaw sf g)

/-- `depth_cue_from_ir`. -/
def depthCueFromIr (w : Word) (p : Pass) : Pass :=
  let sf := instrSf w
  let g := p.regs
  let raw := depthCueRaw sf g
  let mac := (depthCueAcc sf g).map (sar sf)
  ((((p.accumulate (depthCueFar g)).meet
    [.ir 0 false raw.x, .ir 1 false raw.y, .ir 2 false raw.z]).accumulate
      (depthCueAcc sf g)).checkMac mac).store (instrLm w) mac

/-- What the projection takes from the widescreen settings: the squash of X and
where it is suppressed, and the expansion of far vertices. -/
structure Widescreen where
  xNum : Int
  xDen : Int
  presentNative43 : Bool
  suppress : Bool
  farThreshold : Int
  domeOn : Bool
  domeNum : Int
  domeDen : Int
  domeCallSites : List Word
  callerRa : Word
  xDen_ne : xDen ≠ 0
  domeDen_ne : domeDen ≠ 0

/-- `ws_dome_call_matches`. -/
def Widescreen.domeCallMatches (ws : Widescreen) : Bool :=
  ws.domeCallSites.any (· == (ws.callerRa - 8#32) &&& 0x1FFFFFFF#32)

/-- The X term of the projection at depth `sz`; the divisions truncate. -/
def Widescreen.scale (ws : Widescreen) (xterm sz : Int) : Int :=
  let squash := ws.xNum != ws.xDen && !ws.presentNative43 && !ws.domeCallMatches
  let far := decide (sz ≥ ws.farThreshold)
  if squash && !(ws.suppress && far) then (xterm * ws.xNum).tdiv ws.xDen
  else if ws.domeOn && ws.domeNum != ws.domeDen && !ws.presentNative43 && far then
    (xterm * ws.domeNum).tdiv ws.domeDen
  else xterm

/-- The accumulators of a vertex. -/
def rotated (g : GTEState) (v : Vec3 (BitVec 16)) : Vec3 Int :=
  (shiftedUp g.tr).zip (· + ·) (g.rt.apply v)

/-- `gte_divide` on the registers: the quotient. -/
def GTEState.quotient (g : GTEState) : Int :=
  if g.sz3.toNat * 2 ≤ g.h.toNat then 0x1FFFF else gteQuotient g.h g.sz3

/-- The rotation and the depth of `gte_rtps_internal`. -/
def rotate (v : GTEState → Vec3 (BitVec 16)) (p : Pass) : Pass :=
  let acc := rotated p.regs (v p.regs)
  let mac := acc.map (sar 12)
  let p := ((p.accumulate acc).checkMac mac).store false mac
  p.pushSz p.regs.mac3.toInt

/-- The division and the screen coordinates of `gte_rtps_internal`. -/
def project (ws : Widescreen) (p : Pass) : Pass :=
  let g := p.regs
  let xterm := ws.scale (g.ir1.toInt * g.quotient) g.sz3.toNat
  (p.meet [.divided g.h g.sz3]).pushSxy (sar 16 (g.ofx.toInt + xterm))
    (sar 16 (g.ofy.toInt + g.ir2.toInt * g.quotient))

/-- The depth cue of the last vertex, from the same quotient. -/
def Pass.setMac0 (p : Pass) : Pass :=
  let mac0 := p.regs.dqa.toInt * p.regs.quotient + p.regs.dqb.toInt
  let ir0 := (BitVec.ofInt 32 (sar 12 mac0)).toInt
  (p.meet [.mac0 mac0, .ir0 ir0]).update fun g =>
    { g with mac0 := BitVec.ofInt 32 mac0, ir0 := limitIr0 ir0 }

/-- `gte_rtps_internal`. -/
def rtpsInternal (ws : Widescreen) (v : GTEState → Vec3 (BitVec 16)) (setMac0 : Bool) (p : Pass) :
    Pass :=
  let p := project ws (rotate v p)
  if setMac0 then p.setMac0 else p

/-- `gte_rtps`. -/
def rtps (ws : Widescreen) (g : GTEState) : Pass :=
  (rtpsInternal ws GTEState.v0 true (begin g)).setErrorFlag

/-- `gte_rtpt`. -/
def rtpt (ws : Widescreen) (g : GTEState) : Pass :=
  let p := rtpsInternal ws GTEState.v0 false (begin g)
  let p := rtpsInternal ws GTEState.v1 false p
  (rtpsInternal ws GTEState.v2 true p).setErrorFlag

/-- `gte_nclip`. -/
def nclip (g : GTEState) : Pass :=
  let sx (xy : Word) := (low xy).toInt
  let sy (xy : Word) := (high xy).toInt
  let mac0 := sx g.sxy0 * (sy g.sxy1 - sy g.sxy2) + sx g.sxy1 * (sy g.sxy2 - sy g.sxy0) +
    sx g.sxy2 * (sy g.sxy0 - sy g.sxy1)
  (((begin g).meet [.mac0 mac0]).update fun g =>
    { g with mac0 := BitVec.ofInt 32 mac0 }).setErrorFlag

/-- `gte_avsz3` and `gte_avsz4` from the scaled sum of depths. -/
def averageSz (g : GTEState) (scaled : Int) : Pass :=
  let mac0 := BitVec.ofInt 32 (sar 12 scaled)
  (((begin g).meet [.mac0 scaled, .sz mac0.toInt]).update fun g =>
    { g with mac0 := mac0, otz := limitSz mac0.toInt }).setErrorFlag

def avsz3 (g : GTEState) : Pass :=
  averageSz g (g.zsf3.toInt * (g.sz1.toNat + g.sz2.toNat + g.sz3.toNat))

def avsz4 (g : GTEState) : Pass :=
  averageSz g (g.zsf4.toInt * (g.sz0.toNat + g.sz1.toNat + g.sz2.toNat + g.sz3.toNat))

/-- `gte_nccs_internal`. -/
def nccsInternal (w : Word) (v : GTEState → Vec3 (BitVec 16)) (p : Pass) : Pass :=
  colorOutput w (lightColor w (lightTransform w v p))

/-- `gte_ncds_internal`. -/
def ncdsInternal (w : Word) (v : GTEState → Vec3 (BitVec 16)) (p : Pass) : Pass :=
  colorOutput w (depthCueFromIr w (lightColor w (lightTransform w v p)))

/-- `gte_ncs_internal`. -/
def ncsInternal (w : Word) (v : GTEState → Vec3 (BitVec 16)) (p : Pass) : Pass :=
  (lightColor w (lightTransform w v p)).pushColour

/-- A command on one vertex. -/
def single (internal : (GTEState → Vec3 (BitVec 16)) → Pass → Pass) (g : GTEState) : Pass :=
  (internal GTEState.v0 (begin g)).setErrorFlag

/-- A command on three vertices. -/
def triple (internal : (GTEState → Vec3 (BitVec 16)) → Pass → Pass) (g : GTEState) : Pass :=
  (internal GTEState.v2 (internal GTEState.v1 (internal GTEState.v0 (begin g)))).setErrorFlag

def nccs (w : Word) : GTEState → Pass := single (nccsInternal w)

def ncct (w : Word) : GTEState → Pass := triple (nccsInternal w)

def ncds (w : Word) : GTEState → Pass := single (ncdsInternal w)

def ncdt (w : Word) : GTEState → Pass := triple (ncdsInternal w)

def ncs (w : Word) : GTEState → Pass := single (ncsInternal w)

def nct (w : Word) : GTEState → Pass := triple (ncsInternal w)

/-- A colour shifted into IR1 to IR3, the depth cue from there, and the push:
the body of `gte_dpcs` and of the loop of `gte_dpct`. -/
def dpcsInternal (w : Word) (colour : GTEState → Word) (p : Pass) : Pass :=
  (depthCueFromIr w (p.setIr false ((components (colour p.regs)).map (shl 4)))).pushColour

/-- `gte_dpcs`. -/
def dpcs (w : Word) (g : GTEState) : Pass :=
  (dpcsInternal w GTEState.rgbc (begin g)).setErrorFlag

/-- `gte_dpct`: the colour at the end of the FIFO, three times. -/
def dpct (w : Word) (g : GTEState) : Pass :=
  (dpcsInternal w GTEState.rgb0 (dpcsInternal w GTEState.rgb0
    (dpcsInternal w GTEState.rgb0 (begin g)))).setErrorFlag

/-- `gte_dpcl`. -/
@[grind =] def dpcl (w : Word) (g : GTEState) : Pass :=
  let acc := tinted (components g.rgbc) g
  (depthCueFromIr w (((begin g).accumulate acc).store (instrLm w)
    (acc.map (sar 8)))).pushColour.setErrorFlag

/-- `gte_intpl`. -/
def intpl (w : Word) (g : GTEState) : Pass :=
  (depthCueFromIr w (begin g)).pushColour.setErrorFlag

/-- `gte_cdp`. -/
def cdp (w : Word) (g : GTEState) : Pass :=
  (colorOutput w (depthCueFromIr w (lightColor w (begin g)))).setErrorFlag

/-- `gte_cc`. -/
def cc (w : Word) (g : GTEState) : Pass := (colorOutput w (lightColor w (begin g))).setErrorFlag

/-- The matrix that `gte_mvmva` selects. -/
def mvmvaMatrix (w : Word) (g : GTEState) : Mat3 :=
  match (w.extractLsb' 17 2).toNat with
  | 0 => g.rt
  | 1 => g.l
  | 2 => g.lc
  | _ => ⟨⟨0, 0, 0⟩, ⟨0, 0, 0⟩, ⟨0, 0, 0⟩⟩

def mvmvaVector (w : Word) (g : GTEState) : Vec3 (BitVec 16) :=
  match (w.extractLsb' 15 2).toNat with
  | 0 => g.v0
  | 1 => g.v1
  | 2 => g.v2
  | _ => g.irVec

def mvmvaTranslation (w : Word) (g : GTEState) : Vec3 Int :=
  match (w.extractLsb' 13 2).toNat with
  | 0 => shiftedUp g.tr
  | 1 => shiftedUp g.bk
  | 2 => shiftedUp g.fc
  | _ => ⟨0, 0, 0⟩

def mvmvaAcc (w : Word) (g : GTEState) : Vec3 Int :=
  (mvmvaTranslation w g).zip (· + ·) ((mvmvaMatrix w g).apply (mvmvaVector w g))

/-- `gte_mvmva`. -/
@[grind =] def mvmva (w : Word) (g : GTEState) : Pass :=
  let acc := mvmvaAcc w g
  let mac := acc.map (sar (instrSf w))
  ((((begin g).accumulate acc).checkMac mac).store (instrLm w) mac).setErrorFlag

/-- The tail that the other general commands share: no check of the shifted
accumulators. -/
@[grind =] def general (w : Word) (acc : Vec3 Int) (g : GTEState) : Pass :=
  ((begin g).accumulate acc).store (instrLm w) (acc.map (sar (instrSf w)))

/-- The cross product of the diagonal of the rotation matrix with IR1 to IR3. -/
def opAcc (g : GTEState) : Vec3 Int :=
  let d1 := g.rt.r0.x.toInt
  let d2 := g.rt.r1.y.toInt
  let d3 := g.rt.r2.z.toInt
  ⟨d2 * g.ir3.toInt - d3 * g.ir2.toInt, d3 * g.ir1.toInt - d1 * g.ir3.toInt,
    d1 * g.ir2.toInt - d2 * g.ir1.toInt⟩

/-- `gte_op`. -/
def op (w : Word) (g : GTEState) : Pass := (general w (opAcc g) g).setErrorFlag

/-- `gte_sqr`. -/
def sqr (w : Word) (g : GTEState) : Pass :=
  (general w (g.irVec.map fun ir => ir.toInt * ir.toInt) g).setErrorFlag

/-- IR0 times IR1 to IR3. -/
def ir0Scaled (g : GTEState) : Vec3 Int := g.irVec.map fun ir => g.ir0.toInt * ir.toInt

/-- `gte_gpf`. -/
def gpf (w : Word) (g : GTEState) : Pass := (general w (ir0Scaled g) g).pushColour.setErrorFlag

def gplAcc (w : Word) (g : GTEState) : Vec3 Int :=
  (g.macVec.map fun m => shl (instrSf w) m.toInt).zip (· + ·) (ir0Scaled g)

/-- `gte_gpl`. -/
def gpl (w : Word) (g : GTEState) : Pass := (general w (gplAcc w g) g).pushColour.setErrorFlag

/-- The switch of `gte_execute`; other functions end the program. -/
def command (ws : Widescreen) (w : Word) (g : GTEState) : Option Pass :=
  match (w &&& 0x3F#32).toNat with
  | 0x01 => some (rtps ws g)
  | 0x06 => some (nclip g)
  | 0x0C => some (op w g)
  | 0x10 => some (dpcs w g)
  | 0x11 => some (intpl w g)
  | 0x12 => some (mvmva w g)
  | 0x13 => some (ncds w g)
  | 0x14 => some (cdp w g)
  | 0x16 => some (ncdt w g)
  | 0x1B => some (nccs w g)
  | 0x1C => some (cc w g)
  | 0x1E => some (ncs w g)
  | 0x20 => some (nct w g)
  | 0x28 => some (sqr w g)
  | 0x29 => some (dpcl w g)
  | 0x2A => some (dpct w g)
  | 0x2D => some (avsz3 g)
  | 0x2E => some (avsz4 g)
  | 0x30 => some (rtpt ws g)
  | 0x3D => some (gpf w g)
  | 0x3E => some (gpl w g)
  | 0x3F => some (ncct w g)
  | _ => none

variable {M : Type}

/-- `gte_execute` on the register arrays. -/
@[grind =] def execute (ws : Widescreen) (s : CPUState M) (w : Word) : Option (CPUState M) :=
  (command { ws with callerRa := s.gpr 31 } w (unpackRegisters s.gteData s.gteCtrl false)).map
    fun p => storeState s p.regs

end RecompStudio.Gte
