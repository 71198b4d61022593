import RecompStudio.Cpu.State

/-!
The GTE register file: the working state of the coprocessor, the bridge to the
two register arrays of the CPU state, and the register moves.
-/

namespace RecompStudio.Gte

structure Vec3 (α : Type) where
  x : α
  y : α
  z : α
deriving DecidableEq, Repr

/-- A matrix of signed halfwords, by rows. -/
structure Mat3 where
  r0 : Vec3 (BitVec 16)
  r1 : Vec3 (BitVec 16)
  r2 : Vec3 (BitVec 16)
deriving DecidableEq, Repr

/-- `GTEState`. -/
structure GTEState where
  v0 : Vec3 (BitVec 16)
  v1 : Vec3 (BitVec 16)
  v2 : Vec3 (BitVec 16)
  rgbc : Word
  otz : BitVec 16
  ir0 : BitVec 16
  ir1 : BitVec 16
  ir2 : BitVec 16
  ir3 : BitVec 16
  sxy0 : Word
  sxy1 : Word
  sxy2 : Word
  sxy3 : Word
  sz0 : BitVec 16
  sz1 : BitVec 16
  sz2 : BitVec 16
  sz3 : BitVec 16
  rgb0 : Word
  rgb1 : Word
  rgb2 : Word
  mac0 : Word
  mac1 : Word
  mac2 : Word
  mac3 : Word
  lzcs : Word
  lzcr : Word
  rt : Mat3
  tr : Vec3 Word
  l : Mat3
  bk : Vec3 Word
  lc : Mat3
  fc : Vec3 Word
  ofx : Word
  ofy : Word
  h : BitVec 16
  dqa : BitVec 16
  dqb : Word
  zsf3 : BitVec 16
  zsf4 : BitVec 16
  flag : Word
deriving DecidableEq, Repr

@[grind =] def low (w : Word) : BitVec 16 := w.extractLsb' 0 16

def high (w : Word) : BitVec 16 := w.extractLsb' 16 16

/-- `pair16`: the low half first. -/
@[grind =] def pair16 (lo hi : BitVec 16) : Word := hi ++ lo

/-- The count of leading bits equal to the sign bit. -/
def leadingCount (w : Word) : Word := if w.msb then (~~~w).clz else w.clz

/-- One colour component of `IRGB`/`ORGB`: `clamp(ir >> 7, 0, 31)`. -/
def colour5 (ir : BitVec 16) : Word :=
  if (ir.sshiftRight 7).slt 0 then 0
  else if (0x1F#16).slt (ir.sshiftRight 7) then 0x1F#32
  else (ir.sshiftRight 7).zeroExtend 32

def orgb (g : GTEState) : Word :=
  (colour5 g.ir3 <<< 10) ||| (colour5 g.ir2 <<< 5) ||| colour5 g.ir1

/-- Three rows packed into five registers, as the matrices are. -/
def unpackMat (c0 c1 c2 c3 c4 : Word) : Mat3 :=
  ⟨⟨low c0, high c0, low c1⟩, ⟨high c1, low c2, high c2⟩, ⟨low c3, high c3, low c4⟩⟩

/-- `gte_unpack_registers`. -/
def unpackRegisters (d c : RegIndex → Word) (preserveFlag : Bool) : GTEState where
  v0 := ⟨low (d 0), high (d 0), low (d 1)⟩
  v1 := ⟨low (d 2), high (d 2), low (d 3)⟩
  v2 := ⟨low (d 4), high (d 4), low (d 5)⟩
  rgbc := d 6
  otz := low (d 7)
  ir0 := low (d 8)
  ir1 := low (d 9)
  ir2 := low (d 10)
  ir3 := low (d 11)
  sxy0 := d 12
  sxy1 := d 13
  sxy2 := d 14
  sxy3 := d 14
  sz0 := low (d 16)
  sz1 := low (d 17)
  sz2 := low (d 18)
  sz3 := low (d 19)
  rgb0 := d 20
  rgb1 := d 21
  rgb2 := d 22
  mac0 := d 24
  mac1 := d 25
  mac2 := d 26
  mac3 := d 27
  lzcs := d 30
  lzcr := leadingCount (d 30)
  rt := unpackMat (c 0) (c 1) (c 2) (c 3) (c 4)
  tr := ⟨c 5, c 6, c 7⟩
  l := unpackMat (c 8) (c 9) (c 10) (c 11) (c 12)
  bk := ⟨c 13, c 14, c 15⟩
  lc := unpackMat (c 16) (c 17) (c 18) (c 19) (c 20)
  fc := ⟨c 21, c 22, c 23⟩
  ofx := c 24
  ofy := c 25
  h := low (c 26)
  dqa := low (c 27)
  dqb := c 28
  zsf3 := low (c 29)
  zsf4 := low (c 30)
  flag := if preserveFlag then c 31 else c 31 &&& 0x7FFFF000#32

/-- `gte_mfc2`. -/
def mfc2 (g : GTEState) (reg : RegIndex) : Word :=
  match reg.toNat with
  | 0 => pair16 g.v0.x g.v0.y
  | 1 => g.v0.z.zeroExtend 32
  | 2 => pair16 g.v1.x g.v1.y
  | 3 => g.v1.z.zeroExtend 32
  | 4 => pair16 g.v2.x g.v2.y
  | 5 => g.v2.z.zeroExtend 32
  | 6 => g.rgbc
  | 7 => g.otz.zeroExtend 32
  | 8 => g.ir0.signExtend 32
  | 9 => g.ir1.signExtend 32
  | 10 => g.ir2.signExtend 32
  | 11 => g.ir3.signExtend 32
  | 12 => g.sxy0
  | 13 => g.sxy1
  | 14 => g.sxy2
  | 15 => g.sxy3
  | 16 => g.sz0.zeroExtend 32
  | 17 => g.sz1.zeroExtend 32
  | 18 => g.sz2.zeroExtend 32
  | 19 => g.sz3.zeroExtend 32
  | 20 => g.rgb0
  | 21 => g.rgb1
  | 22 => g.rgb2
  | 24 => g.mac0
  | 25 => g.mac1
  | 26 => g.mac2
  | 27 => g.mac3
  | 28 => orgb g
  | 29 => orgb g
  | 30 => g.lzcs
  | 31 => g.lzcr
  | _ => 0

/-- `gte_cfc2`. -/
def cfc2 (g : GTEState) (reg : RegIndex) : Word :=
  match reg.toNat with
  | 0 => pair16 g.rt.r0.x g.rt.r0.y
  | 1 => pair16 g.rt.r0.z g.rt.r1.x
  | 2 => pair16 g.rt.r1.y g.rt.r1.z
  | 3 => pair16 g.rt.r2.x g.rt.r2.y
  | 4 => g.rt.r2.z.zeroExtend 32
  | 5 => g.tr.x
  | 6 => g.tr.y
  | 7 => g.tr.z
  | 8 => pair16 g.l.r0.x g.l.r0.y
  | 9 => pair16 g.l.r0.z g.l.r1.x
  | 10 => pair16 g.l.r1.y g.l.r1.z
  | 11 => pair16 g.l.r2.x g.l.r2.y
  | 12 => g.l.r2.z.zeroExtend 32
  | 13 => g.bk.x
  | 14 => g.bk.y
  | 15 => g.bk.z
  | 16 => pair16 g.lc.r0.x g.lc.r0.y
  | 17 => pair16 g.lc.r0.z g.lc.r1.x
  | 18 => pair16 g.lc.r1.y g.lc.r1.z
  | 19 => pair16 g.lc.r2.x g.lc.r2.y
  | 20 => g.lc.r2.z.zeroExtend 32
  | 21 => g.fc.x
  | 22 => g.fc.y
  | 23 => g.fc.z
  | 24 => g.ofx
  | 25 => g.ofy
  | 26 => g.h.zeroExtend 32
  | 27 => g.dqa.signExtend 32
  | 28 => g.dqb
  | 29 => g.zsf3.signExtend 32
  | 30 => g.zsf4.signExtend 32
  | 31 => g.flag
  | _ => 0

/-- `gte_mtc2`. -/
def mtc2 (g : GTEState) (reg : RegIndex) (value : Word) : GTEState :=
  match reg.toNat with
  | 0 => { g with v0 := ⟨low value, high value, g.v0.z⟩ }
  | 1 => { g with v0 := ⟨g.v0.x, g.v0.y, low value⟩ }
  | 2 => { g with v1 := ⟨low value, high value, g.v1.z⟩ }
  | 3 => { g with v1 := ⟨g.v1.x, g.v1.y, low value⟩ }
  | 4 => { g with v2 := ⟨low value, high value, g.v2.z⟩ }
  | 5 => { g with v2 := ⟨g.v2.x, g.v2.y, low value⟩ }
  | 6 => { g with rgbc := value }
  | 7 => { g with otz := low value }
  | 8 => { g with ir0 := low value }
  | 9 => { g with ir1 := low value }
  | 10 => { g with ir2 := low value }
  | 11 => { g with ir3 := low value }
  | 12 => { g with sxy0 := value }
  | 13 => { g with sxy1 := value }
  | 14 => { g with sxy2 := value, sxy3 := value }
  | 15 => { g with sxy0 := g.sxy1, sxy1 := g.sxy2, sxy2 := value, sxy3 := value }
  | 16 => { g with sz0 := low value }
  | 17 => { g with sz1 := low value }
  | 18 => { g with sz2 := low value }
  | 19 => { g with sz3 := low value }
  | 20 => { g with rgb0 := value }
  | 21 => { g with rgb1 := value }
  | 22 => { g with rgb2 := value }
  | 24 => { g with mac0 := value }
  | 25 => { g with mac1 := value }
  | 26 => { g with mac2 := value }
  | 27 => { g with mac3 := value }
  | 28 =>
      { g with
        ir1 := low ((value &&& 0x1F#32) <<< 7)
        ir2 := low (((value >>> 5) &&& 0x1F#32) <<< 7)
        ir3 := low (((value >>> 10) &&& 0x1F#32) <<< 7) }
  | 30 => { g with lzcs := value, lzcr := leadingCount value }
  | _ => g

/-- The five writes that a packed matrix takes. -/
def writeMat (m : Mat3) (index : Nat) (value : Word) : Mat3 :=
  match index with
  | 0 => { m with r0 := ⟨low value, high value, m.r0.z⟩ }
  | 1 => { m with r0 := ⟨m.r0.x, m.r0.y, low value⟩, r1 := ⟨high value, m.r1.y, m.r1.z⟩ }
  | 2 => { m with r1 := ⟨m.r1.x, low value, high value⟩ }
  | 3 => { m with r2 := ⟨low value, high value, m.r2.z⟩ }
  | _ => { m with r2 := ⟨m.r2.x, m.r2.y, low value⟩ }

/-- `gte_ctc2`. -/
def ctc2 (g : GTEState) (reg : RegIndex) (value : Word) : GTEState :=
  match reg.toNat with
  | 0 => { g with rt := writeMat g.rt 0 value }
  | 1 => { g with rt := writeMat g.rt 1 value }
  | 2 => { g with rt := writeMat g.rt 2 value }
  | 3 => { g with rt := writeMat g.rt 3 value }
  | 4 => { g with rt := writeMat g.rt 4 value }
  | 5 => { g with tr := ⟨value, g.tr.y, g.tr.z⟩ }
  | 6 => { g with tr := ⟨g.tr.x, value, g.tr.z⟩ }
  | 7 => { g with tr := ⟨g.tr.x, g.tr.y, value⟩ }
  | 8 => { g with l := writeMat g.l 0 value }
  | 9 => { g with l := writeMat g.l 1 value }
  | 10 => { g with l := writeMat g.l 2 value }
  | 11 => { g with l := writeMat g.l 3 value }
  | 12 => { g with l := writeMat g.l 4 value }
  | 13 => { g with bk := ⟨value, g.bk.y, g.bk.z⟩ }
  | 14 => { g with bk := ⟨g.bk.x, value, g.bk.z⟩ }
  | 15 => { g with bk := ⟨g.bk.x, g.bk.y, value⟩ }
  | 16 => { g with lc := writeMat g.lc 0 value }
  | 17 => { g with lc := writeMat g.lc 1 value }
  | 18 => { g with lc := writeMat g.lc 2 value }
  | 19 => { g with lc := writeMat g.lc 3 value }
  | 20 => { g with lc := writeMat g.lc 4 value }
  | 21 => { g with fc := ⟨value, g.fc.y, g.fc.z⟩ }
  | 22 => { g with fc := ⟨g.fc.x, value, g.fc.z⟩ }
  | 23 => { g with fc := ⟨g.fc.x, g.fc.y, value⟩ }
  | 24 => { g with ofx := value }
  | 25 => { g with ofy := value }
  | 26 => { g with h := low value }
  | 27 => { g with dqa := low value }
  | 28 => { g with dqb := value }
  | 29 => { g with zsf3 := low value }
  | 30 => { g with zsf4 := low value }
  | _ => { g with flag := value &&& 0x7FFFF000#32 }

/-- The data half of `gte_pack_registers`. -/
def packData (g : GTEState) (reg : RegIndex) : Word :=
  match reg.toNat with
  | 0 => pair16 g.v0.x g.v0.y
  | 1 => g.v0.z.zeroExtend 32
  | 2 => pair16 g.v1.x g.v1.y
  | 3 => g.v1.z.zeroExtend 32
  | 4 => pair16 g.v2.x g.v2.y
  | 5 => g.v2.z.zeroExtend 32
  | 6 => g.rgbc
  | 7 => g.otz.zeroExtend 32
  | 8 => g.ir0.signExtend 32
  | 9 => g.ir1.signExtend 32
  | 10 => g.ir2.signExtend 32
  | 11 => g.ir3.signExtend 32
  | 12 => g.sxy0
  | 13 => g.sxy1
  | 14 => g.sxy2
  | 15 => g.sxy3
  | 16 => g.sz0.zeroExtend 32
  | 17 => g.sz1.zeroExtend 32
  | 18 => g.sz2.zeroExtend 32
  | 19 => g.sz3.zeroExtend 32
  | 20 => g.rgb0
  | 21 => g.rgb1
  | 22 => g.rgb2
  | 23 => 0
  | 24 => g.mac0
  | 25 => g.mac1
  | 26 => g.mac2
  | 27 => g.mac3
  | 28 => orgb g
  | 29 => orgb g
  | 30 => g.lzcs
  | _ => g.lzcr

/-- The five registers of a packed matrix. -/
def packMat (m : Mat3) (index : Nat) : Word :=
  match index with
  | 0 => pair16 m.r0.x m.r0.y
  | 1 => pair16 m.r0.z m.r1.x
  | 2 => pair16 m.r1.y m.r1.z
  | 3 => pair16 m.r2.x m.r2.y
  | _ => m.r2.z.zeroExtend 32

/-- The control half of `gte_pack_registers`. -/
def packCtrl (g : GTEState) (reg : RegIndex) : Word :=
  match reg.toNat with
  | 0 => packMat g.rt 0
  | 1 => packMat g.rt 1
  | 2 => packMat g.rt 2
  | 3 => packMat g.rt 3
  | 4 => packMat g.rt 4
  | 5 => g.tr.x
  | 6 => g.tr.y
  | 7 => g.tr.z
  | 8 => packMat g.l 0
  | 9 => packMat g.l 1
  | 10 => packMat g.l 2
  | 11 => packMat g.l 3
  | 12 => packMat g.l 4
  | 13 => g.bk.x
  | 14 => g.bk.y
  | 15 => g.bk.z
  | 16 => packMat g.lc 0
  | 17 => packMat g.lc 1
  | 18 => packMat g.lc 2
  | 19 => packMat g.lc 3
  | 20 => packMat g.lc 4
  | 21 => g.fc.x
  | 22 => g.fc.y
  | 23 => g.fc.z
  | 24 => g.ofx
  | 25 => g.ofy
  | 26 => g.h.zeroExtend 32
  | 27 => g.dqa.signExtend 32
  | 28 => g.dqb
  | 29 => g.zsf3.signExtend 32
  | 30 => g.zsf4.signExtend 32
  | _ => g.flag

variable {M : Type}

/-- `gte_load_data`: the working state with its flag register as stored. -/
def loadData (s : CPUState M) : GTEState := unpackRegisters s.gteData s.gteCtrl true

def storeState (s : CPUState M) (g : GTEState) : CPUState M :=
  { s with gteData := packData g, gteCtrl := packCtrl g }

/-- `gte_read_data`. -/
@[grind =] def readData (s : CPUState M) (reg : RegIndex) : Word := mfc2 (loadData s) reg

/-- `gte_read_ctrl`. -/
def readCtrl (s : CPUState M) (reg : RegIndex) : Word := cfc2 (loadData s) reg

/-- `gte_write_data`. -/
def writeData (s : CPUState M) (reg : RegIndex) (value : Word) : CPUState M :=
  storeState s (mtc2 (loadData s) reg value)

/-- `gte_write_ctrl`. -/
def writeCtrl (s : CPUState M) (reg : RegIndex) (value : Word) : CPUState M :=
  storeState s (ctc2 (loadData s) reg value)

end RecompStudio.Gte
