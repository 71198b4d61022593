import RecompStudio.Gte.Registers

/-!
The C statements that the two emitters write for one guest instruction, and
what they do. The dialect is the one the generated files are built with:
conversions and shifts of signed values are defined, signed overflow is not.
Timing and debug hooks are left out.
-/

namespace RecompStudio.Emitted

open RecompStudio.Gte

/-- The runtime helpers that configured sites route a value through. -/
inductive HostFn where
  | backdropValue (isEnd : Bool) (wcols : Int)
  | xMargin
  | cullSltiu (imm : BitVec 16)
  | cullSlti (imm : BitVec 16)
  | cullBltz
  | backdropX
  | bg2dCols (imm : BitVec 16)
  | bg2dStartcol (mask : BitVec 16)
  | bg2dStartx
  | bg2dStreamLeft
  | bg2dStreamRight
  | mmx6BgBufbase
  | bg2dUndercap (imm : BitVec 16)
  | gameOptionStore
deriving DecidableEq, Repr


inductive Expr where
  | lit (w : Word)
  | gpr (r : RegIndex)
  | hi
  | lo
  | cop0 (r : RegIndex)
  | gteData (r : RegIndex)
  | gteCtrl (r : RegIndex)
  | gteReadData (r : RegIndex)
  | gteReadCtrl (r : RegIndex)
  | add (a b : Expr)
  | sub (a b : Expr)
  | and (a b : Expr)
  | or (a b : Expr)
  | xor (a b : Expr)
  | not (a : Expr)
  | shl (a n : Expr)
  | shr (a n : Expr)
  | sar (a n : Expr)
  | slt (a b : Expr)
  | sltu (a b : Expr)
  | sle (a b : Expr)
  | eq (a b : Expr)
  | ne (a b : Expr)
  | addSigned (a b : Expr)
  | negSigned (a : Expr)
  | host (f : HostFn) (a b : Expr)
deriving DecidableEq, Repr

inductive Width where
  | word | half | byte
deriving DecidableEq, Repr

/-- How a loaded value fills the register. -/
inductive LoadKind where
  | word | half | halfUnsigned | byte | byteUnsigned
deriving DecidableEq, Repr

/-- The two ways the emitters write the unaligned merges: the byte tables of
the game helpers, and the shift formulas of the BIOS translator. -/
inductive MergeStyle where
  | table | shifts
deriving DecidableEq, Repr

inductive MergeSide where
  | left | right
deriving DecidableEq, Repr

inductive Trap where
  | arithOverflow | unalignedAccess | addressError | copUnusable | reservedInstruction | break
deriving DecidableEq, Repr

/-- What the emitted code and the interpreter call. The GTE commands act on the
working state between an unpack and a pack of the register arrays. -/
structure Host (M : Type) where
  bus : Bus M
  gteCommand : Word → GTEState → GTEState
  hostFn : HostFn → Word → Word → Word
  syscall : Word → CPUState M → Bool × CPUState M
  /-- What the word at an address leaves that raises an exception. -/
  raise : Trap → Word → Word → CPUState M → CPUState M

/-- The straight-line statements. A load without destination keeps the read. -/
inductive Stmt where
  | nop
  | setGpr (r : RegIndex) (e : Expr)
  | setHi (e : Expr)
  | setLo (e : Expr)
  | setCop0 (r : RegIndex) (e : Expr)
  | setGteData (r : RegIndex) (e : Expr)
  | setGteCtrl (r : RegIndex) (e : Expr)
  | gteWriteData (r : RegIndex) (e : Expr)
  | gteWriteCtrl (r : RegIndex) (e : Expr)
  | gteExecute (cmd : Word)
  | load (dst : Option RegIndex) (kind : LoadKind) (addr : Expr)
  | loadMerge (dst : Option RegIndex) (side : MergeSide) (style : MergeStyle) (addr : Expr)
  | loadGte (accessor : Bool) (r : RegIndex) (addr : Expr)
  | store (width : Width) (addr value : Expr)
  | storeMerge (side : MergeSide) (style : MergeStyle) (addr value : Expr)
  | mult (a b : Expr)
  | multu (a b : Expr)
  | div (a b : Expr)
  | divGuarded (a b : Expr)
  | divu (a b : Expr)
  | divuSubtract (a b : Expr)
  | rfe (keep : Word)
  | addTrapping (dst : Option RegIndex) (a b : Expr)
  | checkAligned (mask : Word) (addr : Expr) (trap : Trap)
  | checkCop1
  | syscall (code : Word)
  | syscallOrReturn (pc : Word)
  | setPc (e : Expr)
  | raise (trap : Trap)
  | ret
deriving DecidableEq, Repr

/-- How a piece of emitted code ends. -/
inductive Flow (M : Type) where
  | next (s : CPUState M)
  | goto (target : Word) (s : CPUState M)
  | ret (s : CPUState M)
  | trap (t : Trap)
  | undefined

variable {M : Type}

def ofBool (b : Bool) : Word := if b then 1 else 0

/-- The value of an expression; signed overflow wraps here and is reported by
`Expr.defined`. -/
@[grind =] def Expr.eval (h : Host M) (s : CPUState M) : Expr → Word
  | .lit w => w
  | .gpr r => s.gpr r
  | .hi => s.hi
  | .lo => s.lo
  | .cop0 r => s.cop0 r
  | .gteData r => s.gteData r
  | .gteCtrl r => s.gteCtrl r
  | .gteReadData r => readData s r
  | .gteReadCtrl r => readCtrl s r
  | .add a b => a.eval h s + b.eval h s
  | .sub a b => a.eval h s - b.eval h s
  | .and a b => a.eval h s &&& b.eval h s
  | .or a b => a.eval h s ||| b.eval h s
  | .xor a b => a.eval h s ^^^ b.eval h s
  | .not a => ~~~(a.eval h s)
  | .shl a n => a.eval h s <<< (n.eval h s)
  | .shr a n => a.eval h s >>> (n.eval h s)
  | .sar a n => (a.eval h s).sshiftRight (n.eval h s).toNat
  | .slt a b => ofBool ((a.eval h s).slt (b.eval h s))
  | .sltu a b => ofBool ((a.eval h s).ult (b.eval h s))
  | .sle a b => ofBool ((a.eval h s).sle (b.eval h s))
  | .eq a b => ofBool (a.eval h s == b.eval h s)
  | .ne a b => ofBool (a.eval h s != b.eval h s)
  | .addSigned a b => a.eval h s + b.eval h s
  | .negSigned a => -(a.eval h s)
  | .host f a b => h.hostFn f (a.eval h s) (b.eval h s)

/-- No signed operation inside the expression overflows. -/
def Expr.defined (h : Host M) (s : CPUState M) : Expr → Bool
  | .addSigned a b =>
      a.defined h s && b.defined h s && !BitVec.saddOverflow (a.eval h s) (b.eval h s)
  | .negSigned a => a.defined h s && !BitVec.negOverflow (a.eval h s)
  | .add a b | .sub a b | .and a b | .or a b | .xor a b | .shl a b | .shr a b | .sar a b
  | .slt a b | .sltu a b | .sle a b | .eq a b | .ne a b | .host _ a b =>
      a.defined h s && b.defined h s
  | .not a => a.defined h s
  | .lit _ | .gpr _ | .hi | .lo | .cop0 _ | .gteData _ | .gteCtrl _ | .gteReadData _
  | .gteReadCtrl _ => true

def isIntMin (w : Word) : Bool := w == 0x80000000#32

/-- `psx_lwl` and `lwl_merge`. -/
def lwlTable (addr word old : Word) : Word :=
  match (addr &&& 3#32).toNat with
  | 0 => (old &&& 0x00FFFFFF#32) ||| (word <<< 24)
  | 1 => (old &&& 0x0000FFFF#32) ||| (word <<< 16)
  | 2 => (old &&& 0x000000FF#32) ||| (word <<< 8)
  | _ => word

/-- `psx_lwr` and `lwr_merge`. -/
def lwrTable (addr word old : Word) : Word :=
  match (addr &&& 3#32).toNat with
  | 0 => word
  | 1 => (old &&& 0xFF000000#32) ||| (word >>> 8)
  | 2 => (old &&& 0xFFFF0000#32) ||| (word >>> 16)
  | _ => (old &&& 0xFFFFFF00#32) ||| (word >>> 24)

/-- `psx_swl` and `interp_swl`. -/
def swlTable (addr word value : Word) : Word :=
  match (addr &&& 3#32).toNat with
  | 0 => (word &&& 0xFFFFFF00#32) ||| (value >>> 24)
  | 1 => (word &&& 0xFFFF0000#32) ||| (value >>> 16)
  | 2 => (word &&& 0xFF000000#32) ||| (value >>> 8)
  | _ => value

/-- `psx_swr` and `interp_swr`. -/
def swrTable (addr word value : Word) : Word :=
  match (addr &&& 3#32).toNat with
  | 0 => value
  | 1 => (word &&& 0x000000FF#32) ||| (value <<< 8)
  | 2 => (word &&& 0x0000FFFF#32) ||| (value <<< 16)
  | _ => (word &&& 0x00FFFFFF#32) ||| (value <<< 24)

def lwlShifts (addr word old : Word) : Word :=
  let shiftLeft := (3#32 - (addr &&& 3#32)) * 8#32
  (old &&& ((1#32 <<< shiftLeft) - 1#32)) ||| (word <<< shiftLeft)

def lwrShifts (addr word old : Word) : Word :=
  let shiftRight := (addr &&& 3#32) * 8#32
  (old &&& ~~~(0xFFFFFFFF#32 >>> shiftRight)) ||| (word >>> shiftRight)

def swlShifts (addr word value : Word) : Word :=
  let shiftBytes := addr &&& 3#32
  (word &&& (0x00FFFFFF#32 >>> (shiftBytes * 8#32))) ||| (value >>> ((3#32 - shiftBytes) * 8#32))

def swrShifts (addr word value : Word) : Word :=
  let shiftBytes := addr &&& 3#32
  (word &&& (0xFFFFFF00#32 <<< ((3#32 - shiftBytes) * 8#32))) ||| (value <<< (shiftBytes * 8#32))

@[grind =] def loadMerged : MergeSide → MergeStyle → Word → Word → Word → Word
  | .left, .table => lwlTable
  | .right, .table => lwrTable
  | .left, .shifts => lwlShifts
  | .right, .shifts => lwrShifts

@[grind =] def storeMerged : MergeSide → MergeStyle → Word → Word → Word → Word
  | .left, .table => swlTable
  | .right, .table => swrTable
  | .left, .shifts => swlShifts
  | .right, .shifts => swrShifts

/-- A load through the bus, with the value extended to a word. -/
@[grind =] def busLoad (bus : Bus M) (kind : LoadKind) (addr : Word) (m : M) : Word × M :=
  match kind with
  | .word => bus.readWord addr m
  | .half => ((bus.readHalf addr m).1.signExtend 32, (bus.readHalf addr m).2)
  | .halfUnsigned => ((bus.readHalf addr m).1.zeroExtend 32, (bus.readHalf addr m).2)
  | .byte => ((bus.readByte addr m).1.signExtend 32, (bus.readByte addr m).2)
  | .byteUnsigned => ((bus.readByte addr m).1.zeroExtend 32, (bus.readByte addr m).2)

/-- A store through the bus of the low bytes of a word. -/
def busStore (bus : Bus M) (width : Width) (sr addr value : Word) (m : M) : M :=
  match width with
  | .word => bus.writeWord sr addr value m
  | .half => bus.writeHalf sr addr (value.truncate 16) m
  | .byte => bus.writeByte sr addr (value.truncate 8) m

@[grind =] def setDst (s : CPUState M) (dst : Option RegIndex) (v : Word) : CPUState M :=
  match dst with
  | none => s
  | some r => s.setGpr r v

/-- The old value of a merge destination, which a discarded merge does not read. -/
def dstValue (s : CPUState M) (dst : Option RegIndex) : Word :=
  match dst with
  | none => 0
  | some r => s.gpr r

@[grind =] def alignDown (addr : Word) : Word := addr &&& ~~~3#32

def multSigned (a b : Word) : Word × Word :=
  let r : BitVec 64 := a.signExtend 64 * b.signExtend 64
  (r.extractLsb' 32 32, r.extractLsb' 0 32)

def multUnsigned (a b : Word) : Word × Word :=
  let r : BitVec 64 := a.zeroExtend 64 * b.zeroExtend 64
  (r.extractLsb' 32 32, r.extractLsb' 0 32)

/-- `(sr & keep) | ((sr >> 2) & 15)`. -/
@[grind =] def popStatus (keep sr : Word) : Word := (sr &&& keep) ||| ((sr >>> 2) &&& 0x0F#32)

/-- Coprocessor 1 is enabled in the status register. -/
@[grind =] def cop1Usable (s : CPUState M) : Bool := s.sr &&& 0x20000000#32 != 0

/-- `gte_execute`. -/
def runGteCommand (h : Host M) (s : CPUState M) (cmd : Word) : CPUState M :=
  storeState s (h.gteCommand cmd (unpackRegisters s.gteData s.gteCtrl false))

@[grind =] def Stmt.exec (h : Host M) (s : CPUState M) : Stmt → Flow M
  | .nop => .next s
  | .setGpr r e => if e.defined h s then .next (s.setGpr r (e.eval h s)) else .undefined
  | .setHi e => .next { s with hi := e.eval h s }
  | .setLo e => .next { s with lo := e.eval h s }
  | .setCop0 r e => .next { s with cop0 := Function.update s.cop0 r (e.eval h s) }
  | .setGteData r e => .next { s with gteData := Function.update s.gteData r (e.eval h s) }
  | .setGteCtrl r e => .next { s with gteCtrl := Function.update s.gteCtrl r (e.eval h s) }
  | .gteWriteData r e => .next (writeData s r (e.eval h s))
  | .gteWriteCtrl r e => .next (writeCtrl s r (e.eval h s))
  | .gteExecute cmd => .next (runGteCommand h s cmd)
  | .load dst kind addr =>
      if addr.defined h s then
        let r := busLoad h.bus kind (addr.eval h s) s.mem
        .next (setDst { s with mem := r.2 } dst r.1)
      else .undefined
  | .loadMerge dst side style addr =>
      if addr.defined h s then
        let a := addr.eval h s
        let r := h.bus.readWord (alignDown a) s.mem
        .next (setDst { s with mem := r.2 } dst (loadMerged side style a r.1 (dstValue s dst)))
      else .undefined
  | .loadGte accessor reg addr =>
      if addr.defined h s then
        let r := h.bus.readWord (addr.eval h s) s.mem
        let s' := { s with mem := r.2 }
        .next (if accessor then writeData s' reg r.1
          else { s' with gteData := Function.update s'.gteData reg r.1 })
      else .undefined
  | .store width addr value =>
      if addr.defined h s then
        .next { s with mem := busStore h.bus width s.sr (addr.eval h s) (value.eval h s) s.mem }
      else .undefined
  | .storeMerge side style addr value =>
      if addr.defined h s then
        let a := addr.eval h s
        let r := h.bus.readWord (alignDown a) s.mem
        .next { s with
          mem := h.bus.writeWord s.sr (alignDown a)
            (storeMerged side style a r.1 (value.eval h s)) r.2 }
      else .undefined
  | .mult a b =>
      let r := multSigned (a.eval h s) (b.eval h s)
      .next { s with hi := r.1, lo := r.2 }
  | .multu a b =>
      let r := multUnsigned (a.eval h s) (b.eval h s)
      .next { s with hi := r.1, lo := r.2 }
  | .div a b =>
      let n := a.eval h s
      let d := b.eval h s
      if d ≠ 0 then
        if isIntMin n && d == 0xFFFFFFFF#32 then .undefined
        else .next { s with lo := n.sdiv d, hi := n.srem d }
      else .next { s with lo := if n.slt 0 then 1 else 0xFFFFFFFF#32, hi := n }
  | .divGuarded a b =>
      let n := a.eval h s
      let d := b.eval h s
      if d = 0 then .next { s with lo := if n.slt 0 then 1 else 0xFFFFFFFF#32, hi := n }
      else if isIntMin n && d == 0xFFFFFFFF#32 then .next { s with lo := 0x80000000#32, hi := 0 }
      else .next { s with lo := n.sdiv d, hi := n - n.sdiv d * d }
  | .divu a b =>
      let n := a.eval h s
      let d := b.eval h s
      if d ≠ 0 then .next { s with lo := n / d, hi := n % d }
      else .next { s with lo := 0xFFFFFFFF#32, hi := n }
  | .divuSubtract a b =>
      let n := a.eval h s
      let d := b.eval h s
      if d = 0 then .next { s with lo := 0xFFFFFFFF#32, hi := n }
      else .next { s with lo := n / d, hi := n - n / d * d }
  | .rfe keep => .next { s with cop0 := Function.update s.cop0 12 (popStatus keep s.sr) }
  | .addTrapping dst a b =>
      if BitVec.saddOverflow (a.eval h s) (b.eval h s) then .trap .arithOverflow
      else .next (setDst s dst (a.eval h s + b.eval h s))
  | .checkAligned mask addr trap =>
      if addr.defined h s then
        if addr.eval h s &&& mask = 0 then .next s else .trap trap
      else .undefined
  | .checkCop1 => if cop1Usable s then .next s else .trap .copUnusable
  | .syscall code => .next (h.syscall code s).2
  | .syscallOrReturn pc =>
      let r := h.syscall (s.gpr 2) { s with pc := pc }
      if r.1 then .ret r.2 else .next r.2
  | .setPc e => .next { s with pc := e.eval h s }
  | .raise trap => .trap trap
  | .ret => .ret s

theorem Stmt.exec_setGpr {h : Host M} {s : CPUState M} {r : RegIndex} {e : Expr}
    (hDefined : e.defined h s = true) :
    (Stmt.setGpr r e).exec h s = .next (s.setGpr r (e.eval h s)) := by
  rw [Stmt.exec, if_pos hDefined]

/-- Statements in sequence, up to the first that does not fall through. -/
@[grind =] def execStmts (h : Host M) (s : CPUState M) : List Stmt → Flow M
  | [] => .next s
  | stmt :: rest =>
      match stmt.exec h s with
      | .next s' => execStmts h s' rest
      | other => other

/-- A host with one word of memory behind every address. -/
def cellHost : Host Word where
  bus :=
    { readWord := fun _ m => (m, m)
      readHalf := fun _ m => (m.truncate 16, m)
      readByte := fun _ m => (m.truncate 8, m)
      writeWord := fun _ _ v _ => v
      writeHalf := fun _ _ v _ => v.zeroExtend 32
      writeByte := fun _ _ v _ => v.zeroExtend 32 }
  gteCommand := fun _ g => g
  hostFn := fun _ a _ => a
  syscall := fun _ s => (false, s)
  raise := fun _ _ _ s => s

/-- All registers zero. -/
def blankState (m : Word) : CPUState Word where
  gpr := fun _ => 0
  pc := 0
  hi := 0
  lo := 0
  cop0 := fun _ => 0
  gteData := fun _ => 0
  gteCtrl := fun _ => 0
  mem := m

end RecompStudio.Emitted
