import RecompStudio.Emitted.Syntax
import RecompStudio.Library.Staged

/-!
The sljit instructions that the overlay compiler uses, on a 64-bit host, with
the meaning that `sljitLir.h` gives them. What the header leaves undefined
leaves the run undefined here.
-/

namespace RecompStudio.Sljit

open RecompStudio.Emitted
open RecompStudio.Gte
open RecompStudio.Insn

variable {M : Type}

/-- The host registers the compiler names, next to `S0`, which holds the CPU
state: the scratch registers, the temporary `S1` of a control transfer, and the
saved registers from `S2` on. -/
inductive HostReg where
  | r0 | r1 | r2 | r3 | r4
  | ctrl
  | slot (k : Nat)
deriving DecidableEq, Repr

/-- The words of the CPU state that are addressed relative to `S0`. -/
inductive Field where
  | gpr (r : RegIndex)
  | hi
  | lo
  | pc
deriving DecidableEq, Repr

inductive Operand where
  | reg (r : HostReg)
  | imm (v : BitVec 64)
  | mem (f : Field)
deriving DecidableEq, Repr

inductive Dest where
  | reg (r : HostReg)
  | mem (f : Field)
deriving DecidableEq, Repr

inductive Op1 where
  | mov32 | movS8 | movU8 | movS16 | movU16 | movS32 | movU32
deriving DecidableEq, Repr

inductive Op2 where
  | add32 | sub32 | and32 | or32 | xor32 | shl32 | lshr32 | ashr32 | mul | lshr
deriving DecidableEq, Repr

/-- The status flags that a subtraction is told to set. -/
inductive FlagType where
  | zero | less | sigLess | sigGreater
deriving DecidableEq, Repr

inductive Cond where
  | equal | notEqual | less | sigLess | sigGreaterEqual | sigGreater | sigLessEqual
deriving DecidableEq, Repr

/-- The flag that decides a condition. -/
def Cond.flagType : Cond → FlagType
  | .equal | .notEqual => .zero
  | .less => .less
  | .sigLess | .sigGreaterEqual => .sigLess
  | .sigGreater | .sigLessEqual => .sigGreater

@[grind =] def Cond.holds {w : Nat} : Cond → BitVec w → BitVec w → Bool
  | .equal, a, b => a == b
  | .notEqual, a, b => a != b
  | .less, a, b => a.ult b
  | .sigLess, a, b => a.slt b
  | .sigGreaterEqual, a, b => b.sle a
  | .sigGreater, a, b => b.slt a
  | .sigLessEqual, a, b => a.sle b

/-- The functions that are called through pointers in the CPU state. -/
inductive HostCall where
  | readWord | readHalf | readByte | writeWord | writeHalf | writeByte
  | memx | cop2 | call
deriving DecidableEq, Repr

/-- One instruction. A call also loads its pointer, into a scratch register that
carries no argument. A jump that is bound to a label further on in the code of
the same guest instruction skips what lies between; the others name the word
whose label they are bound to. -/
inductive Lir where
  | op1 (op : Op1) (dst : Dest) (src : Operand)
  | op2 (op : Op2) (dst : HostReg) (a b : Operand)
  | sub32u (set : FlagType) (a b : Operand)
  | opFlags (dst : HostReg) (cc : Cond)
  | divmod32 (signed : Bool)
  | icall (f : HostCall)
  | cmpSkip32 (cc : Cond) (a b : Operand) (n : Nat)
  | cmpSkip (cc : Cond) (a b : Operand) (n : Nat)
  | skip (n : Nat)
  | cmpJump (cc : Cond) (a b : Operand) (word : Nat)
  | jump (word : Nat)
  | label (word : Nat)
  | returnVoid
deriving DecidableEq, Repr

/-- What a 32-bit operation leaves in the upper half of its result. The header
leaves that to the host CPU. -/
inductive Extension where
  | zero | sign
deriving DecidableEq, Repr

def Extension.widen : Extension → Word → BitVec 64
  | .zero, w => w.zeroExtend 64
  | .sign, w => w.signExtend 64

/-- The lower half, which is all that 32-bit operations read. -/
@[grind =] def low (x : BitVec 64) : Word := x.setWidth 32

/-- The callee of a guest call, run as a unit. It is entered with a program
counter of zero, and says whether it came back to the call; if so it left the
program counter so. -/
structure GuestCall (M : Type) where
  run : (target returnPc : Word) → (check : Bool) → CPUState M → CPUState M × Bool
  keepsZero : ∀ target returnPc check s,
    s.gpr 0 = 0 → (run target returnPc check s).1.gpr 0 = 0
  clearsPc : ∀ target returnPc check s,
    (run target returnPc check s).2 = false → (run target returnPc check s).1.pc = 0

/-- What the emitted code runs on. -/
structure Platform (M : Type) where
  host : Host M
  guestCall : GuestCall M
  extension : Extension
  clobber : HostReg → BitVec 64

structure HostState (M : Type) where
  regs : HostReg → BitVec 64
  flags : Option (FlagType × Word × Word)
  skip : Nat
  cpu : CPUState M

/-- How emitted code is left other than to the next instruction. -/
inductive Leave (M : Type) where
  | jumped (word : Nat) (st : HostState M)
  | returned (cpu : CPUState M)
  | undefined

def Field.read (s : CPUState M) : Field → Word
  | .gpr r => s.gpr r
  | .hi => s.hi
  | .lo => s.lo
  | .pc => s.pc

def Field.write (s : CPUState M) : Field → Word → CPUState M
  | .gpr r, v => s.setGpr r v
  | .hi, v => { s with hi := v }
  | .lo, v => { s with lo := v }
  | .pc, v => { s with pc := v }

namespace HostState

def setReg (st : HostState M) (r : HostReg) (v : BitVec 64) : HostState M :=
  { st with regs := Function.update st.regs r v }

/-- The result of an operation that leaves the flags undefined. -/
def assign (st : HostState M) (r : HostReg) (v : BitVec 64) : HostState M :=
  { st.setReg r v with flags := none }

@[grind =] def eval (p : Platform M) (st : HostState M) : Operand → BitVec 64
  | .reg r => st.regs r
  | .imm v => v
  | .mem f => p.extension.widen (f.read st.cpu)

def write (st : HostState M) : Dest → BitVec 64 → HostState M
  | .reg r, v => st.setReg r v
  | .mem f, v => { st with cpu := f.write st.cpu (low v) }

end HostState

@[grind =] def Op1.apply (e : Extension) (x : BitVec 64) : Op1 → BitVec 64
  | .mov32 => e.widen (low x)
  | .movS8 => (x.setWidth 8).signExtend 64
  | .movU8 => (x.setWidth 8).zeroExtend 64
  | .movS16 => (x.setWidth 16).signExtend 64
  | .movU16 => (x.setWidth 16).zeroExtend 64
  | .movS32 => (low x).signExtend 64
  | .movU32 => (low x).zeroExtend 64

/-- A shift count: an immediate one is masked, one in a register must be in
range. -/
def shiftCount (width : Nat) (b : Operand) (value : Nat) : Option Nat :=
  match b with
  | .imm _ => some (value % width)
  | _ => if value < width then some value else none

@[grind =] def Op2.apply (e : Extension) (b : Operand) (x y : BitVec 64) : Op2 → Option (BitVec 64)
  | .add32 => some (e.widen (low x + low y))
  | .sub32 => some (e.widen (low x - low y))
  | .and32 => some (e.widen (low x &&& low y))
  | .or32 => some (e.widen (low x ||| low y))
  | .xor32 => some (e.widen (low x ^^^ low y))
  | .shl32 => (shiftCount 32 b (low y).toNat).map fun n => e.widen (low x <<< n)
  | .lshr32 => (shiftCount 32 b (low y).toNat).map fun n => e.widen (low x >>> n)
  | .ashr32 => (shiftCount 32 b (low y).toNat).map fun n => e.widen ((low x).sshiftRight n)
  | .mul => some (x * y)
  | .lshr => (shiftCount 64 b y.toNat).map fun n => x >>> n

/-- `psx_sljit_cop2`. -/
def sljitCop2 (h : Host M) (insn : Word) (s : CPUState M) : CPUState M :=
  match Op.ofWord insn with
  | .cop2 =>
      if rs insn = 0x00 then (s.setGpr (rt insn) (readData s (rd insn))).setGpr 0 0
      else if rs insn = 0x02 then (s.setGpr (rt insn) (readCtrl s (rd insn))).setGpr 0 0
      else if rs insn = 0x04 then writeData s (rd insn) (s.gpr (rt insn))
      else if rs insn = 0x06 then writeCtrl s (rd insn) (s.gpr (rt insn))
      else if rs insn &&& 0x10 ≠ 0 then runGteCommand h s (insn &&& 0x1FFFFFF#32)
      else s
  | .lwc2 =>
      let r := h.bus.readWord (s.gpr (rs insn) + simm insn) s.mem
      writeData { s with mem := r.2 } (rt insn) r.1
  | .swc2 =>
      { s with
        mem := h.bus.writeWord s.sr (s.gpr (rs insn) + simm insn) (readData s (rt insn)) s.mem }
  | _ => s

/-- `psx_sljit_memx`. It reads the word before it looks at the operation. -/
def sljitMemx (h : Host M) (insn : Word) (s : CPUState M) : CPUState M :=
  let addr := s.gpr (rs insn) + simm insn
  let r := h.bus.readWord (alignDown addr) s.mem
  let s' := { s with mem := r.2 }
  match Op.ofWord insn with
  | .lwl => (s'.setGpr (rt insn) (lwlTable addr r.1 (s.gpr (rt insn)))).setGpr 0 0
  | .lwr => (s'.setGpr (rt insn) (lwrTable addr r.1 (s.gpr (rt insn)))).setGpr 0 0
  | .swl =>
      { s' with
        mem := h.bus.writeWord s.sr (alignDown addr) (swlTable addr r.1 (s.gpr (rt insn))) r.2 }
  | .swr =>
      { s' with
        mem := h.bus.writeWord s.sr (alignDown addr) (swrTable addr r.1 (s.gpr (rt insn))) r.2 }
  | _ => s'

/-- What a called function returns, and the CPU state it leaves. -/
@[grind =] def HostCall.perform (p : Platform M) (st : HostState M) : HostCall → Word × CPUState M
  | .readWord =>
      let r := p.host.bus.readWord (low (st.regs .r0)) st.cpu.mem
      (r.1, { st.cpu with mem := r.2 })
  | .readHalf =>
      let r := p.host.bus.readHalf (low (st.regs .r0)) st.cpu.mem
      (r.1.zeroExtend 32, { st.cpu with mem := r.2 })
  | .readByte =>
      let r := p.host.bus.readByte (low (st.regs .r0)) st.cpu.mem
      (r.1.zeroExtend 32, { st.cpu with mem := r.2 })
  | .writeWord =>
      (0, { st.cpu with
        mem := p.host.bus.writeWord st.cpu.sr (low (st.regs .r0)) (low (st.regs .r1)) st.cpu.mem })
  | .writeHalf =>
      (0, { st.cpu with
        mem := p.host.bus.writeHalf st.cpu.sr (low (st.regs .r0))
          ((low (st.regs .r1)).setWidth 16) st.cpu.mem })
  | .writeByte =>
      (0, { st.cpu with
        mem := p.host.bus.writeByte st.cpu.sr (low (st.regs .r0))
          ((low (st.regs .r1)).setWidth 8) st.cpu.mem })
  | .memx => (0, sljitMemx p.host (low (st.regs .r1)) st.cpu)
  | .cop2 => (0, sljitCop2 p.host (low (st.regs .r1)) st.cpu)
  | .call =>
      let r := p.guestCall.run (low (st.regs .r1)) (low (st.regs .r2))
        (low (st.regs .r3) != 0) { st.cpu with pc := 0 }
      (ofBool r.2, r.1)

/-- The registers after a call: the result in `R0`, the other scratch registers
as the callee left them, the saved ones as they were. -/
@[grind =] def afterCall (p : Platform M) (regs : HostReg → BitVec 64) (result : Word) :
    HostReg → BitVec 64
  | .r0 => p.extension.widen result
  | .ctrl => regs .ctrl
  | .slot k => regs (.slot k)
  | r => p.clobber r

/-- `SLJIT_DIVMOD_S32` and `SLJIT_DIVMOD_U32`. -/
@[grind =] def divmod (signed : Bool) (a b : Word) : Option (Word × Word) :=
  if b = 0 then none
  else if signed then
    if isIntMin a && b == 0xFFFFFFFF#32 then none else some (a.sdiv b, a.srem b)
  else some (a / b, a % b)

/-- One instruction that is not skipped. -/
@[grind =] def execute (p : Platform M) (st : HostState M) : Lir → Except (Leave M) (HostState M)
  | .op1 op dst src => .ok (st.write dst (op.apply p.extension (st.eval p src)))
  | .op2 op dst a b =>
      match op.apply p.extension b (st.eval p a) (st.eval p b) with
      | some v => .ok (st.assign dst v)
      | none => .error .undefined
  | .sub32u set a b =>
      .ok { st with flags := some (set, low (st.eval p a), low (st.eval p b)) }
  | .opFlags dst cc =>
      match st.flags with
      | some (set, a, b) =>
          if set = cc.flagType then
            .ok (st.setReg dst (p.extension.widen (ofBool (cc.holds a b))))
          else .error .undefined
      | none => .error .undefined
  | .divmod32 signed =>
      match divmod signed (low (st.regs .r0)) (low (st.regs .r1)) with
      | some (q, r) =>
          .ok ((st.assign .r0 (p.extension.widen q)).assign .r1 (p.extension.widen r))
      | none => .error .undefined
  | .icall f =>
      let r := f.perform p st
      .ok { st with regs := afterCall p st.regs r.1, flags := none, cpu := r.2 }
  | .cmpSkip32 cc a b n =>
      .ok { st with
        flags := none
        skip := if cc.holds (low (st.eval p a)) (low (st.eval p b)) then n else 0 }
  | .cmpSkip cc a b n =>
      .ok { st with flags := none, skip := if cc.holds (st.eval p a) (st.eval p b) then n else 0 }
  | .skip n => .ok { st with skip := n }
  | .cmpJump cc a b word =>
      if cc.holds (st.eval p a) (st.eval p b) then .error (.jumped word { st with flags := none })
      else .ok { st with flags := none }
  | .jump word => .error (.jumped word st)
  | .label _ => .ok st
  | .returnVoid => .error (.returned st.cpu)

def step (p : Platform M) (st : HostState M) (i : Lir) : Except (Leave M) (HostState M) :=
  match st.skip with
  | 0 => execute p st i
  | n + 1 => .ok { st with skip := n }

theorem step_of_running {p : Platform M} {st : HostState M} (h : st.skip = 0) (i : Lir) :
    step p st i = execute p st i := by
  rw [step, h]

@[simp] theorem low_widen (e : Extension) (w : Word) : low (e.widen w) = w := by
  cases e with
  | zero => simp [Extension.widen, low]
  | sign =>
      apply BitVec.eq_of_getLsbD_eq
      intro i hi
      simp only [Extension.widen, low, BitVec.getLsbD_setWidth, BitVec.getLsbD_signExtend]
      simp [hi, show i < 64 by omega]

@[simp] theorem low_ofNat (n : Nat) : low (BitVec.ofNat 64 n) = BitVec.ofNat 32 n := by
  simp [low]

namespace HostState

@[simp] theorem setReg_regs (st : HostState M) (r : HostReg) (v : BitVec 64) :
    (st.setReg r v).regs = Function.update st.regs r v := rfl

@[simp] theorem setReg_cpu (st : HostState M) (r : HostReg) (v : BitVec 64) :
    (st.setReg r v).cpu = st.cpu := rfl

@[simp] theorem setReg_skip (st : HostState M) (r : HostReg) (v : BitVec 64) :
    (st.setReg r v).skip = st.skip := rfl

@[simp] theorem setReg_flags (st : HostState M) (r : HostReg) (v : BitVec 64) :
    (st.setReg r v).flags = st.flags := rfl

@[simp] theorem assign_regs (st : HostState M) (r : HostReg) (v : BitVec 64) :
    (st.assign r v).regs = Function.update st.regs r v := rfl

@[simp] theorem assign_cpu (st : HostState M) (r : HostReg) (v : BitVec 64) :
    (st.assign r v).cpu = st.cpu := rfl

@[simp] theorem assign_skip (st : HostState M) (r : HostReg) (v : BitVec 64) :
    (st.assign r v).skip = st.skip := rfl

theorem assign_assign (st : HostState M) (r : HostReg) (v w : BitVec 64) :
    (st.assign r v).assign r w = st.assign r w := by
  simp [assign, setReg]

end HostState

end RecompStudio.Sljit
