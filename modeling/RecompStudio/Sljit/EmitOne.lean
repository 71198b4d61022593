import RecompStudio.Sljit.GprCache

/-!
The code that the overlay compiler emits for one guest instruction that does not
transfer control. The widescreen hooks are off, so that no site is routed
through them.
-/

namespace RecompStudio.Sljit

open RecompStudio.Insn
open RecompStudio.Staged.Emit

/-- The sign-extended immediate as the compiler passes it on. -/
def simm64 (w : Word) : BitVec 64 := (imm16 w).signExtend 64

/-- Where both operands are immediate, the first goes to `R0`. -/
def oneReg (a b : Operand) : Emit Operand :=
  match a, b with
  | .imm _, .imm _ => asReg a .r0
  | _, _ => pure a

def emitAluRr (op : Op2) (rd rs rt : RegIndex) : Emit Unit := do
  let a ← gprSrc rs
  let b ← gprSrc rt
  let a ← oneReg a b
  let d ← gprDst rd
  emit (.op2 op d a b)
  gprUnpin

def emitNor (rd rs rt : RegIndex) : Emit Unit := do
  let a ← gprSrc rs
  let b ← gprSrc rt
  let a ← oneReg a b
  let d ← gprDst rd
  emit (.op2 .or32 d a b)
  emit (.op2 .xor32 d (.reg d) (.imm (-1)))
  gprUnpin

def emitShiftImm (op : Op2) (rd rt : RegIndex) (sh : RegIndex) : Emit Unit := do
  let a ← gprSrc rt
  let a ← asReg a .r0
  let d ← gprDst rd
  emit (.op2 op d a (.imm (sh.zeroExtend 64)))
  gprUnpin

def emitShiftVar (op : Op2) (rd rt rs : RegIndex) : Emit Unit := do
  let count ← gprSrc rs
  match count with
  | .imm v =>
      let a ← gprSrc rt
      let a ← asReg a .r0
      let d ← gprDst rd
      emit (.op2 op d a (.imm (v &&& 31)))
      gprUnpin
  | _ =>
      emit (.op2 .and32 .r1 count (.imm 31))
      let a ← gprSrc rt
      let a ← asReg a .r0
      let d ← gprDst rd
      emit (.op2 op d a (.reg .r1))
      gprUnpin

/-- A comparison with a register or with an immediate. The destination comes
before the comparison, so that no store lies between the flags and their use. -/
def emitSlt (set : FlagType) (cc : Cond) (dst rs : RegIndex) (rhs : Emit Operand) : Emit Unit := do
  let a ← gprSrc rs
  let b ← rhs
  let a ← oneReg a b
  let d ← gprDst dst
  emit (.sub32u set a b)
  emit (.opFlags d cc)
  gprUnpin

/-- The address of a load or store in `R0`. -/
def emitAddr (a : Operand) (simm : BitVec 64) : Emit Unit := do
  emit (.op1 .mov32 (.reg .r0) a)
  if simm ≠ 0 then emit (.op2 .add32 .r0 (.reg .r0) (.imm simm))

def emitLoad (f : HostCall) (ext : Op1) (rt rs : RegIndex) (simm : BitVec 64) : Emit Unit := do
  let a ← gprSrc rs
  emitAddr a simm
  emit (.icall f)
  if ext ≠ .mov32 then emit (.op1 ext (.reg .r0) (.reg .r0))
  let d ← gprDst rt
  emit (.op1 .mov32 (.reg d) (.reg .r0))
  gprUnpin

def emitStore (f : HostCall) (rt rs : RegIndex) (simm : BitVec 64) : Emit Unit := do
  let a ← gprSrc rs
  emitAddr a simm
  let b ← gprSrc rt
  emit (.op1 .mov32 (.reg .r1) b)
  emit (.icall f)
  gprUnpin

/-- A helper that works on the registers in memory: they are brought there
before, and the cache is dropped after. -/
def emitHelper2 (f : HostCall) (insn : Word) : Emit Unit := do
  gprFlush
  emit (.op1 .mov32 (.reg .r1) (.imm (insn.zeroExtend 64)))
  emit (.icall f)
  gprReset

/-- `mfhi` and `mflo`. -/
def emitMoveFrom (f : Field) (rd : RegIndex) : Emit Unit := do
  let d ← gprDst rd
  emit (.op1 .mov32 (.reg d) (.mem f))

/-- `mthi` and `mtlo`. -/
def emitMoveTo (f : Field) (rs : RegIndex) : Emit Unit := do
  let a ← gprSrc rs
  let a ← asReg a .r0
  emit (.op1 .mov32 (.mem f) a)
  gprUnpin

/-- Two operands in `R0` and `R1`, extended as the operation says. -/
def emitOperands (ext : Op1) (rs rt : RegIndex) : Emit Unit := do
  let a ← gprSrc rs
  emit (.op1 ext (.reg .r0) a)
  let b ← gprSrc rt
  emit (.op1 ext (.reg .r1) b)
  gprUnpin

def emitMult (ext : Op1) (rs rt : RegIndex) : Emit Unit := do
  emitOperands ext rs rt
  emit (.op2 .mul .r0 (.reg .r0) (.reg .r1))
  emit (.op1 .mov32 (.mem .lo) (.reg .r0))
  emit (.op2 .lshr .r0 (.reg .r0) (.imm 32))
  emit (.op1 .mov32 (.mem .hi) (.reg .r0))

/-- The signed division. Its three parts, the overflow, the quotient and the
division by zero, follow each other; the skips go to the part and to the end. -/
def divCode : List Lir :=
  [.cmpSkip32 .equal (.reg .r1) (.imm 0) 9,
    .cmpSkip32 .notEqual (.reg .r0) (.imm 0x80000000) 4,
    .cmpSkip32 .notEqual (.reg .r1) (.imm (-1)) 3,
    .op1 .mov32 (.mem .lo) (.imm 0x80000000),
    .op1 .mov32 (.mem .hi) (.imm 0),
    .skip 10,
    .divmod32 true,
    .op1 .mov32 (.mem .lo) (.reg .r0),
    .op1 .mov32 (.mem .hi) (.reg .r1),
    .skip 6,
    .sub32u .sigLess (.reg .r0) (.imm 0),
    .opFlags .r2 .sigLess,
    .op2 .shl32 .r2 (.reg .r2) (.imm 1),
    .op2 .sub32 .r2 (.reg .r2) (.imm 1),
    .op1 .mov32 (.mem .lo) (.reg .r2),
    .op1 .mov32 (.mem .hi) (.reg .r0)]

/-- The unsigned division. -/
def divuCode : List Lir :=
  [.cmpSkip32 .equal (.reg .r1) (.imm 0) 4,
    .divmod32 false,
    .op1 .mov32 (.mem .lo) (.reg .r0),
    .op1 .mov32 (.mem .hi) (.reg .r1),
    .skip 2,
    .op1 .mov32 (.mem .lo) (.imm 0xFFFFFFFF),
    .op1 .mov32 (.mem .hi) (.reg .r0)]

def emitDiv (code : List Lir) (rs rt : RegIndex) : Emit Unit := do
  emitOperands .mov32 rs rt
  emitAll code

def emitAddi (rt rs : RegIndex) (simm : BitVec 64) : Emit Unit := do
  let a ← gprSrc rs
  let d ← gprDst rt
  match a with
  | .imm v => emit (.op1 .mov32 (.reg d) (.imm (v + simm)))
  | _ => emit (.op2 .add32 d a (.imm simm))
  gprUnpin

/-- `andi`, `ori` and `xori`. -/
def emitLogicImm (op : Op2) (rt rs : RegIndex) (imm : BitVec 16) : Emit Unit := do
  let a ← gprSrc rs
  let a ← asReg a .r0
  let d ← gprDst rt
  emit (.op2 op d a (.imm (imm.zeroExtend 64)))
  gprUnpin

def emitLui (rt : RegIndex) (imm : Word) : Emit Unit := do
  let d ← gprDst rt
  emit (.op1 .mov32 (.reg d) (.imm ((imm <<< 16).zeroExtend 64)))

/-- `emit_one`, or `none` where it does not return `EMIT_OK`. -/
def emitOne (w : Word) : Option (Emit Unit) :=
  match Op.ofWord w with
  | .sll => some (emitShiftImm .shl32 (rd w) (rt w) (shamt w))
  | .srl => some (emitShiftImm .lshr32 (rd w) (rt w) (shamt w))
  | .sra => some (emitShiftImm .ashr32 (rd w) (rt w) (shamt w))
  | .sllv => some (emitShiftVar .shl32 (rd w) (rt w) (rs w))
  | .srlv => some (emitShiftVar .lshr32 (rd w) (rt w) (rs w))
  | .srav => some (emitShiftVar .ashr32 (rd w) (rt w) (rs w))
  | .sync => some (pure ())
  | .add | .addu => some (emitAluRr .add32 (rd w) (rs w) (rt w))
  | .sub | .subu => some (emitAluRr .sub32 (rd w) (rs w) (rt w))
  | .and => some (emitAluRr .and32 (rd w) (rs w) (rt w))
  | .or => some (emitAluRr .or32 (rd w) (rs w) (rt w))
  | .xor => some (emitAluRr .xor32 (rd w) (rs w) (rt w))
  | .nor => some (emitNor (rd w) (rs w) (rt w))
  | .slt => some (emitSlt .sigLess .sigLess (rd w) (rs w) (gprSrc (rt w)))
  | .sltu => some (emitSlt .less .less (rd w) (rs w) (gprSrc (rt w)))
  | .mfhi => some (emitMoveFrom .hi (rd w))
  | .mflo => some (emitMoveFrom .lo (rd w))
  | .mthi => some (emitMoveTo .hi (rs w))
  | .mtlo => some (emitMoveTo .lo (rs w))
  | .mult => some (emitMult .movS32 (rs w) (rt w))
  | .multu => some (emitMult .movU32 (rs w) (rt w))
  | .div => some (emitDiv divCode (rs w) (rt w))
  | .divu => some (emitDiv divuCode (rs w) (rt w))
  | .addi | .addiu => some (emitAddi (rt w) (rs w) (simm64 w))
  | .slti => some (emitSlt .sigLess .sigLess (rt w) (rs w) (pure (.imm (simm64 w))))
  | .sltiu => some (emitSlt .less .less (rt w) (rs w) (pure (.imm (simm64 w))))
  | .andi => some (emitLogicImm .and32 (rt w) (rs w) (imm16 w))
  | .ori => some (emitLogicImm .or32 (rt w) (rs w) (imm16 w))
  | .xori => some (emitLogicImm .xor32 (rt w) (rs w) (imm16 w))
  | .lui => some (emitLui (rt w) (uimm w))
  | .lb => some (emitLoad .readByte .movS8 (rt w) (rs w) (simm64 w))
  | .lh => some (emitLoad .readHalf .movS16 (rt w) (rs w) (simm64 w))
  | .lw => some (emitLoad .readWord .mov32 (rt w) (rs w) (simm64 w))
  | .lbu => some (emitLoad .readByte .movU8 (rt w) (rs w) (simm64 w))
  | .lhu => some (emitLoad .readHalf .movU16 (rt w) (rs w) (simm64 w))
  | .sb => some (emitStore .writeByte (rt w) (rs w) (simm64 w))
  | .sh => some (emitStore .writeHalf (rt w) (rs w) (simm64 w))
  | .sw => some (emitStore .writeWord (rt w) (rs w) (simm64 w))
  | .lwl | .lwr | .swl | .swr => some (emitHelper2 .memx w)
  | .cop2 | .lwc2 | .swc2 => some (emitHelper2 .cop2 w)
  | _ => none

/-- The register fields that `gpr_ref_mask` collects. -/
@[grind =] def gprRefs (w : Word) : Finset RegIndex :=
  match Op.ofWord w with
  | .jr => {rs w}
  | .jalr => {rs w, if rd w = 0 then 31 else rd w}
  | .regimm => if rt w = 0x10 ∨ rt w = 0x11 then {rs w, 31} else {rs w}
  | .jal => {31}
  | .lui => {rt w}
  | .beq | .bne | .blez | .bgtz | .addi | .addiu | .slti | .sltiu | .andi | .ori | .xori
  | .lb | .lh | .lwl | .lw | .lbu | .lhu | .sb | .sh | .sw => {rs w, rt w}
  | .j | .cop0 | .cop1 | .cop2 | .beql | .bnel | .blezl | .bgtzl | .lwr | .swl | .swr | .cache
  | .lwc1 | .lwc2 | .swc1 | .swc2 | .other => ∅
  | _ => {rs w, rt w, rd w}

/-- `gpr_ref_mask`: what an instruction reaches through the cache. -/
def gprRefMask (w : Word) : Finset RegIndex := (gprRefs w).erase 0

end RecompStudio.Sljit
