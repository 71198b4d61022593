import RecompStudio.CodeGen.Translate

/-!
The BIOS translator: the C statements for each supported instruction word.
Terminators are only named here; what the function emitter makes of them is
modelled with it.
-/

namespace RecompStudio.Bios

open RecompStudio.Emitted
open RecompStudio.Insn
open RecompStudio.CodeGen (gteDataValue gteCtrlValue gteDataWriteSpecial gteCtrlSpecial shamtLit)

/-- The kinds of terminator that end a slice. -/
inductive Terminator where
  | branch
  | jump
  | jal
  | jr
  | jalr
  | rfe
  | reservedInstruction
deriving DecidableEq, Repr

/-- The outcome of `translate` for one word. -/
inductive StrictResult where
  | code (stmts : List Stmt)
  | terminator (kind : Terminator) (stmts : List Stmt)
  | unsupported
deriving DecidableEq, Repr

/-- `emit_gpr_write`. -/
def emitGprWrite (dst : RegIndex) (e : Expr) : Stmt := if dst = 0 then .nop else .setGpr dst e

/-- `(uint32_t)((int32_t)rs + simm)`: a signed addition. -/
@[grind =] def strictAddr (w : Word) : Expr := .addSigned (.gpr (rs w)) (.lit (simm w))

/-- The address of `lwc2` and `swc2`, which skip the addition of zero. -/
@[grind =] def strictGteAddr (w : Word) : Expr := if simm w = 0 then .gpr (rs w) else strictAddr w

@[grind =] def optReg (r : RegIndex) : Option RegIndex := if r = 0 then none else some r

def strictBinary (op : Expr → Expr → Expr) (w : Word) : StrictResult :=
  .code [emitGprWrite (rd w) (op (.gpr (rs w)) (.gpr (rt w)))]

def strictShift (op : Expr → Expr → Expr) (w : Word) : StrictResult :=
  .code [emitGprWrite (rd w) (op (.gpr (rt w)) (shamtLit w))]

def strictShiftVar (op : Expr → Expr → Expr) (w : Word) : StrictResult :=
  .code [emitGprWrite (rd w) (op (.gpr (rt w)) (.and (.gpr (rs w)) (.lit 0x1F)))]

def strictImmediate (op : Expr → Expr → Expr) (imm : Word) (w : Word) : StrictResult :=
  .code [emitGprWrite (rt w) (op (.gpr (rs w)) (.lit imm))]

/-- A load with the alignment its width asks for; bytes ask for none. -/
@[grind =] def strictLoad (kind : LoadKind) (mask : Word) (w : Word) : StrictResult :=
  .code [.checkAligned mask (strictAddr w) .unalignedAccess,
    .load (optReg (rt w)) kind (strictAddr w)]

@[grind =] def strictStore (width : Width) (mask : Word) (w : Word) : StrictResult :=
  .code [.checkAligned mask (strictAddr w) .unalignedAccess,
    .store width (strictAddr w) (.gpr (rt w))]

def strictCop0 (w : Word) : StrictResult :=
  if w = 0x42000010#32 then .terminator .rfe [.rfe 0xFFFFFFC0#32, .ret]
  else if rs w = 0x00 then .code [emitGprWrite (rt w) (.cop0 (rd w))]
  else if rs w = 0x04 then .code [.setCop0 (rd w) (.gpr (rt w))]
  else .unsupported

def strictCop2 (w : Word) : StrictResult :=
  if rs w = 0x00 then .code [emitGprWrite (rt w) (gteDataValue (rd w))]
  else if rs w = 0x02 then .code [emitGprWrite (rt w) (gteCtrlValue (rd w))]
  else if rs w = 0x04 then
    .code [if gteDataWriteSpecial (rd w) then .gteWriteData (rd w) (.gpr (rt w))
      else .setGteData (rd w) (.gpr (rt w))]
  else if rs w = 0x06 then
    .code [if gteCtrlSpecial (rd w) then .gteWriteCtrl (rd w) (.gpr (rt w))
      else .setGteCtrl (rd w) (.gpr (rt w))]
  else if rs w &&& 0x10 ≠ 0 then .code [.gteExecute (w &&& 0x1FFFFFF#32)]
  else .unsupported

/-- `bc1f` and `bc1t` are branches; the rest of COP1 only checks that it is usable. -/
def strictCop1 (w : Word) : StrictResult :=
  if rs w = 0x08 ∨ rs w = 0x0C then .terminator .branch [.checkCop1]
  else .code [.checkCop1]

/-- `StrictTranslator::translate`. -/
def strictTranslate (addr w : Word) : StrictResult :=
  if w = 0 then .code [.nop]
  else
    match Op.ofWord w with
    | .sll => strictShift .shl w
    | .srl => strictShift .shr w
    | .sra => strictShift .sar w
    | .sllv => strictShiftVar .shl w
    | .srlv => strictShiftVar .shr w
    | .srav => strictShiftVar .sar w
    | .syscall => .code [.syscallOrReturn addr]
    | .break => .code [.raise .break]
    | .mfhi => .code [emitGprWrite (rd w) .hi]
    | .mthi => .code [.setHi (.gpr (rs w))]
    | .mflo => .code [emitGprWrite (rd w) .lo]
    | .mtlo => .code [.setLo (.gpr (rs w))]
    | .multu => .code [.multu (.gpr (rs w)) (.gpr (rt w))]
    | .div => .code [.divGuarded (.gpr (rs w)) (.gpr (rt w))]
    | .divu => .code [.divuSubtract (.gpr (rs w)) (.gpr (rt w))]
    | .add => .code [.addTrapping (optReg (rd w)) (.gpr (rs w)) (.gpr (rt w))]
    | .addu => strictBinary .add w
    | .sub | .subu => strictBinary .sub w
    | .and => strictBinary .and w
    | .or => strictBinary .or w
    | .xor => strictBinary .xor w
    | .nor => strictBinary (fun a b => .not (.or a b)) w
    | .slt => strictBinary .slt w
    | .sltu => strictBinary .sltu w
    | .jr => .terminator .jr [.setPc (.gpr (rs w)), .ret]
    | .jalr =>
        .terminator .jalr
          ((if rd w = 0 then [] else [.setGpr (rd w) (.lit (addr + 8#32))]) ++
            [.setPc (.gpr (rs w)), .ret])
    | .mult | .sync | .specialOther =>
        .terminator .reservedInstruction [.raise .reservedInstruction]
    | .beq | .bne | .blez | .bgtz => .terminator .branch []
    | .regimm => if rt w = 0x00 ∨ rt w = 0x01 then .terminator .branch [] else .unsupported
    | .j => .terminator .jump [.setPc (.lit (jumpTarget addr w)), .ret]
    | .jal =>
        .terminator .jal
          [.setGpr 31 (.lit (addr + 8#32)), .setPc (.lit (jumpTarget addr w)), .ret]
    | .addi => .code [.addTrapping (optReg (rt w)) (.gpr (rs w)) (.lit (simm w))]
    | .addiu => .code [emitGprWrite (rt w) (strictAddr w)]
    | .slti => strictImmediate .slt (simm w) w
    | .sltiu => strictImmediate .sltu (simm w) w
    | .andi => strictImmediate .and (uimm w) w
    | .ori => strictImmediate .or (uimm w) w
    | .xori => strictImmediate .xor (uimm w) w
    | .lui => .code [emitGprWrite (rt w) (.lit (uimm w <<< 16))]
    | .lb => strictLoad .byte 0 w
    | .lh => strictLoad .half 1 w
    | .lwl => .code [.loadMerge (optReg (rt w)) .left .shifts (strictAddr w)]
    | .lw => strictLoad .word 3 w
    | .lbu => strictLoad .byteUnsigned 0 w
    | .lhu => strictLoad .halfUnsigned 1 w
    | .lwr => .code [.loadMerge (optReg (rt w)) .right .shifts (strictAddr w)]
    | .sb => strictStore .byte 0 w
    | .sh => strictStore .half 1 w
    | .swl => .code [.storeMerge .left .shifts (strictAddr w) (.gpr (rt w))]
    | .sw => strictStore .word 3 w
    | .swr => .code [.storeMerge .right .shifts (strictAddr w) (.gpr (rt w))]
    | .cop0 => strictCop0 w
    | .cop1 => strictCop1 w
    | .cop2 => strictCop2 w
    -- The address is formed before the coprocessor check, so its overflow comes first.
    | .lwc1 =>
        .code [.checkAligned 0 (strictAddr w) .addressError, .checkCop1,
          .checkAligned 3 (strictAddr w) .addressError, .load none .word (strictAddr w)]
    | .swc1 =>
        .code [.checkAligned 0 (strictAddr w) .addressError, .checkCop1,
          .checkAligned 3 (strictAddr w) .addressError]
    | .lwc2 => .code [.loadGte (gteDataWriteSpecial (rt w)) (rt w) (strictGteAddr w)]
    | .swc2 => .code [.store .word (strictGteAddr w) (gteDataValue (rt w))]
    | .beql | .bnel | .blezl | .bgtzl | .cache | .other => .unsupported

end RecompStudio.Bios
