import Mathlib.Data.BitVec

/-!
Machine words, the fields of an instruction word, and the operation that the
two-level switch on opcode and function field selects. Every backend switches
on the same two fields; what each makes of an operation is its own.
-/

namespace RecompStudio

/-- A guest register value, address or instruction word. -/
abbrev Word := BitVec 32

/-- A register number. -/
abbrev RegIndex := BitVec 5

namespace Insn

def opcode (w : Word) : BitVec 6 := w.extractLsb' 26 6

def funct (w : Word) : BitVec 6 := w.extractLsb' 0 6

def rs (w : Word) : RegIndex := w.extractLsb' 21 5

def rt (w : Word) : RegIndex := w.extractLsb' 16 5

def rd (w : Word) : RegIndex := w.extractLsb' 11 5

def shamt (w : Word) : RegIndex := w.extractLsb' 6 5

def imm16 (w : Word) : BitVec 16 := w.extractLsb' 0 16

/-- The immediate, sign-extended. -/
def simm (w : Word) : Word := (imm16 w).signExtend 32

/-- The immediate, zero-extended. -/
def uimm (w : Word) : Word := (imm16 w).zeroExtend 32

/-- The trap code of `syscall` and `break`. -/
def trapCode (w : Word) : Word := (w >>> 6) &&& 0xFFFFF#32

/-- The target of a branch at `pc`. -/
@[grind =] def branchTarget (pc w : Word) : Word := pc + 4#32 + (simm w <<< 2)

/-- The target of `j` and `jal` at `pc`. -/
@[grind =] def jumpTarget (pc w : Word) : Word :=
  ((pc + 4#32) &&& 0xF0000000#32) ||| ((w &&& 0x03FFFFFF#32) <<< 2)

end Insn

/-- What the opcode field, and for opcode zero the function field, select. -/
inductive Op where
  | sll | srl | sra | sllv | srlv | srav | jr | jalr | syscall | break | sync
  | mfhi | mthi | mflo | mtlo | mult | multu | div | divu
  | add | addu | sub | subu | and | or | xor | nor | slt | sltu | specialOther
  | regimm | j | jal | beq | bne | blez | bgtz
  | addi | addiu | slti | sltiu | andi | ori | xori | lui
  | cop0 | cop1 | cop2 | beql | bnel | blezl | bgtzl
  | lb | lh | lwl | lw | lbu | lhu | lwr | sb | sh | swl | sw | swr | cache
  | lwc1 | lwc2 | swc1 | swc2 | other
deriving DecidableEq, Repr

namespace Op

/-- The switch on the function field. -/
def ofFunct (f : BitVec 6) : Op :=
  match f.toNat with
  | 0x00 => .sll
  | 0x02 => .srl
  | 0x03 => .sra
  | 0x04 => .sllv
  | 0x06 => .srlv
  | 0x07 => .srav
  | 0x08 => .jr
  | 0x09 => .jalr
  | 0x0C => .syscall
  | 0x0D => .break
  | 0x0F => .sync
  | 0x10 => .mfhi
  | 0x11 => .mthi
  | 0x12 => .mflo
  | 0x13 => .mtlo
  | 0x18 => .mult
  | 0x19 => .multu
  | 0x1A => .div
  | 0x1B => .divu
  | 0x20 => .add
  | 0x21 => .addu
  | 0x22 => .sub
  | 0x23 => .subu
  | 0x24 => .and
  | 0x25 => .or
  | 0x26 => .xor
  | 0x27 => .nor
  | 0x2A => .slt
  | 0x2B => .sltu
  | _ => .specialOther

/-- The switch on the opcode field. -/
@[grind =] def ofWord (w : Word) : Op :=
  match (Insn.opcode w).toNat with
  | 0x00 => ofFunct (Insn.funct w)
  | 0x01 => .regimm
  | 0x02 => .j
  | 0x03 => .jal
  | 0x04 => .beq
  | 0x05 => .bne
  | 0x06 => .blez
  | 0x07 => .bgtz
  | 0x08 => .addi
  | 0x09 => .addiu
  | 0x0A => .slti
  | 0x0B => .sltiu
  | 0x0C => .andi
  | 0x0D => .ori
  | 0x0E => .xori
  | 0x0F => .lui
  | 0x10 => .cop0
  | 0x11 => .cop1
  | 0x12 => .cop2
  | 0x14 => .beql
  | 0x15 => .bnel
  | 0x16 => .blezl
  | 0x17 => .bgtzl
  | 0x20 => .lb
  | 0x21 => .lh
  | 0x22 => .lwl
  | 0x23 => .lw
  | 0x24 => .lbu
  | 0x25 => .lhu
  | 0x26 => .lwr
  | 0x28 => .sb
  | 0x29 => .sh
  | 0x2A => .swl
  | 0x2B => .sw
  | 0x2E => .swr
  | 0x2F => .cache
  | 0x31 => .lwc1
  | 0x32 => .lwc2
  | 0x39 => .swc1
  | 0x3A => .swc2
  | _ => .other

end Op

theorem ne_zero_of_op {w : Word} {op : Op} (hOp : Op.ofWord w = op) (hNotSll : op ≠ .sll) :
    w ≠ 0 := by
  rintro rfl
  exact hNotSll (hOp.symm.trans rfl)

end RecompStudio
