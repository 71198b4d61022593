import RecompStudio.Emitted.Syntax

/-!
The dirty-RAM interpreter: the words that `exec_one` executes without a delay slot, and
what it asks of those that have one. The widescreen hooks are off.
-/

namespace RecompStudio.Interp

open RecompStudio.Emitted
open RecompStudio.Gte
open RecompStudio.Insn

variable {M : Type}

/-- How one step of the interpreter ends. `advance` leaves the program counter
to the caller, `transfer` has set it. -/
inductive ExecResult (M : Type) where
  | advance (s : CPUState M)
  | transfer (s : CPUState M)
  | trap (t : Trap)
  | unsupported

/-- `cpu->gpr[r] = v; cpu->gpr[0] = 0`. -/
@[grind =] def writeGpr (s : CPUState M) (r : RegIndex) (v : Word) : CPUState M :=
  (s.setGpr r v).setGpr 0 0

section Registers

variable (s : CPUState M) (r : RegIndex) (v w : Word)

theorem writeGpr_self (hr : r ≠ 0) : (writeGpr s r v).gpr r = v := by
  rw [writeGpr, CPUState.setGpr_gpr, CPUState.setGpr_gpr, Function.update_of_ne hr,
    Function.update_self]

theorem writeGpr_gpr_zero : (writeGpr s r v).gpr 0 = 0 := by
  rw [writeGpr, CPUState.setGpr_gpr, Function.update_self]

/-- A write of the zero register only clears it. -/
theorem writeGpr_zero_reg : writeGpr s 0 v = writeGpr s 0 w := by
  simp only [writeGpr, CPUState.setGpr, Function.update_idem]

theorem writeGpr_twice : writeGpr (writeGpr s r v) r w = writeGpr s r w := by
  by_cases hr : r = 0
  · subst hr
    simp only [writeGpr, CPUState.setGpr, Function.update_idem]
  · simp only [writeGpr, CPUState.setGpr]
    rw [Function.update_comm hr v 0 s.gpr, Function.update_idem,
      Function.update_comm (Ne.symm hr), Function.update_idem]

end Registers

/-- With a zero in it, the zero register takes no part in the write of another one. -/
theorem writeGpr_eq_setGpr {s : CPUState M} (hZero : s.gpr 0 = 0) {r : RegIndex} (hr : r ≠ 0)
    (v : Word) : writeGpr s r v = s.setGpr r v := by
  have hKept : (s.setGpr r v).gpr 0 = 0 := by
    rw [CPUState.setGpr_gpr, Function.update_of_ne (Ne.symm hr), hZero]
  exact CPUState.setGpr_eq_self _ hKept

theorem writeGpr_zero {s : CPUState M} (hZero : s.gpr 0 = 0) (v : Word) :
    writeGpr s 0 v = s := by
  rw [writeGpr_zero_reg s v 0, writeGpr, CPUState.setGpr_eq_self s hZero,
    CPUState.setGpr_eq_self s hZero]

def advanceWith (s : CPUState M) (r : RegIndex) (v : Word) : ExecResult M :=
  .advance (writeGpr s r v)

@[grind =] def effectiveAddr (s : CPUState M) (w : Word) : Word := s.gpr (rs w) + simm w

def execLoad (h : Host M) (s : CPUState M) (w : Word) (kind : LoadKind) : ExecResult M :=
  let r := busLoad h.bus kind (effectiveAddr s w) s.mem
  advanceWith { s with mem := r.2 } (rt w) r.1

def execLoadMerge (h : Host M) (s : CPUState M) (w : Word)
    (merge : Word → Word → Word → Word) : ExecResult M :=
  let a := effectiveAddr s w
  let r := h.bus.readWord (alignDown a) s.mem
  advanceWith { s with mem := r.2 } (rt w) (merge a r.1 (s.gpr (rt w)))

def execStore (h : Host M) (s : CPUState M) (w : Word) (width : Width) : ExecResult M :=
  .advance
    { s with mem := busStore h.bus width s.sr (effectiveAddr s w) (s.gpr (rt w)) s.mem }

def execStoreMerge (h : Host M) (s : CPUState M) (w : Word)
    (merge : Word → Word → Word → Word) : ExecResult M :=
  let a := effectiveAddr s w
  let r := h.bus.readWord (alignDown a) s.mem
  .advance { s with
    mem := h.bus.writeWord s.sr (alignDown a) (merge a r.1 (s.gpr (rt w))) r.2 }

def execDiv (s : CPUState M) (w : Word) : CPUState M :=
  let a := s.gpr (rs w)
  let b := s.gpr (rt w)
  if b = 0 then { s with lo := if a.slt 0 then 1 else 0xFFFFFFFF#32, hi := a }
  else if isIntMin a && b == 0xFFFFFFFF#32 then { s with lo := 0x80000000#32, hi := 0 }
  else { s with lo := a.sdiv b, hi := a.srem b }

def execDivu (s : CPUState M) (w : Word) : CPUState M :=
  let a := s.gpr (rs w)
  let b := s.gpr (rt w)
  if b = 0 then { s with lo := 0xFFFFFFFF#32, hi := a } else { s with lo := a / b, hi := a % b }

def execCop0 (s : CPUState M) (w : Word) : ExecResult M :=
  if rs w = 0x00 then advanceWith s (rt w) (s.cop0 (rd w))
  else if rs w = 0x04 then
    .advance { s with cop0 := Function.update s.cop0 (rd w) (s.gpr (rt w)) }
  else if rs w = 0x10 ∧ funct w = 0x10 then
    .advance { s with cop0 := Function.update s.cop0 12 (popStatus 0xFFFFFFF0#32 s.sr) }
  else .unsupported

@[grind =] def execCop2 (h : Host M) (s : CPUState M) (w : Word) : ExecResult M :=
  if rs w = 0x00 then advanceWith s (rt w) (readData s (rd w))
  else if rs w = 0x02 then advanceWith s (rt w) (readCtrl s (rd w))
  else if rs w = 0x04 then .advance (writeData s (rd w) (s.gpr (rt w)))
  else if rs w = 0x06 then .advance (writeCtrl s (rd w) (s.gpr (rt w)))
  else if rs w &&& 0x10 ≠ 0 then .advance (runGteCommand h s (w &&& 0x1FFFFFF#32))
  else .unsupported

def shiftAmount (s : CPUState M) (w : Word) : Word := s.gpr (rs w) &&& 31#32

/-- `bc1f` and `bc1t`. -/
def isBc1 (w : Word) : Bool := rs w == 0x08 || rs w == 0x0C

/-- The cases of `exec_one` that transfer no control, for the word at `pc`. -/
def execPlain (h : Host M) (pc w : Word) (s : CPUState M) : ExecResult M :=
  match Op.ofWord w with
  | .sll => advanceWith s (rd w) (s.gpr (rt w) <<< (shamt w).toNat)
  | .srl => advanceWith s (rd w) (s.gpr (rt w) >>> (shamt w).toNat)
  | .sra => advanceWith s (rd w) ((s.gpr (rt w)).sshiftRight (shamt w).toNat)
  | .sllv => advanceWith s (rd w) (s.gpr (rt w) <<< shiftAmount s w)
  | .srlv => advanceWith s (rd w) (s.gpr (rt w) >>> shiftAmount s w)
  | .srav => advanceWith s (rd w) ((s.gpr (rt w)).sshiftRight (shiftAmount s w).toNat)
  | .syscall =>
      let s' := (h.syscall (trapCode w) { s with pc := pc }).2
      if s'.pc = 0 then .advance s' else .transfer s'
  | .break => .trap .break
  | .sync => .advance s
  | .mfhi => advanceWith s (rd w) s.hi
  | .mthi => .advance { s with hi := s.gpr (rs w) }
  | .mflo => advanceWith s (rd w) s.lo
  | .mtlo => .advance { s with lo := s.gpr (rs w) }
  | .mult =>
      let r := multSigned (s.gpr (rs w)) (s.gpr (rt w))
      .advance { s with hi := r.1, lo := r.2 }
  | .multu =>
      let r := multUnsigned (s.gpr (rs w)) (s.gpr (rt w))
      .advance { s with hi := r.1, lo := r.2 }
  | .div => .advance (execDiv s w)
  | .divu => .advance (execDivu s w)
  | .add | .addu => advanceWith s (rd w) (s.gpr (rs w) + s.gpr (rt w))
  | .sub | .subu => advanceWith s (rd w) (s.gpr (rs w) - s.gpr (rt w))
  | .and => advanceWith s (rd w) (s.gpr (rs w) &&& s.gpr (rt w))
  | .or => advanceWith s (rd w) (s.gpr (rs w) ||| s.gpr (rt w))
  | .xor => advanceWith s (rd w) (s.gpr (rs w) ^^^ s.gpr (rt w))
  | .nor => advanceWith s (rd w) (~~~(s.gpr (rs w) ||| s.gpr (rt w)))
  | .slt => advanceWith s (rd w) (ofBool ((s.gpr (rs w)).slt (s.gpr (rt w))))
  | .sltu => advanceWith s (rd w) (ofBool ((s.gpr (rs w)).ult (s.gpr (rt w))))
  | .addi | .addiu => advanceWith s (rt w) (s.gpr (rs w) + simm w)
  | .slti => advanceWith s (rt w) (ofBool ((s.gpr (rs w)).slt (simm w)))
  | .sltiu => advanceWith s (rt w) (ofBool ((s.gpr (rs w)).ult (simm w)))
  | .andi => advanceWith s (rt w) (s.gpr (rs w) &&& uimm w)
  | .ori => advanceWith s (rt w) (s.gpr (rs w) ||| uimm w)
  | .xori => advanceWith s (rt w) (s.gpr (rs w) ^^^ uimm w)
  | .lui => advanceWith s (rt w) (uimm w <<< 16)
  | .cop0 => execCop0 s w
  | .cop1 =>
      if cop1Usable s then if isBc1 w then .unsupported else .advance s
      else .trap .copUnusable
  | .cop2 => execCop2 h s w
  | .lb => execLoad h s w .byte
  | .lh => execLoad h s w .half
  | .lwl => execLoadMerge h s w lwlTable
  | .lw => execLoad h s w .word
  | .lbu => execLoad h s w .byteUnsigned
  | .lhu => execLoad h s w .halfUnsigned
  | .lwr => execLoadMerge h s w lwrTable
  | .sb => execStore h s w .byte
  | .sh => execStore h s w .half
  | .swl => execStoreMerge h s w swlTable
  | .sw => execStore h s w .word
  | .swr => execStoreMerge h s w swrTable
  | .lwc1 =>
      if cop1Usable s then
        if effectiveAddr s w &&& 3#32 = 0 then
          .advance { s with mem := (h.bus.readWord (effectiveAddr s w) s.mem).2 }
        else .trap .addressError
      else .trap .copUnusable
  | .swc1 =>
      if cop1Usable s then
        if effectiveAddr s w &&& 3#32 = 0 then .advance s else .trap .addressError
      else .trap .copUnusable
  | .lwc2 =>
      let r := h.bus.readWord (effectiveAddr s w) s.mem
      .advance (writeData { s with mem := r.2 } (rt w) r.1)
  | .swc2 =>
      .advance { s with
        mem := h.bus.writeWord s.sr (effectiveAddr s w) (readData s (rt w)) s.mem }
  | .jr | .jalr | .specialOther | .regimm | .j | .jal | .beq | .bne | .blez | .bgtz | .beql
  | .bnel | .blezl | .bgtzl | .cache | .other => .unsupported

/-- The words that `exec_delay_slot` rejects. -/
@[grind =] def rejectsDelaySlot (w : Word) : Bool :=
  match Op.ofWord w with
  | .j | .jal | .beq | .bne | .blez | .bgtz | .regimm | .jr | .jalr => true
  | _ => false

/-- The condition of a branch, or `none` where `exec_one` gives up. -/
@[grind =] def branchTaken (w : Word) (s : CPUState M) : Option Bool :=
  match Op.ofWord w with
  | .beq => some (s.gpr (rs w) == s.gpr (rt w))
  | .bne => some (s.gpr (rs w) != s.gpr (rt w))
  | .blez => some ((s.gpr (rs w)).sle 0)
  | .bgtz => some ((0 : Word).slt (s.gpr (rs w)))
  | .regimm =>
      match (rt w).toNat with
      | 0x00 | 0x10 => some ((s.gpr (rs w)).slt 0)
      | 0x01 | 0x11 => some ((0 : Word).sle (s.gpr (rs w)))
      | _ => none
  | _ => none

/-- `bltzal` and `bgezal` link whether or not they are taken. -/
def branchLinks (w : Word) : Bool :=
  match Op.ofWord w with
  | .regimm => (rt w).toNat == 0x10 || (rt w).toNat == 0x11
  | _ => false

end RecompStudio.Interp
