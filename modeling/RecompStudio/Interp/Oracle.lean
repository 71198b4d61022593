import RecompStudio.Interp.ExecOne

/-!
The interpreter of the oracle builds: `exec_one` with its pending load and its
exceptions, the interrupts that are looked for every sixteen instructions, and
`interp_step` with its breakpoints.

A pending load is written before the next instruction reads its operands, so it
can be seen in the registers between two instructions and nowhere else: every
run is one of an interpreter that writes its loads at once.
-/

namespace RecompStudio.Interp

open RecompStudio.Emitted
open RecompStudio.Gte
open RecompStudio.Insn

variable {M : Type}

/-- The processor between two instructions, with `s_load_reg`, `s_load_val`, `s_halted`
and `s_vblank_count`. -/
structure Oracle (M : Type) where
  cpu : CPUState M
  loadReg : RegIndex
  loadVal : Word
  halted : Bool
  vblankCount : Nat

/-- What the interpreter calls. -/
structure OracleHost (M : Type) extends Host M where
  /-- `psx_cop_unusable` and `psx_address_error_exception`. -/
  trap : Trap → Word → Word → CPUState M → CPUState M
  /-- `sio_tick(0)`. -/
  sioTick : M → M
  /-- `psx_irq_raise`, `gpu_vblank_tick`, `timers_tick` and `cdrom_tick`. -/
  vblankTick : M → M
  /-- `i_stat & i_mask`. -/
  pending : M → Word

/-- The processor at another program counter. -/
def atPc (s : CPUState M) (pc : Word) : CPUState M := { s with pc := pc }

/-- The processor behind a word that it fetched. -/
def behindFetch (s : CPUState M) (m : M) : CPUState M := { s with mem := m, pc := s.pc + 4#32 }

/-- `set_reg`. -/
def setReg (s : CPUState M) (r : RegIndex) (v : Word) : CPUState M :=
  if r = 0 then s else s.setGpr r v

/-- `raise_exception`. -/
def raiseException (s : CPUState M) (excCode : Word) (inDelay : Bool) : CPUState M :=
  let cause := (s.cop0 13 &&& 0xFFFFFF83#32) ||| (excCode <<< 2)
  let cop0 := Function.update s.cop0 12 ((s.sr &&& 0xFFFFFFC0#32) ||| ((s.sr &&& 0x0F#32) <<< 2))
  let cop0 := Function.update cop0 13
    (if inDelay then cause ||| 0x80000000#32 else cause &&& 0x7FFFFFFF#32)
  { s with
    cop0 := Function.update cop0 14 (if inDelay then s.pc - 4#32 else s.pc)
    pc := if s.sr &&& 0x00400000#32 ≠ 0 then 0xBFC00180#32 else 0x80000080#32 }

/-- How the `switch` of `exec_one` is left by a word that executes no delay slot. -/
inductive Effect (M : Type) where
  | done (s : CPUState M)
  /-- `set_load_delay`. -/
  | load (s : CPUState M) (r : RegIndex) (v : Word)
  | raise (s : CPUState M) (excCode : Word)
  | trap (s : CPUState M) (t : Trap)

namespace Effect

def set (s : CPUState M) (r : RegIndex) (v : Word) : Effect M := .done (setReg s r v)

def read (h : Host M) (s : CPUState M) (w : Word) (kind : LoadKind) : Effect M :=
  let r := busLoad h.bus kind (effectiveAddr s w) s.mem
  .load { s with mem := r.2 } (rt w) r.1

def readMerge (h : Host M) (s : CPUState M) (w : Word) (merge : Word → Word → Word → Word) :
    Effect M :=
  let a := effectiveAddr s w
  let r := h.bus.readWord (alignDown a) s.mem
  set { s with mem := r.2 } (rt w) (merge a r.1 (s.gpr (rt w)))

def write (h : Host M) (s : CPUState M) (w : Word) (width : Width) : Effect M :=
  .done { s with mem := busStore h.bus width s.sr (effectiveAddr s w) (s.gpr (rt w)) s.mem }

def writeMerge (h : Host M) (s : CPUState M) (w : Word) (merge : Word → Word → Word → Word) :
    Effect M :=
  let a := effectiveAddr s w
  let r := h.bus.readWord (alignDown a) s.mem
  .done { s with mem := h.bus.writeWord s.sr (alignDown a) (merge a r.1 (s.gpr (rt w))) r.2 }

/-- A result of `int64_t` arithmetic, or exception 12 where it is no `int32_t`. -/
def checked (s : CPUState M) (r : RegIndex) (v : Int) : Effect M :=
  if v < -2 ^ 31 ∨ 2 ^ 31 - 1 < v then .raise s 12 else set s r (BitVec.ofInt 32 v)

def cop0 (s : CPUState M) (w : Word) : Effect M :=
  if rs w = 0x00 then .load s (rt w) (s.cop0 (rd w))
  else if rs w = 0x04 then
    .done { s with cop0 := Function.update s.cop0 (rd w) (s.gpr (rt w)) }
  else if rs w = 0x10 ∧ funct w = 0x10 then
    .done { s with cop0 := Function.update s.cop0 12 (popStatus 0xFFFFFFC0#32 s.sr) }
  else .done s

def cop2 (h : Host M) (s : CPUState M) (w : Word) : Effect M :=
  if rs w = 0x00 then .load s (rt w) (readData s (rd w))
  else if rs w = 0x02 then .load s (rt w) (readCtrl s (rd w))
  else if rs w = 0x04 then .done (writeData s (rd w) (s.gpr (rt w)))
  else if rs w = 0x06 then .done (writeCtrl s (rd w) (s.gpr (rt w)))
  else if rs w &&& 0x10 ≠ 0 then .done (runGteCommand h s (w &&& 0x1FFFFFF#32))
  else .done s

end Effect

/-- The cases of `exec_one` that execute no delay slot. Branches that are not taken and
words that the processor does not know fall through. -/
def execWord (h : Host M) (w : Word) (s : CPUState M) : Effect M :=
  match Op.ofWord w with
  | .sll => .set s (rd w) (s.gpr (rt w) <<< (shamt w).toNat)
  | .srl => .set s (rd w) (s.gpr (rt w) >>> (shamt w).toNat)
  | .sra => .set s (rd w) ((s.gpr (rt w)).sshiftRight (shamt w).toNat)
  | .sllv => .set s (rd w) (s.gpr (rt w) <<< shiftAmount s w)
  | .srlv => .set s (rd w) (s.gpr (rt w) >>> shiftAmount s w)
  | .srav => .set s (rd w) ((s.gpr (rt w)).sshiftRight (shiftAmount s w).toNat)
  | .syscall => .raise s 8
  | .break => .raise s 9
  | .mfhi => .set s (rd w) s.hi
  | .mthi => .done { s with hi := s.gpr (rs w) }
  | .mflo => .set s (rd w) s.lo
  | .mtlo => .done { s with lo := s.gpr (rs w) }
  | .mult =>
      let r := multSigned (s.gpr (rs w)) (s.gpr (rt w))
      .done { s with hi := r.1, lo := r.2 }
  | .multu =>
      let r := multUnsigned (s.gpr (rs w)) (s.gpr (rt w))
      .done { s with hi := r.1, lo := r.2 }
  | .div => .done (execDiv s w)
  | .divu => .done (execDivu s w)
  | .add => .checked s (rd w) ((s.gpr (rs w)).toInt + (s.gpr (rt w)).toInt)
  | .addu => .set s (rd w) (s.gpr (rs w) + s.gpr (rt w))
  | .sub => .checked s (rd w) ((s.gpr (rs w)).toInt - (s.gpr (rt w)).toInt)
  | .subu => .set s (rd w) (s.gpr (rs w) - s.gpr (rt w))
  | .and => .set s (rd w) (s.gpr (rs w) &&& s.gpr (rt w))
  | .or => .set s (rd w) (s.gpr (rs w) ||| s.gpr (rt w))
  | .xor => .set s (rd w) (s.gpr (rs w) ^^^ s.gpr (rt w))
  | .nor => .set s (rd w) (~~~(s.gpr (rs w) ||| s.gpr (rt w)))
  | .slt => .set s (rd w) (ofBool ((s.gpr (rs w)).slt (s.gpr (rt w))))
  | .sltu => .set s (rd w) (ofBool ((s.gpr (rs w)).ult (s.gpr (rt w))))
  | .addi => .checked s (rt w) ((s.gpr (rs w)).toInt + (simm w).toInt)
  | .addiu => .set s (rt w) (s.gpr (rs w) + simm w)
  | .slti => .set s (rt w) (ofBool ((s.gpr (rs w)).slt (simm w)))
  | .sltiu => .set s (rt w) (ofBool ((s.gpr (rs w)).ult (simm w)))
  | .andi => .set s (rt w) (s.gpr (rs w) &&& uimm w)
  | .ori => .set s (rt w) (s.gpr (rs w) ||| uimm w)
  | .xori => .set s (rt w) (s.gpr (rs w) ^^^ uimm w)
  | .lui => .set s (rt w) (uimm w <<< 16)
  | .cop0 => .cop0 s w
  | .cop1 => if cop1Usable s then .done s else .trap s .copUnusable
  | .cop2 => .cop2 h s w
  | .lb => .read h s w .byte
  | .lh => .read h s w .half
  | .lwl => .readMerge h s w lwlTable
  | .lw => .read h s w .word
  | .lbu => .read h s w .byteUnsigned
  | .lhu => .read h s w .halfUnsigned
  | .lwr => .readMerge h s w lwrTable
  | .sb => .write h s w .byte
  | .sh => .write h s w .half
  | .swl => .writeMerge h s w swlTable
  | .sw => .write h s w .word
  | .swr => .writeMerge h s w swrTable
  | .lwc1 =>
      if cop1Usable s then
        if effectiveAddr s w &&& 3#32 = 0 then
          .done { s with mem := (h.bus.readWord (effectiveAddr s w) s.mem).2 }
        else .trap s .addressError
      else .trap s .copUnusable
  | .swc1 =>
      if cop1Usable s then
        if effectiveAddr s w &&& 3#32 = 0 then .done s else .trap s .addressError
      else .trap s .copUnusable
  | .lwc2 =>
      let r := h.bus.readWord (effectiveAddr s w) s.mem
      .done (writeData { s with mem := r.2 } (rt w) r.1)
  | .swc2 =>
      .done { s with
        mem := h.bus.writeWord s.sr (effectiveAddr s w) (readData s (rt w)) s.mem }
  | .jr | .jalr | .sync | .specialOther | .regimm | .j | .jal | .beq | .bne | .blez | .bgtz | .beql
  | .bnel | .blezl | .bgtzl | .cache | .other => .done s

/-- The target of a word that executes its delay slot. -/
def slotTarget (pc w : Word) (s : CPUState M) : Option Word :=
  let branch (taken : Bool) := if taken then some (branchTarget pc w) else none
  match Op.ofWord w with
  | .jr | .jalr => some (s.gpr (rs w))
  | .j | .jal => some (jumpTarget pc w)
  | .beq => branch (s.gpr (rs w) == s.gpr (rt w))
  | .bne => branch (s.gpr (rs w) != s.gpr (rt w))
  | .blez => branch ((s.gpr (rs w)).sle 0)
  | .bgtz => branch ((0 : Word).slt (s.gpr (rs w)))
  | .regimm =>
      branch (if (rt w).getLsbD 0 then (0 : Word).sle (s.gpr (rs w)) else (s.gpr (rs w)).slt 0)
  | .cop1 =>
      if cop1Usable s && isBc1 w then
        some (if (rt w).getLsbD 0 then pc + 8#32 else branchTarget pc w)
      else none
  | _ => none

/-- The link register. A branch of `REGIMM` links whether or not it is taken. -/
def withLink (pc w : Word) (s : CPUState M) : CPUState M :=
  match Op.ofWord w with
  | .jalr => setReg s (rd w) (pc + 8#32)
  | .jal => setReg s 31 (pc + 8#32)
  | .regimm => if (rt w).getLsbD 4 then setReg s 31 (pc + 8#32) else s
  | _ => s

/-- The program counter behind a delay slot. A coprocessor branch leaves it to a slot that
went elsewhere. -/
def behindSlot (pc w target after : Word) : Word :=
  if Op.ofWord w = .cop1 ∧ after ≠ pc + 8#32 then after else target

namespace Oracle

/-- `apply_load_delay`. -/
@[grind =] def applyLoadDelay (o : Oracle M) : Oracle M :=
  if o.loadReg ≠ 0 then { o with cpu := o.cpu.setGpr o.loadReg o.loadVal, loadReg := 0 } else o

def withCpu (o : Oracle M) (s : CPUState M) : Oracle M := { o with cpu := s }

/-- The end of `exec_one`, for the word `w` at `pc`. -/
def finish (h : OracleHost M) (pc w : Word) (o : Oracle M) : Effect M → Oracle M
  | .done s => o.withCpu (s.setGpr 0 0)
  | .load s r v => { o with cpu := s.setGpr 0 0, loadReg := r, loadVal := v }
  | .raise s code => o.withCpu (raiseException s code false)
  | .trap s t => o.withCpu (h.trap t pc w s)

/-- The fetch of a word, the program counter behind it and the pending load. -/
def fetch (h : OracleHost M) (o : Oracle M) : Word × Oracle M :=
  let r := h.bus.readWord o.cpu.pc o.cpu.mem
  (r.1, (o.withCpu (behindFetch o.cpu r.2)).applyLoadDelay)

/-- `exec_one` on a host stack with room for `depth` calls; there is no answer when it
overflows. -/
def execOne (h : OracleHost M) : Nat → Oracle M → Option (Oracle M)
  | 0, _ => none
  | depth + 1, o =>
      if o.cpu.pc = 0 then some { o with halted := true }
      else
        let pc := o.cpu.pc
        let w := (o.fetch h).1
        let t := (o.fetch h).2
        let s := withLink pc w t.cpu
        match slotTarget pc w t.cpu with
        | none => some (t.finish h pc w (execWord h.toHost w s))
        | some target =>
            (execOne h depth (t.withCpu s)).map fun u =>
              u.withCpu (atPc u.cpu (behindSlot pc w target u.cpu.pc))

/-- Interrupts are enabled, and the one line of the processor is not masked. -/
def acceptsInterrupt (s : CPUState M) : Bool := s.sr.getLsbD 0 && s.sr.getLsbD 10

/-- The exception of an interrupt. -/
def interrupt (s : CPUState M) : CPUState M :=
  let cop0 := Function.update s.cop0 13 ((s.cop0 13 &&& 0xFFFFFF83#32) ||| 0x00000400#32)
  let cop0 := Function.update cop0 12 ((s.sr &&& 0xFFFFFFC0#32) ||| ((s.sr &&& 0x0F#32) <<< 2))
  { s with
    cop0 := Function.update cop0 14 s.pc
    pc := if s.sr &&& 0x00400000#32 ≠ 0 then 0xBFC00180#32 else 0x80000080#32 }

def vblankInterval : Nat := 50000

/-- The ticks of the devices, on what lies behind the memory callbacks. -/
def tick (h : OracleHost M) (count : Nat) (m : M) : M :=
  if vblankInterval ≤ count + 1 then h.vblankTick (h.sioTick m) else h.sioTick m

/-- `interp_check_interrupts` on the processor. -/
@[grind =] def checkCpu (h : OracleHost M) (count : Nat) (s : CPUState M) : CPUState M :=
  let t := { s with mem := tick h count s.mem }
  if h.pending t.mem ≠ 0 && acceptsInterrupt t then interrupt t else t

def nextCount (count : Nat) : Nat := if vblankInterval ≤ count + 1 then 0 else count + 1

/-- `interp_check_interrupts`. -/
def checkInterrupts (h : OracleHost M) (o : Oracle M) : Oracle M :=
  { o with cpu := checkCpu h o.vblankCount o.cpu, vblankCount := nextCount o.vblankCount }

/-- How `interp_step` ends. -/
structure StepEnd (σ : Type) where
  state : σ
  executed : Nat
  /-- `s_hit_bp`. -/
  hitBp : Bool

/-- The loop of `interp_step` with so many turns left, for the breakpoints `bps`. -/
def stepLoop (h : OracleHost M) (depth : Nat) (bps : List Word) :
    Nat → Nat → Oracle M → Option (StepEnd (Oracle M))
  | 0, executed, o => some ⟨o, executed, false⟩
  | count + 1, executed, o =>
      if o.cpu.pc ∈ bps then some ⟨o, executed, true⟩
      else
        (execOne h depth o).bind fun t =>
          if t.halted then some ⟨t, executed + 1, false⟩
          else
            stepLoop h depth bps count (executed + 1)
              (if (executed + 1) % 16 = 0 then t.checkInterrupts h else t)

/-- `interp_step`. -/
@[grind =]
def interpStep (h : OracleHost M) (depth : Nat) (bps : List Word) (count : Nat) (o : Oracle M) :
    Option (StepEnd (Oracle M)) :=
  stepLoop h depth bps count 0 o

end Oracle

/-- The processor of an interpreter that has no load pending. -/
structure Immediate (M : Type) where
  cpu : CPUState M
  halted : Bool
  vblankCount : Nat

namespace Immediate

def withCpu (o : Immediate M) (s : CPUState M) : Immediate M := { o with cpu := s }

/-- A word whose load is written at once. -/
def finish (h : OracleHost M) (pc w : Word) : Effect M → CPUState M
  | .done s => s.setGpr 0 0
  | .load s r v => (setReg s r v).setGpr 0 0
  | .raise s code => raiseException s code false
  | .trap s t => h.trap t pc w s

/-- An instruction with its delay slot. -/
def execOne (h : OracleHost M) : Nat → Immediate M → Option (Immediate M)
  | 0, _ => none
  | depth + 1, o =>
      if o.cpu.pc = 0 then some { o with halted := true }
      else
        let pc := o.cpu.pc
        let r := h.bus.readWord pc o.cpu.mem
        let t := behindFetch o.cpu r.2
        let s := withLink pc r.1 t
        match slotTarget pc r.1 t with
        | none => some (o.withCpu (finish h pc r.1 (execWord h.toHost r.1 s)))
        | some target =>
            (execOne h depth (o.withCpu s)).map fun u =>
              u.withCpu (atPc u.cpu (behindSlot pc r.1 target u.cpu.pc))

def checkInterrupts (h : OracleHost M) (o : Immediate M) : Immediate M :=
  { o with
    cpu := Oracle.checkCpu h o.vblankCount o.cpu
    vblankCount := Oracle.nextCount o.vblankCount }

def stepLoop (h : OracleHost M) (depth : Nat) (bps : List Word) :
    Nat → Nat → Immediate M → Option (Oracle.StepEnd (Immediate M))
  | 0, executed, o => some ⟨o, executed, false⟩
  | count + 1, executed, o =>
      if o.cpu.pc ∈ bps then some ⟨o, executed, true⟩
      else
        (execOne h depth o).bind fun t =>
          if t.halted then some ⟨t, executed + 1, false⟩
          else
            stepLoop h depth bps count (executed + 1)
              (if (executed + 1) % 16 = 0 then t.checkInterrupts h else t)

@[grind =] def interpStep (h : OracleHost M) (depth : Nat) (bps : List Word) (count : Nat)
    (o : Immediate M) : Option (Oracle.StepEnd (Immediate M)) :=
  stepLoop h depth bps count 0 o

end Immediate

namespace Oracle

variable {h : OracleHost M} {o : Oracle M}

/-- The processor as the next instruction finds it. -/
@[grind =]
def settle (o : Oracle M) : Immediate M := ⟨o.applyLoadDelay.cpu, o.halted, o.vblankCount⟩

namespace StepEnd

def map {σ τ : Type} (f : σ → τ) (r : StepEnd σ) : StepEnd τ := ⟨f r.state, r.executed, r.hitBp⟩

end StepEnd

theorem applyLoadDelay_none (hNone : o.loadReg = 0) : o.applyLoadDelay = o :=
  if_neg (not_not.mpr hNone)

theorem loadReg_applyLoadDelay (o : Oracle M) : o.applyLoadDelay.loadReg = 0 := by
  unfold applyLoadDelay
  split
  · rfl
  · rename_i hNone
    exact not_not.mp hNone

theorem applyLoadDelay_cpu (o : Oracle M) :
    o.applyLoadDelay.cpu =
      if o.loadReg ≠ 0 then o.cpu.setGpr o.loadReg o.loadVal else o.cpu := by
  unfold applyLoadDelay
  split <;> rfl

theorem applyLoadDelay_eq (o : Oracle M) :
    o.applyLoadDelay.cpu = { o.cpu with gpr := o.applyLoadDelay.cpu.gpr } := by
  rw [applyLoadDelay_cpu]
  split <;> rfl

theorem settle_pc (o : Oracle M) : (settle o).cpu.pc = o.cpu.pc := by
  unfold settle
  rw [applyLoadDelay_eq]

theorem settle_mem (o : Oracle M) : (settle o).cpu.mem = o.cpu.mem := by
  unfold settle
  rw [applyLoadDelay_eq]

/-- With no load pending the processor is as it stands. -/
theorem settle_withCpu (hNone : o.loadReg = 0) (s : CPUState M) :
    settle (o.withCpu s) = (settle o).withCpu s := by
  have hStill : (o.withCpu s).loadReg = 0 := hNone
  unfold settle
  rw [applyLoadDelay_none hStill]
  rfl

/-- A pending load does not depend on the rest of the processor. -/
theorem applyLoadDelay_withCpu (o : Oracle M) (s : CPUState M) (hGpr : s.gpr = o.cpu.gpr) :
    (o.withCpu s).applyLoadDelay.cpu = { s with gpr := o.applyLoadDelay.cpu.gpr } := by
  rw [applyLoadDelay_cpu, applyLoadDelay_cpu]
  change (if o.loadReg ≠ 0 then s.setGpr o.loadReg o.loadVal else s) = _
  split
  · rw [CPUState.setGpr, hGpr]
    rfl
  · rw [← hGpr]

theorem settle_finish (hNone : o.loadReg = 0) (pc w : Word) (e : Effect M) :
    settle (o.finish h pc w e) = (settle o).withCpu (Immediate.finish h pc w e) := by
  cases e with
  | done s => exact settle_withCpu hNone _
  | raise s code => exact settle_withCpu hNone _
  | trap s t => exact settle_withCpu hNone _
  | load s r v =>
      let p : Oracle M := { o with cpu := s.setGpr 0 0, loadReg := r, loadVal := v }
      have hCpu : p.applyLoadDelay.cpu = (setReg s r v).setGpr 0 0 := by
        by_cases hZero : r = 0
        · have hStill : p.loadReg = 0 := hZero
          rw [applyLoadDelay_none hStill, setReg, if_pos hZero]
        · have hApplied : p.applyLoadDelay = { p with cpu := p.cpu.setGpr r v, loadReg := 0 } :=
            if_pos hZero
          rw [hApplied, setReg, if_neg hZero]
          change { s with gpr := Function.update (Function.update s.gpr 0 0) r v } =
            { s with gpr := Function.update (Function.update s.gpr r v) 0 0 }
          rw [Function.update_comm (Ne.symm hZero)]
      change (⟨p.applyLoadDelay.cpu, o.halted, o.vblankCount⟩ : Immediate M) = _
      rw [hCpu]
      rfl

theorem loadReg_fetch (o : Oracle M) : (o.fetch h).2.loadReg = 0 :=
  loadReg_applyLoadDelay _

/-- A fetch makes the pending load good. -/
theorem fetch_eq (o : Oracle M) :
    (o.fetch h).1 = (h.bus.readWord o.cpu.pc (settle o).cpu.mem).1 ∧
      (o.fetch h).2.cpu =
        behindFetch (settle o).cpu (h.bus.readWord o.cpu.pc (settle o).cpu.mem).2 ∧
      settle (o.fetch h).2 = (settle o).withCpu (o.fetch h).2.cpu := by
  refine ⟨by rw [settle_mem]; rfl, ?_, ?_⟩
  · let s : CPUState M := behindFetch o.cpu (h.bus.readWord o.cpu.pc o.cpu.mem).2
    calc (o.fetch h).2.cpu
      _ = { s with gpr := o.applyLoadDelay.cpu.gpr } := applyLoadDelay_withCpu o s rfl
      _ = behindFetch { o.cpu with gpr := o.applyLoadDelay.cpu.gpr }
            (h.bus.readWord o.cpu.pc o.cpu.mem).2 := rfl
      _ = _ := by rw [← applyLoadDelay_eq, settle_mem]; rfl
  · have hRest (p : Oracle M) : p.applyLoadDelay.halted = p.halted ∧
        p.applyLoadDelay.vblankCount = p.vblankCount := by
      unfold applyLoadDelay
      split <;> exact ⟨rfl, rfl⟩
    unfold settle
    rw [applyLoadDelay_none (loadReg_fetch (h := h) o)]
    unfold fetch
    rw [(hRest _).1, (hRest _).2]
    rfl

theorem settle_halt (o : Oracle M) :
    settle { o with halted := true } = { settle o with halted := true } := by
  unfold settle
  rw [applyLoadDelay_cpu, applyLoadDelay_cpu]

/-- The program counter can be set before the pending load is made good or after. -/
theorem settle_atPc (o : Oracle M) (pc : Word) :
    settle (o.withCpu (atPc o.cpu pc)) = (settle o).withCpu (atPc (settle o).cpu pc) := by
  have hCpu : (o.withCpu (atPc o.cpu pc)).applyLoadDelay.cpu = atPc o.applyLoadDelay.cpu pc := by
    rw [applyLoadDelay_withCpu o (atPc o.cpu pc) rfl, applyLoadDelay_eq o]
    rfl
  unfold settle
  rw [hCpu]
  rfl

theorem settle_execOne (depth : Nat) (o : Oracle M) :
    (o.execOne h depth).map settle = (settle o).execOne h depth := by
  induction depth generalizing o with
  | zero => rfl
  | succ depth ih =>
      have hPc := settle_pc o
      obtain ⟨hWord, hCpu, hSettle⟩ := fetch_eq (h := h) o
      have hNone := loadReg_fetch (h := h) o
      change (if o.cpu.pc = 0 then _ else _ : Option (Oracle M)).map settle =
        if (settle o).cpu.pc = 0 then _ else _
      rw [hPc]
      by_cases hNull : o.cpu.pc = 0
      · rw [if_pos hNull, if_pos hNull]
        exact congrArg some (settle_halt o)
      · rw [if_neg hNull, if_neg hNull]
        dsimp only
        rw [← hWord, ← hCpu]
        split
        · exact congrArg some ((settle_finish hNone _ _ _).trans (by rw [hSettle]; rfl))
        · have hSlot (s : CPUState M) :
              (settle o).withCpu s = settle ((o.fetch h).2.withCpu s) := by
            rw [settle_withCpu hNone, hSettle]
            rfl
          rw [hSlot, ← ih, Option.map_map, Option.map_map]
          refine Option.map_congr fun u _ => ?_
          dsimp only [Function.comp_apply]
          rw [settle_atPc, settle_pc]

/-- An interrupt sees no register but those of coprocessor 0. -/
theorem checkCpu_gpr (h : OracleHost M) (count : Nat) (s : CPUState M)
    (gpr : RegIndex → Word) :
    checkCpu h count { s with gpr := gpr } = { checkCpu h count s with gpr := gpr } := by
  unfold checkCpu
  dsimp only
  split
  · rename_i hTaken
    exact (if_pos hTaken).symm ▸ rfl
  · rename_i hNot
    exact (if_neg hNot).symm ▸ rfl

theorem gpr_checkCpu (h : OracleHost M) (count : Nat) (s : CPUState M) :
    (checkCpu h count s).gpr = s.gpr := by
  unfold checkCpu
  dsimp only
  split <;> rfl

theorem settle_checkInterrupts (o : Oracle M) :
    settle (o.checkInterrupts h) = (settle o).checkInterrupts h := by
  have hCpu : (o.checkInterrupts h).applyLoadDelay.cpu =
      checkCpu h o.vblankCount o.applyLoadDelay.cpu := by
    calc (o.checkInterrupts h).applyLoadDelay.cpu
      _ = (o.withCpu (checkCpu h o.vblankCount o.cpu)).applyLoadDelay.cpu := by
            rw [applyLoadDelay_cpu, applyLoadDelay_cpu]
            rfl
      _ = { checkCpu h o.vblankCount o.cpu with gpr := o.applyLoadDelay.cpu.gpr } :=
            applyLoadDelay_withCpu o _ (gpr_checkCpu h _ _)
      _ = _ := by rw [← checkCpu_gpr, ← applyLoadDelay_eq]
  unfold settle
  rw [hCpu]
  rfl

theorem settle_stepLoop (depth : Nat) (bps : List Word) (count executed : Nat) (o : Oracle M) :
    (stepLoop h depth bps count executed o).map (StepEnd.map settle) =
      Immediate.stepLoop h depth bps count executed (settle o) := by
  induction count generalizing executed o with
  | zero => rfl
  | succ count ih =>
      change (if o.cpu.pc ∈ bps then _ else _ : Option (StepEnd (Oracle M))).map _ =
        if (settle o).cpu.pc ∈ bps then _ else _
      rw [settle_pc]
      split
      · rfl
      · rw [← settle_execOne]
        cases o.execOne h depth with
        | none => rfl
        | some t =>
            change (if t.halted then _ else _ : Option (StepEnd (Oracle M))).map _ =
              if t.halted then _ else _
            split
            · rfl
            · rw [ih]
              split
              · rw [settle_checkInterrupts]
              · rfl

/-- No run of the oracle shows that its loads wait. From any processor and with any load
pending, `interp_step` is left after as many instructions as by an interpreter that writes its
loads at once, at the same breakpoint or halt, and with the same processor once the last
load is made good. -/
theorem interpStep_settles (h : OracleHost M) (depth : Nat) (bps : List Word) (count : Nat)
    (o : Oracle M) :
    (o.interpStep h depth bps count).map (StepEnd.map settle) =
      (settle o).interpStep h depth bps count :=
  settle_stepLoop depth bps count 0 o

end Oracle

end RecompStudio.Interp
