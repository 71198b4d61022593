import RecompStudio.Backends.GteMoves
import RecompStudio.Bios.StrictTranslator
import RecompStudio.Interp.ExecOne

/-!
Emitted code against the interpreter, one instruction word at a time. The two
sides are related by equal registers and memory and equal working states of the
GTE; each emitter keeps the relation except on words and states listed here.
-/

namespace RecompStudio

open RecompStudio.Emitted
open RecompStudio.Gte
open RecompStudio.Insn
open RecompStudio.Interp

variable {M : Type}

/-- Two states with the same registers, coprocessor 0 and memory. -/
structure SameMachine (s t : CPUState M) : Prop where
  gpr : s.gpr = t.gpr
  hi : s.hi = t.hi
  lo : s.lo = t.lo
  cop0 : s.cop0 = t.cop0
  mem : s.mem = t.mem

/-- In addition the GTE registers unpack to the same working state. -/
structure Agree (s t : CPUState M) : Prop extends SameMachine s t where
  gte : loadData s = loadData t

namespace SameMachine

theorem refl (s : CPUState M) : SameMachine s s := ⟨rfl, rfl, rfl, rfl, rfl⟩

theorem symm {s t : CPUState M} (h : SameMachine s t) : SameMachine t s :=
  ⟨h.gpr.symm, h.hi.symm, h.lo.symm, h.cop0.symm, h.mem.symm⟩

theorem trans {s t u : CPUState M} (h : SameMachine s t) (h' : SameMachine t u) :
    SameMachine s u :=
  ⟨h.gpr.trans h'.gpr, h.hi.trans h'.hi, h.lo.trans h'.lo, h.cop0.trans h'.cop0,
    h.mem.trans h'.mem⟩

theorem sr {s t : CPUState M} (h : SameMachine s t) : s.sr = t.sr := by
  rw [CPUState.sr, CPUState.sr, h.cop0]

end SameMachine

namespace Agree

theorem refl (s : CPUState M) : Agree s s := ⟨SameMachine.refl s, rfl⟩

variable {s t : CPUState M}

theorem setGpr (h : Agree s t) (r : RegIndex) (v : Word) :
    Agree (s.setGpr r v) (t.setGpr r v) :=
  ⟨⟨by simp [h.gpr], h.hi, h.lo, h.cop0, h.mem⟩, h.gte⟩

theorem writeGpr (h : Agree s t) (r : RegIndex) (v : Word) :
    Agree (writeGpr s r v) (writeGpr t r v) := (h.setGpr r v).setGpr 0 0

theorem setHiLo (h : Agree s t) (hi lo : Word) :
    Agree { s with hi := hi, lo := lo } { t with hi := hi, lo := lo } :=
  ⟨⟨h.gpr, rfl, rfl, h.cop0, h.mem⟩, h.gte⟩

theorem setCop0 (h : Agree s t) (r : RegIndex) (v : Word) :
    Agree { s with cop0 := Function.update s.cop0 r v }
      { t with cop0 := Function.update t.cop0 r v } :=
  ⟨⟨h.gpr, h.hi, h.lo, congrArg (Function.update · r v) h.cop0, h.mem⟩, h.gte⟩

theorem setMem (h : Agree s t) (m : M) : Agree { s with mem := m } { t with mem := m } :=
  ⟨⟨h.gpr, h.hi, h.lo, h.cop0, rfl⟩, h.gte⟩

theorem setPc (h : Agree s t) (p q : Word) : Agree { s with pc := p } { t with pc := q } :=
  ⟨⟨h.gpr, h.hi, h.lo, h.cop0, h.mem⟩, h.gte⟩

theorem storeState (h : Agree s t) (g : GTEState) :
    Agree (storeState s g) (storeState t g) :=
  ⟨⟨h.gpr, h.hi, h.lo, h.cop0, h.mem⟩, rfl⟩

theorem readData (h : Agree s t) (r : RegIndex) : readData s r = readData t r := by
  rw [Gte.readData, Gte.readData, h.gte]

theorem readCtrl (h : Agree s t) (r : RegIndex) : readCtrl s r = readCtrl t r := by
  rw [Gte.readCtrl, Gte.readCtrl, h.gte]

theorem writeData (h : Agree s t) (r : RegIndex) (v : Word) :
    Agree (writeData s r v) (writeData t r v) := by
  rw [Gte.writeData, Gte.writeData, h.gte]
  exact h.storeState _

theorem writeCtrl (h : Agree s t) (r : RegIndex) (v : Word) :
    Agree (writeCtrl s r v) (writeCtrl t r v) := by
  rw [Gte.writeCtrl, Gte.writeCtrl, h.gte]
  exact h.storeState _

/-- A direct write of a data register against the accessor's. -/
theorem setGteData (h : Agree s t) {r : RegIndex} (hr : CodeGen.gteDataWriteSpecial r = false)
    (v : Word) :
    Agree { s with gteData := Function.update s.gteData r v } (Gte.writeData t r v) := by
  refine ⟨⟨h.gpr, h.hi, h.lo, h.cop0, h.mem⟩, ?_⟩
  calc unpackRegisters (Function.update s.gteData r v) s.gteCtrl true
      = mtc2 (loadData s) r v := unpackRegisters_update_data hr _ _ v
    _ = mtc2 (loadData t) r v := by rw [h.gte]
    _ = loadData (Gte.writeData t r v) :=
        (unpackRegisters_pack (consistent_mtc2 (consistent_unpackRegisters _ _ _) r v)).symm

theorem setGteCtrl (h : Agree s t) {r : RegIndex} (hr : CodeGen.gteCtrlSpecial r = false)
    (v : Word) :
    Agree { s with gteCtrl := Function.update s.gteCtrl r v } (Gte.writeCtrl t r v) := by
  refine ⟨⟨h.gpr, h.hi, h.lo, h.cop0, h.mem⟩, ?_⟩
  calc unpackRegisters s.gteData (Function.update s.gteCtrl r v) true
      = ctc2 (loadData s) r v := unpackRegisters_update_ctrl hr _ _ v
    _ = ctc2 (loadData t) r v := by rw [h.gte]
    _ = loadData (Gte.writeCtrl t r v) :=
        (unpackRegisters_pack (consistent_ctc2 (consistent_unpackRegisters _ _ _) r v)).symm

theorem runGteCommand (h : Agree s t) (host : Host M) (cmd : Word) :
    Agree (runGteCommand host s cmd) (runGteCommand host t cmd) := by
  have hFlagless : unpackRegisters s.gteData s.gteCtrl false =
      unpackRegisters t.gteData t.gteCtrl false :=
    congrArg (fun g : GTEState => { g with flag := g.flag &&& 0x7FFFF000#32 }) h.gte
  rw [Emitted.runGteCommand, Emitted.runGteCommand, hFlagless]
  exact h.storeState _

end Agree

/-- Emitted code and the interpreter both go on, in agreeing states. -/
def Follows (f : Flow M) (r : ExecResult M) : Prop :=
  ∃ s t, f = .next s ∧ r = .advance t ∧ Agree s t

theorem Follows.of_agree {s t : CPUState M} (h : Agree s t) :
    Follows (.next s) (.advance t) := ⟨s, t, rfl, rfl, h⟩

section Statements

variable {host : Host M} {s t : CPUState M}

theorem execStmts_singleton (stmt : Stmt) : execStmts host s [stmt] = stmt.exec host s := by
  cases hExec : stmt.exec host s <;> simp [execStmts, hExec]

/-- A guarded register write is the interpreter's write. What is written matters
only for a real destination. -/
theorem follows_guarded (hAgree : Agree s t) (hZero : s.gpr 0 = 0) {r : RegIndex} {e : Expr}
    {v : Word} (hDefined : r ≠ 0 → e.defined host s = true)
    (hValue : r ≠ 0 → e.eval host s = v) :
    Follows ((CodeGen.guardZero r (.setGpr r e)).exec host s) (advanceWith t r v) := by
  have hZeroT : t.gpr 0 = 0 := by rw [← hAgree.gpr, hZero]
  unfold CodeGen.guardZero advanceWith
  split
  next hr =>
    rw [hr, writeGpr_zero hZeroT]
    exact Follows.of_agree hAgree
  next hr =>
    rw [writeGpr_eq_setGpr hZeroT hr, Stmt.exec_setGpr (hDefined hr), hValue hr]
    exact Follows.of_agree (hAgree.setGpr r v)

theorem follows_write (hAgree : Agree s t) (hZero : s.gpr 0 = 0) {e : Expr} {v : Word}
    (hDefined : e.defined host s = true) (hValue : e.eval host s = v) (r : RegIndex) :
    Follows ((CodeGen.guardZero r (.setGpr r e)).exec host s) (advanceWith t r v) :=
  follows_guarded hAgree hZero (fun _ => hDefined) (fun _ => hValue)

theorem setDst_optReg {s : CPUState M} (hZero : s.gpr 0 = 0) (r : RegIndex) (v : Word) :
    setDst s (Bios.optReg r) v = writeGpr s r v := by
  unfold Bios.optReg
  split
  next hr =>
    subst hr
    rw [writeGpr_zero hZero, setDst]
  next hr => rw [writeGpr_eq_setGpr hZero hr, setDst]

theorem follows_load (hAgree : Agree s t) (hZero : s.gpr 0 = 0) {e : Expr} {w : Word}
    (hDefined : e.defined host s = true) (hAddr : e.eval host s = effectiveAddr t w)
    (kind : LoadKind) :
    Follows ((Stmt.load (Bios.optReg (rt w)) kind e).exec host s) (execLoad host t w kind) := by
  have hExec : (Stmt.load (Bios.optReg (rt w)) kind e).exec host s =
      .next (writeGpr { s with mem := (busLoad host.bus kind (effectiveAddr t w) t.mem).2 } (rt w)
        (busLoad host.bus kind (effectiveAddr t w) t.mem).1) := by
    simp only [Stmt.exec, hDefined, if_true, hAddr, hAgree.mem]
    rw [setDst_optReg]
    exact hZero
  rw [hExec]
  exact Follows.of_agree ((hAgree.setMem _).writeGpr _ _)

theorem follows_store (hAgree : Agree s t) {addr value : Expr} {a v : Word}
    (hDefined : addr.defined host s = true) (hAddr : addr.eval host s = a)
    (hValue : value.eval host s = v) (width : Width) :
    Follows ((Stmt.store width addr value).exec host s)
      (.advance { t with mem := busStore host.bus width t.sr a v t.mem }) := by
  simp only [Stmt.exec, hDefined, if_true, hAddr, hValue, hAgree.mem, hAgree.sr]
  exact Follows.of_agree (hAgree.setMem _)

theorem follows_loadMerge (hAgree : Agree s t) (hZero : s.gpr 0 = 0) {e : Expr} {w : Word}
    (hDefined : e.defined host s = true) (hAddr : e.eval host s = effectiveAddr t w)
    {side : MergeSide} {style : MergeStyle} {merge : Word → Word → Word → Word}
    (hMerge : loadMerged side style = merge) :
    Follows ((Stmt.loadMerge (Bios.optReg (rt w)) side style e).exec host s)
      (execLoadMerge host t w merge) := by
  have hExec : (Stmt.loadMerge (Bios.optReg (rt w)) side style e).exec host s =
      .next (writeGpr
        { s with mem := (host.bus.readWord (alignDown (effectiveAddr t w)) t.mem).2 } (rt w)
        (merge (effectiveAddr t w)
          (host.bus.readWord (alignDown (effectiveAddr t w)) t.mem).1 (t.gpr (rt w)))) := by
    simp only [Stmt.exec, hDefined, if_true, hAddr, hAgree.mem, hMerge, ← hAgree.gpr]
    by_cases hr : rt w = 0
    · simp only [Bios.optReg, hr, if_true, setDst]
      rw [writeGpr_zero]
      exact hZero
    · simp only [Bios.optReg, hr, if_false, setDst, dstValue]
      rw [writeGpr_eq_setGpr _ hr]
      exact hZero
  rw [hExec]
  exact Follows.of_agree ((hAgree.setMem _).writeGpr _ _)

theorem follows_storeMerge (hAgree : Agree s t) {e : Expr} {w : Word}
    (hDefined : e.defined host s = true) (hAddr : e.eval host s = effectiveAddr t w)
    (side : MergeSide) (style : MergeStyle) :
    Follows ((Stmt.storeMerge side style e (.gpr (rt w))).exec host s)
      (execStoreMerge host t w (storeMerged side style)) := by
  simp only [Stmt.exec, hDefined, if_true, hAddr, hAgree.mem, hAgree.sr, Expr.eval,
    congrFun hAgree.gpr (rt w)]
  exact Follows.of_agree (hAgree.setMem _)

theorem follows_loadGte (hAgree : Agree s t) {e : Expr} {a : Word}
    (hDefined : e.defined host s = true) (hAddr : e.eval host s = a) (r : RegIndex) :
    Follows ((Stmt.loadGte (CodeGen.gteDataWriteSpecial r) r e).exec host s)
      (.advance (writeData { t with mem := (host.bus.readWord a t.mem).2 } r
        (host.bus.readWord a t.mem).1)) := by
  simp only [Stmt.exec, hDefined, if_true, hAddr, hAgree.mem]
  cases hr : CodeGen.gteDataWriteSpecial r
  · rw [if_neg Bool.false_ne_true]
    exact Follows.of_agree
      ((hAgree.setMem (host.bus.readWord a t.mem).2).setGteData hr (host.bus.readWord a t.mem).1)
  · rw [if_pos rfl]
    exact Follows.of_agree ((hAgree.setMem _).writeData r _)

theorem low_two_bits (a : Word) :
    a &&& 3#32 = 0#32 ∨ a &&& 3#32 = 1#32 ∨ a &&& 3#32 = 2#32 ∨ a &&& 3#32 = 3#32 := by
  have hMod : (a &&& 3#32).toNat = a.toNat % 4 := by
    rw [BitVec.toNat_and]
    exact Nat.and_two_pow_sub_one_eq_mod a.toNat 2
  have hLt : a.toNat % 4 < 4 := Nat.mod_lt _ (by decide)
  simp only [← BitVec.toNat_inj, hMod, BitVec.toNat_ofNat]
  omega

/-- The shift formulas of the unaligned loads are the byte tables. -/
theorem lwlShifts_eq_lwlTable (a word old : Word) :
    lwlShifts a word old = lwlTable a word old := by
  rcases low_two_bits a with h | h | h | h <;> simp [lwlShifts, lwlTable, h]

theorem lwrShifts_eq_lwrTable (a word old : Word) :
    lwrShifts a word old = lwrTable a word old := by
  rcases low_two_bits a with h | h | h | h <;> simp [lwrShifts, lwrTable, h]

end Statements

/-- Control transfers, and the two instructions that enter the exception
handler. -/
def transfersControl (w : Word) : Bool :=
  match Op.ofWord w with
  | .jr | .jalr | .syscall | .break | .regimm | .j | .jal | .beq | .bne | .blez | .bgtz | .beql
  | .bnel | .blezl | .bgtzl => true
  | .cop1 => isBc1 w
  | _ => false

section ZeroRegister

variable {host : Host M} {s t : CPUState M} {pc w : Word}

theorem execCop0_zero (hZero : s.gpr 0 = 0) (hStep : execCop0 s w = .advance t) :
    t.gpr 0 = 0 := by
  unfold execCop0 at hStep
  split_ifs at hStep <;> injection hStep with hStep <;> subst hStep
  · exact writeGpr_gpr_zero _ _ _
  · exact hZero
  · exact hZero

theorem execCop2_zero (hZero : s.gpr 0 = 0) (hStep : execCop2 host s w = .advance t) :
    t.gpr 0 = 0 := by
  unfold execCop2 at hStep
  split_ifs at hStep <;> injection hStep with hStep <;> subst hStep
  · exact writeGpr_gpr_zero _ _ _
  · exact writeGpr_gpr_zero _ _ _
  · exact hZero
  · exact hZero
  · exact hZero

/-- A plain step of the interpreter keeps the zero register. -/
theorem execPlain_zero (hPlain : transfersControl w = false) (hZero : s.gpr 0 = 0)
    (hStep : execPlain host pc w s = .advance t) : t.gpr 0 = 0 := by
  cases hOp : Op.ofWord w <;>
    simp only [transfersControl, execPlain, hOp, advanceWith, execLoad, execLoadMerge, execStore,
      execStoreMerge, ExecResult.advance.injEq, reduceCtorEq, Bool.true_eq_false] at hPlain hStep
  case cop0 => exact execCop0_zero hZero hStep
  case cop2 => exact execCop2_zero hZero hStep
  case cop1 | lwc1 | swc1 =>
    split_ifs at hStep
    all_goals
      injection hStep with hStep
      subst hStep
      exact hZero
  case div | divu =>
    subst hStep
    first | unfold execDiv | unfold execDivu
    simp only
    split_ifs <;> exact hZero
  all_goals
    subst hStep
    first | exact hZero | exact writeGpr_gpr_zero _ _ _

end ZeroRegister

/-- What an emitted read of a GTE data register returns. -/
@[grind =] def gteDataRead (s : CPUState M) (r : RegIndex) : Word :=
  if CodeGen.gteDataReadSpecial r then readData s r else s.gteData r

@[grind =] def gteCtrlRead (s : CPUState M) (r : RegIndex) : Word :=
  if CodeGen.gteCtrlSpecial r then readCtrl s r else s.gteCtrl r

variable (host : Host M) (w : Word) (s : CPUState M)

/-- The emitted game code puts a non-zero value into the zero register. -/
@[grind =] def WritesZero : Prop :=
  match Op.ofWord w with
  | .addi | .addiu => rs w = 0 ∧ rt w = 0 ∧ simm w ≠ 0
  | .cop0 => rs w = 0x00 ∧ rt w = 0 ∧ s.cop0 (rd w) ≠ 0
  | .cop2 => rt w = 0 ∧
      ((rs w = 0x00 ∧ gteDataRead s (rd w) ≠ 0) ∨ (rs w = 0x02 ∧ gteCtrlRead s (rd w) ≠ 0))
  | _ => False

/-- The emitted game code leaves out a read that has an effect. -/
def SkipsRead : Prop :=
  match Op.ofWord w with
  | .lwl | .lwr =>
      rt w = 0 ∧ (host.bus.readWord (alignDown (effectiveAddr s w)) s.mem).2 ≠ s.mem
  | _ => False

/-- The emitted game code divides the least integer by minus one. -/
def DivOverflows : Prop :=
  match Op.ofWord w with
  | .div => s.gpr (rs w) = 0x80000000#32 ∧ s.gpr (rt w) = 0xFFFFFFFF#32
  | _ => False

/-- An emitted addition of the immediate overflows as a signed one. -/
def AddOverflows : Prop :=
  BitVec.saddOverflow (s.gpr (rs w)) (simm w) = true ∧
    match Op.ofWord w with
    | .addiu => rt w ≠ 0
    | .lb | .lh | .lwl | .lw | .lbu | .lhu | .lwr | .sb | .sh | .swl | .sw | .swr | .lwc1 | .swc1
    | .lwc2 | .swc2 => True
    | _ => False

/-- `rfe` with a pair of old mode bits, which the BIOS code clears. -/
def ClearsOldMode : Prop := w = 0x42000010#32 ∧ s.sr &&& 0x30#32 ≠ 0

/-- The shift formulas keep other bytes of the stored word than the tables. -/
@[grind =] def KeepsOtherBytes : Prop :=
  let a := effectiveAddr s w
  let r := host.bus.readWord (alignDown a) s.mem
  let stored (word : Word) := host.bus.writeWord s.sr (alignDown a) word r.2
  match Op.ofWord w with
  | .swl => stored (swlShifts a r.1 (s.gpr (rt w))) ≠ stored (swlTable a r.1 (s.gpr (rt w)))
  | .swr => stored (swrShifts a r.1 (s.gpr (rt w))) ≠ stored (swrTable a r.1 (s.gpr (rt w)))
  | _ => False

/-- An emitted read of a GTE register returns bits beyond its width. -/
def ReadsBeyond : Prop :=
  match Op.ofWord w with
  | .cop2 => rt w ≠ 0 ∧
      ((rs w = 0x00 ∧ dataBeyond (rd w) (s.gteData (rd w)) ≠ 0) ∨
        (rs w = 0x02 ∧ ctrlBeyond (rd w) (s.gteCtrl (rd w)) ≠ 0))
  | .swc2 =>
      host.bus.writeWord s.sr (effectiveAddr s w) (gteDataRead s (rt w)) s.mem ≠
        host.bus.writeWord s.sr (effectiveAddr s w) (readData s (rt w)) s.mem
  | _ => False

end RecompStudio
