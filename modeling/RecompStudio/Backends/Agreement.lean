import RecompStudio.Backends.StrictFollows

/-!
The three backends side by side: on which words and states any two of them
leave the same registers and memory behind.
-/

namespace RecompStudio

open RecompStudio.Emitted
open RecompStudio.Gte
open RecompStudio.Insn
open RecompStudio.Interp
open RecompStudio.CodeGen
open RecompStudio.Bios (strictTranslate)

variable {M : Type}

/-- The execution backends: BIOS code, game code, and the interpreter. -/
inductive Backend where
  | strict
  | codegen
  | interp
deriving DecidableEq, Repr

/-- What a backend makes of one word in one state. -/
inductive Outcome (M : Type) where
  | done (s : CPUState M)
  | exception
  | undefined
  | rejected

@[grind =] def Outcome.ofFlow : Flow M → Outcome M
  | .next s | .goto _ s | .ret s => .done s
  | .trap _ => .exception
  | .undefined => .undefined

def Outcome.ofExec : ExecResult M → Outcome M
  | .advance s | .transfer s => .done s
  | .trap _ => .exception
  | .unsupported => .rejected

section Outcomes

variable (host : Host M) (addr w : Word) (s : CPUState M)

@[grind =] def codegenOutcome : Outcome M :=
  match translatePlain addr w with
  | .code stmts => .ofFlow (execStmts host s stmts)
  | .todo | .fatal => .rejected

@[grind =] def strictOutcome : Outcome M :=
  match strictTranslate addr w with
  | .code stmts | .terminator _ stmts => .ofFlow (execStmts host s stmts)
  | .unsupported => .rejected

@[grind =] def interpOutcome : Outcome M := .ofExec (execPlain host addr w s)

@[grind =] def outcome : Backend → Outcome M
  | .strict => strictOutcome host addr w s
  | .codegen => codegenOutcome host addr w s
  | .interp => interpOutcome host addr w s

/-- The states in which each backend does its part of the common meaning. The
interpreter reads GTE registers through the accessors; both emitters do not. -/
def Backend.Sound : Backend → Prop
  | .strict => StrictSound host w s
  | .codegen => CodeGenSound host w s
  | .interp => ¬ ReadsBeyond host w s

end Outcomes

/-- The backend accepts the word and raises no exception. -/
def Outcome.Ran : Outcome M → Prop
  | .done _ | .undefined => True
  | .exception | .rejected => False

/-- Both come to an end, with the same registers, COP0 and memory. -/
def SameOutcome (a b : Outcome M) : Prop :=
  ∃ s t, a = .done s ∧ b = .done t ∧ SameMachine s t

theorem SameOutcome.symm {a b : Outcome M} (h : SameOutcome a b) : SameOutcome b a := by
  obtain ⟨s, t, ha, hb, hSame⟩ := h
  exact ⟨t, s, hb, ha, hSame.symm⟩

theorem SameOutcome.comm {a b : Outcome M} : SameOutcome a b ↔ SameOutcome b a :=
  ⟨SameOutcome.symm, SameOutcome.symm⟩

theorem SameOutcome.trans {a b c : Outcome M} (h : SameOutcome a b) (h' : SameOutcome b c) :
    SameOutcome a c := by
  obtain ⟨s, t, ha, hb, hSame⟩ := h
  obtain ⟨t', u, hb', hc, hSame'⟩ := h'
  obtain rfl : t = t' := Outcome.done.inj (hb.symm.trans hb')
  exact ⟨s, u, ha, hc, hSame.trans hSame'⟩

theorem SameOutcome.of_follows {f : Flow M} {r : ExecResult M} (h : Follows f r) :
    SameOutcome (.ofFlow f) (.ofExec r) := by
  obtain ⟨s, t, rfl, rfl, hAgree⟩ := h
  exact ⟨s, t, rfl, rfl, hAgree.toSameMachine⟩

theorem not_sameOutcome_undefined {b : Outcome M} : ¬ SameOutcome .undefined b := by
  rintro ⟨s, t, h, _⟩
  cases h

section Pairs

variable {host : Host M} {addr w : Word} {s : CPUState M}

/-- The sound words: both run and do the same. -/
theorem codegen_same_interp (hZero : s.gpr 0 = 0) (hPlain : transfersControl w = false)
    (hRan : (codegenOutcome host addr w s).Ran) (hRan' : (interpOutcome host addr w s).Ran)
    (hSound : CodeGenSound host w s) (hNoBeyond : ¬ ReadsBeyond host w s) :
    SameOutcome (codegenOutcome host addr w s) (interpOutcome host addr w s) := by
  unfold codegenOutcome interpOutcome at *
  cases hCode : translatePlain addr w with
  | todo | fatal => simp only [hCode, Outcome.Ran] at hRan
  | code stmts =>
      refine SameOutcome.of_follows (codegen_follows (Agree.refl s) hZero hPlain hCode ?_ hSound
        hNoBeyond)
      intro hRejected
      rw [hRejected] at hRan'
      exact hRan'

theorem execPlain_ne_transfer {pc : Word} (hPlain : transfersControl w = false)
    (t : CPUState M) : execPlain host pc w s ≠ .transfer t := by
  intro hStep
  cases hOp : Op.ofWord w <;>
    simp only [transfersControl, execPlain, hOp, advanceWith, execLoad, execLoadMerge, execStore,
      execStoreMerge, execCop0, execCop2, reduceCtorEq, Bool.true_eq_false] at hPlain hStep
  all_goals
    split_ifs at hStep

theorem execPlain_of_done (hPlain : transfersControl w = false) {t : CPUState M}
    (hDone : interpOutcome host addr w s = .done t) : execPlain host addr w s = .advance t := by
  unfold interpOutcome Outcome.ofExec at hDone
  split at hDone
  next t' hStep => rw [hStep, Outcome.done.inj hDone]
  next t' hStep => exact absurd hStep (execPlain_ne_transfer hPlain t')
  all_goals cases hDone

theorem codegen_of_done {s' : CPUState M} (hDone : codegenOutcome host addr w s = .done s') :
    ∃ stmts, translatePlain addr w = .code stmts ∧
      Outcome.ofFlow (execStmts host s stmts) = .done s' := by
  unfold codegenOutcome at hDone
  split at hDone
  next stmts hCode => exact ⟨stmts, hCode, hDone⟩
  all_goals cases hDone

/-- Where an array holds more of a GTE register than its accessor returns, both
emitters move it with one and the same statement. -/
theorem readsBeyond_move (addr : Word) (hOp : Op.ofWord w = .cop2)
    (hBeyond : ReadsBeyond host w s) :
    ∃ e v, rt w ≠ 0 ∧ translatePlain addr w = .code [.setGpr (rt w) e] ∧
      strictTranslate addr w = .code [.setGpr (rt w) e] ∧ e.defined host s = true ∧
      e.eval host s ≠ v ∧
      ∀ t, Agree s t → execPlain host addr w t = advanceWith t (rt w) v := by
  have hNonzero : w ≠ 0 := ne_zero_of_op hOp (by decide)
  unfold ReadsBeyond at hBeyond
  simp only [hOp] at hBeyond
  obtain ⟨hRt, ⟨hRs, hBits⟩ | ⟨hRs, hBits⟩⟩ := hBeyond
  · refine ⟨gteDataValue (rd w), readData s (rd w), hRt, ?_, ?_, gteDataValue_defined _, ?_, ?_⟩
    · simp only [translatePlain, hOp, translateCop2, if_pos hRs]
    · simp only [strictTranslate, hOp, if_neg hNonzero, Bios.strictCop2, if_pos hRs,
        Bios.emitGprWrite, if_neg hRt]
    · rw [gteDataValue_eval]
      exact gteDataRead_ne hBits
    · intro t hAgree
      simp only [execPlain, hOp, execCop2, if_pos hRs, hAgree.readData]
  · have hNotMfc : rs w ≠ 0x00 := by
      rw [hRs]
      decide
    refine ⟨gteCtrlValue (rd w), readCtrl s (rd w), hRt, ?_, ?_, gteCtrlValue_defined _, ?_, ?_⟩
    · simp only [translatePlain, hOp, translateCop2, if_neg hNotMfc, if_pos hRs]
    · simp only [strictTranslate, hOp, if_neg hNonzero, Bios.strictCop2, if_neg hNotMfc,
        if_pos hRs, Bios.emitGprWrite, if_neg hRt]
    · rw [gteCtrlValue_eval]
      exact gteCtrlRead_ne hBits
    · intro t hAgree
      simp only [execPlain, hOp, execCop2, if_neg hNotMfc, if_pos hRs, hAgree.readCtrl]

theorem readsBeyond_move_ne {e : Expr} {v : Word} (hRt : rt w ≠ 0)
    (hDefined : e.defined host s = true) (hValue : e.eval host s ≠ v) {s' t' : CPUState M}
    (hFlow : Outcome.ofFlow (execStmts host s [.setGpr (rt w) e]) = .done s')
    {t : CPUState M} (hStep : ExecResult.advance t' = advanceWith t (rt w) v) :
    s'.gpr ≠ t'.gpr := by
  rw [execStmts_singleton, Stmt.exec, if_pos hDefined] at hFlow
  obtain rfl := Outcome.done.inj hFlow
  obtain rfl := ExecResult.advance.inj hStep
  intro hSame
  have hRegister := congrFun hSame (rt w)
  rw [CPUState.setGpr_gpr, Function.update_self, writeGpr, CPUState.setGpr_gpr,
    Function.update_of_ne hRt, CPUState.setGpr_gpr, Function.update_self] at hRegister
  exact hValue hRegister

theorem readsBeyond_op (hBeyond : ReadsBeyond host w s) :
    Op.ofWord w = .cop2 ∨ Op.ofWord w = .swc2 := by
  unfold ReadsBeyond at hBeyond
  cases hOp : Op.ofWord w <;> simp only [hOp] at hBeyond
  · exact .inl rfl
  · exact .inr rfl

/-- A word store of the emitted value against the accessor's. -/
theorem readsBeyond_store (hOp : Op.ofWord w = .swc2) (hBeyond : ReadsBeyond host w s)
    {t s' t' : CPUState M} (hAgree : Agree s t)
    (hs' : s'.mem = host.bus.writeWord s.sr (effectiveAddr s w) (gteDataRead s (rt w)) s.mem)
    (hStep : execPlain host addr w t = .advance t') : s'.mem ≠ t'.mem := by
  unfold ReadsBeyond at hBeyond
  simp only [hOp] at hBeyond
  simp only [execPlain, hOp, ExecResult.advance.injEq] at hStep
  subst hStep
  intro hSame
  rw [hs', ← hAgree.sr, ← hAgree.mem, ← hAgree.readData, effectiveAddr, effectiveAddr,
    ← hAgree.gpr] at hSame
  exact hBeyond hSame

theorem exec_swc2 {e : Expr} {w : Word} (hDefined : e.defined host s = true)
    (hAddr : e.eval host s = effectiveAddr s w) :
    (Stmt.store .word e (gteDataValue (rt w))).exec host s = .next { s with
      mem := host.bus.writeWord s.sr (effectiveAddr s w) (gteDataRead s (rt w)) s.mem } := by
  rw [Stmt.exec, if_pos hDefined, hAddr, gteDataValue_eval, busStore]

theorem strict_swc2 (hOp : Op.ofWord w = .swc2) (hNoAdd : ¬ AddOverflows w s) :
    strictOutcome host addr w s = .done { s with
      mem := host.bus.writeWord s.sr (effectiveAddr s w) (gteDataRead s (rt w)) s.mem } := by
  have hNonzero : w ≠ 0 := ne_zero_of_op hOp (by decide)
  have hAdd : BitVec.saddOverflow (s.gpr (rs w)) (simm w) = false := by
    rw [← Bool.not_eq_true]
    exact fun h => hNoAdd ⟨h, by simp only [hOp]⟩
  simp only [strictOutcome, strictTranslate, if_neg hNonzero, hOp]
  rw [execStmts_singleton, exec_swc2 (strictGteAddr_defined hAdd)
    (strictGteAddr_eval (Agree.refl s) w), Outcome.ofFlow]

theorem codegen_skipsRead {stmts : List Stmt} (hCode : translatePlain addr w = .code stmts)
    (hSkips : SkipsRead host w s) {t t' : CPUState M} (hAgree : Agree s t)
    (hStep : execPlain host addr w t = .advance t') :
    execStmts host s stmts = .next s ∧ s.mem ≠ t'.mem := by
  unfold SkipsRead at hSkips
  cases hOp : Op.ofWord w <;> simp only [hOp] at hSkips
  all_goals
    obtain ⟨hRt, hRead⟩ := hSkips
    rw [effectiveAddr, hAgree.gpr, hAgree.mem] at hRead
    simp only [translatePlain, hOp, Translation.code.injEq, translateLoadMerge, guardZero,
      if_pos hRt] at hCode
    simp only [execPlain, hOp, execLoadMerge, advanceWith, ExecResult.advance.injEq] at hStep
    subst hCode hStep
    rw [hAgree.mem]
    exact ⟨rfl, Ne.symm hRead⟩

theorem codegen_divOverflows {stmts : List Stmt} (hCode : translatePlain addr w = .code stmts)
    (hDiv : DivOverflows w s) : execStmts host s stmts = .undefined := by
  unfold DivOverflows at hDiv
  cases hOp : Op.ofWord w <;> simp only [hOp] at hDiv
  obtain ⟨hn, hd⟩ := hDiv
  simp only [translatePlain, hOp, Translation.code.injEq] at hCode
  subst hCode
  simp [execStmts, Stmt.exec, Expr.eval, hn, hd, isIntMin]

/-- From agreeing states an unsound word leaves other registers or another memory. -/
theorem codegen_differs {t s' t' : CPUState M} (hAgree : Agree s t) (hZero : s.gpr 0 = 0)
    (hPlain : transfersControl w = false) {stmts : List Stmt}
    (hCode : translatePlain addr w = .code stmts)
    (hFlow : Outcome.ofFlow (execStmts host s stmts) = .done s')
    (hStep : execPlain host addr w t = .advance t')
    (hDefect : ¬ CodeGenSound host w s ∨ ReadsBeyond host w s) :
    s'.gpr ≠ t'.gpr ∨ s'.mem ≠ t'.mem := by
  rcases hDefect with hUnsound | hBeyond
  · by_cases hWrites : WritesZero w s
    · obtain ⟨u, hExec, hValue⟩ := codegen_writesZero host hCode hWrites
      rw [hExec] at hFlow
      obtain rfl := Outcome.done.inj hFlow
      have hKept : t'.gpr 0 = 0 := execPlain_zero hPlain (by rw [← hAgree.gpr, hZero]) hStep
      exact .inl fun hSame => hValue (by rw [hSame, hKept])
    by_cases hSkips : SkipsRead host w s
    · obtain ⟨hExec, hMem⟩ := codegen_skipsRead hCode hSkips hAgree hStep
      rw [hExec] at hFlow
      obtain rfl := Outcome.done.inj hFlow
      exact .inr hMem
    · have hDiv : DivOverflows w s := by
        by_contra hNoDiv
        exact hUnsound ⟨hWrites, hSkips, hNoDiv⟩
      rw [codegen_divOverflows hCode hDiv] at hFlow
      cases hFlow
  · rcases readsBeyond_op hBeyond with hOp | hOp
    · obtain ⟨e, v, hRt, hMove, _, hDefined, hValue, hInterp⟩ :=
        readsBeyond_move addr hOp hBeyond
      obtain rfl := Translation.code.inj (hCode.symm.trans hMove)
      exact .inl (readsBeyond_move_ne hRt hDefined hValue hFlow
        (hStep.symm.trans (hInterp t hAgree)))
    · refine .inr (readsBeyond_store hOp hBeyond hAgree ?_ hStep)
      simp only [translatePlain, hOp, Translation.code.injEq] at hCode
      rw [← hCode, execStmts_singleton,
        exec_swc2 (addrExpr_defined w) (addrExpr_eval (Agree.refl s) w)] at hFlow
      exact congrArg CPUState.mem (Outcome.done.inj hFlow).symm

theorem codegen_not_same_interp (hZero : s.gpr 0 = 0) (hPlain : transfersControl w = false)
    (hDefect : ¬ CodeGenSound host w s ∨ ReadsBeyond host w s) :
    ¬ SameOutcome (codegenOutcome host addr w s) (interpOutcome host addr w s) := by
  rintro ⟨s', t', hs', ht', hSame⟩
  obtain ⟨stmts, hCode, hFlow⟩ := codegen_of_done hs'
  rcases codegen_differs (Agree.refl s) hZero hPlain hCode hFlow (execPlain_of_done hPlain ht')
    hDefect with hGpr | hMem
  · exact hGpr hSame.gpr
  · exact hMem hSame.mem

theorem codegen_same_interp_iff (hZero : s.gpr 0 = 0) (hPlain : transfersControl w = false)
    (hRan : (codegenOutcome host addr w s).Ran) (hRan' : (interpOutcome host addr w s).Ran) :
    SameOutcome (codegenOutcome host addr w s) (interpOutcome host addr w s) ↔
      CodeGenSound host w s ∧ ¬ ReadsBeyond host w s := by
  constructor
  · intro hSame
    by_contra hDefect
    refine codegen_not_same_interp hZero hPlain ?_ hSame
    by_cases hSound : CodeGenSound host w s
    · exact .inr (not_not.mp fun hBeyond => hDefect ⟨hSound, hBeyond⟩)
    · exact .inl hSound
  · rintro ⟨hSound, hNoBeyond⟩
    exact codegen_same_interp hZero hPlain hRan hRan' hSound hNoBeyond

theorem strict_addOverflows (hAdd : AddOverflows w s) :
    strictOutcome host addr w s = .undefined := by
  obtain ⟨hOverflow, hOp⟩ := hAdd
  have hUndefined : (Bios.strictAddr w).defined host s = false := by
    rw [← Bool.not_eq_true, strictAddr_defined_iff, hOverflow]
    decide
  have hImm : simm w ≠ 0 := by
    intro h
    have hLt := BitVec.toInt_lt (x := s.gpr (rs w))
    have hLe := BitVec.le_toInt (x := s.gpr (rs w))
    simp [h, BitVec.saddOverflow] at hOverflow
    omega
  cases hCases : Op.ofWord w <;> simp only [hCases] at hOp
  all_goals
    have hNonzero : w ≠ 0 := ne_zero_of_op hCases (by decide)
    simp only [strictOutcome, strictTranslate, if_neg hNonzero, hCases, Bios.strictLoad,
      Bios.strictStore, Bios.strictGteAddr, if_neg hImm, execStmts, Stmt.exec, hUndefined,
      Bool.false_eq_true, if_false, Outcome.ofFlow]
  simp only [Bios.emitGprWrite, if_neg hOp, hUndefined, Bool.false_eq_true, if_false]

/-- The only plain words that end a BIOS function are `rfe` and those that raise
the reserved-instruction exception. -/
theorem strict_terminator (hPlain : transfersControl w = false) {k : Bios.Terminator}
    {stmts : List Stmt} (hCode : strictTranslate addr w = .terminator k stmts) :
    w = 0x42000010#32 ∨ stmts = [.raise .reservedInstruction] := by
  unfold strictTranslate at hCode
  by_cases hNop : w = 0
  · rw [if_pos hNop] at hCode
    cases hCode
  rw [if_neg hNop] at hCode
  cases hOp : Op.ofWord w <;>
    simp only [hOp, transfersControl, reduceCtorEq, Bool.true_eq_false, Bios.strictShift,
      Bios.strictShiftVar, Bios.strictBinary, Bios.strictImmediate, Bios.strictLoad,
      Bios.strictStore, Bios.StrictResult.terminator.injEq] at hPlain hCode
  case mult | sync | specialOther => exact .inr hCode.2.symm
  case cop0 =>
    unfold Bios.strictCop0 at hCode
    split_ifs at hCode with hRfe
    exact .inl hRfe
  case cop1 =>
    unfold Bios.strictCop1 at hCode
    split_ifs at hCode with hBranch
    have hBc1 : isBc1 w = true := by simpa [isBc1] using hBranch
    rw [hBc1] at hPlain
    cases hPlain
  case cop2 =>
    unfold Bios.strictCop2 at hCode
    split_ifs at hCode

/-- The two masks of `rfe` differ in the old pair of mode bits. -/
theorem popStatus_eq_iff (sr : Word) :
    popStatus 0xFFFFFFC0#32 sr = popStatus 0xFFFFFFF0#32 sr ↔ sr &&& 0x30#32 = 0 := by
  have hCleared : popStatus 0xFFFFFFC0#32 sr &&& 0x30#32 = 0 := by
    ext i hi
    interval_cases i <;> simp [popStatus]
  have hKept : popStatus 0xFFFFFFF0#32 sr &&& 0x30#32 = sr &&& 0x30#32 := by
    ext i hi
    interval_cases i <;> simp [popStatus]
  constructor
  · intro h
    rw [← hKept, ← h, hCleared]
  · intro h
    have hFour : sr[4] = false := by simpa using congrArg (BitVec.getLsbD · 4) h
    have hFive : sr[5] = false := by simpa using congrArg (BitVec.getLsbD · 5) h
    apply BitVec.eq_of_getLsbD_eq
    intro i hi
    interval_cases i <;> simp [popStatus, hFour, hFive]

theorem rfe_outcomes (host : Host M) (addr : Word) (s : CPUState M) :
    strictOutcome host addr 0x42000010#32 s =
        .done { s with cop0 := Function.update s.cop0 12 (popStatus 0xFFFFFFC0#32 s.sr) } ∧
      codegenOutcome host addr 0x42000010#32 s =
        .done { s with cop0 := Function.update s.cop0 12 (popStatus 0xFFFFFFF0#32 s.sr) } ∧
      interpOutcome host addr 0x42000010#32 s =
        .done { s with cop0 := Function.update s.cop0 12 (popStatus 0xFFFFFFF0#32 s.sr) } :=
  ⟨rfl, rfl, rfl⟩

theorem rfe_same_iff :
    SameOutcome (strictOutcome host addr 0x42000010#32 s)
        (interpOutcome host addr 0x42000010#32 s) ↔ ¬ ClearsOldMode 0x42000010#32 s := by
  obtain ⟨hStrict, _, hInterp⟩ := rfe_outcomes host addr s
  rw [hStrict, hInterp]
  constructor
  · rintro ⟨s', t', hs', ht', hSame⟩ ⟨_, hBits⟩
    obtain rfl := Outcome.done.inj hs'
    obtain rfl := Outcome.done.inj ht'
    have hStatus := congrFun hSame.cop0 12
    simp only [Function.update_self, popStatus_eq_iff] at hStatus
    exact hBits hStatus
  · intro hClear
    have hBits : s.sr &&& 0x30#32 = 0 := by
      by_contra h
      exact hClear ⟨rfl, h⟩
    rw [(popStatus_eq_iff s.sr).mpr hBits]
    exact ⟨_, _, rfl, rfl, SameMachine.refl _⟩

/-- A plain word that the BIOS translator runs is `rfe` or plain code. -/
theorem strict_of_ran (hPlain : transfersControl w = false)
    (hRan : (strictOutcome host addr w s).Ran) :
    w = 0x42000010#32 ∨ ∃ stmts, strictTranslate addr w = .code stmts ∧
      strictOutcome host addr w s = .ofFlow (execStmts host s stmts) ∧
      ∀ k, execStmts host s stmts ≠ .trap k := by
  unfold strictOutcome at hRan ⊢
  cases hCode : strictTranslate addr w with
  | unsupported => simp only [hCode, Outcome.Ran] at hRan
  | code stmts =>
      refine .inr ⟨stmts, rfl, rfl, fun k hTrap => ?_⟩
      simp only [hCode, hTrap, Outcome.ofFlow, Outcome.Ran] at hRan
  | terminator k stmts =>
      rcases strict_terminator hPlain hCode with hRfe | hRaise
      · exact .inl hRfe
      · simp only [hCode, hRaise, execStmts, Stmt.exec, Outcome.ofFlow, Outcome.Ran] at hRan

theorem strict_same_interp (hZero : s.gpr 0 = 0) (hPlain : transfersControl w = false)
    (hRan : (strictOutcome host addr w s).Ran) (hSound : StrictSound host w s)
    (hNoBeyond : ¬ ReadsBeyond host w s) :
    SameOutcome (strictOutcome host addr w s) (interpOutcome host addr w s) := by
  rcases strict_of_ran hPlain hRan with rfl | ⟨stmts, hCode, hOutcome, hNoTrap⟩
  · exact rfe_same_iff.2 hSound.mode
  · rw [hOutcome]
    exact SameOutcome.of_follows
      (strict_follows (Agree.refl s) hZero hPlain hCode hNoTrap hSound hNoBeyond)

theorem keepsOtherBytes_op (hBytes : KeepsOtherBytes host w s) :
    Op.ofWord w = .swl ∨ Op.ofWord w = .swr := by
  unfold KeepsOtherBytes at hBytes
  cases hOp : Op.ofWord w <;> simp only [hOp] at hBytes
  · exact .inl rfl
  · exact .inr rfl

theorem strict_keepsOtherBytes (hNoAdd : ¬ AddOverflows w s) (hBytes : KeepsOtherBytes host w s)
    {s' t' : CPUState M} (hs' : strictOutcome host addr w s = .done s')
    (hStep : execPlain host addr w s = .advance t') : ¬ SameMachine s' t' := by
  intro hSame
  have hMem := hSame.mem
  rcases keepsOtherBytes_op hBytes with hOp | hOp
  all_goals
    have hNonzero : w ≠ 0 := ne_zero_of_op hOp (by decide)
    have hDefined : (Bios.strictAddr w).defined host s = true := by
      rw [strictAddr_defined_iff, ← Bool.not_eq_true]
      exact fun h => hNoAdd ⟨h, by simp only [hOp]⟩
    simp only [strictOutcome, strictTranslate, if_neg hNonzero, hOp, execStmts, Stmt.exec,
      hDefined, if_true, strictAddr_eval (Agree.refl s), Expr.eval, Outcome.ofFlow,
      Outcome.done.injEq] at hs'
    simp only [execPlain, hOp, execStoreMerge, ExecResult.advance.injEq] at hStep
    simp only [KeepsOtherBytes, hOp] at hBytes
    subst hs' hStep
    exact hBytes hMem

theorem strict_not_same_interp (hPlain : transfersControl w = false)
    (hDefect : ¬ StrictSound host w s ∨ ReadsBeyond host w s) :
    ¬ SameOutcome (strictOutcome host addr w s) (interpOutcome host addr w s) := by
  by_cases hAdd : AddOverflows w s
  · rw [strict_addOverflows hAdd]
    exact not_sameOutcome_undefined
  intro hSameOutcome
  obtain ⟨s', t', hs', ht', hSame⟩ := id hSameOutcome
  have hStep := execPlain_of_done hPlain ht'
  rcases hDefect with hUnsound | hBeyond
  · by_cases hBytes : KeepsOtherBytes host w s
    · exact strict_keepsOtherBytes hAdd hBytes hs' hStep hSame
    · have hMode : ClearsOldMode w s := by
        by_contra hNoMode
        exact hUnsound ⟨hAdd, hNoMode, hBytes⟩
      obtain rfl := hMode.1
      exact rfe_same_iff.1 hSameOutcome hMode
  · rcases readsBeyond_op hBeyond with hOp | hOp
    · obtain ⟨e, v, hRt, _, hMove, hDefined, hValue, hInterp⟩ :=
        readsBeyond_move addr hOp hBeyond
      simp only [strictOutcome, hMove] at hs'
      exact readsBeyond_move_ne hRt hDefined hValue hs'
        (hStep.symm.trans (hInterp s (Agree.refl s))) hSame.gpr
    · refine readsBeyond_store hOp hBeyond (Agree.refl s) ?_ hStep hSame.mem
      rw [strict_swc2 hOp hAdd] at hs'
      exact congrArg CPUState.mem (Outcome.done.inj hs').symm

theorem strict_same_interp_iff (hZero : s.gpr 0 = 0) (hPlain : transfersControl w = false)
    (hRan : (strictOutcome host addr w s).Ran) :
    SameOutcome (strictOutcome host addr w s) (interpOutcome host addr w s) ↔
      StrictSound host w s ∧ ¬ ReadsBeyond host w s := by
  constructor
  · intro hSame
    by_contra hDefect
    refine strict_not_same_interp hPlain ?_ hSame
    by_cases hSound : StrictSound host w s
    · exact .inr (not_not.mp fun hBeyond => hDefect ⟨hSound, hBeyond⟩)
    · exact .inl hSound
  · rintro ⟨hSound, hNoBeyond⟩
    exact strict_same_interp hZero hPlain hRan hSound hNoBeyond

/-- No defect of the game code is about a word that the other two move or store
differently. -/
theorem codegenSound_of_readsBeyond (hBeyond : ReadsBeyond host w s) : CodeGenSound host w s := by
  unfold ReadsBeyond at hBeyond
  cases hOp : Op.ofWord w <;> simp only [hOp] at hBeyond
  · refine ⟨?_, ?_, ?_⟩ <;> simp only [WritesZero, SkipsRead, DivOverflows, hOp, not_false_eq_true]
    exact fun hWrites => hBeyond.1 hWrites.1
  · refine ⟨?_, ?_, ?_⟩ <;> simp only [WritesZero, SkipsRead, DivOverflows, hOp, not_false_eq_true]

theorem codegenSound_of_strict_defect
    (hDefect : ClearsOldMode w s ∨ KeepsOtherBytes host w s) : CodeGenSound host w s := by
  rcases hDefect with ⟨rfl, _⟩ | hBytes
  · refine ⟨?_, ?_, ?_⟩
    · rintro ⟨hRs, _⟩
      exact absurd hRs (by decide)
    · exact id
    · exact id
  · rcases keepsOtherBytes_op hBytes with hOp | hOp
    all_goals
      refine ⟨?_, ?_, ?_⟩ <;>
        simp only [WritesZero, SkipsRead, DivOverflows, hOp, not_false_eq_true]

theorem not_readsBeyond_of_strict_defect
    (hDefect : ClearsOldMode w s ∨ KeepsOtherBytes host w s) : ¬ ReadsBeyond host w s := by
  rcases hDefect with ⟨rfl, _⟩ | hBytes
  · exact id
  · intro hBeyond
    rcases keepsOtherBytes_op hBytes with hOp | hOp <;>
      rcases readsBeyond_op hBeyond with hOp' | hOp' <;> rw [hOp] at hOp' <;> cases hOp'

theorem interp_ran_of_strict_defect
    (hDefect : ClearsOldMode w s ∨ KeepsOtherBytes host w s) :
    (interpOutcome host addr w s).Ran := by
  rcases hDefect with ⟨rfl, _⟩ | hBytes
  · trivial
  · rcases keepsOtherBytes_op hBytes with hOp | hOp
    all_goals
      simp only [interpOutcome, execPlain, hOp, execStoreMerge, Outcome.ofExec, Outcome.Ran]

/-- Direct moves of GTE registers are the same statements in both emitters. -/
theorem codegen_same_strict_of_readsBeyond (hNoAdd : ¬ AddOverflows w s)
    (hBeyond : ReadsBeyond host w s) :
    SameOutcome (codegenOutcome host addr w s) (strictOutcome host addr w s) := by
  rcases readsBeyond_op hBeyond with hOp | hOp
  · obtain ⟨e, v, _, hGame, hBios, hDefined, _⟩ := readsBeyond_move addr hOp hBeyond
    simp only [codegenOutcome, strictOutcome, hGame, hBios]
    rw [execStmts_singleton, Stmt.exec, if_pos hDefined]
    exact ⟨_, _, rfl, rfl, SameMachine.refl _⟩
  · rw [strict_swc2 hOp hNoAdd]
    simp only [codegenOutcome, translatePlain, hOp]
    rw [execStmts_singleton, exec_swc2 (addrExpr_defined w) (addrExpr_eval (Agree.refl s) w)]
    exact ⟨_, _, rfl, rfl, SameMachine.refl _⟩

theorem codegen_same_strict_iff (hZero : s.gpr 0 = 0) (hPlain : transfersControl w = false)
    (hRan : (codegenOutcome host addr w s).Ran) (hRan' : (strictOutcome host addr w s).Ran) :
    SameOutcome (codegenOutcome host addr w s) (strictOutcome host addr w s) ↔
      CodeGenSound host w s ∧ StrictSound host w s := by
  by_cases hAdd : AddOverflows w s
  · rw [strict_addOverflows hAdd]
    exact iff_of_false (fun h => not_sameOutcome_undefined h.symm) (fun h => h.2.add hAdd)
  by_cases hBeyond : ReadsBeyond host w s
  · refine iff_of_true (codegen_same_strict_of_readsBeyond hAdd hBeyond)
      ⟨codegenSound_of_readsBeyond hBeyond, hAdd, ?_, ?_⟩
    · exact fun h => not_readsBeyond_of_strict_defect (.inl h) hBeyond
    · exact fun h => not_readsBeyond_of_strict_defect (.inr h) hBeyond
  by_cases hSound : StrictSound host w s
  · -- The BIOS code agrees with the interpreter, so the question is the game code's.
    have hStrict := strict_same_interp hZero hPlain hRan' hSound hBeyond
    have hInterp : (interpOutcome host addr w s).Ran := by
      obtain ⟨_, t, _, ht, _⟩ := hStrict
      rw [ht]
      trivial
    constructor
    · intro hSame
      exact ⟨((codegen_same_interp_iff hZero hPlain hRan hInterp).mp (hSame.trans hStrict)).1,
        hSound⟩
    · rintro ⟨hGame, _⟩
      exact (codegen_same_interp hZero hPlain hRan hInterp hGame hBeyond).trans hStrict.symm
  · refine iff_of_false (fun hSame => ?_) (fun h => hSound h.2)
    have hDefect : ClearsOldMode w s ∨ KeepsOtherBytes host w s := by
      by_contra h
      rw [not_or] at h
      exact hSound ⟨hAdd, h.1, h.2⟩
    have hGame := codegen_same_interp hZero hPlain hRan (interp_ran_of_strict_defect hDefect)
      (codegenSound_of_strict_defect hDefect) hBeyond
    exact strict_not_same_interp hPlain (.inl hSound) (hSame.symm.trans hGame)

end Pairs

/-- Two backends that accept a plain word, in a state where neither raises an
exception, leave the same registers and memory exactly when both are sound. -/
theorem sameOutcome_iff_sound (host : Host M) (addr w : Word) (s : CPUState M)
    (b₁ b₂ : Backend) (hDistinct : b₁ ≠ b₂) (hPlain : transfersControl w = false)
    (hZero : s.gpr 0 = 0) (hRan₁ : (outcome host addr w s b₁).Ran)
    (hRan₂ : (outcome host addr w s b₂).Ran) :
    SameOutcome (outcome host addr w s b₁) (outcome host addr w s b₂) ↔
      b₁.Sound host w s ∧ b₂.Sound host w s := by
  cases b₁ <;> cases b₂
  case strict.codegen =>
    rw [SameOutcome.comm, and_comm]
    exact codegen_same_strict_iff hZero hPlain hRan₂ hRan₁
  case strict.interp => exact strict_same_interp_iff hZero hPlain hRan₁
  case codegen.strict => exact codegen_same_strict_iff hZero hPlain hRan₁ hRan₂
  case codegen.interp => exact codegen_same_interp_iff hZero hPlain hRan₁ hRan₂
  case interp.strict =>
    rw [SameOutcome.comm, and_comm]
    exact strict_same_interp_iff hZero hPlain hRan₂
  case interp.codegen =>
    rw [SameOutcome.comm, and_comm]
    exact codegen_same_interp_iff hZero hPlain hRan₂ hRan₁
  all_goals exact absurd rfl hDistinct

/-- A word in memory, an address for it, and a register that a part of it is to come into. -/
def partState : CPUState Word :=
  ((blankState 0xAABBCCDD#32).setGpr 2 0x11223344#32).setGpr 4 0x80010000#32

/-- `lwl $2, 1($4)` brings in two bytes of four, on the BIOS code, the game code and the
interpreter alike. -/
theorem sameOutcome_lwl :
    SameOutcome (outcome cellHost 0 0x88820001#32 partState .strict)
        (outcome cellHost 0 0x88820001#32 partState .interp) ∧
      SameOutcome (outcome cellHost 0 0x88820001#32 partState .codegen)
        (outcome cellHost 0 0x88820001#32 partState .strict) ∧
      ∃ s, outcome cellHost 0 0x88820001#32 partState .interp = .done s ∧
        s.gpr 2 = 0xCCDD3344#32 := by
  have hInterp : Backend.interp.Sound cellHost 0x88820001#32 partState := id
  have hCodegen : Backend.codegen.Sound cellHost 0x88820001#32 partState :=
    ⟨id, fun h => absurd h.1 (by decide), id⟩
  have hStrict : Backend.strict.Sound cellHost 0x88820001#32 partState :=
    ⟨fun h => absurd h.1 (by decide), fun h => absurd h.1 (by decide), id⟩
  refine ⟨?_, ?_, _, rfl, by decide⟩
  · exact (sameOutcome_iff_sound cellHost 0 0x88820001#32 partState .strict .interp (by decide)
      (by decide) rfl trivial trivial).mpr ⟨hStrict, hInterp⟩
  · exact (sameOutcome_iff_sound cellHost 0 0x88820001#32 partState .codegen .strict (by decide)
      (by decide) rfl trivial trivial).mpr ⟨hCodegen, hStrict⟩

/-- `swl $2, 0($4)` at an aligned address: the BIOS code clears the byte that
the interpreter keeps. -/
theorem swl_differs :
    ¬ ∀ (M : Type) (host : Host M) (addr w : Word) (s : CPUState M) (b₁ b₂ : Backend),
      b₁ ≠ b₂ → transfersControl w = false → s.gpr 0 = 0 →
      (outcome host addr w s b₁).Ran → (outcome host addr w s b₂).Ran →
      SameOutcome (outcome host addr w s b₁) (outcome host addr w s b₂) := by
  intro hAll
  obtain ⟨s, t, hs, ht, hSame⟩ := hAll Word cellHost 0 0xA8820000#32 (blankState 0xFF000000#32)
    .strict .interp (by decide) (by decide) rfl trivial trivial
  have hStrict : s.mem = 0 := by
    rw [← Outcome.done.inj hs]
    rfl
  have hInterp : t.mem = 0xFF000000#32 := by
    rw [← Outcome.done.inj ht]
    rfl
  rw [hSame.mem, hInterp] at hStrict
  exact absurd hStrict (by decide)

end RecompStudio
