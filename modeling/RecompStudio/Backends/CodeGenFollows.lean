import RecompStudio.Backends.Simulation

/-!
The game code generator against the interpreter, word by word.
-/

namespace RecompStudio

open RecompStudio.Emitted
open RecompStudio.Gte
open RecompStudio.Insn
open RecompStudio.Interp

variable {M : Type}

/-- The words and states on which the game code generator is right, but for
direct reads of GTE registers. -/
structure CodeGenSound (host : Host M) (w : Word) (s : CPUState M) : Prop where
  zero : ¬ WritesZero w s
  read : ¬ SkipsRead host w s
  div : ¬ DivOverflows w s

open RecompStudio.CodeGen

variable {host : Host M} {s t : CPUState M} {addr pc w : Word}

theorem translateMoveable_eq (op : Expr → Expr → Expr) (w : Word) :
    translateMoveable op w =
      guardZero (rd w) (.setGpr (rd w)
        (if rt w = 0 then .gpr (rs w) else if rs w = 0 then .gpr (rt w)
          else op (.gpr (rs w)) (.gpr (rt w)))) := by
  unfold translateMoveable
  split_ifs <;> rfl

theorem follows_moveable (hAgree : Agree s t) (hZero : s.gpr 0 = 0)
    {op : Expr → Expr → Expr} {f : Word → Word → Word}
    (hDefined : ∀ a b, (op (.gpr a) (.gpr b)).defined host s = true)
    (hEval : ∀ a b, (op (.gpr a) (.gpr b)).eval host s = f (t.gpr a) (t.gpr b))
    (hLeft : ∀ v, f 0 v = v) (hRight : ∀ v, f v 0 = v) :
    Follows ((translateMoveable op w).exec host s)
      (advanceWith t (rd w) (f (t.gpr (rs w)) (t.gpr (rt w)))) := by
  have hZeroT : t.gpr 0 = 0 := by rw [← hAgree.gpr, hZero]
  rw [translateMoveable_eq]
  apply follows_write hAgree hZero
  · split_ifs
    · rfl
    · rfl
    · exact hDefined _ _
  · split_ifs with hRt hRs
    · rw [hRt, hZeroT, hRight, Expr.eval, hAgree.gpr]
    · rw [hRs, hZeroT, hLeft, Expr.eval, hAgree.gpr]
    · exact hEval _ _

theorem follows_nor (hAgree : Agree s t) (hZero : s.gpr 0 = 0) :
    Follows ((translateNor w).exec host s)
      (advanceWith t (rd w) (~~~(t.gpr (rs w) ||| t.gpr (rt w)))) := by
  have hZeroT : t.gpr 0 = 0 := by rw [← hAgree.gpr, hZero]
  unfold translateNor
  split_ifs with hRt hRs <;> apply follows_write hAgree hZero rfl
  · rw [hRt, hZeroT]
    simp [Expr.eval, hAgree.gpr]
  · rw [hRs, hZeroT]
    simp [Expr.eval, hAgree.gpr]
  · simp [Expr.eval, hAgree.gpr]

theorem follows_ori (hAgree : Agree s t) (hZero : s.gpr 0 = 0) :
    Follows ((translateOri w).exec host s) (advanceWith t (rt w) (t.gpr (rs w) ||| uimm w)) := by
  have hZeroT : t.gpr 0 = 0 := by rw [← hAgree.gpr, hZero]
  unfold translateOri
  split_ifs with hRs <;> apply follows_write hAgree hZero rfl
  · rw [hRs, hZeroT]
    simp [Expr.eval]
  · simp [Expr.eval, hAgree.gpr]

theorem shamt_mod (w : Word) : (shamt w).toNat % 4294967296 = (shamt w).toNat := by
  have := (shamt w).isLt
  omega

theorem follows_sll (hAgree : Agree s t) (hZero : s.gpr 0 = 0) :
    Follows ((translateSll w).exec host s)
      (advanceWith t (rd w) (t.gpr (rt w) <<< (shamt w).toNat)) := by
  unfold translateSll
  split_ifs with hShamt <;> apply follows_write hAgree hZero rfl
  · simp [Expr.eval, hAgree.gpr, hShamt]
  · simp [Expr.eval, hAgree.gpr, shamtLit, shamt_mod]

/-- An unguarded write follows the interpreter's guarded one unless it puts a
non-zero value into the zero register. -/
theorem follows_unguarded (hAgree : Agree s t) (hZero : s.gpr 0 = 0) {e : Expr} {r : RegIndex}
    {v : Word} (hDefined : e.defined host s = true)
    (hNoZero : ¬ (r = 0 ∧ e.eval host s ≠ 0)) (hValue : r ≠ 0 → e.eval host s = v) :
    Follows ((Stmt.setGpr r e).exec host s) (advanceWith t r v) := by
  have hZeroT : t.gpr 0 = 0 := by rw [← hAgree.gpr, hZero]
  by_cases hr : r = 0
  · have hNull : e.eval host s = 0 := by
      by_contra h
      exact hNoZero ⟨hr, h⟩
    rw [Stmt.exec, if_pos hDefined, hNull, hr, CPUState.setGpr_eq_self s hZero, advanceWith,
      writeGpr_zero hZeroT]
    exact Follows.of_agree hAgree
  · have hGuard : Stmt.setGpr r e = guardZero r (.setGpr r e) := by rw [guardZero, if_neg hr]
    rw [hGuard]
    exact follows_write hAgree hZero hDefined (hValue hr) r

theorem follows_addiu (hAgree : Agree s t) (hZero : s.gpr 0 = 0)
    (hNoZero : ¬ (rs w = 0 ∧ rt w = 0 ∧ simm w ≠ 0)) :
    Follows ((translateAddiu w).exec host s) (advanceWith t (rt w) (t.gpr (rs w) + simm w)) := by
  have hZeroT : t.gpr 0 = 0 := by rw [← hAgree.gpr, hZero]
  unfold translateAddiu
  split_ifs with hRs
  · apply follows_unguarded hAgree hZero rfl
    · exact fun h => hNoZero ⟨hRs, h⟩
    · intro _
      rw [hRs, hZeroT, Expr.eval]
      exact (BitVec.zero_add _).symm
  · exact follows_write hAgree hZero rfl (by simp [Expr.eval, hAgree.gpr]) _

theorem addrExpr_eval (hAgree : Agree s t) (w : Word) :
    (addrExpr w).eval host s = effectiveAddr t w := by
  unfold addrExpr effectiveAddr
  split_ifs with h <;> simp [Expr.eval, hAgree.gpr, h]

theorem addrExpr_defined (w : Word) : (addrExpr w).defined host s = true := by
  unfold addrExpr
  split_ifs <;> rfl

theorem gteDataValue_eval (r : RegIndex) :
    (gteDataValue r).eval host s = gteDataRead s r := by
  unfold gteDataValue gteDataRead
  split_ifs <;> rfl

theorem gteCtrlValue_eval (r : RegIndex) :
    (gteCtrlValue r).eval host s = gteCtrlRead s r := by
  unfold gteCtrlValue gteCtrlRead
  split_ifs <;> rfl

theorem gteDataValue_defined (r : RegIndex) : (gteDataValue r).defined host s = true := by
  unfold gteDataValue
  split_ifs <;> rfl

theorem gteCtrlValue_defined (r : RegIndex) : (gteCtrlValue r).defined host s = true := by
  unfold gteCtrlValue
  split_ifs <;> rfl

theorem gteDataRead_eq {r : RegIndex} (hr : ¬ dataBeyond r (s.gteData r) ≠ 0) :
    gteDataRead s r = readData s r := by
  unfold gteDataRead
  split_ifs with hSpecial
  · rfl
  · exact (gteData_eq_readData_iff s (by simpa using hSpecial)).mpr (not_not.mp hr)

theorem gteCtrlRead_eq {r : RegIndex} (hr : ¬ ctrlBeyond r (s.gteCtrl r) ≠ 0) :
    gteCtrlRead s r = readCtrl s r := by
  unfold gteCtrlRead
  split_ifs with hSpecial
  · rfl
  · exact (gteCtrl_eq_readCtrl_iff s (by simpa using hSpecial)).mpr (not_not.mp hr)

theorem gteDataRead_ne {r : RegIndex} (hr : dataBeyond r (s.gteData r) ≠ 0) :
    gteDataRead s r ≠ readData s r := by
  have hDirect : gteDataReadSpecial r = false := by
    rw [← Bool.not_eq_true]
    exact fun hSpecial => hr (dataBeyond_special hSpecial _)
  rw [gteDataRead, hDirect]
  exact fun h => hr ((gteData_eq_readData_iff s hDirect).mp h)

theorem gteCtrlRead_ne {r : RegIndex} (hr : ctrlBeyond r (s.gteCtrl r) ≠ 0) :
    gteCtrlRead s r ≠ readCtrl s r := by
  have hDirect : gteCtrlSpecial r = false := by
    rw [← Bool.not_eq_true]
    exact fun hSpecial => hr (ctrlBeyond_special hSpecial _)
  rw [gteCtrlRead, hDirect]
  exact fun h => hr ((gteCtrl_eq_readCtrl_iff s hDirect).mp h)

theorem follows_cop0 (hAgree : Agree s t) (hZero : s.gpr 0 = 0)
    (hNoZero : ¬ (rs w = 0x00 ∧ rt w = 0 ∧ s.cop0 (rd w) ≠ 0))
    (hAccepted : execCop0 t w ≠ .unsupported) :
    Follows ((translateCop0 w).exec host s) (execCop0 t w) := by
  unfold translateCop0 execCop0 at *
  split_ifs with hMfc hMtc hRfe
  · apply follows_unguarded hAgree hZero rfl
    · exact fun h => hNoZero ⟨hMfc, h⟩
    · exact fun _ => by rw [Expr.eval, hAgree.cop0]
  · rw [Stmt.exec, Expr.eval, congrFun hAgree.gpr (rt w)]
    exact Follows.of_agree (hAgree.setCop0 _ _)
  · rw [Stmt.exec, hAgree.sr]
    exact Follows.of_agree (hAgree.setCop0 _ _)
  · rw [if_neg hMfc, if_neg hMtc, if_neg hRfe] at hAccepted
    exact absurd rfl hAccepted

theorem follows_cop2 (hAgree : Agree s t) (hZero : s.gpr 0 = 0)
    (hNoZero : ¬ (rt w = 0 ∧ ((rs w = 0x00 ∧ gteDataRead s (rd w) ≠ 0) ∨
      (rs w = 0x02 ∧ gteCtrlRead s (rd w) ≠ 0))))
    (hNoBeyond : ¬ (rt w ≠ 0 ∧ ((rs w = 0x00 ∧ dataBeyond (rd w) (s.gteData (rd w)) ≠ 0) ∨
      (rs w = 0x02 ∧ ctrlBeyond (rd w) (s.gteCtrl (rd w)) ≠ 0))))
    (hAccepted : execCop2 host t w ≠ .unsupported) :
    Follows ((translateCop2 w).exec host s) (execCop2 host t w) := by
  unfold translateCop2 execCop2 at *
  split_ifs with hMfc hCfc hMtc hData hCtc hCtrl hCmd
  · apply follows_unguarded hAgree hZero (gteDataValue_defined _)
    · rw [gteDataValue_eval]
      exact fun h => hNoZero ⟨h.1, .inl ⟨hMfc, h.2⟩⟩
    · intro hRt
      rw [gteDataValue_eval, ← hAgree.readData]
      exact gteDataRead_eq fun h => hNoBeyond ⟨hRt, .inl ⟨hMfc, h⟩⟩
  · apply follows_unguarded hAgree hZero (gteCtrlValue_defined _)
    · rw [gteCtrlValue_eval]
      exact fun h => hNoZero ⟨h.1, .inr ⟨hCfc, h.2⟩⟩
    · intro hRt
      rw [gteCtrlValue_eval, ← hAgree.readCtrl]
      exact gteCtrlRead_eq fun h => hNoBeyond ⟨hRt, .inr ⟨hCfc, h⟩⟩
  · rw [Stmt.exec, Expr.eval, congrFun hAgree.gpr (rt w)]
    exact Follows.of_agree (hAgree.writeData _ _)
  · rw [Stmt.exec, Expr.eval, congrFun hAgree.gpr (rt w)]
    exact Follows.of_agree (hAgree.setGteData (by simpa using hData) _)
  · rw [Stmt.exec, Expr.eval, congrFun hAgree.gpr (rt w)]
    exact Follows.of_agree (hAgree.writeCtrl _ _)
  · rw [Stmt.exec, Expr.eval, congrFun hAgree.gpr (rt w)]
    exact Follows.of_agree (hAgree.setGteCtrl (by simpa using hCtrl) _)
  · exact Follows.of_agree (hAgree.runGteCommand host _)
  · rw [if_neg hMfc, if_neg hCfc, if_neg hMtc, if_neg hCtc, if_neg hCmd] at hAccepted
    exact absurd rfl hAccepted

theorem follows_div (hAgree : Agree s t)
    (hNoOverflow : ¬ (s.gpr (rs w) = 0x80000000#32 ∧ s.gpr (rt w) = 0xFFFFFFFF#32)) :
    Follows ((Stmt.div (.gpr (rs w)) (.gpr (rt w))).exec host s) (.advance (execDiv t w)) := by
  have hGuard : (isIntMin (t.gpr (rs w)) && t.gpr (rt w) == 0xFFFFFFFF#32) = false := by
    rw [hAgree.gpr] at hNoOverflow
    simpa [isIntMin] using hNoOverflow
  simp only [Stmt.exec, Expr.eval, execDiv, congrFun hAgree.gpr (rs w), congrFun hAgree.gpr (rt w),
    hGuard, ne_eq, ite_not, Bool.false_eq_true, if_false]
  split
  · exact Follows.of_agree (hAgree.setHiLo _ _)
  · exact Follows.of_agree (hAgree.setHiLo _ _)

theorem follows_divu (hAgree : Agree s t) :
    Follows ((Stmt.divu (.gpr (rs w)) (.gpr (rt w))).exec host s) (.advance (execDivu t w)) := by
  simp only [Stmt.exec, Expr.eval, execDivu, congrFun hAgree.gpr (rs w),
    congrFun hAgree.gpr (rt w), ne_eq, ite_not]
  split
  · exact Follows.of_agree (hAgree.setHiLo _ _)
  · exact Follows.of_agree (hAgree.setHiLo _ _)

theorem follows_translateLoadMerge (hAgree : Agree s t) (hZero : s.gpr 0 = 0)
    (hRead : ¬ (rt w = 0 ∧
      (host.bus.readWord (alignDown (effectiveAddr s w)) s.mem).2 ≠ s.mem))
    (side : MergeSide) :
    Follows ((translateLoadMerge side w).exec host s)
      (execLoadMerge host t w (loadMerged side .table)) := by
  have hZeroT : t.gpr 0 = 0 := by rw [← hAgree.gpr, hZero]
  unfold translateLoadMerge guardZero
  split_ifs with hRt
  · have hSame : (host.bus.readWord (alignDown (effectiveAddr t w)) t.mem).2 = t.mem := by
      by_contra h
      rw [effectiveAddr, hAgree.gpr, hAgree.mem] at hRead
      exact hRead ⟨hRt, h⟩
    rw [execLoadMerge]
    simp only [hSame, hRt, advanceWith]
    rw [writeGpr_zero hZeroT]
    exact Follows.of_agree hAgree
  · have hDst : some (rt w) = Bios.optReg (rt w) := by rw [Bios.optReg, if_neg hRt]
    rw [hDst]
    exact follows_loadMerge hAgree hZero (addrExpr_defined w) (addrExpr_eval hAgree w) rfl

theorem follows_swc2 (hAgree : Agree s t) {e : Expr} (hDefined : e.defined host s = true)
    (hAddr : e.eval host s = effectiveAddr t w)
    (hStored : host.bus.writeWord s.sr (effectiveAddr s w) (gteDataRead s (rt w)) s.mem =
      host.bus.writeWord s.sr (effectiveAddr s w) (readData s (rt w)) s.mem) :
    Follows ((Stmt.store .word e (gteDataValue (rt w))).exec host s)
      (.advance { t with
        mem := host.bus.writeWord t.sr (effectiveAddr t w) (readData t (rt w)) t.mem }) := by
  rw [hAgree.readData, hAgree.sr, hAgree.mem, effectiveAddr, hAgree.gpr] at hStored
  have hFollows := follows_store hAgree hDefined hAddr (gteDataValue_eval (rt w)) .word
  rw [busStore, effectiveAddr, hStored] at hFollows
  exact hFollows

/-- On a plain word that both accept, the generated statement follows the
interpreter from agreeing states. -/
theorem codegen_follows (hAgree : Agree s t) (hZero : s.gpr 0 = 0)
    (hPlain : transfersControl w = false) {stmts : List Stmt}
    (hCode : translatePlain addr w = .code stmts)
    (hAccepted : execPlain host pc w t ≠ .unsupported) (hSound : CodeGenSound host w s)
    (hNoBeyond : ¬ ReadsBeyond host w s) :
    Follows (execStmts host s stmts) (execPlain host pc w t) := by
  obtain ⟨hNoZero, hRead, hNoDiv⟩ := hSound
  unfold WritesZero at hNoZero
  unfold SkipsRead at hRead
  unfold DivOverflows at hNoDiv
  unfold ReadsBeyond at hNoBeyond
  cases hOp : Op.ofWord w <;>
    simp only [translatePlain, execPlain, transfersControl, hOp, Translation.code.injEq,
      reduceCtorEq, Bool.true_eq_false, ne_eq, not_true_eq_false]
      at hPlain hCode hAccepted hNoZero hRead hNoDiv hNoBeyond ⊢
  all_goals
    subst hCode
    rw [execStmts_singleton]
  case sll => exact follows_sll hAgree hZero
  case srl | sra =>
    exact follows_write hAgree hZero rfl
      (by simp [Expr.eval, hAgree.gpr, shamtLit, shamt_mod]) _
  case sllv | srlv | srav =>
    exact follows_write hAgree hZero rfl (by simp [Expr.eval, hAgree.gpr, shiftAmount]) _
  case mfhi => exact follows_write (e := .hi) hAgree hZero rfl hAgree.hi _
  case mflo => exact follows_write (e := .lo) hAgree hZero rfl hAgree.lo _
  case add | addu =>
    exact follows_moveable hAgree hZero (fun _ _ => rfl) (by simp [Expr.eval, hAgree.gpr])
      BitVec.zero_add BitVec.add_zero
  case or =>
    exact follows_moveable hAgree hZero (fun _ _ => rfl) (by simp [Expr.eval, hAgree.gpr])
      (fun _ => BitVec.zero_or) (fun _ => BitVec.or_zero)
  case nor => exact follows_nor hAgree hZero
  case ori => exact follows_ori hAgree hZero
  case sub | subu | and | xor | slt | sltu | slti | sltiu | andi | xori =>
    exact follows_write hAgree hZero rfl (by simp [Expr.eval, hAgree.gpr]) _
  case lui => exact follows_write hAgree hZero rfl rfl _
  case addi | addiu => exact follows_addiu hAgree hZero hNoZero
  case mthi | mtlo | mult | multu =>
    simp only [Stmt.exec, Expr.eval, congrFun hAgree.gpr (rs w), congrFun hAgree.gpr (rt w)]
    refine Follows.of_agree ⟨⟨hAgree.gpr, ?_, ?_, hAgree.cop0, hAgree.mem⟩, hAgree.gte⟩
    · first | rfl | exact hAgree.hi
    · first | rfl | exact hAgree.lo
  case div => exact follows_div hAgree hNoDiv
  case divu => exact follows_divu hAgree
  case cop0 => exact follows_cop0 hAgree hZero hNoZero hAccepted
  case cop2 => exact follows_cop2 hAgree hZero hNoZero hNoBeyond hAccepted
  case lb | lh | lw | lbu | lhu =>
    exact follows_load hAgree hZero (addrExpr_defined w) (addrExpr_eval hAgree w) _
  case sb | sh | sw =>
    exact follows_store hAgree (addrExpr_defined w) (addrExpr_eval hAgree w)
      (by rw [Expr.eval, hAgree.gpr]) _
  case lwl | lwr => exact follows_translateLoadMerge hAgree hZero hRead _
  case swl | swr =>
    exact follows_storeMerge hAgree (addrExpr_defined w) (addrExpr_eval hAgree w) _ _
  case lwc2 => exact follows_loadGte hAgree (addrExpr_defined w) (addrExpr_eval hAgree w) _
  case swc2 =>
    exact follows_swc2 hAgree (addrExpr_defined w) (addrExpr_eval hAgree w) (not_not.mp hNoBeyond)

theorem codegen_writesZero (host : Host M) {stmts : List Stmt}
    (hCode : translatePlain addr w = .code stmts)
    (hWrites : WritesZero w s) :
    ∃ s', execStmts host s stmts = .next s' ∧ s'.gpr 0 ≠ 0 := by
  -- Each of the unguarded writes stores a non-zero value of its own.
  suffices hSuffices : ∃ e : Expr, stmts = [.setGpr 0 e] ∧ e.defined host s = true ∧
      e.eval host s ≠ 0 by
    obtain ⟨e, rfl, hDefined, hValue⟩ := hSuffices
    refine ⟨s.setGpr 0 (e.eval host s), ?_, by simpa using hValue⟩
    rw [execStmts_singleton, Stmt.exec, if_pos hDefined]
  unfold WritesZero at hWrites
  cases hOp : Op.ofWord w <;> simp only [hOp] at hWrites
  case addi | addiu =>
    obtain ⟨hRs, hRt, hImm⟩ := hWrites
    simp only [translatePlain, hOp, Translation.code.injEq, translateAddiu, if_pos hRs, hRt]
      at hCode
    exact ⟨_, hCode.symm, rfl, hImm⟩
  case cop0 =>
    obtain ⟨hRs, hRt, hValue⟩ := hWrites
    simp only [translatePlain, hOp, Translation.code.injEq, translateCop0, if_pos hRs, hRt]
      at hCode
    exact ⟨_, hCode.symm, rfl, hValue⟩
  case cop2 =>
    obtain ⟨hRt, ⟨hRs, hValue⟩ | ⟨hRs, hValue⟩⟩ := hWrites
    · simp only [translatePlain, hOp, Translation.code.injEq, translateCop2, if_pos hRs, hRt]
        at hCode
      exact ⟨_, hCode.symm, gteDataValue_defined _, by rwa [gteDataValue_eval]⟩
    · have hNotMfc : rs w ≠ 0x00 := by
        rw [hRs]
        decide
      simp only [translatePlain, hOp, Translation.code.injEq, translateCop2, if_neg hNotMfc,
        if_pos hRs, hRt] at hCode
      exact ⟨_, hCode.symm, gteCtrlValue_defined _, by rwa [gteCtrlValue_eval]⟩

end RecompStudio
