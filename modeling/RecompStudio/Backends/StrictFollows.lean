import RecompStudio.Backends.CodeGenFollows
import RecompStudio.Library.ByteMemory

/-!
The BIOS translator against the interpreter, word by word.
-/

namespace RecompStudio

open RecompStudio.Emitted
open RecompStudio.Gte
open RecompStudio.Insn
open RecompStudio.Interp

variable {M : Type}

/-- The words and states on which the BIOS translator is right, but for direct
reads of GTE registers. -/
structure StrictSound (host : Host M) (w : Word) (s : CPUState M) : Prop where
  add : ¬ AddOverflows w s
  mode : ¬ ClearsOldMode w s
  bytes : ¬ KeepsOtherBytes host w s

open RecompStudio.Bios

variable {host : Host M} {s t : CPUState M} {addr pc w : Word}

theorem strictAddr_eval (hAgree : Agree s t) (w : Word) :
    (strictAddr w).eval host s = effectiveAddr t w := by
  simp [strictAddr, effectiveAddr, Expr.eval, hAgree.gpr]

theorem strictAddr_defined_iff (host : Host M) (w : Word) :
    (strictAddr w).defined host s = true ↔
      BitVec.saddOverflow (s.gpr (rs w)) (simm w) = false := by
  simp [strictAddr, Expr.defined, Expr.eval]

theorem strictGteAddr_eval (hAgree : Agree s t) (w : Word) :
    (strictGteAddr w).eval host s = effectiveAddr t w := by
  unfold strictGteAddr
  split_ifs with h
  · rw [effectiveAddr, h, Expr.eval, hAgree.gpr]
    exact (BitVec.add_zero _).symm
  · exact strictAddr_eval hAgree w

theorem strictGteAddr_defined
    (hAdd : BitVec.saddOverflow (s.gpr (rs w)) (simm w) = false) :
    (strictGteAddr w).defined host s = true := by
  unfold strictGteAddr
  split_ifs
  · rfl
  · exact (strictAddr_defined_iff host w).mpr hAdd

/-- A check that does not trap leaves the state alone. -/
theorem execStmts_checkAligned {mask : Word} {e : Expr} {k : Trap} {rest : List Stmt}
    (hDefined : e.defined host s = true)
    (hNoTrap : ∀ k', execStmts host s (.checkAligned mask e k :: rest) ≠ .trap k') :
    e.eval host s &&& mask = 0 ∧
      execStmts host s (.checkAligned mask e k :: rest) = execStmts host s rest := by
  by_cases hMask : e.eval host s &&& mask = 0
  · exact ⟨hMask, by simp only [execStmts, Stmt.exec, hDefined, if_true, if_pos hMask]⟩
  · refine absurd ?_ (hNoTrap k)
    simp only [execStmts, Stmt.exec, hDefined, if_true, if_neg hMask]

theorem execStmts_checkCop1 {rest : List Stmt}
    (hNoTrap : ∀ k, execStmts host s (.checkCop1 :: rest) ≠ .trap k) :
    cop1Usable s = true ∧ execStmts host s (.checkCop1 :: rest) = execStmts host s rest := by
  cases hUsable : cop1Usable s
  · exact absurd (by simp [execStmts, Stmt.exec, hUsable]) (hNoTrap .copUnusable)
  · exact ⟨rfl, by simp [execStmts, Stmt.exec, hUsable]⟩

theorem follows_strictLoad (hAgree : Agree s t) (hZero : s.gpr 0 = 0)
    (hAdd : BitVec.saddOverflow (s.gpr (rs w)) (simm w) = false) {mask : Word} {kind : LoadKind}
    (hNoTrap : ∀ k, execStmts host s [.checkAligned mask (strictAddr w) .unalignedAccess,
      .load (optReg (rt w)) kind (strictAddr w)] ≠ .trap k) :
    Follows (execStmts host s [.checkAligned mask (strictAddr w) .unalignedAccess,
      .load (optReg (rt w)) kind (strictAddr w)]) (execLoad host t w kind) := by
  have hDefined := (strictAddr_defined_iff host w).mpr hAdd
  rw [(execStmts_checkAligned hDefined hNoTrap).2, execStmts_singleton]
  exact follows_load hAgree hZero hDefined (strictAddr_eval hAgree w) kind

theorem follows_strictStore (hAgree : Agree s t)
    (hAdd : BitVec.saddOverflow (s.gpr (rs w)) (simm w) = false) {mask : Word} {width : Width}
    (hNoTrap : ∀ k, execStmts host s [.checkAligned mask (strictAddr w) .unalignedAccess,
      .store width (strictAddr w) (.gpr (rt w))] ≠ .trap k) :
    Follows (execStmts host s [.checkAligned mask (strictAddr w) .unalignedAccess,
      .store width (strictAddr w) (.gpr (rt w))]) (execStore host t w width) := by
  have hDefined := (strictAddr_defined_iff host w).mpr hAdd
  rw [(execStmts_checkAligned hDefined hNoTrap).2, execStmts_singleton]
  exact follows_store hAgree hDefined (strictAddr_eval hAgree w) (by rw [Expr.eval, hAgree.gpr])
    width

theorem follows_addTrapping (hAgree : Agree s t) (hZero : s.gpr 0 = 0) {r : RegIndex}
    {a b : Expr} {v : Word} (hValue : a.eval host s + b.eval host s = v)
    (hNoTrap : ∀ k, (Stmt.addTrapping (optReg r) a b).exec host s ≠ .trap k) :
    Follows ((Stmt.addTrapping (optReg r) a b).exec host s) (advanceWith t r v) := by
  simp only [Stmt.exec] at hNoTrap ⊢
  split at hNoTrap
  · exact absurd rfl (hNoTrap .arithOverflow)
  next hOverflow =>
    rw [if_neg hOverflow, setDst_optReg hZero, hValue]
    exact Follows.of_agree (hAgree.writeGpr r v)

theorem follows_divGuarded (hAgree : Agree s t) :
    Follows ((Stmt.divGuarded (.gpr (rs w)) (.gpr (rt w))).exec host s)
      (.advance (execDiv t w)) := by
  simp only [Stmt.exec, Expr.eval, execDiv, congrFun hAgree.gpr (rs w),
    congrFun hAgree.gpr (rt w), BitVecDivision.sub_sdiv_mul]
  split_ifs
  all_goals exact Follows.of_agree (hAgree.setHiLo _ _)

theorem follows_divuSubtract (hAgree : Agree s t) :
    Follows ((Stmt.divuSubtract (.gpr (rs w)) (.gpr (rt w))).exec host s)
      (.advance (execDivu t w)) := by
  simp only [Stmt.exec, Expr.eval, execDivu, congrFun hAgree.gpr (rs w),
    congrFun hAgree.gpr (rt w), BitVecDivision.sub_udiv_mul]
  split_ifs
  all_goals exact Follows.of_agree (hAgree.setHiLo _ _)

theorem Agree.cop1Usable (hAgree : Agree s t) : cop1Usable s = cop1Usable t := by
  rw [Emitted.cop1Usable, Emitted.cop1Usable, hAgree.sr]

theorem follows_strictCop0 (hAgree : Agree s t) (hZero : s.gpr 0 = 0) {stmts : List Stmt}
    (hCode : strictCop0 w = .code stmts) :
    Follows (execStmts host s stmts) (execCop0 t w) := by
  unfold strictCop0 at hCode
  unfold execCop0
  split_ifs at hCode with hRfe hMfc hMtc
  all_goals
    injection hCode with hCode
    subst hCode
    rw [execStmts_singleton]
  · rw [if_pos hMfc]
    exact follows_write (e := .cop0 (rd w)) hAgree hZero rfl (congrFun hAgree.cop0 _) _
  · rw [if_neg hMfc, if_pos hMtc, Stmt.exec, Expr.eval, congrFun hAgree.gpr (rt w)]
    exact Follows.of_agree (hAgree.setCop0 _ _)

theorem follows_strictCop2 (hAgree : Agree s t) (hZero : s.gpr 0 = 0)
    (hNoBeyond : ¬ (rt w ≠ 0 ∧ ((rs w = 0x00 ∧ dataBeyond (rd w) (s.gteData (rd w)) ≠ 0) ∨
      (rs w = 0x02 ∧ ctrlBeyond (rd w) (s.gteCtrl (rd w)) ≠ 0)))) {stmts : List Stmt}
    (hCode : strictCop2 w = .code stmts) :
    Follows (execStmts host s stmts) (execCop2 host t w) := by
  unfold strictCop2 at hCode
  unfold execCop2
  split_ifs at hCode with hMfc hCfc hMtc hData hCtc hCtrl hCmd
  all_goals
    injection hCode with hCode
    subst hCode
    rw [execStmts_singleton]
  · rw [if_pos hMfc]
    apply follows_guarded hAgree hZero (fun _ => gteDataValue_defined _)
    intro hRt
    rw [gteDataValue_eval, ← hAgree.readData]
    exact gteDataRead_eq fun h => hNoBeyond ⟨hRt, .inl ⟨hMfc, h⟩⟩
  · rw [if_neg hMfc, if_pos hCfc]
    apply follows_guarded hAgree hZero (fun _ => gteCtrlValue_defined _)
    intro hRt
    rw [gteCtrlValue_eval, ← hAgree.readCtrl]
    exact gteCtrlRead_eq fun h => hNoBeyond ⟨hRt, .inr ⟨hCfc, h⟩⟩
  · rw [if_neg hMfc, if_neg hCfc, if_pos hMtc, Stmt.exec, Expr.eval, congrFun hAgree.gpr (rt w)]
    exact Follows.of_agree (hAgree.writeData _ _)
  · rw [if_neg hMfc, if_neg hCfc, if_pos hMtc, Stmt.exec, Expr.eval, congrFun hAgree.gpr (rt w)]
    exact Follows.of_agree (hAgree.setGteData (by simpa using hData) _)
  · rw [if_neg hMfc, if_neg hCfc, if_neg hMtc, if_pos hCtc, Stmt.exec, Expr.eval,
      congrFun hAgree.gpr (rt w)]
    exact Follows.of_agree (hAgree.writeCtrl _ _)
  · rw [if_neg hMfc, if_neg hCfc, if_neg hMtc, if_pos hCtc, Stmt.exec, Expr.eval,
      congrFun hAgree.gpr (rt w)]
    exact Follows.of_agree (hAgree.setGteCtrl (by simpa using hCtrl) _)
  · rw [if_neg hMfc, if_neg hCfc, if_neg hMtc, if_neg hCtc, if_pos hCmd]
    exact Follows.of_agree (hAgree.runGteCommand host _)

theorem follows_strictStoreMerge (hAgree : Agree s t)
    (hAdd : BitVec.saddOverflow (s.gpr (rs w)) (simm w) = false) {side : MergeSide}
    (hStored : host.bus.writeWord s.sr (alignDown (effectiveAddr s w))
        (storeMerged side .shifts (effectiveAddr s w)
          (host.bus.readWord (alignDown (effectiveAddr s w)) s.mem).1 (s.gpr (rt w)))
        (host.bus.readWord (alignDown (effectiveAddr s w)) s.mem).2 =
      host.bus.writeWord s.sr (alignDown (effectiveAddr s w))
        (storeMerged side .table (effectiveAddr s w)
          (host.bus.readWord (alignDown (effectiveAddr s w)) s.mem).1 (s.gpr (rt w)))
        (host.bus.readWord (alignDown (effectiveAddr s w)) s.mem).2) :
    Follows ((Stmt.storeMerge side .shifts (strictAddr w) (.gpr (rt w))).exec host s)
      (execStoreMerge host t w (storeMerged side .table)) := by
  have hFollows := follows_storeMerge hAgree ((strictAddr_defined_iff host w).mpr hAdd)
    (strictAddr_eval hAgree w) side .shifts
  rw [effectiveAddr, hAgree.gpr, hAgree.mem, hAgree.sr] at hStored
  rw [execStoreMerge, effectiveAddr] at hFollows
  simp only [hStored] at hFollows
  exact hFollows

/-- The unused coprocessor's load and store, up to what follows the checks. -/
theorem execStmts_cop1Checks (hAgree : Agree s t)
    (hAdd : BitVec.saddOverflow (s.gpr (rs w)) (simm w) = false) {rest : List Stmt}
    (hNoTrap : ∀ k, execStmts host s (.checkAligned 0 (strictAddr w) .addressError :: .checkCop1 ::
      .checkAligned 3 (strictAddr w) .addressError :: rest) ≠ .trap k) :
    execStmts host s (.checkAligned 0 (strictAddr w) .addressError :: .checkCop1 ::
        .checkAligned 3 (strictAddr w) .addressError :: rest) = execStmts host s rest ∧
      Emitted.cop1Usable t = true ∧ effectiveAddr t w &&& 3#32 = 0 := by
  have hDefined := (strictAddr_defined_iff host w).mpr hAdd
  obtain ⟨_, hFirst⟩ := execStmts_checkAligned hDefined hNoTrap
  rw [hFirst] at hNoTrap ⊢
  obtain ⟨hUsable, hSecond⟩ := execStmts_checkCop1 hNoTrap
  rw [hSecond] at hNoTrap ⊢
  obtain ⟨hAligned, hThird⟩ := execStmts_checkAligned hDefined hNoTrap
  rw [strictAddr_eval hAgree w] at hAligned
  exact ⟨hThird, by rw [← hAgree.cop1Usable, hUsable], hAligned⟩

theorem Follows.single {stmt : Stmt} {r : ExecResult M} (h : Follows (stmt.exec host s) r) :
    Follows (execStmts host s [stmt]) r := by
  rw [execStmts_singleton]
  exact h

theorem follows_strictAddiu (hAgree : Agree s t) (hZero : s.gpr 0 = 0)
    (hNoAdd : ¬(BitVec.saddOverflow (s.gpr (rs w)) (simm w) = true ∧ rt w ≠ 0)) :
    Follows ((CodeGen.guardZero (rt w) (.setGpr (rt w) (strictAddr w))).exec host s)
      (advanceWith t (rt w) (effectiveAddr t w)) := by
  refine follows_guarded hAgree hZero (fun hRt => ?_) (fun _ => strictAddr_eval hAgree w)
  rw [strictAddr_defined_iff, ← Bool.not_eq_true]
  exact fun h => hNoAdd ⟨h, hRt⟩

theorem follows_strictLoadMerge (hAgree : Agree s t) (hZero : s.gpr 0 = 0)
    (hAdd : BitVec.saddOverflow (s.gpr (rs w)) (simm w) = false) {side : MergeSide}
    {merge : Word → Word → Word → Word} (hMerge : loadMerged side .shifts = merge) :
    Follows ((Stmt.loadMerge (optReg (rt w)) side .shifts (strictAddr w)).exec host s)
      (execLoadMerge host t w merge) :=
  follows_loadMerge hAgree hZero ((strictAddr_defined_iff host w).mpr hAdd)
    (strictAddr_eval hAgree w) hMerge

/-- The unused coprocessor has no instruction but its branches. -/
theorem follows_strictCop1 (hAgree : Agree s t) (hNotBc1 : isBc1 w = false) {stmts : List Stmt}
    (hCode : strictCop1 w = .code stmts) (hNoTrap : ∀ k, execStmts host s stmts ≠ .trap k) :
    Follows (execStmts host s stmts)
      (if Emitted.cop1Usable t = true then if isBc1 w = true then .unsupported else .advance t
        else .trap .copUnusable) := by
  rw [strictCop1, if_neg (by simpa [isBc1] using hNotBc1), StrictResult.code.injEq] at hCode
  subst hCode
  obtain ⟨hUsable, hExec⟩ := execStmts_checkCop1 hNoTrap
  rw [hExec, hNotBc1, ← hAgree.cop1Usable, hUsable]
  exact Follows.of_agree hAgree

/-- `lwc1`, whose value goes nowhere. -/
theorem follows_strictLwc1 (hAgree : Agree s t)
    (hAdd : BitVec.saddOverflow (s.gpr (rs w)) (simm w) = false)
    (hNoTrap : ∀ k, execStmts host s [.checkAligned 0 (strictAddr w) .addressError, .checkCop1,
      .checkAligned 3 (strictAddr w) .addressError, .load none .word (strictAddr w)] ≠ .trap k) :
    Follows (execStmts host s [.checkAligned 0 (strictAddr w) .addressError, .checkCop1,
        .checkAligned 3 (strictAddr w) .addressError, .load none .word (strictAddr w)])
      (if Emitted.cop1Usable t = true then
        if effectiveAddr t w &&& 3#32 = 0 then
          .advance { t with mem := (host.bus.readWord (effectiveAddr t w) t.mem).2 }
        else .trap .addressError
      else .trap .copUnusable) := by
  obtain ⟨hExec, hUsable, hAligned⟩ := execStmts_cop1Checks hAgree hAdd hNoTrap
  rw [hExec, if_pos hUsable, if_pos hAligned, execStmts_singleton]
  simp only [Stmt.exec, (strictAddr_defined_iff host w).mpr hAdd, if_true,
    strictAddr_eval hAgree w, hAgree.mem]
  exact Follows.of_agree (hAgree.setMem _)

/-- `swc1`, which stores nothing. -/
theorem follows_strictSwc1 (hAgree : Agree s t)
    (hAdd : BitVec.saddOverflow (s.gpr (rs w)) (simm w) = false)
    (hNoTrap : ∀ k, execStmts host s [.checkAligned 0 (strictAddr w) .addressError, .checkCop1,
      .checkAligned 3 (strictAddr w) .addressError] ≠ .trap k) :
    Follows (execStmts host s [.checkAligned 0 (strictAddr w) .addressError, .checkCop1,
        .checkAligned 3 (strictAddr w) .addressError])
      (if Emitted.cop1Usable t = true then
        if effectiveAddr t w &&& 3#32 = 0 then .advance t else .trap .addressError
      else .trap .copUnusable) := by
  obtain ⟨hExec, hUsable, hAligned⟩ := execStmts_cop1Checks hAgree hAdd hNoTrap
  rw [hExec, if_pos hUsable, if_pos hAligned]
  exact Follows.of_agree hAgree

/-- On a plain word that it translates and that does not trap, the BIOS code
follows the interpreter from agreeing states. -/
theorem strict_follows (hAgree : Agree s t) (hZero : s.gpr 0 = 0)
    (hPlain : transfersControl w = false) {stmts : List Stmt}
    (hCode : strictTranslate addr w = .code stmts)
    (hNoTrap : ∀ k, execStmts host s stmts ≠ .trap k) (hSound : StrictSound host w s)
    (hNoBeyond : ¬ ReadsBeyond host w s) :
    Follows (execStmts host s stmts) (execPlain host pc w t) := by
  have hZeroT : t.gpr 0 = 0 := by rw [← hAgree.gpr, hZero]
  unfold strictTranslate at hCode
  by_cases hNop : w = 0
  · rw [if_pos hNop, StrictResult.code.injEq] at hCode
    subst hCode hNop
    rw [execStmts_singleton]
    exact follows_guarded (r := 0) (e := .lit 0) hAgree hZero (absurd rfl) (absurd rfl)
  rw [if_neg hNop] at hCode
  obtain ⟨hNoAdd, hNoMode, hNoBytes⟩ := hSound
  unfold AddOverflows at hNoAdd
  unfold KeepsOtherBytes at hNoBytes
  unfold ReadsBeyond at hNoBeyond
  cases hOp : Op.ofWord w <;>
    simp only [strictBinary, strictShift, strictShiftVar, strictImmediate, strictLoad, strictStore,
      execPlain, transfersControl, hOp, StrictResult.code.injEq, reduceCtorEq,
      Bool.true_eq_false, and_true, and_false, Bool.not_eq_true]
      at hPlain hCode hNoAdd hNoBytes hNoBeyond ⊢
  all_goals try subst hCode
  case sll | srl | sra =>
    exact .single (follows_write hAgree hZero rfl
      (by simp [Expr.eval, hAgree.gpr, CodeGen.shamtLit, shamt_mod]) _)
  case sllv | srlv | srav =>
    exact .single (follows_write hAgree hZero rfl (by simp [Expr.eval, hAgree.gpr, shiftAmount]) _)
  case mfhi => exact .single (follows_write (e := .hi) hAgree hZero rfl hAgree.hi _)
  case mflo => exact .single (follows_write (e := .lo) hAgree hZero rfl hAgree.lo _)
  case mthi | mtlo | multu =>
    rw [execStmts_singleton]
    simp only [Stmt.exec, Expr.eval, congrFun hAgree.gpr (rs w), congrFun hAgree.gpr (rt w)]
    refine Follows.of_agree ⟨⟨hAgree.gpr, ?_, ?_, hAgree.cop0, hAgree.mem⟩, hAgree.gte⟩
    · first | rfl | exact hAgree.hi
    · first | rfl | exact hAgree.lo
  case div => exact .single (follows_divGuarded hAgree)
  case divu => exact .single (follows_divuSubtract hAgree)
  case add | addi =>
    rw [execStmts_singleton] at hNoTrap
    exact .single (follows_addTrapping hAgree hZero (by simp [Expr.eval, hAgree.gpr]) hNoTrap)
  case addu | sub | subu | and | or | xor | nor | slt | sltu | slti | sltiu | andi | ori | xori =>
    exact .single (follows_write hAgree hZero rfl (by simp [Expr.eval, hAgree.gpr]) _)
  case lui => exact .single (follows_write hAgree hZero rfl rfl _)
  case addiu => exact .single (follows_strictAddiu hAgree hZero hNoAdd)
  case cop0 => exact follows_strictCop0 hAgree hZero hCode
  case cop1 => exact follows_strictCop1 hAgree hPlain hCode hNoTrap
  case cop2 => exact follows_strictCop2 hAgree hZero hNoBeyond hCode
  case lb | lh | lw | lbu | lhu => exact follows_strictLoad hAgree hZero hNoAdd hNoTrap
  case sb | sh | sw => exact follows_strictStore hAgree hNoAdd hNoTrap
  case lwl =>
    exact .single (follows_strictLoadMerge hAgree hZero hNoAdd
      (funext₃ lwlShifts_eq_lwlTable))
  case lwr =>
    exact .single (follows_strictLoadMerge hAgree hZero hNoAdd
      (funext₃ lwrShifts_eq_lwrTable))
  case swl | swr =>
    exact .single (follows_strictStoreMerge hAgree hNoAdd (not_not.mp hNoBytes))
  case lwc1 => exact follows_strictLwc1 hAgree hNoAdd hNoTrap
  case swc1 => exact follows_strictSwc1 hAgree hNoAdd hNoTrap
  case lwc2 =>
    exact .single (follows_loadGte hAgree (strictGteAddr_defined hNoAdd)
      (strictGteAddr_eval hAgree w) _)
  case swc2 =>
    exact .single (follows_swc2 hAgree (strictGteAddr_defined hNoAdd)
      (strictGteAddr_eval hAgree w) (not_not.mp hNoBeyond))

end RecompStudio
