import RecompStudio.Backends.CodeGenFollows
import RecompStudio.CodeGen.Block
import RecompStudio.CodeGen.SiteText
import Mathlib.Logic.Relation

/-!
The zero register in emitted game code: which translated words leave it zero,
and what a run over any sequence of blocks keeps of it.
-/

namespace RecompStudio.CodeGen

open RecompStudio.Emitted
open RecompStudio.Insn

variable {M : Type}

section Statements

/-- The state that a piece of code leaves, if it leaves one. -/
def flowState : Flow M → Option (CPUState M)
  | .next s | .goto _ s | .ret s => some s
  | .trap _ | .undefined => none

def KeepsZero (f : Flow M) : Prop := ∀ s, flowState f = some s → s.gpr 0 = 0

/-- The general register that a statement names as its destination. -/
def stmtDst : Stmt → Option RegIndex
  | .setGpr r _ => some r
  | .load dst _ _ | .loadMerge dst _ _ _ | .addTrapping dst _ _ => dst
  | _ => none

variable {h : Host M} {s : CPUState M}

theorem keepsZero_next (hZero : s.gpr 0 = 0) : KeepsZero (.next s) := by
  rintro s' hs'
  cases hs'
  exact hZero

theorem setDst_zero (hZero : s.gpr 0 = 0) {dst : Option RegIndex} (hDst : dst ≠ some 0) (v : Word) :
    (setDst s dst v).gpr 0 = 0 := by
  cases dst with
  | none => exact hZero
  | some r =>
      have hr : (0 : RegIndex) ≠ r := fun h0 => hDst (congrArg some h0.symm)
      rw [setDst, CPUState.setGpr_gpr, Function.update_of_ne hr, hZero]

/-- A statement with another destination leaves the zero register alone. -/
theorem keepsZero_of_dst (hSyscall : ∀ code t, t.gpr 0 = 0 → (h.syscall code t).2.gpr 0 = 0)
    (hZero : s.gpr 0 = 0) {stmt : Stmt} (hDst : stmtDst stmt ≠ some 0) :
    KeepsZero (stmt.exec h s) := by
  intro s' hs'
  cases stmt <;> simp only [Stmt.exec, stmtDst] at hs' hDst
  case setGpr r e =>
    split_ifs at hs' <;> cases hs'
    exact setDst_zero hZero hDst _
  case load | loadMerge | addTrapping =>
    split_ifs at hs' <;> cases hs'
    exact setDst_zero (by exact hZero) hDst _
  case loadGte accessor _ _ =>
    cases accessor <;> split_ifs at hs' <;> cases hs' <;> exact hZero
  case syscall =>
    cases hs'
    exact hSyscall _ _ hZero
  case syscallOrReturn =>
    split_ifs at hs' <;> cases hs' <;> exact hSyscall _ _ hZero
  case store | storeMerge | div | divGuarded | divu | divuSubtract | checkAligned | checkCop1 =>
    split_ifs at hs' <;> cases hs' <;> exact hZero
  case raise => cases hs'
  all_goals
    cases hs'
    exact hZero

theorem keepsZero_setGpr_iff (hZero : s.gpr 0 = 0) {r : RegIndex} {e : Expr} :
    KeepsZero ((Stmt.setGpr r e).exec h s) ↔
      ¬ (r = 0 ∧ e.defined h s = true ∧ e.eval h s ≠ 0) := by
  rw [Stmt.exec]
  constructor
  · rintro hKeeps ⟨rfl, hDefined, hValue⟩
    rw [if_pos hDefined] at hKeeps
    have hKept := hKeeps _ rfl
    rw [CPUState.setGpr_gpr, Function.update_self] at hKept
    exact hValue hKept
  · intro hClean s' hs'
    split_ifs at hs' with hDefined <;> cases hs'
    by_cases hr : r = 0
    · rw [hr, CPUState.setGpr_gpr, Function.update_self]
      by_contra hValue
      exact hClean ⟨hr, hDefined, hValue⟩
    · rw [CPUState.setGpr_gpr, Function.update_of_ne (Ne.symm hr), hZero]

/-- A value that the zero register may receive is zero. -/
theorem keepsZero_setGpr (hZero : s.gpr 0 = 0) {r : RegIndex} {e : Expr}
    (hValue : r = 0 → e.eval h s = 0) : KeepsZero ((Stmt.setGpr r e).exec h s) :=
  (keepsZero_setGpr_iff hZero).mpr fun hTouched => hTouched.2.2 (hValue hTouched.1)

theorem stmtDst_guardZero {r : RegIndex} {stmt : Stmt} (hDst : stmtDst stmt = some r) :
    stmtDst (guardZero r stmt) ≠ some 0 := by
  unfold guardZero
  split_ifs with hr
  · exact fun hNone => by cases hNone
  · exact fun hSome => hr (Option.some.inj (hDst.symm.trans hSome))

end Statements

section Words

variable (h : Host M) (cfg : SiteConfig) (addr w : Word) (s : CPUState M)

/-- The word puts a non-zero value into the zero register: a site rewrites a
word with that destination, the plain translation has an unguarded write, or a
`jalr` that links nothing stands in a delay slot. -/
def TouchesZero : Prop :=
  match firstDecision (siteChecks cfg addr w) with
  | .rewrite stmts => ∃ e, stmts = [.setGpr 0 e] ∧ e.defined h s = true ∧ e.eval h s ≠ 0
  | _ => WritesZero w s ∨ (Op.ofWord w = .jalr ∧ rd w = 0 ∧ addr + 8#32 ≠ 0)

variable {h cfg addr w s}

theorem keepsZero_addiu (hZero : s.gpr 0 = 0)
    (hNoWrite : ¬ (rs w = 0 ∧ rt w = 0 ∧ simm w ≠ 0)) :
    KeepsZero ((translateAddiu w).exec h s) := by
  unfold translateAddiu guardZero
  split_ifs with hRs hRt
  · refine keepsZero_setGpr hZero fun hRt => ?_
    by_contra hImm
    exact hNoWrite ⟨hRs, hRt, hImm⟩
  · exact keepsZero_next hZero
  · exact keepsZero_setGpr hZero fun hZeroReg => absurd hZeroReg hRt

theorem keepsZero_cop0 (hZero : s.gpr 0 = 0)
    (hNoWrite : ¬ (rs w = 0x00 ∧ rt w = 0 ∧ s.cop0 (rd w) ≠ 0)) :
    KeepsZero ((translateCop0 w).exec h s) := by
  unfold translateCop0
  split_ifs with hRs
  · refine keepsZero_setGpr hZero fun hRt => ?_
    by_contra hValue
    exact hNoWrite ⟨hRs, hRt, hValue⟩
  all_goals exact keepsZero_next (by exact hZero)

theorem keepsZero_cop2 (hZero : s.gpr 0 = 0)
    (hNoWrite : ¬ (rt w = 0 ∧ ((rs w = 0x00 ∧ gteDataRead s (rd w) ≠ 0) ∨
      (rs w = 0x02 ∧ gteCtrlRead s (rd w) ≠ 0)))) :
    KeepsZero ((translateCop2 w).exec h s) := by
  unfold translateCop2
  split_ifs with hMfc hCfc
  · refine keepsZero_setGpr hZero fun hRt => ?_
    rw [gteDataValue_eval]
    by_contra hValue
    exact hNoWrite ⟨hRt, .inl ⟨hMfc, hValue⟩⟩
  · refine keepsZero_setGpr hZero fun hRt => ?_
    rw [gteCtrlValue_eval]
    by_contra hValue
    exact hNoWrite ⟨hRt, .inr ⟨hCfc, hValue⟩⟩
  all_goals exact keepsZero_next (by exact hZero)

theorem stmtDst_translateMoveable (op : Expr → Expr → Expr) (w : Word) :
    stmtDst (translateMoveable op w) ≠ some 0 := by
  rw [translateMoveable_eq]
  exact stmtDst_guardZero rfl

theorem keepsZero_plain (hSyscall : ∀ code t, t.gpr 0 = 0 → (h.syscall code t).2.gpr 0 = 0)
    (hZero : s.gpr 0 = 0) {stmts : List Stmt} (hCode : translatePlain addr w = .code stmts)
    (hNoWrite : ¬ WritesZero w s)
    (hNoLink : ¬ (Op.ofWord w = .jalr ∧ rd w = 0 ∧ addr + 8#32 ≠ 0)) :
    KeepsZero (execStmts h s stmts) := by
  unfold WritesZero at hNoWrite
  unfold translatePlain at hCode
  cases hOp : Op.ofWord w <;>
    simp only [hOp, Translation.code.injEq, reduceCtorEq] at hCode hNoWrite
  case jalr =>
    subst hCode
    refine keepsZero_next ?_
    rw [CPUState.setGpr_gpr]
    by_cases hRd : rd w = 0
    · rw [hRd, Function.update_self]
      by_contra hLink
      exact hNoLink ⟨hOp, hRd, hLink⟩
    · rw [Function.update_of_ne (Ne.symm hRd), hZero]
  all_goals
    subst hCode
    rw [execStmts_singleton]
  case addi | addiu => exact keepsZero_addiu hZero hNoWrite
  case cop0 => exact keepsZero_cop0 hZero hNoWrite
  case cop2 => exact keepsZero_cop2 hZero hNoWrite
  case add | addu | or =>
    exact keepsZero_of_dst hSyscall hZero (stmtDst_translateMoveable _ w)
  case sll | nor | ori =>
    exact keepsZero_of_dst hSyscall hZero (stmtDst_guardZero (by split_ifs <;> rfl))
  case lb | lh | lw | lbu | lhu =>
    refine keepsZero_of_dst hSyscall hZero ?_
    simp only [translateLoad, stmtDst]
    split_ifs with hRt
    · exact fun hNone => by cases hNone
    · exact fun hSome => hRt (Option.some.inj hSome)
  case srl | sra | sllv | srlv | srav | mfhi | mflo | sub | subu | and | xor | slt | sltu | slti |
      sltiu | andi | xori | lui | lwl | lwr =>
    exact keepsZero_of_dst hSyscall hZero (stmtDst_guardZero rfl)
  all_goals exact keepsZero_of_dst hSyscall hZero (fun hNone => by cases hNone)

/-- A translated word leaves the zero register zero exactly when it touches it
with no other value. -/
theorem keepsZero_iff (hSyscall : ∀ code t, t.gpr 0 = 0 → (h.syscall code t).2.gpr 0 = 0)
    (hZero : s.gpr 0 = 0) {stmts : List Stmt}
    (hCode : translateInstruction cfg addr w = .code stmts) :
    KeepsZero (execStmts h s stmts) ↔ ¬ TouchesZero h cfg addr w s := by
  unfold translateInstruction at hCode
  unfold TouchesZero
  cases hSites : firstDecision (siteChecks cfg addr w) with
  | fatal => simp only [hSites, reduceCtorEq] at hCode
  | rewrite rewritten =>
      simp only [hSites, Translation.code.injEq] at hCode ⊢
      subst hCode
      rcases siteText_of_rewrite hSites with ⟨r, e, rfl, -⟩ | ⟨width, v, rfl, -⟩
      · rw [execStmts_singleton, keepsZero_setGpr_iff hZero, not_iff_not]
        constructor
        · rintro ⟨rfl, hDefined, hValue⟩
          exact ⟨e, rfl, hDefined, hValue⟩
        · rintro ⟨e', hSame, hDefined, hValue⟩
          cases hSame
          exact ⟨rfl, hDefined, hValue⟩
      · rw [execStmts_singleton]
        refine iff_of_true (keepsZero_of_dst hSyscall hZero fun hNone => by cases hNone) ?_
        rintro ⟨e, hSame, _⟩
        cases hSame
  | pass =>
      simp only [hSites] at hCode ⊢
      constructor
      · rintro hKeeps (hWrites | ⟨hOp, hRd, hLink⟩)
        · obtain ⟨s', hRun, hNonzero⟩ := codegen_writesZero h hCode hWrites
          rw [hRun] at hKeeps
          exact hNonzero (hKeeps s' rfl)
        · simp only [translatePlain, hOp, Translation.code.injEq] at hCode
          subst hCode
          have hKept := hKeeps _ rfl
          rw [CPUState.setGpr_gpr, hRd, Function.update_self] at hKept
          exact hLink hKept
      · intro hClean
        exact keepsZero_plain hSyscall hZero hCode (fun hWrites => hClean (.inl hWrites))
          (fun hLink => hClean (.inr hLink))

end Words

section Texts

variable {ctx : EmitContext} {b : BasicBlock}

/-- The statements are the translation of a word of the image. -/
def FromWord (ctx : EmitContext) (stmts : List Stmt) : Prop :=
  ∃ addr w, ctx.img.readWord addr = some w ∧
    translateInstruction ctx.sites addr w = .code stmts

/-- A statement as block texts have it: translated words, links to real
registers, and transfers. -/
def TextStmt (ctx : EmitContext) : CStmt → Prop
  | .code stmts => FromWord ctx stmts ∨ ∃ r e, r ≠ 0 ∧ stmts = [.setGpr r e]
  | .guarded _ stmts => FromWord ctx stmts
  | .callRegister _ link _ => link ≠ some 0
  | _ => True

theorem textStmt_emitWord {addr w : Word} (hRead : ctx.img.readWord addr = some w) :
    TextStmt ctx (ctx.emitWord addr w) := by
  unfold EmitContext.emitWord
  cases hCode : translateInstruction ctx.sites addr w with
  | code stmts => exact .inl ⟨addr, w, hRead, hCode⟩
  | todo | fatal => trivial

theorem textStmt_linkStmt {r : RegIndex} (hr : r ≠ 0) (addr : Word) :
    TextStmt ctx (EmitContext.linkStmt r addr) := .inr ⟨r, _, hr, rfl⟩

theorem textStmt_linkBefore (cf : ControlFlowInstr) :
    ∀ c ∈ EmitContext.linkBefore cf, TextStmt ctx c := by
  unfold EmitContext.linkBefore
  split
  case h_1 => exact List.forall_mem_singleton.mpr (textStmt_linkStmt (by decide) _)
  case h_2 =>
    split_ifs with hRd
    · exact List.forall_mem_nil _
    · exact List.forall_mem_singleton.mpr (textStmt_linkStmt hRd _)
  case h_3 =>
    split_ifs
    · exact List.forall_mem_singleton.mpr (textStmt_linkStmt (by decide) _)
    · exact List.forall_mem_nil _
  case h_4 => exact List.forall_mem_nil _

theorem textStmt_delaySlot (cf : ControlFlowInstr) : ∀ c ∈ ctx.delaySlot cf, TextStmt ctx c := by
  unfold EmitContext.delaySlot
  split
  · exact List.forall_mem_nil _
  next w hRead =>
    split_ifs
    · split
      next stmts hCode => exact List.forall_mem_singleton.mpr ⟨_, w, hRead, hCode⟩
      all_goals exact List.forall_mem_singleton.mpr trivial
    · exact List.forall_mem_append.mpr
        ⟨List.forall_mem_singleton.mpr trivial,
          List.forall_mem_singleton.mpr (textStmt_emitWord hRead)⟩
    · exact List.forall_mem_singleton.mpr (textStmt_emitWord hRead)

theorem textStmt_emitBranch (b : BasicBlock) : ∀ c ∈ ctx.emitBranch b, TextStmt ctx c := by
  have hLink : ∀ c ∈ if EmitContext.isBranchAndLink b.exitInstr.instruction then
      [EmitContext.linkStmt 31 b.exitInstr.address] else [], TextStmt ctx c := by
    split_ifs
    · exact List.forall_mem_singleton.mpr (textStmt_linkStmt (by decide) _)
    · exact List.forall_mem_nil _
  unfold EmitContext.emitBranch
  split
  all_goals exact List.forall_mem_append.mpr ⟨hLink, List.forall_mem_singleton.mpr trivial⟩

theorem textStmt_emitTransfer (b : BasicBlock) : ∀ c ∈ ctx.emitTransfer b, TextStmt ctx c := by
  unfold EmitContext.emitTransfer
  split
  case h_1 => exact textStmt_emitBranch b
  case h_2 =>
    unfold EmitContext.emitJump
    split
    · exact List.forall_mem_singleton.mpr trivial
    · split_ifs
      · exact List.forall_mem_nil _
      · exact List.forall_mem_singleton.mpr trivial
  case h_3 => exact List.forall_mem_singleton.mpr trivial
  case h_4 =>
    unfold EmitContext.emitJumpRegister
    simp only
    split <;> exact List.forall_mem_singleton.mpr trivial
  case h_5 =>
    exact List.forall_mem_cons.mpr
      ⟨textStmt_linkStmt (by decide) _, List.forall_mem_singleton.mpr trivial⟩
  case h_6 =>
    refine List.forall_mem_singleton.mpr ?_
    simp only [TextStmt]
    split_ifs with hRd
    · exact fun hNone => by cases hNone
    · exact fun hSome => hRd (Option.some.inj hSome)
  case h_7 => exact List.forall_mem_nil _

theorem textStmt_emitExit (b : BasicBlock) : ∀ c ∈ ctx.emitExit b, TextStmt ctx c :=
  List.forall_mem_append.mpr ⟨List.forall_mem_append.mpr
    ⟨textStmt_linkBefore _, textStmt_delaySlot _⟩, textStmt_emitTransfer b⟩

theorem textStmt_emitBody (b : BasicBlock) (addrs : List Word) :
    ∀ c ∈ ctx.emitBody b addrs, TextStmt ctx c := by
  induction addrs with
  | nil => exact List.forall_mem_nil _
  | cons addr rest ih =>
      rw [EmitContext.emitBody]
      split
      · exact List.forall_mem_nil _
      next w hRead =>
        by_cases hSkipped : (EmitContext.slotInBlock b && addr == b.endAddr) = true
        · rw [if_pos hSkipped]
          exact List.forall_mem_nil _
        · rw [if_neg hSkipped]
          refine List.forall_mem_append.mpr ⟨List.forall_mem_append.mpr ⟨?_, ?_⟩, ih⟩
          · split_ifs
            · exact List.forall_mem_singleton.mpr trivial
            · exact List.forall_mem_nil _
          · split_ifs
            · exact textStmt_emitExit b
            · exact List.forall_mem_nil _
            · exact List.forall_mem_singleton.mpr (textStmt_emitWord hRead)

theorem textStmt_translateBasicBlock (b : BasicBlock) :
    ∀ c ∈ ctx.translateBasicBlock b, TextStmt ctx c := by
  refine List.forall_mem_cons.mpr ⟨trivial, List.forall_mem_append.mpr
    ⟨textStmt_emitBody b _, ?_⟩⟩
  unfold EmitContext.emitFallthrough
  split_ifs
  · exact List.forall_mem_singleton.mpr trivial
  · exact List.forall_mem_nil _

end Texts

/-- A point of a run: the function that the text belongs to, and the text that
is left of the block. -/
structure Point (M : Type) where
  ctx : EmitContext
  state : CPUState M
  bc : Word
  text : List CStmt

def leaveState : Leave M → Option (CPUState M)
  | .fall s | .goto _ s | .ret s | .enter _ s => some s
  | .trap _ | .undefined => none

/-- The next statement of a block; after its last one any block may follow, from
any program counter. -/
inductive RunStep (h : Host M) : Point M → Point M → Prop
  | on {ctx : EmitContext} {s s' : CPUState M} {bc bc' : Word} {c : CStmt} {rest : List CStmt}
      (step : c.exec h s bc = .on s' bc') : RunStep h ⟨ctx, s, bc, c :: rest⟩ ⟨ctx, s', bc', rest⟩
  | leave {ctx ctx' : EmitContext} {s s' : CPUState M} {bc bc' pc : Word} {c : CStmt}
      {rest : List CStmt} {l : Leave M} {b : BasicBlock} (step : c.exec h s bc = .leave l)
      (left : leaveState l = some s') (emitted : b ∈ ctx'.cfg.blocks) :
      RunStep h ⟨ctx, s, bc, c :: rest⟩
        ⟨ctx', { s' with pc := pc }, bc', ctx'.translateBasicBlock b⟩
  | fall {ctx ctx' : EmitContext} {s : CPUState M} {bc bc' pc : Word} {b : BasicBlock}
      (emitted : b ∈ ctx'.cfg.blocks) :
      RunStep h ⟨ctx, s, bc, []⟩ ⟨ctx', { s with pc := pc }, bc', ctx'.translateBasicBlock b⟩

/-- The word whose translation is about to run does not touch the zero register. -/
def Point.Clean (h : Host M) (p : Point M) : Prop :=
  ∀ c rest stmts, p.text = c :: rest →
    (c = .code stmts ∨ ∃ cond, c = .guarded cond stmts ∧ cond.eval h p.state ≠ 0) →
    ∀ addr w, p.ctx.img.readWord addr = some w →
      translateInstruction p.ctx.sites addr w = .code stmts →
      ¬ TouchesZero h p.ctx.sites addr w p.state

/-- A run of blocks in which no word touches the zero register. -/
def CleanRun (h : Host M) : Point M → Point M → Prop :=
  Relation.ReflTransGen fun p q => p.Clean h ∧ RunStep h p q

structure ZeroInvariant (p : Point M) : Prop where
  text : ∀ c ∈ p.text, TextStmt p.ctx c
  zero : p.state.gpr 0 = 0

variable {h : Host M}

@[grind =] def progressState : Progress M → Option (CPUState M)
  | .on s _ => some s
  | .leave l => leaveState l

theorem progressState_ofFlow (bc : Word) (f : Flow M) :
    progressState (.ofFlow bc f) = flowState f := by
  cases f <;> rfl

theorem transfer_zero {s s' : CPUState M} (hZero : s.gpr 0 = 0) {t : Transfer}
    (hLeft : leaveState (t.exec h s) = some s') : s'.gpr 0 = 0 := by
  cases t <;> cases hLeft <;> exact hZero

/-- One statement of a text, in a state where it touches nothing. -/
theorem exec_zero (hSyscall : ∀ code t, t.gpr 0 = 0 → (h.syscall code t).2.gpr 0 = 0)
    {p : Point M} (hInv : ZeroInvariant p) (hClean : p.Clean h) {c : CStmt} {rest : List CStmt}
    (hText : p.text = c :: rest) {s' : CPUState M}
    (hLeft : progressState (c.exec h p.state p.bc) = some s') : s'.gpr 0 = 0 := by
  have hZero := hInv.zero
  have hStmt : TextStmt p.ctx c := hInv.text c (by rw [hText]; exact List.mem_cons_self)
  cases c with
  | label | todo | fatal | saveCond =>
      cases hLeft
      exact hZero
  | code stmts =>
      rw [CStmt.exec, progressState_ofFlow] at hLeft
      rcases hStmt with ⟨addr, w, hRead, hCode⟩ | ⟨r, e, hr, rfl⟩
      · have hSafe := hClean _ _ stmts hText (.inl rfl) addr w hRead hCode
        exact (keepsZero_iff hSyscall hZero hCode).mpr hSafe s' hLeft
      · rw [execStmts_singleton] at hLeft
        exact keepsZero_setGpr hZero (fun hZeroReg => absurd hZeroReg hr) s' hLeft
  | guarded cond stmts =>
      rw [CStmt.exec] at hLeft
      split_ifs at hLeft with hCond
      · cases hLeft
        exact hZero
      · rw [progressState_ofFlow] at hLeft
        obtain ⟨addr, w, hRead, hCode⟩ := hStmt
        have hSafe := hClean _ _ stmts hText (.inr ⟨cond, rfl, hCond⟩) addr w hRead hCode
        exact (keepsZero_iff hSyscall hZero hCode).mpr hSafe s' hLeft
  | branch cond taken notTaken =>
      rw [CStmt.exec, progressState] at hLeft
      split_ifs at hLeft <;> exact transfer_zero hZero hLeft
  | transfer t => exact transfer_zero hZero hLeft
  | callRegister target link cont =>
      cases hLeft
      exact setDst_zero hZero hStmt cont
  | switch r cases =>
      rw [CStmt.exec, progressState] at hLeft
      split at hLeft <;> cases hLeft <;> exact hZero

theorem zeroInvariant_step (hSyscall : ∀ code t, t.gpr 0 = 0 → (h.syscall code t).2.gpr 0 = 0)
    {p q : Point M} (hInv : ZeroInvariant p) (hClean : p.Clean h) (hStep : RunStep h p q) :
    ZeroInvariant q := by
  cases hStep with
  | on step =>
      refine ⟨fun c hMem => hInv.text c (List.mem_cons_of_mem _ hMem), ?_⟩
      exact exec_zero hSyscall hInv hClean rfl (by rw [step, progressState])
  | leave step left emitted =>
      have hZero := exec_zero hSyscall hInv hClean rfl ((congrArg progressState step).trans left)
      exact ⟨textStmt_translateBasicBlock _, hZero⟩
  | fall emitted => exact ⟨textStmt_translateBasicBlock _, hInv.zero⟩

theorem zeroInvariant_run (hSyscall : ∀ code t, t.gpr 0 = 0 → (h.syscall code t).2.gpr 0 = 0)
    {p q : Point M} (hInv : ZeroInvariant p) (hRun : CleanRun h p q) : ZeroInvariant q := by
  induction hRun with
  | refl => exact hInv
  | tail _ hLast ih => exact zeroInvariant_step hSyscall ih hLast.1 hLast.2

/-- The zero register, word by word and along every run: from a state with a zero in it, the text
of a word leaves it at zero exactly if the word does not touch it, and so does a run over an
emitted block in which no word touches it. -/
theorem zeroRegister_kept (h : Host M)
    (hSyscall : ∀ code t, t.gpr 0 = 0 → (h.syscall code t).2.gpr 0 = 0) :
    (∀ cfg addr w stmts (s : CPUState M), translateInstruction cfg addr w = .code stmts →
      s.gpr 0 = 0 → (KeepsZero (execStmts h s stmts) ↔ ¬ TouchesZero h cfg addr w s)) ∧
    ∀ ctx b (s : CPUState M) bc q, b ∈ ctx.cfg.blocks → s.gpr 0 = 0 →
      CleanRun h ⟨ctx, s, bc, ctx.translateBasicBlock b⟩ q → q.state.gpr 0 = 0 := by
  refine ⟨fun cfg addr w stmts s hCode hZero => keepsZero_iff hSyscall hZero hCode, ?_⟩
  intro ctx b s bc q _ hZero hRun
  exact (zeroInvariant_run hSyscall ⟨textStmt_translateBasicBlock b, hZero⟩ hRun).zero

/-- A translated word that leaves the zero register at zero touches nothing, whichever word
of the image it was translated from. -/
theorem cleanRun_code (hSyscall : ∀ code t, t.gpr 0 = 0 → (h.syscall code t).2.gpr 0 = 0)
    {ctx : EmitContext} {s s' : CPUState M} {bc : Word} {stmts : List Stmt} {rest : List CStmt}
    {q : Point M} (hZero : s.gpr 0 = 0) (hRun : execStmts h s stmts = .next s')
    (hKept : s'.gpr 0 = 0) (hRest : CleanRun h ⟨ctx, s', bc, rest⟩ q) :
    CleanRun h ⟨ctx, s, bc, .code stmts :: rest⟩ q := by
  have hKeeps : KeepsZero (execStmts h s stmts) := by
    intro t hLeft
    rw [hRun] at hLeft
    cases hLeft
    exact hKept
  have hClean : Point.Clean h ⟨ctx, s, bc, .code stmts :: rest⟩ := by
    rintro c behind stmts' hHead hRuns addr w _ hCode
    obtain ⟨rfl, _⟩ := List.cons.inj hHead
    rcases hRuns with hSame | ⟨cond, hSame, _⟩
    · cases hSame
      exact (keepsZero_iff hSyscall hZero hCode).mp hKeeps
    · cases hSame
  refine .head ⟨hClean, .on ?_⟩ hRest
  rw [CStmt.exec, hRun, Progress.ofFlow]

/-- `addiu $2, $0, 1`, `addu $0, $2, $2` and `jr $31` with `addiu $3, $2, 1` in its slot. -/
def zeroImage : Image where
  loadAddress := 0x80010000#32
  codeData := [0x01, 0x00, 0x02, 0x24, 0x21, 0x00, 0x42, 0x00, 0x08, 0x00, 0xE0, 0x03,
    0x01, 0x00, 0x43, 0x24]
  load_kseg0 := Image.text_kseg0
  end_in_ram := by decide

def zeroBlock : BasicBlock :=
  ⟨0x80010000#32, 0x8001000C#32, analyzeInstruction 0x80010008#32 0x03E00008#32, [], true⟩

def zeroContext : EmitContext :=
  ⟨zeroImage, .none, fun _ => false,
    analyzeFunction zeroImage ⟨0x80010000#32, 0x80010010#32, false, 0, []⟩, []⟩

/-- The words of a block, one of which has the zero register as its destination. -/
theorem zeroRegister_kept_cell :
    (∀ code (t : CPUState Word), t.gpr 0 = 0 → (cellHost.syscall code t).2.gpr 0 = 0) ∧
      (KeepsZero (execStmts cellHost (blankState 0) [translateAddiu 0x24020001#32]) ↔
        ¬ TouchesZero cellHost .none 0 0x24020001#32 (blankState 0)) ∧
      ∃ q, CleanRun cellHost
          ⟨zeroContext, blankState 0, 0, zeroContext.translateBasicBlock zeroBlock⟩ q ∧
        q.text = [.transfer (.publish (.gpr 31))] ∧ q.state.gpr 2 = 1 ∧ q.state.gpr 3 = 2 ∧
        q.state.gpr 0 = 0 := by
  have hSyscall : ∀ code (t : CPUState Word), t.gpr 0 = 0 →
      (cellHost.syscall code t).2.gpr 0 = 0 := fun _ _ hZero => hZero
  obtain ⟨hWords, hRuns⟩ := zeroRegister_kept cellHost hSyscall
  have hText : zeroContext.translateBasicBlock zeroBlock =
      [.label 0x80010000#32, .code [translateAddiu 0x24020001#32],
        .code [translateMoveable .add 0x00420021#32], .code [translateAddiu 0x24430001#32],
        .transfer (.publish (.gpr 31))] := by
    decide +kernel
  have hLabel : ∀ (s : CPUState Word) rest,
      Point.Clean cellHost ⟨zeroContext, s, 0, .label 0x80010000#32 :: rest⟩ := by
    rintro s rest c behind stmts hHead (rfl | ⟨cond, rfl, _⟩) <;> cases hHead
  have hRun : CleanRun cellHost
      ⟨zeroContext, blankState 0, 0, zeroContext.translateBasicBlock zeroBlock⟩
      ⟨zeroContext, ((blankState 0).setGpr 2 1).setGpr 3 2, 0,
        [.transfer (.publish (.gpr 31))]⟩ := by
    rw [hText]
    refine .head ⟨hLabel _ _, .on rfl⟩ ?_
    refine cleanRun_code hSyscall rfl rfl rfl ?_
    refine cleanRun_code hSyscall rfl rfl rfl ?_
    refine cleanRun_code hSyscall rfl rfl rfl ?_
    exact .refl
  exact ⟨hSyscall, hWords .none 0 _ _ _ (by decide) rfl, _, hRun, rfl, rfl, rfl,
    hRuns zeroContext zeroBlock _ 0 _ (by decide +kernel) rfl hRun⟩

/-- `addiu $0, $0, 1`. -/
theorem addiu_touchesZero :
    ¬ ∀ (M : Type) (h : Host M) (cfg : SiteConfig) (addr w : Word) (stmts : List Stmt)
        (s : CPUState M),
      translateInstruction cfg addr w = .code stmts → s.gpr 0 = 0 →
      KeepsZero (execStmts h s stmts) := by
  intro hAll
  have hKeeps := hAll Word cellHost .none 0 0x24000001#32 [.setGpr 0 (.lit 1)] (blankState 0)
    (by decide) rfl
  exact absurd (hKeeps _ rfl) (by decide)

end RecompStudio.CodeGen
