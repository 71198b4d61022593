import RecompStudio.Backends.Agreement
import RecompStudio.CodeGen.ExitText
import RecompStudio.CodeGen.SiteText
import RecompStudio.Interp.Step

/-!
The text of one word against `exec_one`, from agreeing states: in the body of a block,
where both go on behind the word, and in a delay slot, behind which the transfer goes to
its target whatever the slot has asked for.
-/

namespace RecompStudio.CodeGen

open RecompStudio.Emitted
open RecompStudio.Insn
open RecompStudio.Interp

variable {M : Type}

/-- Equal general registers, `HI`, `LO` and memory. -/
structure SameRegs (s t : CPUState M) : Prop where
  gpr : s.gpr = t.gpr
  hi : s.hi = t.hi
  lo : s.lo = t.lo
  mem : s.mem = t.mem

theorem SameRegs.of_agree {s t : CPUState M} (h : Agree s t) : SameRegs s t :=
  ⟨h.gpr, h.hi, h.lo, h.mem⟩

theorem SameRegs.visible {s t : CPUState M} (h : SameRegs s t) : SameVisible s t :=
  ⟨fun r _ => congrFun h.gpr r, h.hi, h.lo, h.mem⟩

section Words

variable (h : Host M) (addr w : Word) (s t : CPUState M)

/-- What a word that no site rewrites asks for, if its text, run in `s`, and `exec_one`,
run in `t`, are to go on alike. The generator has no code for coprocessor 1, `sync` and
`break`; the program counter that a system call finds is the interpreter's only. -/
def SoundPlain : Prop :=
  match Op.ofWord w with
  | .syscall =>
      (h.syscall (trapCode w) { t with pc := addr }).2.pc = 0 ∧
        Agree (h.syscall (trapCode w) s).2 (h.syscall (trapCode w) { t with pc := addr }).2
  | .sync => True
  | .break => False
  | .cop1 => cop1Usable s = true ∧ isBc1 w = false
  | .lwc1 =>
      cop1Usable s = true ∧ effectiveAddr s w &&& 3#32 = 0 ∧
        (h.bus.readWord (effectiveAddr s w) s.mem).2 = s.mem
  | .swc1 => cop1Usable s = true ∧ effectiveAddr s w &&& 3#32 = 0
  | _ => execPlain h addr w t ≠ .unsupported ∧ CodeGenSound h w s ∧ ¬ ReadsBeyond h w s

/-- What such a word asks for in a delay slot. An exception counts as what it leaves, for
the branch goes on to its target. -/
def SoundSlotPlain : Prop :=
  match Op.ofWord w with
  | .syscall =>
      SameRegs (h.syscall (trapCode w) s).2 (h.syscall (trapCode w) { t with pc := addr }).2
  | .sync => True
  | .break => SameRegs s (h.raise .break addr w t)
  | .cop1 => cop1Usable s = true ∨ SameRegs s (h.raise .copUnusable addr w t)
  | .lwc1 =>
      if cop1Usable s = true then
        if effectiveAddr s w &&& 3#32 = 0 then
          (h.bus.readWord (effectiveAddr s w) s.mem).2 = s.mem
        else SameRegs s (h.raise .addressError addr w t)
      else SameRegs s (h.raise .copUnusable addr w t)
  | .swc1 =>
      if cop1Usable s = true then
        effectiveAddr s w &&& 3#32 = 0 ∨ SameRegs s (h.raise .addressError addr w t)
      else SameRegs s (h.raise .copUnusable addr w t)
  | _ => execPlain h addr w t ≠ .unsupported ∧ CodeGenSound h w s ∧ ¬ ReadsBeyond h w s

/-- The text of a slot goes on, and `exec_delay_slot` accepts the word and leaves the same
registers and memory. -/
def SlotFollows (f : Flow M) (r : Option (CPUState M)) : Prop :=
  ∃ u v, f = .next u ∧ r = some v ∧ SameRegs u v

variable {h addr w s t}

theorem agree_mem_iff (hAgree : Agree s t) {m : M} : Agree s { t with mem := m } ↔ m = s.mem :=
  ⟨fun hMem => hMem.mem.symm, fun hMem =>
    ⟨⟨hAgree.gpr, hAgree.hi, hAgree.lo, hAgree.cop0, hMem.symm⟩, hAgree.gte⟩⟩

theorem sameRegs_mem_iff (hAgree : Agree s t) {m : M} :
    SameRegs s { t with mem := m } ↔ m = s.mem :=
  ⟨fun hMem => hMem.mem.symm, fun hMem => ⟨hAgree.gpr, hAgree.hi, hAgree.lo, hMem.symm⟩⟩

theorem cop1Usable_congr (hAgree : Agree s t) : cop1Usable t = cop1Usable s := by
  rw [cop1Usable, cop1Usable, hAgree.sr]

theorem effectiveAddr_congr (hAgree : Agree s t) : effectiveAddr t w = effectiveAddr s w := by
  rw [effectiveAddr, effectiveAddr, hAgree.gpr]

theorem follows_next_iff {u : CPUState M} {r : ExecResult M} :
    Follows (.next u) r ↔ ∃ v, r = .advance v ∧ Agree u v :=
  ⟨fun ⟨_, v, hNext, hStep, hAgree⟩ => ⟨v, hStep, Flow.next.inj hNext ▸ hAgree⟩,
    fun ⟨v, hStep, hAgree⟩ => ⟨u, v, rfl, hStep, hAgree⟩⟩

theorem slotFollows_next_iff {u : CPUState M} {r : Option (CPUState M)} :
    SlotFollows (.next u) r ↔ ∃ v, r = some v ∧ SameRegs u v :=
  ⟨fun ⟨_, v, hNext, hSlot, hSame⟩ => ⟨v, hSlot, Flow.next.inj hNext ▸ hSame⟩,
    fun ⟨v, hSlot, hSame⟩ => ⟨u, v, rfl, hSlot, hSame⟩⟩

/-- The words that both the generator and the interpreter have a case for. -/
theorem sound_of_follows {stmts : List Stmt} (hAgree : Agree s t) (hZero : s.gpr 0 = 0)
    (hPlain : transfersControl w = false) (hCode : translatePlain addr w = .code stmts)
    {u v : CPUState M} (hRun : execStmts h s stmts = .next u)
    (hStep : execPlain h addr w t = .advance v) (hSame : SameRegs u v) :
    CodeGenSound h w s ∧ ¬ ReadsBeyond h w s := by
  by_contra hDefect
  have hCases : ¬ CodeGenSound h w s ∨ ReadsBeyond h w s := by
    by_cases hSound : CodeGenSound h w s
    · exact .inr (not_not.mp fun hBeyond => hDefect ⟨hSound, hBeyond⟩)
    · exact .inl hSound
  rcases codegen_differs hAgree hZero hPlain hCode (by rw [hRun, Outcome.ofFlow]) hStep hCases with
    hGpr | hMem
  · exact hGpr hSame.gpr
  · exact hMem hSame.mem

/-- A word with code: it follows exactly when it is sound. -/
theorem follows_code_iff {stmts : List Stmt} (hAgree : Agree s t) (hZero : s.gpr 0 = 0)
    (hPlain : transfersControl w = false) (hCode : translatePlain addr w = .code stmts) :
    Follows (execStmts h s stmts) (execPlain h addr w t) ↔
      execPlain h addr w t ≠ .unsupported ∧ CodeGenSound h w s ∧ ¬ ReadsBeyond h w s := by
  constructor
  · rintro ⟨u, v, hRun, hStep, hSame⟩
    exact ⟨by simp [hStep],
      sound_of_follows hAgree hZero hPlain hCode hRun hStep (.of_agree hSame)⟩
  · rintro ⟨hAccepted, hSound, hNarrow⟩
    exact codegen_follows hAgree hZero hPlain hCode hAccepted hSound hNarrow

/-- A word that no site rewrites: where its text follows the interpreter. -/
theorem soundPlain_iff (hAgree : Agree s t) (hZero : s.gpr 0 = 0)
    (hFlow : isControlFlow w = false) :
    Follows (execStmts h s (translatePlain addr w).stmts) (execPlain h addr w t) ↔
      SoundPlain h addr w s t := by
  have hUsable := cop1Usable_congr hAgree
  have hAddr := effectiveAddr_congr (w := w) hAgree
  unfold SoundPlain
  cases hOp : Op.ofWord w <;> simp only [isControlFlow, hOp, reduceCtorEq] at hFlow ⊢
  case syscall =>
    simp only [translatePlain, execPlain, hOp, Translation.stmts, execStmts_singleton, Stmt.exec,
      follows_next_iff]
    by_cases hPc : (h.syscall (trapCode w) { t with pc := addr }).2.pc = 0
    · simp only [hPc, if_true, ExecResult.advance.injEq, exists_eq_left', true_and]
    · simp only [hPc, if_false, reduceCtorEq, false_and, exists_false]
  case sync =>
    simp only [translatePlain, execPlain, hOp, Translation.stmts, execStmts, follows_next_iff,
      ExecResult.advance.injEq, exists_eq_left', hAgree]
  case «break» =>
    simp only [translatePlain, execPlain, hOp, Translation.stmts, execStmts_singleton, Stmt.exec,
      follows_next_iff, reduceCtorEq, false_and, exists_false]
  case cop1 =>
    simp only [translatePlain, execPlain, hOp, Translation.stmts, execStmts, follows_next_iff,
      hUsable]
    cases cop1Usable s <;> cases isBc1 w <;> simp [hAgree]
  case lwc1 =>
    simp only [translatePlain, execPlain, hOp, Translation.stmts, execStmts, follows_next_iff,
      hUsable, hAddr]
    cases cop1Usable s
    · simp
    · by_cases hAligned : effectiveAddr s w &&& 3#32 = 0
      · simp only [hAligned, if_true, ExecResult.advance.injEq, exists_eq_left',
          agree_mem_iff hAgree, hAgree.mem, true_and]
      · simp only [hAligned, if_true, if_false, reduceCtorEq, false_and, exists_false, and_false]
  case swc1 =>
    simp only [translatePlain, execPlain, hOp, Translation.stmts, execStmts, follows_next_iff,
      hUsable, hAddr]
    cases cop1Usable s
    · simp
    · by_cases hAligned : effectiveAddr s w &&& 3#32 = 0
      · simp only [hAligned, if_true, ExecResult.advance.injEq, exists_eq_left', hAgree, true_and]
      · simp only [hAligned, if_true, if_false, reduceCtorEq, false_and, exists_false, and_false]
  case specialOther | other =>
    simp [translatePlain, execPlain, hOp, Translation.stmts, execStmts, follows_next_iff]
  all_goals
    obtain ⟨stmts, hCode⟩ : ∃ stmts, translatePlain addr w = .code stmts := by
      simp only [translatePlain, hOp, Translation.code.injEq, exists_eq']
    rw [hCode]
    exact follows_code_iff hAgree hZero (by simp only [transfersControl, hOp]) hCode

/-- A slot with code is accepted and leaves the same exactly when it is sound. -/
theorem slotFollows_code_iff {stmts : List Stmt} (hAgree : Agree s t) (hZero : s.gpr 0 = 0)
    (hPlain : transfersControl w = false) (hCode : translatePlain addr w = .code stmts)
    (hNoTrap : ∀ k, execPlain h addr w t ≠ .trap k) :
    SlotFollows (execStmts h s stmts) (StepHost.wordLeaves h addr w t) ↔
      execPlain h addr w t ≠ .unsupported ∧ CodeGenSound h w s ∧ ¬ ReadsBeyond h w s := by
  constructor
  · rintro ⟨u, v, hRun, hSlot, hSame⟩
    rw [StepHost.wordLeaves] at hSlot
    cases hStep : execPlain h addr w t with
    | advance v' =>
        rw [hStep] at hSlot
        obtain rfl := Option.some.inj hSlot
        refine ⟨?_, sound_of_follows hAgree hZero hPlain hCode hRun hStep hSame⟩
        intro hNone
        cases hNone
    | transfer v' => exact absurd hStep (execPlain_ne_transfer hPlain v')
    | trap k => exact absurd hStep (hNoTrap k)
    | unsupported =>
        rw [hStep] at hSlot
        cases hSlot
  · intro hSound
    obtain ⟨u, v, hRun, hStep, hSame⟩ :=
      (follows_code_iff hAgree hZero hPlain hCode).mpr hSound
    exact ⟨u, v, hRun, by rw [StepHost.wordLeaves, hStep], .of_agree hSame⟩

/-- A delay slot that no site rewrites: where its text leaves what the interpreter does. -/
theorem soundSlotPlain_iff (hAgree : Agree s t) (hZero : s.gpr 0 = 0)
    (hFlow : isControlFlow w = false) (hNoBranch : Op.ofWord w = .cop1 → isBc1 w = false) :
    SlotFollows (execStmts h s (translatePlain addr w).stmts) (StepHost.wordLeaves h addr w t) ↔
      SoundSlotPlain h addr w s t := by
  have hUsable := cop1Usable_congr hAgree
  have hAddr := effectiveAddr_congr (w := w) hAgree
  have hKept : SameRegs s t := .of_agree hAgree
  unfold SoundSlotPlain
  cases hOp : Op.ofWord w <;> simp only [isControlFlow, hOp, reduceCtorEq] at hFlow ⊢
  case syscall =>
    simp only [translatePlain, StepHost.wordLeaves, execPlain, hOp, Translation.stmts,
      execStmts_singleton, Stmt.exec, slotFollows_next_iff]
    by_cases hPc : (h.syscall (trapCode w) { t with pc := addr }).2.pc = 0
    · simp only [hPc, if_true, Option.some.injEq, exists_eq_left']
    · simp only [hPc, if_false, Option.some.injEq, exists_eq_left']
  case sync =>
    simp only [translatePlain, StepHost.wordLeaves, execPlain, hOp, Translation.stmts, execStmts,
      slotFollows_next_iff, Option.some.injEq, exists_eq_left', hKept]
  case «break» =>
    simp only [translatePlain, StepHost.wordLeaves, execPlain, hOp, Translation.stmts,
      execStmts_singleton, Stmt.exec, slotFollows_next_iff, Option.some.injEq, exists_eq_left']
  case cop1 =>
    simp only [translatePlain, StepHost.wordLeaves, execPlain, hOp, Translation.stmts, execStmts,
      slotFollows_next_iff, hUsable, hNoBranch hOp, Bool.false_eq_true, if_false]
    cases cop1Usable s <;> simp [hKept]
  case lwc1 =>
    simp only [translatePlain, StepHost.wordLeaves, execPlain, hOp, Translation.stmts, execStmts,
      slotFollows_next_iff, hUsable, hAddr]
    cases cop1Usable s
    · simp
    · by_cases hAligned : effectiveAddr s w &&& 3#32 = 0
      · simp only [hAligned, if_true, Option.some.injEq, exists_eq_left', sameRegs_mem_iff hAgree,
          hAgree.mem]
      · simp only [hAligned, if_true, if_false, Option.some.injEq, exists_eq_left']
  case swc1 =>
    simp only [translatePlain, StepHost.wordLeaves, execPlain, hOp, Translation.stmts, execStmts,
      slotFollows_next_iff, hUsable, hAddr]
    cases cop1Usable s
    · simp
    · by_cases hAligned : effectiveAddr s w &&& 3#32 = 0
      · simp only [hAligned, if_true, Option.some.injEq, exists_eq_left', hKept, true_or]
      · simp only [hAligned, if_true, if_false, Option.some.injEq, exists_eq_left', false_or]
  case specialOther | other =>
    simp [translatePlain, StepHost.wordLeaves, execPlain, hOp, Translation.stmts, execStmts,
      slotFollows_next_iff]
  all_goals
    obtain ⟨stmts, hCode⟩ : ∃ stmts, translatePlain addr w = .code stmts := by
      simp only [translatePlain, hOp, Translation.code.injEq, exists_eq']
    rw [hCode]
    refine slotFollows_code_iff hAgree hZero (by simp only [transfersControl, hOp]) hCode ?_
    intro k hTrap
    simp only [execPlain, hOp, execCop0, execCop2, advanceWith, execLoad, execLoadMerge, execStore,
      execStoreMerge] at hTrap
    first | cases hTrap | (split_ifs at hTrap)

theorem siteValue_congr (hAgree : Agree s t) : siteValue w t = siteValue w s := by
  rw [siteValue, siteValue, hAgree.gpr]

/-- A register write with the word's own value. -/
theorem agree_written (hAgree : Agree s t) (hZero : s.gpr 0 = 0) {r : RegIndex} {x v : Word}
    (hValue : x = if r = 0 then 0 else v) : Agree (s.setGpr r x) (writeGpr t r v) := by
  have hZeroT : t.gpr 0 = 0 := by rw [← hAgree.gpr, hZero]
  by_cases hr : r = 0
  · subst hr
    rw [if_pos rfl] at hValue
    rw [hValue, CPUState.setGpr_eq_self s hZero, writeGpr_zero hZeroT]
    exact hAgree
  · rw [hValue, if_neg hr, writeGpr_eq_setGpr hZeroT hr]
    exact hAgree.setGpr r v

theorem value_of_written {r : RegIndex} {x v : Word}
    (hSame : SameRegs (s.setGpr r x) (writeGpr t r v)) : x = if r = 0 then 0 else v := by
  have hReg := congrFun hSame.gpr r
  rw [CPUState.setGpr_gpr, Function.update_self] at hReg
  by_cases hr : r = 0
  · rw [if_pos hr, hReg, hr, writeGpr_gpr_zero]
  · rw [if_neg hr, hReg, writeGpr_self _ _ _ hr]

/-- What a configured site asks for: its hook gives the register the value of the word, or a
value whose store leaves the memory of the word's own store. Where the word is not of the
site's kind, nothing is emitted. -/
def SoundSite (h : Host M) (w : Word) (s : CPUState M) : Translation → Prop
  | .code [.setGpr r e] => e.defined h s = true ∧ e.eval h s = if r = 0 then 0 else siteValue w s
  | .code [.store width _ e] =>
      busStore h.bus width s.sr (effectiveAddr s w) (e.eval h s) s.mem =
        busStore h.bus width s.sr (effectiveAddr s w) (s.gpr (rt w)) s.mem
  | _ => False

/-- The text of a site: it goes on, and to the registers and memory of the word, exactly when
it is sound, and then all of the machine is alike. -/
theorem siteText_spec {stmts : List Stmt} (hAgree : Agree s t) (hZero : s.gpr 0 = 0)
    (hText : SiteText addr w stmts) :
    ∃ v, execPlain h addr w t = .advance v ∧
      (SoundSite h w s (.code stmts) → ∃ u, execStmts h s stmts = .next u ∧ Agree u v) ∧
      ∀ u, execStmts h s stmts = .next u → SameRegs u v → SoundSite h w s (.code stmts) := by
  have hZeroT : t.gpr 0 = 0 := by rw [← hAgree.gpr, hZero]
  rcases hText with ⟨r, e, rfl, hStep⟩ | ⟨width, e, rfl, hStep⟩
  · refine ⟨_, hStep M h t hZeroT, fun ⟨hDefined, hValue⟩ => ?_, fun u hRun hSame => ?_⟩
    · refine ⟨s.setGpr r (e.eval h s), ?_, agree_written hAgree hZero ?_⟩
      · rw [execStmts_singleton, Stmt.exec_setGpr hDefined]
      · rw [hValue, siteValue_congr hAgree]
    · by_cases hDefined : e.defined h s = true
      · rw [execStmts_singleton, Stmt.exec_setGpr hDefined] at hRun
        obtain rfl := Flow.next.inj hRun
        have hValue := value_of_written hSame
        rw [siteValue_congr hAgree] at hValue
        exact ⟨hDefined, hValue⟩
      · rw [execStmts_singleton, Stmt.exec, if_neg hDefined] at hRun
        cases hRun
  · have hRun : execStmts h s [.store width (addrExpr w) e] = .next { s with
        mem := busStore h.bus width s.sr (effectiveAddr s w) (e.eval h s) s.mem } := by
      rw [execStmts_singleton, Stmt.exec, if_pos (addrExpr_defined w),
        addrExpr_eval (Agree.refl s)]
    have hMem : busStore h.bus width t.sr (effectiveAddr t w) (t.gpr (rt w)) t.mem =
        busStore h.bus width s.sr (effectiveAddr s w) (s.gpr (rt w)) s.mem := by
      rw [← hAgree.sr, effectiveAddr_congr hAgree, ← hAgree.gpr, ← hAgree.mem]
    refine ⟨_, hStep M h t, fun hSound => ⟨_, hRun, ?_⟩, fun u hNext hSame => ?_⟩
    · rw [hMem, ← hSound]
      exact hAgree.setMem _
    · rw [hRun] at hNext
      obtain rfl := Flow.next.inj hNext
      exact hSame.mem.trans hMem

theorem follows_site_iff {stmts : List Stmt} (hAgree : Agree s t) (hZero : s.gpr 0 = 0)
    (hText : SiteText addr w stmts) :
    Follows (execStmts h s stmts) (execPlain h addr w t) ↔ SoundSite h w s (.code stmts) := by
  obtain ⟨v, hStep, hFollows, hSound⟩ := siteText_spec (h := h) hAgree hZero hText
  constructor
  · rintro ⟨u, v', hRun, hStep', hSame⟩
    obtain rfl := ExecResult.advance.inj (hStep.symm.trans hStep')
    exact hSound u hRun (.of_agree hSame)
  · intro hSite
    obtain ⟨u, hRun, hSame⟩ := hFollows hSite
    exact ⟨u, v, hRun, hStep, hSame⟩

theorem slotFollows_site_iff {stmts : List Stmt} (hAgree : Agree s t) (hZero : s.gpr 0 = 0)
    (hText : SiteText addr w stmts) :
    SlotFollows (execStmts h s stmts) (StepHost.wordLeaves h addr w t) ↔
      SoundSite h w s (.code stmts) := by
  obtain ⟨v, hStep, hFollows, hSound⟩ := siteText_spec (h := h) hAgree hZero hText
  have hLeft : StepHost.wordLeaves h addr w t = some v := by rw [StepHost.wordLeaves, hStep]
  constructor
  · rintro ⟨u, v', hRun, hSlot, hSame⟩
    obtain rfl := Option.some.inj (hLeft.symm.trans hSlot)
    exact hSound u hRun hSame
  · intro hSite
    obtain ⟨u, hRun, hSame⟩ := hFollows hSite
    exact ⟨u, v, hRun, hLeft, .of_agree hSame⟩

/-- The plain translation stops no build. -/
theorem translatePlain_ne_fatal (addr w : Word) : translatePlain addr w ≠ .fatal := by
  unfold translatePlain
  cases Op.ofWord w <;> exact fun hFatal => Translation.noConfusion hFatal

/-- A word that is not translated plainly is one of a site, or stops the build. -/
theorem translateInstruction_cases (cfg : SiteConfig) (addr w : Word) :
    translateInstruction cfg addr w = translatePlain addr w ∨
      translateInstruction cfg addr w = .fatal ∨
        ∃ stmts, translateInstruction cfg addr w = .code stmts ∧ SiteText addr w stmts := by
  unfold translateInstruction
  cases hFirst : firstDecision (siteChecks cfg addr w) with
  | pass => exact .inl rfl
  | fatal => exact .inr (.inl rfl)
  | rewrite stmts => exact .inr (.inr ⟨stmts, rfl, siteText_of_rewrite hFirst⟩)

end Words

namespace EmitContext

variable (ctx : EmitContext) (h : Host M) (addr w : Word) (s t : CPUState M)

/-- The statements of a word in the text of a block. -/
def wordText : List Stmt := (translateInstruction ctx.sites addr w).stmts

/-- No site stops the build at the word. -/
def Emits : Prop := translateInstruction ctx.sites addr w ≠ .fatal

/-- A word in the body of a block. -/
def SoundWord : Prop :=
  if translateInstruction ctx.sites addr w = translatePlain addr w then SoundPlain h addr w s t
  else SoundSite h w s (translateInstruction ctx.sites addr w)

/-- A word in a delay slot. -/
def SoundSlot : Prop :=
  if translateInstruction ctx.sites addr w = translatePlain addr w then
    SoundSlotPlain h addr w s t
  else SoundSite h w s (translateInstruction ctx.sites addr w)

variable {ctx h addr w s t}

theorem soundWord_iff (hAgree : Agree s t) (hZero : s.gpr 0 = 0)
    (hFlow : isControlFlow w = false) :
    (ctx.Emits addr w ∧
        Follows (execStmts h s (ctx.wordText addr w)) (execPlain h addr w t)) ↔
      ctx.SoundWord h addr w s t := by
  unfold SoundWord
  split_ifs with hSite
  · rw [wordText, Emits, hSite, and_iff_right (translatePlain_ne_fatal addr w)]
    exact soundPlain_iff hAgree hZero hFlow
  · rcases translateInstruction_cases ctx.sites addr w with hPlain | hFatal | ⟨stmts, hCode, hText⟩
    · exact absurd hPlain hSite
    · rw [hFatal]
      exact iff_of_false (fun hEmitted => hEmitted.1 hFatal) id
    · rw [wordText, Emits, hCode, and_iff_right (by simp)]
      exact follows_site_iff hAgree hZero hText

theorem soundSlot_iff (hAgree : Agree s t) (hZero : s.gpr 0 = 0)
    (hFlow : isControlFlow w = false) (hNoBranch : Op.ofWord w = .cop1 → isBc1 w = false) :
    (ctx.Emits addr w ∧
        SlotFollows (execStmts h s (ctx.wordText addr w)) (StepHost.wordLeaves h addr w t)) ↔
      ctx.SoundSlot h addr w s t := by
  unfold SoundSlot
  split_ifs with hSite
  · rw [wordText, Emits, hSite, and_iff_right (translatePlain_ne_fatal addr w)]
    exact soundSlotPlain_iff hAgree hZero hFlow hNoBranch
  · rcases translateInstruction_cases ctx.sites addr w with hPlain | hFatal | ⟨stmts, hCode, hText⟩
    · exact absurd hPlain hSite
    · rw [hFatal]
      exact iff_of_false (fun hEmitted => hEmitted.1 hFatal) id
    · rw [wordText, Emits, hCode, and_iff_right (by simp)]
      exact slotFollows_site_iff hAgree hZero hText

theorem runsTo_of_wordText {u : CPUState M} (hRun : execStmts h s (ctx.wordText addr w) = .next u) :
    ctx.RunsTo h addr w s u := by
  intro bc
  rw [wordText] at hRun
  rw [emitWord]
  cases hText : translateInstruction ctx.sites addr w with
  | code stmts =>
      rw [hText] at hRun
      rw [CStmt.exec]
      exact congrArg (Progress.ofFlow bc) hRun
  | todo | fatal =>
      rw [hText] at hRun
      obtain rfl := Flow.next.inj hRun
      rfl

end EmitContext

end RecompStudio.CodeGen
