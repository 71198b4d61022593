import RecompStudio.CodeGen.WordAgreement

/-!
A block's text against the interpreter on the same words. The body and the
delay slot follow word by word; what decides is the order in which the exit
writes the link, runs the slot and reads the target.
-/

namespace RecompStudio.CodeGen

open RecompStudio.Emitted
open RecompStudio.Insn
open RecompStudio.Interp

variable {M : Type}

/-- The word that the interpreter fetches. -/
def Image.fetch (img : Image) (addr : Word) : Word := (img.readWord addr).getD 0

/-- `exec_one` on the words of a block, with room for `depth` slots inside each other. -/
def interpBlock (h : Host M) (img : Image) (b : BasicBlock) (depth : Nat) (s : CPUState M) :
    Option (InterpState M) :=
  (StepHost.onWords h img.fetch).interpret depth ((EmitContext.bodyAddrs b).length + 1)
    b.startAddr (.ofCpu s)

/-- The text ends where the interpreter ends, in the same visible state, and the
interpreter has given no word up. -/
def BlockAgrees (l : Leave M) (r : Option (InterpState M)) : Prop :=
  ∃ s j, l.successor = some (j.cpu.pc, s) ∧ r = some j ∧ j.unsupported = false ∧
    SameVisible s j.cpu

/-- A word that transfers no control. -/
def OrdinarySlot (w : Word) : Prop :=
  isControlFlow w = false ∧ (Op.ofWord w = .cop1 → isBc1 w = false)

instance (w : Word) : Decidable (OrdinarySlot w) := inferInstanceAs (Decidable (_ ∧ _))

namespace EmitContext

variable (ctx : EmitContext)

/-- The words at some addresses are emitted, and their text, from `s` to `s'`, and `exec_one` on
them, from `t` to `t'`, agree behind every word. -/
def Together (h : Host M) :
    List Word → CPUState M → CPUState M → CPUState M → CPUState M → Prop
  | [], s, t, s', t' => s' = s ∧ t' = t
  | addr :: rest, s, t, s', t' =>
      ∃ w u v, ctx.img.readWord addr = some w ∧ isControlFlow w = false ∧ ctx.Emits addr w ∧
        execStmts h s (ctx.wordText addr w) = .next u ∧ execPlain h addr w t = .advance v ∧
        Agree u v ∧ v.gpr 0 = 0 ∧ Together h rest u v s' t'

/-- The same with the condition of each word, in the states before it, in place of the
agreement behind it. -/
def SoundBody (h : Host M) :
    List Word → CPUState M → CPUState M → CPUState M → CPUState M → Prop
  | [], s, t, s', t' => s' = s ∧ t' = t
  | addr :: rest, s, t, s', t' =>
      ∃ w u v, ctx.img.readWord addr = some w ∧ isControlFlow w = false ∧
        ctx.SoundWord h addr w s t ∧
        execStmts h s (ctx.wordText addr w) = .next u ∧ execPlain h addr w t = .advance v ∧
        v.gpr 0 = 0 ∧ SoundBody h rest u v s' t'

/-- Where a branch goes when its condition is read in `s`. -/
@[grind =] def branchNext (b : BasicBlock) (s : CPUState M) : Word :=
  if branchTaken b.exitInstr.instruction s = some true then
    branchTarget b.exitInstr.address b.exitInstr.instruction
  else b.exitInstr.address + 8#32

/-- What the interpreter's delay slot leaves, run in `t`. -/
def slotLeaves (h : Host M) (b : BasicBlock) (slot : Word) (t : CPUState M) :
    Option (CPUState M) :=
  StepHost.wordLeaves h (b.exitInstr.address + 4#32) slot t

/-- The exits on which the order of the emitted statements does not show. The interpreter
comes to the exit in `t`, links, and leaves `v` behind the slot. The text reads the
condition of a branch with the link written, and where it is a cull site, from its hook. -/
def ExitOk (h : Host M) (b : BasicBlock) (slot : Word) (t : CPUState M) : Prop :=
  let w := b.exitInstr.instruction
  let link := b.exitInstr.address + 8#32
  ∃ v, slotLeaves h b slot (linkWrite b.exitInstr.address w t) = some v ∧
    match Op.ofWord w with
    | .jr => ctx.registerTarget b (v.gpr (rs w)) = t.gpr (rs w)
    | .jalr =>
        if rd w = 0 then
          ∃ v', slotLeaves h b slot t = some v' ∧ v'.gpr (rs w) = t.gpr (rs w) ∧ SameVisible v' v
        else v.gpr (rs w) = t.gpr (rs w) ∧ v.gpr (rd w) = link
    | .jal => v.gpr 31 = link
    | .j | .beq | .bne | .blez | .bgtz => True
    | .regimm =>
        (isBranchAndLink w = true → v.gpr 31 = link) ∧
          ∃ taken, branchTaken w t = some taken ∧
            (taken = decide ((ctx.branchCond b.exitInstr).eval h (linked b t) ≠ 0) ∨
              branchTarget b.exitInstr.address w = link)
    | _ => False

section Body

variable {ctx : EmitContext} {h : Host M} {s t s' t' : CPUState M}

theorem soundBody_iff {addrs : List Word} (hAgree : Agree s t) (hZero : t.gpr 0 = 0) :
    ctx.Together h addrs s t s' t' ↔ ctx.SoundBody h addrs s t s' t' := by
  induction addrs generalizing s t with
  | nil => exact Iff.rfl
  | cons addr rest ih =>
      have hZeroS : s.gpr 0 = 0 := by rw [hAgree.gpr, hZero]
      constructor
      · rintro ⟨w, u, v, hRead, hFlow, hEmitted, hRun, hStep, hAgree', hZero', hRest⟩
        exact ⟨w, u, v, hRead, hFlow, (soundWord_iff hAgree hZeroS hFlow).mp
          ⟨hEmitted, u, v, hRun, hStep, hAgree'⟩, hRun, hStep, hZero',
          (ih hAgree' hZero').mp hRest⟩
      · rintro ⟨w, u, v, hRead, hFlow, hSound, hRun, hStep, hZero', hRest⟩
        obtain ⟨hEmitted, u', v', hRun', hStep', hAgree'⟩ :=
          (soundWord_iff hAgree hZeroS hFlow).mpr hSound
        obtain rfl := Flow.next.inj (hRun.symm.trans hRun')
        obtain rfl := ExecResult.advance.inj (hStep.symm.trans hStep')
        exact ⟨w, u, v, hRead, hFlow, hEmitted, hRun, hStep, hAgree', hZero',
          (ih hAgree' hZero').mpr hRest⟩

/-- The body of a block: both come to the exit in agreeing states. -/
theorem Together.done {addrs : List Word} (hAgree : Agree s t) (hZero : t.gpr 0 = 0)
    (hBody : ctx.Together h addrs s t s' t') :
    ctx.RunWords h addrs s s' ∧ Agree s' t' ∧ t'.gpr 0 = 0 := by
  induction addrs generalizing s t with
  | nil =>
      obtain ⟨rfl, rfl⟩ := hBody
      exact ⟨rfl, hAgree, hZero⟩
  | cons addr rest ih =>
      obtain ⟨w, u, v, hRead, hFlow, -, hRun, hStep, hAgree', hZero', hRest⟩ := hBody
      obtain ⟨hWords, hDone⟩ := ih hAgree' hZero' hRest
      exact ⟨⟨w, u, hRead, hFlow, runsTo_of_wordText hRun, hWords⟩, hDone⟩

theorem transferTarget_ordinary {pc w : Word} {u : CPUState M} (hSlot : OrdinarySlot w) :
    transferTarget pc w u = none := by
  obtain ⟨hFlow, hBc1⟩ := hSlot
  unfold isControlFlow at hFlow
  rw [transferTarget, branchTaken]
  cases hOp : Op.ofWord w <;> simp only [hOp, reduceCtorEq] at hFlow ⊢
  case cop1 =>
    rw [hBc1 hOp, Bool.and_false, if_neg Bool.false_ne_true]
  all_goals rfl

theorem rejects_ordinary {w : Word} (hFlow : isControlFlow w = false) :
    rejectsDelaySlot w = false := by
  unfold isControlFlow at hFlow
  rw [rejectsDelaySlot]
  cases hOp : Op.ofWord w <;> simp only [hOp, reduceCtorEq] at hFlow ⊢

/-- The words of a body under the interpreter. -/
theorem interpret_together {stop a : Word} (depth fuel : Nat) (hLe : a.toNat ≤ stop.toNat)
    (hA : Aligned a) (hStop : Aligned stop)
    (hBody : ctx.Together h (addrRange a stop.toNat) s t s' t') :
    (StepHost.onWords h ctx.img.fetch).interpret depth
        ((addrRange a stop.toNat).length + fuel) a (.ofCpu t) =
      (StepHost.onWords h ctx.img.fetch).interpret depth fuel stop (.ofCpu t') := by
  generalize hAddrs : addrRange a stop.toNat = addrs at hBody ⊢
  unfold Aligned at hA hStop
  have hBound := stop.isLt
  induction addrs generalizing a s t with
  | nil =>
      obtain ⟨rfl, rfl⟩ := hBody
      have hEnd : a = stop := by
        by_contra hNe
        have hLt : a.toNat < stop.toNat :=
          lt_of_le_of_ne hLe fun hEq => hNe (BitVec.eq_of_toNat_eq hEq)
        rw [addrRange_cons hLt (by omega)] at hAddrs
        cases hAddrs
      rw [hEnd, List.length_nil, Nat.zero_add]
  | cons addr rest ih =>
      have hLt : a.toNat < stop.toNat := by
        by_contra hNot
        rw [addrRange_eq_nil (not_lt.mp hNot)] at hAddrs
        cases hAddrs
      have hNext : (a + 4#32).toNat = a.toNat + 4 := by
        rw [BitVec.toNat_add, BitVec.toNat_ofNat]
        omega
      rw [addrRange_cons hLt (by omega)] at hAddrs
      obtain ⟨rfl, hRest⟩ := List.cons.inj hAddrs
      obtain ⟨w, u, v, hRead, hFlow, -, -, hStep, -, -, hTail⟩ := hBody
      have hFetch : ctx.img.fetch a = w := by rw [Image.fetch, hRead, Option.getD_some]
      have hNone : transferTarget a w t = none :=
        StepHost.transferTarget_of_slot (rejects_ordinary hFlow) (h := h)
          (by simp only [hStep, ne_eq, reduceCtorEq, not_false_eq_true])
      rw [List.length_cons, Nat.add_right_comm,
        StepHost.interpret_onWords_advance hFetch hNone hStep]
      exact ih (by omega) (by omega) hRest hTail

end Body

section Exit

variable {ctx : EmitContext} {h : Host M} {b : BasicBlock} {w slot : Word}
  {l : Leave M} {s t v : CPUState M}

theorem branchCond_congr (hGpr : s.gpr = t.gpr) :
    (ctx.branchCond b.exitInstr).eval h s = (ctx.branchCond b.exitInstr).eval h t := by
  unfold branchCond generateBranchCondition
  cases Op.ofWord b.exitInstr.instruction
  case regimm =>
    simp only
    split
    · split_ifs <;> simp only [Expr.eval, hGpr]
    all_goals simp only [Expr.eval, hGpr]
  all_goals first
    | rfl
    | (simp only; split_ifs <;> simp only [Expr.eval, hGpr])
    | simp only [Expr.eval, hGpr]

/-- The branches that compare registers: the emitted condition is the branch's. -/
theorem branchCond_eval {c : Bool} (hTaken : branchTaken w s = some c)
    (hInstr : b.exitInstr.instruction = w) (hOp : Op.ofWord w ≠ .regimm) :
    (ctx.branchCond b.exitInstr).eval h s = ofBool c := by
  unfold branchTaken at hTaken
  unfold branchCond generateBranchCondition
  rw [hInstr]
  cases hCase : Op.ofWord w <;>
    simp only [hCase, reduceCtorEq, Option.some.injEq, ne_eq, not_true_eq_false]
      at hTaken hOp ⊢
  case beq | bne =>
    subst hTaken
    split_ifs with hSame
    · simp [Expr.eval, hSame, ofBool]
    · rfl
  all_goals
    subst hTaken
    rfl

/-- Where the interpreter goes on, all of it read before the link and the slot. -/
def interpNext (b : BasicBlock) (t : CPUState M) : Word :=
  let w := b.exitInstr.instruction
  match Op.ofWord w with
  | .jr | .jalr => t.gpr (rs w)
  | .j | .jal => jumpTarget b.exitInstr.address w
  | _ => branchNext b t

theorem branchLinks_eq (w : Word) : branchLinks w = isBranchAndLink w := by
  unfold branchLinks isBranchAndLink
  cases hOp : Op.ofWord w
  case regimm =>
    have hCode : ∀ r : RegIndex, (r.toNat == 0x10 || r.toNat == 0x11) =
        (r == 0x10 || r == 0x11) := by
      decide
    exact hCode (rt w)
  all_goals rfl

/-- Whether a branch is one that the interpreter knows does not depend on the state. -/
theorem branchTaken_some {c : Bool} (hTaken : branchTaken w t = some c) (t' : CPUState M) :
    ∃ c', branchTaken w t' = some c' := by
  unfold branchTaken at *
  cases hOp : Op.ofWord w <;> simp only [hOp, reduceCtorEq] at hTaken ⊢
  case regimm => split at hTaken <;> first | exact ⟨_, rfl⟩ | cases hTaken
  all_goals exact ⟨_, rfl⟩

/-- Writing the link a second time shows unless the slot left it alone. -/
theorem sameVisible_setGpr_iff {x : Word} {r : RegIndex} (hr : r ≠ 0) (hSame : SameRegs s t) :
    SameVisible (s.setGpr r x) t ↔ t.gpr r = x := by
  constructor
  · intro hVisible
    have hLink := hVisible.gpr r hr
    rw [CPUState.setGpr_gpr, Function.update_self] at hLink
    exact hLink.symm
  · intro hLink
    rw [CPUState.setGpr_eq_self s ((congrFun hSame.gpr r).trans hLink)]
    exact hSame.visible

theorem branchNext_congr {s t : CPUState M} (hGpr : s.gpr = t.gpr) :
    branchNext b s = branchNext b t := by
  unfold branchNext branchTaken
  rw [hGpr]

/-- The interpreter knows no branch-likely instruction. -/
theorem not_likely {addr : Word} (hFlow : isControlFlow w = true)
    (hTaken : (analyzeInstruction addr w).type = .branch → ∃ c, branchTaken w t = some c) :
    (analyzeInstruction addr w).isLikely = false := by
  unfold isControlFlow at hFlow
  unfold analyzeInstruction at *
  unfold branchTaken at hTaken
  cases hOp : Op.ofWord w <;> simp only [hOp, reduceCtorEq] at hFlow hTaken ⊢
  all_goals
    obtain ⟨_, hNone⟩ := hTaken trivial
    cases hNone

/-- The text and the interpreter at the same target, and then in the same visible state. -/
theorem blockAgrees_iff {pc target : Word} (hLeaves : LeavesTo l pc s) :
    BlockAgrees l (some (.ofCpu { v with pc := target })) ↔ pc = target ∧ SameVisible s v := by
  obtain ⟨s', hLeave, hSame⟩ := hLeaves
  have hNext : l.successor = some (pc, s') := by
    rcases hLeave with rfl | ⟨rfl, rfl⟩
    · rfl
    · rfl
  constructor
  · rintro ⟨s'', j, hNext', hRun, -, hSame'⟩
    obtain rfl := Option.some.inj hRun
    rw [hNext'] at hNext
    obtain ⟨rfl, rfl⟩ := Prod.mk.inj (Option.some.inj hNext)
    exact ⟨rfl, hSame.symm.trans ⟨hSame'.gpr, hSame'.hi, hSame'.lo, hSame'.mem⟩⟩
  · rintro ⟨rfl, hVisible⟩
    have hDone := hSame.trans hVisible
    exact ⟨s', _, hNext, rfl, rfl, ⟨hDone.gpr, hDone.hi, hDone.lo, hDone.mem⟩⟩

theorem not_blockAgrees_of_abort {j : InterpState M} (hFlag : j.unsupported = true) :
    ¬ BlockAgrees l (some j) := by
  rintro ⟨_, i, _, hRun, hClear, _⟩
  obtain rfl := Option.some.inj hRun
  rw [hFlag] at hClear
  cases hClear

/-- Before the slot both sides hold the same link, except where the interpreter links
through `$31` for a `jalr` to the zero register. -/
theorem linkWrite_eq_linked (hZero : t.gpr 0 = 0)
    (hLinks : Op.ofWord b.exitInstr.instruction = .jalr → rd b.exitInstr.instruction ≠ 0) :
    linkWrite b.exitInstr.address b.exitInstr.instruction t = linked b t := by
  unfold linkWrite linked
  cases hOp : Op.ofWord b.exitInstr.instruction <;> simp only [hOp, branchLinks_eq]
  case jalr =>
    have hRd := hLinks hOp
    rw [if_neg hRd, if_neg hRd, writeGpr_eq_setGpr hZero hRd]
  all_goals simp only [isBranchAndLink, hOp, reduceCtorEq, beq_iff_eq, Bool.and_eq_true, false_and,
    if_false]

theorem linked_agree (hAgree : Agree s t) : Agree (linked b s) (linked b t) := by
  unfold linked
  simp only
  split
  case h_1 => exact hAgree.setGpr _ _
  case h_2 | h_3 =>
    split_ifs
    · first | exact hAgree | exact hAgree.setGpr _ _
    · first | exact hAgree | exact hAgree.setGpr _ _
  case h_4 => exact hAgree

theorem linked_zero (hZero : s.gpr 0 = 0) : (linked b s).gpr 0 = 0 := by
  unfold linked
  simp only
  split
  case h_1 => rw [CPUState.setGpr_gpr, Function.update_of_ne (by decide), hZero]
  case h_2 =>
    split_ifs with hRd
    · exact hZero
    · rw [CPUState.setGpr_gpr, Function.update_of_ne (Ne.symm hRd), hZero]
  case h_3 =>
    split_ifs
    · rw [CPUState.setGpr_gpr, Function.update_of_ne (by decide), hZero]
    · exact hZero
  case h_4 => exact hZero

theorem exit_ge_start {img : Image} {f : Function} (hExtent : BlockExtent f (boundaries img f) b)
    (hExit : ExitInstr img b w) : b.startAddr.toNat ≤ b.exitInstr.address.toNat := by
  have hLe := hExtent.start_le
  rcases exit_toNat hExtent hExit with hAt | ⟨_, hGe⟩
  · omega
  · exact hGe

theorem exit_aligned {img : Image} {f : Function} (hExtent : BlockExtent f (boundaries img f) b)
    (hExit : ExitInstr img b w) : Aligned b.exitInstr.address := by
  have hEnd := hExtent.end_aligned
  unfold Aligned at *
  have := exit_toNat hExtent hExit
  omega

end Exit

variable {ctx : EmitContext} {h : Host M} {b : BasicBlock} {w slot : Word}
  {s t s₁ t₁ : CPUState M}

/-- An exit that the interpreter does not know. -/
theorem interpret_unknown (img : Image) (depth : Nat) (hExit : ExitInstr img b w)
    (hNone : transferTarget b.exitInstr.address w t = none) :
    ∃ j, (StepHost.onWords h img.fetch).interpret depth 1 b.exitInstr.address (.ofCpu t) =
      some j ∧ j.unsupported = true := by
  have hFetch : img.fetch b.exitInstr.address = w := by
    rw [Image.fetch, hExit.read, Option.getD_some]
  have hFlow := hExit.transfers
  have hUnknown : (StepHost.onWords h img.fetch).unknownWord b.exitInstr.address w t = true := by
    unfold isControlFlow at hFlow
    unfold StepHost.unknownWord
    cases hOp : Op.ofWord w <;> simp only [hOp, reduceCtorEq] at hFlow
    all_goals simp [execPlain, hOp]
  refine ⟨(InterpState.ofCpu t).abort, ?_, rfl⟩
  rw [StepHost.interpret, StepHost.execOne_onWords_none hFetch hNone,
    StepHost.execSimple_unknown hUnknown]
  rfl

/-- The interpreter at an exit that it knows, with an ordinary slot. -/
theorem interpret_exit {img : Image} {depth : Nat} {target : Word} (hExit : ExitInstr img b w)
    (hTarget : transferTarget b.exitInstr.address w t = some target)
    (hRead : img.readWord (b.exitInstr.address + 4#32) = some slot) (hSlot : OrdinarySlot slot) :
    (StepHost.onWords h img.fetch).interpret (depth + 1) 1 b.exitInstr.address (.ofCpu t) =
      some (((slotLeaves h b slot (linkWrite b.exitInstr.address w t)).elim
        (InterpState.ofCpu (linkWrite b.exitInstr.address w t)).abort .ofCpu).setPc target) := by
  have hFetch : img.fetch b.exitInstr.address = w := by
    rw [Image.fetch, hExit.read, Option.getD_some]
  have hNext : img.fetch (b.exitInstr.address + 4#32) = slot := by
    rw [Image.fetch, hRead, Option.getD_some]
  rw [StepHost.interpret_onWords_transfer hFetch hTarget,
    StepHost.execDelaySlot_onWords hNext (rejects_ordinary hSlot.1) (transferTarget_ordinary hSlot)]
  rfl

/-- An exit that the interpreter does not know meets no condition. -/
theorem not_exitOk_of_unknown (hFlow : isControlFlow w = true)
    (hInstr : b.exitInstr.instruction = w)
    (hNone : transferTarget b.exitInstr.address w t = none) : ¬ ctx.ExitOk h b slot t := by
  rintro ⟨v, _, hOk⟩
  rw [hInstr] at hOk
  unfold isControlFlow at hFlow
  unfold transferTarget at hNone
  cases hOp : Op.ofWord w <;>
    simp only [hOp, reduceCtorEq, Option.map_eq_none_iff] at hFlow hNone hOk
  case regimm =>
    obtain ⟨_, taken, hTaken, _⟩ := hOk
    rw [hNone] at hTaken
    cases hTaken
  case beq | bne | blez | bgtz =>
    rw [branchTaken, hOp] at hNone
    cases hNone

theorem transferTarget_eq {target : Word} (hInstr : b.exitInstr.instruction = w)
    (hFlow : isControlFlow w = true)
    (hTarget : transferTarget b.exitInstr.address w t = some target) :
    target = interpNext b t ∧
      ((analyzeInstruction b.exitInstr.address w).type = .branch →
        ∃ c, branchTaken w t = some c) := by
  unfold isControlFlow at hFlow
  unfold transferTarget at hTarget
  unfold interpNext branchNext analyzeInstruction
  simp only [hInstr]
  cases hOp : Op.ofWord w <;>
    simp only [hOp, reduceCtorEq, Option.some.injEq, Option.map_eq_some_iff] at hFlow hTarget ⊢
  case jr => exact ⟨hTarget.symm, fun hType => by split_ifs at hType⟩
  case jalr | j | jal => exact ⟨hTarget.symm, fun hType => by cases hType⟩
  all_goals
    obtain ⟨c, hTaken, rfl⟩ := hTarget
    refine ⟨?_, fun _ => ⟨c, hTaken⟩⟩
    rw [hTaken]
    cases c <;> rfl

/-- Where the text goes, for the exits other than `regimm` branches. -/
theorem exitPc_eq {img : Image} (hExit : ExitInstr img b w) {u : CPUState M}
    (hTaken : b.exitInstr.type = .branch → ∃ c, branchTaken w u = some c)
    (hOp : Op.ofWord w ≠ .regimm) (s₂ : CPUState M) :
    exitPc ctx h b u s₂ =
      match Op.ofWord w with
      | .jr => ctx.registerTarget b (s₂.gpr (rs w))
      | .jalr => s₂.gpr (rs w)
      | .j | .jal => jumpTarget b.exitInstr.address w
      | _ => branchNext b u := by
  have hInstr := ExitInstr.instruction hExit
  have hBranch : b.exitInstr.type = .branch →
      b.exitInstr.target = branchTarget b.exitInstr.address w →
      (if (ctx.branchCond b.exitInstr).eval h u = 0 then b.exitInstr.address + 8#32
        else b.exitInstr.target) = branchNext b u := by
    intro hType hTarget
    obtain ⟨c, hc⟩ := hTaken hType
    rw [branchCond_eval hc hInstr hOp, branchNext, hInstr, hc, hTarget]
    cases c <;> rfl
  have hFlow := hExit.transfers
  have hAnalyzed := hExit.analyzed
  unfold isControlFlow at hFlow
  unfold analyzeInstruction at hAnalyzed
  unfold exitPc
  simp only [hInstr]
  cases hCase : Op.ofWord w <;>
    simp only [hCase, reduceCtorEq, ne_eq, not_true_eq_false] at hFlow hAnalyzed hOp ⊢
  all_goals
    exact hBranch (congrArg ControlFlowInstr.type hAnalyzed)
      (congrArg ControlFlowInstr.target hAnalyzed)

/-- A branch on the sign of a register goes where the interpreter goes if it reads the same
condition, or if both ways are one. -/
theorem regimm_next_iff {img : Image} (hExit : ExitInstr img b w) (hOp : Op.ofWord w = .regimm)
    {taken : Bool} (hTaken : branchTaken w t₁ = some taken) {u s₂ : CPUState M} :
    exitPc ctx h b u s₂ = interpNext b t₁ ↔
      taken = decide ((ctx.branchCond b.exitInstr).eval h u ≠ 0) ∨
        branchTarget b.exitInstr.address w = b.exitInstr.address + 8#32 := by
  have hInstr := ExitInstr.instruction hExit
  have hTarget : b.exitInstr.target = branchTarget b.exitInstr.address w := by
    have hAnalyzed := hExit.analyzed
    unfold analyzeInstruction at hAnalyzed
    simp only [hOp] at hAnalyzed
    exact congrArg ControlFlowInstr.target hAnalyzed
  simp only [exitPc, interpNext, branchNext, hInstr, hOp, hTarget, hTaken, Option.some.injEq]
  generalize (ctx.branchCond b.exitInstr).eval h u = cond
  by_cases hCond : cond = 0#32
  · cases taken <;> simp [hCond, eq_comm]
  · cases taken <;> simp [hCond, eq_comm]

/-- The exit of a block that the interpreter knows: `s₂` is what the text leaves of the slot
and `v` what the interpreter does. -/
theorem leaves_agree_iff {img : Image} (hExit : ExitInstr img b w) {s₂ v₀ v : CPUState M}
    (hAgree : Agree s₁ t₁) (hZero : t₁.gpr 0 = 0)
    (hTaken : b.exitInstr.type = .branch → ∃ c, branchTaken w t₁ = some c)
    (hLeft : slotLeaves h b slot (linked b t₁) = some v₀) (hSame : SameRegs s₂ v₀)
    (hV : slotLeaves h b slot (linkWrite b.exitInstr.address w t₁) = some v) :
    (exitPc ctx h b (linked b s₁) s₂ = interpNext b t₁ ∧ SameVisible (linked b s₂) v) ↔
      ctx.ExitOk h b slot t₁ := by
  have hInstr := ExitInstr.instruction hExit
  have hFlow := hExit.transfers
  have hType := ExitInstr.type hExit
  unfold ExitOk
  simp only [hInstr, hV, Option.some.injEq, exists_eq_left']
  by_cases hDropped : Op.ofWord w = .jalr ∧ rd w = 0
  · -- The interpreter links through `$31`, the text does not link.
    obtain ⟨hOp, hRd⟩ := hDropped
    have hUnlinked (u : CPUState M) : linked b u = u := by
      simp only [linked, hInstr, hOp, hRd, if_true]
    rw [hUnlinked] at hLeft
    rw [hUnlinked, hUnlinked, exitPc_eq hExit (fun hBranch => ?_) (by rw [hOp]; decide)]
    swap
    · obtain ⟨c, hc⟩ := hTaken hBranch
      exact branchTaken_some hc _
    simp only [interpNext, hInstr, hOp, hRd, if_true, hLeft, Option.some.injEq, exists_eq_left',
      hSame.gpr]
    exact and_congr_right fun _ => ⟨hSame.visible.symm.trans, hSame.visible.trans⟩
  have hLinks : Op.ofWord b.exitInstr.instruction = .jalr → rd b.exitInstr.instruction ≠ 0 := by
    rw [hInstr]
    exact fun hOp hRd => hDropped ⟨hOp, hRd⟩
  have hLink := linkWrite_eq_linked hZero hLinks
  rw [hInstr] at hLink hLinks
  rw [hLink, hLeft] at hV
  obtain rfl := Option.some.inj hV
  by_cases hOp : Op.ofWord w = .regimm
  · obtain ⟨taken, hTaken⟩ := hTaken (by
      rw [hType, analyzeInstruction]
      simp only [hOp])
    rw [regimm_next_iff hExit hOp hTaken, branchCond_congr (linked_agree hAgree).gpr]
    simp only [hOp, hTaken, Option.some.injEq, exists_eq_left', linked, hInstr]
    rw [and_comm]
    refine and_congr_left fun _ => ?_
    cases hAnd : isBranchAndLink w
    · simp [hSame.visible]
    · rw [if_pos rfl, sameVisible_setGpr_iff (by decide) hSame]
      exact ⟨fun hLinked _ => hLinked, fun hLinked => hLinked rfl⟩
  · rw [exitPc_eq hExit (fun hBranch => ?_) hOp]
    swap
    · obtain ⟨c, hc⟩ := hTaken hBranch
      exact branchTaken_some hc _
    unfold isControlFlow at hFlow
    simp only [linked, interpNext, hInstr, hSame.gpr]
    cases hCase : Op.ofWord w <;>
      simp only [hCase, reduceCtorEq, not_true_eq_false] at hFlow hOp hLinks ⊢
    case jr => exact and_iff_left hSame.visible
    case jalr =>
      rw [if_neg (hLinks trivial), if_neg (hLinks trivial),
        sameVisible_setGpr_iff (hLinks trivial) hSame]
    case j => exact iff_of_true ⟨trivial, hSame.visible⟩ trivial
    case jal => rw [sameVisible_setGpr_iff (by decide) hSame, true_and]
    case beq | bne | blez | bgtz =>
      refine iff_of_true ⟨branchNext_congr ?_, hSame.visible⟩ trivial
      exact hAgree.gpr
    all_goals
      obtain ⟨c, hc⟩ := hTaken (by rw [hType, analyzeInstruction]; simp only [hCase])
      rw [branchTaken, hCase] at hc
      cases hc

/-- The exit of a block, from agreeing states on both sides, with the slot run alike. -/
theorem exit_agrees_iff {f : Function} {leaders : List Word} {depth : Nat}
    (hBuilt : b = buildBlock ctx.img f leaders b.startAddr b.endAddr)
    (hExit : ExitInstr ctx.img b w)
    (hRead : ctx.img.readWord (b.exitInstr.address + 4#32) = some slot)
    (hOrdinary : OrdinarySlot slot) (hAgree : Agree s₁ t₁) (hZero : t₁.gpr 0 = 0)
    (hSlot : SlotFollows
      (execStmts h (linked b s₁) (ctx.wordText (b.exitInstr.address + 4#32) slot))
      (slotLeaves h b slot (linked b t₁)))
    (bc : Word) (rest : List CStmt) :
    BlockAgrees (execBlock h s₁ bc (ctx.emitExit b ++ rest))
        ((StepHost.onWords h ctx.img.fetch).interpret (depth + 1) 1 b.exitInstr.address
          (.ofCpu t₁)) ↔
      ctx.ExitOk h b slot t₁ := by
  have hInstr := ExitInstr.instruction hExit
  obtain ⟨s₂, v₀, hRun, hLeft, hSame⟩ := hSlot
  cases hTarget : transferTarget b.exitInstr.address w t₁ with
  | none =>
      obtain ⟨j, hRun, hFlag⟩ := interpret_unknown (h := h) ctx.img (depth + 1) hExit hTarget
      rw [hRun]
      exact iff_of_false (not_blockAgrees_of_abort hFlag)
        (not_exitOk_of_unknown hExit.transfers hInstr hTarget)
  | some target =>
      obtain ⟨rfl, hTaken⟩ := transferTarget_eq hInstr hExit.transfers hTarget
      have hLikely : b.exitInstr.isLikely = false := by
        rw [hExit.analyzed]
        exact not_likely hExit.transfers hTaken
      rw [← ExitInstr.type hExit] at hTaken
      rw [interpret_exit hExit hTarget hRead hOrdinary]
      cases hV : slotLeaves h b slot (linkWrite b.exitInstr.address w t₁) with
      | none =>
          refine iff_of_false (not_blockAgrees_of_abort rfl) ?_
          rintro ⟨v, hSome, _⟩
          rw [hInstr, hV] at hSome
          cases hSome
      | some v =>
          refine (blockAgrees_iff (leavesTo_emitExit hBuilt hExit hRead hLikely
            (runsTo_of_wordText hRun) bc rest)).trans ?_
          exact leaves_agree_iff hExit hAgree hZero hTaken hLeft hSame hV

/-- The body reaches the exit, with a label in front of it where a table points. -/
theorem exec_emitBody_exit {f : Function} (hExtent : BlockExtent f (boundaries ctx.img f) b)
    (hExit : ExitInstr ctx.img b w) (bc : Word) (tail : List Word) (more : List CStmt) :
    execBlock h s bc (ctx.emitBody b (b.exitInstr.address :: tail) ++ more) =
      execBlock h s bc (ctx.emitExit b ++ (ctx.emitBody b tail ++ more)) := by
  have hNotSlot : (slotInBlock b && b.exitInstr.address == b.endAddr) = false := by
    rw [slotInBlock_eq hExtent hExit]
    by_cases hAt : b.exitInstr.address = b.endAddr <;> simp [hAt]
  rw [emitBody, hExit.read]
  simp only [hNotSlot, Bool.false_eq_true, if_false, hExit.transfers, if_true,
    exitBranchAddr_eq hExtent hExit]
  split_ifs <;> simp

/-- The text and the interpreter, from one state: together through the body, to `s₁` and
`t₁`, and through the slot. -/
def WordsTogether (ctx : EmitContext) (h : Host M) (b : BasicBlock) (slot : Word)
    (s s₁ t₁ : CPUState M) : Prop :=
  ctx.Together h (bodyAddrs b) s s s₁ t₁ ∧ ctx.Emits (b.exitInstr.address + 4#32) slot ∧
    SlotFollows (execStmts h (linked b s₁) (ctx.wordText (b.exitInstr.address + 4#32) slot))
      (slotLeaves h b slot (linked b t₁))

/-- The words of the body and the slot meet their conditions. -/
def WordsSound (ctx : EmitContext) (h : Host M) (b : BasicBlock) (slot : Word)
    (s s₁ t₁ : CPUState M) : Prop :=
  ctx.SoundBody h (bodyAddrs b) s s s₁ t₁ ∧
    ctx.SoundSlot h (b.exitInstr.address + 4#32) slot (linked b s₁) (linked b t₁)

theorem wordsTogether_iff (hZero : s.gpr 0 = 0) (hOrdinary : OrdinarySlot slot) :
    ctx.WordsTogether h b slot s s₁ t₁ ↔ ctx.WordsSound h b slot s s₁ t₁ := by
  unfold WordsTogether WordsSound
  rw [← soundBody_iff (Agree.refl s) hZero]
  refine and_congr_right fun hBody => ?_
  obtain ⟨_, hAgree, hZero₁⟩ := hBody.done (Agree.refl s) hZero
  have hLinked : Agree (linked b s₁) (linked b t₁) := linked_agree hAgree
  exact soundSlot_iff hLinked (linked_zero (by rw [hAgree.gpr, hZero₁])) hOrdinary.1 hOrdinary.2

/-- Every block that ends in a control transfer with an ordinary slot. The text goes
together with the interpreter through the words in front of the transfer exactly where they
are sound, and then the block ends where the interpreter ends, in the same state, exactly
where the order of the exit does not show. -/
theorem translateBasicBlock_agrees_iff {f : Function} {depth : Nat} (hf : f.Valid)
    (hCfg : ctx.cfg = analyzeFunction ctx.img f) (hb : b ∈ ctx.cfg.blocks)
    (hType : b.exitInstr.type ≠ .none)
    (hRead : ctx.img.readWord (b.exitInstr.address + 4#32) = some slot)
    (hOrdinary : OrdinarySlot slot) (hZero : s.gpr 0 = 0) :
    (ctx.WordsTogether h b slot s s₁ t₁ ↔ ctx.WordsSound h b slot s s₁ t₁) ∧
      (ctx.WordsSound h b slot s s₁ t₁ →
        (BlockAgrees (execBlock h s 0 (ctx.translateBasicBlock b))
            (interpBlock h ctx.img b (depth + 1) s) ↔
          ctx.ExitOk h b slot t₁)) := by
  have hWords : ctx.WordsTogether h b slot s s₁ t₁ ↔ ctx.WordsSound h b slot s s₁ t₁ :=
    wordsTogether_iff hZero hOrdinary
  refine ⟨hWords, fun hSound => ?_⟩
  obtain ⟨hBody, -, hSlot⟩ := hWords.mpr hSound
  rw [hCfg] at hb
  obtain ⟨hBuilt, hExtent⟩ := mem_blocks hf hb
  obtain ⟨w, hExit⟩ := exitInstr_of_mem_blocks hf hb hType
  obtain ⟨tail, hAddrs⟩ := block_addrs hExtent hExit
  obtain ⟨hRun, hAgree, hZero₁⟩ := hBody.done (Agree.refl s) hZero
  have hInside : ∀ a ∈ bodyAddrs b, (slotInBlock b && a == b.endAddr) = false := by
    intro a ha
    simp [bodyAddrs_ne_end hExtent hExit ha]
  have hInterp := interpret_together (depth + 1) 1
    (exit_ge_start hExtent hExit) hExtent.start_aligned (exit_aligned hExtent hExit) hBody
  rw [interpBlock, bodyAddrs, hInterp, translateBasicBlock, execBlock_label, hAddrs,
    exec_emitBody_words 0 hRun hInside, exec_emitBody_exit hExtent hExit]
  exact exit_agrees_iff hBuilt hExit hRead hOrdinary hAgree hZero₁ hSlot 0 _

/-- A host whose system call enters a critical section, and whose exceptions go to the
vector. -/
def criticalHost : Host Word :=
  { cellHost with
    syscall := fun _ s => (false, { s.setGpr 2 (s.sr &&& 1#32) with
      pc := 0, cop0 := Function.update s.cop0 12 (s.sr &&& 0xFFFFFFFE#32) })
    raise := fun _ pc _ s =>
      { s with pc := 0x80000080#32, cop0 := Function.update s.cop0 14 pc } }

/-- `addiu $a0, $zero, 1` and `syscall`, then `jr $ra` with `mtc1` in the slot. -/
def criticalImage : Image where
  loadAddress := 0x80010000#32
  codeData := [0x01, 0x00, 0x04, 0x24, 0x0C, 0x00, 0x00, 0x00, 0x08, 0x00, 0xE0, 0x03,
    0x00, 0x00, 0x80, 0x44]
  load_kseg0 := Image.text_kseg0
  end_in_ram := by decide

def criticalFunction : Function := ⟨0x80010000#32, 0x80010010#32, false, 0, []⟩

def criticalContext : EmitContext :=
  ⟨criticalImage, .none, fun _ => false, analyzeFunction criticalImage criticalFunction, []⟩

def criticalBlock : BasicBlock :=
  ⟨0x80010000#32, 0x8001000C#32, analyzeInstruction 0x80010008#32 0x03E00008#32, [], true⟩

/-- Behind the system call. -/
def criticalState : CPUState Word :=
  (criticalHost.syscall 0 ((blankState 0).setGpr 4 1)).2

/-- The system call and the slot, which raises an exception, are sound. -/
theorem critical_sound : criticalContext.WordsSound criticalHost criticalBlock 0x44800000#32
    (blankState 0) criticalState criticalState := by
  have hAddrs : bodyAddrs criticalBlock = [0x80010000#32, 0x80010004#32] := by decide
  have hFirst : criticalImage.readWord 0x80010000#32 = some 0x24040001#32 := by decide +kernel
  have hSecond : criticalImage.readWord 0x80010004#32 = some 0x0000000C#32 := by decide +kernel
  have hAddiu : criticalContext.SoundWord criticalHost 0x80010000#32 0x24040001#32 (blankState 0)
      (blankState 0) := by
    have hOp : Op.ofWord 0x24040001#32 = .addiu := rfl
    have hSite : translateInstruction criticalContext.sites 0x80010000#32 0x24040001#32 =
        translatePlain 0x80010000#32 0x24040001#32 := rfl
    rw [SoundWord, if_pos hSite, SoundPlain, hOp]
    refine ⟨by simp [execPlain, hOp, advanceWith], ⟨?_, ?_, ?_⟩, ?_⟩
    · simp only [WritesZero, hOp]
      decide
    · simp [SkipsRead, hOp]
    · simp [DivOverflows, hOp]
    · simp [ReadsBeyond, hOp]
  have hSyscall : criticalContext.SoundWord criticalHost 0x80010004#32 0x0000000C#32
      ((blankState 0).setGpr 4 1) ((blankState 0).setGpr 4 1) := by
    have hOp : Op.ofWord 0x0000000C#32 = .syscall := rfl
    have hSite : translateInstruction criticalContext.sites 0x80010004#32 0x0000000C#32 =
        translatePlain 0x80010004#32 0x0000000C#32 := rfl
    rw [SoundWord, if_pos hSite, SoundPlain, hOp]
    exact ⟨rfl, ⟨rfl, rfl, rfl, rfl, rfl⟩, rfl⟩
  refine ⟨?_, ?_⟩
  · rw [hAddrs]
    have hPlain : execPlain criticalHost 0x80010000#32 0x24040001#32 (blankState 0) =
        .advance ((blankState 0).setGpr 4 1) := by
      have hKept : ((blankState 0).setGpr 4 1).gpr 0 = 0 := rfl
      have hOp : Op.ofWord 0x24040001#32 = .addiu := rfl
      simp only [execPlain, hOp, advanceWith, writeGpr]
      exact congrArg ExecResult.advance (CPUState.setGpr_eq_self _ hKept)
    exact ⟨_, _, _, hFirst, rfl, hAddiu, rfl, hPlain, rfl, _, _, _, hSecond, rfl,
      hSyscall, rfl, rfl,
      rfl, rfl, rfl⟩
  · have hOp : Op.ofWord 0x44800000#32 = .cop1 := rfl
    have hSite : translateInstruction criticalContext.sites
        (criticalBlock.exitInstr.address + 4#32) 0x44800000#32 =
          translatePlain (criticalBlock.exitInstr.address + 4#32) 0x44800000#32 := rfl
    rw [SoundSlot, if_pos hSite, SoundSlotPlain, hOp]
    exact .inr ⟨rfl, rfl, rfl, rfl⟩

theorem translateBasicBlock_agrees_critical :
    BlockAgrees (execBlock criticalHost (blankState 0) 0
        (criticalContext.translateBasicBlock criticalBlock))
      (interpBlock criticalHost criticalImage criticalBlock 1 (blankState 0)) ↔
    criticalContext.ExitOk criticalHost criticalBlock 0x44800000#32 criticalState := by
  have hValid : criticalFunction.Valid :=
    ⟨by decide, by decide, by decide, by decide, by decide, fun _ hMem => by cases hMem⟩
  have hSlot : criticalImage.readWord (criticalBlock.exitInstr.address + 4#32) =
      some 0x44800000#32 := by
    decide +kernel
  exact (translateBasicBlock_agrees_iff hValid rfl (by decide) (by decide) hSlot (by decide)
    rfl).2 critical_sound

/-- `jalr $2, $2` with `nop` in the slot. -/
def aliasedCallImage : Image where
  loadAddress := 0x80010000#32
  codeData := [0x09, 0x10, 0x40, 0x00, 0x00, 0x00, 0x00, 0x00]
  load_kseg0 := Image.text_kseg0
  end_in_ram := by decide

def aliasedCallFunction : Function := ⟨0x80010000#32, 0x80010008#32, false, 0, []⟩

def aliasedCallBlock : BasicBlock :=
  ⟨0x80010000#32, 0x80010004#32, analyzeInstruction 0x80010000#32 0x00401009#32, [], true⟩

def aliasedCallContext : EmitContext :=
  ⟨aliasedCallImage, .none, fun _ => false, analyzeFunction aliasedCallImage aliasedCallFunction,
    []⟩

/-- The link is written before the target register is read: the text goes on
behind the call and not at the callee. -/
theorem aliasedCall_differs :
    ¬ ∀ (M : Type) (h : Host M) (ctx : EmitContext) (f : Function) (b : BasicBlock) (slot : Word)
        (s : CPUState M),
      f.Valid → ctx.cfg = analyzeFunction ctx.img f → b ∈ ctx.cfg.blocks →
      b.exitInstr.type ≠ .none → s.gpr 0 = 0 →
      ctx.img.readWord (b.exitInstr.address + 4#32) = some slot → OrdinarySlot slot →
      BlockAgrees (execBlock h s 0 (ctx.translateBasicBlock b)) (interpBlock h ctx.img b 1 s) := by
  intro hAll
  have hValid : aliasedCallFunction.Valid :=
    ⟨by decide, by decide, by decide, by decide, by decide, fun _ hMem => by cases hMem⟩
  have hSlot : aliasedCallImage.readWord (aliasedCallBlock.exitInstr.address + 4#32) =
      some 0#32 := by
    decide
  let s : CPUState Word := (blankState 0).setGpr 2 0x80020000#32
  obtain ⟨s', j, hNext, hRun, _⟩ := hAll Word cellHost aliasedCallContext aliasedCallFunction
    aliasedCallBlock 0 s hValid rfl (by decide) (by decide) rfl hSlot (by decide)
  have hInterp : (interpBlock cellHost aliasedCallImage aliasedCallBlock 1 s).map (·.cpu.pc) =
      some 0x80020000#32 := by
    decide +kernel
  have hText : (execBlock cellHost s 0
      (aliasedCallContext.translateBasicBlock aliasedCallBlock)).successor.map Prod.fst =
        some 0x80010008#32 := by
    decide +kernel
  have hImg : aliasedCallContext.img = aliasedCallImage := rfl
  rw [← hImg, hRun, Option.map_some] at hInterp
  rw [hNext, Option.map_some, Option.some.inj hInterp] at hText
  have hTarget : (0x80020000#32 : Word) = 0x80010008#32 := Option.some.inj hText
  exact absurd hTarget (by decide)

end EmitContext

end RecompStudio.CodeGen
