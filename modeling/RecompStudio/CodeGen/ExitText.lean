import RecompStudio.CodeGen.Block

/-!
How the text of a block's exit runs: the link, the delay slot and the transfer,
in the order in which they are written out.
-/

namespace RecompStudio.CodeGen

open RecompStudio.Emitted
open RecompStudio.Insn

variable {M : Type}

/-- A state that a block's text hands over, with the address it goes on at. -/
def Leave.successor : Leave M → Option (Word × CPUState M)
  | .goto target s => some (target, s)
  | .ret s => some (s.pc, s)
  | .enter entry s => some (entry, s)
  | .fall _ | .trap _ | .undefined => none

/-- Equal in all that a program can see: general registers, `HI`, `LO`, memory. -/
structure SameVisible (s t : CPUState M) : Prop where
  gpr : ∀ r, r ≠ 0 → s.gpr r = t.gpr r
  hi : s.hi = t.hi
  lo : s.lo = t.lo
  mem : s.mem = t.mem

namespace SameVisible

variable {s t u : CPUState M}

theorem symm (h : SameVisible s t) : SameVisible t s :=
  ⟨fun r hr => (h.gpr r hr).symm, h.hi.symm, h.lo.symm, h.mem.symm⟩

theorem trans (h : SameVisible s t) (h' : SameVisible t u) : SameVisible s u :=
  ⟨fun r hr => (h.gpr r hr).trans (h'.gpr r hr), h.hi.trans h'.hi, h.lo.trans h'.lo,
    h.mem.trans h'.mem⟩

end SameVisible

namespace EmitContext

variable (ctx : EmitContext)

/-- The register holds the link when the delay slot runs. -/
def linked (b : BasicBlock) (s : CPUState M) : CPUState M :=
  let w := b.exitInstr.instruction
  match Op.ofWord w with
  | .jal => s.setGpr 31 (b.exitInstr.address + 8#32)
  | .jalr => if rd w = 0 then s else s.setGpr (rd w) (b.exitInstr.address + 8#32)
  | .regimm => if isBranchAndLink w then s.setGpr 31 (b.exitInstr.address + 8#32) else s
  | _ => s

/-- Where the text goes on when the register of a `jr` holds `v`. -/
@[grind =] def registerTarget (b : BasicBlock) (v : Word) : Word :=
  if rs b.exitInstr.instruction = 31 then v
  else
    (switchCase (switchTargets ctx.cfg ctx.extra [] (jrEntries ctx.img ctx.cfg b)) v).getD v

/-- The text of a word takes one state to another. -/
def RunsTo (h : Host M) (addr w : Word) (s s' : CPUState M) : Prop :=
  ∀ bc, (ctx.emitWord addr w).exec h s bc = .on s' bc

/-- The words at the given addresses run from `s` to `s'`, none of them a
control transfer. -/
def RunWords (h : Host M) : List Word → CPUState M → CPUState M → Prop
  | [], s, s' => s' = s
  | addr :: rest, s, s' =>
      ∃ w u, ctx.img.readWord addr = some w ∧ isControlFlow w = false ∧
        ctx.RunsTo h addr w s u ∧ RunWords h rest u s'

variable {ctx : EmitContext} {h : Host M} {img : Image} {b : BasicBlock} {w : Word}

/-- The text of some words in a row. -/
theorem exec_emitBody_words {addrs : List Word} {s s₁ : CPUState M} (bc : Word)
    (hWords : ctx.RunWords h addrs s s₁)
    (hInside : ∀ a ∈ addrs, (slotInBlock b && a == b.endAddr) = false)
    (rest : List Word) (more : List CStmt) :
    execBlock h s bc (ctx.emitBody b (addrs ++ rest) ++ more) =
      execBlock h s₁ bc (ctx.emitBody b rest ++ more) := by
  induction addrs generalizing s with
  | nil =>
      obtain rfl : s₁ = s := hWords
      rfl
  | cons addr addrs ih =>
      obtain ⟨w, u, hRead, hPlain, hRun, hRest⟩ := hWords
      rw [← ih hRest fun a ha => hInside a (List.mem_cons_of_mem _ ha), List.cons_append, emitBody,
        hRead]
      simp only [hInside addr List.mem_cons_self, Bool.false_eq_true, if_false, hPlain]
      split_ifs <;> simp [execBlock_on (hRun bc)]

theorem ExitInstr.instruction (hExit : ExitInstr img b w) : b.exitInstr.instruction = w := by
  rw [hExit.analyzed, analyzeInstruction_instruction]

theorem ExitInstr.type (hExit : ExitInstr img b w) :
    b.exitInstr.type = (analyzeInstruction b.exitInstr.address w).type :=
  congrArg ControlFlowInstr.type hExit.analyzed

theorem exec_linkStmt (s : CPUState M) (bc : Word) (r : RegIndex) (addr : Word)
    (rest : List CStmt) :
    execBlock h s bc (linkStmt r addr :: rest) =
        execBlock h (s.setGpr r (addr + 8#32)) bc rest := by
  exact execBlock_code rfl rest

theorem exec_linkBefore (hExit : ExitInstr img b w) (s : CPUState M) (bc : Word)
    (rest : List CStmt) :
    execBlock h s bc (linkBefore b.exitInstr ++ rest) = execBlock h (linked b s) bc rest := by
  have hFlow := hExit.transfers
  unfold linkBefore linked
  rw [ExitInstr.type hExit, ExitInstr.instruction hExit]
  unfold analyzeInstruction
  unfold isControlFlow at hFlow
  cases hOp : Op.ofWord w <;> simp only [hOp, reduceCtorEq] at hFlow ⊢
  case jr => split_ifs <;> rfl
  case jalr =>
    split_ifs
    · rfl
    · exact exec_linkStmt ..
  case jal => exact exec_linkStmt ..
  case regimm =>
    split_ifs
    · exact exec_linkStmt ..
    · rfl
  all_goals simp only [isBranchAndLink, hOp, reduceCtorEq, beq_iff_eq, Bool.and_eq_true,
    false_and, if_false, List.nil_append]

/-- The delay slot, after the condition of a branch has been saved. -/
theorem exec_delaySlot {slot : Word} {u s₂ : CPUState M}
    (hRead : ctx.img.readWord (b.exitInstr.address + 4#32) = some slot)
    (hLikely : b.exitInstr.isLikely = false)
    (hRun : ctx.RunsTo h (b.exitInstr.address + 4#32) slot u s₂) (bc : Word)
    (rest : List CStmt) :
    execBlock h u bc (ctx.delaySlot b.exitInstr ++ rest) =
      execBlock h s₂ (if b.exitInstr.type = .branch then (ctx.branchCond b.exitInstr).eval h u
        else bc) rest := by
  unfold delaySlot
  simp only [hRead, hLikely, Bool.false_eq_true, if_false]
  split_ifs
  · exact execBlock_on (hRun _) rest
  · exact execBlock_on (hRun _) rest

/-- A run that goes on at an address in a state like `s`, by a jump or by a
return that publishes the address. -/
def LeavesTo (l : Leave M) (pc : Word) (s : CPUState M) : Prop :=
  ∃ s', (l = .goto pc s' ∨ (l = .ret s' ∧ s'.pc = pc)) ∧ SameVisible s' s

theorem leavesTo_goto (s : CPUState M) (pc : Word) :
    LeavesTo (Leave.goto pc s) pc s := ⟨s, .inl rfl, ⟨fun _ _ => rfl, rfl, rfl, rfl⟩⟩

theorem leavesTo_ret (s : CPUState M) (pc : Word) :
    LeavesTo (Leave.ret { s with pc := pc }) pc s :=
  ⟨_, .inr ⟨rfl, rfl⟩, ⟨fun _ _ => rfl, rfl, rfl, rfl⟩⟩

theorem leavesTo_reach (s : CPUState M) (pc : Word) :
    LeavesTo ((ctx.reach pc).exec h s) pc s := by
  unfold reach
  split_ifs
  · exact leavesTo_goto s pc
  · exact leavesTo_ret s pc

/-- Where the text goes on: `u` is the state before the slot, `s₂` the one after. -/
def exitPc (ctx : EmitContext) (h : Host M) (b : BasicBlock) (u s₂ : CPUState M) : Word :=
  let w := b.exitInstr.instruction
  match Op.ofWord w with
  | .jr => ctx.registerTarget b (s₂.gpr (rs w))
  | .jalr => s₂.gpr (rs w)
  | .j | .jal => jumpTarget b.exitInstr.address w
  | _ =>
      if (ctx.branchCond b.exitInstr).eval h u = 0 then b.exitInstr.address + 8#32
      else b.exitInstr.target

theorem leavesTo_branch {s₂ : CPUState M} {x y : Word} (taken notTaken : Transfer)
    (hYes : LeavesTo (taken.exec h s₂) x s₂) (hNo : LeavesTo (notTaken.exec h s₂) y s₂)
    (bc : Word) (rest : List CStmt) :
    LeavesTo (execBlock h s₂ bc (.branch none taken notTaken :: rest))
      (if bc = 0 then y else x) s₂ := by
  rw [execBlock_leave rfl, Option.elim_none]
  split_ifs
  · exact hNo
  · exact hYes

theorem successors_branch {f : Function} {leaders : List Word}
    (hBuilt : b = buildBlock img f leaders b.startAddr b.endAddr)
    (hType : b.exitInstr.type = .branch) {x y : Word} (hTwo : b.successors = [x, y]) :
    x = b.exitInstr.target ∧ y = b.exitInstr.address + 8#32 := by
  rw [successors_eq hBuilt, blockSuccessors, hType] at hTwo
  simp only at hTwo
  split_ifs at hTwo with hTarget hNext hNext
  · obtain ⟨hFirst, hSecond⟩ := List.cons.inj hTwo
    exact ⟨hFirst.symm, (List.cons.inj hSecond).1.symm⟩
  · cases (List.cons.inj hTwo).2
  · cases (List.cons.inj hTwo).2
  · cases hTwo

theorem successors_jump {f : Function} {leaders : List Word}
    (hBuilt : b = buildBlock img f leaders b.startAddr b.endAddr)
    (hType : b.exitInstr.type = .jump) {x : Word} {rest : List Word}
    (hSome : b.successors = x :: rest) : x = b.exitInstr.target := by
  rw [successors_eq hBuilt, blockSuccessors, hType] at hSome
  simp only at hSome
  split_ifs at hSome
  exact (List.cons.inj hSome).1.symm

theorem leavesTo_emitBranch {f : Function} {leaders : List Word}
    (hBuilt : b = buildBlock img f leaders b.startAddr b.endAddr)
    (hType : b.exitInstr.type = .branch) (hInstr : b.exitInstr.instruction = w)
    (hTest : ctx.branchTest b.exitInstr = none) (s₂ : CPUState M) (bc : Word)
    (rest : List CStmt) :
    LeavesTo (execBlock h s₂ bc (ctx.emitBranch b ++ rest))
      (if bc = 0 then b.exitInstr.address + 8#32 else b.exitInstr.target)
      (if isBranchAndLink w then s₂.setGpr 31 (b.exitInstr.address + 8#32) else s₂) := by
  have hSecondLink : ∀ taken notTaken : Transfer,
      execBlock h s₂ bc ((if isBranchAndLink w then [linkStmt 31 b.exitInstr.address]
          else []) ++ .branch none taken notTaken :: rest) =
        execBlock h (if isBranchAndLink w then s₂.setGpr 31 (b.exitInstr.address + 8#32) else s₂)
          bc (.branch none taken notTaken :: rest) := by
    intro taken notTaken
    split_ifs
    · exact exec_linkStmt ..
    · rfl
  unfold emitBranch
  simp only [hTest, hInstr]
  split
  next x y hTwo =>
    obtain ⟨rfl, rfl⟩ := successors_branch hBuilt hType hTwo
    rw [List.append_assoc, List.singleton_append, hSecondLink]
    exact leavesTo_branch (.goto _) (.goto _) (leavesTo_goto _ _) (leavesTo_goto _ _) bc rest
  next =>
    rw [List.append_assoc, List.singleton_append, hSecondLink]
    exact leavesTo_branch (ctx.reach _) (ctx.reach _) (leavesTo_reach _ _) (leavesTo_reach _ _) bc
      rest

theorem leavesTo_emitJump {f : Function} {leaders : List Word}
    (hBuilt : b = buildBlock img f leaders b.startAddr b.endAddr)
    (hType : b.exitInstr.type = .jump) (hTarget : b.exitInstr.target ≠ 0) (s₂ : CPUState M)
    (bc : Word) (rest : List CStmt) :
    LeavesTo (execBlock h s₂ bc (emitJump b ++ rest)) b.exitInstr.target s₂ := by
  unfold emitJump
  split
  next x _ hSome =>
    obtain rfl := successors_jump hBuilt hType hSome
    exact leavesTo_goto _ _
  next =>
    rw [if_neg hTarget]
    exact leavesTo_ret _ _

theorem leavesTo_emitJumpRegister (hRs : rs b.exitInstr.instruction ≠ 31) (s₂ : CPUState M)
    (bc : Word) (rest : List CStmt) :
    LeavesTo (execBlock h s₂ bc (ctx.emitJumpRegister b ++ rest))
      (ctx.registerTarget b (s₂.gpr (rs b.exitInstr.instruction))) s₂ := by
  unfold emitJumpRegister registerTarget
  rw [if_neg hRs]
  simp only
  split
  next hNone =>
    rw [hNone]
    exact leavesTo_ret _ _
  next cases hSome =>
    rw [List.singleton_append, execBlock_leave rfl]
    split
    next target hCase =>
      rw [hCase]
      exact leavesTo_goto _ _
    next hCase =>
      rw [hCase]
      exact leavesTo_ret _ _

theorem leavesTo_emitCall (s₂ : CPUState M) (bc : Word) (rest : List CStmt) :
    LeavesTo (execBlock h s₂ bc (emitCall b ++ rest)) b.exitInstr.target
      (s₂.setGpr 31 (b.exitInstr.address + 8#32)) := by
  rw [emitCall, List.cons_append, exec_linkStmt]
  exact leavesTo_ret _ _

theorem leavesTo_emitCallRegister (s₂ : CPUState M) (bc : Word) (rest : List CStmt) :
    LeavesTo (execBlock h s₂ bc (emitCallRegister b ++ rest))
      (s₂.gpr (rs b.exitInstr.instruction))
      (if rd b.exitInstr.instruction = 0 then s₂
        else s₂.setGpr (rd b.exitInstr.instruction) (b.exitInstr.address + 8#32)) := by
  rw [emitCallRegister, List.singleton_append, execBlock_leave rfl]
  split_ifs
  · exact leavesTo_ret _ _
  · exact leavesTo_ret _ _

/-- The transfer at the end of a block. The condition of a branch was read in
`u`, where the delay slot began; the registers are read in `s₂`, where it ended. -/
theorem leavesTo_emitTransfer {f : Function} {leaders : List Word}
    (hBuilt : b = buildBlock img f leaders b.startAddr b.endAddr) (hExit : ExitInstr img b w)
    (hTest : ctx.branchTest b.exitInstr = none) (u s₂ : CPUState M) (bc : Word)
    (rest : List CStmt) :
    LeavesTo
      (execBlock h s₂ (if b.exitInstr.type = .branch then (ctx.branchCond b.exitInstr).eval h u
        else bc) (ctx.emitTransfer b ++ rest))
      (exitPc ctx h b u s₂) (linked b s₂) := by
  have hInstr := ExitInstr.instruction hExit
  have hFlow := hExit.transfers
  have hAnalyzed := hExit.analyzed
  unfold isControlFlow at hFlow
  unfold analyzeInstruction at hAnalyzed
  unfold exitPc linked emitTransfer
  simp only [hInstr]
  have hBranch : b.exitInstr.type = .branch →
      LeavesTo
        (execBlock h s₂ (if b.exitInstr.type = .branch then (ctx.branchCond b.exitInstr).eval h u
          else bc) (ctx.emitBranch b ++ rest))
        (if (ctx.branchCond b.exitInstr).eval h u = 0 then b.exitInstr.address + 8#32
          else b.exitInstr.target)
        (if isBranchAndLink w then s₂.setGpr 31 (b.exitInstr.address + 8#32) else s₂) := by
    intro hType
    rw [if_pos hType]
    exact leavesTo_emitBranch hBuilt hType hInstr hTest s₂ _ rest
  cases hOp : Op.ofWord w <;> simp only [hOp, reduceCtorEq] at hFlow hAnalyzed ⊢
  case jr =>
    have hType := congrArg ControlFlowInstr.type hAnalyzed
    simp only at hType
    by_cases hRa : rs w = 31
    · rw [if_pos hRa] at hType
      simp only [hType, registerTarget, hInstr, hRa, if_true]
      exact leavesTo_ret _ _
    · rw [if_neg hRa] at hType
      simp only [hType]
      rw [← hInstr] at hRa ⊢
      exact leavesTo_emitJumpRegister hRa ..
  case jalr =>
    have hType : b.exitInstr.type = .jumpLinkReg := congrArg ControlFlowInstr.type hAnalyzed
    simp only [hType]
    rw [← hInstr]
    exact leavesTo_emitCallRegister ..
  case j =>
    have hType : b.exitInstr.type = .jump := congrArg ControlFlowInstr.type hAnalyzed
    have hTarget : b.exitInstr.target = jumpTarget b.exitInstr.address w :=
      congrArg ControlFlowInstr.target hAnalyzed
    rw [← hTarget]
    simp only [hType]
    exact leavesTo_emitJump hBuilt hType (hTarget ▸ jumpTarget_ne_zero hExit.read w) ..
  case jal =>
    have hType : b.exitInstr.type = .jumpLink := congrArg ControlFlowInstr.type hAnalyzed
    have hTarget : b.exitInstr.target = jumpTarget b.exitInstr.address w :=
      congrArg ControlFlowInstr.target hAnalyzed
    rw [← hTarget]
    simp only [hType]
    exact leavesTo_emitCall ..
  case regimm =>
    have hType : b.exitInstr.type = .branch := congrArg ControlFlowInstr.type hAnalyzed
    have hLeaves := hBranch hType
    simp only [hType] at hLeaves ⊢
    exact hLeaves
  all_goals
    have hType : b.exitInstr.type = .branch := congrArg ControlFlowInstr.type hAnalyzed
    have hLeaves := hBranch hType
    have hNoLink : isBranchAndLink w = false := by simp [isBranchAndLink, hOp]
    simp only [hType, hNoLink, Bool.false_eq_true, if_false] at hLeaves ⊢
    exact hLeaves

/-- The text of an exit: link, slot, transfer. -/
theorem leavesTo_emitExit {f : Function} {leaders : List Word} {slot : Word}
    (hBuilt : b = buildBlock ctx.img f leaders b.startAddr b.endAddr)
    (hExit : ExitInstr ctx.img b w)
    (hRead : ctx.img.readWord (b.exitInstr.address + 4#32) = some slot)
    (hLikely : b.exitInstr.isLikely = false) {s₁ s₂ : CPUState M}
    (hRun : ctx.RunsTo h (b.exitInstr.address + 4#32) slot (linked b s₁) s₂) (bc : Word)
    (rest : List CStmt) :
    LeavesTo (execBlock h s₁ bc (ctx.emitExit b ++ rest)) (exitPc ctx h b (linked b s₁) s₂)
      (linked b s₂) := by
  have hTest : ctx.branchTest b.exitInstr = none := by
    rw [branchTest, hRead, hLikely]
    rfl
  rw [emitExit, List.append_assoc, List.append_assoc, exec_linkBefore hExit,
    exec_delaySlot hRead hLikely hRun]
  exact leavesTo_emitTransfer hBuilt hExit hTest _ _ bc rest

end EmitContext

end RecompStudio.CodeGen
