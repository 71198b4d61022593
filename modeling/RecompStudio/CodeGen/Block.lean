import RecompStudio.CodeGen.JumpTable
import RecompStudio.CodeGen.Translate

/-!
The C text of a basic block in continuation-passing mode, and how it runs.
Cycle charging, interrupt checks and debug hooks are left out.
-/

namespace RecompStudio.CodeGen

open RecompStudio.Emitted
open RecompStudio.Insn

/-- How a block's text hands over control. -/
inductive Transfer where
  /-- `goto block_X;` -/
  | goto (target : Word)
  /-- `cpu->pc = e; return;` -/
  | publish (e : Expr)
  /-- `func_X(cpu); return;` -/
  | enter (entry : Word)
deriving DecidableEq, Repr

/-- The statements of a block's text. A condition that was saved before the
delay slot is the `none` of `branch`. -/
inductive CStmt where
  | label (addr : Word)
  | code (stmts : List Stmt)
  | todo
  | fatal
  | saveCond (e : Expr)
  | guarded (cond : Expr) (stmts : List Stmt)
  | branch (cond : Option Expr) (taken notTaken : Transfer)
  | transfer (t : Transfer)
  /-- `{ uint32_t _t = gpr[rs]; gpr[rd] = cont; cpu->pc = _t; return; }` -/
  | callRegister (target : RegIndex) (link : Option RegIndex) (cont : Word)
  /-- `switch (gpr[r])` over the table cases, by default `cpu->pc = gpr[r]; return;` -/
  | switch (r : RegIndex) (cases : List (Word × Word))
deriving DecidableEq, Repr

/-- How a run of a block's text ends. -/
inductive Leave (M : Type) where
  | fall (s : CPUState M)
  | goto (target : Word) (s : CPUState M)
  | ret (s : CPUState M)
  | enter (entry : Word) (s : CPUState M)
  | trap (t : Trap)
  | undefined

/-- What one statement does: go on behind it, or leave the text. -/
inductive Progress (M : Type) where
  | on (s : CPUState M) (bc : Word)
  | leave (l : Leave M)

section Exec

variable {M : Type} (h : Host M)

@[grind =] def Transfer.exec (s : CPUState M) : Transfer → Leave M
  | .goto target => .goto target s
  | .publish e => .ret { s with pc := e.eval h s }
  | .enter entry => .enter entry s

/-- The case of a table switch that a register value selects. -/
def switchCase (cases : List (Word × Word)) (v : Word) : Option Word :=
  (cases.find? fun c => c.1 == v).map Prod.snd

@[grind =] def Progress.ofFlow (bc : Word) : Flow M → Progress M
  | .next s => .on s bc
  | .goto target s => .leave (.goto target s)
  | .ret s => .leave (.ret s)
  | .trap t => .leave (.trap t)
  | .undefined => .leave .undefined

/-- One statement; `bc` is the saved branch condition. -/
@[grind =] def CStmt.exec (s : CPUState M) (bc : Word) : CStmt → Progress M
  | .label _ | .todo | .fatal => .on s bc
  | .code stmts => .ofFlow bc (execStmts h s stmts)
  | .saveCond e => .on s (e.eval h s)
  | .guarded cond stmts =>
      if cond.eval h s = 0 then .on s bc else .ofFlow bc (execStmts h s stmts)
  | .branch cond taken notTaken =>
      .leave (if (cond.elim bc fun e => e.eval h s) = 0 then notTaken.exec h s else taken.exec h s)
  | .transfer t => .leave (t.exec h s)
  | .callRegister target link cont => .leave (.ret { setDst s link cont with pc := s.gpr target })
  | .switch r cases =>
      .leave (match switchCase cases (s.gpr r) with
        | some target => .goto target s
        | none => .ret { s with pc := s.gpr r })

/-- Runs a text to its end or to the statement that leaves it. -/
def execBlock (s : CPUState M) (bc : Word) : List CStmt → Leave M
  | [] => .fall s
  | c :: rest =>
      match c.exec h s bc with
      | .on s' bc' => execBlock s' bc' rest
      | .leave l => l

variable {h} {s s' : CPUState M} {bc bc' : Word} {c : CStmt}

theorem execBlock_on (hStep : c.exec h s bc = .on s' bc') (rest : List CStmt) :
    execBlock h s bc (c :: rest) = execBlock h s' bc' rest := by
  change (match c.exec h s bc with
    | .on s' bc' => execBlock h s' bc' rest
    | .leave l => l) = _
  rw [hStep]

theorem execBlock_leave {l : Leave M} (hStep : c.exec h s bc = .leave l) (rest : List CStmt) :
    execBlock h s bc (c :: rest) = l := by
  change (match c.exec h s bc with
    | .on s' bc' => execBlock h s' bc' rest
    | .leave l => l) = _
  rw [hStep]

@[simp] theorem execBlock_label (addr : Word) (rest : List CStmt) :
    execBlock h s bc (.label addr :: rest) = execBlock h s bc rest := rfl

theorem execBlock_code {stmts : List Stmt} (hRun : execStmts h s stmts = .next s')
    (rest : List CStmt) :
    execBlock h s bc (.code stmts :: rest) = execBlock h s' bc rest := by
  have hFlow : (CStmt.code stmts).exec h s bc = .on s' bc := by
    change Progress.ofFlow bc (execStmts h s stmts) = _
    rw [hRun]
    rfl
  exact execBlock_on hFlow rest

@[simp] theorem execBlock_saveCond (e : Expr) (rest : List CStmt) :
    execBlock h s bc (.saveCond e :: rest) = execBlock h s (e.eval h s) rest := rfl

end Exec

/-- What the emission of a block reads besides the block itself. -/
structure EmitContext where
  img : Image
  sites : SiteConfig
  known : Word → Bool
  cfg : ControlFlowGraph
  extra : List Word

namespace EmitContext

variable (ctx : EmitContext)

/-- A translated word, as text. -/
@[grind =] def emitWord (addr w : Word) : CStmt :=
  match translateInstruction ctx.sites addr w with
  | .code stmts => .code stmts
  | .todo => .todo
  | .fatal => .fatal

/-- `bltzal` and `bgezal`. -/
def isBranchAndLink (w : Word) : Bool :=
  Op.ofWord w == .regimm && (rt w == 0x10 || rt w == 0x11)

def linkStmt (r : RegIndex) (addr : Word) : CStmt := .code [.setGpr r (.lit (addr + 8#32))]

/-- The link writes in front of the delay slot. -/
def linkBefore (cf : ControlFlowInstr) : List CStmt :=
  match cf.type with
  | .jumpLink => [linkStmt 31 cf.address]
  | .jumpLinkReg => if rd cf.instruction = 0 then [] else [linkStmt (rd cf.instruction) cf.address]
  | .branch => if isBranchAndLink cf.instruction then [linkStmt 31 cf.address] else []
  | _ => []

def branchCond (cf : ControlFlowInstr) : Expr :=
  generateBranchCondition ctx.sites cf.instruction cf.address

/-- The delay slot in front of the transfer. -/
def delaySlot (cf : ControlFlowInstr) : List CStmt :=
  match ctx.img.readWord (cf.address + 4#32) with
  | none => []
  | some w =>
      if cf.isLikely then
        match translateInstruction ctx.sites (cf.address + 4#32) w with
        | .code stmts => [.guarded (ctx.branchCond cf) stmts]
        | .todo => [.todo]
        | .fatal => [.fatal]
      else
        (if cf.type = .branch then [.saveCond (ctx.branchCond cf)] else []) ++
          [ctx.emitWord (cf.address + 4#32) w]

/-- The condition is taken from the saved one where there is one. -/
def branchTest (cf : ControlFlowInstr) : Option Expr :=
  if (ctx.img.readWord (cf.address + 4#32)).isSome && !cf.isLikely then none
  else some (ctx.branchCond cf)

/-- A target is reached by `goto` inside the function, else it is published. -/
def reach (target : Word) : Transfer :=
  if ctx.cfg.hasBlock target then .goto target else .publish (.lit target)

def emitBranch (b : BasicBlock) : List CStmt :=
  let cf := b.exitInstr
  let link := if isBranchAndLink cf.instruction then [linkStmt 31 cf.address] else []
  match b.successors with
  | [taken, notTaken] => link ++ [.branch (ctx.branchTest cf) (.goto taken) (.goto notTaken)]
  | _ =>
      link ++ [.branch (ctx.branchTest cf) (ctx.reach cf.target) (ctx.reach (cf.address + 8#32))]

def emitJump (b : BasicBlock) : List CStmt :=
  match b.successors with
  | target :: _ => [.transfer (.goto target)]
  | [] =>
      if b.exitInstr.target = 0 then [] else [.transfer (.publish (.lit b.exitInstr.target))]

def emitJumpRegister (b : BasicBlock) : List CStmt :=
  let r := rs b.exitInstr.instruction
  match switchTargets ctx.cfg ctx.extra [] (jrEntries ctx.img ctx.cfg b) with
  | [] => [.transfer (.publish (.gpr r))]
  | cases => [.switch r cases]

def emitCall (b : BasicBlock) : List CStmt :=
  [linkStmt 31 b.exitInstr.address, .transfer (.publish (.lit b.exitInstr.target))]

def emitCallRegister (b : BasicBlock) : List CStmt :=
  let w := b.exitInstr.instruction
  [.callRegister (rs w) (if rd w = 0 then none else some (rd w)) (b.exitInstr.address + 8#32)]

/-- The transfer after the delay slot. A return that restores a saved context
leaves through the escape of the exception handler when there is one; it
publishes the same address. -/
def emitTransfer (b : BasicBlock) : List CStmt :=
  match b.exitInstr.type with
  | .branch => ctx.emitBranch b
  | .jump => emitJump b
  | .return => [.transfer (.publish (.gpr 31))]
  | .jumpRegister => ctx.emitJumpRegister b
  | .jumpLink => emitCall b
  | .jumpLinkReg => emitCallRegister b
  | .none => []

/-- Everything that the exit instruction of a block expands to. -/
@[grind =] def emitExit (b : BasicBlock) : List CStmt :=
  linkBefore b.exitInstr ++ ctx.delaySlot b.exitInstr ++ ctx.emitTransfer b

/-- The delay slot of the exit lies inside the block. -/
def slotInBlock (b : BasicBlock) : Bool :=
  b.exitInstr.hasDelaySlot && b.exitInstr.type != .none && b.exitInstr.address < b.endAddr

def exitBranchAddr (b : BasicBlock) : Word :=
  if slotInBlock b then b.endAddr - 4#32 else b.endAddr

/-- The instructions of a block. The delay slot inside the block is skipped
before its label would be written; other control transfers than the exit leave
nothing. -/
@[grind =] def emitBody (b : BasicBlock) : List Word → List CStmt
  | [] => []
  | addr :: rest =>
      match ctx.img.readWord addr with
      | none => []
      | some w =>
          if slotInBlock b && addr == b.endAddr then []
          else
            (if addr ≠ b.startAddr ∧ ctx.extra.contains addr then [.label addr] else []) ++
              (if isControlFlow w then
                if addr = exitBranchAddr b then ctx.emitExit b else []
              else [ctx.emitWord addr w]) ++
              emitBody b rest

/-- The end of a block without control transfer. -/
@[grind =] def emitFallthrough (b : BasicBlock) : List CStmt :=
  if b.exitInstr.type = .none ∧ b.successors = [] ∧ ctx.known (b.endAddr + 4#32) then
    [.transfer (.enter (b.endAddr + 4#32))]
  else []

/-- `translate_basic_block`. -/
@[grind =] def translateBasicBlock (b : BasicBlock) : List CStmt :=
  .label b.startAddr ::
    (ctx.emitBody b (addrRange b.startAddr (b.endAddr.toNat + 1)) ++ ctx.emitFallthrough b)

/-- The continuation that a call at the end of a block registers. -/
def blockContinuations (b : BasicBlock) : List Word :=
  match b.exitInstr.type with
  | .jumpLink | .jumpLinkReg =>
      if b.successors = [] then [] else [b.exitInstr.address + 8#32]
  | _ => []

/-- The addresses of a block before its exit instruction. -/
def bodyAddrs (b : BasicBlock) : List Word := addrRange b.startAddr b.exitInstr.address.toNat

variable {img : Image} {f : Function} {b : BasicBlock} {w : Word}

theorem exit_toNat (hExtent : BlockExtent f (boundaries img f) b) (hExit : ExitInstr img b w) :
    b.exitInstr.address.toNat = b.endAddr.toNat ∨
      (b.exitInstr.address.toNat + 4 = b.endAddr.toNat ∧
        b.startAddr.toNat ≤ b.exitInstr.address.toNat) := by
  have hStart := hExtent.start_aligned
  have hEnd := hExtent.end_aligned
  unfold Aligned at hStart hEnd
  rcases hExit.position with hAt | ⟨hAt, hLt⟩
  · exact .inl (congrArg BitVec.toNat hAt)
  · rw [BitVec.lt_def] at hLt
    rw [hAt, sub_four_toNat (by omega)]
    omega

/-- The slot lies inside the block exactly when the exit is not its last word. -/
theorem slotInBlock_eq (hExtent : BlockExtent f (boundaries img f) b) (hExit : ExitInstr img b w) :
    slotInBlock b = decide (b.exitInstr.address ≠ b.endAddr) := by
  obtain ⟨hSlot, hType⟩ := analyzeInstruction_hasDelaySlot b.exitInstr.address
    hExit.transfers
  rw [← hExit.analyzed] at hSlot hType
  have hType' : (b.exitInstr.type != .none) = true := by simpa using hType
  rw [slotInBlock, hSlot, hType', Bool.true_and, Bool.true_and]
  refine decide_eq_decide.mpr ?_
  rw [BitVec.lt_def, ne_eq, ← BitVec.toNat_inj]
  have := exit_toNat hExtent hExit
  omega

theorem exitBranchAddr_eq (hExtent : BlockExtent f (boundaries img f) b)
    (hExit : ExitInstr img b w) : exitBranchAddr b = b.exitInstr.address := by
  rw [exitBranchAddr, slotInBlock_eq hExtent hExit]
  by_cases hAt : b.exitInstr.address = b.endAddr
  · simp [hAt]
  · rw [if_pos (by simpa using hAt)]
    exact ((hExit.position.resolve_left hAt).1).symm

/-- The words of a block: the body, the exit, and the slot if it is inside. -/
theorem block_addrs (hExtent : BlockExtent f (boundaries img f) b) (hExit : ExitInstr img b w) :
    ∃ tail, addrRange b.startAddr (b.endAddr.toNat + 1) =
      bodyAddrs b ++ b.exitInstr.address :: tail := by
  have hStart := hExtent.start_aligned
  have hEnd := hExtent.end_aligned
  unfold Aligned at hStart hEnd
  have hLe := hExtent.start_le
  have hBound := b.endAddr.isLt
  have hLast : ∀ a : Word, b.startAddr.toNat ≤ a.toNat → a.toNat % 4 = 0 →
      addrRange b.startAddr (a.toNat + 1) = addrRange b.startAddr a.toNat ++ [a] := by
    intro a hGe hMod
    obtain ⟨n, hn⟩ : ∃ n, a.toNat = b.startAddr.toNat + 4 * n :=
      ⟨(a.toNat - b.startAddr.toNat) / 4, by omega⟩
    have hAddr : b.startAddr + BitVec.ofNat 32 (4 * n) = a := by
      apply BitVec.eq_of_toNat_eq
      rw [BitVec.toNat_add, BitVec.toNat_ofNat]
      have := a.isLt
      omega
    rw [hn, addrRange_succ, hAddr]
  rcases exit_toNat hExtent hExit with hAt | ⟨hAt, hGe⟩
  · refine ⟨[], ?_⟩
    rw [BitVec.toNat_inj] at hAt
    rw [hLast b.endAddr hLe hEnd, bodyAddrs, hAt]
  · refine ⟨[b.endAddr], ?_⟩
    have hSame : addrRange b.startAddr b.endAddr.toNat =
        addrRange b.startAddr (b.exitInstr.address.toNat + 1) := by
      unfold addrRange
      congr 2
      omega
    rw [hLast b.endAddr hLe hEnd, hSame, hLast b.exitInstr.address hGe (by omega), bodyAddrs,
      List.append_assoc]
    rfl

theorem bodyAddrs_ne_end (hExtent : BlockExtent f (boundaries img f) b)
    (hExit : ExitInstr img b w) {a : Word} (ha : a ∈ bodyAddrs b) : a ≠ b.endAddr := by
  obtain ⟨i, _, hLt, _⟩ := mem_addrRange b.exitInstr.address.isLt.le ha
  have hExitAt := exit_toNat hExtent hExit
  rintro rfl
  omega

end EmitContext

end RecompStudio.CodeGen
