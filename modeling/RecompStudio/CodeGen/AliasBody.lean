import RecompStudio.CodeGen.Paths

/-!
The shared body of an alias group. It holds every block that one of the entries
reaches, its entry switch leads to the block of the entry, and behind each of its
labels it runs like the function that is written for one entry alone, which holds
all blocks of the host.
-/

namespace RecompStudio.CodeGen

open RecompStudio.Emitted
open RecompStudio.Insn

variable {M : Type}

/-- The blocks that the entries of a group reach: by successors, by the return
points of calls and by jump tables, whose targets may lie inside a block. -/
inductive AliasGroup.Reached (out : OutputConfig) (g : AliasGroup) : Word → Prop where
  | entry {e : Word} (he : e ∈ g.entries) : Reached out g e
  | successor {b : BasicBlock} {t : Word} (hb : b ∈ (out.context (g.member g.first)).cfg.blocks)
      (hFrom : Reached out g b.startAddr) (ht : t ∈ b.successors) : Reached out g t
  | continuation {b : BasicBlock} {t : Word}
      (hb : b ∈ (out.context (g.member g.first)).cfg.blocks) (hFrom : Reached out g b.startAddr)
      (ht : t ∈ EmitContext.blockContinuations b) : Reached out g t
  | table {b b' : BasicBlock} {t : Word} (hb : b ∈ (out.context (g.member g.first)).cfg.blocks)
      (hFrom : Reached out g b.startAddr)
      (ht : t ∈ jrTableEdges out.img (out.context (g.member g.first)).cfg b)
      (hb' : b' ∈ (out.context (g.member g.first)).cfg.blocks) (hLo : b'.startAddr ≤ t)
      (hHi : t ≤ b'.endAddr) : Reached out g b'.startAddr

/-- The body holds the text of every block that is reached. -/
def AliasGroup.BodyCloses (out : OutputConfig) (g : AliasGroup) : Prop :=
  ∀ a, g.Reached out a → ∃ b ∈ (out.context (g.member g.first)).cfg.blocks, b.startAddr = a ∧
    (out.context (g.member g.first)).translateBasicBlock b <:+: (out.generateAliasGroup g).text

/-- The entry switch has a case for each entry, whose label begins the entry's own
block. -/
def AliasGroup.EntriesMapped (out : OutputConfig) (g : AliasGroup) : Prop :=
  (out.generateAliasGroup g).entries = g.entries ∧
    ∀ e ∈ g.entries, (labelsOf (out.generateAliasGroup g).text).count e = 1 ∧
      ∃ b ∈ (out.context (g.member g.first)).cfg.blocks, b.startAddr = e ∧
        ∃ text, (out.generateAliasGroup g).after e = some text ∧
          (out.context (g.member g.first)).translateBasicBlock b <+: .label e :: text

section Members

variable {out : OutputConfig} {g : AliasGroup}

/-- Ascending lists are told apart by their members. -/
theorem sortUnique_congr {l l' : List Word} (hSame : ∀ a, a ∈ l ↔ a ∈ l') :
    sortUnique l = sortUnique l' := by
  refine @List.Perm.eq_of_pairwise _ (· < ·) _ _ ?_ (pairwise_sortUnique l)
    (pairwise_sortUnique l') ?_
  · intro a b _ _ hLt hGt
    exact absurd (BitVec.lt_trans hLt hGt) (BitVec.lt_irrefl a)
  · have hNodup : ∀ l : List Word, (sortUnique l).Nodup := fun l =>
      (pairwise_sortUnique l).imp fun hLt hEq => by
        rw [hEq] at hLt
        exact BitVec.lt_irrefl _ hLt
    rw [List.perm_ext_iff_of_nodup (hNodup l) (hNodup l')]
    intro a
    rw [mem_sortUnique, mem_sortUnique, hSame]

/-- The blocks depend on a function only through its range and its leaders. -/
theorem buildBlocks_congr {img : Image} {f f' : Function} (hWalk : f.walkLo = f'.walkLo)
    (hEnd : f.endAddr = f'.endAddr) (leaders rest : List Word) :
    buildBlocks img f leaders rest = buildBlocks img f' leaders rest := by
  have hRange : ∀ a, inRange f a = inRange f' a := by
    intro a
    rw [inRange, inRange, hWalk, hEnd]
  have hBlock : ∀ start stop, buildBlock img f leaders start stop =
      buildBlock img f' leaders start stop := by
    intro start stop
    simp only [buildBlock, blockSuccessors, hRange, hWalk]
  induction rest with
  | nil => rfl
  | cons start rest ih => rw [buildBlocks, buildBlocks, hEnd, ih, hBlock]

/-- Every entry lists all entries, so their analyses cut the host alike. -/
theorem boundaries_member (hg : g.Valid) {e : Word} (he : e ∈ g.entries) :
    boundaries out.img (g.member e) = boundaries out.img (g.member g.first) := by
  have hListed : ∀ e' ∈ g.entries, ∀ a, a ∈ boundaries out.img (g.member e') ↔
      a = g.host ∨ (a ∈ g.entries ∧ inRange (g.member g.first) a = true) ∨
        ∃ addr ∈ addrRange g.host g.endAddr.toNat, a ∈ scanBoundaries out.img
          (g.member g.first) addr := by
    intro e' he' a
    have hWalk := AliasGroup.walkLo_member hg e'
    have hRange : ∀ a, inRange (g.member e') a = inRange (g.member g.first) a := by
      intro a
      rw [inRange, inRange, hWalk, AliasGroup.walkLo_member hg]
      rfl
    have hScan : ∀ addr, scanBoundaries out.img (g.member e') addr =
        scanBoundaries out.img (g.member g.first) addr := by
      intro addr
      simp only [scanBoundaries, wordBoundaries, hRange]
      rfl
    have hHost : (g.member e').aliasWalkLo ≠ 0 := hg.host_ne_zero
    have hSelf : a = e' → a ∈ g.entries ∧ inRange (g.member g.first) a = true := by
      rintro rfl
      rw [← hRange]
      exact ⟨he', (hg.members a he').start_in⟩
    rw [mem_boundaries, hWalk, hRange, and_iff_right hHost]
    simp only [hScan]
    constructor
    · rintro (hAt | (hAt | hAt) | hAt)
      · exact .inl hAt
      · exact .inr (.inl (hSelf hAt))
      · exact .inr (.inl hAt)
      · exact .inr (.inr hAt)
    · rintro (hAt | hAt | hAt)
      · exact .inl hAt
      · exact .inr (.inl (.inr hAt))
      · exact .inr (.inr hAt)
  apply sortUnique_congr
  intro a
  rw [← mem_sortUnique, ← mem_sortUnique (l := _ :: _)]
  exact (hListed e he a).trans (hListed g.first List.mem_cons_self a).symm

theorem context_member (hg : g.Valid) {e : Word} (he : e ∈ g.entries) :
    out.context (g.member e) = out.context (g.member g.first) := by
  have hCfg : analyzeFunction out.img (g.member e) =
      analyzeFunction out.img (g.member g.first) := by
    have hWalk : (g.member e).walkLo = (g.member g.first).walkLo :=
      (AliasGroup.walkLo_member hg e).trans (AliasGroup.walkLo_member hg g.first).symm
    rw [analyzeFunction, analyzeFunction, boundaries_member hg he, hWalk,
      buildBlocks_congr hWalk rfl]
    rfl
  rw [OutputConfig.context, OutputConfig.context, hCfg]

end Members

section Liveness

variable {out : OutputConfig} {g : AliasGroup} {b : BasicBlock} {a t : Word}

/-- The block that a non-zero answer names. -/
theorem containingBlock_spec {cfg : ControlFlowGraph} (hSome : containingBlock cfg t ≠ 0) :
    ∃ b ∈ cfg.blocks, b.startAddr = containingBlock cfg t ∧ b.startAddr ≤ t ∧ t ≤ b.endAddr := by
  unfold containingBlock at hSome ⊢
  split at hSome
  · exact absurd rfl hSome
  next b hLast =>
    split_ifs at hSome with hHi
    · have hMem := List.mem_of_getLast? hLast
      obtain ⟨hb, hLo⟩ := List.mem_filter.mp hMem
      exact ⟨b, hb, (if_pos hHi).symm, of_decide_eq_true hLo, hHi⟩
    · exact absurd rfl hSome

/-- What the entries reach is emitted. -/
theorem AliasGroup.Reached.leads (hg : g.Valid) (hReached : g.Reached out a) :
    ∃ b ∈ (out.context (g.member g.first)).cfg.blocks.filter (out.isLive g), b.startAddr = a := by
  have hf := hg.first
  have hEmits : Emits out (g.member g.first) _ := emits_aliasGroup hg
  -- a block that is reached is the emitted one that starts there
  have hEmitted : ∀ {b : BasicBlock}, b ∈ (out.context (g.member g.first)).cfg.blocks →
      (∃ b' ∈ (out.context (g.member g.first)).cfg.blocks.filter (out.isLive g),
        b'.startAddr = b.startAddr) →
      b ∈ (out.context (g.member g.first)).cfg.blocks.filter (out.isLive g) := by
    rintro b hb ⟨b', hb', hStart⟩
    rw [eq_of_startAddr hf hb (hEmits.sublist.subset hb') hStart.symm]
    exact hb'
  induction hReached with
  | entry he => exact entry_leads hg he
  | successor hb _ ht ih => exact hEmits.successors _ (hEmitted hb ih) _ ht
  | continuation hb _ ht ih =>
      exact hEmits.successors _ (hEmitted hb ih) _ (mem_successors_of_continuation hf hb ht)
  | table hb _ ht hb' hLo hHi ih =>
      exact ⟨_, hEmits.tables _ (hEmitted hb ih) _ ht _ hb' hLo hHi, rfl⟩

/-- Only what the entries reach is emitted. -/
theorem AliasGroup.reached_of_live (hg : g.Valid)
    (hLive : a ∈ liveBlocks out.img (out.context (g.member g.first)).cfg g.entries) :
    g.Reached out a := by
  have hf := hg.first
  refine Worklist.seen_of_closed (P := g.Reached out) ?_ (fun x hx => by cases hx)
    (fun _ _ x hx => by cases hx) ?_ a hLive
  · intro x hx
    obtain ⟨hMem, _⟩ := List.mem_filter.mp (List.mem_reverse.mp hx)
    obtain ⟨e, he, rfl⟩ := List.mem_map.mp hMem
    obtain ⟨b, hb, hStart⟩ := @entry_leads out _ hg _ he
    have hBlock := (List.mem_filter.mp hb).1
    have hContaining : containingBlock (out.context (g.member g.first)).cfg e = e := by
      rw [← hStart]
      exact containingBlock_eq hf hBlock (BitVec.le_refl _) (mem_blocks hf hBlock).2.start_le
    rw [hContaining]
    exact .entry he
  · intro x hReached y hy
    simp only [liveSearch] at hy
    cases hFind : (out.context (g.member g.first)).cfg.find x with
    | none =>
        rw [hFind] at hy
        cases hy
    | some b =>
        have hb := List.mem_of_find?_eq_some hFind
        have hStart : b.startAddr = x := by simpa using List.find?_some hFind
        rw [← hStart] at hReached
        simp only [hFind] at hy
        rcases List.mem_append.mp hy with hNext | hTable
        · exact .successor hb hReached (List.mem_filter.mp hNext).1
        · obtain ⟨hMem, hSome⟩ := List.mem_filter.mp hTable
          obtain ⟨t, ht, rfl⟩ := List.mem_map.mp hMem
          obtain ⟨b', hb', hLeads, hLo, hHi⟩ := containingBlock_spec (by simpa using hSome)
          rw [← hLeads]
          exact .table hb hReached ht hb' hLo hHi

theorem AliasGroup.isLive_iff (hg : g.Valid) :
    out.isLive g b = true ↔ g.Reached out b.startAddr := by
  constructor
  · intro hLive
    exact AliasGroup.reached_of_live hg (List.contains_iff_mem.mp hLive)
  · intro hReached
    obtain ⟨b', hb', hStart⟩ := hReached.leads hg
    have hLive := (List.mem_filter.mp hb').2
    rw [OutputConfig.isLive, hStart] at hLive
    exact hLive

end Liveness

section Passing

variable (h : Host M) (leader : Word → Bool)

/-- `psx_slice_block` is asked at the leader of a block, with the processor as it is
there; a label inside a block asks nothing. -/
def CStmt.slices (s : CPUState M) : CStmt → List (Word × CPUState M)
  | .label a => if leader a then [(a, s)] else []
  | _ => []

/-- The slice checks on the way through a text, and how it ends. -/
@[grind =]
def passText (s : CPUState M) (bc : Word) : List CStmt → List (Word × CPUState M) × Leave M
  | [] => ([], .fall s)
  | c :: rest =>
      match c.exec h s bc with
      | .on s' bc' =>
          let behind := passText s' bc' rest
          (c.slices leader s ++ behind.1, behind.2)
      | .leave l => ([], l)

/-- Two texts that run alike from every state. -/
def RunAlike (text text' : List CStmt) : Prop :=
  ∀ (s : CPUState M) (bc : Word), passText h leader s bc text = passText h leader s bc text'

/-- A text whose end is never run into. -/
def NeverFalls (text : List CStmt) : Prop :=
  ∀ rest rest', RunAlike h leader (text ++ rest) (text ++ rest')

variable {h leader} {text text' : List CStmt} {s s' : CPUState M} {bc t : Word}

theorem passText_snd : (passText h leader s bc text).2 = execBlock h s bc text := by
  induction text generalizing s bc with
  | nil => rfl
  | cons c rest ih =>
      rw [passText, execBlock]
      cases c.exec h s bc with
      | on s' bc' => exact ih
      | leave l => rfl

theorem RunAlike.cons (hAlike : RunAlike h leader text text') (c : CStmt) :
    RunAlike h leader (c :: text) (c :: text') := by
  intro s bc
  rw [passText, passText]
  cases c.exec h s bc with
  | on s' bc' => simp only [hAlike s' bc']
  | leave l => rfl

theorem RunAlike.append (hAlike : RunAlike h leader text text') (front : List CStmt) :
    RunAlike h leader (front ++ text) (front ++ text') := by
  induction front with
  | nil => exact hAlike
  | cons c front ih => exact ih.cons c

theorem NeverFalls.behind (hNever : NeverFalls h leader text) (front : List CStmt) :
    NeverFalls h leader (front ++ text) := by
  intro rest rest'
  rw [List.append_assoc, List.append_assoc]
  exact (hNever rest rest').append front

theorem NeverFalls.before (hNever : NeverFalls h leader text) (behind : List CStmt) :
    NeverFalls h leader (text ++ behind) := by
  intro rest rest'
  rw [List.append_assoc, List.append_assoc]
  exact hNever _ _

theorem neverFalls_singleton {c : CStmt}
    (hLeaves : ∀ (s : CPUState M) (bc : Word), ∃ l, c.exec h s bc = .leave l) :
    NeverFalls h leader [c] := by
  intro rest rest' s bc
  obtain ⟨l, hLeave⟩ := hLeaves s bc
  rw [List.singleton_append, List.singleton_append, passText, passText, hLeave]

/-- No statement of an instruction jumps to a label. -/
theorem execStmts_ne_goto {stmts : List Stmt} : execStmts h s stmts ≠ .goto t s' := by
  induction stmts generalizing s with
  | nil => rintro ⟨⟩
  | cons stmt rest ih =>
      have hStep : stmt.exec h s ≠ .goto t s' := by
        cases stmt <;> simp only [Stmt.exec] <;> try split_ifs
        all_goals rintro ⟨⟩
      rw [execStmts]
      split
      · exact ih
      · exact hStep

theorem ofFlow_ne_goto {stmts : List Stmt} :
    Progress.ofFlow bc (execStmts h s stmts) ≠ .leave (.goto t s') := by
  intro hGoto
  cases hRun : execStmts h s stmts with
  | goto t' u =>
      rw [hRun] at hGoto
      cases hGoto
      exact execStmts_ne_goto hRun
  | next u | ret u | trap u | undefined =>
      rw [hRun] at hGoto
      cases hGoto

theorem Transfer.mem_gotos {tr : Transfer} (hGoto : tr.exec h s = .goto t s') : t ∈ tr.gotos := by
  cases tr with
  | goto target =>
      cases hGoto
      exact List.mem_singleton_self _
  | publish e | enter entry => cases hGoto

theorem CStmt.mem_gotos {c : CStmt} (hGoto : c.exec h s bc = .leave (.goto t s')) :
    t ∈ c.gotos := by
  cases c with
  | label a | todo | fatal | saveCond e => cases hGoto
  | code stmts => exact absurd hGoto ofFlow_ne_goto
  | guarded cond stmts =>
      rw [CStmt.exec] at hGoto
      split_ifs at hGoto
      exact absurd hGoto ofFlow_ne_goto
  | branch cond taken notTaken =>
      have hLeave := Progress.leave.inj hGoto
      rw [CStmt.gotos, List.mem_append]
      split_ifs at hLeave
      · exact .inr (Transfer.mem_gotos hLeave)
      · exact .inl (Transfer.mem_gotos hLeave)
  | transfer tr => exact Transfer.mem_gotos (Progress.leave.inj hGoto)
  | callRegister target link cont => cases hGoto
  | switch r cases =>
      have hLeave := Progress.leave.inj hGoto
      split at hLeave
      next target hCase =>
        cases hLeave
        obtain ⟨entry, hFind, rfl⟩ := Option.map_eq_some_iff.mp hCase
        exact List.mem_map_of_mem (List.mem_of_find?_eq_some hFind)
      next => cases hLeave

/-- A text is left for a label that one of its statements names. -/
theorem mem_gotosOf_execBlock (hGoto : execBlock h s bc text = .goto t s') : t ∈ gotosOf text := by
  induction text generalizing s bc with
  | nil => cases hGoto
  | cons c rest ih =>
      rw [gotosOf, List.flatMap_cons, List.mem_append]
      rw [execBlock] at hGoto
      cases hStep : c.exec h s bc with
      | on s' bc' =>
          rw [hStep] at hGoto
          exact .inr (ih hGoto)
      | leave l =>
          rw [hStep] at hGoto
          rw [show l = .goto t s' from hGoto] at hStep
          exact .inl (CStmt.mem_gotos hStep)

end Passing

section Leaving

variable {h : Host M} {leader : Word → Bool} {ctx : EmitContext} {b : BasicBlock} {w : Word}

/-- A control transfer hands over control whatever the registers hold. -/
theorem neverFalls_emitTransfer (hExit : ExitInstr ctx.img b w) :
    NeverFalls h leader (ctx.emitTransfer b) := by
  have hTransfer : ∀ tr : Transfer, NeverFalls h leader [CStmt.transfer tr] :=
    fun _ => neverFalls_singleton fun _ _ => ⟨_, rfl⟩
  unfold EmitContext.emitTransfer
  cases hType : b.exitInstr.type with
  | none =>
      have hSome := (analyzeInstruction_hasDelaySlot b.exitInstr.address hExit.transfers).2
      rw [← hExit.analyzed] at hSome
      exact absurd hType hSome
  | branch =>
      have hBranch : ∀ test taken notTaken,
          NeverFalls h leader [CStmt.branch test taken notTaken] :=
        fun _ _ _ => neverFalls_singleton fun _ _ => ⟨_, rfl⟩
      simp only [EmitContext.emitBranch]
      split
      · exact (hBranch _ _ _).behind _
      · exact (hBranch _ _ _).behind _
  | jump =>
      have hTarget : b.exitInstr.target ≠ 0 := by
        rw [hExit.analyzed] at hType ⊢
        unfold analyzeInstruction at hType ⊢
        cases hOp : Op.ofWord w <;> simp only [hOp, reduceCtorEq] at hType ⊢
        case j => exact jumpTarget_ne_zero hExit.read w
        case jr => split_ifs at hType
      simp only [EmitContext.emitJump]
      split
      · exact hTransfer _
      · rw [if_neg hTarget]
        exact hTransfer _
  | jumpRegister =>
      simp only [EmitContext.emitJumpRegister]
      split
      · exact hTransfer _
      · exact neverFalls_singleton fun _ _ => ⟨_, rfl⟩
  | jumpLink => exact (hTransfer _).behind [_]
  | jumpLinkReg => exact neverFalls_singleton fun _ _ => ⟨_, rfl⟩
  | «return» => exact hTransfer _

/-- A body that comes to the exit of its block ends there. -/
theorem neverFalls_emitBody (hExit : ExitInstr ctx.img b w)
    (hAt : EmitContext.exitBranchAddr b = b.exitInstr.address)
    (hSlot : (EmitContext.slotInBlock b && b.exitInstr.address == b.endAddr) = false)
    {before : List Word} (hBefore : ∀ a ∈ before, (ctx.img.readWord a).isSome = true ∧
      (EmitContext.slotInBlock b && a == b.endAddr) = false) (behind : List Word) :
    NeverFalls h leader (ctx.emitBody b (before ++ b.exitInstr.address :: behind)) := by
  induction before with
  | nil =>
      rw [List.nil_append, EmitContext.emitBody, hExit.read]
      simp only [hSlot, Bool.false_eq_true, if_false, hExit.transfers, if_true, hAt]
      rw [EmitContext.emitExit]
      exact (((neverFalls_emitTransfer hExit).behind _).behind _).before _
  | cons addr before ih =>
      obtain ⟨⟨hSome, hOther⟩, hRest⟩ := List.forall_mem_cons.mp hBefore
      obtain ⟨v, hRead⟩ := Option.isSome_iff_exists.mp hSome
      rw [List.cons_append, EmitContext.emitBody, hRead]
      simp only [hOther, Bool.false_eq_true, if_false]
      exact (ih hRest).behind _

end Leaving

variable {out : OutputConfig} {f : Function} {b : BasicBlock} {t : Word} {h : Host M}
  {leader : Word → Bool} {live : BasicBlock → Bool} {tail tail' : List CStmt}

/-- A block that transfers control is not run out of, from none of its labels. -/
theorem neverFalls_block (hf : f.Valid) (hLoad : out.img.loadAddress ≤ f.walkLo)
    (hb : b ∈ (out.context f).cfg.blocks) (hType : b.exitInstr.type ≠ .none)
    (hLo : b.startAddr ≤ t) (hHi : t ≤ b.endAddr) (hAligned : Aligned t)
    (hSlot : (EmitContext.slotInBlock b && t == b.endAddr) = false) :
    NeverFalls h leader
      ((out.context f).emitBody b (addrRange t (b.endAddr.toNat + 1))) := by
  have hExtent := (mem_blocks hf hb).2
  obtain ⟨w, hExit⟩ := exitInstr_of_mem_blocks hf hb hType
  have hWhere := EmitContext.exit_toNat hExtent hExit
  have hInBlock := EmitContext.slotInBlock_eq hExtent hExit
  have hEnd := hExtent.end_lt
  have hEndAligned := hExtent.end_aligned
  have hBound := f.endAddr.isLt
  have hWalk := (of_decide_eq_true (boundaries_spec hf hExtent.leader).1).1
  unfold Aligned at hAligned hEndAligned
  rw [BitVec.le_def] at hLo hHi hWalk hLoad
  have hBefore : t.toNat ≤ b.exitInstr.address.toNat := by
    rcases hWhere with hAt | ⟨hAt, _⟩
    · omega
    · have hNe : b.exitInstr.address ≠ b.endAddr := by
        rintro hSame
        rw [hSame] at hAt
        omega
      rw [hInBlock, decide_eq_true hNe, Bool.true_and, beq_eq_false_iff_ne, ne_eq,
        ← BitVec.toNat_inj] at hSlot
      omega
  have hCons := @addrRange_cons b.exitInstr.address (b.endAddr.toNat + 1)
    (by omega) (by omega)
  rw [addrRange_split hBefore (by omega) (by omega), hCons]
  refine neverFalls_emitBody hExit (EmitContext.exitBranchAddr_eq hExtent hExit) ?_ ?_ _
  · by_cases hSame : b.exitInstr.address = b.endAddr <;> simp [hInBlock, hSame]
  · intro a ha
    obtain ⟨i, hi, hLt, _⟩ := mem_addrRange b.exitInstr.address.isLt.le ha
    have hNe : a ≠ b.endAddr := by
      rintro rfl
      omega
    have hLow : out.img.loadAddress ≤ a := by
      rw [BitVec.le_def]
      omega
    exact ⟨Image.readWord_isSome hLow (BitVec.le_def.mpr hLt.le) hExit.read, by simp [hNe]⟩

/-- From a label on, the text runs alike whether the blocks that are not emitted stand in
between or not. -/
theorem runAlike_block (hf : f.Valid) (hLoad : out.img.loadAddress ≤ f.walkLo)
    (hEmits : Emits out f ((out.context f).cfg.blocks.filter live))
    (hTails : out.known f.endAddr = false → tail = tail') {pre post : List BasicBlock}
    (hBlocks : (out.context f).cfg.blocks = pre ++ b :: post) (hLive : live b = true)
    (hLo : b.startAddr ≤ t) (hHi : t ≤ b.endAddr) (hAligned : Aligned t)
    (hSlot : (EmitContext.slotInBlock b && t == b.endAddr) = false) :
    RunAlike h leader ((out.context f).blockText b (post.filter live) tail t)
      ((out.context f).blockText b post tail' t) := by
  induction post generalizing pre b t with
  | nil =>
      have hb : b ∈ (out.context f).cfg.blocks := by simp [hBlocks]
      by_cases hType : b.exitInstr.type = .none
      · have hEnd : b.endAddr + 4#32 = f.endAddr := next_block hf hBlocks
        apply RunAlike.append
        cases hKnown : out.known f.endAddr with
        | false =>
            rw [hTails hKnown]
            exact fun s bc => rfl
        | true =>
            have hEnter : (out.context f).emitFallthrough b = [.transfer (.enter f.endAddr)] := by
              rw [EmitContext.emitFallthrough, hEnd]
              exact if_pos ⟨hType, successors_last (mem_blocks hf hb).1 hType hEnd, hKnown⟩
            rw [hEnter]
            exact neverFalls_singleton (fun _ _ => ⟨_, rfl⟩) _ _
      · exact neverFalls_block hf hLoad hb hType hLo hHi hAligned hSlot _ _
  | cons next post ih =>
      have hb : b ∈ (out.context f).cfg.blocks := by simp [hBlocks]
      by_cases hType : b.exitInstr.type = .none
      · have hNextBlock : next ∈ (out.context f).cfg.blocks := by simp [hBlocks]
        have hEnd : b.endAddr + 4#32 = next.startAddr := next_block hf hBlocks
        have hSome := successors_next hf (mem_blocks hf hb).1 hNextBlock hType hEnd
        have hNextLive : live next = true := by
          obtain ⟨b', hb', hStart⟩ := hEmits.successors b (List.mem_filter.mpr ⟨hb, hLive⟩)
            next.startAddr (by rw [hSome]; exact List.mem_singleton_self _)
          obtain ⟨hMem, hLive'⟩ := List.mem_filter.mp hb'
          rw [eq_of_startAddr hf hNextBlock hMem hStart.symm]
          exact hLive'
        have hExtent := (mem_blocks hf hNextBlock).2
        have hSplit : (out.context f).cfg.blocks = (pre ++ [b]) ++ next :: post := by
          simp [hBlocks]
        have hRest := ih hSplit hNextLive (BitVec.le_refl _) hExtent.start_le
          hExtent.start_aligned (not_slot_start hf hNextBlock)
        apply RunAlike.append
        apply RunAlike.append
        rw [List.filter_cons_of_pos hNextLive, List.flatMap_cons, List.flatMap_cons,
          EmitContext.translateBasicBlock]
        simp only [List.append_assoc, List.cons_append]
        exact hRest.cons _
      · exact neverFalls_block hf hLoad hb hType hLo hHi hAligned hSlot _ _

end RecompStudio.CodeGen
