import RecompStudio.CodeGen.FunctionText

/-!
Labels and jumps of the emitted functions. Every jump but those of the jump
tables finds its label by construction; a table entry finds one unless it names
a word that is not written out as an instruction of its block.
-/

namespace RecompStudio.CodeGen

open RecompStudio.Insn

/-- The labels that the statements of a text jump to. -/
@[grind =] def gotosOf (text : List CStmt) : List Word := text.flatMap CStmt.gotos

/-- Every jump of a C function has exactly one label. -/
def FunctionText.WellLabelled (ft : FunctionText) : Prop :=
  ∀ t ∈ ft.gotos, (labelsOf ft.text).count t = 1

/-- Every registered continuation has its case in the switch of its owner. -/
def RecordsServed (fts : List FunctionText) : Prop :=
  ∀ c owner, continuationOwner fts c = some owner →
    ∃ ft ∈ fts, ft.owner = owner ∧ c ∈ ft.continuations

/-- The addresses of a block that are written out one by one: up to the first
word outside the image, without the delay slot that moves into the exit. -/
@[grind =] def writtenFrom (img : Image) (b : BasicBlock) : List Word → List Word
  | [] => []
  | addr :: rest =>
      if (img.readWord addr).isNone || (EmitContext.slotInBlock b && addr == b.endAddr) then []
      else addr :: writtenFrom img b rest

def writtenAddrs (img : Image) (b : BasicBlock) : List Word :=
  writtenFrom img b (addrRange b.startAddr (b.endAddr.toNat + 1))

/-- A table entry points at a leader or at a word that is written out. -/
def Placed (img : Image) (cfg : ControlFlowGraph) (target : Word) : Prop :=
  ∃ b ∈ cfg.blocks, target = b.startAddr ∨ target ∈ writtenAddrs img b

/-- All entries of the jump tables of some blocks, as far as they lie in the
function. -/
def TablesPlaced (img : Image) (cfg : ControlFlowGraph) (blocks : List BasicBlock) : Prop :=
  ∀ b ∈ blocks, b.exitInstr.address ∈ writtenAddrs img b →
    ∀ target ∈ jrTableEdges img cfg b, Placed img cfg target

section Texts

variable {ctx : EmitContext} {b : BasicBlock}

@[simp] theorem labelsOf_append (l l' : List CStmt) :
    labelsOf (l ++ l') = labelsOf l ++ labelsOf l' := List.filterMap_append

@[simp] theorem labelsOf_nil : labelsOf [] = [] := rfl

@[simp] theorem labelsOf_label (a : Word) (l : List CStmt) :
    labelsOf (.label a :: l) = a :: labelsOf l := rfl

theorem labelsOf_flatMap {α : Type} (f : α → List CStmt) (l : List α) :
    labelsOf (l.flatMap f) = l.flatMap fun x => labelsOf (f x) := by
  induction l with
  | nil => rfl
  | cons x l ih => rw [List.flatMap_cons, labelsOf_append, ih, List.flatMap_cons]

@[simp] theorem gotosOf_append (l l' : List CStmt) :
    gotosOf (l ++ l') = gotosOf l ++ gotosOf l' := List.flatMap_append

@[simp] theorem gotosOf_nil : gotosOf [] = [] := rfl

@[simp] theorem gotosOf_label (a : Word) (l : List CStmt) :
    gotosOf (.label a :: l) = gotosOf l := rfl

@[simp] theorem labelsOf_emitWord (addr w : Word) (l : List CStmt) :
    labelsOf (ctx.emitWord addr w :: l) = labelsOf l := by
  unfold EmitContext.emitWord
  split <;> rfl

@[simp] theorem gotosOf_emitWord (addr w : Word) (l : List CStmt) :
    gotosOf (ctx.emitWord addr w :: l) = gotosOf l := by
  unfold EmitContext.emitWord
  split <;> rfl

@[simp] theorem linkBefore_plain (cf : ControlFlowInstr) :
    labelsOf (EmitContext.linkBefore cf) = [] ∧ gotosOf (EmitContext.linkBefore cf) = [] := by
  unfold EmitContext.linkBefore
  split <;> try split_ifs
  all_goals exact ⟨rfl, rfl⟩

@[simp] theorem delaySlot_plain (cf : ControlFlowInstr) :
    labelsOf (ctx.delaySlot cf) = [] ∧ gotosOf (ctx.delaySlot cf) = [] := by
  unfold EmitContext.delaySlot
  split
  · exact ⟨rfl, rfl⟩
  · split_ifs
    · split <;> exact ⟨rfl, rfl⟩
    · exact ⟨labelsOf_emitWord .., gotosOf_emitWord ..⟩
    · exact ⟨labelsOf_emitWord .., gotosOf_emitWord ..⟩

theorem labelsOf_emitTransfer (b : BasicBlock) : labelsOf (ctx.emitTransfer b) = [] := by
  unfold EmitContext.emitTransfer
  split
  case h_1 =>
    unfold EmitContext.emitBranch
    simp only
    split <;> split_ifs <;> rfl
  case h_2 =>
    unfold EmitContext.emitJump
    split <;> try split_ifs
    all_goals rfl
  case h_4 =>
    unfold EmitContext.emitJumpRegister
    simp only
    split <;> rfl
  all_goals rfl

theorem labelsOf_emitExit (b : BasicBlock) : labelsOf (ctx.emitExit b) = [] := by
  rw [EmitContext.emitExit, labelsOf_append, labelsOf_append, (linkBefore_plain _).1,
    (delaySlot_plain _).1, labelsOf_emitTransfer]
  rfl

theorem gotosOf_emitExit (b : BasicBlock) :
    gotosOf (ctx.emitExit b) = gotosOf (ctx.emitTransfer b) := by
  rw [EmitContext.emitExit, gotosOf_append, gotosOf_append, (linkBefore_plain _).2,
    (delaySlot_plain _).2]
  rfl

theorem labelsOf_emitBody (addrs : List Word) :
    labelsOf (ctx.emitBody b addrs) =
      (writtenFrom ctx.img b addrs).filter fun a => a ≠ b.startAddr ∧ ctx.extra.contains a := by
  induction addrs with
  | nil => rfl
  | cons addr rest ih =>
      rw [EmitContext.emitBody, writtenFrom]
      cases hRead : ctx.img.readWord addr with
      | none => rfl
      | some w =>
          simp only [Option.isNone_some, Bool.false_or]
          split_ifs
          all_goals simp_all [labelsOf_emitExit]

/-- The transfer that a block writes out at an address. -/
def IsExitAt (img : Image) (b : BasicBlock) (a : Word) : Prop :=
  a = EmitContext.exitBranchAddr b ∧ ∃ w, img.readWord a = some w ∧ isControlFlow w = true

/-- The jumps of a block are those of its exit, if that is written out. -/
theorem mem_gotosOf_emitBody {addrs : List Word} {t : Word} :
    t ∈ gotosOf (ctx.emitBody b addrs) ↔
      (∃ a ∈ writtenFrom ctx.img b addrs, IsExitAt ctx.img b a) ∧
        t ∈ gotosOf (ctx.emitTransfer b) := by
  induction addrs with
  | nil => simp [EmitContext.emitBody, writtenFrom]
  | cons addr rest ih =>
      rw [EmitContext.emitBody, writtenFrom]
      cases hRead : ctx.img.readWord addr with
      | none => simp
      | some w =>
          simp only [Option.isNone_some, Bool.false_or]
          by_cases hSkipped : (EmitContext.slotInBlock b && addr == b.endAddr) = true
          · simp [hSkipped]
          · have hHead : t ∈ gotosOf (if isControlFlow w then
                if addr = EmitContext.exitBranchAddr b then ctx.emitExit b else []
                else [ctx.emitWord addr w]) ↔
                IsExitAt ctx.img b addr ∧ t ∈ gotosOf (ctx.emitTransfer b) := by
              unfold IsExitAt
              split_ifs with hFlow hAt
              · rw [gotosOf_emitExit]
                exact (and_iff_right ⟨hAt, w, hRead, hFlow⟩).symm
              · simp [hAt]
              · simp [hRead, hFlow]
            have hLabel : gotosOf (if addr ≠ b.startAddr ∧ ctx.extra.contains addr then
                [CStmt.label addr] else []) = [] := by
              split_ifs <;> rfl
            rw [if_neg hSkipped, if_neg hSkipped, gotosOf_append, gotosOf_append, hLabel,
              List.nil_append, List.mem_append, hHead, ih, ← or_and_right]
            simp only [List.mem_cons, exists_eq_or_imp]

theorem emitFallthrough_plain (b : BasicBlock) :
    labelsOf (ctx.emitFallthrough b) = [] ∧ gotosOf (ctx.emitFallthrough b) = [] := by
  unfold EmitContext.emitFallthrough
  split_ifs <;> exact ⟨rfl, rfl⟩

theorem labelsOf_translateBasicBlock (b : BasicBlock) :
    labelsOf (ctx.translateBasicBlock b) =
      b.startAddr :: (writtenAddrs ctx.img b).filter
        fun a => a ≠ b.startAddr ∧ ctx.extra.contains a := by
  rw [EmitContext.translateBasicBlock, labelsOf_label, labelsOf_append, labelsOf_emitBody,
    (emitFallthrough_plain b).1, List.append_nil]
  rfl

theorem mem_gotosOf_translateBasicBlock {t : Word} :
    t ∈ gotosOf (ctx.translateBasicBlock b) ↔
      (∃ a ∈ writtenAddrs ctx.img b, IsExitAt ctx.img b a) ∧
        t ∈ gotosOf (ctx.emitTransfer b) := by
  rw [EmitContext.translateBasicBlock, gotosOf_label, gotosOf_append, (emitFallthrough_plain b).2,
    List.append_nil]
  exact mem_gotosOf_emitBody

end Texts

section Switches

variable {cfg : ControlFlowGraph} {extra : List Word}

/-- The switch has a case for each table entry that has a block or a label. -/
theorem mem_switchTargets {seen : List Word} {entries : List (Word × Word)} {t : Word} :
    t ∈ (switchTargets cfg extra seen entries).map Prod.snd ↔
      t ∈ entries.map Prod.snd ∧ t ∉ seen ∧ (cfg.hasBlock t || extra.contains t) = true := by
  induction entries generalizing seen with
  | nil => simp [switchTargets]
  | cons entry rest ih =>
      obtain ⟨runtime, rom⟩ := entry
      rw [switchTargets]
      split_ifs with hSeen hCase
      · rw [ih, List.map_cons, List.mem_cons]
        have hNot : rom ∈ seen := by simpa using hSeen
        constructor
        · rintro ⟨hMem, hRest⟩
          exact ⟨.inr hMem, hRest⟩
        · rintro ⟨rfl | hMem, hUnseen, hTarget⟩
          · exact absurd hNot hUnseen
          · exact ⟨hMem, hUnseen, hTarget⟩
      · rw [List.map_cons, List.mem_cons, ih, List.map_cons, List.mem_cons, List.mem_cons, not_or]
        have hNot : rom ∉ seen := by simpa using hSeen
        constructor
        · rintro (rfl | ⟨hMem, ⟨_, hUnseen⟩, hTarget⟩)
          · exact ⟨.inl rfl, hNot, hCase⟩
          · exact ⟨.inr hMem, hUnseen, hTarget⟩
        · rintro ⟨hMem, hUnseen, hTarget⟩
          by_cases hSame : t = rom
          · exact .inl hSame
          · exact .inr ⟨hMem.resolve_left hSame, ⟨hSame, hUnseen⟩, hTarget⟩
      · rw [ih, List.map_cons, List.mem_cons, List.mem_cons, not_or]
        constructor
        · rintro ⟨hMem, ⟨_, hUnseen⟩, hTarget⟩
          exact ⟨.inr hMem, hUnseen, hTarget⟩
        · rintro ⟨hMem, hUnseen, hTarget⟩
          have hOther : t ≠ rom := by
            rintro rfl
            exact hCase hTarget
          exact ⟨hMem.resolve_left hOther, ⟨hOther, hUnseen⟩, hTarget⟩

end Switches

section Function

variable {out : OutputConfig} {f : Function} {b : BasicBlock} {t : Word}

theorem mem_jrTableEdges {img : Image} {cfg : ControlFlowGraph} :
    t ∈ jrTableEdges img cfg b ↔ b.exitInstr.type = .jumpRegister ∧
      t ∈ (jrEntries img cfg b).map Prod.snd ∧ cfg.functionStart ≤ t ∧ t < cfg.functionEnd := by
  unfold jrTableEdges
  split_ifs with hType
  · simp [List.mem_filter, hType]
  · simp [hType]

/-- The extra labels of a function are the table targets that lead no block. -/
theorem mem_extra {img : Image} {cfg : ControlFlowGraph} :
    t ∈ extraLabels img cfg ↔
      (∃ b ∈ cfg.blocks, t ∈ jrTableEdges img cfg b) ∧ cfg.hasBlock t = false := by
  simp [extraLabels, List.mem_filter, List.mem_flatMap]

theorem hasBlock_range (hf : f.Valid) (hBlock : (analyzeFunction out.img f).hasBlock t = true) :
    f.walkLo ≤ t ∧ t < f.endAddr :=
  of_decide_eq_true (boundaries_spec hf ((hasBlock_iff hf).mp hBlock)).1

/-- The jumps of a table are its entries inside the function. -/
theorem mem_gotosOf_switch (hf : f.Valid) (hb : b ∈ (out.context f).cfg.blocks)
    (hType : b.exitInstr.type = .jumpRegister) :
    t ∈ gotosOf ((out.context f).emitTransfer b) ↔
      t ∈ jrTableEdges out.img (out.context f).cfg b := by
  have hCases : gotosOf ((out.context f).emitTransfer b) =
      (switchTargets (out.context f).cfg (out.context f).extra []
        (jrEntries out.img (out.context f).cfg b)).map Prod.snd := by
    simp only [EmitContext.emitTransfer, hType, EmitContext.emitJumpRegister]
    split
    next hNone =>
      have hNone' : switchTargets (out.context f).cfg (out.context f).extra []
        (jrEntries out.img (out.context f).cfg b) = [] := hNone
      rw [hNone']
      rfl
    next =>
      rw [gotosOf, List.flatMap_singleton]
      rfl
  rw [hCases, mem_switchTargets, mem_jrTableEdges]
  constructor
  · rintro ⟨hMem, _, hTarget⟩
    refine ⟨hType, hMem, ?_⟩
    rcases Bool.or_eq_true_iff.mp hTarget with hBlock | hExtra
    · exact hasBlock_range hf hBlock
    · have hMemExtra : t ∈ extraLabels out.img (analyzeFunction out.img f) := by
        simpa [OutputConfig.context] using hExtra
      obtain ⟨⟨b', _, hEdge⟩, _⟩ := mem_extra.1 hMemExtra
      exact (mem_jrTableEdges.1 hEdge).2.2
  · rintro ⟨_, hMem, hRange⟩
    refine ⟨hMem, List.not_mem_nil, ?_⟩
    cases hBlock : (out.context f).cfg.hasBlock t with
    | true => rfl
    | false =>
        have hExtra : t ∈ extraLabels out.img (analyzeFunction out.img f) :=
          mem_extra.2 ⟨⟨b, hb, mem_jrTableEdges.2 ⟨hType, hMem, hRange⟩⟩, hBlock⟩
        simpa [OutputConfig.context] using hExtra

theorem mem_gotos_reach {ctx : EmitContext} {a : Word} (hGoto : t ∈ (ctx.reach a).gotos) :
    t = a ∧ ctx.cfg.hasBlock a = true := by
  unfold EmitContext.reach at hGoto
  split_ifs at hGoto with hBlock
  · exact ⟨List.mem_singleton.mp hGoto, hBlock⟩
  · cases hGoto

theorem mem_gotosOf_emitBranch {ctx : EmitContext} (hGoto : t ∈ gotosOf (ctx.emitBranch b)) :
    t ∈ b.successors ∨
      ((t = b.exitInstr.target ∨ t = b.exitInstr.address + 8#32) ∧ ctx.cfg.hasBlock t = true) := by
  have hLink : gotosOf (if EmitContext.isBranchAndLink b.exitInstr.instruction then
      [EmitContext.linkStmt 31 b.exitInstr.address] else []) = [] := by
    split_ifs <;> rfl
  unfold EmitContext.emitBranch at hGoto
  simp only at hGoto
  split at hGoto
  next x y hTwo =>
    rw [gotosOf_append, hLink] at hGoto
    left
    rw [hTwo]
    exact hGoto
  next =>
    rw [gotosOf_append, hLink, List.nil_append, gotosOf, List.flatMap_singleton, CStmt.gotos,
      List.mem_append] at hGoto
    rcases hGoto with hGoto | hGoto
    · obtain ⟨rfl, hBlock⟩ := mem_gotos_reach hGoto
      exact .inr ⟨.inl rfl, hBlock⟩
    · obtain ⟨rfl, hBlock⟩ := mem_gotos_reach hGoto
      exact .inr ⟨.inr rfl, hBlock⟩

/-- The other jumps of a block go to leaders that follow it. -/
theorem mem_gotosOf_static {ctx : EmitContext} (hType : b.exitInstr.type ≠ .jumpRegister)
    (hGoto : t ∈ gotosOf (ctx.emitTransfer b)) :
    t ∈ b.successors ∨ (b.exitInstr.type = .branch ∧
      (t = b.exitInstr.target ∨ t = b.exitInstr.address + 8#32) ∧ ctx.cfg.hasBlock t = true) := by
  unfold EmitContext.emitTransfer at hGoto
  split at hGoto
  case h_1 hBranch =>
    rcases mem_gotosOf_emitBranch hGoto with hNext | hBlock
    · exact .inl hNext
    · exact .inr ⟨hBranch, hBlock⟩
  case h_2 =>
    unfold EmitContext.emitJump at hGoto
    split at hGoto
    next target rest hNext =>
      left
      rw [hNext, List.mem_singleton.mp hGoto]
      exact List.mem_cons_self
    next => split_ifs at hGoto <;> cases hGoto
  case h_4 hRegister => exact absurd hRegister hType
  all_goals cases hGoto

/-- What the emitted blocks of a function must be closed under. -/
structure Emits (out : OutputConfig) (f : Function) (blocks : List BasicBlock) : Prop where
  sublist : blocks.Sublist (out.context f).cfg.blocks
  successors : ∀ b ∈ blocks, ∀ t ∈ b.successors, ∃ b' ∈ blocks, b'.startAddr = t
  branches : ∀ b ∈ blocks, b.exitInstr.type = .branch →
    ∀ t, t = b.exitInstr.target ∨ t = b.exitInstr.address + 8#32 →
      (out.context f).cfg.hasBlock t = true → ∃ b' ∈ blocks, b'.startAddr = t
  tables : ∀ b ∈ blocks, ∀ t ∈ jrTableEdges out.img (out.context f).cfg b,
    ∀ b' ∈ (out.context f).cfg.blocks, b'.startAddr ≤ t → t ≤ b'.endAddr → b' ∈ blocks

variable {blocks : List BasicBlock}

theorem mem_writtenFrom {img : Image} {addrs : List Word} (h : t ∈ writtenFrom img b addrs) :
    t ∈ addrs := by
  induction addrs with
  | nil => cases h
  | cons addr rest ih =>
      rw [writtenFrom] at h
      split_ifs at h
      · cases h
      · rcases List.mem_cons.mp h with rfl | h
        · exact List.mem_cons_self
        · exact List.mem_cons_of_mem _ (ih h)

theorem writtenAddrs_range {img : Image} (h : t ∈ writtenAddrs img b) :
    b.startAddr ≤ t ∧ t ≤ b.endAddr := by
  have hBound := b.endAddr.isLt
  obtain ⟨i, hi, hLt, _⟩ := mem_addrRange (by omega) (mem_writtenFrom h)
  rw [BitVec.le_def, BitVec.le_def]
  omega

theorem labelsOf_text (out : OutputConfig) (f : Function) (blocks : List BasicBlock) :
    labelsOf (blocks.flatMap (out.context f).translateBasicBlock) =
      blocks.flatMap fun b => b.startAddr :: (writtenAddrs out.img b).filter
        fun a => a ≠ b.startAddr ∧ (out.context f).extra.contains a := by
  rw [labelsOf_flatMap]
  exact congrArg (List.flatMap · blocks) (funext fun b => labelsOf_translateBasicBlock b)

theorem pairwise_addrRange {lo : Word} {bound : Nat} (hBound : bound ≤ 2 ^ 32) :
    (addrRange lo bound).Pairwise fun a a' => a.toNat < a'.toNat := by
  unfold addrRange
  rw [List.pairwise_map]
  refine List.pairwise_lt_range.imp_of_mem fun {i j} hi hj hLt => ?_
  rw [List.mem_range] at hi hj
  rw [BitVec.toNat_add, BitVec.toNat_add, BitVec.toNat_ofNat, BitVec.toNat_ofNat]
  omega

theorem sublist_writtenFrom (img : Image) (b : BasicBlock) (addrs : List Word) :
    (writtenFrom img b addrs).Sublist addrs := by
  induction addrs with
  | nil => exact List.Sublist.slnil
  | cons addr rest ih =>
      rw [writtenFrom]
      split_ifs
      · exact List.nil_sublist _
      · exact ih.cons_cons addr

theorem pairwise_blockLabels (img : Image) (b : BasicBlock) (p : Word → Bool) :
    (b.startAddr :: (writtenAddrs img b).filter fun a => a ≠ b.startAddr ∧ p a).Pairwise
      fun a a' => a.toNat < a'.toNat := by
  refine List.pairwise_cons.mpr ⟨fun a ha => ?_, ?_⟩
  · obtain ⟨hMem, hKeep⟩ := List.mem_filter.mp ha
    have hNe := (of_decide_eq_true hKeep).1
    have hLe := (writtenAddrs_range hMem).1
    rw [BitVec.le_def] at hLe
    rw [ne_eq, ← BitVec.toNat_inj] at hNe
    omega
  · have hBound := b.endAddr.isLt
    exact ((pairwise_addrRange (by omega)).sublist (sublist_writtenFrom img b _)).filter _

/-- The labels ascend, so none is defined twice. -/
theorem nodup_labels (hf : f.Valid) (hEmits : Emits out f blocks) :
    (labelsOf (blocks.flatMap (out.context f).translateBasicBlock)).Nodup := by
  have hAscending : (labelsOf (blocks.flatMap (out.context f).translateBasicBlock)).Pairwise
      fun a a' => a.toNat < a'.toNat := by
    rw [labelsOf_text, List.pairwise_flatMap]
    refine ⟨fun b _ => pairwise_blockLabels out.img b _, ?_⟩
    refine ((pairwise_blocks hf).sublist hEmits.sublist).imp_of_mem fun {b b'} hb _ hLt => ?_
    intro a ha a' ha'
    have hExtent := (mem_blocks hf (hEmits.sublist.subset hb)).2
    have hUpper : a.toNat ≤ b.endAddr.toNat := by
      rcases List.mem_cons.mp ha with rfl | ha
      · exact hExtent.start_le
      · exact (writtenAddrs_range (List.mem_filter.mp ha).1).2
    have hLower : b'.startAddr.toNat ≤ a'.toNat := by
      rcases List.mem_cons.mp ha' with rfl | ha'
      · exact le_rfl
      · exact (writtenAddrs_range (List.mem_filter.mp ha').1).1
    omega
  exact hAscending.imp fun hLt hEq => by
    rw [hEq] at hLt
    exact lt_irrefl _ hLt

/-- A target has its label when it leads an emitted block or is written out in
one as a table target. -/
theorem mem_labels :
    t ∈ labelsOf (blocks.flatMap (out.context f).translateBasicBlock) ↔
      ∃ b ∈ blocks, t = b.startAddr ∨
        (t ∈ writtenAddrs out.img b ∧ t ≠ b.startAddr ∧ (out.context f).extra.contains t) := by
  rw [labelsOf_text, List.mem_flatMap]
  simp only [List.mem_cons, List.mem_filter, decide_eq_true_eq]

/-- A table target of an emitted block has its label exactly when it is placed. -/
theorem tableTarget_labelled_iff (hf : f.Valid) (hEmits : Emits out f blocks) (hb : b ∈ blocks)
    (hEdge : t ∈ jrTableEdges out.img (out.context f).cfg b) :
    t ∈ labelsOf (blocks.flatMap (out.context f).translateBasicBlock) ↔
      Placed out.img (out.context f).cfg t := by
  rw [mem_labels]
  constructor
  · rintro ⟨b', hb', hLabel⟩
    exact ⟨b', hEmits.sublist.subset hb', hLabel.imp_right And.left⟩
  · rintro ⟨b', hb', hPlace⟩
    have hExtent := (mem_blocks hf hb').2
    have hInside : b'.startAddr ≤ t ∧ t ≤ b'.endAddr := by
      rcases hPlace with rfl | hWritten
      · exact ⟨BitVec.le_refl _, hExtent.start_le⟩
      · exact writtenAddrs_range hWritten
    have hEmitted := hEmits.tables b hb t hEdge b' hb' hInside.1 hInside.2
    by_cases hStart : t = b'.startAddr
    · exact ⟨b', hEmitted, .inl hStart⟩
    · have hNoLeader : (analyzeFunction out.img f).hasBlock t = false := by
        rw [← Bool.not_eq_true, hasBlock_iff hf]
        intro hLeader
        rw [BitVec.le_def, BitVec.le_def] at hInside
        rw [← BitVec.toNat_inj] at hStart
        have := hExtent.no_leader t hLeader
        omega
      have hExtra : t ∈ extraLabels out.img (analyzeFunction out.img f) :=
        mem_extra.2 ⟨⟨b, hEmits.sublist.subset hb, hEdge⟩, hNoLeader⟩
      refine ⟨b', hEmitted, .inr ⟨hPlace.resolve_left hStart, hStart, ?_⟩⟩
      simpa [OutputConfig.context] using hExtra

theorem count_label_eq_one (hf : f.Valid) (hEmits : Emits out f blocks) {tail : List CStmt}
    (hTail : labelsOf tail = []) :
    (labelsOf (blocks.flatMap (out.context f).translateBasicBlock ++ tail)).count t = 1 ↔
      t ∈ labelsOf (blocks.flatMap (out.context f).translateBasicBlock) := by
  rw [labelsOf_append, hTail, List.append_nil]
  constructor
  · intro hCount
    exact List.count_pos_iff.mp (by omega)
  · exact List.count_eq_one_of_mem (nodup_labels hf hEmits)

theorem leads_labelled (hLeads : ∃ b ∈ blocks, b.startAddr = t) :
    t ∈ labelsOf (blocks.flatMap (out.context f).translateBasicBlock) := by
  obtain ⟨b, hb, rfl⟩ := hLeads
  exact mem_labels.2 ⟨b, hb, .inl rfl⟩

/-- A jump of an emitted block leads to an emitted block or into a jump table. -/
theorem goto_leads (hf : f.Valid) (hEmits : Emits out f blocks) (hb : b ∈ blocks)
    (hGoto : t ∈ gotosOf ((out.context f).translateBasicBlock b)) :
    (∃ b' ∈ blocks, b'.startAddr = t) ∨ t ∈ jrTableEdges out.img (out.context f).cfg b := by
  obtain ⟨_, hTransfer⟩ := mem_gotosOf_translateBasicBlock.mp hGoto
  have hMem := hEmits.sublist.subset hb
  by_cases hType : b.exitInstr.type = .jumpRegister
  · exact .inr ((mem_gotosOf_switch hf hMem hType).mp hTransfer)
  · rcases mem_gotosOf_static hType hTransfer with hNext | ⟨hBranch, hTarget, hBlock⟩
    · exact .inl (hEmits.successors b hb t hNext)
    · exact .inl (hEmits.branches b hb hBranch t hTarget hBlock)

/-- The jumps of a function's text are all labelled exactly when its tables are
placed. -/
theorem text_labelled_iff (hf : f.Valid) (hEmits : Emits out f blocks) :
    (∀ t ∈ gotosOf (blocks.flatMap (out.context f).translateBasicBlock),
        t ∈ labelsOf (blocks.flatMap (out.context f).translateBasicBlock)) ↔
      TablesPlaced out.img (out.context f).cfg blocks := by
  have hText : ∀ {t : Word}, t ∈ gotosOf (blocks.flatMap (out.context f).translateBasicBlock) ↔
      ∃ b ∈ blocks, t ∈ gotosOf ((out.context f).translateBasicBlock b) := by
    intro t
    simp only [gotosOf, List.mem_flatMap]
    constructor
    · rintro ⟨c, ⟨b, hb, hc⟩, ht⟩
      exact ⟨b, hb, c, hc, ht⟩
    · rintro ⟨b, hb, c, hc, ht⟩
      exact ⟨c, ⟨b, hb, hc⟩, ht⟩
  constructor
  · intro hAll b hb hWritten target hEdge
    refine (tableTarget_labelled_iff hf hEmits hb hEdge).mp (hAll target (hText.mpr ⟨b, hb, ?_⟩))
    have hType := (mem_jrTableEdges.mp hEdge).1
    have hMem := hEmits.sublist.subset hb
    obtain ⟨w, hExit⟩ := exitInstr_of_mem_blocks hf hMem (by rw [hType]; decide)
    have hAt := EmitContext.exitBranchAddr_eq (mem_blocks hf hMem).2 hExit
    exact mem_gotosOf_translateBasicBlock.mpr
      ⟨⟨_, hWritten, hAt.symm, w, hExit.read, hExit.transfers⟩,
        (mem_gotosOf_switch hf hMem hType).mpr hEdge⟩
  · intro hPlaced t ht
    obtain ⟨b, hb, hGoto⟩ := hText.mp ht
    obtain ⟨⟨a, hWritten, hAt, _⟩, _⟩ := mem_gotosOf_translateBasicBlock.mp hGoto
    rcases goto_leads hf hEmits hb hGoto with hLeads | hEdge
    · exact leads_labelled hLeads
    · have hMem := hEmits.sublist.subset hb
      obtain ⟨w, hExit⟩ := exitInstr_of_mem_blocks hf hMem
        (by rw [(mem_jrTableEdges.mp hEdge).1]; decide)
      rw [hAt, EmitContext.exitBranchAddr_eq (mem_blocks hf hMem).2 hExit] at hWritten
      exact (tableTarget_labelled_iff hf hEmits hb hEdge).mpr (hPlaced b hb hWritten t hEdge)

theorem fallthroughCall_plain (reachable : BasicBlock → Bool) :
    labelsOf (out.fallthroughCall f blocks reachable) = [] ∧
      gotosOf (out.fallthroughCall f blocks reachable) = [] := by
  unfold OutputConfig.fallthroughCall
  split <;> try split_ifs
  all_goals exact ⟨rfl, rfl⟩

/-- The return point of a call is a successor. -/
theorem mem_successors_of_continuation (hf : f.Valid) (hb : b ∈ (out.context f).cfg.blocks)
    (hCont : t ∈ EmitContext.blockContinuations b) : t ∈ b.successors := by
  have hBuilt := (mem_blocks hf hb).1
  unfold EmitContext.blockContinuations at hCont
  split at hCont
  case h_1 hType | h_2 hType =>
    split_ifs at hCont with hNone
    · cases hCont
    · rw [List.mem_singleton.mp hCont]
      rw [successors_eq hBuilt, blockSuccessors, hType] at hNone ⊢
      simp only at hNone ⊢
      split_ifs at hNone ⊢
      · exact List.mem_cons_self
      · exact absurd rfl hNone
  case h_3 => cases hCont

/-- The continuations of a function lead blocks of it. -/
theorem continuation_leads (hf : f.Valid) (hEmits : Emits out f blocks) {entries : List Word}
    (hMem : t ∈ OutputConfig.continuations blocks entries) : ∃ b ∈ blocks, b.startAddr = t := by
  rw [OutputConfig.continuations, List.mem_eraseDups, List.mem_append] at hMem
  rcases hMem with hCall | hLeader
  · obtain ⟨b, hb, hCont⟩ := List.mem_flatMap.mp hCall
    exact hEmits.successors b hb t
      (mem_successors_of_continuation hf (hEmits.sublist.subset hb) hCont)
  · obtain ⟨b, hb, hStart⟩ := List.mem_map.mp (List.mem_filter.mp hLeader).1
    exact ⟨b, hb, hStart⟩

end Function

section Units

variable {out : OutputConfig}

/-- A function emits all of its blocks. -/
theorem emits_function {f : Function} (hf : f.Valid) :
    Emits out f (out.context f).cfg.blocks := by
  have hLeads : ∀ {t : Word}, t ∈ boundaries out.img f →
      ∃ b ∈ (out.context f).cfg.blocks, b.startAddr = t := by
    intro t ht
    rw [← map_startAddr_blocks hf] at ht
    obtain ⟨b, hb, hStart⟩ := List.mem_map.mp ht
    exact ⟨b, hb, hStart⟩
  refine ⟨List.Sublist.refl _, ?_, ?_, fun _ _ _ _ b' hb' _ _ => hb'⟩
  · intro b hb t ht
    exact hLeads (mem_boundaries_of_successor hf hb ht)
  · intro b _ _ t _ hBlock
    exact hLeads ((hasBlock_iff hf).mp hBlock)

theorem containingBlock_eq {f : Function} (hf : f.Valid) {img : Image} {b : BasicBlock}
    (hb : b ∈ (analyzeFunction img f).blocks) {t : Word} (hLo : b.startAddr ≤ t)
    (hHi : t ≤ b.endAddr) : containingBlock (analyzeFunction img f) t = b.startAddr := by
  obtain ⟨before, after, hSplit⟩ := List.append_of_mem hb
  have hPairs : (analyzeFunction img f).blocks.Pairwise
      (fun b b' => b.endAddr.toNat < b'.startAddr.toNat) := pairwise_blocks hf
  rw [hSplit, List.pairwise_append, List.pairwise_cons] at hPairs
  have hAfter : after.filter (fun b' => b'.startAddr ≤ t) = [] := by
    refine List.filter_eq_nil_iff.mpr fun b' hb' => ?_
    have hLt := hPairs.2.1.1 b' hb'
    rw [BitVec.le_def] at hHi
    simp only [decide_eq_true_eq, BitVec.le_def]
    omega
  have hLast : ((analyzeFunction img f).blocks.filter fun b' => b'.startAddr ≤ t).getLast? =
      some b := by
    have hKept : (b :: after).filter (fun b' => b'.startAddr ≤ t) = [b] := by
      rw [List.filter_cons, if_pos (decide_eq_true hLo), hAfter]
    rw [hSplit, List.filter_append, hKept, List.getLast?_concat]
  rw [containingBlock, hLast]
  exact if_pos hHi

end Units

section AliasGroups

variable {out : OutputConfig} {g : AliasGroup}

/-- The entries of a group lie in its host. -/
structure AliasGroup.Valid (g : AliasGroup) : Prop where
  host_ne_zero : g.host ≠ 0
  members : ∀ e ∈ g.entries, (g.member e).Valid

theorem AliasGroup.Valid.first (hg : g.Valid) : (g.member g.first).Valid :=
  hg.members g.first List.mem_cons_self

theorem AliasGroup.walkLo_member (hg : g.Valid) (e : Word) : (g.member e).walkLo = g.host :=
  if_neg hg.host_ne_zero

theorem leader_ne_zero (hg : g.Valid) {t : Word}
    (ht : t ∈ boundaries out.img (g.member g.first)) : t ≠ 0 := by
  have hRange := (of_decide_eq_true (boundaries_spec hg.first ht).1).1
  rw [AliasGroup.walkLo_member hg, BitVec.le_def] at hRange
  rintro rfl
  have hHost : g.host = 0 := BitVec.eq_of_toNat_eq (Nat.le_zero.mp hRange)
  exact hg.host_ne_zero hHost

/-- Live blocks are closed under what the search pushes. -/
theorem live_of_push {a x : Word}
    (hLive : a ∈ liveBlocks out.img (out.context (g.member g.first)).cfg g.entries)
    (hPush : x ∈ (liveSearch out.img (out.context (g.member g.first)).cfg).pushes a)
    (hDomain : x ∈ (out.context (g.member g.first)).cfg.blocks.map BasicBlock.startAddr) :
    x ∈ liveBlocks out.img (out.context (g.member g.first)).cfg g.entries := by
  have hCovered := Worklist.covered_run (Worklist.covered_start
    (liveSearch out.img (out.context (g.member g.first)).cfg)
    (containingBlocks (out.context (g.member g.first)).cfg g.entries).reverse)
  have hVisited := hCovered.visited_of_seen (fun _ => rfl) hLive
  rcases hCovered.pushed _ hVisited x hPush hDomain with hSeen | hNone
  · exact hSeen
  · cases hNone

theorem leads_of_live (hg : g.Valid) {t : Word}
    (hLeader : t ∈ boundaries out.img (g.member g.first))
    (hLive : t ∈ liveBlocks out.img (out.context (g.member g.first)).cfg g.entries) :
    ∃ b ∈ (out.context (g.member g.first)).cfg.blocks.filter (out.isLive g),
      b.startAddr = t := by
  rw [← map_startAddr_blocks hg.first] at hLeader
  obtain ⟨b, hb, rfl⟩ := List.mem_map.mp hLeader
  exact ⟨b, List.mem_filter.mpr ⟨hb, List.contains_iff_mem.mpr hLive⟩, rfl⟩

theorem mem_startAddrs (hg : g.Valid) {t : Word}
    (hLeader : t ∈ boundaries out.img (g.member g.first)) :
    t ∈ (out.context (g.member g.first)).cfg.blocks.map BasicBlock.startAddr := by
  rw [← map_startAddr_blocks hg.first] at hLeader
  exact hLeader

/-- A group emits what its entries reach. -/
theorem emits_aliasGroup (hg : g.Valid) :
    Emits out (g.member g.first)
      ((out.context (g.member g.first)).cfg.blocks.filter (out.isLive g)) := by
  have hf := hg.first
  have hNext : ∀ b ∈ (out.context (g.member g.first)).cfg.blocks.filter (out.isLive g),
      ∀ t ∈ b.successors, ∃ b' ∈ (out.context (g.member g.first)).cfg.blocks.filter
        (out.isLive g), b'.startAddr = t := by
    intro b hb t ht
    obtain ⟨hMem, hLive⟩ := List.mem_filter.mp hb
    have hLeader := mem_boundaries_of_successor hf hMem ht
    refine leads_of_live hg hLeader (live_of_push (List.contains_iff_mem.mp hLive) ?_
      (mem_startAddrs hg hLeader))
    have hFind : (out.context (g.member g.first)).cfg.find b.startAddr = some b :=
      find_startAddr hf hMem
    simp only [liveSearch, hFind]
    exact List.mem_append_left _ (List.mem_filter.mpr ⟨ht, (hasBlock_iff hf).mpr hLeader⟩)
  refine ⟨List.filter_sublist, hNext, ?_, ?_⟩
  · intro b hb hType t hTarget hBlock
    have hLeader := (hasBlock_iff hf).mp hBlock
    exact hNext b hb t (mem_successors_of_branch hf (List.mem_filter.mp hb).1 hType hTarget hLeader
      (leader_ne_zero hg hLeader))
  · intro b hb t hEdge b' hb' hLo hHi
    obtain ⟨hMem, hLive⟩ := List.mem_filter.mp hb
    have hLeader := (mem_blocks hf hb').2.leader
    refine List.mem_filter.mpr ⟨hb', List.contains_iff_mem.mpr ?_⟩
    refine live_of_push (List.contains_iff_mem.mp hLive) ?_ (List.mem_map_of_mem hb')
    have hFind : (out.context (g.member g.first)).cfg.find b.startAddr = some b :=
      find_startAddr hf hMem
    simp only [liveSearch, hFind]
    refine List.mem_append_right _ (List.mem_filter.mpr ⟨List.mem_map.mpr ⟨t, hEdge, ?_⟩, ?_⟩)
    · exact containingBlock_eq hf hb' hLo hHi
    · simpa using leader_ne_zero hg hLeader

/-- Every entry of a group leads a block that it emits. -/
theorem entry_leads (hg : g.Valid) {e : Word} (he : e ∈ g.entries) :
    ∃ b ∈ (out.context (g.member g.first)).cfg.blocks.filter (out.isLive g), b.startAddr = e := by
  have hRange : inRange (g.member g.first) e = true := by
    have hIn := (hg.members e he).start_in
    unfold inRange at hIn ⊢
    rw [AliasGroup.walkLo_member hg] at hIn ⊢
    exact hIn
  have hLeader : e ∈ boundaries out.img (g.member g.first) :=
    mem_boundaries.mpr (.inr (.inl ⟨hg.host_ne_zero, .inr ⟨he, hRange⟩⟩))
  have hDomain : e ∈ (out.context (g.member g.first)).cfg.blocks.map BasicBlock.startAddr :=
    mem_startAddrs hg hLeader
  obtain ⟨b, hb, hStart⟩ := List.mem_map.mp hDomain
  have hContaining : containingBlock (out.context (g.member g.first)).cfg e = e := by
    have hEnd : b.startAddr ≤ b.endAddr := (mem_blocks hg.first hb).2.start_le
    rw [← hStart]
    exact containingBlock_eq hg.first hb (BitVec.le_refl _) hEnd
  refine leads_of_live hg hLeader (Worklist.work_subset_run ?_ hDomain)
  refine List.mem_reverse.mpr (List.mem_filter.mpr ⟨List.mem_map.mpr ⟨e, he, hContaining⟩, ?_⟩)
  simpa using leader_ne_zero hg hLeader

end AliasGroups

variable {out : OutputConfig}

def OutputUnit.Valid : OutputUnit → Prop
  | .function f => f.Valid
  | .aliasGroup g => g.Valid

/-- The jump tables of the blocks that a unit emits. -/
def OutputUnit.TablesPlaced (out : OutputConfig) : OutputUnit → Prop
  | .function f =>
      CodeGen.TablesPlaced out.img (out.context f).cfg (out.context f).cfg.blocks
  | .aliasGroup g =>
      CodeGen.TablesPlaced out.img (out.context (g.member g.first)).cfg
        ((out.context (g.member g.first)).cfg.blocks.filter (out.isLive g))

/-- The jumps of both switches find their labels, so the tables decide. -/
theorem wellLabelled_iff {f : Function} {blocks : List BasicBlock} (hf : f.Valid)
    (hEmits : Emits out f blocks) {ft : FunctionText} {tail : List CStmt}
    (hText : ft.text = blocks.flatMap (out.context f).translateBasicBlock ++ tail)
    (hTail : labelsOf tail = [] ∧ gotosOf tail = [])
    (hSwitches : ∀ t ∈ ft.continuations ++ ft.entries, ∃ b ∈ blocks, b.startAddr = t) :
    ft.WellLabelled ↔ CodeGen.TablesPlaced out.img (out.context f).cfg blocks := by
  have hGotos : ft.gotos = ft.continuations ++ ft.entries ++
      gotosOf (blocks.flatMap (out.context f).translateBasicBlock) := by
    rw [FunctionText.gotos, hText, ← gotosOf, gotosOf_append, hTail.2, List.append_nil]
  rw [← text_labelled_iff hf hEmits, FunctionText.WellLabelled, hText, hGotos]
  simp only [count_label_eq_one hf hEmits hTail.1]
  constructor
  · intro hAll t ht
    exact hAll t (List.mem_append_right _ ht)
  · intro hAll t ht
    rcases List.mem_append.mp ht with hSwitch | hGoto
    · exact leads_labelled (hSwitches t hSwitch)
    · exact hAll t hGoto

theorem unit_wellLabelled_iff {u : OutputUnit} (hu : u.Valid) :
    (out.generate u).WellLabelled ↔ u.TablesPlaced out := by
  cases u with
  | function f =>
      refine wellLabelled_iff hu (emits_function hu) rfl (fallthroughCall_plain _) fun t ht => ?_
      rw [List.mem_append] at ht
      rcases ht with ht | ht
      · exact continuation_leads hu (emits_function hu) ht
      · cases ht
  | aliasGroup g =>
      have hEmits : Emits out (g.member g.first) _ := emits_aliasGroup hu
      refine wellLabelled_iff hu.first hEmits rfl (fallthroughCall_plain _) fun t ht => ?_
      rcases List.mem_append.mp ht with ht | ht
      · exact continuation_leads hu.first hEmits ht
      · exact entry_leads hu ht

theorem recordsServed (fts : List FunctionText) : RecordsServed fts := by
  induction fts with
  | nil =>
      intro c owner hOwner
      cases hOwner
  | cons ft rest ih =>
      intro c owner hOwner
      rw [continuationOwner, Option.or_eq_some_iff] at hOwner
      rcases hOwner with hRest | ⟨_, hHere⟩
      · obtain ⟨ft', hMem, hServed⟩ := ih c owner hRest
        exact ⟨ft', List.mem_cons_of_mem _ hMem, hServed⟩
      · split_ifs at hHere with hCase
        exact ⟨ft, List.mem_cons_self, Option.some.inj hHere, List.contains_iff_mem.mp hCase⟩

/-- The whole output, for every image content: every label that is jumped to is set, once, in the
function that jumps, and every dispatch record is served, exactly if the entries of the jump
tables are placed. -/
theorem output_labelled_iff (out : OutputConfig) (units : List OutputUnit)
    (hValid : ∀ u ∈ units, u.Valid) :
    ((∀ u ∈ units, (out.generate u).WellLabelled) ∧ RecordsServed (units.map out.generate)) ↔
      ∀ u ∈ units, u.TablesPlaced out := by
  rw [and_iff_left (recordsServed _)]
  exact forall₂_congr fun u hu => unit_wellLabelled_iff (hValid u hu)

/-- A `jr` through a table of one entry, which names a word of the first page. -/
def tableImage (target : BitVec 8) : Image where
  loadAddress := 0x80010000#32
  codeData := [0x01, 0x00, 0x81, 0x2C, 0x01, 0x80, 0x02, 0x3C, 0x21, 0x18, 0x44, 0x00, 0x18, 0x00,
    0x65, 0x8C, 0x08, 0x00, 0xA0, 0x00, 0x00, 0x00, 0x00, 0x00, target, 0x00, 0x01, 0x80]
  load_kseg0 := Image.text_kseg0
  end_in_ram := by simp

def tableFunction : Function := ⟨0x80010000#32, 0x80010018#32, false, 0, []⟩

def tableOutput (target : BitVec 8) : OutputConfig := ⟨tableImage target, .none, fun _ => false⟩

theorem tableFunction_valid : tableFunction.Valid :=
  ⟨by decide, by decide, by decide, by decide, by decide, fun _ hMem => by cases hMem⟩

/-- The entry names the `addu` inside the block. -/
theorem output_labelled_midBlock :
    (∀ u ∈ [OutputUnit.function tableFunction], u.Valid) ∧
      (((∀ u ∈ [OutputUnit.function tableFunction],
            ((tableOutput 0x08).generate u).WellLabelled) ∧
          RecordsServed ([OutputUnit.function tableFunction].map (tableOutput 0x08).generate)) ↔
        ∀ u ∈ [OutputUnit.function tableFunction], u.TablesPlaced (tableOutput 0x08)) := by
  have hValid : ∀ u ∈ [OutputUnit.function tableFunction], u.Valid :=
    List.forall_mem_singleton.mpr tableFunction_valid
  exact ⟨hValid, output_labelled_iff (tableOutput 0x08) _ hValid⟩

/-- The entry names the delay slot of the `jr`, which has no place of its own. -/
theorem slotTarget_unlabelled :
    ¬ ∀ (out : OutputConfig) (units : List OutputUnit), (∀ u ∈ units, u.Valid) →
      (∀ u ∈ units, (out.generate u).WellLabelled) ∧ RecordsServed (units.map out.generate) := by
  intro hAll
  obtain ⟨hLabelled, _⟩ := hAll (tableOutput 0x14) [.function tableFunction]
    (List.forall_mem_singleton.mpr tableFunction_valid)
  have hCount := hLabelled _ List.mem_cons_self 0x80010014#32 (by decide)
  exact absurd hCount (by decide)

end RecompStudio.CodeGen
