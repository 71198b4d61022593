import RecompStudio.CodeGen.BlockAgreement
import RecompStudio.CodeGen.Labels
import Mathlib.Data.List.TakeWhile

/-!
The paths through an emitted function, from its entry switch to the statement
that leaves it, and the address that each of them hands over.
-/

namespace RecompStudio.CodeGen

open RecompStudio.Emitted
open RecompStudio.Insn
open RecompStudio.Interp

variable {M : Type}

namespace FunctionText

variable (ft : FunctionText)

/-- The text behind a label. -/
@[grind =] def after (t : Word) : Option (List CStmt) :=
  match ft.text.dropWhile (· != .label t) with
  | [] => none
  | _ :: rest => some rest

/-- The entry switch: into a continuation, back with the requested address, or
on to the top of the text. Without continuations it is not written. -/
def entry (s : CPUState M) : Leave M :=
  if s.pc = 0 ∨ ft.continuations = [] then .fall s
  else if ft.continuations.contains s.pc then .goto s.pc { s with pc := 0 }
  else if ft.failClosed ∧ s.pc ≠ ft.owner then .ret s
  else .fall { s with pc := 0 }

/-- Where control stands on a path: the guest address, the rest of the text
behind its label, and the state. -/
inductive Path (h : Host M) (s₀ : CPUState M) : Word → List CStmt → CPUState M → Prop where
  | top {a : Word} {text : List CStmt} {s : CPUState M} (hEntry : ft.entry s₀ = .fall s)
      (hText : ft.text = .label a :: text) : Path h s₀ a text s
  | enter {t : Word} {text : List CStmt} {s : CPUState M} (hEntry : ft.entry s₀ = .goto t s)
      (hAfter : ft.after t = some text) : Path h s₀ t text s
  | goto {a t : Word} {text text' : List CStmt} {s s' : CPUState M} (hPath : Path h s₀ a text s)
      (hRun : execBlock h s 0 text = .goto t s') (hAfter : ft.after t = some text') :
      Path h s₀ t text' s'

end FunctionText

/-- Control is handed over at a non-zero address: by a jump inside the function,
by a return that has published it, or by a call of the function that starts
there, which runs from its top. -/
def Arrives (n : Word) (l : Leave M) : Prop :=
  n ≠ 0 ∧
    match l with
    | .goto target _ => target = n
    | .ret s => s.pc = n
    | .enter entry s => entry = n ∧ s.pc = 0
    | .fall _ | .trap _ | .undefined => False

namespace EmitContext

variable (ctx : EmitContext)

/-- A stretch of guest code from `a` that ends in the exit of a block: `s₁` is
the state before the exit, `s₂` the one behind its delay slot. -/
structure EndsInTransfer (h : Host M) (a : Word) (s : CPUState M) (b : BasicBlock)
    (s₁ s₂ : CPUState M) : Prop where
  block : b ∈ ctx.cfg.blocks
  type : b.exitInstr.type ≠ .none
  before : a.toNat ≤ b.exitInstr.address.toNat
  words : ctx.RunWords h (addrRange a b.exitInstr.address.toNat) s s₁
  slot : ∃ w, ctx.img.readWord (b.exitInstr.address + 4#32) = some w ∧ isControlFlow w = false ∧
    ctx.RunsTo h (b.exitInstr.address + 4#32) w (linked b s₁) s₂
  known : b.exitInstr.type = .branch → (branchTaken b.exitInstr.instruction s₁).isSome

/-- A stretch of guest code from `a` that runs into the end of the function. -/
def RunsOffEnd (f : Function) (h : Host M) (a : Word) (s s₁ : CPUState M) : Prop :=
  ctx.RunWords h (addrRange a f.endAddr.toNat) s s₁

/-- The exits that publish their successor: the jump register still holds its
value behind the slot, which no table maps elsewhere, and a branch tests its
condition as if before the link. -/
def ExitPublishes (h : Host M) (b : BasicBlock) (s₁ s₂ : CPUState M) : Prop :=
  let w := b.exitInstr.instruction
  match Op.ofWord w with
  | .jr => ctx.registerTarget b (s₂.gpr (rs w)) = s₁.gpr (rs w) ∧ s₁.gpr (rs w) ≠ 0
  | .jalr => s₂.gpr (rs w) = s₁.gpr (rs w) ∧ s₁.gpr (rs w) ≠ 0
  | .j | .jal => True
  | _ =>
      (if (ctx.branchCond b.exitInstr).eval h (linked b s₁) = 0 then b.exitInstr.address + 8#32
        else b.exitInstr.target) = branchNext b s₁

end EmitContext

namespace OutputConfig

variable (out : OutputConfig) (f : Function) (h : Host M)

/-- On every path from an entry state, each stretch hands over the successor of
the instruction that it ended with; a refused entry hands back its address. -/
def PathsPublish (s₀ : CPUState M) : Prop :=
  (∀ s, (out.generateFunction f).entry s₀ = .ret s → Arrives s₀.pc (.ret s : Leave M)) ∧
    ∀ a text s, (out.generateFunction f).Path h s₀ a text s →
      (∀ b s₁ s₂, (out.context f).EndsInTransfer h a s b s₁ s₂ →
        Arrives (EmitContext.interpNext b s₁) (execBlock h s 0 text)) ∧
      ∀ s₁, (out.context f).RunsOffEnd f h a s s₁ →
        Arrives f.endAddr (execBlock h s 0 text)

/-- The condition on the exits that the paths come to: an exit publishes, and
behind the last word a known function starts, which is entered from its top. -/
def ExitsPublish (s₀ : CPUState M) : Prop :=
  ∀ a text s, (out.generateFunction f).Path h s₀ a text s →
    (∀ b s₁ s₂, (out.context f).EndsInTransfer h a s b s₁ s₂ →
      (out.context f).ExitPublishes h b s₁ s₂) ∧
    ∀ s₁, (out.context f).RunsOffEnd f h a s s₁ → out.known f.endAddr = true ∧ s₁.pc = 0

end OutputConfig

section Location

variable {out : OutputConfig} {f : Function} {b : BasicBlock} {t : Word}

theorem mem_labelsOf {l : List CStmt} : t ∈ labelsOf l ↔ CStmt.label t ∈ l := by
  rw [labelsOf, List.mem_filterMap]
  constructor
  · rintro ⟨c, hc, hLabel⟩
    cases c <;> simp only [reduceCtorEq, Option.some.injEq] at hLabel
    rwa [← hLabel]
  · intro hMem
    exact ⟨_, hMem, rfl⟩

theorem FunctionText.after_eq {ft : FunctionText} {text : List CStmt}
    (hAfter : ft.after t = some text) : ∃ pre, ft.text = pre ++ .label t :: text := by
  unfold after at hAfter
  split at hAfter
  · cases hAfter
  next c rest hDrop =>
    obtain rfl := Option.some.inj hAfter
    have hHead := List.head_dropWhile_not (l := ft.text) (· != CStmt.label t)
      (by rw [hDrop]; exact List.cons_ne_nil _ _)
    simp only [hDrop, List.head_cons, bne_eq_false_iff_eq] at hHead
    refine ⟨ft.text.takeWhile (· != .label t), ?_⟩
    rw [hHead] at hDrop
    rw [← hDrop, List.takeWhile_append_dropWhile]

theorem FunctionText.after_none {ft : FunctionText} (hMissing : t ∉ labelsOf ft.text) :
    ft.after t = none := by
  cases hAfter : ft.after t with
  | none => rfl
  | some text =>
      obtain ⟨pre, hText⟩ := after_eq hAfter
      rw [mem_labelsOf, hText] at hMissing
      simp at hMissing

/-- A label that is defined once has one text behind it. -/
theorem behind_label {l pre post pre' post' : List CStmt} (hNodup : (labelsOf l).Nodup)
    (hSplit : l = pre ++ .label t :: post) (hSplit' : l = pre' ++ .label t :: post') :
    post' = post := by
  rw [hSplit, labelsOf_append, labelsOf_label, List.nodup_append] at hNodup
  obtain ⟨_, hPost, hApart⟩ := hNodup
  have hPre : CStmt.label t ∉ pre := by
    rw [← mem_labelsOf]
    intro hMem
    exact hApart t hMem t List.mem_cons_self rfl
  have hNotPost : CStmt.label t ∉ post := by
    rw [← mem_labelsOf]
    exact (List.nodup_cons.mp hPost).1
  exact ((List.append_cons_inj_of_notMem hPre hNotPost).mp (hSplit.symm.trans hSplit')).2.2.symm

theorem FunctionText.after_some {ft : FunctionText} (hMem : t ∈ labelsOf ft.text) :
    ∃ text, ft.after t = some text := by
  have hDrop : ft.text.dropWhile (· != .label t) ≠ [] := by
    rw [ne_eq, List.dropWhile_eq_nil_iff]
    intro hAll
    have hHere := hAll (.label t) (mem_labelsOf.1 hMem)
    simp at hHere
  unfold after
  split
  next hNone => exact absurd hNone hDrop
  next rest _ => exact ⟨rest, rfl⟩

theorem FunctionText.after_split {ft : FunctionText} {pre post : List CStmt}
    (hNodup : (labelsOf ft.text).Nodup) (hText : ft.text = pre ++ .label t :: post) :
    ft.after t = some post := by
  obtain ⟨text, hAfter⟩ : ∃ text, ft.after t = some text := by
    apply after_some
    rw [hText, labelsOf_append, labelsOf_label]
    exact List.mem_append_right _ List.mem_cons_self
  obtain ⟨pre', hText'⟩ := after_eq hAfter
  rw [hAfter, behind_label hNodup hText hText']

/-- A label inside a body is followed by the text from its address on. -/
theorem emitBody_label {ctx : EmitContext} (hStart : t ≠ b.startAddr)
    (hExtra : ctx.extra.contains t = true) {addrs : List Word}
    (hMem : t ∈ writtenFrom ctx.img b addrs) :
    ∃ before behind pre rest, addrs = before ++ t :: behind ∧
      ctx.emitBody b addrs = pre ++ .label t :: rest ∧
      ctx.emitBody b (t :: behind) = .label t :: rest := by
  induction addrs with
  | nil => cases hMem
  | cons addr addrs ih =>
      rw [writtenFrom] at hMem
      split_ifs at hMem with hStop
      · cases hMem
      · rw [Bool.or_eq_true, not_or, Bool.not_eq_true, Option.isNone_eq_false_iff,
          Option.isSome_iff_exists] at hStop
        obtain ⟨⟨w, hRead⟩, hSlot⟩ := hStop
        by_cases hHere : t = addr
        · subst hHere
          obtain ⟨rest, hHead⟩ : ∃ rest, ctx.emitBody b (t :: addrs) = .label t :: rest := by
            rw [EmitContext.emitBody, hRead]
            simp only [hSlot, hStart, hExtra, ne_eq, not_false_eq_true, and_self, if_true]
            exact ⟨_, rfl⟩
          exact ⟨[], addrs, [], rest, rfl, hHead, hHead⟩
        · obtain ⟨before, behind, pre, rest, hAddrs, hBody, hHead⟩ :=
            ih ((List.mem_cons.mp hMem).resolve_left hHere)
          obtain ⟨front, hFront⟩ : ∃ front, ctx.emitBody b (addr :: addrs) =
              front ++ ctx.emitBody b addrs := by
            rw [EmitContext.emitBody, hRead]
            simp only [hSlot]
            exact ⟨_, rfl⟩
          refine ⟨addr :: before, behind, front ++ pre, rest, ?_, ?_, hHead⟩
          · rw [hAddrs, List.cons_append]
          · rw [hFront, hBody, List.append_assoc]

theorem nodup_addrRange {lo : Word} {bound : Nat} (hBound : bound ≤ 2 ^ 32) :
    (addrRange lo bound).Nodup := by
  refine (pairwise_addrRange hBound).imp fun {a a'} hLt hEq => ?_
  rw [hEq] at hLt
  exact lt_irrefl _ hLt

/-- The text of a function from an address of one of its blocks on. -/
@[grind =]
def textFrom (out : OutputConfig) (f : Function) (b : BasicBlock) (post : List BasicBlock)
    (a : Word) : List CStmt :=
  (out.context f).emitBody b (addrRange a (b.endAddr.toNat + 1)) ++
    ((out.context f).emitFallthrough b ++ (post.flatMap (out.context f).translateBasicBlock ++
      out.fallthroughCall f (out.context f).cfg.blocks (·.isEntry)))

/-- The text from an address of an emitted block on. -/
def EmitContext.blockText (ctx : EmitContext) (b : BasicBlock) (post : List BasicBlock)
    (tail : List CStmt) (a : Word) : List CStmt :=
  ctx.emitBody b (addrRange a (b.endAddr.toNat + 1)) ++
    (ctx.emitFallthrough b ++ (post.flatMap ctx.translateBasicBlock ++ tail))

/-- A text runs like that of a function from `a` on, which is not the delay slot
inside its block. -/
structure Stands (out : OutputConfig) (f : Function) (a : Word) (text : List CStmt)
    (pre : List BasicBlock) (b : BasicBlock) (post : List BasicBlock) : Prop where
  blocks : (out.context f).cfg.blocks = pre ++ b :: post
  start_le : b.startAddr.toNat ≤ a.toNat
  le_end : a.toNat ≤ b.endAddr.toNat
  aligned : Aligned a
  not_slot : (EmitContext.slotInBlock b && a == b.endAddr) = false
  runs : ∀ (M : Type) (h : Host M) (s : CPUState M) (bc : Word),
    execBlock h s bc text = execBlock h s bc (textFrom out f b post a)

theorem generateFunction_text (pre post : List BasicBlock)
    (hBlocks : (out.context f).cfg.blocks = pre ++ b :: post) :
    (out.generateFunction f).text =
      pre.flatMap (out.context f).translateBasicBlock ++
        .label b.startAddr :: textFrom out f b post b.startAddr := by
  simp only [OutputConfig.generateFunction, textFrom]
  rw [hBlocks, List.flatMap_append, List.flatMap_cons, EmitContext.translateBasicBlock]
  simp only [List.append_assoc, List.cons_append]

/-- A leader is no delay slot inside its own block. -/
theorem not_slot_start (hf : f.Valid) (hb : b ∈ (out.context f).cfg.blocks) :
    (EmitContext.slotInBlock b && b.startAddr == b.endAddr) = false := by
  have hExtent := (mem_blocks hf hb).2
  by_cases hType : b.exitInstr.type = .none
  · simp [EmitContext.slotInBlock, hType]
  · obtain ⟨w, hExit⟩ := exitInstr_of_mem_blocks hf hb hType
    rw [EmitContext.slotInBlock_eq hExtent hExit]
    rcases hExit.position with hAt | ⟨_, hLt⟩
    · simp [hAt]
    · have hNe : b.startAddr ≠ b.endAddr := by
        rintro hSame
        rw [hSame] at hLt
        exact BitVec.lt_irrefl _ hLt
      simp [hNe]

theorem not_slot_written {img : Image} {addrs : List Word} (ht : t ∈ writtenFrom img b addrs) :
    (EmitContext.slotInBlock b && t == b.endAddr) = false := by
  induction addrs with
  | nil => cases ht
  | cons addr addrs ih =>
      rw [writtenFrom] at ht
      split_ifs at ht with hStop
      · cases ht
      · rcases List.mem_cons.mp ht with rfl | ht
        · rw [Bool.or_eq_true, not_or, Bool.not_eq_true, Bool.not_eq_true] at hStop
          exact hStop.2
        · exact ih ht

theorem stands_leader (hf : f.Valid) {pre post : List BasicBlock}
    (hBlocks : (out.context f).cfg.blocks = pre ++ b :: post) {text : List CStmt}
    (hRuns : ∀ (M : Type) (h : Host M) (s : CPUState M) (bc : Word),
      execBlock h s bc text = execBlock h s bc (textFrom out f b post b.startAddr)) :
    Stands out f b.startAddr text pre b post := by
  have hb : b ∈ (out.context f).cfg.blocks := by simp [hBlocks]
  have hExtent := (mem_blocks hf hb).2
  exact ⟨hBlocks, le_rfl, hExtent.start_le, hExtent.start_aligned, not_slot_start hf hb, hRuns⟩

/-- Behind the label of an emitted block, and behind one inside it, stands the text from
its address on. -/
theorem after_of_label (hf : f.Valid) {blocks pre post : List BasicBlock} {tail : List CStmt}
    {ft : FunctionText} (hEmits : Emits out f blocks)
    (hText : ft.text = blocks.flatMap (out.context f).translateBasicBlock ++ tail)
    (hTail : labelsOf tail = []) (hBlocks : blocks = pre ++ b :: post)
    (hLabel : t = b.startAddr ∨
      (t ∈ writtenAddrs out.img b ∧ t ≠ b.startAddr ∧ (out.context f).extra.contains t = true)) :
    ∃ text, ft.after t = some text ∧
      ((t = b.startAddr ∧ text = (out.context f).blockText b post tail t) ∨
        (t ≠ b.startAddr ∧ t ∈ writtenAddrs out.img b ∧
          .label t :: text = (out.context f).blockText b post tail t)) := by
  have hNodup : (labelsOf ft.text).Nodup := by
    rw [hText, labelsOf_append, hTail, List.append_nil]
    exact nodup_labels hf hEmits
  have hWhole : ft.text = pre.flatMap (out.context f).translateBasicBlock ++
      .label b.startAddr :: (out.context f).blockText b post tail b.startAddr := by
    rw [hText, hBlocks, List.flatMap_append, List.flatMap_cons, EmitContext.translateBasicBlock,
      EmitContext.blockText]
    simp only [List.append_assoc, List.cons_append]
  rcases hLabel with rfl | ⟨hWritten, hStart, hExtra⟩
  · exact ⟨_, FunctionText.after_split hNodup hWhole, .inl ⟨rfl, rfl⟩⟩
  · have hMem : b ∈ blocks := by simp [hBlocks]
    have hExtent := (mem_blocks hf (hEmits.sublist.subset hMem)).2
    obtain ⟨before, behind, first, rest, hAddrs, hBody, hHead⟩ :=
      emitBody_label hStart hExtra hWritten
    obtain ⟨i, hi, hLt, _⟩ := mem_addrRange b.endAddr.isLt (mem_writtenFrom hWritten)
    have hEnd := hExtent.end_lt
    have hBound := f.endAddr.isLt
    have hRest : addrRange t (b.endAddr.toNat + 1) = t :: behind := by
      have hSplit : addrRange b.startAddr (b.endAddr.toNat + 1) =
          addrRange b.startAddr t.toNat ++ addrRange t (b.endAddr.toNat + 1) :=
        addrRange_split (by omega) (by omega) (by omega)
      have hCons : addrRange t (b.endAddr.toNat + 1) =
          t :: addrRange (t + 4#32) (b.endAddr.toNat + 1) := addrRange_cons hLt (by omega)
      have hApart : (addrRange b.startAddr (b.endAddr.toNat + 1)).Nodup :=
        nodup_addrRange (by omega)
      rw [hAddrs, hCons] at hSplit
      rw [hCons]
      rw [hAddrs, List.nodup_append] at hApart
      have hBefore : t ∉ before := fun hMem => hApart.2.2 t hMem t List.mem_cons_self rfl
      have hBehind : t ∉ behind := (List.nodup_cons.mp hApart.2.1).1
      rw [((List.append_cons_inj_of_notMem hBefore hBehind).mp hSplit).2.2]
    have hSplit : ft.text =
        (pre.flatMap (out.context f).translateBasicBlock ++ .label b.startAddr :: first) ++
          .label t :: (rest ++ ((out.context f).emitFallthrough b ++
            (post.flatMap (out.context f).translateBasicBlock ++ tail))) := by
      rw [hWhole, EmitContext.blockText, hBody]
      simp only [List.append_assoc, List.cons_append]
    refine ⟨_, FunctionText.after_split hNodup hSplit, .inr ⟨hStart, hWritten, ?_⟩⟩
    rw [EmitContext.blockText, hRest, hHead, List.cons_append]

/-- Behind every label of a function stands the text from its address on. -/
theorem stands_of_after (hf : f.Valid) {text : List CStmt}
    (hAfter : (out.generateFunction f).after t = some text) :
    ∃ pre b post, Stands out f t text pre b post := by
  obtain ⟨front, hText⟩ := FunctionText.after_eq hAfter
  have hMem : t ∈ labelsOf (out.generateFunction f).text := by
    rw [mem_labelsOf, hText]
    simp
  have hLabels : labelsOf (out.generateFunction f).text =
      labelsOf ((out.context f).cfg.blocks.flatMap (out.context f).translateBasicBlock) := by
    simp only [OutputConfig.generateFunction, labelsOf_append, (fallthroughCall_plain _).1,
      List.append_nil]
  rw [hLabels] at hMem
  obtain ⟨b, hb, hPlace⟩ := mem_labels.mp hMem
  obtain ⟨pre, post, hBlocks⟩ := List.append_of_mem hb
  obtain ⟨text', hAfter', hPlaced⟩ := @after_of_label _ _ _ _ hf _ _ _ _
    (out.generateFunction f) (emits_function hf) rfl (fallthroughCall_plain _).1 hBlocks hPlace
  obtain rfl := Option.some.inj (hAfter.symm.trans hAfter')
  refine ⟨pre, b, post, ?_⟩
  rcases hPlaced with ⟨rfl, hHere⟩ | ⟨_, hWritten, hHere⟩
  · exact stands_leader hf hBlocks fun M h s bc => by rw [hHere]; rfl
  · have hExtent := (mem_blocks hf hb).2
    obtain ⟨i, hi, hLt, _⟩ := mem_addrRange b.endAddr.isLt (mem_writtenFrom hWritten)
    refine ⟨hBlocks, by omega, by omega, ?_, not_slot_written hWritten, ?_⟩
    · exact aligned_of_mem_addrRange hExtent.start_aligned (mem_writtenFrom hWritten)
    · intro M h s bc
      rw [← execBlock_label t text, hHere]
      rfl

/-- Every place on a path is a place in the text. -/
theorem stands_of_path (hf : f.Valid) {h : Host M} {s₀ s : CPUState M} {a : Word}
    {text : List CStmt} (hPath : (out.generateFunction f).Path h s₀ a text s) :
    ∃ pre b post, Stands out f a text pre b post := by
  cases hPath with
  | top hEntry hText =>
      cases hBlocks : (out.context f).cfg.blocks with
      | nil =>
          have hLeader : f.walkLo ∈ boundaries out.img f := mem_boundaries.mpr (.inl rfl)
          have hStarts : (out.context f).cfg.blocks.map BasicBlock.startAddr = _ :=
            map_startAddr_blocks hf
          rw [← hStarts, hBlocks] at hLeader
          cases hLeader
      | cons b post =>
          rw [generateFunction_text [] post hBlocks] at hText
          obtain ⟨hLabel, rfl⟩ := List.cons.inj hText
          obtain rfl := CStmt.label.inj hLabel
          exact ⟨[], b, post, stands_leader hf hBlocks fun _ _ _ _ => rfl⟩
  | enter hEntry hAfter => exact stands_of_after hf hAfter
  | goto hPath hRun hAfter => exact stands_of_after hf hAfter

end Location

section Stretch

variable {out : OutputConfig} {f : Function} {h : Host M} {a c : Word} {text : List CStmt}
  {pre post : List BasicBlock} {b : BasicBlock} {s s₁ : CPUState M}

theorem runWords_append {ctx : EmitContext} {xs ys : List Word} {s s' : CPUState M} :
    ctx.RunWords h (xs ++ ys) s s' ↔ ∃ u, ctx.RunWords h xs s u ∧ ctx.RunWords h ys u s' := by
  induction xs generalizing s with
  | nil => simp [EmitContext.RunWords]
  | cons x xs ih =>
      simp only [List.cons_append, EmitContext.RunWords, ih]
      constructor
      · rintro ⟨w, v, hRead, hPlain, hRun, u, hFirst, hSecond⟩
        exact ⟨u, ⟨w, v, hRead, hPlain, hRun, hFirst⟩, hSecond⟩
      · rintro ⟨u, ⟨w, v, hRead, hPlain, hRun, hFirst⟩, hSecond⟩
        exact ⟨w, v, hRead, hPlain, hRun, u, hFirst, hSecond⟩

theorem plain_of_runWords {ctx : EmitContext} {addrs : List Word}
    (hWords : ctx.RunWords h addrs s s₁) (ha : a ∈ addrs) :
    ∃ w, ctx.img.readWord a = some w ∧ isControlFlow w = false := by
  induction addrs generalizing s with
  | nil => cases ha
  | cons x xs ih =>
      obtain ⟨w, u, hRead, hPlain, _, hRest⟩ := hWords
      rcases List.mem_cons.mp ha with rfl | ha
      · exact ⟨w, hRead, hPlain⟩
      · exact ih hRest ha

theorem Stands.mem (hStands : Stands out f a text pre b post) :
    b ∈ (out.context f).cfg.blocks := by
  rw [hStands.blocks]
  exact List.mem_append_right _ List.mem_cons_self

/-- Words that run in a row do not reach over the exit of their block. -/
theorem exit_behind_words (hf : f.Valid) (hStands : Stands out f a text pre b post)
    (hWords : (out.context f).RunWords h (addrRange a c.toNat) s s₁)
    (hType : b.exitInstr.type ≠ .none) : c.toNat ≤ b.exitInstr.address.toNat := by
  have hExtent := (mem_blocks hf hStands.mem).2
  obtain ⟨w, hExit⟩ := exitInstr_of_mem_blocks hf hStands.mem hType
  have hAt := EmitContext.exit_toNat hExtent hExit
  have hAligned := hStands.aligned
  have hEnd := hExtent.end_aligned
  have hLe := hStands.le_end
  unfold Aligned at hAligned hEnd
  by_contra hBefore
  by_cases hInside : a.toNat ≤ b.exitInstr.address.toNat
  · obtain ⟨v, hRead, hPlain⟩ := plain_of_runWords hWords
      (mem_addrRange_of hInside (by omega) (by omega))
    obtain rfl : w = v := Option.some.inj (hExit.read.symm.trans hRead)
    rw [hExit.transfers] at hPlain
    cases hPlain
  · have hSlot : a = b.endAddr := BitVec.eq_of_toNat_eq (by omega)
    have hNot := hStands.not_slot
    rw [EmitContext.slotInBlock_eq hExtent hExit, hSlot, beq_self_eq_true, Bool.and_true] at hNot
    have hSame := of_decide_eq_false hNot
    rw [ne_eq, not_not] at hSame
    rw [hSame] at hInside
    omega

/-- A block whose last word runs as one of several in a row transfers no control. -/
theorem type_of_words (hf : f.Valid) (hStands : Stands out f a text pre b post)
    (hWords : (out.context f).RunWords h (addrRange a c.toNat) s s₁)
    (hBehind : b.endAddr.toNat < c.toNat) : b.exitInstr.type = .none := by
  by_contra hType
  obtain ⟨w, hExit⟩ := exitInstr_of_mem_blocks hf hStands.mem hType
  have hBefore := exit_behind_words hf hStands hWords hType
  have hAt := EmitContext.exit_toNat (mem_blocks hf hStands.mem).2 hExit
  omega

/-- The words of a stretch inside one block. -/
theorem exec_inBlock (hf : f.Valid) (hStands : Stands out f a text pre b post)
    (hWords : (out.context f).RunWords h (addrRange a c.toNat) s s₁) (hLe : a.toNat ≤ c.toNat)
    (hAligned : Aligned c) (hEnd : c.toNat ≤ b.endAddr.toNat + 4) (bc : Word)
    (more : List CStmt) :
    execBlock h s bc ((out.context f).emitBody b (addrRange a (b.endAddr.toNat + 1)) ++ more) =
      execBlock h s₁ bc
        ((out.context f).emitBody b (addrRange c (b.endAddr.toNat + 1)) ++ more) := by
  have hStart := hStands.aligned
  unfold Aligned at hAligned hStart
  rw [addrRange_split hLe (by omega) (by omega)]
  refine EmitContext.exec_emitBody_words bc hWords (fun a' ha' => ?_) _ more
  by_cases hType : b.exitInstr.type = .none
  · simp [EmitContext.slotInBlock, hType]
  · have hExtent := (mem_blocks hf hStands.mem).2
    obtain ⟨w, hExit⟩ := exitInstr_of_mem_blocks hf hStands.mem hType
    have hBehind := exit_behind_words hf hStands hWords hType
    have hAt := EmitContext.exit_toNat hExtent hExit
    obtain ⟨i, _, hLt, _⟩ := mem_addrRange c.isLt.le ha'
    have hNe : a' ≠ b.endAddr := by
      rintro rfl
      omega
    simp [hNe]

/-- Without a function behind the last word nothing is called there. -/
theorem fallthroughCall_unknown (blocks : List BasicBlock) (reachable : BasicBlock → Bool)
    (hUnknown : out.known f.endAddr = false) : out.fallthroughCall f blocks reachable = [] := by
  unfold OutputConfig.fallthroughCall
  split
  · rfl
  · simp [hUnknown]

/-- The text behind the last word of a function. -/
theorem exec_end (hBuilt : b = buildBlock out.img f (boundaries out.img f) b.startAddr b.endAddr)
    (hType : b.exitInstr.type = .none)
    (hEnd : b.endAddr + 4#32 = f.endAddr) (bc : Word) :
    execBlock h s bc ((out.context f).emitFallthrough b ++
        out.fallthroughCall f (out.context f).cfg.blocks (·.isEntry)) =
      if out.known f.endAddr then .enter f.endAddr s else .fall s := by
  have hNone : b.successors = [] := successors_last hBuilt hType hEnd
  have hKnown : (out.context f).known = out.known := rfl
  rw [EmitContext.emitFallthrough, hEnd, hKnown]
  by_cases hCall : out.known f.endAddr = true
  · rw [if_pos ⟨hType, hNone, hCall⟩, if_pos hCall]
    rfl
  · have hSilent := fallthroughCall_unknown (out.context f).cfg.blocks (·.isEntry)
      (Bool.eq_false_of_not_eq_true hCall)
    rw [if_neg fun hAll => hCall hAll.2.2, if_neg hCall, hSilent]
    rfl

/-- A block without transfer leads into the next one. -/
theorem emitFallthrough_next (hf : f.Valid) {next : BasicBlock}
    (hBuilt : b = buildBlock out.img f (boundaries out.img f) b.startAddr b.endAddr)
    (hNext : next ∈ (out.context f).cfg.blocks) (hType : b.exitInstr.type = .none)
    (hEnd : b.endAddr + 4#32 = next.startAddr) : (out.context f).emitFallthrough b = [] := by
  have hSome : b.successors = [next.startAddr] := successors_next hf hBuilt hNext hType hEnd
  rw [EmitContext.emitFallthrough, if_neg]
  rintro ⟨_, hNone, _⟩
  rw [hSome] at hNone
  cases hNone

/-- A stretch of words runs from block to block, up to an address inside the
function or over its end. -/
theorem exec_stretch (hf : f.Valid) (hStands : Stands out f a text pre b post)
    (hWords : (out.context f).RunWords h (addrRange a c.toNat) s s₁) (hLe : a.toNat ≤ c.toNat)
    (hAligned : Aligned c) (hEnd : c.toNat ≤ f.endAddr.toNat) (bc : Word) :
    (∃ pre' b' post', (out.context f).cfg.blocks = pre' ++ b' :: post' ∧
        b'.startAddr.toNat ≤ c.toNat ∧ c.toNat ≤ b'.endAddr.toNat ∧
        execBlock h s bc text = execBlock h s₁ bc (textFrom out f b' post' c)) ∨
      (c = f.endAddr ∧ execBlock h s bc text =
        if out.known f.endAddr then .enter f.endAddr s₁ else .fall s₁) := by
  induction post generalizing pre b a s text with
  | nil =>
      obtain ⟨hBuilt, hExtent⟩ := mem_blocks hf hStands.mem
      have hNext : b.endAddr + 4#32 = f.endAddr := next_block hf hStands.blocks
      have hLast := hExtent.afterBlock_toNat
      rw [← hNext, hLast] at hEnd
      rw [hStands.runs M h s bc, textFrom,
        exec_inBlock hf hStands hWords hLe hAligned hEnd bc]
      by_cases hInside : c.toNat ≤ b.endAddr.toNat
      · refine .inl ⟨pre, b, [], hStands.blocks, ?_, hInside, rfl⟩
        have := hStands.start_le
        omega
      · have hAt : c = f.endAddr := by
          have hEndAligned := hExtent.end_aligned
          unfold Aligned at hAligned hEndAligned
          rw [← hNext]
          apply BitVec.eq_of_toNat_eq
          omega
        have hType := type_of_words hf hStands hWords (by omega)
        refine .inr ⟨hAt, ?_⟩
        rw [addrRange_eq_nil (by omega)]
        exact exec_end hBuilt hType hNext bc
  | cons next post ih =>
      obtain ⟨hBuilt, hExtent⟩ := mem_blocks hf hStands.mem
      have hNext : b.endAddr + 4#32 = next.startAddr := next_block hf hStands.blocks
      have hLast := hExtent.afterBlock_toNat
      by_cases hInside : c.toNat ≤ b.endAddr.toNat
      · refine .inl ⟨pre, b, next :: post, hStands.blocks, ?_, hInside, ?_⟩
        · have := hStands.start_le
          omega
        · rw [hStands.runs M h s bc, textFrom,
            exec_inBlock hf hStands hWords hLe hAligned (by omega) bc]
          rfl
      · have hBlocks : (out.context f).cfg.blocks = (pre ++ [b]) ++ next :: post := by
          rw [hStands.blocks, List.append_assoc]
          rfl
        have hMem : next ∈ (out.context f).cfg.blocks := by
          rw [hBlocks]
          exact List.mem_append_right _ List.mem_cons_self
        have hEndAligned := hExtent.end_aligned
        have hStart := hStands.aligned
        have hBelow := hStands.le_end
        unfold Aligned at hAligned hEndAligned hStart
        rw [addrRange_split (show a.toNat ≤ (b.endAddr + 4#32).toNat by omega)
          (by omega) (by omega),
          runWords_append] at hWords
        obtain ⟨u, hFirst, hSecond⟩ := hWords
        have hType := type_of_words hf hStands hFirst (by omega)
        have hRuns : execBlock h s bc text =
            execBlock h u bc (textFrom out f next post next.startAddr) := by
          rw [hStands.runs M h s bc, textFrom, exec_inBlock hf hStands hFirst (by omega)
            (by unfold Aligned; omega) (by omega) bc, addrRange_eq_nil (by omega),
            emitFallthrough_next hf hBuilt hMem hType hNext]
          simp only [EmitContext.emitBody, List.nil_append, List.flatMap_cons,
            EmitContext.translateBasicBlock, List.cons_append, List.append_assoc, execBlock_label]
          rfl
        rw [hRuns]
        rw [hNext] at hSecond hLast
        exact ih (stands_leader hf hBlocks fun _ _ _ _ => rfl) hSecond (by omega)

end Stretch

variable {out : OutputConfig} {f : Function} {h : Host M} {a : Word} {text : List CStmt}
  {b : BasicBlock} {s s₁ s₂ : CPUState M}

theorem arrives_iff {l : Leave M} {n pc : Word} (hLeaves : EmitContext.LeavesTo l pc s) :
    Arrives n l ↔ n ≠ 0 ∧ pc = n := by
  obtain ⟨s', hLeave, _⟩ := hLeaves
  rcases hLeave with rfl | ⟨rfl, rfl⟩
  · exact Iff.rfl
  · exact Iff.rfl

/-- The blocks do not overlap. -/
theorem block_eq (hf : f.Valid) {b' : BasicBlock} {img : Image} {c : Word}
    (hb : b ∈ (analyzeFunction img f).blocks) (hb' : b' ∈ (analyzeFunction img f).blocks)
    (hLo : b.startAddr.toNat ≤ c.toNat) (hHi : c.toNat ≤ b.endAddr.toNat)
    (hLo' : b'.startAddr.toNat ≤ c.toNat) (hHi' : c.toNat ≤ b'.endAddr.toNat) : b' = b := by
  have hFirst := containingBlock_eq hf hb hLo hHi
  have hSecond := containingBlock_eq hf hb' hLo' hHi'
  exact eq_of_startAddr hf hb' hb (hSecond.symm.trans hFirst)

theorem afterSlot_ne_zero {img : Image} {addr v : Word} (hRead : img.readWord addr = some v) :
    addr + 8#32 ≠ 0 := by
  have hRange := img.readWord_range hRead
  intro hZero
  have hSum : (addr + 8#32).toNat = 0 := by
    rw [hZero]
    rfl
  rw [BitVec.toNat_add, BitVec.toNat_ofNat] at hSum
  omega

theorem transfer_arrives_iff (hf : f.Valid) {pre post : List BasicBlock} {b₀ : BasicBlock}
    (hStands : Stands out f a text pre b₀ post)
    (hEnds : (out.context f).EndsInTransfer h a s b s₁ s₂) :
    Arrives (EmitContext.interpNext b s₁) (execBlock h s 0 text) ↔
      (out.context f).ExitPublishes h b s₁ s₂ := by
  obtain ⟨hBuilt, hExtent⟩ := mem_blocks hf hEnds.block
  obtain ⟨w, hExit⟩ := exitInstr_of_mem_blocks hf hEnds.block hEnds.type
  obtain ⟨slot, hRead, _, hSlot⟩ := hEnds.slot
  have hAt := EmitContext.exit_toNat hExtent hExit
  have hAligned : Aligned b.exitInstr.address := by
    have hEnd := hExtent.end_aligned
    unfold Aligned at hEnd ⊢
    omega
  have hLo : b.startAddr.toNat ≤ b.exitInstr.address.toNat := by
    have := hExtent.start_le
    omega
  have hEnd := hExtent.end_lt
  have hBound := f.endAddr.isLt
  -- the stretch runs up to the exit
  have hExec : ∃ post', execBlock h s 0 text =
      execBlock h s₁ 0 (textFrom out f b post' b.exitInstr.address) := by
    rcases exec_stretch hf hStands hEnds.words hEnds.before hAligned (by omega) 0 with
      ⟨pre', b', post', hBlocks, hLo', hHi', hExec⟩ | ⟨hOver, _⟩
    · have hMem : b' ∈ (out.context f).cfg.blocks := by
        rw [hBlocks]
        exact List.mem_append_right _ List.mem_cons_self
      obtain rfl := block_eq hf hEnds.block hMem hLo (by omega) hLo' hHi'
      exact ⟨post', hExec⟩
    · rw [hOver] at hAt
      omega
  obtain ⟨post', hExec⟩ := hExec
  have hTaken : (analyzeInstruction b.exitInstr.address w).type = .branch →
      ∃ c, branchTaken w s₁ = some c := by
    rw [← EmitContext.ExitInstr.type hExit, ← EmitContext.ExitInstr.instruction hExit]
    exact fun hType => Option.isSome_iff_exists.mp (hEnds.known hType)
  have hLikely : b.exitInstr.isLikely = false := by
    rw [hExit.analyzed]
    exact EmitContext.not_likely hExit.transfers hTaken
  have hWords : addrRange b.exitInstr.address (b.endAddr.toNat + 1) =
      b.exitInstr.address :: addrRange (b.exitInstr.address + 4#32) (b.endAddr.toNat + 1) :=
    addrRange_cons (by omega) (by omega)
  rw [hExec, textFrom, hWords, EmitContext.exec_emitBody_exit hExtent hExit,
    arrives_iff (EmitContext.leavesTo_emitExit hBuilt hExit hRead hLikely hSlot 0 _)]
  have hInstr := EmitContext.ExitInstr.instruction hExit
  have hFlow := hExit.transfers
  have hAnalyzed := hExit.analyzed
  unfold isControlFlow at hFlow
  unfold analyzeInstruction at hAnalyzed
  unfold EmitContext.exitPc EmitContext.interpNext EmitContext.ExitPublishes
  simp only [hInstr]
  cases hOp : Op.ofWord w <;> simp only [hOp, reduceCtorEq] at hFlow hAnalyzed ⊢
  case jr | jalr => exact and_comm
  case j | jal =>
    exact iff_of_true ⟨jumpTarget_ne_zero hExit.read w, trivial⟩ trivial
  all_goals
    refine and_iff_right ?_
    unfold EmitContext.branchNext
    split_ifs
    · exact branchTarget_ne_zero hExit.read _
    · exact afterSlot_ne_zero hExit.read

theorem end_ne_zero (hf : f.Valid) : f.endAddr ≠ 0 := by
  have hLt := hf.nonempty
  rintro hZero
  rw [hZero] at hLt
  exact absurd hLt (Nat.not_lt_zero _)

theorem end_arrives_iff (hf : f.Valid) {pre post : List BasicBlock} {b₀ : BasicBlock}
    (hStands : Stands out f a text pre b₀ post)
    (hRuns : (out.context f).RunsOffEnd f h a s s₁) :
    Arrives f.endAddr (execBlock h s 0 text) ↔ out.known f.endAddr = true ∧ s₁.pc = 0 := by
  have hExtent := (mem_blocks hf hStands.mem).2
  have hLe : a.toNat ≤ f.endAddr.toNat := by
    have := hStands.le_end
    have := hExtent.end_lt
    omega
  rcases exec_stretch hf hStands hRuns hLe hf.end_aligned le_rfl 0 with
    ⟨pre', b', post', hBlocks, _, hHi, _⟩ | ⟨_, hExec⟩
  · have hMem : b' ∈ (out.context f).cfg.blocks := by
      rw [hBlocks]
      exact List.mem_append_right _ List.mem_cons_self
    have := (mem_blocks hf hMem).2.end_lt
    omega
  · unfold Arrives
    rw [hExec, and_iff_right (end_ne_zero hf)]
    split_ifs with hKnown
    · exact ⟨fun hPc => ⟨hKnown, hPc.2⟩, fun hPc => ⟨rfl, hPc.2⟩⟩
    · exact ⟨False.elim, fun hBoth => hKnown hBoth.1⟩

/-- The paths of every function publish their successors exactly when all the
exits that they come to do. -/
theorem pathsPublish_iff (out : OutputConfig) {f : Function} (hf : f.Valid) (h : Host M)
    (s₀ : CPUState M) : out.PathsPublish f h s₀ ↔ out.ExitsPublish f h s₀ := by
  have hRefused : ∀ s, (out.generateFunction f).entry s₀ = .ret s →
      Arrives s₀.pc (.ret s : Leave M) := by
    intro s hEntry
    unfold FunctionText.entry at hEntry
    split_ifs at hEntry with hTop hSwitch hClosed
    obtain rfl := Leave.ret.inj hEntry
    exact ⟨fun hZero => hTop (.inl hZero), rfl⟩
  unfold OutputConfig.PathsPublish OutputConfig.ExitsPublish
  rw [and_iff_right hRefused]
  refine forall₃_congr fun a text s => forall_congr' fun hPath => ?_
  obtain ⟨pre, b₀, post, hStands⟩ := stands_of_path hf hPath
  refine and_congr (forall₃_congr fun b s₁ s₂ => forall_congr' fun hEnds => ?_)
    (forall_congr' fun s₁ => forall_congr' fun hRuns => ?_)
  · exact transfer_arrives_iff hf hStands hEnds
  · exact end_arrives_iff hf hStands hRuns

/-- `jal 0x80020000` with `nop`, and behind it `addiu $3, $0, 7` and `jr $31` with
`addiu $2, $2, 1` in its slot. -/
def callImage : Image where
  loadAddress := 0x80010000#32
  codeData := [0x00, 0x80, 0x00, 0x0C, 0x00, 0x00, 0x00, 0x00, 0x07, 0x00, 0x03, 0x24,
    0x08, 0x00, 0xE0, 0x03, 0x01, 0x00, 0x42, 0x24]
  load_kseg0 := Image.text_kseg0
  end_in_ram := by decide

def callFunction : Function := ⟨0x80010000#32, 0x80010014#32, false, 0, []⟩

def callOutput : OutputConfig := ⟨callImage, .none, fun _ => false⟩

/-- The callee has come back; its caller's caller waits at 0x80030000. -/
def returnedState : CPUState Word :=
    { (blankState 0).setGpr 31 0x80030000#32 with pc := 0x80010008#32 }

/-- The text behind the return point of the call. -/
def returnText : List CStmt :=
  [.code [.setGpr 3 (.lit 7#32)], .code [.setGpr 2 (.add (.gpr 2) (.lit 1#32))],
    .transfer (.publish (.gpr 31))]

/-- The one path from there: the return point is entered, and the text returns. -/
theorem callOutput_path {a : Word} {text : List CStmt} {s : CPUState Word}
    (hPath : (callOutput.generateFunction callFunction).Path cellHost returnedState a text s) :
    a = 0x80010008#32 ∧ text = returnText ∧ s = { returnedState with pc := 0 } := by
  have hEntry : (callOutput.generateFunction callFunction).entry returnedState =
      .goto 0x80010008#32 { returnedState with pc := 0 } := by
    have hListed : (callOutput.generateFunction callFunction).continuations =
        [0x80010008#32] := by
      decide +kernel
    unfold FunctionText.entry
    rw [hListed]
    rfl
  have hAfter : (callOutput.generateFunction callFunction).after 0x80010008#32 =
      some returnText := by
    decide +kernel
  induction hPath with
  | top hTop _ =>
      rw [hEntry] at hTop
      cases hTop
  | enter hHead hBehind =>
      rw [hEntry] at hHead
      cases hHead
      exact ⟨rfl, Option.some.inj (hBehind.symm.trans hAfter), rfl⟩
  | goto _ hRun _ ih =>
      obtain ⟨_, rfl, rfl⟩ := ih
      cases hRun

/-- The block of the call, and the one that it returns to. -/
def callBlock : BasicBlock :=
  ⟨0x80010000#32, 0x80010004#32, analyzeInstruction 0x80010000#32 0x0C008000#32,
    [0x80010008#32], true⟩

def returnBlock : BasicBlock :=
  ⟨0x80010008#32, 0x80010010#32, analyzeInstruction 0x8001000C#32 0x03E00008#32, [], false⟩

/-- A word with one text statement leaves one state. -/
theorem runsTo_unique {ctx : EmitContext} {h : Host M} {a w : Word} {s u u' : CPUState M}
    (hRun : ctx.RunsTo h a w s u) (hText : (ctx.emitWord a w).exec h s 0 = .on u' 0) : u = u' :=
  (Progress.on.inj ((hRun 0).symm.trans hText)).1

/-- Every path through the function publishes: what is entered at the return point returns
to the address in `$31`. -/
theorem pathsPublish_return :
    callOutput.PathsPublish callFunction cellHost returnedState := by
  have hValid : callFunction.Valid :=
    ⟨by decide, by decide, by decide, by decide, by decide, fun _ hMem => by cases hMem⟩
  refine (pathsPublish_iff callOutput hValid cellHost returnedState).mpr ?_
  intro a text s hPath
  obtain ⟨rfl, -, rfl⟩ := callOutput_path hPath
  have hFirst : callImage.readWord 0x80010008#32 = some 0x24030007#32 := by decide +kernel
  have hExit : callImage.readWord 0x8001000C#32 = some 0x03E00008#32 := by decide +kernel
  have hSlot : callImage.readWord (returnBlock.exitInstr.address + 4#32) =
      some 0x24420001#32 := by
    decide +kernel
  constructor
  · intro b s₁ s₂ hEnds
    have hBlocks : (callOutput.context callFunction).cfg.blocks = [callBlock, returnBlock] := by
      decide +kernel
    have hMem := hEnds.block
    rw [hBlocks] at hMem
    rcases List.mem_pair.mp hMem with rfl | rfl
    · exact absurd hEnds.before (by decide)
    · have hAddrs : addrRange 0x80010008#32 returnBlock.exitInstr.address.toNat =
          [0x80010008#32] := by
        decide +kernel
      have hWords := hEnds.words
      rw [hAddrs] at hWords
      obtain ⟨w, u, hRead, _, hRun, rfl⟩ := hWords
      obtain rfl := Option.some.inj (hRead.symm.trans hFirst)
      obtain rfl := runsTo_unique hRun rfl
      obtain ⟨w, hRead, _, hRun⟩ := hEnds.slot
      obtain rfl := Option.some.inj (hRead.symm.trans hSlot)
      obtain rfl := runsTo_unique hRun rfl
      exact ⟨rfl, by decide⟩
  · intro s₁ hRuns
    have hAddrs : addrRange 0x80010008#32 callFunction.endAddr.toNat =
        [0x80010008#32, 0x8001000C#32, 0x80010010#32] := by
      decide +kernel
    rw [EmitContext.RunsOffEnd, hAddrs] at hRuns
    obtain ⟨_, _, _, _, _, w, _, hRead, hPlain, _⟩ := hRuns
    obtain rfl := Option.some.inj (hRead.symm.trans hExit)
    exact absurd hPlain (by decide)

/-- `addiu $2, $2, 1`, and nothing behind it. -/
def stepImage : Image where
  loadAddress := 0x80010000#32
  codeData := [0x01, 0x00, 0x42, 0x24]
  load_kseg0 := Image.text_kseg0
  end_in_ram := by decide

def stepFunction : Function := ⟨0x80010000#32, 0x80010004#32, false, 0, []⟩

/-- The start of the next function is known or not. -/
def stepOutput (next : Bool) : OutputConfig := ⟨stepImage, .none, fun _ => next⟩

theorem stepFunction_valid : stepFunction.Valid :=
  ⟨by decide, by decide, by decide, by decide, by decide, fun _ hMem => by cases hMem⟩

/-- With no function known behind it, the text runs off its end and publishes
nothing. -/
theorem step_publishes_nothing :
    ¬ ∀ (M : Type) (out : OutputConfig) (f : Function) (h : Host M) (s₀ : CPUState M),
      f.Valid → out.PathsPublish f h s₀ := by
  intro hAll
  have hText : ((stepOutput false).generateFunction stepFunction).text =
      [.label 0x80010000#32, .code [.setGpr 2 (.add (.gpr 2) (.lit 1#32))]] := by
    decide
  have hPath : ((stepOutput false).generateFunction stepFunction).Path cellHost (blankState 0)
      0x80010000#32 _ (blankState 0) := .top rfl hText
  have hRuns : ((stepOutput false).context stepFunction).RunsOffEnd stepFunction cellHost
      0x80010000#32 (blankState 0) ((blankState 0).setGpr 2 1) := by
    have hAddrs : addrRange 0x80010000#32 stepFunction.endAddr.toNat = [0x80010000#32] := by
      decide
    rw [EmitContext.RunsOffEnd, hAddrs]
    exact ⟨0x24420001#32, _, by decide, by decide, fun _ => rfl, rfl⟩
  have hArrives := ((hAll Word (stepOutput false) stepFunction cellHost (blankState 0)
    stepFunction_valid).2 _ _ _ hPath).2 _ hRuns
  exact hArrives.2

end RecompStudio.CodeGen
