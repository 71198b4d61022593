import RecompStudio.CodeGen.ControlFlow

/-!
What `analyze_function` guarantees of the blocks of a function, whose leaders, exits and
successors it finds in separate passes over the same words: they tile the function, they
start wherever control can arrive, and each is followed by the successors of its last
instruction. A transfer and its delay slot share a block, unless something makes the slot
a leader or the function ends in front of it.
-/

namespace RecompStudio.CodeGen

open RecompStudio.Insn

/-- The word at an address of a function is a control transfer. -/
structure TransferIn (img : Image) (f : Function) (a w : Word) : Prop where
  aligned : Aligned a
  inside : inRange f a = true
  read : img.readWord a = some w
  transfers : isControlFlow w = true

/-- Some transfer of the function aims at the address. -/
def IsTarget (img : Image) (f : Function) (a : Word) : Prop :=
  ∃ c w, TransferIn img f c w ∧ (analyzeInstruction c w).target = a

/-- The address lies behind the delay slot of a transfer of the function. -/
def IsAfterSlot (img : Image) (f : Function) (a : Word) : Prop :=
  ∃ c w, TransferIn img f c w ∧ c + 8#32 = a

/-- An entry of the host that an alias shares. -/
def IsEntry (f : Function) (a : Word) : Prop :=
  a = f.walkLo ∨ f.aliasWalkLo ≠ 0 ∧ (a = f.startAddr ∨ a ∈ f.aliasGroupEntries)

/-- The reasons why a block ends in front of a delay slot: a target, a return point,
an entry, or the end of the function. -/
def SlotParts (img : Image) (f : Function) (a : Word) : Prop :=
  IsTarget img f a ∨ IsAfterSlot img f a ∨ IsEntry f a ∨ a = f.endAddr

/-- The block holds the instruction at an address. -/
def BasicBlock.Holds (b : BasicBlock) (a : Word) : Prop :=
  b.startAddr.toNat ≤ a.toNat ∧ a.toNat ≤ b.endAddr.toNat

/-- The last instruction of a block that is not a delay slot. -/
def lastInstr (img : Image) (b : BasicBlock) : Word :=
  if b.startAddr < b.endAddr ∧ (transferAt img (b.endAddr - 4#32)).isSome then b.endAddr - 4#32
  else b.endAddr

/-- Where control goes on behind an instruction, when calls return. The targets of
registers are not known. -/
@[grind =] def archSuccessors (img : Image) (a : Word) : List Word :=
  match (img.readWord a).map Op.ofWord with
  | some .jr => []
  | some .regimm | some .beq | some .bne | some .blez | some .bgtz | some .beql | some .bnel
  | some .blezl | some .bgtzl =>
      [branchTarget a ((img.readWord a).getD 0), a + 8#32]
  | some .j => [jumpTarget a ((img.readWord a).getD 0)]
  | some .jal | some .jalr => [a + 8#32]
  | _ => [a + 4#32]

/-- The blocks of a function, with the reasons that may part a transfer from its delay
slot. -/
structure BlocksOk (img : Image) (f : Function) (parts : Word → Prop) : Prop where
  sorted : (analyzeFunction img f).blocks.Pairwise fun b b' => b.endAddr.toNat < b'.startAddr.toNat
  inside : ∀ b ∈ (analyzeFunction img f).blocks, f.walkLo.toNat ≤ b.startAddr.toNat ∧
    b.startAddr.toNat ≤ b.endAddr.toNat ∧ b.endAddr.toNat + 4 ≤ f.endAddr.toNat
  covers : ∀ a, Aligned a → inRange f a = true → ∃ b ∈ (analyzeFunction img f).blocks, b.Holds a
  targets : ∀ a, IsTarget img f a → inRange f a = true → (analyzeFunction img f).hasBlock a = true
  afterSlots : ∀ a, IsAfterSlot img f a → inRange f a = true →
    (analyzeFunction img f).hasBlock a = true
  slots : ∀ a w, TransferIn img f a w →
    (∃ b ∈ (analyzeFunction img f).blocks, b.Holds a ∧ b.Holds (a + 4#32)) ∨ parts (a + 4#32)
  successors : ∀ b ∈ (analyzeFunction img f).blocks,
    b.successors = (archSuccessors img (lastInstr img b)).filter (inRange f)

section Blocks

variable {img : Image} {f : Function} {b : BasicBlock} {a c w : Word}

theorem TransferIn.walked (h : TransferIn img f a w) (hf : f.Valid) :
    a ∈ addrRange f.walkLo f.endAddr.toNat := by
  have hRange := of_decide_eq_true h.inside
  have hAligned := h.aligned
  have hWalk := hf.walk_aligned
  unfold Aligned at hAligned hWalk
  rw [BitVec.le_def, BitVec.lt_def] at hRange
  exact mem_addrRange_of hRange.1 hRange.2 (by omega)

/-- The blocks from one of them on hold everything behind its start. -/
theorem holds_of_suffix (hf : f.Valid) (hAligned : Aligned a) (hHigh : a.toNat < f.endAddr.toNat)
    {pre rest : List BasicBlock} (hBlocks : (analyzeFunction img f).blocks = pre ++ rest)
    (hLow : ((rest.map BasicBlock.startAddr).headD f.endAddr).toNat ≤ a.toNat) :
    ∃ b ∈ rest, b.Holds a := by
  induction rest generalizing pre with
  | nil => exact absurd hLow (by simpa using hHigh)
  | cons b rest ih =>
      have hb : b ∈ (analyzeFunction img f).blocks := by simp [hBlocks]
      by_cases hInside : a.toNat ≤ b.endAddr.toNat
      · exact ⟨b, List.mem_cons_self, hLow, hInside⟩
      · have hNext := next_block hf hBlocks
        have hAfter := (mem_blocks hf hb).2.afterBlock_toNat
        have hEnd := (mem_blocks hf hb).2.end_aligned
        unfold Aligned at hAligned hEnd
        have hSplit : (analyzeFunction img f).blocks = (pre ++ [b]) ++ rest := by simp [hBlocks]
        obtain ⟨b', hMem, hHolds⟩ := ih hSplit (by rw [← hNext, hAfter]; omega)
        exact ⟨b', List.mem_cons_of_mem _ hMem, hHolds⟩

/-- Every instruction of the function is in a block. -/
theorem holds_of_inRange (hf : f.Valid) (hAligned : Aligned a) (hIn : inRange f a = true) :
    ∃ b ∈ (analyzeFunction img f).blocks, b.Holds a := by
  have hRange := of_decide_eq_true hIn
  rw [BitVec.le_def, BitVec.lt_def] at hRange
  refine holds_of_suffix hf hAligned hRange.2 (List.nil_append _).symm ?_
  rw [map_startAddr_blocks hf]
  have hWalk : f.walkLo ∈ boundaries img f := mem_boundaries.mpr (.inl rfl)
  have hSorted : (boundaries img f).Pairwise (· < ·) := pairwise_sortUnique _
  cases hLeaders : boundaries img f with
  | nil =>
      rw [hLeaders] at hWalk
      cases hWalk
  | cons first rest =>
      rw [hLeaders] at hWalk hSorted
      rcases List.mem_cons.mp hWalk with rfl | hLater
      · exact hRange.1
      · have hLt := (List.pairwise_cons.mp hSorted).1 _ hLater
        rw [BitVec.lt_def] at hLt
        exact Nat.le_trans (Nat.le_of_lt hLt) hRange.1

theorem leader_of_target (hf : f.Valid) (hTarget : IsTarget img f a) (hIn : inRange f a = true) :
    a ∈ boundaries img f := by
  obtain ⟨c, w, hTransfer, rfl⟩ := hTarget
  by_cases hZero : (analyzeInstruction c w).target = 0
  · -- a target of zero is in range only where the function begins there
    have hWalk := (of_decide_eq_true hIn).1
    rw [hZero, BitVec.le_def] at hWalk
    refine mem_boundaries.mpr (.inl ?_)
    rw [hZero]
    exact BitVec.eq_of_toNat_eq (Nat.le_zero.mp hWalk).symm
  · exact mem_boundaries.mpr (.inr (.inr ⟨c, hTransfer.walked hf, mem_scanBoundaries.mpr
      ⟨w, hTransfer.read,
        mem_wordBoundaries.mpr ⟨hTransfer.transfers, hIn, .inl ⟨rfl, hZero⟩⟩⟩⟩))

theorem leader_of_afterSlot (hf : f.Valid) (hAfter : IsAfterSlot img f a)
    (hIn : inRange f a = true) : a ∈ boundaries img f := by
  obtain ⟨c, w, hTransfer, rfl⟩ := hAfter
  exact mem_boundaries.mpr (.inr (.inr ⟨c, hTransfer.walked hf, mem_scanBoundaries.mpr
    ⟨w, hTransfer.read, mem_wordBoundaries.mpr ⟨hTransfer.transfers, hIn, .inr rfl⟩⟩⟩))

theorem leader_cases (hf : f.Valid) (hLeader : a ∈ boundaries img f) :
    IsTarget img f a ∨ IsAfterSlot img f a ∨ IsEntry f a := by
  rcases mem_boundaries.mp hLeader with hWalk | ⟨hAlias, hEntry⟩ | ⟨c, hWalked, hScan⟩
  · exact .inr (.inr (.inl hWalk))
  · exact .inr (.inr (.inr ⟨hAlias, hEntry.imp_right And.left⟩))
  · obtain ⟨w, hRead, hWord⟩ := mem_scanBoundaries.mp hScan
    obtain ⟨hFlow, _, hWhy⟩ := mem_wordBoundaries.mp hWord
    obtain ⟨i, hAt, hBelow, _⟩ := mem_addrRange (Nat.le_of_lt f.endAddr.isLt) hWalked
    have hInside : inRange f c = true := by
      refine decide_eq_true ?_
      rw [BitVec.le_def, BitVec.lt_def]
      omega
    have hTransfer : TransferIn img f c w :=
      ⟨aligned_of_mem_addrRange hf.walk_aligned hWalked, hInside, hRead, hFlow⟩
    rcases hWhy with ⟨rfl, _⟩ | rfl
    · exact .inl ⟨c, w, hTransfer, rfl⟩
    · exact .inr (.inl ⟨c, w, hTransfer, rfl⟩)

/-- A transfer and its slot share a block, or the slot is a leader or behind the end. -/
theorem slot_shares (hf : f.Valid) (hTransfer : TransferIn img f a w) :
    (∃ b ∈ (analyzeFunction img f).blocks, b.Holds a ∧ b.Holds (a + 4#32)) ∨
      SlotParts img f (a + 4#32) := by
  obtain ⟨b, hb, hLow, hHigh⟩ := @holds_of_inRange img _ _ hf hTransfer.aligned hTransfer.inside
  have hAligned := hTransfer.aligned
  have hEnd := (mem_blocks hf hb).2.end_aligned
  have hAfter := (mem_blocks hf hb).2.afterBlock_toNat
  have hNext : (a + 4#32).toNat = a.toNat + 4 := by
    have := (mem_blocks hf hb).2.end_lt
    have := f.endAddr.isLt
    rw [BitVec.toNat_add, BitVec.toNat_ofNat]
    omega
  unfold Aligned at hAligned hEnd
  by_cases hInside : a.toNat + 4 ≤ b.endAddr.toNat
  · exact .inl ⟨b, hb, ⟨hLow, hHigh⟩, by rw [hNext]; omega, by rw [hNext]; exact hInside⟩
  · right
    have hLast : a = b.endAddr := BitVec.eq_of_toNat_eq (by omega)
    obtain ⟨pre, post, hBlocks⟩ := List.append_of_mem hb
    have hEnds := next_block hf hBlocks
    rw [hLast, hEnds]
    cases post with
    | nil => exact .inr (.inr (.inr rfl))
    | cons next rest =>
        have hMem : next ∈ (analyzeFunction img f).blocks := by simp [hBlocks]
        obtain hTarget | hSlot | hEntry := leader_cases hf (mem_blocks hf hMem).2.leader
        · exact .inl hTarget
        · exact .inr (.inl hSlot)
        · exact .inr (.inr (.inl hEntry))

/-- The successors of a transfer that lie in the function are leaders of it. -/
theorem blockSuccessors_transfer (hf : f.Valid) (hTransfer : TransferIn img f a w) (stop : Word) :
    blockSuccessors f (boundaries img f) stop (analyzeInstruction a w) =
      (archSuccessors img a).filter (inRange f) := by
  have hRead := hTransfer.read
  have hFlow := hTransfer.transfers
  have hAfter : (inRange f (a + 8#32) && (boundaries img f).contains (a + 8#32)) =
      inRange f (a + 8#32) := by
    cases hIn : inRange f (a + 8#32) with
    | false => rfl
    | true => simpa using leader_of_afterSlot hf ⟨a, w, hTransfer, rfl⟩ hIn
  have hTarget : (inRange f (analyzeInstruction a w).target &&
      (boundaries img f).contains (analyzeInstruction a w).target) =
        inRange f (analyzeInstruction a w).target := by
    cases hIn : inRange f (analyzeInstruction a w).target with
    | false => rfl
    | true => simpa using leader_of_target hf ⟨a, w, hTransfer, rfl⟩ hIn
  have hBranch := branchTarget_ne_zero hRead w
  have hJump := jumpTarget_ne_zero hRead w
  rw [isControlFlow] at hFlow
  rw [archSuccessors, hRead, Option.map_some, Option.getD_some]
  cases hOp : Op.ofWord w <;> simp only [hOp, Bool.false_eq_true] at hFlow <;>
    simp only [analyzeInstruction, hOp] at hTarget ⊢
  case jr => split_ifs <;> rfl
  case jalr | jal => simp only [blockSuccessors, hAfter, List.filter_cons, List.filter_nil]
  case j =>
    simp only [blockSuccessors, hTarget, ne_eq, hJump, not_false_eq_true, true_and,
      List.filter_cons, List.filter_nil]
  all_goals
    simp only [blockSuccessors, hTarget, hAfter, List.filter_cons, List.filter_nil, ne_eq, hBranch,
      not_false_eq_true, true_and]
    split_ifs <;> rfl

/-- A block without a transfer at its end goes on behind it. -/
theorem blockSuccessors_none (hf : f.Valid) (hb : b ∈ (analyzeFunction img f).blocks)
    (hNone : transferAt img b.endAddr = none) {cf : ControlFlowInstr} (hType : cf.type = .none) :
    blockSuccessors f (boundaries img f) b.endAddr cf =
      (archSuccessors img b.endAddr).filter (inRange f) := by
  have hNext : (inRange f (b.endAddr + 4#32) && (boundaries img f).contains (b.endAddr + 4#32)) =
      inRange f (b.endAddr + 4#32) := by
    cases hIn : inRange f (b.endAddr + 4#32) with
    | false => rfl
    | true =>
        obtain ⟨pre, post, hBlocks⟩ := List.append_of_mem hb
        have hEnds := next_block hf hBlocks
        cases post with
        | nil =>
            -- the end of the function is not in its range
            rw [hEnds] at hIn
            exact absurd (of_decide_eq_true hIn).2 (BitVec.lt_irrefl _)
        | cons next rest =>
            have hMem : next ∈ (analyzeFunction img f).blocks := by simp [hBlocks]
            have hLeader := (mem_blocks hf hMem).2.leader
            rw [hEnds]
            simpa using hLeader
  have hArch : archSuccessors img b.endAddr = [b.endAddr + 4#32] := by
    rw [transferAt] at hNone
    rw [archSuccessors]
    cases hRead : img.readWord b.endAddr with
    | none => rfl
    | some w =>
        rw [hRead] at hNone
        simp only [isControlFlow] at hNone
        rw [Option.map_some]
        cases hOp : Op.ofWord w <;> simp only [hOp, if_true, reduceCtorEq] at hNone ⊢
  rw [blockSuccessors, hType, hArch]
  simp only [hNext, List.filter_cons, List.filter_nil]

theorem transferIn_of_transferAt (hf : f.Valid) (hb : b ∈ (analyzeFunction img f).blocks)
    {cf : ControlFlowInstr} (hAt : transferAt img a = some cf) (hAligned : Aligned a)
    (hHolds : b.Holds a) : ∃ w, TransferIn img f a w ∧ cf = analyzeInstruction a w := by
  obtain ⟨w, hRead, hFlow, rfl⟩ := transferAt_eq_some hAt
  have hExtent := (mem_blocks hf hb).2
  have hLeader := of_decide_eq_true (boundaries_spec hf hExtent.leader).1
  have hEnd := hExtent.end_lt
  have hLow := hHolds.1
  have hHigh := hHolds.2
  rw [BitVec.le_def] at hLeader
  refine ⟨w, ⟨hAligned, decide_eq_true ?_, hRead, hFlow⟩, rfl⟩
  rw [BitVec.le_def, BitVec.lt_def]
  omega

/-- The successors of a block are those of its last instruction. -/
theorem successors_arch (hf : f.Valid) (hb : b ∈ (analyzeFunction img f).blocks) :
    b.successors = (archSuccessors img (lastInstr img b)).filter (inRange f) := by
  obtain ⟨hBuilt, hExtent⟩ := mem_blocks hf hb
  have hEnd := hExtent.end_aligned
  have hStart := hExtent.start_aligned
  have hLe := hExtent.start_le
  have hExit : b.exitInstr = blockExit img b.startAddr b.endAddr :=
    congrArg BasicBlock.exitInstr hBuilt
  rw [successors_eq hBuilt, hExit, blockExit, lastInstr]
  cases hPrev : (if b.startAddr < b.endAddr then transferAt img (b.endAddr - 4#32) else none) with
  | some cf =>
      split_ifs at hPrev with hLt
      unfold Aligned at hEnd hStart
      rw [BitVec.lt_def] at hLt
      have hBefore := sub_four_toNat (a := b.endAddr) (by omega)
      have hAligned : Aligned (b.endAddr - 4#32) := by
        unfold Aligned
        omega
      obtain ⟨w, hTransfer, rfl⟩ :=
        transferIn_of_transferAt hf hb hPrev hAligned ⟨by omega, by omega⟩
      rw [if_pos ⟨BitVec.lt_def.mpr hLt, by rw [hPrev]; rfl⟩]
      exact blockSuccessors_transfer hf hTransfer _
  | none =>
      have hNoPrev : ¬ (b.startAddr < b.endAddr ∧
          (transferAt img (b.endAddr - 4#32)).isSome = true) := by
        rintro ⟨hLt, hSome⟩
        rw [if_pos hLt] at hPrev
        rw [hPrev] at hSome
        cases hSome
      rw [if_neg hNoPrev]
      cases hLast : transferAt img b.endAddr with
      | some cf =>
          obtain ⟨w, hTransfer, rfl⟩ :=
            transferIn_of_transferAt hf hb hLast hEnd ⟨hLe, Nat.le_refl _⟩
          exact blockSuccessors_transfer hf hTransfer _
      | none => exact blockSuccessors_none hf hb hLast rfl

end Blocks

/-- The blocks of every function: they tile it, targets and return points start one, a
transfer keeps its delay slot unless that is a leader or behind the end, and their
successors are those of their last instruction. -/
theorem analyzeFunction_ok (img : Image) (f : Function) (hf : f.Valid) :
    BlocksOk img f (SlotParts img f) where
  sorted := pairwise_blocks hf
  inside b hb := by
    have hExtent := (mem_blocks hf hb).2
    have hLeader := (of_decide_eq_true (boundaries_spec hf hExtent.leader).1).1
    rw [BitVec.le_def] at hLeader
    exact ⟨hLeader, hExtent.start_le, hExtent.end_lt⟩
  covers _ hAligned hIn := holds_of_inRange hf hAligned hIn
  targets _ hTarget hIn := (hasBlock_iff hf).mpr (leader_of_target hf hTarget hIn)
  afterSlots _ hAfter hIn := (hasBlock_iff hf).mpr (leader_of_afterSlot hf hAfter hIn)
  slots _ _ hTransfer := slot_shares hf hTransfer
  successors _ hb := successors_arch hf hb

/-- `jr $31` and a `nop`. -/
def jrImage : Image where
  loadAddress := 0x80010000#32
  codeData := [0x08, 0x00, 0xE0, 0x03, 0x00, 0x00, 0x00, 0x00]
  load_kseg0 := Image.text_kseg0
  end_in_ram := by simp

/-- The first words of the image. -/
def jrFunction (stop : Word) : Function := ⟨0x80010000#32, stop, false, 0, []⟩

theorem jrFunction_valid {stop : Word} (hStop : 0x80010000#32 < stop)
    (hAligned : Aligned stop) : (jrFunction stop).Valid where
  nonempty := hStop
  start_in := decide_eq_true ⟨BitVec.le_refl _, hStop⟩
  walk_aligned := (by decide : Aligned 0x80010000#32)
  start_aligned := (by decide : Aligned 0x80010000#32)
  end_aligned := hAligned
  entries_aligned e he := by cases he

theorem analyzeFunction_ok_return :
    BlocksOk jrImage (jrFunction 0x80010008#32)
      (SlotParts jrImage (jrFunction 0x80010008#32)) :=
  analyzeFunction_ok _ _ (jrFunction_valid (by decide) (by decide))

/-- A transfer in the last word of a function is parted from its slot, which is no
target. -/
theorem analyzeFunction_parts_last :
    ¬ ∀ (img : Image) (f : Function), f.Valid → BlocksOk img f (IsTarget img f) := by
  intro h
  have hOk := h jrImage (jrFunction 0x80010004#32)
    (jrFunction_valid (by decide) (by decide))
  have hJump : TransferIn jrImage (jrFunction 0x80010004#32) 0x80010000#32 0x03E00008#32 :=
    ⟨by decide, by decide, by decide, by decide⟩
  rcases hOk.slots _ _ hJump with ⟨b, hb, _, hSlot⟩ | ⟨c, w, hTransfer, hTarget⟩
  · have hInside := (hOk.inside b hb).2.2
    have hAbove := hSlot.2
    change b.endAddr.toNat + 4 ≤ 0x80010004 at hInside
    change 0x80010004 ≤ b.endAddr.toNat at hAbove
    omega
  · -- the only word of the function is the `jr`, which aims nowhere
    have hRange := of_decide_eq_true hTransfer.inside
    have hLow : 0x80010000 ≤ c.toNat := hRange.1
    have hHigh : c.toNat < 0x80010004 := hRange.2
    have hAligned := hTransfer.aligned
    unfold Aligned at hAligned
    have hOnly : c = 0x80010000#32 := BitVec.eq_of_toNat_eq (by
      change c.toNat = 0x80010000
      omega)
    subst hOnly
    have hRead := hTransfer.read.symm.trans hJump.read
    rw [Option.some.inj hRead] at hTarget
    exact absurd hTarget (by decide)

end RecompStudio.CodeGen
