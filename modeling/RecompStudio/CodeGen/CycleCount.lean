import RecompStudio.CodeGen.CycleAgreement

/-!
The charge at the head of a block and the partial one at a label: how many words they
count, and how many run.
-/

namespace RecompStudio.CodeGen

open RecompStudio.Insn

section Words

variable {f : Function} {img : Image} {b : BasicBlock} {taken : Bool} {a v : Word}
  {addrs rest : List Word} {l : List Executed}

/-- Words that can be read are counted. -/
theorem wordCycles_append (hRead : ∀ a ∈ addrs, (img.readWord a).isSome = true) :
    wordCycles img (addrs ++ rest) = addrs.length + wordCycles img rest := by
  induction addrs with
  | nil => simp
  | cons a addrs ih =>
      obtain ⟨hFirst, hRest⟩ := List.forall_mem_cons.mp hRead
      obtain ⟨w, hWord⟩ := Option.isSome_iff_exists.mp hFirst
      simp only [List.cons_append, wordCycles, hWord, instrBaseCycles, ih hRest, List.length_cons]
      omega

/-- All words are counted if and only if all of them can be read. -/
theorem wordCycles_eq_length_iff :
    wordCycles img addrs = addrs.length ↔ ∀ a ∈ addrs, (img.readWord a).isSome = true := by
  constructor
  · intro hAll
    induction addrs with
    | nil => exact fun a ha => absurd ha List.not_mem_nil
    | cons a addrs ih =>
        rw [wordCycles, List.length_cons] at hAll
        split at hAll
        · omega
        · rename_i w hWord
          rw [instrBaseCycles] at hAll
          exact List.forall_mem_cons.mpr ⟨by rw [hWord]; rfl, ih (by omega)⟩
  · intro hRead
    have hSplit := @wordCycles_append _ _ [] hRead
    rw [List.append_nil] at hSplit
    exact hSplit

theorem length_addrRange (lo : Word) (bound : Nat) :
    (addrRange lo bound).length = (bound - lo.toNat + 3) / 4 := by
  rw [addrRange, List.length_map, List.length_range]

/-- A text without exit runs on as long as words can be read. -/
theorem RunsOn.length_plain (hRuns : RunsOn img b taken a l) (hNone : b.exitInstr.type = .none) :
    l.length = wordCycles img (addrRange a (b.endAddr.toNat + 1)) := by
  have hEnd := b.endAddr.isLt
  induction hRuns with
  | @stop a hStop =>
      rcases hStop with hUnread | hSlot | hBehind
      · by_cases hInside : a.toNat ≤ b.endAddr.toNat
        · obtain ⟨n, hCount⟩ : ∃ n, (b.endAddr.toNat + 1 - a.toNat + 3) / 4 = n + 1 :=
            ⟨(b.endAddr.toNat + 1 - a.toNat + 3) / 4 - 1, by omega⟩
          rw [addrRange, hCount, List.range_succ_eq_map, List.map_cons, wordCycles,
            Nat.mul_zero, BitVec.add_zero, hUnread]
          rfl
        · rw [addrRange_eq_nil (by omega)]
          rfl
      · simp [EmitContext.slotInBlock, hNone] at hSlot
      · rw [addrRange_eq_nil (by omega)]
        rfl
  | @plain a w l hInside hRead _ _ ih =>
      have hRange := img.readWord_range hRead
      rw [addrRange_cons (by omega) (by omega), List.length_cons, ih]
      simp only [wordCycles, hRead, instrBaseCycles]
      omega
  | exit hExit =>
      have hType := (analyzeInstruction_hasDelaySlot b.exitInstr.address hExit.transfers).2
      rw [← hExit.analyzed] at hType
      exact absurd hNone hType

/-- A text with an exit runs up to it and to the delay slot. -/
theorem RunsOn.length_exit (hRuns : RunsOn img b taken a l) (hExit : ExitInstr img b v)
    (hExtent : BlockExtent f (boundaries img f) b) (hLoad : img.loadAddress ≤ a)
    (hLe : a.toNat ≤ b.exitInstr.address.toNat) (hAligned : Aligned a)
    (hExitAligned : Aligned b.exitInstr.address) :
    a.toNat + 4 * l.length =
      b.exitInstr.address.toNat + 4 + 4 * (slotExecuted img b taken).length := by
  have hExitLe : b.exitInstr.address.toNat ≤ b.endAddr.toNat := by
    rcases hExit.position with hAt | ⟨hAt, hBefore⟩
    · rw [hAt]
    · rw [BitVec.lt_def] at hBefore
      have := hExtent.start_aligned
      have := hExtent.end_aligned
      unfold Aligned at *
      rw [hAt, sub_four_toNat (by omega)]
      omega
  induction hRuns with
  | @stop a hStop =>
      exfalso
      rcases hStop with hUnread | hSlot | hBehind
      · have hSome := Image.readWord_isSome hLoad (BitVec.le_def.mpr hLe) hExit.read
        rw [hUnread] at hSome
        cases hSome
      · rw [EmitContext.slotInBlock_eq hExtent hExit, Bool.and_eq_true, decide_eq_true_eq,
          beq_iff_eq] at hSlot
        obtain ⟨hOther, rfl⟩ := hSlot
        exact hOther (BitVec.eq_of_toNat_eq (by omega))
      · omega
  | @plain a w l hInside hRead hPlain _ ih =>
      have hRange := img.readWord_range hRead
      have hOther : a ≠ b.exitInstr.address := by
        intro hSame
        rw [hSame, hExit.read] at hRead
        rw [← Option.some.inj hRead, hExit.transfers] at hPlain
        cases hPlain
      have hNext : (a + 4#32).toNat = a.toNat + 4 := by
        rw [BitVec.toNat_add, BitVec.toNat_ofNat]
        omega
      have hBelow : a.toNat ≠ b.exitInstr.address.toNat := fun hSame =>
        hOther (BitVec.eq_of_toNat_eq hSame)
      rw [BitVec.le_def] at hLoad
      unfold Aligned at hAligned hExitAligned
      have hRest := ih (BitVec.le_def.mpr (by omega)) (by omega) (aligned_add hAligned 1)
      rw [List.length_cons]
      omega
  | exit _ =>
      rw [List.length_cons]
      omega

/-- The block that a word lies in is the only one. -/
theorem block_unique (hf : f.Valid) {b b' : BasicBlock} (hb : b ∈ (analyzeFunction img f).blocks)
    (hb' : b' ∈ (analyzeFunction img f).blocks) (hIn : b.startAddr.toNat ≤ a.toNat)
    (hLe : a.toNat ≤ b.endAddr.toNat) (hIn' : b'.startAddr.toNat ≤ a.toNat)
    (hLe' : a.toNat ≤ b'.endAddr.toNat) : b = b' := by
  have hOrdered := @pairwise_blocks img _ hf
  exact List.Pairwise.forall_of_forall_of_flip (R := fun x y : BasicBlock =>
      x.startAddr.toNat ≤ a.toNat → a.toNat ≤ x.endAddr.toNat →
        y.startAddr.toNat ≤ a.toNat → a.toNat ≤ y.endAddr.toNat → x = y)
    (fun _ _ _ _ _ _ => rfl)
    (hOrdered.imp fun hLt _ _ _ _ => absurd hLt (by omega))
    (hOrdered.imp fun hLt _ _ _ _ => absurd hLt (by omega)) hb hb' hIn hLe hIn' hLe'

/-- A label inside a block counts the words from there on. -/
theorem partialBlockCycleCount_eq (hf : f.Valid) (hb : b ∈ (analyzeFunction img f).blocks)
    (hAligned : Aligned a) (hInside : b.startAddr.toNat < a.toNat)
    (hLe : a.toNat ≤ b.endAddr.toNat) :
    partialBlockCycleCount a (analyzeFunction img f) =
      (b.endAddr.toNat - a.toNat) / 4 + 1 := by
  have hExtent := (mem_blocks hf hb).2
  have hNoLeader : (analyzeFunction img f).hasBlock a = false := by
    rw [← Bool.not_eq_true, hasBlock_iff hf]
    intro hLeader
    rcases hExtent.no_leader a hLeader with hBefore | hBehind <;> omega
  have hHolds : ∀ b' : BasicBlock, (b'.startAddr < a && a ≤ b'.endAddr &&
      (a - b'.startAddr) &&& 3#32 == 0) = true →
      b'.startAddr.toNat ≤ a.toNat ∧ a.toNat ≤ b'.endAddr.toNat := by
    intro b' hHolds
    simp only [Bool.and_eq_true, decide_eq_true_eq, BitVec.lt_def, BitVec.le_def] at hHolds
    exact ⟨hHolds.1.1.le, hHolds.1.2⟩
  have hWord : ((a - b.startAddr) &&& 3#32 == 0) = true := by
    have hStart := hExtent.start_aligned
    unfold Aligned at hAligned hStart
    rw [beq_iff_eq]
    apply BitVec.eq_of_toNat_eq
    rw [BitVec.toNat_and, BitVec.toNat_sub, show (3#32).toNat = 2 ^ 2 - 1 from rfl,
      Nat.and_two_pow_sub_one_eq_mod]
    have := a.isLt
    change _ = 0
    omega
  rw [partialBlockCycleCount, hNoLeader, if_neg Bool.false_ne_true]
  cases hFound : (analyzeFunction img f).blocks.find? fun b =>
      b.startAddr < a && a ≤ b.endAddr && (a - b.startAddr) &&& 3#32 == 0 with
  | none =>
      have hMissed := List.find?_eq_none.mp hFound b hb
      refine absurd ?_ hMissed
      rw [Bool.and_eq_true, Bool.and_eq_true, decide_eq_true_eq, decide_eq_true_eq]
      exact ⟨⟨BitVec.lt_def.mpr hInside, BitVec.le_def.mpr hLe⟩, hWord⟩
  | some b' =>
      have hHere := List.find?_some hFound
      obtain ⟨hIn', hLe'⟩ := hHolds b' hHere
      obtain rfl := block_unique hf hb (List.mem_of_find?_eq_some hFound) hInside.le hLe hIn' hLe'
      change (b.endAddr - a).toNat / 4 + 1 = _
      rw [BitVec.toNat_sub]
      have := b.endAddr.isLt
      omega

/-- The charge at the head counts the words up to the exit, and the delay slot wherever it
stands. -/
theorem blockExecCycles_exit (hExit : ExitInstr img b v)
    (hExtent : BlockExtent f (boundaries img f) b) (hLoad : img.loadAddress ≤ b.startAddr) :
    b.startAddr.toNat + 4 * blockExecCycles img b = b.exitInstr.address.toNat + 4 +
      4 * if (img.readWord (b.exitInstr.address + 4#32)).isSome then 1 else 0 := by
  obtain ⟨hDelay, hType⟩ := analyzeInstruction_hasDelaySlot b.exitInstr.address hExit.transfers
  rw [← hExit.analyzed] at hDelay hType
  have hStart := hExtent.start_aligned
  have hEnd := hExtent.end_aligned
  have hStartLe := hExtent.start_le
  have hEndLt := b.endAddr.isLt
  unfold Aligned at hStart hEnd
  have hBelow : ∀ a : Word, b.startAddr.toNat ≤ a.toNat →
      a.toNat ≤ b.exitInstr.address.toNat → (img.readWord a).isSome = true := by
    intro a hLo hLe
    rw [BitVec.le_def] at hLoad
    exact Image.readWord_isSome (BitVec.le_def.mpr (by omega)) (BitVec.le_def.mpr hLe) hExit.read
  have hReadUpTo : ∀ bound, bound ≤ b.exitInstr.address.toNat + 4 →
    b.exitInstr.address.toNat % 4 = 0 →
      ∀ a ∈ addrRange b.startAddr bound, (img.readWord a).isSome = true := by
    intro bound hBound hExitAligned a ha
    have hRange := img.readWord_range hExit.read
    obtain ⟨i, hi, hLt, -⟩ := mem_addrRange (by omega) ha
    exact hBelow a (by omega) (by omega)
  rcases hExit.position with hAt | ⟨hAt, hBefore⟩
  · have hOutside : exitSlotOutside b = true := by
      simp [exitSlotOutside, hDelay, hType, hAt]
    have hRead := hReadUpTo (b.endAddr.toNat + 1) (by rw [hAt]; omega) (by rw [hAt]; exact hEnd)
    rw [blockExecCycles, if_pos hOutside, wordCycles_eq_length_iff.2 hRead, length_addrRange, hAt]
    cases img.readWord (b.endAddr + 4#32) with
    | none =>
        simp only [Option.isSome_none, Bool.false_eq_true, if_false]
        omega
    | some w =>
        simp only [Option.isSome_some, if_true, instrBaseCycles]
        omega
  · rw [BitVec.lt_def] at hBefore
    have hExitAddr : b.exitInstr.address.toNat = b.endAddr.toNat - 4 := by
      rw [hAt, sub_four_toNat (by omega)]
    have hInside : exitSlotOutside b = false := by
      have hOther : b.exitInstr.address ≠ b.endAddr := by
        rw [ne_eq, ← BitVec.toNat_inj]
        omega
      simp [exitSlotOutside, hOther]
    have hSlot : b.exitInstr.address + 4#32 = b.endAddr := by
      rw [hAt]
      exact BitVec.sub_add_cancel _ _
    have hRead := hReadUpTo b.endAddr.toNat (by omega) (by omega)
    have hLast : addrRange b.endAddr (b.endAddr.toNat + 1) = [b.endAddr] := by
      have hRange := img.readWord_range hExit.read
      rw [addrRange_cons (by omega) (by omega), addrRange_eq_nil]
      rw [BitVec.toNat_add, BitVec.toNat_ofNat]
      omega
    rw [blockExecCycles, hInside, if_neg Bool.false_ne_true,
      @addrRange_split _ b.endAddr _ (by omega) (by omega) (by omega),
      wordCycles_append hRead, length_addrRange, hLast, hSlot]
    cases hWord : img.readWord b.endAddr with
    | none =>
        simp only [wordCycles, hWord, Option.isSome_none, Bool.false_eq_true, if_false]
        omega
    | some w =>
        simp only [wordCycles, hWord, Option.isSome_some, if_true, instrBaseCycles]
        omega

/-- Without an exit it counts the words of the block up to the first that cannot be read. -/
theorem blockExecCycles_plain (hNone : b.exitInstr.type = .none) :
    blockExecCycles img b = wordCycles img (addrRange b.startAddr (b.endAddr.toNat + 1)) := by
  have hOutside : exitSlotOutside b = false := by simp [exitSlotOutside, hNone]
  rw [blockExecCycles, hOutside, if_neg Bool.false_ne_true, Nat.add_zero]

theorem load_le (hRead : (img.readWord a).isSome = true) : img.loadAddress ≤ a := by
  unfold Image.readWord at hRead
  split_ifs at hRead with hOutside
  · cases hRead
  · rw [not_or, BitVec.lt_def, Nat.not_lt] at hOutside
    exact BitVec.le_def.mpr hOutside.1

end Words

namespace BlockPath

variable {out : OutputConfig} {f : Function} {p : BlockPath out f}

theorem baseCycles_eq : p.baseCycles = p.executed.length := by
  simp [baseCycles, instrBaseCycles]

theorem length_slotExecuted :
    (slotExecuted out.img p.block p.taken).length = if p.slotRuns then 1 else 0 := by
  unfold slotExecuted slotRuns slotWord
  cases out.img.readWord (p.block.exitInstr.address + 4#32) with
  | none => rfl
  | some w => cases p.block.exitInstr.isLikely <;> cases p.taken <;> rfl

theorem load_le_entry : out.img.loadAddress ≤ p.entry := load_le (readWord_of_written p.written)

/-- The path begins in front of the exit, or at it. -/
theorem entry_le_exit (hf : f.Valid) {v : Word} (hExit : ExitInstr out.img p.block v) :
    p.entry.toNat ≤ p.block.exitInstr.address.toNat := by
  have hExtent := (CodeGen.mem_blocks hf p.mem_blocks).2
  have hEnd := hExtent.end_aligned
  have hEntry := p.entry_aligned hf
  have hLe := p.entry_range.2
  unfold Aligned at hEnd hEntry
  rcases hExit.position with hAt | ⟨hAt, hBefore⟩
  · rwa [hAt]
  · rw [BitVec.lt_def] at hBefore
    have hExitAddr : p.block.exitInstr.address.toNat = p.block.endAddr.toNat - 4 := by
      rw [hAt, sub_four_toNat (by omega)]
    have hOther : p.entry ≠ p.block.endAddr := by
      have hNotSlot := not_slot_written p.written
      have hDiffers : p.block.exitInstr.address ≠ p.block.endAddr := by
        rw [ne_eq, ← BitVec.toNat_inj]
        omega
      rw [EmitContext.slotInBlock_eq hExtent hExit, decide_eq_true hDiffers, Bool.true_and,
        beq_eq_false_iff_ne] at hNotSlot
      exact hNotSlot
    rw [ne_eq, ← BitVec.toNat_inj] at hOther
    omega

theorem bit_inj {x y : Bool} : (if x then 1 else 0) = (if y then 1 else 0) ↔ x = y := by
  cases x <;> cases y <;> simp

theorem partialCount (hf : f.Valid) (hInner : p.entry ≠ p.block.startAddr) :
    partialBlockCycleCount p.entry (out.context f).cfg =
      (p.block.endAddr.toNat - p.entry.toNat) / 4 + 1 := by
  have hAfter : p.block.startAddr.toNat ≠ p.entry.toNat := fun hSame =>
    hInner (BitVec.eq_of_toNat_eq hSame.symm)
  have hRange := p.entry_range
  exact partialBlockCycleCount_eq hf p.mem_blocks (p.entry_aligned hf) (by omega) hRange.2

/-- Without an exit a path inside the block runs to the end of it where the end can be
read. -/
theorem partial_plain_iff (hf : f.Valid) :
    (p.block.endAddr.toNat - p.entry.toNat) / 4 + 1 =
        wordCycles out.img (addrRange p.entry (p.block.endAddr.toNat + 1)) ↔
      (out.img.readWord p.block.endAddr).isSome = true := by
  have hRange := p.entry_range
  have hEntry := p.entry_aligned hf
  have hEnd := (CodeGen.mem_blocks hf p.mem_blocks).2.end_aligned
  have hBound := p.block.endAddr.isLt
  unfold Aligned at hEntry hEnd
  have hLength : (p.block.endAddr.toNat - p.entry.toNat) / 4 + 1 =
      (addrRange p.entry (p.block.endAddr.toNat + 1)).length := by
    rw [length_addrRange]
    omega
  rw [hLength, eq_comm, wordCycles_eq_length_iff]
  constructor
  · exact fun hAll => hAll _ (mem_addrRange_of hRange.2 (by omega) (by omega))
  · intro hSome a ha
    obtain ⟨w, hWord⟩ := Option.isSome_iff_exists.mp hSome
    obtain ⟨i, hi, hLt, -⟩ := mem_addrRange (by omega) ha
    have hLoad := p.load_le_entry
    rw [BitVec.le_def] at hLoad
    exact Image.readWord_isSome (BitVec.le_def.mpr (by omega)) (BitVec.le_def.mpr (by omega)) hWord

/-- What is charged at once is the base cost of the words that run, if and only if the
delay slot is counted where it runs. -/
theorem upFrontCycles_iff (hf : f.Valid) : p.upFrontCycles = p.baseCycles ↔ p.SlotCounted := by
  rw [baseCycles_eq]
  unfold upFrontCycles SlotCounted
  by_cases hNone : p.block.exitInstr.type = .none
  · rw [if_pos hNone, (p.runs hf).length_plain hNone]
    by_cases hHead : p.entry = p.block.startAddr
    · rw [if_pos hHead, blockExecCycles_plain hNone, hHead]
      simp
    · rw [if_neg hHead, partialCount hf hHead, partial_plain_iff hf, or_iff_right hHead]
  · obtain ⟨v, hExit⟩ := exitInstr_of_mem_blocks hf p.mem_blocks hNone
    have hExtent := (CodeGen.mem_blocks hf p.mem_blocks).2
    have hEntry := p.entry_aligned hf
    have hEnd := hExtent.end_aligned
    have hLe := p.entry_le_exit hf hExit
    have hEndLe := p.entry_range.2
    have hExitAddr : p.block.exitInstr.address.toNat +
        4 * (if EmitContext.slotInBlock p.block then 1 else 0) = p.block.endAddr.toNat := by
      rw [EmitContext.slotInBlock_eq hExtent hExit]
      rcases hExit.position with hAt | ⟨hAt, hBefore⟩
      · simp [hAt]
      · have hStart := hExtent.start_aligned
        unfold Aligned at hStart hEnd
        rw [BitVec.lt_def] at hBefore
        have hFour := sub_four_toNat (a := p.block.endAddr) (by omega)
        rw [← hAt] at hFour
        have hDiffers : p.block.exitInstr.address ≠ p.block.endAddr := by
          rw [ne_eq, ← BitVec.toNat_inj]
          omega
        rw [decide_eq_true hDiffers, if_pos rfl]
        omega
    have hExitAligned : Aligned p.block.exitInstr.address := by
      unfold Aligned at hEnd ⊢
      omega
    have hLength := (p.runs hf).length_exit hExit hExtent p.load_le_entry hLe hEntry hExitAligned
    rw [length_slotExecuted] at hLength
    unfold Aligned at hEntry hExitAligned
    rw [if_neg hNone]
    by_cases hHead : p.entry = p.block.startAddr
    · have hCount := blockExecCycles_exit hExit hExtent (hHead ▸ p.load_le_entry)
      rw [if_pos hHead, if_pos hHead, slotWord, ← bit_inj]
      rw [hHead] at hLength
      omega
    · rw [if_neg hHead, if_neg hHead, partialCount hf hHead, ← bit_inj]
      omega

end BlockPath

end RecompStudio.CodeGen
