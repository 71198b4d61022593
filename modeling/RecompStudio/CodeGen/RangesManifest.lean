import RecompStudio.CodeGen.Block
import RecompStudio.Library.Intervals

/-!
The code-range manifest that accompanies a compiled overlay: for each function
the byte ranges that the loader hashes before it trusts the function.
-/

namespace RecompStudio.CodeGen

open RecompStudio.Intervals

/-- One `F` line of the manifest with its `R` lines, as lower and upper ends. -/
structure ManifestEntry where
  entry : Word
  ranges : List (Nat × Nat)
deriving DecidableEq, Repr

/-- The bytes of a block; its end is the address of its last instruction. -/
def blockInterval (b : BasicBlock) : Nat × Nat := (b.startAddr.toNat, (b.endAddr + 4#32).toNat)

/-- The merged intervals of a function's blocks. -/
def codeRanges (cfg : ControlFlowGraph) : List (Nat × Nat) :=
  coalesce (sort ((cfg.blocks.map blockInterval).filter fun r => r.1 < r.2))

/-- `generate_ranges_manifest`; a function without blocks has no entry. -/
def generateRangesManifest (img : Image) (fs : List Function) : List ManifestEntry :=
  fs.filterMap fun f =>
    match codeRanges (analyzeFunction img f) with
    | [] => none
    | ranges => some ⟨f.startAddr, ranges⟩

/-- The delay slot that is cloned into the end of a block. -/
@[grind =] def clonedSlot (img : Image) (b : BasicBlock) : List Word :=
  if b.exitInstr.hasDelaySlot ∧ (img.readWord (b.exitInstr.address + 4#32)).isSome then
    [b.exitInstr.address + 4#32]
  else []

/-- The words that the text of a block is translated from. -/
def blockWords (img : Image) (b : BasicBlock) : List Word :=
  addrRange b.startAddr (b.endAddr.toNat + 1) ++ clonedSlot img b

/-- The words that the text of a function is translated from. -/
def emittedWords (img : Image) (f : Function) : List Word :=
  (analyzeFunction img f).blocks.flatMap (blockWords img)

/-- The ranges of a function ascend without touching, and every word that went
into its text lies in one of them. -/
structure RangesSound (img : Image) (f : Function) (m : ManifestEntry) : Prop where
  entry : m.entry = f.startAddr
  nonempty : ∀ r ∈ m.ranges, r.1 < r.2
  separated : m.ranges.Pairwise fun r s => r.2 < s.1
  covers : ∀ a ∈ emittedWords img f, ∃ r ∈ m.ranges, r.1 ≤ a.toNat ∧ a.toNat + 4 ≤ r.2

/-- No block ends in a transfer whose delay slot is the first word behind the
function. -/
def SlotsInside (img : Image) (f : Function) : Prop :=
  ∀ b ∈ (analyzeFunction img f).blocks, b.exitInstr.hasDelaySlot = true →
    (img.readWord f.endAddr).isSome = true → b.exitInstr.address + 4#32 ≠ f.endAddr

section Text

variable {ctx : EmitContext} {img' : Image} {b : BasicBlock}

/-- The text of an exit reads the slot and the jump table. -/
theorem emitExit_congr
    (hSlot : ctx.img.readWord (b.exitInstr.address + 4#32) =
      img'.readWord (b.exitInstr.address + 4#32))
    (hTable : jrEntries ctx.img ctx.cfg b = jrEntries img' ctx.cfg b) :
    ctx.emitExit b = { ctx with img := img' }.emitExit b := by
  have hDelay : ctx.delaySlot b.exitInstr = { ctx with img := img' }.delaySlot b.exitInstr := by
    rw [EmitContext.delaySlot, EmitContext.delaySlot, hSlot]
    rfl
  have hTest : ctx.branchTest b.exitInstr = { ctx with img := img' }.branchTest b.exitInstr := by
    rw [EmitContext.branchTest, EmitContext.branchTest, hSlot]
    rfl
  have hTransfer : ctx.emitTransfer b = { ctx with img := img' }.emitTransfer b := by
    rw [EmitContext.emitTransfer, EmitContext.emitTransfer]
    cases b.exitInstr.type with
    | branch =>
        simp only [EmitContext.emitBranch, hTest]
        rfl
    | jumpRegister =>
        simp only [EmitContext.emitJumpRegister, hTable]
    | _ => rfl
  rw [EmitContext.emitExit, EmitContext.emitExit, hDelay, hTransfer]

theorem emitBody_congr {addrs : List Word}
    (hWords : ∀ a ∈ addrs, ctx.img.readWord a = img'.readWord a)
    (hExit : (∃ a ∈ addrs, ∃ w, ctx.img.readWord a = some w ∧ isControlFlow w = true) →
      ctx.emitExit b = { ctx with img := img' }.emitExit b) :
    ctx.emitBody b addrs = { ctx with img := img' }.emitBody b addrs := by
  induction addrs with
  | nil => rfl
  | cons a rest ih =>
      have hRest := ih (fun a' ha' => hWords a' (List.mem_cons_of_mem a ha')) fun ⟨a', ha', hw⟩ =>
        hExit ⟨a', List.mem_cons_of_mem a ha', hw⟩
      rw [EmitContext.emitBody, EmitContext.emitBody, ← hWords a List.mem_cons_self, hRest]
      cases hRead : ctx.img.readWord a with
      | none => rfl
      | some w =>
          cases hFlow : isControlFlow w with
          | false =>
              simp only [hFlow, Bool.false_eq_true, if_false]
              rfl
          | true =>
              rw [hExit ⟨a, List.mem_cons_self, w, hRead, hFlow⟩]
              rfl

/-- The text of a block depends on no other word than those of `blockWords` and
the jump table of its exit: these are the words that a manifest has to cover. -/
theorem translateBasicBlock_congr {f : Function} (hf : f.Valid)
    (hb : b ∈ (analyzeFunction ctx.img f).blocks)
    (hWords : ∀ a ∈ blockWords ctx.img b, ctx.img.readWord a = img'.readWord a)
    (hRange : ∀ a, (ctx.img.readWord a).isSome = (img'.readWord a).isSome)
    (hTable : jrEntries ctx.img ctx.cfg b = jrEntries img' ctx.cfg b) :
    ctx.translateBasicBlock b = { ctx with img := img' }.translateBasicBlock b := by
  have hBody := @emitBody_congr ctx img' b (addrRange b.startAddr (b.endAddr.toNat + 1))
    (fun a ha => hWords a (List.mem_append_left _ ha)) fun ⟨a, ha, w, hRead, hFlow⟩ => by
      have hExtent := (mem_blocks hf hb).2
      obtain ⟨i, hLo, hHi, _⟩ := mem_addrRange (by have := b.endAddr.isLt; omega) ha
      have hType := (transfer_position hf hb (aligned_of_mem_addrRange hExtent.start_aligned ha)
        (by omega) (by omega) hRead hFlow).1
      obtain ⟨v, hExit⟩ := exitInstr_of_mem_blocks hf hb hType
      have hHas : b.exitInstr.hasDelaySlot = true := by
        rw [hExit.analyzed]
        exact (analyzeInstruction_hasDelaySlot _ hExit.transfers).1
      refine emitExit_congr ?_ hTable
      cases hSlot : ctx.img.readWord (b.exitInstr.address + 4#32) with
      | none =>
          have hNone := hRange (b.exitInstr.address + 4#32)
          rw [hSlot] at hNone
          cases hSlot' : img'.readWord (b.exitInstr.address + 4#32) with
          | none => rfl
          | some w' =>
              rw [hSlot'] at hNone
              cases hNone
      | some w' =>
          rw [← hSlot]
          refine hWords _ (List.mem_append_right _ ?_)
          rw [clonedSlot, if_pos ⟨hHas, by rw [hSlot]; rfl⟩]
          exact List.mem_singleton_self _
  rw [EmitContext.translateBasicBlock, EmitContext.translateBasicBlock, hBody]
  rfl

end Text

section Ranges

variable {img : Image} {f : Function} {b : BasicBlock}

/-- The interval of a block is its words and ends inside the function. -/
theorem blockInterval_spec (hf : f.Valid) (hb : b ∈ (analyzeFunction img f).blocks) :
    (blockInterval b).1 = b.startAddr.toNat ∧ (blockInterval b).2 = b.endAddr.toNat + 4 ∧
      b.startAddr.toNat ≤ b.endAddr.toNat ∧ b.endAddr.toNat + 4 ≤ f.endAddr.toNat := by
  have hExtent := (mem_blocks hf hb).2
  have hEnd := hExtent.end_lt
  have hBound := f.endAddr.isLt
  refine ⟨rfl, ?_, hExtent.start_le, hEnd⟩
  rw [blockInterval, BitVec.toNat_add, BitVec.toNat_ofNat]
  omega

theorem mem_intervals (hf : f.Valid) (hb : b ∈ (analyzeFunction img f).blocks) :
    blockInterval b ∈ sort (((analyzeFunction img f).blocks.map blockInterval).filter
      fun r => r.1 < r.2) := by
  obtain ⟨hLo, hHi, hLe, _⟩ := blockInterval_spec hf hb
  refine mem_sort.mpr (List.mem_filter.mpr ⟨List.mem_map_of_mem hb, decide_eq_true ?_⟩)
  omega

theorem separated_codeRanges (cfg : ControlFlowGraph) :
    (codeRanges cfg).Pairwise fun r s => r.2 < s.1 :=
  separated_coalesce (pairwise_sort _)

/-- Every block lies inside one range. -/
theorem block_inside (hf : f.Valid) (hb : b ∈ (analyzeFunction img f).blocks) :
    ∃ r ∈ codeRanges (analyzeFunction img f), Inside (blockInterval b) r :=
  inside_coalesce (pairwise_sort _) (mem_intervals hf hb)

/-- The ranges end where blocks do, inside the function. -/
theorem codeRanges_end_le (hf : f.Valid) {r : Nat × Nat}
    (hr : r ∈ codeRanges (analyzeFunction img f)) : r.2 ≤ f.endAddr.toNat := by
  obtain ⟨_, s, hs, hEq⟩ := ends_of_mem_coalesce hr
  obtain ⟨b, hb, rfl⟩ := List.mem_map.mp (List.mem_filter.mp (mem_sort.mp hs)).1
  obtain ⟨_, hHi, _, hEnd⟩ := blockInterval_spec hf hb
  omega

theorem codeRanges_nonempty {cfg : ControlFlowGraph} {r : Nat × Nat} (hr : r ∈ codeRanges cfg) :
    r.1 < r.2 := by
  refine lt_of_mem_coalesce (fun s hs => ?_) hr
  exact of_decide_eq_true (List.mem_filter.mp (mem_sort.mp hs)).2

theorem exists_block (hf : f.Valid) : ∃ b, b ∈ (analyzeFunction img f).blocks := by
  have hLeader : f.walkLo ∈ boundaries img f := mem_boundaries.mpr (.inl rfl)
  rw [← map_startAddr_blocks hf] at hLeader
  obtain ⟨b, hb, _⟩ := List.mem_map.mp hLeader
  exact ⟨b, hb⟩

/-- The word behind a block leads the next one, or is the end of the function. -/
theorem next_behind_block (hf : f.Valid) (hb : b ∈ (analyzeFunction img f).blocks) :
    b.endAddr + 4#32 = f.endAddr ∨
      ∃ c ∈ (analyzeFunction img f).blocks, c.startAddr = b.endAddr + 4#32 := by
  obtain ⟨pre, post, hBlocks⟩ := List.append_of_mem hb
  rw [next_block hf hBlocks]
  cases post with
  | nil => exact .inl rfl
  | cons c post =>
      refine .inr ⟨c, ?_, rfl⟩
      rw [hBlocks]
      simp

theorem exitInstr_of_slot (hf : f.Valid) (hb : b ∈ (analyzeFunction img f).blocks)
    (hSlot : b.exitInstr.hasDelaySlot = true) : ∃ w, ExitInstr img b w := by
  refine exitInstr_of_mem_blocks hf hb fun hNone => ?_
  have hFlow : ∀ {a cf}, transferAt img a = some cf → cf.type ≠ .none := by
    intro a cf hAt
    obtain ⟨w, _, hFlow, rfl⟩ := transferAt_eq_some hAt
    exact (analyzeInstruction_hasDelaySlot a hFlow).2
  have hExit : b.exitInstr = blockExit img b.startAddr b.endAddr :=
    congrArg BasicBlock.exitInstr (mem_blocks hf hb).1
  rw [hExit, blockExit] at hSlot hNone
  split at hNone
  next cf hPrev =>
    split_ifs at hPrev
    exact hFlow hPrev hNone
  next hPrev =>
    simp only [hPrev] at hSlot
    cases hLast : transferAt img b.endAddr with
    | none =>
        rw [hLast] at hSlot
        cases hSlot
    | some cf =>
        rw [hLast] at hNone
        exact hFlow hLast hNone

/-- A word inside a block is covered. -/
theorem word_covered (hf : f.Valid) (hb : b ∈ (analyzeFunction img f).blocks) {a : Word}
    (hLo : b.startAddr.toNat ≤ a.toNat) (hHi : a.toNat ≤ b.endAddr.toNat) :
    ∃ r ∈ codeRanges (analyzeFunction img f), r.1 ≤ a.toNat ∧ a.toNat + 4 ≤ r.2 := by
  obtain ⟨r, hr, hInside⟩ := block_inside hf hb
  obtain ⟨hStart, hEnd, _, _⟩ := blockInterval_spec hf hb
  have hLow := hInside.1
  have hHigh := hInside.2
  exact ⟨r, hr, by omega, by omega⟩

/-- The cloned slot of a block is covered unless it is the end of the function. -/
theorem slot_covered (hf : f.Valid) (hSlots : SlotsInside img f)
    (hb : b ∈ (analyzeFunction img f).blocks) {a : Word} (ha : a ∈ clonedSlot img b) :
    ∃ r ∈ codeRanges (analyzeFunction img f), r.1 ≤ a.toNat ∧ a.toNat + 4 ≤ r.2 := by
  rw [clonedSlot] at ha
  split at ha
  · rename_i hClone
    obtain rfl := List.mem_singleton.mp ha
    obtain ⟨w, hExit⟩ := exitInstr_of_slot hf hb hClone.1
    rcases hExit.position with hAt | ⟨hAt, hLt⟩
    · -- the slot lies behind the block
      rw [hAt] at hClone ⊢
      rcases next_behind_block hf hb with hEnd | ⟨c, hc, hStart⟩
      · rw [hEnd] at hClone
        exact absurd (by rw [hAt, hEnd]) (hSlots b hb hClone.1 hClone.2)
      · rw [← hStart]
        exact word_covered hf hc le_rfl (mem_blocks hf hc).2.start_le
    · rw [hAt, BitVec.sub_add_cancel]
      exact word_covered hf hb (BitVec.lt_def.mp hLt).le le_rfl
  · cases ha

/-- The ranges of a function are sound exactly if its slots lie inside it. -/
theorem rangesSound_iff (hf : f.Valid) :
    RangesSound img f ⟨f.startAddr, codeRanges (analyzeFunction img f)⟩ ↔ SlotsInside img f := by
  constructor
  · intro hSound b hb hHas hRead hEnd
    have hMem : f.endAddr ∈ emittedWords img f := by
      refine List.mem_flatMap.mpr ⟨b, hb, List.mem_append_right _ ?_⟩
      rw [clonedSlot, hEnd, if_pos ⟨hHas, hRead⟩]
      exact List.mem_singleton_self _
    obtain ⟨r, hr, _, hHi⟩ := hSound.covers _ hMem
    have hLe := codeRanges_end_le hf hr
    omega
  · intro hSlots
    refine ⟨rfl, fun r hr => codeRanges_nonempty hr, separated_codeRanges _, fun a ha => ?_⟩
    obtain ⟨b, hb, ha⟩ := List.mem_flatMap.mp ha
    rcases List.mem_append.mp ha with ha | ha
    · obtain ⟨i, hLo, hHi, _⟩ := mem_addrRange (by have := b.endAddr.isLt; omega) ha
      exact word_covered hf hb (by omega) (by omega)
    · exact slot_covered hf hSlots hb ha

theorem codeRanges_ne_nil (hf : f.Valid) : codeRanges (analyzeFunction img f) ≠ [] := by
  obtain ⟨b, hb⟩ : ∃ b, b ∈ (analyzeFunction img f).blocks := exists_block hf
  obtain ⟨r, hr, _⟩ := block_inside hf hb
  exact List.ne_nil_of_mem hr

theorem generateRangesManifest_eq {fs : List Function} (hValid : ∀ f ∈ fs, f.Valid) :
    generateRangesManifest img fs =
      fs.map fun f => ⟨f.startAddr, codeRanges (analyzeFunction img f)⟩ := by
  rw [generateRangesManifest, ← List.filterMap_eq_map]
  refine List.filterMap_congr fun f hf => ?_
  have hSome : codeRanges (analyzeFunction img f) ≠ [] := codeRanges_ne_nil (hValid f hf)
  split
  · rename_i hNil
    exact absurd hNil hSome
  · rfl

end Ranges

/-- The manifest of a set of functions has a sound entry for each of them, in
order, exactly if no function ends between a transfer and its delay slot. -/
theorem manifest_sound_iff (img : Image) (fs : List Function) (hValid : ∀ f ∈ fs, f.Valid) :
    List.Forall₂ (RangesSound img) fs (generateRangesManifest img fs) ↔
      ∀ f ∈ fs, SlotsInside img f := by
  rw [generateRangesManifest_eq hValid, List.forall₂_map_right_iff, List.forall₂_same]
  constructor
  · intro hSound f hf
    exact (rangesSound_iff (hValid f hf)).mp (hSound f hf)
  · intro hSlots f hf
    exact (rangesSound_iff (hValid f hf)).mpr (hSlots f hf)

/-- `jr $ra` with `addiu $v0, $zero, 1` in its slot, and a `nop` behind it. -/
def returnImage : Image where
  loadAddress := 0x80010000#32
  codeData := [0x08, 0x00, 0xE0, 0x03, 0x01, 0x00, 0x02, 0x24, 0x00, 0x00, 0x00, 0x00]
  load_kseg0 := Image.text_kseg0
  end_in_ram := by simp

/-- The function up to an end address. -/
def returnFunction (stop : Word) : Function := ⟨0x80010000#32, stop, false, 0, []⟩

theorem returnFunction_valid {stop : Word} (hNonempty : 0x80010000#32 < stop)
    (hAligned : Aligned stop) : (returnFunction stop).Valid :=
  ⟨hNonempty, decide_eq_true ⟨BitVec.le_refl _, hNonempty⟩, show Aligned 0x80010000#32 by decide,
    show Aligned 0x80010000#32 by decide, hAligned, by simp [returnFunction]⟩

theorem manifest_sound_return :
    (returnFunction 0x80010008#32).Valid ∧ SlotsInside returnImage (returnFunction 0x80010008#32) ∧
      List.Forall₂ (RangesSound returnImage) [returnFunction 0x80010008#32]
        (generateRangesManifest returnImage [returnFunction 0x80010008#32]) := by
  have hValid : (returnFunction 0x80010008#32).Valid := returnFunction_valid (by decide) (by decide)
  have hSlots : SlotsInside returnImage (returnFunction 0x80010008#32) := by
    rw [SlotsInside]
    decide
  refine ⟨hValid, hSlots, (manifest_sound_iff _ _ ?_).mpr ?_⟩
  · intro f hf
    rwa [List.mem_singleton.mp hf]
  · intro f hf
    rwa [List.mem_singleton.mp hf]

/-- The function ends in front of the slot, which is the entry of another one:
the slot is cloned into the text, but its bytes are not in the ranges. -/
theorem slotBehindFunction_uncovered :
    0x80010004#32 ∈ emittedWords returnImage (returnFunction 0x80010004#32) ∧
      generateRangesManifest returnImage [returnFunction 0x80010004#32] =
        [⟨0x80010000#32, [(0x80010000, 0x80010004)]⟩] ∧
      ¬ List.Forall₂ (RangesSound returnImage) [returnFunction 0x80010004#32]
        (generateRangesManifest returnImage [returnFunction 0x80010004#32]) := by
  have hMem : 0x80010004#32 ∈ emittedWords returnImage (returnFunction 0x80010004#32) := by
    decide
  have hManifest : generateRangesManifest returnImage [returnFunction 0x80010004#32] =
      [⟨0x80010000#32, [(0x80010000, 0x80010004)]⟩] := by
    decide +kernel
  refine ⟨hMem, hManifest, fun hSound => ?_⟩
  rw [hManifest, List.forall₂_cons] at hSound
  obtain ⟨r, hr, _, hHi⟩ := hSound.1.covers _ hMem
  rw [List.mem_singleton.mp hr] at hHi
  exact absurd hHi (by decide)

end RecompStudio.CodeGen
