import RecompStudio.CodeGen.Returns

/-!
What the pre-pass of `generate_file` comes to. Every pass that finds a target makes it
the start of a function, so the passes run dry; and when they have, no exit of an
emitted function leads into the image without arriving at a block or at a function,
although a pass scans only what the one before it has changed.
-/

namespace RecompStudio.CodeGen

/-- The addresses of the image that start no function. -/
def unknownAddrs (img : Image) (fs : List Function) : Nat :=
  (List.range img.codeData.length).countP fun i =>
    !isStart fs (img.loadAddress + BitVec.ofNat 32 i)

/-- If the address lies inside the image, there is a block of the function or the start of
a function. Words stand at aligned addresses. -/
def Lands (img : Image) (fs : List Function) (f : Function) (t : Word) : Prop :=
  img.Contains t → f.Valid ∨ Aligned t →
    (analyzeFunction img f).hasBlock t = true ∨ isStart fs t = true

/-- The block exits of a function land: a branch at its target and behind its delay slot,
a jump at its target. -/
def ExitsClosed (img : Image) (fs : List Function) (f : Function) : Prop :=
  ∀ b ∈ (analyzeFunction img f).blocks,
    (b.exitInstr.type = .branch →
      Lands img fs f b.exitInstr.target ∧ Lands img fs f (b.exitInstr.address + 8#32)) ∧
    (b.exitInstr.type = .jump → Lands img fs f b.exitInstr.target)

namespace SplitState

variable {img : Image} {st : SplitState} {f g : Function} {fs : List Function} {t : Word} {n : Nat}

theorem mem_midTargets_iff : t ∈ st.midTargets img ↔
    ∃ f ∈ st.scanned, ∃ b ∈ (analyzeFunction img f).blocks, t ∈ exitTargets b ∧
      st.isMidTarget img (analyzeFunction img f) t = true := by
  simp only [midTargets, mem_sortUnique, List.mem_flatMap, scanCfg, List.mem_filter]
  constructor
  · rintro ⟨f, hf, ⟨b, hb, ht⟩, hMid⟩
    exact ⟨f, hf, b, hb, ht, hMid⟩
  · rintro ⟨f, hf, b, hb, ht, hMid⟩
    exact ⟨f, hf, ⟨b, hb, ht⟩, hMid⟩

theorem isMidTarget_iff {cfg : ControlFlowGraph} : st.isMidTarget img cfg t = true ↔
    t ≠ 0 ∧ cfg.hasBlock t = false ∧ isStart st.functions t = false ∧ img.Contains t ∧
      t &&& 3#32 = 0 := by
  simp only [isMidTarget, decide_eq_true_eq, Image.Contains, and_assoc]

theorem contains_of_mid (ht : t ∈ st.midTargets img) : img.Contains t := by
  obtain ⟨_, _, _, _, _, hMid⟩ := mem_midTargets_iff.1 ht
  exact (isMidTarget_iff.1 hMid).2.2.2.1

/-- The function that a target is found in: the same for all targets that are cut there. -/
theorem hostOf_find (hHost : st.hostOf t = some f) :
    st.functions.find? (fun g => g.startAddr == f.startAddr) = some f ∧ t < f.endAddr := by
  unfold hostOf at hHost
  split at hHost
  · cases hHost
  next start _ =>
    obtain ⟨hFind, hInside⟩ := Option.filter_eq_some_iff.mp hHost
    have hStart : f.startAddr = start := by simpa using List.find?_some hFind
    rw [hStart]
    exact ⟨hFind, (of_decide_eq_true hInside).2⟩

/-- A target inside a function is cut off there. -/
theorem start_of_host (ht : t ∈ st.midTargets img) (hHost : st.hostOf t = some f) :
    isStart (st.pass img).functions t = true := by
  obtain ⟨hFind, _⟩ := hostOf_find hHost
  have hSplit : t ∈ st.splitsOf img f := by
    refine List.mem_filter.mpr ⟨ht, ?_⟩
    rw [hHost, Option.map_some, beq_iff_eq]
  have hBelow : ∀ x ∈ st.splitsOf img f, x < f.endAddr := by
    intro x hx
    obtain ⟨_, f₀, hHost₀, hSame⟩ := mem_splitsOf hx
    obtain ⟨hFind₀, hLt⟩ := hostOf_find hHost₀
    rw [hSame, hFind, Option.some.injEq] at hFind₀
    rw [hFind₀]
    exact hLt
  refine isStart_of_split (List.mem_of_find?_eq_some hFind) ?_ hSplit
  rw [cut]
  split
  next hNone =>
    rw [hNone] at hSplit
    cases hSplit
  next x rest hSplits =>
    have hLast : (x :: rest).getLastD x ∈ st.splitsOf img f := by
      rw [hSplits, List.getLastD_cons]
      exact List.getLastD_mem_cons
    have hLt := hBelow _ hLast
    rw [if_neg (BitVec.not_le.mpr hLt)]
    intro hNone
    cases (Prod.mk.inj hNone).2

/-- A target in no function opens a piece of its own. -/
theorem start_of_gap (ht : t ∈ st.midTargets img) (hHost : st.hostOf t = none) :
    isStart (st.pass img).functions t = true := by
  have hEnd : t < st.gapEnd img t := by
    rw [gapEnd]
    cases hFind : st.funcStarts.find? fun a => t < a with
    | none => exact (contains_of_mid ht).2
    | some a =>
        have hAfter := List.find?_some hFind
        exact of_decide_eq_true hAfter
  refine isStart_iff.mpr ⟨⟨t, st.gapEnd img t, false, 0, []⟩, mem_pass.mpr (.inr (.inl ?_)), rfl⟩
  refine List.mem_map.mpr ⟨t, List.mem_filter.mpr ⟨ht, ?_⟩, rfl⟩
  rw [hHost, Option.isNone_none, Bool.true_and]
  exact decide_eq_true hEnd

/-- A pass makes every target that it finds the start of a function. -/
theorem start_of_mid (ht : t ∈ st.midTargets img) :
    isStart (st.pass img).functions t = true := by
  cases hHost : st.hostOf t with
  | none => exact start_of_gap ht hHost
  | some f => exact start_of_host ht hHost

theorem unknownAddrs_pass_lt (hTargets : st.midTargets img ≠ []) :
    unknownAddrs img (st.pass img).functions < unknownAddrs img st.functions := by
  obtain ⟨t, ht⟩ := List.exists_mem_of_ne_nil _ hTargets
  have hNew := (mem_midTargets ht).2
  have hStart := start_of_mid ht
  obtain ⟨hLow, hHigh⟩ := contains_of_mid ht
  have hImage := img.end_in_ram
  rw [BitVec.le_def] at hLow
  rw [BitVec.lt_def, Image.endAddress, BitVec.toNat_add, BitVec.toNat_ofNat] at hHigh
  have hOffset : t.toNat - img.loadAddress.toNat < img.codeData.length := by omega
  have hAt : img.loadAddress + BitVec.ofNat 32 (t.toNat - img.loadAddress.toNat) = t := by
    apply BitVec.eq_of_toNat_eq
    rw [BitVec.toNat_add, BitVec.toNat_ofNat]
    omega
  rw [unknownAddrs, unknownAddrs, List.countP_eq_length_filter, List.countP_eq_length_filter]
  have hSub : (List.range img.codeData.length).filter (fun i =>
        !isStart (st.pass img).functions (img.loadAddress + BitVec.ofNat 32 i)) =
      ((List.range img.codeData.length).filter fun i =>
        !isStart st.functions (img.loadAddress + BitVec.ofNat 32 i)).filter fun i =>
          !isStart (st.pass img).functions (img.loadAddress + BitVec.ofNat 32 i) := by
    rw [List.filter_filter]
    refine List.filter_congr fun i _ => ?_
    cases hKnown : isStart st.functions (img.loadAddress + BitVec.ofNat 32 i) with
    | true => rw [isStart_pass hKnown]; rfl
    | false => simp
  rw [hSub]
  refine List.length_filter_lt_length_iff_exists.mpr
    ⟨t.toNat - img.loadAddress.toNat, ?_, by simp [hAt, hStart]⟩
  rw [List.mem_filter, List.mem_range, hAt, hNew]
  exact ⟨hOffset, rfl⟩

theorem passes_converge (img : Image) (st : SplitState) :
    ∃ n ≤ unknownAddrs img st.functions, (passes img n st).midTargets img = [] := by
  induction hLeft : unknownAddrs img st.functions using Nat.strong_induction_on
    generalizing st with
  | _ left ih =>
      by_cases hDone : st.midTargets img = []
      · exact ⟨0, Nat.zero_le _, hDone⟩
      · have hLess := unknownAddrs_pass_lt hDone
        obtain ⟨n, hn, hEnd⟩ := ih _ (hLeft ▸ hLess) (st.pass img) rfl
        refine ⟨n + 1, by omega, ?_⟩
        rw [passes, if_neg hDone]
        exact hEnd

/-- What a pass does not scan has no target left. -/
def Scanned (img : Image) (st : SplitState) : Prop :=
  ∀ f ∈ st.functions, f ∉ st.scanned → st.scanCfg img (analyzeFunction img f) = []

theorem scanned_start (img : Image) (fs : List Function) : Scanned img ⟨fs, []⟩ := by
  intro f hf hSkipped
  exact absurd hf hSkipped

theorem scanCfg_eq_nil {cfg : ControlFlowGraph} : st.scanCfg img cfg = [] ↔
    ∀ b ∈ cfg.blocks, ∀ t ∈ exitTargets b, st.isMidTarget img cfg t = false := by
  simp only [scanCfg, List.filter_eq_nil_iff, List.mem_flatMap, Bool.not_eq_true]
  exact ⟨fun h b hb t ht => h t ⟨b, hb, ht⟩, fun h t ⟨b, hb, ht⟩ => h b hb t ht⟩

/-- No target of a graph is left behind a pass, whether the pass scanned it or not. -/
theorem scanCfg_pass (hScanned : Scanned img st) (hf : f ∈ st.functions) :
    (st.pass img).scanCfg img (analyzeFunction img f) = [] := by
  refine scanCfg_eq_nil.2 fun b hb t ht => ?_
  cases hMid : (st.pass img).isMidTarget img (analyzeFunction img f) t with
  | false => rfl
  | true =>
      obtain ⟨hNonzero, hBlock, hNew, hIn, hLow⟩ := isMidTarget_iff.1 hMid
      have hBefore : isStart st.functions t = false := by
        cases hKnown : isStart st.functions t with
        | false => rfl
        | true => rw [isStart_pass hKnown] at hNew; cases hNew
      have hTarget : st.isMidTarget img (analyzeFunction img f) t = true :=
        isMidTarget_iff.2 ⟨hNonzero, hBlock, hBefore, hIn, hLow⟩
      by_cases hScan : f ∈ st.scanned
      · have hMem : t ∈ st.midTargets img :=
          mem_midTargets_iff.2 ⟨f, hScan, b, hb, ht, hTarget⟩
        rw [start_of_mid hMem] at hNew
        cases hNew
      · rw [scanCfg_eq_nil.1 (hScanned f hf hScan) b hb t ht] at hTarget
        cases hTarget

/-- A function that the next pass skips was there before, as it is. -/
theorem unchanged_of_skipped (hg : g ∈ (st.pass img).functions)
    (hSkipped : g ∉ (st.pass img).scanned) : g ∈ st.functions := by
  have hNotAffected : ∀ x, x ∈ st.gapFunctions img ++
      (st.functions.flatMap fun f => (st.cut img f).2) ++
      (st.functions.filter fun f => (st.cut img f).2 != []) → x.startAddr ≠ g.startAddr := by
    intro x hx hSame
    refine hSkipped ?_
    rw [scanned]
    split
    · exact hg
    · refine List.mem_filter.mpr ⟨hg, List.contains_iff_mem.mpr ?_⟩
      refine List.mem_filter.mpr ⟨List.mem_map_of_mem hg, List.contains_iff_mem.mpr ?_⟩
      rw [← hSame]
      exact List.mem_map_of_mem hx
  rcases mem_pass.mp hg with ⟨f, hf, rfl⟩ | hGap | ⟨f, hf, hPiece⟩
  · rcases cut_cases st img f with hCut | ⟨x, rest, _, _, hCut⟩
    · rw [hCut]
      exact hf
    · have hChanged : f ∈ st.functions.filter fun f => (st.cut img f).2 != [] := by
        refine List.mem_filter.mpr ⟨hf, ?_⟩
        rw [hCut]
        rfl
      exact absurd (cut_startAddr st img f).1.symm
        (hNotAffected f (List.mem_append_right _ hChanged))
  · exact absurd rfl
      (hNotAffected g (List.mem_append_left _ (List.mem_append_left _ hGap)))
  · exact absurd rfl (hNotAffected g (List.mem_append_left _
      (List.mem_append_right _ (List.mem_flatMap.mpr ⟨f, hf, hPiece⟩))))

theorem scanned_pass (hScanned : Scanned img st) : Scanned img (st.pass img) :=
  fun _ hg hSkipped => scanCfg_pass hScanned (unchanged_of_skipped hg hSkipped)

theorem scanned_passes (hScanned : Scanned img st) : Scanned img (passes img n st) := by
  induction n generalizing st with
  | zero => exact hScanned
  | succ n ih =>
      rw [passes]
      split_ifs
      · exact hScanned
      · exact ih (scanned_pass hScanned)

/-- The targets of the exits of a valid function are aligned. -/
theorem aligned_exitTargets (hf : f.Valid) {b : BasicBlock}
    (hb : b ∈ (analyzeFunction img f).blocks) (ht : t ∈ exitTargets b) : Aligned t := by
  have hType : b.exitInstr.type ≠ .none := by
    intro hNone
    rw [exitTargets, hNone] at ht
    cases ht
  obtain ⟨w, hExit⟩ := exitInstr_of_mem_blocks hf hb hType
  have hExtent := (mem_blocks hf hb).2
  have hAt := EmitContext.exit_toNat hExtent hExit
  have hAddress : Aligned b.exitInstr.address := by
    have hEnd := hExtent.end_aligned
    unfold Aligned at hEnd ⊢
    have := hExtent.start_le
    omega
  have hTarget : Aligned b.exitInstr.target := by
    rw [hExit.analyzed]
    exact aligned_target hAddress w
  rw [exitTargets] at ht
  split at ht
  · rcases List.mem_cons.mp ht with rfl | ht
    · exact hTarget
    · rw [List.mem_singleton.mp ht]
      exact aligned_add hAddress 2
  · rw [List.mem_singleton.mp ht]
    exact hTarget
  · cases ht

/-- With no target left everything that a block is scanned for lands. -/
theorem lands_of_done (hScanned : Scanned img st) (hDone : st.midTargets img = [])
    (hf : f ∈ st.functions) {b : BasicBlock} (hb : b ∈ (analyzeFunction img f).blocks)
    (ht : t ∈ exitTargets b) : Lands img st.functions f t := by
  intro hIn hAligned
  have hAt : Aligned t := hAligned.elim (fun hValid => aligned_exitTargets hValid hb ht) id
  have hNone : st.isMidTarget img (analyzeFunction img f) t = false := by
    by_cases hScan : f ∈ st.scanned
    · cases hMid : st.isMidTarget img (analyzeFunction img f) t with
      | false => rfl
      | true =>
          have hMem : t ∈ st.midTargets img := mem_midTargets_iff.2 ⟨f, hScan, b, hb, ht, hMid⟩
          rw [hDone] at hMem
          cases hMem
    · exact scanCfg_eq_nil.1 (hScanned f hf hScan) b hb t ht
  by_contra hOpen
  rw [not_or, Bool.not_eq_true, Bool.not_eq_true] at hOpen
  have hMid : st.isMidTarget img (analyzeFunction img f) t = true := by
    refine isMidTarget_iff.2 ⟨?_, hOpen.1, hOpen.2, hIn, ?_⟩
    · rintro rfl
      have hLow := hIn.1
      have hImage := img.load_kseg0
      change img.loadAddress.toNat ≤ 0 at hLow
      omega
    · apply BitVec.eq_of_toNat_eq
      rw [BitVec.toNat_and]
      exact (Nat.and_two_pow_sub_one_eq_mod t.toNat 2).trans hAt
  rw [hNone] at hMid
  cases hMid

/-- With no target left the exits of every function are closed. -/
theorem exitsClosed_of_done (hScanned : Scanned img st) (hDone : st.midTargets img = [])
    (hf : f ∈ st.functions) : ExitsClosed img st.functions f := by
  intro b hb
  constructor
  · intro hBranch
    have hTargets : exitTargets b = [b.exitInstr.target, b.exitInstr.address + 8#32] := by
      rw [exitTargets, hBranch]
    constructor
    · exact lands_of_done hScanned hDone hf hb (hTargets ▸ List.mem_cons_self)
    · exact lands_of_done hScanned hDone hf hb
        (hTargets ▸ List.mem_cons_of_mem _ List.mem_cons_self)
  · intro hJump
    have hTargets : exitTargets b = [b.exitInstr.target] := by
      rw [exitTargets, hJump]
    exact lands_of_done hScanned hDone hf hb (hTargets ▸ List.mem_cons_self)

end SplitState

open SplitState in
/-- The passes over any list of functions: one that finds a target keeps all starts and
adds one, after some passes none is found, and whenever none is found the exits of all
functions are closed. The emitted functions are those behind at most 256 passes. -/
theorem splitPasses_close (img : Image) (fs : List Function) :
    (∀ n, (passes img n ⟨fs, []⟩).midTargets img ≠ [] →
      (∀ a, isStart (passes img n ⟨fs, []⟩).functions a = true →
        isStart ((passes img n ⟨fs, []⟩).pass img).functions a = true) ∧
      ∃ a, isStart (passes img n ⟨fs, []⟩).functions a = false ∧
        isStart ((passes img n ⟨fs, []⟩).pass img).functions a = true) ∧
    (∃ n, (passes img n ⟨fs, []⟩).midTargets img = []) ∧
    (∀ n, (passes img n ⟨fs, []⟩).midTargets img = [] →
      ∀ f ∈ (passes img n ⟨fs, []⟩).functions,
        ExitsClosed img (passes img n ⟨fs, []⟩).functions f) ∧
    splitFunctions img true fs = (passes img 256 ⟨fs, []⟩).functions := by
  refine ⟨fun n hTargets => ⟨fun a => isStart_pass, ?_⟩, ?_, fun n hDone f hf => ?_, rfl⟩
  · obtain ⟨t, ht⟩ := List.exists_mem_of_ne_nil _ hTargets
    exact ⟨t, (mem_midTargets ht).2, start_of_mid ht⟩
  · obtain ⟨n, _, hDone⟩ := passes_converge img ⟨fs, []⟩
    exact ⟨n, hDone⟩
  · exact exitsClosed_of_done (scanned_passes (scanned_start img fs)) hDone hf

end RecompStudio.CodeGen
