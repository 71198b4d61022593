import RecompStudio.CodeGen.Labels
import RecompStudio.CodeGen.SplitPass

/-!
The return addresses that emitted calls store, against the entries of the
dispatch table. A call whose return point lies in its own function is always
served; one that a function end or a cut separates from it need not be.
-/

namespace RecompStudio.CodeGen

open RecompStudio.Insn

/-- The address lies in the loaded range. -/
@[grind =]
def Image.Contains (img : Image) (a : Word) : Prop := img.loadAddress ≤ a ∧ a < img.endAddress

/-- The transfer stores its return address: `jal`, `jalr` unless to `$0`,
`bltzal` and `bgezal`. -/
@[grind =] def storesLink (cf : ControlFlowInstr) : Bool :=
  match cf.type with
  | .jumpLink => true
  | .jumpLinkReg => rd cf.instruction != 0
  | .branch => EmitContext.isBranchAndLink cf.instruction
  | _ => false

/-- A word of the image that stores its return address. -/
def CallAt (img : Image) (c : Word) : Prop :=
  ∃ w, img.readWord c = some w ∧ storesLink (analyzeInstruction c w) = true

/-- A word of the image that is a control transfer. -/
def TransferAt (img : Image) (c : Word) : Prop :=
  ∃ w, img.readWord c = some w ∧ isControlFlow w = true

/-- The one word that is written out with its link in a delay slot too: a `jalr`, unless to
`$0`. -/
def linksInSlot (img : Image) (c : Word) : Bool :=
  match img.readWord c with
  | some w => Op.ofWord w == .jalr && rd w != 0
  | none => false

/-- The function whose blocks a unit is emitted from. -/
def OutputUnit.body : OutputUnit → Function
  | .function f => f
  | .aliasGroup g => g.member g.first

def OutputUnit.blocks (out : OutputConfig) : OutputUnit → List BasicBlock
  | .function f => (out.context f).cfg.blocks
  | .aliasGroup g => (out.context (g.member g.first)).cfg.blocks.filter (out.isLive g)

/-- A unit writes out a call at the address, as the exit of a block. -/
def ExitCall (out : OutputConfig) (u : OutputUnit) (c : Word) : Prop :=
  ∃ b ∈ u.blocks out, b.exitInstr.address = c ∧ storesLink b.exitInstr = true ∧
    c ∈ writtenAddrs out.img b

/-- A unit writes out a call at the address, in the delay slot of a block's exit. -/
def SlotCall (out : OutputConfig) (u : OutputUnit) (c : Word) : Prop :=
  ∃ b ∈ u.blocks out, b.exitInstr.address + 4#32 = c ∧ b.exitInstr.type ≠ .none ∧
    linksInSlot out.img c = true ∧ b.exitInstr.address ∈ writtenAddrs out.img b

/-- A unit writes out a call at the address. -/
def EmittedCall (out : OutputConfig) (u : OutputUnit) (c : Word) : Prop :=
  ExitCall out u c ∨ SlotCall out u c

section Table

variable (img : Image) (sites : SiteConfig) (fs : List Function)

/-- The output of some functions, which know each other. -/
def outputOf : OutputConfig := ⟨img, sites, isStart fs⟩

/-- The address has a record in the dispatch table. -/
def Dispatchable (a : Word) : Prop :=
  isStart fs a = true ∨
    (continuationOwner ((outputUnits fs).map (outputOf img sites fs).generate) a).isSome = true

/-- Every return address that an emitted call stores is dispatchable, if it lies
in the image. -/
def ReturnsServed : Prop :=
  ∀ u ∈ outputUnits fs, ∀ c, EmittedCall (outputOf img sites fs) u c →
    img.Contains (c + 8#32) → Dispatchable img sites fs (c + 8#32)

/-- The calls whose function ends before their return point, and those that an alias
group has in a delay slot: the return point starts a function or leads a block that some
unit emits. -/
def CutReturnsLead : Prop :=
  ∀ u ∈ outputUnits fs, ∀ c, EmittedCall (outputOf img sites fs) u c →
    (u.body.endAddr.toNat ≤ c.toNat + 8 ∨
      (u.body.aliasWalkLo ≠ 0 ∧ SlotCall (outputOf img sites fs) u c)) →
    img.Contains (c + 8#32) →
      isStart fs (c + 8#32) = true ∨
        ∃ u' ∈ outputUnits fs, ∃ b ∈ u'.blocks (outputOf img sites fs), b.startAddr = c + 8#32

end Table

/-- What discovery guarantees of a list of functions: no alias entry starts a
function of its own, and the entries of one host share their end. -/
structure ListOk (fs : List Function) : Prop where
  valid : ∀ f ∈ fs, f.Valid
  ends : ∀ f ∈ fs, ∀ g ∈ fs, f.aliasWalkLo ≠ 0 → g.aliasWalkLo = f.aliasWalkLo →
    g.endAddr = f.endAddr
  apart : ∀ f ∈ fs, ∀ g ∈ fs, f.aliasWalkLo ≠ 0 → g.aliasWalkLo = 0 → f.startAddr ≠ g.startAddr

section Units

variable {img : Image} {sites : SiteConfig} {fs : List Function} {u : OutputUnit}

theorem mem_unitsFrom {groups : List Word} {rest : List Function}
    (hu : u ∈ unitsFrom fs groups rest) :
    ∃ f ∈ rest, (f.aliasWalkLo = 0 ∧ u = .function f) ∨
      (f.aliasWalkLo ≠ 0 ∧ u = .aliasGroup (aliasGroupOf fs f)) := by
  induction rest generalizing groups with
  | nil => cases hu
  | cons f rest ih =>
      rw [unitsFrom] at hu
      split_ifs at hu with hPlain hDone
      · rcases List.mem_cons.mp hu with rfl | hu
        · exact ⟨f, List.mem_cons_self, .inl ⟨hPlain, rfl⟩⟩
        · obtain ⟨g, hg, hUnit⟩ := ih hu
          exact ⟨g, List.mem_cons_of_mem _ hg, hUnit⟩
      · obtain ⟨g, hg, hUnit⟩ := ih hu
        exact ⟨g, List.mem_cons_of_mem _ hg, hUnit⟩
      · rcases List.mem_cons.mp hu with rfl | hu
        · exact ⟨f, List.mem_cons_self, .inr ⟨hPlain, rfl⟩⟩
        · obtain ⟨g, hg, hUnit⟩ := ih hu
          exact ⟨g, List.mem_cons_of_mem _ hg, hUnit⟩

theorem mem_aliasGroup_entries {f : Function} (hf : f ∈ fs) {e : Word}
    (he : e ∈ (aliasGroupOf fs f).entries) :
    ∃ g ∈ fs, g.aliasWalkLo = f.aliasWalkLo ∧ g.startAddr = e := by
  rcases List.mem_cons.mp he with rfl | he
  · exact ⟨f, hf, rfl, rfl⟩
  · obtain ⟨g, hg, hStart⟩ := List.mem_map.mp (List.mem_of_mem_tail he)
    obtain ⟨hMem, hHost⟩ := List.mem_filter.mp hg
    exact ⟨g, hMem, by simpa using hHost, hStart⟩

theorem aliasGroupOf_valid (hOk : ListOk fs) {f : Function} (hf : f ∈ fs)
    (hAlias : f.aliasWalkLo ≠ 0) : (aliasGroupOf fs f).Valid := by
  refine ⟨hAlias, fun e he => ?_⟩
  obtain ⟨g, hg, hHost, rfl⟩ := mem_aliasGroup_entries hf he
  have hValid := hOk.valid g hg
  have hEnd := hOk.ends f hf g hg hAlias hHost
  have hWalk : g.walkLo = f.aliasWalkLo := by
    rw [Function.walkLo, hHost, if_neg hAlias]
  have hMember : ((aliasGroupOf fs f).member g.startAddr).walkLo = f.aliasWalkLo := if_neg hAlias
  have hIn := hValid.start_in
  unfold inRange at hIn
  rw [hWalk, hEnd] at hIn
  refine ⟨?_, ?_, ?_, hValid.start_aligned, ?_, ?_⟩
  · rw [hMember, ← hWalk]
    exact hEnd ▸ hValid.nonempty
  · unfold inRange
    rw [hMember]
    exact hIn
  · rw [hMember, ← hWalk]
    exact hValid.walk_aligned
  · exact hEnd ▸ hValid.end_aligned
  · intro e he
    obtain ⟨g', hg', _, rfl⟩ := mem_aliasGroup_entries hf he
    exact (hOk.valid g' hg').start_aligned

/-- A unit covers the range of a function of the list. -/
theorem unit_of_mem (hOk : ListOk fs) (hu : u ∈ outputUnits fs) :
    u.Valid ∧ ∃ f ∈ fs, u.body.walkLo = f.walkLo ∧ u.body.endAddr = f.endAddr ∧
      u.body.aliasWalkLo = f.aliasWalkLo := by
  obtain ⟨f, hf, ⟨_, rfl⟩ | ⟨hAlias, rfl⟩⟩ := mem_unitsFrom hu
  · exact ⟨hOk.valid f hf, f, hf, rfl, rfl, rfl⟩
  · refine ⟨aliasGroupOf_valid hOk hf hAlias, f, hf, ?_, rfl, rfl⟩
    have hWalk : f.walkLo = f.aliasWalkLo := if_neg hAlias
    rw [hWalk]
    exact if_neg hAlias

theorem emits_unit (out : OutputConfig) (hu : u.Valid) : Emits out u.body (u.blocks out) := by
  cases u with
  | function f => exact emits_function hu
  | aliasGroup g => exact emits_aliasGroup hu

theorem body_valid (hu : u.Valid) : u.body.Valid := by
  cases u with
  | function f => exact hu
  | aliasGroup g => exact AliasGroup.Valid.first hu

theorem continuationOwner_isSome {fts : List FunctionText} {c : Word} :
    (continuationOwner fts c).isSome = true ↔ ∃ ft ∈ fts, c ∈ ft.continuations := by
  induction fts with
  | nil => simp [continuationOwner]
  | cons ft rest ih =>
      rw [continuationOwner, Option.isSome_or, Bool.or_eq_true, ih, List.exists_mem_cons_iff,
        or_comm]
      refine or_congr_left ?_
      split_ifs with hCase
      · exact iff_of_true rfl (List.contains_iff_mem.mp hCase)
      · refine iff_of_false (by simp) fun hMem => hCase (List.contains_iff_mem.mpr hMem)

/-- The continuations of a unit are the leaders of its blocks that are not its
entries. -/
theorem mem_continuations (out : OutputConfig) (hu : u.Valid) {a : Word} :
    a ∈ (out.generate u).continuations → ∃ b ∈ u.blocks out, b.startAddr = a := by
  cases u with
  | function f => exact continuation_leads hu (emits_function hu)
  | aliasGroup g => exact continuation_leads hu.first (emits_aliasGroup hu)

/-- A leader of an emitted block is dispatchable. -/
theorem leads_dispatchable (hu : u ∈ outputUnits fs) {b : BasicBlock}
    (hb : b ∈ u.blocks (outputOf img sites fs)) : Dispatchable img sites fs b.startAddr := by
  have hStart : ∀ f ∈ fs, isStart fs f.startAddr = true := by
    intro f hf
    exact List.any_eq_true.mpr ⟨f, hf, beq_self_eq_true _⟩
  have hCase : ∀ {entries : List Word} {ft : FunctionText},
      ft ∈ (outputUnits fs).map (outputOf img sites fs).generate →
      ft.continuations = OutputConfig.continuations (u.blocks (outputOf img sites fs)) entries →
      (∀ e ∈ entries, isStart fs e = true) → Dispatchable img sites fs b.startAddr := by
    intro entries ft hft hConts hEntries
    by_cases hEntry : b.startAddr ∈ entries
    · exact .inl (hEntries _ hEntry)
    · refine .inr (continuationOwner_isSome.2 ⟨ft, hft, ?_⟩)
      rw [hConts, OutputConfig.continuations, List.mem_eraseDups]
      refine List.mem_append_right _ (List.mem_filter.mpr ⟨List.mem_map_of_mem hb, ?_⟩)
      simpa using hEntry
  obtain ⟨f, hf, ⟨_, rfl⟩ | ⟨_, rfl⟩⟩ := mem_unitsFrom hu
  · refine hCase (List.mem_map_of_mem hu) rfl fun e he => ?_
    rw [List.mem_singleton.mp he]
    exact hStart f hf
  · refine hCase (List.mem_map_of_mem hu) rfl fun e he => ?_
    obtain ⟨g, hg, _, rfl⟩ := mem_aliasGroup_entries hf he
    exact hStart g hg

theorem storesLink_type {cf : ControlFlowInstr} (hLink : storesLink cf = true) :
    cf.type = .jumpLink ∨ cf.type = .jumpLinkReg ∨ cf.type = .branch := by
  unfold storesLink at hLink
  split at hLink
  case h_1 hType => exact .inl hType
  case h_2 hType => exact .inr (.inl hType)
  case h_3 hType => exact .inr (.inr hType)
  case h_4 => cases hLink

theorem isControlFlow_of_storesLink {addr w : Word}
    (hLink : storesLink (analyzeInstruction addr w) = true) : isControlFlow w = true := by
  unfold storesLink analyzeInstruction at hLink
  unfold isControlFlow
  cases hOp : Op.ofWord w <;> simp only [hOp] at hLink ⊢
  all_goals cases hLink

theorem callAt_of_linksInSlot {img : Image} {c : Word} (hLink : linksInSlot img c = true) :
    CallAt img c := by
  unfold linksInSlot at hLink
  split at hLink
  next w hRead =>
    obtain ⟨hOp, hRd⟩ := Bool.and_eq_true_iff.mp hLink
    refine ⟨w, hRead, ?_⟩
    unfold storesLink analyzeInstruction
    rw [eq_of_beq hOp]
    exact hRd
  next => cases hLink

/-- The exit of an emitted block is a transfer of the image, inside the range of its unit. -/
theorem exit_of_mem_blocks (hu : u.Valid) {out : OutputConfig} {b : BasicBlock}
    (hb : b ∈ u.blocks out) (hType : b.exitInstr.type ≠ .none) :
    (∃ w, out.img.readWord b.exitInstr.address = some w ∧ isControlFlow w = true ∧
      b.exitInstr = analyzeInstruction b.exitInstr.address w) ∧
    Aligned b.exitInstr.address ∧ u.body.walkLo.toNat ≤ b.exitInstr.address.toNat ∧
      b.exitInstr.address.toNat < u.body.endAddr.toNat := by
  have hf := body_valid hu
  have hMem := (emits_unit out hu).sublist.subset hb
  have hExtent := (mem_blocks hf hMem).2
  obtain ⟨w, hExit⟩ := exitInstr_of_mem_blocks hf hMem hType
  have hAt := EmitContext.exit_toNat hExtent hExit
  have hStart := hExtent.start_le
  have hEnd := hExtent.end_lt
  have hLow := (of_decide_eq_true (boundaries_spec hf hExtent.leader).1).1
  rw [BitVec.le_def] at hLow
  refine ⟨⟨w, hExit.read, hExit.transfers, hExit.analyzed⟩, ?_, by omega, by omega⟩
  have hAligned := hExtent.end_aligned
  unfold Aligned at hAligned ⊢
  omega

/-- A call at a block exit is a call of the image, inside the range of its unit. -/
theorem callAt_of_exitCall (hu : u.Valid) {out : OutputConfig} {c : Word}
    (hCall : ExitCall out u c) :
    CallAt out.img c ∧ Aligned c ∧ u.body.walkLo.toNat ≤ c.toNat ∧
      c.toNat < u.body.endAddr.toNat := by
  obtain ⟨b, hb, rfl, hLink, _⟩ := hCall
  have hType : b.exitInstr.type ≠ .none := by
    rcases storesLink_type hLink with hType | hType | hType <;> simp [hType]
  obtain ⟨⟨w, hRead, _, hAnalyzed⟩, hPlace⟩ := exit_of_mem_blocks hu hb hType
  exact ⟨⟨w, hRead, by rw [← hAnalyzed]; exact hLink⟩, hPlace⟩

/-- The slot of a call in a delay slot: the transfer in front of it lies in its unit. -/
theorem transferAt_of_slotCall (hu : u.Valid) {out : OutputConfig} {c : Word}
    (hCall : SlotCall out u c) :
    linksInSlot out.img c = true ∧ ∃ a, a + 4#32 = c ∧ TransferAt out.img a ∧ Aligned a ∧
      u.body.walkLo.toNat ≤ a.toNat ∧ a.toNat < u.body.endAddr.toNat := by
  obtain ⟨b, hb, hAt, hType, hLink, _⟩ := hCall
  obtain ⟨⟨w, hRead, hFlow, _⟩, hPlace⟩ := exit_of_mem_blocks hu hb hType
  exact ⟨hLink, b.exitInstr.address, hAt, ⟨w, hRead, hFlow⟩, hPlace⟩

/-- Before an aligned end there is room for a delay slot behind a transfer, up to it. -/
theorem slot_toNat {a stop : Word} (hAligned : Aligned a) (hStop : Aligned stop)
    (hLt : a.toNat < stop.toNat) :
    (a + 4#32).toNat = a.toNat + 4 ∧ Aligned (a + 4#32) ∧ a.toNat + 4 ≤ stop.toNat := by
  have hBound := stop.isLt
  unfold Aligned at hAligned hStop ⊢
  rw [BitVec.toNat_add, BitVec.toNat_ofNat]
  omega

/-- The return point of a call is a leader of the function that it lies in. -/
theorem return_leader {img : Image} {f : Function} {c : Word} (hf : f.Valid) (hCall : CallAt img c)
    (hAligned : Aligned c) (hLow : f.walkLo.toNat ≤ c.toNat)
    (hInside : c.toNat + 8 < f.endAddr.toNat) :
    inRange f (c + 8#32) = true ∧ c + 8#32 ∈ boundaries img f := by
  obtain ⟨w, hRead, hStores⟩ := hCall
  have hBound := f.endAddr.isLt
  have hAfter : (c + 8#32).toNat = c.toNat + 8 := by
    rw [BitVec.toNat_add, BitVec.toNat_ofNat]
    omega
  have hRange : inRange f (c + 8#32) = true := by
    refine decide_eq_true ?_
    rw [BitVec.le_def, BitVec.lt_def, hAfter]
    omega
  refine ⟨hRange, mem_boundaries.mpr (.inr (.inr ⟨c, ?_, ?_⟩))⟩
  · have hWalk := hf.walk_aligned
    unfold Aligned at hWalk hAligned
    exact mem_addrRange_of hLow (by omega) (by omega)
  · exact mem_scanBoundaries.mpr ⟨w, hRead,
      mem_wordBoundaries.mpr ⟨isControlFlow_of_storesLink hStores, hRange, .inr rfl⟩⟩

/-- The return point of a block exit inside its function leads a block. -/
theorem exitCall_leads (hu : u.Valid) {out : OutputConfig} {c : Word}
    (hCall : ExitCall out u c) (hInside : c.toNat + 8 < u.body.endAddr.toNat) :
    ∃ b ∈ u.blocks out, b.startAddr = c + 8#32 := by
  obtain ⟨hCallAt, hAligned, hLow, _⟩ := callAt_of_exitCall hu hCall
  obtain ⟨b, hb, hAt, hLink, _⟩ := hCall
  have hf := body_valid hu
  have hEmits := emits_unit out hu
  have hMem := hEmits.sublist.subset hb
  obtain ⟨hRange, hLeader⟩ := return_leader hf hCallAt hAligned hLow hInside
  have hIn : (inRange u.body (c + 8#32) && (boundaries out.img u.body).contains (c + 8#32)) =
      true := by
    rw [hRange, Bool.true_and]
    exact List.contains_iff_mem.mpr hLeader
  refine hEmits.successors b hb _ ?_
  rw [successors_eq (mem_blocks hf hMem).1, blockSuccessors, hAt]
  rcases storesLink_type hLink with hType | hType | hType
  · simp only [hType, hIn, if_true, List.mem_singleton]
  · simp only [hType, hIn, if_true, List.mem_singleton]
  · simp only [hType, hIn, if_true, List.mem_append, List.mem_singleton, or_true]

/-- A plain function has all its blocks written out, so the return point of a call in a
delay slot leads one too. -/
theorem slotCall_leads (hu : u.Valid) (hPlain : u.body.aliasWalkLo = 0) {out : OutputConfig}
    {c : Word} (hCall : SlotCall out u c) (hInside : c.toNat + 8 < u.body.endAddr.toNat) :
    ∃ b ∈ u.blocks out, b.startAddr = c + 8#32 := by
  obtain ⟨hLink, a, rfl, _, hAligned, hLow, hHigh⟩ := transferAt_of_slotCall hu hCall
  obtain ⟨hSlot, hSlotAligned, _⟩ := slot_toNat hAligned (body_valid hu).end_aligned hHigh
  cases u with
  | aliasGroup g => exact absurd hPlain hu.1
  | function f =>
      have hf : f.Valid := hu
      obtain ⟨_, hLeader⟩ := return_leader hf (callAt_of_linksInSlot hLink) hSlotAligned
        (by rw [hSlot]; exact Nat.le_add_right_of_le hLow) hInside
      rw [← map_startAddr_blocks hf] at hLeader
      obtain ⟨b, hb, hStart⟩ := List.mem_map.mp hLeader
      exact ⟨b, hb, hStart⟩

/-- What a table serves is decided by the calls that are cut off. -/
theorem returnsServed_iff (img : Image) (sites : SiteConfig) (hOk : ListOk fs) :
    ReturnsServed img sites fs ↔ CutReturnsLead img sites fs := by
  constructor
  · intro hServed u hu c hCall _ hContains
    rcases hServed u hu c hCall hContains with hStart | hOwner
    · exact .inl hStart
    · obtain ⟨ft, hft, hMem⟩ := continuationOwner_isSome.1 hOwner
      obtain ⟨u', hu', rfl⟩ := List.mem_map.mp hft
      exact .inr ⟨u', hu', mem_continuations _ (unit_of_mem hOk hu').1 hMem⟩
  · intro hLead u hu c hCall hContains
    have hValid := (unit_of_mem hOk hu).1
    -- the return point leads a block of the unit, or the condition speaks of the call
    have hCases : (∃ b ∈ u.blocks (outputOf img sites fs), b.startAddr = c + 8#32) ∨
        (u.body.endAddr.toNat ≤ c.toNat + 8 ∨
          (u.body.aliasWalkLo ≠ 0 ∧ SlotCall (outputOf img sites fs) u c)) := by
      by_cases hInside : c.toNat + 8 < u.body.endAddr.toNat
      · rcases hCall with hExit | hSlot
        · exact .inl (exitCall_leads hValid hExit hInside)
        · by_cases hPlain : u.body.aliasWalkLo = 0
          · exact .inl (slotCall_leads hValid hPlain hSlot hInside)
          · exact .inr (.inr ⟨hPlain, hSlot⟩)
      · exact .inr (.inl (not_lt.mp hInside))
    rcases hCases with ⟨b, hb, hStart⟩ | hCut
    · rw [← hStart]
      exact leads_dispatchable hu hb
    · rcases hLead u hu c hCall hCut hContains with hStart | ⟨u', hu', b, hb, hStart⟩
      · exact .inl hStart
      · rw [← hStart]
        exact leads_dispatchable hu' hb

end Units

namespace SplitState

variable {img : Image} {st : SplitState} {f g : Function} {t : Word}

theorem mem_insertFunction {l : List Function} : g ∈ insertFunction f l ↔ g = f ∨ g ∈ l := by
  induction l with
  | nil => simp [insertFunction]
  | cons x rest ih =>
      unfold insertFunction
      split_ifs
      · simp [ih, or_left_comm]
      · simp

theorem mem_sortFunctions {l : List Function} : g ∈ sortFunctions l ↔ g ∈ l := by
  induction l with
  | nil => simp [sortFunctions]
  | cons f rest ih =>
      rw [sortFunctions, List.foldr_cons, mem_insertFunction, ← sortFunctions, ih, List.mem_cons]

/-- The functions after a pass: what is left of the old ones, the gap pieces and
the pieces behind cuts. -/
theorem mem_pass : g ∈ (st.pass img).functions ↔
    (∃ f ∈ st.functions, (st.cut img f).1 = g) ∨ g ∈ st.gapFunctions img ∨
      ∃ f ∈ st.functions, g ∈ (st.cut img f).2 := by
  simp only [pass, mem_sortFunctions, List.mem_append, List.mem_map, List.mem_flatMap]

theorem isStart_iff {fs : List Function} {a : Word} :
    isStart fs a = true ↔ ∃ f ∈ fs, f.startAddr = a := by
  simp [isStart]

/-- A target is aligned and starts no function yet. -/
theorem mem_midTargets (ht : t ∈ st.midTargets img) :
    Aligned t ∧ isStart st.functions t = false := by
  rw [midTargets, mem_sortUnique, List.mem_flatMap] at ht
  obtain ⟨f, _, ht⟩ := ht
  obtain ⟨_, _, hNew, _, _, hLow⟩ := of_decide_eq_true (List.mem_filter.mp ht).2
  refine ⟨?_, hNew⟩
  have hBits := congrArg BitVec.toNat hLow
  rw [BitVec.toNat_and] at hBits
  exact (Nat.and_two_pow_sub_one_eq_mod t.toNat 2).symm.trans hBits

/-- The host of a target starts before it, where a function of its own starts. -/
theorem hostOf_eq_some (hHost : st.hostOf t = some f) :
    f.startAddr < t ∧ ∃ g ∈ st.functions, g.aliasWalkLo = 0 ∧ g.startAddr = f.startAddr := by
  unfold hostOf at hHost
  split at hHost
  · cases hHost
  next start hLast =>
    obtain ⟨hFind, hInside⟩ := Option.filter_eq_some_iff.mp hHost
    have hStart : f.startAddr = start := by simpa using List.find?_some hFind
    have hMem := (List.mem_filter.mp (List.mem_of_getLast? hLast)).1
    rw [funcStarts, mem_sortUnique] at hMem
    obtain ⟨g, hg, hSame⟩ := List.mem_map.mp hMem
    obtain ⟨hMemG, hPlain⟩ := List.mem_filter.mp hg
    exact ⟨(of_decide_eq_true hInside).1, g, hMemG, by simpa using hPlain, hSame.trans hStart.symm⟩

theorem mem_splitsOf (ht : t ∈ st.splitsOf img f) :
    t ∈ st.midTargets img ∧ ∃ f₀, st.hostOf t = some f₀ ∧ f₀.startAddr = f.startAddr := by
  obtain ⟨hMem, hHost⟩ := List.mem_filter.mp ht
  rw [beq_iff_eq, Option.map_eq_some_iff] at hHost
  exact ⟨hMem, hHost⟩

theorem pairwise_splitsOf : (st.splitsOf img f).Pairwise (· < ·) :=
  (pairwise_sortUnique _).filter _

theorem le_getLastD {l : List Word} (hSorted : l.Pairwise (· < ·)) {x : Word} (d : Word)
    (hx : x ∈ l) : x ≤ l.getLastD d := by
  induction l generalizing x d with
  | nil => cases hx
  | cons a rest ih =>
      obtain ⟨hHead, hRest⟩ := List.pairwise_cons.mp hSorted
      rw [List.getLastD_cons]
      rcases List.mem_cons.mp hx with rfl | hx
      · cases rest with
        | nil => exact BitVec.le_refl _
        | cons b rest =>
            exact BitVec.le_trans (BitVec.le_of_lt (hHead b List.mem_cons_self))
              (ih hRest x List.mem_cons_self)
      · exact ih hRest a hx

/-- A function is left alone, or cut at targets inside it. -/
theorem cut_cases (st : SplitState) (img : Image) (f : Function) :
    st.cut img f = (f, []) ∨
      ∃ t rest, st.splitsOf img f = t :: rest ∧ (∀ x ∈ t :: rest, x < f.endAddr) ∧
        st.cut img f =
          ({ f with endAddr := t }, pieces f.isDataSection f.endAddr (t :: rest)) := by
  unfold cut
  split
  · exact .inl rfl
  next t rest hSplits =>
    split_ifs with hLate
    · exact .inl rfl
    · refine .inr ⟨t, rest, hSplits, fun x hx => ?_, rfl⟩
      have hSorted : (t :: rest).Pairwise (· < ·) := hSplits ▸ pairwise_splitsOf
      have hLe := le_getLastD hSorted t hx
      rw [BitVec.le_def] at hLe hLate
      rw [BitVec.lt_def]
      omega

/-- The pieces lie between neighbouring targets, the last one before the end. -/
theorem mem_pieces {isData : Bool} {stop : Word} {ts : List Word} (hSorted : ts.Pairwise (· < ·))
    (hStop : ∀ x ∈ ts, x < stop) (hg : g ∈ pieces isData stop ts) :
    g.startAddr ∈ ts ∧ g.startAddr < g.endAddr ∧ (g.endAddr ∈ ts ∨ g.endAddr = stop) ∧
      g.aliasWalkLo = 0 ∧ g.aliasGroupEntries = [] := by
  induction ts with
  | nil => cases hg
  | cons t rest ih =>
      obtain ⟨hHead, hRest⟩ := List.pairwise_cons.mp hSorted
      rcases List.mem_cons.mp hg with rfl | hg
      · refine ⟨List.mem_cons_self, ?_, ?_, rfl, rfl⟩
        · cases rest with
          | nil => exact hStop t List.mem_cons_self
          | cons x rest => exact hHead x List.mem_cons_self
        · cases rest with
          | nil => exact .inr rfl
          | cons x rest => exact .inl (List.mem_cons_of_mem _ List.mem_cons_self)
      · obtain ⟨hStart, hLt, hEnd, hPlain⟩ :=
          ih hRest (fun x hx => hStop x (List.mem_cons_of_mem _ hx)) hg
        exact ⟨List.mem_cons_of_mem _ hStart, hLt, hEnd.imp_left (List.mem_cons_of_mem _), hPlain⟩

theorem start_of_pieces {isData : Bool} {stop : Word} {ts : List Word} (ht : t ∈ ts) :
    ∃ g ∈ pieces isData stop ts, g.startAddr = t := by
  induction ts with
  | nil => cases ht
  | cons x rest ih =>
      rcases List.mem_cons.mp ht with rfl | ht
      · exact ⟨_, List.mem_cons_self, rfl⟩
      · obtain ⟨g, hg, hStart⟩ := ih ht
        exact ⟨g, List.mem_cons_of_mem _ hg, hStart⟩

theorem cut_startAddr (st : SplitState) (img : Image) (f : Function) :
    (st.cut img f).1.startAddr = f.startAddr ∧ (st.cut img f).1.aliasWalkLo = f.aliasWalkLo := by
  rcases cut_cases st img f with hCut | ⟨t, rest, _, _, hCut⟩
  · rw [hCut]
    exact ⟨rfl, rfl⟩
  · rw [hCut]
    exact ⟨rfl, rfl⟩

/-- A pass keeps every start. -/
theorem isStart_pass {a : Word} (hStart : isStart st.functions a = true) :
    isStart (st.pass img).functions a = true := by
  obtain ⟨f, hf, rfl⟩ := isStart_iff.1 hStart
  exact isStart_iff.2 ⟨_, mem_pass.2 (.inl ⟨f, hf, rfl⟩), (cut_startAddr st img f).1⟩

/-- Entries inside a host are never cut. -/
theorem cut_alias (hOk : ListOk st.functions) (hf : f ∈ st.functions) (hAlias : f.aliasWalkLo ≠ 0) :
    st.cut img f = (f, []) := by
  rcases cut_cases st img f with hCut | ⟨t, rest, hSplits, _, _⟩
  · exact hCut
  · have ht : t ∈ st.splitsOf img f := hSplits ▸ List.mem_cons_self
    obtain ⟨_, f₀, hHost, hSame⟩ := mem_splitsOf ht
    obtain ⟨_, g, hg, hPlain, hStart⟩ := hostOf_eq_some hHost
    exact absurd (hSame.symm.trans hStart.symm) (hOk.apart f hf g hg hAlias hPlain)

theorem mem_gapFunctions (hg : g ∈ st.gapFunctions img) :
    g.startAddr ∈ st.midTargets img ∧ g.startAddr < g.endAddr ∧
      g.endAddr = st.gapEnd img g.startAddr ∧ g.aliasWalkLo = 0 ∧ g.aliasGroupEntries = [] := by
  obtain ⟨t, ht, rfl⟩ := List.mem_map.mp hg
  obtain ⟨hMem, hGap⟩ := List.mem_filter.mp ht
  exact ⟨hMem, of_decide_eq_true (Bool.and_eq_true_iff.mp hGap).2, rfl, rfl, rfl⟩

theorem gapEnd_cases (st : SplitState) (img : Image) (t : Word) :
    st.gapEnd img t = img.endAddress ∨
      ∃ f ∈ st.functions, f.startAddr = st.gapEnd img t := by
  unfold gapEnd
  cases hFind : st.funcStarts.find? fun a => t < a with
  | none => exact .inl rfl
  | some a =>
      have hMem := List.mem_of_find?_eq_some hFind
      rw [funcStarts, mem_sortUnique] at hMem
      obtain ⟨f, hf, hStart⟩ := List.mem_map.mp hMem
      exact .inr ⟨f, (List.mem_filter.mp hf).1, hStart⟩

theorem plain_valid (hPlain : g.aliasWalkLo = 0) (hEntries : g.aliasGroupEntries = [])
    (hLt : g.startAddr < g.endAddr) (hStart : Aligned g.startAddr) (hEnd : Aligned g.endAddr) :
    g.Valid := by
  have hWalk : g.walkLo = g.startAddr := if_pos hPlain
  refine ⟨hWalk ▸ hLt, decide_eq_true ⟨?_, hLt⟩, hWalk ▸ hStart, hStart, hEnd, ?_⟩
  · rw [hWalk]
    exact BitVec.le_refl _
  · rw [hEntries]
    intro e he
    cases he

theorem aligned_of_splits (ht : t ∈ st.splitsOf img f) : Aligned t :=
  (mem_midTargets (mem_splitsOf ht).1).1

/-- What is left of a function that is cut. -/
theorem cut_valid (hf : f.Valid) (ht : t ∈ st.splitsOf img f) :
    ({ f with endAddr := t } : Function).Valid := by
  obtain ⟨_, f₀, hHost, hSame⟩ := mem_splitsOf ht
  have hAbove : f.startAddr < t := hSame ▸ (hostOf_eq_some hHost).1
  have hLow : f.walkLo ≤ f.startAddr := (of_decide_eq_true hf.start_in).1
  refine ⟨?_, decide_eq_true ⟨hLow, hAbove⟩, hf.walk_aligned, hf.start_aligned,
    aligned_of_splits ht, hf.entries_aligned⟩
  show f.walkLo < t
  rw [BitVec.lt_def] at hAbove ⊢
  rw [BitVec.le_def] at hLow
  omega

/-- A piece of a function lies inside it. -/
theorem piece_inside (hf : f.Valid) (hg : g ∈ (st.cut img f).2) :
    f.walkLo.toNat ≤ g.startAddr.toNat ∧ g.endAddr.toNat ≤ f.endAddr.toNat := by
  rcases cut_cases st img f with hCut | ⟨t, rest, hSplits, hInside, hCut⟩
  · rw [hCut] at hg
    cases hg
  · rw [hCut] at hg
    have hSorted : (t :: rest).Pairwise (· < ·) := hSplits ▸ pairwise_splitsOf
    obtain ⟨hStart, _, hEnd, _⟩ := mem_pieces hSorted hInside hg
    rw [← hSplits] at hStart
    obtain ⟨_, f₀, hHost, hSame⟩ := mem_splitsOf hStart
    have hAbove : f.startAddr < g.startAddr := hSame ▸ (hostOf_eq_some hHost).1
    have hLow : f.walkLo ≤ f.startAddr := (of_decide_eq_true hf.start_in).1
    rw [BitVec.lt_def] at hAbove
    rw [BitVec.le_def] at hLow
    refine ⟨by omega, ?_⟩
    rcases hEnd with hEnd | hEnd
    · exact le_of_lt (hInside _ hEnd)
    · rw [hEnd]

/-- The new pieces of a pass are plain functions. -/
theorem piece_of_cut (hf : f.Valid) (hg : g ∈ (st.cut img f).2) :
    g.Valid ∧ g.aliasWalkLo = 0 ∧ g.startAddr ∈ st.splitsOf img f ∧
      (g.endAddr ∈ st.splitsOf img f ∨ g.endAddr = f.endAddr) := by
  rcases cut_cases st img f with hCut | ⟨t, rest, hSplits, hInside, hCut⟩
  · rw [hCut] at hg
    cases hg
  · rw [hCut] at hg
    have hSorted : (t :: rest).Pairwise (· < ·) := hSplits ▸ pairwise_splitsOf
    obtain ⟨hStart, hLt, hEnd, hPlain, hEntries⟩ := mem_pieces hSorted hInside hg
    rw [← hSplits] at hStart hEnd
    refine ⟨plain_valid hPlain hEntries hLt (aligned_of_splits hStart) ?_, hPlain, hStart, hEnd⟩
    rcases hEnd with hEnd | hEnd
    · exact aligned_of_splits hEnd
    · rw [hEnd]
      exact hf.end_aligned

theorem gap_valid (hOk : ListOk st.functions) (hImage : Aligned img.endAddress)
    (hg : g ∈ st.gapFunctions img) : g.Valid := by
  obtain ⟨hMem, hLt, hEnd, hPlain, hEntries⟩ := mem_gapFunctions hg
  refine plain_valid hPlain hEntries hLt (mem_midTargets hMem).1 ?_
  rcases gapEnd_cases st img g.startAddr with hLast | ⟨f, hf, hNext⟩
  · rw [hEnd, hLast]
    exact hImage
  · rw [hEnd, ← hNext]
    exact (hOk.valid f hf).start_aligned

theorem remains_valid (hf : f.Valid) : (st.cut img f).1.Valid := by
  rcases cut_cases st img f with hCut | ⟨t, rest, hSplits, _, hCut⟩
  · rw [hCut]
    exact hf
  · rw [hCut]
    exact cut_valid hf (hSplits ▸ List.mem_cons_self)

/-- After a pass an alias entry is an old one, unchanged. -/
theorem alias_of_pass (hOk : ListOk st.functions) (hg : g ∈ (st.pass img).functions)
    (hAlias : g.aliasWalkLo ≠ 0) : g ∈ st.functions := by
  rcases mem_pass.1 hg with ⟨f, hf, rfl⟩ | hGap | ⟨f, hf, hPiece⟩
  · rw [(cut_startAddr st img f).2] at hAlias
    rw [cut_alias hOk hf hAlias]
    exact hf
  · exact absurd (mem_gapFunctions hGap).2.2.2.1 hAlias
  · exact absurd (piece_of_cut (hOk.valid f hf) hPiece).2.1 hAlias

theorem listOk_pass (hImage : Aligned img.endAddress) (hOk : ListOk st.functions) :
    ListOk (st.pass img).functions := by
  refine ⟨fun g hg => ?_, fun f hf g hg hAlias hHost => ?_, fun f hf g hg hAlias hPlain => ?_⟩
  · rcases mem_pass.1 hg with ⟨f, hf, rfl⟩ | hGap | ⟨f, hf, hPiece⟩
    · exact remains_valid (hOk.valid f hf)
    · exact gap_valid hOk hImage hGap
    · exact (piece_of_cut (hOk.valid f hf) hPiece).1
  · have hAliasG : g.aliasWalkLo ≠ 0 := hHost ▸ hAlias
    exact hOk.ends f (alias_of_pass hOk hf hAlias) g (alias_of_pass hOk hg hAliasG) hAlias hHost
  · have hOld := alias_of_pass hOk hf hAlias
    have hFresh : ∀ {t}, t ∈ st.midTargets img → f.startAddr ≠ t := by
      rintro t ht rfl
      have hKnown : isStart st.functions f.startAddr = true := isStart_iff.2 ⟨f, hOld, rfl⟩
      rw [(mem_midTargets ht).2] at hKnown
      cases hKnown
    rcases mem_pass.1 hg with ⟨h, hh, rfl⟩ | hGap | ⟨h, hh, hPiece⟩
    · rw [(cut_startAddr st img h).2] at hPlain
      rw [(cut_startAddr st img h).1]
      exact hOk.apart f hOld h hh hAlias hPlain
    · exact hFresh (mem_gapFunctions hGap).1
    · exact hFresh (mem_splitsOf (piece_of_cut (hOk.valid h hh) hPiece).2.2.1).1

end SplitState

/-- No call of a function is cut off from its return point, unless that starts a
function or lies outside the image. Nor is one in the delay slot of a transfer of the
function, where the function ends before the slot or is an alias entry. -/
structure NoCutOff (img : Image) (fs : List Function) : Prop where
  calls : ∀ f ∈ fs, ∀ c, CallAt img c → Aligned c → f.walkLo.toNat ≤ c.toNat →
    c.toNat < f.endAddr.toNat → f.endAddr.toNat ≤ c.toNat + 8 → img.Contains (c + 8#32) →
      isStart fs (c + 8#32) = true
  slots : ∀ f ∈ fs, ∀ a, TransferAt img a → Aligned a → f.walkLo.toNat ≤ a.toNat →
    a.toNat < f.endAddr.toNat → linksInSlot img (a + 4#32) = true →
      f.endAddr = a + 4#32 ∨ f.aliasWalkLo ≠ 0 → img.Contains (a + 4#32 + 8#32) →
        isStart fs (a + 4#32 + 8#32) = true

/-- The address is the delay slot of a call, or the delay slot of a transfer that is a call
itself. -/
def CallSlot (img : Image) (a : Word) : Prop :=
  CallAt img (a - 4#32) ∨ (TransferAt img (a - 4#32) ∧ linksInSlot img a = true)

/-- A pass that cuts no function at the delay slot of a call, and opens no gap
piece that a call ends. -/
structure PassOk (img : Image) (st : SplitState) : Prop where
  splits : ∀ f ∈ st.functions, ∀ t ∈ st.splitsOf img f, ¬ CallSlot img t
  gaps : ∀ g ∈ st.gapFunctions img, g.endAddr ≠ img.endAddress → ¬ CallSlot img g.endAddr

/-- The states that the passes go through, as long as each of them is made in a
state of the given kind. -/
inductive Reached (img : Image) (kind : SplitState → Prop) (fs : List Function) :
    SplitState → Prop where
  | start : Reached img kind fs ⟨fs, []⟩
  | pass {st : SplitState} (hReached : Reached img kind fs st) (hKind : kind st)
      (hTargets : st.midTargets img ≠ []) : Reached img kind fs (st.pass img)

variable {img : Image} {st : SplitState} {f g : Function} {fs : List Function} {t c : Word}

/-- A cut behind a call is at its delay slot or at its return point. -/
theorem cut_behind_call (hCall : CallAt img c) (hAligned : Aligned c) (ht : Aligned t)
    (hAbove : c.toNat < t.toNat) (hNear : t.toNat ≤ c.toNat + 8) (hSlot : ¬ CallSlot img t) :
    t = c + 8#32 := by
  obtain ⟨w, hRead, hLink⟩ := hCall
  have hRange := img.readWord_range hRead
  unfold Aligned at hAligned ht
  have hNot : t.toNat ≠ c.toNat + 4 := by
    intro hAt
    have hSame : t - 4#32 = c := by
      apply BitVec.eq_of_toNat_eq
      rw [sub_four_toNat (by omega)]
      omega
    exact hSlot (.inl ⟨w, by rw [hSame]; exact hRead, by rw [hSame]; exact hLink⟩)
  apply BitVec.eq_of_toNat_eq
  rw [BitVec.toNat_add, BitVec.toNat_ofNat]
  omega

theorem isStart_of_split (hf : f ∈ st.functions) (hCut : st.cut img f ≠ (f, []))
    (ht : t ∈ st.splitsOf img f) : isStart (st.pass img).functions t = true := by
  rcases SplitState.cut_cases st img f with hSame | ⟨t', rest, hSplits, _, hPieces⟩
  · exact absurd hSame hCut
  · rw [hSplits] at ht
    obtain ⟨g, hg, hStart⟩ := SplitState.start_of_pieces ht
    refine SplitState.isStart_iff.mpr ⟨g, SplitState.mem_pass.mpr (.inr (.inr ⟨f, hf, ?_⟩)), hStart⟩
    rw [hPieces]
    exact hg

/-- A pass that keeps off the delay slots of calls cuts none off. -/
theorem calls_pass (hOk : ListOk st.functions) (hPass : PassOk img st)
    (hInv : NoCutOff img st.functions) (hg : g ∈ (st.pass img).functions) (hCall : CallAt img c)
    (hAligned : Aligned c) (hLow : g.walkLo.toNat ≤ c.toNat) (hHigh : c.toNat < g.endAddr.toNat)
    (hCutOff : g.endAddr.toNat ≤ c.toNat + 8) (hContains : img.Contains (c + 8#32)) :
    isStart (st.pass img).functions (c + 8#32) = true := by
  -- the end of a piece is a cut of `f`, or it is the end of `f`
  have hPiece : ∀ f ∈ st.functions, st.cut img f ≠ (f, []) →
      g.endAddr ∈ st.splitsOf img f ∨ g.endAddr = f.endAddr →
      f.walkLo.toNat ≤ c.toNat → c.toNat < f.endAddr.toNat →
      isStart (st.pass img).functions (c + 8#32) = true := by
    intro f hf hCut hEnd hLow hHigh
    rcases hEnd with hSplit | hEnd
    · rw [← cut_behind_call hCall hAligned (SplitState.aligned_of_splits hSplit)
        (by omega) (by omega)
        (hPass.splits f hf _ hSplit)]
      exact isStart_of_split hf hCut hSplit
    · exact SplitState.isStart_pass
        (hInv.calls f hf c hCall hAligned hLow hHigh (by rw [← hEnd]; exact hCutOff) hContains)
  rcases SplitState.mem_pass.mp hg with ⟨f, hf, rfl⟩ | hGap | ⟨f, hf, hNew⟩
  · rcases SplitState.cut_cases st img f with hSame | ⟨t, rest, hSplits, hInside, hCut⟩
    · rw [hSame] at hLow hHigh hCutOff
      exact SplitState.isStart_pass (hInv.calls f hf c hCall hAligned hLow hHigh hCutOff hContains)
    · have hFirst : t ∈ st.splitsOf img f := hSplits ▸ List.mem_cons_self
      have hBefore : t < f.endAddr := hInside t List.mem_cons_self
      rw [BitVec.lt_def] at hBefore
      rw [hCut] at hLow hHigh hCutOff hPiece
      refine hPiece f hf ?_ (.inl hFirst) hLow (lt_trans hHigh hBefore)
      rw [hCut]
      intro hNone
      cases (Prod.mk.inj hNone).2
  · obtain ⟨_, hLt, hEnd, hPlain, _⟩ := SplitState.mem_gapFunctions hGap
    have hNotLast : g.endAddr ≠ img.endAddress := by
      intro hLast
      obtain ⟨w, hRead, _⟩ := hCall
      have hRange := img.readWord_range hRead
      have hBelow := hContains.2
      rw [← hLast, BitVec.lt_def, BitVec.toNat_add, BitVec.toNat_ofNat] at hBelow
      omega
    rcases SplitState.gapEnd_cases st img g.startAddr with hLast | ⟨f, hf, hNext⟩
    · exact absurd (hEnd.trans hLast) hNotLast
    · have hStart : g.endAddr = f.startAddr := hEnd.trans hNext.symm
      have hGapAligned : Aligned g.endAddr := hStart ▸ (hOk.valid f hf).start_aligned
      rw [← cut_behind_call hCall hAligned hGapAligned hHigh hCutOff (hPass.gaps g hGap hNotLast)]
      exact SplitState.isStart_pass (SplitState.isStart_iff.mpr ⟨f, hf, hStart.symm⟩)
  · obtain ⟨hValid, hPlain, hStart, hEnd⟩ := SplitState.piece_of_cut (hOk.valid f hf) hNew
    have hCut : st.cut img f ≠ (f, []) := by
      intro hNone
      rw [hNone] at hNew
      cases hNew
    have hWalk : g.walkLo = g.startAddr := if_pos hPlain
    obtain ⟨hAbove, hBelow⟩ := SplitState.piece_inside (hOk.valid f hf) hNew
    rw [hWalk] at hLow
    exact hPiece f hf hCut hEnd (by omega) (by omega)

/-- Nor does it part a call in a delay slot from the transfer in front of it. -/
theorem slots_pass (hOk : ListOk st.functions) (hPass : PassOk img st)
    (hInv : NoCutOff img st.functions) {a : Word} (hg : g ∈ (st.pass img).functions)
    (hTransfer : TransferAt img a) (hAligned : Aligned a) (hLow : g.walkLo.toNat ≤ a.toNat)
    (hHigh : a.toNat < g.endAddr.toNat) (hLink : linksInSlot img (a + 4#32) = true)
    (hEnds : g.endAddr = a + 4#32 ∨ g.aliasWalkLo ≠ 0)
    (hContains : img.Contains (a + 4#32 + 8#32)) :
    isStart (st.pass img).functions (a + 4#32 + 8#32) = true := by
  have hBehind : CallSlot img (a + 4#32) := by
    refine .inr ⟨?_, hLink⟩
    rw [BitVec.add_sub_cancel]
    exact hTransfer
  have hOld : ∀ f ∈ st.functions, f.walkLo.toNat ≤ a.toNat → a.toNat < f.endAddr.toNat →
      f.endAddr = a + 4#32 ∨ f.aliasWalkLo ≠ 0 →
      isStart (st.pass img).functions (a + 4#32 + 8#32) = true := fun f hf hLow hHigh hEnds =>
    SplitState.isStart_pass
      (hInv.slots f hf a hTransfer hAligned hLow hHigh hLink hEnds hContains)
  by_cases hAlias : g.aliasWalkLo = 0
  · have hEnd : g.endAddr = a + 4#32 := hEnds.resolve_right (not_not_intro hAlias)
    rcases SplitState.mem_pass.mp hg with ⟨f, hf, rfl⟩ | hGap | ⟨f, hf, hNew⟩
    · rcases SplitState.cut_cases st img f with hSame | ⟨t, rest, hSplits, _, hCut⟩
      · rw [hSame] at hLow hHigh hEnds
        exact hOld f hf hLow hHigh hEnds
      · rw [hCut] at hEnd
        have hFirst : t ∈ st.splitsOf img f := hSplits ▸ List.mem_cons_self
        have hAt : t = a + 4#32 := hEnd
        rw [← hAt] at hBehind
        exact absurd hBehind (hPass.splits f hf t hFirst)
    · have hNotLast : g.endAddr ≠ img.endAddress := by
        intro hLast
        obtain ⟨w, hRead, _⟩ := callAt_of_linksInSlot hLink
        have hRange := img.readWord_range hRead
        have hBelow := hContains.2
        rw [← hEnd, hLast, BitVec.lt_def, BitVec.toNat_add, BitVec.toNat_ofNat] at hBelow
        rw [← hEnd, hLast] at hRange
        omega
      rw [← hEnd] at hBehind
      exact absurd hBehind (hPass.gaps g hGap hNotLast)
    · obtain ⟨_, hPlain, _, hSplit | hLast⟩ := SplitState.piece_of_cut (hOk.valid f hf) hNew
      · rw [← hEnd] at hBehind
        exact absurd hBehind (hPass.splits f hf _ hSplit)
      · obtain ⟨hAbove, _⟩ := SplitState.piece_inside (hOk.valid f hf) hNew
        have hWalk : g.walkLo = g.startAddr := if_pos hPlain
        rw [hWalk] at hLow
        rw [hLast] at hHigh hEnd
        exact hOld f hf (by omega) hHigh (.inl hEnd)
  · exact hOld g (SplitState.alias_of_pass hOk hg hAlias) hLow hHigh (.inr hAlias)

theorem noCutOff_pass (hOk : ListOk st.functions) (hPass : PassOk img st)
    (hInv : NoCutOff img st.functions) : NoCutOff img (st.pass img).functions where
  calls _ hg _ := calls_pass hOk hPass hInv hg
  slots _ hg _ := slots_pass hOk hPass hInv hg

theorem listOk_reached {kind : SplitState → Prop} (hImage : Aligned img.endAddress)
    (hOk : ListOk fs) (hReached : Reached img kind fs st) : ListOk st.functions := by
  induction hReached with
  | start => exact hOk
  | pass _ _ _ ih => exact SplitState.listOk_pass hImage ih

theorem noCutOff_reached (hImage : Aligned img.endAddress) (hOk : ListOk fs)
    (hInv : NoCutOff img fs) (hReached : Reached img (PassOk img) fs st) :
    NoCutOff img st.functions := by
  induction hReached with
  | start => exact hInv
  | pass hBefore hPass _ ih => exact noCutOff_pass (listOk_reached hImage hOk hBefore) hPass ih

/-- With no call cut off, a call in a delay slot that leaves its function returns to a
start. -/
theorem isStart_of_slotCall {u : OutputUnit} {out : OutputConfig} (hInv : NoCutOff out.img fs)
    (hu : u.Valid) (hf : f ∈ fs) (hValid : f.Valid) (hWalk : u.body.walkLo = f.walkLo)
    (hEnd : u.body.endAddr = f.endAddr) (hCall : SlotCall out u c)
    (hCut : f.endAddr.toNat ≤ c.toNat + 8 ∨ f.aliasWalkLo ≠ 0)
    (hContains : out.img.Contains (c + 8#32)) : isStart fs (c + 8#32) = true := by
  obtain ⟨hLink, a, rfl, hTransfer, hAligned, hLow, hHigh⟩ := transferAt_of_slotCall hu hCall
  rw [hWalk] at hLow
  rw [hEnd] at hHigh
  obtain ⟨hSlot, hSlotAligned, hRoom⟩ := slot_toNat hAligned hValid.end_aligned hHigh
  by_cases hEnds : f.endAddr = a + 4#32 ∨ f.aliasWalkLo ≠ 0
  · exact hInv.slots f hf a hTransfer hAligned hLow hHigh hLink hEnds hContains
  · rw [not_or] at hEnds
    have hBehind : f.endAddr.toNat ≠ a.toNat + 4 := fun h =>
      hEnds.1 (BitVec.eq_of_toNat_eq (h.trans hSlot.symm))
    exact hInv.calls f hf (a + 4#32) (callAt_of_linksInSlot hLink) hSlotAligned (by omega)
      (by omega) (hCut.resolve_right hEnds.2) hContains

/-- A list that cuts no call off serves all returns. -/
theorem returnsServed_of_noCutOff (sites : SiteConfig) (hOk : ListOk fs) (hInv : NoCutOff img fs) :
    ReturnsServed img sites fs := by
  refine (returnsServed_iff img sites hOk).mpr fun u hu c hCall hCut hContains => .inl ?_
  obtain ⟨hValid, f, hf, hWalk, hEnd, hAlias⟩ := unit_of_mem hOk hu
  rw [hEnd, hAlias] at hCut
  have hSlotCase : SlotCall (outputOf img sites fs) u c → isStart fs (c + 8#32) = true :=
    fun hSlot => isStart_of_slotCall hInv hValid hf (hOk.valid f hf) hWalk hEnd hSlot
      (hCut.imp_right And.left) hContains
  rcases hCall with hExit | hSlot
  · rcases hCut with hCut | ⟨_, hSlot⟩
    · obtain ⟨hCallAt, hAligned, hLow, hHigh⟩ := callAt_of_exitCall hValid hExit
      rw [hWalk] at hLow
      rw [hEnd] at hHigh
      exact hInv.calls f hf c hCallAt hAligned hLow hHigh hCut hContains
    · exact hSlotCase hSlot
  · exact hSlotCase hSlot

theorem reached_passes (n : Nat) (hReached : Reached img (fun _ => True) fs st) :
    Reached img (fun _ => True) fs (SplitState.passes img n st) := by
  induction n generalizing st with
  | zero => exact hReached
  | succ n ih =>
      rw [SplitState.passes]
      split_ifs with hDone
      · exact hReached
      · exact ih (hReached.pass trivial hDone)

/-- The emitted functions are those of a state that the passes reach. -/
theorem reached_splitFunctions (img : Image) (split : Bool) (fs : List Function) :
    ∃ st, Reached img (fun _ => True) fs st ∧ st.functions = splitFunctions img split fs := by
  unfold splitFunctions
  split_ifs
  · exact ⟨_, reached_passes 256 .start, rfl⟩
  · exact ⟨_, .start, rfl⟩

/-- The output is one of the states that the passes reach. In each of them the
returns are served exactly when those of the cut-off calls lead somewhere. They
are in every run that starts with no call cut off and whose passes cut none off. -/
theorem splitFunctions_returnsServed (img : Image) (sites : SiteConfig) (split : Bool)
    (fs : List Function) (hImage : Aligned img.endAddress) (hOk : ListOk fs) :
    (∃ st, Reached img (fun _ => True) fs st ∧ st.functions = splitFunctions img split fs) ∧
    (∀ st, Reached img (fun _ => True) fs st →
      (ReturnsServed img sites st.functions ↔ CutReturnsLead img sites st.functions)) ∧
    (NoCutOff img fs →
      ∀ st, Reached img (PassOk img) fs st → ReturnsServed img sites st.functions) := by
  refine ⟨reached_splitFunctions img split fs, fun st hReached => ?_, fun hInv st hReached => ?_⟩
  · exact returnsServed_iff img sites (listOk_reached hImage hOk hReached)
  · exact returnsServed_of_noCutOff sites (listOk_reached hImage hOk hReached)
      (noCutOff_reached hImage hOk hInv hReached)

/-- `jal`, `nop`, `jr $31`, `nop`, and behind them a `beq $0, $0` back into them
with `nop` in its slot. -/
def backImage (offset : BitVec 8) : Image where
  loadAddress := 0x80010000#32
  codeData := [0x04, 0x40, 0x00, 0x0C, 0x00, 0x00, 0x00, 0x00, 0x08, 0x00, 0xE0, 0x03,
    0x00, 0x00, 0x00, 0x00, offset, 0xFF, 0x00, 0x10, 0x00, 0x00, 0x00, 0x00]
  load_kseg0 := Image.text_kseg0
  end_in_ram := by simp

def plainFunction (start stop : Word) : Function := ⟨start, stop, false, 0, []⟩

def backFunctions : List Function :=
  [plainFunction 0x80010000#32 0x80010010#32, plainFunction 0x80010010#32 0x80010018#32]

theorem backFunctions_ok : ListOk backFunctions := by
  refine ⟨?_, ?_, ?_⟩
  · intro f hf
    rcases List.mem_pair.mp hf with rfl | rfl
    · exact SplitState.plain_valid rfl rfl (by decide) (by decide) (by decide)
    · exact SplitState.plain_valid rfl rfl (by decide) (by decide) (by decide)
  · intro f hf g _ hAlias
    rcases List.mem_pair.mp hf with rfl | rfl <;> exact absurd rfl hAlias
  · intro f hf g _ hAlias
    rcases List.mem_pair.mp hf with rfl | rfl <;> exact absurd rfl hAlias

/-- The branch goes to the return point of the call. -/
theorem splitFunctions_returnsServed_back :
    Aligned (backImage 0xFD).endAddress ∧ ListOk backFunctions ∧
    (∃ st, Reached (backImage 0xFD) (fun _ => True) backFunctions st ∧
      st.functions = splitFunctions (backImage 0xFD) true backFunctions) ∧
    (∀ st, Reached (backImage 0xFD) (fun _ => True) backFunctions st →
      (ReturnsServed (backImage 0xFD) .none st.functions ↔
        CutReturnsLead (backImage 0xFD) .none st.functions)) ∧
    (NoCutOff (backImage 0xFD) backFunctions →
      ∀ st, Reached (backImage 0xFD) (PassOk (backImage 0xFD)) backFunctions st →
        ReturnsServed (backImage 0xFD) .none st.functions) := by
  have hImage : Aligned (backImage 0xFD).endAddress := by decide
  exact ⟨hImage, backFunctions_ok,
    splitFunctions_returnsServed (backImage 0xFD) .none true backFunctions hImage backFunctions_ok⟩

/-- The branch goes to the delay slot of the call: the cut there leaves the return
point inside the next piece, where nothing leads to it. -/
theorem slotCut_unserved :
    ¬ ∀ (img : Image) (sites : SiteConfig) (split : Bool) (fs : List Function),
      Aligned img.endAddress → ListOk fs →
        ReturnsServed img sites (splitFunctions img split fs) := by
  intro hAll
  have hServed := hAll (backImage 0xFC) .none true backFunctions (by decide) backFunctions_ok
  have hSplit : splitFunctions (backImage 0xFC) true backFunctions =
      [plainFunction 0x80010000#32 0x80010004#32, plainFunction 0x80010004#32 0x80010010#32,
        plainFunction 0x80010010#32 0x80010018#32] := by
    decide
  rw [hSplit] at hServed
  have hEntry := hServed (.function (plainFunction 0x80010000#32 0x80010004#32)) (by decide)
    0x80010000#32 (.inl (by unfold ExitCall; decide)) (by unfold Image.Contains; decide)
  unfold Dispatchable at hEntry
  exact absurd hEntry (by decide)

end RecompStudio.CodeGen
