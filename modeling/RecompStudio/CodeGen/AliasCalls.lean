import RecompStudio.CodeGen.AliasBody

/-!
Calls of the entries of an alias group, against calls of a function that is written
for the entry alone. Both run the same blocks; they differ in what stands in front
of the first one. The wrappers of a group leave out the widescreen calls of a
function entry, and the continuation switch of the group turns no address away: one
that it has no case for runs the entry, also where an overlay must not.
-/

namespace RecompStudio.CodeGen

open RecompStudio.Emitted
open RecompStudio.Insn

variable {M : Type}

/-- The functions with a widescreen call at their entry. -/
structure EntryHooks where
  wsSpriteTagFuncs : List Word
  wsBg2dInitFunc : Word
  wsBackdropUnsquashFuncs : List Word

inductive HookCall where
  | wsSpriteTag
  | wsMmx6BgStageInit
  | gteWsSetSuppress
deriving DecidableEq, Repr

/-- The calls in front of the first block of the function that starts at an address. -/
@[grind =] def EntryHooks.calls (hooks : EntryHooks) (start : Word) : List HookCall :=
  (if hooks.wsSpriteTagFuncs.contains start then [.wsSpriteTag] else []) ++
    (if hooks.wsBg2dInitFunc = start then [.wsMmx6BgStageInit] else []) ++
    (if hooks.wsBackdropUnsquashFuncs.contains start then [.gteWsSetSuppress] else [])

/-- What a caller sees of a call: the calls at the entry, the slice checks at the
block leaders, the way it ends, unless it still runs, and whether it has been turned
away through `psx_native_bad_entry`. -/
structure Course (M : Type) where
  hooks : List HookCall
  slices : List (Word × CPUState M)
  leave : Option (Leave M)
  rejected : Bool

namespace FunctionText

variable (ft : FunctionText) (leader : Word → Bool) (h : Host M)

/-- Runs from a label on, over at most `fuel` jumps. -/
@[grind =] def run : Nat → Word → CPUState M → Course M
  | 0, _, _ => ⟨[], [], none, false⟩
  | fuel + 1, t, s =>
      match ft.after t with
      | none => ⟨[], [], some .undefined, false⟩
      | some text =>
          let passed := passText h leader s 0 (.label t :: text)
          match passed.2 with
          | .goto t' s' =>
              let rest := run fuel t' s'
              ⟨[], passed.1 ++ rest.slices, rest.leave, false⟩
          | l => ⟨[], passed.1, some l, false⟩

/-- A call for the entry `e`, with the calls that stand behind the continuation switch. -/
@[grind =] def call (hooks : List HookCall) (e : Word) (fuel : Nat) (s : CPUState M) : Course M :=
  match ft.entry s with
  | .goto t s' => ft.run leader h fuel t s'
  | .fall s' =>
      if ft.entries.contains e then { ft.run leader h fuel e s' with hooks := hooks }
      else ⟨hooks, [], some (.ret s'), false⟩
  | l => ⟨[], [], some l, true⟩

end FunctionText

namespace OutputConfig

variable (out : OutputConfig) (hooks : EntryHooks) (g : AliasGroup) (h : Host M)

/-- The function that `generate_function` writes for one entry alone: the blocks of the
host, of which the block of the entry is the first to run. -/
def separateFunction (e : Word) : FunctionText :=
  { out.generateFunction (g.member e) with entries := [e] }

/-- The leaders of the host. -/
def leader : Word → Bool := (out.context (g.member g.first)).cfg.hasBlock

/-- A call of the wrapper of an entry, which hands it to the shared body. -/
@[grind =] def aliasCall (e : Word) (fuel : Nat) (s : CPUState M) : Course M :=
  (out.generateAliasGroup g).call (out.leader g) h [] e fuel s

@[grind =] def separateCall (e : Word) (fuel : Nat) (s : CPUState M) : Course M :=
  (out.separateFunction g e).call (out.leader g) h (hooks.calls e) e fuel s

end OutputConfig

namespace AliasGroup

variable (out : OutputConfig) (hooks : EntryHooks) (g : AliasGroup)

/-- An address that the group goes on at: a return point in a block that is reached, or
the leader of one, unless it is an entry. -/
def Resumes (c : Word) : Prop :=
  (∃ b ∈ (out.context (g.member g.first)).cfg.blocks, g.Reached out b.startAddr ∧
      c ∈ EmitContext.blockContinuations b) ∨
    (g.Reached out c ∧ c ∉ g.entries)

/-- An address that the function of one entry goes on at: a return point in the host, or
another leader of it. -/
def HostResumes (e c : Word) : Prop :=
  (∃ b ∈ (out.context (g.member g.first)).cfg.blocks, c ∈ EmitContext.blockContinuations b) ∨
    (c ∈ boundaries out.img (g.member g.first) ∧ c ≠ e)

/-- The calls that the group serves like the function of the entry: that function goes on
at an address where the group does as well, or it starts at its entry, without
widescreen calls, and has not to turn the address away. -/
structure Serves (e pc : Word) : Prop where
  resumed : g.HostResumes out e pc → g.Resumes out pc ∨ (pc = e ∧ ∃ c, g.Resumes out c)
  entered : ¬ g.HostResumes out e pc → hooks.calls e = [] ∧
    (pc = 0 ∨ (∀ c, ¬ g.HostResumes out e c) ∨
      ((∃ c, g.Resumes out c) ∧ (out.sites.overlayMode = false ∨ pc = e)))

end AliasGroup

section Runs

variable {out : OutputConfig} {g : AliasGroup} {e t : Word}

theorem text_separateFunction (hg : g.Valid) (he : e ∈ g.entries) :
    (out.separateFunction g e).text =
      (out.context (g.member g.first)).cfg.blocks.flatMap
          (out.context (g.member g.first)).translateBasicBlock ++
        out.fallthroughCall (g.member e) (out.context (g.member g.first)).cfg.blocks
          (·.isEntry) := by
  simp only [OutputConfig.separateFunction, OutputConfig.generateFunction, context_member hg he]

/-- A label that the emitted blocks lead to: a leader, or a table target. -/
def Known (out : OutputConfig) (g : AliasGroup) (t : Word) : Prop :=
  (∃ b ∈ (out.context (g.member g.first)).cfg.blocks.filter (out.isLive g), b.startAddr = t) ∨
    ∃ b ∈ (out.context (g.member g.first)).cfg.blocks.filter (out.isLive g),
      t ∈ jrTableEdges out.img (out.context (g.member g.first)).cfg b

/-- Both texts have the label or neither. -/
theorem labelled_iff (hg : g.Valid) (hKnown : Known out g t) :
    t ∈ labelsOf ((out.context (g.member g.first)).cfg.blocks.flatMap
        (out.context (g.member g.first)).translateBasicBlock) ↔
      t ∈ labelsOf (((out.context (g.member g.first)).cfg.blocks.filter (out.isLive g)).flatMap
        (out.context (g.member g.first)).translateBasicBlock) := by
  have hf := hg.first
  rcases hKnown with ⟨b, hb, rfl⟩ | ⟨b, hb, hEdge⟩
  · exact iff_of_true (leads_labelled ⟨b, (List.mem_filter.mp hb).1, rfl⟩)
      (leads_labelled ⟨b, hb, rfl⟩)
  · rw [tableTarget_labelled_iff hf (emits_function hf) (List.mem_filter.mp hb).1 hEdge,
      tableTarget_labelled_iff hf (emits_aliasGroup hg) hb hEdge]

/-- The jumps of the shared body stay among its labels. -/
theorem known_of_goto (hg : g.Valid) (hGoto : t ∈ gotosOf (out.generateAliasGroup g).text) :
    Known out g t := by
  have hText : gotosOf (out.generateAliasGroup g).text =
      gotosOf (((out.context (g.member g.first)).cfg.blocks.filter (out.isLive g)).flatMap
        (out.context (g.member g.first)).translateBasicBlock) := by
    simp only [OutputConfig.generateAliasGroup, gotosOf_append, (fallthroughCall_plain _).2,
      List.append_nil]
  rw [hText, gotosOf, List.mem_flatMap] at hGoto
  obtain ⟨c, hc, ht⟩ := hGoto
  obtain ⟨b, hb, hc⟩ := List.mem_flatMap.mp hc
  rcases goto_leads hg.first (emits_aliasGroup hg) hb (List.mem_flatMap.mpr ⟨c, hc, ht⟩) with
    hLeads | hEdge
  · exact .inl hLeads
  · exact .inr ⟨b, hb, hEdge⟩

/-- Behind a label that both texts have, they run alike. -/
theorem alike_behind (hg : g.Valid) (hLoad : out.img.loadAddress ≤ g.host) (he : e ∈ g.entries)
    (h : Host M) (leader : Word → Bool)
    (hLabel : t ∈ labelsOf (((out.context (g.member g.first)).cfg.blocks.filter
      (out.isLive g)).flatMap (out.context (g.member g.first)).translateBasicBlock)) :
    ∃ text text', (out.generateAliasGroup g).after t = some text ∧
      (out.separateFunction g e).after t = some text' ∧
      RunAlike h leader (.label t :: text) (.label t :: text') := by
  have hf := hg.first
  have hWalk : out.img.loadAddress ≤ (g.member g.first).walkLo := by
    rw [AliasGroup.walkLo_member hg]
    exact hLoad
  obtain ⟨b, hb, hPlace⟩ := mem_labels.mp hLabel
  obtain ⟨hMem, hLive⟩ := List.mem_filter.mp hb
  obtain ⟨pre, post, hBlocks⟩ := List.append_of_mem hMem
  have hKept : (out.context (g.member g.first)).cfg.blocks.filter (out.isLive g) =
      pre.filter (out.isLive g) ++ b :: post.filter (out.isLive g) := by
    rw [hBlocks, List.filter_append, List.filter_cons_of_pos hLive]
  obtain ⟨text, hAfter, hText⟩ := @after_of_label _ _ _ _ hf _ _ _ _
    (out.generateAliasGroup g) (emits_aliasGroup hg) rfl (fallthroughCall_plain _).1 hKept hPlace
  obtain ⟨text', hAfter', hText'⟩ := after_of_label hf (emits_function hf)
    (text_separateFunction hg he) (fallthroughCall_plain _).1 hBlocks hPlace
  have hTails : out.known (g.member g.first).endAddr = false →
      out.fallthroughCall (g.member g.first) (out.context (g.member g.first)).cfg.blocks
          (out.isLive g) =
        out.fallthroughCall (g.member e) (out.context (g.member g.first)).cfg.blocks
          (·.isEntry) := by
    intro hUnknown
    rw [fallthroughCall_unknown _ _ hUnknown]
    exact (fallthroughCall_unknown (f := g.member e) _ _ hUnknown).symm
  have hExtent := (mem_blocks hf hMem).2
  refine ⟨text, text', hAfter, hAfter', ?_⟩
  rcases hText with ⟨rfl, rfl⟩ | ⟨hInner, hWritten, hHere⟩
  · rcases hText' with ⟨_, rfl⟩ | ⟨hInner, _⟩
    · exact (runAlike_block hf hWalk (emits_aliasGroup hg) hTails hBlocks hLive (BitVec.le_refl _)
        hExtent.start_le hExtent.start_aligned (not_slot_start hf hMem)).cons _
    · exact absurd rfl hInner
  · rcases hText' with ⟨hStart, _⟩ | ⟨_, _, hHere'⟩
    · exact absurd hStart hInner
    · rw [hHere, hHere']
      obtain ⟨hLo, hHi⟩ := writtenAddrs_range hWritten
      exact runAlike_block hf hWalk (emits_aliasGroup hg) hTails hBlocks hLive hLo hHi
        (aligned_of_mem_addrRange hExtent.start_aligned (mem_writtenFrom hWritten))
        (not_slot_written hWritten)

/-- From a label of the shared body on, it runs like the function of one entry. -/
theorem run_alike (hg : g.Valid) (hLoad : out.img.loadAddress ≤ g.host) (he : e ∈ g.entries)
    (h : Host M) (leader : Word → Bool) (fuel : Nat) (hKnown : Known out g t) (s : CPUState M) :
    (out.generateAliasGroup g).run leader h fuel t s =
      (out.separateFunction g e).run leader h fuel t s := by
  induction fuel generalizing t s with
  | zero => rfl
  | succ fuel ih =>
      by_cases hLabel : t ∈ labelsOf (((out.context (g.member g.first)).cfg.blocks.filter
          (out.isLive g)).flatMap (out.context (g.member g.first)).translateBasicBlock)
      · obtain ⟨text, text', hAfter, hAfter', hAlike⟩ := alike_behind hg hLoad he h leader hLabel
        rw [FunctionText.run, FunctionText.run, hAfter, hAfter']
        simp only [← hAlike s 0]
        cases hLeave : (passText h leader s 0 (.label t :: text)).2 with
        | goto t' s' =>
            have hGoto : t' ∈ gotosOf (.label t :: text) := by
              rw [passText_snd] at hLeave
              exact mem_gotosOf_execBlock hLeave
            obtain ⟨front, hText⟩ := FunctionText.after_eq hAfter
            have hNext : Known out g t' := by
              apply known_of_goto hg
              rw [hText, gotosOf_append]
              exact List.mem_append_right _ hGoto
            simp only [ih hNext]
        | fall | ret | enter | trap | undefined => rfl
      · have hMissing : (out.generateAliasGroup g).after t = none := by
          apply FunctionText.after_none
          simp only [OutputConfig.generateAliasGroup, labelsOf_append, (fallthroughCall_plain _).1,
            List.append_nil]
          exact hLabel
        have hMissing' : (out.separateFunction g e).after t = none := by
          apply FunctionText.after_none
          rw [text_separateFunction hg he, labelsOf_append, (fallthroughCall_plain _).1,
            List.append_nil, labelled_iff hg hKnown]
          exact hLabel
        rw [FunctionText.run, FunctionText.run, hMissing, hMissing']

end Runs

section Calls

variable {out : OutputConfig} {hooks : EntryHooks} {g : AliasGroup} {e c : Word}

theorem mem_continuations_iff {blocks : List BasicBlock} {entries : List Word} :
    c ∈ OutputConfig.continuations blocks entries ↔
      (∃ b ∈ blocks, c ∈ EmitContext.blockContinuations b) ∨
        ((∃ b ∈ blocks, b.startAddr = c) ∧ c ∉ entries) := by
  rw [OutputConfig.continuations, List.mem_eraseDups, List.mem_append, List.mem_flatMap,
    List.mem_filter, List.mem_map]
  simp

/-- The cases of the continuation switch of a group. -/
theorem resumes_iff (hg : g.Valid) :
    c ∈ (out.generateAliasGroup g).continuations ↔ g.Resumes out c := by
  have hCases : c ∈ (out.generateAliasGroup g).continuations ↔ _ := mem_continuations_iff
  rw [hCases, AliasGroup.Resumes]
  apply or_congr
  · simp only [List.mem_filter, AliasGroup.isLive_iff hg, and_assoc]
  · apply and_congr_left'
    constructor
    · rintro ⟨b, hb, rfl⟩
      exact (AliasGroup.isLive_iff hg).mp (List.mem_filter.mp hb).2
    · intro hReached
      exact hReached.leads hg

/-- The cases of the continuation switch of the function of one entry. -/
theorem hostResumes_iff (hg : g.Valid) (he : e ∈ g.entries) :
    c ∈ (out.separateFunction g e).continuations ↔ g.HostResumes out e c := by
  have hCases : c ∈ (out.separateFunction g e).continuations ↔
      (∃ b ∈ (out.context (g.member g.first)).cfg.blocks,
          c ∈ EmitContext.blockContinuations b) ∨
        ((∃ b ∈ (out.context (g.member g.first)).cfg.blocks, b.startAddr = c) ∧ c ∉ [e]) := by
    rw [← mem_continuations_iff, ← context_member hg he]
    rfl
  rw [hCases, AliasGroup.HostResumes, List.mem_singleton, ← map_startAddr_blocks hg.first,
    List.mem_map]
  rfl

theorem hostResumes_of_resumes (hg : g.Valid) (he : e ∈ g.entries) (hResumes : g.Resumes out c) :
    g.HostResumes out e c := by
  rcases hResumes with ⟨b, hb, _, hCont⟩ | ⟨hReached, hOther⟩
  · exact .inl ⟨b, hb, hCont⟩
  · obtain ⟨b, hb, rfl⟩ := hReached.leads hg
    refine .inr ⟨(mem_blocks hg.first (List.mem_filter.mp hb).1).2.leader, ?_⟩
    rintro rfl
    exact hOther he

/-- An address to go on at leads a block. -/
theorem leader_of_hostResumes (hg : g.Valid) (hResumes : g.HostResumes out e c) :
    c ∈ boundaries out.img (g.member g.first) := by
  rcases hResumes with ⟨b, hb, hCont⟩ | ⟨hLeader, _⟩
  · exact mem_boundaries_of_successor hg.first hb
      (mem_successors_of_continuation hg.first hb hCont)
  · exact hLeader

/-- The first slice check of a run is that of the leader where it starts. -/
theorem slices_run {ft : FunctionText} {h : Host M} {leader : Word → Bool} {t : Word}
    {text : List CStmt} (hLeader : leader t = true) (hAfter : ft.after t = some text)
    (s : CPUState M) : ∃ rest, (ft.run leader h 1 t s).slices = (t, s) :: rest := by
  have hPassed : ∃ rest, (passText h leader s 0 (.label t :: text)).1 = (t, s) :: rest := by
    refine ⟨(passText h leader s 0 text).1, ?_⟩
    simp only [passText, CStmt.exec, CStmt.slices, hLeader, if_true, List.singleton_append]
  obtain ⟨rest, hFirst⟩ := hPassed
  rw [FunctionText.run, hAfter]
  simp only [hFirst]
  split
  · exact ⟨_, List.cons_append⟩
  · exact ⟨rest, rfl⟩

namespace FunctionText

variable {ft : FunctionText} {h : Host M} {leader : Word → Bool} {s : CPUState M} {t : Word}

theorem entry_plain (hPlain : s.pc = 0 ∨ ft.continuations = []) : ft.entry s = .fall s :=
  if_pos hPlain

theorem entry_goto (hNonzero : s.pc ≠ 0) (hCase : s.pc ∈ ft.continuations) :
    ft.entry s = .goto s.pc { s with pc := 0 } := by
  have hSwitch : ft.continuations ≠ [] := List.ne_nil_of_mem hCase
  rw [entry, if_neg (not_or.mpr ⟨hNonzero, hSwitch⟩), if_pos (List.contains_iff_mem.mpr hCase)]

theorem entry_top (hNonzero : s.pc ≠ 0) (hSwitch : ft.continuations ≠ [])
    (hMiss : s.pc ∉ ft.continuations) (hOpen : ft.failClosed = false ∨ s.pc = ft.owner) :
    ft.entry s = .fall { s with pc := 0 } := by
  rw [entry, if_neg (not_or.mpr ⟨hNonzero, hSwitch⟩),
    if_neg (fun hCase => hMiss (List.contains_iff_mem.mp hCase)), if_neg]
  rintro ⟨hClosed, hOther⟩
  rcases hOpen with hFalse | hOwner
  · rw [hFalse] at hClosed
    cases hClosed
  · exact hOther hOwner

theorem entry_rejects (hNonzero : s.pc ≠ 0) (hSwitch : ft.continuations ≠ [])
    (hMiss : s.pc ∉ ft.continuations) (hClosed : ft.failClosed = true) (hOther : s.pc ≠ ft.owner) :
    ft.entry s = .ret s := by
  rw [entry, if_neg (not_or.mpr ⟨hNonzero, hSwitch⟩),
    if_neg (fun hCase => hMiss (List.contains_iff_mem.mp hCase)), if_pos ⟨hClosed, hOther⟩]

theorem run_hooks (fuel : Nat) : (ft.run leader h fuel t s).hooks = [] := by
  cases fuel with
  | zero => rfl
  | succ fuel =>
      rw [run]
      split
      · rfl
      · simp only
        split <;> rfl

end FunctionText

section Entering

variable (hg : g.Valid) (hLoad : out.img.loadAddress ≤ g.host) (he : e ∈ g.entries) {h : Host M}
  {s s' : CPUState M} (fuel : Nat)

include hg hLoad he

/-- A call that comes to the entry switch of the group runs the block of the entry. -/
theorem aliasCall_of_fall (hEntry : (out.generateAliasGroup g).entry s = .fall s') :
    out.aliasCall g h e fuel s = (out.separateFunction g e).run (out.leader g) h fuel e s' := by
  have hCase : (out.generateAliasGroup g).entries.contains e = true :=
    List.contains_iff_mem.mpr he
  rw [OutputConfig.aliasCall, FunctionText.call, hEntry]
  simp only [hCase, if_true]
  rw [run_alike hg hLoad he h _ fuel (.inl (entry_leads hg he)) s']
  exact congrArg (fun calls => { (out.separateFunction g e).run (out.leader g) h fuel e s' with
    hooks := calls }) (FunctionText.run_hooks fuel).symm

theorem aliasCall_resumes (hResumes : g.Resumes out s.pc) :
    out.aliasCall g h e fuel s =
      (out.separateFunction g e).run (out.leader g) h fuel s.pc { s with pc := 0 } := by
  have hLeader := leader_of_hostResumes hg (hostResumes_of_resumes hg he hResumes)
  have hLeads : ∃ b ∈ (out.context (g.member g.first)).cfg.blocks.filter (out.isLive g),
      b.startAddr = s.pc := by
    rcases hResumes with ⟨b, hb, hReached, hCont⟩ | ⟨hReached, _⟩
    · exact (AliasGroup.Reached.continuation hb hReached hCont).leads hg
    · exact hReached.leads hg
  rw [OutputConfig.aliasCall, FunctionText.call, FunctionText.entry_goto
    (leader_ne_zero hg hLeader) ((resumes_iff hg).mpr hResumes)]
  exact run_alike hg hLoad he h _ fuel (.inl hLeads) _

/-- Without a requested address, or a switch to take it, the state stays as it is. -/
theorem aliasCall_plain (hPlain : s.pc = 0 ∨ ∀ c, ¬ g.Resumes out c) :
    out.aliasCall g h e fuel s = (out.separateFunction g e).run (out.leader g) h fuel e s := by
  refine aliasCall_of_fall hg hLoad he fuel (FunctionText.entry_plain ?_)
  refine hPlain.imp_right fun hNone => List.eq_nil_iff_forall_not_mem.mpr fun c hc => ?_
  exact hNone c ((resumes_iff hg).mp hc)

/-- Any other address is dropped. -/
theorem aliasCall_drops (hNonzero : s.pc ≠ 0) (hMiss : ¬ g.Resumes out s.pc)
    (hSwitch : ∃ c, g.Resumes out c) :
    out.aliasCall g h e fuel s =
      (out.separateFunction g e).run (out.leader g) h fuel e { s with pc := 0 } := by
  obtain ⟨c, hc⟩ := hSwitch
  refine aliasCall_of_fall hg hLoad he fuel (FunctionText.entry_top hNonzero ?_ ?_ (.inl rfl))
  · exact List.ne_nil_of_mem ((resumes_iff hg).mpr hc)
  · exact fun hCase => hMiss ((resumes_iff hg).mp hCase)

omit hLoad

theorem separateCall_resumes (hResumes : g.HostResumes out e s.pc) :
    out.separateCall hooks g h e fuel s =
      (out.separateFunction g e).run (out.leader g) h fuel s.pc { s with pc := 0 } := by
  rw [OutputConfig.separateCall, FunctionText.call, FunctionText.entry_goto
    (leader_ne_zero hg (leader_of_hostResumes hg hResumes)) ((hostResumes_iff hg he).mpr hResumes)]

omit hg he in
theorem separateCall_of_fall (hEntry : (out.separateFunction g e).entry s = .fall s') :
    out.separateCall hooks g h e fuel s =
      { (out.separateFunction g e).run
          (out.leader g) h fuel e s' with hooks := hooks.calls e } := by
  have hCase : (out.separateFunction g e).entries.contains e = true :=
    List.contains_iff_mem.mpr (List.mem_singleton_self e)
  rw [OutputConfig.separateCall, FunctionText.call, hEntry]
  simp only [hCase, if_true]

theorem separateCall_plain (hPlain : s.pc = 0 ∨ ∀ c, ¬ g.HostResumes out e c) :
    out.separateCall hooks g h e fuel s =
      { (out.separateFunction g e).run (out.leader g) h fuel e s with hooks := hooks.calls e } := by
  refine separateCall_of_fall fuel (FunctionText.entry_plain ?_)
  refine hPlain.imp_right fun hNone => List.eq_nil_iff_forall_not_mem.mpr fun c hc => ?_
  exact hNone c ((hostResumes_iff hg he).mp hc)

theorem separateCall_top (hNonzero : s.pc ≠ 0) (hMiss : ¬ g.HostResumes out e s.pc)
    (hSwitch : ∃ c, g.HostResumes out e c) (hOpen : out.sites.overlayMode = false ∨ s.pc = e) :
    out.separateCall hooks g h e fuel s =
      { (out.separateFunction g e).run (out.leader g) h fuel e { s with pc := 0 } with
        hooks := hooks.calls e } := by
  obtain ⟨c, hc⟩ := hSwitch
  refine separateCall_of_fall fuel (FunctionText.entry_top hNonzero ?_ ?_ hOpen)
  · exact List.ne_nil_of_mem ((hostResumes_iff hg he).mpr hc)
  · exact fun hCase => hMiss ((hostResumes_iff hg he).mp hCase)

/-- An overlay turns a foreign address away. -/
theorem separateCall_rejects (hNonzero : s.pc ≠ 0) (hMiss : ¬ g.HostResumes out e s.pc)
    (hSwitch : ∃ c, g.HostResumes out e c) (hOverlay : out.sites.overlayMode = true)
    (hOther : s.pc ≠ e) :
    out.separateCall hooks g h e fuel s = ⟨[], [], some (.ret s), true⟩ := by
  obtain ⟨c, hc⟩ := hSwitch
  rw [OutputConfig.separateCall, FunctionText.call, FunctionText.entry_rejects hNonzero
    (List.ne_nil_of_mem ((hostResumes_iff hg he).mpr hc))
    (fun hCase => hMiss ((hostResumes_iff hg he).mp hCase)) hOverlay hOther]

/-- The function of one entry asks its first slice check where it starts. -/
theorem slices_separate (hLeader : c ∈ boundaries out.img (g.member g.first)) :
    ∃ rest, ((out.separateFunction g e).run (out.leader g) h 1 c s).slices = (c, s) :: rest := by
  have hf := hg.first
  have hMem : c ∈ labelsOf (out.separateFunction g e).text := by
    rw [text_separateFunction hg he, labelsOf_append, (fallthroughCall_plain _).1, List.append_nil]
    apply leads_labelled
    rw [← map_startAddr_blocks hf] at hLeader
    obtain ⟨b, hb, hStart⟩ := List.mem_map.mp hLeader
    exact ⟨b, hb, hStart⟩
  obtain ⟨text, hAfter⟩ := FunctionText.after_some hMem
  exact slices_run ((hasBlock_iff hf).mpr hLeader) hAfter s

/-- A run tells where it has started, and in which state. -/
theorem start_eq {c' : Word} (hLeader : c ∈ boundaries out.img (g.member g.first))
    (hLeader' : c' ∈ boundaries out.img (g.member g.first))
    (hSame : ((out.separateFunction g e).run (out.leader g) h 1 c s).slices =
      ((out.separateFunction g e).run (out.leader g) h 1 c' s').slices) : c = c' ∧ s = s' := by
  obtain ⟨_, hFirst⟩ := slices_separate (s := s) (h := h) hg he hLeader
  obtain ⟨_, hSecond⟩ := slices_separate (s := s') (h := h) hg he hLeader'
  rw [hFirst, hSecond] at hSame
  exact Prod.mk.inj (List.cons.inj hSame).1

theorem entry_leader : e ∈ boundaries out.img (g.member g.first) := by
  obtain ⟨b, hb, hStart⟩ := @entry_leads out _ hg _ he
  rw [← hStart]
  exact (mem_blocks hg.first (List.mem_filter.mp hb).1).2.leader

end Entering

theorem bodyCloses (hg : g.Valid) : g.BodyCloses out := by
  intro a hReached
  obtain ⟨b, hb, hStart⟩ := hReached.leads hg
  obtain ⟨pre, post, hKept⟩ := List.append_of_mem hb
  refine ⟨b, (List.mem_filter.mp hb).1, hStart,
    pre.flatMap (out.context (g.member g.first)).translateBasicBlock,
    post.flatMap (out.context (g.member g.first)).translateBasicBlock ++
      out.fallthroughCall (g.member g.first) (out.context (g.member g.first)).cfg.blocks
        (out.isLive g), ?_⟩
  simp only [OutputConfig.generateAliasGroup]
  rw [hKept, List.flatMap_append, List.flatMap_cons]
  simp only [List.append_assoc]

theorem entriesMapped (hg : g.Valid) : g.EntriesMapped out := by
  refine ⟨rfl, fun e he => ?_⟩
  obtain ⟨b, hb, rfl⟩ := @entry_leads out _ hg _ he
  refine ⟨?_, b, (List.mem_filter.mp hb).1, rfl, ?_⟩
  · exact (count_label_eq_one hg.first (emits_aliasGroup hg) (fallthroughCall_plain _).1).mpr
      (leads_labelled ⟨b, hb, rfl⟩)
  · obtain ⟨pre, post, hKept⟩ := List.append_of_mem hb
    obtain ⟨text, hAfter, ⟨_, hText⟩ | ⟨hOther, _⟩⟩ := @after_of_label _ _ _ _
      hg.first _ _ _ _ (out.generateAliasGroup g) (emits_aliasGroup hg) rfl
        (fallthroughCall_plain _).1 hKept (.inl rfl)
    · refine ⟨text, hAfter, ?_⟩
      rw [hText, EmitContext.translateBasicBlock, EmitContext.blockText, ← List.append_assoc]
      exact ⟨_, rfl⟩
    · exact absurd rfl hOther

/-- Where the function of the entry goes on, the group has to go on, too. -/
theorem resumed_iff (hg : g.Valid) (hLoad : out.img.loadAddress ≤ g.host) (he : e ∈ g.entries)
    (h : Host M) {s : CPUState M} (hHost : g.HostResumes out e s.pc) :
    (∀ fuel, out.aliasCall g h e fuel s = out.separateCall hooks g h e fuel s) ↔
      (g.Resumes out s.pc ∨ (s.pc = e ∧ ∃ c, g.Resumes out c)) := by
  have hLeader := leader_of_hostResumes hg hHost
  have hNonzero := leader_ne_zero hg hLeader
  simp only [separateCall_resumes hg he _ hHost]
  by_cases hResumes : g.Resumes out s.pc
  · simp only [aliasCall_resumes hg hLoad he _ hResumes, implies_true, hResumes, true_or]
  · by_cases hSwitch : ∃ c, g.Resumes out c
    · simp only [aliasCall_drops hg hLoad he _ hNonzero hResumes hSwitch, hResumes, false_or,
        hSwitch, and_true]
      constructor
      · intro hSame
        exact (start_eq hg he (entry_leader hg he) hLeader
          (congrArg Course.slices (hSame 1))).1.symm
      · intro hAt fuel
        rw [hAt]
    · simp only [aliasCall_plain hg hLoad he _ (.inr (not_exists.mp hSwitch)), hResumes, hSwitch,
        and_false, or_self, iff_false]
      intro hSame
      have hState := (start_eq hg he (entry_leader hg he) hLeader
        (congrArg Course.slices (hSame 1))).2
      exact hNonzero (congrArg CPUState.pc hState)

/-- A run at the entry is that of the function of the entry, but for the calls in front. -/
theorem hooks_iff (f : Nat → Course M) (hHooks : ∀ fuel, (f fuel).hooks = [])
    (calls : List HookCall) : (∀ fuel, f fuel = { f fuel with hooks := calls }) ↔ calls = [] := by
  constructor
  · intro hSame
    rw [← hHooks 0]
    exact (congrArg Course.hooks (hSame 0)).symm
  · intro hNone fuel
    rw [hNone, ← hHooks fuel]

/-- Where the function of the entry starts at its top, the group has to start there in the
same state, and the function without widescreen calls. -/
theorem entered_iff (hg : g.Valid) (hLoad : out.img.loadAddress ≤ g.host) (he : e ∈ g.entries)
    (h : Host M) {s : CPUState M} (hHost : ¬ g.HostResumes out e s.pc) :
    (∀ fuel, out.aliasCall g h e fuel s = out.separateCall hooks g h e fuel s) ↔
      (hooks.calls e = [] ∧ (s.pc = 0 ∨ (∀ c, ¬ g.HostResumes out e c) ∨
        ((∃ c, g.Resumes out c) ∧ (out.sites.overlayMode = false ∨ s.pc = e)))) := by
  have hMiss : ¬ g.Resumes out s.pc := fun hResumes =>
    hHost (hostResumes_of_resumes hg he hResumes)
  by_cases hPlain : s.pc = 0 ∨ ∀ c, ¬ g.HostResumes out e c
  · have hNone : s.pc = 0 ∨ ∀ c, ¬ g.Resumes out c := hPlain.imp_right fun hNone c hc =>
      hNone c (hostResumes_of_resumes hg he hc)
    simp only [aliasCall_plain hg hLoad he _ hNone, separateCall_plain hg he _ hPlain]
    rw [hooks_iff _ FunctionText.run_hooks, ← or_assoc]
    exact (and_iff_left (.inl hPlain)).symm
  · obtain ⟨hNonzero, hSome⟩ := not_or.mp hPlain
    have hSwitch : ∃ c, g.HostResumes out e c := not_forall_not.mp hSome
    by_cases hOpen : out.sites.overlayMode = false ∨ s.pc = e
    · simp only [separateCall_top hg he _ hNonzero hHost hSwitch hOpen, hNonzero, hSome, hOpen,
        false_or, and_true]
      by_cases hResumes : ∃ c, g.Resumes out c
      · simp only [aliasCall_drops hg hLoad he _ hNonzero hMiss hResumes]
        rw [hooks_iff _ FunctionText.run_hooks]
        exact (and_iff_left hResumes).symm
      · simp only [aliasCall_plain hg hLoad he _ (.inr (not_exists.mp hResumes)), hResumes,
          and_false, iff_false]
        intro hSame
        have hSlices := congrArg Course.slices (hSame 1)
        have hState := (start_eq hg he (entry_leader hg he) (entry_leader hg he) hSlices).2
        exact hNonzero (congrArg CPUState.pc hState)
    · obtain ⟨hOverlay, hOther⟩ := not_or.mp hOpen
      simp only [separateCall_rejects hg he _ hNonzero hHost hSwitch
        (Bool.eq_true_of_not_eq_false hOverlay) hOther, hNonzero, hSome, hOpen, and_false, or_self,
        iff_false]
      intro hSame
      obtain ⟨s', hRun⟩ : ∃ s', out.aliasCall g h e 1 s =
          (out.separateFunction g e).run (out.leader g) h 1 e s' := by
        by_cases hResumes : ∃ c, g.Resumes out c
        · exact ⟨_, aliasCall_drops hg hLoad he 1 hNonzero hMiss hResumes⟩
        · exact ⟨_, aliasCall_plain hg hLoad he 1 (.inr (not_exists.mp hResumes))⟩
      obtain ⟨_, hSlices⟩ := slices_separate (h := h) (s := s') hg he (entry_leader hg he)
      rw [← hRun, hSame 1] at hSlices
      cases hSlices

/-- Calls of an alias: the body closes and the entry switch is right in every group; the
call has the effect of a function of its own exactly when nothing stands in front. -/
theorem aliasCalls_iff (out : OutputConfig) (hooks : EntryHooks) {g : AliasGroup} (hg : g.Valid)
    (hLoad : out.img.loadAddress ≤ g.host) {e : Word} (he : e ∈ g.entries) (h : Host M)
    (s : CPUState M) :
    (g.BodyCloses out ∧ g.EntriesMapped out ∧
        ∀ fuel, out.aliasCall g h e fuel s = out.separateCall hooks g h e fuel s) ↔
      g.Serves out hooks e s.pc := by
  rw [and_iff_right (bodyCloses hg), and_iff_right (entriesMapped hg)]
  by_cases hHost : g.HostResumes out e s.pc
  · rw [resumed_iff hg hLoad he h hHost]
    exact ⟨fun hServed => ⟨fun _ => hServed, fun hMiss => absurd hHost hMiss⟩,
      fun hServes => hServes.resumed hHost⟩
  · rw [entered_iff hg hLoad he h hHost]
    exact ⟨fun hServed => ⟨fun hCase => absurd hCase hHost, fun _ => hServed⟩,
      fun hServes => hServes.entered hHost⟩

end Calls

/-- Two returns, each with its slot. -/
def returnsImage : Image where
  loadAddress := 0x80010000#32
  codeData := [0x08, 0x00, 0xE0, 0x03, 0x00, 0x00, 0x00, 0x00, 0x08, 0x00, 0xE0, 0x03, 0x00, 0x00,
    0x00, 0x00]
  load_kseg0 := Image.text_kseg0
  end_in_ram := by decide

/-- The second return is an entry inside the host. -/
def returnsGroup : AliasGroup := ⟨0x80010000#32, 0x80010010#32, 0x80010008#32, []⟩

def returnsOutput (overlayMode : Bool) : OutputConfig :=
  ⟨returnsImage, { SiteConfig.none with overlayMode := overlayMode }, fun _ => false⟩

def noHooks : EntryHooks := ⟨[], 0, []⟩

theorem returnsGroup_valid : returnsGroup.Valid := by
  refine ⟨by decide, fun e he => ?_⟩
  rw [List.mem_singleton.mp he]
  refine ⟨by decide, by decide, by decide, by decide, by decide, fun e' he' => ?_⟩
  rw [List.mem_singleton.mp he']
  decide

/-- `addiu $2, $0, 1`, `jal 0x80020000` with `nop`, and `jr $31` with `nop`. -/
def sharedImage : Image where
  loadAddress := 0x80010000#32
  codeData := [0x01, 0x00, 0x02, 0x24, 0x00, 0x80, 0x00, 0x0C, 0x00, 0x00, 0x00, 0x00,
    0x08, 0x00, 0xE0, 0x03, 0x00, 0x00, 0x00, 0x00]
  load_kseg0 := Image.text_kseg0
  end_in_ram := by decide

def sharedOutput : OutputConfig :=
  ⟨sharedImage, { SiteConfig.none with overlayMode := true }, fun _ => false⟩

/-- The host is entered at its top and at the call. -/
def sharedGroup : AliasGroup := ⟨0x80010000#32, 0x80010014#32, 0x80010000#32, [0x80010004#32]⟩

theorem sharedGroup_valid : sharedGroup.Valid := by
  refine ⟨by decide, fun e he => ?_⟩
  rcases List.mem_pair.mp he with rfl | rfl
  · exact ⟨by decide, by decide, by decide, by decide, by decide,
      List.forall_iff_forall_mem.mp (by decide)⟩
  · exact ⟨by decide, by decide, by decide, by decide, by decide,
      List.forall_iff_forall_mem.mp (by decide)⟩

/-- The callee has come back to the second entry's function. -/
def backState : CPUState Word :=
  { (blankState 0).setGpr 31 0x80030000#32 with pc := 0x8001000C#32 }

/-- The block of the call, from its entry. -/
def sharedCall : BasicBlock :=
  ⟨0x80010004#32, 0x80010008#32, analyzeInstruction 0x80010004#32 0x0C008000#32,
    [0x8001000C#32], false⟩

/-- An overlay is entered again behind the call of the second entry. -/
theorem aliasCalls_back :
    sharedGroup.BodyCloses sharedOutput ∧ sharedGroup.EntriesMapped sharedOutput ∧
      ∀ fuel, sharedOutput.aliasCall sharedGroup cellHost 0x80010004#32 fuel backState =
        sharedOutput.separateCall noHooks sharedGroup cellHost 0x80010004#32 fuel backState := by
  have hLoad : sharedOutput.img.loadAddress ≤ sharedGroup.host := by decide
  have hEntry : 0x80010004#32 ∈ sharedGroup.entries := List.mem_cons_of_mem _ List.mem_cons_self
  have hBlock :
      sharedCall ∈ (sharedOutput.context (sharedGroup.member sharedGroup.first)).cfg.blocks := by
    decide +kernel
  have hCont : backState.pc ∈ EmitContext.blockContinuations sharedCall := by decide
  have hResumes : sharedGroup.Resumes sharedOutput backState.pc :=
    .inl ⟨sharedCall, hBlock, .entry hEntry, hCont⟩
  refine (aliasCalls_iff sharedOutput noHooks sharedGroup_valid hLoad hEntry cellHost
    backState).mpr ⟨fun _ => .inl hResumes, fun hMiss =>
      absurd (.inl ⟨sharedCall, hBlock, hCont⟩) hMiss⟩

/-- An overlay is entered at the slot of the first return, which a lookup by range takes to
lie in the entry's function. -/
theorem aliasCall_runs_foreign :
    ¬ ∀ (out : OutputConfig) (hooks : EntryHooks) (g : AliasGroup) (e : Word) (h : Host Word)
      (s : CPUState Word), g.Valid → out.img.loadAddress ≤ g.host → e ∈ g.entries →
      g.BodyCloses out ∧ g.EntriesMapped out ∧
        ∀ fuel, out.aliasCall g h e fuel s = out.separateCall hooks g h e fuel s := by
  intro hAll
  have hLoad : (returnsOutput true).img.loadAddress ≤ returnsGroup.host := by decide
  have hEntry : 0x80010008#32 ∈ returnsGroup.entries := List.mem_cons_self
  have hForeign : ¬ returnsGroup.HostResumes (returnsOutput true) 0x80010008#32 0x80010004#32 := by
    unfold AliasGroup.HostResumes
    decide
  have hSwitch : returnsGroup.HostResumes (returnsOutput true) 0x80010008#32 0x80010000#32 := by
    unfold AliasGroup.HostResumes
    decide
  obtain ⟨_, _, hSame⟩ := hAll (returnsOutput true) noHooks returnsGroup 0x80010008#32 cellHost
    { blankState 0 with pc := 0x80010004#32 } returnsGroup_valid hLoad hEntry
  obtain ⟨_, hPlain | hNone | ⟨_, hStatic | hAt⟩⟩ :=
    (entered_iff returnsGroup_valid hLoad hEntry cellHost hForeign).mp hSame
  · exact absurd hPlain (by decide)
  · exact hNone _ hSwitch
  · exact absurd hStatic (by decide)
  · exact absurd hAt (by decide)

end RecompStudio.CodeGen
