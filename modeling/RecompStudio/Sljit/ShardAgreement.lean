import RecompStudio.Sljit.Accepted

/-!
A shard against the interpreter. From every word where the two stand at the
same guest state, the code of the shard and a step of the interpreter lead to
such a word again, or out of the fragment in the same way.
-/

namespace RecompStudio.Sljit

open RecompStudio.Staged
open RecompStudio.Interp
open RecompStudio.Insn
open RecompStudio.Emitted

variable {M : Type} {p : Platform M} {cps : Bool} {F : Fragment} {labels : List (Nat × List Lir)}
variable {i : Nat} {c : GprCache} {g g' : CPUState M} {st st' : HostState M} {w : Word}
variable {code : List Lir}

/-- The shard is about to run the word `i`, and the host state stands for `g`. -/
structure Stands (cps : Bool) (F : Fragment) (i : Nat) (code : List Lir) (g : CPUState M)
    (st : HostState M) : Prop where
  boundary : Boundary F i
  behind : ∃ c w m, AtWord cps F i .none c w m code ∧ Settled F.used i c ∧ Live cps F.used c g st

/-- What the code from the word `i` does, next to a step of the interpreter. -/
inductive Agrees (p : Platform M) (cps : Bool) (F : Fragment) (labels : List (Nat × List Lir))
    (i : Nat) (code : List Lir) (st : HostState M) : Outcome M → Prop where
  | falls {j : Nat} {code' : List Lir} {g' : CPUState M} {st' : HostState M} (hLt : i < j)
      (hRun : ∀ fuel, runShard p labels fuel code st = runShard p labels fuel code' st')
      (hStands : Stands cps F j code' g' st') :
        Agrees p cps F labels i code st (.next (F.pcOf j) g')
  | jumps {j : Nat} {code' : List Lir} {g' : CPUState M} {st' : HostState M}
      (hRun : ∀ fuel, runShard p labels (fuel + 1) code st = runShard p labels fuel code' st')
      (hStands : Stands cps F j code' g' st') :
        Agrees p cps F labels i code st (.next (F.pcOf j) g')
  | exits {cpu t : CPUState M} {next : Word}
      (hRun : ∀ fuel, runShard p labels (fuel + 1) code st = some cpu)
      (hSame : SameExit cps cpu next t) : Agrees p cps F labels i code st (.exit next t)

theorem runShard_congr {code' : List Lir} (h : run (step p) code st = run (step p) code' st')
    (fuel : Nat) : runShard p labels fuel code st = runShard p labels fuel code' st' := by
  cases fuel with
  | zero => rfl
  | succ fuel => rw [runShard, runShard, h]

/-- The program counter of the guest is not in the host state. -/
theorem LiveExcept.setPc {used : Finset RegIndex} {hole : Option Nat}
    (h : LiveExcept cps used hole c g st) (pc : Word) :
    LiveExcept cps used hole c { g with pc := pc } st :=
  { h with
    cached := h.cached
    stored := h.stored
    rest := ⟨h.rest.hi, h.rest.lo, h.rest.cop0, h.rest.gteData, h.rest.gteCtrl, h.rest.mem⟩
    zero := h.zero }

/-- The edge that falls into a word passes its label. -/
theorem exists_stands {later : Assembled} (hBoundary : Boundary F i)
    (hEmit : emitFrom cps F i .none (F.words.drop i) c = some later) (hSettled : Settled F.used i c)
    (hLive : Live cps F.used c g st) :
    ∃ code' st', run (step p) later.code st = run (step p) code' st' ∧
      Stands cps F i code' g st' := by
  obtain ⟨w, m, later', hWord, hEmitWord, hLater, hCode, -⟩ := emitFrom_cons hBoundary.lt hEmit
  obtain ⟨st', hRun, hLive', -, hPins, hLru⟩ :=
    wp_run (wp_emitLabel (p := p) F i hLive hSettled.pins)
      ((m (emitLabel F i c).state).code ++ later'.code)
  rw [hCode]
  refine ⟨_, st', hRun, hBoundary, _, w, m, ⟨hWord, hEmitWord, later', hLater, rfl⟩, ?_, hLive'⟩
  exact ⟨hLive'.wf, hPins, hLru.trans_le hSettled.lru⟩

theorem agrees_plain {m : Emit Pending} (hF : Accepted F) (hi : Boundary F i)
    (hAt : AtWord cps F i .none c w m code) (hSettled : Settled F.used i c)
    (hLive : Live cps F.used c g st) (hKnown : copKnown w) (hClass : F.classify i w = .none) :
    Agrees p cps F labels i code st (interpStep p cps F (F.pcOf i) g) := by
  have hLength := hF.length
  have hlt := hF.lt_slot hi
  have hRefs := F.gprRefMask_subset_used hAt.word
  obtain ⟨m₀, hOne, rfl⟩ := emitWord_plain hAt.emit hClass
  obtain ⟨g', hExec⟩ := execPlain_advances hOne hKnown p.host (F.pcOf i) g
  have hStep : interpStep p cps F (F.pcOf i) g = .next (F.pcOf (i + 1)) g' := by
    have hPlain : rejectsDelaySlot w = false := F.describes hClass
    rw [interpStep, hF.fetch_pcOf (by omega), hAt.word]
    simp only [hPlain, hExec, F.pcOf_succ]
    rfl
  obtain ⟨later, hLater, rfl⟩ := hAt.later
  have hPiece : wp (step p) (do m₀; pure .none : Emit Pending) c st fun pending c' st' =>
      pending = .none ∧ Follows cps F.used g' c st c' st' :=
    wp_bind (wp_mono (wp_emitOne hOne hRefs hExec (hSettled.between hLive (by omega)))
      fun _ _ _ h => wp_pure ⟨rfl, h⟩)
  obtain ⟨st', hRun, -, hFollows⟩ := wp_run hPiece later.code
  have hBoundary : Boundary F (i + 1) := by
    refine ⟨hlt, ?_⟩
    rw [Fragment.isDelaySlot_succ hAt.word, hClass]
    rfl
  have hSettled' := hSettled.emitWord p g (by omega) hAt.emit hRefs
  obtain ⟨code', st'', hRun', hStands⟩ :=
    exists_stands (p := p) hBoundary hLater hSettled' hFollows.live
  rw [hStep]
  exact .falls (Nat.lt_succ_self i) (runShard_congr (hRun.trans hRun')) hStands

/-- A control instruction has run up to its delay slot. -/
structure InSlot (p : Platform M) (cps : Bool) (F : Fragment) (i : Nat) (pending : Pending)
    (g : CPUState M) (x : BitVec 64) (code : List Lir) (st : HostState M) (slot : Word)
    (m t : Emit Unit) (c' : GprCache) (st' : HostState M) (later : Assembled) : Prop where
  word : F.words[i + 1]? = some slot
  plain : rejectsDelaySlot slot = false
  boundary : F.isDelaySlot (i + 2) = false
  emit : emitOne slot = some m
  transfer : emitTransfer cps pending = some t
  rest : emitFrom cps F (i + 2) .none (F.words.drop (i + 2)) (emitSlot m t c').state = some later
  runs : run (step p) code st = run (step p) ((emitSlot m t c').code ++ later.code) st'
  ctrl : st'.regs .ctrl = x
  between : Between cps F.used c' g st'
  settled : Settled F.used (i + 2) (emitSlot m t c').state

theorem exists_inSlot {m : Emit Pending} {ctrl : Control} {pending : Pending} {x : BitVec 64}
    (hF : Accepted F) (hi : Boundary F i) (hAt : AtWord cps F i .none c w m code)
    (hSettled : Settled F.used i c) (hClass : F.classify i w = ctrl) (hCtrl : ctrl ≠ .none)
    (hPiece : wp (step p) (emitControl (F.pcOf i) w ctrl) c st fun pending' c' st' =>
      pending' = pending ∧ Live cps F.used c' g st' ∧ st'.regs .ctrl = x) :
    ∃ slot m₀ t c' st' later,
      InSlot p cps F i pending g x code st slot m₀ t c' st' later := by
  have hLength := hF.length
  have hlt := hF.lt_slot hi
  have hRefs := F.gprRefMask_subset_used hAt.word
  have hEmit := hAt.emit
  have hSettled₁ := hSettled.emitWord p g (by omega) hEmit hRefs
  obtain ⟨later₁, hLater₁, rfl⟩ := hAt.later
  obtain ⟨-, rfl⟩ := emitWord_control hEmit hClass hCtrl
  have hPending : (emitControl (F.pcOf i) w ctrl c).value ≠ .none := emitControl_ne_none
  obtain ⟨st₁, hRun₁, hValue, hLive₁, hCtrl₁⟩ := wp_run hPiece later₁.code
  obtain ⟨slot, m₁, later, hWord, hEmitSlot, hLater, hCode, -⟩ := emitFrom_cons hlt hLater₁
  obtain ⟨hSlotClass, m₀, t, hOne, hTransfer, rfl⟩ := emitWord_slot hEmitSlot hPending
  obtain ⟨st₂, hRun₂, hLive₂, hCtrl₂, hPins, hLru⟩ :=
    wp_run (wp_emitLabel (p := p) F (i + 1) hLive₁ hSettled₁.pins)
      ((emitSlot m₀ t (emitLabel F (i + 1) (emitControl (F.pcOf i) w ctrl c).state).state).code ++
        later.code)
  have hSettled₂ := hSettled₁.emitLabel (F := F) p cps g
  refine ⟨slot, m₀, t, _, st₂, later, hWord, F.describes hSlotClass, ?_, hOne, hValue ▸ hTransfer,
    hLater, ?_, hCtrl₂.trans hCtrl₁, hSettled₂.between hLive₂ (by omega), ?_⟩
  · rw [Fragment.isDelaySlot_succ hWord, hSlotClass]
    rfl
  · rw [hRun₁, hCode, hRun₂]
  · exact hSettled₂.emitWord p g (by omega) hEmitSlot (F.gprRefMask_subset_used hWord)

/-- The delay slot and the transfer behind it. -/
theorem InSlot.finish {pending : Pending} {x : BitVec 64} {slot pc : Word} {m t : Emit Unit}
    {c' : GprCache} {later : Assembled} {Q : GprCache → HostState M → Prop} {E : Leave M → Prop}
    (h : InSlot p cps F i pending g x code st slot m t c' st' later)
    (hExec : execPlain p.host pc slot g = .advance g')
    (hTransfer : ∀ c₁ st₁, Live cps F.used c₁ g' st₁ → Saved cps g' st₁ → st₁.regs .ctrl = x →
      wpLeave (step p) t c₁ st₁ (fun _ c₂ st₂ => Q c₂ st₂) E) :
    (∃ st₂, run (step p) code st = run (step p) later.code st₂ ∧ Q (emitSlot m t c').state st₂) ∨
      ∃ o, run (step p) code st = .error o ∧ E o := by
  have hSlot : wpLeave (step p) (emitSlot m t) c' st' (fun _ c₂ st₂ => Q c₂ st₂) E :=
    wpLeave_slot h.emit (F.gprRefMask_subset_used h.word) hExec h.between
      fun c₁ st₁ hLive hSaved hCtrl => hTransfer c₁ st₁ hLive hSaved (hCtrl.trans h.ctrl)
  rw [h.runs]
  exact wpLeave_run hSlot later.code

theorem interpStep_control {slot target : Word} (hF : Accepted F) (hi : i + 1 < F.words.length)
    (hWord : F.words[i]? = some w) (hSlot : F.words[i + 1]? = some slot)
    (hRejects : rejectsDelaySlot w = true)
    (hGoes : transferTarget (F.pcOf i) w g = some target) (hPlain : rejectsDelaySlot slot = false)
    (hExec : execPlain p.host (F.pcOf i + 4#32) slot (linkWrite (F.pcOf i) w g) = .advance g') :
    interpStep p cps F (F.pcOf i) g =
      interpTransfer p cps (F.pcOf i) w { g' with pc := target } := by
  have hFetch : F.fetch (F.pcOf i) = some w := by rw [hF.fetch_pcOf (by omega), hWord]
  have hNext : F.fetch (F.pcOf i + 4#32) = some slot := by
    rw [← F.pcOf_succ, hF.fetch_pcOf (by omega), hSlot]
  have hOne : F.execOne p.host (F.pcOf i) g =
      some ⟨.ofCpu { g' with pc := target }, true, F.pcOf i + 4#32⟩ :=
    StepHost.execOne_onWords_slot (by rw [hFetch, Option.getD_some])
      (by rw [hNext, Option.getD_some]) hGoes hPlain hExec
  rw [interpStep, hFetch]
  simp only [hRejects, if_true, hNext, hOne]
  rfl

theorem Agrees.of_returns {o : Leave M} {next : Word} (hRun : run (step p) code st = .error o)
    (hReturns : Returns cps next g o) (pc : Word) :
    Agrees p cps F labels i code st (.exit next { g with pc := pc }) := by
  cases o with
  | returned cpu =>
      refine .exits (fun fuel => ?_) ⟨hReturns.gpr, ?_, hReturns.next⟩
      · rw [runShard, hRun]
      · exact ⟨hReturns.rest.hi, hReturns.rest.lo, hReturns.rest.cop0, hReturns.rest.gteData,
          hReturns.rest.gteCtrl, hReturns.rest.mem⟩
  | jumped word st => cases hReturns
  | undefined => cases hReturns

/-- The labels of a shard, as the jumps to them find them. -/
def Labelled (cps : Bool) (F : Fragment) (labels : List (Nat × List Lir)) : Prop :=
  ∀ j, Boundary F j → F.isTarget j = true → ∃ (c : GprCache) (w : Word) (m : Emit Pending)
    (code : List Lir), labels.lookup j = some code ∧
      AtWord cps F j .none (c.mapSlots GprSlot.reset) w m code ∧ Settled F.used j c

theorem Agrees.of_jumps {o : Leave M} {j : Nat} (hLabels : Labelled cps F labels)
    (hBoundary : Boundary F j) (hTarget : F.isTarget j = true)
    (hRun : run (step p) code st = .error o) (hJumps : Jumps cps j g o) (pc : Word) :
    Agrees p cps F labels i code st (.next (F.pcOf j) { g with pc := pc }) := by
  cases o with
  | jumped word st₁ =>
      obtain ⟨rfl, hSaved⟩ := hJumps
      obtain ⟨c', w', m', code', hLookup, hAt, hSettled⟩ := hLabels word hBoundary hTarget
      refine .jumps (fun fuel => ?_) ⟨hBoundary, _, w', m', hAt,
        hSettled.reset, (hSaved.reset hSettled.wf).setPc pc⟩
      rw [runShard, hRun]
      simp only [hLookup]
  | returned cpu => cases hJumps
  | undefined => cases hJumps

/-- The way on to the word after the delay slot. -/
theorem InSlot.falls {pending : Pending} {x : BitVec 64} {slot : Word} {m t : Emit Unit}
    {c' : GprCache} {later : Assembled} {st₂ : HostState M}
    (h : InSlot p cps F i pending g x code st slot m t c' st' later) (hlt : i + 2 < F.words.length)
    (hRun : run (step p) code st = run (step p) later.code st₂)
    (hLive : Live cps F.used (emitSlot m t c').state g' st₂) :
    Agrees p cps F labels i code st (.next (F.pcOf (i + 2)) g') := by
  obtain ⟨code', st₃, hRun', hStands⟩ :=
    exists_stands (p := p) ⟨hlt, h.boundary⟩ h.rest h.settled hLive
  exact .falls (by omega) (runShard_congr (hRun.trans hRun')) hStands

theorem exists_execSlot {slot : Word} {m : Emit Unit} (hF : Accepted F) (hi : Boundary F i)
    (hOrder : InOrder p cps F (F.pcOf i) g) (hWord : F.words[i]? = some w)
    (hRejects : rejectsDelaySlot w = true) (hSlot : F.words[i + 1]? = some slot)
    (hOne : emitOne slot = some m) (g₁ : CPUState M) :
    ∃ g₂, execPlain p.host (F.pcOf i + 4#32) slot g₁ = .advance g₂ := by
  have hlt := hF.lt_slot hi
  refine execPlain_advances hOne (hOrder.slotKnown w slot ?_ hRejects ?_) _ _ _
  · rw [hF.fetch_pcOf (by omega), hWord]
  · rw [← F.pcOf_succ, hF.fetch_pcOf (by omega), hSlot]

/-- The callee of a call, and the way on behind it. -/
theorem InSlot.call {target : Option Word} {check : Bool} {x : BitVec 64} {slot pc : Word}
    {m t : Emit Unit} {c' : GprCache} {later : Assembled}
    (h : InSlot p cps F i (.call target (F.pcOf i + 8#32) check) g x code st slot m t c' st' later)
    (hlt : i + 2 < F.words.length) (hExec : execPlain p.host pc slot g = .advance g') :
    Agrees p cps F labels i code st
      (interpCall p cps (F.pcOf i) check { g' with pc := target.getD (low x) }) := by
  unfold interpCall
  generalize hRun : p.guestCall.run (target.getD (low x)) (F.pcOf i + 8#32) check
    { g' with pc := 0 } = r
  have hFinish := h.finish hExec fun c₁ st₁ hLive hSaved hCtrl =>
    wpLeave_call h.transfer hLive.wf hSaved (by rw [hCtrl]) hRun
  dsimp only
  rcases hFinish with ⟨st₂, hCode, hBack, hLive⟩ | ⟨o, hCode, hStop, hReturns⟩
  · rw [hBack, ← F.pcOf_add_two]
    exact h.falls hlt hCode hLive
  · rw [hStop]
    exact .of_returns hCode hReturns r.1.pc

/-- The link does not change what the branch tests. -/
theorem InOrder.branchTaken_linked {pc : Word} (hOrder : InOrder p cps F pc g)
    (hFetch : F.fetch pc = some w) : branchTaken w (linked w (pc + 8#32) g) = branchTaken w g := by
  unfold linked
  split
  · next hLinks => exact hOrder.link w hFetch hLinks
  · rfl

theorem interpTransfer_branch {t entryPhys off pc : Word} {taken : Bool}
    (h : (Control.branch t).Describes entryPhys off w) (hTaken : branchTaken w g = some taken) :
    transferTarget pc w g = some (if taken then branchTarget pc w else pc + 8#32) ∧
      linkWrite pc w g = linked w (pc + 8#32) g ∧
      ∀ s, interpTransfer p cps pc w s = .next s.pc s := by
  unfold transferTarget linkWrite interpTransfer linked
  rw [hTaken]
  rcases h.2 with hOp | hOp | hOp | hOp | ⟨hOp, -⟩
  all_goals
    rw [hOp]
    exact ⟨rfl, rfl, fun _ => rfl⟩

/-- A jump without a link, or a return, writes no register in front of its slot. -/
theorem linkWrite_jump {pc : Word} (hOp : Op.ofWord w = .jr ∨ Op.ofWord w = .j) :
    linkWrite pc w g = g := by
  rcases hOp with hOp | hOp <;>
    simp only [linkWrite, branchLinks, hOp, Bool.false_eq_true, if_false]

section Kinds

variable {m : Emit Pending} (hF : Accepted F) (hi : Boundary F i)
variable (hAt : AtWord cps F i .none c w m code) (hSettled : Settled F.used i c)
variable (hLive : Live cps F.used c g st) (hOrder : InOrder p cps F (F.pcOf i) g)

include hF hi hAt hSettled hLive hOrder

theorem agrees_ret (hClass : F.classify i w = .ret) :
    Agrees p cps F labels i code st (interpStep p cps F (F.pcOf i) g) := by
  have hlt := hF.lt_slot hi
  have hDescribes := F.describes hClass
  have hRejects := hDescribes.rejects (by simp)
  obtain ⟨hOp, hRs⟩ := hDescribes
  obtain ⟨slot, m₀, t, c', st', later, hSlot⟩ := exists_inSlot (p := p) (x := st.regs .ctrl) hF hi
    hAt hSettled hClass (by simp) (wp_pure ⟨rfl, hLive, rfl⟩)
  obtain ⟨g₂, hExec⟩ := exists_execSlot hF hi hOrder hAt.word hRejects hSlot.word hSlot.emit g
  have hGoes : transferTarget (F.pcOf i) w g = some (g.gpr 31) := by
    rw [transferTarget, hOp, hRs]
  have hStep : interpStep p cps F (F.pcOf i) g =
      .exit (g.gpr 31) { g₂ with pc := g.gpr 31 } := by
    rw [interpStep_control hF hlt hAt.word hSlot.word hRejects hGoes hSlot.plain
      (by rw [linkWrite_jump (.inl hOp), hExec]), interpTransfer, hOp]
  have hKept : g₂.gpr 31 = g.gpr 31 := by
    refine hOrder.ret w slot g₂ ?_ ?_ hOp hRs hExec
    · rw [hF.fetch_pcOf (by omega), hAt.word]
    · rw [← F.pcOf_succ, hF.fetch_pcOf (by omega), hSlot.word]
  rw [hStep, ← hKept]
  rcases hSlot.finish (Q := fun _ _ => False) hExec
    (fun c₁ st₁ _ hSaved _ => wpLeave_ret hSlot.transfer hSaved) with ⟨_, _, hFalse⟩ | ⟨o, hRun, hO⟩
  · exact hFalse.elim
  · exact .of_returns hRun hO _

theorem agrees_tail (hClass : F.classify i w = .tailJump) :
    Agrees p cps F labels i code st (interpStep p cps F (F.pcOf i) g) := by
  have hlt := hF.lt_slot hi
  have hLength := hF.length
  have hDescribes := F.describes hClass
  have hRejects := hDescribes.rejects (by simp)
  obtain ⟨hOp, hRs⟩ := hDescribes
  have hPiece := wp_emitTail (p := p) (F.gprRefMask_subset_used hAt.word) hOp
    (hSettled.between hLive (by omega)) (F.pcOf i)
  obtain ⟨slot, m₀, t, c', st', later, hSlot⟩ := exists_inSlot hF hi hAt hSettled hClass
    (by simp) (wp_mono hPiece fun _ _ _ h => ⟨h.1, h.2.live, h.2.ctrl⟩)
  obtain ⟨g₂, hExec⟩ := exists_execSlot hF hi hOrder hAt.word hRejects hSlot.word hSlot.emit g
  have hGoes : transferTarget (F.pcOf i) w g = some (g.gpr (rs w)) := by
    rw [transferTarget, hOp]
  have hStep : interpStep p cps F (F.pcOf i) g =
      .exit (g.gpr (rs w)) { g₂ with pc := g.gpr (rs w) } := by
    rw [interpStep_control hF hlt hAt.word hSlot.word hRejects hGoes hSlot.plain
      (by rw [linkWrite_jump (.inl hOp), hExec]), interpTransfer, hOp]
  have hTarget : cps = false → g.gpr (rs w) ≠ 0 :=
    hOrder.tail w (by rw [hF.fetch_pcOf (by omega), hAt.word]) hOp hRs
  rw [hStep]
  rcases hSlot.finish (Q := fun _ _ => False) hExec (fun c₁ st₁ _ hSaved hCtrl =>
    wpLeave_tail hSlot.transfer hSaved (by rw [hCtrl, low_widen]) hTarget) with
    ⟨_, _, hFalse⟩ | ⟨o, hRun, hO⟩
  · exact hFalse.elim
  · exact .of_returns hRun hO _

theorem agrees_jump {t : Word} (hLabels : Labelled cps F labels)
    (hClass : F.classify i w = .jump t) :
    Agrees p cps F labels i code st (interpStep p cps F (F.pcOf i) g) := by
  have hlt := hF.lt_slot hi
  have hDescribes := F.describes hClass
  have hRejects := hDescribes.rejects (by simp)
  obtain ⟨hOp, ht⟩ := hDescribes
  have hRet := hF.lt_ret hi hAt.word (by rw [hOp]; decide)
  obtain ⟨hAligned, hBoundary, hTarget⟩ := hF.target_ok hRet hAt.word (.inr hClass)
  obtain ⟨slot, m₀, transfer, c', st', later, hSlot⟩ := exists_inSlot (p := p)
    (x := st.regs .ctrl) hF hi hAt hSettled hClass (by simp) (wp_pure ⟨rfl, hLive, rfl⟩)
  obtain ⟨g₂, hExec⟩ := exists_execSlot hF hi hOrder hAt.word hRejects hSlot.word hSlot.emit g
  have hGoes : transferTarget (F.pcOf i) w g = some (jumpTarget (F.pcOf i) w) := by
    rw [transferTarget, hOp]
  have hPc : jumpTarget (F.pcOf i) w = F.pcOf (t.toNat / 4) := by
    have hSegment := hOrder.jump w (by rw [hF.fetch_pcOf (by omega), hAt.word]) hOp
    rw [F.pcOf_target hAligned, ht, F.entry_add_jump hSegment]
  have hStep : interpStep p cps F (F.pcOf i) g =
      .next (F.pcOf (t.toNat / 4)) { g₂ with pc := jumpTarget (F.pcOf i) w } := by
    rw [interpStep_control hF hlt hAt.word hSlot.word hRejects hGoes hSlot.plain
      (by rw [linkWrite_jump (.inr hOp), hExec]), interpTransfer, hOp, hPc]
  rw [hStep]
  rcases hSlot.finish (Q := fun _ _ => False) hExec
    (fun c₁ st₁ _ hSaved _ => wpLeave_jump hSlot.transfer hSaved) with
    ⟨_, _, hFalse⟩ | ⟨o, hRun, hO⟩
  · exact hFalse.elim
  · exact .of_jumps hLabels hBoundary hTarget hRun hO _

theorem agrees_branch {t : Word} (hLabels : Labelled cps F labels)
    (hClass : F.classify i w = .branch t) :
    Agrees p cps F labels i code st (interpStep p cps F (F.pcOf i) g) := by
  have hlt := hF.lt_slot hi
  have hLength := hF.length
  have hDescribes := F.describes hClass
  have hRejects := hDescribes.rejects (by simp)
  have hOps := hDescribes.2
  have hRet := hF.lt_ret hi hAt.word
    (by rcases hOps with h | h | h | h | ⟨h, -⟩ <;> rw [h] <;> decide)
  obtain ⟨hAligned, hBoundary, hTarget⟩ := hF.target_ok hRet hAt.word (.inl hClass)
  obtain ⟨taken, hTaken⟩ := hDescribes.branchTaken g
  have hLinked := (hOrder.branchTaken_linked (by rw [hF.fetch_pcOf (by omega), hAt.word])).trans
    hTaken
  have hLru := hSettled.lru
  have hPiece := wp_emitBranch (p := p) (t := t) (F.gprRefMask_subset_used hAt.word) hLinked
    (hSettled.between hLive (by omega)) (by unfold maxFragInsns at hLength; omega)
  obtain ⟨slot, m₀, transfer, c', st', later, hSlot⟩ := exists_inSlot hF hi hAt hSettled hClass
    (by simp) (wp_mono hPiece fun _ _ _ h => ⟨h.1, h.2.1, h.2.2.1⟩)
  obtain ⟨g₂, hExec⟩ := exists_execSlot hF hi hOrder hAt.word hRejects hSlot.word hSlot.emit
    (linked w (F.pcOf i + 8#32) g)
  obtain ⟨hGoes, hLink, hNext⟩ : _ ∧ _ ∧
      ∀ s, interpTransfer p cps (F.pcOf i) w s = .next s.pc s :=
    interpTransfer_branch hDescribes hTaken
  have hPc : branchTarget (F.pcOf i) w = F.pcOf (t.toNat / 4) := by
    rw [F.pcOf_target hAligned, hDescribes.1, F.entry_add_branch]
  rw [interpStep_control hF hlt hAt.word hSlot.word hRejects hGoes hSlot.plain
    (by rw [hLink, hExec]), hNext]
  rcases hSlot.finish hExec (fun c₁ st₁ hLive' hSaved hCtrl =>
    wpLeave_branch hSlot.transfer hLive' hSaved hCtrl) with ⟨st₂, hRun, hNot, hLive₂⟩ |
      ⟨o, hRun, hIs, hJumps⟩
  · subst hNot
    show Agrees p cps F labels i code st (.next (F.pcOf i + 8#32) _)
    rw [← F.pcOf_add_two]
    exact hSlot.falls hRet hRun (hLive₂.setPc _)
  · subst hIs
    show Agrees p cps F labels i code st (.next (branchTarget (F.pcOf i) w) _)
    rw [hPc]
    exact .of_jumps hLabels hBoundary hTarget hRun hJumps _

theorem agrees_call (hClass : F.classify i w = .call) :
    Agrees p cps F labels i code st (interpStep p cps F (F.pcOf i) g) := by
  have hlt := hF.lt_slot hi
  have hLength := hF.length
  have hDescribes := F.describes hClass
  have hRejects := hDescribes.rejects (by simp)
  have hRefs := F.gprRefMask_subset_used hAt.word
  have hBetween := hSettled.between hLive (by omega)
  rcases hDescribes with hOp | hOp
  · have hRet := hF.lt_ret hi hAt.word (by rw [hOp]; decide)
    obtain ⟨slot, m₀, transfer, c', st', later, hSlot⟩ := exists_inSlot hF hi hAt hSettled hClass
      (by simp) (wp_mono (wp_emitJal (p := p) hRefs hOp hBetween (F.pcOf i))
        fun _ _ _ h => ⟨h.1, h.2.live, h.2.ctrl⟩)
    obtain ⟨g₂, hExec⟩ := exists_execSlot hF hi hOrder hAt.word hRejects hSlot.word hSlot.emit
      (g.setGpr 31 (F.pcOf i + 8#32))
    have hGoes : transferTarget (F.pcOf i) w g = some (jumpTarget (F.pcOf i) w) := by
      rw [transferTarget, hOp]
    rw [interpStep_control hF hlt hAt.word hSlot.word hRejects hGoes hSlot.plain
      (by rw [linkWrite, hOp, hExec]), interpTransfer, hOp]
    exact hSlot.call hRet hExec
  · have hRet := hF.lt_ret hi hAt.word (by rw [hOp]; decide)
    obtain ⟨slot, m₀, transfer, c', st', later, hSlot⟩ := exists_inSlot hF hi hAt hSettled hClass
      (by simp) (wp_mono (wp_emitJalr (p := p) hRefs hOp hBetween (F.pcOf i))
        fun _ _ _ h => ⟨h.1, h.2.live, h.2.ctrl⟩)
    obtain ⟨g₂, hExec⟩ := exists_execSlot hF hi hOrder hAt.word hRejects hSlot.word hSlot.emit
      (writeGpr g (if rd w = 0 then 31 else rd w) (F.pcOf i + 8#32))
    have hGoes : transferTarget (F.pcOf i) w g = some (g.gpr (rs w)) := by
      rw [transferTarget, hOp]
    have hCall : Agrees p cps F labels i code st _ := hSlot.call hRet hExec
    rw [Option.getD_none, low_widen] at hCall
    rw [interpStep_control hF hlt hAt.word hSlot.word hRejects hGoes hSlot.plain
      (by rw [linkWrite, hOp, hExec]), interpTransfer, hOp]
    exact hCall

end Kinds

/-- One step of the interpreter, and the code of the shard for it. -/
theorem Stands.agrees (hF : Accepted F) (hLabels : Labelled cps F labels)
    (h : Stands cps F i code g st) (hOrder : InOrder p cps F (F.pcOf i) g) :
    Agrees p cps F labels i code st (interpStep p cps F (F.pcOf i) g) := by
  obtain ⟨hi, c, w, m, hAt, hSettled, hLive⟩ := h
  have hLt := hi.lt
  cases hClass : F.classify i w with
  | none =>
      have hKnown := hOrder.known w (by rw [hF.fetch_pcOf (by omega), hAt.word])
      exact agrees_plain hF hi hAt hSettled hLive hKnown hClass
  | ret => exact agrees_ret hF hi hAt hSettled hLive hOrder hClass
  | branch t => exact agrees_branch hF hi hAt hSettled hLive hOrder hLabels hClass
  | jump t => exact agrees_jump hF hi hAt hSettled hLive hOrder hLabels hClass
  | call => exact agrees_call hF hi hAt hSettled hLive hOrder hClass
  | tailJump => exact agrees_tail hF hi hAt hSettled hLive hOrder hClass
  | abort => exact absurd rfl (emitWord_control hAt.emit hClass (by simp)).1

theorem InterpReaches.head {pc pc₁ pc₂ : Word} {s s₁ s₂ : CPUState M}
    (hStep : interpStep p cps F pc s = .next pc₁ s₁)
    (h : InterpReaches p cps F pc₁ s₁ pc₂ s₂) : InterpReaches p cps F pc s pc₂ s₂ := by
  induction h with
  | start => exact .step .start hStep
  | step prior last ih => exact .step ih last

/-- What the interpreter comes to, the shard comes to. -/
theorem exists_runShard {next : Word} {t : CPUState M} {fuel : Nat} (hF : Accepted F)
    (hLabels : Labelled cps F labels) (hStands : Stands cps F i code g st)
    (hOrder : ∀ pc s, InterpReaches p cps F (F.pcOf i) g pc s → InOrder p cps F pc s)
    (hRun : interpRun p cps F fuel (F.pcOf i) g = some (next, t)) :
    ∃ n cpu, runShard p labels n code st = some cpu ∧ SameExit cps cpu next t := by
  induction fuel generalizing i code g st with
  | zero => cases hRun
  | succ fuel ih =>
      have hAgrees := hStands.agrees hF hLabels (hOrder _ _ .start)
      rw [interpRun] at hRun
      generalize hStep : interpStep p cps F (F.pcOf i) g = out at hAgrees hRun
      cases hAgrees with
      | falls _ hSame hStands' =>
          obtain ⟨n, cpu, hShard, hExit⟩ := ih hStands'
            (fun pc s hReaches => hOrder pc s (hReaches.head hStep)) hRun
          exact ⟨n, cpu, (hSame n).trans hShard, hExit⟩
      | jumps hSame hStands' =>
          obtain ⟨n, cpu, hShard, hExit⟩ := ih hStands'
            (fun pc s hReaches => hOrder pc s (hReaches.head hStep)) hRun
          exact ⟨n + 1, cpu, (hSame n).trans hShard, hExit⟩
      | exits hSame hExit =>
          cases hRun
          exact ⟨1, _, hSame 0, hExit⟩

/-- What the shard comes to, the interpreter comes to: every jump uses up fuel,
and between two jumps the words run out. -/
theorem exists_interpRun {cpu : CPUState M} {n : Nat} (hF : Accepted F)
    (hLabels : Labelled cps F labels) (hStands : Stands cps F i code g st)
    (hOrder : ∀ pc s, InterpReaches p cps F (F.pcOf i) g pc s → InOrder p cps F pc s)
    (hRun : runShard p labels n code st = some cpu) :
    ∃ fuel next t, interpRun p cps F fuel (F.pcOf i) g = some (next, t) ∧
      SameExit cps cpu next t := by
  induction n generalizing i code g st with
  | zero => cases hRun
  | succ n ihJump =>
      induction hk : F.words.length - i using Nat.strong_induction_on generalizing i code g st with
      | _ k ihFall =>
          have hAgrees := hStands.agrees hF hLabels (hOrder _ _ .start)
          have hi := hStands.boundary.lt
          generalize hStep : interpStep p cps F (F.pcOf i) g = out at hAgrees
          cases hAgrees with
          | @falls j _ _ _ hLt hSame hStands' =>
              have hj := hStands'.boundary.lt
              obtain ⟨fuel, next, t, hInterp, hExit⟩ := ihFall (F.words.length - j) (by omega)
                hStands' (fun pc s hReaches => hOrder pc s (hReaches.head hStep))
                ((hSame (n + 1)).symm.trans hRun) rfl
              refine ⟨fuel + 1, next, t, ?_, hExit⟩
              rw [interpRun, hStep]
              exact hInterp
          | jumps hSame hStands' =>
              obtain ⟨fuel, next, t, hInterp, hExit⟩ := ihJump hStands'
                (fun pc s hReaches => hOrder pc s (hReaches.head hStep))
                ((hSame n).symm.trans hRun)
              refine ⟨fuel + 1, next, t, ?_, hExit⟩
              rw [interpRun, hStep]
              exact hInterp
          | @exits _ t next hSame hExit =>
              obtain rfl := Option.some.inj ((hSame n).symm.trans hRun)
              refine ⟨1, next, t, ?_, hExit⟩
              rw [interpRun, hStep]

theorem Fragment.zero_notMem_used (F : Fragment) : (0 : RegIndex) ∉ F.used := by
  unfold Fragment.used
  induction F.words with
  | nil => simp
  | cons w rest ih =>
      rw [List.foldr_cons, Finset.mem_union, not_or]
      exact ⟨Finset.notMem_erase _ _, ih⟩

theorem settled_initialCache (T : Target) (F : Fragment) :
    Settled F.used 0 (initialCache T F) := by
  have hSlot : ∀ {k : Nat} {s : GprSlot}, (initialCache T F).slots[k]? = some s →
      s = ⟨none, false, false, 0⟩ := by
    intro k s hAt
    exact List.eq_of_mem_replicate (List.mem_of_getElem? hAt)
  refine ⟨⟨?_, ?_, F.zero_notMem_used, ?_, ?_, ?_⟩, ?_, Nat.le_refl 0⟩
  · intro j k s t r hs _ hr _
    rw [hSlot hs] at hr
    cases hr
  · intro k s r hs hr
    rw [hSlot hs] at hr
    cases hr
  · intro k s hs _
    rw [hSlot hs]
  · have hEnough := T.enough
    simp only [initialCache, List.length_replicate]
    omega
  · intro k s hs
    rw [hSlot hs]
    decide
  · simp [GprCache.pins, initialCache, List.countP_replicate]

theorem live_entryState (p : Platform M) {s : CPUState M} {used : Finset RegIndex}
    {c : GprCache} (hWf : c.Wf used) (hEmpty : ∀ t ∈ c.slots, t.reg = none) (hZero : s.gpr 0 = 0)
    (hPc : cps = false → s.pc = 0) : Live cps used c s (entryState p s) where
  wf := hWf
  cached hAt hReg := by
    rw [hEmpty _ (List.mem_of_getElem? hAt)] at hReg
    cases hReg
  stored _ _ := rfl
  rest := ⟨rfl, rfl, rfl, rfl, rfl, rfl⟩
  zero := hZero
  pc := hPc
  running := rfl

/-- A shard leaves its fragment if and only if the interpreter does, and in the
same state, where the run of the interpreter keeps to the order of the
compiler. -/
theorem shardExits_iff_interpExits (T : Target) (p : Platform M) {entry imageBase : Word}
    {bytes : List (BitVec 8)} {shard : Shard}
    (hCompile : tryCompile T entry bytes imageBase = some shard) {s : CPUState M}
    (hZero : s.gpr 0 = 0) (hPc : T.cps = false → s.pc = 0)
    (hOrder : ∀ pc g, InterpReaches p T.cps shard.fragment entry s pc g →
      InOrder p T.cps shard.fragment pc g) :
    (∀ next t, InterpExits p T.cps shard.fragment s next t →
      ∃ cpu, ShardExits p shard s cpu ∧ SameExit T.cps cpu next t) ∧
    (∀ cpu, ShardExits p shard s cpu →
      ∃ next t, InterpExits p T.cps shard.fragment s next t ∧ SameExit T.cps cpu next t) := by
  unfold tryCompile at hCompile
  split at hCompile
  · cases hCompile
  · next F hScan =>
    obtain ⟨hEntry, hF⟩ := scan_accepted hScan
    split at hCompile
    · cases hCompile
    · next assembled hEmit =>
      obtain rfl := Option.some.inj hCompile
      have hSettled := settled_initialCache T F
      have hSlot := hF.slot
      have hBoundary : Boundary F 0 := ⟨by omega, rfl⟩
      have hEmit' : emitFrom T.cps F 0 .none (F.words.drop 0) (initialCache T F) =
          some assembled := hEmit
      have hLabels : Labelled T.cps F assembled.labels := fun j hj hTarget =>
        lookup_labels p s hF.length hEmit' (by simp [Fragment.isDelaySlot]) hSettled (Nat.zero_le j)
          hj.lt hTarget hj.notSlot
      have hLive := live_entryState p hSettled.wf
        (fun t ht => by rw [List.eq_of_mem_replicate ht]) hZero hPc
      obtain ⟨code, st, hRun, hStands⟩ := exists_stands (p := p) hBoundary hEmit' hSettled hLive
      have hStart : F.pcOf 0 = entry := F.pcOf_zero.trans hEntry
      have hSame : ∀ n, runShard p assembled.labels n assembled.code (entryState p s) =
        runShard p assembled.labels n code st := runShard_congr hRun
      rw [← hStart] at hOrder
      refine ⟨?_, ?_⟩
      · rintro next t ⟨fuel, hInterp⟩
        rw [hEntry, ← hStart] at hInterp
        obtain ⟨n, cpu, hShard, hExit⟩ := exists_runShard hF hLabels hStands hOrder hInterp
        exact ⟨cpu, ⟨n, (hSame n).trans hShard⟩, hExit⟩
      · rintro cpu ⟨n, hShard⟩
        obtain ⟨fuel, next, t, hInterp, hExit⟩ :=
          exists_interpRun hF hLabels hStands hOrder ((hSame n).symm.trans hShard)
        refine ⟨next, t, ⟨fuel, ?_⟩, hExit⟩
        rw [hEntry, ← hStart]
        exact hInterp

def wordBytes (w : Word) : List (BitVec 8) :=
  [w.extractLsb' 0 8, w.extractLsb' 8 8, w.extractLsb' 16 8, w.extractLsb' 24 8]

/-- A host where every callee returns at once. -/
def leafPlatform : Platform Word where
  host := cellHost
  guestCall :=
    { run := fun _ _ _ s => ({ s with pc := 0 }, false)
      keepsZero := fun _ _ _ _ h => h
      clearsPc := fun _ _ _ _ _ => rfl }
  extension := .zero
  clobber := fun _ => 0

def cpsTarget : Target := ⟨true, 4, Nat.le_refl 4⟩

def calledFrom (ra : Word) : CPUState Word := (blankState 0).setGpr 31 ra

/-- Counts `$a0` down to zero. The slot of the branch adds to `$v1`, and the one of the
return doubles `$v0`. -/
def countsDown : Fragment :=
  ⟨0x80010000#32, [0x24420001#32, 0x2484FFFF#32, 0x1480FFFD#32, 0x00641821#32, 0x03E00008#32,
    0x00021040#32]⟩

def countState : CPUState Word := (calledFrom 0x80020000#32).setGpr 4 2

theorem countsDown_keeps_link {w : Word} (hMem : w ∈ countsDown.words) {h : Host Word}
    {pc : Word} {s s' : CPUState Word} (hExec : execPlain h pc w s = .advance s') :
    s'.gpr 31 = s.gpr 31 := by
  rcases List.eq_or_mem_of_mem_cons hMem with rfl | hMem
  · cases hExec
    rfl
  rcases List.eq_or_mem_of_mem_cons hMem with rfl | hMem
  · cases hExec
    rfl
  rcases List.eq_or_mem_of_mem_cons hMem with rfl | hMem
  · cases hExec
  rcases List.eq_or_mem_of_mem_cons hMem with rfl | hMem
  · cases hExec
    rfl
  rcases List.eq_or_mem_of_mem_cons hMem with rfl | hMem
  · cases hExec
  rcases List.eq_or_mem_of_mem_cons hMem with rfl | hMem
  · cases hExec
    rfl
  · cases hMem

theorem countsDown_inOrder (pc : Word) (g : CPUState Word) :
    InOrder leafPlatform true countsDown pc g := by
  have hMem : ∀ {a w : Word}, countsDown.fetch a = some w → w ∈ countsDown.words := by
    intro a w hFetch
    unfold Fragment.fetch at hFetch
    split_ifs at hFetch
    exact List.mem_of_getElem? hFetch
  have hKnown : ∀ w ∈ countsDown.words, copKnown w :=
    List.forall_iff_forall_mem.mp (by decide)
  have hPlain : ∀ w ∈ countsDown.words,
      branchLinks w = false ∧ (Op.ofWord w = .jr → rs w = 31) ∧ Op.ofWord w ≠ .j :=
    List.forall_iff_forall_mem.mp (by decide)
  refine ⟨?_, ?_, ?_, ?_, ?_, ?_⟩
  · exact fun w hw => hKnown w (hMem hw)
  · exact fun _ slot _ _ hSlot => hKnown slot (hMem hSlot)
  · intro w hw hLinks
    exact absurd hLinks (by simp [(hPlain w (hMem hw)).1])
  · intro w slot s' _ hSlot _ _ hExec
    exact countsDown_keeps_link (hMem hSlot) hExec
  · intro w hw hOp hRs
    exact absurd ((hPlain w (hMem hw)).2.1 hOp) hRs
  · intro w hw hOp
    exact absurd hOp (hPlain w (hMem hw)).2.2

/-- Two rounds, and the return. -/
theorem countsDown_shardExits : ∃ shard,
    tryCompile cpsTarget 0x80010000#32 (countsDown.words.flatMap wordBytes) 0x80010000#32 =
      some shard ∧ ∃ cpu, ShardExits leafPlatform shard countState cpu ∧
        cpu.gpr 2 = 4 ∧ cpu.gpr 3 = 1 ∧ nextGuestPc true cpu = 0x80020000#32 := by
  have hFragment : (tryCompile cpsTarget 0x80010000#32 (countsDown.words.flatMap wordBytes)
      0x80010000#32).map (·.fragment) = some countsDown := by decide +kernel
  obtain ⟨shard, hShard, hEq⟩ := Option.map_eq_some_iff.mp hFragment
  have hInterp : (interpRun leafPlatform true countsDown 7 0x80010000#32 countState).map
      (fun r => (r.1, r.2.gpr 2, r.2.gpr 3)) = some (0x80020000#32, 4, 1) := by
    decide +kernel
  obtain ⟨⟨next, t⟩, hRun, hValues⟩ := Option.map_eq_some_iff.mp hInterp
  obtain ⟨cpu, hExits, hSame⟩ := (shardExits_iff_interpExits cpsTarget leafPlatform hShard
    (s := countState) (by decide) (by decide) (by
      rw [hEq]
      exact fun pc g _ => countsDown_inOrder pc g)).1 next t (by
        rw [hEq]
        exact ⟨7, hRun⟩)
  obtain ⟨rfl, hGprs⟩ := Prod.mk.inj hValues
  obtain ⟨hV0, hV1⟩ := Prod.mk.inj hGprs
  exact ⟨shard, hShard, cpu, hExits, by rw [hSame.gpr, hV0], by rw [hSame.gpr, hV1], hSame.next⟩

/-- `bltzal $ra, 2` over `addiu $v0, $zero, 1`. -/
def linkTested : Fragment :=
  ⟨0x80010000#32, [0x07F00002#32, 0x00000000#32, 0x24020001#32, 0x03E00008#32, 0x00000000#32]⟩

/-- The interpreter tests the old `$ra`, which is positive; the shard tests the
link. -/
theorem linkTested_diverges : ∃ shard,
    tryCompile cpsTarget 0x80010000#32 (linkTested.words.flatMap wordBytes) 0x80010000#32 =
      some shard ∧ ∃ next t cpu,
        InterpExits leafPlatform true shard.fragment (calledFrom 0x100#32) next t ∧
        ShardExits leafPlatform shard (calledFrom 0x100#32) cpu ∧
        t.gpr 2 = 1 ∧ cpu.gpr 2 = 0 := by
  have hShard : (tryCompile cpsTarget 0x80010000#32 (linkTested.words.flatMap wordBytes)
      0x80010000#32).map (fun shard =>
        ((interpRun leafPlatform true shard.fragment 4 shard.fragment.entry
            (calledFrom 0x100#32)).map fun r => r.2.gpr 2,
          (runShard leafPlatform shard.assembled.labels 2 shard.assembled.code
            (entryState leafPlatform (calledFrom 0x100#32))).map fun cpu => cpu.gpr 2)) =
      some (some 1, some 0) := by decide +kernel
  obtain ⟨shard, hCompile, hRuns⟩ := Option.map_eq_some_iff.mp hShard
  obtain ⟨hInterp, hNative⟩ := Prod.mk.inj hRuns
  obtain ⟨⟨next, t⟩, hInterpRun, hT⟩ := Option.map_eq_some_iff.mp hInterp
  obtain ⟨cpu, hShardRun, hCpu⟩ := Option.map_eq_some_iff.mp hNative
  exact ⟨shard, hCompile, next, t, cpu, ⟨4, hInterpRun⟩, ⟨2, hShardRun⟩, hT, hCpu⟩

end RecompStudio.Sljit
