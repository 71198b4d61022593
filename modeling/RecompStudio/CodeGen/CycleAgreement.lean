import RecompStudio.CodeGen.CycleCharge
import RecompStudio.CodeGen.Paths
import RecompStudio.Runtime.Settled

/-!
When the text of a path charges what the interpreter charges. Followed word by
word, the two make the same calls; a fetch that the text leaves out is one that
hits, because the word in front of it was fetched into the same line.
-/

namespace RecompStudio.CodeGen

open RecompStudio.Insn
open RecompStudio.Runtime

section Sites

variable {cfg : SiteConfig} {addr w : Word} {stmts : List Emitted.Stmt} (o : Operands)

theorem siteCheck_rewrite {active overlay : Bool} {matched : Option (List Emitted.Stmt)}
    (hRewrite : siteCheck active overlay matched = .rewrite stmts) : matched = some stmts := by
  unfold siteCheck at hRewrite
  cases active with
  | false => cases hRewrite
  | true =>
      cases matched with
      | none => cases overlay <;> cases hRewrite
      | some stmts' =>
          cases hRewrite
          rfl

/-- No site rewrites a word whose code charges cycles. -/
theorem translatedCalls_of_rewrite (hMem : .rewrite stmts ∈ siteChecks cfg addr w) :
    translatedCalls o w = [] := by
  simp only [siteChecks, List.mem_cons, List.not_mem_nil, or_false] at hMem
  rcases hMem with h | h | h | h | h | h | h | h | h | h | h | h | h | h | h | h
  case inl =>
    unfold siteBackdrop at h
    split at h
    · cases h
    · split at h
      next hOp => simp only [translatedCalls, hOp]
      next hOp => simp only [translatedCalls, hOp]
      next hOp => simp only [translatedCalls, hOp]
      next hOp => simp only [translatedCalls, hOp]
      next => cases h
  case inr.inr.inr.inr.inr.inl =>
    unfold siteAutoCull at h
    split_ifs at h
    split at h
    next hOp => simp only [translatedCalls, hOp]
    next hOp => simp only [translatedCalls, hOp]
    next => cases h
  all_goals
    have hMatched := siteCheck_rewrite h.symm
    repeat' split at hMatched
    all_goals cases hMatched
    all_goals first
      | (subst_vars; rfl)
      | simp only [translatedCalls, *]

theorem EmitContext.wordCalls_eq (ctx : EmitContext) (addr w : Word) :
    ctx.wordCalls o addr w = translatedCalls o w := by
  unfold wordCalls
  split
  next hRewrite => exact (translatedCalls_of_rewrite o (mem_of_firstDecision hRewrite)).symm
  next => rfl
  next => rfl

end Sites

section Calls

variable {ctx : EmitContext} {b : BasicBlock} {o : Operands} {e : Executed} {t : Timing} {w : Word}

/-- The two bodies differ in an unaligned load to the zero register and in `lwc1`. -/
theorem execOneBody_eq (hKept : ¬((Op.ofWord w = .lwl ∨ Op.ofWord w = .lwr) ∧ rt w = 0))
    (hNoLwc1 : Op.ofWord w ≠ .lwc1) : execOneBody o w = translatedCalls o w := by
  unfold execOneBody translatedCalls
  cases hOp : Op.ofWord w
  case lwc1 => exact absurd hOp hNoLwc1
  case lwl =>
    have hRt : rt w ≠ 0 := fun hZero => hKept ⟨.inl hOp, hZero⟩
    simp only [if_neg hRt]
  case lwr =>
    have hRt : rt w ≠ 0 := fun hZero => hKept ⟨.inr hOp, hZero⟩
    simp only [if_neg hRt]
  all_goals rfl

/-- A transfer of control is charged as an instruction without body. -/
theorem translatedCalls_transfer (hFlow : isControlFlow w = true) : translatedCalls o w = [] := by
  unfold isControlFlow at hFlow
  unfold translatedCalls
  split at hFlow
  all_goals first
    | simp only [*]
    | cases hFlow

theorem run_preIcache (hFetch : ctx.fetchPoint b e.addr = true ∨ t.icache.Hits e.addr.toNat) :
    TimingCall.run t (ctx.preIcache b e.addr) = t.icacheFetch e.addr.toNat := by
  unfold EmitContext.preIcache
  by_cases hPoint : ctx.fetchPoint b e.addr = true
  · rw [if_pos hPoint]
    rfl
  · rw [if_neg hPoint, Timing.icacheFetch, if_pos (hFetch.resolve_left hPoint)]
    rfl

/-- Only the service behind a `syscall` fetches. -/
theorem fetches_execOneBody
    (hService : Op.ofWord w = .syscall → TimingCall.fetches o.service = false) :
    TimingCall.fetches (execOneBody o w) = false := by
  unfold execOneBody
  cases hOp : Op.ofWord w
  case syscall => exact hService hOp
  case cop2 =>
    simp only [cop2Calls]
    split_ifs <;> rfl
  case cop0 => simp only; split_ifs <;> rfl
  case lwc1 => simp only; split_ifs <;> rfl
  all_goals rfl

theorem fetches_translatedCalls
    (hService : Op.ofWord w = .syscall → TimingCall.fetches o.service = false) :
    TimingCall.fetches (translatedCalls o w) = false := by
  unfold translatedCalls
  cases hOp : Op.ofWord w
  case syscall => exact hService hOp
  case cop2 =>
    simp only [cop2Calls]
    split_ifs <;> rfl
  case cop0 => simp only; split_ifs <;> rfl
  case lwl => simp only; split_ifs <;> rfl
  case lwr => simp only; split_ifs <;> rfl
  all_goals rfl

theorem fetches_preTiming : TimingCall.fetches (preTiming w) = false := by
  unfold preTiming
  split_ifs <;> rfl

end Calls

/-- A word of a path as the image and the block have it. -/
structure Executed.Fits (img : Image) (b : BasicBlock) (e : Executed) : Prop where
  read : img.readWord e.addr = some e.word
  aligned : Aligned e.addr
  exit : e.role = .exit → isControlFlow e.word = true ∧ b.exitInstr.instruction = e.word

section Words

variable {ctx : EmitContext} {b : BasicBlock} {o : Operands} {e : Executed} {t : Timing}

/-- The text of a word that the interpreter runs: the fetch that the text makes, the
interlock and the translation. -/
theorem Executed.run_emitted (hInterpreted : e.interpreted = true) (hFits : e.Fits ctx.img b) :
    TimingCall.run t (ctx.emittedCalls .perInsn b o e) =
      TimingCall.run (TimingCall.run t (ctx.preIcache b e.addr))
        (preTiming e.word ++ translatedCalls o e.word) := by
  unfold EmitContext.emittedCalls
  cases hRole : e.role with
  | plain =>
      simp only
      rw [TimingCall.run_append, EmitContext.wordCalls_eq]
  | slot =>
      simp only
      rw [TimingCall.run_append, EmitContext.wordCalls_eq]
  | exit =>
      obtain ⟨hFlow, hWord⟩ := hFits.exit hRole
      simp only
      rw [TimingCall.run_append, hWord, translatedCalls_transfer hFlow, List.append_nil]
  | likelySlot =>
      rw [Executed.interpreted, hRole] at hInterpreted
      cases hInterpreted

theorem Executed.run_interpreter (hInterpreted : e.interpreted = true) :
    TimingCall.run t (e.interpreterCalls o) =
      TimingCall.run (t.icacheFetch e.addr.toNat) (preTiming e.word ++ execOneBody o e.word) := by
  rw [Executed.interpreterCalls, if_pos hInterpreted]
  rfl

theorem Executed.Charged.body_eq (hCharged : e.Charged) :
    execOneBody o e.word = translatedCalls o e.word :=
  execOneBody_eq hCharged.not_dropped hCharged.not_lwc1

/-- A word that is charged alike is the same calls, once it has been fetched. -/
theorem Executed.Charged.run_eq (hCharged : e.Charged) (hFits : e.Fits ctx.img b)
    (hFetch : ctx.fetchPoint b e.addr = true ∨ t.icache.Hits e.addr.toNat) :
    TimingCall.run t (ctx.emittedCalls .perInsn b o e) =
      TimingCall.run t (e.interpreterCalls o) := by
  rw [Executed.run_emitted hCharged.interpreted hFits, run_preIcache hFetch,
    Executed.run_interpreter hCharged.interpreted, hCharged.body_eq]

theorem fetches_word
    (hService : Op.ofWord e.word = .syscall → TimingCall.fetches o.service = false) :
    TimingCall.fetches (preTiming e.word ++ execOneBody o e.word) = false := by
  rw [TimingCall.fetches_append, fetches_preTiming, fetches_execOneBody hService]
  rfl

/-- The interpreter leaves the word in the cache, unless a service evicts it. -/
theorem Executed.hits_after (hInterpreted : e.interpreted = true) (hFits : e.Fits ctx.img b)
    (hService : Op.ofWord e.word = .syscall → TimingCall.fetches o.service = false) :
    (TimingCall.run t (e.interpreterCalls o)).icache.Hits e.addr.toNat := by
  have hRange := ctx.img.readWord_range hFits.read
  rw [Executed.run_interpreter hInterpreted, TimingCall.icache_run (fetches_word hService)]
  exact hits_icacheFetch hFits.aligned (by omega)

/-- A word that the text does not fetch is not the first of its line. -/
theorem inside_line {a : Word} (hPoint : ctx.fetchPoint b a = false) : a.toNat % 16 ≠ 0 := by
  intro hStart
  have hLow : (a.toNat &&& 12) % 2 ^ 4 = 0 := by
    rw [Nat.and_mod_two_pow, show a.toNat % 2 ^ 4 = 0 from hStart, Nat.zero_and]
  have hSmall : a.toNat &&& 12 ≤ 12 := Nat.and_le_right
  have hLine : a &&& 0xC#32 = 0 := by
    apply BitVec.eq_of_toNat_eq
    rw [BitVec.toNat_and]
    change a.toNat &&& 12 = 0
    omega
  simp [EmitContext.fetchPoint, hLine] at hPoint

/-- Two words of a path in a row: the second may lie in a line that the service of
the first has evicted only if it is fetched. -/
def Follows (ctx : EmitContext) (b : BasicBlock) (env : Word → Operands) (e e' : Executed) :
    Prop :=
  e'.addr = e.addr + 4#32 ∧
    (Op.ofWord e.word = .syscall → ctx.fetchPoint b e'.addr = true ∨
      TimingCall.fetches (env e.addr).service = false)

/-- Behind a word of the path the next one is fetched, or it hits. -/
theorem Follows.covered {env : Word → Operands} {e' : Executed} (hFollows : Follows ctx b env e e')
    (hInterpreted : e.interpreted = true) (hFits : e.Fits ctx.img b) :
    ctx.fetchPoint b e'.addr = true ∨
      (TimingCall.run t (e.interpreterCalls (env e.addr))).icache.Hits e'.addr.toNat := by
  obtain ⟨hNext, hSyscall⟩ := hFollows
  have hRange := ctx.img.readWord_range hFits.read
  cases hPoint : ctx.fetchPoint b e'.addr with
  | true => exact .inl rfl
  | false =>
      have hService : Op.ofWord e.word = .syscall →
          TimingCall.fetches (env e.addr).service = false := by
        intro hOp
        exact (hSyscall hOp).resolve_left (by simp [hPoint])
      have hHit := Executed.hits_after (t := t) hInterpreted hFits hService
      have hAddr : e'.addr.toNat = e.addr.toNat + 4 := by
        rw [hNext, BitVec.toNat_add, BitVec.toNat_ofNat]
        omega
      have hInside := inside_line hPoint
      rw [hAddr] at hInside ⊢
      exact .inr (hHit.next hFits.aligned hInside)

/-- Words that are charged alike take the same state to the same state. -/
theorem run_words {env : Word → Operands} {l : List Executed}
    (hFits : ∀ e ∈ l, e.Fits ctx.img b) (hCharged : ∀ e ∈ l, e.Charged)
    (hChain : l.IsChain (Follows ctx b env))
    (hFirst : ∀ e ∈ l.head?, ctx.fetchPoint b e.addr = true ∨ t.icache.Hits e.addr.toNat) :
    TimingCall.run t (l.flatMap fun e => ctx.emittedCalls .perInsn b (env e.addr) e) =
      TimingCall.run t (l.flatMap fun e => e.interpreterCalls (env e.addr)) := by
  induction l generalizing t with
  | nil => rfl
  | cons e l ih =>
      obtain ⟨hFit, hFits⟩ := List.forall_mem_cons.mp hFits
      obtain ⟨hThis, hCharged⟩ := List.forall_mem_cons.mp hCharged
      rw [List.flatMap_cons, List.flatMap_cons, TimingCall.run_append, TimingCall.run_append,
        hThis.run_eq hFit (hFirst e rfl)]
      apply ih hFits hCharged hChain.tail
      intro e' he'
      exact (hChain.rel_head? he').covered hThis.interpreted hFit

end Words

/-- The words of a text from an address on: plain words in a row, and at last the
exit with its delay slot, unless the text ends before. -/
inductive RunsOn (img : Image) (b : BasicBlock) (taken : Bool) : Word → List Executed → Prop where
  | stop {a : Word} (hStop : img.readWord a = none ∨
      (EmitContext.slotInBlock b && a == b.endAddr) = true ∨ b.endAddr.toNat < a.toNat) :
      RunsOn img b taken a []
  | plain {a w : Word} {l : List Executed} (hInside : a.toNat ≤ b.endAddr.toNat)
      (hRead : img.readWord a = some w) (hPlain : isControlFlow w = false)
      (hRest : RunsOn img b taken (a + 4#32) l) :
      RunsOn img b taken a (⟨a, w, .plain⟩ :: l)
  | exit {w : Word} (hExit : ExitInstr img b w) :
      RunsOn img b taken b.exitInstr.address
        (⟨b.exitInstr.address, w, .exit⟩ :: slotExecuted img b taken)

section Shape

variable {out : OutputConfig} {f : Function} {img : Image} {b : BasicBlock}
    {taken : Bool} {a : Word}
  {l : List Executed}

theorem runsOn_executedFrom (hf : f.Valid) (hb : b ∈ (analyzeFunction img f).blocks)
    (hLo : b.startAddr.toNat ≤ a.toNat) (hAligned : Aligned a) :
    RunsOn img b taken a (executedFrom img b taken (addrRange a (b.endAddr.toNat + 1))) := by
  have hExtent := (mem_blocks hf hb).2
  have hEnd := hExtent.end_lt
  have hBound := f.endAddr.isLt
  induction hSteps : b.endAddr.toNat + 1 - a.toNat using Nat.strong_induction_on generalizing a with
  | _ steps ih =>
      by_cases hInside : a.toNat ≤ b.endAddr.toNat
      · have hNext : (a + 4#32).toNat = a.toNat + 4 := by
          rw [BitVec.toNat_add, BitVec.toNat_ofNat]
          omega
        rw [addrRange_cons (by omega) (by omega), executedFrom]
        cases hRead : img.readWord a with
        | none => exact .stop (.inl hRead)
        | some w =>
            simp only
            split_ifs with hSlot hFlow hExit
            · exact .stop (.inr (.inl hSlot))
            · obtain ⟨hType, hWhere⟩ :=
                transfer_position hf hb hAligned hLo hInside hRead hFlow
              obtain ⟨v, hInstr⟩ := exitInstr_of_mem_blocks hf hb hType
              rw [EmitContext.exitBranchAddr_eq hExtent hInstr] at hExit
              subst hExit
              obtain rfl : v = w := Option.some.inj (hInstr.read.symm.trans hRead)
              exact .exit hInstr
            · -- the only other transfer stands in the delay slot
              obtain ⟨hType, hWhere⟩ :=
                transfer_position hf hb hAligned hLo hInside hRead hFlow
              obtain ⟨v, hInstr⟩ := exitInstr_of_mem_blocks hf hb hType
              rw [EmitContext.exitBranchAddr_eq hExtent hInstr] at hExit
              obtain ⟨hAt, hBefore⟩ := hWhere.resolve_left hExit
              have hOther : b.exitInstr.address ≠ b.endAddr := by
                have hRange := img.readWord_range hRead
                rw [hBefore, ne_eq, ← BitVec.toNat_inj, sub_four_toNat (hAt ▸ by omega)]
                omega
              rw [EmitContext.slotInBlock_eq hExtent hInstr, decide_eq_true hOther, hAt,
                beq_self_eq_true] at hSlot
              exact absurd rfl hSlot
            · have hFlow' : isControlFlow w = false := by simpa using hFlow
              refine .plain hInside hRead hFlow' (ih _ ?_ (by omega) (aligned_add hAligned 1) rfl)
              omega
      · rw [addrRange_eq_nil (by omega)]
        exact .stop (.inr (.inr (by omega)))

theorem RunsOn.head (h : RunsOn img b taken a l) : ∀ e ∈ l.head?, e.addr = a := by
  intro e he
  cases h with
  | stop => cases he
  | plain => cases he; rfl
  | exit => cases he; rfl

theorem mem_slotExecuted {e : Executed} (he : e ∈ slotExecuted img b taken) :
    slotExecuted img b taken = [e] ∧ e.addr = b.exitInstr.address + 4#32 ∧
      img.readWord e.addr = some e.word ∧ e.role ≠ .exit := by
  unfold slotExecuted at he ⊢
  split at he
  · cases he
  next w hRead =>
    split_ifs at he ⊢
    · rw [List.mem_singleton.mp he]
      exact ⟨rfl, rfl, hRead, by simp⟩
    · cases he
    · rw [List.mem_singleton.mp he]
      exact ⟨rfl, rfl, hRead, by simp⟩

theorem RunsOn.chain (h : RunsOn img b taken a l) :
    l.IsChain fun e e' => e'.addr = e.addr + 4#32 := by
  induction h with
  | stop => exact .nil
  | plain _ _ _ hRest ih => exact ih.cons fun e he => hRest.head e he
  | exit =>
      cases hSlot : slotExecuted img b taken with
      | nil => exact .singleton _
      | cons e rest =>
          obtain ⟨hOnly, hAddr, -⟩ := mem_slotExecuted (hSlot ▸ List.mem_cons_self)
          obtain ⟨-, rfl⟩ := List.cons.inj (hSlot.symm.trans hOnly)
          exact (List.IsChain.singleton e).cons fun e' he' => by
            obtain rfl : e = e' := Option.some.inj he'
            exact hAddr

theorem RunsOn.fits (h : RunsOn img b taken a l) (hAligned : Aligned a) :
    ∀ e ∈ l, e.Fits img b := by
  induction h with
  | stop => exact fun e he => absurd he List.not_mem_nil
  | plain _ hRead _ _ ih =>
      rw [List.forall_mem_cons]
      exact ⟨⟨hRead, hAligned, fun hRole => by cases hRole⟩, ih (aligned_add hAligned 1)⟩
  | exit hExit =>
      rw [List.forall_mem_cons]
      refine ⟨⟨hExit.read, hAligned,
        fun _ => ⟨hExit.transfers, EmitContext.ExitInstr.instruction hExit⟩⟩, ?_⟩
      intro e he
      obtain ⟨-, hAddr, hRead, hRole⟩ := mem_slotExecuted he
      exact ⟨hRead, hAddr ▸ aligned_add hAligned 1, fun hExitRole => absurd hExitRole hRole⟩

end Shape

variable {out : OutputConfig} {f : Function} {p : BlockPath out f} {l l' : List Executed}
  {e e' : Executed}

theorem readWord_of_written {img : Image} {b : BasicBlock} {addrs : List Word} {a : Word}
    (h : a ∈ writtenFrom img b addrs) : (img.readWord a).isSome = true := by
  induction addrs with
  | nil => cases h
  | cons addr rest ih =>
      rw [writtenFrom] at h
      split_ifs at h with hStop
      · cases h
      · rcases List.mem_cons.mp h with rfl | h
        · rw [Bool.or_eq_true, not_or, Option.isNone_iff_eq_none] at hStop
          exact Option.isSome_iff_ne_none.mpr hStop.1
        · exact ih h

namespace BlockPath

theorem entry_aligned (hf : f.Valid) : Aligned p.entry :=
  aligned_of_mem_addrRange (CodeGen.mem_blocks hf p.mem_blocks).2.start_aligned
    (mem_writtenFrom p.written)

theorem entry_range : p.block.startAddr.toNat ≤ p.entry.toNat ∧
    p.entry.toNat ≤ p.block.endAddr.toNat :=
  writtenAddrs_range p.written

theorem runs (hf : f.Valid) : RunsOn out.img p.block p.taken p.entry p.executed :=
  runsOn_executedFrom hf p.mem_blocks p.entry_range.1 (p.entry_aligned hf)

/-- At least one word runs on a path, and the interpreter runs it. -/
theorem executed_cons (hf : f.Valid) :
    ∃ e rest, p.executed = e :: rest ∧ e.interpreted = true := by
  have hRuns := p.runs hf
  generalize p.executed = l at hRuns ⊢
  generalize hEntry : p.entry = a at hRuns
  cases hRuns with
  | stop hStop =>
      exfalso
      subst hEntry
      rcases hStop with hNone | hSlot | hBehind
      · have hSome := readWord_of_written p.written
        rw [hNone] at hSome
        cases hSome
      · rw [not_slot_written p.written] at hSlot
        cases hSlot
      · have := p.entry_range.2
        omega
  | plain => exact ⟨_, _, rfl, rfl⟩
  | exit => exact ⟨_, _, rfl, rfl⟩

theorem first_fetched (hf : f.Valid) :
    ∀ e ∈ p.executed.head?, (out.context f).fetchPoint p.block e.addr = true := by
  intro e he
  rw [(p.runs hf).head e he, EmitContext.fetchPoint, Bool.or_eq_true, Bool.or_eq_true]
  rcases p.labelled with hStart | hLabel
  · exact .inl (.inl (beq_iff_eq.mpr hStart))
  · exact .inr hLabel

/-- The words stand in ascending order. -/
theorem pairwise_executed (hf : f.Valid) :
    p.executed.Pairwise fun e e' => e.addr.toNat < e'.addr.toNat := by
  have hFits := (p.runs hf).fits (p.entry_aligned hf)
  have hLt : p.executed.IsChain fun e e' => e.addr.toNat < e'.addr.toNat := by
    refine (p.runs hf).chain.imp_of_mem_imp fun e e' he _ hNext => ?_
    have hRange := out.img.readWord_range (hFits e he).read
    rw [hNext, BitVec.toNat_add, BitVec.toNat_ofNat]
    omega
  exact List.isChain_iff_pairwise.mp hLt

theorem emittedRun_perInsn (env : Word → Operands) (n : Nat) (t : Timing) :
    p.emittedRun .perInsn env n t = TimingCall.run t ((p.executed.take n).flatMap fun e =>
      (out.context f).emittedCalls .perInsn p.block (env e.addr) e) := by
  have hFree : p.entryCharge .perInsn = [] := by
    unfold entryCharge headCharge midBlockCharge
    split_ifs with hEntry hHead hMid
    · exact absurd hHead.1 (by decide)
    · rfl
    · rfl
    · exact absurd (.inl rfl) hMid
  rw [emittedRun, hFree, List.nil_append]

/-- On a clean path the two make the same calls. -/
theorem Clean.chargedAlike (hf : f.Valid) (hClean : p.Clean) : p.ChargedAlike .perInsn where
  interpreted e he := (hClean.words e he).interpreted
  cycles env t n _ := by
    have hFits := (p.runs hf).fits (p.entry_aligned hf)
    have hFollows : p.executed.IsChain (Follows (out.context f) p.block env) := by
      rw [List.isChain_iff_forall_rel_of_append_cons_cons]
      intro e e' l l' hSplit
      have hNext := List.isChain_iff_forall_rel_of_append_cons_cons.mp (p.runs hf).chain hSplit
      have hLine := List.isChain_iff_forall_rel_of_append_cons_cons.mp hClean.lines hSplit
      exact ⟨hNext, fun hOp => .inl (hLine hOp)⟩
    have hSame := @run_words (out.context f) _ t _ _
      (fun e he => hFits e (List.mem_of_mem_take he))
      (fun e he => hClean.words e (List.mem_of_mem_take he)) (hFollows.take n) ?_
    · rw [emittedRun_perInsn, interpretedRun, hSame]
    · intro e he
      refine .inl (p.first_fetched hf e ?_)
      rw [List.head?_take] at he
      split_ifs at he
      · cases he
      · exact he

end BlockPath

end RecompStudio.CodeGen
