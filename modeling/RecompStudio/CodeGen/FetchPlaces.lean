import RecompStudio.CodeGen.CycleDrift

/-!
Where the text of the game fetches, against one fetch for every word that runs: the
same cycles, give-backs and tags, as long as every word that is not fetched lies in the
line of the word in front of it and no service stands between the two.
-/

namespace RecompStudio.Runtime

open RecompStudio.Runtime

/-- A refill of another line leaves a word uncached. -/
theorem Icache.not_hits_refill {c : Icache} {a b : Nat} (hMiss : ¬c.Hits a)
    (hLine : b / 16 ≠ a / 16) : ¬(c.refill b).Hits a := by
  intro hHit
  change refillTags c.tv b (icacheIndex a) = a at hHit
  rw [refillTags] at hHit
  split_ifs at hHit with hPlace hFront
  · unfold icacheIndex at hPlace hHit
    omega
  · unfold icacheIndex at hPlace hHit
    omega
  · exact hMiss hHit

theorem Timing.not_hits_icacheFetch {t : Timing} {a b : Nat} (hMiss : ¬t.icache.Hits a)
    (hLine : b / 16 ≠ a / 16) : ¬(t.icacheFetch b).icache.Hits a := by
  unfold Timing.icacheFetch
  split_ifs
  · exact hMiss
  · exact hMiss
  · exact Icache.not_hits_refill hMiss hLine

end RecompStudio.Runtime

namespace RecompStudio.CodeGen

open RecompStudio.Insn
open RecompStudio.Runtime

namespace EmitContext

variable (ctx : EmitContext)

/-- The text makes the fetch of a word: nowhere in the slot of a branch-likely, else
where `emit_pre_icache` makes it. -/
@[grind =] def fetched (b : BasicBlock) (e : Executed) : Bool :=
  e.role != .likelySlot && ctx.fetchPoint b e.addr

/-- The calls in the text of a word behind the fetch. -/
@[grind =] def unfetchedCalls (b : BasicBlock) (o : Operands) (e : Executed) : List TimingCall :=
  match e.role with
  | .plain | .slot => preTiming e.word ++ ctx.wordCalls o e.addr e.word
  | .exit => preTiming b.exitInstr.instruction
  | .likelySlot => ctx.wordCalls o e.addr e.word

/-- The same calls behind a fetch of the word itself. -/
@[grind =] def fetchedCalls (b : BasicBlock) (o : Operands) (e : Executed) : List TimingCall :=
  .fetch e.addr :: ctx.unfetchedCalls b o e

end EmitContext

namespace BlockPath

variable {out : OutputConfig} {f : Function} (p : BlockPath out f)

/-- The state after the first `n` words, with one fetch for each of them. -/
@[grind =] def fetchedRun (env : Word → Operands) (n : Nat) (t : Timing) : Timing :=
  TimingCall.run t ((p.executed.take n).flatMap fun e =>
    (out.context f).fetchedCalls p.block (env e.addr) e)

/-- A word that the text does not fetch lies in the line of the word in front of it,
which is no `syscall`: its service may have evicted the line. -/
def Sheltered : Prop :=
  p.executed.IsChain fun e e' => (out.context f).fetched p.block e' = true ∨
    e'.addr.toNat % 16 ≠ 0 ∧ Op.ofWord e.word ≠ .syscall

end BlockPath

/-- A path through a block of the game. -/
structure GamePath (out : OutputConfig) where
  f : Function
  valid : f.Valid
  path : BlockPath out f

/-- A piece of an execution: the first words of a path through a block, with what they
find in the machine, or whatever else charges the clock between two blocks. -/
inductive Piece (out : OutputConfig) where
  | words (p : GamePath out) (env : Word → Operands) (n : Nat)
  | other (calls : List TimingCall)

namespace Piece

variable {out : OutputConfig}

/-- The state behind a piece, as the text charges it. -/
def emitted (t : Timing) : Piece out → Timing
  | .words p env n => p.path.emittedRun .perInsn env n t
  | .other calls => TimingCall.run t calls

/-- The state behind a piece with one fetch for every word. -/
@[grind =] def fetched (t : Timing) : Piece out → Timing
  | .words p env n => p.path.fetchedRun env n t
  | .other calls => TimingCall.run t calls

/-- The words of a piece belong to one of some paths. -/
def Within (S : Set (GamePath out)) : Piece out → Prop
  | .words p _ _ => p ∈ S
  | .other _ => True

end Piece

section Words

variable {ctx : EmitContext} {b : BasicBlock} {o : Operands} {e e' : Executed} {t : Timing}
  {env : Word → Operands} {l : List Executed}

theorem EmitContext.emittedCalls_eq :
    ctx.emittedCalls .perInsn b o e =
      (if ctx.fetched b e then [.fetch e.addr] else []) ++ ctx.unfetchedCalls b o e := by
  unfold emittedCalls unfetchedCalls fetched preIcache
  cases e.role with
  | plain => rfl
  | exit => rfl
  | slot => rfl
  | likelySlot => rfl

/-- Where the text fetches a word, or the word is cached, the two are the same calls. -/
theorem run_emittedCalls (hFetch : ctx.fetched b e = true ∨ t.icache.Hits e.addr.toNat) :
    TimingCall.run t (ctx.emittedCalls .perInsn b o e) =
      TimingCall.run t (ctx.fetchedCalls b o e) := by
  rw [EmitContext.emittedCalls_eq, TimingCall.run_append, EmitContext.fetchedCalls,
    TimingCall.run_cons, TimingCall.exec_fetch]
  by_cases hPoint : ctx.fetched b e = true
  · rw [if_pos hPoint]
    rfl
  · rw [if_neg hPoint, Timing.icacheFetch, if_pos (hFetch.resolve_left hPoint)]
    rfl

/-- Only the service behind a `syscall` fetches. -/
theorem fetches_unfetchedCalls
    (hService : Op.ofWord e.word = .syscall → TimingCall.fetches o.service = false) :
    TimingCall.fetches (ctx.unfetchedCalls b o e) = false := by
  have hWord : TimingCall.fetches (ctx.wordCalls o e.addr e.word) = false := by
    rw [EmitContext.wordCalls_eq]
    exact fetches_translatedCalls hService
  unfold EmitContext.unfetchedCalls
  cases e.role with
  | exit => exact fetches_preTiming
  | plain =>
      simp only
      rw [TimingCall.fetches_append, fetches_preTiming, hWord]
      rfl
  | slot =>
      simp only
      rw [TimingCall.fetches_append, fetches_preTiming, hWord]
      rfl
  | likelySlot => exact hWord

/-- A word leaves itself in the cache, unless its service evicts it. -/
theorem hits_fetchedCalls (hFits : e.Fits ctx.img b)
    (hService : Op.ofWord e.word = .syscall → TimingCall.fetches o.service = false) :
    (TimingCall.run t (ctx.fetchedCalls b o e)).icache.Hits e.addr.toNat := by
  have hRange := ctx.img.readWord_range hFits.read
  rw [EmitContext.fetchedCalls, TimingCall.run_cons,
    TimingCall.icache_run (fetches_unfetchedCalls hService)]
  exact hits_icacheFetch hFits.aligned (by omega)

/-- Two words in a row: the second is fetched, or it lies in the line of the first and
nothing has evicted it. -/
def Shelters (ctx : EmitContext) (b : BasicBlock) (env : Word → Operands) (e e' : Executed) :
    Prop :=
  e'.addr = e.addr + 4#32 ∧ (ctx.fetched b e' = true ∨ e'.addr.toNat % 16 ≠ 0 ∧
    (Op.ofWord e.word = .syscall → TimingCall.fetches (env e.addr).service = false))

theorem Shelters.covered (hShelters : Shelters ctx b env e e') (hFits : e.Fits ctx.img b) :
    ctx.fetched b e' = true ∨
      (TimingCall.run t (ctx.fetchedCalls b (env e.addr) e)).icache.Hits e'.addr.toNat := by
  obtain ⟨hNext, hFetched | ⟨hInside, hService⟩⟩ := hShelters
  · exact .inl hFetched
  · have hRange := ctx.img.readWord_range hFits.read
    have hHit := hits_fetchedCalls (t := t) hFits hService
    have hAddr : e'.addr.toNat = e.addr.toNat + 4 := by
      rw [hNext, BitVec.toNat_add, BitVec.toNat_ofNat]
      omega
    rw [hAddr] at hInside ⊢
    exact .inr (hHit.next hFits.aligned hInside)

/-- Sheltered words take the same state to the same state. -/
theorem run_sheltered (hFits : ∀ e ∈ l, e.Fits ctx.img b)
    (hChain : l.IsChain (Shelters ctx b env))
    (hFirst : ∀ e ∈ l.head?, ctx.fetched b e = true ∨ t.icache.Hits e.addr.toNat) :
    TimingCall.run t (l.flatMap fun e => ctx.emittedCalls .perInsn b (env e.addr) e) =
      TimingCall.run t (l.flatMap fun e => ctx.fetchedCalls b (env e.addr) e) := by
  induction l generalizing t with
  | nil => rfl
  | cons e l ih =>
      obtain ⟨hFit, hFits⟩ := List.forall_mem_cons.mp hFits
      rw [List.flatMap_cons, List.flatMap_cons, TimingCall.run_append, TimingCall.run_append,
        run_emittedCalls (hFirst e rfl)]
      apply ih hFits hChain.tail
      intro e' he'
      exact (hChain.rel_head? he').covered hFit

/-- Words of other lines leave a word uncached. -/
theorem not_hits_words {a : Nat} (hService : ∀ a, TimingCall.fetches (env a).service = false)
    (hLines : ∀ e ∈ l, e.addr.toNat / 16 ≠ a / 16) (hMiss : ¬t.icache.Hits a) :
    ¬(TimingCall.run t (l.flatMap fun e =>
      ctx.fetchedCalls b (env e.addr) e)).icache.Hits a := by
  induction l generalizing t with
  | nil => exact hMiss
  | cons e l ih =>
      obtain ⟨hLine, hLines⟩ := List.forall_mem_cons.mp hLines
      rw [List.flatMap_cons, TimingCall.run_append]
      refine ih hLines ?_
      rw [EmitContext.fetchedCalls, TimingCall.run_cons,
        TimingCall.icache_run (fetches_unfetchedCalls fun _ => hService _)]
      exact Timing.not_hits_icacheFetch hMiss hLine

/-- Where a word is not cached, the fetch that is left out shows in the tags. -/
theorem run_emittedCalls_ne (hFits : e.Fits ctx.img b) (hPoint : ctx.fetched b e = false)
    (hMiss : ¬t.icache.Hits e.addr.toNat)
    (hService : TimingCall.fetches o.service = false) :
    TimingCall.run t (ctx.emittedCalls .perInsn b o e) ≠
      TimingCall.run t (ctx.fetchedCalls b o e) := by
  intro hSame
  have hHit := hits_fetchedCalls (t := t) (o := o) hFits fun _ => hService
  rw [← hSame, EmitContext.emittedCalls_eq, hPoint, if_neg Bool.false_ne_true, List.nil_append,
    TimingCall.icache_run (fetches_unfetchedCalls fun _ => hService)] at hHit
  exact hMiss hHit

/-- A word that is charged alike is the same calls for the interpreter. -/
theorem Executed.Charged.run_fetchedCalls (hCharged : e.Charged) (hFits : e.Fits ctx.img b) :
    TimingCall.run t (ctx.fetchedCalls b o e) = TimingCall.run t (e.interpreterCalls o) := by
  rw [EmitContext.fetchedCalls, TimingCall.run_cons, TimingCall.exec_fetch,
    Executed.run_interpreter hCharged.interpreted, hCharged.body_eq]
  cases hRole : e.role with
  | plain => simp only [EmitContext.unfetchedCalls, hRole, EmitContext.wordCalls_eq]
  | slot => simp only [EmitContext.unfetchedCalls, hRole, EmitContext.wordCalls_eq]
  | exit =>
      obtain ⟨hFlow, hWord⟩ := hFits.exit hRole
      simp only [EmitContext.unfetchedCalls, hRole]
      rw [hWord, translatedCalls_transfer hFlow, List.append_nil]
  | likelySlot =>
      have hInterpreted := hCharged.interpreted
      rw [Executed.interpreted, hRole] at hInterpreted
      cases hInterpreted

end Words

/-- The service of one `syscall` evicts a word by a fetch, the others charge nothing. -/
def fetchingOther (a evicted : Word) : Word → Operands := fun addr =>
  if addr = a then { calm with service := [.fetch (evicted &&& 0x1FFFFFFF#32)] } else calm

theorem fetchingOther_self (a evicted : Word) :
    (fetchingOther a evicted a).service = [.fetch (evicted &&& 0x1FFFFFFF#32)] := by
  rw [fetchingOther, if_pos rfl]

theorem fetchingOther_other {a evicted addr : Word} (hOther : addr ≠ a) :
    fetchingOther a evicted addr = calm :=
  if_neg hOther

/-- The same word in another segment takes its place. -/
theorem not_hits_evicted {t : Timing} {a : Word} (hAligned : Aligned a)
    (hLo : 0x80000000 ≤ a.toNat) (hHi : a.toNat < 0x80200000) :
    ¬(TimingCall.run t [.fetch (a &&& 0x1FFFFFFF#32)]).icache.Hits a.toNat := by
  rw [aligned_iff] at hAligned
  have hLow : (a &&& 0x1FFFFFFF#32).toNat = a.toNat % 536870912 := by
    rw [BitVec.toNat_and, show (0x1FFFFFFF#32).toNat = 2 ^ 29 - 1 by simp,
      Nat.and_two_pow_sub_one_eq_mod]
  have hPlace : icacheIndex a.toNat = icacheIndex (a.toNat % 536870912) := by
    unfold icacheIndex
    omega
  rw [TimingCall.run_cons, TimingCall.run_nil, TimingCall.exec_fetch, hLow]
  have hHit := @hits_icacheFetch t (a.toNat % 536870912) (by omega) (by omega)
  exact hHit.other hPlace (by omega)

/-- Only the slot of a branch-likely may end a path with its role. -/
theorem RunsOn.roles {img : Image} {b : BasicBlock} {taken : Bool} {a : Word} {l : List Executed}
    (h : RunsOn img b taken a l) : l.IsChain fun e _ => e.role ≠ .likelySlot := by
  induction h with
  | stop => exact .nil
  | plain _ _ _ _ ih => exact ih.cons fun _ _ => by simp
  | exit =>
      cases hSlot : slotExecuted img b taken with
      | nil => exact .singleton _
      | cons e rest =>
          obtain ⟨hOnly, -⟩ := mem_slotExecuted (hSlot ▸ List.mem_cons_self)
          obtain ⟨-, rfl⟩ := List.cons.inj (hSlot.symm.trans hOnly)
          exact (List.IsChain.singleton e).cons fun _ _ => by simp

namespace BlockPath

variable {out : OutputConfig} {f : Function} {p : BlockPath out f} {env : Word → Operands}
  {e e' : Executed} {pre post : List Executed} {t : Timing}

/-- A first word of its line that the text does not fetch is the slot of a
branch-likely. -/
theorem likely_of_unfetched (hPoint : (out.context f).fetched p.block e = false)
    (hLine : e.addr.toNat % 16 = 0) : e.role = .likelySlot := by
  by_contra hRole
  rw [EmitContext.fetched, Bool.and_eq_false_iff] at hPoint
  rcases hPoint with hLikely | hInside
  · simp [hRole] at hLikely
  · exact inside_line hInside hLine

theorem head_fetched (hf : f.Valid) :
    ∀ e ∈ p.executed.head?, (out.context f).fetched p.block e = true := by
  intro e he
  obtain ⟨e₀, rest, hExecuted, hInterpreted⟩ := p.executed_cons hf
  obtain rfl : e₀ = e := by
    rw [hExecuted] at he
    exact Option.some.inj he
  have hRole : e₀.role ≠ .likelySlot := by
    intro hLikely
    rw [Executed.interpreted, hLikely] at hInterpreted
    cases hInterpreted
  rw [EmitContext.fetched, p.first_fetched hf e₀ he, Bool.and_true]
  simpa using hRole

/-- Words at the front of a path go together while the services in front of the last one
are silent. -/
theorem shelters_front (hf : f.Valid) (hSplit : p.executed = (pre ++ [e]) ++ e' :: post)
    (hSilent : ∀ x ∈ pre, TimingCall.fetches (env x.addr).service = false) :
    (pre ++ [e]).IsChain (Shelters (out.context f) p.block env) := by
  rw [List.isChain_iff_forall_rel_of_append_cons_cons]
  intro x x' l l' hFront
  have hWhole : p.executed = l ++ x :: x' :: (l' ++ e' :: post) := by
    rw [hSplit, hFront]
    simp
  have hMem : x ∈ pre := by
    have hDrop := congrArg List.dropLast hFront
    rw [List.dropLast_concat, List.dropLast_append_cons, List.dropLast_cons_cons] at hDrop
    rw [hDrop]
    simp
  have hNext := List.isChain_iff_forall_rel_of_append_cons_cons.mp (p.runs hf).chain hWhole
  refine ⟨hNext, ?_⟩
  cases hPoint : (out.context f).fetched p.block x' with
  | true => exact .inl rfl
  | false =>
      refine .inr ⟨fun hLine => ?_, fun _ => hSilent x hMem⟩
      -- another word follows, so this one is no slot of a branch-likely
      obtain ⟨y, ys, hBehind⟩ : ∃ y ys, l' ++ e' :: post = y :: ys := by
        cases l' with
        | nil => exact ⟨_, _, rfl⟩
        | cons y ys => exact ⟨_, _, rfl⟩
      have hWhole' : p.executed = (l ++ [x]) ++ x' :: y :: ys := by
        rw [hWhole, hBehind]
        simp
      have hRole := List.isChain_iff_forall_rel_of_append_cons_cons.mp (p.runs hf).roles hWhole'
      exact hRole (likely_of_unfetched hPoint hLine)

theorem run_front (hf : f.Valid) (hSplit : p.executed = pre ++ post)
    (hChain : pre.IsChain (Shelters (out.context f) p.block env)) :
    TimingCall.run t (pre.flatMap fun e =>
        (out.context f).emittedCalls .perInsn p.block (env e.addr) e) =
      TimingCall.run t (pre.flatMap fun e =>
        (out.context f).fetchedCalls p.block (env e.addr) e) := by
  have hFits := (p.runs hf).fits (p.entry_aligned hf)
  refine run_sheltered (fun e he => hFits e (hSplit ▸ List.mem_append_left _ he)) hChain ?_
  intro e he
  refine .inl (p.head_fetched hf e ?_)
  rw [hSplit, List.head?_append, he]
  rfl

/-- The two agree after every word, from every state. -/
def Same (p : BlockPath out f) : Prop :=
  ∀ env t n, p.emittedRun .perInsn env n t = p.fetchedRun env n t

/-- Where the two agree, a word that the text does not fetch is cached before it runs. -/
theorem Same.hits (hf : f.Valid) (hSame : p.Same) (env : Word → Operands) (t : Timing)
    (hSplit : p.executed = (pre ++ [e]) ++ e' :: post)
    (hPoint : (out.context f).fetched p.block e' = false)
    (hSilent : ∀ x ∈ pre, TimingCall.fetches (env x.addr).service = false)
    (hLast : TimingCall.fetches (env e'.addr).service = false) :
    (TimingCall.run t ((pre ++ [e]).flatMap fun e =>
      (out.context f).fetchedCalls p.block (env e.addr) e)).icache.Hits e'.addr.toNat := by
  by_contra hMiss
  have hMem : e' ∈ p.executed := hSplit ▸ List.mem_append_right _ List.mem_cons_self
  have hFit := (p.runs hf).fits (p.entry_aligned hf) e' hMem
  have hFront := p.run_front (t := t) hf hSplit (p.shelters_front hf hSplit hSilent)
  generalize pre ++ [e] = front at hSplit hFront hMiss
  have hRuns := hSame env t (front.length + 1)
  rw [emittedRun_perInsn, fetchedRun, take_of_split hSplit, List.flatMap_append,
    List.flatMap_append, TimingCall.run_append, TimingCall.run_append, List.flatMap_singleton,
    List.flatMap_singleton, hFront] at hRuns
  exact run_emittedCalls_ne hFit hPoint hMiss hLast hRuns

section Split

variable (hf : f.Valid) (hSame : p.Same) (hSplit : p.executed = pre ++ e :: e' :: post)
  (hPoint : (out.context f).fetched p.block e' = false)

include hf hSplit in
theorem below_of_split : ∀ x ∈ pre ++ [e], x.addr.toNat < e'.addr.toNat := by
  have hAscending := p.pairwise_executed hf
  rw [hSplit, List.append_cons, List.pairwise_append] at hAscending
  exact fun x hx => hAscending.2.2 x hx e' List.mem_cons_self

include hf hSame hSplit hPoint

/-- At the start of a line nothing has fetched the word. -/
theorem Same.inside : e'.addr.toNat % 16 ≠ 0 := by
  intro hLine
  have hMem : e' ∈ p.executed := hSplit ▸ by simp
  have hFit := (p.runs hf).fits (p.entry_aligned hf) e' hMem
  have hSplit' : p.executed = (pre ++ [e]) ++ e' :: post := hSplit.trans (List.append_cons ..)
  have hHit := hSame.hits hf (fun _ => calm) coldTiming hSplit' hPoint (fun _ _ => rfl) rfl
  have hCold : ¬coldTiming.icache.Hits e'.addr.toNat := Icache.not_hits_reset hFit.aligned
  have hLines : ∀ x ∈ pre ++ [e], x.addr.toNat / 16 ≠ e'.addr.toNat / 16 := by
    intro x hx
    have := below_of_split hf hSplit x hx
    omega
  have hSilent : ∀ a : Word, TimingCall.fetches ((fun _ => calm) a).service = false :=
    fun _ => rfl
  exact not_hits_words hSilent hLines hCold hHit

/-- Behind a `syscall` its service may have fetched into the place of the word. -/
theorem Same.not_syscall : Op.ofWord e.word ≠ .syscall := by
  intro hOp
  have hMem : e ∈ p.executed := hSplit ▸ by simp
  have hMem' : e' ∈ p.executed := hSplit ▸ by simp
  have hFits := (p.runs hf).fits (p.entry_aligned hf)
  have hRange := out.img.readWord_range (hFits e' hMem').read
  have hBelow := below_of_split hf hSplit
  have hSplit' : p.executed = (pre ++ [e]) ++ e' :: post := hSplit.trans (List.append_cons ..)
  have hApart : ∀ x ∈ pre, x.addr ≠ e.addr := by
    have hAscending := p.pairwise_executed hf
    rw [hSplit, List.pairwise_append] at hAscending
    intro x hx hEq
    have hLt := hAscending.2.2 x hx e List.mem_cons_self
    rw [hEq] at hLt
    omega
  have hOther : e'.addr ≠ e.addr := by
    intro hEq
    have hLt := hBelow e (by simp)
    rw [hEq] at hLt
    omega
  have hHit := hSame.hits hf (fetchingOther e.addr e'.addr) coldTiming hSplit' hPoint
    (fun x hx => by rw [fetchingOther_other (hApart x hx)]; rfl)
    (by rw [fetchingOther_other hOther]; rfl)
  have hWord : (out.context f).wordCalls (fetchingOther e.addr e'.addr e.addr) e.addr e.word =
      [.fetch (e'.addr &&& 0x1FFFFFFF#32)] := by
    rw [EmitContext.wordCalls_eq, ← fetchingOther_self e.addr e'.addr]
    simp only [translatedCalls, hOp]
  have hService : (out.context f).unfetchedCalls p.block (fetchingOther e.addr e'.addr e.addr) e =
      preTiming e.word ++ [.fetch (e'.addr &&& 0x1FFFFFFF#32)] := by
    have hRole := List.isChain_iff_forall_rel_of_append_cons_cons.mp (p.runs hf).roles hSplit
    cases hIs : e.role with
    | plain => simp only [EmitContext.unfetchedCalls, hIs, hWord]
    | slot => simp only [EmitContext.unfetchedCalls, hIs, hWord]
    | likelySlot => exact absurd hIs hRole
    | exit =>
        have hFlow := ((hFits e hMem).exit hIs).1
        rw [isControlFlow, hOp] at hFlow
        cases hFlow
  rw [List.flatMap_append, TimingCall.run_append, List.flatMap_singleton,
    EmitContext.fetchedCalls, hService, ← List.cons_append, TimingCall.run_append] at hHit
  exact not_hits_evicted (hFits e' hMem').aligned hRange.1 hRange.2 hHit

end Split

/-- The fetches of the text are as good as one for every word if and only if the words
of the path are sheltered. -/
theorem same_iff_sheltered (hf : f.Valid) : p.Same ↔ p.Sheltered := by
  constructor
  · intro hSame
    rw [Sheltered, List.isChain_iff_forall_rel_of_append_cons_cons]
    intro e e' pre post hSplit
    cases hPoint : (out.context f).fetched p.block e' with
    | true => exact .inl rfl
    | false => exact .inr ⟨hSame.inside hf hSplit hPoint, hSame.not_syscall hf hSplit hPoint⟩
  · intro hSheltered env t n
    have hChain : p.executed.IsChain (Shelters (out.context f) p.block env) := by
      rw [List.isChain_iff_forall_rel_of_append_cons_cons]
      intro e e' l l' hSplit
      have hNext := List.isChain_iff_forall_rel_of_append_cons_cons.mp (p.runs hf).chain hSplit
      have hLine := List.isChain_iff_forall_rel_of_append_cons_cons.mp hSheltered hSplit
      exact ⟨hNext, hLine.imp_right fun h => ⟨h.1, fun hOp => absurd hOp h.2⟩⟩
    rw [emittedRun_perInsn, fetchedRun]
    exact p.run_front hf (List.take_append_drop n p.executed).symm (hChain.take n)

/-- One fetch for every word is the interpreter's run of the words that are charged
alike, so a sheltered path leaves what `exec_one` leaves on them. -/
theorem fetchedRun_eq_interpretedRun (hf : f.Valid) (hWords : ∀ e ∈ p.executed, e.Charged)
    (env : Word → Operands) (n : Nat) (t : Timing) :
    p.fetchedRun env n t = p.interpretedRun env n t := by
  have hFits := (p.runs hf).fits (p.entry_aligned hf)
  rw [fetchedRun, interpretedRun]
  generalize hTake : p.executed.take n = l
  have hMem : ∀ e ∈ l, e ∈ p.executed := fun e he => List.mem_of_mem_take (hTake ▸ he)
  clear hTake
  induction l generalizing t with
  | nil => rfl
  | cons e l ih =>
      obtain ⟨hThis, hRest⟩ := List.forall_mem_cons.mp hMem
      rw [List.flatMap_cons, List.flatMap_cons, TimingCall.run_append, TimingCall.run_append,
        (hWords e hThis).run_fetchedCalls (hFits e hThis)]
      exact ih _ hRest

end BlockPath

namespace Piece

variable {out : OutputConfig} {S : Set (GamePath out)}

/-- A piece along a sheltered path takes the same state to the same state. -/
theorem emitted_eq_fetched (hSheltered : ∀ p ∈ S, p.path.Sheltered) {piece : Piece out}
    (hWithin : piece.Within S) (t : Timing) : piece.emitted t = piece.fetched t := by
  cases piece with
  | words p env n => exact (p.path.same_iff_sheltered p.valid).mpr (hSheltered p hWithin) env t n
  | other calls => rfl

end Piece

/-- In every execution along some paths, from every state, the text leaves the cycles, the
give-backs and the tags that one fetch for every word leaves, after each word, if and only
if each of the paths is sheltered. -/
theorem fetches_suffice_iff (out : OutputConfig) (S : Set (GamePath out)) :
    (∀ (pieces : List (Piece out)), (∀ piece ∈ pieces, piece.Within S) →
      ∀ t : Timing, pieces.foldl Piece.emitted t = pieces.foldl Piece.fetched t) ↔
      ∀ p ∈ S, p.path.Sheltered := by
  constructor
  · intro hSame p hp
    refine (p.path.same_iff_sheltered p.valid).mp fun env t n => ?_
    exact hSame [.words p env n] (List.forall_mem_singleton.mpr hp) t
  · intro hSheltered pieces
    induction pieces with
    | nil => exact fun _ _ => rfl
    | cons piece pieces ih =>
        intro hWithin t
        obtain ⟨hPiece, hPieces⟩ := List.forall_mem_cons.mp hWithin
        rw [List.foldl_cons, List.foldl_cons, Piece.emitted_eq_fetched hSheltered hPiece]
        exact ih hPieces _

/-- `syscall`, and `jr $ra` behind it in the same line. -/
def serviceImage : Image where
  loadAddress := 0x80010000#32
  codeData := [0x0C, 0x00, 0x00, 0x00, 0x08, 0x00, 0xE0, 0x03, 0x00, 0x00, 0x00, 0x00]
  load_kseg0 := Image.text_kseg0
  end_in_ram := by decide

def serviceFunction : Function := ⟨0x80010000#32, 0x8001000C#32, false, 0, []⟩

theorem serviceFunction_valid : serviceFunction.Valid :=
  ⟨by decide, by decide, by decide, by decide, by decide, fun _ hMem => by cases hMem⟩

def servicePath : BlockPath ⟨serviceImage, .none, fun _ => false⟩ serviceFunction where
  block := (analyzeFunction serviceImage serviceFunction).blocks.head (by decide)
  entry := 0x80010000#32
  taken := false
  mem_blocks := List.head_mem _
  written := by decide
  labelled := .inl (by decide)

/-- The `jr` is not fetched behind the service, which may have evicted it. -/
theorem service_unfetched :
    ¬∀ (out : OutputConfig) (pieces : List (Piece out)) (t : Timing),
      pieces.foldl Piece.emitted t = pieces.foldl Piece.fetched t := by
  intro hAll
  have hSame : servicePath.Same := fun env t n =>
    hAll _ [.words ⟨serviceFunction, serviceFunction_valid, servicePath⟩ env n] t
  have hExecuted : servicePath.executed = [] ++ ⟨0x80010000#32, 0x0000000C#32, .plain⟩ ::
      ⟨0x80010004#32, 0x03E00008#32, .exit⟩ :: [⟨0x80010008#32, 0x00000000#32, .slot⟩] := by
    decide
  exact hSame.not_syscall serviceFunction_valid hExecuted (by decide) (by decide)

end RecompStudio.CodeGen
