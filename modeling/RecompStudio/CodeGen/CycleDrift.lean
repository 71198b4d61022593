import RecompStudio.CodeGen.CycleCount

/-!
Where the text of a path and the interpreter charge different cycles: at the first
word whose calls differ, at a word that is not fetched again behind a `syscall`, and on
every path where the text charges at the head of the block.
-/

namespace RecompStudio.CodeGen

open RecompStudio.Insn
open RecompStudio.Runtime

/-- Every access goes to the address zero, and no service charges anything. -/
def calm : Operands := ⟨0, 0, true, []⟩

section Words

variable {ctx : EmitContext} {b : BasicBlock} {e : Executed} {t : Timing} {w : Word}

/-- A word whose body and whose translation cost the same is charged alike. -/
theorem same_cost (hSame : (TimingCall.run t (translatedCalls calm w)).cycleCount =
      (TimingCall.run t (execOneBody calm w)).cycleCount) :
    ¬((Op.ofWord w = .lwl ∨ Op.ofWord w = .lwr) ∧ rt w = 0) ∧ Op.ofWord w ≠ .lwc1 := by
  have hLoad : ∀ size, t.cycleCount < ((loadCall 0 size w).exec t).cycleCount :=
    fun size => cycLoad_costs size _ _
  have hZero : (0 &&& 0x1FFFFFFF#32 : Word).toNat < 0x1F800000 := by decide
  have hCop : t.cycleCount + 1 ≤ (t.cycReadmem _ 4 1 0x20).cycleCount := cycReadmem_costs hZero
  constructor
  · rintro ⟨hOp | hOp, hRt⟩
    · simp only [translatedCalls, execOneBody, hOp, if_pos hRt] at hSame
      exact absurd hSame (hLoad 4).ne
    · simp only [translatedCalls, execOneBody, hOp, if_pos hRt] at hSame
      exact absurd hSame (hLoad 4).ne
  · intro hOp
    simp only [translatedCalls, execOneBody, hOp] at hSame
    exact absurd hSame (Nat.ne_of_lt hCop)

/-- The text does not fetch where it charges at the head of the block. -/
theorem fetches_upFront :
    TimingCall.fetches (ctx.emittedCalls .upFront b calm e) = false := by
  have hWord : TimingCall.fetches (ctx.wordCalls calm e.addr e.word) = false := by
    rw [EmitContext.wordCalls_eq]
    exact fetches_translatedCalls fun _ => rfl
  unfold EmitContext.emittedCalls
  cases e.role with
  | exit => rfl
  | plain | slot | likelySlot => exact hWord

/-- The word behind some words in a row that are charged alike is fetched, or it hits. -/
theorem next_covered {env : Word → Operands} {pre post : List Executed}
    (hFits : ∀ e ∈ pre, e.Fits ctx.img b) (hCharged : ∀ e ∈ pre, e.Charged)
    (hChain : (pre ++ e :: post).IsChain (Follows ctx b env))
    (hFirst : ∀ e' ∈ (pre ++ e :: post).head?,
      ctx.fetchPoint b e'.addr = true ∨ t.icache.Hits e'.addr.toNat) :
    ctx.fetchPoint b e.addr = true ∨
      (TimingCall.run t (pre.flatMap fun e => e.interpreterCalls (env e.addr))).icache.Hits
        e.addr.toNat := by
  induction pre generalizing t with
  | nil => exact hFirst e rfl
  | cons e' pre ih =>
      obtain ⟨hFit, hFits⟩ := List.forall_mem_cons.mp hFits
      obtain ⟨hThis, hCharged⟩ := List.forall_mem_cons.mp hCharged
      rw [List.flatMap_cons, TimingCall.run_append]
      refine ih hFits hCharged hChain.tail fun e'' he'' => ?_
      exact (hChain.rel_head? he'').covered hThis.interpreted hFit

/-- The interpreter fetches a word where it is no longer cached, and the text does not. -/
theorem Executed.Charged.drifts (hCharged : e.Charged) (hFits : e.Fits ctx.img b)
    (hSettled : Settled t e.addr.toNat) (hPoint : ctx.fetchPoint b e.addr = false) :
    (TimingCall.run t (ctx.emittedCalls .perInsn b calm e)).cycleCount <
      (TimingCall.run t (e.interpreterCalls calm)).cycleCount := by
  have hRange := ctx.img.readWord_range hFits.read
  have hSilent : TimingCall.run t (ctx.preIcache b e.addr) = t := by
    rw [EmitContext.preIcache, hPoint, if_neg Bool.false_ne_true, TimingCall.run_nil]
  have hLater := TimingCall.later_run (hSettled.later (by omega))
    (fetches_word (o := calm) (e := e) fun _ => rfl)
  rw [Executed.run_emitted hCharged.interpreted hFits, hSilent, ← hCharged.body_eq,
    Executed.run_interpreter hCharged.interpreted, hLater.count]
  omega

/-- The service of one `syscall` evicts a word, the others charge nothing. -/
def evicting (a evicted : Word) : Word → Operands := fun addr =>
  if addr = a then { calm with service := evictingService evicted } else calm

theorem evicting_self (a evicted : Word) :
    (evicting a evicted a).service = evictingService evicted := by
  rw [evicting, if_pos rfl]

theorem evicting_other {a evicted addr : Word} (hOther : addr ≠ a) :
    evicting a evicted addr = calm :=
  if_neg hOther

/-- What the interpreter leaves behind the `syscall`. -/
theorem settled_behind {pre : List Executed} {a : Word} (hInterpreted : e.interpreted = true)
    (hOp : Op.ofWord e.word = .syscall) (hAligned : Aligned a) (hLo : 0x80000000 ≤ a.toNat)
    (hHi : a.toNat < 0x80200000) :
    Settled (TimingCall.run coldTiming ((pre ++ [e]).flatMap fun x =>
      x.interpreterCalls (evicting e.addr a x.addr))) a.toNat := by
  have hBody : execOneBody (evicting e.addr a e.addr) e.word = evictingService a := by
    rw [← evicting_self e.addr a]
    simp only [execOneBody, hOp]
  have hLast : e.interpreterCalls (evicting e.addr a e.addr) =
      (.fetch e.addr :: preTiming e.word) ++ evictingService a := by
    rw [Executed.interpreterCalls, if_pos hInterpreted, execOneCalls, hBody, List.cons_append]
  rw [List.flatMap_append, List.flatMap_singleton, hLast, ← List.append_assoc,
    TimingCall.run_append]
  have hAdvances := Advances.run coldTiming
    ((pre.flatMap fun x => x.interpreterCalls (evicting e.addr a x.addr)) ++
      .fetch e.addr :: preTiming e.word)
  refine settled_service hAligned hLo hHi ?_ ?_
  · exact hAdvances.muldiv.trans (max_le (Nat.zero_le _) le_rfl)
  · exact hAdvances.gte.trans (max_le (Nat.zero_le _) le_rfl)

end Words

namespace BlockPath

variable {out : OutputConfig} {f : Function} {p : BlockPath out f} {e e' : Executed}
  {pre post : List Executed}

theorem take_of_split (hSplit : p.executed = pre ++ e :: post) :
    p.executed.take (pre.length + 1) = pre ++ [e] := by
  rw [hSplit, List.take_append, List.take_of_length_le (by omega)]
  simp

theorem follows_of_services (hf : f.Valid) {env : Word → Operands}
    (hSilent : ∀ a, TimingCall.fetches (env a).service = false) :
    p.executed.IsChain (Follows (out.context f) p.block env) :=
  (p.runs hf).chain.imp fun _ _ hNext => ⟨hNext, fun _ => .inr (hSilent _)⟩

/-- Behind some words that are charged alike, the next one costs the same. -/
theorem ChargedAlike.cycles_of_split (hAlike : p.ChargedAlike .perInsn)
    (hSplit : p.executed = pre ++ e :: post) {env : Word → Operands}
    (hSame : TimingCall.run coldTiming
        (pre.flatMap fun e => (out.context f).emittedCalls .perInsn p.block (env e.addr) e) =
      TimingCall.run coldTiming (pre.flatMap fun e => e.interpreterCalls (env e.addr))) :
    let behind := TimingCall.run coldTiming (pre.flatMap fun e => e.interpreterCalls (env e.addr))
    (TimingCall.run behind
        ((out.context f).emittedCalls .perInsn p.block (env e.addr) e)).cycleCount =
      (TimingCall.run behind (e.interpreterCalls (env e.addr))).cycleCount := by
  have hCycles := hAlike.cycles env coldTiming (pre.length + 1) (.inl rfl)
  rw [emittedRun_perInsn, interpretedRun, take_of_split hSplit, List.flatMap_append,
    List.flatMap_append, TimingCall.run_append, TimingCall.run_append, List.flatMap_singleton,
    List.flatMap_singleton, hSame] at hCycles
  exact hCycles

/-- The first word that is not charged alike would show in the cycles. -/
theorem ChargedAlike.next (hf : f.Valid) (hAlike : p.ChargedAlike .perInsn)
    (hSplit : p.executed = pre ++ e :: post) (hPre : ∀ e ∈ pre, e.Charged) : e.Charged := by
  have hMem : e ∈ p.executed := hSplit ▸ List.mem_append_right pre List.mem_cons_self
  have hBefore : ∀ e ∈ pre, e ∈ p.executed := fun e he => hSplit ▸ List.mem_append_left _ he
  have hFits := (p.runs hf).fits (p.entry_aligned hf)
  have hInterpreted := hAlike.interpreted e hMem
  have hFollows := @BlockPath.follows_of_services _ _ p hf (fun _ => calm) fun _ => rfl
  have hFirst := p.first_fetched hf
  rw [hSplit] at hFollows hFirst
  have hSame := @run_words (out.context f) _ coldTiming (fun _ => calm) _
    (fun e he => hFits e (hBefore e he)) hPre hFollows.left_of_append fun e he =>
      .inl (hFirst e (by rw [List.head?_append, he]; rfl))
  have hCovered := next_covered (t := coldTiming) (fun e he => hFits e (hBefore e he)) hPre hFollows
    fun e he => .inl (hFirst e he)
  have hCycles :=
    @BlockPath.ChargedAlike.cycles_of_split _ _ _ _ _ _ hAlike hSplit (fun _ => calm) hSame
  dsimp only at hCycles
  generalize TimingCall.run coldTiming (pre.flatMap fun e => e.interpreterCalls calm) = u
    at hCovered hCycles
  rw [Executed.run_emitted hInterpreted (hFits e hMem), run_preIcache hCovered,
    Executed.run_interpreter hInterpreted, TimingCall.run_append, TimingCall.run_append] at hCycles
  obtain ⟨hKept, hNoLwc1⟩ := same_cost hCycles
  exact ⟨hInterpreted, hKept, hNoLwc1⟩

theorem ChargedAlike.words (hf : f.Valid) (hAlike : p.ChargedAlike .perInsn) :
    ∀ e ∈ p.executed, e.Charged := by
  have hPrefix : ∀ pre post, p.executed = pre ++ post → ∀ e ∈ pre, e.Charged := by
    intro pre
    induction pre using List.reverseRecOn with
    | nil => exact fun _ _ e he => absurd he List.not_mem_nil
    | append_singleton pre e ih =>
        intro post hSplit
        have hSplit' : p.executed = pre ++ e :: post := by
          rw [hSplit, List.append_assoc, List.singleton_append]
        have hPre := ih (e :: post) hSplit'
        intro e' he'
        rcases List.mem_append.mp he' with hOld | hNew
        · exact hPre e' hOld
        · rw [List.mem_singleton.mp hNew]
          exact hAlike.next hf hSplit' hPre
  exact hPrefix p.executed [] (List.append_nil _).symm

/-- Up to the `syscall` of the loud service every service is silent. -/
theorem follows_evicting (hf : f.Valid) {a : Word} (hSplit : p.executed = pre ++ e :: post) :
    (pre ++ [e]).IsChain (Follows (out.context f) p.block (evicting e.addr a)) := by
  have hSplit' : p.executed = (pre ++ [e]) ++ post := by
    rw [hSplit, List.append_assoc, List.singleton_append]
  have hFits := (p.runs hf).fits (p.entry_aligned hf)
  have hNext := (p.runs hf).chain
  have hAscending := p.pairwise_executed hf
  rw [hSplit'] at hFits hNext hAscending
  have hLast : ∀ x ∈ pre ++ [e], x.addr.toNat ≤ e.addr.toNat := by
    intro x hx
    have hBelow := (List.pairwise_append.mp (List.pairwise_append.mp hAscending).1).2.2
    rcases List.mem_append.mp hx with hOld | hNew
    · exact (hBelow x hOld e (List.mem_singleton_self e)).le
    · rw [List.mem_singleton.mp hNew]
  refine hNext.left_of_append.imp_of_mem_imp fun x y hx hy hNext => ⟨hNext, fun _ => .inr ?_⟩
  have hRange := out.img.readWord_range (hFits x (List.mem_append_left _ hx)).read
  have hSucc : y.addr.toNat = x.addr.toNat + 4 := by
    rw [hNext, BitVec.toNat_add, BitVec.toNat_ofNat]
    omega
  have hOther : x.addr ≠ e.addr := by
    intro hSame
    have := hLast y hy
    rw [← hSame] at this
    omega
  rw [evicting_other hOther]
  rfl

/-- The interpreter fetches a word that a service has evicted. -/
theorem ChargedAlike.lines (hf : f.Valid) (hAlike : p.ChargedAlike .perInsn)
    (hWords : ∀ e ∈ p.executed, e.Charged) :
    p.executed.IsChain fun e e' =>
      Op.ofWord e.word = .syscall → (out.context f).fetchPoint p.block e'.addr = true := by
  rw [List.isChain_iff_forall_rel_of_append_cons_cons]
  intro e e' pre post hSplit hOp
  by_contra hPoint
  rw [Bool.not_eq_true] at hPoint
  have hSplit' : p.executed = (pre ++ [e]) ++ e' :: post := by
    rw [hSplit, List.append_assoc, List.singleton_append]
  have hMem : ∀ x ∈ pre ++ [e], x ∈ p.executed := fun x hx =>
    hSplit' ▸ List.mem_append_left _ hx
  have hMem' : e' ∈ p.executed := hSplit' ▸ List.mem_append_right _ List.mem_cons_self
  have hFits := (p.runs hf).fits (p.entry_aligned hf)
  have hRange := out.img.readWord_range (hFits e' hMem').read
  have hCalm : evicting e.addr e'.addr e'.addr = calm := by
    have hAscending := p.pairwise_executed hf
    rw [hSplit', List.pairwise_append] at hAscending
    have hBelow := hAscending.2.2 e (List.mem_append_right _ (List.mem_singleton_self e)) e'
      List.mem_cons_self
    refine evicting_other fun hSame => ?_
    rw [hSame] at hBelow
    omega
  have hFirst := p.first_fetched hf
  have hSame := @run_words (out.context f) _ coldTiming _ _
    (fun x hx => hFits x (hMem x hx)) (fun x hx => hWords x (hMem x hx))
    (p.follows_evicting (a := e'.addr) hf hSplit) fun x hx =>
      .inl (hFirst x (by rw [hSplit', List.head?_append, hx]; rfl))
  have hInterpreted := (hWords e (hMem e (List.mem_append_right _ List.mem_cons_self))).interpreted
  have hSettled := @settled_behind _ pre _ hInterpreted hOp (hFits e' hMem').aligned hRange.1
    hRange.2
  have hDrifts :=
    @Executed.Charged.drifts (out.context f) _ _ _ (hWords e' hMem') (hFits e' hMem') hSettled
    hPoint
  have hCycles := hAlike.cycles_of_split hSplit' hSame
  dsimp only at hCycles
  rw [hCalm] at hCycles
  exact hDrifts.ne hCycles

/-- Charged word by word, a path is charged as the interpreter charges it if and only
if it is clean. -/
theorem chargedAlike_iff_clean (hf : f.Valid) : p.ChargedAlike .perInsn ↔ p.Clean := by
  constructor
  · intro hAlike
    have hWords := hAlike.words hf
    exact ⟨hWords, hAlike.lines hf hWords⟩
  · exact fun hClean => hClean.chargedAlike hf

/-- Charged at the head of the block, a path costs the same whether its first word is
cached or not, and the interpreter waits for the word. -/
theorem not_chargedAlike_upFront (hf : f.Valid) : ¬p.ChargedAlike .upFront := by
  intro hAlike
  obtain ⟨e, rest, hExecuted, hInterpreted⟩ := p.executed_cons hf
  have hFit := (p.runs hf).fits (p.entry_aligned hf) e (hExecuted ▸ List.mem_cons_self)
  have hRange := out.img.readWord_range hFit.read
  have hSettled : Settled coldTiming e.addr.toNat :=
    ⟨Icache.not_hits_reset hFit.aligned, rfl, rfl, le_rfl, le_rfl⟩
  have hLater := hSettled.later (by omega)
  have hWarm : (coldTiming.icacheFetch e.addr.toNat).icacheFetch e.addr.toNat =
      coldTiming.icacheFetch e.addr.toNat :=
    if_pos (hits_icacheFetch hFit.aligned (by omega))
  have hInterpreter : p.interpretedRun (fun _ => calm) p.executed.length
        (coldTiming.icacheFetch e.addr.toNat) =
      p.interpretedRun (fun _ => calm) p.executed.length coldTiming := by
    unfold interpretedRun
    rw [List.take_length, hExecuted, List.flatMap_cons, TimingCall.run_append,
      TimingCall.run_append, Executed.run_interpreter hInterpreted,
      Executed.run_interpreter hInterpreted, hWarm]
  have hNoFetch : TimingCall.fetches (p.entryCharge .upFront ++ (p.executed.take
      p.executed.length).flatMap fun e =>
        (out.context f).emittedCalls .upFront p.block calm e) = false := by
    have hCharge : TimingCall.fetches (p.entryCharge .upFront) = false := by
      unfold entryCharge headCharge midBlockCharge
      split_ifs <;> rfl
    rw [TimingCall.fetches_append, hCharge, Bool.false_or, TimingCall.fetches, List.any_flatMap,
      List.any_eq_false]
    intro e _
    rw [Bool.not_eq_true]
    exact fetches_upFront
  have hText := (TimingCall.later_run hLater hNoFetch).count
  have hCold := hAlike.cycles (fun _ => calm) coldTiming _ (.inr rfl)
  have hHot := hAlike.cycles (fun _ => calm) (coldTiming.icacheFetch e.addr.toNat) _ (.inr rfl)
  rw [hInterpreter, ← hCold] at hHot
  simp only [emittedRun] at hHot
  omega

end BlockPath

/-- A path is charged as the interpreter charges it if and only if every word of it is
charged at its own site and the path is clean. What is charged at the head instead is the
base cost of the words that run where the delay slot is counted rightly. -/
theorem blockCharge_iff {out : OutputConfig} {f : Function} (hf : f.Valid) (p : BlockPath out f) :
    (p.ChargedAlike .perInsn ↔ p.Clean) ∧ ¬p.ChargedAlike .upFront ∧
      (p.upFrontCycles = p.baseCycles ↔ p.SlotCounted) :=
  ⟨p.chargedAlike_iff_clean hf, p.not_chargedAlike_upFront hf, p.upFrontCycles_iff hf⟩

/-- From the label of a jump table inside a block to the `jr` at its end, with its slot. -/
def tablePath : BlockPath (tableOutput 0x08) tableFunction where
  block := (analyzeFunction (tableImage 0x08) tableFunction).blocks.head (by decide)
  entry := 0x80010008#32
  taken := false
  mem_blocks := List.head_mem _
  written := by decide
  labelled := .inr (by decide)

theorem blockCharge_iff_table :
    tablePath.executed = [⟨0x80010008#32, 0x00441821#32, .plain⟩,
      ⟨0x8001000C#32, 0x8C650018#32, .plain⟩, ⟨0x80010010#32, 0x00A00008#32, .exit⟩,
      ⟨0x80010014#32, 0x00000000#32, .slot⟩] ∧
    tablePath.ChargedAlike .perInsn ∧ ¬tablePath.ChargedAlike .upFront ∧
    tablePath.upFrontCycles = tablePath.baseCycles := by
  have hExecuted : tablePath.executed = [⟨0x80010008#32, 0x00441821#32, .plain⟩,
      ⟨0x8001000C#32, 0x8C650018#32, .plain⟩, ⟨0x80010010#32, 0x00A00008#32, .exit⟩,
      ⟨0x80010014#32, 0x00000000#32, .slot⟩] := by
    decide
  have hClean : tablePath.Clean := by
    constructor
    · rw [hExecuted]
      have hCharged : ∀ e : Executed, e.interpreted = true → Op.ofWord e.word ≠ .lwl →
          Op.ofWord e.word ≠ .lwr → Op.ofWord e.word ≠ .lwc1 → e.Charged :=
        fun e hRuns hLeft hRight hCop => ⟨hRuns, fun h => h.1.elim hLeft hRight, hCop⟩
      simp only [List.forall_mem_cons, List.not_mem_nil, false_imp_iff, implies_true, and_true]
      refine ⟨?_, ?_, ?_, ?_⟩ <;> exact hCharged _ (by decide) (by decide) (by decide) (by decide)
    · rw [hExecuted]
      simp only [List.isChain_cons_cons, List.isChain_singleton, and_true]
      exact ⟨fun h => absurd h (by decide), fun h => absurd h (by decide),
        fun h => absurd h (by decide)⟩
  have hCounted : tablePath.SlotCounted := by
    unfold BlockPath.SlotCounted
    decide
  obtain ⟨hPerInsn, hUpFront, hBase⟩ := blockCharge_iff tableFunction_valid tablePath
  exact ⟨hExecuted, hPerInsn.mpr hClean, hUpFront, hBase.mpr hCounted⟩

/-- `lwl $0, 0($0)`. -/
def droppedImage : Image where
  loadAddress := 0x80010000#32
  codeData := [0x00, 0x00, 0x00, 0x88]
  load_kseg0 := Image.text_kseg0
  end_in_ram := by decide

def droppedOutput : OutputConfig := ⟨droppedImage, .none, fun _ => false⟩

def droppedPath : BlockPath droppedOutput stepFunction where
  block := (analyzeFunction droppedImage stepFunction).blocks.head (by decide)
  entry := 0x80010000#32
  taken := false
  mem_blocks := List.head_mem _
  written := by decide
  labelled := .inl (by decide)

/-- The text leaves the load out, and the interpreter waits for it. -/
theorem droppedLoad_uncharged :
    ¬∀ (out : OutputConfig) (f : Function) (p : BlockPath out f), f.Valid →
      p.ChargedAlike .perInsn := by
  intro hAll
  have hClean := (hAll _ _ droppedPath stepFunction_valid).words stepFunction_valid
  have hExecuted : droppedPath.executed = [⟨0x80010000#32, 0x88000000#32, .plain⟩] := by
    decide
  rw [hExecuted] at hClean
  have hCharged := hClean _ List.mem_cons_self
  exact hCharged.not_dropped ⟨.inl (by decide), by decide⟩

end RecompStudio.CodeGen
