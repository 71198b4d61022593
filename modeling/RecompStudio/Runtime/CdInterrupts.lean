import RecompStudio.Library.Machine
import RecompStudio.Runtime.Cdrom

/-!
The interrupts of the CD-ROM controller over whole runs: none is set over one
that is not acknowledged, each is raised once and not before its delay, and the
last command that was written behind one is executed when it is acknowledged.
-/

namespace RecompStudio.Runtime

open Machine

/-- The generations that have been raised. -/
@[grind =] def raises (trace : List CdTrace) : List Nat :=
  trace.filterMap fun
    | .raise generation _ => some generation
    | _ => none

/-- The commands that have been executed. -/
@[grind =] def execs (trace : List CdTrace) : List QueuedCmd :=
  trace.filterMap fun
    | .exec cmd params => some ⟨cmd, params⟩
    | _ => none

@[simp] theorem raises_append (a b : List CdTrace) : raises (a ++ b) = raises a ++ raises b :=
  List.filterMap_append

@[simp] theorem execs_append (a b : List CdTrace) : execs (a ++ b) = execs a ++ execs b :=
  List.filterMap_append

/-- What the trace says about the interrupt that is shown. -/
structure CdOrder (s : Cdrom) : Prop where
  small : s.irqFlag.toNat < 8
  clear : ∀ before type, CdTrace.irq before type ∈ s.trace → before = 0
  waited : ∀ generation age, CdTrace.raise generation age ∈ s.trace → 5000 ≤ age
  bounded : ∀ g ∈ raises s.trace, g ≤ s.generation
  once : (raises s.trace).Nodup
  latch : s.irqFlag ≠ 0 → (s.latched = true ↔ s.generation ∈ raises s.trace)
  delay : s.irqFlag ≠ 0 → s.presentDelay = max 0 (5000 - (s.age : Int))

/-- A command and its parameters do not touch the interrupt that is shown. -/
structure SameIrq (s t : Cdrom) : Prop where
  flag : t.irqFlag = s.irqFlag
  latched : t.latched = s.latched
  generation : t.generation = s.generation
  presentDelay : t.presentDelay = s.presentDelay
  age : t.age = s.age
  trace : ∃ cmds : List QueuedCmd, t.trace = s.trace ++ cmds.map fun q => .exec q.cmd q.params

section Order

variable {s t : Cdrom}

theorem SameIrq.ofTrace (hFlag : t.irqFlag = s.irqFlag) (hLatched : t.latched = s.latched)
    (hGeneration : t.generation = s.generation) (hDelay : t.presentDelay = s.presentDelay)
    (hAge : t.age = s.age) (hTrace : t.trace = s.trace) : SameIrq s t :=
  ⟨hFlag, hLatched, hGeneration, hDelay, hAge, [], by simp [hTrace]⟩

theorem CdOrder.congr (h : CdOrder s) (hSame : SameIrq s t) : CdOrder t := by
  obtain ⟨hFlag, hLatched, hGeneration, hDelay, hAge, cmds, hTrace⟩ := hSame
  have hRaises : raises t.trace = raises s.trace := by
    rw [hTrace, raises_append]
    simp [raises]
  refine ⟨hFlag ▸ h.small, fun before type hMem => ?_, fun generation age hMem => ?_,
    ?_, ?_, ?_, ?_⟩
  · rw [hTrace] at hMem
    exact h.clear before type (by simpa using hMem)
  · rw [hTrace] at hMem
    exact h.waited generation age (by simpa using hMem)
  · rw [hRaises, hGeneration]
    exact h.bounded
  · rw [hRaises]
    exact h.once
  · rw [hFlag, hLatched, hGeneration, hRaises]
    exact h.latch
  · rw [hFlag, hDelay, hAge]
    exact h.delay

theorem code_ne_zero (type : CdIrq) : type.code ≠ 0 := by
  cases type <;> decide

theorem code_small (type : CdIrq) : type.code.toNat < 8 := by
  cases type <;> decide

/-- An interrupt that is set while none is shown. -/
theorem CdOrder.setIrq (h : CdOrder s) (hClear : s.irqFlag = 0) (type : CdIrq) :
    CdOrder (s.setIrq type) := by
  have hRaises : raises (s.setIrq type).trace = raises s.trace := by
    simp [Cdrom.setIrq, raises]
  refine ⟨code_small type, fun before type' hMem => ?_, fun generation age hMem => ?_, ?_, ?_,
    fun _ => ?_, fun _ => ?_⟩
  · simp only [Cdrom.setIrq, List.mem_append, List.mem_singleton, CdTrace.irq.injEq] at hMem
    rcases hMem with hOld | ⟨rfl, -⟩
    · exact h.clear before type' hOld
    · exact hClear
  · simp only [Cdrom.setIrq, List.mem_append, List.mem_singleton, reduceCtorEq, or_false] at hMem
    exact h.waited generation age hMem
  · intro g hg
    rw [hRaises] at hg
    exact (h.bounded g hg).trans (Nat.le_succ _)
  · rw [hRaises]
    exact h.once
  · rw [hRaises]
    refine iff_of_false (by simp [Cdrom.setIrq]) fun hMem => ?_
    exact absurd (h.bounded _ hMem) (Nat.not_succ_le_self _)
  · rfl

/-- The presentation raises the interrupt that is shown, if it was not raised and
its delay is over. -/
theorem CdOrder.present (h : CdOrder s) : CdOrder s.present := by
  unfold Cdrom.present
  split
  · exact h
  · rename_i hDelay
    split
    · rename_i hShown
      obtain ⟨hFlag, -, hLatched⟩ := hShown
      have hNew : s.generation ∉ raises s.trace := by
        rw [← h.latch hFlag]
        simpa using hLatched
      have hAge : 5000 ≤ s.age := by
        have hIs := h.delay hFlag
        omega
      have hRaises : raises (s.trace ++ [CdTrace.raise s.generation s.age]) =
          raises s.trace ++ [s.generation] := by
        simp [raises]
      refine ⟨h.small, fun before type hMem => ?_, fun generation age hMem => ?_,
        fun g hg => ?_, ?_,
        fun _ => ?_, h.delay⟩
      · simp only [List.mem_append, List.mem_singleton, reduceCtorEq, or_false] at hMem
        exact h.clear before type hMem
      · simp only [List.mem_append, List.mem_singleton, CdTrace.raise.injEq] at hMem
        rcases hMem with hOld | ⟨-, rfl⟩
        · exact h.waited generation age hOld
        · exact hAge
      · rw [hRaises] at hg
        rcases List.mem_append.mp hg with hOld | hNow
        · exact h.bounded g hOld
        · exact (List.mem_singleton.mp hNow).le
      · rw [hRaises]
        simpa using h.once.concat hNew
      · rw [hRaises]
        simp
    · exact h

theorem present_flag : s.present.irqFlag = s.irqFlag := by
  unfold Cdrom.present
  split
  · rfl
  · split <;> rfl

theorem CdOrder.answer (h : CdOrder s) (hClear : s.irqFlag = 0) (bytes : List Byte) (type : CdIrq) :
    CdOrder (s.answer bytes type) := by
  have hRespond : CdOrder (s.respond bytes) := h.congr (.ofTrace rfl rfl rfl rfl rfl rfl)
  exact (hRespond.setIrq hClear type).present

theorem answer_flag (bytes : List Byte) (type : CdIrq) : (s.answer bytes type).irqFlag ≠ 0 := by
  unfold Cdrom.answer
  rw [present_flag]
  exact code_ne_zero type

theorem CdOrder.execCommand (h : CdOrder s) (hClear : s.irqFlag = 0) (cmd : Byte) :
    CdOrder (s.execCommand cmd) := by
  refine CdOrder.answer (h.congr ?_) ?_ _ _
  · cases (s.drive.exec cmd s.params).completion with
    | none => exact ⟨rfl, rfl, rfl, rfl, rfl, [⟨cmd, s.params⟩], rfl⟩
    | some delay => exact ⟨rfl, rfl, rfl, rfl, rfl, [⟨cmd, s.params⟩], rfl⟩
  · cases (s.drive.exec cmd s.params).completion with
    | none => exact hClear
    | some delay => exact hClear

theorem CdOrder.tryExecuteQueued (h : CdOrder s) : CdOrder s.tryExecuteQueued := by
  unfold Cdrom.tryExecuteQueued
  split
  · split
    · exact h
    · rename_i hClear
      refine CdOrder.execCommand ?_ ?_ _
      · exact h.congr (.ofTrace rfl rfl rfl rfl rfl rfl)
      · exact not_not.mp hClear
  · exact h

theorem CdOrder.processPending (h : CdOrder s) (cycles : Word) :
    CdOrder (s.processPending cycles) := by
  unfold Cdrom.processPending
  split
  · exact h
  · rename_i hGuard
    have hClear : s.irqFlag = 0 := by
      simp only [ne_eq, decide_not, Bool.or_eq_true, Bool.not_eq_true', decide_eq_false_iff_not,
        decide_eq_true_eq, not_or, not_not] at hGuard
      exact hGuard.2
    split
    · exact h.congr (.ofTrace rfl rfl rfl rfl rfl rfl)
    · dsimp only
      split
      · refine CdOrder.answer ?_ ?_ _ _
        · exact h.congr (.ofTrace rfl rfl rfl rfl rfl rfl)
        · exact hClear
      · exact h.congr (.ofTrace rfl rfl rfl rfl rfl rfl)

theorem CdOrder.setDrive (h : CdOrder s) (drive : Drive) : CdOrder (s.setDrive drive) :=
  h.congr (.ofTrace rfl rfl rfl rfl rfl rfl)

theorem CdOrder.sectorDue (h : CdOrder s) (dmaActive : Bool) : CdOrder (s.sectorDue dmaActive) := by
  unfold Cdrom.sectorDue
  dsimp only
  split
  · rename_i hClear
    split
    · refine CdOrder.answer ?_ ?_ _ _
      · exact h.setDrive _
      · exact hClear
    · exact h.setDrive _
  · split
    · exact h.setDrive _
    · exact h.setDrive _

theorem CdOrder.processReadStream (h : CdOrder s) (cycles : Word) (dmaActive : Bool) :
    CdOrder (s.processReadStream cycles dmaActive) := by
  unfold Cdrom.processReadStream
  split
  · exact h
  · dsimp only
    split
    · exact ((h.setDrive _).sectorDue dmaActive).setDrive _
    · exact h.setDrive _

theorem CdOrder.presentPendingDataready (h : CdOrder s) : CdOrder s.presentPendingDataready := by
  unfold Cdrom.presentPendingDataready
  split
  · split
    · exact h
    · rename_i hClear
      refine CdOrder.answer ?_ ?_ _ _
      · exact h.setDrive _
      · exact not_not.mp hClear
  · exact h

theorem and_of_small {flag : Byte} (hSmall : flag.toNat < 8) : flag &&& 0x1F = flag := by
  refine BitVec.eq_of_toNat_eq ?_
  rw [BitVec.toNat_and]
  change flag.toNat &&& (2 ^ 5 - 1) = flag.toNat
  rw [Nat.and_two_pow_sub_one_eq_mod]
  exact Nat.mod_eq_of_lt (by omega)

/-- An acknowledge leaves the interrupt as it was, or it clears it. -/
theorem CdOrder.clearFlag (h : CdOrder s) (val : Byte) : CdOrder (s.clearFlag val) := by
  have hLe : (s.irqFlag &&& ~~~(val &&& 0x1F)).toNat ≤ s.irqFlag.toNat := by
    rw [BitVec.toNat_and]
    exact Nat.and_le_left
  have hKept (hShown : s.irqFlag &&& ~~~(val &&& 0x1F) ≠ 0) : s.irqFlag ≠ 0 := by
    intro hZero
    exact hShown (by simp [hZero])
  refine ⟨hLe.trans_lt h.small, h.clear, h.waited, h.bounded, h.once, fun hShown => ?_,
    fun hShown => h.delay (hKept hShown)⟩
  have hNot : ¬(s.irqFlag &&& 0x1F ≠ 0 ∧ s.irqFlag &&& ~~~(val &&& 0x1F) &&& 0x1F = 0) := by
    rintro ⟨-, hCleared⟩
    rw [and_of_small (hLe.trans_lt h.small)] at hCleared
    exact hShown hCleared
  dsimp only [Cdrom.clearFlag]
  rw [if_neg hNot]
  exact h.latch (hKept hShown)

theorem CdOrder.acknowledge (h : CdOrder s) (val : Byte) : CdOrder (s.acknowledge val) :=
  (h.clearFlag val).presentPendingDataready.tryExecuteQueued

/-- The cycles of one advance fit an `int`, as the scheduler makes them. -/
def SmallAdvance (_ : Cdrom) : CdEvent → Prop
  | .advance cycles _ => cycles.toNat < 2 ^ 31
  | _ => True

theorem CdOrder.grow (h : CdOrder s) {cycles : Word} (hSmall : cycles.toNat < 2 ^ 31) :
    CdOrder (s.grow cycles) := by
  refine ⟨h.small, h.clear, h.waited, h.bounded, h.once, h.latch, fun hShown => ?_⟩
  have hDelay := h.delay hShown
  have hInt : cycles.toInt = cycles.toNat := BitVec.toInt_eq_toNat_of_lt (by omega)
  simp only [Cdrom.grow, hInt, Nat.cast_add]
  split <;> omega

theorem CdOrder.advance (h : CdOrder s) {cycles : Word} (hSmall : cycles.toNat < 2 ^ 31)
    (dmaActive : Bool) : CdOrder (s.advance cycles dmaActive) :=
  ((((h.grow hSmall).present.tryExecuteQueued).processPending cycles).processReadStream cycles
    dmaActive).present

theorem cdStep_order (h : CdOrder s) (e : CdEvent) (hSmall : SmallAdvance s e) :
    CdOrder (cdStep s e) := by
  cases e with
  | write reg val =>
      have hSame {t : Cdrom} (hFlag : t.irqFlag = s.irqFlag) (hLatched : t.latched = s.latched)
          (hGeneration : t.generation = s.generation) (hDelay : t.presentDelay = s.presentDelay)
          (hAge : t.age = s.age) (hTrace : t.trace = s.trace) : CdOrder t :=
        h.congr (.ofTrace hFlag hLatched hGeneration hDelay hAge hTrace)
      dsimp only [cdStep]
      unfold Cdrom.write
      split
      · exact hSame rfl rfl rfl rfl rfl rfl
      · unfold Cdrom.queueOrExec
        split
        · rename_i hClear
          exact h.execCommand hClear val
        · exact hSame rfl rfl rfl rfl rfl rfl
      · split
        · exact hSame rfl rfl rfl rfl rfl rfl
        · exact h
      · exact hSame rfl rfl rfl rfl rfl rfl
      · exact h.setDrive _
      · exact h.acknowledge val
      · exact h
  | read reg =>
      dsimp only [cdStep]
      unfold Cdrom.read
      split
      · exact h
      · split
        · exact h.congr (.ofTrace rfl rfl rfl rfl rfl rfl)
        · exact h
      · split
        · exact h.setDrive _
        · exact h
      · exact h
  | dmaRead =>
      dsimp only [cdStep]
      unfold Cdrom.dmaRead
      split
      · exact h.setDrive _
      · exact h
  | advance cycles dmaActive => exact h.advance hSmall dmaActive
  | setSpeed speed => exact h.setDrive _

end Order

/-- No command is executed or queued, and an interrupt that is shown stays with
its response. -/
structure Kept (s t : Cdrom) : Prop where
  queued : t.queued = s.queued
  execs : execs t.trace = execs s.trace
  shown : s.irqFlag ≠ 0 → t.irqFlag ≠ 0
  response : s.irqFlag ≠ 0 → t.response = s.response

/-- A command waits only behind an interrupt. -/
def QueuedBehind (s : Cdrom) : Prop := s.queued ≠ none → s.irqFlag ≠ 0

section Commands

variable {s t u : Cdrom}

theorem Kept.refl (s : Cdrom) : Kept s s := ⟨rfl, rfl, id, fun _ => rfl⟩

theorem Kept.trans (h : Kept s t) (h' : Kept t u) : Kept s u :=
  ⟨h'.queued.trans h.queued, h'.execs.trans h.execs, fun hShown => h'.shown (h.shown hShown),
    fun hShown => (h'.response (h.shown hShown)).trans (h.response hShown)⟩

theorem Kept.queuedBehind (h : Kept s t) (hBehind : QueuedBehind s) : QueuedBehind t :=
  fun hQueued => h.shown (hBehind (h.queued ▸ hQueued))

theorem present_kept : Kept s s.present := by
  unfold Cdrom.present
  split
  · exact .refl s
  · split
    · exact ⟨rfl, by simp [execs], id, fun _ => rfl⟩
    · exact .refl s

theorem setDrive_kept (drive : Drive) : Kept s (s.setDrive drive) := ⟨rfl, rfl, id, fun _ => rfl⟩

theorem answer_kept (hClear : s.irqFlag = 0) (bytes : List Byte) (type : CdIrq) :
    Kept s (s.answer bytes type) := by
  have hSet : Kept s ((s.respond bytes).setIrq type) :=
    ⟨rfl, by simp [Cdrom.setIrq, Cdrom.respond, execs], fun hShown => absurd hClear hShown,
      fun hShown => absurd hClear hShown⟩
  exact hSet.trans present_kept

theorem processPending_kept (cycles : Word) : Kept s (s.processPending cycles) := by
  unfold Cdrom.processPending
  split
  · exact .refl s
  · rename_i hGuard
    have hClear : s.irqFlag = 0 := by
      simp only [ne_eq, decide_not, Bool.or_eq_true, Bool.not_eq_true', decide_eq_false_iff_not,
        decide_eq_true_eq, not_or, not_not] at hGuard
      exact hGuard.2
    split
    · exact ⟨rfl, rfl, id, fun _ => rfl⟩
    · have hPending (p : PendingCmd) (drive : Drive) :
          Kept s ((({ s with pending := p } : Cdrom).respond []).setDrive drive) :=
        ⟨rfl, rfl, id, fun hShown => absurd hClear hShown⟩
      dsimp only
      split
      · refine (hPending _ _).trans (answer_kept ?_ _ _)
        exact hClear
      · exact hPending _ _

theorem sectorDue_kept (dmaActive : Bool) : Kept s (s.sectorDue dmaActive) := by
  unfold Cdrom.sectorDue
  dsimp only
  split
  · rename_i hClear
    split
    · refine (setDrive_kept _).trans (answer_kept ?_ _ _)
      exact hClear
    · exact setDrive_kept _
  · split
    · exact setDrive_kept _
    · exact setDrive_kept _

theorem processReadStream_kept (cycles : Word) (dmaActive : Bool) :
    Kept s (s.processReadStream cycles dmaActive) := by
  unfold Cdrom.processReadStream
  split
  · exact .refl s
  · dsimp only
    split
    · exact ((setDrive_kept _).trans (sectorDue_kept dmaActive)).trans (setDrive_kept _)
    · exact setDrive_kept _

theorem presentPendingDataready_kept : Kept s s.presentPendingDataready := by
  unfold Cdrom.presentPendingDataready
  split
  · split
    · exact .refl s
    · rename_i hClear
      refine (setDrive_kept _).trans (answer_kept ?_ _ _)
      exact not_not.mp hClear
  · exact .refl s

theorem execCommand_execs (hClear : s.irqFlag = 0) (cmd : Byte) :
    (s.execCommand cmd).queued = s.queued ∧
      execs (s.execCommand cmd).trace = execs s.trace ++ [⟨cmd, s.params⟩] := by
  have hStart : ∀ completion, ∀ drive,
      (((s.noteExec cmd).setDrive drive).schedule cmd completion).queued = s.queued ∧
      execs (((s.noteExec cmd).setDrive drive).schedule cmd completion).trace =
        execs s.trace ++ [⟨cmd, s.params⟩] ∧
      (((s.noteExec cmd).setDrive drive).schedule cmd completion).irqFlag = 0 := by
    intro completion drive
    cases completion <;>
      exact ⟨rfl, by simp [Cdrom.schedule, Cdrom.setDrive, Cdrom.noteExec, execs], hClear⟩
  obtain ⟨hQueued, hExecs, hFlag⟩ := hStart (s.drive.exec cmd s.params).completion
    (s.drive.exec cmd s.params).drive
  have hKept := answer_kept hFlag (s.drive.exec cmd s.params).response
    (s.drive.exec cmd s.params).irq
  exact ⟨hKept.queued.trans hQueued, hKept.execs.trans hExecs⟩

/-- The command that waits is executed as soon as no interrupt is shown. -/
theorem tryExecuteQueued_cases :
    (s.tryExecuteQueued = s ∧ QueuedBehind s) ∨
      ∃ q, s.queued = some q ∧ s.irqFlag = 0 ∧ s.tryExecuteQueued.queued = none ∧
        execs s.tryExecuteQueued.trace = execs s.trace ++ [q] := by
  cases hQueued : s.queued with
  | none =>
      refine .inl ⟨?_, fun hSome => absurd hQueued hSome⟩
      simp [Cdrom.tryExecuteQueued, hQueued]
  | some q =>
      by_cases hClear : s.irqFlag = 0
      · refine .inr ⟨q, rfl, hClear, ?_⟩
        have hStep : s.tryExecuteQueued =
            ({ s with queued := none, params := q.params } : Cdrom).execCommand q.cmd := by
          simp only [Cdrom.tryExecuteQueued, hQueued]
          rw [if_neg (not_not.mpr hClear)]
        rw [hStep]
        exact execCommand_execs (s := { s with queued := none, params := q.params }) hClear q.cmd
      · refine .inl ⟨?_, fun _ => hClear⟩
        simp only [Cdrom.tryExecuteQueued, hQueued]
        rw [if_pos hClear]

/-- A write to the command register. -/
def CommandWrite (s : Cdrom) (e : CdEvent) : Prop := ∃ val, e = .write 1 val ∧ s.index = 0

/-- What a step that is no command does to the commands: nothing, or it executes
the one that waits. -/
def QueueStep (s t : Cdrom) : Prop :=
  QueuedBehind t ∧ ((t.queued = s.queued ∧ execs t.trace = execs s.trace) ∨
    ∃ q, s.queued = some q ∧ t.queued = none ∧ execs t.trace = execs s.trace ++ [q])

theorem Kept.queueStep (h : Kept s t) (hBehind : QueuedBehind s) : QueueStep s t :=
  ⟨h.queuedBehind hBehind, .inl ⟨h.queued, h.execs⟩⟩

/-- The try between two parts that keep the commands. -/
theorem tryExecuteQueued_step (hBefore : t.queued = s.queued ∧ execs t.trace = execs s.trace)
    (hAfter : Kept t.tryExecuteQueued u) : QueueStep s u := by
  rcases tryExecuteQueued_cases (s := t) with ⟨hSame, hBehind⟩ | ⟨q, hQueued, -, hNone, hExecs⟩
  · rw [hSame] at hAfter
    exact ⟨hAfter.queuedBehind hBehind,
      .inl ⟨hAfter.queued.trans hBefore.1, hAfter.execs.trans hBefore.2⟩⟩
  · refine ⟨hAfter.queuedBehind fun hSome => absurd hNone hSome, .inr ⟨q, ?_, ?_, ?_⟩⟩
    · rw [← hBefore.1]
      exact hQueued
    · exact hAfter.queued.trans hNone
    · rw [hAfter.execs, hExecs, hBefore.2]

theorem acknowledge_step (val : Byte) : QueueStep s (s.acknowledge val) := by
  have hKept : Kept (s.clearFlag val) (s.clearFlag val).presentPendingDataready :=
    presentPendingDataready_kept
  exact tryExecuteQueued_step ⟨hKept.queued, hKept.execs⟩ (.refl _)

theorem advance_step (cycles : Word) (dmaActive : Bool) :
    QueueStep s (s.advance cycles dmaActive) := by
  have hGrown : Kept s (s.grow cycles) := ⟨rfl, rfl, id, fun _ => rfl⟩
  have hGrow : Kept s (s.grow cycles).present := hGrown.trans present_kept
  exact tryExecuteQueued_step ⟨hGrow.queued, hGrow.execs⟩
    (((processPending_kept cycles).trans (processReadStream_kept cycles dmaActive)).trans
      present_kept)

theorem cdStep_queue (hBehind : QueuedBehind s) (e : CdEvent) (hOther : ¬CommandWrite s e) :
    QueueStep s (cdStep s e) := by
  cases e with
  | write reg val =>
      have hKept {t : Cdrom} (hQueued : t.queued = s.queued) (hTrace : t.trace = s.trace)
          (hFlag : t.irqFlag = s.irqFlag) (hResponse : t.response = s.response) : QueueStep s t :=
        Kept.queueStep
          ⟨hQueued, by rw [hTrace], by rw [hFlag]; exact id, fun _ => hResponse⟩ hBehind
      dsimp only [cdStep]
      unfold Cdrom.write
      split
      · exact hKept rfl rfl rfl rfl
      · rename_i hIndex
        exact absurd ⟨val, rfl, hIndex⟩ hOther
      · split
        · exact hKept rfl rfl rfl rfl
        · exact hKept rfl rfl rfl rfl
      · exact hKept rfl rfl rfl rfl
      · exact hKept rfl rfl rfl rfl
      · exact acknowledge_step val
      · exact hKept rfl rfl rfl rfl
  | read reg =>
      refine Kept.queueStep ?_ hBehind
      dsimp only [cdStep]
      unfold Cdrom.read
      split
      · exact .refl s
      · split
        · exact ⟨rfl, rfl, id, fun _ => rfl⟩
        · exact .refl s
      · split
        · exact setDrive_kept _
        · exact .refl s
      · exact .refl s
  | dmaRead =>
      refine Kept.queueStep ?_ hBehind
      dsimp only [cdStep]
      unfold Cdrom.dmaRead
      split
      · exact setDrive_kept _
      · exact .refl s
  | advance cycles dmaActive => exact advance_step cycles dmaActive
  | setSpeed speed => exact (setDrive_kept _).queueStep hBehind

/-- A command that is written while an interrupt is shown waits with the
parameters that were written. -/
theorem cdStep_queues {val : Byte} (hIndex : s.index = 0) (hShown : s.irqFlag ≠ 0) :
    (cdStep s (.write 1 val)).queued = some ⟨val, s.params⟩ ∧
      (cdStep s (.write 1 val)).irqFlag = s.irqFlag ∧
      (cdStep s (.write 1 val)).trace = s.trace := by
  have hStep : cdStep s (.write 1 val) = s.queueOrExec val := by
    simp [cdStep, Cdrom.write, hIndex]
  rw [hStep, Cdrom.queueOrExec, if_neg hShown]
  exact ⟨rfl, rfl, rfl⟩

/-- A step that is no full acknowledge leaves the response of the interrupt that is
shown. -/
theorem cdStep_response (hShown : s.irqFlag ≠ 0) (e : CdEvent) :
    (cdStep s e).response = s.response ∨
      ∃ val, e = .write 3 val ∧ s.index = 1 ∧ s.irqFlag &&& ~~~(val &&& 0x1F) = 0 := by
  have hNoTry {u : Cdrom} (hu : u.irqFlag ≠ 0) : u.tryExecuteQueued = u := by
    rcases tryExecuteQueued_cases (s := u) with ⟨hSame, -⟩ | ⟨-, -, hClear, -⟩
    · exact hSame
    · exact absurd hClear hu
  cases e with
  | write reg val =>
      dsimp only [cdStep]
      unfold Cdrom.write
      split
      · exact .inl rfl
      · unfold Cdrom.queueOrExec
        rw [if_neg hShown]
        exact .inl rfl
      · split <;> exact .inl rfl
      · exact .inl rfl
      · exact .inl rfl
      · rename_i hIndex
        by_cases hCleared : s.irqFlag &&& ~~~(val &&& 0x1F) = 0
        · exact .inr ⟨val, rfl, hIndex, hCleared⟩
        · left
          have hFlag : (s.clearFlag val).irqFlag ≠ 0 := hCleared
          have hKept : Kept (s.clearFlag val) (s.clearFlag val).presentPendingDataready :=
            presentPendingDataready_kept
          unfold Cdrom.acknowledge
          rw [hNoTry (hKept.shown hFlag)]
          exact hKept.response hFlag
      · exact .inl rfl
  | read reg =>
      left
      dsimp only [cdStep]
      unfold Cdrom.read
      split
      · rfl
      · split <;> rfl
      · split <;> rfl
      · rfl
  | dmaRead =>
      left
      dsimp only [cdStep]
      unfold Cdrom.dmaRead
      split <;> rfl
  | advance cycles dmaActive =>
      left
      have hGrown : Kept s (s.grow cycles) := ⟨rfl, rfl, id, fun _ => rfl⟩
      have hGrow : Kept s (s.grow cycles).present := hGrown.trans present_kept
      have hRest : Kept (s.grow cycles).present (cdStep s (.advance cycles dmaActive)) := by
        dsimp only [cdStep, Cdrom.advance]
        rw [hNoTry (hGrow.shown hShown)]
        exact ((processPending_kept cycles).trans (processReadStream_kept cycles dmaActive)).trans
          present_kept
      exact (hGrow.trans hRest).response hShown
  | setSpeed speed => exact .inl rfl

theorem mem_raises {trace : List CdTrace} {g : Nat} :
    g ∈ raises trace ↔ ∃ age, CdTrace.raise g age ∈ trace := by
  unfold raises
  rw [List.mem_filterMap]
  constructor
  · rintro ⟨entry, hMem, hIs⟩
    cases entry with
    | raise generation age =>
        obtain rfl := Option.some.inj hIs
        exact ⟨age, hMem⟩
    | irq before type => exact absurd hIs (by simp)
    | exec cmd params => exact absurd hIs (by simp)
  · rintro ⟨age, hMem⟩
    exact ⟨_, hMem, rfl⟩

/-- A presentation that is due is made. -/
theorem present_raised (h : CdOrder s) (hShown : s.present.irqFlag ≠ 0)
    (hEnabled : s.present.irqEnabled = true) (hAge : 5000 ≤ s.present.age) :
    s.present.generation ∈ raises s.present.trace := by
  by_cases hDelay : 0 < s.presentDelay
  · have hSame : s.present = s := if_pos hDelay
    rw [hSame] at hShown hAge
    have hIs := h.delay hShown
    omega
  · by_cases hRaise : s.irqFlag ≠ 0 ∧ s.irqEnabled ∧ !s.latched
    · have hStep : s.present =
          { s with latched := true, trace := s.trace ++ [.raise s.generation s.age] } := by
        rw [Cdrom.present, if_neg hDelay, if_pos hRaise]
      rw [hStep]
      simp [raises]
    · have hSame : s.present = s := by
        rw [Cdrom.present, if_neg hDelay, if_neg hRaise]
      rw [hSame] at hShown hEnabled ⊢
      rw [← h.latch hShown]
      by_contra hNot
      exact hRaise ⟨hShown, hEnabled, by simpa using hNot⟩

theorem advance_raised (h : CdOrder s) {cycles : Word} (hSmall : cycles.toNat < 2 ^ 31)
    (dmaActive : Bool) (hShown : (s.advance cycles dmaActive).irqFlag ≠ 0)
    (hEnabled : (s.advance cycles dmaActive).irqEnabled = true)
    (hAge : 5000 ≤ (s.advance cycles dmaActive).age) :
    ∃ age, CdTrace.raise (s.advance cycles dmaActive).generation age ∈
      (s.advance cycles dmaActive).trace := by
  have hBefore : CdOrder ((((s.grow cycles).present.tryExecuteQueued).processPending
      cycles).processReadStream cycles dmaActive) :=
    (((h.grow hSmall).present.tryExecuteQueued).processPending cycles).processReadStream cycles
      dmaActive
  exact mem_raises.1 (present_raised hBefore hShown hEnabled hAge)

/-- The command waits, or it has been executed once. -/
def WaitsOrDone (q : QueuedCmd) (before : List QueuedCmd) (t : Cdrom) : Prop :=
  QueuedBehind t ∧ ((t.queued = some q ∧ execs t.trace = before) ∨
    (t.queued = none ∧ execs t.trace = before ++ [q]))

theorem WaitsOrDone.run {q : QueuedCmd} {before : List QueuedCmd} (es : List CdEvent) :
    ∀ {t : Cdrom}, WaitsOrDone q before t → RunOk cdStep (fun s e => ¬CommandWrite s e) t es →
      WaitsOrDone q before (es.foldl cdStep t) := by
  induction es with
  | nil => intro t h _; exact h
  | cons e rest ih =>
      intro t h hOk
      obtain ⟨hBehind, hStep⟩ := cdStep_queue h.1 e hOk.1
      refine ih ⟨hBehind, ?_⟩ hOk.2
      rcases h.2 with ⟨hWaits, hBefore⟩ | ⟨hNone, hDone⟩
      · rcases hStep with ⟨hQueued, hExecs⟩ | ⟨q', hQ, hNow, hExecs⟩
        · exact .inl ⟨hQueued.trans hWaits, hExecs.trans hBefore⟩
        · obtain rfl : q' = q := Option.some.inj (hQ.symm.trans hWaits)
          exact .inr ⟨hNow, by rw [hExecs, hBefore]⟩
      · rcases hStep with ⟨hQueued, hExecs⟩ | ⟨q', hQ, -, -⟩
        · exact .inr ⟨hQueued.trans hNone, hExecs.trans hDone⟩
        · exact absurd (hQ.symm.trans hNone) (by simp)

/-- A command that is written while an interrupt is shown is executed once, with
its parameters, when nothing is shown any more, unless another one is written. -/
theorem queued_command {val : Byte} (hIndex : s.index = 0) (hShown : s.irqFlag ≠ 0)
    (es : List CdEvent)
    (hOk : RunOk cdStep (fun s e => ¬CommandWrite s e) (cdStep s (.write 1 val)) es) :
    let t := es.foldl cdStep (cdStep s (.write 1 val))
    (t.irqFlag ≠ 0 ∧ t.queued = some ⟨val, s.params⟩ ∧ execs t.trace = execs s.trace) ∨
      (t.queued = none ∧ execs t.trace = execs s.trace ++ [⟨val, s.params⟩]) := by
  obtain ⟨hQueued, hFlag, hTrace⟩ : (cdStep s (.write 1 val)).queued =
      some ⟨val, s.params⟩ ∧ _ ∧ _ :=
    cdStep_queues hIndex hShown
  have hStart : WaitsOrDone ⟨val, s.params⟩ (execs s.trace) (cdStep s (.write 1 val)) :=
    ⟨fun _ => hFlag ▸ hShown, .inl ⟨hQueued, by rw [hTrace]⟩⟩
  obtain ⟨hBehind, hWaits | hDone⟩ := hStart.run es hOk
  · exact .inl ⟨hBehind (by simp [hWaits.1]), hWaits⟩
  · exact .inr hDone

end Commands


theorem initial_order (disc : Option Disc) (speed : DiscSpeed) (scex : List Byte) :
    CdOrder (Cdrom.initial disc speed scex) :=
  ⟨by simp [Cdrom.initial], by simp [Cdrom.initial], by simp [Cdrom.initial],
   by simp [Cdrom.initial, raises],
    by simp [Cdrom.initial, raises],
    fun hShown => absurd rfl hShown, fun hShown => absurd rfl hShown⟩

/-- In every run: no interrupt is set over one that is shown, whose response stays
until it is acknowledged; a generation is raised at most once and not before its
delay; an enabled one whose delay is over is raised by the end of an advance; and
a command that is written while one is shown is executed once, with the parameters
written for it, when nothing is shown any more, unless another one replaces it. -/
theorem cd_interrupts {disc : Option Disc} {speed : DiscSpeed} {scex : List Byte} {s : Cdrom}
    (hRun : Reach cdStep SmallAdvance (Cdrom.initial disc speed scex) s) :
    (∀ before type, CdTrace.irq before type ∈ s.trace → before = 0) ∧
      (s.irqFlag ≠ 0 → ∀ e, (cdStep s e).response = s.response ∨
        ∃ val, e = .write 3 val ∧ s.index = 1 ∧ s.irqFlag &&& ~~~(val &&& 0x1F) = 0) ∧
      (raises s.trace).Nodup ∧
      (∀ generation age, CdTrace.raise generation age ∈ s.trace → 5000 ≤ age) ∧
      (∀ cycles dmaActive, cycles.toNat < 2 ^ 31 →
        let t := cdStep s (.advance cycles dmaActive)
        t.irqFlag ≠ 0 → t.irqEnabled = true → 5000 ≤ t.age →
          ∃ age, CdTrace.raise t.generation age ∈ t.trace) ∧
      ∀ val es, s.index = 0 → s.irqFlag ≠ 0 →
        RunOk cdStep (fun s e => ¬CommandWrite s e) (cdStep s (.write 1 val)) es →
        let t := es.foldl cdStep (cdStep s (.write 1 val))
        (t.irqFlag ≠ 0 ∧ t.queued = some ⟨val, s.params⟩ ∧ execs t.trace = execs s.trace) ∨
          (t.queued = none ∧ execs t.trace = execs s.trace ++ [⟨val, s.params⟩]) := by
  have h : CdOrder s := hRun.invariant (initial_order disc speed scex) fun _ e h hSmall =>
    cdStep_order h e hSmall
  exact ⟨h.clear, cdStep_response, h.once, h.waited,
    fun cycles dmaActive hSmall => advance_raised h hSmall dmaActive,
    fun val es hIndex hShown => queued_command hIndex hShown es⟩

/-- A controller without a disc. -/
def emptyDrive : Cdrom := Cdrom.initial none ⟨1, 32⟩ [0x53, 0x43, 0x45, 0x41]

/-- GetStat, and the time for its response to be raised. -/
def statRaised : List CdEvent := [.write 1 0x01, .advance 5000 false]

theorem statRaised_reached :
    Reach cdStep SmallAdvance emptyDrive (statRaised.foldl cdStep emptyDrive) := by
  have hSmall : BitVec.toNat (5000 : Word) < 2 ^ 31 := by decide
  exact Reach.start.along _ ⟨trivial, hSmall, trivial⟩

/-- Getparam is written behind the response of GetStat, which is acknowledged. -/
theorem cd_interrupts_getparam :
    let s := statRaised.foldl cdStep emptyDrive
    let t := [CdEvent.write 0 0x01, .write 3 0x1F].foldl cdStep (cdStep s (.write 1 0x0F))
    raises s.trace = [1] ∧ (raises s.trace).Nodup ∧ t.queued = none ∧
      execs t.trace = [⟨0x01, []⟩, ⟨0x0F, []⟩] := by
  obtain ⟨-, -, hOnce, -, -, hCommand⟩ := cd_interrupts statRaised_reached
  have hOk : RunOk cdStep (fun s e => ¬CommandWrite s e)
      (cdStep (statRaised.foldl cdStep emptyDrive) (.write 1 0x0F))
      [.write 0 0x01, .write 3 0x1F] := by
    refine ⟨?_, ?_, trivial⟩ <;> rintro ⟨val, hIs, -⟩ <;> exact absurd hIs (by decide +revert)
  rcases hCommand 0x0F _ (by decide) (by decide) hOk with ⟨-, hWaits, -⟩ | ⟨hNone, hExecs⟩
  · exact absurd hWaits (by decide)
  · exact ⟨by decide, hOnce, hNone, hExecs.trans (by decide)⟩

/-- A second command that is written behind the same response replaces the first,
which is never executed. -/
theorem cd_interrupts_replaced :
    ¬∀ (s : Cdrom) (val : Byte) (es : List CdEvent),
      Reach cdStep SmallAdvance emptyDrive s → s.index = 0 → s.irqFlag ≠ 0 →
      (es.foldl cdStep (cdStep s (.write 1 val))).queued = none →
      (execs (es.foldl cdStep (cdStep s (.write 1 val))).trace).count ⟨val, s.params⟩ =
        (execs s.trace).count ⟨val, s.params⟩ + 1 := by
  intro hClaim
  have hCount := hClaim _ 0x0E [.write 1 0x0F, .write 0 0x01, .write 3 0x1F] statRaised_reached
    (by decide) (by decide) (by decide)
  exact absurd hCount (by decide)

end RecompStudio.Runtime
