import RecompStudio.Threads.Tcb
import Mathlib.Logic.Relation

/-!
Cooperative threads: the ChangeThread system call outside exceptions, which gives
the CPU to another TCB through the scheduler, and the runs of threads that it
makes. A thread goes on with what it had when it gave the CPU away.
-/

namespace RecompStudio.Threads

open CellStore

variable {M : Type}

section Syscall

variable (G : GuestMemory M)

/-- How `psx_request_thread_switch` ends: with 0, with 1, with an escape to the
scheduler, or by stopping at a resume PC that is the sentinel. -/
inductive SwitchOutcome (M : Type) where
  | refused
  | same
  | escaped (cpu : CPUState M)
  | halted

/-- `psx_request_thread_switch`. -/
@[grind =] def requestThreadSwitch (cpu : CPUState M) (target : Word) : SwitchOutcome M :=
  let current := currentTcbPtr G cpu
  if !isValidTcb G cpu current || !isValidTcb G cpu target then .refused
  else if current = target then .same
  else if tcbState G cpu target ≠ runnable then .refused
  else if tcbState G cpu current = runnable then
    if cpu.gpr 31 = sentinelPc then .halted
    else .escaped (setCurrentTcb G (saveContextToTcb G cpu current (cpu.gpr 31)) target)
  else .escaped (setCurrentTcb G cpu target)

/-- `psx_scheduler_run` behind a switch, up to the dispatch of the thread. It
stops at a TCB without a resume PC that can be dispatched. -/
def schedulerResume (cpu : CPUState M) : Option (CPUState M) :=
  let current := currentTcbPtr G cpu
  if isValidTcb G cpu current then
    let restored := restoreContextFromTcb G cpu current
    let runPc := restored.gpr 26
    if isDispatchable runPc then some { restored with pc := runPc } else none
  else some cpu

/-- The ReturnFromException path of `psx_syscall`. -/
def returnFromException (cpu : CPUState M) : CPUState M :=
  let tcb := currentTcbPtr G cpu
  if tcb = 0 then
    { cpu with
      cop0 := Function.update cpu.cop0 12 ((cpu.sr &&& ~~~0x0F#32) ||| ((cpu.sr >>> 2) &&& 0x0F#32))
      pc := cpu.cop0 14 }
  else
    let save := tcb + 8#32
    { cpu with
      gpr := fun r => if r = 0 then cpu.gpr 0 else G.read cpu.mem (save + regOffset r)
      hi := G.read cpu.mem (save + 132#32)
      lo := G.read cpu.mem (save + 136#32)
      cop0 := Function.update cpu.cop0 12 (popStatus (G.read cpu.mem (save + 140#32)))
      pc := G.read cpu.mem (save + 128#32) }

/-- `psx_syscall` with 3 in `$a0`, outside an exception: the CPU that goes on, if
the machine does not stop. -/
@[grind =] def changeThread (cpu : CPUState M) : Option (CPUState M) :=
  match requestThreadSwitch G cpu (cpu.gpr 5) with
  | .refused => some (returnFromException G cpu)
  | .same => some cpu
  | .escaped cpu' => schedulerResume G cpu'
  | .halted => none

end Syscall

/-- A restore by the scheduler and one by ReturnFromException leave the same
registers, status and PC. -/
structure SameRestore (scheduler exception : CPUState M) : Prop where
  gpr : exception.gpr = scheduler.gpr
  hi : exception.hi = scheduler.hi
  lo : exception.lo = scheduler.lo
  sr : exception.sr = scheduler.sr
  pc : exception.pc = scheduler.gpr 26

section Restore

variable {G : GuestMemory M} {cpu : CPUState M}

/-- The two restores agree on a TCB exactly when its status is stacked and its
word for `$k0` is its PC. -/
theorem sameRestore_iff (hTcb : currentTcbPtr G cpu ≠ 0) :
    SameRestore (restoreContextFromTcb G cpu (currentTcbPtr G cpu)) (returnFromException G cpu) ↔
      G.read cpu.mem (currentTcbPtr G cpu + 8#32 + 140#32) &&& 3#32 = 0 ∧
        G.read cpu.mem (currentTcbPtr G cpu + 8#32 + regOffset 26) =
          G.read cpu.mem (currentTcbPtr G cpu + 8#32 + 128#32) := by
  have hReturn : returnFromException G cpu = { cpu with
      gpr := fun r => if r = 0 then cpu.gpr 0
        else G.read cpu.mem (currentTcbPtr G cpu + 8#32 + regOffset r)
      hi := G.read cpu.mem (currentTcbPtr G cpu + 8#32 + 132#32)
      lo := G.read cpu.mem (currentTcbPtr G cpu + 8#32 + 136#32)
      cop0 := Function.update cpu.cop0 12
        (popStatus (G.read cpu.mem (currentTcbPtr G cpu + 8#32 + 140#32)))
      pc := G.read cpu.mem (currentTcbPtr G cpu + 8#32 + 128#32) } := if_neg hTcb
  rw [hReturn]
  generalize currentTcbPtr G cpu = tcb
  constructor
  · intro h
    have hKernel := congrFun h.gpr 26
    have hStatus : popStatus (G.read cpu.mem (tcb + 8#32 + 140#32)) =
        schedulerRestoreStatus (G.read cpu.mem (tcb + 8#32 + 140#32)) := h.sr
    refine ⟨?_, hKernel⟩
    unfold schedulerRestoreStatus at hStatus
    split at hStatus
    · exact stacked_of_popStatus_eq hStatus
    · rename_i hStacked
      exact not_not.mp hStacked
  · rintro ⟨hStacked, hKernel⟩
    refine ⟨funext fun r => ?_, rfl, rfl, ?_, rfl⟩
    · by_cases hZero : r = 0
      · simp [restoreContextFromTcb, hZero]
      · by_cases hRegister : r = 26
        · subst hRegister
          exact hKernel
        · simp only [restoreContextFromTcb, if_neg hZero, if_neg hRegister]
    · change popStatus (G.read cpu.mem (tcb + 8#32 + 140#32)) =
        schedulerRestoreStatus (G.read cpu.mem (tcb + 8#32 + 140#32))
      rw [schedulerRestoreStatus, if_neg (not_not.mpr hStacked)]

end Restore

/-- The machine, with what each suspended thread had when it last gave the CPU
away. A thread that was not runnable then, or whose TCB has been made anew, has
nothing to go on with. -/
structure ThreadRun (M : Type) where
  cpu : CPUState M
  last : Word → Option Context

section Runs

variable (G : GuestMemory M) (K : Kernel)

/-- What a ChangeThread is made with: the caller has a TCB, the target is its own
or a runnable one, and the cache is not isolated. -/
structure Proper (cpu : CPUState M) : Prop where
  caller : K.isTcb (currentTcbPtr G cpu) = true
  target : cpu.gpr 5 = currentTcbPtr G cpu ∨
    (K.isTcb (cpu.gpr 5) = true ∧ G.read cpu.mem (cpu.gpr 5) = runnable)
  cached : isolated cpu.sr = false

/-- What is noted at a ChangeThread. -/
def lastAfter (s : ThreadRun M) : Word → Option Context :=
  let current := currentTcbPtr G s.cpu
  if s.cpu.gpr 5 = current then s.last
  else Function.update s.last current
    (if G.read s.cpu.mem current = runnable then some (contextOf s.cpu (s.cpu.gpr 31)) else none)

/-- The guest code of a thread: it does to the CPU and the memory what it likes,
but for the kernel's data and the TCBs of the suspended threads, unless it makes
one of them anew. -/
structure GuestStep (s t : ThreadRun M) : Prop where
  kernel : K.In G t.cpu.mem
  current : G.read t.cpu.mem K.tcbh = G.read s.cpu.mem K.tcbh
  last : ∀ tcb c, t.last tcb = some c → s.last tcb = some c
  suspended : ∀ tcb c k, t.last tcb = some c → tcb ≠ currentTcbPtr G s.cpu →
    G.read t.cpu.mem (tcb + tcbOffset k) = G.read s.cpu.mem (tcb + tcbOffset k)

/-- The steps of a run of threads. -/
inductive RunStep : ThreadRun M → ThreadRun M → Prop where
  | guest {s t : ThreadRun M} (h : GuestStep G K s t) : RunStep s t
  | change {s : ThreadRun M} {cpu : CPUState M} (h : Proper G K s.cpu)
      (hChange : changeThread G s.cpu = some cpu) : RunStep s ⟨cpu, lastAfter G s⟩

/-- Every suspended thread has its context in its TCB. -/
structure RunInv (s : ThreadRun M) : Prop where
  kernel : K.In G s.cpu.mem
  holds : ∀ tcb c, s.last tcb = some c → K.isTcb tcb = true ∧
    (tcb ≠ currentTcbPtr G s.cpu → Holds G s.cpu.mem tcb c)

end Runs

section Invariant

variable {G : GuestMemory M} {K : Kernel} {s t : ThreadRun M} {cpu : CPUState M}

theorem RunInv.guest (hApart : K.Apart G) (hInv : RunInv G K s) (h : GuestStep G K s t) :
    RunInv G K t := by
  have hCurrent : currentTcbPtr G t.cpu = currentTcbPtr G s.cpu := by
    rw [currentTcbPtr_eq hApart h.kernel, currentTcbPtr_eq hApart hInv.kernel, h.current]
  refine ⟨h.kernel, fun tcb c hLast => ?_⟩
  obtain ⟨hTcb, hHolds⟩ := hInv.holds tcb c (h.last tcb c hLast)
  refine ⟨hTcb, fun hNe => ?_⟩
  rw [hCurrent] at hNe
  exact (hHolds hNe).congr fun k => h.suspended tcb c k hLast hNe

/-- What is in memory when the caller has been saved. -/
@[grind =] def savedCaller (G : GuestMemory M) (cpu : CPUState M) : CPUState M :=
  if G.read cpu.mem (currentTcbPtr G cpu) = runnable then
    saveContextToTcb G cpu (currentTcbPtr G cpu) (cpu.gpr 31)
  else cpu

theorem In.savedCaller (hApart : K.Apart G) (hIn : K.In G cpu.mem) (hProper : Proper G K cpu) :
    K.In G (savedCaller G cpu).mem := by
  unfold Threads.savedCaller
  split
  · exact In.saveContext hApart hProper.cached hProper.caller hIn
  · exact hIn

theorem savedCaller_sr : (savedCaller G cpu).sr = cpu.sr := by
  unfold savedCaller
  split <;> rfl

/-- The caller's TCB is the only one that the save touches. -/
theorem read_savedCaller_other (hApart : K.Apart G) (hProper : Proper G K cpu) {tcb : Word}
    (hTcb : K.isTcb tcb = true) (hNe : tcb ≠ currentTcbPtr G cpu) (k : Fin 48) :
    G.read (savedCaller G cpu).mem (tcb + tcbOffset k) = G.read cpu.mem (tcb + tcbOffset k) := by
  unfold savedCaller
  split
  · exact read_saveContext_other hApart hProper.cached hProper.caller hTcb hNe k
  · rfl

/-- The memory behind a switch. -/
def switched (G : GuestMemory M) (cpu : CPUState M) : CPUState M :=
  setCurrentTcb G (savedCaller G cpu) (cpu.gpr 5)

theorem read_switched (hApart : K.Apart G) (hIn : K.In G cpu.mem) (hProper : Proper G K cpu)
    {a : Word} (ha : K.cell a) :
    G.read (switched G cpu).mem a =
      if a = K.tcbh then cpu.gpr 5 else G.read (savedCaller G cpu).mem a :=
  read_setCurrentTcb hApart (by rw [savedCaller_sr]; exact hProper.cached)
    (In.savedCaller hApart hIn hProper) ha

theorem tcbOffset_ne_tcbh (hApart : K.Apart G) {tcb : Word} (hTcb : K.isTcb tcb = true)
    (k : Fin 48) : tcb + tcbOffset k ≠ K.tcbh := by
  intro h
  exact hApart.fromOwn tcb k hTcb (h ▸ by simp [Kernel.ownWords])

theorem read_switched_tcb (hApart : K.Apart G) (hIn : K.In G cpu.mem) (hProper : Proper G K cpu)
    {tcb : Word} (hTcb : K.isTcb tcb = true) (k : Fin 48) :
    G.read (switched G cpu).mem (tcb + tcbOffset k) =
      G.read (savedCaller G cpu).mem (tcb + tcbOffset k) := by
  rw [read_switched hApart hIn hProper (.inr ⟨tcb, k, hTcb, rfl⟩),
    if_neg (tcbOffset_ne_tcbh hApart hTcb k)]

theorem In.switched (hApart : K.Apart G) (hIn : K.In G cpu.mem) (hProper : Proper G K cpu) :
    K.In G (switched G cpu).mem := by
  have hSaved := In.savedCaller hApart hIn hProper
  have hOwn : ∀ a ∈ K.ownWords, a ≠ K.tcbh →
      G.read (Threads.switched G cpu).mem a = G.read (Threads.savedCaller G cpu).mem a := by
    intro a ha hNe
    rw [read_switched hApart hIn hProper (.inl ha), if_neg hNe]
  have hNodup := hApart.own
  simp only [Kernel.ownWords, List.nodup_cons, List.mem_cons, List.not_mem_nil, or_false,
    not_or] at hNodup
  exact ⟨(hOwn _ (by simp [Kernel.ownWords]) hNodup.1.2.2).trans hSaved.tcbh,
    (hOwn _ (by simp [Kernel.ownWords]) hNodup.2.1.2).trans hSaved.base,
    (hOwn _ (by simp [Kernel.ownWords]) hNodup.2.2.1).trans hSaved.size⟩

theorem currentTcbPtr_switched (hApart : K.Apart G) (hIn : K.In G cpu.mem)
    (hProper : Proper G K cpu) : currentTcbPtr G (switched G cpu) = cpu.gpr 5 := by
  rw [currentTcbPtr_eq hApart (In.switched hApart hIn hProper),
    read_switched hApart hIn hProper (.inl (by simp [Kernel.ownWords])), if_pos rfl]

/-- A proper ChangeThread to another thread: its TCB is restored behind the switch. -/
theorem changeThread_switch (hApart : K.Apart G) (hIn : K.In G cpu.mem) (hProper : Proper G K cpu)
    (hOther : cpu.gpr 5 ≠ currentTcbPtr G cpu) {cpu' : CPUState M}
    (hChange : changeThread G cpu = some cpu') :
    cpu' = { restoreContextFromTcb G (switched G cpu) (cpu.gpr 5) with
      pc := (restoreContextFromTcb G (switched G cpu) (cpu.gpr 5)).gpr 26 } := by
  obtain ⟨hTcb, hRunnable⟩ := hProper.target.resolve_left hOther
  have hRequest : requestThreadSwitch G cpu (cpu.gpr 5) = .halted ∨
      requestThreadSwitch G cpu (cpu.gpr 5) = .escaped (switched G cpu) := by
    unfold requestThreadSwitch tcbState
    simp only [isValidTcb_eq hIn, hProper.caller, hTcb, Bool.not_true, Bool.or_self,
      Bool.false_eq_true, if_false, if_neg hOther.symm, if_true, hRunnable, ne_eq,
      not_true_eq_false]
    unfold switched savedCaller
    split
    · split
      · exact .inl rfl
      · exact .inr rfl
    · exact .inr rfl
  unfold changeThread at hChange
  rcases hRequest with hRequest | hRequest
  · rw [hRequest] at hChange
    exact absurd hChange (by simp)
  · rw [hRequest] at hChange
    dsimp only at hChange
    unfold schedulerResume at hChange
    rw [currentTcbPtr_switched hApart hIn hProper] at hChange
    dsimp only at hChange
    rw [isValidTcb_eq (In.switched hApart hIn hProper), if_pos hTcb] at hChange
    split at hChange
    · exact (Option.some.inj hChange).symm
    · exact absurd hChange (by simp)

/-- A ChangeThread to the thread itself. -/
theorem changeThread_same (hIn : K.In G cpu.mem) (hProper : Proper G K cpu)
    (hSame : cpu.gpr 5 = currentTcbPtr G cpu) : changeThread G cpu = some cpu := by
  unfold changeThread requestThreadSwitch
  simp only [isValidTcb_eq hIn, hSame, hProper.caller, Bool.not_true, Bool.or_self,
    Bool.false_eq_true, if_false, if_true]

theorem RunInv.change (hApart : K.Apart G) (hInv : RunInv G K s) (hProper : Proper G K s.cpu)
    (hChange : changeThread G s.cpu = some cpu) : RunInv G K ⟨cpu, lastAfter G s⟩ := by
  by_cases hSame : s.cpu.gpr 5 = currentTcbPtr G s.cpu
  · have hCpu : cpu = s.cpu :=
      Option.some.inj (hChange.symm.trans (changeThread_same hInv.kernel hProper hSame))
    have hLast : lastAfter G s = s.last := if_pos hSame
    rw [hLast, hCpu]
    exact hInv
  · have hCpu := changeThread_switch hApart hInv.kernel hProper hSame hChange
    have hMem : cpu.mem = (switched G s.cpu).mem := by rw [hCpu]; rfl
    have hIn : K.In G cpu.mem := hMem ▸ In.switched hApart hInv.kernel hProper
    have hCurrent : currentTcbPtr G cpu = s.cpu.gpr 5 := by
      rw [currentTcbPtr_eq hApart hIn, hMem,
        ← currentTcbPtr_eq hApart (In.switched hApart hInv.kernel hProper),
        currentTcbPtr_switched hApart hInv.kernel hProper]
    have hRead : ∀ tcb, K.isTcb tcb = true → ∀ k, G.read cpu.mem (tcb + tcbOffset k) =
        G.read (savedCaller G s.cpu).mem (tcb + tcbOffset k) := by
      intro tcb hTcb k
      rw [hMem, read_switched_tcb hApart hInv.kernel hProper hTcb]
    refine ⟨hIn, fun tcb c hLast => ?_⟩
    simp only [lastAfter, if_neg hSame] at hLast
    by_cases hCaller : tcb = currentTcbPtr G s.cpu
    · subst hCaller
      rw [Function.update_self] at hLast
      split at hLast
      · rename_i hRunnable
        refine ⟨hProper.caller, fun _ => ?_⟩
        rw [← Option.some.inj hLast]
        refine Holds.congr ?_ (hRead _ hProper.caller)
        unfold savedCaller
        rw [if_pos hRunnable]
        exact holds_saveContext hApart hProper.cached hProper.caller
      · exact absurd hLast (by simp)
    · rw [Function.update_of_ne hCaller] at hLast
      obtain ⟨hTcb, hHolds⟩ := hInv.holds tcb c hLast
      refine ⟨hTcb, fun _ => (hHolds hCaller).congr fun k => ?_⟩
      rw [hRead tcb hTcb, read_savedCaller_other hApart hProper hTcb hCaller]

theorem RunInv.step (hApart : K.Apart G) (hInv : RunInv G K s) (h : RunStep G K s t) :
    RunInv G K t := by
  cases h with
  | guest h => exact hInv.guest hApart h
  | change h hChange => exact hInv.change hApart h hChange

theorem RunInv.run (hApart : K.Apart G) (hInv : RunInv G K s)
    (h : Relation.ReflTransGen (RunStep G K) s t) : RunInv G K t := by
  induction h with
  | refl => exact hInv
  | tail _ hStep ih => exact ih.step hApart hStep

end Invariant

/-- What a ChangeThread does: the thread that goes on has what it had when it last
gave the CPU away, the caller itself all of it, and no TCB but the caller's is
touched. -/
structure Isolated (G : GuestMemory M) (K : Kernel) (s : ThreadRun M)
    (cpu : CPUState M) : Prop where
  same : s.cpu.gpr 5 = currentTcbPtr G s.cpu → cpu = s.cpu
  resumed : s.cpu.gpr 5 ≠ currentTcbPtr G s.cpu →
    ∀ c, s.last (s.cpu.gpr 5) = some c → Resumed cpu c
  others : ∀ tcb k, K.isTcb tcb = true → tcb ≠ currentTcbPtr G s.cpu →
    G.read cpu.mem (tcb + tcbOffset k) = G.read s.cpu.mem (tcb + tcbOffset k)

theorem RunInv.isolated {G : GuestMemory M} {K : Kernel} {s : ThreadRun M} {cpu : CPUState M}
    (hApart : K.Apart G) (hInv : RunInv G K s) (hProper : Proper G K s.cpu)
    (hChange : changeThread G s.cpu = some cpu) : Isolated G K s cpu := by
  by_cases hSame : s.cpu.gpr 5 = currentTcbPtr G s.cpu
  · have hCpu : cpu = s.cpu :=
      Option.some.inj (hChange.symm.trans (changeThread_same hInv.kernel hProper hSame))
    exact ⟨fun _ => hCpu, fun h => absurd hSame h, fun _ _ _ _ => by rw [hCpu]⟩
  · have hCpu := changeThread_switch hApart hInv.kernel hProper hSame hChange
    refine ⟨fun h => absurd h hSame, fun _ c hLast => ?_, fun tcb k hTcb hNe => ?_⟩
    · obtain ⟨hTcb, hHolds⟩ := hInv.holds _ c hLast
      rw [hCpu]
      refine resumed_restoreContext ((hHolds hSame).congr fun k => ?_)
      rw [read_switched_tcb hApart hInv.kernel hProper hTcb,
        read_savedCaller_other hApart hProper hTcb hSame]
    · rw [hCpu]
      change G.read (switched G s.cpu).mem _ = _
      rw [read_switched_tcb hApart hInv.kernel hProper hTcb,
        read_savedCaller_other hApart hProper hTcb hNe]

/-- In every run of threads each ChangeThread is isolated, and the two restores
agree on exactly the stacked contexts whose `$k0` is their PC. -/
theorem thread_switches_isolated {G : GuestMemory M} {K : Kernel} (hApart : K.Apart G) :
    (∀ s t : ThreadRun M, K.In G s.cpu.mem → (∀ tcb, s.last tcb = none) →
      Relation.ReflTransGen (RunStep G K) s t →
      ∀ cpu, Proper G K t.cpu → changeThread G t.cpu = some cpu → Isolated G K t cpu) ∧
    ∀ cpu : CPUState M, currentTcbPtr G cpu ≠ 0 →
      (SameRestore (restoreContextFromTcb G cpu (currentTcbPtr G cpu)) (returnFromException G cpu) ↔
        G.read cpu.mem (currentTcbPtr G cpu + 8#32 + 140#32) &&& 3#32 = 0 ∧
          G.read cpu.mem (currentTcbPtr G cpu + 8#32 + regOffset 26) =
            G.read cpu.mem (currentTcbPtr G cpu + 8#32 + 128#32)) := by
  refine ⟨fun s t hIn hFresh hRun cpu hProper hChange => ?_, fun cpu hTcb => sameRestore_iff hTcb⟩
  have hStart : RunInv G K s :=
    ⟨hIn, fun tcb c hLast => absurd (hFresh tcb ▸ hLast) (by simp)⟩
  exact (hStart.run hApart hRun).isolated hApart hProper hChange

/-- A memory of words. -/
def wordMemory : GuestMemory (Word → Word) where
  read m a := m a
  write sr a v m := if isolated sr then m else Function.update m a v

/-- A table of two TCBs. -/
@[grind =] def twoThreads : Kernel := ⟨0x200#32, 0x1000#32, 0x180#32⟩

theorem twoThreads_isTcb {tcb : Word} (h : twoThreads.isTcb tcb = true) :
    tcb = 0x1000#32 ∨ tcb = 0x10C0#32 := by
  have hBack : tcb = (tcb - 0x1000#32) + 0x1000#32 := (sub_add_cancel tcb 0x1000#32).symm
  unfold Kernel.isTcb twoThreads at h
  generalize tcb - 0x1000#32 = d at h hBack
  simp only [Bool.and_eq_true, decide_eq_true_eq, beq_iff_eq] at h
  obtain ⟨⟨-, hLt⟩, hMod⟩ := h
  have hLt' : d.toNat < 384 := hLt
  have hMod' : d.toNat % 192 = 0 := by simpa using congrArg BitVec.toNat hMod
  have hCases : d = 0#32 ∨ d = 0xC0#32 := by
    have hNat : d.toNat = 0 ∨ d.toNat = 192 := by omega
    exact hNat.imp (fun h => BitVec.eq_of_toNat_eq h) (fun h => BitVec.eq_of_toNat_eq h)
  rcases hCases with rfl | rfl
  · exact .inl hBack
  · exact .inr hBack

theorem twoThreads_offset {tcb : Word} (h : twoThreads.isTcb tcb = true) (k : Fin 48) :
    (tcb + tcbOffset k).toNat = tcb.toNat + 4 * k.val ∧ tcb.toNat % 192 = 64 ∧
      4096 ≤ tcb.toNat ∧ tcb.toNat < 4480 := by
  have hk := k.isLt
  rcases twoThreads_isTcb h with rfl | rfl
  · refine ⟨?_, by decide, by decide, by decide⟩
    simp only [tcbOffset, BitVec.toNat_add, BitVec.toNat_ofNat]
    omega
  · refine ⟨?_, by decide, by decide, by decide⟩
    simp only [tcbOffset, BitVec.toNat_add, BitVec.toNat_ofNat]
    omega

theorem twoThreads_apart : twoThreads.Apart wordMemory where
  cells sr hOn := by
    have hWrite : ∀ a v m, (wordMemory.store sr).write a v m = Function.update m a v := by
      intro a v m
      exact if_neg (by simp [hOn])
    refine ⟨?_, ?_⟩
    · intro m a v _
      rw [hWrite]
      exact Function.update_self ..
    · intro m a b v _ _ hNe
      rw [hWrite]
      exact Function.update_of_ne hNe ..
  own := by decide
  tcbh := by decide
  fromOwn tcb k hTcb hMem := by
    obtain ⟨hNat, -, hLe, -⟩ := twoThreads_offset hTcb k
    have hOwn : ∀ a ∈ twoThreads.ownWords, a.toNat < 4096 := by
      simp [Kernel.ownWords, twoThreads]
    have := hOwn _ hMem
    omega
  tcbs tcb tcb' k k' hTcb hTcb' hEq := by
    obtain ⟨hNat, hMod, -, -⟩ := twoThreads_offset hTcb k
    obtain ⟨hNat', hMod', -, -⟩ := twoThreads_offset hTcb' k'
    have := congrArg BitVec.toNat hEq
    have := k.isLt
    have := k'.isLt
    exact BitVec.eq_of_toNat_eq (by omega)

/-- The first of two threads is about to give the CPU to the second, which the
game has made with a live status word. -/
def firstThread : CPUState (Word → Word) where
  gpr r := if r = 5 then 0x10C0#32 else if r = 31 then 0x80010000#32 else if r = 16 then 7#32 else 0
  pc := 0x80010000#32
  hi := 0
  lo := 0
  cop0 r := if r = 12 then 0x40000401#32 else 0
  gteData _ := 0
  gteCtrl _ := 0
  mem a :=
    if a = 0x108#32 then 0x200#32 else if a = 0x110#32 then 0x1000#32
    else if a = 0x114#32 then 0x180#32 else if a = 0x200#32 then 0x1000#32
    else if a = 0x1000#32 then runnable else if a = 0x10C0#32 then runnable
    else if a = 0x1148#32 then 0x80020000#32 else if a = 0x1154#32 then 0x40000401#32 else 0

def secondThread : CPUState (Word → Word) :=
  (changeThread wordMemory firstThread).getD firstThread

/-- A thread names the one to change to. -/
def asksFor (cpu : CPUState M) (tcb : Word) : CPUState M :=
  { cpu with gpr := Function.update cpu.gpr 5 tcb }

theorem asksFor_mem (cpu : CPUState M) (tcb : Word) : (asksFor cpu tcb).mem = cpu.mem := rfl

def secondAsks : CPUState (Word → Word) := asksFor secondThread 0x1000#32

theorem firstThread_proper : Proper wordMemory twoThreads firstThread :=
  ⟨by decide, .inr ⟨by decide, by decide⟩, by decide⟩

theorem secondAsks_proper : Proper wordMemory twoThreads secondAsks :=
  ⟨by decide +kernel, .inr ⟨by decide, by decide +kernel⟩, by decide +kernel⟩

theorem secondAsks_run : ∃ last, Relation.ReflTransGen (RunStep wordMemory twoThreads)
    ⟨firstThread, fun _ => none⟩ ⟨secondAsks, last⟩ ∧
      last 0x1000#32 = some (contextOf firstThread 0x80010000#32) := by
  have hSome : (changeThread wordMemory firstThread).isSome = true := by decide +kernel
  have hChange : changeThread wordMemory firstThread = some secondThread := by
    obtain ⟨cpu, hCpu⟩ := Option.isSome_iff_exists.mp hSome
    unfold secondThread
    rw [hCpu]
    rfl
  have hFirst : RunStep wordMemory twoThreads ⟨firstThread, fun _ => none⟩
      ⟨secondThread, lastAfter wordMemory ⟨firstThread, fun _ => none⟩⟩ :=
    .change firstThread_proper hChange
  have hMem : secondAsks.mem = secondThread.mem := asksFor_mem _ _
  have hAsk : GuestStep wordMemory twoThreads
      ⟨secondThread, lastAfter wordMemory ⟨firstThread, fun _ => none⟩⟩
      ⟨secondAsks, lastAfter wordMemory ⟨firstThread, fun _ => none⟩⟩ :=
    ⟨⟨by decide +kernel, by decide +kernel, by decide +kernel⟩, by rw [hMem], fun _ _ h => h,
      fun _ _ _ _ _ => by rw [hMem]⟩
  refine ⟨_, .tail (.tail .refl hFirst) (.guest hAsk), ?_⟩
  have hCurrent : currentTcbPtr wordMemory firstThread = 0x1000#32 := by decide
  simp only [lastAfter, hCurrent]
  rfl

/-- The first thread goes on with what it had. -/
theorem firstThread_resumed : ∃ cpu, changeThread wordMemory secondAsks = some cpu ∧
    Resumed cpu (contextOf firstThread 0x80010000#32) := by
  obtain ⟨last, hRun, hLast⟩ := secondAsks_run
  have hSome : (changeThread wordMemory secondAsks).isSome = true := by decide +kernel
  obtain ⟨cpu, hCpu⟩ := Option.isSome_iff_exists.mp hSome
  have hIn : twoThreads.In wordMemory firstThread.mem := ⟨by decide, by decide, by decide⟩
  have hIsolated := (thread_switches_isolated twoThreads_apart).1 _ _ hIn (fun _ => rfl) hRun cpu
    secondAsks_proper hCpu
  have hTarget : secondAsks.gpr 5 = 0x1000#32 := by decide
  have hOther : secondAsks.gpr 5 ≠ currentTcbPtr wordMemory secondAsks := by decide +kernel
  refine ⟨cpu, hCpu, hIsolated.resumed hOther _ ?_⟩
  rw [hTarget]
  exact hLast

/-- A thread made with a live status word is restored with it by the scheduler and
without it by ReturnFromException. -/
theorem live_status_restored_apart :
    let cpu := setCurrentTcb wordMemory firstThread 0x10C0#32
    twoThreads.isTcb (currentTcbPtr wordMemory cpu) = true ∧
      (restoreContextFromTcb wordMemory cpu (currentTcbPtr wordMemory cpu)).sr = 0x40000401#32 ∧
      (returnFromException wordMemory cpu).sr = 0x40000400#32 ∧
      ¬SameRestore (restoreContextFromTcb wordMemory cpu (currentTcbPtr wordMemory cpu))
        (returnFromException wordMemory cpu) := by
  intro cpu
  have hScheduler : (restoreContextFromTcb wordMemory cpu (currentTcbPtr wordMemory cpu)).sr =
      0x40000401#32 := by decide
  have hException : (returnFromException wordMemory cpu).sr = 0x40000400#32 := by decide
  refine ⟨by decide, hScheduler, hException, fun h => ?_⟩
  have hSame := h.sr
  rw [hScheduler, hException] at hSame
  exact absurd hSame (by decide)

end RecompStudio.Threads
