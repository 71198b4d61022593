import RecompStudio.Threads.InterruptReturn

/-!
Switches of threads inside an exception handler. A switch that comes while the host
is deep in calls of its own is put off: the interrupted thread goes on under its own
TCB, and a later check saves it and makes the switch. The run here is the one of all
threads, with the thread whose code is being executed noted beside the host.
-/

namespace RecompStudio.Threads

variable {M : Type}

/-- The host, and the TCB of the thread whose code it executes. -/
structure ThreadHost (M : Type) where
  host : Host M
  running : Word

section Steps

variable (G : GuestMemory M) (K : Kernel)

/-- The host with its latch as a check sees it. -/
@[grind =] def Site.at (o : Site) (h : Host M) : Host M :=
  match o.resumePc with
  | none => h
  | some pc => { h with ctl := { h.ctl with compiledResumePc := pc } }

/-- The scheduler dispatches a thread. -/
def scheduled (h : Host M) (cpu : CPUState M) : Host M :=
  { h with live := { h.live with cpu := cpu, dispatchDepth := 0, callUnitDepth := 0 } }

/-- The code of the running thread does what it likes, but for the kernel's data. -/
structure GuestMove (s t : Host M) : Prop where
  ctl : t.ctl = s.ctl
  kernel : K.In G t.cpu.mem
  current : G.read t.cpu.mem K.tcbh = G.read s.cpu.mem K.tcbh

/-- The steps of a run of threads with interrupts, whose checks meet a condition. -/
inductive HostStep (ok : Site → Handler M → Host M → Prop) :
    ThreadHost M → ThreadHost M → Prop where
  | guest {s : ThreadHost M} {h : Host M} (hMove : GuestMove G K s.host h) :
      HostStep ok s ⟨h, s.running⟩
  | change {s : ThreadHost M} {h : Host M} (hProper : Proper G K s.host.cpu)
      (hChange : changeThread G s.host.cpu = some h.cpu) (hCtl : h.ctl = s.host.ctl) :
      HostStep ok s ⟨h, currentTcbPtr G h.cpu⟩
  | returned {s : ThreadHost M} {o : Site} {handler : Handler M} {h : Host M} {pops : Nat}
      (hOk : ok o handler s.host)
      (hCheck : checkInterruptsAt G (runHandler G handler) o s.host = .returned h pops) :
      HostStep ok s ⟨h, s.running⟩
  | unwound {s : ThreadHost M} {o : Site} {handler : Handler M} {h : Host M} {cpu : CPUState M}
      (hOk : ok o handler s.host)
      (hCheck : checkInterruptsAt G (runHandler G handler) o s.host = .unwound h)
      (hResume : schedulerResume G h.cpu = some cpu) :
      HostStep ok s ⟨scheduled h cpu, currentTcbPtr G cpu⟩

/-- The kernel's data and the TCBs are found under their physical addresses too, the
word of the sentinel is none of theirs, and no TCB lies at the address 0. -/
structure Kernel.Mapped : Prop where
  mirror : ∀ m a, K.cell a → G.read m (a &&& 0x1FFFFFFF#32) = G.read m a
  sentinel : ∀ sr m a, K.cell a → G.read (G.write sr sentinelPc 0 m) a = G.read m a
  nonzero : ∀ tcb, K.isTcb tcb = true → tcb ≠ 0

/-- What a check relies on: writes go to memory, and a handler that has switched the
current TCB leaves it at a runnable one of the kernel's table. -/
structure SwitchesWell (o : Site) (handler : Handler M) (h : Host M) : Prop where
  cached : isolated h.cpu.sr = false
  switch : ∀ e t pops, poll G o (o.at h) = .delivers e →
    runHandler G handler (e.ctl.epoch + 1) (enter G e) = .back t pops →
    K.In G t.cpu.mem ∧ (kernelTcb G t.cpu.mem ≠ kernelTcb G (enter G e).cpu.mem →
      K.isTcb (kernelTcb G t.cpu.mem) = true ∧
        G.read t.cpu.mem (kernelTcb G t.cpu.mem) = runnable)

/-- The current TCB is the one of the running thread, and a deferred switch has both
its ends. -/
structure Settled (s : ThreadHost M) : Prop where
  kernel : K.In G s.host.cpu.mem
  outside : s.host.ctl.inException = false
  current : currentTcbPtr G s.host.cpu = s.running
  thread : K.isTcb s.running = true
  deferred : s.host.ctl.deferPending = true →
    K.isTcb s.host.ctl.deferFrom = true ∧ K.isTcb s.host.ctl.deferTarget = true

/-- A deferred switch has been made: the outgoing thread is in its own TCB as it was,
with a PC that can be dispatched, and the target is current. -/
structure Honoured (s t : ThreadHost M) : Prop where
  saved : ∃ pc, isDispatchable pc = true ∧
    Holds G t.host.cpu.mem s.host.ctl.deferFrom (contextOf s.host.cpu pc)
  target : t.running = s.host.ctl.deferTarget
  current : currentTcbPtr G t.host.cpu = s.host.ctl.deferTarget

end Steps

section Kernel

variable {G : GuestMemory M} {K : Kernel} {h e t : Host M} {o : Site} {m : M}

theorem cell_tcbh : K.cell K.tcbh := .inl (by simp [Kernel.ownWords])

theorem cell_tcb {tcb : Word} (hTcb : K.isTcb tcb = true) : K.cell tcb :=
  .inr ⟨tcb, 0, hTcb, (BitVec.add_zero _).symm⟩

/-- The interrupt code and the scheduler read the same current TCB. -/
theorem kernelTcb_eq (hApart : K.Apart G) (hMapped : K.Mapped G) {cpu : CPUState M}
    (hIn : K.In G cpu.mem) : kernelTcb G cpu.mem = currentTcbPtr G cpu := by
  rw [currentTcbPtr_eq hApart hIn, kernelTcb, hIn.tcbh, if_neg hApart.tcbh,
    hMapped.mirror _ _ cell_tcbh]

theorem read_enter (hMapped : K.Mapped G) {a : Word} (ha : K.cell a) :
    G.read (enter G h).cpu.mem a = G.read h.cpu.mem a := by
  simp only [enter, Host.cpu]
  split
  · rfl
  · exact hMapped.sentinel _ _ _ ha

theorem In.enter (hMapped : K.Mapped G) (hIn : K.In G h.cpu.mem) :
    K.In G (enter G h).cpu.mem where
  tcbh := (read_enter hMapped (.inl (by simp [Kernel.ownWords]))).trans hIn.tcbh
  base := (read_enter hMapped (.inl (by simp [Kernel.ownWords]))).trans hIn.base
  size := (read_enter hMapped (.inl (by simp [Kernel.ownWords]))).trans hIn.size

theorem kernelTcb_enter (hApart : K.Apart G) (hMapped : K.Mapped G) (hIn : K.In G h.cpu.mem) :
    kernelTcb G (enter G h).cpu.mem = currentTcbPtr G h.cpu := by
  rw [kernelTcb_eq hApart hMapped (In.enter hMapped hIn),
    currentTcbPtr_eq hApart (In.enter hMapped hIn), currentTcbPtr_eq hApart hIn,
    read_enter hMapped cell_tcbh]

theorem In.setCurrentTcb (hApart : K.Apart G) {cpu : CPUState M} {tcb : Word}
    (hOn : isolated cpu.sr = false) (hIn : K.In G cpu.mem) :
    K.In G (setCurrentTcb G cpu tcb).mem := by
  have hOwn : ∀ a ∈ K.ownWords, a ≠ K.tcbh →
      G.read (Threads.setCurrentTcb G cpu tcb).mem a = G.read cpu.mem a := by
    intro a ha hNe
    rw [read_setCurrentTcb hApart hOn hIn (.inl ha), if_neg hNe]
  obtain ⟨hFirst, hSecond, hThird⟩ : 0x108#32 ≠ K.tcbh ∧ 0x110#32 ≠ K.tcbh ∧
      0x114#32 ≠ K.tcbh := by
    have hNodup := hApart.own
    simp only [Kernel.ownWords, List.nodup_cons, List.mem_cons, not_or] at hNodup
    exact ⟨hNodup.1.2.2.1, hNodup.2.1.2.1, hNodup.2.2.1.1⟩
  exact ⟨(hOwn _ (by simp [Kernel.ownWords]) hFirst).trans hIn.tcbh,
    (hOwn _ (by simp [Kernel.ownWords]) hSecond).trans hIn.base,
    (hOwn _ (by simp [Kernel.ownWords]) hThird).trans hIn.size⟩

theorem currentTcbPtr_setCurrentTcb (hApart : K.Apart G) {cpu : CPUState M} {tcb : Word}
    (hOn : isolated cpu.sr = false) (hIn : K.In G cpu.mem) :
    currentTcbPtr G (setCurrentTcb G cpu tcb) = tcb := by
  rw [currentTcbPtr_eq hApart (In.setCurrentTcb hApart hOn hIn),
    read_setCurrentTcb hApart hOn hIn cell_tcbh, if_pos rfl]

end Kernel

/-- The record of the deferred switch is as before. -/
structure SameDeferral (h h' : Host M) : Prop where
  pending : h'.ctl.deferPending = h.ctl.deferPending
  source : h'.ctl.deferFrom = h.ctl.deferFrom
  target : h'.ctl.deferTarget = h.ctl.deferTarget

theorem SameDeferral.trans {h h' h'' : Host M} (a : SameDeferral h h')
    (b : SameDeferral h' h'') : SameDeferral h h'' :=
  ⟨b.pending.trans a.pending, b.source.trans a.source, b.target.trans a.target⟩

section Deferral

variable {G : GuestMemory M} {h h' e t : Host M} {o : Site}

theorem gates_deferral (hGates : gates h = .returns h' ∨ gates h = .delivers h') :
    SameDeferral h h' := by
  unfold gates at hGates
  dsimp only at hGates
  repeat' split at hGates
  all_goals
    rcases hGates with hEq | hEq <;> cases hEq
    exact ⟨rfl, rfl, rfl⟩

/-- A deferral that is given up. -/
def Stale (G : GuestMemory M) (h : Host M) : Prop :=
  h.ctl.deferFrom = 0 ∨ h.ctl.deferTarget = 0 ∨ currentTcbPtr G h.cpu ≠ h.ctl.deferFrom

/-- What a check makes of a deferral where it goes on. -/
theorem honourDeferred_goesOn (hHonour : honourDeferred G h = .returns h') :
    SameDeferral h h' ∨ Stale G h ∧ h.ctl.inException = false ∧ h'.ctl.deferPending = false := by
  unfold honourDeferred at hHonour
  split at hHonour
  · cases hHonour
    exact .inl ⟨rfl, rfl, rfl⟩
  rename_i hActive
  split at hHonour
  · rename_i hStale
    cases hHonour
    simp only [Bool.or_eq_true, Bool.not_eq_true', not_or, Bool.not_eq_true] at hActive
    exact .inr ⟨hStale, hActive.2, rfl⟩
  split at hHonour
  · cases hHonour
    exact .inl ⟨rfl, rfl, rfl⟩
  split at hHonour
  · exact absurd hHonour (by simp)
  · cases hHonour
    exact .inl ⟨rfl, rfl, rfl⟩

/-- What a check makes of a deferral that it honours. -/
theorem honourDeferred_unwinds (hHonour : honourDeferred G h = .unwinds h') :
    h.ctl.deferPending = true ∧ ¬Stale G h ∧ isDispatchable h.ctl.lastCheckPc = true ∧
      h'.cpu = setCurrentTcb G (saveContextToTcb G h.cpu h.ctl.deferFrom h.ctl.lastCheckPc)
        h.ctl.deferTarget ∧
      h'.ctl.inException = h.ctl.inException ∧ h'.ctl.deferPending = false := by
  unfold honourDeferred at hHonour
  split at hHonour
  · exact absurd hHonour (by simp)
  rename_i hActive
  split at hHonour
  · exact absurd hHonour (by simp)
  rename_i hFresh
  split at hHonour
  · exact absurd hHonour (by simp)
  split at hHonour
  · rename_i hPc
    cases hHonour
    simp only [Bool.or_eq_true, Bool.not_eq_true', not_or, Bool.not_eq_false] at hActive
    exact ⟨hActive.1, hFresh, hPc.2.2, rfl, rfl, rfl⟩
  · exact absurd hHonour (by simp)

theorem poll_goesOn (hPoll : poll G o h = .returns h' ∨ poll G o h = .delivers h') :
    SameDeferral h h' ∨ Stale G h ∧ h.ctl.inException = false ∧ h'.ctl.deferPending = false := by
  unfold poll at hPoll
  split at hPoll
  · rcases hPoll with hEq | hEq <;> cases hEq
    exact .inl ⟨rfl, rfl, rfl⟩
  split at hPoll
  · rcases hPoll with hEq | hEq <;> cases hEq
    exact .inl ⟨rfl, rfl, rfl⟩
  cases hHonour : honourDeferred G (o.service h) with
  | returns g =>
      rw [hHonour] at hPoll
      have hGate := gates_deferral hPoll
      rcases honourDeferred_goesOn hHonour with hSame | ⟨hStale, hOutside, hCleared⟩
      · have hService : SameDeferral h (o.service h) := ⟨rfl, rfl, rfl⟩
        exact .inl (hService.trans (hSame.trans hGate))
      · exact .inr ⟨hStale, hOutside, hGate.pending.trans hCleared⟩
  | unwinds g =>
      rw [hHonour] at hPoll
      rcases hPoll with hEq | hEq <;> cases hEq
  | delivers g => exact absurd hHonour honourDeferred_ne_delivers

theorem poll_unwinds (hPoll : poll G o h = .unwinds h') :
    h.ctl.deferPending = true ∧ ¬Stale G h ∧ isDispatchable h.takePc = true ∧
      h'.cpu = setCurrentTcb G (saveContextToTcb G h.cpu h.ctl.deferFrom h.takePc)
        h.ctl.deferTarget ∧
      h'.ctl.inException = h.ctl.inException ∧ h'.ctl.deferPending = false := by
  unfold poll at hPoll
  split at hPoll
  · exact absurd hPoll (by simp)
  split at hPoll
  · exact absurd hPoll (by simp)
  cases hHonour : honourDeferred G (o.service h) with
  | returns g =>
      rw [hHonour] at hPoll
      unfold gates at hPoll
      dsimp only at hPoll
      repeat' split at hPoll
      all_goals exact absurd hPoll (by simp)
  | unwinds g =>
      rw [hHonour] at hPoll
      cases hPoll
      exact honourDeferred_unwinds hHonour
  | delivers g => exact absurd hHonour honourDeferred_ne_delivers

theorem departure_nested (hNested : h.ctl.inException = true) : departure G h t = .stays := by
  unfold departure
  dsimp only
  rw [if_pos (.inl hNested)]

/-- Inside an exception nothing happens to a deferral. -/
def KeepsDeferral (h h' : Host M) : Prop :=
  h.ctl.inException = true → h'.ctl.inException = true ∧ SameDeferral h h'

theorem check_keepsDeferral {handle : Nat → Host M → HandlerEnd M}
    (hHandle : ∀ frame h t pops, handle frame h = .back t pops → KeepsDeferral h t) {pops : Nat}
    (hCheck : checkInterrupts G handle o h = .returned h' pops) : KeepsDeferral h h' := by
  intro hNested
  have hPolled : ∀ {g}, poll G o h = .returns g ∨ poll G o h = .delivers g →
      g.ctl.inException = true ∧ SameDeferral h g := by
    intro g hPoll
    refine ⟨(poll_frame hPoll).1.inException.trans hNested, ?_⟩
    rcases poll_goesOn hPoll with hSame | ⟨-, hOutside, -⟩
    · exact hSame
    · exact absurd (hOutside.symm.trans hNested) (by simp)
  unfold checkInterrupts at hCheck
  split at hCheck
  · rename_i g hPoll
    cases hCheck
    exact hPolled (.inl hPoll)
  · exact absurd hCheck (by simp)
  · rename_i e hPoll
    obtain ⟨hIn, hSame⟩ := hPolled (.inr hPoll)
    unfold deliver at hCheck
    split at hCheck
    · exact absurd hCheck (by simp)
    · rename_i t n hBack
      rw [leave_stays (departure_nested hIn)] at hCheck
      cases hCheck
      obtain ⟨-, hPending, hSource, hTarget⟩ := hHandle _ _ _ _ hBack rfl
      exact ⟨hIn, hSame.trans ⟨hPending, hSource, hTarget⟩⟩

theorem keepsDeferral_along : AlongHandlers G KeepsDeferral where
  trans a b hNested :=
    let ⟨hIn, hSame⟩ := a hNested
    let ⟨hIn', hSame'⟩ := b hIn
    ⟨hIn', hSame.trans hSame'⟩
  guest _ _ hNested := ⟨hNested, rfl, rfl, rfl⟩
  escape _ _ _ hNested := ⟨hNested, rfl, rfl, rfl⟩
  check hHandle hCheck := by
    unfold checkInterruptsAt at hCheck
    split at hCheck
    · exact check_keepsDeferral hHandle hCheck
    · split at hCheck
      · rename_i g n hInner
        cases hCheck
        intro hNested
        obtain ⟨hIn, hPending, hSource, hTarget⟩ := check_keepsDeferral hHandle hInner hNested
        exact ⟨hIn, hPending, hSource, hTarget⟩
      · rename_i hOther
        exact absurd hCheck (hOther _ _)

end Deferral

section Invariant

variable {G : GuestMemory M} {K : Kernel} {s t : ThreadHost M} {h h' : Host M} {o : Site}

theorem at_eq (o : Site) (h : Host M) : (o.at h).live = h.live ∧
    (o.at h).ctl.inException = h.ctl.inException ∧ SameDeferral h (o.at h) := by
  unfold Site.at
  split <;> exact ⟨rfl, rfl, rfl, rfl, rfl⟩

theorem at_cpu (o : Site) (h : Host M) : (o.at h).cpu = h.cpu := congrArg Live.cpu (at_eq o h).1

theorem checkAt_returned {handle : Nat → Host M → HandlerEnd M} {pops : Nat}
    (hCheck : checkInterruptsAt G handle o h = .returned h' pops) :
    ∃ g, checkInterrupts G handle o (o.at h) = .returned g pops ∧ h'.cpu = g.cpu ∧
      h'.ctl.inException = g.ctl.inException ∧ SameDeferral g h' := by
  unfold checkInterruptsAt at hCheck
  unfold Site.at
  cases hPc : o.resumePc with
  | none =>
      rw [hPc] at hCheck
      exact ⟨h', hCheck, rfl, rfl, rfl, rfl, rfl⟩
  | some pc =>
      rw [hPc] at hCheck
      dsimp only at hCheck ⊢
      split at hCheck
      · rename_i g n hInner
        cases hCheck
        exact ⟨g, hInner, rfl, rfl, rfl, rfl, rfl⟩
      · rename_i hOther
        exact absurd hCheck (hOther _ _)

theorem checkAt_unwound {handle : Nat → Host M → HandlerEnd M}
    (hCheck : checkInterruptsAt G handle o h = .unwound h') :
    checkInterrupts G handle o (o.at h) = .unwound h' := by
  unfold checkInterruptsAt at hCheck
  unfold Site.at
  cases hPc : o.resumePc with
  | none =>
      rw [hPc] at hCheck
      exact hCheck
  | some pc =>
      rw [hPc] at hCheck
      dsimp only at hCheck ⊢
      split at hCheck
      · exact absurd hCheck (by simp)
      · exact hCheck

theorem schedulerResume_mem {cpu cpu' : CPUState M} (hResume : schedulerResume G cpu = some cpu') :
    cpu'.mem = cpu.mem := by
  unfold schedulerResume at hResume
  dsimp only at hResume
  split at hResume
  · split at hResume
    · cases hResume
      rfl
    · exact absurd hResume (by simp)
  · cases hResume
    rfl

theorem currentTcbPtr_congr {cpu cpu' : CPUState M} (hMem : cpu'.mem = cpu.mem) :
    currentTcbPtr G cpu' = currentTcbPtr G cpu := by
  unfold currentTcbPtr
  rw [hMem]

theorem Settled.guest (hApart : K.Apart G) (hSettled : Settled G K s)
    (hMove : GuestMove G K s.host h) : Settled G K ⟨h, s.running⟩ where
  kernel := hMove.kernel
  outside := (congrArg Control.inException hMove.ctl).trans hSettled.outside
  current := by
    rw [currentTcbPtr_eq hApart hMove.kernel, hMove.current,
      ← currentTcbPtr_eq hApart hSettled.kernel, hSettled.current]
  thread := hSettled.thread
  deferred := by
    rw [hMove.ctl]
    exact hSettled.deferred

theorem Settled.change (hApart : K.Apart G) (hSettled : Settled G K s)
    (hProper : Proper G K s.host.cpu) (hChange : changeThread G s.host.cpu = some h.cpu)
    (hCtl : h.ctl = s.host.ctl) : Settled G K ⟨h, currentTcbPtr G h.cpu⟩ := by
  have hThread : K.In G h.cpu.mem ∧ K.isTcb (currentTcbPtr G h.cpu) = true := by
    by_cases hSame : s.host.cpu.gpr 5 = currentTcbPtr G s.host.cpu
    · have hCpu : h.cpu = s.host.cpu :=
        Option.some.inj (hChange.symm.trans (changeThread_same hSettled.kernel hProper hSame))
      rw [hCpu]
      exact ⟨hSettled.kernel, hProper.caller⟩
    · have hCpu := changeThread_switch hApart hSettled.kernel hProper hSame hChange
      have hMem : h.cpu.mem = (switched G s.host.cpu).mem := by
        rw [hCpu]
        rfl
      rw [currentTcbPtr_congr hMem, currentTcbPtr_switched hApart hSettled.kernel hProper, hMem]
      exact ⟨In.switched hApart hSettled.kernel hProper, (hProper.target.resolve_left hSame).1⟩
  exact ⟨hThread.1, (congrArg Control.inException hCtl).trans hSettled.outside, rfl, hThread.2, by
    rw [hCtl]
    exact hSettled.deferred⟩

/-- What becomes of the deferral of `s` in a host: it stays, or it was given up. -/
def Outlives (G : GuestMemory M) (s : ThreadHost M) (h : Host M) : Prop :=
  SameDeferral s.host h ∨ Stale G s.host ∧ h.ctl.deferPending = false

theorem Outlives.of_same (hOutlives : Outlives G s h) (hSame : SameDeferral h h') :
    Outlives G s h' := by
  rcases hOutlives with hKept | ⟨hStale, hCleared⟩
  · exact .inl (hKept.trans hSame)
  · exact .inr ⟨hStale, hSame.pending.trans hCleared⟩

theorem Outlives.deferred (hOutlives : Outlives G s h) (hSettled : Settled G K s)
    (hPending : h.ctl.deferPending = true) :
    K.isTcb h.ctl.deferFrom = true ∧ K.isTcb h.ctl.deferTarget = true := by
  rcases hOutlives with ⟨hSame, hSource, hTarget⟩ | ⟨-, hCleared⟩
  · rw [hSource, hTarget]
    exact hSettled.deferred (hSame.symm.trans hPending)
  · exact absurd (hCleared.symm.trans hPending) (by simp)

theorem Outlives.stale (hOutlives : Outlives G s h) (hPending : s.host.ctl.deferPending = true)
    (hCleared : h.ctl.deferPending = false) : Stale G s.host := by
  rcases hOutlives with hSame | ⟨hStale, -⟩
  · exact absurd (hPending.symm.trans (hSame.pending.symm.trans hCleared)) (by simp)
  · exact hStale

theorem poll_outlives (hPoll : poll G o (o.at s.host) = .returns h ∨
    poll G o (o.at s.host) = .delivers h) : Outlives G s h := by
  obtain ⟨-, hIn, hAt⟩ := at_eq o s.host
  rcases poll_goesOn hPoll with hSame | ⟨hStale, -, hCleared⟩
  · exact .inl (hAt.trans hSame)
  · refine .inr ⟨?_, hCleared⟩
    unfold Stale at hStale ⊢
    rwa [hAt.source, hAt.target, at_cpu] at hStale

/-- A delivery from a settled host whose handler switches well. -/
structure Delivered (G : GuestMemory M) (K : Kernel) (s : ThreadHost M) (e t : Host M) : Prop where
  cpu : e.cpu = s.host.cpu
  outside : e.ctl.inException = false
  entry : kernelTcb G (enter G e).cpu.mem = s.running
  kernel : K.In G t.cpu.mem
  exit : kernelTcb G t.cpu.mem = currentTcbPtr G t.cpu
  switched : currentTcbPtr G t.cpu ≠ s.running → K.isTcb (currentTcbPtr G t.cpu) = true ∧
    G.read t.cpu.mem (currentTcbPtr G t.cpu) = runnable
  outlives : Outlives G s t

theorem delivered (hApart : K.Apart G) (hMapped : K.Mapped G) (hSettled : Settled G K s)
    {handler : Handler M} (hOk : SwitchesWell G K o handler s.host) {e t : Host M} {pops : Nat}
    (hPoll : poll G o (o.at s.host) = .delivers e)
    (hBack : runHandler G handler (e.ctl.epoch + 1) (enter G e) = .back t pops) :
    Delivered G K s e t := by
  obtain ⟨hFrame, hPolled⟩ := poll_frame (.inr hPoll)
  have hCpu : e.cpu = s.host.cpu := hPolled.trans (at_cpu o s.host)
  have hEntry : kernelTcb G (enter G e).cpu.mem = s.running := by
    rw [kernelTcb_enter hApart hMapped (hCpu ▸ hSettled.kernel), hCpu, hSettled.current]
  obtain ⟨hIn, hSwitch⟩ := hOk.switch e t pops hPoll hBack
  have hExit := kernelTcb_eq hApart hMapped hIn
  have hKept := keepsDeferral_along.run handler _ _ _ _ hBack rfl
  have hEnter : SameDeferral e (enter G e) := ⟨rfl, rfl, rfl⟩
  rw [hExit, hEntry] at hSwitch
  exact ⟨hCpu, hFrame.inException.trans ((at_eq o s.host).2.1.trans hSettled.outside), hEntry, hIn,
    hExit, hSwitch, (poll_outlives (.inr hPoll)).of_same (hEnter.trans hKept.2)⟩

/-- A handler that switches well does not leave the interrupted thread under another
TCB. -/
theorem Delivered.stays (hMapped : K.Mapped G) (hSettled : Settled G K s) {e t : Host M}
    (h : Delivered G K s e t) (hStays : departure G e t = .stays) :
    currentTcbPtr G t.cpu = s.running := by
  by_contra hOther
  obtain ⟨hTcb, hRunnable⟩ := h.switched hOther
  have hNone : ¬(e.ctl.inException = true ∨ s.running = 0 ∨ currentTcbPtr G t.cpu = 0 ∨
      s.running = currentTcbPtr G t.cpu) := by
    rintro (hNested | hZero | hZero | hSame)
    · exact absurd (h.outside.symm.trans hNested) (by simp)
    · exact hMapped.nonzero _ hSettled.thread hZero
    · exact hMapped.nonzero _ hTcb hZero
    · exact hOther hSame.symm
  have hState : G.read t.cpu.mem (currentTcbPtr G t.cpu &&& 0x1FFFFFFF#32) = runnable := by
    rw [hMapped.mirror _ _ (cell_tcb hTcb), hRunnable]
  unfold departure at hStays
  dsimp only at hStays
  rw [h.entry, h.exit, if_neg hNone, if_neg (not_not.mpr hState)] at hStays
  split at hStays <;> exact absurd hStays (by simp)

/-- The CPU of a deferral, before the current TCB is put back. -/
theorem deferSwitch_cpu {e t : Host M} : ∃ cpu : CPUState M, cpu.mem = t.cpu.mem ∧
    cpu.sr = e.cpu.sr ∧ (deferSwitch G e t).cpu =
      setCurrentTcb G cpu (kernelTcb G (enter G e).cpu.mem) := by
  refine ⟨{ withRegs (left e t).cpu e.cpu with
    cop0 := Function.update (left e t).cpu.cop0 12 e.cpu.sr
    pc := t.ctl.realEpc }, left_mem, ?_, rfl⟩
  simp only [CPUState.sr, Function.update_self]

/-- The TCB that a handler has switched to. -/
theorem Delivered.target {e t : Host M} (h : Delivered G K s e t)
    (hNot : departure G e t ≠ .stays) : K.isTcb (kernelTcb G t.cpu.mem) = true := by
  have hOther : currentTcbPtr G t.cpu ≠ s.running := by
    intro hSame
    exact hNot (departure_of_same (h.exit.trans (hSame.trans h.entry.symm)))
  rw [h.exit]
  exact (h.switched hOther).1

/-- A check that returns leaves the running thread under its own TCB. -/
theorem Settled.returned (hApart : K.Apart G) (hMapped : K.Mapped G) (hSettled : Settled G K s)
    {handler : Handler M} (hOk : SwitchesWell G K o handler s.host) {pops : Nat}
    (hCheck : checkInterruptsAt G (runHandler G handler) o s.host = .returned h pops) :
    Settled G K ⟨h, s.running⟩ ∧
      (s.host.ctl.deferPending = true → h.ctl.deferPending = false → Stale G s.host) := by
  obtain ⟨g, hInner, hCpu, hIn, hSame⟩ := checkAt_returned hCheck
  -- It is enough to look at the host before the latch is put back.
  suffices hEnough : K.In G g.cpu.mem ∧ g.ctl.inException = false ∧
      currentTcbPtr G g.cpu = s.running ∧ (Outlives G s g ∨ g.ctl.deferPending = true ∧
        K.isTcb g.ctl.deferFrom = true ∧ K.isTcb g.ctl.deferTarget = true) by
    obtain ⟨hKernel, hOutside, hCurrent, hDeferral⟩ := hEnough
    have hDeferred : h.ctl.deferPending = true → K.isTcb h.ctl.deferFrom = true ∧
        K.isTcb h.ctl.deferTarget = true := by
      rcases hDeferral with hOutlives | ⟨-, hBoth⟩
      · exact (hOutlives.of_same hSame).deferred hSettled
      · rw [hSame.source, hSame.target]
        exact fun _ => hBoth
    refine ⟨⟨hCpu ▸ hKernel, hIn.trans hOutside, hCpu ▸ hCurrent, hSettled.thread, hDeferred⟩,
      fun hPending hCleared => ?_⟩
    rcases hDeferral with hOutlives | ⟨hSet, -⟩
    · exact (hOutlives.of_same hSame).stale hPending hCleared
    · exact absurd (hSet.symm.trans (hSame.pending.symm.trans hCleared)) (by simp)
  unfold checkInterrupts at hInner
  split at hInner
  · rename_i g' hPoll
    cases hInner
    obtain ⟨hFrame, hPolled⟩ := poll_frame (.inl hPoll)
    rw [hPolled.trans (at_cpu o s.host)]
    exact ⟨hSettled.kernel, hFrame.inException.trans ((at_eq o s.host).2.1.trans hSettled.outside),
      hSettled.current, .inl (poll_outlives (.inl hPoll))⟩
  · exact absurd hInner (by simp)
  · rename_i e hPoll
    unfold deliver at hInner
    split at hInner
    · exact absurd hInner (by simp)
    · rename_i t n hBack
      have hDelivered := delivered hApart hMapped hSettled hOk hPoll hBack
      cases hDeparture : departure G e t with
      | stays =>
          rw [leave_stays hDeparture] at hInner
          cases hInner
          have hMem : (left e t).cpu.mem = t.cpu.mem := left_mem
          rw [currentTcbPtr_congr hMem, hMem]
          exact ⟨hDelivered.kernel, hDelivered.outside,
            hDelivered.stays hMapped hSettled hDeparture,
            .inl (hDelivered.outlives.of_same ⟨rfl, rfl, rfl⟩)⟩
      | defers =>
          rw [leave_defers hDeparture] at hInner
          cases hInner
          obtain ⟨cpu, hMem, hSr, hSet⟩ := deferSwitch_cpu (G := G) (e := e) (t := t)
          have hOn : isolated cpu.sr = false := by
            rw [hSr, hDelivered.cpu]
            exact hOk.cached
          have hKernel : K.In G cpu.mem := hMem ▸ hDelivered.kernel
          rw [hSet]
          refine ⟨In.setCurrentTcb hApart hOn hKernel, hDelivered.outside, ?_, .inr ⟨rfl, ?_, ?_⟩⟩
          · rw [currentTcbPtr_setCurrentTcb hApart hOn hKernel, hDelivered.entry]
          · change K.isTcb (kernelTcb G (enter G e).cpu.mem) = true
            rw [hDelivered.entry]
            exact hSettled.thread
          · change K.isTcb (kernelTcb G t.cpu.mem) = true
            exact hDelivered.target (by rw [hDeparture]; decide)
      | unwinds =>
          rw [leave_unwinds hDeparture] at hInner
          exact absurd hInner (by simp)

/-- The scheduler goes on with the current TCB. -/
theorem scheduled_settled {cpu : CPUState M} (hIn : K.In G h.cpu.mem)
    (hOutside : h.ctl.inException = false) (hTcb : K.isTcb (currentTcbPtr G h.cpu) = true)
    (hDeferred : h.ctl.deferPending = true → K.isTcb h.ctl.deferFrom = true ∧
      K.isTcb h.ctl.deferTarget = true)
    (hResume : schedulerResume G h.cpu = some cpu) :
    Settled G K ⟨scheduled h cpu, currentTcbPtr G cpu⟩ := by
  have hMem := schedulerResume_mem hResume
  refine ⟨?_, hOutside, rfl, ?_, hDeferred⟩
  · change K.In G cpu.mem
    rwa [hMem]
  · change K.isTcb (currentTcbPtr G cpu) = true
    rwa [currentTcbPtr_congr hMem]

/-- A deferred switch that a check honours. -/
theorem Settled.honoured (hApart : K.Apart G) (hSettled : Settled G K s)
    (hOn : isolated s.host.cpu.sr = false) (hPoll : poll G o (o.at s.host) = .unwinds h)
    {cpu : CPUState M} (hResume : schedulerResume G h.cpu = some cpu) :
    Settled G K ⟨scheduled h cpu, currentTcbPtr G cpu⟩ ∧
      Honoured G s ⟨scheduled h cpu, currentTcbPtr G cpu⟩ := by
  obtain ⟨hPending, hFresh, hPc, hCpu, hIn, hCleared⟩ := poll_unwinds hPoll
  obtain ⟨-, hAtIn, hAt⟩ := at_eq o s.host
  rw [at_cpu, hAt.source, hAt.target] at hCpu
  obtain ⟨hFrom, hTarget⟩ := hSettled.deferred (hAt.pending.symm.trans hPending)
  generalize (o.at s.host).takePc = pc at hPc hCpu
  have hSaved : K.In G (saveContextToTcb G s.host.cpu s.host.ctl.deferFrom pc).mem :=
    In.saveContext hApart hOn hFrom hSettled.kernel
  have hOnSaved : isolated (saveContextToTcb G s.host.cpu s.host.ctl.deferFrom pc).sr = false := hOn
  have hCurrent : currentTcbPtr G h.cpu = s.host.ctl.deferTarget := by
    rw [hCpu]
    exact currentTcbPtr_setCurrentTcb hApart hOnSaved hSaved
  have hKernel : K.In G h.cpu.mem := by
    rw [hCpu]
    exact In.setCurrentTcb hApart hOnSaved hSaved
  have hMem := schedulerResume_mem hResume
  have hRunning : currentTcbPtr G cpu = s.host.ctl.deferTarget :=
    (currentTcbPtr_congr hMem).trans hCurrent
  refine ⟨scheduled_settled hKernel (hIn.trans (hAtIn.trans hSettled.outside))
    (hCurrent ▸ hTarget) (fun hSet => absurd (hCleared.symm.trans hSet) (by simp)) hResume,
    ⟨pc, hPc, ?_⟩, hRunning, hRunning⟩
  -- The save is read back, and the pointer to the current TCB is none of its words.
  refine (holds_saveContext hApart hOn hFrom).congr fun k => ?_
  have hCell : K.cell (s.host.ctl.deferFrom + tcbOffset k) := .inr ⟨_, k, hFrom, rfl⟩
  have hApartWord : s.host.ctl.deferFrom + tcbOffset k ≠ K.tcbh := by
    intro hEq
    exact hApart.fromOwn _ k hFrom (hEq ▸ by simp [Kernel.ownWords])
  change G.read cpu.mem _ = _
  rw [hMem, hCpu, read_setCurrentTcb hApart hOnSaved hSaved hCell, if_neg hApartWord]

/-- A check that unwinds hands over to the scheduler. -/
theorem Settled.unwound (hApart : K.Apart G) (hMapped : K.Mapped G) (hSettled : Settled G K s)
    {handler : Handler M} (hOk : SwitchesWell G K o handler s.host) {cpu : CPUState M}
    (hCheck : checkInterruptsAt G (runHandler G handler) o s.host = .unwound h)
    (hResume : schedulerResume G h.cpu = some cpu) :
    Settled G K ⟨scheduled h cpu, currentTcbPtr G cpu⟩ ∧
      (s.host.ctl.deferPending = true → h.ctl.deferPending = false →
        Stale G s.host ∨ Honoured G s ⟨scheduled h cpu, currentTcbPtr G cpu⟩) := by
  have hInner := checkAt_unwound hCheck
  unfold checkInterrupts at hInner
  split at hInner
  · exact absurd hInner (by simp)
  · rename_i g hPoll
    cases hInner
    obtain ⟨hNext, hHonoured⟩ := hSettled.honoured hApart hOk.cached hPoll hResume
    exact ⟨hNext, fun _ _ => .inr hHonoured⟩
  · rename_i e hPoll
    unfold deliver at hInner
    split at hInner
    · exact absurd hInner (by simp)
    · rename_i t n hBack
      have hDelivered := delivered hApart hMapped hSettled hOk hPoll hBack
      cases hDeparture : departure G e t with
      | stays =>
          rw [leave_stays hDeparture] at hInner
          exact absurd hInner (by simp)
      | defers =>
          rw [leave_defers hDeparture] at hInner
          exact absurd hInner (by simp)
      | unwinds =>
          rw [leave_unwinds hDeparture] at hInner
          cases hInner
          have hMem : (left e t).cpu.mem = t.cpu.mem := left_mem
          have hTarget := hDelivered.target (by rw [hDeparture]; decide)
          rw [hDelivered.exit, ← currentTcbPtr_congr hMem] at hTarget
          have hOutlives : Outlives G s (left e t) :=
            hDelivered.outlives.of_same ⟨rfl, rfl, rfl⟩
          exact ⟨scheduled_settled (hMem ▸ hDelivered.kernel) hDelivered.outside hTarget
            (hOutlives.deferred hSettled) hResume,
            fun hPending hCleared => .inl (hOutlives.stale hPending hCleared)⟩

/-- One step of a run whose checks switch well. -/
theorem Settled.step (hApart : K.Apart G) (hMapped : K.Mapped G) (hSettled : Settled G K s)
    (hStep : HostStep G K (SwitchesWell G K) s t) :
    Settled G K t ∧ (s.host.ctl.deferPending = true → t.host.ctl.deferPending = false →
      Stale G s.host ∨ Honoured G s t) := by
  cases hStep with
  | guest hMove =>
      refine ⟨hSettled.guest hApart hMove, fun hPending hCleared => ?_⟩
      have hSame := congrArg Control.deferPending hMove.ctl
      exact absurd (hPending.symm.trans (hSame.symm.trans hCleared)) (by simp)
  | change hProper hChange hCtl =>
      refine ⟨hSettled.change hApart hProper hChange hCtl, fun hPending hCleared => ?_⟩
      have hSame := congrArg Control.deferPending hCtl
      exact absurd (hPending.symm.trans (hSame.symm.trans hCleared)) (by simp)
  | returned hOk hCheck =>
      obtain ⟨hNext, hStale⟩ := hSettled.returned hApart hMapped hOk hCheck
      exact ⟨hNext, fun hPending hCleared => .inl (hStale hPending hCleared)⟩
  | unwound hOk hCheck hResume => exact hSettled.unwound hApart hMapped hOk hCheck hResume

theorem Settled.run (hApart : K.Apart G) (hMapped : K.Mapped G) (hSettled : Settled G K s)
    (hRun : Relation.ReflTransGen (HostStep G K (SwitchesWell G K)) s t) : Settled G K t := by
  induction hRun with
  | refl => exact hSettled
  | tail _ hStep ih => exact (ih.step hApart hMapped hStep).1

/-- A deferral with both ends is given up only when the current TCB is another. -/
theorem Settled.current_of_stale (hMapped : K.Mapped G) (hSettled : Settled G K s)
    (hPending : s.host.ctl.deferPending = true) (hStale : Stale G s.host) :
    currentTcbPtr G s.host.cpu ≠ s.host.ctl.deferFrom := by
  obtain ⟨hFrom, hTarget⟩ := hSettled.deferred hPending
  rcases hStale with hZero | hZero | hOther
  · exact absurd hZero (hMapped.nonzero _ hFrom)
  · exact absurd hZero (hMapped.nonzero _ hTarget)
  · exact hOther

end Invariant

/-- The start of a run: a thread runs under its own TCB, and no switch is deferred. -/
structure Started (G : GuestMemory M) (K : Kernel) (s : ThreadHost M) : Prop where
  kernel : K.In G s.host.cpu.mem
  outside : s.host.ctl.inException = false
  current : currentTcbPtr G s.host.cpu = s.running
  thread : K.isTcb s.running = true
  none : s.host.ctl.deferPending = false

/-- What holds of deferred switches in a state of a run: the current TCB is the one of
the running thread, also where the next interrupt has its registers saved, and the
steps from here end a deferral only by honouring it or by giving it up for another
current TCB. -/
structure DeferralSafe (G : GuestMemory M) (K : Kernel) (ok : Site → Handler M → Host M → Prop)
    (s : ThreadHost M) : Prop where
  current : currentTcbPtr G s.host.cpu = s.running
  saves : ∀ o e, poll G o (o.at s.host) = .delivers e →
    kernelTcb G (enter G e).cpu.mem = s.running
  ends : ∀ t, HostStep G K ok s t → s.host.ctl.deferPending = true →
    t.host.ctl.deferPending = false →
    currentTcbPtr G s.host.cpu ≠ s.host.ctl.deferFrom ∨ Honoured G s t

/-- In every run of threads whose checks switch well, no deferred switch is lost, and no
thread is saved into the TCB of another. -/
theorem deferred_switches_safe {G : GuestMemory M} {K : Kernel} (hApart : K.Apart G)
    (hMapped : K.Mapped G) {s t : ThreadHost M} (hStart : Started G K s)
    (hRun : Relation.ReflTransGen (HostStep G K (SwitchesWell G K)) s t) :
    DeferralSafe G K (SwitchesWell G K) t := by
  have hFirst : Settled G K s := ⟨hStart.kernel, hStart.outside, hStart.current, hStart.thread,
    fun hSet => absurd (hStart.none.symm.trans hSet) (by simp)⟩
  have hSettled := hFirst.run hApart hMapped hRun
  refine ⟨hSettled.current, fun o e hPoll => ?_, fun u hStep hPending hCleared => ?_⟩
  · have hCpu : e.cpu = t.host.cpu := (poll_frame (.inr hPoll)).2.trans (at_cpu o t.host)
    rw [kernelTcb_enter hApart hMapped (hCpu ▸ hSettled.kernel), hCpu, hSettled.current]
  · exact ((hSettled.step hApart hMapped hStep).2 hPending hCleared).imp_left
      (hSettled.current_of_stale hMapped hPending)

theorem twoThreads_cell {a : Word} (ha : twoThreads.cell a) : a.toNat < 0x2000 := by
  rcases ha with hOwn | ⟨tcb, k, hTcb, rfl⟩
  · have hAll : ∀ a ∈ twoThreads.ownWords, a.toNat < 0x2000 := by
      simp [Kernel.ownWords, twoThreads]
    exact hAll a hOwn
  · obtain ⟨hNat, -, -, hLt⟩ := twoThreads_offset hTcb k
    have := k.isLt
    omega

theorem twoThreads_mapped : twoThreads.Mapped wordMemory where
  mirror m a ha := by
    have hLt := twoThreads_cell ha
    refine congrArg m (BitVec.eq_of_toNat_eq ?_)
    rw [BitVec.toNat_and, show (0x1FFFFFFF#32).toNat = 2 ^ 29 - 1 from rfl,
      Nat.and_two_pow_sub_one_eq_mod, Nat.mod_eq_of_lt (by omega)]
  sentinel sr m a ha := by
    have hLt := twoThreads_cell ha
    have hNe : a ≠ sentinelPc := by
      intro hEq
      rw [hEq] at hLt
      exact absurd hLt (by decide)
    simp only [wordMemory]
    split
    · rfl
    · exact Function.update_of_ne hNe ..
  nonzero tcb hTcb hZero := by
    rw [hZero] at hTcb
    exact absurd hTcb (by decide)

/-- The first thread, interrupted inside a call of the host. -/
def nestedThread : ThreadHost (Word → Word) :=
  ⟨{ interruptedThread with live := { interruptedThread.live with dispatchDepth := 1 } }, 0x1000#32⟩

/-- The kernel's pointer and the state of the second thread are written. -/
def writes (state : Word) (l : Live (Word → Word)) : Live (Word → Word) :=
  { l with cpu := { l.cpu with
    mem := Function.update (Function.update l.cpu.mem 0x10C0#32 state) 0x200#32 0x10C0#32 } }

/-- A handler that switches to the second thread, which is runnable or not. -/
def switchHandler (state : Word) : Handler (Word → Word) := .act (writes state) .ret

/-- The host behind a check. -/
def CheckEnd.host (out : CheckEnd M) (h : Host M) : Host M :=
  match out with
  | .returned h _ => h
  | .unwound h => h
  | .undefined => h

/-- The switch of the first handler is deferred. -/
def deferredThread : Host (Word → Word) :=
  (checkInterruptsAt wordMemory (runHandler wordMemory (switchHandler runnable)) plainSite
    nestedThread.host).host nestedThread.host

theorem deferredThread_check : checkInterruptsAt wordMemory
    (runHandler wordMemory (switchHandler runnable)) plainSite nestedThread.host =
      .returned deferredThread 1 := rfl

theorem nestedThread_started : Started wordMemory twoThreads nestedThread :=
  ⟨⟨by decide, by decide, by decide⟩, rfl, by decide, by decide, rfl⟩

theorem switchHandler_well :
    SwitchesWell wordMemory twoThreads plainSite (switchHandler runnable) nestedThread.host := by
  refine ⟨by decide, fun e t pops hPoll hBack => ?_⟩
  cases hPoll
  cases hBack
  exact ⟨⟨by decide, by decide, by decide⟩, fun _ => ⟨by decide, by decide⟩⟩

/-- The deferral is pending, and the first thread is still current. -/
theorem deferredThread_safe : deferredThread.ctl.deferPending = true ∧
    DeferralSafe wordMemory twoThreads (SwitchesWell wordMemory twoThreads)
      ⟨deferredThread, 0x1000#32⟩ :=
  ⟨rfl, deferred_switches_safe twoThreads_apart twoThreads_mapped nestedThread_started
    (.single (.returned switchHandler_well deferredThread_check))⟩

/-- The first thread goes on until the next interrupt, at a site of the interpreter
where the switch has to wait. -/
def waitingThread : Host (Word → Word) :=
  { deferredThread with live := { deferredThread.live with cycle := 10000, pumpSite := 1 } }

/-- The second handler switches to the second thread when it cannot run. -/
def strandedThread : Host (Word → Word) :=
  (checkInterruptsAt wordMemory (runHandler wordMemory (switchHandler 0)) plainSite
    waitingThread).host waitingThread

theorem strandedThread_check : checkInterruptsAt wordMemory
    (runHandler wordMemory (switchHandler 0)) plainSite waitingThread =
      .returned strandedThread 1 := rfl

/-- The first thread is executed under the TCB of the second while its switch is
pending. -/
theorem strandedThread_unsafe :
    ¬∀ s t : ThreadHost (Word → Word), Started wordMemory twoThreads s →
      Relation.ReflTransGen (HostStep wordMemory twoThreads fun _ _ _ => True) s t →
      t.host.ctl.deferPending = true → currentTcbPtr wordMemory t.host.cpu = t.running := by
  intro hClaim
  have hMove : GuestMove wordMemory twoThreads deferredThread waitingThread :=
    ⟨rfl, ⟨by decide, by decide, by decide⟩, rfl⟩
  have hRun : Relation.ReflTransGen (HostStep wordMemory twoThreads fun _ _ _ => True)
      nestedThread ⟨strandedThread, 0x1000#32⟩ :=
    ((Relation.ReflTransGen.single (.returned trivial deferredThread_check)).tail
      (.guest hMove)).tail (.returned trivial strandedThread_check)
  have hCurrent := hClaim _ _ nestedThread_started hRun rfl
  exact absurd hCurrent (by decide)

end RecompStudio.Threads
