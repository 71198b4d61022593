import RecompStudio.Threads.Interrupts

/-!
What the interrupted thread finds when a check for interrupts returns. The host's
own counters are always as before. The registers and the status register depend on
how the handler came back.
-/

namespace RecompStudio.Threads

variable {M : Type}

/-- The counters and the latch that every check leaves. -/
structure SameFrame (h h' : Host M) : Prop where
  inException : h'.ctl.inException = h.ctl.inException
  nestDepth : h'.ctl.nestDepth = h.ctl.nestDepth
  dispatchDepth : h'.live.dispatchDepth = h.live.dispatchDepth
  dirtyResumePc : h'.live.dirtyResumePc = h.live.dirtyResumePc

/-- The part of them that a handler leaves. -/
structure SameNest (h h' : Host M) : Prop where
  inException : h'.ctl.inException = h.ctl.inException
  nestDepth : h'.ctl.nestDepth = h.ctl.nestDepth

theorem SameFrame.refl (h : Host M) : SameFrame h h := ⟨rfl, rfl, rfl, rfl⟩

theorem SameFrame.trans {h h' h'' : Host M} (a : SameFrame h h') (b : SameFrame h' h'') :
    SameFrame h h'' :=
  ⟨b.inException.trans a.inException, b.nestDepth.trans a.nestDepth,
    b.dispatchDepth.trans a.dispatchDepth, b.dirtyResumePc.trans a.dirtyResumePc⟩

theorem SameFrame.nest {h h' : Host M} (a : SameFrame h h') : SameNest h h' :=
  ⟨a.inException, a.nestDepth⟩

theorem SameNest.trans {h h' h'' : Host M} (a : SameNest h h') (b : SameNest h' h'') :
    SameNest h h'' :=
  ⟨b.inException.trans a.inException, b.nestDepth.trans a.nestDepth⟩

section Frames

variable {G : GuestMemory M} {h h' e t : Host M} {o : Site}

theorem service_frame (o : Site) (h : Host M) :
    SameFrame h (o.service h) ∧ (o.service h).cpu = h.cpu := ⟨⟨rfl, rfl, rfl, rfl⟩, rfl⟩

theorem honourDeferred_returns (hPoll : honourDeferred G h = .returns h') :
    SameFrame h h' ∧ h'.cpu = h.cpu := by
  unfold honourDeferred at hPoll
  split at hPoll
  · cases hPoll
    exact ⟨.refl h, rfl⟩
  split at hPoll
  · cases hPoll
    exact ⟨⟨rfl, rfl, rfl, rfl⟩, rfl⟩
  split at hPoll
  · cases hPoll
    exact ⟨.refl h, rfl⟩
  split at hPoll
  · exact absurd hPoll (by simp)
  · cases hPoll
    exact ⟨.refl h, rfl⟩

theorem honourDeferred_ne_delivers : honourDeferred G h ≠ .delivers e := by
  unfold honourDeferred
  repeat' split
  all_goals simp

/-- Where the gates lead, the frame and the CPU are as before. -/
theorem gates_frame (hGates : gates h = .returns h' ∨ gates h = .delivers h') :
    SameFrame h h' ∧ h'.cpu = h.cpu := by
  unfold gates at hGates
  dsimp only at hGates
  repeat' split at hGates
  all_goals
    rcases hGates with hEq | hEq <;> cases hEq
    exact ⟨⟨rfl, rfl, rfl, rfl⟩, rfl⟩

theorem poll_frame (hPoll : poll G o h = .returns h' ∨ poll G o h = .delivers h') :
    SameFrame h h' ∧ h'.cpu = h.cpu := by
  unfold poll at hPoll
  split at hPoll
  · rcases hPoll with hEq | hEq <;> cases hEq
    exact ⟨.refl h, rfl⟩
  split at hPoll
  · rcases hPoll with hEq | hEq <;> cases hEq
    exact ⟨.refl h, rfl⟩
  obtain ⟨hService, hCpu⟩ := service_frame o h
  cases hHonour : honourDeferred G (o.service h) with
  | returns g =>
      rw [hHonour] at hPoll
      obtain ⟨hFrame, hSame⟩ := honourDeferred_returns hHonour
      obtain ⟨hGate, hGateCpu⟩ := gates_frame hPoll
      exact ⟨(hService.trans hFrame).trans hGate, (hGateCpu.trans hSame).trans hCpu⟩
  | unwinds g =>
      rw [hHonour] at hPoll
      rcases hPoll with hEq | hEq <;> cases hEq
  | delivers g => exact absurd hHonour honourDeferred_ne_delivers

/-- A handler that leaves the depth and the mark of the exception. -/
def KeepsNest (handle : Nat → Host M → HandlerEnd M) : Prop :=
  ∀ frame h t pops, handle frame h = .back t pops → SameNest h t

theorem left_frame (hKept : SameNest (enter G h) t) : SameFrame h (left h t) := by
  refine ⟨rfl, ?_, rfl, rfl⟩
  have hDepth : t.ctl.nestDepth = h.ctl.nestDepth + 1 := hKept.nestDepth
  change t.ctl.nestDepth - 1 = h.ctl.nestDepth
  omega

theorem deferSwitch_frame (hKept : SameNest (enter G h) t) :
    SameFrame h (deferSwitch G h t) := by
  have hLeft := left_frame hKept
  exact ⟨rfl, hLeft.nestDepth, rfl, rfl⟩

theorem deliver_frame {handle : Nat → Host M → HandlerEnd M} (hKeeps : KeepsNest handle)
    {pops : Nat} (hReturned : deliver G handle h = .returned h' pops) : SameFrame h h' := by
  unfold deliver at hReturned
  split at hReturned
  · exact absurd hReturned (by simp)
  · rename_i t n hBack
    have hKept := hKeeps _ _ _ _ hBack
    unfold leave at hReturned
    split at hReturned
    · cases hReturned
      exact left_frame hKept
    · cases hReturned
      exact deferSwitch_frame hKept
    · exact absurd hReturned (by simp)

/-- On every exit that does not unwind, the frame is as before. -/
theorem check_frame {handle : Nat → Host M → HandlerEnd M} (hKeeps : KeepsNest handle)
    {pops : Nat} (hReturned : checkInterrupts G handle o h = .returned h' pops) :
    SameFrame h h' := by
  unfold checkInterrupts at hReturned
  split at hReturned
  · rename_i g hPoll
    cases hReturned
    exact (poll_frame (.inl hPoll)).1
  · exact absurd hReturned (by simp)
  · rename_i g hPoll
    exact (poll_frame (.inr hPoll)).1.trans (deliver_frame hKeeps hReturned)

theorem checkAt_frame {handle : Nat → Host M → HandlerEnd M} (hKeeps : KeepsNest handle)
    {pops : Nat} (hReturned : checkInterruptsAt G handle o h = .returned h' pops) :
    SameFrame h h' := by
  unfold checkInterruptsAt at hReturned
  split at hReturned
  · exact check_frame hKeeps hReturned
  · split at hReturned
    · rename_i g n hCheck
      obtain ⟨hIn, hDepth, hDispatch, hLatch⟩ := check_frame hKeeps hCheck
      cases hReturned
      exact ⟨hIn, hDepth, hDispatch, hLatch⟩
    · rename_i hOther
      exact absurd hReturned (hOther _ _)

/-- A relation that holds along every handler once checks have it: guest code, which
leaves the statics alone, has it, and so has what an escape notes. -/
structure AlongHandlers (G : GuestMemory M) (R : Host M → Host M → Prop) : Prop where
  trans : ∀ {h h' h''}, R h h' → R h' h'' → R h h''
  guest : ∀ h l, R h { h with live := l }
  escape : ∀ h reason pending, R h { h with ctl := { h.ctl with
    reason := reason, rfePending := pending } }
  check : ∀ {handle : Nat → Host M → HandlerEnd M} {o h h' pops},
    (∀ frame h t pops, handle frame h = .back t pops → R h t) →
    checkInterruptsAt G handle o h = .returned h' pops → R h h'

section Along

variable {R : Host M → Host M → Prop} (hAlong : AlongHandlers G R)

include hAlong

theorem AlongHandlers.jump {frame pops : Nat} (hBack : jump frame h = .back t pops) : R h t := by
  unfold Threads.jump at hBack
  split at hBack
  · cases hBack
    exact hAlong.guest h _
  · exact absurd hBack (by simp)

theorem AlongHandlers.markEscape : R h (markEscape h) := by
  unfold Threads.markEscape
  split
  · exact hAlong.escape h _ _
  · exact hAlong.guest h h.live

end Along

theorem back_of_popped {end' : HandlerEnd M} {pops : Nat} (hBack : end'.popped = .back t pops) :
    ∃ n, end' = .back t n := by
  cases end' with
  | back g n =>
      cases hBack
      exact ⟨n, rfl⟩
  | undefined => exact absurd hBack (by simp [HandlerEnd.popped])

/-- Whatever a handler does, with the deliveries inside it. -/
theorem AlongHandlers.run {R : Host M → Host M → Prop} (hAlong : AlongHandlers G R)
    (handler : Handler M) : ∀ frame h t pops, runHandler G handler frame h = .back t pops →
      R h t := by
  induction handler with
  | ret =>
      intro frame h t pops hBack
      cases hBack
      exact hAlong.guest h h.live
  | escape => exact fun frame h t pops hBack => hAlong.jump hBack
  | act f next ih =>
      exact fun frame h t pops hBack => hAlong.trans (hAlong.guest h _) (ih _ _ _ _ hBack)
  | rfe keepsOld next ih =>
      intro frame h t pops hBack
      obtain ⟨n, hNext⟩ := back_of_popped hBack
      exact hAlong.trans (hAlong.guest h _) (hAlong.trans hAlong.markEscape (ih _ _ _ _ hNext))
  | syscallReturn next ih =>
      intro frame h t pops hBack
      simp only [runHandler] at hBack
      split at hBack
      · obtain ⟨n, hNext⟩ := back_of_popped hBack
        exact hAlong.trans (hAlong.guest h _) (ih _ _ _ _ hNext)
      · obtain ⟨n, hJump⟩ := back_of_popped hBack
        exact hAlong.trans (hAlong.guest h _)
          (hAlong.trans (hAlong.escape _ _ _) (hAlong.jump hJump))
  | redirect next ih =>
      intro frame h t pops hBack
      simp only [runHandler] at hBack
      split at hBack
      · rename_i g n hJump
        exact hAlong.trans (hAlong.jump hJump) (ih _ _ _ _ hBack)
      · exact absurd hBack (by simp)
  | check o inner next ihInner ihNext =>
      intro frame h t pops hBack
      simp only [runHandler] at hBack
      split at hBack
      · rename_i g n hCheck
        exact hAlong.trans (hAlong.check ihInner hCheck) (ihNext _ _ _ _ hBack)
      · exact absurd hBack (by simp)
      · exact absurd hBack (by simp)

theorem sameNest_along : AlongHandlers G SameNest where
  trans a b := a.trans b
  guest _ _ := ⟨rfl, rfl⟩
  escape _ _ _ := ⟨rfl, rfl⟩
  check hKeeps hCheck := (checkAt_frame hKeeps hCheck).nest

end Frames

/-- Two CPUs have the same registers. -/
structure SameRegs (cpu cpu' : CPUState M) : Prop where
  gpr : cpu.gpr = cpu'.gpr
  hi : cpu.hi = cpu'.hi
  lo : cpu.lo = cpu'.lo

/-- What a check that delivers in `e` should do for the thread interrupted in `h`,
where the handler came back in `t`. -/
structure Transparent (G : GuestMemory M) (h e t : Host M) (out : CheckEnd M) : Prop where
  frame : ∀ h' pops, out = .returned h' pops → SameFrame h h'
  popped : ∀ h' pops, out = .returned h' pops → departure G e t ≠ .defers → pops = 1
  /-- The handler has left the current TCB. -/
  same : kernelTcb G t.cpu.mem = kernelTcb G (enter G e).cpu.mem → ∃ h' pops,
    out = .returned h' pops ∧ SameRegs h'.cpu h.cpu ∧ h'.cpu.sr = h.cpu.sr
  /-- The thread that it has switched to goes on with what the handler restored. -/
  stays : kernelTcb G t.cpu.mem ≠ kernelTcb G (enter G e).cpu.mem → departure G e t = .stays →
    ∃ h' pops, out = .returned h' pops ∧ SameRegs h'.cpu t.cpu
  /-- The interrupted thread goes on for the time being. -/
  defers : departure G e t = .defers → ∃ h' pops,
    out = .returned h' pops ∧ SameRegs h'.cpu h.cpu ∧ h'.cpu.sr = h.cpu.sr
  /-- The scheduler restores the thread that it has switched to from its TCB. -/
  unwinds : departure G e t = .unwinds → ∃ h', out = .unwound h' ∧
    kernelTcb G h'.cpu.mem = kernelTcb G t.cpu.mem ∧
    ∀ cpu, isValidTcb G h'.cpu (currentTcbPtr G h'.cpu) = true →
      schedulerResume G h'.cpu = some cpu →
      SameRegs cpu (restoreContextFromTcb G h'.cpu (currentTcbPtr G h'.cpu))

/-- What the handler has to do for that: leave the registers itself unless they are
put back, leave other registers only if they are not, and pop the status register
exactly if it leaves interrupts on. -/
structure Undisturbed (G : GuestMemory M) (e t : Host M) (pops : Nat) : Prop where
  same : kernelTcb G t.cpu.mem = kernelTcb G (enter G e).cpu.mem →
    (doRestore t = true ∨ SameRegs t.cpu e.cpu) ∧ leftStatus t.cpu.sr = e.cpu.sr
  switched : kernelTcb G t.cpu.mem ≠ kernelTcb G (enter G e).cpu.mem →
    departure G e t = .stays → doRestore t = false ∨ SameRegs t.cpu e.cpu
  popped : departure G e t = .stays → pops = if t.cpu.sr.getLsbD 0 then 1 else 0

section Delivery

variable {G : GuestMemory M} {h e t : Host M} {o : Site}

theorem left_sr : (left h t).cpu.sr = leftStatus t.cpu.sr := by
  simp only [CPUState.sr, left, Host.cpu, Function.update_self]

theorem left_mem : (left h t).cpu.mem = t.cpu.mem := by
  simp only [left, Host.cpu]
  split <;> rfl

theorem left_regs_restored (hRestore : doRestore t = true) : SameRegs (left h t).cpu h.cpu := by
  simp only [left, hRestore, if_true, Host.cpu]
  exact ⟨rfl, rfl, rfl⟩

theorem left_regs_kept (hRestore : doRestore t = false) : SameRegs (left h t).cpu t.cpu := by
  simp only [left, hRestore, Bool.false_eq_true, if_false, Host.cpu]
  exact ⟨rfl, rfl, rfl⟩

theorem setCurrentTcb_regs (cpu : CPUState M) (tcb : Word) :
    SameRegs (setCurrentTcb G cpu tcb) cpu ∧ (setCurrentTcb G cpu tcb).sr = cpu.sr := by
  unfold setCurrentTcb
  dsimp only
  split <;> exact ⟨⟨rfl, rfl, rfl⟩, rfl⟩

theorem deferSwitch_regs : SameRegs (deferSwitch G h t).cpu h.cpu ∧
    (deferSwitch G h t).cpu.sr = h.cpu.sr := by
  obtain ⟨⟨hGpr, hHi, hLo⟩, hSr⟩ :=
    setCurrentTcb_regs (G := G) ({ withRegs (left h t).cpu h.cpu with
    cop0 := Function.update (left h t).cpu.cop0 12 h.cpu.sr
    pc := t.ctl.realEpc }) (kernelTcb G (enter G h).cpu.mem)
  refine ⟨⟨hGpr, hHi, hLo⟩, hSr.trans ?_⟩
  simp only [CPUState.sr, Function.update_self]

theorem departure_of_same (hSame : kernelTcb G t.cpu.mem = kernelTcb G (enter G e).cpu.mem) :
    departure G e t = .stays := by
  unfold departure
  dsimp only
  rw [if_pos (.inr (.inr (.inr hSame.symm)))]

theorem schedulerResume_regs {cpu cpu' : CPUState M}
    (hValid : isValidTcb G cpu (currentTcbPtr G cpu) = true)
    (hResume : schedulerResume G cpu = some cpu') :
    SameRegs cpu' (restoreContextFromTcb G cpu (currentTcbPtr G cpu)) := by
  simp only [schedulerResume, hValid, if_true] at hResume
  split at hResume
  · cases hResume
    exact ⟨rfl, rfl, rfl⟩
  · exact absurd hResume (by simp)

theorem pops_eq_one_iff (b : Bool) (pops : Nat) :
    (pops + if b = true then 0 else 1) = 1 ↔ pops = if b = true then 1 else 0 := by
  cases b <;> simp

theorem leave_stays (hStays : departure G e t = .stays) (pops : Nat) :
    leave G e t pops = .returned (left e t) (pops + if t.cpu.sr.getLsbD 0 then 0 else 1) := by
  simp only [leave, hStays]

theorem leave_defers (hDefers : departure G e t = .defers) (pops : Nat) : leave G e t pops =
    .returned (deferSwitch G e t) (pops + if t.cpu.sr.getLsbD 0 then 0 else 1) := by
  simp only [leave, hDefers]

theorem leave_unwinds (hUnwinds : departure G e t = .unwinds) (pops : Nat) : leave G e t pops =
    .unwound { left e t with ctl := { (left e t).ctl with compiledResumePc := 0 } } := by
  simp only [leave, hUnwinds]

/-- A delivery whose handler comes back is transparent exactly if the handler leaves
the thread undisturbed. -/
theorem leave_transparent_iff (hCpu : e.cpu = h.cpu) (hFrame : SameFrame h e)
    (hKept : SameNest (enter G e) t) (pops : Nat) :
    Transparent G h e t (leave G e t pops) ↔ Undisturbed G e t pops := by
  constructor
  · intro hOut
    refine ⟨fun hSame => ?_, fun hOther hStays => ?_, fun hStays => ?_⟩
    · obtain ⟨h', n, hReturned, hRegs, hSr⟩ := hOut.same hSame
      rw [leave_stays (departure_of_same hSame)] at hReturned
      cases hReturned
      rw [left_sr] at hSr
      refine ⟨?_, hSr.trans (by rw [hCpu])⟩
      by_cases hRestore : doRestore t = true
      · exact .inl hRestore
      · rw [Bool.not_eq_true] at hRestore
        obtain ⟨hGpr, hHi, hLo⟩ := left_regs_kept (h := e) hRestore
        rw [hCpu]
        exact .inr ⟨hGpr.symm.trans hRegs.gpr, hHi.symm.trans hRegs.hi, hLo.symm.trans hRegs.lo⟩
    · obtain ⟨h', n, hReturned, hRegs⟩ := hOut.stays hOther hStays
      rw [leave_stays hStays] at hReturned
      cases hReturned
      by_cases hRestore : doRestore t = true
      · obtain ⟨hGpr, hHi, hLo⟩ := left_regs_restored (h := e) hRestore
        exact .inr ⟨hRegs.gpr.symm.trans hGpr, hRegs.hi.symm.trans hHi, hRegs.lo.symm.trans hLo⟩
      · exact .inl (Bool.not_eq_true _ ▸ hRestore)
    · have hOne := hOut.popped _ _ (leave_stays hStays pops) (by rw [hStays]; decide)
      exact (pops_eq_one_iff _ _).mp hOne
  · intro hIn
    refine ⟨fun h' n hReturned => ?_, fun h' n hReturned hNot => ?_, fun hSame => ?_,
      fun hOther hStays => ?_, fun hDefers => ?_, fun hUnwinds => ?_⟩
    · cases hDeparture : departure G e t with
      | stays =>
          rw [leave_stays hDeparture] at hReturned
          cases hReturned
          exact hFrame.trans (left_frame hKept)
      | defers =>
          rw [leave_defers hDeparture] at hReturned
          cases hReturned
          exact hFrame.trans (deferSwitch_frame hKept)
      | unwinds =>
          rw [leave_unwinds hDeparture] at hReturned
          exact absurd hReturned (by simp)
    · cases hDeparture : departure G e t with
      | stays =>
          rw [leave_stays hDeparture] at hReturned
          cases hReturned
          exact (pops_eq_one_iff _ _).mpr (hIn.popped hDeparture)
      | defers => exact absurd hDeparture hNot
      | unwinds =>
          rw [leave_unwinds hDeparture] at hReturned
          exact absurd hReturned (by simp)
    · obtain ⟨hRegs, hSr⟩ := hIn.same hSame
      refine ⟨_, _, leave_stays (departure_of_same hSame) pops, ?_, ?_⟩
      · rw [← hCpu]
        by_cases hRestore : doRestore t = true
        · exact left_regs_restored hRestore
        · obtain ⟨hGpr, hHi, hLo⟩ := hRegs.resolve_left hRestore
          obtain ⟨hGpr', hHi', hLo'⟩ := left_regs_kept (h := e) (Bool.not_eq_true _ ▸ hRestore)
          exact ⟨hGpr'.trans hGpr, hHi'.trans hHi, hLo'.trans hLo⟩
      · rw [left_sr, ← hCpu]
        exact hSr
    · refine ⟨_, _, leave_stays hStays pops, ?_⟩
      by_cases hRestore : doRestore t = true
      · obtain ⟨hGpr, hHi, hLo⟩ := (hIn.switched hOther hStays).resolve_left (by simp [hRestore])
        obtain ⟨hGpr', hHi', hLo'⟩ := left_regs_restored (h := e) hRestore
        exact ⟨hGpr'.trans hGpr.symm, hHi'.trans hHi.symm, hLo'.trans hLo.symm⟩
      · exact left_regs_kept (Bool.not_eq_true _ ▸ hRestore)
    · refine ⟨_, _, leave_defers hDefers pops, ?_⟩
      rw [← hCpu]
      exact deferSwitch_regs
    · refine ⟨_, leave_unwinds hUnwinds pops, congrArg (kernelTcb G) left_mem,
        fun cpu hValid hResume => ?_⟩
      exact schedulerResume_regs hValid hResume

end Delivery

/-- A check that delivers is transparent exactly if the handler comes back to the
frame of the delivery and leaves the interrupted thread undisturbed. -/
theorem interrupt_transparent_iff {G : GuestMemory M} {o : Site} {h e : Host M}
    (hPoll : poll G o h = .delivers e) (handler : Handler M) :
    (∃ t pops, runHandler G handler (e.ctl.epoch + 1) (enter G e) = .back t pops ∧
        Transparent G h e t (checkInterrupts G (runHandler G handler) o h)) ↔
      ∃ t pops, runHandler G handler (e.ctl.epoch + 1) (enter G e) = .back t pops ∧
        Undisturbed G e t pops := by
  obtain ⟨hFrame, hCpu⟩ := poll_frame (.inr hPoll)
  refine exists_congr fun t => exists_congr fun pops => and_congr_right fun hBack => ?_
  have hKept := sameNest_along.run handler _ _ _ _ hBack
  have hCheck : checkInterrupts G (runHandler G handler) o h = leave G e t pops := by
    simp only [checkInterrupts, hPoll, deliver, hBack]
  rw [hCheck]
  exact leave_transparent_iff hCpu hFrame hKept pops

/-- A thread at `0x80010000` with an interrupt pending. -/
def interruptedThread : Host (Word → Word) where
  live :=
    { cpu := firstThread
      iStat := 1
      iMask := 1
      cycle := 0
      dispatchDepth := 0
      callUnitDepth := 0
      dirtyResumePc := 0x80010000#32
      pumpSite := 0 }
  ctl := ⟨false, 0, false, .none, 0, 0, 0, 0, 0, 0, false, 0, 0⟩

/-- A check by the interpreter, with no device due. -/
def plainSite : Site := ⟨none, 0, 0, false⟩

/-- The delivering host. -/
def deliveringThread : Host (Word → Word) :=
  { interruptedThread with ctl := { interruptedThread.ctl with lastCheckPc := 0x80010000#32 } }

theorem poll_interruptedThread :
    poll wordMemory plainSite interruptedThread = .delivers deliveringThread := rfl

/-- Guest code leaves a register and a PC. -/
def leaves (pc : Word) (l : Live (Word → Word)) : Live (Word → Word) :=
  { l with cpu := { l.cpu with gpr := Function.update l.cpu.gpr 16 0, pc := pc } }

/-- A handler that uses a register and returns with `rfe` to the PC it was given. -/
def properHandler : Handler (Word → Word) := .act (leaves 0x80010000#32) (.rfe false .escape)

theorem properHandler_transparent : ∃ t pops,
    runHandler wordMemory properHandler 1 (enter wordMemory deliveringThread) = .back t pops ∧
      Transparent wordMemory interruptedThread deliveringThread t
        (checkInterrupts wordMemory (runHandler wordMemory properHandler) plainSite
          interruptedThread) := by
  refine (interrupt_transparent_iff poll_interruptedThread properHandler).mpr ⟨_, _, rfl, ?_⟩
  refine ⟨fun _ => ⟨.inl (by decide), by decide⟩, fun hOther => absurd rfl hOther, fun _ => rfl⟩

/-- A handler that returns as a function does, with another PC. -/
def returningHandler : Handler (Word → Word) := .act (leaves 0) .ret

/-- The interrupted thread goes on with a register of the handler. -/
theorem returningHandler_disturbs :
    ¬∀ (o : Site) (h e : Host (Word → Word)) (handler : Handler (Word → Word)),
      poll wordMemory o h = .delivers e → ∃ t pops,
        runHandler wordMemory handler (e.ctl.epoch + 1) (enter wordMemory e) = .back t pops ∧
          Transparent wordMemory h e t
            (checkInterrupts wordMemory (runHandler wordMemory handler) o h) := by
  intro hClaim
  obtain ⟨t, pops, hBack, hTransparent⟩ :=
    hClaim plainSite interruptedThread deliveringThread returningHandler poll_interruptedThread
  cases hBack
  obtain ⟨h', n, hReturned, hRegs, -⟩ := hTransparent.same rfl
  cases hReturned
  exact absurd (congrFun hRegs.gpr 16) (by decide)

end RecompStudio.Threads
