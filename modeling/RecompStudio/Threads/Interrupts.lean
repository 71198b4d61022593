import RecompStudio.Threads.Switch

/-!
The delivery of interrupts. `psx_check_interrupts` runs the guest's exception
handler as a call of its own and decides, once it has come back, which registers
the interrupted code goes on with and what becomes of a switch of threads that
the handler has made.
-/

namespace RecompStudio.Threads

variable {M : Type}

/-- `PSX_EXC_ESCAPE_*`. -/
inductive EscapeReason where
  | none | rfeReturn | syscallReturn | legacySentinel
deriving DecidableEq, Repr

/-- What guest code and devices change. -/
structure Live (M : Type) where
  cpu : CPUState M
  iStat : Word
  iMask : Word
  cycle : Nat
  dispatchDepth : Int
  callUnitDepth : Int
  dirtyResumePc : Word
  pumpSite : Int

/-- The statics of the interrupt code. -/
structure Control where
  inException : Bool
  nestDepth : Nat
  rfePending : Bool
  reason : EscapeReason
  realEpc : Word
  cooldownUntil : Nat
  /-- The frame that `exception_jmpbuf` leads to. -/
  armed : Nat
  epoch : Nat
  compiledResumePc : Word
  lastCheckPc : Word
  deferPending : Bool
  deferTarget : Word
  deferFrom : Word
deriving DecidableEq, Repr

structure Host (M : Type) where
  live : Live M
  ctl : Control

/-- Where a check is made: by a block leader with its PC or by another caller, and
what the devices that it services first do. -/
structure Site where
  resumePc : Option Word
  raised : Word
  skipped : Nat
  idleSkip : Bool
deriving DecidableEq, Repr

/-- How a handler ends: it comes back to the frame of its delivery, having popped
the status register so many times itself, or it jumps to a frame that is gone. -/
inductive HandlerEnd (M : Type) where
  | back (h : Host M) (pops : Nat)
  | undefined

/-- How a check ends: it returns, with the pops of the status register by handler
and host, or it unwinds to the scheduler. -/
inductive CheckEnd (M : Type) where
  | returned (h : Host M) (pops : Nat)
  | unwound (h : Host M)
  | undefined

namespace Host

variable (h : Host M)

@[grind =] def cpu : CPUState M := h.live.cpu

def withCpu (cpu : CPUState M) : Host M := { h with live := { h.live with cpu := cpu } }

@[simp] theorem withCpu_cpu (cpu : CPUState M) : (h.withCpu cpu).cpu = cpu := rfl

@[simp] theorem withCpu_ctl (cpu : CPUState M) : (h.withCpu cpu).ctl = h.ctl := rfl

/-- The PC that the interrupted code goes on at. -/
def takePc : Word :=
  if h.live.dirtyResumePc ≠ 0 then h.live.dirtyResumePc else h.ctl.compiledResumePc

end Host

/-- `same_guest_pc`. -/
def sameGuestPc (a b : Word) : Bool := (a ^^^ b) &&& 0x1FFFFFFF#32 == 0

variable (G : GuestMemory M)

/-- The current TCB, as the interrupt code reads it. -/
def kernelTcb (m : M) : Word :=
  let pcb := G.read m 0x108#32
  if pcb = 0 then 0 else G.read m (pcb &&& 0x1FFFFFFF#32)

/-- How far a check gets before it delivers. -/
inductive Poll (M : Type) where
  | returns (h : Host M)
  | unwinds (h : Host M)
  | delivers (h : Host M)

/-- The devices have been serviced. -/
def Site.service (o : Site) (h : Host M) : Host M :=
  { live := { h.live with iStat := h.live.iStat ||| o.raised, cycle := h.live.cycle + o.skipped }
    ctl := { h.ctl with lastCheckPc := h.takePc } }

/-- The deferral is over. -/
def Control.withoutDeferral (c : Control) : Control :=
  { c with deferPending := false, deferTarget := 0, deferFrom := 0 }

/-- A deferred switch is honoured, given up or kept. -/
@[grind =] def honourDeferred (h : Host M) : Poll M :=
  if !h.ctl.deferPending || h.ctl.inException then .returns h
  else if h.ctl.deferFrom = 0 ∨ h.ctl.deferTarget = 0 ∨
      currentTcbPtr G h.cpu ≠ h.ctl.deferFrom then
    .returns { h with ctl := h.ctl.withoutDeferral }
  else if h.live.pumpSite ≠ 0 then .returns h
  else if h.ctl.lastCheckPc ≠ 0 ∧ h.ctl.lastCheckPc &&& 3#32 = 0 ∧
      isDispatchable h.ctl.lastCheckPc then
    let saved := saveContextToTcb G h.cpu h.ctl.deferFrom h.ctl.lastCheckPc
    .unwinds
      { live := { h.live with cpu := setCurrentTcb G saved h.ctl.deferTarget }
        ctl := { h.ctl.withoutDeferral with compiledResumePc := 0 } }
  else .returns h

/-- The gates in front of a delivery. -/
@[grind =] def gates (h : Host M) : Poll M :=
  if h.live.iStat &&& h.live.iMask = 0 then .returns h
  else if h.ctl.inException && (decide (2 ≤ h.ctl.nestDepth) || h.ctl.rfePending ||
      h.ctl.reason != .none || !h.cpu.sr.getLsbD 0) then .returns h
  else if h.ctl.cooldownUntil ≠ 0 ∧ h.live.cycle < h.ctl.cooldownUntil then .returns h
  else
    let h := { h with ctl := { h.ctl with cooldownUntil := 0 } }
    if !h.cpu.sr.getLsbD 0 || !h.cpu.sr.getLsbD 10 then .returns h else .delivers h

/-- `psx_check_interrupts`, up to the delivery. -/
@[grind =] def poll (o : Site) (h : Host M) : Poll M :=
  if !h.ctl.inException && (h.live.iStat &&& h.live.iMask) == 0 && !h.ctl.deferPending &&
      !o.idleSkip then .returns h
  else if h.ctl.inException && !h.cpu.sr.getLsbD 0 then .returns h
  else
    match honourDeferred G (o.service h) with
    | .returns h => gates h
    | ended => ended

/-- A real PC to come back to. -/
def realPc (pc : Word) : Bool :=
  pc != 0 && pc &&& 3#32 == 0 && decide (pc &&& 0x1FFFFFFF#32 < 0x00200000#32)

/-- The host at the dispatch of the handler. -/
def enter (h : Host M) : Host M :=
  let real := realPc h.takePc
  let epc := if real then h.takePc else sentinelPc
  let sr := pushStatus h.cpu.sr
  { live :=
      { h.live with
        cpu :=
          { h.cpu with
            cop0 := fun r =>
              if r = 12 then sr
              else if r = 13 then (h.cpu.cop0 13 &&& ~~~0x7C#32) ||| 0x400#32
              else if r = 14 then epc
              else h.cpu.cop0 r
            mem := if real then h.cpu.mem else G.write sr sentinelPc 0 h.cpu.mem }
        dispatchDepth := 0
        dirtyResumePc := 0 }
    ctl :=
      { h.ctl with
        inException := true
        nestDepth := h.ctl.nestDepth + 1
        rfePending := false
        reason := if real then .none else .legacySentinel
        realEpc := epc
        armed := h.ctl.epoch + 1
        epoch := h.ctl.epoch + 1 } }

/-- The interrupted registers are put back: on the sentinel, or if the handler came
back to the PC that was last interrupted. -/
def doRestore (t : Host M) : Bool :=
  t.ctl.reason == .legacySentinel || (t.ctl.realEpc != 0 && sameGuestPc t.cpu.pc t.ctl.realEpc)

/-- The status register, popped unless interrupts are on. -/
def leftStatus (sr : Word) : Word := if sr.getLsbD 0 then sr else popStatus sr

/-- The registers of a CPU in another. -/
def withRegs (cpu regs : CPUState M) : CPUState M :=
  { cpu with gpr := regs.gpr, hi := regs.hi, lo := regs.lo }

/-- The cooldown behind a handler. -/
def cooldown (before : Word) (t : Live M) : Nat :=
  if t.iStat &&& t.iMask ≠ 0 ∧ t.iStat = before then t.cycle + 8192
  else if ((before &&& ~~~t.iStat) ||| (t.iStat &&& t.iMask)) &&& 0x80#32 ≠ 0 then 0
  else t.cycle + 128

/-- The host behind a handler that was entered from `h` and came back in `t`. -/
@[grind =] def left (h t : Host M) : Host M :=
  let cpu := if doRestore t then withRegs t.cpu h.cpu else t.cpu
  { live :=
      { t.live with
        cpu := { cpu with cop0 := Function.update cpu.cop0 12 (leftStatus t.cpu.sr) }
        dispatchDepth := h.live.dispatchDepth
        dirtyResumePc := h.live.dirtyResumePc }
    ctl :=
      { t.ctl with
        inException := h.ctl.inException
        nestDepth := t.ctl.nestDepth - 1
        rfePending := false
        reason := .none
        cooldownUntil := cooldown h.live.iStat t.live } }

/-- What becomes of a switch of threads by the handler. -/
inductive Departure where
  | stays | defers | unwinds
deriving DecidableEq, Repr

/-- The switch can wait, and the interrupted code has a PC of its own. -/
def canDefer (h t : Host M) : Bool :=
  !decide (t.ctl.realEpc &&& 0x1FFFFFFF#32 < 0x00010000#32) &&
    !(h.live.dispatchDepth == 0 && t.live.callUnitDepth == 0) &&
    t.ctl.realEpc != 0 && t.ctl.realEpc &&& 3#32 == 0 && t.ctl.realEpc != sentinelPc &&
    isDispatchable t.ctl.realEpc

def departure (h t : Host M) : Departure :=
  let entryTcb := kernelTcb G (enter G h).cpu.mem
  let exitTcb := kernelTcb G t.cpu.mem
  if h.ctl.inException = true ∨ entryTcb = 0 ∨ exitTcb = 0 ∨ entryTcb = exitTcb then .stays
  else if G.read t.cpu.mem (exitTcb &&& 0x1FFFFFFF#32) ≠ runnable then .stays
  else if canDefer h t then .defers
  else .unwinds

/-- The interrupted thread goes on, and the switch waits. -/
def deferSwitch (h t : Host M) : Host M :=
  let entryTcb := kernelTcb G (enter G h).cpu.mem
  let l := left h t
  let cpu : CPUState M := { withRegs l.cpu h.cpu with
    cop0 := Function.update l.cpu.cop0 12 h.cpu.sr
    pc := t.ctl.realEpc }
  { live := { l.live with cpu := setCurrentTcb G cpu entryTcb }
    ctl :=
      { l.ctl with
        deferFrom := entryTcb
        deferTarget := kernelTcb G t.cpu.mem
        deferPending := true
        compiledResumePc := 0 } }

/-- The end of a delivery from `h` whose handler came back in `t`. -/
@[grind =] def leave (h t : Host M) (pops : Nat) : CheckEnd M :=
  match departure G h t with
  | .stays => .returned (left h t) (pops + if t.cpu.sr.getLsbD 0 then 0 else 1)
  | .defers => .returned (deferSwitch G h t) (pops + if t.cpu.sr.getLsbD 0 then 0 else 1)
  | .unwinds => .unwound { left h t with ctl := { (left h t).ctl with compiledResumePc := 0 } }

/-- A delivery, with what the handler does as a function of its frame. -/
def deliver (handle : Nat → Host M → HandlerEnd M) (h : Host M) : CheckEnd M :=
  match handle (h.ctl.epoch + 1) (enter G h) with
  | .undefined => .undefined
  | .back t pops => leave G h t pops

/-- `psx_check_interrupts`. -/
def checkInterrupts (handle : Nat → Host M → HandlerEnd M) (o : Site) (h : Host M) : CheckEnd M :=
  match poll G o h with
  | .returns h => .returned h 0
  | .unwinds h => .unwound h
  | .delivers h => deliver G handle h

/-- `psx_check_interrupts_at` for a block leader, else `psx_check_interrupts`. -/
@[grind =]
def checkInterruptsAt (handle : Nat → Host M → HandlerEnd M) (o : Site) (h : Host M) : CheckEnd M :=
  match o.resumePc with
  | none => checkInterrupts G handle o h
  | some pc =>
      match checkInterrupts G handle o { h with ctl := { h.ctl with compiledResumePc := pc } } with
      | .returned h' pops => .returned
          { h' with ctl := { h'.ctl with compiledResumePc := h.ctl.compiledResumePc } } pops
      | ended => ended

/-- The course of a handler: guest code, `rfe` instructions, system calls to
ReturnFromException, RestoreState redirects and checks that may deliver again, up to
its return or to the jump that ends it. -/
inductive Handler (M : Type) where
  | ret
  | escape
  | act (f : Live M → Live M) (next : Handler M)
  | rfe (keepsOld : Bool) (next : Handler M)
  | syscallReturn (next : Handler M)
  | redirect (next : Handler M)
  | check (o : Site) (inner next : Handler M)

/-- The `rfe` of the game code keeps the oldest pair of the status register, the one
of the BIOS clears it. -/
def rfeStatus (keepsOld : Bool) (sr : Word) : Word :=
  if keepsOld then (sr &&& 0xFFFFFFF0#32) ||| ((sr >>> 2) &&& 0x0F#32) else popStatus sr

/-- `psx_rfe_mark_escape`. -/
def markEscape (h : Host M) : Host M :=
  if h.ctl.inException && h.ctl.reason != .legacySentinel then
    { h with ctl := { h.ctl with rfePending := true, reason := .rfeReturn } }
  else h

/-- One more pop by the handler. -/
def HandlerEnd.popped : HandlerEnd M → HandlerEnd M
  | .back h pops => .back h (pops + 1)
  | .undefined => .undefined

/-- A jump to the frame of `exception_jmpbuf` from the handler of a frame. -/
def jump (frame : Nat) (h : Host M) : HandlerEnd M :=
  if h.ctl.armed = frame then .back { h with live := { h.live with dispatchDepth := 0 } } 0
  else .undefined

/-- The handler of a delivery with a frame. -/
def runHandler : Handler M → Nat → Host M → HandlerEnd M
  | .ret, _, h => .back h 0
  | .escape, frame, h => jump frame h
  | .act f next, frame, h => runHandler next frame { h with live := f h.live }
  | .rfe keepsOld next, frame, h =>
      let cop0 := Function.update h.cpu.cop0 12 (rfeStatus keepsOld h.cpu.sr)
      (runHandler next frame (markEscape (h.withCpu { h.cpu with cop0 := cop0 }))).popped
  | .syscallReturn next, frame, h =>
      let h' := h.withCpu (returnFromException G h.cpu)
      if currentTcbPtr G h.cpu = 0 then (runHandler next frame h').popped
      else (jump frame { h' with ctl := { h'.ctl with
        reason := .syscallReturn, rfePending := false } }).popped
  | .redirect next, frame, h =>
      match jump frame h with
      | .back h _ => runHandler next frame h
      | .undefined => .undefined
  | .check o inner next, frame, h =>
      match checkInterruptsAt G (runHandler inner) o h with
      | .returned h _ => runHandler next frame h
      | .unwound _ => .undefined
      | .undefined => .undefined

end RecompStudio.Threads
