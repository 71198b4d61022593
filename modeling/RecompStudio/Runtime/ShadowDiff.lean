import RecompStudio.Cpu.State
import RecompStudio.Library.LastWrite
import RecompStudio.Runtime.OverlayLoader

/-!
`run_shadow_diff`: the interpreter runs a function, the native code runs it again
from the same CPU, RAM and scratchpad, and the interpreter's are copied back. The
stores and the checks of both passes go through the hooks of the memory and of the
loader, the copies do not.
-/

namespace RecompStudio.Runtime

/-- What a pass does at the memory and at the loader. The second check of a
continuation comes right behind the first and finds it current. -/
inductive PassEvent where
  | store (st : GuestStore)
  /-- A dispatch asks whether the code of a candidate is in memory. -/
  | check (i : Nat)
  | bless (phys : Nat)
  | text (phys : Nat)
  | register (f : DllFunction)
  | registerSljit (shard : SljitShard)
  | enter (i : Nat)
  | leave

namespace Loader

variable (T : KernelBodies) (s : Loader)

def setMem (mem : Memory) : Loader := { s with mem := mem }

/-- A copy of main memory, behind the back of the store hooks. -/
def copyRam (ram : Nat → Byte) : Loader := s.setMem { s.mem with ram := ram }

/-- A check of a candidate, which a blacklisted one fails as it is. -/
def checkCand (i : Nat) : Loader × Bool :=
  match s.cands[i]? with
  | none => (s, false)
  | some c =>
      if c.state = .blacklist then (s, false)
      else (s.setCand i (c.validate s.mem).1, (c.validate s.mem).2)

def passStep : PassEvent → Loader
  | .store st => s.store T st
  | .check i => (s.checkCand i).1
  | .bless phys => s.setMem (s.mem.blessDispatchable T phys).1
  | .text phys => s.setMem (s.mem.textNativeOk phys).1
  | .register f => s.candRegister f
  | .registerSljit shard => s.registerSljit shard
  | .enter i => s.push i
  | .leave => s.pop

def passRun (es : List PassEvent) : Loader := es.foldl (passStep T) s

end Loader

/-- A pass: its events, the CPU and the scratchpad that it leaves, and whether it
touched a device. -/
structure ShadowPass where
  events : List PassEvent
  cpu : CPUState Unit
  spad : Nat → Byte
  device : Bool

/-- The guest at a dispatch. -/
structure Guest where
  cpu : CPUState Unit
  spad : Nat → Byte
  loader : Loader

/-- The comparison of the two results. -/
def sameResult (native interp : CPUState Unit) (ramN ramI : Nat → Byte) : Bool :=
  (List.range 32).all (fun r => r = 0 || native.gpr (.ofNat 5 r) == interp.gpr (.ofNat 5 r)) &&
    native.hi == interp.hi && native.lo == interp.lo &&
    (List.range ramSize).all fun a => ramN a == ramI a

namespace Candidate

/-- The function has touched a device. -/
def markDevice (c : Candidate) : Candidate := { c with deviceTouch := true }

/-- The budget behind a comparison. -/
def credit (same : Bool) (c : Candidate) : Candidate :=
  { c with
    diffPasses :=
      if same then (if c.diffPasses < diffBudget then c.diffPasses + 1 else c.diffPasses) else 0 }

end Candidate

namespace Guest

variable (T : KernelBodies) (s : Guest)

def run (p : ShadowPass) : Guest := ⟨p.cpu, p.spad, s.loader.passRun T p.events⟩

def modifyCand (i : Nat) (f : Candidate → Candidate) : Guest :=
  { s with loader := { s.loader with cands := s.loader.cands.modify i f } }

/-- `run_shadow_diff` for candidate `i`. A function that touches a device has no
native pass. -/
def runShadowDiff (i : Nat) (interp native : ShadowPass) : Guest :=
  let kept := s.run T interp
  if interp.device then kept.modifyCand i Candidate.markDevice
  else
    let restored : Guest := ⟨s.cpu, s.spad, kept.loader.copyRam s.loader.mem.ram⟩
    let discarded := restored.run T native
    let same := sameResult discarded.cpu kept.cpu discarded.loader.mem.ram kept.loader.mem.ram
    Guest.modifyCand
      { kept with loader := discarded.loader.copyRam kept.loader.mem.ram } i (Candidate.credit same)

end Guest

end RecompStudio.Runtime
