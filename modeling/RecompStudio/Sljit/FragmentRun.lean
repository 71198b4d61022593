import RecompStudio.Sljit.TryCompile
import RecompStudio.Sljit.GprLive
import RecompStudio.Interp.Step

/-!
The fragment under the interpreter, from its entry to the `jr` that leaves it.
A guest call is run as a unit, by the same callee as in a shard.
-/

namespace RecompStudio.Sljit

open RecompStudio.Emitted
open RecompStudio.Insn
open RecompStudio.Interp

variable {M : Type}

/-- The word that the interpreter fetches. -/
def Fragment.fetch (F : Fragment) (pc : Word) : Option Word :=
  if (pc - F.entry) &&& 3#32 = 0 then F.words[(pc - F.entry).toNat / 4]? else none

/-- `exec_one` on the words of the fragment. None of its delay slots executes a slot of
its own. -/
def Fragment.execOne (F : Fragment) (h : Host M) (pc : Word) (s : CPUState M) :
    Option (Stepped M) :=
  (StepHost.onWords h fun a => (F.fetch a).getD 0).execOne true 1 pc (.ofCpu s)

/-- How a step of the interpreter ends: in the fragment, outside of it, or not
at all. -/
inductive Outcome (M : Type) where
  | next (pc : Word) (s : CPUState M)
  | exit (pc : Word) (s : CPUState M)
  | stuck

/-- The callee of the call at `pc`, and the return to it. -/
def interpCall (p : Platform M) (cps : Bool) (pc : Word) (check : Bool) (s : CPUState M) :
    Outcome M :=
  let r := p.guestCall.run s.pc (pc + 8#32) check { s with pc := 0 }
  if r.2 then .exit (nextGuestPc cps r.1) r.1 else .next (pc + 8#32) r.1

/-- A control transfer, once its delay slot has run. -/
@[grind =]
def interpTransfer (p : Platform M) (cps : Bool) (pc w : Word) (s : CPUState M) : Outcome M :=
  match Op.ofWord w with
  | .jr => .exit s.pc s
  | .jal => interpCall p cps pc true s
  | .jalr => interpCall p cps pc (rd w = 0 || rd w = 31) s
  | _ => .next s.pc s

@[grind =]
def interpStep (p : Platform M) (cps : Bool) (F : Fragment) (pc : Word) (s : CPUState M) :
    Outcome M :=
  match F.fetch pc with
  | none => .stuck
  | some w =>
      if rejectsDelaySlot w then
        match F.fetch (pc + 4#32) with
        | none => .stuck
        | some _ =>
            match F.execOne p.host pc s with
            | some r =>
                if r.state.unsupported then .stuck else interpTransfer p cps pc w r.state.cpu
            | none => .stuck
      else
        match execPlain p.host pc w s with
        | .advance s' => .next (pc + 4#32) s'
        | _ => .stuck

@[grind =] def interpRun (p : Platform M) (cps : Bool) (F : Fragment) :
    Nat → Word → CPUState M → Option (Word × CPUState M)
  | 0, _, _ => none
  | fuel + 1, pc, s =>
      match interpStep p cps F pc s with
      | .next pc' s' => interpRun p cps F fuel pc' s'
      | .exit pc' s' => some (pc', s')
      | .stuck => none

/-- The interpreter, entering the fragment with `s`, leaves it for `next` with
`t`. -/
def InterpExits (p : Platform M) (cps : Bool) (F : Fragment) (s : CPUState M) (next : Word)
    (t : CPUState M) : Prop :=
  ∃ fuel, interpRun p cps F fuel F.entry s = some (next, t)

/-- Where the interpreter comes by in the fragment. -/
inductive InterpReaches (p : Platform M) (cps : Bool) (F : Fragment) (pc : Word)
    (s : CPUState M) : Word → CPUState M → Prop where
  | start : InterpReaches p cps F pc s pc s
  | step {pc₁ pc₂ : Word} {s₁ s₂ : CPUState M} (prior : InterpReaches p cps F pc s pc₁ s₁)
      (last : interpStep p cps F pc₁ s₁ = .next pc₂ s₂) : InterpReaches p cps F pc s pc₂ s₂

/-- A coprocessor operation that the interpreter has. -/
@[grind =] def copKnown (w : Word) : Prop :=
  Op.ofWord w = .cop2 → rs w = 0x00 ∨ rs w = 0x02 ∨ rs w = 0x04 ∨ rs w = 0x06 ∨ rs w &&& 0x10 ≠ 0

instance (w : Word) : Decidable (copKnown w) := inferInstanceAs (Decidable (_ → _))

/-- The steps on which the compiler keeps to the order of the interpreter. A
branch that links tests what it would test without the link; a return goes where
`$ra` says before its delay slot as after it; a jump stays in the segment of the
entry; and outside continuation-passing mode a computed jump does not go to zero,
which would be a return. -/
structure InOrder (p : Platform M) (cps : Bool) (F : Fragment) (pc : Word) (s : CPUState M) :
    Prop where
  known : ∀ w, F.fetch pc = some w → copKnown w
  slotKnown : ∀ w slot, F.fetch pc = some w → rejectsDelaySlot w = true →
    F.fetch (pc + 4#32) = some slot → copKnown slot
  link : ∀ w, F.fetch pc = some w → branchLinks w = true →
    branchTaken w (s.setGpr 31 (pc + 8#32)) = branchTaken w s
  ret : ∀ w slot s', F.fetch pc = some w → F.fetch (pc + 4#32) = some slot →
    Op.ofWord w = .jr → rs w = 31 → execPlain p.host (pc + 4#32) slot s = .advance s' →
      s'.gpr 31 = s.gpr 31
  tail : ∀ w, F.fetch pc = some w → Op.ofWord w = .jr → rs w ≠ 31 → cps = false →
    s.gpr (rs w) ≠ 0
  jump : ∀ w, F.fetch pc = some w → Op.ofWord w = .j →
    (pc + 4#32) &&& 0xF0000000#32 = F.entry &&& 0xE0000000#32

/-- A shard has left `cpu` where the interpreter has left `t` and goes on at
`next`. -/
structure SameExit (cps : Bool) (cpu : CPUState M) (next : Word) (t : CPUState M) : Prop where
  gpr : cpu.gpr = t.gpr
  rest : SameRest cpu t
  next : nextGuestPc cps cpu = next

end RecompStudio.Sljit
