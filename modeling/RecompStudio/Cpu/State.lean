import RecompStudio.Cpu.Word
import Mathlib.Logic.Function.Basic

/-!
The guest CPU state that all backends share, and the memory bus behind it.
-/

namespace RecompStudio

/-- `CPUState`, without the timing fields. `mem` is whatever lies behind the
memory callbacks: RAM, scratchpad and devices. -/
structure CPUState (M : Type) where
  gpr : RegIndex → Word
  pc : Word
  hi : Word
  lo : Word
  cop0 : RegIndex → Word
  gteData : RegIndex → Word
  gteCtrl : RegIndex → Word
  mem : M

/-- The memory callbacks. A read may have effects, as device registers do; a
write also depends on the status register, whose cache-isolation bit drops it. -/
structure Bus (M : Type) where
  readWord : Word → M → Word × M
  readHalf : Word → M → BitVec 16 × M
  readByte : Word → M → BitVec 8 × M
  writeWord : Word → Word → Word → M → M
  writeHalf : Word → Word → BitVec 16 → M → M
  writeByte : Word → Word → BitVec 8 → M → M

namespace CPUState

variable {M : Type}

def setGpr (s : CPUState M) (r : RegIndex) (v : Word) : CPUState M :=
  { s with gpr := Function.update s.gpr r v }

/-- The status register. -/
@[grind =] def sr (s : CPUState M) : Word := s.cop0 12

@[simp] theorem setGpr_gpr (s : CPUState M) (r : RegIndex) (v : Word) :
    (s.setGpr r v).gpr = Function.update s.gpr r v := rfl

@[simp] theorem setGpr_pc (s : CPUState M) (r : RegIndex) (v : Word) :
    (s.setGpr r v).pc = s.pc := rfl

@[simp] theorem setGpr_hi (s : CPUState M) (r : RegIndex) (v : Word) :
    (s.setGpr r v).hi = s.hi := rfl

@[simp] theorem setGpr_lo (s : CPUState M) (r : RegIndex) (v : Word) :
    (s.setGpr r v).lo = s.lo := rfl

@[simp] theorem setGpr_cop0 (s : CPUState M) (r : RegIndex) (v : Word) :
    (s.setGpr r v).cop0 = s.cop0 := rfl

@[simp] theorem setGpr_gteData (s : CPUState M) (r : RegIndex) (v : Word) :
    (s.setGpr r v).gteData = s.gteData := rfl

@[simp] theorem setGpr_gteCtrl (s : CPUState M) (r : RegIndex) (v : Word) :
    (s.setGpr r v).gteCtrl = s.gteCtrl := rfl

@[simp] theorem setGpr_mem (s : CPUState M) (r : RegIndex) (v : Word) :
    (s.setGpr r v).mem = s.mem := rfl

/-- Storing into the zero register what it already holds changes nothing. -/
theorem setGpr_eq_self (s : CPUState M) {r : RegIndex} {v : Word} (h : s.gpr r = v) :
    s.setGpr r v = s := by
  obtain ⟨gpr, pc, hi, lo, cop0, gteData, gteCtrl, mem⟩ := s
  simp only [setGpr, ← h, Function.update_eq_self]

end CPUState

end RecompStudio
