import RecompStudio.Gte.Steps
import Mathlib.Tactic.IntervalCases
import Mathlib.Tactic.Linarith

/-!
What the flag register means, and for which states and command words the
commands give it that meaning. The accumulators are compared with the 44-bit
signed range; every other bit is about the value that a limiter got.
-/

namespace RecompStudio.Gte

/-- The exact accumulator is in the range of 44 signed bits. -/
@[grind =] def Fits44 (v : Int) : Prop := -2 ^ 43 ≤ v ∧ v < 2 ^ 43

/-- The bit number `n` is to be set for an event. -/
def Event.Sets (n : Nat) : Event → Prop
  | .accumulated i a => (n = 30 - i.val ∧ 2 ^ 43 ≤ a) ∨ (n = 27 - i.val ∧ a < -2 ^ 43)
  | .macChecked _ _ => False
  | .ir i lm v => n = 24 - i.val ∧ ¬(irFloor lm ≤ v ∧ v ≤ 0x7FFF)
  | .colour i v => n = 21 - i.val ∧ ¬(0 ≤ v ∧ v ≤ 255)
  | .sz v => n = 18 ∧ ¬(0 ≤ v ∧ v ≤ 0xFFFF)
  | .divided h sz3 => n = 17 ∧ 2 * sz3.toNat ≤ h.toNat
  | .mac0 v => (n = 16 ∧ 2 ^ 31 ≤ v) ∨ (n = 15 ∧ v < -2 ^ 31)
  | .sx v => n = 14 ∧ ¬(-0x400 ≤ v ∧ v ≤ 0x3FF)
  | .sy v => n = 13 ∧ ¬(-0x400 ≤ v ∧ v ≤ 0x3FF)
  | .ir0 v => n = 12 ∧ ¬(0 ≤ v ∧ v ≤ 0x1000)

/-- The bits that the summary is taken of. -/
def IsError (n : Nat) : Prop := 23 ≤ n ∧ n ≤ 30 ∨ 13 ≤ n ∧ n ≤ 18

instance (n : Nat) : Decidable (IsError n) := inferInstanceAs (Decidable (_ ∨ _))

/-- Bit 31 is set exactly when one of bits 30-23 or 18-13 is set. -/
def Summarised (flag : Word) : Prop :=
  flag.getLsbD 31 = true ↔ ∃ n, IsError n ∧ flag.getLsbD n = true

/-- The flags after a command that met the given events. -/
structure Documented (flag : Word) (log : List Event) : Prop where
  bits : ∀ n < 31, (flag.getLsbD n = true ↔ ∃ e ∈ log, e.Sets n)
  summary : Summarised flag

@[grind =] def flagsOf (log : List Event) : Word := log.foldl (fun flag e => flag ||| e.raises) 0

theorem getLsbD_foldl_raises (log : List Event) (flag : Word) (n : Nat) :
    (log.foldl (fun flag e => flag ||| e.raises) flag).getLsbD n = true ↔
      flag.getLsbD n = true ∨ ∃ e ∈ log, e.raises.getLsbD n = true := by
  induction log generalizing flag with
  | nil => simp
  | cons e log ih =>
      rw [List.foldl_cons, ih, BitVec.getLsbD_or, Bool.or_eq_true, or_assoc]
      simp

theorem getLsbD_flagsOf (log : List Event) (n : Nat) :
    (flagsOf log).getLsbD n = true ↔ ∃ e ∈ log, e.raises.getLsbD n = true := by
  rw [flagsOf, getLsbD_foldl_raises]
  simp

/-- The register is what the events so far raised. -/
def Tracks (p : Pass) : Prop := p.regs.flag = flagsOf p.log

theorem tracks_closed : Closed Tracks where
  meet {p} events hp := by
    change events.foldl _ p.regs.flag = flagsOf (p.log ++ events)
    rw [hp, flagsOf, flagsOf, List.foldl_append]
  update hChange hp := (hChange.flag _).trans hp
  pushSxy {p} sx sy hp := by
    change List.foldl _ p.regs.flag _ = flagsOf (p.log ++ _)
    rw [hp, flagsOf, flagsOf, List.foldl_append]

/-- The flags of a command: what was raised, and the summary. -/
theorem command_flag {ws : Widescreen} {w : Word} {g : GTEState} {p : Pass}
    (hCommand : command ws w g = some p) :
    p.regs.flag = if flagsOf p.log &&& flagErrorMask ≠ 0 then flagsOf p.log ||| flagErrorBit
      else flagsOf p.log := by
  obtain ⟨q, hq, rfl⟩ := tracks_closed.command (g := g) rfl hCommand
  change (if q.regs.flag &&& flagErrorMask ≠ 0 then _ else _) = _
  rw [hq]
  rfl

theorem getLsbD_flagBit {k : Nat} (hK : k < 32) (n : Nat) :
    (flagBit k).getLsbD n = true ↔ n = k := by
  rw [flagBit, BitVec.getLsbD_shiftLeft, BitVec.getLsbD_one]
  simp only [Bool.and_eq_true, Bool.not_eq_true', decide_eq_true_eq, decide_eq_false_iff_not]
  omega

theorem getLsbD_raised {k : Nat} (hK : k < 32) (c : Prop) [Decidable c] (n : Nat) :
    (if c then flagBit k else 0).getLsbD n = true ↔ n = k ∧ c := by
  by_cases hC : c
  · rw [if_pos hC, getLsbD_flagBit hK]
    exact ⟨fun h => ⟨h, hC⟩, And.left⟩
  · rw [if_neg hC]
    simp [hC]

/-- A limiter raises its bit on either side. -/
theorem getLsbD_limited {k : Nat} (hK : k < 32) {low high v : Int} (n : Nat) :
    (if v < low then flagBit k else if v > high then flagBit k else 0).getLsbD n = true ↔
      n = k ∧ ¬(low ≤ v ∧ v ≤ high) := by
  have hMerge : (if v < low then flagBit k else if v > high then flagBit k else 0) =
      if ¬(low ≤ v ∧ v ≤ high) then flagBit k else 0 := by
    split_ifs <;> first | rfl | omega
  rw [hMerge, getLsbD_raised hK]

/-- The events whose bits the source and the documentation agree on. -/
@[grind =] def Event.Plain : Event → Prop
  | .accumulated _ _ => False
  | .macChecked _ _ => False
  | _ => True

theorem raises_iff_sets {e : Event} (hPlain : e.Plain) (n : Nat) :
    e.raises.getLsbD n = true ↔ e.Sets n := by
  cases e with
  | accumulated | macChecked => exact hPlain.elim
  | ir | colour => exact getLsbD_limited (by omega) n
  | sz | sx | sy | ir0 => exact getLsbD_limited (by norm_num) n
  | divided h sz3 =>
      change (if sz3.toNat * 2 ≤ h.toNat then flagBit 17 else 0).getLsbD n = true ↔
        n = 17 ∧ 2 * sz3.toNat ≤ h.toNat
      rw [getLsbD_raised (by norm_num), Nat.mul_comm]
  | mac0 v =>
      change ((if v > 0x7FFFFFFF then flagBit 16 else 0) |||
          (if v < -0x80000000 then flagBit 15 else 0)).getLsbD n = true ↔
        (n = 16 ∧ 2 ^ 31 ≤ v) ∨ (n = 15 ∧ v < -2 ^ 31)
      rw [BitVec.getLsbD_or, Bool.or_eq_true, getLsbD_raised (by norm_num),
        getLsbD_raised (by norm_num)]
      omega

theorem macChecked_raises (i : Fin 3) (v : Int) : (Event.macChecked i v).raises =
    (if v > 0x7FFFFFFFF then flagBit (30 - i) else 0) |||
      (if v < -0x800000000 then flagBit (27 - i) else 0) := rfl

theorem macChecked_raises_iff (i : Fin 3) (v : Int) (n : Nat) :
    (Event.macChecked i v).raises.getLsbD n = true ↔
      (n = 30 - i.val ∧ 2 ^ 35 ≤ v) ∨ (n = 27 - i.val ∧ v < -2 ^ 35) := by
  rw [macChecked_raises, BitVec.getLsbD_or, Bool.or_eq_true, getLsbD_raised (by omega),
    getLsbD_raised (by omega)]
  omega

theorem accumulated_raises (i : Fin 3) (a : Int) (n : Nat) :
    ¬(Event.accumulated i a).raises.getLsbD n = true := by
  change ¬(0 : Word).getLsbD n = true
  simp

/-- The overflow bits of MAC1 to MAC3 belong to no other event. -/
theorem plain_sets_lt {e : Event} (hPlain : e.Plain) {n : Nat} (hSets : e.Sets n) : n < 25 := by
  cases e with
  | accumulated | macChecked => exact hPlain.elim
  | ir | colour => exact hSets.1.trans_lt (by omega)
  | sz | divided | sx | sy | ir0 => exact hSets.1.trans_lt (by norm_num)
  | mac0 v => rcases hSets with ⟨rfl, -⟩ | ⟨rfl, -⟩ <;> norm_num

theorem raises_lt {e : Event} {n : Nat} (hRaises : e.raises.getLsbD n = true) : n < 31 := by
  by_cases hPlain : e.Plain
  · have hLt := plain_sets_lt hPlain ((raises_iff_sets hPlain n).mp hRaises)
    omega
  · cases e with
    | accumulated i a => exact absurd hRaises (accumulated_raises i a n)
    | macChecked i v =>
        rcases (macChecked_raises_iff i v n).mp hRaises with ⟨rfl, -⟩ | ⟨rfl, -⟩ <;> omega
    | _ => exact absurd trivial hPlain

theorem getLsbD_flagErrorMask : ∀ n < 32, (flagErrorMask.getLsbD n = true ↔ IsError n) := by
  decide

theorem masked_ne_zero_iff (flag : Word) :
    flag &&& flagErrorMask ≠ 0 ↔ ∃ n, IsError n ∧ flag.getLsbD n = true := by
  constructor
  · intro hNonzero
    by_contra hNone
    refine hNonzero (BitVec.eq_of_getLsbD_eq fun n hn => ?_)
    have hZero : (0 : Word).getLsbD n = false := BitVec.getLsbD_zero
    rw [BitVec.getLsbD_and, hZero]
    by_cases hError : IsError n
    · have hClear : ¬flag.getLsbD n = true := fun hSet => hNone ⟨n, hError, hSet⟩
      simp [hClear]
    · have hMask : ¬flagErrorMask.getLsbD n = true := fun h =>
        hError ((getLsbD_flagErrorMask n hn).mp h)
      simp [hMask]
  · rintro ⟨n, hError, hSet⟩ hZero
    have hn : n < 32 := by rcases hError with h | h <;> omega
    have hBit : (flag &&& flagErrorMask).getLsbD n = true := by
      rw [BitVec.getLsbD_and, hSet, (getLsbD_flagErrorMask n hn).mpr hError]
      rfl
    rw [hZero] at hBit
    exact absurd hBit (by simp)

section Command

variable {ws : Widescreen} {w : Word} {g : GTEState} {p : Pass}

theorem command_getLsbD (hCommand : command ws w g = some p) {n : Nat} (hn : n < 31) :
    p.regs.flag.getLsbD n = true ↔ ∃ e ∈ p.log, e.raises.getLsbD n = true := by
  have hErrorBit : ¬flagErrorBit.getLsbD n = true := by
    rw [show flagErrorBit = flagBit 31 from rfl, getLsbD_flagBit (by norm_num)]
    omega
  rw [command_flag hCommand, ← getLsbD_flagsOf]
  split
  · rw [BitVec.getLsbD_or, Bool.or_eq_true, or_iff_left hErrorBit]
  · rfl

/-- The summary bit is right whatever the other bits are. -/
theorem command_summarised (hCommand : command ws w g = some p) : Summarised p.regs.flag := by
  have hRaised : ¬(flagsOf p.log).getLsbD 31 = true := by
    rw [getLsbD_flagsOf]
    rintro ⟨e, -, hRaises⟩
    exact absurd (raises_lt hRaises) (by norm_num)
  have hSame : (∃ n, IsError n ∧ p.regs.flag.getLsbD n = true) ↔
      ∃ n, IsError n ∧ (flagsOf p.log).getLsbD n = true := by
    refine exists_congr fun n => and_congr_right fun hError => ?_
    have hn : n < 31 := by rcases hError with h | h <;> omega
    rw [command_getLsbD hCommand hn, getLsbD_flagsOf]
  rw [Summarised, hSame, ← masked_ne_zero_iff, command_flag hCommand]
  split
  · rename_i hMasked
    have hErrorBit : flagErrorBit.getLsbD 31 = true := by decide
    exact iff_of_true (by rw [BitVec.getLsbD_or, hErrorBit, Bool.or_true]) hMasked
  · rename_i hMasked
    exact iff_of_false hRaised hMasked

/-- The meaning of the bits, event by event. -/
theorem documented_iff (hCommand : command ws w g = some p) :
    Documented p.regs.flag p.log ↔
      ∀ n < 31, (∃ e ∈ p.log, e.raises.getLsbD n = true) ↔ ∃ e ∈ p.log, e.Sets n := by
  constructor
  · intro hDocumented n hn
    rw [← command_getLsbD hCommand hn]
    exact hDocumented.bits n hn
  · intro hBits
    refine ⟨fun n hn => ?_, command_summarised hCommand⟩
    rw [command_getLsbD hCommand hn]
    exact hBits n hn

end Command

/-- An accumulator in its range; a check that does not fire. -/
@[grind =] def Event.InRange : Event → Prop
  | .accumulated _ a => Fits44 a
  | _ => True

def Event.Unflagged : Event → Prop
  | .macChecked _ v => -2 ^ 35 ≤ v ∧ v < 2 ^ 35
  | _ => True

/-- Where no check fires, the bits are right exactly when no accumulator leaves
the 44-bit range. -/
theorem bits_iff_inRange {log : List Event} (hUnflagged : ∀ e ∈ log, e.Unflagged) :
    (∀ n < 31, (∃ e ∈ log, e.raises.getLsbD n = true) ↔ ∃ e ∈ log, e.Sets n) ↔
      ∀ e ∈ log, e.InRange := by
  constructor
  · intro hBits e he
    by_contra hOut
    cases e with
    | accumulated i a =>
        -- The overflow has a bit, which only a check that fires could raise.
        obtain ⟨n, hHigh, hn, hSets⟩ : ∃ n, 25 ≤ n ∧ n < 31 ∧ (Event.accumulated i a).Sets n := by
          simp only [Event.InRange, Fits44, not_and_or, not_le, not_lt] at hOut
          rcases hOut with hLow | hHigh
          · exact ⟨27 - i, by omega, by omega, Or.inr ⟨rfl, hLow⟩⟩
          · exact ⟨30 - i, by omega, by omega, Or.inl ⟨rfl, hHigh⟩⟩
        obtain ⟨e', he', hRaises⟩ := (hBits n hn).mpr ⟨_, he, hSets⟩
        by_cases hPlain : e'.Plain
        · have hLt := plain_sets_lt hPlain ((raises_iff_sets hPlain n).mp hRaises)
          omega
        · cases e' with
          | accumulated j b => exact accumulated_raises j b n hRaises
          | macChecked j v =>
              have hQuiet := hUnflagged _ he'
              rcases (macChecked_raises_iff j v n).mp hRaises with ⟨-, hFires⟩ | ⟨-, hFires⟩
              · exact absurd hQuiet.2 (by omega)
              · exact absurd hQuiet.1 (by omega)
          | _ => exact absurd trivial hPlain
    | _ => exact hOut trivial
  · intro hInRange n hn
    refine exists_congr fun e => and_congr_right fun he => ?_
    by_cases hPlain : e.Plain
    · exact raises_iff_sets hPlain n
    · cases e with
      | accumulated i a =>
          have hFits : Fits44 a := hInRange _ he
          refine iff_of_false (accumulated_raises i a n) ?_
          rintro (⟨-, hOver⟩ | ⟨-, hUnder⟩)
          · exact absurd hFits.2 (by omega)
          · exact absurd hFits.1 (by omega)
      | macChecked i v =>
          have hQuiet := hUnflagged _ he
          refine iff_of_false (fun hRaises => ?_) False.elim
          rcases (macChecked_raises_iff i v n).mp hRaises with ⟨-, hFires⟩ | ⟨-, hFires⟩
          · exact absurd hQuiet.2 (by omega)
          · exact absurd hQuiet.1 (by omega)
      | _ => exact absurd trivial hPlain

end RecompStudio.Gte
