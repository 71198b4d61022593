import RecompStudio.Spu.State
import Mathlib.Tactic.Linarith

/-!
The envelope of a voice over any accesses and samples: its level and divider stay in
range, its phases follow each other, and it rises in attack and falls in decay and
release.
-/

namespace RecompStudio.Spu

theorem rateIncrement_up {speed : Nat} (hSpeed : speed < 128) :
    0 ≤ rateIncrement speed false ∧ rateIncrement speed false ≤ 14336 := by
  revert speed
  decide

theorem rateIncrement_down {speed : Nat} (hSpeed : speed < 128) :
    -16384 ≤ rateIncrement speed true ∧ rateIncrement speed true ≤ 0 := by
  revert speed
  decide

theorem rateDivinco_le (speed : Nat) : rateDivinco speed ≤ 32768 := by
  rw [rateDivinco]
  split
  · rw [Nat.shiftRight_eq_div_pow]
    exact Nat.div_le_self _ _
  · exact Nat.le_refl _

theorem field_lt (raw : BitVec 32) (pos width : Nat) : field raw pos width < 2 ^ width :=
  Nat.mod_lt _ (Nat.two_pow_pos width)

/-- Shifting right keeps the sign and does not enlarge. -/
theorem shiftRight_bounds {x b : Int} (n : Nat) (hLow : 0 ≤ x) (hHigh : x ≤ b) :
    0 ≤ x >>> n ∧ x >>> n ≤ b := by
  rw [Int.shiftRight_eq_div_pow]
  exact ⟨Int.ediv_nonneg hLow (by positivity), (Int.ediv_le_self _ hLow).trans hHigh⟩

section Deltas

variable {zs speed : Nat} {level : BitVec 16}

theorem calcVcDelta_divinco (logMode decMode inv : Bool) :
    (calcVcDelta zs speed logMode decMode inv level).2 ≤ 32768 := by
  have hRate := rateDivinco_le speed
  have hShift (n : Nat) : rateDivinco speed >>> n ≤ 32768 := by
    rw [Nat.shiftRight_eq_div_pow]
    exact (Nat.div_le_self _ _).trans hRate
  simp only [calcVcDelta]
  split_ifs <;> first | exact hRate | exact hShift _ | omega

/-- Upwards the level rises by a bounded step. -/
theorem calcVcDelta_up (hSpeed : speed < 128) (logMode : Bool) :
    0 ≤ (calcVcDelta zs speed logMode false false level).1 ∧
      (calcVcDelta zs speed logMode false false level).1 ≤ 14336 := by
  have hRate := rateIncrement_up hSpeed
  simp only [calcVcDelta]
  split_ifs <;> first | exact hRate | exact shiftRight_bounds _ hRate.1 hRate.2 | simp_all

/-- Downwards it falls by a bounded step. -/
theorem calcVcDelta_down (hSpeed : speed < 128) (hLevel : level.toNat ≤ 0x7FFF) (logMode : Bool) :
    -16384 ≤ (calcVcDelta zs speed logMode true true level).1 ∧
      (calcVcDelta zs speed logMode true true level).1 ≤ 0 := by
  have hRate := rateIncrement_down hSpeed
  have hInt : level.toInt = level.toNat := BitVec.toInt_eq_toNat_of_lt (by omega)
  simp only [calcVcDelta, if_true]
  cases logMode with
  | false => exact hRate
  | true =>
      simp only [if_true]
      rw [hInt, Int.shiftRight_eq_div_pow]
      have hLow : -16384 * 32768 ≤ (level.toNat : Int) * rateIncrement speed true := by nlinarith
      have hHigh : (level.toNat : Int) * rateIncrement speed true ≤ 0 :=
        mul_nonpos_of_nonneg_of_nonpos (by omega) hRate.2
      omega

end Deltas

/-- What a phase adds to the level, and where an over- or underflow ends. -/
inductive PhaseStep : Int → BitVec 16 → Prop where
  | rising {increment : Int} (hLow : 0 ≤ increment) (hHigh : increment ≤ 14336) :
      PhaseStep increment 0x7FFF
  | falling {increment : Int} (hLow : -16384 ≤ increment) (hHigh : increment ≤ 0) :
      PhaseStep increment 0

section Steps

variable {raw : BitVec 32} {level : BitVec 16}

theorem phaseDelta_attack :
    PhaseStep (phaseDelta raw level .attack).1.1 (phaseDelta raw level .attack).2 ∧
      0 ≤ (phaseDelta raw level .attack).1.1 := by
  have hBounds := @calcVcDelta_up 0x7F _ level (field_lt raw 8 7) (field raw 15 1 = 1)
  exact ⟨.rising hBounds.1 hBounds.2, hBounds.1⟩

/-- Decay and release have rates in steps of four. -/
theorem phaseDelta_decay (hLevel : level.toNat ≤ 0x7FFF) :
    PhaseStep (phaseDelta raw level .decay).1.1 (phaseDelta raw level .decay).2 ∧
      (phaseDelta raw level .decay).1.1 ≤ 0 ∧ (phaseDelta raw level .decay).2 = 0 := by
  have hRate : field raw 4 4 * 4 < 128 := by
    have hField := field_lt raw 4 4
    omega
  have hBounds := @calcVcDelta_down (0x1F * 4) _ level hRate hLevel true
  exact ⟨.falling hBounds.1 hBounds.2, hBounds.2, rfl⟩

theorem phaseDelta_release (hLevel : level.toNat ≤ 0x7FFF) :
    PhaseStep (phaseDelta raw level .release).1.1 (phaseDelta raw level .release).2 ∧
      (phaseDelta raw level .release).1.1 ≤ 0 ∧ (phaseDelta raw level .release).2 = 0 := by
  have hRate : field raw 16 5 * 4 < 128 := by
    have hField := field_lt raw 16 5
    omega
  have hBounds := @calcVcDelta_down (0x1F * 4) _ level hRate hLevel (field raw 21 1 = 1)
  exact ⟨.falling hBounds.1 hBounds.2, hBounds.2, rfl⟩

theorem phaseDelta_sustain (hLevel : level.toNat ≤ 0x7FFF) :
    PhaseStep (phaseDelta raw level .sustain).1.1 (phaseDelta raw level .sustain).2 := by
  have hRate := field_lt raw 22 7
  by_cases hDec : field raw 30 1 = 1
  · have hBounds := @calcVcDelta_down 0x7F _ level hRate hLevel (field raw 31 1 = 1)
    simp only [phaseDelta, hDec, decide_true, if_true]
    exact .falling hBounds.1 hBounds.2
  · have hBounds := @calcVcDelta_up 0x7F _ level hRate (field raw 31 1 = 1)
    simp only [phaseDelta, hDec, decide_false, Bool.false_eq_true, if_false]
    exact .rising hBounds.1 hBounds.2

theorem phaseDelta_step (hLevel : level.toNat ≤ 0x7FFF) (phase : AdsrPhase) :
    PhaseStep (phaseDelta raw level phase).1.1 (phaseDelta raw level phase).2 := by
  cases phase with
  | attack => exact phaseDelta_attack.1
  | decay => exact (phaseDelta_decay hLevel).1
  | sustain => exact phaseDelta_sustain hLevel
  | release => exact (phaseDelta_release hLevel).1

theorem phaseDelta_divinco (phase : AdsrPhase) : (phaseDelta raw level phase).1.2 ≤ 32768 := by
  cases phase <;> exact calcVcDelta_divinco _ _ _

theorem and_top_eq_zero_iff (x : BitVec 16) : x &&& 0x8000 = 0 ↔ x.toNat < 0x8000 := by
  have hTop : x.getLsbD 15 = decide (2 ^ 15 ≤ x.toNat) :=
    (BitVec.msb_eq_getLsbD_last x).symm.trans (BitVec.msb_eq_decide x)
  change x &&& BitVec.twoPow 16 15 = 0 ↔ _
  rw [BitVec.and_twoPow, hTop]
  by_cases h : 2 ^ 15 ≤ x.toNat
  · rw [if_pos (decide_eq_true h)]
    exact ⟨fun hZero => absurd hZero (by decide), fun hLt => absurd h (Nat.not_le.mpr hLt)⟩
  · rw [if_neg (by simpa using h)]
    exact ⟨fun _ => Nat.not_le.mp h, fun _ => rfl⟩

/-- From a level in range, bit 15 has rolled over when it is set. -/
theorem rolled_eq (next : BitVec 16) (hLevel : level.toNat < 0x8000) :
    (level ^^^ next) &&& next &&& 0x8000 = next &&& 0x8000 := by
  have hClear := (and_top_eq_zero_iff level).mpr hLevel
  refine BitVec.eq_of_getLsbD_eq fun i hi => ?_
  have hBit := congrArg (BitVec.getLsbD · i) hClear
  have hZero : BitVec.getLsbD (0 : BitVec 16) i = false := BitVec.getLsbD_zero
  simp only [BitVec.getLsbD_and, BitVec.getLsbD_xor, hZero] at hBit ⊢
  cases hTop : BitVec.getLsbD (0x8000 : BitVec 16) i with
  | false => simp only [Bool.and_false]
  | true =>
      rw [hTop, Bool.and_true] at hBit
      rw [hBit, Bool.false_xor, Bool.and_self]

/-- A level in range is stepped to the sum, or to the reset when that leaves the range. -/
theorem steppedLevel_eq (phase : AdsrPhase) (reset : BitVec 16) {increment : Int}
    (hLevel : level.toNat ≤ 0x7FFF) (hLow : -16384 ≤ increment) (hHigh : increment ≤ 14336) :
    steppedLevel phase level increment reset =
      if 0 ≤ level.toNat + increment ∧ level.toNat + increment ≤ 0x7FFF then
        BitVec.ofInt 16 (level.toNat + increment)
      else reset := by
  have hNext : (BitVec.ofInt 16 (level.toNat + increment)).toNat =
      ((level.toNat + increment) % 65536).toNat := BitVec.toNat_ofInt _
  have hRange : BitVec.ofInt 16 (level.toNat + increment) &&& 0x8000 = 0 ↔
      0 ≤ level.toNat + increment ∧ level.toNat + increment ≤ 0x7FFF := by
    rw [and_top_eq_zero_iff, hNext]
    omega
  simp only [steppedLevel, rolled_eq _ (Nat.lt_succ_of_le hLevel), ite_self, ne_eq, hRange, ite_not]

/-- What a step of the level keeps. -/
theorem steppedLevel_bounds (phase : AdsrPhase) {reset : BitVec 16} {increment : Int}
    (hLevel : level.toNat ≤ 0x7FFF) (hStep : PhaseStep increment reset) :
    (steppedLevel phase level increment reset).toNat ≤ 0x7FFF ∧
      (0 ≤ increment → level.toNat ≤ (steppedLevel phase level increment reset).toNat ∨ reset = 0) ∧
      (increment ≤ 0 → reset = 0 →
        (steppedLevel phase level increment reset).toNat ≤ level.toNat) := by
  have hNext : (BitVec.ofInt 16 (level.toNat + increment)).toNat =
      ((level.toNat + increment) % 65536).toNat := BitVec.toNat_ofInt _
  have hZero : (0 : BitVec 16).toNat = 0 := rfl
  have hFull : (0x7FFF : BitVec 16).toNat = 0x7FFF := rfl
  cases hStep with
  | rising hLow hHigh =>
      rw [steppedLevel_eq phase _ hLevel (by omega) hHigh]
      split_ifs with hIn
      · rw [hNext]
        exact ⟨by omega, fun _ => Or.inl (by omega), fun _ _ => by omega⟩
      · rw [hFull]
        exact ⟨Nat.le_refl _, fun _ => Or.inl hLevel, fun _ h => absurd h (by decide)⟩
  | falling hLow hHigh =>
      rw [steppedLevel_eq phase _ hLevel hLow (by omega)]
      split_ifs with hIn
      · rw [hNext]
        exact ⟨by omega, fun _ => Or.inr rfl, fun _ _ => by omega⟩
      · rw [hZero]
        exact ⟨Nat.zero_le _, fun _ => Or.inr rfl, fun _ _ => Nat.zero_le _⟩

end Steps

/-- The ranges of the envelope's registers. -/
@[grind =]
def InRange (v : Voice) : Prop := v.envLevel.toNat ≤ 0x7FFF ∧ v.adsrDivider.toNat < 0x8000

/-- The phase that a sample is taken in: attack ends at the top. -/
def samplePhase (v : Voice) : AdsrPhase :=
  if v.adsrPhase = .attack ∧ v.envLevel = 0x7FFF then .decay else v.adsrPhase

/-- A divider in range, stepped without reaching bit 15, stays in range. -/
theorem divider_lt {divider : BitVec 32} {divinco : Nat} (hDivider : divider.toNat < 0x8000)
    (hStep : divinco ≤ 32768)
    (hClear : (divider + BitVec.ofNat 32 divinco) &&& 0x8000 = 0) :
    (divider + BitVec.ofNat 32 divinco).toNat < 0x8000 := by
  have hSum : (divider + BitVec.ofNat 32 divinco).toNat = divider.toNat + divinco := by
    rw [BitVec.toNat_add, BitVec.toNat_ofNat]
    omega
  have hBit := congrArg (BitVec.getLsbD · 15) hClear
  have hZero : BitVec.getLsbD (0 : BitVec 32) 15 = false := BitVec.getLsbD_zero
  have hOne : BitVec.getLsbD (0x8000 : BitVec 32) 15 = true := rfl
  have hTop : (divider + BitVec.ofNat 32 divinco).getLsbD 15 = false := by
    simpa only [BitVec.getLsbD_and, hZero, hOne, Bool.and_true] using hBit
  rw [BitVec.getLsbD, hSum, Nat.testBit_eq_decide_div_mod_eq, decide_eq_false_iff_not] at hTop
  rw [hSum]
  omega

variable (regs : Regs) (idx : Nat) {v : Voice}

/-- What one sample does to the envelope. -/
theorem adsrRun_step (hRange : InRange v) :
    InRange (adsrRun regs idx v) ∧
      ((adsrRun regs idx v).adsrPhase = samplePhase v ∨
        samplePhase v = .decay ∧ (adsrRun regs idx v).adsrPhase = .sustain) ∧
      (samplePhase v = .attack → v.envLevel.toNat ≤ (adsrRun regs idx v).envLevel.toNat) ∧
      (samplePhase v = .decay ∨ samplePhase v = .release →
        (adsrRun regs idx v).envLevel.toNat ≤ v.envLevel.toNat) := by
  obtain ⟨hLevel, hDivider⟩ := hRange
  have hDelta := @phaseDelta_step (adsrWord regs idx) v.envLevel hLevel (samplePhase v)
  have hBounds := steppedLevel_bounds (samplePhase v) hLevel hDelta
  have hZero : (0 : BitVec 32).toNat < 0x8000 := by decide
  rw [adsrRun, ← samplePhase]
  simp only
  by_cases hOver : v.adsrDivider +
      BitVec.ofNat 32 (phaseDelta (adsrWord regs idx) v.envLevel (samplePhase v)).1.2 &&& 0x8000 ≠ 0
  · rw [if_pos hOver]
    refine ⟨⟨hBounds.1, hZero⟩, ?_, ?_, ?_⟩
    · simp only
      split_ifs with hSustain
      · exact Or.inr ⟨hSustain.1, rfl⟩
      · exact Or.inl rfl
    · intro hAttack
      rw [hAttack] at hBounds ⊢
      exact (hBounds.2.1 phaseDelta_attack.2).resolve_right (by change ¬(0x7FFF#16 = 0); decide)
    · rintro (hPhase | hPhase)
      · rw [hPhase] at hBounds ⊢
        exact hBounds.2.2 (phaseDelta_decay hLevel).2.1 (phaseDelta_decay hLevel).2.2
      · rw [hPhase] at hBounds ⊢
        exact hBounds.2.2 (phaseDelta_release hLevel).2.1 (phaseDelta_release hLevel).2.2
  · rw [if_neg hOver]
    exact ⟨⟨hLevel, divider_lt hDivider (phaseDelta_divinco _) (not_not.mp hOver)⟩, Or.inl rfl,
      fun _ => Nat.le_refl _, fun _ => Nat.le_refl _⟩

end RecompStudio.Spu
