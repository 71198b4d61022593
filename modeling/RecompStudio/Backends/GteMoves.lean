import RecompStudio.CodeGen.Translate
import Mathlib.Tactic.IntervalCases

/-!
The emitters move some GTE registers straight in and out of the register
arrays where the runtime goes through its accessors. A direct write leaves the
same working state behind; a direct read can return bits that the accessor
masks.
-/

namespace RecompStudio.Gte

open RecompStudio.CodeGen

theorem exists_ofNat_regIndex (r : RegIndex) : ∃ n < 32, r = BitVec.ofNat 5 n :=
  ⟨r.toNat, r.isLt, by simp⟩

/-- The fields that the working state keeps twice. -/
structure GTEState.Consistent (g : GTEState) : Prop where
  sxy3 : g.sxy3 = g.sxy2
  lzcr : g.lzcr = leadingCount g.lzcs

@[simp] theorem low_pair16 (a b : BitVec 16) : low (pair16 a b) = a := by
  apply BitVec.eq_of_getLsbD_eq
  intro i hi
  have hBit : (b ++ a).getLsbD i = a.getLsbD i := by
    rw [BitVec.getLsbD_append, if_pos hi]
  simpa [low, pair16, hi] using hBit

@[simp] theorem high_pair16 (a b : BitVec 16) : high (pair16 a b) = b := by
  apply BitVec.eq_of_getLsbD_eq
  intro i hi
  have hBit : (b ++ a).getLsbD (16 + i) = b.getLsbD i := by
    rw [BitVec.getLsbD_append, if_neg (by omega), Nat.add_sub_cancel_left]
  simpa [high, pair16, hi] using hBit

@[simp] theorem low_zeroExtend (a : BitVec 16) : low (a.zeroExtend 32) = a := by
  ext i hi
  simp [low, BitVec.getLsbD_eq_getElem hi]
  omega

@[simp] theorem low_signExtend (a : BitVec 16) : low (a.signExtend 32) = a := by
  ext i hi
  simp [low, BitVec.getLsbD_signExtend, hi]
  omega

theorem consistent_unpackRegisters (d c : RegIndex → Word) (p : Bool) :
    (unpackRegisters d c p).Consistent := ⟨rfl, rfl⟩

theorem unpackRegisters_pack {g : GTEState} (hg : g.Consistent) :
    unpackRegisters (packData g) (packCtrl g) true = g := by
  obtain ⟨hSxy, hLzcr⟩ := hg
  obtain ⟨⟨v0x, v0y, v0z⟩, ⟨v1x, v1y, v1z⟩, ⟨v2x, v2y, v2z⟩, rgbc, otz, ir0, ir1, ir2, ir3,
    sxy0, sxy1, sxy2, sxy3, sz0, sz1, sz2, sz3, rgb0, rgb1, rgb2, mac0, mac1, mac2, mac3,
    lzcs, lzcr, ⟨⟨_, _, _⟩, ⟨_, _, _⟩, ⟨_, _, _⟩⟩, ⟨_, _, _⟩, ⟨⟨_, _, _⟩, ⟨_, _, _⟩, ⟨_, _, _⟩⟩,
    ⟨_, _, _⟩, ⟨⟨_, _, _⟩, ⟨_, _, _⟩, ⟨_, _, _⟩⟩, ⟨_, _, _⟩, ofx, ofy, h, dqa, dqb, zsf3, zsf4,
    flag⟩ := g
  simp only at hSxy hLzcr
  subst hSxy hLzcr
  simp [unpackRegisters, packData, packCtrl, packMat, unpackMat]

/-- A direct write to an array and the accessor's write agree for the data
registers that the emitters write directly. -/
theorem unpackRegisters_update_data {r : RegIndex} (hr : gteDataWriteSpecial r = false)
    (d c : RegIndex → Word) (v : Word) :
    unpackRegisters (Function.update d r v) c true = mtc2 (unpackRegisters d c true) r v := by
  obtain ⟨n, hn, rfl⟩ := exists_ofNat_regIndex r
  interval_cases n <;> first | exact absurd hr (by decide) | rfl

theorem unpackRegisters_update_ctrl {r : RegIndex} (hr : gteCtrlSpecial r = false)
    (d c : RegIndex → Word) (v : Word) :
    unpackRegisters d (Function.update c r v) true = ctc2 (unpackRegisters d c true) r v := by
  obtain ⟨n, hn, rfl⟩ := exists_ofNat_regIndex r
  interval_cases n <;> first | exact absurd hr (by decide) | rfl

theorem consistent_mtc2 {g : GTEState} (hg : g.Consistent) (r : RegIndex) (v : Word) :
    (mtc2 g r v).Consistent := by
  unfold mtc2
  split <;> first | exact ⟨hg.sxy3, hg.lzcr⟩ | exact ⟨rfl, hg.lzcr⟩ | exact ⟨hg.sxy3, rfl⟩

theorem consistent_ctc2 {g : GTEState} (hg : g.Consistent) (r : RegIndex) (v : Word) :
    (ctc2 g r v).Consistent := by
  unfold ctc2
  split <;> exact ⟨hg.sxy3, hg.lzcr⟩

/-- What a data register holds besides the bits that its accessor returns. -/
def dataBeyond (r : RegIndex) (v : Word) : Word :=
  match r.toNat with
  | 1 | 3 | 5 | 7 | 16 | 17 | 18 | 19 => v &&& 0xFFFF0000#32
  | 23 => v
  | _ => 0

/-- What a control register holds besides the bits that its accessor returns. -/
def ctrlBeyond (r : RegIndex) (v : Word) : Word :=
  match r.toNat with
  | 4 | 12 | 20 => v &&& 0xFFFF0000#32
  | _ => 0

theorem dataBeyond_special {r : RegIndex} (hr : gteDataReadSpecial r = true) (v : Word) :
    dataBeyond r v = 0 := by
  obtain ⟨n, hn, rfl⟩ := exists_ofNat_regIndex r
  interval_cases n <;> first | rfl | exact absurd hr (by decide)

theorem ctrlBeyond_special {r : RegIndex} (hr : gteCtrlSpecial r = true) (v : Word) :
    ctrlBeyond r v = 0 := by
  obtain ⟨n, hn, rfl⟩ := exists_ofNat_regIndex r
  interval_cases n <;> first | rfl | exact absurd hr (by decide)

theorem pair16_low_high (v : Word) : pair16 (low v) (high v) = v := by
  apply BitVec.eq_of_getLsbD_eq
  intro i hi
  have hBit : (high v ++ low v).getLsbD i = v.getLsbD i := by
    rw [BitVec.getLsbD_append]
    split
    · simp [low, *]
    · have hLt : i - 16 < 16 := by omega
      simp [high, hLt, show 16 + (i - 16) = i by omega]
  exact hBit

theorem eq_zeroExtend_low_iff (v : Word) :
    v = (low v).zeroExtend 32 ↔ v &&& 0xFFFF0000#32 = 0 := by
  have hMask : ∀ i < 32, (0xFFFF0000#32).getLsbD i = decide (16 ≤ i) := by decide
  constructor
  · intro h
    apply BitVec.eq_of_getLsbD_eq
    intro i hi
    rw [h]
    rw [BitVec.getLsbD_and, hMask i hi]
    by_cases hLow : i < 16
    · simp [hLow]
    · simp [low, hLow]
  · intro h
    apply BitVec.eq_of_getLsbD_eq
    intro i hi
    have hBit : (v &&& 0xFFFF0000#32).getLsbD i = false := by simp [h]
    rw [BitVec.getLsbD_and, hMask i hi] at hBit
    by_cases hLow : i < 16
    · simp [low, hLow, hi]
    · have hHigh : v.getLsbD i = false := by simpa [show 16 ≤ i by omega] using hBit
      rw [hHigh]
      simp [low, hLow]

variable {M : Type} (s : CPUState M)

/-- A direct read of a data register returns what the accessor returns exactly
when the array holds nothing beyond the register's width. -/
theorem gteData_eq_readData_iff {r : RegIndex} (hr : gteDataReadSpecial r = false) :
    s.gteData r = readData s r ↔ dataBeyond r (s.gteData r) = 0 := by
  obtain ⟨n, hn, rfl⟩ := exists_ofNat_regIndex r
  interval_cases n
  all_goals first
    | exact absurd hr (by decide)
    | exact iff_of_true rfl rfl
    | exact iff_of_true (pair16_low_high _).symm rfl
    | exact eq_zeroExtend_low_iff _
    | exact Iff.rfl

theorem gteCtrl_eq_readCtrl_iff {r : RegIndex} (hr : gteCtrlSpecial r = false) :
    s.gteCtrl r = readCtrl s r ↔ ctrlBeyond r (s.gteCtrl r) = 0 := by
  obtain ⟨n, hn, rfl⟩ := exists_ofNat_regIndex r
  interval_cases n
  all_goals first
    | exact absurd hr (by decide)
    | exact iff_of_true rfl rfl
    | exact iff_of_true (pair16_low_high _).symm rfl
    | exact eq_zeroExtend_low_iff _

end RecompStudio.Gte
