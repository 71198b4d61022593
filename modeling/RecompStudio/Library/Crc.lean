import Mathlib.Data.List.Basic
import Mathlib.Logic.Function.Iterate
import Mathlib.Tactic.Common

/-!
Cyclic redundancy checks with the low bit first: the remainder of a stream of bytes, bit
by bit and from a table, and the changes that it tells apart.
-/

namespace RecompStudio.Crc

variable {w : Nat} (poly : BitVec w)

/-- The remainder moves down one place. -/
@[grind =] def shift (c : BitVec w) : BitVec w :=
  if c.getLsbD 0 then poly ^^^ (c >>> 1) else c >>> 1

def shifts (n : Nat) (c : BitVec w) : BitVec w := (shift poly)^[n] c

/-- A byte goes in, bit by bit. -/
@[grind =] def byte (c : BitVec w) (b : BitVec 8) : BitVec w := shifts poly 8 (c ^^^ b.setWidth w)

def feed (c : BitVec w) (bs : List (BitVec 8)) : BitVec w := bs.foldl (byte poly) c

/-- A byte goes in at once, by a table of 256 remainders. -/
def tableByte (c : BitVec w) (b : BitVec 8) : BitVec w :=
  shifts poly 8 ((c ^^^ b.setWidth w) &&& (0xFF#8).setWidth w) ^^^ (c >>> 8)

/-- The bytes in one word, the first of them lowest. -/
@[grind =] def pack : List (BitVec 8) → BitVec w
  | [] => 0
  | b :: bs => b.setWidth w ^^^ (pack bs <<< 8)

theorem xor_cancel (p a b : BitVec w) : p ^^^ a ^^^ (p ^^^ b) = a ^^^ b := by
  rw [BitVec.xor_comm p a, BitVec.xor_assoc, ← BitVec.xor_assoc p p b, BitVec.xor_self,
    BitVec.zero_xor]

theorem shift_xor (a b : BitVec w) : shift poly (a ^^^ b) = shift poly a ^^^ shift poly b := by
  unfold shift
  rw [BitVec.getLsbD_xor, BitVec.ushiftRight_xor_distrib]
  cases a.getLsbD 0 <;> cases b.getLsbD 0
  · rfl
  · exact (BitVec.xor_assoc _ _ _).symm.trans
      ((congrArg (· ^^^ b >>> 1) (BitVec.xor_comm _ _)).trans (BitVec.xor_assoc _ _ _))
  · exact (BitVec.xor_assoc _ _ _).symm
  · exact (xor_cancel _ _ _).symm

theorem shifts_succ (n : Nat) (c : BitVec w) :
    shifts poly (n + 1) c = shift poly (shifts poly n c) :=
  Function.iterate_succ_apply' _ _ _

theorem shifts_add (m n : Nat) (c : BitVec w) :
    shifts poly (m + n) c = shifts poly m (shifts poly n c) :=
  Function.iterate_add_apply _ _ _ _

theorem shifts_xor (n : Nat) (a b : BitVec w) :
    shifts poly n (a ^^^ b) = shifts poly n a ^^^ shifts poly n b := by
  induction n with
  | zero => rfl
  | succ n ih => rw [shifts_succ, ih, shift_xor, ← shifts_succ, ← shifts_succ]

/-- Where the low bits are clear the polynomial does not come in. -/
theorem shifts_of_clear {k : Nat} {y : BitVec w} (hClear : ∀ i < k, y.getLsbD i = false) :
    ∀ n ≤ k, shifts poly n y = y >>> n := by
  intro n hn
  induction n with
  | zero => exact (BitVec.ushiftRight_zero y).symm
  | succ n ih =>
      have hBit : (y >>> n).getLsbD 0 = false := by
        rw [BitVec.getLsbD_ushiftRight]
        exact hClear (n + 0) (by omega)
      rw [shifts_succ, ih (by omega), shift, hBit, BitVec.shiftRight_add]
      rfl

/-- A polynomial of full degree: its shift loses nothing. -/
theorem shift_injective (hDegree : poly.msb = true) : Function.Injective (shift poly) := by
  intro a b hShift
  have hTop (c : BitVec w) : (shift poly c).msb = c.getLsbD 0 := by
    have hLow : (c >>> 1).msb = false := by
      rw [BitVec.msb_ushiftRight]
      rfl
    unfold shift
    cases c.getLsbD 0
    · exact hLow
    · rw [if_pos rfl, BitVec.msb_xor, hDegree, hLow]
      rfl
  have hBit : a.getLsbD 0 = b.getLsbD 0 := by rw [← hTop a, ← hTop b, hShift]
  have hRest : a >>> 1 = b >>> 1 := by
    unfold shift at hShift
    rw [hBit] at hShift
    cases hCase : b.getLsbD 0 <;> rw [hCase] at hShift
    · exact hShift
    · exact (BitVec.xor_right_inj poly).mp hShift
  apply BitVec.eq_of_getLsbD_eq
  intro i _
  cases i with
  | zero => exact hBit
  | succ i =>
      have hNext := congrArg (fun c => c.getLsbD i) hRest
      simpa only [BitVec.getLsbD_ushiftRight, Nat.add_comm 1 i] using hNext

theorem shifts_injective (hDegree : poly.msb = true) (n : Nat) :
    Function.Injective (shifts poly n) :=
  (shift_injective poly hDegree).iterate n

/-- A byte at a time is the same as a bit at a time. -/
theorem tableByte_eq (hWidth : 8 ≤ w) (c : BitVec w) (b : BitVec 8) :
    tableByte poly c b = byte poly c b := by
  have hMask (i : Nat) : ((0xFF#8).setWidth w).getLsbD i = decide (i < 8) := by
    rw [BitVec.getLsbD_setWidth]
    by_cases hLow : i < 8
    · have hOnes : (0xFF#8).getLsbD i = true := by
        have : ∀ j < 8, (0xFF#8).getLsbD j = true := by decide
        exact this i hLow
      rw [hOnes, decide_eq_true hLow, decide_eq_true (Nat.lt_of_lt_of_le hLow hWidth)]
      rfl
    · rw [BitVec.getLsbD_of_ge _ _ (by omega), decide_eq_false hLow, Bool.and_false]
  generalize hx : c ^^^ b.setWidth w = x
  -- The low byte goes through the table, the others only move down.
  have hSplit : x = (x &&& (0xFF#8).setWidth w) ^^^ (x &&& ~~~(0xFF#8).setWidth w) := by
    apply BitVec.eq_of_getLsbD_eq
    intro i hi
    rw [BitVec.getLsbD_xor, BitVec.getLsbD_and, BitVec.getLsbD_and, BitVec.getLsbD_not,
      decide_eq_true hi]
    cases x.getLsbD i <;> cases ((0xFF#8).setWidth w).getLsbD i <;> rfl
  have hHigh : shifts poly 8 (x &&& ~~~(0xFF#8).setWidth w) = c >>> 8 := by
    rw [shifts_of_clear poly (k := 8) ?_ 8 (Nat.le_refl 8)]
    · apply BitVec.eq_of_getLsbD_eq
      intro i hi
      have hByte : (b.setWidth w).getLsbD (8 + i) = false := by
        rw [BitVec.getLsbD_setWidth, BitVec.getLsbD_of_ge _ _ (by omega), Bool.and_false]
      rw [BitVec.getLsbD_ushiftRight, BitVec.getLsbD_ushiftRight, BitVec.getLsbD_and,
        BitVec.getLsbD_not, hMask, ← hx, BitVec.getLsbD_xor, hByte, Bool.xor_false,
        decide_eq_false (show ¬8 + i < 8 by omega)]
      by_cases hIn : 8 + i < w
      · rw [decide_eq_true hIn]
        exact Bool.and_true _
      · rw [BitVec.getLsbD_of_ge c _ (by omega), Bool.false_and]
    · intro i hi
      rw [BitVec.getLsbD_and, BitVec.getLsbD_not, hMask, decide_eq_true hi]
      cases x.getLsbD i <;> cases decide (i < w) <;> rfl
  rw [tableByte, byte, hx, ← hHigh, ← shifts_xor, ← hSplit]

theorem feed_append (c : BitVec w) (xs ys : List (BitVec 8)) :
    feed poly c (xs ++ ys) = feed poly (feed poly c xs) ys :=
  List.foldl_append

theorem feed_injective (hDegree : poly.msb = true) (bs : List (BitVec 8)) :
    Function.Injective fun c => feed poly c bs := by
  induction bs with
  | nil => exact fun _ _ h => h
  | cons b bs ih =>
      intro a c hFeed
      exact (BitVec.xor_left_inj _).mp (shifts_injective poly hDegree 8 (ih hFeed))

theorem getLsbD_pack (bs : List (BitVec 8)) {i : Nat} (hi : 8 * bs.length ≤ i) :
    (pack bs : BitVec w).getLsbD i = false := by
  induction bs generalizing i with
  | nil => exact BitVec.getLsbD_zero
  | cons b bs ih =>
      rw [List.length_cons] at hi
      rw [pack, BitVec.getLsbD_xor, BitVec.getLsbD_setWidth, BitVec.getLsbD_of_ge b _ (by omega),
        BitVec.getLsbD_shiftLeft, ih (by omega)]
      simp

/-- As many bytes as the remainder holds come in as one word. -/
theorem feed_eq_shifts (c : BitVec w) {bs : List (BitVec 8)} (hFits : 8 * bs.length ≤ w) :
    feed poly c bs = shifts poly (8 * bs.length) (c ^^^ pack bs) := by
  induction bs generalizing c with
  | nil => exact (BitVec.xor_zero).symm
  | cons b bs ih =>
      rw [List.length_cons] at hFits
      have hMoved : shifts poly 8 ((pack bs : BitVec w) <<< 8) = pack bs := by
        rw [shifts_of_clear poly (k := 8) ?_ 8 (Nat.le_refl 8)]
        · apply BitVec.eq_of_getLsbD_eq
          intro i hi
          rw [BitVec.getLsbD_ushiftRight, BitVec.getLsbD_shiftLeft]
          by_cases hIn : 8 + i < w
          · simp [hIn]
          · rw [getLsbD_pack bs (show 8 * bs.length ≤ i by omega)]
            simp [hIn]
        · intro i hi
          rw [BitVec.getLsbD_shiftLeft, decide_eq_true hi]
          simp
      change feed poly (byte poly c b) bs = _
      rw [ih _ (by omega), List.length_cons, Nat.mul_succ, shifts_add, pack, byte,
        ← BitVec.xor_assoc, shifts_xor poly 8 (c ^^^ b.setWidth w), hMoved]

theorem pack_injective {xs ys : List (BitVec 8)} (hLength : xs.length = ys.length)
    (hFits : 8 * xs.length ≤ w) (hPack : (pack xs : BitVec w) = pack ys) : xs = ys := by
  induction xs generalizing ys with
  | nil => exact (List.length_eq_zero_iff.mp hLength.symm).symm
  | cons x xs ih =>
      cases ys with
      | nil => cases hLength
      | cons y ys =>
          rw [List.length_cons] at hFits
          have hBits (i : Nat) := congrArg (fun c => c.getLsbD i) hPack
          simp only [pack, BitVec.getLsbD_xor, BitVec.getLsbD_setWidth,
            BitVec.getLsbD_shiftLeft] at hBits
          have hHead : x = y := by
            apply BitVec.eq_of_getLsbD_eq
            intro i hi
            have hBit := hBits i
            rw [decide_eq_true hi, decide_eq_true (show i < w by omega)] at hBit
            simpa using hBit
          have hTail : (pack xs : BitVec w) = pack ys := by
            apply BitVec.eq_of_getLsbD_eq
            intro i hi
            by_cases hIn : 8 + i < w
            · have hBit := hBits (8 + i)
              rw [BitVec.getLsbD_of_ge x _ (by omega), BitVec.getLsbD_of_ge y _ (by omega)] at hBit
              simpa [hIn, show ¬8 + i < 8 by omega] using hBit
            · have hShort := Nat.succ.inj hLength
              rw [getLsbD_pack xs (by omega), getLsbD_pack ys (by omega)]
          rw [hHead, ih (Nat.succ.inj hLength) (by omega) hTail]

/-- A change within as many bytes as the remainder holds is always seen, whatever comes
before and behind. -/
theorem feed_burst_ne (hDegree : poly.msb = true) (c : BitVec w) (before behind : List (BitVec 8))
    {xs ys : List (BitVec 8)} (hLength : xs.length = ys.length) (hFits : 8 * xs.length ≤ w)
    (hChanged : xs ≠ ys) :
    feed poly c (before ++ xs ++ behind) ≠ feed poly c (before ++ ys ++ behind) := by
  intro hSame
  rw [feed_append, feed_append, feed_append poly c (before ++ ys), feed_append] at hSame
  have hMiddle := feed_injective poly hDegree behind hSame
  have hOne := feed_eq_shifts poly (feed poly c before) hFits
  have hOther := feed_eq_shifts poly (feed poly c before) (show 8 * ys.length ≤ w by omega)
  have hShifts := hOne.symm.trans (hMiddle.trans hOther)
  rw [hLength] at hShifts
  have hPack := (BitVec.xor_right_inj _).mp (shifts_injective poly hDegree _ hShifts)
  exact hChanged (pack_injective hLength hFits hPack)

end RecompStudio.Crc
