import Mathlib.Algebra.Order.Ring.Abs
import Mathlib.Order.Bounds.Basic
import Mathlib.Data.BitVec
import Mathlib.Data.Nat.Find
import Mathlib.Tactic.NormNum

/-!
The resampling of XA audio from its own rate to 44100 Hz: the position in the
input is carried with a phase, and an output frame is interpolated between two
input frames in 32-bit arithmetic.
-/

namespace RecompStudio.Runtime

abbrev Sample := BitVec 16

structure StereoFrame where
  left : Sample
  right : Sample
deriving DecidableEq, Repr

/-- A result of `int` arithmetic. An overflow has none. -/
@[grind =] def int32 (x : Int) : Option Int := if -2 ^ 31 ≤ x ∧ x < 2 ^ 31 then some x else none

/-- The two samples of a frame in an interleaved buffer. -/
def frameAt (input : List StereoFrame) (pos : Nat) : Option StereoFrame := do
  let _ ← int32 (pos * 2 + 1)
  input[pos]?

def interpolate (cur next : Sample) (phase : Nat) : Option Sample := do
  let difference ← int32 (next.toInt - cur.toInt)
  let scaled ← int32 (difference * phase)
  let sum ← int32 (cur.toInt + scaled.tdiv 44100)
  some (BitVec.ofInt 16 sum)

/-- The inner loop: the phase turns over into the position. -/
def carryPhase (phase inPos : Nat) : Nat × Nat :=
  if 44100 ≤ phase then carryPhase (phase - 44100) (inPos + 1) else (phase, inPos)
termination_by phase

/-- The output frame of a round, between the frame at the position and the one
behind it. -/
def outputFrame (input : List StereoFrame) (outFrames inPos phase : Nat) : Option StereoFrame := do
  let nextPos := if inPos + 1 < input.length then inPos + 1 else inPos
  let cur ← frameAt input inPos
  let next ← frameAt input nextPos
  let _ ← int32 (outFrames * 2 + 1)
  let left ← interpolate cur.left next.left phase
  let right ← interpolate cur.right next.right phase
  some ⟨left, right⟩

/-- The outer loop, from an output frame on, with the room that is left. -/
@[grind =] def resampleFrom (input : List StereoFrame) (rate : Nat) :
    (room outFrames inPos phase : Nat) → Option (List StereoFrame)
  | 0, _, _, _ => some []
  | room + 1, outFrames, inPos, phase =>
      if inPos < input.length then do
        let frame ← outputFrame input outFrames inPos phase
        let _ ← int32 (phase + rate)
        let carried := carryPhase (phase + rate) inPos
        let rest ← resampleFrom input rate room (outFrames + 1) carried.2 carried.1
        some (frame :: rest)
      else some []

/-- `xa_resample_to_44100`. -/
def xaResampleTo44100 (input : List StereoFrame) (rate maxFrames : Nat) :
    Option (List StereoFrame) :=
  if input.length = 0 ∨ rate = 0 ∨ maxFrames = 0 then some []
  else resampleFrom input rate maxFrames 0 0 0

/-- Where an output frame stands in the input. -/
def xaPosition (rate j : Nat) : Nat := j * rate / 44100

@[grind =] def xaPhase (rate j : Nat) : Nat := j * rate % 44100

/-- The frame behind it, or the last one of the input. -/
@[grind =] def xaNext (input : List StereoFrame) (rate j : Nat) : Nat :=
  min (xaPosition rate j + 1) (input.length - 1)

theorem carryPhase_eq (phase inPos : Nat) :
    carryPhase phase inPos = (phase % 44100, inPos + phase / 44100) := by
  induction phase using Nat.strong_induction_on generalizing inPos with
  | _ phase ih =>
      rw [carryPhase]
      split
      · rename_i hTurn
        rw [ih _ (by omega)]
        refine Prod.ext ?_ ?_ <;> dsimp only <;> omega
      · rename_i hLess
        rw [Nat.mod_eq_of_lt (by omega), Nat.div_eq_of_lt (by omega), Nat.add_zero]

/-- The carried position and phase are those of the next output frame. -/
theorem carryPhase_position (rate j : Nat) :
    carryPhase (xaPhase rate j + rate) (xaPosition rate j) =
      (xaPhase rate (j + 1), xaPosition rate (j + 1)) := by
  rw [carryPhase_eq]
  unfold xaPhase xaPosition
  rw [Nat.succ_mul]
  refine Prod.ext ?_ ?_ <;> dsimp only <;> omega

/-- One channel of an output frame: its value, which lies between the two samples. -/
structure Interpolated (cur next out : Sample) (phase : Nat) : Prop where
  value : out.toInt = cur.toInt + ((next.toInt - cur.toInt) * phase).tdiv 44100
  lower : min cur.toInt next.toInt ≤ out.toInt
  upper : out.toInt ≤ max cur.toInt next.toInt

/-- The product of the difference and the phase is in the range of `int`. -/
def ProductFits (cur next : Sample) (phase : Nat) : Prop :=
  -2 ^ 31 ≤ (next.toInt - cur.toInt) * phase ∧ (next.toInt - cur.toInt) * phase < 2 ^ 31

theorem sample_range (x : Sample) : -32768 ≤ x.toInt ∧ x.toInt < 32768 := by
  have hLower := BitVec.le_toInt x
  have hUpper := BitVec.toInt_lt (x := x)
  norm_num at hLower hUpper
  exact ⟨hLower, hUpper⟩

/-- A part of a difference lies between nothing and the difference. -/
theorem tdiv_part (d : Int) {phase : Nat} (hPhase : phase < 44100) :
    min 0 d ≤ (d * phase).tdiv 44100 ∧ (d * phase).tdiv 44100 ≤ max 0 d := by
  have hPart (n : Nat) : 0 ≤ ((n : Int) * phase).tdiv 44100 ∧
      ((n : Int) * phase).tdiv 44100 ≤ n := by
    have hBound : n * phase / 44100 ≤ n :=
      Nat.div_le_of_le_mul (Nat.mul_comm n phase ▸ Nat.mul_le_mul_right n hPhase.le)
    rw [← Int.natCast_mul, Int.tdiv_eq_ediv_of_nonneg (Int.natCast_nonneg _)]
    omega
  obtain ⟨n, rfl | rfl⟩ := Int.eq_nat_or_neg d
  · have hSome := hPart n
    omega
  · have hSome := hPart n
    rw [Int.neg_mul, Int.neg_tdiv]
    omega

theorem int32_eq_some_iff {x y : Int} :
    int32 x = some y ↔ (-2 ^ 31 ≤ x ∧ x < 2 ^ 31) ∧ x = y := by
  unfold int32
  split
  · rename_i hFits
    rw [Option.some.injEq, and_iff_right hFits]
  · rename_i hFits
    exact iff_of_false (Option.some_ne_none y).symm fun h => hFits h.1

theorem toInt_ofInt_sample {x : Int} (hLower : -32768 ≤ x) (hUpper : x < 32768) :
    (BitVec.ofInt 16 x).toInt = x := by
  rw [BitVec.toInt_ofInt_eq_self] <;> omega

theorem interpolated_ofInt (cur next : Sample) {phase : Nat} (hPhase : phase < 44100) :
    Interpolated cur next
      (BitVec.ofInt 16 (cur.toInt + ((next.toInt - cur.toInt) * phase).tdiv 44100)) phase := by
  have hCur := sample_range cur
  have hNext := sample_range next
  have hPart := tdiv_part (next.toInt - cur.toInt) hPhase
  have hValue := toInt_ofInt_sample
    (x := cur.toInt + ((next.toInt - cur.toInt) * (phase : Int)).tdiv 44100) (by omega) (by omega)
  exact ⟨hValue, by omega, by omega⟩

/-- Without an overflow the sample is the interpolated one, and it is between the
two samples. -/
theorem interpolate_eq_some_iff {cur next out : Sample} {phase : Nat} (hPhase : phase < 44100) :
    interpolate cur next phase = some out ↔
      ProductFits cur next phase ∧ Interpolated cur next out phase := by
  have hCur := sample_range cur
  have hNext := sample_range next
  have hPart := tdiv_part (next.toInt - cur.toInt) hPhase
  have hExact := interpolated_ofInt cur next hPhase
  rw [interpolate, int32_eq_some_iff.2 ⟨by omega, rfl⟩, Option.bind_eq_bind, Option.bind_some]
  by_cases hFits : ProductFits cur next phase
  · rw [int32_eq_some_iff.2 ⟨hFits, rfl⟩, Option.bind_some,
      int32_eq_some_iff.2 ⟨by omega, rfl⟩, Option.bind_some, Option.some.injEq,
      and_iff_right hFits]
    refine ⟨fun h => h ▸ hExact, fun h => ?_⟩
    exact BitVec.eq_of_toInt_eq (hExact.value.trans h.value.symm)
  · have hNone : int32 ((next.toInt - cur.toInt) * (phase : Int)) = none := if_neg hFits
    rw [hNone, Option.bind_none]
    exact iff_of_false (Option.some_ne_none out).symm fun h => hFits h.1

/-- The arithmetic of an output frame stays in the range of `int`. -/
structure FrameFits (input : List StereoFrame) (rate j : Nat) : Prop where
  output : j < 2 ^ 30
  read : xaNext input rate j < 2 ^ 30
  left : ∀ cur next, input[xaPosition rate j]? = some cur →
    input[xaNext input rate j]? = some next →
    ProductFits cur.left next.left (xaPhase rate j)
  right : ∀ cur next, input[xaPosition rate j]? = some cur →
    input[xaNext input rate j]? = some next →
    ProductFits cur.right next.right (xaPhase rate j)

/-- An output frame interpolates the frame at its position. -/
def FrameResampled (input : List StereoFrame) (rate j : Nat) (out : StereoFrame) : Prop :=
  ∃ cur next, input[xaPosition rate j]? = some cur ∧ input[xaNext input rate j]? = some next ∧
    Interpolated cur.left next.left out.left (xaPhase rate j) ∧
    Interpolated cur.right next.right out.right (xaPhase rate j)

section Loop

variable {input : List StereoFrame} {rate : Nat}

theorem xaPhase_lt (rate j : Nat) : xaPhase rate j < 44100 := Nat.mod_lt _ (by decide)

theorem frameAt_eq_some_iff {pos : Nat} {frame : StereoFrame} :
    frameAt input pos = some frame ↔ pos < 2 ^ 30 ∧ input[pos]? = some frame := by
  unfold frameAt
  by_cases hFits : pos < 2 ^ 30
  · rw [int32_eq_some_iff.2 ⟨by omega, rfl⟩, Option.bind_eq_bind, Option.bind_some,
      and_iff_right hFits]
  · have hNone : int32 ((pos : Int) * 2 + 1) = none := if_neg (by omega)
    rw [hNone, Option.bind_eq_bind, Option.bind_none]
    exact iff_of_false (Option.some_ne_none frame).symm fun h => hFits h.1

theorem outputFrame_eq_some_iff {j : Nat} (hIn : xaPosition rate j < input.length)
    {out : StereoFrame} :
    outputFrame input j (xaPosition rate j) (xaPhase rate j) = some out ↔
      FrameFits input rate j ∧ FrameResampled input rate j out := by
  have hNextPos : (if xaPosition rate j + 1 < input.length then xaPosition rate j + 1
      else xaPosition rate j) = xaNext input rate j := by
    unfold xaNext
    split <;> omega
  have hAhead : xaPosition rate j ≤ xaNext input rate j := by
    unfold xaNext
    omega
  have hPhase := xaPhase_lt rate j
  constructor
  · intro h
    simp only [outputFrame, hNextPos, Option.bind_eq_bind, Option.bind_eq_some_iff,
      frameAt_eq_some_iff, int32_eq_some_iff, interpolate_eq_some_iff hPhase] at h
    obtain ⟨cur, ⟨-, hCur⟩, next, ⟨hRead, hNext⟩, _, ⟨hIndex, -⟩, left, ⟨hLeft, hLeftOut⟩,
      right, ⟨hRight, hRightOut⟩, hOut⟩ := h
    obtain rfl := Option.some.inj hOut
    refine ⟨⟨by omega, hRead, ?_, ?_⟩, cur, next, hCur, hNext, hLeftOut, hRightOut⟩
    · intro cur' next' hCur' hNext'
      rw [← Option.some.inj (hCur.symm.trans hCur'), ← Option.some.inj (hNext.symm.trans hNext')]
      exact hLeft
    · intro cur' next' hCur' hNext'
      rw [← Option.some.inj (hCur.symm.trans hCur'), ← Option.some.inj (hNext.symm.trans hNext')]
      exact hRight
  · rintro ⟨hFits, cur, next, hCur, hNext, hLeft, hRight⟩
    have hReadCur := frameAt_eq_some_iff.2 ⟨hAhead.trans_lt hFits.read, hCur⟩
    have hReadNext := frameAt_eq_some_iff.2 ⟨hFits.read, hNext⟩
    have hOutput := hFits.output
    have hIndex : int32 ((j : Int) * 2 + 1) = some ((j : Int) * 2 + 1) :=
      int32_eq_some_iff.2 ⟨by omega, rfl⟩
    have hLeftSome := (interpolate_eq_some_iff hPhase).mpr ⟨hFits.left cur next hCur hNext, hLeft⟩
    have hRightSome :=
      (interpolate_eq_some_iff hPhase).mpr ⟨hFits.right cur next hCur hNext, hRight⟩
    simp only [outputFrame, hNextPos, Option.bind_eq_bind, hReadCur, hReadNext, hIndex, hLeftSome,
      hRightSome, Option.bind_some]

/-- The frames of a loop: each interpolates the frame at its position, and only the
end of the input or of the room ends it. -/
structure Resampled (input : List StereoFrame) (rate room j : Nat) (out : List StereoFrame) :
    Prop where
  bounded : out.length ≤ room
  frames : ∀ i frame, out[i]? = some frame → FrameResampled input rate (j + i) frame
  ended : out.length < room → input.length ≤ xaPosition rate (j + out.length)

theorem xaPosition_mono (rate : Nat) {i j : Nat} (hLe : i ≤ j) :
    xaPosition rate i ≤ xaPosition rate j :=
  Nat.div_le_div_right (Nat.mul_le_mul_right rate hLe)

theorem Resampled.cons {room j : Nat} {frame : StereoFrame} {rest : List StereoFrame}
    (h : Resampled input rate room (j + 1) rest) (hFrame : FrameResampled input rate j frame) :
    Resampled input rate (room + 1) j (frame :: rest) := by
  refine ⟨Nat.succ_le_succ h.bounded, fun i frame' hSome => ?_, fun hRoom => ?_⟩
  · cases i with
    | zero => exact Option.some.inj hSome ▸ hFrame
    | succ i =>
        have hLater := h.frames i frame' hSome
        rwa [Nat.add_assoc, Nat.add_comm 1 i] at hLater
  · have hEnded := h.ended (Nat.lt_of_succ_lt_succ hRoom)
    rwa [Nat.add_assoc, Nat.add_comm 1] at hEnded

theorem resampleFrom_eq_some_iff (hRate : rate ≤ 44100) {room j : Nat} {out : List StereoFrame} :
    resampleFrom input rate room j (xaPosition rate j) (xaPhase rate j) = some out ↔
      (∀ i, j ≤ i → i < j + room → xaPosition rate i < input.length → FrameFits input rate i) ∧
        Resampled input rate room j out := by
  induction room generalizing j out with
  | zero =>
      rw [resampleFrom, Option.some.injEq]
      constructor
      · rintro rfl
        exact ⟨fun i hFrom hTo => absurd hTo (by omega), Nat.le_refl _, by simp, by simp⟩
      · rintro ⟨-, hOut⟩
        exact (List.eq_nil_of_length_eq_zero (Nat.le_zero.mp hOut.bounded)).symm
  | succ room ih =>
      rw [resampleFrom]
      by_cases hIn : xaPosition rate j < input.length
      · have hTurn : int32 ((xaPhase rate j : Int) + rate) =
          some ((xaPhase rate j : Int) + rate) := by
          have hPhase := xaPhase_lt rate j
          exact int32_eq_some_iff.2 ⟨by omega, rfl⟩
        rw [if_pos hIn, carryPhase_position, hTurn]
        simp only [Option.bind_eq_bind, Option.bind_eq_some_iff, Option.bind_some,
          outputFrame_eq_some_iff hIn, ih, Option.some.injEq]
        constructor
        · rintro ⟨frame, ⟨hFits, hFrame⟩, rest, ⟨hAll, hRest⟩, rfl⟩
          refine ⟨fun i hFrom hTo hInput => ?_, hRest.cons hFrame⟩
          rcases Nat.eq_or_lt_of_le hFrom with rfl | hLater
          · exact hFits
          · exact hAll i hLater (by omega) hInput
        · rintro ⟨hAll, hOut⟩
          cases out with
          | nil => exact absurd (hOut.ended (Nat.succ_pos _)) (Nat.not_le.mpr hIn)
          | cons frame rest =>
              refine ⟨frame, ⟨hAll j le_rfl (by omega) hIn, hOut.frames 0 frame rfl⟩, rest,
                ⟨fun i hFrom hTo => hAll i (by omega) (by omega), ?_, ?_, ?_⟩, rfl⟩
              · exact Nat.le_of_succ_le_succ hOut.bounded
              · intro i frame' hSome
                have hLater := hOut.frames (i + 1) frame' hSome
                rwa [Nat.add_comm i, ← Nat.add_assoc] at hLater
              · intro hRoom
                have hEnded := hOut.ended (Nat.succ_lt_succ hRoom)
                rwa [List.length_cons, Nat.add_comm rest.length, ← Nat.add_assoc] at hEnded
      · have hPast {i : Nat} (hFrom : j ≤ i) : ¬ xaPosition rate i < input.length :=
          fun h => hIn ((xaPosition_mono rate hFrom).trans_lt h)
        rw [if_neg hIn, Option.some.injEq]
        constructor
        · rintro rfl
          exact ⟨fun i hFrom _ hInput => absurd hInput (hPast hFrom), Nat.zero_le _, by simp,
            fun _ => Nat.le_of_not_lt hIn⟩
        · rintro ⟨-, hOut⟩
          cases out with
          | nil => rfl
          | cons frame rest =>
              obtain ⟨cur, -, hCur, -⟩ := hOut.frames 0 frame rfl
              exact absurd (List.getElem?_eq_some_iff.mp hCur).1 (hPast (Nat.le_add_right _ _))

theorem frameResampled_exists {j : Nat} (hIn : xaPosition rate j < input.length) :
    ∃ out, FrameResampled input rate j out := by
  have hNextIn : xaNext input rate j < input.length := by
    unfold xaNext
    omega
  exact ⟨⟨_, _⟩, _, _, List.getElem?_eq_getElem hIn, List.getElem?_eq_getElem hNextIn,
    interpolated_ofInt _ _ (xaPhase_lt rate j), interpolated_ofInt _ _ (xaPhase_lt rate j)⟩

theorem resampled_exists (room j : Nat) : ∃ out, Resampled input rate room j out := by
  induction room generalizing j with
  | zero => exact ⟨[], Nat.le_refl _, by simp, by simp⟩
  | succ room ih =>
      by_cases hIn : xaPosition rate j < input.length
      · obtain ⟨frame, hFrame⟩ := frameResampled_exists hIn
        obtain ⟨rest, hRest⟩ := ih (j + 1)
        exact ⟨frame :: rest, hRest.cons hFrame⟩
      · exact ⟨[], Nat.zero_le _, by simp, fun _ => Nat.le_of_not_lt hIn⟩

theorem xaResample_eq (hRate : 0 < rate) (maxFrames : Nat) :
    xaResampleTo44100 input rate maxFrames =
      resampleFrom input rate maxFrames 0 (xaPosition rate 0) (xaPhase rate 0) := by
  have hStart : xaPosition rate 0 = 0 ∧ xaPhase rate 0 = 0 := by
    simp [xaPosition, xaPhase]
  rw [xaResampleTo44100, hStart.1, hStart.2]
  split
  · rename_i hNothing
    rcases hNothing with hEmpty | hNone | rfl
    · cases maxFrames with
      | zero => rfl
      | succ room => rw [resampleFrom, if_neg (by omega)]
    · omega
    · rfl
  · rfl

theorem xaPosition_lt_iff {j : Nat} :
    xaPosition rate j < input.length ↔ j * rate < input.length * 44100 :=
  Nat.div_lt_iff_lt_mul (by decide)

/-- The loop stops at the first output frame behind the input, or at the room. -/
theorem Resampled.length_eq {maxFrames n : Nat} {out : List StereoFrame}
    (h : Resampled input rate maxFrames 0 out)
    (hLeast : IsLeast {n | input.length * 44100 ≤ n * rate} n) :
    out.length = min n maxFrames := by
  have hEnd : out.length ≤ n := by
    by_contra hLong
    have hSome := List.getElem?_eq_getElem (Nat.lt_of_not_le hLong)
    obtain ⟨cur, -, hCur, -⟩ := h.frames n _ hSome
    have hIn := (List.getElem?_eq_some_iff.mp hCur).1
    rw [Nat.zero_add, xaPosition_lt_iff] at hIn
    exact absurd hLeast.1 (Nat.not_le.mpr hIn)
  refine Nat.le_antisymm (le_min hEnd h.bounded) ?_
  by_cases hRoom : out.length < maxFrames
  · have hEnded := h.ended hRoom
    rw [Nat.zero_add, ← Nat.not_lt, xaPosition_lt_iff, Nat.not_lt] at hEnded
    exact (min_le_left _ _).trans (hLeast.2 hEnded)
  · exact (min_le_right _ _).trans (Nat.le_of_not_lt hRoom)

/-- Neighbours that are close enough fit at both rates: no phase is beyond 37800. -/
theorem frameFits_of_close (hRate : rate = 18900 ∨ rate = 37800) (hLength : input.length ≤ 2 ^ 30)
    (hClose : ∀ i cur next, input[i]? = some cur → input[i + 1]? = some next →
      |next.left.toInt - cur.left.toInt| ≤ 56811 ∧ |next.right.toInt - cur.right.toInt| ≤ 56811)
    {j : Nat} (hOutput : j < 2 ^ 30) (hIn : xaPosition rate j < input.length) :
    FrameFits input rate j := by
  have hPhase : xaPhase rate j ≤ 37800 := by
    unfold xaPhase
    rcases hRate with rfl | rfl <;> omega
  have hProduct {cur next : Sample} (hPair : |next.toInt - cur.toInt| ≤ 56811) :
      ProductFits cur next (xaPhase rate j) := by
    have hBound : |(next.toInt - cur.toInt) * (xaPhase rate j : Int)| ≤ 56811 * 37800 := by
      rw [abs_mul, Nat.abs_cast]
      exact mul_le_mul hPair (by exact_mod_cast hPhase) (by omega) (by decide)
    have hSides := abs_le.mp hBound
    exact ⟨by omega, by omega⟩
  have hNext : ∀ cur next, input[xaPosition rate j]? = some cur →
      input[xaNext input rate j]? = some next →
      |next.left.toInt - cur.left.toInt| ≤ 56811 ∧
          |next.right.toInt - cur.right.toInt| ≤ 56811 := by
    intro cur next hCur hAhead
    by_cases hLast : xaPosition rate j + 1 < input.length
    · have hPos : xaNext input rate j = xaPosition rate j + 1 := by
        unfold xaNext
        omega
      rw [hPos] at hAhead
      exact hClose _ cur next hCur hAhead
    · have hPos : xaNext input rate j = xaPosition rate j := by
        unfold xaNext
        omega
      rw [hPos, hCur] at hAhead
      obtain rfl := Option.some.inj hAhead
      simp
  refine ⟨hOutput, ?_, fun cur next hCur hAhead => hProduct (hNext cur next hCur hAhead).1,
    fun cur next hCur hAhead => hProduct (hNext cur next hCur hAhead).2⟩
  unfold xaNext
  omega

/-- The resampled frames are as many as the input has, each between the two frames
at its position, where no product of a difference and a phase leaves the range of
`int`. -/
theorem xa_resample_iff (input : List StereoFrame) {rate : Nat}
    (hRate : rate = 18900 ∨ rate = 37800) (maxFrames : Nat) :
    (∃ out, xaResampleTo44100 input rate maxFrames = some out ∧
      (∃ n, IsLeast {n | input.length * 44100 ≤ n * rate} n ∧ out.length = min n maxFrames) ∧
      ∀ j frame, out[j]? = some frame → FrameResampled input rate j frame) ↔
    ∀ j < maxFrames, j * rate < input.length * 44100 → FrameFits input rate j := by
  have hPos : 0 < rate := by omega
  have hSome (out : List StereoFrame) :
      xaResampleTo44100 input rate maxFrames = some out ↔
        (∀ j < maxFrames, j * rate < input.length * 44100 → FrameFits input rate j) ∧
          Resampled input rate maxFrames 0 out := by
    rw [xaResample_eq hPos, resampleFrom_eq_some_iff (by omega), Nat.zero_add]
    exact and_congr_left' (forall_congr' fun j => by
      rw [forall_prop_of_true (Nat.zero_le j), xaPosition_lt_iff])
  have hExists : ∃ n, input.length * 44100 ≤ n * rate :=
    ⟨input.length * 44100, Nat.le_mul_of_pos_right _ hPos⟩
  constructor
  · rintro ⟨out, hOut, -⟩
    exact ((hSome out).mp hOut).1
  · intro hFits
    obtain ⟨out, hOut⟩ := @resampled_exists input rate maxFrames 0
    have hLeast : IsLeast {n | input.length * 44100 ≤ n * rate} (Nat.find hExists) :=
      ⟨Nat.find_spec hExists, fun _ hEnough => Nat.find_min' hExists hEnough⟩
    refine ⟨out, (hSome out).mpr ⟨hFits, hOut⟩, ⟨_, hLeast, hOut.length_eq hLeast⟩, ?_⟩
    intro j frame hFrame
    have hResampled := hOut.frames j frame hFrame
    rwa [Nat.zero_add] at hResampled

end Loop

/-- A quiet pair of frames is resampled, to three frames. -/
theorem xa_resample_iff_quiet :
    ∃ out, xaResampleTo44100 [⟨0, 0⟩, ⟨100, 50⟩] 37800 9408 = some out ∧
      (∃ n, IsLeast {n | 2 * 44100 ≤ n * 37800} n ∧ out.length = min n 9408) ∧
      ∀ j frame, out[j]? = some frame → FrameResampled [⟨0, 0⟩, ⟨100, 50⟩] 37800 j frame := by
  refine (xa_resample_iff [⟨0, 0⟩, ⟨100, 50⟩] (.inr rfl) 9408).mpr fun j hRoom hIn => ?_
  refine frameFits_of_close (.inr rfl) (by decide) ?_ (by omega) (xaPosition_lt_iff.2 hIn)
  intro i cur next hCur hNext
  match i with
  | 0 =>
      obtain rfl := Option.some.inj hCur
      obtain rfl := Option.some.inj hNext
      decide
  | i + 1 => simp at hNext

/-- Between the least and the greatest sample the second output frame overflows. -/
theorem extremePair_overflows :
    ¬ ∃ out, xaResampleTo44100 [⟨0x8000, 0⟩, ⟨0x7FFF, 0⟩] 37800 9408 = some out := by
  rintro ⟨out, hOut⟩
  rw [xaResample_eq (by decide), resampleFrom_eq_some_iff (by decide)] at hOut
  have hFits := hOut.1 1 (by decide) (by decide) (by decide)
  exact absurd (hFits.left _ _ rfl rfl).2 (by decide)

end RecompStudio.Runtime
