import Mathlib.Tactic.Ring
import Mathlib.Tactic.Linarith
import Mathlib.Tactic.LinearCombination
import Mathlib.Algebra.Order.Ring.Abs

/-!
One Newton step for a reciprocal in fixed point. With `K` the scale of a
division, a seed `x` with `x * d` near `K ^ 3` is improved to a value `r` with
`r * d` near `K ^ 4`; both divisions of the step round to the nearest integer.
-/

namespace RecompStudio.Newton

/-- The quotient by `K`, rounded: half of `K` is added before the division. -/
@[grind =] def roundDiv (K v : Int) : Int := (v + K / 2) / K

/-- The step. -/
@[grind =] def refine (K d x : Int) : Int := roundDiv K (x * (2 * K ^ 2 + roundDiv K (-(x * d))))

section Rounding

variable {K : Int}

theorem abs_roundDiv_sub_le (hK : 0 < K) (hEven : 2 ∣ K) (v : Int) :
    |K * roundDiv K v - v| ≤ K / 2 := by
  obtain ⟨m, rfl⟩ := hEven
  have hHalf : 2 * m / 2 = m := by omega
  have hDiv := Int.mul_ediv_add_emod (v + m) (2 * m)
  have hNonneg := Int.emod_nonneg (v + m) (show 2 * m ≠ 0 by omega)
  have hLt := Int.emod_lt_of_pos (v + m) hK
  rw [roundDiv, hHalf, abs_le]
  constructor <;> linarith

theorem roundDiv_add_mul (hK : 0 < K) (v c : Int) :
    roundDiv K (v + K * c) = roundDiv K v + c := by
  have hSplit : v + K * c + K / 2 = v + K / 2 + K * c := by ring
  rw [roundDiv, hSplit, Int.add_mul_ediv_left _ _ (by omega), roundDiv]

end Rounding

/-- The error of the step from the error `δ` of the seed: the square of `δ`, and
half a unit for each of the two roundings. -/
theorem refine_error {K d x δ : Int} (hK : 0 < K) (hEven : 2 ∣ K) (hD : 0 ≤ d)
    (hSeed : x * d = K ^ 3 + δ) :
    2 * K ^ 2 * |refine K d x * d - K ^ 4| ≤ K ^ 4 + 2 * δ ^ 2 + K * |δ| + K ^ 2 * d := by
  set t := roundDiv K (-δ)
  set u := roundDiv K (x * t)
  -- Both roundings act on the part that the scale does not divide.
  have hInner : roundDiv K (-(x * d)) = t - K ^ 2 := by
    have hSplit : -(x * d) = -δ + K * -K ^ 2 := by rw [hSeed]; ring
    rw [hSplit, roundDiv_add_mul hK]
    ring
  have hOuter : refine K d x = u + K * x := by
    have hSplit : x * (2 * K ^ 2 + (t - K ^ 2)) = x * t + K * (K * x) := by ring
    rw [refine, hInner, hSplit, roundDiv_add_mul hK]
  have hT : |K * t + δ| ≤ K / 2 := by
    simpa [sub_neg_eq_add] using abs_roundDiv_sub_le hK hEven (-δ)
  have hU : |K * u - x * t| ≤ K / 2 := abs_roundDiv_sub_le hK hEven (x * t)
  have hError : K ^ 2 * (refine K d x * d - K ^ 4) =
      K ^ 3 * (K * t + δ) - δ ^ 2 + δ * (K * t + δ) + K * (K * u - x * t) * d := by
    rw [hOuter]
    linear_combination (K ^ 3 + K * t) * hSeed
  have hHalf : 2 * (K / 2) = K := by omega
  have hFirst : |K ^ 3 * (K * t + δ)| ≤ K ^ 3 * (K / 2) := by
    rw [abs_mul, abs_of_pos (by positivity)]
    exact mul_le_mul_of_nonneg_left hT (by positivity)
  have hCross : |δ * (K * t + δ)| ≤ |δ| * (K / 2) := by
    rw [abs_mul]
    exact mul_le_mul_of_nonneg_left hT (abs_nonneg δ)
  have hLast : |K * (K * u - x * t) * d| ≤ K * (K / 2) * d := by
    rw [abs_mul, abs_mul, abs_of_pos hK, abs_of_nonneg hD]
    exact mul_le_mul_of_nonneg_right (mul_le_mul_of_nonneg_left hU hK.le) hD
  have hSquare : |δ ^ 2| = δ ^ 2 := abs_of_nonneg (sq_nonneg δ)
  have hSum : |K ^ 3 * (K * t + δ) - δ ^ 2 + δ * (K * t + δ) + K * (K * u - x * t) * d| ≤
      K ^ 3 * (K / 2) + δ ^ 2 + |δ| * (K / 2) + K * (K / 2) * d := by
    calc _ ≤ |K ^ 3 * (K * t + δ)| + |δ ^ 2| + |δ * (K * t + δ)| +
            |K * (K * u - x * t) * d| :=
          (abs_add_le _ _).trans (add_le_add_left ((abs_add_le _ _).trans
            (add_le_add_left (abs_sub _ _) _)) _)
      _ ≤ _ := by rw [hSquare]; linarith
  rw [← hError, abs_mul, abs_of_pos (show 0 < K ^ 2 by positivity)] at hSum
  calc 2 * K ^ 2 * |refine K d x * d - K ^ 4|
      = 2 * (K ^ 2 * |refine K d x * d - K ^ 4|) := by ring
    _ ≤ 2 * (K ^ 3 * (K / 2) + δ ^ 2 + |δ| * (K / 2) + K * (K / 2) * d) := by linarith
    _ = K ^ 4 + 2 * δ ^ 2 + K * |δ| + K ^ 2 * d := by
        linear_combination (K ^ 3 + |δ| + K * d) * hHalf

end RecompStudio.Newton
