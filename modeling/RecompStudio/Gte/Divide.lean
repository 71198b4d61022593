import RecompStudio.Cpu.State
import RecompStudio.Library.NewtonReciprocal
import Mathlib.Algebra.Order.Field.Basic
import Mathlib.Algebra.Order.Field.Rat
import Mathlib.Tactic.FieldSimp

/-!
The perspective division of the coprocessor: the table of seeds, one Newton
step on the normalised divisor, and the product with the shifted dividend. The
arithmetic is stuck where a step leaves its type or the table is read outside.
-/

namespace RecompStudio.Gte

/-- A value of `int32_t`. -/
@[grind =] def int32 (v : Int) : Option Int := if -2 ^ 31 ≤ v ∧ v < 2 ^ 31 then some v else none

/-- A value of an unsigned type of the given width. -/
def uint (width : Nat) (v : Int) : Option Nat :=
  if 0 ≤ v ∧ v < 2 ^ width then some v.toNat else none

def flagDivOvf : Word := 0x20000#32

/-- One turn of the loop that computes a seed. -/
def seedStep (divisor xa : Nat) : Option Nat := do
  let product ← uint 32 ((divisor >>> 7 : Nat) * xa)
  let rest ← uint 32 (1024 * 512 - product)
  let next ← uint 32 (xa * rest)
  return next >>> 18

/-- The table entry of a divisor: four turns from 512, halved and rebased. -/
def tableEntry (divisor : Nat) : Option Nat := do
  let xa ← (List.range 4).foldlM (fun xa _ => seedStep divisor xa) 512
  uint 8 (((xa + 1) >>> 1 : Nat) - 0x101)

/-- `gte_init_div_table`. -/
def gteInitDivTable : Option (List Nat) := do
  let table ← (List.range 256).foldlM (fun table k => do
    let divisor := 0x8000 + 0x80 * k
    let entry ← tableEntry divisor
    return table.set ((divisor >>> 7) &&& 0xFF) entry) (List.replicate 0x101 0)
  let last ← table[0xFF]?
  return table.set 0x100 last

/-- `gte_calc_recip`. -/
def gteCalcRecip (table : List Nat) (divisor : BitVec 16) : Option Int := do
  let entry ← table[((divisor &&& 0x7FFF#16).toNat + 0x40) >>> 7]?
  let x ← int32 (0x101 + entry)
  let negX ← int32 (-x)
  let product ← int32 (divisor.toNat * negX)
  let rounded ← int32 (product + 0x80)
  let tmp := rounded >>> (8 : Nat)
  let step ← int32 (131072 + tmp)
  let product2 ← int32 (x * step)
  let rounded2 ← int32 (product2 + 0x80)
  return rounded2 >>> (8 : Nat)

/-- `gte_divide`: the quotient, and the flags after it. -/
def gteDivide (h sz3 : BitVec 16) (flag : Word) : Option (Int × Word) := do
  let table ← gteInitDivTable
  let doubled ← uint 32 (sz3.toNat * 2)
  if doubled ≤ h.toNat then
    return (0x1FFFF, flag ||| flagDivOvf)
  else
    let shiftBias := sz3.clz.toNat
    let dividend ← uint 32 (h.toNat <<< shiftBias : Nat)
    let divisor ← uint 32 (sz3.toNat <<< shiftBias : Nat)
    let recip ← gteCalcRecip table (BitVec.ofNat 16 (divisor ||| 0x8000))
    let recip ← uint 32 recip
    let product ← uint 64 (dividend * recip + 32768)
    let result ← uint 32 (product >>> 16 : Nat)
    let result ← int32 (if result > 0x1FFFF then 0x1FFFF else result)
    return (result, flag)

theorem uint_of_lt {width v : Nat} (h : v < 2 ^ width) : uint width v = some v := by
  have hCast : (v : Int) < 2 ^ width := by exact_mod_cast h
  simp [uint, hCast]

theorem int32_of_bounds {v : Int} (hLow : -2 ^ 31 ≤ v) (hHigh : v < 2 ^ 31) :
    int32 v = some v := if_pos ⟨hLow, hHigh⟩

/-- One turn without the checks, `m` being the divisor's upper bits. -/
def seedTurn (m xa : Nat) : Nat := xa * (2 ^ 19 - m * xa) / 2 ^ 18

def seedOf (m : Nat) : Nat := (seedTurn m)^[4] 512

/-- The product of the divisor and the seed stays below half of the constant it
is subtracted from. -/
theorem seedTurn_le {m xa : Nat} (h : m * xa ≤ 2 ^ 18) : m * seedTurn m xa ≤ 2 ^ 18 := by
  have hRest : m * xa + (2 ^ 19 - m * xa) = 2 ^ 19 := by omega
  have hSquare : m * xa * (2 ^ 19 - m * xa) ≤ 2 ^ 18 * 2 ^ 18 := by nlinarith
  rw [seedTurn]
  calc m * (xa * (2 ^ 19 - m * xa) / 2 ^ 18)
      ≤ m * (xa * (2 ^ 19 - m * xa)) / 2 ^ 18 := Nat.mul_div_le_mul_div_assoc _ _ _
    _ = m * xa * (2 ^ 19 - m * xa) / 2 ^ 18 := by rw [Nat.mul_assoc]
    _ ≤ 2 ^ 18 * 2 ^ 18 / 2 ^ 18 := Nat.div_le_div_right hSquare
    _ = 2 ^ 18 := by norm_num

theorem seedStep_eq {divisor xa : Nat} (hHigh : 256 ≤ divisor >>> 7)
    (h : (divisor >>> 7) * xa ≤ 2 ^ 18) :
    seedStep divisor xa = some (seedTurn (divisor >>> 7) xa) := by
  unfold seedStep
  generalize divisor >>> 7 = m at hHigh h
  have hXa : xa ≤ 2 ^ 10 := by nlinarith
  have hRest : (1024 * 512 - ((m * xa : Nat) : Int)) = ((2 ^ 19 - m * xa : Nat) : Int) := by omega
  have hNext : xa * (2 ^ 19 - m * xa) < 2 ^ 32 :=
    calc xa * (2 ^ 19 - m * xa) ≤ 2 ^ 10 * 2 ^ 19 := Nat.mul_le_mul hXa (Nat.sub_le _ _)
      _ < 2 ^ 32 := by norm_num
  rw [← Nat.cast_mul, uint_of_lt (show m * xa < 2 ^ 32 by omega), Option.bind_eq_bind,
    Option.bind_some, hRest, uint_of_lt (show 2 ^ 19 - m * xa < 2 ^ 32 by omega),
    Option.bind_some, ← Nat.cast_mul, uint_of_lt hNext, Option.bind_some,
    Nat.shiftRight_eq_div_pow]
  rfl

/-- The turns stay in their types, and keep the bound that one turn needs. -/
theorem seedTurns_eq {divisor : Nat} (hLow : 256 ≤ divisor >>> 7) (hHigh : divisor >>> 7 ≤ 512)
    (n : Nat) :
    (List.range n).foldlM (fun xa _ => seedStep divisor xa) 512 =
        some ((seedTurn (divisor >>> 7))^[n] 512) ∧
      (divisor >>> 7) * (seedTurn (divisor >>> 7))^[n] 512 ≤ 2 ^ 18 := by
  induction n with
  | zero =>
      have hStart : divisor >>> 7 * 512 ≤ 2 ^ 18 := by omega
      exact ⟨rfl, hStart⟩
  | succ n ih =>
      obtain ⟨hTurns, hBound⟩ := ih
      have hTurn := seedStep_eq hLow hBound
      rw [Function.iterate_succ_apply']
      refine ⟨?_, seedTurn_le hBound⟩
      rw [List.range_succ, List.foldlM_append, hTurns, Option.bind_eq_bind, Option.bind_some,
        List.foldlM_cons, hTurn]
      rfl

/-- What is needed of the seed `x` of the divisors whose upper bits round to
`m`: it has nine bits and the top one, and at the first and the last of these
divisors it is near the reciprocal. -/
def seedNear (m x : Nat) : Bool :=
  let low := max 0x8000 (128 * m - 64)
  let high := 128 * m + 63
  decide (257 ≤ x) && decide (x ≤ 512) &&
    decide (low * x ≤ 2 ^ 24 + 50000) && decide (2 ^ 24 ≤ low * x + 50000) &&
    decide (high * x ≤ 2 ^ 24 + 50000) && decide (2 ^ 24 ≤ high * x + 50000)

def entryOf (m : Nat) : Nat := (seedOf m + 1) / 2 - 0x101

theorem entries_good : ((List.range 256).all fun k =>
    decide (0x101 ≤ (seedOf (256 + k) + 1) / 2) &&
      seedNear (256 + k) (0x101 + entryOf (256 + k))) = true := by decide +kernel

section Entries

variable {k : Nat}

theorem entry_good (hK : k < 256) :
    0x101 ≤ (seedOf (256 + k) + 1) / 2 ∧
      seedNear (256 + k) (0x101 + entryOf (256 + k)) = true := by
  have hAll := List.all_eq_true.mp entries_good k (List.mem_range.mpr hK)
  simpa only [Bool.and_eq_true, decide_eq_true_eq] using hAll

theorem entryOf_lt (hK : k < 256) : entryOf (256 + k) < 2 ^ 8 := by
  have hNear := (entry_good hK).2
  simp only [seedNear, Bool.and_eq_true, decide_eq_true_eq] at hNear
  omega

theorem upperBits (k : Nat) : (0x8000 + 0x80 * k) >>> 7 = 256 + k := by
  rw [Nat.shiftRight_eq_div_pow]
  omega

theorem tableEntry_eq (hK : k < 256) :
    tableEntry (0x8000 + 0x80 * k) = some (entryOf (256 + k)) := by
  have hLow : 256 ≤ (0x8000 + 0x80 * k) >>> 7 := by omega
  have hHigh : (0x8000 + 0x80 * k) >>> 7 ≤ 512 := by omega
  have hTurns := (seedTurns_eq hLow hHigh 4).1
  rw [upperBits] at hTurns
  have hEntry : (((seedOf (256 + k) + 1) >>> 1 : Nat) : Int) - 0x101 =
      (entryOf (256 + k) : Nat) := by
    obtain ⟨hRebased, -⟩ := entry_good hK
    unfold entryOf
    generalize seedOf (256 + k) = seed at hRebased ⊢
    omega
  rw [tableEntry, hTurns, Option.bind_eq_bind, Option.bind_some, ← seedOf, hEntry,
    uint_of_lt (entryOf_lt hK)]

theorem tableIndex_eq (hK : k < 256) : ((0x8000 + 0x80 * k) >>> 7) &&& 0xFF = k := by
  have hMask : (256 + k) &&& 0xFF = (256 + k) % 2 ^ 8 :=
    Nat.and_two_pow_sub_one_eq_mod (256 + k) 8
  rw [upperBits, hMask]
  omega

end Entries

/-- The loop over the divisors, up to the first `n` of them. -/
theorem tableLoop_eq {n : Nat} (hN : n ≤ 256) :
    (List.range n).foldlM (fun table k => do
      let divisor := 0x8000 + 0x80 * k
      let entry ← tableEntry divisor
      return table.set ((divisor >>> 7) &&& 0xFF) entry) (List.replicate 0x101 0) =
    some ((List.range n).map (fun k => entryOf (256 + k)) ++ List.replicate (0x101 - n) 0) := by
  induction n with
  | zero => rfl
  | succ n ih =>
      have hK : n < 256 := hN
      have hRest : 0x101 - n = 0x101 - (n + 1) + 1 := by omega
      rw [List.range_succ, List.foldlM_append, ih (by omega), Option.bind_eq_bind,
        Option.bind_some, List.foldlM_cons]
      simp only [tableEntry_eq hK, tableIndex_eq hK, hRest, List.replicate_succ,
        List.map_append, List.map_cons, List.map_nil]
      have hLength : (List.map (fun k => entryOf (256 + k)) (List.range n)).length = n := by simp
      change some (List.set (_ ++ 0 :: List.replicate _ 0) n (entryOf (256 + n))) = _
      rw [List.set_append_right n _ hLength.le, hLength, Nat.sub_self, List.set_cons_zero,
        List.append_assoc]
      rfl

/-- The entries of the table: the last one is stored twice. -/
@[grind =]
def divTable : List Nat := (List.range 256).map (fun k => entryOf (256 + k)) ++ [entryOf 511]

theorem gteInitDivTable_eq : gteInitDivTable = some divTable := by
  have hLast : ((List.range 256).map (fun k => entryOf (256 + k)) ++ [0])[0xFF]? =
      some (entryOf 511) := by
    rw [List.getElem?_append_left (by simp), List.getElem?_map, List.getElem?_range (by omega)]
    rfl
  have hLength : ((List.range 256).map fun k => entryOf (256 + k)).length = 0x100 := by simp
  rw [gteInitDivTable, tableLoop_eq (le_refl 256), Option.bind_eq_bind, Option.bind_some]
  change (((List.range 256).map (fun k => entryOf (256 + k)) ++ [0])[0xFF]?).bind _ = _
  rw [hLast, Option.bind_some]
  change some (List.set _ 0x100 _) = _
  rw [List.set_append_right 0x100 _ hLength.le, hLength]
  rfl

theorem divTable_get {k : Nat} (hK : k < 256) : divTable[k]? = some (entryOf (256 + k)) := by
  rw [divTable, List.getElem?_append_left (by simpa using hK), List.getElem?_map,
    List.getElem?_range hK]
  rfl

theorem divTable_last : divTable[256]? = some (entryOf 511) := by
  rw [divTable, List.getElem?_append_right (by simp)]
  simp

/-- The seed that a normalised divisor selects. -/
@[grind =]
def seedFor (d : Nat) : Nat := 0x101 + entryOf (256 + min 255 ((d - 0x8000 + 0x40) / 128))

def recipOf (d : Nat) : Int := Newton.refine 256 d (seedFor d)

section Reciprocal

variable {d : Nat}

theorem seedFor_bounds (d : Nat) : 257 ≤ seedFor d ∧ seedFor d ≤ 512 := by
  have hEntry := entryOf_lt (show min 255 ((d - 0x8000 + 0x40) / 128) < 256 by omega)
  unfold seedFor
  omega

theorem divTable_seed (hLow : 2 ^ 15 ≤ d) (hHigh : d < 2 ^ 16) :
    divTable[(d % 2 ^ 15 + 0x40) >>> 7]? = some (seedFor d - 0x101) := by
  have hIndex : (d % 2 ^ 15 + 0x40) >>> 7 = (d - 0x8000 + 0x40) / 128 := by omega
  rw [hIndex, seedFor, Nat.add_sub_cancel_left]
  rcases Nat.lt_or_ge ((d - 0x8000 + 0x40) / 128) 256 with hInside | hLast
  · rw [divTable_get hInside, Nat.min_eq_right (by omega)]
  · have hIndex : (d - 0x8000 + 0x40) / 128 = 256 := by omega
    rw [hIndex, divTable_last]
    rfl

/-- The error of the seed, away from the last entry. -/
theorem seedFor_near (hLow : 2 ^ 15 ≤ d) (hHigh : d < 65472) :
    |(seedFor d : Int) * d - 256 ^ 3| ≤ 50000 := by
  set k := (d - 0x8000 + 0x40) / 128 with hIndex
  have hInside : k < 256 := by omega
  have hSeed : seedFor d = 0x101 + entryOf (256 + k) := by
    rw [seedFor, ← hIndex, Nat.min_eq_right (by omega)]
  obtain ⟨-, hNear⟩ := entry_good hInside
  rw [← hSeed] at hNear
  simp only [seedNear, Bool.and_eq_true, decide_eq_true_eq] at hNear
  obtain ⟨⟨⟨⟨⟨-, -⟩, hLowUpper⟩, hLowLower⟩, hHighUpper⟩, hHighLower⟩ := hNear
  have hFrom : max 0x8000 (128 * (256 + k) - 64) * seedFor d ≤ d * seedFor d :=
    Nat.mul_le_mul_right _ (by omega)
  have hTo : d * seedFor d ≤ (128 * (256 + k) + 63) * seedFor d :=
    Nat.mul_le_mul_right _ (by omega)
  have hCast : (seedFor d : Int) * d = (d * seedFor d : Nat) := by push_cast; ring
  rw [hCast, abs_le]
  omega

theorem last_recip : ((List.range 64).all fun i =>
    let error := Newton.refine 256 (65472 + i : Nat) 257 * (65472 + i : Nat) - 256 ^ 4
    decide (-103781 ≤ error) && decide (error ≤ 103781)) = true := by decide

/-- The error of the reciprocal, scaled by the divisor. -/
theorem recipOf_error (hLow : 2 ^ 15 ≤ d) (hHigh : d < 2 ^ 16) :
    |recipOf d * d - 256 ^ 4| ≤ 103781 := by
  rcases Nat.lt_or_ge d 65472 with hInside | hLast
  · have hNear := seedFor_near hLow hInside
    set δ := (seedFor d : Int) * d - 256 ^ 3 with hδ
    have hError := Newton.refine_error (K := 256) (d := d) (x := seedFor d) (δ := δ)
      (by norm_num) (by norm_num) (by positivity) (by rw [hδ]; ring)
    have hSquare : δ ^ 2 ≤ 50000 ^ 2 := by
      rw [← sq_abs]
      exact pow_le_pow_left₀ (abs_nonneg δ) hNear 2
    rw [recipOf]
    generalize |Newton.refine 256 d (seedFor d) * d - 256 ^ 4| = e at hError ⊢
    omega
  · obtain ⟨i, rfl⟩ := Nat.exists_eq_add_of_le hLast
    have hSeed : seedFor (65472 + i) = 257 := by
      rw [seedFor, Nat.min_eq_left (by omega)]
      rfl
    have hAll := List.all_eq_true.mp last_recip i (List.mem_range.mpr (by omega))
    rw [Bool.and_eq_true, decide_eq_true_eq, decide_eq_true_eq] at hAll
    rw [recipOf, hSeed]
    exact abs_le.mpr hAll

section Step

variable {e x : Int}

/-- The factor of the second product. -/
def recipStep (e x : Int) : Int := 131072 + Newton.roundDiv 256 (-(x * e))

theorem refine_eq (e x : Int) :
    Newton.refine 256 e x = Newton.roundDiv 256 (x * recipStep e x) := rfl

theorem recipStep_bounds (hLow : 0 ≤ x * e) (hHigh : x * e ≤ 2 ^ 25) :
    0 ≤ recipStep e x ∧ recipStep e x ≤ 131072 := by
  unfold recipStep Newton.roundDiv
  omega

theorem product_bounds (hLow : 0 ≤ x * e) (hHigh : x * e ≤ 2 ^ 25) (hX : 0 ≤ x)
    (hX512 : x ≤ 512) : 0 ≤ x * recipStep e x ∧ x * recipStep e x ≤ 2 ^ 26 := by
  obtain ⟨hStepLow, hStepHigh⟩ := recipStep_bounds hLow hHigh
  refine ⟨mul_nonneg hX hStepLow, ?_⟩
  calc x * recipStep e x ≤ 512 * 131072 := mul_le_mul hX512 hStepHigh hStepLow (by norm_num)
    _ = 2 ^ 26 := by norm_num

theorem refine_bounds (hLow : 0 ≤ x * e) (hHigh : x * e ≤ 2 ^ 25) (hX : 0 ≤ x)
    (hX512 : x ≤ 512) : 0 ≤ Newton.refine 256 e x ∧ Newton.refine 256 e x ≤ 2 ^ 18 := by
  have hProduct := product_bounds hLow hHigh hX hX512
  rw [refine_eq, Newton.roundDiv]
  omega

end Step

theorem seedFor_mul_bounds (hHigh : d < 2 ^ 16) :
    0 ≤ (seedFor d : Int) * d ∧ (seedFor d : Int) * d ≤ 2 ^ 25 := by
  have hProduct : seedFor d * d ≤ 2 ^ 9 * 2 ^ 16 := Nat.mul_le_mul (seedFor_bounds d).2 hHigh.le
  exact ⟨mul_nonneg (Int.natCast_nonneg _) (Int.natCast_nonneg _), by exact_mod_cast hProduct⟩

theorem recipOf_bounds (hHigh : d < 2 ^ 16) : 0 ≤ recipOf d ∧ recipOf d ≤ 2 ^ 18 := by
  obtain ⟨hProductLow, hProductHigh⟩ := seedFor_mul_bounds hHigh
  exact refine_bounds hProductLow hProductHigh (Int.natCast_nonneg _)
    (by exact_mod_cast (seedFor_bounds d).2)

/-- No step of the reciprocal leaves its type. -/
theorem gteCalcRecip_eq {divisor : BitVec 16} (hLow : 2 ^ 15 ≤ divisor.toNat) :
    gteCalcRecip divTable divisor = some (recipOf divisor.toNat) := by
  have hMask : (divisor &&& 0x7FFF#16).toNat = divisor.toNat % 2 ^ 15 := by
    rw [BitVec.toNat_and]
    exact Nat.and_two_pow_sub_one_eq_mod divisor.toNat 15
  have hHigh := divisor.isLt
  obtain ⟨hProductLow, hProductHigh⟩ := seedFor_mul_bounds hHigh
  obtain ⟨hSeedLow, hSeedHigh⟩ := seedFor_bounds divisor.toNat
  have hX : (0x101 : Int) + (seedFor divisor.toNat - 0x101 : Nat) = seedFor divisor.toNat := by
    omega
  have hX0 : (0 : Int) ≤ seedFor divisor.toNat := Int.natCast_nonneg _
  have hX512 : (seedFor divisor.toNat : Int) ≤ 512 := by exact_mod_cast hSeedHigh
  unfold gteCalcRecip
  rw [hMask, divTable_seed hLow hHigh, Option.bind_eq_bind, Option.bind_some, hX, recipOf,
    refine_eq]
  -- From here on only the two integers matter.
  clear hMask hX hSeedLow hSeedHigh hLow hHigh
  generalize (seedFor divisor.toNat : Int) = x at *
  generalize (divisor.toNat : Int) = e at *
  have hNeg : e * -x = -(x * e) := by ring
  have hStep : (131072 : Int) + (-(x * e) + 0x80) >>> (8 : Nat) = recipStep e x := by
    rw [Int.shiftRight_eq_div_pow]
    rfl
  have hStepBounds := recipStep_bounds hProductLow hProductHigh
  have hProductBounds := product_bounds hProductLow hProductHigh hX0 hX512
  rw [int32_of_bounds (by omega) (by omega), Option.bind_eq_bind, Option.bind_some,
    int32_of_bounds (by omega) (by omega), Option.bind_some, hNeg,
    int32_of_bounds (by omega) (by omega), Option.bind_some,
    int32_of_bounds (by omega) (by omega), Option.bind_some]
  dsimp only
  rw [hStep, int32_of_bounds (by omega) (by omega), Option.bind_some,
    int32_of_bounds (by omega) (by omega), Option.bind_some,
    int32_of_bounds (by omega) (by omega), Option.bind_some, Int.shiftRight_eq_div_pow]
  rfl

end Reciprocal

/-- The product with the reciprocal, rounded and saturated. -/
@[grind =] def quotientOf (n d : Nat) : Int := min 0x1FFFF ((n * recipOf d + 32768) / 2 ^ 16)

/-- What `gte_divide` returns where it does not overflow. -/
@[grind =] def gteQuotient (h sz3 : BitVec 16) : Int :=
  quotientOf (h.toNat <<< sz3.clz.toNat) (sz3.toNat <<< sz3.clz.toNat)

section Quotient

variable {n d : Nat}

theorem quotientOf_bounds (hHigh : d < 2 ^ 16) :
    0 ≤ quotientOf n d ∧ quotientOf n d ≤ 0x1FFFF := by
  have hProduct : 0 ≤ (n : Int) * recipOf d :=
    mul_nonneg (Int.natCast_nonneg _) (recipOf_bounds hHigh).1
  unfold quotientOf
  omega

/-- Saturation does no harm, as the exact quotient is below the bound. -/
theorem quotientOf_error (hLow : 2 ^ 15 ≤ d) (hHigh : d < 2 ^ 16) (hN : n < 2 * d) :
    |quotientOf n d * d - n * 65536| < 4 * d := by
  have hRecip := recipOf_error hLow hHigh
  set r := recipOf d
  set q := (n * r + 32768) / 2 ^ 16 with hQ
  have hRound : |65536 * q - n * r| ≤ 32768 := by
    rw [abs_le]
    omega
  have hSplit : 65536 * (q * d - n * 65536) =
      (65536 * q - n * r) * d + n * (r * d - 256 ^ 4) := by ring
  have hRoundPart : |(65536 * q - n * r) * d| ≤ 32768 * d := by
    rw [abs_mul, Nat.abs_cast]
    exact mul_le_mul_of_nonneg_right hRound (Int.natCast_nonneg d)
  have hRecipPart : |(n : Int) * (r * d - 256 ^ 4)| ≤ (2 * d : Int) * 103781 := by
    rw [abs_mul, Nat.abs_cast]
    exact mul_le_mul (by exact_mod_cast hN.le) hRecip (abs_nonneg _) (by positivity)
  have hUnsaturated : |65536 * (q * d - n * 65536)| ≤ 240330 * d := by
    rw [hSplit]
    exact (abs_add_le _ _).trans (by linarith)
  rw [abs_mul, abs_of_pos (by norm_num : (0 : Int) < 65536)] at hUnsaturated
  have hExact : (n : Int) * 65536 < 131072 * d := by
    have hCast : (n : Int) < 2 * d := by exact_mod_cast hN
    linarith
  have hD : (0 : Int) < d := by exact_mod_cast (show 0 < d by omega)
  obtain ⟨hFrom, hTo⟩ := abs_le.mp (le_refl |q * d - n * 65536|)
  rw [quotientOf, ← hQ, abs_lt]
  rcases le_total q 0x1FFFF with hInside | hAbove
  · rw [min_eq_right hInside]
    constructor <;> linarith
  · have hScaled : 0x1FFFF * (d : Int) ≤ q * d := mul_le_mul_of_nonneg_right hAbove hD.le
    rw [min_eq_left hAbove]
    constructor <;> linarith

end Quotient

section Divide

variable {h sz3 : BitVec 16}

/-- The shift brings the top bit of the divisor to bit 15. -/
theorem normalised (hNonzero : sz3 ≠ 0) :
    2 ^ 15 ≤ sz3.toNat <<< sz3.clz.toNat ∧ sz3.toNat <<< sz3.clz.toNat < 2 ^ 16 := by
  have hLow := BitVec.two_pow_sub_clz_le_toNat_of_ne_zero (by norm_num) hNonzero
  have hHigh := BitVec.toNat_lt_two_pow_sub_clz (x := sz3)
  have hShift : sz3.clz.toNat < 16 := BitVec.clz_lt_iff_ne_zero.mpr hNonzero
  generalize sz3.clz.toNat = shift at hLow hHigh hShift
  rw [Nat.shiftLeft_eq]
  constructor
  · calc 2 ^ 15 = 2 ^ (16 - 1 - shift) * 2 ^ shift := by rw [← pow_add]; congr 1; omega
      _ ≤ sz3.toNat * 2 ^ shift := Nat.mul_le_mul_right _ hLow
  · calc sz3.toNat * 2 ^ shift < 2 ^ (16 - shift) * 2 ^ shift :=
          Nat.mul_lt_mul_of_pos_right hHigh (by positivity)
      _ = 2 ^ 16 := by rw [← pow_add]; congr 1; omega

theorem dividend_lt (hSmall : h.toNat < 2 * sz3.toNat) :
    h.toNat <<< sz3.clz.toNat < 2 * (sz3.toNat <<< sz3.clz.toNat) := by
  rw [Nat.shiftLeft_eq, Nat.shiftLeft_eq, ← Nat.mul_assoc]
  exact Nat.mul_lt_mul_of_pos_right hSmall (by positivity)

theorem or_top_bit {d : Nat} (hLow : 2 ^ 15 ≤ d) (hHigh : d < 2 ^ 16) :
    (BitVec.ofNat 16 (d ||| 0x8000)).toNat = d := by
  have hSplit : d = (d - 2 ^ 15) ||| 2 ^ 15 := by
    rw [Nat.or_two_pow_eq_add_of_lt (show d - 2 ^ 15 < 2 ^ 15 by omega)]
    omega
  have hOr : d ||| 0x8000 = d := by
    calc d ||| 0x8000 = (d - 2 ^ 15) ||| 2 ^ 15 ||| 2 ^ 15 := by rw [← hSplit]; rfl
      _ = (d - 2 ^ 15) ||| 2 ^ 15 := by rw [Nat.or_assoc, Nat.or_self]
      _ = d := hSplit.symm
  rw [hOr, BitVec.toNat_ofNat, Nat.mod_eq_of_lt hHigh]

/-- No step leaves its type or the table; the result is the one of the plain
arithmetic. -/
theorem gteDivide_eq (flag : Word) : gteDivide h sz3 flag =
    some (if sz3.toNat * 2 ≤ h.toNat then (0x1FFFF, flag ||| flagDivOvf)
      else (gteQuotient h sz3, flag)) := by
  have hDoubled : sz3.toNat * 2 < 2 ^ 32 := by omega
  have hCast : ((sz3.toNat : Int) * 2) = (sz3.toNat * 2 : Nat) := by push_cast; rfl
  unfold gteDivide
  rw [gteInitDivTable_eq, Option.bind_eq_bind, Option.bind_some, hCast, uint_of_lt hDoubled,
    Option.bind_eq_bind, Option.bind_some]
  split
  · rfl
  · rename_i hSmall
    have hNonzero : sz3 ≠ 0 := by
      rintro rfl
      exact hSmall (Nat.zero_le _)
    obtain ⟨hLow, hHigh⟩ := normalised hNonzero
    have hDividend := @dividend_lt h sz3 (by omega)
    dsimp only
    rw [uint_of_lt (by omega), Option.bind_some, uint_of_lt (by omega), Option.bind_some,
      gteQuotient]
    generalize sz3.toNat <<< sz3.clz.toNat = d at hLow hHigh hDividend
    generalize h.toNat <<< sz3.clz.toNat = n at hDividend
    obtain ⟨hRecipLow, hRecipHigh⟩ := recipOf_bounds hHigh
    have hRecip := @gteCalcRecip_eq (BitVec.ofNat 16 (d ||| 0x8000))
      (by rw [or_top_bit hLow hHigh]; exact hLow)
    rw [or_top_bit hLow hHigh] at hRecip
    obtain ⟨r, hR⟩ := Int.eq_ofNat_of_zero_le hRecipLow
    have hRHigh : r ≤ 2 ^ 18 := by omega
    have hProduct : n * r + 32768 < 2 ^ 36 := by nlinarith
    have hProductCast : (n : Int) * (r : Nat) + 32768 = (n * r + 32768 : Nat) := by push_cast; rfl
    rw [hRecip, Option.bind_eq_bind, Option.bind_some, hR, uint_of_lt (by omega),
      Option.bind_some, hProductCast, uint_of_lt (by omega), Option.bind_some,
      uint_of_lt (by omega), Option.bind_some]
    have hResult : (if (n * r + 32768) >>> 16 > 0x1FFFF then (0x1FFFF : Int)
        else ((n * r + 32768) >>> 16 : Nat)) = quotientOf n d := by
      rw [quotientOf, hR]
      rw [hProductCast]
      generalize n * r + 32768 = product
      split <;> omega
    obtain ⟨hQuotientLow, hQuotientHigh⟩ := quotientOf_bounds (n := n) hHigh
    rw [hResult, int32_of_bounds (by omega) (by omega)]
    rfl

theorem gteQuotient_bounds (hSmall : h.toNat < sz3.toNat * 2) :
    0 ≤ gteQuotient h sz3 ∧ gteQuotient h sz3 ≤ 0x1FFFF := by
  have hNonzero : sz3 ≠ 0 := by
    rintro rfl
    exact absurd hSmall (Nat.not_lt_zero _)
  exact quotientOf_bounds (normalised hNonzero).2

/-- The quotient against the exact one: the shift cancels. -/
theorem gteQuotient_error (hSmall : h.toNat < sz3.toNat * 2) :
    |(gteQuotient h sz3 : ℚ) - h.toNat * 65536 / sz3.toNat| < 4 := by
  have hNonzero : sz3 ≠ 0 := by
    rintro rfl
    exact absurd hSmall (Nat.not_lt_zero _)
  obtain ⟨hLow, hHigh⟩ := normalised hNonzero
  have hError := quotientOf_error hLow hHigh (dividend_lt (h := h) (by omega))
  rw [← gteQuotient] at hError
  have hScale : (0 : ℚ) < 2 ^ sz3.clz.toNat := by positivity
  have hSz : (0 : ℚ) < sz3.toNat := by
    exact_mod_cast (show 0 < sz3.toNat by omega)
  have hScaled : |(gteQuotient h sz3 : ℚ) * sz3.toNat - h.toNat * 65536| * 2 ^ sz3.clz.toNat <
      4 * sz3.toNat * 2 ^ sz3.clz.toNat := by
    have hRat : |(gteQuotient h sz3 : ℚ) * (sz3.toNat * 2 ^ sz3.clz.toNat) -
        h.toNat * 2 ^ sz3.clz.toNat * 65536| < 4 * (sz3.toNat * 2 ^ sz3.clz.toNat) := by
      rw [Nat.shiftLeft_eq, Nat.shiftLeft_eq] at hError
      exact_mod_cast hError
    calc _ = |(gteQuotient h sz3 : ℚ) * (sz3.toNat * 2 ^ sz3.clz.toNat) -
          h.toNat * 2 ^ sz3.clz.toNat * 65536| := by
          rw [← abs_of_pos hScale, ← abs_mul, abs_of_pos hScale]
          congr 1
          ring
      _ < _ := by linarith
  have hUnscaled := lt_of_mul_lt_mul_right hScaled hScale.le
  have hQuotient : (gteQuotient h sz3 : ℚ) - h.toNat * 65536 / sz3.toNat =
      ((gteQuotient h sz3 : ℚ) * sz3.toNat - h.toNat * 65536) / sz3.toNat := by
    field_simp
  rw [hQuotient, abs_div, abs_of_pos hSz, div_lt_iff₀ hSz]
  exact hUnscaled

end Divide

/-- The division overflows exactly when twice the divisor is at most the
dividend; every other quotient fits 17 bits and is within four units of the
exact one, with no step outside its type or its table. -/
theorem gte_divide_close (h sz3 : BitVec 16) (flag : Word) :
    ∃ q after, gteDivide h sz3 flag = some (q, after) ∧ 0 ≤ q ∧ q ≤ 0x1FFFF ∧
      (2 * sz3.toNat ≤ h.toNat → q = 0x1FFFF ∧ after = flag ||| flagDivOvf) ∧
      (h.toNat < 2 * sz3.toNat → after = flag ∧
        |(q : ℚ) - h.toNat * 65536 / sz3.toNat| < 4) := by
  rw [gteDivide_eq]
  rcases Nat.lt_or_ge h.toNat (sz3.toNat * 2) with hSmall | hOverflow
  · obtain ⟨hLow, hHigh⟩ := gteQuotient_bounds hSmall
    rw [if_neg (by omega)]
    exact ⟨_, _, rfl, hLow, hHigh, fun hOverflow => absurd hOverflow (by omega),
      fun _ => ⟨rfl, gteQuotient_error hSmall⟩⟩
  · rw [if_pos hOverflow]
    exact ⟨_, _, rfl, by norm_num, le_rfl, fun _ => ⟨rfl, rfl⟩,
      fun hSmall => absurd hSmall (by omega)⟩

end RecompStudio.Gte
