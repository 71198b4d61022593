import RecompStudio.Gpu.SwRenderer
import Mathlib.Algebra.Order.Group.Abs
import Mathlib.Algebra.Order.Group.Int
import Mathlib.Algebra.Order.Ring.Int
import Mathlib.Tactic.IntervalCases
import Mathlib.Tactic.Ring

/-!
The lines of the software renderer: the loop of `sw_draw_line` ends, and the places that
it goes through are the nearest ones to the segment.
-/

namespace RecompStudio.Gpu

/-- The constants of `sw_draw_line`. Its `dy` is minus the height. -/
structure Line where
  x1 : Int
  y1 : Int
  dx : Int
  dy : Int
  sx : Int
  sy : Int

structure LineState where
  x : Int
  y : Int
  err : Int

namespace Line

def between (x0 y0 x1 y1 : Int) : Line where
  x1 := x1
  y1 := y1
  dx := |x1 - x0|
  dy := -|y1 - y0|
  sx := if x0 < x1 then 1 else -1
  sy := if y0 < y1 then 1 else -1

variable (l : Line)

def start (x0 y0 : Int) : LineState := ⟨x0, y0, l.dx + l.dy⟩

/-- The end of a round: both tests are on the error that the round began with. -/
def next (st : LineState) : LineState :=
  let e2 := 2 * st.err
  let st' := if l.dy ≤ e2 then { st with err := st.err + l.dy, x := st.x + l.sx } else st
  if e2 ≤ l.dx then { st' with err := st'.err + l.dx, y := st'.y + l.sy } else st'

def Ends (st : LineState) : Prop := st.x = l.x1 ∧ st.y = l.y1

instance (st : LineState) : Decidable (l.Ends st) := inferInstanceAs (Decidable (_ ∧ _))

/-- The places of the loop, which has no bound of its own. -/
def walk : Nat → LineState → Option (List Place)
  | 0, _ => none
  | fuel + 1, st =>
      if l.Ends st then some [(st.x, st.y)]
      else (walk fuel (l.next st)).map ((st.x, st.y) :: ·)

end Line

/-- The places that `sw_draw_line` puts its pixels on. -/
def linePlaces (x0 y0 x1 y1 : Int) : Option (List Place) :=
  let l := Line.between x0 y0 x1 y1
  l.walk (|x1 - x0| + |y1 - y0| + 1).toNat (l.start x0 y0)

/-- The colour of `sw_draw_shaded_line` at a step. -/
def shade (c0 c1 : Color) (total : Int) (step : Nat) : Color :=
  let mix (k : Nat) : Int :=
    channel c0 k + ((channel c1 k - channel c0 k) * step).tdiv total
  rgb (mix 0) (mix 1) (mix 2)

/-- What the steps are divided by. -/
def shadeTotal (steps : Int) : Int := if steps = 0 then 1 else steps

/-- Its pixels. -/
def shadedPlots (x0 y0 : Int) (c0 : Color) (x1 y1 : Int) (c1 : Color) :
    Option (List (Place × Color)) :=
  let total := shadeTotal (max |x1 - x0| |y1 - y0|)
  (linePlaces x0 y0 x1 y1).map fun places =>
    places.zipIdx.map fun (p, step) => (p, shade c0 c1 total step)

namespace SwRenderer

variable (r : SwRenderer)

/-- `sw_draw_line`. -/
def drawLine (x0 y0 x1 y1 : Int) (color : Color) : SwRenderer :=
  ((linePlaces x0 y0 x1 y1).getD []).foldl (fun r p => r.plot p color) r

/-- `sw_draw_shaded_line`. -/
def drawShadedLine (x0 y0 : Int) (c0 : Color) (x1 y1 : Int) (c1 : Color) : SwRenderer :=
  ((shadedPlots x0 y0 c0 x1 y1 c1).getD []).foldl (fun r pc => r.plot pc.1 pc.2) r

end SwRenderer

/-- After `k` rounds of a line of `a` columns and `b` rows the loop has gone `i` columns
and `j` rows: the longer way by one each round, the other to the nearest place. -/
structure Balanced (a b k i j : Int) : Prop where
  moved : (0 ≤ i ∧ i ≤ k) ∧ 0 ≤ j ∧ j ≤ k
  flat : b ≤ a → i = k ∧ -a ≤ 2 * (a * j - b * i) ∧ 2 * (a * j - b * i) ≤ a
  steep : a < b → j = k ∧ -b ≤ 2 * (a * j - b * i) ∧ 2 * (a * j - b * i) ≤ b

section Balanced

variable {a b k i j : Int} (ha : 0 ≤ a) (hb : 0 ≤ b)
include ha hb

omit ha in
theorem Balanced.zero : Balanced a b 0 0 0 where
  moved := ⟨⟨le_rfl, le_rfl⟩, le_rfl, le_rfl⟩
  flat _ := ⟨rfl, by omega, by omega⟩
  steep _ := ⟨rfl, by omega, by omega⟩

/-- A round: the error is the balance of the next diagonal place. -/
theorem Balanced.round {err : Int} (h : Balanced a b k i j)
    (hErr : err = a * j - b * i + a - b) :
    Balanced a b (k + 1) (if -b ≤ 2 * err then i + 1 else i)
        (if 2 * err ≤ a then j + 1 else j) := by
  have hRow : a * (j + 1) = a * j + a := by ring
  have hCol : b * (i + 1) = b * i + b := by ring
  obtain ⟨⟨hi, hj⟩, hFlat, hSteep⟩ := h
  constructor
  · constructor
    · split <;> omega
    · split <;> omega
  · intro hLong
    obtain ⟨hi, hLow, hHigh⟩ := hFlat hLong
    rw [if_pos (show -b ≤ 2 * err by omega)]
    by_cases hMove : 2 * err ≤ a
    · rw [if_pos hMove, hRow, hCol]
      omega
    · rw [if_neg hMove, hCol]
      omega
  · intro hLong
    obtain ⟨hj, hLow, hHigh⟩ := hSteep hLong
    rw [if_pos (show 2 * err ≤ a by omega)]
    by_cases hMove : -b ≤ 2 * err
    · rw [if_pos hMove, hRow, hCol]
      omega
    · rw [if_neg hMove, hRow]
      omega

/-- Both ways are within half a place of the segment. -/
theorem Balanced.nearest (h : Balanced a b k i j) :
    |2 * (max a b * i - k * a)| ≤ max a b ∧ |2 * (max a b * j - k * b)| ≤ max a b := by
  rcases le_or_gt b a with hLong | hLong
  · obtain ⟨rfl, hLow, hHigh⟩ := h.flat hLong
    rw [max_eq_left hLong, abs_le, abs_le, Int.mul_comm a i, Int.mul_comm i b]
    omega
  · obtain ⟨rfl, hLow, hHigh⟩ := h.steep hLong
    rw [max_eq_right hLong.le, abs_le, abs_le, Int.mul_comm j a, Int.mul_comm b j]
    omega

omit ha hb in
/-- Half a place is no whole one. -/
theorem eq_of_half {n d : Int} (hn : 0 < n) (hLow : -n ≤ 2 * (n * d)) (hHigh : 2 * (n * d) ≤ n) :
    d = 0 := by
  rcases lt_trichotomy d 0 with hd | hd | hd
  · have := Int.mul_le_mul_of_nonneg_left (show d ≤ -1 by omega) hn.le
    omega
  · exact hd
  · have := Int.mul_le_mul_of_nonneg_left (show 1 ≤ d by omega) hn.le
    omega

/-- The end is met with the last round and not before. -/
theorem Balanced.ends_iff (h : Balanced a b k i j) : (i = a ∧ j = b) ↔ k = max a b := by
  rcases le_or_gt b a with hLong | hLong
  · obtain ⟨rfl, hLow, hHigh⟩ := h.flat hLong
    rw [max_eq_left hLong]
    refine ⟨And.left, fun hEnd => ⟨hEnd, ?_⟩⟩
    subst hEnd
    rcases eq_or_lt_of_le ha with hZero | hPos
    · have := h.moved
      omega
    · have hHalf := eq_of_half hPos (d := j - b)
      rw [Int.mul_sub, Int.mul_comm i b] at hHalf
      exact Int.sub_eq_zero.mp (hHalf hLow hHigh)
  · obtain ⟨rfl, hLow, hHigh⟩ := h.steep hLong
    rw [max_eq_right hLong.le]
    refine ⟨And.right, fun hEnd => ⟨?_, hEnd⟩⟩
    subst hEnd
    have hHalf := eq_of_half (show 0 < j by omega) (d := a - i)
    rw [Int.mul_sub, Int.mul_comm j a] at hHalf
    exact (Int.sub_eq_zero.mp (hHalf hLow hHigh)).symm

end Balanced

namespace Line

variable (l : Line)

theorem next_eq (st : LineState) : l.next st =
    ⟨if l.dy ≤ 2 * st.err then st.x + l.sx else st.x,
      if 2 * st.err ≤ l.dx then st.y + l.sy else st.y,
      st.err + (if l.dy ≤ 2 * st.err then l.dy else 0) + if 2 * st.err ≤ l.dx then l.dx
          else 0⟩ := by
  unfold next
  dsimp only
  split <;> split <;> simp

/-- A loop that meets its end after `n` rounds goes through the places up to there. -/
theorem walk_eq {n : Nat} {st : LineState} (hBefore : ∀ k < n, ¬l.Ends (l.next^[k] st))
    (hEnd : l.Ends (l.next^[n] st)) {fuel : Nat} (hFuel : n < fuel) :
    l.walk fuel st =
      some ((List.range (n + 1)).map fun k => ((l.next^[k] st).x, (l.next^[k] st).y)) := by
  induction n generalizing st fuel with
  | zero =>
      obtain ⟨fuel, rfl⟩ := Nat.exists_eq_succ_of_ne_zero (show fuel ≠ 0 by omega)
      exact if_pos hEnd
  | succ n ih =>
      obtain ⟨fuel, rfl⟩ := Nat.exists_eq_succ_of_ne_zero (show fuel ≠ 0 by omega)
      have hRest : l.walk fuel (l.next st) = some _ :=
        ih (fun k hk => hBefore (k + 1) (by omega)) hEnd (by omega)
      have hHere : ¬l.Ends st := hBefore 0 (by omega)
      change (if l.Ends st then _ else _) = _
      rw [if_neg hHere, hRest, List.range_succ_eq_map (n := n + 1), List.map_cons, List.map_map]
      rfl

end Line

theorem ite_move (p : Prop) [Decidable p] (x s i : Int) :
    (if p then x + s * i + s else x + s * i) = x + s * if p then i + 1 else i := by
  split
  · ring
  · rfl

section Places

variable (x0 y0 x1 y1 : Int)

/-- The places of the loop, by rounds. -/
def lineAt (k : Nat) : LineState :=
  let l := Line.between x0 y0 x1 y1
  l.next^[k] (l.start x0 y0)

theorem lineAt_balanced (k : Nat) : ∃ i j : Int,
    Balanced |x1 - x0| |y1 - y0| k i j ∧
      (lineAt x0 y0 x1 y1 k).x = x0 + (Line.between x0 y0 x1 y1).sx * i ∧
      (lineAt x0 y0 x1 y1 k).y = y0 + (Line.between x0 y0 x1 y1).sy * j ∧
      (lineAt x0 y0 x1 y1 k).err = |x1 - x0| * j - |y1 - y0| * i + |x1 - x0| - |y1 - y0| := by
  have ha := abs_nonneg (x1 - x0)
  have hb := abs_nonneg (y1 - y0)
  induction k with
  | zero =>
      refine ⟨0, 0, Balanced.zero hb, ?_, ?_, ?_⟩
      · exact (Int.add_zero x0).symm.trans (by rw [Int.mul_zero])
      · exact (Int.add_zero y0).symm.trans (by rw [Int.mul_zero])
      · change |x1 - x0| + -|y1 - y0| = _
        omega
  | succ k ih =>
      obtain ⟨i, j, hBalanced, hx, hy, hErr⟩ := ih
      refine ⟨_, _, hBalanced.round ha hb hErr, ?_⟩
      have hNext : lineAt x0 y0 x1 y1 (k + 1) =
          (Line.between x0 y0 x1 y1).next (lineAt x0 y0 x1 y1 k) :=
        Function.iterate_succ_apply' _ _ _
      rw [hNext, Line.next_eq]
      rw [show (Line.between x0 y0 x1 y1).dx = |x1 - x0| from rfl,
        show (Line.between x0 y0 x1 y1).dy = -|y1 - y0| from rfl]
      generalize lineAt x0 y0 x1 y1 k = st at hx hy hErr ⊢
      refine ⟨?_, ?_, ?_⟩
      · rw [hx]
        exact ite_move _ _ _ _
      · rw [hy]
        exact ite_move _ _ _ _
      · have hRow : |x1 - x0| * (j + 1) = |x1 - x0| * j + |x1 - x0| := by ring
        have hCol : |y1 - y0| * (i + 1) = |y1 - y0| * i + |y1 - y0| := by ring
        dsimp only
        by_cases hX : -|y1 - y0| ≤ 2 * st.err
        · by_cases hY : 2 * st.err ≤ |x1 - x0|
          · simp only [if_pos hX, if_pos hY, hRow, hCol]
            omega
          · simp only [if_pos hX, if_neg hY, hCol]
            omega
        · by_cases hY : 2 * st.err ≤ |x1 - x0|
          · simp only [if_neg hX, if_pos hY, hRow]
            omega
          · simp only [if_neg hX, if_neg hY]
            omega

/-- Between ends that are less than `2 ^ 29` apart the error and its double fit an `int`. -/
theorem lineAt_err_fits (hX : |x1 - x0| < 2 ^ 29) (hY : |y1 - y0| < 2 ^ 29) (k : Nat) :
    |2 * (lineAt x0 y0 x1 y1 k).err| < 2 ^ 31 := by
  obtain ⟨i, j, hBalanced, -, -, hErr⟩ := lineAt_balanced x0 y0 x1 y1 k
  have ha := abs_nonneg (x1 - x0)
  have hb := abs_nonneg (y1 - y0)
  rw [abs_lt, hErr]
  rcases le_or_gt |y1 - y0| |x1 - x0| with hLong | hLong
  · obtain ⟨-, hLow, hHigh⟩ := hBalanced.flat hLong
    omega
  · obtain ⟨-, hLow, hHigh⟩ := hBalanced.steep hLong
    omega

theorem sign_mul_abs (a b : Int) : (if a < b then 1 else -1) * |b - a| = b - a := by
  split
  · rw [abs_of_pos (by omega), Int.one_mul]
  · rw [abs_of_nonpos (by omega)]
    ring

/-- The columns of the loop are the columns of the line in its direction. -/
theorem sign_mul_inj {a b i j : Int} :
    (if a < b then (1 : Int) else -1) * i = (if a < b then 1 else -1) * j ↔ i = j := by
  split
  · rw [Int.one_mul, Int.one_mul]
  · rw [Int.neg_one_mul, Int.neg_one_mul, neg_inj]

theorem lineAt_ends_iff (k : Nat) :
    (Line.between x0 y0 x1 y1).Ends (lineAt x0 y0 x1 y1 k) ↔
        (k : Int) = max |x1 - x0| |y1 - y0| := by
  obtain ⟨i, j, hBalanced, hx, hy, -⟩ := lineAt_balanced x0 y0 x1 y1 k
  rw [← hBalanced.ends_iff (abs_nonneg _) (abs_nonneg _)]
  have hX := sign_mul_abs x0 x1
  have hY := sign_mul_abs y0 y1
  have hCol := sign_mul_inj (a := x0) (b := x1) (i := i) (j := |x1 - x0|)
  have hRow := sign_mul_inj (a := y0) (b := y1) (i := j) (j := |y1 - y0|)
  rw [hX] at hCol
  rw [hY] at hRow
  rw [← hCol, ← hRow, Line.Ends, hx, hy]
  change x0 + _ = x1 ∧ y0 + _ = y1 ↔ _
  rw [← eq_sub_iff_add_eq', ← eq_sub_iff_add_eq']
  rfl

/-- Where the loop is after some rounds. -/
def lineStop (k : Nat) : Place := ((lineAt x0 y0 x1 y1 k).x, (lineAt x0 y0 x1 y1 k).y)

theorem linePlaces_eq : linePlaces x0 y0 x1 y1 =
    some ((List.range ((max |x1 - x0| |y1 - y0|).toNat + 1)).map (lineStop x0 y0 x1 y1)) := by
  have ha := abs_nonneg (x1 - x0)
  have hb := abs_nonneg (y1 - y0)
  refine Line.walk_eq _ (fun k hk => ?_) ?_ (by omega)
  · change ¬(Line.between x0 y0 x1 y1).Ends (lineAt x0 y0 x1 y1 k)
    rw [lineAt_ends_iff]
    omega
  · change (Line.between x0 y0 x1 y1).Ends (lineAt x0 y0 x1 y1 _)
    rw [lineAt_ends_iff]
    omega

/-- Each place lies within half a place of the point that divides the segment in the
proportion of the rounds. -/
theorem lineStop_nearest (k : Nat) :
    |2 * (max |x1 - x0| |y1 - y0| * ((lineStop x0 y0 x1 y1 k).1 - x0) - k * (x1 - x0))| ≤
        max |x1 - x0| |y1 - y0| ∧
      |2 * (max |x1 - x0| |y1 - y0| * ((lineStop x0 y0 x1 y1 k).2 - y0) - k * (y1 - y0))| ≤
        max |x1 - x0| |y1 - y0| := by
  obtain ⟨i, j, hBalanced, hx, hy, -⟩ := lineAt_balanced x0 y0 x1 y1 k
  obtain ⟨hX, hY⟩ := hBalanced.nearest (abs_nonneg _) (abs_nonneg _)
  have hSign (a b n i d : Int) (hd : (if a < b then 1 else -1) * d = b - a) :
      |2 * (n * (a + (if a < b then 1 else -1) * i - a) - k * (b - a))| =
          |2 * (n * i - k * d)| := by
    rw [← hd]
    split
    · congr 1
      ring
    · rw [← abs_neg]
      congr 1
      ring
  rw [show (lineStop x0 y0 x1 y1 k).1 = _ from hx, show (lineStop x0 y0 x1 y1 k).2 = _ from hy]
  exact ⟨(hSign _ _ _ _ _ (sign_mul_abs x0 x1)).trans_le hX,
    (hSign _ _ _ _ _ (sign_mul_abs y0 y1)).trans_le hY⟩

/-- No round leaves the eight places around the last one. -/
theorem lineStop_neighbour (k : Nat) :
    |(lineStop x0 y0 x1 y1 (k + 1)).1 - (lineStop x0 y0 x1 y1 k).1| ≤ 1 ∧
      |(lineStop x0 y0 x1 y1 (k + 1)).2 - (lineStop x0 y0 x1 y1 k).2| ≤ 1 := by
  have hNext : lineAt x0 y0 x1 y1 (k + 1) =
      (Line.between x0 y0 x1 y1).next (lineAt x0 y0 x1 y1 k) :=
    Function.iterate_succ_apply' _ _ _
  have hSign (a b : Int) : |if a < b then (1 : Int) else -1| = 1 := by
    split <;> rfl
  have hMove (p : Prop) [Decidable p] (a x y : Int) :
      |(if p then a + (if x < y then 1 else -1) else a) - a| ≤ 1 := by
    split
    · rw [add_sub_cancel_left, hSign]
    · rw [sub_self, abs_zero]
      exact zero_le_one
  unfold lineStop
  rw [hNext, Line.next_eq]
  exact ⟨hMove _ _ _ _, hMove _ _ _ _⟩

/-- The loop of `sw_draw_line` ends for every two ends, with one pixel for each step of
the longer way and one more: it goes from the one end to the other, always to a
neighbour, and is never off the segment by more than half a pixel. -/
theorem linePlaces_spec : ∃ place : Nat → Place,
    linePlaces x0 y0 x1 y1 =
        some ((List.range ((max |x1 - x0| |y1 - y0|).toNat + 1)).map place) ∧
      place 0 = (x0, y0) ∧ place (max |x1 - x0| |y1 - y0|).toNat = (x1, y1) ∧
      ∀ k, (|(place (k + 1)).1 - (place k).1| ≤ 1 ∧ |(place (k + 1)).2 - (place k).2| ≤ 1) ∧
        |2 * (max |x1 - x0| |y1 - y0| * ((place k).1 - x0) - k * (x1 - x0))| ≤
          max |x1 - x0| |y1 - y0| ∧
        |2 * (max |x1 - x0| |y1 - y0| * ((place k).2 - y0) - k * (y1 - y0))| ≤
          max |x1 - x0| |y1 - y0| := by
  have ha := abs_nonneg (x1 - x0)
  have hb := abs_nonneg (y1 - y0)
  refine ⟨lineStop x0 y0 x1 y1, linePlaces_eq x0 y0 x1 y1, rfl, ?_, fun k =>
    ⟨lineStop_neighbour x0 y0 x1 y1 k, lineStop_nearest x0 y0 x1 y1 k⟩⟩
  obtain ⟨hX, hY⟩ := (lineAt_ends_iff x0 y0 x1 y1 (max |x1 - x0| |y1 - y0|).toNat).mpr (by omega)
  exact Prod.ext hX hY

end Places

theorem channel_bounds (c : Color) (k : Nat) : 0 ≤ channel c k ∧ channel c k ≤ 31 := by
  have := (c.extractLsb' (5 * k) 5).isLt
  unfold channel
  omega

theorem ofInt_channel {v : Int} (hv : 0 ≤ v ∧ v ≤ 31) :
    ∃ x : BitVec 5, BitVec.ofInt 16 v = x.setWidth 16 ∧ (x.toNat : Int) = v := by
  refine ⟨BitVec.ofInt 5 v, ?_, ?_⟩
  · apply BitVec.eq_of_toNat_eq
    rw [BitVec.toNat_setWidth, BitVec.toNat_ofInt, BitVec.toNat_ofInt]
    omega
  · rw [BitVec.toNat_ofInt]
    omega

/-- The bit `i` of a colour of three channels. -/
theorem getLsbD_channels (x y z : BitVec 5) {i : Nat} (hi : i < 16) :
    (x.setWidth 16 ||| y.setWidth 16 <<< 5 ||| z.setWidth 16 <<< 10).getLsbD i =
      if i < 5 then x.getLsbD i
      else if i < 10 then y.getLsbD (i - 5) else z.getLsbD (i - 10) := by
  simp only [BitVec.getLsbD_or, BitVec.getLsbD_setWidth, BitVec.getLsbD_shiftLeft]
  interval_cases i <;> simp

theorem channel_rgb {r g b : Int} (hr : 0 ≤ r ∧ r ≤ 31) (hg : 0 ≤ g ∧ g ≤ 31)
    (hb : 0 ≤ b ∧ b ≤ 31) :
    (channel (rgb r g b) 0 = r ∧ channel (rgb r g b) 1 = g ∧ channel (rgb r g b) 2 = b) ∧
      (rgb r g b).msb = false := by
  obtain ⟨x, hx, hR⟩ := ofInt_channel hr
  obtain ⟨y, hy, hG⟩ := ofInt_channel hg
  obtain ⟨z, hz, hB⟩ := ofInt_channel hb
  have hPart (k : Nat) (v : BitVec 5)
      (hBits : ∀ i < 5, (rgb r g b).getLsbD (5 * k + i) = v.getLsbD i) :
      channel (rgb r g b) k = v.toNat := by
    unfold channel
    congr 2
    apply BitVec.eq_of_getLsbD_eq
    intro i hi
    rw [BitVec.getLsbD_extractLsb', decide_eq_true hi, Bool.true_and, hBits i hi]
  have hBit (i : Nat) (hi : i < 16) := getLsbD_channels x y z hi
  have hColor : rgb r g b = x.setWidth 16 ||| y.setWidth 16 <<< 5 ||| z.setWidth 16 <<< 10 := by
    rw [rgb, hx, hy, hz]
  refine ⟨⟨?_, ?_, ?_⟩, ?_⟩
  · rw [hPart 0 x fun i hi => ?_, hR]
    rw [hColor, hBit _ (by omega), if_pos (by omega), Nat.mul_zero, Nat.zero_add]
  · rw [hPart 1 y fun i hi => ?_, hG]
    rw [hColor, hBit _ (by omega), if_neg (by omega), if_pos (by omega), Nat.mul_one,
      Nat.add_sub_cancel_left]
  · rw [hPart 2 z fun i hi => ?_, hB]
    rw [hColor, hBit _ (by omega), if_neg (by omega), if_neg (by omega),
      show 5 * 2 + i - 10 = i by omega]
  · rw [BitVec.msb_eq_getLsbD_last, hColor, hBit _ (by omega), if_neg (by omega),
      if_neg (by omega)]
    exact BitVec.getLsbD_of_ge z _ (by omega)

theorem mix_between {a b : Int} {total : Int} {step : Nat} (hTotal : 0 < total)
    (hStep : step ≤ total) :
    min a b ≤ a + ((b - a) * step).tdiv total ∧ a + ((b - a) * step).tdiv total ≤ max a b := by
  rcases le_total a b with hab | hab
  · have hLow : 0 ≤ (b - a) * step := Int.mul_nonneg (by omega) (by omega)
    have hHigh : (b - a) * step ≤ (b - a) * total := Int.mul_le_mul_of_nonneg_left hStep (by omega)
    have hQuot := Int.ediv_le_of_le_mul hTotal hHigh
    have hNonneg := Int.ediv_nonneg hLow hTotal.le
    rw [min_eq_left hab, max_eq_right hab, Int.tdiv_eq_ediv_of_nonneg hLow]
    omega
  · have hLow : 0 ≤ (a - b) * step := Int.mul_nonneg (by omega) (by omega)
    have hHigh : (a - b) * step ≤ (a - b) * total := Int.mul_le_mul_of_nonneg_left hStep (by omega)
    have hQuot := Int.ediv_le_of_le_mul hTotal hHigh
    have hNonneg := Int.ediv_nonneg hLow hTotal.le
    have hNeg : (b - a) * (step : Int) = -((a - b) * step) := by ring
    rw [min_eq_right hab, max_eq_left hab, hNeg, Int.neg_tdiv, Int.tdiv_eq_ediv_of_nonneg hLow]
    omega

/-- The colour of a step has its channels between those of the ends. -/
theorem channel_shade (c0 c1 : Color) {total : Int} {step : Nat} (hTotal : 0 < total)
    (hStep : step ≤ total) :
    (∀ i < 3, channel (shade c0 c1 total step) i =
        channel c0 i + ((channel c1 i - channel c0 i) * step).tdiv total) ∧
      (shade c0 c1 total step).msb = false := by
  have hMix (i : Nat) : 0 ≤ channel c0 i + ((channel c1 i - channel c0 i) * step).tdiv total ∧
      channel c0 i + ((channel c1 i - channel c0 i) * step).tdiv total ≤ 31 := by
    have hBetween := mix_between (a := channel c0 i) (b := channel c1 i) hTotal hStep
    have hOne := channel_bounds c0 i
    have hOther := channel_bounds c1 i
    omega
  obtain ⟨⟨hR, hG, hB⟩, hMask⟩ := channel_rgb (hMix 0) (hMix 1) (hMix 2)
  refine ⟨fun i hi => ?_, hMask⟩
  interval_cases i
  · exact hR
  · exact hG
  · exact hB

/-- The pixels of `sw_draw_shaded_line` are on the places of `sw_draw_line`. Each channel
stays between those of the two ends, and the ends have their own colours. -/
theorem shadedPlots_spec (x0 y0 : Int) (c0 : Color) (x1 y1 : Int) (c1 : Color) :
    ∃ (n : Nat) (place : Nat → Place) (color : Nat → Color),
      linePlaces x0 y0 x1 y1 = some ((List.range (n + 1)).map place) ∧
        shadedPlots x0 y0 c0 x1 y1 c1 =
          some ((List.range (n + 1)).map fun k => (place k, color k)) ∧
        (∀ k ≤ n, (color k).msb = false ∧ ∀ i < 3,
          min (channel c0 i) (channel c1 i) ≤ channel (color k) i ∧
            channel (color k) i ≤ max (channel c0 i) (channel c1 i)) ∧
        (∀ i < 3, channel (color 0) i = channel c0 i) ∧
        (0 < n → ∀ i < 3, channel (color n) i = channel c1 i) := by
  have ha := abs_nonneg (x1 - x0)
  have hb := abs_nonneg (y1 - y0)
  have hPlaces := linePlaces_eq x0 y0 x1 y1
  generalize hLong : max |x1 - x0| |y1 - y0| = long at hPlaces
  have hNonneg : 0 ≤ long := by omega
  obtain ⟨n, rfl⟩ := Int.eq_ofNat_of_zero_le hNonneg
  have hTotal : 0 < shadeTotal n := by
    unfold shadeTotal
    split <;> omega
  have hSteps : ∀ k ≤ n, (k : Int) ≤ shadeTotal n := by
    intro k hk
    unfold shadeTotal
    split <;> omega
  refine ⟨n, lineStop x0 y0 x1 y1, shade c0 c1 (shadeTotal n), hPlaces, ?_, fun k hk => ?_,
    fun i hi => ?_, fun hn i hi => ?_⟩
  · rw [shadedPlots, hPlaces, hLong]
    simp only [Option.map_some, Int.toNat_natCast]
    congr 1
    apply List.ext_getElem
    · simp
    · intro k hk hk'
      simp
  · obtain ⟨hMix, hMask⟩ := channel_shade c0 c1 hTotal (hSteps k hk)
    refine ⟨hMask, fun i hi => ?_⟩
    rw [hMix i hi]
    exact mix_between hTotal (hSteps k hk)
  · rw [(channel_shade c0 c1 hTotal (hSteps 0 (by omega))).1 i hi]
    simp
  · rw [(channel_shade c0 c1 hTotal (hSteps n le_rfl)).1 i hi]
    have hSame : shadeTotal n = n := if_neg (by omega)
    rw [hSame, Int.mul_tdiv_cancel _ (by omega)]
    omega

end RecompStudio.Gpu
