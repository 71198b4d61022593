import RecompStudio.Mdec.Decoder
import Mathlib.Algebra.Order.Ring.Abs
import Mathlib.Tactic.IntervalCases

/-!
Every function of the decoder has a value: no step leaves its type, no access
leaves its table or the input, and no loop runs out of input.
-/

namespace RecompStudio.Mdec

open Checked

theorem levelOf_bounds (word : Halfword) : -512 ≤ levelOf word ∧ levelOf word < 512 :=
  ⟨BitVec.le_toInt _, BitVec.toInt_lt⟩

theorem runOf_lt (word : Halfword) : runOf word < 64 := BitVec.isLt _

theorem clampInt_bounds {value lo hi : Int} (h : lo ≤ hi) :
    lo ≤ clampInt value lo hi ∧ clampInt value lo hi ≤ hi := by
  unfold clampInt
  split
  · exact ⟨le_refl lo, h⟩
  · split <;> omega

theorem mask9ClampS8_bounds (v : Int) : -128 ≤ mask9ClampS8 v ∧ mask9ClampS8 v ≤ 127 :=
  clampInt_bounds (by norm_num)

/-- A shift down brings a value closer to zero. -/
theorem sar_bounds (n : Nat) {v b : Int} (hB : 0 ≤ b) (hLow : -b ≤ v) (hHigh : v ≤ b) :
    -b ≤ sar n v ∧ sar n v ≤ b := by
  have hPow : (0 : Int) < 2 ^ n := by positivity
  have hOne : (1 : Int) ≤ 2 ^ n := hPow
  unfold sar
  constructor
  · rw [Int.le_ediv_iff_mul_le hPow]
    nlinarith
  · exact Int.ediv_le_of_le_mul hPow (by nlinarith)

theorem roundingBias_bounds (ci : Int) : -8 ≤ roundingBias ci ∧ roundingBias ci ≤ 8 := by
  unfold roundingBias
  split_ifs <;> norm_num

/-- The largest factor is the scale of the block times an entry of the table. -/
theorem scaledLevel_eq_some (shift : Nat) {ci q : Int} (hCi : -512 ≤ ci ∧ ci < 512)
    (hQ : 0 ≤ q ∧ q ≤ 63 * 255) : ∃ v, scaledLevel shift ci q = some v := by
  have hProduct : -(512 * (63 * 255)) ≤ ci * q ∧ ci * q ≤ 512 * (63 * 255) := by
    constructor <;> nlinarith
  obtain ⟨hShiftLow, hShiftHigh⟩ := sar_bounds shift (by norm_num) hProduct.1 hProduct.2
  obtain ⟨hBiasLow, hBiasHigh⟩ := roundingBias_bounds ci
  have hInt {v : Int} (hLow : -2 ^ 31 ≤ v) (hHigh : v ≤ 2 ^ 31 - 1) : int32 v = some v :=
    within_of_bounds hLow hHigh
  unfold scaledLevel
  split
  · rw [hInt (v := ci * q) (by omega) (by omega)]
    simp only [Option.bind_eq_bind, Option.bind_some]
    rw [hInt (v := sar shift (ci * q) * 16) (by omega) (by omega)]
    exact ⟨_, hInt (by omega) (by omega)⟩
  · rw [hInt (v := ci * 2) (by omega) (by omega)]
    exact ⟨_, hInt (by omega) (by omega)⟩

theorem dequantise_bounded (shift : Nat) {ci q : Int} (hCi : -512 ≤ ci ∧ ci < 512)
    (hQ : 0 ≤ q ∧ q ≤ 63 * 255) :
    ∃ v, dequantise shift ci q = some v ∧ -0x4000 ≤ v ∧ v ≤ 0x3FFF := by
  obtain ⟨tmp, hTmp⟩ := scaledLevel_eq_some shift hCi hQ
  have hClamp : -0x4000 ≤ clampInt tmp (-0x4000) 0x3FFF ∧ clampInt tmp (-0x4000) 0x3FFF ≤ 0x3FFF :=
    clampInt_bounds (by norm_num)
  obtain ⟨hLow, hHigh⟩ := hClamp
  refine ⟨clampInt tmp (-0x4000) 0x3FFF, ?_, hLow, hHigh⟩
  rw [dequantise, hTmp]
  exact within_of_bounds (by omega) (by omega)

/-- The values of a block are within a bound. -/
def Small (b : Int) (block : Block) : Prop := ∀ i, |block i| ≤ b

theorem idctDot_bounded {src : Block} (scale : Scale) (hSrc : Small 0x4000 src) (col x : Nat)
    (hCol : col < 8) (hX : x < 8) :
    ∃ v, idctDot src scale col x = some v ∧ |v| ≤ 0x4000 := by
  have hTerm : ∀ u < 8, ∃ t, (do
      let a ← lookup src (col * 8 + u)
      let b ← lookup scale.entry (x * 8 + u)
      int32 (a * b)) = some t ∧ |t| ≤ 0x4000 * 0x1000 := by
    intro u hU
    have hA := hSrc ⟨col * 8 + u, by omega⟩
    obtain ⟨hLow, hHigh⟩ := scale.bounded ⟨x * 8 + u, by omega⟩
    have hB : |scale.entry ⟨x * 8 + u, by omega⟩| ≤ 0x1000 := abs_le.mpr ⟨by omega, by omega⟩
    have hProduct : |src ⟨col * 8 + u, by omega⟩ * scale.entry ⟨x * 8 + u, by omega⟩| ≤
        0x4000 * 0x1000 := by
      rw [abs_mul]
      exact mul_le_mul hA hB (abs_nonneg _) (by norm_num)
    refine ⟨_, ?_, hProduct⟩
    rw [lookup_of_lt _ (by omega), lookup_of_lt _ (by omega)]
    exact int32_of_abs_le hProduct (by norm_num)
  obtain ⟨total, hTotal, hBound⟩ := sum_of_abs_le hTerm (by norm_num) (by norm_num)
  obtain ⟨hLow, hHigh⟩ := abs_le.mp hBound
  norm_num at hLow hHigh
  refine ⟨sar 15 (total + 0x4000), ?_, ?_⟩
  · rw [idctDot, hTotal]
    simp only [Option.bind_eq_bind, Option.bind_some]
    rw [int32, within_of_bounds (by omega) (by omega)]
    rfl
  · rw [abs_le]
    unfold sar
    omega

/-- Both passes stay in their types, and the samples are signed bytes. -/
theorem idctBlock_bounded (scale : Scale) {block : Block} (hBlock : Small 0x4000 block) :
    ∃ samples, idctBlock scale block = some samples ∧
      ∀ i, -128 ≤ samples i ∧ samples i ≤ 127 := by
  obtain ⟨tmp, hTmp, hSmall⟩ := exists_tabulate (n := 64) (P := fun v : Int => |v| ≤ 0x4000)
    (f := fun i => idctDot block scale (i % 8) (i / 8) >>= int16) fun i hi => by
      obtain ⟨v, hValue, hV⟩ := idctDot_bounded scale hBlock (i % 8) (i / 8) (by omega)
        (by omega)
      refine ⟨v, ?_, hV⟩
      rw [hValue]
      exact int16_of_abs_lt (hV.trans_lt (by norm_num))
  obtain ⟨samples, hSamples, hBounds⟩ := exists_tabulate (n := 64)
    (P := fun v : Int => -128 ≤ v ∧ v ≤ 127)
    (f := fun i => do
      let value ← idctDot tmp scale (i / 8) (i % 8)
      int16 (mask9ClampS8 value)) fun i hi => by
      obtain ⟨v, hValue, -⟩ := idctDot_bounded scale hSmall (i / 8) (i % 8) (by omega)
        (by omega)
      obtain ⟨hLow, hHigh⟩ := mask9ClampS8_bounds v
      refine ⟨mask9ClampS8 v, ?_, hLow, hHigh⟩
      rw [hValue]
      exact within_of_bounds (by omega) (by omega)
  refine ⟨samples, ?_, hBounds⟩
  rw [idctBlock, hTmp]
  exact hSamples

theorem zigzagToLinear_lt : ∀ i, zigzagToLinear i < 64 := by decide

theorem Small.update {b v : Int} {block : Block} (hBlock : Small b block) (target : Fin 64)
    (hV : |v| ≤ b) : Small b (Function.update block target v) := by
  intro i
  by_cases hi : i = target
  · rwa [hi, Function.update_self]
  · rw [Function.update_of_ne hi]
    exact hBlock i

theorem firstCoefficient_bounded (quant : Quant) (word : Halfword) :
    ∃ b, firstCoefficient quant word = some b ∧ Small 0x4000 b := by
  have hFactor := (quant ⟨0, by norm_num⟩).isLt
  have hQ : 0 ≤ ((quant ⟨0, by norm_num⟩).toNat : Int) ∧
      ((quant ⟨0, by norm_num⟩).toNat : Int) ≤ 63 * 255 := by omega
  obtain ⟨v, hValue, hLow, hHigh⟩ := dequantise_bounded 0 (levelOf_bounds word) hQ
  have hClear : Small 0x4000 (fun _ => 0 : Block) := fun i => by norm_num
  refine ⟨_, ?_, hClear.update ⟨0, by norm_num⟩ (abs_le.mpr ⟨by omega, by omega⟩)⟩
  rw [firstCoefficient, lookup_of_lt _ (by norm_num)]
  simp only [Option.bind_eq_bind, Option.bind_some]
  rw [hValue]
  exact store_of_lt _ (by norm_num) _

theorem placeCoefficient_bounded (quant : Quant) {qscale k : Nat} (hScale : qscale < 64)
    (hK : k < 64) (word : Halfword) {block : Block} (hBlock : Small 0x4000 block) :
    ∃ b, placeCoefficient quant qscale k word block = some b ∧ Small 0x4000 b := by
  have hFactor := (quant ⟨k, hK⟩).isLt
  have hQ : 0 ≤ (qscale : Int) * ((quant ⟨k, hK⟩).toNat : Int) ∧
      (qscale : Int) * ((quant ⟨k, hK⟩).toNat : Int) ≤ 63 * 255 := by
    constructor
    · positivity
    · exact_mod_cast Nat.mul_le_mul (by omega : qscale ≤ 63) (by omega)
  obtain ⟨v, hValue, hLow, hHigh⟩ := dequantise_bounded 3 (levelOf_bounds word) hQ
  refine ⟨_, ?_, hBlock.update ⟨_, zigzagToLinear_lt ⟨k, hK⟩⟩ (abs_le.mpr ⟨by omega, by omega⟩)⟩
  rw [placeCoefficient, lookup_of_lt _ hK]
  simp only [Option.bind_eq_bind, Option.bind_some]
  rw [int32, within_of_bounds (by omega) (by omega)]
  simp only [Option.bind_some]
  rw [hValue]
  simp only [Option.bind_some]
  rw [lookup_of_lt _ hK]
  exact store_of_lt _ (zigzagToLinear_lt _) _

section Blocks

variable {input : List Halfword} {pos : Nat}

theorem getElem?_of_lt (hPos : pos < input.length) : input[pos]? = some input[pos] :=
  List.getElem?_eq_getElem hPos

/-- The words before a block end inside the input. -/
theorem skipPadding_bounded (word : Halfword) (hPos : pos ≤ input.length) :
    ∃ w p, skipPadding input input.length word pos = some (w, p) ∧ pos ≤ p ∧ p ≤ input.length := by
  fun_induction skipPadding input input.length word pos with
  | case1 word pos hMore ih =>
      obtain ⟨-, hLt⟩ := hMore
      obtain ⟨w, p, hSkip, hFrom, hTo⟩ := ih input[pos] (by omega)
      exact ⟨w, p, by rw [getElem?_of_lt hLt]; exact hSkip, by omega, hTo⟩
  | case2 word pos hDone => exact ⟨word, pos, rfl, le_refl pos, hPos⟩

/-- The words of a block end inside the input, and every coefficient is in its
range. -/
theorem acLoop_bounded (quant : Quant) {qscale : Nat} (hScale : qscale < 64) (k : Nat)
    {block : Block} (hPos : pos ≤ input.length) (hBlock : Small 0x4000 block) :
    ∃ b p, acLoop quant qscale input input.length pos k block = some (b, p) ∧
      Small 0x4000 b ∧ pos ≤ p ∧ p ≤ input.length := by
  induction hLeft : input.length - pos generalizing pos k block with
  | zero =>
      rw [acLoop, if_neg (by omega)]
      exact ⟨block, pos, rfl, hBlock, le_refl pos, hPos⟩
  | succ left ih =>
      rw [acLoop]
      by_cases hMore : pos < input.length ∧ k < 63
      · obtain ⟨hLt, hK⟩ := hMore
        rw [if_pos ⟨hLt, hK⟩, getElem?_of_lt hLt]
        simp only [Option.bind_eq_bind, Option.bind_some]
        split
        · exact ⟨block, pos + 1, rfl, hBlock, by omega, hLt⟩
        · split
          · exact ⟨block, pos + 1, rfl, hBlock, by omega, hLt⟩
          · rename_i hIndex
            obtain ⟨next, hNext, hSmall⟩ := placeCoefficient_bounded quant hScale
              (by omega : k + runOf input[pos] + 1 < 64) input[pos] hBlock
            obtain ⟨b, p, hRest, hAll, hFrom, hTo⟩ := ih (k + runOf input[pos] + 1) hLt hSmall
              (by omega)
            refine ⟨b, p, ?_, hAll, by omega, hTo⟩
            rw [hNext]
            exact hRest
      · rw [if_neg hMore]
        exact ⟨block, pos, rfl, hBlock, le_refl pos, hPos⟩

/-- The samples of a block. -/
def Samples (block : Block) : Prop := ∀ i, -128 ≤ block i ∧ block i ≤ 127

theorem decodeRleBlock_at_end (scale : Scale) (quant : Quant) (hPos : input.length ≤ pos) :
    decodeRleBlock scale quant input input.length pos = some none := if_pos hPos

/-- A block takes at least one word. -/
theorem decodeRleBlock_bounded (scale : Scale) (quant : Quant) (hPos : pos < input.length) :
    ∃ b p, decodeRleBlock scale quant input input.length pos = some (some (b, p)) ∧ Samples b ∧
      pos < p ∧ p ≤ input.length := by
  obtain ⟨word, next, hSkip, hFrom, hTo⟩ := skipPadding_bounded input[pos] (hPos : pos + 1 ≤ _)
  obtain ⟨first, hFirst, hSmall⟩ := firstCoefficient_bounded quant word
  obtain ⟨coefficients, p, hAc, hAll, hBehind, hEnd⟩ :=
    acLoop_bounded quant (runOf_lt word) 0 hTo hSmall
  obtain ⟨samples, hIdct, hSamples⟩ := idctBlock_bounded scale hAll
  refine ⟨samples, p, ?_, hSamples, by omega, hEnd⟩
  rw [decodeRleBlock, if_neg (by omega), getElem?_of_lt hPos]
  simp only [Option.bind_eq_bind, Option.bind_some, hSkip, hFirst, hAc, hIdct]

end Blocks

section Samples

variable {f : Format}

/-- A list of computed values, of which each has a property. -/
theorem exists_mapM {α β : Type} {g : α → Option β} {P : β → Prop} (l : List α)
    (h : ∀ a ∈ l, ∃ b, g a = some b ∧ P b) :
    ∃ bs, l.mapM g = some bs ∧ bs.length = l.length ∧ ∀ b ∈ bs, P b := by
  induction l with
  | nil => exact ⟨[], rfl, rfl, by simp⟩
  | cons a l ih =>
      obtain ⟨b, hB, hP⟩ := h a List.mem_cons_self
      obtain ⟨bs, hBs, hLength, hAll⟩ := ih fun a ha => h a (List.mem_cons_of_mem _ ha)
      refine ⟨b :: bs, ?_, by simp [hLength], List.forall_mem_cons.mpr ⟨hP, hAll⟩⟩
      rw [List.mapM_cons, hB, hBs]
      rfl

theorem uint_of_bounds {width : Nat} {v : Int} (hLow : 0 ≤ v) (hHigh : v ≤ 2 ^ width - 1) :
    uint width v = some (BitVec.ofInt width v) := by
  rw [uint, within_of_bounds hLow hHigh]
  rfl

theorem toOutputU8_eq_some (outputSigned : Bool) (value : Int) :
    ∃ byte, toOutputU8 outputSigned value = some byte := by
  have hClamp : -128 ≤ clampInt value (-128) 127 ∧ clampInt value (-128) 127 ≤ 127 :=
    clampInt_bounds (by norm_num)
  obtain ⟨hLow, hHigh⟩ := hClamp
  cases outputSigned with
  | true =>
      rw [toOutputU8, if_pos rfl, int8, within_of_bounds hLow hHigh]
      exact ⟨_, rfl⟩
  | false =>
      rw [toOutputU8, if_neg (by simp), uint_of_bounds (by omega) (by omega)]
      exact ⟨_, rfl⟩

theorem lumaBlock_bounded (outputSigned : Bool) (yblk : Block) :
    ∃ bytes, lumaBlock outputSigned yblk = some bytes ∧ bytes.length = 64 := by
  obtain ⟨bytes, hBytes, hLength, -⟩ := exists_mapM (P := fun _ => True)
    (g := fun i => lookup yblk i >>= toOutputU8 outputSigned) (List.range 64) fun i hi => by
      obtain ⟨byte, hByte⟩ := toOutputU8_eq_some outputSigned (yblk ⟨i, List.mem_range.mp hi⟩)
      refine ⟨byte, ?_, trivial⟩
      rw [lookup_of_lt _ (List.mem_range.mp hi)]
      exact hByte
  exact ⟨bytes, hBytes, by rw [hLength, List.length_range]⟩

theorem signedRgb_eq_some {y cr cb : Int} (hY : -128 ≤ y ∧ y ≤ 127) (hCr : -128 ≤ cr ∧ cr ≤ 127)
    (hCb : -128 ≤ cb ∧ cb ≤ 127) :
    ∃ r g b, signedRgb y cr cb = some (mask9ClampS8 r, mask9ClampS8 g, mask9ClampS8 b) := by
  have hInt {v : Int} (hLow : -2 ^ 20 ≤ v) (hHigh : v ≤ 2 ^ 20) : int32 v = some v :=
    within_of_bounds (by omega) (by omega)
  unfold signedRgb clearLow sar
  rw [hInt (v := 359 * cr + 0x80) (by omega) (by omega)]
  simp only [Option.bind_eq_bind, Option.bind_some]
  rw [hInt (v := y + (359 * cr + 0x80) / 2 ^ 8) (by omega) (by omega)]
  simp only [Option.bind_some]
  rw [hInt (v := -88 * cb) (by omega) (by omega)]
  simp only [Option.bind_some]
  rw [hInt (v := -183 * cr) (by omega) (by omega)]
  simp only [Option.bind_some]
  rw [hInt (v := -88 * cb / 2 ^ 5 * 2 ^ 5 + -183 * cr / 2 ^ 3 * 2 ^ 3 + 0x80) (by omega) (by omega)]
  simp only [Option.bind_some]
  rw [hInt (by omega) (by omega)]
  simp only [Option.bind_some]
  rw [hInt (v := 454 * cb + 0x80) (by omega) (by omega)]
  simp only [Option.bind_some]
  rw [hInt (by omega) (by omega)]
  exact ⟨_, _, _, rfl⟩

theorem flipSign_eq_some (v : Int) : ∃ byte, flipSign (mask9ClampS8 v) = some byte := by
  obtain ⟨hLow, hHigh⟩ := mask9ClampS8_bounds v
  rw [flipSign, int8, within_of_bounds hLow hHigh]
  exact ⟨_, rfl⟩

theorem rgbTo555Chan_eq_some (c : Byte) : ∃ channel, rgbTo555Chan c = some channel := by
  have hHigh : (if (c.toNat + 4) / 8 > 0x1F then 0x1F else (c.toNat + 4) / 8 : Nat) ≤ 31 := by
    split <;> omega
  exact ⟨_, uint_of_bounds (by positivity) (by omega)⟩

/-- The bytes of a pixel. -/
def Format.pixelSize (f : Format) : Nat := if f.depth = 3 then 2 else 3

theorem rgbPixel_bounded {y cr cb : Int} (hY : -128 ≤ y ∧ y ≤ 127) (hCr : -128 ≤ cr ∧ cr ≤ 127)
    (hCb : -128 ≤ cb ∧ cb ≤ 127) :
    ∃ bytes, rgbPixel f y cr cb = some bytes ∧ bytes.length = f.pixelSize := by
  obtain ⟨r, g, b, hRgb⟩ := signedRgb_eq_some hY hCr hCb
  obtain ⟨ru, hRu⟩ := flipSign_eq_some r
  obtain ⟨gu, hGu⟩ := flipSign_eq_some g
  obtain ⟨bu, hBu⟩ := flipSign_eq_some b
  obtain ⟨red, hRed⟩ := rgbTo555Chan_eq_some ru
  obtain ⟨green, hGreen⟩ := rgbTo555Chan_eq_some gu
  obtain ⟨blue, hBlue⟩ := rgbTo555Chan_eq_some bu
  rw [rgbPixel, hRgb, Format.pixelSize]
  simp only [Option.bind_eq_bind, Option.bind_some, hRu, hGu, hBu]
  split
  · rw [hRed, hGreen, hBlue]
    exact ⟨_, rfl, rfl⟩
  · exact ⟨_, rfl, rfl⟩

theorem macroblockPixel_bounded {cr cb : Block} {luma : Fin 4 → Block} (hCr : Samples cr)
    (hCb : Samples cb) (hLuma : ∀ j, Samples (luma j)) {i : Nat} (hi : i < 256) :
    ∃ bytes, macroblockPixel f cr cb luma i = some bytes ∧ bytes.length = f.pixelSize := by
  have hQuadrant : (if i / 16 ≥ 8 then 2 else 0) + (if i % 16 ≥ 8 then 1 else 0) < 4 := by
    split <;> split <;> norm_num
  have hInner : i % 16 % 8 + i / 16 % 8 * 8 < 64 := by omega
  have hChroma : i % 16 / 2 + i / 16 / 2 * 8 < 64 := by omega
  obtain ⟨bytes, hBytes, hLength⟩ := rgbPixel_bounded (f := f) (hLuma ⟨_, hQuadrant⟩ ⟨_, hInner⟩)
    (hCr ⟨_, hChroma⟩) (hCb ⟨_, hChroma⟩)
  refine ⟨bytes, ?_, hLength⟩
  rw [macroblockPixel, lookup_of_lt luma hQuadrant]
  simp only [Option.bind_eq_bind, Option.bind_some]
  rw [lookup_of_lt _ hInner, lookup_of_lt cr hChroma, lookup_of_lt cb hChroma]
  exact hBytes

theorem colorMacroblock_bounded {cr cb : Block} {luma : Fin 4 → Block} (hCr : Samples cr)
    (hCb : Samples cb) (hLuma : ∀ j, Samples (luma j)) :
    ∃ bytes, colorMacroblock f cr cb luma = some bytes ∧ bytes.length = 256 * f.pixelSize := by
  obtain ⟨pixels, hPixels, hLength, hEach⟩ := exists_mapM (g := macroblockPixel f cr cb luma)
    (List.range 256) fun i hi => macroblockPixel_bounded hCr hCb hLuma (List.mem_range.mp hi)
  refine ⟨pixels.flatten, by rw [colorMacroblock, hPixels]; rfl, ?_⟩
  rw [List.length_flatten, List.map_congr_left hEach, List.map_const', List.sum_replicate_nat,
    hLength, List.length_range]

end Samples

variable {s : Settings} {input : List Halfword}

/-- The bytes of a luma loop are at most 64 for each word of the input. -/
theorem lumaLoop_bounded {fuel pos : Nat} (hPos : pos ≤ input.length)
    (hFuel : input.length - pos < fuel) :
    ∃ bytes p, lumaLoop s input input.length fuel pos = some (bytes, p) ∧
      bytes.length ≤ 64 * (input.length - pos) ∧ p ≤ input.length := by
  induction fuel generalizing pos with
  | zero => omega
  | succ fuel ih =>
      rw [lumaLoop]
      by_cases hMore : pos < input.length
      · obtain ⟨block, p, hBlock, -, hBehind, hEnd⟩ := decodeRleBlock_bounded s.scale s.yQuant hMore
        obtain ⟨bytes, hBytes, hLength⟩ := lumaBlock_bounded s.format.signed block
        obtain ⟨rest, last, hRest, hRestLength, hLast⟩ := ih hEnd (by omega)
        refine ⟨bytes ++ rest, last, ?_, ?_, hLast⟩
        · rw [if_pos hMore, hBlock]
          simp only [Option.bind_eq_bind, Option.bind_some, hBytes, hRest]
        · rw [List.length_append, hLength]
          omega
      · rw [if_neg hMore]
        exact ⟨[], pos, rfl, by simp, hPos⟩

/-- The blocks of a group up to the end of the input. -/
theorem decodeBlocks_bounded (quants : List Quant) {pos : Nat} (hPos : pos ≤ input.length) :
    ∃ blocks p, decodeBlocks s input input.length quants pos = some (blocks, p) ∧
      (∀ b ∈ blocks, Samples b) ∧ pos + blocks.length ≤ p ∧ p ≤ input.length ∧
      (pos < input.length → quants ≠ [] → pos < p) := by
  induction quants generalizing pos with
  | nil => exact ⟨[], pos, rfl, by simp, by simp, hPos, fun _ h => absurd rfl h⟩
  | cons quant quants ih =>
      rw [decodeBlocks]
      by_cases hMore : pos < input.length
      · obtain ⟨block, p, hBlock, hSamples, hBehind, hEnd⟩ :=
          decodeRleBlock_bounded s.scale quant hMore
        obtain ⟨blocks, last, hBlocks, hAll, hCount, hLast, -⟩ := ih hEnd
        refine ⟨block :: blocks, last, ?_, List.forall_mem_cons.mpr ⟨hSamples, hAll⟩, ?_, hLast, ?_⟩
        · rw [hBlock]
          simp only [Option.bind_eq_bind, Option.bind_some, hBlocks]
        · rw [List.length_cons]
          omega
        · intro _ _
          omega
      · rw [decodeRleBlock_at_end _ _ (by omega)]
        exact ⟨[], pos, rfl, by simp, by simp, hPos, fun h => absurd h hMore⟩

theorem samples_luma {y0 y1 y2 y3 : Block} (h0 : Samples y0) (h1 : Samples y1) (h2 : Samples y2)
    (h3 : Samples y3) : ∀ j, Samples (![y0, y1, y2, y3] j) := by
  intro j
  match j with
  | 0 => exact h0
  | 1 => exact h1
  | 2 => exact h2
  | 3 => exact h3

/-- The bytes of a macroblock loop are at most 768 for six words of the input. -/
theorem colorLoop_bounded {fuel pos : Nat} (hPos : pos ≤ input.length)
    (hFuel : input.length - pos < fuel) :
    ∃ bytes p, colorLoop s input input.length fuel pos = some (bytes, p) ∧
      bytes.length ≤ 128 * (input.length - pos) ∧ p ≤ input.length := by
  induction fuel generalizing pos with
  | zero => omega
  | succ fuel ih =>
      rw [colorLoop]
      by_cases hMore : pos < input.length
      · obtain ⟨blocks, p, hBlocks, hAll, hCount, hEnd, hBehind⟩ :=
          decodeBlocks_bounded (s := s) s.macroblockQuants hPos
        rw [if_pos hMore, hBlocks]
        simp only [Option.bind_eq_bind, Option.bind_some]
        split
        · rename_i cr cb y0 y1 y2 y3 p hGroup
          obtain ⟨rfl, rfl⟩ := Prod.mk.inj hGroup
          simp only [List.forall_mem_cons] at hAll
          obtain ⟨hCr, hCb, h0, h1, h2, h3, -⟩ := hAll
          obtain ⟨bytes, hBytes, hLength⟩ := colorMacroblock_bounded (f := s.format) hCr hCb
            (samples_luma h0 h1 h2 h3)
          simp only [List.length_cons, List.length_nil] at hCount
          obtain ⟨rest, last, hRest, hRestLength, hLast⟩ := ih hEnd (by omega)
          refine ⟨bytes ++ rest, last, ?_, ?_, hLast⟩
          · simp only [hBytes, hRest, Option.bind_some]
          · have hSize : s.format.pixelSize ≤ 3 := by
              unfold Format.pixelSize
              split <;> norm_num
            rw [List.length_append, hLength]
            omega
        · rename_i other p hOther hGroup
          obtain ⟨-, rfl⟩ := Prod.mk.inj hGroup
          exact ⟨[], _, rfl, by simp, hEnd⟩
      · rw [if_neg hMore]
        exact ⟨[], pos, rfl, by simp, hPos⟩

/-- Every input is decoded, to at most 128 bytes for each of its words. -/
theorem decode_bounded (s : Settings) (input : List Halfword) :
    ∃ bytes p, decode s input = some (bytes, p) ∧ bytes.length ≤ 128 * input.length ∧
      p ≤ input.length := by
  unfold decode
  split
  · obtain ⟨bytes, p, hLoop, hLength, hEnd⟩ := lumaLoop_bounded (s := s)
      (Nat.zero_le input.length) (Nat.lt_succ_self _)
    exact ⟨bytes, p, hLoop, by omega, hEnd⟩
  · obtain ⟨bytes, p, hLoop, hLength, hEnd⟩ := colorLoop_bounded (s := s)
      (Nat.zero_le input.length) (Nat.lt_succ_self _)
    exact ⟨bytes, p, hLoop, by omega, hEnd⟩

end RecompStudio.Mdec
