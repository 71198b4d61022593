import RecompStudio.Cpu.Word
import RecompStudio.Library.Checked
import Mathlib.Data.Fin.VecNotation

/-!
The decoder of compressed pictures: run-length words to coefficients, the two
passes of the inverse transform, and the samples of the output. An arithmetic
result outside its type and an access outside a table have no value, nor has a
read outside the input.
-/

namespace RecompStudio.Mdec

open Checked

abbrev Halfword := BitVec 16

abbrev Byte := BitVec 8

/-- A quantisation table. -/
abbrev Quant := Fin 64 → Byte

/-- Coefficients, and later samples, of a block. -/
abbrev Block := Fin 64 → Int

/-- The matrix of the transform. Its entries are halfwords shifted down by 3. -/
structure Scale where
  entry : Fin 64 → Int
  bounded : ∀ i, -0x1000 ≤ entry i ∧ entry i < 0x1000

/-- Beetle's scatter order of the coefficients. -/
def zigzagToLinear : Fin 64 → Nat :=
  fun i => [0x00, 0x08, 0x01, 0x02, 0x09, 0x10, 0x18, 0x11,
    0x0a, 0x03, 0x04, 0x0b, 0x12, 0x19, 0x20, 0x28,
    0x21, 0x1a, 0x13, 0x0c, 0x05, 0x06, 0x0d, 0x14,
    0x1b, 0x22, 0x29, 0x30, 0x38, 0x31, 0x2a, 0x23,
    0x1c, 0x15, 0x0e, 0x07, 0x0f, 0x16, 0x1d, 0x24,
    0x2b, 0x32, 0x39, 0x3a, 0x33, 0x2c, 0x25, 0x1e,
    0x17, 0x1f, 0x26, 0x2d, 0x34, 0x3b, 0x3c, 0x35,
    0x2e, 0x27, 0x2f, 0x36, 0x3d, 0x3e, 0x37, 0x3f].get i

def clampInt (value lo hi : Int) : Int :=
  if value < lo then lo else if value > hi then hi else value

/-- An arithmetic shift to the right. -/
@[grind =] def sar (n : Nat) (v : Int) : Int := v / 2 ^ n

/-- `mask9_clamp_s8`: the low nine bits as a signed value, clamped. -/
def mask9ClampS8 (v : Int) : Int := clampInt (BitVec.ofInt 9 v).toInt (-128) 127

/-- One output of a pass: the row `col` of the source with the row `x` of the
matrix, rounded. -/
def idctDot (src : Block) (scale : Scale) (col x : Nat) : Option Int := do
  let total ← sum (fun u => do
    let a ← lookup src (col * 8 + u)
    let b ← lookup scale.entry (x * 8 + u)
    int32 (a * b)) 8
  let rounded ← int32 (total + 0x4000)
  some (sar 15 rounded)

/-- `idct_block`: the first pass transposes and keeps halfwords, the second
keeps signed bytes. -/
def idctBlock (scale : Scale) (block : Block) : Option Block := do
  let tmp ← tabulate 64 fun i => idctDot block scale (i % 8) (i / 8) >>= int16
  tabulate 64 fun i => do
    let value ← idctDot tmp scale (i / 8) (i % 8)
    int16 (mask9ClampS8 value)

/-- The code of a block's end, and of padding. -/
def endOfBlock : Halfword := 0xFE00

/-- The upper six bits of a word: a run, or the scale of a block. -/
def runOf (word : Halfword) : Nat := (word.extractLsb' 10 6).toNat

/-- `sign_extend_10` of the lower ten bits. -/
def levelOf (word : Halfword) : Int := (word.extractLsb' 0 10).toInt

def roundingBias (ci : Int) : Int := if ci = 0 then 0 else if ci < 0 then 8 else -8

/-- A coefficient in the domain shifted up by 4, with a factor `q` whose product
is shifted down first: by 0 for the first coefficient, by 3 for the others. -/
def scaledLevel (shift : Nat) (ci q : Int) : Option Int :=
  if q ≠ 0 then do
    let product ← int32 (ci * q)
    let shifted ← int32 (sar shift product * 16)
    int32 (shifted + roundingBias ci)
  else do
    let doubled ← int32 (ci * 2)
    int32 (doubled * 16)

def dequantise (shift : Nat) (ci q : Int) : Option Int := do
  let tmp ← scaledLevel shift ci q
  int16 (clampInt tmp (-0x4000) 0x3FFF)

/-- The words of padding before a block. The last word of the input is taken
whatever it is. -/
@[grind =] def skipPadding (input : List Halfword) (stop : Nat) (word : Halfword) (pos : Nat) :
    Option (Halfword × Nat) :=
  if word = endOfBlock ∧ pos < stop then do
    let word ← input[pos]?
    skipPadding input stop word (pos + 1)
  else some (word, pos)
termination_by stop - pos

/-- The first coefficient of a block that is clear otherwise. -/
def firstCoefficient (quant : Quant) (word : Halfword) : Option Block := do
  let factor ← lookup quant 0
  let value ← dequantise 0 (levelOf word) factor.toNat
  store (fun _ => 0) 0 value

/-- The coefficient of a word at the index `k`, in its place. -/
def placeCoefficient (quant : Quant) (qscale k : Nat) (word : Halfword) (block : Block) :
    Option Block := do
  let factor ← lookup quant k
  let q ← int32 (qscale * factor.toNat)
  let value ← dequantise 3 (levelOf word) q
  let target ← lookup zigzagToLinear k
  store block target value

/-- The words after the first, from a position and an index on. -/
@[grind =] def acLoop (quant : Quant) (qscale : Nat) (input : List Halfword) (stop pos k : Nat)
    (block : Block) : Option (Block × Nat) :=
  if pos < stop ∧ k < 63 then do
    let word ← input[pos]?
    if word = endOfBlock then some (block, pos + 1)
    else
      let k := k + runOf word + 1
      if 64 ≤ k then some (block, pos + 1)
      else do
        let block ← placeCoefficient quant qscale k word block
        acLoop quant qscale input stop (pos + 1) k block
  else some (block, pos)
termination_by stop - pos

/-- `decode_rle_block`: the block and the position behind it, unless the input
is at its end. -/
@[grind =]
def decodeRleBlock (scale : Scale) (quant : Quant) (input : List Halfword) (stop pos : Nat) :
    Option (Option (Block × Nat)) :=
  if stop ≤ pos then some none
  else do
    let word ← input[pos]?
    let (word, pos) ← skipPadding input stop word (pos + 1)
    let block ← firstCoefficient quant word
    let (block, pos) ← acLoop quant (runOf word) input stop pos 0 block
    let block ← idctBlock scale block
    some (some (block, pos))

/-- A value of an unsigned type of so many bits. -/
def uint (width : Nat) (v : Int) : Option (BitVec width) :=
  (within 0 (2 ^ width - 1) v).map (BitVec.ofInt width)

@[grind =] def int8 (v : Int) : Option Byte := (within (-128) 127 v).map (BitVec.ofInt 8)

/-- `to_output_u8`. -/
def toOutputU8 (outputSigned : Bool) (value : Int) : Option Byte :=
  let value := clampInt value (-128) 127
  if outputSigned then int8 value else uint 8 (value + 128)

/-- `append_luma_block`. -/
def lumaBlock (outputSigned : Bool) (yblk : Block) : Option (List Byte) :=
  (List.range 64).mapM fun i => lookup yblk i >>= toOutputU8 outputSigned

/-- The low `n` bits cleared. -/
def clearLow (n : Nat) (v : Int) : Int := sar n v * 2 ^ n

/-- `YCbCr` to signed red, green and blue. -/
def signedRgb (y cr cb : Int) : Option (Int × Int × Int) := do
  let redSum ← int32 (359 * cr + 0x80)
  let red ← int32 (y + sar 8 redSum)
  let greenB ← int32 (-88 * cb)
  let greenR ← int32 (-183 * cr)
  let greenSum ← int32 (clearLow 5 greenB + clearLow 3 greenR + 0x80)
  let green ← int32 (y + sar 8 greenSum)
  let blueSum ← int32 (454 * cb + 0x80)
  let blue ← int32 (y + sar 8 blueSum)
  some (mask9ClampS8 red, mask9ClampS8 green, mask9ClampS8 blue)

/-- The exclusive or with 0x80 of a signed byte, as an unsigned one. -/
def flipSign (v : Int) : Option Byte := (int8 v).map fun byte => byte ^^^ 0x80#8

/-- `rgb_to_555_chan`. -/
def rgbTo555Chan (c : Byte) : Option (BitVec 5) :=
  let v := (c.toNat + 4) / 8
  uint 5 (if v > 0x1F then 0x1F else v)

/-- What the decoded picture looks like in the output. -/
structure Format where
  bit15 : Bool
  signed : Bool
  depth : BitVec 2
deriving DecidableEq, Repr

/-- `append_rgb_pixel`. -/
def rgbPixel (f : Format) (y cr cb : Int) : Option (List Byte) := do
  let (r, g, b) ← signedRgb y cr cb
  let ru ← flipSign r
  let gu ← flipSign g
  let bu ← flipSign b
  if f.depth = 3 then do
    let red ← rgbTo555Chan ru
    let green ← rgbTo555Chan gu
    let blue ← rgbTo555Chan bu
    let packed : BitVec 16 := (0#1 ++ blue ++ green ++ red)
    let pixelXor : BitVec 16 :=
      (if f.bit15 then 0x8000 else 0) ||| (if f.signed then 0x4210 else 0)
    let packed := packed ^^^ pixelXor
    some [packed.extractLsb' 0 8, packed.extractLsb' 8 8]
  else
    let rgbXor : Byte := if f.signed then 0x80 else 0
    some [ru ^^^ rgbXor, gu ^^^ rgbXor, bu ^^^ rgbXor]

/-- The pixel number `i` of a macroblock, by rows of sixteen. -/
def macroblockPixel (f : Format) (cr cb : Block) (luma : Fin 4 → Block) (i : Nat) :
    Option (List Byte) := do
  let px := i % 16
  let py := i / 16
  let yblk ← lookup luma ((if py ≥ 8 then 2 else 0) + (if px ≥ 8 then 1 else 0))
  let y ← lookup yblk (px % 8 + py % 8 * 8)
  let cr ← lookup cr (px / 2 + py / 2 * 8)
  let cb ← lookup cb (px / 2 + py / 2 * 8)
  rgbPixel f y cr cb

/-- `append_color_macroblock`. -/
def colorMacroblock (f : Format) (cr cb : Block) (luma : Fin 4 → Block) : Option (List Byte) := do
  let pixels ← (List.range 256).mapM (macroblockPixel f cr cb luma)
  some pixels.flatten

/-- What a decode reads besides the input. -/
structure Settings where
  format : Format
  yQuant : Quant
  uvQuant : Quant
  scale : Scale

/-- The loop over luma blocks. Its fuel is the input that is left, and running
out of it has no value either. -/
def lumaLoop (s : Settings) (input : List Halfword) (stop : Nat) :
    (fuel pos : Nat) → Option (List Byte × Nat)
  | 0, _ => none
  | fuel + 1, pos =>
      if pos < stop then do
        match ← decodeRleBlock s.scale s.yQuant input stop pos with
        | none => some ([], pos)
        | some (yblk, pos) => do
            let bytes ← lumaBlock s.format.signed yblk
            let (rest, pos) ← lumaLoop s input stop fuel pos
            some (bytes ++ rest, pos)
      else some ([], pos)

/-- Blocks one after the other, up to the end of the input. -/
def decodeBlocks (s : Settings) (input : List Halfword) (stop : Nat) :
    (quants : List Quant) → (pos : Nat) → Option (List Block × Nat)
  | [], pos => some ([], pos)
  | quant :: quants, pos => do
      match ← decodeRleBlock s.scale quant input stop pos with
      | none => some ([], pos)
      | some (block, pos) => do
          let (blocks, pos) ← decodeBlocks s input stop quants pos
          some (block :: blocks, pos)

/-- The tables of the six blocks of a macroblock. -/
def Settings.macroblockQuants (s : Settings) : List Quant :=
  [s.uvQuant, s.uvQuant, s.yQuant, s.yQuant, s.yQuant, s.yQuant]

/-- The loop over macroblocks. A group that the input does not complete ends it. -/
def colorLoop (s : Settings) (input : List Halfword) (stop : Nat) :
    (fuel pos : Nat) → Option (List Byte × Nat)
  | 0, _ => none
  | fuel + 1, pos =>
      if pos < stop then do
        match ← decodeBlocks s input stop s.macroblockQuants pos with
        | ([cr, cb, y0, y1, y2, y3], pos) => do
            let bytes ← colorMacroblock s.format cr cb ![y0, y1, y2, y3]
            let (rest, pos) ← colorLoop s input stop fuel pos
            some (bytes ++ rest, pos)
        | (_, pos) => some ([], pos)
      else some ([], pos)

/-- The bytes that `execute_decode` appends, and the position where it stops. -/
def decode (s : Settings) (input : List Halfword) : Option (List Byte × Nat) :=
  if s.format.depth.toNat < 2 then lumaLoop s input input.length (input.length + 1) 0
  else colorLoop s input input.length (input.length + 1) 0

end RecompStudio.Mdec
