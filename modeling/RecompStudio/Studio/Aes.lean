import RecompStudio.Library.BlockModes
import Mathlib.Data.List.FinRange
import Mathlib.Data.Vector.Basic

/-!
The block cipher of the container formats: AES with keys of 16 and 32 bytes,
decryption as the equivalent inverse cipher over a transformed key schedule.
-/

namespace RecompStudio.Studio

abbrev Byte := BitVec 8

/-- A block, by columns: the cell of column `c` and row `r` is number `4 * c + r`. -/
abbrev Block := Vector Byte 16

/-- A column of a block, or a word of the key schedule. -/
abbrev Word := Vector Byte 4

def sboxTable : List Byte :=
   [0x63, 0x7c, 0x77, 0x7b, 0xf2, 0x6b, 0x6f, 0xc5, 0x30, 0x01, 0x67, 0x2b, 0xfe, 0xd7, 0xab, 0x76,
    0xca, 0x82, 0xc9, 0x7d, 0xfa, 0x59, 0x47, 0xf0, 0xad, 0xd4, 0xa2, 0xaf, 0x9c, 0xa4, 0x72, 0xc0,
    0xb7, 0xfd, 0x93, 0x26, 0x36, 0x3f, 0xf7, 0xcc, 0x34, 0xa5, 0xe5, 0xf1, 0x71, 0xd8, 0x31, 0x15,
    0x04, 0xc7, 0x23, 0xc3, 0x18, 0x96, 0x05, 0x9a, 0x07, 0x12, 0x80, 0xe2, 0xeb, 0x27, 0xb2, 0x75,
    0x09, 0x83, 0x2c, 0x1a, 0x1b, 0x6e, 0x5a, 0xa0, 0x52, 0x3b, 0xd6, 0xb3, 0x29, 0xe3, 0x2f, 0x84,
    0x53, 0xd1, 0x00, 0xed, 0x20, 0xfc, 0xb1, 0x5b, 0x6a, 0xcb, 0xbe, 0x39, 0x4a, 0x4c, 0x58, 0xcf,
    0xd0, 0xef, 0xaa, 0xfb, 0x43, 0x4d, 0x33, 0x85, 0x45, 0xf9, 0x02, 0x7f, 0x50, 0x3c, 0x9f, 0xa8,
    0x51, 0xa3, 0x40, 0x8f, 0x92, 0x9d, 0x38, 0xf5, 0xbc, 0xb6, 0xda, 0x21, 0x10, 0xff, 0xf3, 0xd2,
    0xcd, 0x0c, 0x13, 0xec, 0x5f, 0x97, 0x44, 0x17, 0xc4, 0xa7, 0x7e, 0x3d, 0x64, 0x5d, 0x19, 0x73,
    0x60, 0x81, 0x4f, 0xdc, 0x22, 0x2a, 0x90, 0x88, 0x46, 0xee, 0xb8, 0x14, 0xde, 0x5e, 0x0b, 0xdb,
    0xe0, 0x32, 0x3a, 0x0a, 0x49, 0x06, 0x24, 0x5c, 0xc2, 0xd3, 0xac, 0x62, 0x91, 0x95, 0xe4, 0x79,
    0xe7, 0xc8, 0x37, 0x6d, 0x8d, 0xd5, 0x4e, 0xa9, 0x6c, 0x56, 0xf4, 0xea, 0x65, 0x7a, 0xae, 0x08,
    0xba, 0x78, 0x25, 0x2e, 0x1c, 0xa6, 0xb4, 0xc6, 0xe8, 0xdd, 0x74, 0x1f, 0x4b, 0xbd, 0x8b, 0x8a,
    0x70, 0x3e, 0xb5, 0x66, 0x48, 0x03, 0xf6, 0x0e, 0x61, 0x35, 0x57, 0xb9, 0x86, 0xc1, 0x1d, 0x9e,
    0xe1, 0xf8, 0x98, 0x11, 0x69, 0xd9, 0x8e, 0x94, 0x9b, 0x1e, 0x87, 0xe9, 0xce, 0x55, 0x28, 0xdf,
    0x8c, 0xa1, 0x89, 0x0d, 0xbf, 0xe6, 0x42, 0x68, 0x41, 0x99, 0x2d, 0x0f, 0xb0, 0x54, 0xbb, 0x16]

def invSboxTable : List Byte :=
   [0x52, 0x09, 0x6a, 0xd5, 0x30, 0x36, 0xa5, 0x38, 0xbf, 0x40, 0xa3, 0x9e, 0x81, 0xf3, 0xd7, 0xfb,
    0x7c, 0xe3, 0x39, 0x82, 0x9b, 0x2f, 0xff, 0x87, 0x34, 0x8e, 0x43, 0x44, 0xc4, 0xde, 0xe9, 0xcb,
    0x54, 0x7b, 0x94, 0x32, 0xa6, 0xc2, 0x23, 0x3d, 0xee, 0x4c, 0x95, 0x0b, 0x42, 0xfa, 0xc3, 0x4e,
    0x08, 0x2e, 0xa1, 0x66, 0x28, 0xd9, 0x24, 0xb2, 0x76, 0x5b, 0xa2, 0x49, 0x6d, 0x8b, 0xd1, 0x25,
    0x72, 0xf8, 0xf6, 0x64, 0x86, 0x68, 0x98, 0x16, 0xd4, 0xa4, 0x5c, 0xcc, 0x5d, 0x65, 0xb6, 0x92,
    0x6c, 0x70, 0x48, 0x50, 0xfd, 0xed, 0xb9, 0xda, 0x5e, 0x15, 0x46, 0x57, 0xa7, 0x8d, 0x9d, 0x84,
    0x90, 0xd8, 0xab, 0x00, 0x8c, 0xbc, 0xd3, 0x0a, 0xf7, 0xe4, 0x58, 0x05, 0xb8, 0xb3, 0x45, 0x06,
    0xd0, 0x2c, 0x1e, 0x8f, 0xca, 0x3f, 0x0f, 0x02, 0xc1, 0xaf, 0xbd, 0x03, 0x01, 0x13, 0x8a, 0x6b,
    0x3a, 0x91, 0x11, 0x41, 0x4f, 0x67, 0xdc, 0xea, 0x97, 0xf2, 0xcf, 0xce, 0xf0, 0xb4, 0xe6, 0x73,
    0x96, 0xac, 0x74, 0x22, 0xe7, 0xad, 0x35, 0x85, 0xe2, 0xf9, 0x37, 0xe8, 0x1c, 0x75, 0xdf, 0x6e,
    0x47, 0xf1, 0x1a, 0x71, 0x1d, 0x29, 0xc5, 0x89, 0x6f, 0xb7, 0x62, 0x0e, 0xaa, 0x18, 0xbe, 0x1b,
    0xfc, 0x56, 0x3e, 0x4b, 0xc6, 0xd2, 0x79, 0x20, 0x9a, 0xdb, 0xc0, 0xfe, 0x78, 0xcd, 0x5a, 0xf4,
    0x1f, 0xdd, 0xa8, 0x33, 0x88, 0x07, 0xc7, 0x31, 0xb1, 0x12, 0x10, 0x59, 0x27, 0x80, 0xec, 0x5f,
    0x60, 0x51, 0x7f, 0xa9, 0x19, 0xb5, 0x4a, 0x0d, 0x2d, 0xe5, 0x7a, 0x9f, 0x93, 0xc9, 0x9c, 0xef,
    0xa0, 0xe0, 0x3b, 0x4d, 0xae, 0x2a, 0xf5, 0xb0, 0xc8, 0xeb, 0xbb, 0x3c, 0x83, 0x53, 0x99, 0x61,
    0x17, 0x2b, 0x04, 0x7e, 0xba, 0x77, 0xd6, 0x26, 0xe1, 0x69, 0x14, 0x63, 0x55, 0x21, 0x0c, 0x7d]

def kSbox (b : Byte) : Byte := sboxTable.getD b.toNat 0

def kInvSbox (b : Byte) : Byte := invSboxTable.getD b.toNat 0

theorem map_kInvSbox : sboxTable.map kInvSbox = (List.range 256).map (BitVec.ofNat 8) := by
  decide +kernel

/-- The tables are inverse to each other. -/
theorem kInvSbox_kSbox (b : Byte) : kInvSbox (kSbox b) = b := by
  have hLength := congrArg List.length map_kInvSbox
  rw [List.length_map, List.length_map, List.length_range] at hLength
  have hLt : b.toNat < sboxTable.length := hLength ▸ b.isLt
  have hAt := congrArg (·[b.toNat]?) map_kInvSbox
  simp only [List.getElem?_map, List.getElem?_range b.isLt, List.getElem?_eq_getElem hLt,
    Option.map_some, Option.some_inj, BitVec.ofNat_toNat, BitVec.setWidth_eq] at hAt
  rw [kSbox, List.getD_eq_getElem?_getD, List.getElem?_eq_getElem hLt, Option.getD_some, hAt]

theorem kSbox_kInvSbox (b : Byte) : kSbox (kInvSbox b) = b := by
  have hInjective : Function.Injective kSbox := Function.LeftInverse.injective kInvSbox_kSbox
  have : Finite Byte := Finite.of_injective BitVec.toFin fun _ _ => BitVec.eq_of_toFin_eq
  obtain ⟨a, rfl⟩ := Finite.surjective_of_injective hInjective b
  rw [kInvSbox_kSbox]

def xtime (value : Byte) : Byte := (value <<< 1) ^^^ (if value &&& 0x80 ≠ 0 then 0x1B else 0)

/-- The loop of `gfMul`, for so many turns. -/
def gfMulLoop : Nat → Byte → Byte → Byte → Byte
  | 0, _, _, result => result
  | n + 1, a, b, result =>
      if b = 0 then result
      else gfMulLoop n (xtime a) (b >>> 1) (if b &&& 1 ≠ 0 then result ^^^ a else result)

/-- A byte has eight bits, so the loop ends within eight turns (`gfMulLoop_add`). -/
def gfMul (a b : Byte) : Byte := gfMulLoop 8 a b 0

theorem xtime_xor (a b : Byte) : xtime (a ^^^ b) = xtime a ^^^ xtime b := by
  have hTop (x : Byte) : x &&& 0x80 ≠ 0 ↔ x.msb = true := by
    revert x
    decide
  have hReduce (p q : Bool) : (if (p ^^ q) = true then (0x1B : Byte) else 0) =
      (if p = true then 0x1B else 0) ^^^ (if q = true then 0x1B else 0) := by
    cases p <;> cases q <;> rfl
  simp only [xtime, hTop, BitVec.msb_xor, BitVec.shiftLeft_xor_distrib, hReduce]
  ac_rfl

theorem gfMulLoop_xor (n : Nat) (a a' b r r' : Byte) :
    gfMulLoop n (a ^^^ a') b (r ^^^ r') = gfMulLoop n a b r ^^^ gfMulLoop n a' b r' := by
  induction n generalizing a a' b r r' with
  | zero => rfl
  | succ n ih =>
      rw [gfMulLoop, gfMulLoop, gfMulLoop]
      by_cases hZero : b = 0
      · rw [if_pos hZero, if_pos hZero, if_pos hZero]
      · rw [if_neg hZero, if_neg hZero, if_neg hZero, xtime_xor]
        by_cases hBit : b &&& 1 ≠ 0
        · rw [if_pos hBit, if_pos hBit, if_pos hBit, ← ih]
          congr 1
          ac_rfl
        · rw [if_neg hBit, if_neg hBit, if_neg hBit, ih]

theorem gfMul_xor (a a' b : Byte) : gfMul (a ^^^ a') b = gfMul a b ^^^ gfMul a' b :=
  gfMulLoop_xor 8 a a' b 0 0

@[grind =] def xorWord (v w : Word) : Word := Vector.zipWith (· ^^^ ·) v w

@[grind =]
def addRoundKey (state roundKey : Block) : Block := Vector.zipWith (· ^^^ ·) state roundKey

/-- The cell that `ShiftRows` puts in a place: the row is rotated left by its number. -/
def shifted (i : Fin 16) : Fin 16 := ⟨((i / 4 + i % 4) % 4) * 4 + i % 4, by omega⟩

/-- `SubBytes` and `ShiftRows` together. -/
def subShift (state : Block) : Block := Vector.ofFn fun i => kSbox state[shifted i]

/-- Each cell is written to its place, one after the other. -/
def invSubShift (state : Block) : Block :=
  (List.finRange 16).foldl (fun out i => out.set (shifted i) (kInvSbox state[i]))
    (Vector.replicate 16 0)

def mixColumn (col : Word) : Word :=
  #v[xtime col[0] ^^^ (xtime col[1] ^^^ col[1]) ^^^ col[2] ^^^ col[3],
    col[0] ^^^ xtime col[1] ^^^ (xtime col[2] ^^^ col[2]) ^^^ col[3],
    col[0] ^^^ col[1] ^^^ xtime col[2] ^^^ (xtime col[3] ^^^ col[3]),
    (xtime col[0] ^^^ col[0]) ^^^ col[1] ^^^ col[2] ^^^ xtime col[3]]

def invMixColumn (col : Word) : Word :=
  #v[gfMul col[0] 14 ^^^ gfMul col[1] 11 ^^^ gfMul col[2] 13 ^^^ gfMul col[3] 9,
    gfMul col[0] 9 ^^^ gfMul col[1] 14 ^^^ gfMul col[2] 11 ^^^ gfMul col[3] 13,
    gfMul col[0] 13 ^^^ gfMul col[1] 9 ^^^ gfMul col[2] 14 ^^^ gfMul col[3] 11,
    gfMul col[0] 11 ^^^ gfMul col[1] 13 ^^^ gfMul col[2] 9 ^^^ gfMul col[3] 14]

@[grind =] def column (state : Block) (c : Fin 4) : Word :=
  Vector.ofFn fun r => state[(⟨c * 4 + r, by omega⟩ : Fin 16)]

/-- A change of each column. -/
def mapColumns (f : Word → Word) (state : Block) : Block :=
  Vector.ofFn fun i => (f (column state ⟨i / 4, by omega⟩))[(⟨i % 4, by omega⟩ : Fin 4)]

def mixColumns : Block → Block := mapColumns mixColumn

def invMixColumns : Block → Block := mapColumns invMixColumn

/-- A key schedule: the number of rounds, zero without a key, and the key of each round. -/
structure Aes where
  rounds : Nat
  encKeys : Nat → Block
  decKeys : Nat → Block

namespace Aes

/-- One more word of the schedule, and the round constant for the next ones. -/
def expandStep (keyWords : Nat) (schedule : List Word × Byte) (word : Nat) : List Word × Byte :=
  let words := schedule.1
  let rcon := schedule.2
  let temp := words.getD (word - 1) (Vector.replicate 4 0)
  let before := words.getD (word - keyWords) (Vector.replicate 4 0)
  if word % keyWords = 0 then
    (words ++ [xorWord before #v[kSbox temp[1] ^^^ rcon, kSbox temp[2], kSbox temp[3],
      kSbox temp[0]]], xtime rcon)
  else if keyWords = 8 ∧ word % keyWords = 4 then
    (words ++ [xorWord before (temp.map kSbox)], rcon)
  else (words ++ [xorWord before temp], rcon)

/-- The words of the key. -/
def keyAsWords (key : List Byte) (keyWords : Nat) : List Word :=
  (List.range keyWords).map fun word => Vector.ofFn fun i : Fin 4 => key.getD (word * 4 + i) 0

def expand (key : List Byte) (keyWords rounds : Nat) : List Word :=
  ((List.range' keyWords ((rounds + 1) * 4 - keyWords)).foldl (expandStep keyWords)
    (keyAsWords key keyWords, 1)).1

def roundKey (words : List Word) (round : Nat) : Block :=
  Vector.ofFn fun i : Fin 16 =>
    (words.getD (round * 4 + i / 4) (Vector.replicate 4 0))[(⟨i % 4, by omega⟩ : Fin 4)]

/-- The equivalent inverse cipher's schedule: the same round keys, every one but the
first and the last passed through `InvMixColumns`. -/
def decKeysOf (rounds : Nat) (encKeys : Nat → Block) (round : Nat) : Block :=
  if 1 ≤ round ∧ round < rounds then invMixColumns (encKeys round) else encKeys round

def invalid : Aes := ⟨0, fun _ => Vector.replicate 16 0, fun _ => Vector.replicate 16 0⟩

def setKey (key : List Byte) : Aes :=
  let keyWords := if key.length = 16 then 4 else if key.length = 32 then 8 else 0
  if keyWords = 0 then invalid
  else
    let rounds := if keyWords = 4 then 10 else 14
    let words := expand key keyWords rounds
    ⟨rounds, roundKey words, decKeysOf rounds (roundKey words)⟩

@[grind =] def isValid (aes : Aes) : Bool := aes.rounds ≠ 0

/-- The state behind the rounds `1 .. n`. -/
@[grind =] def encryptRounds (aes : Aes) : Nat → Block → Block
  | 0, state => state
  | n + 1, state =>
      addRoundKey (mixColumns (subShift (encryptRounds aes n state))) (aes.encKeys (n + 1))

/-- The state behind the rounds `n .. 1`. -/
@[grind =] def decryptRounds (aes : Aes) : Nat → Block → Block
  | 0, state => state
  | n + 1, state =>
      decryptRounds aes n (addRoundKey (invMixColumns (invSubShift state)) (aes.decKeys (n + 1)))

/-- The block that `encryptBlock` writes, with a key. -/
@[grind =] def encrypted (aes : Aes) (block : Block) : Block :=
  let state := aes.encryptRounds (aes.rounds - 1) (addRoundKey block (aes.encKeys 0))
  addRoundKey (subShift state) (aes.encKeys aes.rounds)

@[grind =] def decrypted (aes : Aes) (block : Block) : Block :=
  let state := aes.decryptRounds (aes.rounds - 1) (addRoundKey block (aes.decKeys aes.rounds))
  addRoundKey (invSubShift state) (aes.decKeys 0)

end Aes

end RecompStudio.Studio
