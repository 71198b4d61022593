import Mathlib.Data.BitVec
import Mathlib.Tactic.Ring

/-!
Ways to use a block cipher on long messages: chained blocks, a keystream that is
XORed into the text, and counters kept as numbers with the high byte first.
-/

namespace RecompStudio.BlockModes

section Chaining

variable {Block : Type} (mix : Block → Block → Block) (encrypt decrypt : Block → Block)

/-- The ciphertext of a chained message, and the block the next one chains from. -/
def chainEncrypt : Block → List Block → List Block × Block
  | iv, [] => ([], iv)
  | iv, b :: bs =>
      let rest := chainEncrypt (encrypt (mix b iv)) bs
      (encrypt (mix b iv) :: rest.1, rest.2)

def chainDecrypt : Block → List Block → List Block × Block
  | iv, [] => ([], iv)
  | iv, c :: cs =>
      let rest := chainDecrypt c cs
      (mix (decrypt c) iv :: rest.1, rest.2)

theorem chainEncrypt_cons (iv b : Block) (bs : List Block) :
    chainEncrypt mix encrypt iv (b :: bs) =
      let rest := chainEncrypt mix encrypt (encrypt (mix b iv)) bs
      (encrypt (mix b iv) :: rest.1, rest.2) := rfl

theorem chainDecrypt_cons (iv c : Block) (cs : List Block) :
    chainDecrypt mix decrypt iv (c :: cs) =
      let rest := chainDecrypt mix decrypt c cs
      (mix (decrypt c) iv :: rest.1, rest.2) := rfl

theorem length_chainEncrypt (iv : Block) (bs : List Block) :
    (chainEncrypt mix encrypt iv bs).1.length = bs.length := by
  induction bs generalizing iv with
  | nil => rfl
  | cons b bs ih => exact congrArg (· + 1) (ih _)

/-- The next message chains from the last ciphertext block. -/
theorem chainEncrypt_last (iv : Block) (bs : List Block) :
    (chainEncrypt mix encrypt iv bs).2 = (chainEncrypt mix encrypt iv bs).1.getLastD iv := by
  induction bs generalizing iv with
  | nil => rfl
  | cons b bs ih => simp only [chainEncrypt_cons, ih, List.getLastD_cons]

theorem chainDecrypt_last (iv : Block) (cs : List Block) :
    (chainDecrypt mix decrypt iv cs).2 = cs.getLastD iv := by
  induction cs generalizing iv with
  | nil => rfl
  | cons c cs ih => simp only [chainDecrypt_cons, ih, List.getLastD_cons]

variable {mix encrypt decrypt}

/-- Decryption undoes encryption, and chains from the same block afterwards. -/
theorem chainDecrypt_chainEncrypt (hMix : ∀ a b, mix (mix a b) b = a)
    (hInverse : ∀ b, decrypt (encrypt b) = b) (iv : Block) (bs : List Block) :
    chainDecrypt mix decrypt iv (chainEncrypt mix encrypt iv bs).1 =
      (bs, (chainEncrypt mix encrypt iv bs).2) := by
  induction bs generalizing iv with
  | nil => rfl
  | cons b bs ih => simp only [chainEncrypt_cons, chainDecrypt_cons, ih, hInverse, hMix]

end Chaining

section Keystream

/-- The text XORed with the keystream from a position on. -/
def xorStream (keystream : Nat → BitVec 8) : Nat → List (BitVec 8) → List (BitVec 8)
  | _, [] => []
  | p, b :: bs => (b ^^^ keystream p) :: xorStream keystream (p + 1) bs

variable (keystream : Nat → BitVec 8)

theorem xorStream_cons (p : Nat) (b : BitVec 8) (bs : List (BitVec 8)) :
    xorStream keystream p (b :: bs) = (b ^^^ keystream p) :: xorStream keystream (p + 1) bs := rfl

@[simp] theorem length_xorStream (p : Nat) (bs : List (BitVec 8)) :
    (xorStream keystream p bs).length = bs.length := by
  induction bs generalizing p with
  | nil => rfl
  | cons b bs ih => exact congrArg (· + 1) (ih _)

/-- The text may be given in pieces. -/
theorem xorStream_append (p : Nat) (bs cs : List (BitVec 8)) :
    xorStream keystream p (bs ++ cs) =
      xorStream keystream p bs ++ xorStream keystream (p + bs.length) cs := by
  induction bs generalizing p with
  | nil => rfl
  | cons b bs ih =>
      have hNext : p + 1 + bs.length = p + (b :: bs).length := by
        rw [List.length_cons]
        omega
      rw [List.cons_append, xorStream_cons, ih, hNext, xorStream_cons, List.cons_append]

theorem getElem?_xorStream (p : Nat) (bs : List (BitVec 8)) (i : Nat) :
    (xorStream keystream p bs)[i]? = bs[i]?.map (· ^^^ keystream (p + i)) := by
  induction bs generalizing p i with
  | nil => rfl
  | cons b bs ih =>
      cases i with
      | zero => rfl
      | succ i =>
          rw [xorStream_cons, List.getElem?_cons_succ, List.getElem?_cons_succ, ih,
            show p + 1 + i = p + (i + 1) by omega]

end Keystream

/-- The number with the given bytes, the high one first. -/
def beValue : List (BitVec 8) → Nat
  | [] => 0
  | b :: bs => b.toNat * 256 ^ bs.length + beValue bs

theorem beValue_cons (b : BitVec 8) (bs : List (BitVec 8)) :
    beValue (b :: bs) = b.toNat * 256 ^ bs.length + beValue bs := rfl

theorem beValue_lt (bs : List (BitVec 8)) : beValue bs < 256 ^ bs.length := by
  induction bs with
  | nil => exact Nat.one_pos
  | cons b bs ih =>
      have hByte : b.toNat + 1 ≤ 256 := b.isLt
      have hMul := Nat.mul_le_mul_right (256 ^ bs.length) hByte
      rw [Nat.add_mul, Nat.one_mul] at hMul
      rw [beValue_cons, List.length_cons, Nat.pow_succ']
      omega

/-- Numbers of one length are told apart by their bytes. -/
theorem beValue_inj {bs cs : List (BitVec 8)} (hLength : bs.length = cs.length)
    (hValue : beValue bs = beValue cs) : bs = cs := by
  induction bs generalizing cs with
  | nil => exact (List.length_eq_zero_iff.mp hLength.symm).symm
  | cons b bs ih =>
      cases cs with
      | nil => exact absurd hLength (Nat.succ_ne_zero _)
      | cons c cs =>
          have hTail : bs.length = cs.length := Nat.succ.inj hLength
          rw [beValue_cons, beValue_cons, hTail] at hValue
          have hLeft : beValue bs < 256 ^ cs.length := hTail ▸ beValue_lt bs
          have hRight := beValue_lt cs
          have hHead : b.toNat = c.toNat := by
            have hDiv := congrArg (· / 256 ^ cs.length) hValue
            simpa only [Nat.mul_comm _ (256 ^ cs.length),
              Nat.mul_add_div (Nat.zero_lt_of_lt hRight),
              Nat.div_eq_of_lt hLeft, Nat.div_eq_of_lt hRight, Nat.add_zero] using hDiv
          rw [hHead] at hValue
          rw [BitVec.eq_of_toNat_eq hHead, ih hTail (Nat.add_left_cancel hValue)]

/-- A number in `n` bytes, the high one first. -/
def beBytes : Nat → Nat → List (BitVec 8)
  | 0, _ => []
  | n + 1, v => BitVec.ofNat 8 (v / 256 ^ n) :: beBytes n v

theorem beBytes_succ (n v : Nat) :
    beBytes (n + 1) v = BitVec.ofNat 8 (v / 256 ^ n) :: beBytes n v := rfl

@[simp] theorem length_beBytes (n v : Nat) : (beBytes n v).length = n := by
  induction n with
  | zero => rfl
  | succ n ih => exact congrArg (· + 1) ih

theorem beValue_beBytes (n v : Nat) : beValue (beBytes n v) = v % 256 ^ n := by
  induction n with
  | zero => rw [Nat.pow_zero, Nat.mod_one]; rfl
  | succ n ih =>
      have hSplit : v % (256 ^ n * 256) = v % 256 ^ n + 256 ^ n * (v / 256 ^ n % 256) :=
        Nat.mod_mul
      have hPow : 256 ^ (n + 1) = 256 ^ n * 256 := pow_succ 256 n
      rw [beBytes_succ, beValue_cons, ih, length_beBytes, BitVec.toNat_ofNat, hPow, hSplit,
        Nat.mul_comm,
        Nat.add_comm]

/-- One byte of a sum: the addend so far is added, its low byte is kept, and the
rest goes on to the next byte. -/
def addStep (b : BitVec 8) (sum : List (BitVec 8) × Nat) : List (BitVec 8) × Nat :=
  (BitVec.ofNat 8 (b.toNat + sum.2) :: sum.1, (b.toNat + sum.2) / 256)

/-- A number added to a counter from its low byte up, and what is carried out of it. -/
def addBytes (bs : List (BitVec 8)) (n : Nat) : List (BitVec 8) × Nat := bs.foldr addStep ([], n)

theorem addBytes_cons (b : BitVec 8) (bs : List (BitVec 8)) (n : Nat) :
    addBytes (b :: bs) n = addStep b (addBytes bs n) := rfl

@[simp] theorem length_addBytes (bs : List (BitVec 8)) (n : Nat) :
    (addBytes bs n).1.length = bs.length := by
  induction bs with
  | nil => rfl
  | cons b bs ih => exact congrArg (· + 1) ih

theorem beValue_addBytes_carry (bs : List (BitVec 8)) (n : Nat) :
    beValue (addBytes bs n).1 + 256 ^ bs.length * (addBytes bs n).2 = beValue bs + n := by
  induction bs with
  | nil =>
      change 0 + 1 * n = 0 + n
      omega
  | cons b bs ih =>
      have hDigit := Nat.mod_add_div (b.toNat + (addBytes bs n).2) 256
      rw [addBytes_cons, addStep, beValue_cons, beValue_cons, length_addBytes, BitVec.toNat_ofNat,
        show (2 : Nat) ^ 8 = 256 from rfl, List.length_cons, Nat.pow_succ]
      calc (b.toNat + (addBytes bs n).2) % 256 * 256 ^ bs.length + beValue (addBytes bs n).1 +
            256 ^ bs.length * 256 * ((b.toNat + (addBytes bs n).2) / 256)
          = ((b.toNat + (addBytes bs n).2) % 256 + 256 * ((b.toNat + (addBytes bs n).2) / 256)) *
              256 ^ bs.length + beValue (addBytes bs n).1 := by ring
        _ = b.toNat * 256 ^ bs.length +
              (beValue (addBytes bs n).1 + 256 ^ bs.length * (addBytes bs n).2) := by
            rw [hDigit]
            ring
        _ = b.toNat * 256 ^ bs.length + beValue bs + n := by rw [ih, Nat.add_assoc]

/-- The counter is the sum, without what is carried out of it. -/
theorem beValue_addBytes (bs : List (BitVec 8)) (n : Nat) :
    beValue (addBytes bs n).1 = (beValue bs + n) % 256 ^ bs.length := by
  have hLt := beValue_lt (addBytes bs n).1
  rw [length_addBytes] at hLt
  rw [← beValue_addBytes_carry, Nat.add_mul_mod_self_left, Nat.mod_eq_of_lt hLt]

theorem addBytes_eq_beBytes (bs : List (BitVec 8)) (n : Nat) :
    (addBytes bs n).1 = beBytes bs.length (beValue bs + n) := by
  apply beValue_inj (by simp only [length_addBytes, length_beBytes])
  rw [beValue_addBytes, beValue_beBytes]

/-- Adding twice adds the sum. -/
theorem addBytes_addBytes (bs : List (BitVec 8)) (m n : Nat) :
    (addBytes (addBytes bs m).1 n).1 = (addBytes bs (m + n)).1 := by
  apply beValue_inj (by simp only [length_addBytes])
  rw [beValue_addBytes, beValue_addBytes, beValue_addBytes, length_addBytes, Nat.mod_add_mod,
    Nat.add_assoc]

theorem addBytes_zero (bs : List (BitVec 8)) : (addBytes bs 0).1 = bs := by
  apply beValue_inj (length_addBytes bs 0)
  rw [beValue_addBytes, Nat.add_zero, Nat.mod_eq_of_lt (beValue_lt bs)]

/-- Counters less than a full turn apart differ. -/
theorem addBytes_inj {bs : List (BitVec 8)} {m n : Nat} (hLe : m ≤ n)
    (hTurn : n - m < 256 ^ bs.length) (hSame : (addBytes bs m).1 = (addBytes bs n).1) : m = n := by
  have hValue := congrArg beValue hSame
  rw [beValue_addBytes, beValue_addBytes] at hValue
  have hDvd : 256 ^ bs.length ∣ (beValue bs + n) - (beValue bs + m) :=
    (Nat.modEq_iff_dvd' (by omega)).mp hValue
  rw [Nat.add_sub_add_left] at hDvd
  have hZero := Nat.eq_zero_of_dvd_of_lt hDvd hTurn
  omega

end RecompStudio.BlockModes
