import Mathlib.Algebra.GroupWithZero.Nat
import Mathlib.Data.List.OfFn
import Mathlib.Logic.Function.Basic
import Mathlib.Tactic.Common

/-!
Bytes in memory and in files: numbers with the low byte first, arrays of words,
and records copied field by field. What is written is read back.
-/

namespace RecompStudio.Serial

abbrev Byte := BitVec 8

/-- A block of `n` bytes. -/
abbrev Bytes (n : Nat) : Type := { bs : List Byte // bs.length = n }

/-- The first `n` bytes of a list, filled up with zeros. -/
def Bytes.ofList (n : Nat) (bs : List Byte) : Bytes n :=
  ⟨(bs ++ List.replicate n 0).take n, by simp⟩

theorem Bytes.ofList_append {n : Nat} (b : Bytes n) (bs : List Byte) :
    Bytes.ofList n (b.val ++ bs) = b := by
  apply Subtype.ext
  change (b.val ++ bs ++ List.replicate n 0).take n = b.val
  rw [List.append_assoc, List.take_left' b.property]

theorem Bytes.ofList_val {n : Nat} (b : Bytes n) : Bytes.ofList n b.val = b := by
  simpa using b.ofList_append []

theorem Bytes.exists_ne {n : Nat} (hPos : 0 < n) (b : Bytes n) : ∃ c, c ≠ b := by
  by_contra hNone
  have hZero : ⟨List.replicate n 0, by simp⟩ = b := not_not.mp fun h => hNone ⟨_, h⟩
  have hOne : ⟨List.replicate n 1, by simp⟩ = b := not_not.mp fun h => hNone ⟨_, h⟩
  have hEq := congrArg Subtype.val (hZero.trans hOne.symm)
  have hNe : n ≠ 0 := by omega
  simp [List.replicate_inj, hNe] at hEq

theorem drop_front {xs ys : List Byte} {m n : Nat} (hLength : xs.length = m) (hLe : m ≤ n) :
    (xs ++ ys).drop n = ys.drop (n - m) := by
  rw [List.drop_append, List.drop_eq_nil_of_le (by omega), List.nil_append, hLength]

/-- A number in `n` bytes, the low one first. -/
@[grind =] def leBytes : Nat → Nat → List Byte
  | 0, _ => []
  | n + 1, x => BitVec.ofNat 8 x :: leBytes n (x / 256)

def leValue : List Byte → Nat
  | [] => 0
  | b :: bs => b.toNat + 256 * leValue bs

@[simp] theorem length_leBytes (n x : Nat) : (leBytes n x).length = n := by
  induction n generalizing x with
  | zero => rfl
  | succ n ih => simp [leBytes, ih]

theorem leValue_leBytes (n x : Nat) : leValue (leBytes n x) = x % 256 ^ n := by
  induction n generalizing x with
  | zero => simp [leBytes, leValue, Nat.mod_one]
  | succ n ih =>
      have hPow : 256 ^ (n + 1) = 256 * 256 ^ n := Nat.pow_succ'
      rw [leBytes, leValue, ih, BitVec.toNat_ofNat, hPow, Nat.mod_mul]

/-- A machine word of `n` bytes. -/
def bitsBytes (n : Nat) (w : BitVec (8 * n)) : List Byte := leBytes n w.toNat

def bitsOf (n : Nat) (bs : List Byte) : BitVec (8 * n) := BitVec.ofNat _ (leValue (bs.take n))

@[simp] theorem length_bitsBytes (n : Nat) (w : BitVec (8 * n)) : (bitsBytes n w).length = n :=
  length_leBytes n _

theorem bitsOf_append (n : Nat) (w : BitVec (8 * n)) (bs : List Byte) :
    bitsOf n (bitsBytes n w ++ bs) = w := by
  apply BitVec.eq_of_toNat_eq
  have hLt := w.isLt
  have hPow : (256 : Nat) ^ n = 2 ^ (8 * n) := by rw [Nat.pow_mul]
  rw [bitsOf, List.take_left' (length_bitsBytes n w), bitsBytes, leValue_leBytes, hPow,
    BitVec.toNat_ofNat, Nat.mod_mod, Nat.mod_eq_of_lt hLt]

theorem bitsOf_bitsBytes (n : Nat) (w : BitVec (8 * n)) : bitsOf n (bitsBytes n w) = w := by
  simpa using bitsOf_append n w []

/-- An array of words of `n` bytes. -/
@[grind =]
def arrayBytes (n : Nat) (ws : List (BitVec (8 * n))) : List Byte := ws.flatMap (bitsBytes n)

/-- The word at an index of an array. -/
def arrayGet (n : Nat) (bs : List Byte) (i : Nat) : BitVec (8 * n) := bitsOf n (bs.drop (n * i))

@[simp] theorem length_arrayBytes (n : Nat) (ws : List (BitVec (8 * n))) :
    (arrayBytes n ws).length = n * ws.length := by
  induction ws with
  | nil => simp [arrayBytes]
  | cons w ws ih =>
      rw [arrayBytes, List.flatMap_cons, List.length_append, length_bitsBytes]
      rw [arrayBytes] at ih
      rw [ih, List.length_cons, Nat.mul_add, Nat.mul_one, Nat.add_comm]

theorem arrayGet_arrayBytes {n : Nat} {ws : List (BitVec (8 * n))} (bs : List Byte) {i : Nat}
    {w : BitVec (8 * n)} (hWord : ws[i]? = some w) : arrayGet n (arrayBytes n ws ++ bs) i = w := by
  induction ws generalizing i with
  | nil => simp at hWord
  | cons v ws ih =>
      have hCons : arrayBytes n (v :: ws) ++ bs = bitsBytes n v ++ (arrayBytes n ws ++ bs) := by
        rw [arrayBytes, List.flatMap_cons, List.append_assoc]
        rfl
      rw [arrayGet, hCons]
      cases i with
      | zero =>
          have hEq : v = w := by simpa using hWord
          rw [Nat.mul_zero, List.drop_zero, bitsOf_append, hEq]
      | succ i =>
          have hDrop : (bitsBytes n v ++ (arrayBytes n ws ++ bs)).drop (n * (i + 1)) =
              (arrayBytes n ws ++ bs).drop (n * i) := by
            rw [Nat.mul_add, Nat.mul_one, Nat.add_comm, ← List.drop_drop,
              List.drop_left' (length_bitsBytes n v)]
          rw [hDrop]
          exact ih (by simpa using hWord)

variable {F : Type} (size : F → Nat)

/-- The fields of a record, one after the other. -/
def writeFields (s : ∀ f, Bytes (size f)) (fields : List F) : List Byte :=
  fields.flatMap fun f => (s f).val

def fieldsSize (fields : List F) : Nat := (fields.map size).sum

theorem length_writeFields (s : ∀ f, Bytes (size f)) (fields : List F) :
    (writeFields size s fields).length = fieldsSize size fields := by
  induction fields with
  | nil => rfl
  | cons f fields ih =>
      rw [writeFields, List.flatMap_cons, List.length_append, (s f).property]
      exact congrArg (size f + ·) ih

variable [DecidableEq F]

@[grind =] def readFields (bs : List Byte) (s : ∀ f, Bytes (size f)) : List F → ∀ f, Bytes (size f)
  | [] => s
  | f :: fields =>
      readFields (bs.drop (size f)) (Function.update s f (Bytes.ofList (size f) bs)) fields

variable {size} {fields : List F} {f : F}

/-- A field that is not in the list stays. -/
theorem readFields_of_notMem {bs : List Byte} {s : ∀ f, Bytes (size f)} (hNot : f ∉ fields) :
    readFields size bs s fields f = s f := by
  induction fields generalizing bs s with
  | nil => rfl
  | cons g fields ih =>
      rw [List.mem_cons, not_or] at hNot
      rw [readFields, ih hNot.2, Function.update_of_ne hNot.1]

/-- A field of the list is read from the bytes alone. -/
theorem readFields_congr {bs : List Byte} {s t : ∀ f, Bytes (size f)} (hMem : f ∈ fields) :
    readFields size bs s fields f = readFields size bs t fields f := by
  induction fields generalizing bs s t with
  | nil => simp at hMem
  | cons g fields ih =>
      rw [readFields, readFields]
      by_cases hTail : f ∈ fields
      · exact ih hTail
      · rw [readFields_of_notMem hTail, readFields_of_notMem hTail]
        obtain rfl : f = g := (List.mem_cons.mp hMem).resolve_right hTail
        rw [Function.update_self, Function.update_self]

theorem readFields_writeFields {s t : ∀ f, Bytes (size f)} (hMem : f ∈ fields) :
    readFields size (writeFields size s fields) t fields f = s f := by
  induction fields generalizing t with
  | nil => simp at hMem
  | cons g fields ih =>
      have hCons : writeFields size s (g :: fields) = (s g).val ++ writeFields size s fields := rfl
      rw [readFields, hCons, List.drop_left' (s g).property]
      by_cases hTail : f ∈ fields
      · exact ih hTail
      · obtain rfl : f = g := (List.mem_cons.mp hMem).resolve_right hTail
        rw [readFields_of_notMem hTail, Function.update_self, Bytes.ofList_append]

end RecompStudio.Serial
