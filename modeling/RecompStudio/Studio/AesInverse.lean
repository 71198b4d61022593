import RecompStudio.Studio.Aes
import Mathlib.Tactic.FinCases
import Mathlib.Tactic.IntervalCases

/-!
Decryption undoes encryption and the other way round, for every key schedule whose
decryption keys come from the encryption keys.
-/

namespace RecompStudio.Studio

theorem shifted_injective : Function.Injective shifted := by
  decide

theorem shifted_surjective : Function.Surjective shifted :=
  Finite.surjective_of_injective shifted_injective

/-- Cells written one after the other to different places stay there. -/
theorem getElem_foldl_set {place : Fin 16 → Fin 16} (hInj : Function.Injective place)
    (value : Fin 16 → Byte) (cells : List (Fin 16)) (out : Block) (j : Fin 16)
    (h : j ∈ cells ∨ out[place j] = value j) :
    (cells.foldl (fun out i => out.set (place i) (value i)) out)[place j] = value j := by
  induction cells generalizing out with
  | nil => exact h.resolve_left List.not_mem_nil
  | cons i cells ih =>
      rw [List.foldl_cons]
      apply ih
      by_cases hEq : i = j
      · refine Or.inr ?_
        rw [hEq, Fin.getElem_fin, Vector.getElem_set_self]
      · refine h.imp (fun hMem => (List.mem_cons.mp hMem).resolve_left (Ne.symm hEq)) fun hOut => ?_
        have hNe : (place i).val ≠ (place j).val := fun hSame =>
          hEq (hInj (Fin.ext hSame))
        rw [Fin.getElem_fin, Vector.getElem_set_ne _ _ hNe]
        exact hOut

theorem getElem_invSubShift (state : Block) (i : Fin 16) :
    (invSubShift state).get (shifted i) = kInvSbox (state.get i) :=
  getElem_foldl_set shifted_injective (fun i => kInvSbox state[i]) _ _ i
    (Or.inl (List.mem_finRange i))

theorem getElem_subShift (state : Block) (i : Fin 16) :
    (subShift state).get i = kSbox (state.get (shifted i)) := by
  change (subShift state)[i] = kSbox state[shifted i]
  rw [subShift, Fin.getElem_fin, Vector.getElem_ofFn]

theorem Block.ext_fin {s t : Block} (h : ∀ i : Fin 16, s.get i = t.get i) : s = t :=
  Vector.ext fun i hi => h ⟨i, hi⟩

theorem invSubShift_subShift (state : Block) : invSubShift (subShift state) = state := by
  refine Block.ext_fin fun j => ?_
  obtain ⟨i, rfl⟩ := shifted_surjective j
  rw [getElem_invSubShift, getElem_subShift, kInvSbox_kSbox]

theorem subShift_invSubShift (state : Block) : subShift (invSubShift state) = state := by
  refine Block.ext_fin fun i => ?_
  rw [getElem_subShift, getElem_invSubShift, kSbox_kInvSbox]

/-- The column with one byte in the given row. -/
@[grind =] def singleWord (r : Fin 4) (b : Byte) : Word := (Vector.replicate 4 0).set r b

theorem singleWord_zero (r : Fin 4) : singleWord r 0 = singleWord 0 0 := by
  revert r
  decide

/-- A column is the sum of its bytes. -/
def Additive (f : Word → Word) : Prop := ∀ v w, f (xorWord v w) = xorWord (f v) (f w)

theorem additive_mixColumn : Additive mixColumn := by
  intro v w
  refine Vector.ext fun i hi => ?_
  interval_cases i <;> simp only [mixColumn, xorWord, Vector.getElem_zipWith, xtime_xor] <;>
    simp <;> ac_rfl

theorem additive_invMixColumn : Additive invMixColumn := by
  intro v w
  refine Vector.ext fun i hi => ?_
  interval_cases i <;> simp only [invMixColumn, xorWord, Vector.getElem_zipWith, gfMul_xor] <;>
    simp <;> ac_rfl

theorem singleWord_xor (r : Fin 4) (a b : Byte) :
    singleWord r (a ^^^ b) = xorWord (singleWord r a) (singleWord r b) := by
  refine Vector.ext fun i hi => ?_
  fin_cases r <;> interval_cases i <;> simp [xorWord, singleWord]

/-- A byte is the sum of its bits. -/
theorem byte_eq_sum (b : Byte) :
    b = (b &&& 1) ^^^ ((b &&& 2) ^^^ ((b &&& 4) ^^^ ((b &&& 8) ^^^
      ((b &&& 16) ^^^ ((b &&& 32) ^^^ ((b &&& 64) ^^^ (b &&& 128))))))) := by
  refine BitVec.eq_of_getLsbD_eq fun i hi => ?_
  interval_cases i <;> simp

theorem and_bit (b : Byte) (k : Fin 8) :
    b &&& BitVec.twoPow 8 k = 0 ∨ b &&& BitVec.twoPow 8 k = BitVec.twoPow 8 k := by
  rw [BitVec.and_twoPow]
  split_ifs
  · exact Or.inr rfl
  · exact Or.inl rfl

/-- An additive map of columns that keeps the single bits keeps every column. -/
theorem Additive.eq_self {f : Word → Word} (hf : Additive f)
    (hBit : ∀ (r : Fin 4) (k : Fin 8),
      f (singleWord r (BitVec.twoPow 8 k)) = singleWord r (BitVec.twoPow 8 k))
    (w : Word) : f w = w := by
  have hXor {v w : Word} (hv : f v = v) (hw : f w = w) : f (xorWord v w) = xorWord v w := by
    rw [hf, hv, hw]
  have hZero : f (singleWord 0 0) = singleWord 0 0 := by
    have hTwice (w : Word) : xorWord w w = singleWord 0 0 := by
      refine Vector.ext fun i hi => ?_
      interval_cases i <;> simp [xorWord, singleWord]
    rw [← hTwice (singleWord 0 0), hf, hTwice, hTwice]
  have hPart (r : Fin 4) (b : Byte) (k : Fin 8) :
      f (singleWord r (b &&& BitVec.twoPow 8 k)) = singleWord r (b &&& BitVec.twoPow 8 k) := by
    rcases and_bit b k with hPart | hPart
    · rw [hPart, singleWord_zero, hZero]
    · rw [hPart, hBit]
  have hSingle (r : Fin 4) (b : Byte) : f (singleWord r b) = singleWord r b := by
    rw [byte_eq_sum b]
    simp only [singleWord_xor]
    exact hXor (hPart r b 0) (hXor (hPart r b 1) (hXor (hPart r b 2) (hXor (hPart r b 3)
      (hXor (hPart r b 4) (hXor (hPart r b 5) (hXor (hPart r b 6) (hPart r b 7)))))))
  have hSum : xorWord (xorWord (singleWord 0 w[0]) (singleWord 1 w[1]))
      (xorWord (singleWord 2 w[2]) (singleWord 3 w[3])) = w := by
    refine Vector.ext fun i hi => ?_
    interval_cases i <;> simp [xorWord, singleWord]
  rw [← hSum]
  exact hXor (hXor (hSingle 0 _) (hSingle 1 _)) (hXor (hSingle 2 _) (hSingle 3 _))

theorem Additive.comp {f g : Word → Word} (hf : Additive f) (hg : Additive g) :
    Additive (fun w => f (g w)) := by
  intro v w
  change f (g (xorWord v w)) = _
  rw [hg, hf]

theorem mixColumn_bit (r : Fin 4) (k : Fin 8) :
    let bit := singleWord r (BitVec.twoPow 8 k)
    invMixColumn (mixColumn bit) = bit ∧ mixColumn (invMixColumn bit) = bit := by
  revert r k
  decide

theorem invMixColumn_mixColumn (w : Word) : invMixColumn (mixColumn w) = w :=
  (additive_invMixColumn.comp additive_mixColumn).eq_self (fun r k => (mixColumn_bit r k).1) w

theorem mixColumn_invMixColumn (w : Word) : mixColumn (invMixColumn w) = w :=
  (additive_mixColumn.comp additive_invMixColumn).eq_self (fun r k => (mixColumn_bit r k).2) w

theorem column_mapColumns (f : Word → Word) (state : Block) (c : Fin 4) :
    column (mapColumns f state) c = f (column state c) := by
  refine Vector.ext fun r hr => ?_
  have hColumn : (c * 4 + r) / 4 = c.val := by omega
  have hRow : (c * 4 + r) % 4 = r := by omega
  simp only [column, mapColumns, Vector.getElem_ofFn, Fin.getElem_fin, hColumn, hRow]

theorem Block.ext_column {s t : Block} (h : ∀ c, column s c = column t c) : s = t := by
  refine Block.ext_fin fun i => ?_
  change s[i] = t[i]
  have hCell := congrArg (fun w : Word => w[(⟨i % 4, by omega⟩ : Fin 4)]) (h ⟨i / 4, by omega⟩)
  have hIndex : i.val / 4 * 4 + i.val % 4 = i.val := by omega
  simpa only [column, Vector.getElem_ofFn, Fin.getElem_fin, hIndex] using hCell

theorem mapColumns_inverse {f g : Word → Word} (h : ∀ w, f (g w) = w) (state : Block) :
    mapColumns f (mapColumns g state) = state :=
  Block.ext_column fun c => by rw [column_mapColumns, column_mapColumns, h]

theorem column_addRoundKey (s k : Block) (c : Fin 4) :
    column (addRoundKey s k) c = xorWord (column s c) (column k c) := by
  refine Vector.ext fun r hr => ?_
  simp only [column, addRoundKey, xorWord, Vector.getElem_ofFn, Fin.getElem_fin,
    Vector.getElem_zipWith]

theorem mapColumns_addRoundKey {f : Word → Word} (hf : Additive f) (s k : Block) :
    mapColumns f (addRoundKey s k) = addRoundKey (mapColumns f s) (mapColumns f k) :=
  Block.ext_column fun c => by
    rw [column_mapColumns, column_addRoundKey, column_addRoundKey, column_mapColumns,
      column_mapColumns, hf]

theorem invMixColumns_mixColumns (s : Block) : invMixColumns (mixColumns s) = s :=
  mapColumns_inverse invMixColumn_mixColumn s

theorem mixColumns_invMixColumns (s : Block) : mixColumns (invMixColumns s) = s :=
  mapColumns_inverse mixColumn_invMixColumn s

/-- A round key is removed by adding it again. -/
theorem addRoundKey_addRoundKey (s k : Block) : addRoundKey (addRoundKey s k) k = s := by
  refine Vector.ext fun i hi => ?_
  simp only [addRoundKey, Vector.getElem_zipWith, BitVec.xor_assoc, BitVec.xor_self,
    BitVec.xor_zero]

namespace Aes

/-- The schedule of the equivalent inverse cipher. -/
def Scheduled (aes : Aes) : Prop :=
  aes.rounds ≠ 0 ∧ aes.decKeys = decKeysOf aes.rounds aes.encKeys

variable {aes : Aes}

theorem Scheduled.decKeys_outer (hKeys : aes.Scheduled) {round : Nat}
    (hOuter : round = 0 ∨ round = aes.rounds) : aes.decKeys round = aes.encKeys round := by
  rw [hKeys.2]
  exact if_neg (by omega)

theorem Scheduled.decKeys_inner (hKeys : aes.Scheduled) {round : Nat} (hPos : 1 ≤ round)
    (hLt : round < aes.rounds) : aes.decKeys round = invMixColumns (aes.encKeys round) := by
  rw [hKeys.2]
  exact if_pos ⟨hPos, hLt⟩

/-- The rounds backwards, from behind the last `SubBytes` to behind the first. -/
theorem Scheduled.decryptRounds_encryptRounds (hKeys : aes.Scheduled) (n : Nat)
    (hLt : n < aes.rounds) (state : Block) :
    aes.decryptRounds n (subShift (aes.encryptRounds n state)) = subShift state := by
  induction n with
  | zero => rfl
  | succ n ih =>
      rw [encryptRounds, decryptRounds, invSubShift_subShift, invMixColumns,
        mapColumns_addRoundKey additive_invMixColumn, ← invMixColumns, invMixColumns_mixColumns,
        hKeys.decKeys_inner (Nat.succ_le_succ (Nat.zero_le n)) hLt, addRoundKey_addRoundKey]
      exact ih (Nat.lt_of_succ_lt hLt)

theorem Scheduled.encryptRounds_decryptRounds (hKeys : aes.Scheduled) (n : Nat)
    (hLt : n < aes.rounds) (state : Block) :
    subShift (aes.encryptRounds n (invSubShift (aes.decryptRounds n state))) = state := by
  induction n generalizing state with
  | zero => exact subShift_invSubShift state
  | succ n ih =>
      rw [encryptRounds, decryptRounds, ih (Nat.lt_of_succ_lt hLt), mixColumns,
        mapColumns_addRoundKey additive_mixColumn, ← mixColumns, mixColumns_invMixColumns,
        hKeys.decKeys_inner (Nat.succ_le_succ (Nat.zero_le n)) hLt, mixColumns_invMixColumns,
        addRoundKey_addRoundKey, subShift_invSubShift]

theorem Scheduled.decrypted_encrypted (hKeys : aes.Scheduled) (block : Block) :
    aes.decrypted (aes.encrypted block) = block := by
  have hPos := hKeys.1
  simp only [decrypted, encrypted]
  rw [hKeys.decKeys_outer (Or.inr rfl), hKeys.decKeys_outer (Or.inl rfl), addRoundKey_addRoundKey,
    hKeys.decryptRounds_encryptRounds _ (by omega), invSubShift_subShift, addRoundKey_addRoundKey]

theorem Scheduled.encrypted_decrypted (hKeys : aes.Scheduled) (block : Block) :
    aes.encrypted (aes.decrypted block) = block := by
  have hPos := hKeys.1
  simp only [decrypted, encrypted]
  rw [hKeys.decKeys_outer (Or.inr rfl), hKeys.decKeys_outer (Or.inl rfl), addRoundKey_addRoundKey,
    hKeys.encryptRounds_decryptRounds _ (by omega), addRoundKey_addRoundKey]

theorem setKey_of_length {key : List Byte} (hKey : key.length = 16 ∨ key.length = 32) :
    (setKey key).Scheduled := by
  unfold setKey
  rcases hKey with hKey | hKey
  · rw [hKey]
    exact ⟨Nat.succ_ne_zero 9, rfl⟩
  · rw [hKey]
    exact ⟨Nat.succ_ne_zero 13, rfl⟩

theorem isValid_of_length {key : List Byte} (hKey : key.length = 16 ∨ key.length = 32) :
    (setKey key).isValid = true :=
  decide_eq_true (setKey_of_length hKey).1

end Aes

end RecompStudio.Studio
