import RecompStudio.Studio.AesInverse

/-!
Blocks in memory, enciphered one by one and chained. Source and destination are
separate buffers or the same one.
-/

namespace RecompStudio.Studio

open BlockModes

abbrev Memory := Nat → Byte

@[grind =] def readBlock (m : Memory) (a : Nat) : Block := Vector.ofFn fun i => m (a + i)

@[grind =] def writeBlock (m : Memory) (a : Nat) (b : Block) : Memory :=
  fun x => if a ≤ x then (b[x - a]?).getD (m x) else m x

theorem writeBlock_inside (m : Memory) (a : Nat) (b : Block) {i : Nat} (hi : i < 16) :
    writeBlock m a b (a + i) = b[i] := by
  rw [writeBlock, if_pos (Nat.le_add_right a i), Nat.add_sub_cancel_left,
    Vector.getElem?_eq_getElem hi, Option.getD_some]

theorem writeBlock_outside (m : Memory) {a x : Nat} (b : Block) (hx : x < a ∨ a + 16 ≤ x) :
    writeBlock m a b x = m x := by
  rw [writeBlock]
  rcases hx with hx | hx
  · exact if_neg (by omega)
  · rw [if_pos (by omega), Vector.getElem?_eq_none (by omega), Option.getD_none]

theorem readBlock_writeBlock (m : Memory) (a : Nat) (b : Block) :
    readBlock (writeBlock m a b) a = b := by
  refine Vector.ext fun i hi => ?_
  rw [readBlock, Vector.getElem_ofFn]
  exact writeBlock_inside m a b hi

theorem readBlock_writeBlock_apart (m : Memory) {a c : Nat} (b : Block)
    (h : c + 16 ≤ a ∨ a + 16 ≤ c) : readBlock (writeBlock m a b) c = readBlock m c := by
  refine Vector.ext fun i hi => ?_
  rw [readBlock, readBlock, Vector.getElem_ofFn, Vector.getElem_ofFn]
  exact writeBlock_outside m b (by simp only; omega)

@[grind =] def readBlocks (m : Memory) (a : Nat) : Nat → List Block
  | 0 => []
  | n + 1 => readBlock m a :: readBlocks m (a + 16) n

@[grind =] def writeBlocks (m : Memory) (a : Nat) : List Block → Memory
  | [] => m
  | b :: bs => writeBlocks (writeBlock m a b) (a + 16) bs

@[simp] theorem length_readBlocks (m : Memory) (a n : Nat) : (readBlocks m a n).length = n := by
  induction n generalizing a with
  | zero => rfl
  | succ n ih => exact congrArg (· + 1) (ih _)

theorem readBlocks_writeBlock (m : Memory) {a c n : Nat} (b : Block)
    (h : c + 16 * n ≤ a ∨ a + 16 ≤ c) : readBlocks (writeBlock m a b) c n = readBlocks m c n := by
  induction n generalizing c with
  | zero => rfl
  | succ n ih =>
      rw [readBlocks, readBlocks, readBlock_writeBlock_apart m b (by omega), ih (by omega)]

theorem writeBlocks_outside (m : Memory) {a x : Nat} (bs : List Block)
    (hx : x < a ∨ a + 16 * bs.length ≤ x) : writeBlocks m a bs x = m x := by
  induction bs generalizing m a with
  | nil => rfl
  | cons b bs ih =>
      rw [List.length_cons] at hx
      rw [writeBlocks, ih _ (by omega), writeBlock_outside m b (by omega)]

theorem readBlocks_writeBlocks (m : Memory) (a : Nat) (bs : List Block) :
    readBlocks (writeBlocks m a bs) a bs.length = bs := by
  induction bs generalizing m a with
  | nil => rfl
  | cons b bs ih =>
      have hFirst : readBlock (writeBlocks (writeBlock m a b) (a + 16) bs) a = b := by
        refine Vector.ext fun i hi => ?_
        rw [readBlock, Vector.getElem_ofFn, writeBlocks_outside _ _ (by simp only; omega)]
        exact writeBlock_inside m a b hi
      rw [List.length_cons, readBlocks, writeBlocks, hFirst, ih]

/-- The bytes of equal blocks are equal. -/
theorem byte_of_readBlocks {m m' : Memory} {a a' n : Nat}
    (h : readBlocks m a n = readBlocks m' a' n) {i : Nat} (hi : i < 16 * n) :
    m (a + i) = m' (a' + i) := by
  induction n generalizing a a' i with
  | zero => omega
  | succ n ih =>
      rw [readBlocks, readBlocks, List.cons.injEq] at h
      by_cases hFirst : i < 16
      · have hCell := congrArg (fun b : Block => b[(⟨i, hFirst⟩ : Fin 16)]) h.1
        simpa only [readBlock, Fin.getElem_fin, Vector.getElem_ofFn] using hCell
      · have hRest := ih h.2 (i := i - 16) (by omega)
        rwa [show a + 16 + (i - 16) = a + i by omega,
          show a' + 16 + (i - 16) = a' + i by omega] at hRest

theorem getLastD_readBlocks (m : Memory) (a n : Nat) (d : Block) :
    (readBlocks m a (n + 1)).getLastD d = readBlock m (a + 16 * n) := by
  induction n generalizing a d with
  | zero => rfl
  | succ n ih =>
      rw [readBlocks, List.getLastD_cons, ih, show a + 16 + 16 * n = a + 16 * (n + 1) by omega]

namespace Aes

@[grind =] def encryptBlock (aes : Aes) (m : Memory) (input out : Nat) : Memory :=
  if aes.rounds = 0 then m else writeBlock m out (aes.encrypted (readBlock m input))

@[grind =] def decryptBlock (aes : Aes) (m : Memory) (input out : Nat) : Memory :=
  if aes.rounds = 0 then m else writeBlock m out (aes.decrypted (readBlock m input))

end Aes

/-- What is done with the block at a source and a destination address. -/
abbrev Turn := Nat → Nat → Memory × Block → Memory × Block

def encryptTurn (aes : Aes) : Turn := fun src dst (m, iv) =>
  let block := addRoundKey (readBlock m src) iv
  let m' := writeBlock m dst (aes.encrypted block)
  (m', readBlock m' dst)

/-- The block to chain from is saved first: the destination may be the source. -/
def decryptTurn (aes : Aes) : Turn := fun src dst (m, iv) =>
  let chain := readBlock m src
  let block := aes.decrypted (readBlock m src)
  (writeBlock m dst (addRoundKey block iv), chain)

/-- The loop over the blocks from a position on. -/
@[grind =] def cbcLoop (turn : Turn) (src dst : Nat) : Nat → Nat → Memory × Block → Memory × Block
  | 0, _, state => state
  | n + 1, pos, state => cbcLoop turn src dst n (pos + 16) (turn (src + pos) (dst + pos) state)

/-- What a call leaves: whether it was done, the memory and the block to chain from. -/
structure CbcResult where
  done : Bool
  memory : Memory
  iv : Block

def aesCbc (turn : Aes → Turn) (key : List Byte) (m : Memory) (src dst : Nat) (size : Int)
    (iv : Block) : CbcResult :=
  let aes := Aes.setKey key
  if aes.isValid = false ∨ size < 0 ∨ size % 16 ≠ 0 then ⟨false, m, iv⟩
  else
    let state := cbcLoop (turn aes) src dst (size / 16).toNat 0 (m, iv)
    ⟨true, state.1, state.2⟩

def aesCbcEncrypt := aesCbc encryptTurn

def aesCbcDecrypt := aesCbc decryptTurn

/-- Buffers of so many blocks that are separate or the same. -/
def Buffers (src dst n : Nat) : Prop := dst = src ∨ src + 16 * n ≤ dst ∨ dst + 16 * n ≤ src

section Loops

variable (turn : Turn) {src dst n : Nat}

theorem Buffers.next (h : Buffers src dst (n + 1)) :
    Buffers (src + 16) (dst + 16) n ∧ (src + 16 + 16 * n ≤ dst ∨ dst + 16 ≤ src + 16) := by
  unfold Buffers at h ⊢
  omega

/-- The position only counts from the buffers' addresses. -/
theorem cbcLoop_shift (src dst n pos d : Nat) (state : Memory × Block) :
    cbcLoop turn src dst n (pos + d) state = cbcLoop turn (src + d) (dst + d) n pos state := by
  induction n generalizing pos state with
  | zero => rfl
  | succ n ih =>
      rw [cbcLoop, cbcLoop, Nat.add_right_comm pos d 16, ih, Nat.add_right_comm src d pos,
        Nat.add_right_comm dst d pos, Nat.add_assoc src, Nat.add_assoc dst]

/-- The loop over a message goes on where the loop over its front stopped. -/
theorem cbcLoop_add (src dst k n pos : Nat) (state : Memory × Block) :
    cbcLoop turn src dst (k + n) pos state =
      cbcLoop turn src dst n (pos + 16 * k) (cbcLoop turn src dst k pos state) := by
  induction k generalizing pos state with
  | zero => rw [Nat.zero_add]; rfl
  | succ k ih =>
      rw [Nat.succ_add, cbcLoop, ih, cbcLoop, show pos + 16 + 16 * k = pos + 16 * (k + 1) by omega]

/-- The loop writes the chained ciphertext of the blocks that the source holds. -/
theorem encryptLoop_eq (aes : Aes) (m : Memory) (iv : Block) (pos : Nat)
    (hBuffers : Buffers (src + pos) (dst + pos) n) :
    cbcLoop (encryptTurn aes) src dst n pos (m, iv) =
      let chained := chainEncrypt addRoundKey aes.encrypted iv (readBlocks m (src + pos) n)
      (writeBlocks m (dst + pos) chained.1, chained.2) := by
  induction n generalizing m iv pos with
  | zero => rfl
  | succ n ih =>
      have hNext := hBuffers.next
      rw [Nat.add_assoc, Nat.add_assoc] at hNext
      rw [cbcLoop, encryptTurn, ih _ _ _ hNext.1, readBlock_writeBlock]
      simp only [readBlocks, chainEncrypt, writeBlocks, Nat.add_assoc]
      rw [readBlocks_writeBlock _ _ (by omega)]

theorem decryptLoop_eq (aes : Aes) (m : Memory) (iv : Block) (pos : Nat)
    (hBuffers : Buffers (src + pos) (dst + pos) n) :
    cbcLoop (decryptTurn aes) src dst n pos (m, iv) =
      let chained := chainDecrypt addRoundKey aes.decrypted iv (readBlocks m (src + pos) n)
      (writeBlocks m (dst + pos) chained.1, chained.2) := by
  induction n generalizing m iv pos with
  | zero => rfl
  | succ n ih =>
      have hNext := hBuffers.next
      rw [Nat.add_assoc, Nat.add_assoc] at hNext
      rw [cbcLoop, decryptTurn, ih _ _ _ hNext.1]
      simp only [readBlocks, chainDecrypt, writeBlocks, Nat.add_assoc]
      rw [readBlocks_writeBlock _ _ (by omega)]

end Loops

variable {key : List Byte}

theorem aesCbc_whole (turn : Aes → Turn) (hKey : key.length = 16 ∨ key.length = 32) (m : Memory)
    (src dst n : Nat) (iv : Block) :
    aesCbc turn key m src dst (16 * n : Nat) iv =
      let state := cbcLoop (turn (Aes.setKey key)) src dst n 0 (m, iv)
      ⟨true, state.1, state.2⟩ := by
  have hWhole : ¬((Aes.setKey key).isValid = false ∨ ((16 * n : Nat) : Int) < 0 ∨
      ((16 * n : Nat) : Int) % 16 ≠ 0) := by
    rw [Aes.isValid_of_length hKey]
    rintro (h | h | h)
    · exact Bool.noConfusion h
    · omega
    · omega
  have hBlocks : (((16 * n : Nat) : Int) / 16).toNat = n := by omega
  rw [aesCbc, if_neg hWhole, hBlocks]

/-- Calls for consecutive parts of a message, each of so many blocks. -/
def aesCbcCalls (turn : Aes → Turn) (key : List Byte) (src dst : Nat) :
    List Nat → Memory × Block → Memory × Block
  | [], state => state
  | n :: ns, (m, iv) =>
      let result := aesCbc turn key m src dst (16 * n : Nat) iv
      aesCbcCalls turn key (src + 16 * n) (dst + 16 * n) ns (result.memory, result.iv)

/-- Calls for the parts do what one call for the message does. -/
theorem aesCbcCalls_eq (turn : Aes → Turn) (hKey : key.length = 16 ∨ key.length = 32)
    (m : Memory) (src dst : Nat) (ns : List Nat) (iv : Block) :
    aesCbcCalls turn key src dst ns (m, iv) =
      let result := aesCbc turn key m src dst (16 * ns.sum : Nat) iv
      (result.memory, result.iv) := by
  induction ns generalizing m src dst iv with
  | nil => rw [List.sum_nil, aesCbc_whole turn hKey]; rfl
  | cons n ns ih =>
      rw [aesCbcCalls, aesCbc_whole turn hKey, ih, aesCbc_whole turn hKey, List.sum_cons,
        aesCbc_whole turn hKey]
      simp only [cbcLoop_add, cbcLoop_shift]

/-- A block is deciphered again, wherever the two calls write. -/
theorem decryptBlock_encryptBlock (hKey : key.length = 16 ∨ key.length = 32) (m : Memory)
    (a b c : Nat) :
    readBlock ((Aes.setKey key).decryptBlock ((Aes.setKey key).encryptBlock m a b) b c) c =
      readBlock m a := by
  have hKeys := Aes.setKey_of_length hKey
  rw [Aes.encryptBlock, if_neg hKeys.1, Aes.decryptBlock, if_neg hKeys.1, readBlock_writeBlock,
    readBlock_writeBlock, hKeys.decrypted_encrypted]

theorem encryptBlock_decryptBlock (hKey : key.length = 16 ∨ key.length = 32) (m : Memory)
    (a b c : Nat) :
    readBlock ((Aes.setKey key).encryptBlock ((Aes.setKey key).decryptBlock m a b) b c) c =
      readBlock m a := by
  have hKeys := Aes.setKey_of_length hKey
  rw [Aes.decryptBlock, if_neg hKeys.1, Aes.encryptBlock, if_neg hKeys.1, readBlock_writeBlock,
    readBlock_writeBlock, hKeys.encrypted_decrypted]

variable {src mid dst n : Nat}

theorem aesCbcEncrypt_eq (hKey : key.length = 16 ∨ key.length = 32)
    (hBuffers : Buffers src dst n) (m : Memory) (iv : Block) :
    aesCbcEncrypt key m src dst (16 * n : Nat) iv =
      let chained := chainEncrypt addRoundKey (Aes.setKey key).encrypted iv (readBlocks m src n)
      ⟨true, writeBlocks m dst chained.1, chained.2⟩ := by
  rw [aesCbcEncrypt, aesCbc_whole _ hKey, encryptLoop_eq (Aes.setKey key) m iv 0 hBuffers]
  rfl

theorem aesCbcDecrypt_eq (hKey : key.length = 16 ∨ key.length = 32)
    (hBuffers : Buffers src dst n) (m : Memory) (iv : Block) :
    aesCbcDecrypt key m src dst (16 * n : Nat) iv =
      let chained := chainDecrypt addRoundKey (Aes.setKey key).decrypted iv (readBlocks m src n)
      ⟨true, writeBlocks m dst chained.1, chained.2⟩ := by
  rw [aesCbcDecrypt, aesCbc_whole _ hKey, decryptLoop_eq (Aes.setKey key) m iv 0 hBuffers]
  rfl

/-- The next call chains from the last ciphertext block, which encryption wrote. -/
theorem aesCbcEncrypt_iv (hKey : key.length = 16 ∨ key.length = 32) (hPos : 0 < n)
    (hBuffers : Buffers src dst n) (m : Memory) (iv : Block) :
    (aesCbcEncrypt key m src dst (16 * n : Nat) iv).iv =
      readBlock (aesCbcEncrypt key m src dst (16 * n : Nat) iv).memory (dst + 16 * (n - 1)) := by
  obtain ⟨k, rfl⟩ := Nat.exists_eq_succ_of_ne_zero (Nat.ne_of_gt hPos)
  rw [aesCbcEncrypt_eq hKey hBuffers]
  have hBlocks := readBlocks_writeBlocks m dst
    (chainEncrypt addRoundKey (Aes.setKey key).encrypted iv (readBlocks m src (k + 1))).1
  rw [length_chainEncrypt, length_readBlocks] at hBlocks
  have hLast := getLastD_readBlocks (writeBlocks m dst
    (chainEncrypt addRoundKey (Aes.setKey key).encrypted iv (readBlocks m src (k + 1))).1) dst k iv
  rw [hBlocks, ← chainEncrypt_last] at hLast
  exact hLast

theorem aesCbcDecrypt_iv (hKey : key.length = 16 ∨ key.length = 32) (hPos : 0 < n)
    (hBuffers : Buffers src dst n) (m : Memory) (iv : Block) :
    (aesCbcDecrypt key m src dst (16 * n : Nat) iv).iv = readBlock m (src + 16 * (n - 1)) := by
  obtain ⟨k, rfl⟩ := Nat.exists_eq_succ_of_ne_zero (Nat.ne_of_gt hPos)
  rw [aesCbcDecrypt_eq hKey hBuffers]
  exact (chainDecrypt_last _ _ _ _).trans (getLastD_readBlocks m src k iv)

theorem aesCbcDecrypt_aesCbcEncrypt (hKey : key.length = 16 ∨ key.length = 32)
    (hThere : Buffers src mid n) (hBack : Buffers mid dst n) (m : Memory) (iv : Block) {i : Nat}
    (hi : i < 16 * n) :
    (aesCbcDecrypt key (aesCbcEncrypt key m src mid (16 * n : Nat) iv).memory mid dst
      (16 * n : Nat) iv).memory (dst + i) = m (src + i) := by
  have hKeys := Aes.setKey_of_length hKey
  refine byte_of_readBlocks ?_ hi
  rw [aesCbcEncrypt_eq hKey hThere, aesCbcDecrypt_eq hKey hBack]
  have hCipher := readBlocks_writeBlocks m mid
    (chainEncrypt addRoundKey (Aes.setKey key).encrypted iv (readBlocks m src n)).1
  rw [length_chainEncrypt, length_readBlocks] at hCipher
  simp only [hCipher]
  rw [chainDecrypt_chainEncrypt addRoundKey_addRoundKey hKeys.decrypted_encrypted]
  have hPlain := readBlocks_writeBlocks (writeBlocks m mid
    (chainEncrypt addRoundKey (Aes.setKey key).encrypted iv (readBlocks m src n)).1) dst
    (readBlocks m src n)
  rwa [length_readBlocks] at hPlain

/-- With every key, single blocks and chained messages are deciphered to what was
enciphered, in place or not, and a message may be given in parts. -/
theorem cipher_undone (hKey : key.length = 16 ∨ key.length = 32) :
    (∀ m a b c, readBlock ((Aes.setKey key).decryptBlock
        ((Aes.setKey key).encryptBlock m a b) b c) c = readBlock m a) ∧
      (∀ m a b c, readBlock ((Aes.setKey key).encryptBlock
        ((Aes.setKey key).decryptBlock m a b) b c) c = readBlock m a) ∧
      (∀ m src mid dst n iv, 0 < n → Buffers src mid n → Buffers mid dst n →
        let there := aesCbcEncrypt key m src mid (16 * n : Nat) iv
        let back := aesCbcDecrypt key there.memory mid dst (16 * n : Nat) iv
        there.done = true ∧ back.done = true ∧
          (∀ i < 16 * n, back.memory (dst + i) = m (src + i)) ∧
          there.iv = readBlock there.memory (mid + 16 * (n - 1)) ∧ back.iv = there.iv) ∧
      (∀ m src dst n iv, 0 < n → Buffers src dst n →
        (aesCbcDecrypt key m src dst (16 * n : Nat) iv).iv = readBlock m (src + 16 * (n - 1))) ∧
      (∀ turn ∈ [encryptTurn, decryptTurn], ∀ m src dst ns iv,
        aesCbcCalls turn key src dst ns (m, iv) =
          let whole := aesCbc turn key m src dst (16 * ns.sum : Nat) iv
          (whole.memory, whole.iv)) := by
  refine ⟨decryptBlock_encryptBlock hKey, encryptBlock_decryptBlock hKey, ?_, ?_, ?_⟩
  · intro m src mid dst n iv hPos hThere hBack there back
    have hIv : there.iv = readBlock there.memory (mid + 16 * (n - 1)) :=
      aesCbcEncrypt_iv hKey hPos hThere m iv
    have hBackIv : back.iv = readBlock there.memory (mid + 16 * (n - 1)) :=
      aesCbcDecrypt_iv hKey hPos hBack there.memory iv
    refine ⟨?_, ?_, fun i hi => aesCbcDecrypt_aesCbcEncrypt hKey hThere hBack m iv hi, hIv,
      hBackIv.trans hIv.symm⟩
    · exact congrArg CbcResult.done (aesCbc_whole encryptTurn hKey m src mid n iv)
    · exact congrArg CbcResult.done (aesCbc_whole decryptTurn hKey there.memory mid dst n iv)
  · intro m src dst n iv hPos hBuffers
    exact aesCbcDecrypt_iv hKey hPos hBuffers m iv
  · intro turn _ m src dst ns iv
    exact aesCbcCalls_eq turn hKey m src dst ns iv

/-- Two blocks enciphered and deciphered in place, with a short key. -/
theorem cipher_undone_in_place :
    let key := List.replicate 16 (0 : Byte)
    let iv : Block := Vector.replicate 16 0
    let there := aesCbcEncrypt key (fun a => BitVec.ofNat 8 a) 0 0 (16 * 2 : Nat) iv
    (aesCbcDecrypt key there.memory 0 0 (16 * 2 : Nat) iv).memory (0 + 17) = 17 :=
  ((@cipher_undone (List.replicate 16 0) (by decide)).2.2.1 _ 0 0 0 2 (Vector.replicate 16 0)
    (by decide) (Or.inl rfl) (Or.inl rfl)).2.2.1 17 (by decide)

end RecompStudio.Studio
