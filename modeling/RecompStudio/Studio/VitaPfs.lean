import RecompStudio.Studio.CtrStream

/-!
The counter mode that is handed to the reader of the PFS layer. Calls are chained
through a counter that the caller keeps, and which a call moves on.
-/

namespace RecompStudio.Studio

open BlockModes Serial CtrStream

/-- The data of a call: its size is a non-negative `int`. -/
abbrev IntBuffer := { data : List Byte // data.length < 2 ^ 31 }

def cipherKey (key : List Byte) (keySizeBits : Int) : List Byte :=
  if keySizeBits ≠ 128 ∧ keySizeBits ≠ 256 then [] else key.take (keySizeBits / 8).toNat

/-- One turn of the loop that moves the counter on. -/
def ivTurn (b : Byte) (state : List Byte × BitVec 64) : List Byte × BitVec 64 :=
  let blocks := state.2 + b.setWidth 64
  ((blocks &&& 0xFF).setWidth 8 :: state.1, blocks >>> 8)

/-- The sum in the loop stays below its width. -/
theorem ivTurns_eq (bs : List Byte) (blocks : BitVec 64) (hSmall : blocks.toNat < 2 ^ 32) :
    let state := bs.foldr ivTurn ([], blocks)
    let sum := addBytes bs blocks.toNat
    state.1 = sum.1 ∧ state.2.toNat = sum.2 ∧ state.2.toNat < 2 ^ 32 := by
  induction bs with
  | nil => exact ⟨rfl, rfl, hSmall⟩
  | cons b bs ih =>
      obtain ⟨hBytes, hRest, hBound⟩ := ih
      rw [List.foldr_cons, addBytes_cons, addStep, ← hRest, ← hBytes, ivTurn]
      generalize bs.foldr ivTurn ([], blocks) = state at hBound
      have hByte := b.isLt
      have hSum : (state.2 + b.setWidth 64).toNat = b.toNat + state.2.toNat := by
        rw [BitVec.toNat_add, BitVec.toNat_setWidth]
        omega
      simp only
      generalize state.2 + b.setWidth 64 = sum at hSum
      have hKept : (sum &&& 0xFF).toNat = sum.toNat % 256 := by
        rw [BitVec.toNat_and]
        exact Nat.and_two_pow_sub_one_eq_mod _ 8
      refine ⟨congrArg (· :: state.1) (BitVec.eq_of_toNat_eq ?_), ?_, ?_⟩
      · rw [BitVec.toNat_setWidth, hKept, BitVec.toNat_ofNat, hSum]
        omega
      · rw [BitVec.toNat_ushiftRight, hSum, Nat.shiftRight_eq_div_pow]
      · rw [BitVec.toNat_ushiftRight, hSum, Nat.shiftRight_eq_div_pow]
        omega

/-- What a call leaves: its answer, the destination and the counter. -/
structure CtrResult where
  status : Int
  dst : List Byte
  iv : Bytes 16

theorem length_ivTurns (bs : List Byte) (blocks : BitVec 64) :
    (bs.foldr ivTurn ([], blocks)).1.length = bs.length := by
  induction bs with
  | nil => rfl
  | cons b bs ih => exact congrArg (· + 1) ih

def ctr (src : IntBuffer) (key : List Byte) (keySizeBits : Int) (iv : Bytes 16) : CtrResult :=
  let k := cipherKey key keySizeBits
  if k = [] then ⟨-1, src.val, iv⟩
  else
    let stream := CtrStream.make k iv.val
    if stream.isValid = false then ⟨-1, src.val, iv⟩
    else
      let blocks := BitVec.ofNat 64 src.val.length / 16
      ⟨0, (stream.apply src.val).1,
        ⟨(iv.val.foldr ivTurn ([], blocks)).1, (length_ivTurns _ _).trans iv.property⟩⟩

/-- The blocks that so many bytes consume, a partial last one as a whole one. -/
def consumed (size : Nat) : Nat := (size + 15) / 16

variable {key : List Byte} {keySizeBits : Int}

/-- A key of the given size in bits. -/
def KeyOf (key : List Byte) (keySizeBits : Int) : Prop :=
  keySizeBits = 128 ∧ 16 ≤ key.length ∨ keySizeBits = 256 ∧ 32 ≤ key.length

theorem length_cipherKey (hKey : KeyOf key keySizeBits) :
    (cipherKey key keySizeBits).length = 16 ∨ (cipherKey key keySizeBits).length = 32 := by
  rcases hKey with ⟨rfl, hLength⟩ | ⟨rfl, hLength⟩
  · exact Or.inl (List.length_take_of_le hLength)
  · exact Or.inr (List.length_take_of_le hLength)

/-- The data is XORed with the keystream from the counter's block on, and the counter is
moved on by the whole blocks only. -/
theorem ctr_eq (hKey : KeyOf key keySizeBits) (src : IntBuffer) (iv : Bytes 16) :
    ctr src key keySizeBits iv =
      ⟨0, xorStream (keystreamAt (Aes.setKey (cipherKey key keySizeBits)) iv) 0 src.val,
        counterAt iv (src.val.length / 16)⟩ := by
  have hLength := length_cipherKey hKey
  have hSome : cipherKey key keySizeBits ≠ [] := List.ne_nil_of_length_pos (by omega)
  have hAt := make_at hLength iv
  have hValid := Aes.isValid_of_length hLength
  have hStream : ¬(CtrStream.make (cipherKey key keySizeBits) iv.val).isValid = false := by
    rw [CtrStream.isValid, hAt.aes_eq, hValid]
    exact Bool.noConfusion
  have hSize := src.property
  have hBlocks : (BitVec.ofNat 64 src.val.length / 16).toNat = src.val.length / 16 := by
    rw [BitVec.toNat_udiv, BitVec.toNat_ofNat, Nat.mod_eq_of_lt (by omega)]
    rfl
  have hIv : (iv.val.foldr ivTurn ([], BitVec.ofNat 64 src.val.length / 16)).1 =
      (counterAt iv (src.val.length / 16)).val := by
    rw [(ivTurns_eq _ _ (by rw [hBlocks]; omega)).1, hBlocks, addBytes_eq_beBytes, iv.property]
    rfl
  rw [ctr, if_neg hSome]
  simp only [if_neg hStream]
  rw [(hAt.apply hValid src.val).1]
  exact congrArg (CtrResult.mk 0 _) (Subtype.ext hIv)

theorem counterAt_val (iv : Bytes 16) (n : Nat) : (counterAt iv n).val = (addBytes iv.val n).1 := by
  rw [addBytes_eq_beBytes, iv.property]
  rfl

theorem counterAt_counterAt (iv : Bytes 16) (m n : Nat) :
    counterAt (counterAt iv m) n = counterAt iv (m + n) := by
  apply Subtype.ext
  rw [counterAt_val, counterAt_val, counterAt_val, addBytes_addBytes]

theorem counterAt_zero (iv : Bytes 16) : counterAt iv 0 = iv := by
  apply Subtype.ext
  rw [counterAt_val, addBytes_zero]

theorem counterAt_inj {iv : Bytes 16} {m n : Nat} (hLe : m ≤ n) (hTurn : n - m < 2 ^ 128)
    (hSame : counterAt iv m = counterAt iv n) : m = n := by
  have hBytes := congrArg Subtype.val hSame
  rw [counterAt_val, counterAt_val] at hBytes
  refine addBytes_inj hLe ?_ hBytes
  rw [iv.property]
  exact hTurn

/-- A call counts its last block exactly when that block is whole. -/
theorem ctr_iv_iff (hKey : KeyOf key keySizeBits) (src : IntBuffer) (iv : Bytes 16) :
    (ctr src key keySizeBits iv).iv = counterAt iv (consumed src.val.length) ↔
      src.val.length % 16 = 0 := by
  rw [ctr_eq hKey, consumed]
  constructor
  · intro hSame
    have hEq := counterAt_inj (by omega) (by omega) hSame
    omega
  · intro hWhole
    exact congrArg (counterAt iv) (by omega)

/-- A call in a chain: the counter before it, its data and the counter after it. -/
structure Call where
  before : Bytes 16
  data : IntBuffer
  after : Bytes 16

@[grind =] def ctrRun (key : List Byte) (keySizeBits : Int) : Bytes 16 → List IntBuffer → List Call
  | _, [] => []
  | iv, data :: rest =>
      let result := ctr data key keySizeBits iv
      ⟨iv, data, result.iv⟩ :: ctrRun key keySizeBits result.iv rest

def Call.blocks (c : Call) : Nat := consumed c.data.val.length

/-- The counter goes on by the blocks that the call consumed. -/
@[grind =] def Call.Advances (c : Call) : Prop := c.after = counterAt c.before c.blocks

/-- No counter block is used by both calls. -/
def Call.Apart (c d : Call) : Prop :=
  ∀ i < c.blocks, ∀ j < d.blocks, counterAt c.before i ≠ counterAt d.before j

/-- What the callers rely on. -/
def Chained (calls : List Call) : Prop :=
  (∀ c ∈ calls, c.Advances) ∧
    ((calls.map Call.blocks).sum < 2 ^ 128 → calls.Pairwise Call.Apart)

theorem advances_iff (hKey : KeyOf key keySizeBits) (iv : Bytes 16) (datas : List IntBuffer) :
    (∀ c ∈ ctrRun key keySizeBits iv datas, c.Advances) ↔
      ∀ data ∈ datas, data.val.length % 16 = 0 := by
  induction datas generalizing iv with
  | nil => exact ⟨fun _ _ h => absurd h List.not_mem_nil, fun _ _ h => absurd h List.not_mem_nil⟩
  | cons data datas ih =>
      rw [ctrRun, List.forall_mem_cons, List.forall_mem_cons, ih]
      exact and_congr_left' (ctr_iv_iff hKey data iv)

/-- In a chain that advances, a call starts behind the blocks of those before it. -/
theorem exists_offset {iv : Bytes 16} {datas : List IntBuffer}
    (hAll : ∀ c ∈ ctrRun key keySizeBits iv datas, c.Advances) {c : Call}
    (hc : c ∈ ctrRun key keySizeBits iv datas) :
    ∃ n, c.before = counterAt iv n ∧
      n + c.blocks ≤ ((ctrRun key keySizeBits iv datas).map Call.blocks).sum := by
  induction datas generalizing iv with
  | nil => exact absurd hc List.not_mem_nil
  | cons data datas ih =>
      rw [ctrRun, List.forall_mem_cons] at hAll
      rw [ctrRun] at hc ⊢
      rw [List.map_cons, List.sum_cons]
      rcases List.mem_cons.mp hc with rfl | hc
      · exact ⟨0, (counterAt_zero _).symm, by omega⟩
      · obtain ⟨n, hBefore, hSum⟩ := ih hAll.2 hc
        have hAdvance := hAll.1
        simp only [Call.Advances] at hAdvance
        rw [hAdvance, counterAt_counterAt] at hBefore
        exact ⟨_, hBefore, by omega⟩

theorem pairwise_apart {iv : Bytes 16} {datas : List IntBuffer}
    (hAll : ∀ c ∈ ctrRun key keySizeBits iv datas, c.Advances)
    (hTotal : ((ctrRun key keySizeBits iv datas).map Call.blocks).sum < 2 ^ 128) :
    (ctrRun key keySizeBits iv datas).Pairwise Call.Apart := by
  induction datas generalizing iv with
  | nil => exact List.Pairwise.nil
  | cons data datas ih =>
      rw [ctrRun, List.forall_mem_cons] at hAll
      rw [ctrRun, List.map_cons, List.sum_cons] at hTotal
      rw [ctrRun]
      refine List.Pairwise.cons (fun c hc i hi j hj hSame => ?_) (ih hAll.2 (by omega))
      obtain ⟨n, hBefore, hSum⟩ := exists_offset hAll.2 hc
      have hAdvance := hAll.1
      simp only [Call.Advances] at hAdvance
      rw [hAdvance, counterAt_counterAt] at hBefore
      rw [hBefore, counterAt_counterAt] at hSame
      have hEq := counterAt_inj (by omega) (by omega) hSame
      omega

/-- A chain of calls keeps the counters apart exactly when every call ends with a
whole block. The keystream of a call is that of the counter blocks from its counter on. -/
theorem chained_iff (hKey : KeyOf key keySizeBits) :
    (∀ (iv : Bytes 16) (data : IntBuffer), (ctr data key keySizeBits iv).dst =
        xorStream (keystreamAt (Aes.setKey (cipherKey key keySizeBits)) iv) 0 data.val) ∧
      ∀ (iv : Bytes 16) (datas : List IntBuffer),
        Chained (ctrRun key keySizeBits iv datas) ↔ ∀ data ∈ datas, data.val.length % 16 = 0 := by
  refine ⟨fun iv data => congrArg CtrResult.dst (ctr_eq hKey data iv), fun iv datas => ?_⟩
  rw [← advances_iff hKey iv datas]
  exact ⟨fun h => h.1, fun h => ⟨h, pairwise_apart h⟩⟩

def zeroKey : List Byte := List.replicate 16 0

/-- Two whole blocks in two calls. -/
theorem chained_whole_blocks :
    let block : IntBuffer := ⟨List.replicate 16 0, by decide⟩
    Chained (ctrRun zeroKey 128 zeros [block, block]) :=
  ((chained_iff (Or.inl ⟨rfl, by decide⟩)).2 zeros _).mpr (by decide)

def oneByte : IntBuffer := ⟨[0], by decide⟩

/-- Two calls for one byte each use one counter block. -/
theorem not_chained_bytes :
    ¬Chained (ctrRun zeroKey 128 zeros [oneByte, oneByte]) ∧
      ¬(ctrRun zeroKey 128 zeros [oneByte, oneByte]).Pairwise Call.Apart := by
  have hKey : KeyOf zeroKey 128 := Or.inl ⟨rfl, by decide⟩
  have hSame : (ctr oneByte zeroKey 128 zeros).iv = zeros := by
    have hNone : oneByte.val.length / 16 = 0 := rfl
    rw [ctr_eq hKey, hNone, counterAt_zero]
  have hCalls : ctrRun zeroKey 128 zeros [oneByte, oneByte] =
      [⟨zeros, oneByte, zeros⟩, ⟨zeros, oneByte, zeros⟩] := by
    simp only [ctrRun, hSame]
  have hUsed : ¬(ctrRun zeroKey 128 zeros [oneByte, oneByte]).Pairwise Call.Apart := by
    rw [hCalls, List.pairwise_pair]
    intro hApart
    exact hApart 0 (by decide) 0 (by decide) rfl
  refine ⟨fun h => hUsed (h.2 ?_), hUsed⟩
  rw [hCalls]
  decide

end RecompStudio.Studio
