import RecompStudio.Studio.AesInverse
import RecompStudio.Library.Serial

/-!
The stream cipher of the packages: the counter of each block is enciphered and
XORed into the data. The stream can be positioned at any offset.
-/

namespace RecompStudio.Studio

open BlockModes Serial

/-- Sixteen bytes as a block. -/
def toBlock (c : Bytes 16) : Block :=
  ⟨c.val.toArray, c.property⟩

/-- One turn of the loop of `loadCounter`: the bytes written so far, what is left of
the block number, and the carry. -/
def loadTurn (b : Byte) (state : List Byte × BitVec 64 × BitVec 32) :
    List Byte × BitVec 64 × BitVec 32 :=
  let block := state.2.1
  let carry := state.2.2
  let addend := (block &&& 0xFF).setWidth 32 + carry
  let sum := b.setWidth 32 + addend
  ((sum &&& 0xFF).setWidth 8 :: state.1, block >>> 8, sum >>> 8)

/-- One turn of the loop of `nextBlock`, which is left at the first byte that does not
become zero. -/
def nextTurn (b : Byte) (state : List Byte × Bool) : List Byte × Bool :=
  if state.2 then (b :: state.1, true) else ((b + 1) :: state.1, b + 1 ≠ 0)

/-- The loop carries the rest of the block number beside the carry, which stays below two. -/
theorem loadTurn_eq (b : Byte) (state : List Byte × BitVec 64 × BitVec 32)
    (hCarry : state.2.2.toNat ≤ 1) :
    let next := loadTurn b state
    let total := b.toNat + (state.2.1.toNat + state.2.2.toNat)
    next.1 = BitVec.ofNat 8 total :: state.1 ∧
      next.2.1.toNat + next.2.2.toNat = total / 256 ∧ next.2.2.toNat ≤ 1 := by
  obtain ⟨out, block, carry⟩ := state
  change carry.toNat ≤ 1 at hCarry
  have hByte := b.isLt
  have hLow : (block &&& 0xFF).toNat = block.toNat % 256 := by
    rw [BitVec.toNat_and]
    exact Nat.and_two_pow_sub_one_eq_mod _ 8
  have hSum : (b.setWidth 32 + ((block &&& 0xFF).setWidth 32 + carry)).toNat =
      b.toNat + (block.toNat % 256 + carry.toNat) := by
    simp only [BitVec.toNat_add, BitVec.toNat_setWidth, hLow]
    omega
  simp only [loadTurn]
  generalize b.setWidth 32 + ((block &&& 0xFF).setWidth 32 + carry) = sum at hSum
  have hKept : (sum &&& 0xFF).toNat = sum.toNat % 256 := by
    rw [BitVec.toNat_and]
    exact Nat.and_two_pow_sub_one_eq_mod _ 8
  refine ⟨congrArg (· :: out) (BitVec.eq_of_toNat_eq ?_), ?_, ?_⟩
  · rw [BitVec.toNat_setWidth, hKept, BitVec.toNat_ofNat, hSum]
    omega
  · rw [BitVec.toNat_ushiftRight, BitVec.toNat_ushiftRight, hSum, Nat.shiftRight_eq_div_pow,
      Nat.shiftRight_eq_div_pow]
    omega
  · rw [BitVec.toNat_ushiftRight, hSum, Nat.shiftRight_eq_div_pow]
    omega

theorem loadTurns_eq (bs : List Byte) (block : BitVec 64) :
    let state := bs.foldr loadTurn ([], block, 0)
    let sum := addBytes bs block.toNat
    state.1 = sum.1 ∧ state.2.1.toNat + state.2.2.toNat = sum.2 ∧ state.2.2.toNat ≤ 1 := by
  induction bs with
  | nil => exact ⟨rfl, rfl, Nat.zero_le 1⟩
  | cons b bs ih =>
      obtain ⟨hBytes, hRest, hCarry⟩ := ih
      have hTurn := loadTurn_eq b _ hCarry
      rw [hRest, hBytes] at hTurn
      exact hTurn

theorem nextTurns_eq (bs : List Byte) :
    let state := bs.foldr nextTurn ([], false)
    let sum := addBytes bs 1
    state.1 = sum.1 ∧ sum.2 = if state.2 then 0 else 1 := by
  induction bs with
  | nil => exact ⟨rfl, rfl⟩
  | cons b bs ih =>
      obtain ⟨hBytes, hCarry⟩ := ih
      rw [List.foldr_cons, addBytes_cons, addStep, ← hBytes, hCarry, nextTurn]
      have hByte := b.isLt
      cases hDone : (bs.foldr nextTurn ([], false)).2 with
      | true =>
          refine ⟨congrArg (· :: _) (BitVec.eq_of_toNat_eq ?_), ?_⟩
          · rw [if_pos rfl, Nat.add_zero, BitVec.toNat_ofNat, Nat.mod_eq_of_lt hByte]
          · rw [if_pos rfl, if_pos rfl, if_pos rfl, Nat.add_zero, Nat.div_eq_of_lt hByte]
      | false =>
          rw [if_neg Bool.false_ne_true, if_neg Bool.false_ne_true]
          refine ⟨congrArg (· :: _) (BitVec.eq_of_toNat_eq ?_), ?_⟩
          · rw [BitVec.toNat_add, BitVec.toNat_ofNat]
            rfl
          · have hWraps : b + 1 = 0 ↔ b.toNat = 255 := by
              rw [← BitVec.toNat_inj, BitVec.toNat_add]
              change (b.toNat + 1) % 2 ^ 8 = 0 ↔ _
              omega
            by_cases hZero : b + 1 = 0
            · rw [hWraps.mp hZero, hZero]
              rfl
            · have hNe : b.toNat ≠ 255 := fun h => hZero (hWraps.mpr h)
              simp only [ne_eq, hZero, not_false_eq_true, decide_true, if_true]
              omega

structure CtrStream where
  aes : Aes
  base : Bytes 16
  counter : Bytes 16
  keystream : Block
  used : Nat

namespace CtrStream

def zeros : Bytes 16 := ⟨List.replicate 16 0, rfl⟩

/-- A stream without a key. -/
def empty : CtrStream := ⟨Aes.invalid, zeros, zeros, Vector.replicate 16 0, 16⟩

@[grind =] def isValid (s : CtrStream) : Bool := s.aes.isValid

theorem length_loadTurns (bs : List Byte) (block : BitVec 64) :
    (bs.foldr loadTurn ([], block, 0)).1.length = bs.length := by
  rw [(loadTurns_eq bs block).1, length_addBytes]

theorem length_nextTurns (bs : List Byte) :
    (bs.foldr nextTurn ([], false)).1.length = bs.length := by
  rw [(nextTurns_eq bs).1, length_addBytes]

/-- `base + block`, as a 128-bit big-endian integer. -/
def loadCounter (s : CtrStream) (block : BitVec 64) : CtrStream :=
  { s with counter := ⟨(s.base.val.foldr loadTurn ([], block, 0)).1,
      (length_loadTurns _ _).trans s.base.property⟩ }

def refill (s : CtrStream) : CtrStream :=
  { s with keystream := s.aes.encrypted (toBlock s.counter) }

def nextBlock (s : CtrStream) : CtrStream :=
  let next := { s with counter := ⟨(s.counter.val.foldr nextTurn ([], false)).1,
    (length_nextTurns _).trans s.counter.property⟩ }
  { next.refill with used := 0 }

@[grind =] def seek (s : CtrStream) (offset : BitVec 64) : CtrStream :=
  if s.isValid = false then s
  else { (s.loadCounter (offset / 16)).refill with used := (offset % 16).toNat }

/-- One byte of `apply`. -/
def applyByte (s : CtrStream) (b : Byte) : Byte × CtrStream :=
  let s' := if s.used = 16 then s.nextBlock else s
  (b ^^^ (s'.keystream[s'.used]?).getD 0, { s' with used := s'.used + 1 })

def applyLoop (s : CtrStream) : List Byte → List Byte × CtrStream
  | [] => ([], s)
  | b :: bs =>
      let first := s.applyByte b
      let rest := applyLoop first.2 bs
      (first.1 :: rest.1, rest.2)

@[grind =] def apply (s : CtrStream) (data : List Byte) : List Byte × CtrStream :=
  if s.isValid = false then (data, s) else s.applyLoop data

def make (key baseCounter : List Byte) : CtrStream :=
  if h : baseCounter.length = 16 then
    if (Aes.setKey key).isValid = false then { empty with aes := Aes.setKey key }
    else seek { empty with aes := Aes.setKey key, base := ⟨baseCounter, h⟩ } 0
  else empty

/-- The counter block so many blocks after a base, as 128-bit big-endian integers. -/
def counterAt (base : Bytes 16) (n : Nat) : Bytes 16 :=
  ⟨beBytes 16 (beValue base.val + n), length_beBytes 16 _⟩

/-- The byte of the keystream at a position. -/
def keystreamAt (aes : Aes) (base : Bytes 16) (p : Nat) : Byte :=
  (aes.encrypted (toBlock (counterAt base (p / 16)))).get ⟨p % 16, Nat.mod_lt p (by decide)⟩

/-- Where a stream is: in a block, perhaps behind its last byte. -/
structure At (aes : Aes) (base : Bytes 16) (p : Nat) (s : CtrStream) : Prop where
  aes_eq : s.aes = aes
  base_eq : s.base = base
  used_le : s.used ≤ 16
  block : ∃ k, p = 16 * k + s.used ∧ s.counter = counterAt base k ∧
    s.keystream = aes.encrypted (toBlock (counterAt base k))

variable {aes : Aes} {base : Bytes 16} {p : Nat} {s : CtrStream}

theorem counterAt_next (base : Bytes 16) (k : Nat) :
    ((counterAt base k).val.foldr nextTurn ([], false)).1 = (counterAt base (k + 1)).val := by
  have hLength := length_beBytes 16 (beValue base.val + k)
  rw [(nextTurns_eq _).1, addBytes_eq_beBytes]
  change beBytes (beBytes 16 _).length _ = beBytes 16 _
  rw [hLength]
  apply beValue_inj (by simp only [length_beBytes])
  rw [beValue_beBytes, beValue_beBytes]
  change (beValue (beBytes 16 _) + 1) % _ = _
  rw [beValue_beBytes, Nat.mod_add_mod, Nat.add_assoc]

theorem counterAt_load (base : Bytes 16) (block : BitVec 64) :
    (base.val.foldr loadTurn ([], block, 0)).1 = (counterAt base block.toNat).val := by
  rw [(loadTurns_eq _ _).1, addBytes_eq_beBytes, base.property]
  rfl

theorem seek_at (hValid : s.isValid = true) (hAes : s.aes = aes) (hBase : s.base = base)
    (offset : BitVec 64) : At aes base offset.toNat (s.seek offset) := by
  have hSeek : s.seek offset =
      { (s.loadCounter (offset / 16)).refill with used := (offset % 16).toNat } :=
    if_neg (by rw [hValid]; exact Bool.noConfusion)
  have hRest : (offset % 16).toNat = offset.toNat % 16 := BitVec.toNat_umod
  have hBlock : (offset / 16).toNat = offset.toNat / 16 := BitVec.toNat_udiv
  have hCounter : (s.loadCounter (offset / 16)).counter = counterAt base (offset.toNat / 16) := by
    refine Subtype.ext ?_
    rw [← hBlock, ← hBase]
    exact counterAt_load s.base (offset / 16)
  rw [hSeek]
  refine ⟨hAes, hBase, ?_, offset.toNat / 16, ?_, hCounter, ?_⟩
  · change (offset % 16).toNat ≤ 16
    omega
  · change offset.toNat = 16 * (offset.toNat / 16) + (offset % 16).toNat
    omega
  · change s.aes.encrypted (toBlock (s.loadCounter (offset / 16)).counter) = _
    rw [hCounter, hAes]

/-- Behind the last byte of a block the next one is taken. -/
theorem At.turned (hAt : At aes base p s) :
    At aes base p (if s.used = 16 then s.nextBlock else s) ∧
      (if s.used = 16 then s.nextBlock else s).used < 16 := by
  obtain ⟨k, hPos, hCounter, hStream⟩ := hAt.block
  by_cases hUsed : s.used = 16
  · rw [if_pos hUsed]
    have hNext : s.nextBlock.counter = counterAt base (k + 1) := by
      refine Subtype.ext ?_
      rw [← counterAt_next, ← hCounter]
      rfl
    refine ⟨⟨hAt.aes_eq, hAt.base_eq, Nat.zero_le 16, k + 1, ?_, hNext, ?_⟩, Nat.zero_lt_succ 15⟩
    · change p = 16 * (k + 1) + 0
      omega
    · change s.aes.encrypted (toBlock s.nextBlock.counter) = _
      rw [hNext, hAt.aes_eq]
  · rw [if_neg hUsed]
    exact ⟨hAt, Nat.lt_of_le_of_ne hAt.used_le hUsed⟩

theorem At.applyByte (hAt : At aes base p s) (b : Byte) :
    (s.applyByte b).1 = b ^^^ keystreamAt aes base p ∧
      At aes base (p + 1) (s.applyByte b).2 := by
  obtain ⟨hTurned, hUsed⟩ := hAt.turned
  rw [CtrStream.applyByte]
  generalize (if s.used = 16 then s.nextBlock else s) = s' at hTurned hUsed
  obtain ⟨k, hPos, hCounter, hStream⟩ := hTurned.block
  have hBlock : p / 16 = k := by omega
  have hCell : p % 16 = s'.used := by omega
  refine ⟨?_, hTurned.aes_eq, hTurned.base_eq, hUsed, k, ?_, hCounter, hStream⟩
  · rw [Vector.getElem?_eq_getElem hUsed, Option.getD_some, keystreamAt]
    simp only [hStream, hBlock, hCell]
    rfl
  · rw [hPos, Nat.add_assoc]

theorem At.applyLoop (hAt : At aes base p s) (data : List Byte) :
    (s.applyLoop data).1 = xorStream (keystreamAt aes base) p data ∧
      At aes base (p + data.length) (s.applyLoop data).2 := by
  induction data generalizing p s with
  | nil => exact ⟨rfl, hAt⟩
  | cons b bs ih =>
      obtain ⟨hByte, hNext⟩ := hAt.applyByte b
      obtain ⟨hRest, hEnd⟩ := ih hNext
      rw [Nat.add_assoc, Nat.add_comm 1] at hEnd
      rw [CtrStream.applyLoop, xorStream, ← hByte, ← hRest]
      exact ⟨rfl, hEnd⟩

/-- Data is XORed with the keystream from the stream's position on. -/
theorem At.apply (hAt : At aes base p s) (hValid : aes.isValid = true) (data : List Byte) :
    (s.apply data).1 = xorStream (keystreamAt aes base) p data ∧
      At aes base (p + data.length) (s.apply data).2 := by
  have hUse : s.apply data = s.applyLoop data := by
    refine if_neg ?_
    rw [isValid, hAt.aes_eq, hValid]
    exact Bool.noConfusion
  rw [hUse]
  exact hAt.applyLoop data

theorem make_at {key : List Byte} (hKey : key.length = 16 ∨ key.length = 32) (base : Bytes 16) :
    At (Aes.setKey key) base 0 (make key base.val) := by
  have hValid := Aes.isValid_of_length hKey
  rw [make, dif_pos base.property, if_neg (by rw [hValid]; exact Bool.noConfusion)]
  exact @seek_at _ _ { empty with aes := Aes.setKey key, base := base } hValid rfl rfl 0

inductive Op where
  | seek (offset : BitVec 64)
  | apply (data : List Byte)

/-- The data that the calls of `apply` leave. -/
@[grind =] def run (s : CtrStream) : List Op → List (List Byte)
  | [] => []
  | .seek offset :: ops => run (s.seek offset) ops
  | .apply data :: ops => (s.apply data).1 :: run (s.apply data).2 ops

/-- Each byte XORed with the keystream at its position. -/
def positioned (keystream : Nat → Byte) : Nat → List Op → List (List Byte)
  | _, [] => []
  | _, .seek offset :: ops => positioned keystream offset.toNat ops
  | p, .apply data :: ops =>
      xorStream keystream p data :: positioned keystream (p + data.length) ops

theorem At.run (hAt : At aes base p s) (hValid : aes.isValid = true) (ops : List Op) :
    s.run ops = positioned (keystreamAt aes base) p ops := by
  induction ops generalizing p s with
  | nil => rfl
  | cons op ops ih =>
      cases op with
      | seek offset =>
          refine ih (seek_at ?_ hAt.aes_eq hAt.base_eq offset)
          rw [isValid, hAt.aes_eq]
          exact hValid
      | apply data =>
          obtain ⟨hData, hNext⟩ := hAt.apply hValid data
          rw [CtrStream.run, positioned, hData, ih hNext]

theorem beValue_counterAt (base : Bytes 16) (n : Nat) :
    beValue (counterAt base n).val = (beValue base.val + n) % 2 ^ 128 :=
  beValue_beBytes 16 _

end CtrStream

end RecompStudio.Studio
