import RecompStudio.Backends.Agreement
import RecompStudio.Library.ByteMemory

/-!
The unaligned loads and stores on a memory of bytes. A left and a right half of
one access together move the word at any address; this holds for the byte tables
of the game helpers and the interpreter, and for the shift formulas of the BIOS
code as far as loads go.
-/

namespace RecompStudio

open RecompStudio.Emitted
open RecompStudio.Insn
open RecompStudio.Interp
open RecompStudio.CodeGen
open RecompStudio.ByteMemory

/-- Guest memory as bytes. -/
abbrev GuestBytes := Memory 32

/-- The memory callbacks on plain bytes. -/
def byteBus : Bus GuestBytes where
  readWord := fun a m => (loadWord m a, m)
  readHalf := fun a m => (m (a + 1#32) ++ m a, m)
  readByte := fun a m => (m a, m)
  writeWord := fun _ a v m => storeWord m a v
  writeHalf := fun _ a v m =>
    Function.update (Function.update m a (v.extractLsb' 0 8)) (a + 1#32) (v.extractLsb' 8 8)
  writeByte := fun _ a v m => Function.update m a v

/-- A host in front of plain bytes. -/
def byteHost (host : Host GuestBytes) : Host GuestBytes := { host with bus := byteBus }

/-- The memory after one half of an unaligned store. -/
@[grind =]
def mergeStore (side : MergeSide) (style : MergeStyle) (m : GuestBytes) (a v : Word) : GuestBytes :=
  storeWord m (alignDown a) (storeMerged side style a (loadWord m (alignDown a)) v)

/-- The register value after one half of an unaligned load. -/
@[grind =]
def mergeLoad (side : MergeSide) (style : MergeStyle) (m : GuestBytes) (a old : Word) : Word :=
  loadMerged side style a (loadWord m (alignDown a)) old

/-- How the code of a backend writes the merges. -/
def Backend.style : Backend → MergeStyle
  | .strict => .shifts
  | .codegen | .interp => .table

section Alignment

variable {a : Word}

theorem low_toNat (a : Word) : (a &&& 3#32).toNat = a.toNat % 4 := by
  rw [BitVec.toNat_and]
  exact Nat.and_two_pow_sub_one_eq_mod a.toNat 2

theorem alignDown_add_low (a : Word) : alignDown a + (a &&& 3#32) = a := by
  have hDisjoint : alignDown a &&& (a &&& 3#32) = 0#32 := by
    rw [alignDown, BitVec.and_comm a 3#32, BitVec.and_assoc, ← BitVec.and_assoc _ _ a]
    simp
  rw [BitVec.add_eq_or_of_and_eq_zero _ _ hDisjoint, alignDown, ← BitVec.and_or_distrib_left]
  exact BitVec.and_allOnes

theorem alignDown_toNat (a : Word) : (alignDown a).toNat = a.toNat - a.toNat % 4 := by
  have hSum := congrArg BitVec.toNat (alignDown_add_low a)
  have hLow := low_toNat a
  have hLe : (alignDown a).toNat ≤ a.toNat := by
    rw [alignDown, BitVec.toNat_and]
    exact Nat.and_le_left
  rw [BitVec.toNat_add] at hSum
  omega

end Alignment

section Bytes

variable {word old value : Word} {d : Nat}

/-- Byte by byte, what the tables take from the memory word and what they keep. -/
theorem byteAt_lwlTable (a word old : Word) (hd : d < 4) :
    byteAt (lwlTable a word old) d =
      if 3 ≤ d + (a &&& 3#32).toNat then byteAt word (d + (a &&& 3#32).toNat - 3)
      else byteAt old d := by
  apply BitVec.eq_of_getLsbD_eq
  intro j hj
  rcases low_two_bits a with h | h | h | h
  all_goals
    simp only [lwlTable, h, BitVec.toNat_ofNat, Nat.reduceMod, Nat.reducePow]
    interval_cases d <;> interval_cases j <;> simp [getLsbD_byteAt, -BitVec.getLsbD_eq_getElem]

theorem byteAt_lwrTable (a word old : Word) (hd : d < 4) :
    byteAt (lwrTable a word old) d =
      if d + (a &&& 3#32).toNat < 4 then byteAt word (d + (a &&& 3#32).toNat)
      else byteAt old d := by
  apply BitVec.eq_of_getLsbD_eq
  intro j hj
  rcases low_two_bits a with h | h | h | h
  all_goals
    simp only [lwrTable, h, BitVec.toNat_ofNat, Nat.reduceMod, Nat.reducePow]
    interval_cases d <;> interval_cases j <;> simp [getLsbD_byteAt, -BitVec.getLsbD_eq_getElem]

theorem byteAt_swlTable (a word value : Word) (hd : d < 4) :
    byteAt (swlTable a word value) d =
      if d ≤ (a &&& 3#32).toNat then byteAt value (d + 3 - (a &&& 3#32).toNat)
      else byteAt word d := by
  apply BitVec.eq_of_getLsbD_eq
  intro j hj
  rcases low_two_bits a with h | h | h | h
  all_goals
    simp only [swlTable, h, BitVec.toNat_ofNat, Nat.reduceMod, Nat.reducePow]
    interval_cases d <;> interval_cases j <;> simp [getLsbD_byteAt, -BitVec.getLsbD_eq_getElem]

theorem byteAt_swrTable (a word value : Word) (hd : d < 4) :
    byteAt (swrTable a word value) d =
      if (a &&& 3#32).toNat ≤ d then byteAt value (d - (a &&& 3#32).toNat)
      else byteAt word d := by
  apply BitVec.eq_of_getLsbD_eq
  intro j hj
  rcases low_two_bits a with h | h | h | h
  all_goals
    simp only [swrTable, h, BitVec.toNat_ofNat, Nat.reduceMod, Nat.reducePow]
    interval_cases d <;> interval_cases j <;> simp [getLsbD_byteAt, -BitVec.getLsbD_eq_getElem]

end Bytes

section Halves

variable (m : GuestBytes) (a v old : Word)

/-- The right half of a load fills the bytes from `a` up to the end of its word. -/
theorem byteAt_mergeLoad_right {d : Nat} (hd : d < 4) :
    byteAt (mergeLoad .right .table m a old) d =
      if d + a.toNat % 4 < 4 then m (a + BitVec.ofNat 32 d) else byteAt old d := by
  rw [mergeLoad, loadMerged, byteAt_lwrTable _ _ _ hd, low_toNat]
  split
  next h =>
    rw [byteAt_loadWord _ _ h]
    congr 1
    have hDown := alignDown_toNat a
    bv_omega
  next => rfl

/-- The left half fills the bytes down from its address to the start of its word. -/
theorem byteAt_mergeLoad_left {d : Nat} (hd : d < 4) :
    byteAt (mergeLoad .left .table m (a + 3#32) old) d =
      if 3 ≤ d + (a + 3#32).toNat % 4 then m (a + BitVec.ofNat 32 d) else byteAt old d := by
  rw [mergeLoad, loadMerged, byteAt_lwlTable _ _ _ hd, low_toNat]
  split
  next h =>
    rw [byteAt_loadWord _ _ (by omega)]
    congr 1
    have hDown := alignDown_toNat (a + 3#32)
    bv_omega
  next => rfl

theorem mergeStore_right (x : Word) :
    mergeStore .right .table m a v x =
      if (x - a).toNat + a.toNat % 4 < 4 then byteAt v (x - a).toNat else m x := by
  have hDown := alignDown_toNat a
  rw [mergeStore, storeWord]
  split
  next hIn =>
    rw [storeMerged, byteAt_swrTable _ _ _ hIn, low_toNat]
    split
    next h =>
      have hOffset : (x - alignDown a).toNat - a.toNat % 4 = (x - a).toNat := by bv_omega
      rw [hOffset, if_pos (by bv_omega)]
    next h =>
      rw [if_neg (by bv_omega), byteAt_loadWord _ _ hIn]
      congr 1
      bv_omega
  next hOut => rw [if_neg (by bv_omega)]

theorem mergeStore_left (x : Word) :
    mergeStore .left .table m (a + 3#32) v x =
      if (x - a).toNat < 4 ∧ 3 ≤ (x - a).toNat + (a + 3#32).toNat % 4 then byteAt v (x - a).toNat
      else m x := by
  have hDown := alignDown_toNat (a + 3#32)
  rw [mergeStore, storeWord]
  split
  next hIn =>
    rw [storeMerged, byteAt_swlTable _ _ _ hIn, low_toNat]
    split
    next h =>
      have hOffset : (x - alignDown (a + 3#32)).toNat + 3 - (a + 3#32).toNat % 4 =
          (x - a).toNat := by bv_omega
      rw [hOffset, if_pos (by bv_omega)]
    next h =>
      rw [if_neg (by bv_omega), byteAt_loadWord _ _ hIn]
      congr 1
      bv_omega
  next hOut => rw [if_neg (by bv_omega)]

end Halves

section Pairs

variable (m : GuestBytes) (a v old : Word)

/-- The two halves of a load leave no byte of the register behind, in either order. -/
theorem load_left_right :
    mergeLoad .right .table m a (mergeLoad .left .table m (a + 3#32) old) = loadWord m a := by
  apply eq_of_bytes
  intro d hd
  rw [byteAt_mergeLoad_right _ _ _ hd, byteAt_mergeLoad_left _ _ _ hd, byteAt_loadWord _ _ hd]
  split
  · rfl
  · rw [if_pos (by bv_omega)]

theorem load_right_left :
    mergeLoad .left .table m (a + 3#32) (mergeLoad .right .table m a old) = loadWord m a := by
  apply eq_of_bytes
  intro d hd
  rw [byteAt_mergeLoad_left _ _ _ hd, byteAt_mergeLoad_right _ _ _ hd, byteAt_loadWord _ _ hd]
  split
  · rfl
  · rw [if_pos (by bv_omega)]

/-- The two halves of a store write the four bytes from `a` and no other. -/
theorem store_left_right :
    mergeStore .right .table (mergeStore .left .table m (a + 3#32) v) a v = storeWord m a v := by
  funext x
  rw [mergeStore_right, mergeStore_left, storeWord]
  split_ifs
  all_goals first | rfl | bv_omega

theorem store_right_left :
    mergeStore .left .table (mergeStore .right .table m a v) (a + 3#32) v = storeWord m a v := by
  funext x
  rw [mergeStore_left, mergeStore_right, storeWord]
  split_ifs
  all_goals first | rfl | bv_omega

theorem mergeLoad_style (side : MergeSide) (style : MergeStyle) :
    mergeLoad side style m a old = mergeLoad side .table m a old := by
  cases style
  · rfl
  · cases side
    · exact lwlShifts_eq_lwlTable _ _ _
    · exact lwrShifts_eq_lwrTable _ _ _

end Pairs

/-- The bytes that only one of the two masks of a store half keeps, for each
alignment. -/
@[grind =] def masksDiffer (side : MergeSide) (a : Word) : Word :=
  match side, (a &&& 3#32).toNat with
  | .left, 0 => 0xFF0000FF#32
  | .left, 1 => 0xFFFFFFFF#32
  | .left, 2 => 0xFF0000FF#32
  | .right, 1 => 0xFF0000FF#32
  | .right, 2 => 0xFFFFFFFF#32
  | .right, 3 => 0xFF0000FF#32
  | _, _ => 0

/-- The part of the register that a store half moves, in its place. -/
def storedPart (side : MergeSide) (a v : Word) : Word :=
  match side with
  | .left => v >>> ((3#32 - (a &&& 3#32)) * 8#32)
  | .right => v <<< ((a &&& 3#32) * 8#32)

/-- In the bytes that only one mask keeps, every bit of the memory word is also set
in what is stored over it. -/
@[grind =] def BytesHidden (side : MergeSide) (m : GuestBytes) (a v : Word) : Prop :=
  loadWord m (alignDown a) &&& masksDiffer side a &&& ~~~storedPart side a v = 0

instance (side : MergeSide) (m : GuestBytes) (a v : Word) : Decidable (BytesHidden side m a v) :=
  inferInstanceAs (Decidable (_ = _))

/-- Two masks below the same stored part. -/
theorem or_masked_eq_iff (w p q x : Word) :
    (w &&& p) ||| x = (w &&& q) ||| x ↔ w &&& (p ^^^ q) &&& ~~~x = 0 := by
  have hBit : ∀ i, ((w &&& p) ||| x).getLsbD i = ((w &&& q) ||| x).getLsbD i ↔
      (w &&& (p ^^^ q) &&& ~~~x).getLsbD i = false := by
    intro i
    simp only [BitVec.getLsbD_or, BitVec.getLsbD_and, BitVec.getLsbD_xor, BitVec.getLsbD_not]
    by_cases hi : i < 32
    · simp only [hi, decide_true, Bool.true_and]
      cases w.getLsbD i <;> cases p.getLsbD i <;> cases q.getLsbD i <;> cases x.getLsbD i <;> simp
    · simp [BitVec.getLsbD_of_ge _ i (Nat.le_of_not_lt hi)]
  constructor
  · intro h
    apply BitVec.eq_of_getLsbD_eq
    intro i _
    rw [(hBit i).mp (by rw [h])]
    exact BitVec.getLsbD_zero.symm
  · intro h
    apply BitVec.eq_of_getLsbD_eq
    intro i _
    exact (hBit i).mpr (by rw [h]; exact BitVec.getLsbD_zero)

/-- The shift formula of a store half is the byte table where the bytes that the
masks disagree on are hidden. -/
theorem storeMerged_shifts_iff (side : MergeSide) (a word v : Word) :
    storeMerged side .shifts a word v = storeMerged side .table a word v ↔
      word &&& masksDiffer side a &&& ~~~storedPart side a v = 0 := by
  cases side
  all_goals
    rcases low_two_bits a with h | h | h | h
  all_goals
    simp only [storeMerged, swlShifts, swlTable, swrShifts, swrTable, masksDiffer, storedPart, h]
  · exact or_masked_eq_iff _ _ _ _
  · exact or_masked_eq_iff _ _ _ _
  · exact or_masked_eq_iff _ _ _ _
  · simp
  · simp
  · exact or_masked_eq_iff _ _ _ _
  · exact or_masked_eq_iff _ _ _ _
  · exact or_masked_eq_iff _ _ _ _

theorem mergeStore_shifts_iff (side : MergeSide) (m : GuestBytes) (a v : Word) :
    mergeStore side .shifts m a v = mergeStore side .table m a v ↔ BytesHidden side m a v := by
  rw [mergeStore, mergeStore, storeWord_inj (by decide), storeMerged_shifts_iff, BytesHidden]

@[grind =] def loadOp : MergeSide → Op
  | .left => .lwl
  | .right => .lwr

@[grind =] def storeOp : MergeSide → Op
  | .left => .swl
  | .right => .swr

def otherSide : MergeSide → MergeSide
  | .left => .right
  | .right => .left

/-- Where a half of the access to the word at `a` points: the left half at its
highest byte, the right half at its lowest. -/
@[grind =] def halfAddr (a : Word) : MergeSide → Word
  | .left => a + 3#32
  | .right => a

theorem mergeLoad_pair (m : GuestBytes) (a old : Word) (side : MergeSide) :
    mergeLoad (otherSide side) .table m (halfAddr a (otherSide side))
      (mergeLoad side .table m (halfAddr a side) old) = loadWord m a := by
  cases side
  · exact load_left_right m a old
  · exact load_right_left m a old

theorem mergeStore_pair (m : GuestBytes) (a v : Word) (side : MergeSide) :
    mergeStore (otherSide side) .table (mergeStore side .table m (halfAddr a side) v)
      (halfAddr a (otherSide side)) v =
      storeWord m a v := by
  cases side
  · exact store_left_right m a v
  · exact store_right_left m a v

section StoreShifts

variable {m : GuestBytes} {a v : Word} {side : MergeSide}

/-- At an aligned address both masks keep the same bytes. -/
theorem masksDiffer_aligned (hAligned : a.toNat % 4 = 0) (side : MergeSide) :
    masksDiffer side (halfAddr a side) = 0 := by
  cases side
  · have hLow : ((a + 3#32) &&& 3#32).toNat = 3 := by rw [low_toNat]; bv_omega
    simp only [masksDiffer, halfAddr, hLow]
  · have hLow : (a &&& 3#32).toNat = 0 := by rw [low_toNat, hAligned]
    simp only [masksDiffer, halfAddr, hLow]

theorem bytesHidden_aligned (hAligned : a.toNat % 4 = 0) (side : MergeSide) (m : GuestBytes)
    (v : Word) : BytesHidden side m (halfAddr a side) v := by
  rw [BytesHidden, masksDiffer_aligned hAligned]
  simp

/-- Across a word boundary the halves touch two different words. -/
theorem halves_apart (hAcross : a.toNat % 4 ≠ 0) (side : MergeSide) :
    ∀ i < 4, 4 ≤ (alignDown (halfAddr a (otherSide side)) + BitVec.ofNat 32 i -
      alignDown (halfAddr a side)).toNat := by
  intro i hi
  have hLeft := alignDown_toNat (a + 3#32)
  have hRight := alignDown_toNat a
  cases side <;> simp only [otherSide, halfAddr] <;> bv_omega

theorem mergeStore_across (hAcross : a.toNat % 4 ≠ 0) (style : MergeStyle) :
    mergeStore (otherSide side) style (mergeStore side style m (halfAddr a side) v)
        (halfAddr a (otherSide side)) v =
      storeWord
        (storeWord m (alignDown (halfAddr a side))
          (storeMerged side style (halfAddr a side) (loadWord m (alignDown (halfAddr a side))) v))
        (alignDown (halfAddr a (otherSide side)))
        (storeMerged (otherSide side) style (halfAddr a (otherSide side))
          (loadWord m (alignDown (halfAddr a (otherSide side)))) v) := by
  rw [mergeStore, mergeStore, loadWord_storeWord_apart (halves_apart hAcross side)]

/-- Both halves in the shift form store the word exactly when both hide what their
masks confuse. -/
theorem mergeStore_pair_shifts_iff :
    mergeStore (otherSide side) .shifts (mergeStore side .shifts m (halfAddr a side) v)
        (halfAddr a (otherSide side)) v = storeWord m a v ↔
      BytesHidden side m (halfAddr a side) v ∧
        BytesHidden (otherSide side) m (halfAddr a (otherSide side)) v := by
  rw [← mergeStore_pair m a v side]
  by_cases hAligned : a.toNat % 4 = 0
  · have hFirst := (mergeStore_shifts_iff side m (halfAddr a side) v).mpr
      (bytesHidden_aligned hAligned side m v)
    rw [hFirst]
    have hSecond := (mergeStore_shifts_iff (otherSide side)
      (mergeStore side .table m (halfAddr a side) v) (halfAddr a (otherSide side)) v).mpr
        (bytesHidden_aligned hAligned (otherSide side) _ v)
    rw [hSecond]
    exact iff_of_true rfl
      ⟨bytesHidden_aligned hAligned side m v, bytesHidden_aligned hAligned (otherSide side) m v⟩
  · have hApart := halves_apart hAligned side
    have hApart' := halves_apart hAligned (otherSide side)
    rw [mergeStore_across hAligned, mergeStore_across hAligned, storeWord_pair_inj (by decide),
      storeMerged_shifts_iff, storeMerged_shifts_iff, BytesHidden, BytesHidden]
    intro i hi
    cases side <;> exact hApart' i hi

end StoreShifts

/-- The words one after another. -/
@[grind =]
def runWords {M : Type} (host : Host M) (b : Backend) : Word → List Word → CPUState M → Outcome M
  | _, [], s => .done s
  | pc, w :: ws, s =>
      match outcome host pc w s b with
      | .done t => runWords host b (pc + 4#32) ws t
      | o => o

section Instructions

variable {host : Host GuestBytes} {b : Backend} {side : MergeSide} {pc w : Word}
  {s : CPUState GuestBytes}

theorem exec_loadMerge (hZero : s.gpr 0 = 0) {e : Expr}
    (hDefined : e.defined (byteHost host) s = true)
    (hAddr : e.eval (byteHost host) s = effectiveAddr s w) (style : MergeStyle) :
    (Stmt.loadMerge (Bios.optReg (rt w)) side style e).exec (byteHost host) s =
      .next (writeGpr s (rt w)
        (mergeLoad side .table s.mem (effectiveAddr s w) (s.gpr (rt w)))) := by
  rw [← mergeLoad_style _ _ _ side style]
  simp only [Stmt.exec, hDefined, if_true, hAddr]
  by_cases hr : rt w = 0
  · rw [Bios.optReg, if_pos hr, hr, writeGpr_zero hZero]
    rfl
  · rw [Bios.optReg, if_neg hr, writeGpr_eq_setGpr hZero hr]
    rfl

/-- The BIOS code computes an address as a signed sum. -/
theorem strictAddr_defined (hOp : Op.ofWord w = loadOp side ∨ Op.ofWord w = storeOp side)
    (hAdd : ¬ AddOverflows w s) : (Bios.strictAddr w).defined (byteHost host) s = true := by
  rw [strictAddr_defined_iff, ← Bool.not_eq_true]
  intro hOverflow
  apply hAdd
  refine ⟨hOverflow, ?_⟩
  cases side <;> rcases hOp with hOp | hOp <;> simp only [hOp, loadOp, storeOp]

theorem strict_load (hOp : Op.ofWord w = loadOp side) :
    strictOutcome (byteHost host) pc w s =
      .ofFlow ((Stmt.loadMerge (Bios.optReg (rt w)) side .shifts (Bios.strictAddr w)).exec
        (byteHost host) s) := by
  cases side
  all_goals
    have hNonzero : w ≠ 0 := ne_zero_of_op hOp (by decide)
    simp only [loadOp] at hOp
    simp only [strictOutcome, Bios.strictTranslate, if_neg hNonzero, hOp, execStmts_singleton]

theorem strict_store (hOp : Op.ofWord w = storeOp side) :
    strictOutcome (byteHost host) pc w s =
      .ofFlow ((Stmt.storeMerge side .shifts (Bios.strictAddr w) (.gpr (rt w))).exec
        (byteHost host) s) := by
  cases side
  all_goals
    have hNonzero : w ≠ 0 := ne_zero_of_op hOp (by decide)
    simp only [storeOp] at hOp
    simp only [strictOutcome, Bios.strictTranslate, if_neg hNonzero, hOp, execStmts_singleton]

theorem codegen_load (hOp : Op.ofWord w = loadOp side) :
    codegenOutcome (byteHost host) pc w s =
      .ofFlow ((translateLoadMerge side w).exec (byteHost host) s) := by
  cases side <;> simp only [loadOp] at hOp <;>
    simp only [codegenOutcome, translatePlain, hOp, execStmts_singleton]

theorem codegen_store (hOp : Op.ofWord w = storeOp side) :
    codegenOutcome (byteHost host) pc w s =
      .ofFlow ((translateStoreMerge side w).exec (byteHost host) s) := by
  cases side <;> simp only [storeOp] at hOp <;>
    simp only [codegenOutcome, translatePlain, hOp, execStmts_singleton]

/-- What one half of a load does, on every backend. -/
theorem outcome_load (host : Host GuestBytes) (pc : Word) (hZero : s.gpr 0 = 0)
    (hOp : Op.ofWord w = loadOp side) (hAdd : b = .strict → ¬ AddOverflows w s) :
    outcome (byteHost host) pc w s b = .done (writeGpr s (rt w)
      (mergeLoad side .table s.mem (effectiveAddr s w) (s.gpr (rt w)))) := by
  cases b
  case strict =>
    rw [outcome, strict_load hOp, exec_loadMerge hZero
      (strictAddr_defined (.inl hOp) (hAdd rfl)) (strictAddr_eval (Agree.refl s) w),
      Outcome.ofFlow]
  case codegen =>
    rw [outcome, codegen_load hOp, translateLoadMerge, guardZero]
    by_cases hr : rt w = 0
    · rw [if_pos hr, hr, writeGpr_zero hZero]
      rfl
    · have hExec : (Stmt.loadMerge (Bios.optReg (rt w)) side .table (addrExpr w)).exec
          (byteHost host) s = .next (writeGpr s (rt w)
            (mergeLoad side .table s.mem (effectiveAddr s w) (s.gpr (rt w)))) :=
        exec_loadMerge hZero (addrExpr_defined w) (addrExpr_eval (Agree.refl s) w) .table
      rw [Bios.optReg, if_neg hr] at hExec
      rw [if_neg hr, hExec, Outcome.ofFlow]
  case interp =>
    cases side <;> simp only [loadOp] at hOp <;> simp only [outcome, interpOutcome, execPlain, hOp]
    all_goals rfl

/-- What one half of a store does, on every backend. -/
theorem outcome_store (host : Host GuestBytes) (pc : Word) (hOp : Op.ofWord w = storeOp side)
    (hAdd : b = .strict → ¬ AddOverflows w s) :
    outcome (byteHost host) pc w s b = .done { s with
      mem := mergeStore side b.style s.mem (effectiveAddr s w) (s.gpr (rt w)) } := by
  cases b
  case strict =>
    rw [outcome, strict_store hOp, Stmt.exec,
      if_pos (strictAddr_defined (.inr hOp) (hAdd rfl)), strictAddr_eval (Agree.refl s) w]
    rfl
  case codegen =>
    rw [outcome, codegen_store hOp, translateStoreMerge, Stmt.exec, if_pos (addrExpr_defined w),
      addrExpr_eval (Agree.refl s) w]
    rfl
  case interp =>
    cases side <;> simp only [storeOp] at hOp <;> simp only [outcome, interpOutcome, execPlain, hOp]
    all_goals rfl

end Instructions

/-- Two loads into `r` and two stores of `q`, the halves of an access to the word
at `a`. The second load still finds the base that the first one found. -/
structure Halves (load store : MergeSide → Word) (r q : RegIndex) (s : CPUState GuestBytes)
    (a : Word) : Prop where
  zero : s.gpr 0 = 0
  isLoad : ∀ side, Op.ofWord (load side) = loadOp side
  isStore : ∀ side, Op.ofWord (store side) = storeOp side
  loadRt : ∀ side, rt (load side) = r
  storeRt : ∀ side, rt (store side) = q
  loadAddr : ∀ side, effectiveAddr s (load side) = halfAddr a side
  storeAddr : ∀ side, effectiveAddr s (store side) = halfAddr a side
  base : r ≠ 0 → ∀ side, rs (load side) ≠ r

theorem Halves.setMem {load store : MergeSide → Word} {r q : RegIndex} {s : CPUState GuestBytes}
    {a : Word} (h : Halves load store r q s a) (m : GuestBytes) :
    Halves load store r q { s with mem := m } a :=
  ⟨h.zero, h.isLoad, h.isStore, h.loadRt, h.storeRt, h.loadAddr, h.storeAddr, h.base⟩

section PairRuns

variable {host : Host GuestBytes} {b : Backend} {pc a : Word} {load store : MergeSide → Word}
  {r q : RegIndex} {s : CPUState GuestBytes}

theorem addOverflows_congr {w : Word} {t : CPUState GuestBytes} (h : s.gpr (rs w) = t.gpr (rs w)) :
    AddOverflows w s ↔ AddOverflows w t := by
  rw [AddOverflows, AddOverflows, h]

/-- Both halves of a load, in either order. -/
theorem loads_run (host : Host GuestBytes) (pc : Word) (hHalves : Halves load store r q s a)
    (hAdd : b = .strict → ∀ side, ¬ AddOverflows (load side) s) (side : MergeSide) :
    runWords (byteHost host) b pc [load side, load (otherSide side)] s =
      .done (writeGpr s r (loadWord s.mem a)) := by
  have hFirst := outcome_load host pc hHalves.zero (hHalves.isLoad side)
    fun h : b = .strict => hAdd h side
  rw [hHalves.loadRt, hHalves.loadAddr] at hFirst
  have hBase : (writeGpr s r (mergeLoad side .table s.mem (halfAddr a side) (s.gpr r))).gpr
      (rs (load (otherSide side))) = s.gpr (rs (load (otherSide side))) := by
    by_cases hr : r = 0
    · rw [hr, writeGpr_zero hHalves.zero]
    · rw [writeGpr_eq_setGpr hHalves.zero hr, CPUState.setGpr_gpr,
        Function.update_of_ne (hHalves.base hr _)]
  have hSecond := outcome_load host (pc + 4#32) (writeGpr_gpr_zero s r _)
    (hHalves.isLoad (otherSide side))
    fun h : b = .strict => (addOverflows_congr hBase).not.mpr (hAdd h (otherSide side))
  rw [hHalves.loadRt, effectiveAddr, hBase, ← effectiveAddr, hHalves.loadAddr] at hSecond
  simp only [runWords, hFirst, hSecond]
  by_cases hr : r = 0
  · rw [hr, writeGpr_zero (writeGpr_gpr_zero s 0 _), writeGpr_zero hHalves.zero,
      writeGpr_zero hHalves.zero]
  · rw [writeGpr_eq_setGpr (writeGpr_gpr_zero s r _) hr, writeGpr_eq_setGpr hHalves.zero hr,
      writeGpr_eq_setGpr hHalves.zero hr, CPUState.setGpr_gpr, Function.update_self,
      CPUState.setGpr_mem, mergeLoad_pair, CPUState.setGpr, CPUState.setGpr, CPUState.setGpr,
      Function.update_idem]

/-- Both halves of a store, in either order, as the backend writes them. -/
theorem stores_run (hHalves : Halves load store r q s a)
    (hAdd : b = .strict → ∀ side, ¬ AddOverflows (store side) s) (side : MergeSide)
    (ws : List Word) :
    runWords (byteHost host) b pc (store side :: store (otherSide side) :: ws) s =
      runWords (byteHost host) b (pc + 4#32 + 4#32) ws { s with
        mem := mergeStore (otherSide side) b.style
          (mergeStore side b.style s.mem (halfAddr a side) (s.gpr q))
          (halfAddr a (otherSide side)) (s.gpr q) } := by
  have hFirst := outcome_store host pc (hHalves.isStore side)
    fun h : b = .strict => hAdd h side
  rw [hHalves.storeRt, hHalves.storeAddr] at hFirst
  have hSecond := outcome_store host (pc + 4#32)
    (s := { s with mem := mergeStore side b.style s.mem (halfAddr a side) (s.gpr q) })
    (hHalves.isStore (otherSide side))
    fun h : b = .strict => (addOverflows_congr rfl).not.mp (hAdd h (otherSide side))
  rw [hHalves.storeRt, (hHalves.setMem _).storeAddr] at hSecond
  simp only [runWords, hFirst, hSecond]

end PairRuns

/-- Where the BIOS code does its part: no address overflows as a signed sum, and
both store halves hide what their masks confuse. -/
structure StrictMoves (load store : MergeSide → Word) (q : RegIndex) (s : CPUState GuestBytes)
    (a : Word) : Prop where
  loadAdd : ∀ side, ¬ AddOverflows (load side) s
  storeAdd : ∀ side, ¬ AddOverflows (store side) s
  hidden : ∀ side, BytesHidden side s.mem (halfAddr a side) (s.gpr q)

/-- The unaligned accesses of a backend: the halves together load and store the
word at `a` in either order, what is stored is read back, and each half does what
it does on the other backends. -/
structure MovesWord (host : Host GuestBytes) (b : Backend) (pc : Word)
    (load store : MergeSide → Word) (r q : RegIndex) (s : CPUState GuestBytes) (a : Word) :
    Prop where
  loads : ∀ side, runWords (byteHost host) b pc [load side, load (otherSide side)] s =
    .done (writeGpr s r (loadWord s.mem a))
  stores : ∀ side, runWords (byteHost host) b pc [store side, store (otherSide side)] s =
    .done { s with mem := storeWord s.mem a (s.gpr q) }
  roundTrip : ∀ side side', runWords (byteHost host) b pc
      [store side, store (otherSide side), load side', load (otherSide side')] s =
    .done (writeGpr { s with mem := storeWord s.mem a (s.gpr q) } r (s.gpr q))
  loadAgrees : ∀ b' ≠ .strict, ∀ side, SameOutcome (outcome (byteHost host) pc (load side) s b)
    (outcome (byteHost host) pc (load side) s b')
  storeAgrees : ∀ b' ≠ .strict, ∀ side, SameOutcome (outcome (byteHost host) pc (store side) s b)
    (outcome (byteHost host) pc (store side) s b')

section Moves

variable {host : Host GuestBytes} {b : Backend} {pc a : Word} {load store : MergeSide → Word}
  {r q : RegIndex} {s : CPUState GuestBytes}

theorem style_of_ne_strict (h : b ≠ .strict) : b.style = .table := by
  cases b
  · exact absurd rfl h
  · rfl
  · rfl

theorem mergeStore_style {side : MergeSide} {x v : Word}
    (hHidden : b = .strict → BytesHidden side s.mem x v) :
    mergeStore side b.style s.mem x v = mergeStore side .table s.mem x v := by
  by_cases hStrict : b = .strict
  · rw [hStrict]
    exact (mergeStore_shifts_iff side s.mem x v).mpr (hHidden hStrict)
  · rw [style_of_ne_strict hStrict]

theorem mergeStore_pair_style (side : MergeSide)
    (hHidden : b = .strict → ∀ side, BytesHidden side s.mem (halfAddr a side) (s.gpr q)) :
    mergeStore (otherSide side) b.style (mergeStore side b.style s.mem (halfAddr a side) (s.gpr q))
      (halfAddr a (otherSide side)) (s.gpr q) = storeWord s.mem a (s.gpr q) := by
  by_cases hStrict : b = .strict
  · rw [hStrict]
    exact mergeStore_pair_shifts_iff.mpr
      ⟨hHidden hStrict side, hHidden hStrict (otherSide side)⟩
  · rw [style_of_ne_strict hStrict]
    exact mergeStore_pair s.mem a (s.gpr q) side

theorem movesWord_of_strictMoves (hHalves : Halves load store r q s a)
    (h : b = .strict → StrictMoves load store q s a) :
    MovesWord host b pc load store r q s a := by
  have hLoadAdd := fun hb => (h hb).loadAdd
  have hStoreAdd := fun hb => (h hb).storeAdd
  have hStored := fun side => mergeStore_pair_style side fun hb => (h hb).hidden
  constructor
  case loads => exact loads_run host pc hHalves hLoadAdd
  case stores =>
    intro side
    rw [stores_run hHalves hStoreAdd, hStored, runWords]
  case roundTrip =>
    intro side side'
    have hLoaded := loads_run host (pc + 4#32 + 4#32)
      (hHalves.setMem (storeWord s.mem a (s.gpr q))) hLoadAdd side'
    rw [loadWord_storeWord (by decide)] at hLoaded
    rw [stores_run hHalves hStoreAdd, hStored, hLoaded]
  case loadAgrees =>
    intro b' hb' side
    rw [outcome_load host pc hHalves.zero (hHalves.isLoad side) fun hb => hLoadAdd hb side,
      outcome_load host pc hHalves.zero (hHalves.isLoad side) fun hb => absurd hb hb']
    exact ⟨_, _, rfl, rfl, SameMachine.refl _⟩
  case storeAgrees =>
    intro b' hb' side
    rw [outcome_store host pc (hHalves.isStore side) fun hb => hStoreAdd hb side,
      outcome_store host pc (hHalves.isStore side) fun hb => absurd hb hb', hHalves.storeRt,
      hHalves.storeAddr, style_of_ne_strict hb', mergeStore_style fun hb => (h hb).hidden side]
    exact ⟨_, _, rfl, rfl, SameMachine.refl _⟩

theorem runWords_overflow {w : Word} (hAdd : AddOverflows w s) (ws : List Word) :
    runWords (byteHost host) .strict pc (w :: ws) s = .undefined := by
  rw [runWords, outcome, strict_addOverflows hAdd]

theorem strictMoves_of_movesWord (hHalves : Halves load store r q s a)
    (h : MovesWord host .strict pc load store r q s a) : StrictMoves load store q s a := by
  have hStoreAdd : ∀ side, ¬ AddOverflows (store side) s := by
    intro side hAdd
    have hRun := h.stores side
    rw [runWords_overflow hAdd] at hRun
    cases hRun
  constructor
  case loadAdd =>
    intro side hAdd
    have hRun := h.loads side
    rw [runWords_overflow hAdd] at hRun
    cases hRun
  case storeAdd => exact hStoreAdd
  case hidden =>
    intro side
    have hRun := h.stores side
    rw [stores_run hHalves fun _ => hStoreAdd, runWords, Outcome.done.injEq] at hRun
    have hMem := congrArg CPUState.mem hRun
    exact (mergeStore_pair_shifts_iff.mp hMem).1

end Moves

/-- The byte tables always move the word at `a`, and the BIOS code does exactly
when its addresses are defined and its store masks hide where they differ. -/
theorem movesWord_iff (host : Host GuestBytes) (b : Backend) (pc a : Word)
    (load store : MergeSide → Word) (r q : RegIndex) (s : CPUState GuestBytes)
    (hHalves : Halves load store r q s a) :
    MovesWord host b pc load store r q s a ↔ (b = .strict → StrictMoves load store q s a) := by
  constructor
  · rintro h rfl
    exact strictMoves_of_movesWord hHalves h
  · exact movesWord_of_strictMoves hHalves

/-- Plain bytes behind the callbacks and nothing else. -/
def bytesOnly : Host GuestBytes where
  bus := byteBus
  gteCommand := fun _ g => g
  hostFn := fun _ a _ => a
  syscall := fun _ s => (false, s)
  raise := fun _ _ _ s => s

/-- Register 4 points to an unaligned word. -/
def pointerState (m : GuestBytes) : CPUState GuestBytes where
  gpr := fun r => if r = 4 then 0x1001#32 else 0
  pc := 0
  hi := 0
  lo := 0
  cop0 := fun _ => 0
  gteData := fun _ => 0
  gteCtrl := fun _ => 0
  mem := m

/-- `lwl $2, 3($4)` and `lwr $2, 0($4)`. -/
def loadHalves : MergeSide → Word
  | .left => 0x88820003#32
  | .right => 0x98820000#32

/-- `swl $3, 3($4)` and `swr $3, 0($4)`. -/
def storeHalves : MergeSide → Word
  | .left => 0xA8830003#32
  | .right => 0xB8830000#32

theorem halves_pointerState (m : GuestBytes) :
    Halves loadHalves storeHalves 2 3 (pointerState m) 0x1001#32 where
  zero := rfl
  isLoad := by rintro ⟨⟩ <;> decide
  isStore := by rintro ⟨⟩ <;> decide
  loadRt := by rintro ⟨⟩ <;> decide
  storeRt := by rintro ⟨⟩ <;> decide
  loadAddr := by rintro ⟨⟩ <;> rfl
  storeAddr := by rintro ⟨⟩ <;> rfl
  base := by
    rintro - ⟨⟩ <;> decide

theorem movesWord_zeroBytes :
    MovesWord bytesOnly .strict 0 loadHalves storeHalves 2 3 (pointerState fun _ => 0) 0x1001#32 ↔
      (Backend.strict = .strict →
        StrictMoves loadHalves storeHalves 3 (pointerState fun _ => 0) 0x1001#32) :=
  movesWord_iff bytesOnly .strict 0 0x1001#32 loadHalves storeHalves 2 3 (pointerState fun _ => 0)
    (halves_pointerState _)

/-- The BIOS code's `swl` across a word boundary clears the byte behind it. -/
theorem swl_clears_outside :
    ¬ ∀ (host : Host GuestBytes) (b : Backend) (pc a : Word) (load store : MergeSide → Word)
      (r q : RegIndex) (s : CPUState GuestBytes), Halves load store r q s a →
        MovesWord host b pc load store r q s a := by
  intro hAll
  have hMoves := hAll bytesOnly .strict 0 0x1001#32 loadHalves storeHalves 2 3
    (pointerState fun x => if x = 0x1007#32 then 0xFF#8 else 0) (halves_pointerState _)
  have hStored := Outcome.done.inj (hMoves.stores .left)
  have hByte := congrFun (congrArg CPUState.mem hStored) 0x1007#32
  revert hByte
  decide

end RecompStudio
