import RecompStudio.Runtime.DmaTransfers

/-!
An ordering table is written downwards by channel 6 and walked by channel 2. The
writer masks its links to 24 bits and the walker masks its addresses to main
memory, and they agree on every entry, below address zero as well.
-/

namespace RecompStudio.Runtime

/-- The words of main memory. -/
@[grind =] def ramWords : Nat := 2 ^ 19

/-- The address of word `k`, around the end of main memory. -/
@[grind =] def wordAt (k : Nat) : Word := BitVec.ofNat 32 (4 * (k % ramWords))

theorem toNat_wordAt (k : Nat) : (wordAt k).toNat = 4 * (k % ramWords) := by
  have := Nat.mod_lt k (show 0 < ramWords by decide)
  unfold wordAt
  rw [BitVec.toNat_ofNat, Nat.mod_eq_of_lt]
  unfold ramWords at *
  omega

/-- Word addresses are equal only a whole turn apart. -/
theorem wordAt_inj {k l : Nat} (hEq : wordAt k = wordAt l) : k % ramWords = l % ramWords := by
  have hNat := congrArg BitVec.toNat hEq
  rw [toNat_wordAt, toNat_wordAt] at hNat
  omega

theorem wordAt_ne {k l : Nat} (hLess : k < l) (hNear : l < k + ramWords) :
    wordAt k ≠ wordAt l := by
  intro hEq
  have hMod := (Nat.modEq_iff_dvd' hLess.le).mp (wordAt_inj hEq)
  exact Nat.not_dvd_of_pos_of_lt (by omega) (by omega) hMod

/-- The mask of the walker leaves the place of a word in main memory. -/
theorem and_ramMask (m : Nat) : BitVec.ofNat 32 (4 * m) &&& 0x1FFFFC#32 = wordAt m := by
  apply BitVec.eq_of_toNat_eq
  have hMask : (0x1FFFFC#32).toNat = (2 ^ 19 - 1) <<< 2 := by decide
  have hShift : 4 * m = m <<< 2 := by
    rw [Nat.shiftLeft_eq, Nat.mul_comm]
  rw [toNat_wordAt, BitVec.toNat_and, hMask, BitVec.toNat_ofNat]
  have hWrap : 4 * m % 2 ^ 32 = (m % 2 ^ 30) <<< 2 := by
    rw [Nat.shiftLeft_eq]
    omega
  rw [hWrap, ← Nat.shiftLeft_and_distrib, Nat.and_two_pow_sub_one_eq_mod, Nat.shiftLeft_eq]
  unfold ramWords
  omega

/-- Every address of a transfer is a word of main memory. -/
theorem exists_wordAt (madr : Word) : ∃ k, ramWords ≤ k ∧ madr &&& 0x1FFFFC = wordAt k := by
  have hAligned : madr &&& 0x1FFFFC#32 =
      BitVec.ofNat 32 (4 * (madr.toNat / 4)) &&& 0x1FFFFC#32 := by
    apply BitVec.eq_of_toNat_eq
    have hMask : (0x1FFFFC#32).toNat = (2 ^ 19 - 1) <<< 2 := by decide
    have hSplit : ∀ x y : Nat, x / 4 = y / 4 →
        x &&& (2 ^ 19 - 1) <<< 2 = y &&& (2 ^ 19 - 1) <<< 2 := by
      intro x y hDiv
      apply Nat.eq_of_testBit_eq
      intro i
      rw [Nat.testBit_and, Nat.testBit_and, Nat.testBit_shiftLeft]
      by_cases hi : 2 ≤ i
      · have hBit : ∀ z : Nat, z.testBit i = (z / 4).testBit (i - 2) := by
          intro z
          rw [show (4 : Nat) = 2 ^ 2 from rfl, Nat.testBit_div_two_pow, Nat.sub_add_cancel hi]
        rw [hBit x, hBit y, hDiv]
      · simp [hi]
    rw [BitVec.toNat_and, BitVec.toNat_and, hMask]
    apply hSplit
    rw [BitVec.toNat_ofNat]
    have := madr.isLt
    omega
  refine ⟨madr.toNat / 4 + ramWords, Nat.le_add_left _ _, hAligned.trans ?_⟩
  rw [and_ramMask, wordAt, wordAt, Nat.add_mod_right]

theorem wordAt_sub {k : Nat} (hPos : 0 < k) :
    wordAt k - 4 = if k % ramWords = 0 then 0xFFFFFFFC else wordAt (k - 1) := by
  have hNat := toNat_wordAt k
  split
  next hZero =>
    apply BitVec.eq_of_toNat_eq
    rw [hZero] at hNat
    rw [BitVec.toNat_sub, hNat]
    decide
  next hZero =>
    have hPred : (k - 1) % ramWords = k % ramWords - 1 := by
      unfold ramWords at *
      omega
    have hLess := Nat.mod_lt k (show 0 < ramWords by decide)
    apply BitVec.eq_of_toNat_eq
    rw [toNat_wordAt, hPred, BitVec.toNat_sub, hNat]
    unfold ramWords at *
    have hFour : (4 : Word).toNat = 4 := rfl
    rw [hFour]
    omega

/-- The word below, as the writer goes down. -/
theorem wordAt_below {k : Nat} (hPos : 0 < k) : (wordAt k - 4) &&& 0x1FFFFC = wordAt (k - 1) := by
  rw [wordAt_sub hPos]
  split
  next hZero =>
    have hPred : (k - 1) % ramWords = ramWords - 1 := by
      unfold ramWords at *
      omega
    rw [wordAt, hPred]
    decide
  next =>
    have hSame : wordAt (k - 1) = BitVec.ofNat 32 (4 * ((k - 1) % ramWords)) := rfl
    rw [hSame]
    refine (and_ramMask _).trans ?_
    rw [wordAt, Nat.mod_mod]

/-- The link of an entry that is not the last one. -/
@[grind =] def nextLink (k : Nat) : Word := (wordAt k - 4) &&& 0xFFFFFF

theorem nextLink_eq {k : Nat} (hPos : 0 < k) :
    nextLink k = if k % ramWords = 0 then 0xFFFFFC else wordAt (k - 1) := by
  rw [nextLink, wordAt_sub hPos]
  split
  · decide
  · have hLess := Nat.mod_lt (k - 1) (show 0 < ramWords by decide)
    apply BitVec.eq_of_toNat_eq
    have hMask : (0xFFFFFF : Word).toNat = 2 ^ 24 - 1 := by decide
    rw [BitVec.toNat_and, hMask, Nat.and_two_pow_sub_one_eq_mod, toNat_wordAt, Nat.mod_eq_of_lt]
    unfold ramWords at *
    omega

/-- A link is a header without words that does not end the list, and the walker
finds the entry below through it. -/
theorem nextLink_header {k : Nat} (hPos : 0 < k) :
    (nextLink k).extractLsb' 24 8 = 0#8 ∧ nextLink k &&& 0xFFFFFF ≠ 0xFFFFFF ∧
      nextLink k &&& 0xFFFFFF &&& 0x1FFFFC = wordAt (k - 1) := by
  have hMask : (0xFFFFFF : Word).toNat = 2 ^ 24 - 1 := by decide
  have hSmall : ∀ w : Word, w &&& 0xFFFFFF &&& 0xFFFFFF = w &&& 0xFFFFFF := by
    intro w
    rw [BitVec.and_assoc, BitVec.and_self]
  have hLow : ∀ w : Word, w &&& 0xFFFFFF &&& 0x1FFFFC = w &&& 0x1FFFFC := by
    intro w
    rw [BitVec.and_assoc]
    rfl
  refine ⟨?_, ?_, ?_⟩
  · rw [nextLink, BitVec.extractLsb'_and]
    have hHigh : (0xFFFFFF : Word).extractLsb' 24 8 = 0#8 := by decide
    rw [hHigh, BitVec.and_zero]
  · rw [nextLink, hSmall, ← nextLink, nextLink_eq hPos]
    split
    · decide
    · intro hEnd
      have hNat := congrArg BitVec.toNat hEnd
      rw [toNat_wordAt, hMask] at hNat
      omega
  · rw [nextLink, hSmall, hLow, wordAt_below hPos]

theorem otcLink_wordAt (left k : Nat) :
    otcLink left (wordAt k) = if left = 1 then 0xFFFFFF else nextLink k := rfl

section Walk

variable {γ : Type} {G : GpuDevice γ} {ram : Word → Word}

/-- The walker follows links to a word further down. -/
theorem walkList_links {k count : Nat} (fuel : Nat) (g : γ) (words : Nat)
    (hLinks : ∀ j < count, ram (wordAt (k + j + 1)) = nextLink (k + j + 1)) :
    walkList G ram (fuel + count) (wordAt (k + count)) g words =
      walkList G ram fuel (wordAt k) g (words + count) := by
  induction count generalizing words with
  | zero => rfl
  | succ count ih =>
      obtain ⟨hCount, hEnd, hNext⟩ := nextLink_header (Nat.succ_pos (k + count))
      have hHead := hLinks count (Nat.lt_succ_self count)
      have hWords : words + 1 + 0 + count = words + (count + 1) := by omega
      rw [show fuel + (count + 1) = fuel + count + 1 by omega, walkList]
      simp only [← Nat.add_assoc, hHead, if_neg hEnd, hCount, hNext]
      refine (ih _ fun j hj => hLinks j (Nat.lt_succ_of_lt hj)).trans ?_
      rw [show (0#8).toNat = 0 from rfl, hWords]
      rfl

/-- The end marker ends the walk. -/
theorem walkList_end {k : Nat} (fuel : Nat) (g : γ) (words : Nat)
    (hEnd : ram (wordAt k) = 0xFFFFFF) :
    walkList G ram (fuel + 2) (wordAt k) g words = ⟨g, ram, 0xFFFFFF, words + 1⟩ := by
  rw [walkList]
  simp only [hEnd]
  rfl

end Walk

section Writer

variable {ctx : StoreContext} {ram : Word → Word}

/-- The link of entry `k` of a table whose last entry is behind word `b`. -/
@[grind =] def entryLink (b k : Nat) : Word := if k = b + 1 then 0xFFFFFF else nextLink k

theorem otcLink_entry (b left : Nat) :
    otcLink (left + 1) (wordAt (b + left + 1)) = entryLink b (b + left + 1) := by
  rw [otcLink_wordAt, entryLink]
  have hLast : (left + 1 = 1) = (b + left + 1 = b + 1) := by
    apply propext
    omega
  simp only [hLast]

theorem otcLoop_succ (b left : Nat) :
    otcLoop ctx (left + 1) (wordAt (b + left + 1)) ram =
      otcLoop ctx left (wordAt (b + left))
        (ctx.storeWord ram (wordAt (b + left + 1)) (entryLink b (b + left + 1))) := by
  rw [otcLoop, wordAt_below (Nat.succ_pos _), otcLink_entry]
  rfl

theorem storeWord_ne {phys a : Word} (hNe : a ≠ phys) (val : Word) :
    ctx.storeWord ram phys val a = ram a := by
  unfold StoreContext.storeWord
  split
  · rfl
  · exact Function.update_of_ne hNe _ _

theorem otcLoop_outside {b left : Nat} {a : Word}
    (hOutside : ∀ k, b < k → k ≤ b + left → a ≠ wordAt k) :
    otcLoop ctx left (wordAt (b + left)) ram a = ram a := by
  induction left generalizing ram with
  | zero => rfl
  | succ left ih =>
      rw [← Nat.add_assoc, otcLoop_succ, ih fun k hLow hHigh => hOutside k hLow (by omega)]
      exact storeWord_ne (hOutside _ (by omega) (by omega)) _

/-- What the writer leaves in an entry, if the stores are judged by their
addresses alone. -/
theorem otcLoop_entry {skips : Word → Bool}
    (hDrops : ∀ ram phys val, ctx.drops ram phys val = skips phys) {b left k : Nat}
    (hLeft : left < ramWords) (hLow : b < k) (hHigh : k ≤ b + left) :
    otcLoop ctx left (wordAt (b + left)) ram (wordAt k) =
      if skips (wordAt k) then ram (wordAt k) else entryLink b k := by
  induction left generalizing ram with
  | zero => omega
  | succ left ih =>
      rw [← Nat.add_assoc, otcLoop_succ]
      by_cases hFirst : k = b + left + 1
      · subst hFirst
        rw [otcLoop_outside fun j hj hj' => (wordAt_ne (by omega) (by omega)).symm,
          StoreContext.storeWord, hDrops]
        split
        · rfl
        · exact Function.update_self _ _ _
      · rw [ih (by omega) (by omega), storeWord_ne (wordAt_ne (by omega) (by omega))]

theorem wordAt_congr {k l : Nat} (hMod : k % ramWords = l % ramWords) : wordAt k = wordAt l := by
  rw [wordAt, wordAt, hMod]

/-- A link `0x2000` stands in the word `0x2004`. -/
theorem wordAt_of_nextLink {k : Nat} (hPos : 0 < k) (hLink : nextLink k = 0x2000) :
    wordAt k = wordAt 0x801 := by
  rw [nextLink_eq hPos] at hLink
  split at hLink
  · exact absurd hLink (by decide)
  · have hMod := wordAt_inj (hLink.trans (show (0x2000 : Word) = wordAt 0x800 by decide))
    apply wordAt_congr
    unfold ramWords at *
    omega

/-- Behind the first entry a table has no card event that is armed again: the
word above its link is a link as well. -/
theorem otcLoop_entry_card (hSkips : ∀ phys, ctx.skips phys = false) {b left k : Nat}
    (hLeft : left < ramWords) (hLow : b < k) (hHigh : k ≤ b + left)
    (hFirst : wordAt (b + left) = wordAt 0x801 → 2 ≤ left →
      StoreContext.cardSpecs.contains (ram (wordAt 0x802)) = false) :
    otcLoop ctx left (wordAt (b + left)) ram (wordAt k) = entryLink b k := by
  induction left generalizing ram with
  | zero => omega
  | succ left ih =>
      rw [← Nat.add_assoc, otcLoop_succ]
      have hStored : ctx.storeWord ram (wordAt (b + left + 1)) (entryLink b (b + left + 1)) =
          Function.update ram (wordAt (b + left + 1)) (entryLink b (b + left + 1)) := by
        rw [StoreContext.storeWord, if_neg]
        intro hDrops
        rw [StoreContext.drops, hSkips, Bool.false_or, StoreContext.rearmsCardEvent] at hDrops
        simp only [Bool.and_eq_true, beq_iff_eq] at hDrops
        obtain ⟨-, ⟨⟨⟨⟨⟨⟨hLink, -⟩, -⟩, -⟩, -⟩, -⟩, hSpec⟩⟩ := hDrops
        rw [entryLink] at hLink
        split at hLink
        · exact absurd hLink (by decide)
        · have hAt := wordAt_of_nextLink (Nat.succ_pos _) hLink
          rw [hAt, show wordAt 0x801 + 4 = wordAt 0x802 by decide, hFirst hAt (by omega)] at hSpec
          cases hSpec
      rw [hStored]
      by_cases hLast : k = b + left + 1
      · subst hLast
        rw [otcLoop_outside fun j hj hj' => (wordAt_ne (by omega) (by omega)).symm,
          Function.update_self]
      · refine ih (by omega) (by omega) fun hAt hTwo => ?_
        have hMod := wordAt_inj hAt
        have hAbove : wordAt (b + left + 1) = wordAt 0x802 := by
          apply wordAt_congr
          unfold ramWords at *
          omega
        have hLink : entryLink b (b + left + 1) = wordAt 0x801 := by
          rw [entryLink, if_neg (by omega), nextLink_eq (Nat.succ_pos _), if_neg, ← hAt]
          · rfl
          · unfold ramWords at *
            omega
        rw [← hAbove, Function.update_self, hLink]
        decide

end Writer

/-- The entries of a table, as the writer goes down from its base. -/
def otcEntry (base : Word) : Nat → Word
  | 0 => base
  | i + 1 => (otcEntry base i - 4) &&& 0x1FFFFC

/-- No word of the table is one that `psx_write_word_raw` leaves out. -/
def OtcKept (ctx : StoreContext) (c : DmaChannel) : Prop :=
  (∀ i < c.fullBlock, ctx.skips (otcEntry c.base i) = false) ∧
    ¬ (ctx.cardHelper = true ∧ c.base = 0x2004 ∧ 2 ≤ c.fullBlock)

instance (ctx : StoreContext) (c : DmaChannel) : Decidable (OtcKept ctx c) :=
  inferInstanceAs (Decidable (_ ∧ _))

/-- A GPU that notes the words for GP0. -/
def notingGpu : GpuDevice (List (Word × Word)) where
  readGpuread g := (g, 0)
  writeGp0 g source word := g ++ [(source, word)]

/-- The memory behind channel 6, and the walk of channel 2 through it. -/
def otcWalk (ctx ctx' : StoreContext) (otc list : DmaChannel) (ram : Word → Word) :
    Moved (List (Word × Word)) :=
  executeCh2Gpu notingGpu (executeCh6Otc ctx otc ram) ctx' list []

/-- The walk visits the entries of the table and nothing else, and the rest of
memory is as it was. -/
structure OtcWalked (ctx ctx' : StoreContext) (otc list : DmaChannel)
    (ram : Word → Word) : Prop where
  headers : (otcWalk ctx ctx' otc list ram).words = otc.fullBlock
  silent : (otcWalk ctx ctx' otc list ram).device = []
  ended : (otcWalk ctx ctx' otc list ram).madr = 0xFFFFFF
  outside : ∀ a, (∀ i < otc.fullBlock, a ≠ otcEntry otc.base i) →
    executeCh6Otc ctx otc ram a = ram a

theorem otcEntry_wordAt {k i : Nat} (hLe : i ≤ k) : otcEntry (wordAt k) i = wordAt (k - i) := by
  induction i with
  | zero => rfl
  | succ i ih =>
      rw [otcEntry, ih (by omega), wordAt_below (by omega)]
      rfl

theorem fullBlock_pos (c : DmaChannel) : 0 < c.fullBlock := by
  unfold DmaChannel.fullBlock
  split <;> omega

theorem fullBlock_le (c : DmaChannel) : c.fullBlock ≤ 0x10000 := by
  have := (c.bcr.extractLsb' 0 16).isLt
  unfold DmaChannel.fullBlock DmaChannel.blockSize
  split <;> omega

/-- The words of a table: its base is word `b + fullBlock`. -/
theorem exists_base (c : DmaChannel) :
    ∃ b, c.base = wordAt (b + c.fullBlock) ∧
      ∀ i < c.fullBlock, otcEntry c.base i = wordAt (b + c.fullBlock - i) := by
  obtain ⟨k, hk, hBase⟩ := exists_wordAt c.madr
  have hLe := fullBlock_le c
  have hWords : 0x10000 ≤ ramWords := by decide
  refine ⟨k - c.fullBlock, ?_, fun i hi => ?_⟩
  · rw [Nat.sub_add_cancel (by omega)]
    exact hBase
  · rw [Nat.sub_add_cancel (by omega)]
    exact (congrArg (otcEntry · i) hBase).trans (otcEntry_wordAt (by omega))

section Pair

variable {ctx ctx' : StoreContext} {otc list : DmaChannel} {ram : Word → Word}

/-- Channel 2 in its linked-list mode. -/
structure DmaChannel.IsList (c : DmaChannel) : Prop where
  fromRam : c.fromRam = true
  syncMode : c.syncMode = 2

theorem otcWalk_eq (hList : list.IsList) (hMadr : list.madr = otc.madr) :
    otcWalk ctx ctx' otc list ram =
      walkList notingGpu (executeCh6Otc ctx otc ram) (maxNodes + 1) otc.base [] 0 := by
  have hBase : list.base = otc.base := by
    unfold DmaChannel.base
    rw [hMadr]
  rw [otcWalk, executeCh2Gpu, hList.fromRam, hList.syncMode, hBase]
  rfl

theorem otc_outside {a : Word} (hOutside : ∀ i < otc.fullBlock, a ≠ otcEntry otc.base i) :
    executeCh6Otc ctx otc ram a = ram a := by
  obtain ⟨b, hBase, hEntry⟩ := exists_base otc
  rw [executeCh6Otc, hBase]
  refine otcLoop_outside fun k hLow hHigh => ?_
  have hNe := hOutside (b + otc.fullBlock - k) (by omega)
  rw [hEntry _ (by omega)] at hNe
  rwa [show b + otc.fullBlock - (b + otc.fullBlock - k) = k by omega] at hNe

/-- A table that is written as a whole is walked as a whole. -/
theorem otcWalked_of_links (hList : list.IsList) (hMadr : list.madr = otc.madr) {b : Nat}
    (hBase : otc.base = wordAt (b + otc.fullBlock))
    (hLinks : ∀ k, b < k → k ≤ b + otc.fullBlock →
      executeCh6Otc ctx otc ram (wordAt k) = entryLink b k) :
    OtcWalked ctx ctx' otc list ram := by
  obtain ⟨left, hLeft⟩ : ∃ left, otc.fullBlock = left + 1 :=
    ⟨otc.fullBlock - 1, (Nat.succ_pred_eq_of_pos (fullBlock_pos otc)).symm⟩
  have hNodes : left ≤ 0xFFFF := by
    have := fullBlock_le otc
    omega
  have hWalk : otcWalk ctx ctx' otc list ram =
      ⟨[], executeCh6Otc ctx otc ram, 0xFFFFFF, left + 1⟩ := by
    have hFuel : maxNodes + 1 = maxNodes - 1 - left + 2 + left := by
      unfold maxNodes
      omega
    have hFirst : b + otc.fullBlock = b + 1 + left := by omega
    rw [otcWalk_eq hList hMadr, hBase, hFuel, hFirst, walkList_links]
    · rw [walkList_end _ _ _ ((hLinks (b + 1) (by omega) (by omega)).trans (if_pos rfl)),
        Nat.zero_add]
    · intro j hj
      refine (hLinks (b + 1 + j + 1) (by omega) (by omega)).trans ?_
      rw [entryLink, if_neg (by omega)]
  refine ⟨?_, ?_, ?_, fun a hOutside => otc_outside hOutside⟩
  · rw [hWalk, hLeft]
  · rw [hWalk]
  · rw [hWalk]

theorem skips_of_cardHelper (hHelper : ctx.cardHelper = true) (phys : Word) :
    ctx.skips phys = false := by
  have hPc : ctx.storePc = 0xBFC117E4 := by
    simpa [StoreContext.cardHelper] using (Bool.and_eq_true_iff.mp hHelper).2
  have hDelay : StoreContext.delayStores.contains (0xBFC117E4 : Word) = false := by decide
  have hMirror : ((0xBFC117E4 : Word) == 0xBFC10A00) = false := by decide
  rw [StoreContext.skips, hPc, hDelay, hMirror, Bool.and_false, Bool.and_false, Bool.or_false,
    Bool.and_false]

theorem drops_of_not_cardHelper (hHelper : ¬ ctx.cardHelper = true) (ram : Word → Word)
    (phys val : Word) : ctx.drops ram phys val = ctx.skips phys := by
  rw [StoreContext.drops, Bool.eq_false_of_not_eq_true hHelper, Bool.false_and, Bool.or_false]

theorem otcWalked_of_kept (hList : list.IsList) (hMadr : list.madr = otc.madr)
    (hKept : OtcKept ctx otc) : OtcWalked ctx ctx' otc list ram := by
  obtain ⟨b, hBase, hEntry⟩ := exists_base otc
  have hLess : otc.fullBlock < ramWords := (fullBlock_le otc).trans_lt (by decide)
  refine otcWalked_of_links hList hMadr hBase fun k hLow hHigh => ?_
  rw [executeCh6Otc, hBase]
  by_cases hHelper : ctx.cardHelper = true
  · refine otcLoop_entry_card (skips_of_cardHelper hHelper) hLess hLow hHigh fun hAt hTwo => ?_
    exact absurd ⟨hHelper, hBase.trans hAt, hTwo⟩ hKept.2
  · have hSkips := hKept.1 (b + otc.fullBlock - k) (by omega)
    rw [hEntry _ (by omega),
      show b + otc.fullBlock - (b + otc.fullBlock - k) = k by omega] at hSkips
    rw [otcLoop_entry (drops_of_not_cardHelper hHelper) hLess hLow hHigh, hSkips]
    rfl

/-- A header with a word of data that ends the list. -/
def dataEnd : Word := 0x1FFFFFF

theorem walkList_data {k : Nat} (fuel words : Nat) (hData : ram (wordAt k) = dataEnd) :
    (walkList notingGpu ram (fuel + 1) (wordAt k) [] words).device ≠ [] := by
  have hCount : (dataEnd.extractLsb' 24 8).toNat = 1 := by decide
  have hEnd : dataEnd &&& 0xFFFFFF = 0xFFFFFF := by decide
  rw [walkList]
  simp only [hData, hCount, if_pos hEnd]
  exact List.append_ne_nil_of_right_ne_nil _ (List.cons_ne_nil _ _)

/-- Where an entry is left out, the walk goes into what was in memory before. -/
theorem not_otcWalked_of_skips (hList : list.IsList) (hMadr : list.madr = otc.madr)
    (hHelper : ¬ ctx.cardHelper = true) {i : Nat} (hi : i < otc.fullBlock)
    (hSkips : ctx.skips (otcEntry otc.base i) = true)
    (hFirst : ∀ j < i, ctx.skips (otcEntry otc.base j) = false) :
    ¬ OtcWalked ctx ctx' otc list fun _ => dataEnd := by
  obtain ⟨b, hBase, hEntry⟩ := exists_base otc
  have hLe := fullBlock_le otc
  have hLess : otc.fullBlock < ramWords := hLe.trans_lt (by decide)
  have hWritten : ∀ j ≤ i, executeCh6Otc ctx otc (fun _ => dataEnd)
      (wordAt (b + otc.fullBlock - j)) = if ctx.skips (otcEntry otc.base j) then dataEnd
        else entryLink b (b + otc.fullBlock - j) := by
    intro j hj
    rw [executeCh6Otc, hBase, otcLoop_entry (drops_of_not_cardHelper hHelper) hLess (by omega)
      (by omega), ← hBase, hEntry j (by omega)]
  intro hWalked
  have hSilent := hWalked.silent
  have hFuel : maxNodes + 1 = maxNodes - i + 1 + i := by
    unfold maxNodes
    omega
  have hTop : b + otc.fullBlock = b + otc.fullBlock - i + i := by omega
  rw [otcWalk_eq hList hMadr, hBase, hFuel, hTop, walkList_links] at hSilent
  · refine walkList_data _ _ ?_ hSilent
    rw [hWritten i le_rfl, if_pos hSkips]
  · intro j hj
    have hLink := hWritten (i - 1 - j) (by omega)
    rw [hFirst _ (by omega), if_neg Bool.false_ne_true,
      show b + otc.fullBlock - (i - 1 - j) = b + otc.fullBlock - i + j + 1 by omega] at hLink
    rw [hLink, entryLink, if_neg (by omega)]

/-- A memory in which the first entry of a table would arm a card event again. -/
def cardMemory : Word → Word := fun a =>
  if a = 0x2004 then 0x4000
  else if a = 0x2000 then 0xF0000011
  else if a = 0x200C then 0x2000
  else if a = 0x2008 then 0x4
  else dataEnd

theorem not_otcWalked_of_card (hList : list.IsList) (hMadr : list.madr = otc.madr)
    (hHelper : ctx.cardHelper = true) (hAt : otc.base = 0x2004) (hTwo : 2 ≤ otc.fullBlock) :
    ¬ OtcWalked ctx ctx' otc list cardMemory := by
  have hLe := fullBlock_le otc
  obtain ⟨left, hLeft⟩ : ∃ left, otc.fullBlock = left + 2 := ⟨otc.fullBlock - 2, by omega⟩
  -- the table starts in word 0x801, a turn further up
  obtain ⟨b, hb⟩ : ∃ b, b + left + 2 = 0x801 + ramWords :=
    ⟨0x801 + ramWords - (left + 2), by unfold ramWords; omega⟩
  have hTop : wordAt (b + (left + 1) + 1) = 0x2004 := by
    rw [show b + (left + 1) + 1 = 0x801 + ramWords by omega]
    decide
  have hStored : ctx.storeWord cardMemory 0x2004 (entryLink b (b + (left + 1) + 1)) =
      cardMemory := by
    have hLink : entryLink b (b + (left + 1) + 1) = 0x2000 := by
      rw [entryLink, if_neg (by omega), show b + (left + 1) + 1 = 0x801 + ramWords by omega]
      decide
    have hRearms : StoreContext.rearmsCardEvent cardMemory 0x2004 0x2000 = true := by decide
    rw [hLink, StoreContext.storeWord, StoreContext.drops, hHelper, hRearms]
    simp
  have hWritten : executeCh6Otc ctx otc cardMemory =
      otcLoop ctx (left + 1) (wordAt (b + (left + 1))) cardMemory := by
    rw [executeCh6Otc, hAt, hLeft, ← hTop, otcLoop_succ, hTop, hStored]
  have hKept : ∀ l, (l = 0x801 ∨ l = 0x1000) →
      executeCh6Otc ctx otc cardMemory (wordAt l) = cardMemory (wordAt l) := by
    intro l hl
    rw [hWritten]
    refine otcLoop_outside fun k hLow hHigh hEq => ?_
    have hMod := wordAt_inj hEq
    unfold ramWords at *
    omega
  intro hWalked
  have hSilent := hWalked.silent
  have hFuel : maxNodes + 1 = 0x3FFFF + 1 + 1 := by decide
  have hHead : executeCh6Otc ctx otc cardMemory 0x2004 = 0x4000 :=
    (hKept 0x801 (Or.inl rfl)).trans (by decide)
  have hCount : ((0x4000 : Word).extractLsb' 24 8).toNat = 0 := by decide
  have hEnd : ¬ (0x4000 : Word) &&& 0xFFFFFF = 0xFFFFFF := by decide
  have hNext : (0x4000 : Word) &&& 0xFFFFFF &&& 0x1FFFFC = wordAt 0x1000 := by decide
  rw [otcWalk_eq hList hMadr, hAt, hFuel, walkList] at hSilent
  simp only [hHead, hCount, if_neg hEnd, hNext] at hSilent
  refine walkList_data _ _ ?_ hSilent
  rw [hKept 0x1000 (Or.inr rfl)]
  decide

/-- Writer and walker agree on a table, whatever was in memory before, unless
`psx_write_word_raw` leaves a word of the table out. -/
theorem otcWalked_iff_kept (ctx ctx' : StoreContext) {otc list : DmaChannel} (hList : list.IsList)
    (hMadr : list.madr = otc.madr) :
    (∀ ram, OtcWalked ctx ctx' otc list ram) ↔ OtcKept ctx otc := by
  refine ⟨fun hWalked => ?_, fun hKept ram => otcWalked_of_kept hList hMadr hKept⟩
  by_contra hLeft
  by_cases hHelper : ctx.cardHelper = true
  · have hCard : otc.base = 0x2004 ∧ 2 ≤ otc.fullBlock := by
      by_contra hNot
      exact hLeft ⟨fun i _ => skips_of_cardHelper hHelper _, fun h => hNot h.2⟩
    exact not_otcWalked_of_card hList hMadr hHelper hCard.1 hCard.2 (hWalked cardMemory)
  · have hSome : ∃ i, i < otc.fullBlock ∧ ctx.skips (otcEntry otc.base i) = true := by
      by_contra hNone
      refine hLeft ⟨fun i hi => Bool.eq_false_of_not_eq_true fun hSkips =>
        hNone ⟨i, hi, hSkips⟩, ?_⟩
      exact fun h => hHelper h.1
    obtain ⟨hi, hSkips⟩ := Nat.find_spec hSome
    refine not_otcWalked_of_skips hList hMadr hHelper hi hSkips (fun j hj => ?_) (hWalked _)
    have hBefore := Nat.find_min hSome hj
    exact Bool.eq_false_of_not_eq_true fun hOn => hBefore ⟨hj.trans hi, hOn⟩

end Pair

/-- A channel at an address, with its other registers. -/
def channelAt (madr bcr chcr : Word) : DmaChannel :=
  ⟨madr, bcr, chcr, ⟨false, 0, 0, 0⟩, ⟨false, 0, 0⟩, 0, 0, 0⟩

/-- Four entries from address 4 downwards, around the end of main memory. -/
def wrappingOtc : DmaChannel := channelAt 0x4 4 0x11000002

def wrappingList : DmaChannel := channelAt 0x4 0 0x01000401

theorem wrappingList_isList : wrappingList.IsList := ⟨by decide, by decide⟩

theorem otcWalked_iff_kept_wrapping :
    OtcKept ⟨true, 0x80010000⟩ wrappingOtc ∧
      ∀ ram, OtcWalked ⟨true, 0x80010000⟩ ⟨true, 0x80010010⟩ wrappingOtc wrappingList ram := by
  have hMadr : wrappingList.madr = wrappingOtc.madr := rfl
  have hKept : OtcKept ⟨true, 0x80010000⟩ wrappingOtc := by decide
  exact ⟨hKept, (otcWalked_iff_kept _ _ wrappingList_isList hMadr).mpr hKept⟩

/-- The start of the table at the address of a store of a delay loop: the entry
at address zero is not written. -/
theorem not_otcWalked_wrapping :
    ¬ OtcWalked ⟨true, 0x80012434⟩ ⟨true, 0x80010010⟩ wrappingOtc wrappingList fun _ => dataEnd :=
  not_otcWalked_of_skips (i := 1) wrappingList_isList rfl (by decide) (by decide) (by decide)
    (by decide)

end RecompStudio.Runtime
