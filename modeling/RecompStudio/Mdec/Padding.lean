import RecompStudio.Mdec.Machine

/-!
Streams of encoded blocks with padding words between them: how far each block
reaches, and what the padding at the end does.
-/

namespace RecompStudio.Mdec

open Checked

/-- The index that the words after the first of a block reach. -/
def lastIndex (ac : List Halfword) : Nat := (ac.map fun word => runOf word + 1).sum

/-- A block whose runs stay below index 64. -/
structure EncodedBlock where
  dc : Halfword
  ac : List Halfword
  dc_ne : dc ≠ endOfBlock
  inside : lastIndex ac ≤ 63

/-- The mark that closes a block, unless its last index does. -/
def closing (index : Nat) : List Halfword := if index = 63 then [] else [endOfBlock]

@[grind =] def EncodedBlock.words (b : EncodedBlock) : List Halfword :=
  b.dc :: (b.ac ++ closing (lastIndex b.ac))

@[grind =] def padding (n : Nat) : List Halfword := List.replicate n endOfBlock

/-- Padding, and then blocks with padding behind each. -/
def padded (before : Nat) : List (EncodedBlock × Nat) → List Halfword
  | [] => padding before
  | (b, n) :: l => padding before ++ (b.words ++ padded n l)

/-- The padding at the end of it. -/
def trailing (before : Nat) : List (EncodedBlock × Nat) → Nat
  | [] => before
  | (_, n) :: l => trailing n l

/-- The same blocks without padding. -/
def plain (l : List (EncodedBlock × Nat)) : List Halfword := l.flatMap fun p => p.1.words

def unpad (l : List (EncodedBlock × Nat)) : List (EncodedBlock × Nat) := l.map fun p => (p.1, 0)

theorem padded_unpad (l : List (EncodedBlock × Nat)) : padded 0 (unpad l) = plain l := by
  induction l with
  | nil => rfl
  | cons p l ih =>
      change padding 0 ++ (p.1.words ++ padded 0 (unpad l)) = p.1.words ++ plain l
      rw [ih]
      rfl

theorem trailing_unpad (l : List (EncodedBlock × Nat)) : trailing 0 (unpad l) = 0 := by
  induction l with
  | nil => rfl
  | cons p l ih => exact ih

theorem map_unpad {α : Type} (f : EncodedBlock → α) (l : List (EncodedBlock × Nat)) :
    ((unpad l).map fun p => f p.1) = l.map fun p => f p.1 := by
  rw [unpad, List.map_map]
  rfl

section Block

variable {input : List Halfword} {pos : Nat}

theorem getElem?_of_drop {word : Halfword} {rest : List Halfword}
    (hDrop : input.drop pos = word :: rest) : input[pos]? = some word := by
  rw [← List.head?_drop, hDrop]
  rfl

theorem lt_of_drop {word : Halfword} {rest : List Halfword}
    (hDrop : input.drop pos = word :: rest) :
    pos < input.length := by
  by_contra hOut
  rw [List.drop_eq_nil_of_le (by omega)] at hDrop
  exact absurd hDrop (by simp)

theorem drop_succ_of_drop {word : Halfword} {rest : List Halfword}
    (hDrop : input.drop pos = word :: rest) : input.drop (pos + 1) = rest := by
  rw [← List.tail_drop, hDrop]
  rfl

theorem drop_of_append {first rest : List Halfword} (hDrop : input.drop pos = first ++ rest) :
    input.drop (pos + first.length) = rest := by
  rw [← List.drop_drop, hDrop, List.drop_left]

theorem runOf_endOfBlock : runOf endOfBlock = 63 := by decide

/-- Padding in front of a word that is none. -/
theorem skipPadding_word {n : Nat} {word : Halfword} {rest : List Halfword}
    (hWord : word ≠ endOfBlock)
    (hDrop : input.drop pos = padding n ++ word :: rest) :
    ∃ first, input[pos]? = some first ∧
      skipPadding input input.length first (pos + 1) = some (word, pos + n + 1) := by
  induction n generalizing pos with
  | zero =>
      refine ⟨word, getElem?_of_drop hDrop, ?_⟩
      rw [skipPadding, if_neg fun h => hWord h.1]
  | succ n ih =>
      have hHead : input.drop pos = endOfBlock :: (padding n ++ word :: rest) := hDrop
      have hTail := drop_succ_of_drop hHead
      obtain ⟨first, hFirst, hSkip⟩ := ih hTail
      have hMore : pos + 1 < input.length := by
        by_contra hOut
        rw [List.getElem?_eq_none (by omega)] at hFirst
        exact absurd hFirst (by simp)
      refine ⟨endOfBlock, getElem?_of_drop hHead, ?_⟩
      rw [skipPadding, if_pos ⟨rfl, hMore⟩, hFirst]
      simp only [Option.bind_eq_bind, Option.bind_some]
      rw [hSkip]
      congr 2
      omega

/-- Padding up to the end of the input: the last word of it is taken. -/
theorem skipPadding_end {n : Nat} (hDrop : input.drop pos = padding n) (hPos : pos ≤ input.length) :
    skipPadding input input.length endOfBlock pos = some (endOfBlock, input.length) := by
  induction n generalizing pos with
  | zero =>
      have hEnd : input.length ≤ pos := List.drop_eq_nil_iff.mp hDrop
      rw [skipPadding, if_neg (by omega), le_antisymm hPos hEnd]
  | succ n ih =>
      have hHead : input.drop pos = endOfBlock :: padding n := hDrop
      have hMore := lt_of_drop hHead
      rw [skipPadding, if_pos ⟨rfl, hMore⟩, getElem?_of_drop hHead]
      exact ih (drop_succ_of_drop hHead) hMore

/-- The words after the first of a block, up to its closing: the coefficients do
not depend on where they stand. -/
theorem acLoop_words (quant : Quant) {qscale : Nat} (hScale : qscale < 64) (ac : List Halfword)
    {k : Nat} (hInside : k + lastIndex ac ≤ 63) (block : Block) (hBlock : Small 0x4000 block) :
    ∃ b, Small 0x4000 b ∧ ∀ (input : List Halfword) (pos : Nat) (rest : List Halfword),
      input.drop pos = ac ++ closing (k + lastIndex ac) ++ rest →
      acLoop quant qscale input input.length pos k block =
        some (b, pos + (ac ++ closing (k + lastIndex ac)).length) := by
  induction ac generalizing k block with
  | nil =>
      refine ⟨block, hBlock, fun input pos rest hDrop => ?_⟩
      rw [acLoop]
      by_cases hLast : k = 63
      · rw [if_neg (by omega), closing, if_pos (by simpa [lastIndex] using hLast)]
        rfl
      · have hClose : closing (k + lastIndex []) = [endOfBlock] :=
          if_neg (by simpa [lastIndex] using hLast)
        have hK : k < 63 := by
          simp only [lastIndex, List.map_nil, List.sum_nil] at hInside
          omega
        rw [hClose] at hDrop ⊢
        rw [if_pos ⟨lt_of_drop hDrop, hK⟩, getElem?_of_drop hDrop]
        simp
  | cons word ac ih =>
      have hIndex : k + lastIndex (word :: ac) = k + runOf word + 1 + lastIndex ac := by
        simp only [lastIndex, List.map_cons, List.sum_cons]
        omega
      rw [hIndex] at hInside ⊢
      have hIn : k + runOf word + 1 < 64 := by omega
      have hWord : word ≠ endOfBlock := by
        intro hEnd
        rw [hEnd, runOf_endOfBlock] at hIn
        omega
      obtain ⟨next, hNext, hPlaced⟩ := placeCoefficient_bounded quant hScale hIn word hBlock
      obtain ⟨b, hSmall, hRest⟩ := ih hInside next hPlaced
      refine ⟨b, hSmall, fun input pos rest hDrop => ?_⟩
      have hHead : input.drop pos =
          word :: (ac ++ closing (k + runOf word + 1 + lastIndex ac) ++ rest) := hDrop
      rw [acLoop, if_pos ⟨lt_of_drop hHead, by omega⟩, getElem?_of_drop hHead]
      simp only [Option.bind_eq_bind, Option.bind_some]
      rw [if_neg hWord, if_neg (by omega), hNext]
      simp only [Option.bind_some]
      rw [hRest input (pos + 1) rest (drop_succ_of_drop hHead)]
      simp only [List.cons_append, List.length_cons]
      congr 2
      omega

/-- A block with padding in front of it is decoded alike wherever it stands. -/
theorem decodeRleBlock_words (scale : Scale) (quant : Quant) (b : EncodedBlock) :
    ∃ samples, Samples samples ∧ ∀ (input : List Halfword) (pos n : Nat) (rest : List Halfword),
      input.drop pos = padding n ++ (b.words ++ rest) →
      decodeRleBlock scale quant input input.length pos =
        some (some (samples, pos + n + b.words.length)) := by
  obtain ⟨first, hFirst, hSmall⟩ := firstCoefficient_bounded quant b.dc
  have hInside : 0 + lastIndex b.ac ≤ 63 := by
    rw [Nat.zero_add]
    exact b.inside
  obtain ⟨coefficients, hAll, hAc⟩ := acLoop_words quant (runOf_lt b.dc) b.ac hInside first hSmall
  obtain ⟨samples, hIdct, hSamples⟩ := idctBlock_bounded scale hAll
  rw [Nat.zero_add] at hAc
  refine ⟨samples, hSamples, fun input pos n rest hDrop => ?_⟩
  have hWord : input.drop pos = padding n ++ b.dc :: (b.ac ++ closing (lastIndex b.ac) ++ rest) :=
    hDrop
  obtain ⟨word, hRead, hSkip⟩ := skipPadding_word b.dc_ne hWord
  have hPos : pos < input.length := by
    by_contra hOut
    rw [List.getElem?_eq_none (by omega)] at hRead
    exact absurd hRead (by simp)
  have hTail : input.drop (pos + n + 1) = b.ac ++ closing (lastIndex b.ac) ++ rest := by
    have hLength : pos + n = pos + (padding n).length := by rw [padding, List.length_replicate]
    rw [hLength]
    exact drop_succ_of_drop (drop_of_append hWord)
  rw [decodeRleBlock, if_neg (by omega), hRead]
  simp only [Option.bind_eq_bind, Option.bind_some, hSkip, hFirst, hAc _ _ _ hTail, hIdct]
  simp only [EncodedBlock.words, List.length_cons]
  congr 3
  omega

/-- Padding at the end of the input is decoded as one more block. -/
theorem decodeRleBlock_padding (scale : Scale) (quant : Quant) {n : Nat}
    (hDrop : input.drop pos = padding (n + 1)) :
    ∃ samples, Samples samples ∧
      decodeRleBlock scale quant input input.length pos = some (some (samples, input.length)) := by
  have hHead : input.drop pos = endOfBlock :: padding n := hDrop
  have hPos := lt_of_drop hHead
  obtain ⟨first, hFirst, hSmall⟩ := firstCoefficient_bounded quant endOfBlock
  obtain ⟨samples, hIdct, hSamples⟩ := idctBlock_bounded scale hSmall
  refine ⟨samples, hSamples, ?_⟩
  have hAc : acLoop quant (runOf endOfBlock) input input.length input.length 0 first =
      some (first, input.length) := by
    rw [acLoop, if_neg (by omega)]
  rw [decodeRleBlock, if_neg (by omega), getElem?_of_drop hHead]
  simp only [Option.bind_eq_bind, Option.bind_some,
    skipPadding_end (drop_succ_of_drop hHead) hPos, hFirst, hAc, hIdct]

end Block

/-- The samples of a block under a table, wherever it stands. -/
abbrev Fed := Quant → Block

/-- The blocks that the rest of an input is decoded as, whatever the tables. -/
inductive Feeds (scale : Scale) (input : List Halfword) : Nat → List Fed → Prop
  | done : Feeds scale input input.length []
  | next {pos p : Nat} {fed : Fed} {rest : List Fed}
      (samples : ∀ quant, Samples (fed quant))
      (here : ∀ quant, decodeRleBlock scale quant input input.length pos =
        some (some (fed quant, p)))
      (behind : pos < p) (later : Feeds scale input p rest) : Feeds scale input pos (fed :: rest)

theorem Feeds.le {scale : Scale} {input : List Halfword} {pos : Nat} {feed : List Fed}
    (h : Feeds scale input pos feed) : pos ≤ input.length := by
  induction h with
  | done => exact le_refl _
  | next _ _ hBehind _ ih => omega

/-- The block of its words alone. -/
def EncodedBlock.fed (scale : Scale) (b : EncodedBlock) : Fed := fun quant =>
  match decodeRleBlock scale quant b.words b.words.length 0 with
  | some (some (block, _)) => block
  | _ => fun _ => 0

theorem EncodedBlock.fed_spec (scale : Scale) (b : EncodedBlock) (quant : Quant) :
    Samples (b.fed scale quant) ∧ ∀ (input : List Halfword) (pos n : Nat) (rest : List Halfword),
      input.drop pos = padding n ++ (b.words ++ rest) →
      decodeRleBlock scale quant input input.length pos =
        some (some (b.fed scale quant, pos + n + b.words.length)) := by
  obtain ⟨samples, hSamples, hEverywhere⟩ := decodeRleBlock_words scale quant b
  have hAlone := hEverywhere b.words 0 0 [] (by simp [padding])
  have hFed : b.fed scale quant = samples := by rw [EncodedBlock.fed, hAlone]
  rw [hFed]
  exact ⟨hSamples, hEverywhere⟩

/-- A padded stream feeds its blocks, and padding at its end one block more. -/
theorem feeds_padded (scale : Scale) (l : List (EncodedBlock × Nat)) {before : Nat}
    {input : List Halfword} {pos : Nat} (hPos : pos ≤ input.length)
    (hDrop : input.drop pos = padded before l) :
    ∃ extra, Feeds scale input pos ((l.map fun p => p.1.fed scale) ++ extra) ∧
      extra.length = if trailing before l = 0 then 0 else 1 := by
  induction l generalizing before pos with
  | nil =>
      cases before with
      | zero =>
          have hEnd : pos = input.length :=
            le_antisymm hPos (List.drop_eq_nil_iff.mp hDrop)
          exact ⟨[], hEnd ▸ Feeds.done, rfl⟩
      | succ n =>
          choose fed hSamples hHere using fun quant =>
            decodeRleBlock_padding scale quant hDrop
          exact ⟨[fed], .next hSamples hHere (lt_of_drop hDrop) .done, rfl⟩
  | cons p l ih =>
      obtain ⟨b, n⟩ := p
      have hBlock : input.drop pos = padding before ++ (b.words ++ padded n l) := hDrop
      have hBehind : input.drop (pos + before + b.words.length) = padded n l := by
        have hLength : pos + before = pos + (padding before).length := by
          rw [padding, List.length_replicate]
        rw [hLength]
        exact drop_of_append (drop_of_append hBlock)
      have hIn : pos + before + b.words.length ≤ input.length := by
        have hLengths := congrArg List.length hBlock
        simp only [List.length_drop, List.length_append, padding, List.length_replicate]
          at hLengths
        omega
      obtain ⟨extra, hFeeds, hExtra⟩ := ih hIn hBehind
      refine ⟨extra, .next (fun quant => (b.fed_spec scale quant).1)
        (fun quant => (b.fed_spec scale quant).2 input pos before _ hBlock) ?_ hFeeds, hExtra⟩
      rw [EncodedBlock.words, List.length_cons]
      omega

/-- One luma block for every block. -/
@[grind =] def lumaOf (s : Settings) : List Fed → Option (List Byte)
  | [] => some []
  | fed :: rest => do
      let bytes ← lumaBlock s.format.signed (fed s.yQuant)
      let later ← lumaOf s rest
      some (bytes ++ later)

/-- One macroblock for every complete group of six. -/
@[grind =] def colorOf (s : Settings) : List Fed → Option (List Byte)
  | cr :: cb :: y0 :: y1 :: y2 :: y3 :: rest => do
      let bytes ← colorMacroblock s.format (cr s.uvQuant) (cb s.uvQuant)
        ![y0 s.yQuant, y1 s.yQuant, y2 s.yQuant, y3 s.yQuant]
      let later ← colorOf s rest
      some (bytes ++ later)
  | _ => some []

section Outputs

variable {s : Settings} {input : List Halfword} {pos fuel : Nat} {feed : List Fed}

theorem lumaLoop_feed (hFeeds : Feeds s.scale input pos feed)
    (hFuel : input.length - pos < fuel) :
    lumaLoop s input input.length fuel pos = (lumaOf s feed).map fun bytes =>
        (bytes, input.length) := by
  induction hFeeds generalizing fuel with
  | done =>
      obtain ⟨fuel, rfl⟩ : ∃ k, fuel = k + 1 := ⟨fuel - 1, by omega⟩
      rw [lumaLoop, if_neg (lt_irrefl _)]
      rfl
  | @next pos p fed rest hSamples hHere hBehind hLater ih =>
      obtain ⟨fuel, rfl⟩ : ∃ k, fuel = k + 1 := ⟨fuel - 1, by omega⟩
      have hEnd := hLater.le
      rw [lumaLoop, if_pos (by omega), hHere, lumaOf]
      simp only [Option.bind_eq_bind, Option.bind_some]
      rw [ih (by omega)]
      cases lumaBlock s.format.signed (fed s.yQuant) with
      | none => rfl
      | some bytes => cases lumaOf s rest <;> rfl

theorem lumaOf_eq_some (s : Settings) (feed : List Fed) :
    ∃ bytes, lumaOf s feed = some bytes ∧ bytes.length = 64 * feed.length := by
  induction feed with
  | nil => exact ⟨[], rfl, rfl⟩
  | cons fed rest ih =>
      obtain ⟨bytes, hBytes, hLength⟩ := lumaBlock_bounded s.format.signed (fed s.yQuant)
      obtain ⟨later, hLater, hRest⟩ := ih
      refine ⟨bytes ++ later, by rw [lumaOf, hBytes, hLater]; rfl, ?_⟩
      rw [List.length_append, hLength, hRest, List.length_cons]
      omega

/-- The groups of blocks of a feed. -/
theorem decodeBlocks_feed (quants : List Quant) (hFeeds : Feeds s.scale input pos feed) :
    ∃ p, decodeBlocks s input input.length quants pos =
        some (List.zipWith (fun fed quant => fed quant) feed quants, p) ∧
      Feeds s.scale input p (feed.drop quants.length) ∧ pos ≤ p := by
  induction quants generalizing pos feed with
  | nil => exact ⟨pos, by rw [decodeBlocks, List.zipWith_nil_right], hFeeds, le_refl pos⟩
  | cons quant quants ih =>
      cases hFeeds with
      | done =>
          refine ⟨input.length, ?_, .done, le_refl _⟩
          rw [decodeBlocks, decodeRleBlock_at_end _ _ (le_refl _)]
          rfl
      | @next _ p fed rest hSamples hHere hBehind hLater =>
          obtain ⟨last, hBlocks, hRest, hLast⟩ := ih hLater
          refine ⟨last, ?_, hRest, by omega⟩
          rw [decodeBlocks, hHere]
          simp only [Option.bind_eq_bind, Option.bind_some, hBlocks, List.zipWith_cons_cons]

theorem Feeds.samples (hFeeds : Feeds s.scale input pos feed) :
    ∀ fed ∈ feed, ∀ quant, Samples (fed quant) := by
  induction hFeeds with
  | done => simp
  | next hSamples _ _ _ ih => exact List.forall_mem_cons.mpr ⟨hSamples, ih⟩

theorem colorOf_incomplete (hShort : feed.length < 6) : colorOf s feed = some [] := by
  unfold colorOf
  split
  · simp only [List.length_cons] at hShort
    omega
  · rfl

/-- A feed of six blocks and more. -/
theorem exists_group (hLong : 6 ≤ feed.length) : ∃ cr cb y0 y1 y2 y3 rest,
    feed = cr :: cb :: y0 :: y1 :: y2 :: y3 :: rest := by
  match feed, hLong with
  | cr :: cb :: y0 :: y1 :: y2 :: y3 :: rest, _ => exact ⟨cr, cb, y0, y1, y2, y3, rest, rfl⟩

theorem colorLoop_feed (hFeeds : Feeds s.scale input pos feed)
    (hFuel : input.length - pos < fuel) :
    colorLoop s input input.length fuel pos =
      (colorOf s feed).map fun bytes => (bytes, input.length) := by
  induction fuel generalizing pos feed with
  | zero => omega
  | succ fuel ih =>
      have hPos := hFeeds.le
      obtain ⟨p, hBlocks, hRest, -⟩ := decodeBlocks_feed s.macroblockQuants hFeeds
      by_cases hEmpty : pos = input.length
      · have hNil : feed = [] := by
          cases hFeeds with
          | done => rfl
          | next _ _ hBehind hLater =>
              have := hLater.le
              omega
        rw [colorLoop, if_neg (by omega), hEmpty, hNil]
        rfl
      · rw [colorLoop, if_pos (by omega), hBlocks]
        simp only [Option.bind_eq_bind, Option.bind_some]
        by_cases hLong : 6 ≤ feed.length
        · obtain ⟨cr, cb, y0, y1, y2, y3, rest, rfl⟩ := exists_group hLong
          have hBehind : pos < p := by
            have hCount := @decodeBlocks_bounded s input s.macroblockQuants _ hPos
            obtain ⟨blocks, q, hSame, -, -, -, hAdvance⟩ := hCount
            rw [hBlocks] at hSame
            obtain ⟨-, rfl⟩ := Prod.mk.inj (Option.some.inj hSame)
            exact hAdvance (by omega) (by simp [Settings.macroblockQuants])
          have hEnd := hRest.le
          simp only [Settings.macroblockQuants, List.zipWith_cons_cons, List.zipWith_nil_right,
            colorOf]
          rw [ih hRest (by omega)]
          simp only [Settings.macroblockQuants, List.length_cons, List.length_nil,
            List.drop_succ_cons,
            List.drop_zero]
          cases colorMacroblock s.format (cr s.uvQuant) (cb s.uvQuant)
            ![y0 s.yQuant, y1 s.yQuant, y2 s.yQuant, y3 s.yQuant] with
          | none => rfl
          | some bytes => cases colorOf s rest <;> rfl
        · have hLast : p = input.length := by
            have hNone : feed.drop s.macroblockQuants.length = [] :=
              List.drop_eq_nil_iff.mpr (by
                simp only [Settings.macroblockQuants, List.length_cons, List.length_nil]
                omega)
            rw [hNone] at hRest
            cases hRest
            rfl
          rw [colorOf_incomplete (by omega), hLast]
          split
          · rename_i cr cb y0 y1 y2 y3 q hGroup
            have hCount := congrArg (fun r => r.1.length) hGroup
            simp only [List.length_zipWith, List.length_cons, List.length_nil,
              Settings.macroblockQuants] at hCount
            omega
          · rename_i other q hOther hGroup
            obtain ⟨-, rfl⟩ := Prod.mk.inj hGroup
            rfl

theorem colorOf_eq_some (s : Settings) (feed : List Fed)
    (hSamples : ∀ fed ∈ feed, ∀ quant, Samples (fed quant)) :
    ∃ bytes, colorOf s feed = some bytes ∧
      bytes.length = 256 * s.format.pixelSize * (feed.length / 6) := by
  induction hCount : feed.length using Nat.strongRecOn generalizing feed with
  | ind n ih =>
      by_cases hLong : 6 ≤ feed.length
      · obtain ⟨cr, cb, y0, y1, y2, y3, rest, rfl⟩ := exists_group hLong
        simp only [List.forall_mem_cons] at hSamples
        obtain ⟨hCr, hCb, h0, h1, h2, h3, hRest⟩ := hSamples
        obtain ⟨bytes, hBytes, hLength⟩ := colorMacroblock_bounded (f := s.format)
          (hCr s.uvQuant) (hCb s.uvQuant)
          (samples_luma (h0 s.yQuant) (h1 s.yQuant) (h2 s.yQuant) (h3 s.yQuant))
        simp only [List.length_cons] at hCount
        obtain ⟨later, hLater, hLaterLength⟩ := ih rest.length (by omega) rest hRest rfl
        refine ⟨bytes ++ later, by rw [colorOf, hBytes, hLater]; rfl, ?_⟩
        have hSixth : n / 6 = rest.length / 6 + 1 := by omega
        rw [List.length_append, hLength, hLaterLength, hSixth, Nat.mul_add, Nat.mul_one,
          Nat.add_comm]
      · refine ⟨[], colorOf_incomplete (by omega), ?_⟩
        rw [Nat.div_eq_of_lt (by omega), Nat.mul_zero]
        rfl

/-- One more block completes no group, unless it is the sixth of one. -/
theorem colorOf_snoc (s : Settings) (feed : List Fed) (extra : Fed) (hGroup : feed.length % 6 ≠ 5) :
    colorOf s (feed ++ [extra]) = colorOf s feed := by
  induction hCount : feed.length using Nat.strongRecOn generalizing feed with
  | ind n ih =>
      by_cases hLong : 6 ≤ feed.length
      · obtain ⟨cr, cb, y0, y1, y2, y3, rest, rfl⟩ := exists_group hLong
        simp only [List.length_cons] at hCount hGroup
        simp only [List.cons_append, colorOf]
        rw [ih rest.length (by omega) rest (by omega) rfl]
      · rw [colorOf_incomplete (by omega : feed.length < 6), colorOf_incomplete]
        rw [List.length_append, List.length_singleton]
        omega

/-- The bytes of a feed in the format of the command. -/
@[grind =] def outputOf (s : Settings) (feed : List Fed) : Option (List Byte) :=
  if s.format.depth.toNat < 2 then lumaOf s feed else colorOf s feed

/-- 64 bytes for a block, or 2 or 3 for each pixel of a group of six. -/
def Format.outputSize (f : Format) (blocks : Nat) : Nat :=
  if f.depth.toNat < 2 then 64 * blocks else 256 * f.pixelSize * (blocks / 6)

theorem outputOf_eq_some (hFeeds : Feeds s.scale input pos feed) :
    ∃ bytes, outputOf s feed = some bytes ∧ bytes.length = s.format.outputSize feed.length := by
  unfold outputOf Format.outputSize
  split
  · exact lumaOf_eq_some s feed
  · exact colorOf_eq_some s feed hFeeds.samples

theorem decode_feed (hFeeds : Feeds s.scale input 0 feed) :
    decode s input = (outputOf s feed).map fun bytes => (bytes, input.length) := by
  unfold decode outputOf
  split
  · exact lumaLoop_feed hFeeds (Nat.lt_succ_self _)
  · exact colorLoop_feed hFeeds (Nat.lt_succ_self _)

end Outputs

theorem appendByte_output (m : MDECState) (value : Byte) :
    (appendByte (fun _ => true) m value).output = m.output ++ [value] := by
  have hEnough :
      (ensureCapacity (fun _ => true) 4096 m.outputCap (m.output.length + 1)).1 = true := by
    unfold ensureCapacity
    split <;> rfl
  unfold appendByte
  dsimp only
  rw [if_pos hEnough]

theorem appendBytes_output (bytes : List Byte) (m : MDECState) :
    (bytes.foldl (appendByte fun _ => true) m).output = m.output ++ bytes := by
  induction bytes generalizing m with
  | nil => exact (List.append_nil _).symm
  | cons byte bytes ih =>
      rw [List.foldl_cons, ih, appendByte_output, List.append_assoc]
      rfl

/-- The output of a decode of some input, and where it stops, when memory does
not run out. -/
def emitted (m : MDECState) (input : List Halfword) : Option (List Byte × Nat) :=
  (executeDecode (fun _ => true) { m with input := input }).map fun m =>
    (m.output, m.decodeInputPos)

theorem emitted_eq (m : MDECState) (input : List Halfword) :
    emitted m input = decode m.settings input := by
  have hSettings : MDECState.settings { m with input := input } = m.settings := rfl
  rw [emitted, executeDecode, hSettings]
  cases hDecode : decode m.settings input with
  | none => rfl
  | some result =>
      obtain ⟨bytes, pos⟩ := result
      simp only [Option.bind_eq_bind, Option.bind_some, Option.map_some, appendBytes_output,
        clearOutput, List.nil_append]

/-- The whole input is consumed, the bytes are those of the blocks alone, and
there are as many as the blocks give. -/
def PaddingIgnored (m : MDECState) (before : Nat) (l : List (EncodedBlock × Nat)) : Prop :=
  ∃ bytes, emitted m (padded before l) = some (bytes, (padded before l).length) ∧
    emitted m (plain l) = some (bytes, (plain l).length) ∧
    bytes.length = m.settings.format.outputSize l.length

variable {m : MDECState} {before : Nat} {l : List (EncodedBlock × Nat)}

theorem emitted_padded (m : MDECState) (before : Nat) (l : List (EncodedBlock × Nat)) :
    ∃ extra bytes, extra.length = (if trailing before l = 0 then 0 else 1) ∧
      emitted m (padded before l) = some (bytes, (padded before l).length) ∧
      outputOf m.settings ((l.map fun p => p.1.fed m.scale) ++ extra) = some bytes ∧
      bytes.length = m.settings.format.outputSize (l.length + extra.length) := by
  obtain ⟨extra, hFeeds, hExtra⟩ := feeds_padded m.scale l (Nat.zero_le (padded before l).length)
    (List.drop_zero)
  obtain ⟨bytes, hBytes, hLength⟩ := outputOf_eq_some (s := m.settings) hFeeds
  refine ⟨extra, bytes, hExtra, ?_, hBytes, ?_⟩
  · rw [emitted_eq, decode_feed (s := m.settings) hFeeds, hBytes]
    rfl
  · rw [hLength, List.length_append, List.length_map]

theorem emitted_plain (m : MDECState) (l : List (EncodedBlock × Nat)) :
    ∃ bytes, emitted m (plain l) = some (bytes, (plain l).length) ∧
      outputOf m.settings (l.map fun p => p.1.fed m.scale) = some bytes ∧
      bytes.length = m.settings.format.outputSize l.length := by
  obtain ⟨extra, bytes, hExtra, hEmitted, hOutput, hLength⟩ := emitted_padded m 0 (unpad l)
  rw [trailing_unpad, if_pos rfl] at hExtra
  rw [List.eq_nil_of_length_eq_zero hExtra, List.append_nil,
    map_unpad fun b => b.fed m.scale] at hOutput
  rw [padded_unpad] at hEmitted
  rw [hExtra, Nat.add_zero, unpad, List.length_map] at hLength
  exact ⟨bytes, hEmitted, hOutput, hLength⟩

/-- One more block gives more bytes, in luma and as the sixth of a group. -/
theorem outputSize_succ_ne (f : Format) {n : Nat}
    (hCounts : ¬(2 ≤ f.depth.toNat ∧ n % 6 ≠ 5)) : f.outputSize (n + 1) ≠ f.outputSize n := by
  have hPixel : 0 < f.pixelSize := by
    unfold Format.pixelSize
    split <;> norm_num
  unfold Format.outputSize
  split
  · omega
  · have hSixth : (n + 1) / 6 = n / 6 + 1 := by omega
    rw [hSixth, Nat.mul_add, Nat.mul_one]
    omega

theorem not_paddingIgnored (hTrailing : trailing before l ≠ 0)
    (hCounts : ¬(2 ≤ m.outputDepth.toNat ∧ l.length % 6 ≠ 5)) : ¬PaddingIgnored m before l := by
  rintro ⟨bytes, hPadded, -, hLength⟩
  obtain ⟨extra, more, hExtra, hEmitted, -, hMore⟩ := emitted_padded m before l
  rw [hPadded] at hEmitted
  obtain ⟨rfl, -⟩ := Prod.mk.inj (Option.some.inj hEmitted)
  rw [hExtra, if_neg hTrailing, hLength] at hMore
  exact outputSize_succ_ne m.settings.format hCounts hMore.symm

/-- Padding is ignored if and only if there is none at the end of the stream, or
it completes no group of a colour picture. -/
theorem padding_ignored_iff (m : MDECState) (before : Nat) (l : List (EncodedBlock × Nat)) :
    PaddingIgnored m before l ↔
      trailing before l = 0 ∨ (2 ≤ m.outputDepth.toNat ∧ l.length % 6 ≠ 5) := by
  constructor
  · intro hIgnored
    by_contra hNeither
    obtain ⟨hTrailing, hCounts⟩ := not_or.mp hNeither
    exact not_paddingIgnored hTrailing hCounts hIgnored
  · intro hCase
    obtain ⟨extra, bytes, hExtra, hEmitted, hOutput, -⟩ := emitted_padded m before l
    obtain ⟨alone, hAlone, hAloneOutput, hLength⟩ := emitted_plain m l
    have hSame : outputOf m.settings ((l.map fun p => p.1.fed m.scale) ++ extra) =
        outputOf m.settings (l.map fun p => p.1.fed m.scale) := by
      rcases hCase with hTrailing | ⟨hColour, hGroup⟩
      · rw [hTrailing, if_pos rfl] at hExtra
        rw [List.eq_nil_of_length_eq_zero hExtra, List.append_nil]
      · have hDepth : ¬m.settings.format.depth.toNat < 2 := not_lt.mpr hColour
        rw [outputOf, outputOf, if_neg hDepth, if_neg hDepth]
        split at hExtra
        · rw [List.eq_nil_of_length_eq_zero hExtra, List.append_nil]
        · obtain ⟨fed, rfl⟩ := List.length_eq_one_iff.mp hExtra
          refine colorOf_snoc _ _ fed ?_
          rwa [List.length_map]
    rw [hSame, hAloneOutput] at hOutput
    obtain rfl := Option.some.inj hOutput
    exact ⟨alone, hEmitted, hAlone, hLength⟩

/-- One luma block, closed, and padding up to the second word of the command. -/
theorem luma_padding_counted :
    ¬PaddingIgnored { init with outputDepth := 0 } 0
      [(⟨0, [], by decide, by decide⟩, 2)] :=
  not_paddingIgnored (by decide) (by decide)

end RecompStudio.Mdec
