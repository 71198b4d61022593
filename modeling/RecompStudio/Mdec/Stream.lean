import RecompStudio.Mdec.Safety
import RecompStudio.Mdec.Padding
import Mathlib.Logic.Relation

/-!
The decoder as a stream: the words written are commands with their data, each
decode gives its bytes, and the words read are these bytes in order.
-/

namespace RecompStudio.Mdec

open Checked

/-- The tables, and the command under way with its data so far. -/
structure Parser where
  yQuant : Quant
  uvQuant : Quant
  scale : Scale
  pending : Option (Word × List Halfword)

def formatOf (command : Word) : Format :=
  ⟨command.getLsbD 25, command.getLsbD 26, command.extractLsb' 27 2⟩

/-- Byte number `i` of halfwords. -/
@[grind =] def byteAt (data : List Halfword) (i : Nat) : Byte :=
  if i % 2 = 1 then (data.getD (i / 2) 0).extractLsb' 8 8 else (data.getD (i / 2) 0).extractLsb' 0 8

@[grind =]
def quantAt (data : List Halfword) (offset : Nat) : Quant := fun i => byteAt data (offset + i)

/-- The bytes of a decode. -/
def decoded (s : Settings) (data : List Halfword) : List Byte :=
    ((decode s data).map Prod.fst).getD []

/-- A command with all its data: the tables it leaves, and what it decodes. -/
@[grind =] def Parser.complete (p : Parser) (command : Word) (data : List Halfword) :
    Parser × Option (List Byte) :=
  match opOf command with
  | 1 => ({ p with pending := none },
      some (decoded ⟨formatOf command, p.yQuant, p.uvQuant, p.scale⟩ data))
  | 2 => ({ p with
      pending := none
      yQuant := quantAt data 0
      uvQuant := if command.getLsbD 0 then quantAt data 64 else quantAt data 0 }, none)
  | 3 => ({ p with
      pending := none
      scale := Scale.ofHalfwords fun t => data.getD (transposed t) 0 }, none)
  | _ => ({ p with pending := none }, none)

def halves (value : Word) : List Halfword := [value.extractLsb' 0 16, value.extractLsb' 16 16]

/-- A word: the next command, or data of the one under way, of which the last
word may be half used. -/
def Parser.feed (p : Parser) (value : Word) : Parser × Option (List Byte) :=
  match p.pending with
  | none =>
      ({ p with pending := if expectedOf value = 0 then none else some (value, []) }, none)
  | some (command, data) =>
      let data := (data ++ halves value).take (expectedOf command)
      if data.length = expectedOf command then p.complete command data
      else ({ p with pending := some (command, data) }, none)

/-- What the words leave, and what is decoded on the way. -/
def Parser.feeds (p : Parser) : List Word → Parser × List (List Byte)
  | [] => (p, [])
  | value :: rest =>
      let (p, chunk) := p.feed value
      let (p, chunks) := p.feeds rest
      (p, chunk.toList ++ chunks)

theorem feeds_append (p : Parser) (first rest : List Word) :
    p.feeds (first ++ rest) =
      (((p.feeds first).1.feeds rest).1,
          (p.feeds first).2 ++ ((p.feeds first).1.feeds rest).2) := by
  induction first generalizing p with
  | nil => rfl
  | cons value first ih =>
      simp only [List.cons_append, Parser.feeds, ih, List.append_assoc]

/-- The words of some bytes, the last one filled up with zeros. -/
@[grind =] def wordsOf (bytes : List Byte) : List Word :=
  if bytes = [] then [] else wordOf (bytes.take 4) :: wordsOf (bytes.drop 4)
termination_by bytes.length
decreasing_by
  rename_i hBytes
  have := List.length_pos_iff.mpr hBytes
  rw [List.length_drop]
  omega

/-- What the decoder has of the words written. -/
def parserOf (m : MDECState) : Parser :=
  ⟨m.yQuant, m.uvQuant, m.scale, if m.busy then some (m.command, m.input) else none⟩

/-- The bytes that are not read yet. -/
@[grind =] def unread (m : MDECState) : List Byte := m.output.drop m.outputPos

/-- A command under way waits for data, and its format is set. -/
structure Waiting (m : MDECState) : Prop where
  sound : Sound m
  more : m.busy = true → m.input.length < m.expectedHalfwords
  format : m.busy = true → m.settings.format = formatOf m.command

section Write

variable {m : MDECState}

/-- Memory that does not run out. -/
abbrev enough : Nat → Bool := fun _ => true

theorem ensureCapacity_enough_fst (initial cap need : Nat) :
    (ensureCapacity enough initial cap need).1 = true := by
  unfold ensureCapacity
  split <;> rfl

/-- A command word without data is done at once. -/
theorem beginCommand_cases (m : MDECState) (value : Word) :
    (expectedOf value = 0 ∧ beginCommand enough m value = finishCommand (openCommand m value)) ∨
    (0 < expectedOf value ∧ ∃ cap,
      beginCommand enough m value = { openCommand m value with inputCap := cap }) := by
  have hEnough := ensureCapacity_enough_fst 256 m.inputCap (expectedOf value)
  by_cases hExpected : expectedOf value = 0
  · exact Or.inl ⟨hExpected, if_pos hExpected⟩
  · refine Or.inr ⟨Nat.pos_of_ne_zero hExpected,
      (ensureCapacity enough 256 m.inputCap (expectedOf value)).2, ?_⟩
    exact (if_neg hExpected).trans (if_pos hEnough)

theorem beginCommand_parserOf (hIdle : m.busy = false) (value : Word) :
    parserOf (beginCommand enough m value) = ((parserOf m).feed value).1 ∧
      ((parserOf m).feed value).2 = none := by
  have hNone : (parserOf m).pending = none := by rw [parserOf, hIdle]; rfl
  unfold Parser.feed
  rw [hNone]
  refine ⟨?_, rfl⟩
  rcases beginCommand_cases m value with ⟨hExpected, hBegin⟩ | ⟨hExpected, cap, hBegin⟩
  · rw [hBegin, if_pos hExpected]
    rfl
  · rw [hBegin, if_neg (by omega)]
    rfl

theorem beginCommand_waiting (hm : Sound m) (value : Word) :
    Waiting (beginCommand enough m value) := by
  have hSound := @Sound.beginCommand enough _ hm value
  rcases beginCommand_cases m value with ⟨-, hBegin⟩ | ⟨hExpected, cap, hBegin⟩
  · rw [hBegin] at hSound ⊢
    exact ⟨hSound, fun h => Bool.noConfusion h, fun h => Bool.noConfusion h⟩
  · rw [hBegin] at hSound ⊢
    exact ⟨hSound, fun _ => hExpected, fun _ => rfl⟩

theorem beginCommand_unread (value : Word) : unread (beginCommand enough m value) = unread m := by
  rcases beginCommand_cases m value with ⟨-, hBegin⟩ | ⟨-, cap, hBegin⟩ <;> rw [hBegin] <;> rfl

/-- Appending changes the output and its capacity, nothing else. -/
theorem appendBytes_eq (bytes : List Byte) (m : MDECState) : ∃ cap,
    bytes.foldl (appendByte enough) m =
      { m with output := m.output ++ bytes, outputCap := cap } := by
  induction bytes generalizing m with
  | nil => exact ⟨m.outputCap, by rw [List.append_nil]; rfl⟩
  | cons byte bytes ih =>
      have hEnough := ensureCapacity_enough_fst 4096 m.outputCap (m.output.length + 1)
      have hFirst : appendByte enough m byte = { m with
          output := m.output ++ [byte]
          outputCap := (ensureCapacity enough 4096 m.outputCap (m.output.length + 1)).2 } :=
        if_pos hEnough
      obtain ⟨cap, hRest⟩ := ih (appendByte enough m byte)
      refine ⟨cap, ?_⟩
      rw [List.foldl_cons, hRest, hFirst]
      simp only [List.append_assoc, List.singleton_append]

theorem executeDecode_eq (m : MDECState) : ∃ cap pos,
    executeDecode enough m = some { m with
      output := decoded m.settings m.input
      outputPos := 0
      outputCap := cap
      decodeInputPos := pos } := by
  obtain ⟨bytes, pos, hDecode, -, -⟩ := decode_bounded m.settings m.input
  obtain ⟨cap, hAppended⟩ := appendBytes_eq bytes (clearOutput m)
  refine ⟨cap, pos, ?_⟩
  rw [executeDecode, decoded, hDecode]
  simp only [Option.bind_eq_bind, Option.bind_some, Option.map_some, Option.getD_some]
  rw [hAppended]
  rfl

theorem inputByte_eq (hData : ∀ i < 64, i / 2 < m.input.length) :
    tabulate 64 (inputByte m) = some (quantAt m.input 0) := by
  refine tabulate_of_forall _ fun i => ?_
  have hIn := hData i i.2
  rw [inputByte, quantAt, byteAt, List.getElem?_eq_getElem hIn, List.getD_eq_getElem?_getD,
    Nat.zero_add, List.getElem?_eq_getElem hIn]
  rfl

theorem inputByte_upper_eq (hData : m.input.length = 64) :
    (tabulate 64 fun i => inputByte m (64 + i)) = some (quantAt m.input 64) := by
  refine tabulate_of_forall _ fun i => ?_
  have hIn : (64 + i.val) / 2 < m.input.length := by omega
  rw [inputByte, quantAt, byteAt, List.getElem?_eq_getElem hIn, List.getD_eq_getElem?_getD,
    List.getElem?_eq_getElem hIn]
  rfl

theorem entries_eq (hData : m.input.length = 64) :
    (tabulate 64 fun t => m.input[transposed t]?) =
      some fun t : Fin 64 => m.input.getD (transposed t) 0 := by
  refine tabulate_of_forall _ fun t => ?_
  have hIn : transposed t < m.input.length := by
    unfold transposed
    omega
  rw [List.getD_eq_getElem?_getD, List.getElem?_eq_getElem hIn]
  rfl

/-- A command with its data does what the parser says. -/
theorem executeCommand_parserOf (hLength : m.input.length = expectedOf m.command)
    (hFormat : m.settings.format = formatOf m.command) :
    ∃ m', executeCommand enough m = some m' ∧ m'.busy = false ∧
      parserOf m' = ((parserOf m).complete m.command m.input).1 ∧
      unread m' = ((parserOf m).complete m.command m.input).2.getD (unread m) := by
  unfold executeCommand
  split
  · rename_i hOp
    have hHalf : 32 ≤ m.input.length := by
      rw [hLength, expectedOf, hOp]
      change 32 ≤ if m.command.getLsbD 0 then 64 else 32
      split <;> norm_num
    rw [inputByte_eq fun i hi => by omega]
    simp only [Parser.complete, hOp, Option.bind_eq_bind, Option.bind_some]
    split
    · rename_i hBoth
      have hWhole : m.input.length = 64 := by
        rw [hLength, expectedOf, hOp]
        exact if_pos hBoth
      rw [inputByte_upper_eq hWhole]
      exact ⟨_, rfl, rfl, rfl, rfl⟩
    · exact ⟨_, rfl, rfl, rfl, rfl⟩
  · rename_i hOp
    have hWhole : m.input.length = 64 := by
      rw [hLength, expectedOf, hOp]
      rfl
    rw [entries_eq hWhole]
    simp only [Parser.complete, hOp, Option.bind_eq_bind, Option.bind_some]
    exact ⟨_, rfl, rfl, rfl, rfl⟩
  · rename_i hOp
    obtain ⟨cap, pos, hDecode⟩ := executeDecode_eq m
    rw [hDecode]
    simp only [Parser.complete, hOp, ← hFormat, Option.bind_eq_bind, Option.bind_some]
    exact ⟨_, rfl, rfl, rfl, rfl⟩
  · rename_i hTables hScale hDecode
    have hNothing : (parserOf m).complete m.command m.input =
        ({ parserOf m with pending := none }, none) := by
      unfold Parser.complete
      split
      · exact absurd ‹_› hDecode
      · exact absurd ‹_› hTables
      · exact absurd ‹_› hScale
      · rfl
    rw [hNothing]
    exact ⟨_, rfl, rfl, rfl, rfl⟩

/-- The command is the one that is given, whatever was pending. -/
theorem complete_pending (data : List Halfword) :
    (parserOf { m with input := data }).complete m.command data =
      (parserOf m).complete m.command data := by
  unfold Parser.complete
  split <;> rfl

/-- A word of data in the input buffer. -/
theorem pushWord_eq (hm : Sound m) (value : Word) (hMore : m.input.length < m.expectedHalfwords) :
    pushWord m value =
      some { m with input := (m.input ++ halves value).take m.expectedHalfwords } := by
  have hCap := hm.expected
  have hFirst : pushInput m (value.extractLsb' 0 16) =
      some { m with input := m.input ++ [value.extractLsb' 0 16] } := if_pos (hMore.trans_le hCap)
  rw [pushWord, hFirst]
  simp only [Option.bind_eq_bind, Option.bind_some, List.length_append, List.length_singleton]
  split
  · rename_i hStill
    have hAll : (m.input ++ halves value).length ≤ m.expectedHalfwords := by
      simp only [halves, List.length_append, List.length_cons, List.length_nil]
      omega
    rw [pushInput, if_pos (by simp only [List.length_append, List.length_singleton]; omega),
      List.take_of_length_le hAll]
    simp only [halves, List.append_assoc, List.singleton_append]
  · have hLast : m.expectedHalfwords = (m.input ++ [value.extractLsb' 0 16]).length := by
      rw [List.length_append, List.length_singleton]
      omega
    have hTaken : (m.input ++ halves value).take m.expectedHalfwords =
        m.input ++ [value.extractLsb' 0 16] := by
      have hSplit : m.input ++ halves value =
          (m.input ++ [value.extractLsb' 0 16]) ++ [value.extractLsb' 16 16] := by
        simp only [halves, List.append_assoc, List.singleton_append]
      rw [hSplit, hLast, List.take_left]
    rw [hTaken]

/-- A written word does what the parser says: a decode replaces what is unread,
anything else leaves it. -/
theorem writeData_parserOf (hm : Waiting m) (value : Word) :
    ∃ m', writeData enough m value = some m' ∧ Waiting m' ∧
      parserOf m' = ((parserOf m).feed value).1 ∧
      unread m' = ((parserOf m).feed value).2.getD (unread m) := by
  unfold writeData
  cases hBusy : m.busy with
  | false =>
      obtain ⟨hParser, hNone⟩ := beginCommand_parserOf hBusy value
      refine ⟨_, rfl, beginCommand_waiting hm.sound value, hParser, ?_⟩
      rw [hNone, beginCommand_unread]
      rfl
  | true =>
      have hMore := hm.more hBusy
      have hExpected := hm.sound.command hBusy
      have hPending : (parserOf m).pending = some (m.command, m.input) := by
        rw [parserOf, hBusy]
        rfl
      rw [if_pos ⟨rfl, hMore⟩, pushWord_eq hm.sound value hMore]
      simp only [Option.bind_eq_bind, Option.bind_some]
      unfold Parser.feed
      rw [hPending]
      dsimp only
      rw [← hExpected]
      generalize hData : (m.input ++ halves value).take m.expectedHalfwords = data
      have hAtMost : data.length ≤ m.expectedHalfwords := by
        rw [← hData]
        exact List.length_take_le _ _
      by_cases hFull : m.expectedHalfwords ≤ data.length
      · rw [if_pos hFull, if_pos (le_antisymm hAtMost hFull)]
        obtain ⟨m', hExecute, hIdle, hParser, hUnread⟩ := executeCommand_parserOf
          (m := { m with input := data }) ((le_antisymm hAtMost hFull).trans hExpected)
          (hm.format hBusy)
        obtain ⟨m'', hSame, hSound⟩ := @Sound.executeCommand enough
          { m with input := data } { hm.sound with input := hAtMost }
          ((le_antisymm hAtMost hFull).trans hExpected)
        rw [hExecute] at hSame
        obtain rfl := Option.some.inj hSame
        refine ⟨m', hExecute, ⟨hSound, fun h => ?_, fun h => ?_⟩, ?_, ?_⟩
        · rw [hIdle] at h
          exact Bool.noConfusion h
        · rw [hIdle] at h
          exact Bool.noConfusion h
        · rw [hParser, complete_pending]
        · rw [hUnread, complete_pending]
          rfl
      · rw [if_neg hFull, if_neg (by omega)]
        refine ⟨_, rfl, ⟨{ hm.sound with input := hAtMost }, fun _ => ?_, fun _ => hm.format hBusy⟩,
          ?_, rfl⟩
        · exact not_le.mp hFull
        · rw [parserOf, if_pos hBusy]
          rfl

end Write

section Read

variable {m : MDECState}

theorem wordsOf_nil : wordsOf [] = [] := by rw [wordsOf, if_pos rfl]

theorem wordsOf_of_ne {bytes : List Byte} (hBytes : bytes ≠ []) :
    wordsOf bytes = wordOf (bytes.take 4) :: wordsOf (bytes.drop 4) := by
  rw [wordsOf, if_neg hBytes]

theorem readReady_iff : readReady m = true ↔ unread m ≠ [] := by
  rw [readReady, decide_eq_true_eq, unread, ne_eq, List.drop_eq_nil_iff, not_le]

/-- A read takes four bytes, or what is left. -/
theorem readWord_eq (m : MDECState) :
    (readWord m).1 = wordOf ((unread m).take 4) ∧
      unread (readWord m).2 = (unread m).drop 4 := by
  refine ⟨rfl, ?_⟩
  have hLength : ((unread m).take 4).length = min 4 (m.output.length - m.outputPos) := by
    rw [unread, List.length_take, List.length_drop]
  unfold readWord
  dsimp only
  split
  · rename_i hDrained
    change _ ≤ m.outputPos + ((unread m).take 4).length at hDrained
    have hLast : (unread m).drop 4 = [] := by
      rw [unread, List.drop_drop, List.drop_eq_nil_iff]
      omega
    rw [hLast]
    rfl
  · rename_i hMore
    change ¬_ ≤ m.outputPos + ((unread m).take 4).length at hMore
    have hFour : ((unread m).take 4).length = 4 := by omega
    change m.output.drop (m.outputPos + ((unread m).take 4).length) = _
    rw [hFour, unread, List.drop_drop]

theorem readWord_parserOf : parserOf (readWord m).2 = parserOf m := by
  unfold readWord
  dsimp only
  split <;> rfl

theorem readWord_waiting (hm : Waiting m) : Waiting (readWord m).2 := by
  have hSound := hm.sound.readWord
  unfold readWord at hSound ⊢
  dsimp only at hSound ⊢
  split
  · rename_i hDrained
    rw [if_pos hDrained] at hSound
    exact ⟨hSound, hm.more, hm.format⟩
  · rename_i hMore
    rw [if_neg hMore] at hSound
    exact ⟨hSound, hm.more, hm.format⟩

end Read

/-- The words of data that the parser waits for. -/
def Parser.remaining (p : Parser) : Nat :=
  match p.pending with
  | none => 0
  | some (command, data) => (expectedOf command - data.length + 1) / 2

/-- The fields of the status word agree with the stream. -/
structure StatusAgrees (status : Word) (p : Parser) (rest : List Byte) : Prop where
  busy : status.getLsbD 29 = p.pending.isSome
  empty : status.getLsbD 31 = decide (rest = [])
  remaining : (status.extractLsb' 0 16).toNat =
    if p.remaining = 0 then 0xFFFF else (p.remaining - 1) % 0x10000

section Status

variable {m : MDECState}

theorem flagIf_getLsbD (b : Bool) {k : Nat} (hK : k < 32) (n : Nat) :
    (flagIf b k).getLsbD n = (b && decide (n = k)) := by
  cases b with
  | false => simp [flagIf]
  | true =>
      rw [flagIf, if_pos rfl, BitVec.getLsbD_shiftLeft, BitVec.getLsbD_one, Bool.true_and,
        Bool.eq_iff_iff]
      simp only [Bool.and_eq_true, Bool.not_eq_true', decide_eq_true_eq, decide_eq_false_iff_not]
      omega

theorem getLsbD_shifted (x : Word) {width k : Nat} (hX : x.toNat < 2 ^ width) {n : Nat}
    (hn : n < k ∨ k + width ≤ n) : (x <<< k).getLsbD n = false := by
  rw [BitVec.getLsbD_shiftLeft]
  rcases hn with hn | hn
  · simp [hn]
  · have hHigh : x.getLsbD (n - k) = false :=
      Nat.testBit_lt_two_pow (hX.trans_le (Nat.pow_le_pow_right (by norm_num) (by omega)))
    rw [hHigh, Bool.and_false]

theorem remainingField_toNat (m : MDECState) : (remainingField m).toNat =
    if remainingWords m = 0 then 0xFFFF else (remainingWords m - 1) % 0x10000 := by
  unfold remainingField
  by_cases hNone : remainingWords m = 0
  · rw [if_neg (not_not.mpr hNone), if_pos hNone]
    rfl
  · rw [if_pos hNone, if_neg hNone, BitVec.toNat_ofNat]
    omega

/-- A bit of the status word, from the fields it is put together of. -/
theorem readStatus_getLsbD (m : MDECState) {n : Nat} (hField : n < 16 ∨ 27 ≤ n) :
    (readStatus m).getLsbD n = ((remainingField m).getLsbD n ||
      (!writeReady m && decide (n = 30)) || (m.enableDmaOut && readReady m && decide (n = 27)) ||
      (m.enableDmaIn && writeReady m && decide (n = 28)) || (m.busy && decide (n = 29)) ||
      (decide (m.output.length ≤ m.outputPos) && decide (n = 31))) := by
  have hBlock : (BitVec.ofNat 32 (m.currentBlock % 8)).toNat < 2 ^ 3 := by
    rw [BitVec.toNat_ofNat]
    omega
  have hDepth : (m.outputDepth.zeroExtend 32).toNat < 2 ^ 2 := by
    have := m.outputDepth.isLt
    rw [BitVec.toNat_setWidth]
    omega
  have h23 : decide (n = 23) = false := decide_eq_false (by omega)
  have h24 : decide (n = 24) = false := decide_eq_false (by omega)
  unfold readStatus
  simp only [BitVec.getLsbD_or, flagIf_getLsbD _ (by norm_num : 23 < 32),
    flagIf_getLsbD _ (by norm_num : 24 < 32), flagIf_getLsbD _ (by norm_num : 27 < 32),
    flagIf_getLsbD _ (by norm_num : 28 < 32), flagIf_getLsbD _ (by norm_num : 29 < 32),
    flagIf_getLsbD _ (by norm_num : 30 < 32), flagIf_getLsbD _ (by norm_num : 31 < 32),
    getLsbD_shifted _ hBlock (by omega : n < 16 ∨ 16 + 3 ≤ n),
    getLsbD_shifted _ hDepth (by omega : n < 25 ∨ 25 + 2 ≤ n), h23, h24, Bool.and_false,
    Bool.or_false]

theorem remainingWords_eq (hm : Waiting m) : remainingWords m = (parserOf m).remaining := by
  unfold remainingWords Parser.remaining parserOf
  cases hBusy : m.busy with
  | false => rfl
  | true =>
      rw [if_pos ⟨rfl, hm.more hBusy⟩, hm.sound.command hBusy]
      rfl

theorem status_agrees (hm : Waiting m) : StatusAgrees (readStatus m) (parserOf m) (unread m) := by
  have hHigh {n : Nat} (hn : 16 ≤ n) : (remainingField m).getLsbD n = false := by
    have hSmall : (remainingField m).toNat < 2 ^ 16 := by
      rw [remainingField_toNat]
      split <;> omega
    exact Nat.testBit_lt_two_pow (hSmall.trans_le (Nat.pow_le_pow_right (by norm_num) hn))
  constructor
  · rw [readStatus_getLsbD m (Or.inr (by norm_num)), hHigh (by norm_num), parserOf]
    cases m.busy <;> simp
  · rw [readStatus_getLsbD m (Or.inr (by norm_num)), hHigh (by norm_num)]
    have hEmpty : decide (unread m = []) = decide (m.output.length ≤ m.outputPos) := by
      rw [unread]
      exact decide_eq_decide.mpr List.drop_eq_nil_iff
    rw [hEmpty]
    simp
  · have hLow : (readStatus m).extractLsb' 0 16 = (remainingField m).extractLsb' 0 16 := by
      refine BitVec.eq_of_getLsbD_eq fun i hi => ?_
      rw [BitVec.getLsbD_extractLsb', BitVec.getLsbD_extractLsb', Nat.zero_add,
        readStatus_getLsbD m (Or.inl hi)]
      have hOther {k : Nat} (hK : 16 ≤ k) : decide (i = k) = false := decide_eq_false (by omega)
      simp only [hOther (by norm_num : 16 ≤ 27), hOther (by norm_num : 16 ≤ 28),
        hOther (by norm_num : 16 ≤ 29), hOther (by norm_num : 16 ≤ 30),
        hOther (by norm_num : 16 ≤ 31), Bool.and_false, Bool.or_false]
    rw [hLow, BitVec.extractLsb'_toNat, Nat.shiftRight_zero, remainingField_toNat,
      remainingWords_eq hm]
    split
    · rfl
    · omega

end Status

/-- The decoder, the words written to it, and the words read from it, each with
whether there was output. -/
structure Watch where
  m : MDECState
  written : List Word
  reads : List (Bool × Word)

/-- A word of DMA0, which waits until the decoder is ready for it, or a read of
DMA1 or of the data register. -/
inductive Step : Watch → Watch → Prop
  | write {w : Watch} {m' : MDECState} (value : Word) (ready : writeReady w.m = true)
      (after : writeData enough w.m value = some m') :
      Step w ⟨m', w.written ++ [value], w.reads⟩
  | read (w : Watch) :
      Step w ⟨(readWord w.m).2, w.written, w.reads ++ [(readReady w.m, (readWord w.m).1)]⟩

/-- The words that were read while there was output. -/
def Watch.words (w : Watch) : List Word := (w.reads.filter Prod.fst).map Prod.snd

/-- Nothing is lost, repeated or reordered. -/
structure Lossless (p : Parser) (w : Watch) : Prop where
  waiting : Waiting w.m
  parser : parserOf w.m = (p.feeds w.written).1
  stream : w.words ++ wordsOf (unread w.m) = (p.feeds w.written).2.flatMap wordsOf
  underflow : ∀ r ∈ w.reads, r.1 = false → r.2 = 0

theorem feeds_snoc (p : Parser) (ws : List Word) (value : Word) :
    p.feeds (ws ++ [value]) = (((p.feeds ws).1.feed value).1,
      (p.feeds ws).2 ++ ((p.feeds ws).1.feed value).2.toList) := by
  rw [feeds_append]
  simp [Parser.feeds]

theorem Lossless.step {p : Parser} {w w' : Watch} (h : Lossless p w) (hStep : Step w w') :
    Lossless p w' := by
  cases hStep with
  | @write m' value hReady hAfter =>
      have hDrained : unread w.m = [] := by
        rw [writeReady, Bool.and_eq_true, decide_eq_true_eq] at hReady
        exact List.drop_eq_nil_iff.mpr hReady.1
      obtain ⟨m'', hSame, hWaiting, hParser, hUnread⟩ := writeData_parserOf h.waiting value
      rw [hAfter] at hSame
      obtain rfl := Option.some.inj hSame
      have hStream := h.stream
      rw [hDrained, wordsOf_nil, List.append_nil] at hStream
      refine ⟨hWaiting, ?_, ?_, h.underflow⟩
      · rw [feeds_snoc, hParser, h.parser]
      · change w.words ++ wordsOf (unread m') = _
        rw [feeds_snoc, hUnread, hStream, hDrained, h.parser, List.flatMap_append]
        cases ((p.feeds w.written).1.feed value).2 with
        | none => simp [wordsOf_nil]
        | some bytes => simp
  | read =>
      obtain ⟨hWord, hUnread⟩ := readWord_eq w.m
      refine ⟨readWord_waiting h.waiting, ?_, ?_, ?_⟩
      · exact readWord_parserOf.trans h.parser
      · rw [← h.stream]
        change ((w.reads ++ _).filter Prod.fst).map Prod.snd ++
          wordsOf (unread (readWord w.m).2) = _
        rw [List.filter_append, List.map_append, List.append_assoc, hUnread]
        change w.words ++ _ = _
        congr 1
        cases hReady : readReady w.m with
        | true =>
            rw [wordsOf_of_ne (readReady_iff.1 hReady), hWord]
            rfl
        | false =>
            have hNone : unread w.m = [] := by
              by_contra hSome
              rw [readReady_iff.2 hSome] at hReady
              exact Bool.noConfusion hReady
            rw [hNone]
            rfl
      · intro r hr hUnder
        rcases List.mem_append.mp hr with hOld | hNew
        · exact h.underflow r hOld hUnder
        · obtain rfl := List.mem_singleton.mp hNew
          have hNone : unread w.m = [] := by
            by_contra hSome
            rw [readReady_iff.2 hSome] at hUnder
            exact Bool.noConfusion hUnder
          change (readWord w.m).1 = 0
          rw [hWord, hNone]
          rfl

theorem Lossless.run {p : Parser} {w w' : Watch} (h : Lossless p w)
    (hRun : Relation.ReflTransGen Step w w') : Lossless p w' := by
  induction hRun with
  | refl => exact h
  | tail _ hStep ih => exact ih.step hStep

/-- A read. -/
def Watch.read (w : Watch) : Watch :=
  ⟨(readWord w.m).2, w.written, w.reads ++ [(readReady w.m, (readWord w.m).1)]⟩

/-- The loop of `advance_mdec_channel` on channel 0: the words of its budget, as
long as the decoder is ready for the next. -/
def dmaIn (w : Watch) : List Word → Option Watch
  | [] => some w
  | value :: rest =>
      if writeReady w.m then do
        let m ← writeData enough w.m value
        dmaIn ⟨m, w.written ++ [value], w.reads⟩ rest
      else some w

/-- The same on channel 1. -/
def dmaOut : Nat → Watch → Watch
  | 0, w => w
  | budget + 1, w => if readReady w.m then dmaOut budget w.read else w

theorem dmaIn_run {w w' : Watch} (values : List Word) (hDma : dmaIn w values = some w') :
    Relation.ReflTransGen Step w w' := by
  induction values generalizing w with
  | nil =>
      obtain rfl := Option.some.inj hDma
      exact .refl
  | cons value rest ih =>
      unfold dmaIn at hDma
      split at hDma
      · rename_i hReady
        cases hWrite : writeData enough w.m value with
        | none =>
            rw [hWrite] at hDma
            exact absurd hDma (by simp)
        | some m =>
            rw [hWrite] at hDma
            exact (ih hDma).head (.write value hReady hWrite)
      · obtain rfl := Option.some.inj hDma
        exact .refl

theorem dmaOut_run (budget : Nat) (w : Watch) : Relation.ReflTransGen Step w (dmaOut budget w) := by
  induction budget generalizing w with
  | zero => exact .refl
  | succ budget ih =>
      unfold dmaOut
      split
      · exact (ih w.read).head (.read w)
      · exact .refl

/-- The decoder between two commands, with nothing to read. -/
structure Drained (m : MDECState) : Prop where
  sound : Sound m
  idle : m.busy = false
  empty : unread m = []

theorem drained_init : Drained init := ⟨sound_init, rfl, rfl⟩

theorem Drained.lossless {m : MDECState} (hm : Drained m) : Lossless (parserOf m) ⟨m, [], []⟩ where
  waiting := by
    have hNot : ¬m.busy = true := by
      rw [hm.idle]
      exact Bool.noConfusion
    exact ⟨hm.sound, fun h => absurd h hNot, fun h => absurd h hNot⟩
  parser := rfl
  stream := by
    change [] ++ wordsOf (unread m) = []
    rw [hm.empty, wordsOf_nil]
    rfl
  underflow := fun r hr => absurd hr List.not_mem_nil

/-- The words read while there is output are those of the decodes in order, as
far as they are read, and every other word read is zero. The status word and the
bounds of the buffer hold in every state. -/
theorem mdec_stream {m : MDECState} (hm : Drained m) {w : Watch}
    (hRun : Relation.ReflTransGen Step ⟨m, [], []⟩ w) :
    w.words ++ wordsOf (unread w.m) = ((parserOf m).feeds w.written).2.flatMap wordsOf ∧
    (∀ r ∈ w.reads, r.1 = false → r.2 = 0) ∧
    StatusAgrees (readStatus w.m) ((parserOf m).feeds w.written).1 (unread w.m) ∧
    w.m.outputPos ≤ w.m.output.length ∧ w.m.output.length ≤ w.m.outputCap := by
  have hLossless := hm.lossless.run hRun
  have hStatus := status_agrees hLossless.waiting
  rw [hLossless.parser] at hStatus
  exact ⟨hLossless.stream, hLossless.underflow, hStatus, hLossless.waiting.sound.position,
    hLossless.waiting.sound.output⟩

/-- A decode of one block, and a read of the first word of it. -/
theorem mdec_stream_block :
    ∃ w, Relation.ReflTransGen Step ⟨init, [], []⟩ w ∧ w.words = [0x80808080#32] ∧
      w.words ++ wordsOf (unread w.m) = ((parserOf init).feeds w.written).2.flatMap wordsOf := by
  obtain ⟨w, hIn, hWords⟩ : ∃ w, dmaIn ⟨init, [], []⟩ [0x20000001#32, 0xFE000000#32] = some w ∧
      (dmaOut 1 w).words = [0x80808080#32] :=
    Option.map_eq_some_iff.mp (by decide +kernel)
  have hRun := (dmaIn_run _ hIn).trans (dmaOut_run 1 w)
  exact ⟨_, hRun, hWords, (mdec_stream drained_init hRun).1⟩

/-- With the words of early reads the words read are not those of the decodes. -/
theorem mdec_early_read_counted :
    Relation.ReflTransGen Step ⟨init, [], []⟩ (Watch.read ⟨init, [], []⟩) ∧
      (Watch.read ⟨init, [], []⟩).reads.map Prod.snd ++
          wordsOf (unread (Watch.read ⟨init, [], []⟩).m) ≠
        ((parserOf init).feeds (Watch.read ⟨init, [], []⟩).written).2.flatMap wordsOf := by
  refine ⟨.single (.read _), fun hSame => ?_⟩
  have hLength := congrArg List.length hSame
  rw [List.length_append] at hLength
  have hReads : ((Watch.read ⟨init, [], []⟩).reads.map Prod.snd).length = 1 := rfl
  have hNone : (((parserOf init).feeds
    (Watch.read ⟨init, [], []⟩).written).2.flatMap wordsOf).length = 0 := rfl
  omega

end RecompStudio.Mdec
