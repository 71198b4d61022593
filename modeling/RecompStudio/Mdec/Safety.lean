import RecompStudio.Mdec.Machine

/-!
Whatever is written to the decoder, every access stays inside the buffers and
tables and every step of the arithmetic has a value.
-/

namespace RecompStudio.Mdec

open Checked

theorem grow_ge {cap need : Nat} (hCap : 0 < cap) : need ≤ grow cap need := by
  fun_induction grow cap need with
  | case1 cap hMore ih => exact ih (by omega)
  | case2 cap hDone => omega

/-- A capacity is never more than doubled beyond the need. -/
theorem grow_lt {cap need : Nat} (hLess : cap < need) : grow cap need < 2 * need := by
  fun_induction grow cap need with
  | case1 cap hMore ih =>
      by_cases hAgain : cap * 2 < need
      · exact ih hAgain
      · rw [grow, if_neg (by omega)]
        omega
  | case2 cap hDone => omega

section Capacity

variable (alloc : Nat → Bool) {initial cap need limit : Nat}

theorem ensureCapacity_cases (initial cap need : Nat) :
    (ensureCapacity alloc initial cap need = (true, cap) ∧ need ≤ cap) ∨
    (ensureCapacity alloc initial cap need = (true, grow (if cap = 0 then initial else cap) need) ∧
      cap < need) ∨
    (ensureCapacity alloc initial cap need = (false, cap) ∧ cap < need) := by
  unfold ensureCapacity
  by_cases hNeed : need ≤ cap
  · exact Or.inl ⟨if_pos hNeed, hNeed⟩
  · rw [if_neg hNeed]
    refine Or.inr ?_
    generalize (if cap = 0 then initial else cap) = start
    by_cases hAlloc : alloc (grow start need) = true
    · exact Or.inl ⟨if_pos hAlloc, by omega⟩
    · exact Or.inr ⟨if_neg hAlloc, by omega⟩

theorem ensureCapacity_enough (hInitial : 0 < initial)
    (hEnough : (ensureCapacity alloc initial cap need).1 = true) :
    need ≤ (ensureCapacity alloc initial cap need).2 := by
  rcases ensureCapacity_cases alloc initial cap need with ⟨hEq, hNeed⟩ | ⟨hEq, -⟩ | ⟨hEq, -⟩
  · rwa [hEq]
  · rw [hEq]
    refine grow_ge ?_
    split <;> omega
  · rw [hEq] at hEnough
    exact absurd hEnough (by simp)

theorem ensureCapacity_bounded (hInitial : initial < limit) (hCap : cap < limit)
    (hNeed : 2 * need ≤ limit) : (ensureCapacity alloc initial cap need).2 < limit := by
  rcases ensureCapacity_cases alloc initial cap need with ⟨hEq, -⟩ | ⟨hEq, -⟩ | ⟨hEq, -⟩
  · rwa [hEq]
  · have hStart : (if cap = 0 then initial else cap) < limit := by split <;> assumption
    rw [hEq]
    generalize (if cap = 0 then initial else cap) = start at hStart
    by_cases hLess : start < need
    · exact (grow_lt hLess).trans_le hNeed
    · rw [grow, if_neg (fun h => hLess h.2)]
      exact hStart
  · rwa [hEq]

end Capacity

/-- The number of halfwords that a decode command can ask for. -/
@[grind =] def maxHalfwords : Nat := 0xFFFF * 2

theorem expectedOf_le (value : Word) : expectedOf value ≤ maxHalfwords := by
  unfold expectedOf maxHalfwords
  split
  · have := (value.extractLsb' 0 16).isLt
    omega
  · split <;> norm_num
  · norm_num
  · norm_num

/-- The buffers hold what is in them, and a command under way has its data. -/
structure Sound (m : MDECState) : Prop where
  input : m.input.length ≤ m.expectedHalfwords
  expected : m.expectedHalfwords ≤ m.inputCap
  inputCap : m.inputCap < 2 ^ 18
  output : m.output.length ≤ m.outputCap
  outputCap : m.outputCap < 2 ^ 26
  position : m.outputPos ≤ m.output.length
  command : m.busy = true → m.expectedHalfwords = expectedOf m.command
  idle : m.busy = false → m.expectedHalfwords = 0

theorem sound_init : Sound init where
  input := Nat.zero_le _
  expected := Nat.zero_le _
  inputCap := by norm_num [init]
  output := Nat.zero_le _
  outputCap := by norm_num [init]
  position := Nat.zero_le _
  command h := absurd h (by decide)
  idle _ := rfl

section Steps

variable {alloc : Nat → Bool} {m : MDECState}

theorem Sound.finishCommand (hm : Sound m) : Sound (finishCommand m) :=
  { hm with
    input := Nat.zero_le _
    expected := Nat.zero_le _
    command := fun h => absurd h (by simp [Mdec.finishCommand])
    idle := fun _ => rfl }

theorem Sound.clearOutput (hm : Sound m) : Sound (clearOutput m) :=
  { hm with
    output := Nat.zero_le _
    position := Nat.zero_le _ }

/-- A byte is appended in its capacity, or dropped. -/
theorem Sound.appendByte (hm : Sound m) (value : Byte) (hRoom : m.output.length + 1 ≤ 2 ^ 25) :
    Sound (appendByte alloc m value) := by
  have hCap := ensureCapacity_bounded alloc (by norm_num : 4096 < 2 ^ 26) hm.outputCap
    (by omega : 2 * (m.output.length + 1) ≤ 2 ^ 26)
  unfold Mdec.appendByte
  dsimp only
  split
  · rename_i hEnough
    have hNeed := ensureCapacity_enough alloc (by norm_num) hEnough
    exact { hm with
      output := by simpa using hNeed
      outputCap := hCap
      position := by
        have := hm.position
        simp only [List.length_append]
        omega }
  · exact hm

theorem appendByte_length (m : MDECState) (value : Byte) :
    (appendByte alloc m value).output.length ≤ m.output.length + 1 := by
  unfold appendByte
  dsimp only
  split
  · simp
  · exact Nat.le_succ _

theorem Sound.appendBytes (bytes : List Byte) (hm : Sound m)
    (hRoom : m.output.length + bytes.length ≤ 2 ^ 25) :
    Sound (bytes.foldl (Mdec.appendByte alloc) m) := by
  induction bytes generalizing m with
  | nil => exact hm
  | cons byte bytes ih =>
      have hLength := @appendByte_length alloc m byte
      rw [List.length_cons] at hRoom
      exact ih (hm.appendByte byte (by omega)) (by omega)

/-- A decode of a command's data: its output fits in 32 bits with room to
spare. -/
theorem Sound.executeDecode (hm : Sound m) (hLength : m.input.length ≤ maxHalfwords) :
    ∃ m', executeDecode alloc m = some m' ∧ Sound m' := by
  obtain ⟨bytes, pos, hDecode, hBytes, -⟩ := decode_bounded m.settings m.input
  have hAppended : Sound (bytes.foldl (Mdec.appendByte alloc) (Mdec.clearOutput m)) := by
    refine hm.clearOutput.appendBytes bytes ?_
    simp only [Mdec.clearOutput, List.length_nil, maxHalfwords] at hLength ⊢
    omega
  refine ⟨{ bytes.foldl (Mdec.appendByte alloc) (Mdec.clearOutput m) with decodeInputPos := pos },
    ?_, { hAppended with }⟩
  rw [Mdec.executeDecode, hDecode]
  rfl

theorem inputByte_eq_some {i : Nat} (hi : i / 2 < m.input.length) :
    ∃ byte, inputByte m i = some byte := by
  rw [inputByte, List.getElem?_eq_getElem hi]
  exact ⟨_, rfl⟩

theorem exists_table {f : Nat → Option Byte} (h : ∀ i < 64, ∃ byte, f i = some byte) :
    ∃ table, tabulate 64 f = some table := by
  obtain ⟨table, hTable, -⟩ := exists_tabulate (P := fun _ => True) fun i hi => by
    obtain ⟨byte, hByte⟩ := h i hi
    exact ⟨byte, hByte, trivial⟩
  exact ⟨table, hTable⟩

/-- A command is carried out on exactly the data that it asked for. -/
theorem Sound.executeCommand (hm : Sound m) (hLength : m.input.length = expectedOf m.command) :
    ∃ m', executeCommand alloc m = some m' ∧ Sound m' := by
  unfold Mdec.executeCommand
  split
  · rename_i hOp
    have hHalf : 32 ≤ m.input.length := by
      rw [hLength, expectedOf, hOp]
      change 32 ≤ if m.command.getLsbD 0 then 64 else 32
      split <;> norm_num
    obtain ⟨yQuant, hY⟩ := exists_table (f := inputByte m) fun i hi =>
      inputByte_eq_some (by omega)
    rw [hY]
    simp only [Option.bind_eq_bind, Option.bind_some]
    split
    · rename_i hBoth
      have hWhole : m.input.length = 64 := by
        rw [hLength, expectedOf, hOp]
        exact if_pos hBoth
      obtain ⟨uvQuant, hUv⟩ := exists_table (f := fun i => inputByte m (64 + i)) fun i hi =>
        inputByte_eq_some (by omega)
      rw [hUv]
      exact ⟨_, rfl, Sound.finishCommand { hm with }⟩
    · exact ⟨_, rfl, Sound.finishCommand { hm with }⟩
  · rename_i hOp
    have hWhole : m.input.length = 64 := by
      rw [hLength, expectedOf, hOp]
      rfl
    obtain ⟨entries, hEntries, -⟩ := exists_tabulate (P := fun _ => True)
      (f := fun t => m.input[transposed t]?) fun t (ht : t < 64) => by
        have hIn : transposed t < m.input.length := by
          unfold transposed
          omega
        exact ⟨_, List.getElem?_eq_getElem hIn, trivial⟩
    rw [hEntries]
    exact ⟨_, rfl, Sound.finishCommand { hm with }⟩
  · obtain ⟨m', hDecode, hm'⟩ := @Sound.executeDecode alloc _ hm (by
      rw [hLength]
      exact expectedOf_le _)
    rw [hDecode]
    exact ⟨_, rfl, hm'.finishCommand⟩
  · exact ⟨_, rfl, hm.finishCommand⟩

theorem Sound.beginCommand (hm : Sound m) (value : Word) : Sound (beginCommand alloc m value) := by
  have hExpected := expectedOf_le value
  have hCap := ensureCapacity_bounded alloc (by norm_num : 256 < 2 ^ 18) hm.inputCap
    (by simp only [maxHalfwords] at hExpected; omega : 2 * expectedOf value ≤ 2 ^ 18)
  unfold Mdec.beginCommand
  dsimp only
  split
  · rename_i hNone
    exact Sound.finishCommand {
      input := Nat.zero_le _
      expected := by rw [hNone]; exact Nat.zero_le _
      inputCap := hm.inputCap
      output := hm.output
      outputCap := hm.outputCap
      position := hm.position
      command := fun _ => rfl
      idle := fun h => Bool.noConfusion h }
  · split
    · rename_i hEnough
      exact {
        input := Nat.zero_le _
        expected := ensureCapacity_enough alloc (by norm_num) hEnough
        inputCap := hCap
        output := hm.output
        outputCap := hm.outputCap
        position := hm.position
        command := fun _ => rfl
        idle := fun h => Bool.noConfusion h }
    · exact {
        input := Nat.zero_le _
        expected := Nat.zero_le _
        inputCap := hm.inputCap
        output := hm.output
        outputCap := hm.outputCap
        position := hm.position
        command := fun h => Bool.noConfusion h
        idle := fun _ => rfl }

/-- A halfword that the command still waits for has its place. -/
theorem Sound.pushInput (hm : Sound m) (value : Halfword)
    (hMore : m.input.length < m.expectedHalfwords) :
    ∃ m', pushInput m value = some m' ∧ m' = { m with input := m.input ++ [value] } ∧ Sound m' := by
  refine ⟨_, if_pos (hMore.trans_le hm.expected), rfl, { hm with input := ?_ }⟩
  rw [List.length_append]
  exact hMore

theorem Sound.pushWord (hm : Sound m) (value : Word)
    (hMore : m.input.length < m.expectedHalfwords) :
    ∃ m', pushWord m value = some m' ∧ Sound m' ∧ m'.busy = m.busy := by
  obtain ⟨m1, hPush, hEq, hm1⟩ := hm.pushInput (value.extractLsb' 0 16) hMore
  unfold Mdec.pushWord
  rw [hPush]
  simp only [Option.bind_eq_bind, Option.bind_some]
  split
  · rename_i hStill
    obtain ⟨m2, hPush2, hEq2, hm2⟩ := hm1.pushInput (value.extractLsb' 16 16) hStill
    exact ⟨m2, hPush2, hm2, by rw [hEq2, hEq]⟩
  · exact ⟨m1, rfl, hm1, by rw [hEq]⟩

theorem Sound.writeData (hm : Sound m) (value : Word) :
    ∃ m', writeData alloc m value = some m' ∧ Sound m' := by
  unfold Mdec.writeData
  by_cases hData : m.busy ∧ m.input.length < m.expectedHalfwords
  · obtain ⟨m1, hPush, hm1, hBusy⟩ := hm.pushWord value hData.2
    rw [if_pos hData, hPush]
    simp only [Option.bind_eq_bind, Option.bind_some]
    split
    · rename_i hFull
      refine hm1.executeCommand ?_
      rw [← hm1.command (by rw [hBusy, hData.1])]
      exact le_antisymm hm1.input hFull
    · exact ⟨m1, rfl, hm1⟩
  · rw [if_neg hData]
    exact ⟨_, rfl, hm.beginCommand value⟩

theorem Sound.writeControl (hm : Sound m) (value : Word) : Sound (writeControl m value) := by
  unfold Mdec.writeControl
  dsimp only
  split
  · exact {
      input := Nat.zero_le _
      expected := Nat.zero_le _
      inputCap := hm.inputCap
      output := Nat.zero_le _
      outputCap := hm.outputCap
      position := Nat.zero_le _
      command := fun h => absurd h (by simp [softReset, init])
      idle := fun _ => rfl }
  · exact { hm with }

theorem Sound.readWord (hm : Sound m) : Sound (readWord m).2 := by
  have hTaken : m.outputPos + ((m.output.drop m.outputPos).take 4).length ≤ m.output.length := by
    have hPosition := hm.position
    rw [List.length_take, List.length_drop]
    omega
  unfold Mdec.readWord
  dsimp only
  split
  · exact Sound.clearOutput { hm with position := hTaken }
  · exact { hm with position := hTaken }

end Steps

/-- An access of the processor or of a DMA channel. -/
inductive Access where
  | data (value : Word)
  | control (value : Word)
  | read
deriving DecidableEq, Repr

variable (alloc : Nat → Bool)

def access (m : MDECState) : Access → Option MDECState
  | .data value => writeData alloc m value
  | .control value => some (writeControl m value)
  | .read => some (readWord m).2

theorem Sound.access {m : MDECState} (hm : Sound m) (a : Access) :
    ∃ m', access alloc m a = some m' ∧ Sound m' := by
  cases a with
  | data value => exact hm.writeData value
  | control value => exact ⟨_, rfl, hm.writeControl value⟩
  | read => exact ⟨_, rfl, hm.readWord⟩

/-- Accesses one after the other. -/
def accesses (m : MDECState) (l : List Access) : Option MDECState := l.foldlM (access alloc) m

theorem Sound.accesses {m : MDECState} (hm : Sound m) (l : List Access) :
    ∃ m', accesses alloc m l = some m' ∧ Sound m' := by
  induction l generalizing m with
  | nil => exact ⟨m, rfl, hm⟩
  | cons a l ih =>
      obtain ⟨next, hNext, hSound⟩ := hm.access alloc a
      obtain ⟨last, hLast, hEnd⟩ := ih hSound
      refine ⟨last, ?_, hEnd⟩
      rw [Mdec.accesses, List.foldlM_cons, hNext]
      exact hLast

/-- No sequence of accesses reads or writes outside a buffer or table, leaves the
range of a type or runs on for ever; nor does a decode with any tables. -/
theorem mdec_safe :
    (∀ l, ∃ m, accesses alloc init l = some m ∧ Sound m) ∧
    ∀ s input, ∃ bytes pos, decode s input = some (bytes, pos) ∧ pos ≤ input.length :=
  ⟨fun l => sound_init.accesses alloc l, fun s input => by
    obtain ⟨bytes, pos, hDecode, -, hEnd⟩ := decode_bounded s input
    exact ⟨bytes, pos, hDecode, hEnd⟩⟩

end RecompStudio.Mdec
