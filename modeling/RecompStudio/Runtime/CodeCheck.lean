import RecompStudio.Library.Crc
import Mathlib.Data.List.TakeWhile
import RecompStudio.Runtime.OverlayLoader

/-!
What the CRC-32 of the runtime is, and what it tells apart: the code that an overlay
candidate was compiled from, and the dump that a game expects.
-/

namespace RecompStudio.Runtime

/-- The polynomial of `crc32_init_table`. -/
def crcPolynomial : Word := 0xEDB88320

/-- `crc32_update`. -/
def crc32Update (crc : Word) (data : List Byte) : Word := data.foldl crc32Byte crc

/-- `crc32_compute`. -/
@[grind =] def crc32Compute (data : List Byte) : Word := crc32Update 0xFFFFFFFF data ^^^ 0xFFFFFFFF

/-- `crc32_stream`, by what its reads return: an empty one ends it. -/
def crc32Stream (reads : List (List Byte)) : Word :=
  (reads.takeWhile fun chunk => !chunk.isEmpty).foldl crc32Update 0xFFFFFFFF ^^^ 0xFFFFFFFF

/-- The code of a candidate, range by range. -/
def codeBytes (ram : Nat → Byte) (ranges : List CodeRange) : List Byte :=
  ranges.flatMap fun r => r.bytes ram

/-- One stream with two contents of at most four bytes in the same place of it. -/
structure Burst (one other : List Byte) : Prop where
  differs : ∃ before behind xs ys : List Byte, one = before ++ xs ++ behind ∧
    other = before ++ ys ++ behind ∧ xs.length = ys.length ∧ xs.length ≤ 4 ∧ xs ≠ ys

theorem crc32Table_eq (i : Word) : crc32Table i = Crc.shifts crcPolynomial 8 i := by
  refine congrFun (congrArg (fun f => f^[8]) (funext fun c => ?_)) i
  have hLow : c &&& 1 = 1 ↔ c.getLsbD 0 = true := by
    rw [show (1 : Word) = 1#32 from rfl, BitVec.and_one_eq_setWidth_ofBool_getLsbD]
    cases c.getLsbD 0 <;> decide
  unfold Crc.shift
  by_cases hBit : c.getLsbD 0 = true
  · rw [if_pos (hLow.mpr hBit), if_pos hBit]
    rfl
  · rw [if_neg fun h => hBit (hLow.mp h), if_neg hBit]

theorem crc32Byte_eq (crc : Word) (b : Byte) : crc32Byte crc b = Crc.byte crcPolynomial crc b := by
  rw [← Crc.tableByte_eq crcPolynomial (by decide), Crc.tableByte, ← crc32Table_eq]
  rfl

/-- The table does what eight shifts for each byte do. -/
theorem crc32Update_eq (crc : Word) (data : List Byte) :
    crc32Update crc data = Crc.feed crcPolynomial crc data := by
  have hByte : crc32Byte = Crc.byte crcPolynomial := by
    funext crc b
    exact crc32Byte_eq crc b
  rw [crc32Update, hByte]
  rfl

theorem crc32Update_append (crc : Word) (xs ys : List Byte) :
    crc32Update crc (xs ++ ys) = crc32Update (crc32Update crc xs) ys :=
  List.foldl_append

/-- Pieces are summed as the whole. -/
theorem foldl_crc32Update (crc : Word) (pieces : List (List Byte)) :
    pieces.foldl crc32Update crc = crc32Update crc pieces.flatten := by
  induction pieces generalizing crc with
  | nil => rfl
  | cons piece pieces ih =>
      rw [List.foldl_cons, ih, List.flatten_cons, crc32Update_append]

theorem crc32Update_ne_of_burst {one other : List Byte} (hBurst : Burst one other) (crc : Word) :
    crc32Update crc one ≠ crc32Update crc other := by
  obtain ⟨before, behind, xs, ys, rfl, rfl, hLength, hFour, hChanged⟩ := hBurst.differs
  rw [crc32Update_eq, crc32Update_eq]
  exact Crc.feed_burst_ne crcPolynomial (by decide) crc before behind hLength (by omega) hChanged

theorem crc32Compute_ne_of_burst {one other : List Byte} (hBurst : Burst one other) :
    crc32Compute one ≠ crc32Compute other := by
  intro hSame
  exact crc32Update_ne_of_burst hBurst _ ((BitVec.xor_left_inj _).mp hSame)

theorem candCrc_eq (ram : Nat → Byte) (ranges : List CodeRange) :
    candCrc ram ranges = crc32Compute (codeBytes ram ranges) := by
  rw [crc32Compute, codeBytes, List.flatMap, ← foldl_crc32Update, List.foldl_map]
  rfl

/-- A candidate that was compiled from the code of one memory is never taken in another
whose code differs from it in a burst of at most four bytes, neither by the first check
nor by the second, unless the generations of its pages still stand as they were. -/
theorem burst_rejected {c : Candidate} {m m' : Memory}
    (hCompiled : candCrc m.ram c.ranges = c.crcCode)
    (hBurst : Burst (codeBytes m.ram c.ranges) (codeBytes m'.ram c.ranges))
    (hMoved : ¬c.Current m') : (c.validate m').2 = false ∧ (c.revalidate m').2 = false := by
  have hOther : candCrc m'.ram c.ranges ≠ c.crcCode := by
    rw [← hCompiled, candCrc_eq, candCrc_eq]
    exact (crc32Compute_ne_of_burst hBurst).symm
  have hValid : ¬(c.state = .valid ∧ c.Current m') := fun h => hMoved h.2
  have hInvalid : ¬(c.state = .invalid ∧ c.Current m') := fun h => hMoved h.2
  constructor
  · rw [Candidate.validate, if_neg hValid, if_neg hInvalid, if_neg hOther]
  · rw [Candidate.revalidate, if_neg hValid, if_neg hOther]

/-- One word of code that changes in its last byte, with its page written to. -/
theorem burst_rejected_word :
    let c : Candidate := ⟨0x10000, [⟨0x10000, 4, by decide, by decide⟩],
      candCrc zeroMemory.ram [⟨0x10000, 4, by decide, by decide⟩], 0, .valid, none, 0, false⟩
    (c.revalidate { zeroMemory with
      ram := fun a => if a = 0x10003 then 8 else 0, pageGen := fun _ => 1 }).2 = false :=
  (burst_rejected (m := zeroMemory) rfl
    ⟨[0, 0, 0], [], [0], [8], rfl, rfl, rfl, by decide, by decide⟩ (by decide)).2

/-- The check of a disc image: however its reads cut the file, the stream is summed as
the remainder of the whole file by the polynomial, and a dump that differs from the
expected one in a burst of at most four bytes does not match. -/
theorem crc32Stream_identifies (reads : List (List Byte)) (hReads : ∀ chunk ∈ reads, chunk ≠ []) :
    crc32Stream reads =
        Crc.feed crcPolynomial 0xFFFFFFFF reads.flatten ^^^ 0xFFFFFFFF ∧
      ∀ dump, Burst reads.flatten dump → crc32Stream reads ≠ crc32Compute dump := by
  have hAll : reads.takeWhile (fun chunk => !chunk.isEmpty) = reads := by
    rw [List.takeWhile_eq_self_iff]
    intro chunk hChunk
    simpa using hReads chunk hChunk
  have hWhole : crc32Stream reads = crc32Compute reads.flatten := by
    rw [crc32Stream, hAll, foldl_crc32Update, crc32Compute]
  constructor
  · rw [hWhole, crc32Compute, crc32Update_eq]
  · intro dump hBurst
    rw [hWhole]
    exact crc32Compute_ne_of_burst hBurst

/-- Two reads of three bytes, and a dump with another last byte. -/
theorem crc32Stream_identifies_reads :
    crc32Stream [[0x31, 0x32], [0x33]] ≠ crc32Compute [0x31, 0x32, 0x34] :=
  (crc32Stream_identifies [[0x31, 0x32], [0x33]] (by decide)).2 [0x31, 0x32, 0x34]
    ⟨[0x31, 0x32], [], [0x33], [0x34], rfl, rfl, rfl, by decide, by decide⟩

end RecompStudio.Runtime
