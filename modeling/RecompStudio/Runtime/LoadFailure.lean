import RecompStudio.Runtime.BootState

/-!
Loads that fail. The sections are applied as they are read, so that what a failed
load leaves behind is decided by the sections before the failure.
-/

namespace RecompStudio.BootState

open Serial

variable (D : Devices)

/-- The length that a section with a tag has to have. -/
def fits (p : List Byte) : Tag → Bool
  | .cpu => p.length == 524
  | .ram => p.length == ramSize
  | .spad => p.length == spadSize
  | .irq => p.length == 8
  | .timer => p.length == 52
  | .clock => p.length == 8
  | .gpu => p.length == gpuModule.snapshotBytes
  | .vram => p.length == vramSize
  | .spu => p.length == spuModule.snapshotBytes
  | .spuram => p.length == spuRamSize
  | .cdrom => p.length == D.cdrom.snapshotBytes
  | .dma => p.length == D.dma.snapshotBytes
  | .sio => p.length == D.sio.snapshotBytes
  | .dirty => p.length % 4 == 0

/-- A section with a known tag and the length of that tag. -/
def applicable (s : Section) : Bool := (Tag.ofCode s.tag).any (fits D s.payload)

/-- The sections of a file up to the first that is cut off or not applicable, and
whether there is none such. -/
def goodSections : Nat → List Byte → List Section × Bool
  | 0, _ => ([], true)
  | n + 1, file =>
      match readSection file with
      | none => ([], false)
      | some (s, rest) =>
          if applicable D s then (s :: (goodSections n rest).1, (goodSections n rest).2)
          else ([], false)

/-- The sections behind a header. -/
def fileSections (file : List Byte) : List Section × Bool :=
  goodSections D (arrayGet 4 file 7).toNat (file.drop 36)

def seenTags (ss : List Section) : Nat :=
  ss.foldl (fun seen s => if s.tag < 32 then seen ||| 2 ^ s.tag else seen) 0

/-- A file with all its sections good and every required one among them. -/
def complete (file : List Byte) : Bool :=
  (fileSections D file).2 && (seenTags (fileSections D file).1 &&& required == required)

/-- A section that holds nothing: a bitmap of dirty pages without a word. -/
def Section.blank (s : Section) : Prop := s.tag = Tag.dirty.code ∧ s.payload = []

variable {D}

section Apply

variable {entryPc : Word} {m : Machine D} {s : Section} {ss : List Section} {file p : List Byte}

theorem snapshotRead_isSome (M : SnapModule) (v : M.Vars) :
    (M.snapshotRead p v).isSome = (p.length == M.snapshotBytes) := by
  unfold SnapModule.snapshotRead
  split
  · rename_i h
    simp [h]
  · rename_i h
    simp [h]

theorem applyTag_isSome (t : Tag) : (applyTag entryPc p m t).isSome = fits D p t := by
  cases t <;> simp only [applyTag, fits, Option.isSome_map, snapshotRead_isSome] <;>
    split <;> simp_all

theorem applySection_isSome : (applySection entryPc s m).isSome = applicable D s := by
  unfold applySection applicable
  cases Tag.ofCode s.tag with
  | none => rfl
  | some t => exact applyTag_isSome t

/-- A section applied, or nothing. -/
@[grind =] def applyOne (entryPc : Word) (m : Machine D) (s : Section) : Machine D :=
  (applySection entryPc s m).getD m

theorem loadSections_eq (n : Nat) (seen : Nat) :
    loadSections entryPc n file m seen =
      ((goodSections D n file).2, (goodSections D n file).1.foldl (applyOne entryPc) m,
        (goodSections D n file).1.foldl
          (fun seen s => if s.tag < 32 then seen ||| 2 ^ s.tag else seen) seen) := by
  induction n generalizing file m seen with
  | zero => rfl
  | succ n ih =>
      unfold loadSections goodSections
      cases readSection file with
      | none => rfl
      | some r =>
          obtain ⟨s, rest⟩ := r
          dsimp only
          have hSome : (applySection entryPc s m).isSome = applicable D s := applySection_isSome
          cases hApply : applySection entryPc s m with
          | none =>
              have hBad : applicable D s = false := by rw [← hSome, hApply]; rfl
              simp only [hBad, Bool.false_eq_true, if_false]
              rfl
          | some m' =>
              have hGood : applicable D s = true := by rw [← hSome, hApply]; rfl
              have hOne : applyOne entryPc m s = m' := by rw [applyOne, hApply]; rfl
              simp only [hGood, if_true]
              rw [ih, List.foldl_cons, List.foldl_cons, hOne]

/-- A load by the sections of its file. -/
theorem bootStateLoad_eq (key : Key) (hHeader : headerAccepted key file = true) :
    bootStateLoad key (some file) m =
      (complete D file, (fileSections D file).1.foldl (applyOne key.entryPc) m) := by
  unfold bootStateLoad
  simp only [hHeader, if_true, loadSections_eq]
  rfl

theorem applyOne_blank (hBlank : s.blank) : applyOne entryPc m s = m := by
  obtain ⟨hTag, hPayload⟩ := hBlank
  have hApply : applySection entryPc s m = some m := by
    unfold applySection
    rw [hTag, hPayload]
    rfl
  rw [applyOne, hApply]
  rfl

theorem foldl_blank (hBlank : ∀ s ∈ ss, s.blank) : ss.foldl (applyOne entryPc) m = m := by
  induction ss with
  | nil => rfl
  | cons s ss ih =>
      rw [List.foldl_cons, applyOne_blank (hBlank s (.head _))]
      exact ih fun s hs => hBlank s (.tail _ hs)

end Apply

/-- Some part of the machine has one and the same value behind a section, whatever
it had before, and can have another. -/
def Marks (f : Machine D → Machine D) : Prop :=
  ∃ (X : Type) (part : Machine D → X) (v : X), (∀ m, part (f m) = v) ∧ ∃ m, part m ≠ v

section Marks

variable {entryPc : Word} {s : Section} {p : List Byte}

theorem word_exists_ne {n : Nat} (v : BitVec (n + 1)) : ∃ w, w ≠ v := by
  by_contra hNone
  have hZero : 0#(n + 1) = v := not_not.mp fun h => hNone ⟨_, h⟩
  have hOne : 1#(n + 1) = v := not_not.mp fun h => hNone ⟨_, h⟩
  have hEq := congrArg BitVec.toNat (hZero.trans hOne.symm)
  simp at hEq

/-- A part that a section sets to a value of its own. -/
theorem Marks.of_set {X : Type} {f : Machine D → Machine D} (part : Machine D → X)
    (set : X → Machine D) (v : X) (hApply : ∀ m, part (f m) = v) (hSet : ∀ x, part (set x) = x)
    (hOther : ∃ x, x ≠ v) : Marks f := by
  obtain ⟨x, hx⟩ := hOther
  exact ⟨X, part, v, hApply, set x, by rwa [hSet]⟩

/-- A module marks with the fields that its snapshot lists. -/
theorem SnapModule.marks (M : SnapModule) (hFits : p.length = M.snapshotBytes)
    (part : Machine D → M.Vars) (set : M.Vars → Machine D → Machine D)
    (hSet : ∀ v m, part (set v m) = v) :
    Marks fun m : Machine D => ((M.snapshotRead p (part m)).map fun v => set v m).getD m := by
  obtain ⟨f, hMem, hPos⟩ := M.stateful
  have hRead : ∀ v, M.snapshotRead p v = some (readFields M.size p v M.fields) :=
    fun v => if_pos hFits
  obtain ⟨b, hb⟩ := Bytes.exists_ne hPos
    (readFields M.size p (part (Machine.zero D)) M.fields f)
  refine ⟨Bytes (M.size f), fun m => part m f,
    readFields M.size p (part (Machine.zero D)) M.fields f, fun m => ?_,
    set (Function.update (part (Machine.zero D)) f b) (Machine.zero D), ?_⟩
  · dsimp only
    rw [hRead, Option.map_some, Option.getD_some, hSet]
    exact readFields_congr hMem
  · dsimp only
    rw [hSet, Function.update_self]
    exact hb

theorem marks_block {n : Nat} (hPos : 0 < n) (hFits : p.length = n)
    (part : Machine D → Bytes n) (set : Bytes n → Machine D → Machine D)
    (hSet : ∀ b m, part (set b m) = b) :
    Marks fun m : Machine D =>
      (if p.length = n then some (set (.ofList n p) m) else none).getD m := by
  refine .of_set part (fun b => set b (Machine.zero D)) (.ofList n p) (fun m => ?_)
    (fun b => hSet b _) (Bytes.exists_ne hPos _)
  rw [if_pos hFits]
  exact hSet _ m

/-- Every section with something in it marks the machine. -/
theorem marks_applyTag {t : Tag} (hFits : fits D p t = true) (hFull : t = .dirty → p ≠ []) :
    Marks fun m : Machine D => (applyTag entryPc p m t).getD m := by
  cases t with
  | cpu =>
      have hLength : p.length = 524 := by simpa [fits] using hFits
      refine .of_set (fun m => m.cpu.hi)
        (fun w => { Machine.zero D with cpu := { (Machine.zero D).cpu with hi := w } })
        (arrayGet 4 p 33) (fun m => ?_) (fun _ => rfl) (word_exists_ne _)
      rw [applyTag, if_pos hLength]
      rfl
  | ram =>
      exact marks_block (by decide) (by simpa [fits] using hFits) (fun m => m.ram)
        (fun b m => { m with ram := b }) fun _ _ => rfl
  | spad =>
      exact marks_block (by decide) (by simpa [fits] using hFits) (fun m => m.scratchpad)
        (fun b m => { m with scratchpad := b }) fun _ _ => rfl
  | vram =>
      exact marks_block (by decide) (by simpa [fits] using hFits) (fun m => m.vram)
        (fun b m => { m with vram := b }) fun _ _ => rfl
  | spuram =>
      exact marks_block (by decide) (by simpa [fits] using hFits) (fun m => m.spuRam)
        (fun b m => { m with spuRam := b }) fun _ _ => rfl
  | irq =>
      have hLength : p.length = 8 := by simpa [fits] using hFits
      refine .of_set (fun m => m.iStat) (fun w => { Machine.zero D with iStat := w })
        (arrayGet 4 p 0) (fun m => ?_) (fun _ => rfl) (word_exists_ne _)
      rw [applyTag, if_pos hLength]
      rfl
  | timer =>
      have hLength : p.length = 52 := by simpa [fits] using hFits
      refine .of_set (fun m => m.timers.frac 0)
        (fun w => { Machine.zero D with
          timers := { (Machine.zero D).timers with frac := fun _ => w } })
        (arrayGet 4 (p.drop 40) 0) (fun m => ?_) (fun _ => rfl) (word_exists_ne _)
      rw [applyTag, if_pos hLength]
      rfl
  | clock =>
      have hLength : p.length = 8 := by simpa [fits] using hFits
      refine .of_set (fun m => m.cycleCount) (fun w => { Machine.zero D with cycleCount := w })
        (bitsOf 8 p) (fun m => ?_) (fun _ => rfl) (word_exists_ne _)
      rw [applyTag, if_pos hLength]
      rfl
  | gpu =>
      exact gpuModule.marks (by simpa [fits] using hFits) (fun m => m.gpu)
        (fun v m => { m with gpu := v }) fun _ _ => rfl
  | spu =>
      exact spuModule.marks (by simpa [fits] using hFits) (fun m => m.spu)
        (fun v m => { m with spu := v }) fun _ _ => rfl
  | cdrom =>
      exact D.cdrom.marks (by simpa [fits] using hFits) (fun m => m.cdrom)
        (fun v m => { m with cdrom := v }) fun _ _ => rfl
  | dma =>
      exact D.dma.marks (by simpa [fits] using hFits) (fun m => m.dma)
        (fun v m => { m with dma := v }) fun _ _ => rfl
  | sio =>
      exact D.sio.marks (by simpa [fits] using hFits) (fun m => m.sio)
        (fun v m => { m with sio := v }) fun _ _ => rfl
  | dirty =>
      have hMod : p.length % 4 = 0 := by simpa [fits] using hFits
      have hPos : 0 < p.length := List.length_pos_iff.mpr (hFull rfl)
      refine .of_set (fun m => m.dirty ⟨0, by decide⟩)
        (fun w => { Machine.zero D with dirty := fun _ => w })
        (arrayGet 4 p 0) (fun m => ?_) (fun _ => rfl) (word_exists_ne _)
      have hWord : 0 < p.length / 4 := by omega
      rw [applyTag, if_neg (by simpa using hMod)]
      exact if_pos hWord

theorem ofCode_eq {code : Nat} {t : Tag} (h : Tag.ofCode code = some t) : t.code = code := by
  have hFound := List.find?_some h
  simpa using hFound

theorem marks_applyOne (hGood : applicable D s = true) (hFull : ¬s.blank) :
    Marks fun m : Machine D => applyOne entryPc m s := by
  unfold applicable at hGood
  cases hTag : Tag.ofCode s.tag with
  | none => rw [hTag] at hGood; exact absurd hGood (by simp)
  | some t =>
      rw [hTag] at hGood
      have hMarks : Marks fun m : Machine D => (applyTag entryPc s.payload m t).getD m := by
        refine marks_applyTag hGood fun hDirty hEmpty => hFull ⟨?_, hEmpty⟩
        rw [← ofCode_eq hTag, hDirty]
      have hOne : (fun m : Machine D => applyOne entryPc m s) =
          fun m => (applyTag entryPc s.payload m t).getD m := by
        funext m
        unfold applyOne applySection
        rw [hTag]
      rw [hOne]
      exact hMarks

end Marks

section Failure

variable {entryPc : Word} {ss : List Section} {file : List Byte} {s : Section}

theorem goodSections_applicable {n : Nat} :
    ∀ s ∈ (goodSections D n file).1, applicable D s = true := by
  induction n generalizing file with
  | zero => intro s hs; exact absurd hs (by simp [goodSections])
  | succ n ih =>
      intro s hs
      unfold goodSections at hs
      split at hs
      · exact absurd hs (by simp)
      · split at hs
        · rename_i hGood
          rcases List.mem_cons.mp hs with rfl | hs
          · exact hGood
          · exact ih s hs
        · exact absurd hs (by simp)

/-- Sections of which one holds something change some machine. -/
theorem exists_changed (hGood : ∀ s ∈ ss, applicable D s = true) (hFull : ∃ s ∈ ss, ¬s.blank) :
    ∃ m : Machine D, ss.foldl (applyOne entryPc) m ≠ m := by
  -- the last section that holds something decides
  induction ss using List.reverseRecOn with
  | nil => simp at hFull
  | append_singleton ss s ih =>
      by_cases hBlank : s.blank
      · have hTail : ∃ t ∈ ss, ¬t.blank := by
          obtain ⟨t, hMem, hNot⟩ := hFull
          rcases List.mem_append.mp hMem with hMem | hMem
          · exact ⟨t, hMem, hNot⟩
          · rw [List.mem_singleton.mp hMem] at hNot
            exact absurd hBlank hNot
        obtain ⟨m, hm⟩ := ih (fun t ht => hGood t (List.mem_append_left _ ht)) hTail
        refine ⟨m, ?_⟩
        rwa [List.foldl_append, List.foldl_cons, List.foldl_nil, applyOne_blank hBlank]
      · have hMarks : Marks fun m : Machine D => applyOne entryPc m s :=
          marks_applyOne (hGood s (by simp)) hBlank
        obtain ⟨X, part, v, hApply, m, hm⟩ := hMarks
        refine ⟨m, fun hSame => hm ?_⟩
        rw [← hSame, List.foldl_append, List.foldl_cons, List.foldl_nil]
        exact hApply _

/-- What a failed load of a file changes: nothing in any machine exactly if there is
no file, its header is not accepted, the load does not fail, or the sections before
the failure hold nothing. -/
theorem failed_load_untouched_iff (key : Key) (file : Option (List Byte)) :
    (∀ m : Machine D, (bootStateLoad key file m).1 = false → (bootStateLoad key file m).2 = m) ↔
      ∀ bytes, file = some bytes → headerAccepted key bytes = true → complete D bytes = false →
        ∀ s ∈ (fileSections D bytes).1, s.blank := by
  constructor
  · rintro hUntouched bytes rfl hHeader hFails s hMem
    by_contra hNot
    obtain ⟨m, hm⟩ := exists_changed (D := D) goodSections_applicable ⟨s, hMem, hNot⟩
    have hLoad := bootStateLoad_eq (m := m) key hHeader
    have hSame := hUntouched m (by rw [hLoad, hFails])
    rw [hLoad] at hSame
    exact hm hSame
  · intro hBlank m hFailed
    cases file with
    | none => rfl
    | some bytes =>
        by_cases hHeader : headerAccepted key bytes = true
        · rw [bootStateLoad_eq key hHeader] at hFailed ⊢
          exact foldl_blank (hBlank bytes rfl hHeader hFailed)
        · unfold bootStateLoad
          dsimp only
          rw [if_neg hHeader]

end Failure

/-- A file with a good header and one good section, which is not all. -/
def irqOnly : List Byte :=
  headerBytes gameKey 1#32 ++ Section.bytes ⟨Tag.irq.code, arrayBytes 4 [1#32, 0#32]⟩

/-- Its load fails, with the interrupt of the file pending. -/
theorem irqOnly_touches :
    (bootStateLoad gameKey (some irqOnly) (Machine.zero byteDevices)).1 = false ∧
    (bootStateLoad gameKey (some irqOnly) (Machine.zero byteDevices)).2 ≠
      Machine.zero byteDevices := by
  have hStat :
      (bootStateLoad gameKey (some irqOnly) (Machine.zero byteDevices)).2.iStat = 1#32 := by
    decide
  have hZero : (Machine.zero byteDevices).iStat = 0#32 := by
    unfold Machine.zero
    rfl
  refine ⟨by decide, fun hSame => ?_⟩
  rw [hSame, hZero] at hStat
  exact absurd hStat (by decide)

end RecompStudio.BootState
