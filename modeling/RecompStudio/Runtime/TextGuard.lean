import RecompStudio.Library.Machine
import RecompStudio.Runtime.Memory

/-!
The text guard: a compiled game function may run in place of the RAM text while
the guard finds its bytes to be those of the boot image. The guard looks at the
page of the entry and at the 256 bytes behind it, whatever the function's extent.
-/

namespace RecompStudio.Runtime

open Machine

/-- A statically compiled game function and the image it was compiled from. -/
structure CompiledFunction where
  image : TextImage
  entry : Nat
  fin : Nat
  lo_le : image.lo ≤ entry
  entry_lt : entry < fin
  fin_le : fin ≤ image.hi

namespace CompiledFunction

variable (f : CompiledFunction)

/-- The bytes of the function are those of the image it was compiled from. -/
def Intact (bytes : Nat → Byte) : Prop :=
  ∀ a, f.entry ≤ a → a < f.fin → bytes a = f.image.bytes a

/-- Whatever the RAM holds behind the first 256 bytes, it is the image while
the first 256 bytes are. A function of at most 256 bytes always has this. -/
def HeadDecides (ram : Nat → Byte) : Prop :=
  (∀ a, f.entry ≤ a → a < f.fin → a < f.entry + 256 → ram a = f.image.bytes a) → f.Intact ram

/-- The page of the entry is marked as written. -/
def Flagged (m : Memory) : Prop :=
  m.text.modified (pageOf f.entry) = true ∨ m.dirty (pageOf f.entry) = true

/-- A store leaves every byte of the function that it writes as in the image. -/
def Agrees (phys size : Nat) (val : Word) : Prop :=
  ∀ a, f.entry ≤ a → a < f.fin → phys ≤ a → a < phys + size →
    byteOf val (a - phys) = f.image.bytes a

end CompiledFunction

/-- What happens to the text guard behind the registration. -/
inductive TextEvent where
  | store (phys : Nat) (width : Width) (val : Word)
  | markExecutable (phys len : Nat)
  | bless (phys len : Nat) (bytes : Nat → Byte)
  | activate (floor : Nat)
  | query (phys : Nat)

def textStep (T : KernelBodies) (m : Memory) : TextEvent → Memory
  | .store phys width val => if phys < ramSize then m.write T phys width.bytes val else m
  | .markExecutable phys len => m.markExecutableRange T phys len
  | .bless phys len bytes => m.textBless phys len bytes
  | .activate floor => m.clearImageBaseline floor
  | .query phys => (m.textNativeOk phys).1

/-- What the guard relies on. A store that patches the function is inside the
image and begins in the page of the entry, or this page is marked already, and
it does not leave a patch behind the first 256 bytes alone; a blessed patch is
outside the function; the baseline is taken of the loaded image. -/
def TextStepOk (f : CompiledFunction) (m : Memory) : TextEvent → Prop
  | .store phys width val =>
      (f.Agrees phys width.bytes val ∨ f.Flagged m ∨
        f.image.lo ≤ phys ∧ phys + width.bytes ≤ f.image.hi ∧ pageOf phys = pageOf f.entry) ∧
      f.HeadDecides (writeBytes m.ram phys width.bytes val)
  | .bless phys len bytes =>
      ∀ a, f.entry ≤ a → a < f.fin → phys ≤ a → a < phys + len → bytes a = f.image.bytes a
  | .activate floor => floor ≤ 0x10000 ∨ f.Intact m.ram
  | _ => True

/-- The reference is the image on the function, and the guard's two tests tell
whether the RAM is. -/
structure Trusted (f : CompiledFunction) (m : Memory) : Prop where
  image : ∃ img, m.text.image = some img ∧ img.lo = f.image.lo ∧ img.hi = f.image.hi ∧
    f.Intact img.bytes
  unflagged : ¬f.Flagged m → f.Intact m.ram
  head : f.HeadDecides m.ram

section Steps

variable {T : KernelBodies} {f : CompiledFunction} {m : Memory}

theorem Trusted.of_flags {m' : Memory} (h : Trusted f m) (hImage : m'.text.image = m.text.image)
    (hRam : m'.ram = m.ram) (hFlags : f.Flagged m → f.Flagged m') : Trusted f m' where
  image := hImage ▸ h.image
  unflagged := fun hClean => hRam ▸ h.unflagged fun hFlagged => hClean (hFlags hFlagged)
  head := hRam ▸ h.head

theorem markKernelWrite_text (phys : Nat) : (m.markKernelWrite T phys).text = m.text := by
  unfold Memory.markKernelWrite Memory.kblessNoteWrite
  split
  · split <;> rfl
  · rfl

/-- Marking pages by a store never clears a mark. -/
theorem markKernelWrite_dirty (phys page : Nat) (hDirty : m.dirty page = true) :
    (m.markKernelWrite T phys).dirty page = true := by
  unfold Memory.markKernelWrite Memory.kblessNoteWrite
  split
  · split <;> simp [setBit, hDirty]
  · exact hDirty

theorem textNoteWrite_image (phys size : Nat) (val : Word) :
    (m.textNoteWrite phys size val).text.image = m.text.image := by
  unfold Memory.textNoteWrite
  split
  · rfl
  · split <;> rfl

theorem textNoteWrite_dirty (phys size : Nat) (val : Word) :
    (m.textNoteWrite phys size val).dirty = m.dirty := by
  unfold Memory.textNoteWrite
  split
  · rfl
  · split <;> rfl

theorem textNoteWrite_modified (phys size : Nat) (val : Word) (page : Nat)
    (hModified : m.text.modified page = true) :
    (m.textNoteWrite phys size val).text.modified page = true := by
  unfold Memory.textNoteWrite
  split
  · exact hModified
  · split
    · simp [setBit, hModified]
    · exact hModified

/-- A patch inside the image is noted on the page of its first byte. -/
theorem textNoteWrite_noted {img : TextImage} (hImage : m.text.image = some img)
    {phys size : Nat} {val : Word} (hLo : img.lo ≤ phys) (hHi : phys + size ≤ img.hi)
    {a : Nat} (hFirst : phys ≤ a) (hLast : a < phys + size)
    (hPatch : byteOf val (a - phys) ≠ img.bytes a) :
    (m.textNoteWrite phys size val).text.modified (pageOf phys) = true := by
  have hAny : ((List.range size).any fun i => img.bytes (phys + i) != byteOf val i) = true := by
    refine List.any_eq_true.mpr ⟨a - phys, List.mem_range.mpr (by omega), ?_⟩
    rw [show phys + (a - phys) = a by omega]
    simpa using Ne.symm hPatch
  simp only [Memory.textNoteWrite, hImage, hLo, hHi, hAny, and_self, if_true, setBit]

theorem watchNoteWrite_text (phys : Nat) : (m.watchNoteWrite phys).text = m.text := by
  unfold Memory.watchNoteWrite
  split <;> rfl

theorem watchNoteWrite_dirty (phys : Nat) : (m.watchNoteWrite phys).dirty = m.dirty := by
  unfold Memory.watchNoteWrite
  split <;> rfl

theorem write_image (phys size : Nat) (val : Word) :
    (m.write T phys size val).text.image = m.text.image := by
  simp only [Memory.write, watchNoteWrite_text, textNoteWrite_image, markKernelWrite_text]

theorem write_flagged (phys size : Nat) (val : Word) (hFlagged : f.Flagged m) :
    f.Flagged (m.write T phys size val) := by
  simp only [CompiledFunction.Flagged, Memory.write, watchNoteWrite_text, watchNoteWrite_dirty,
    textNoteWrite_dirty]
  rcases hFlagged with hModified | hDirty
  · refine .inl (textNoteWrite_modified _ _ _ _ ?_)
    rwa [markKernelWrite_text]
  · exact .inr (markKernelWrite_dirty _ _ hDirty)

/-- A patch of the function inside the image is noted on the page of the entry
if it begins there. -/
theorem write_noted (h : Trusted f m) {phys size : Nat} {val : Word}
    (hPatch : ¬f.Agrees phys size val) (hLo : f.image.lo ≤ phys)
    (hHi : phys + size ≤ f.image.hi) (hPage : pageOf phys = pageOf f.entry) :
    f.Flagged (m.write T phys size val) := by
  obtain ⟨img, hImage, hImgLo, hImgHi, hIntact⟩ := h.image
  simp only [CompiledFunction.Agrees, not_forall] at hPatch
  obtain ⟨a, hEntry, hFin, hFirst, hLast, hByte⟩ := hPatch
  refine .inl ?_
  simp only [Memory.write, watchNoteWrite_text, ← hPage]
  have hSame : (m.markKernelWrite T phys).text.image = some img := by
    rw [markKernelWrite_text, hImage]
  refine textNoteWrite_noted hSame (by omega) (by omega) hFirst hLast ?_
  rwa [hIntact a hEntry hFin]

theorem write_trusted (h : Trusted f m) {phys : Nat} {width : Width} {val : Word}
    (hOk : TextStepOk f m (.store phys width val)) :
    Trusted f (m.write T phys width.bytes val) where
  image := by
    rw [write_image]
    exact h.image
  head := hOk.2
  unflagged := by
    intro hClean
    have hOld : ¬f.Flagged m := fun hFlagged => hClean (write_flagged _ _ _ hFlagged)
    by_cases hAgrees : f.Agrees phys width.bytes val
    · intro a hEntry hFin
      by_cases hWritten : phys ≤ a ∧ a < phys + width.bytes
      · have hByte := hAgrees a hEntry hFin hWritten.1 hWritten.2
        simpa only [Memory.write_ram, writeBytes, if_pos hWritten] using hByte
      · rw [Memory.write_ram, writeBytes_of_outside _ (by omega)]
        exact h.unflagged hOld a hEntry hFin
    · obtain ⟨hLo, hHi, hPage⟩ := (hOk.1.resolve_left hAgrees).resolve_left hOld
      exact absurd (write_noted h hAgrees hLo hHi hPage) hClean

theorem markExecutableRange_trusted (h : Trusted f m) (phys len : Nat) :
    Trusted f (m.markExecutableRange T phys len) := by
  have hText : (m.blessNoteRange T phys len).text = m.text := by
    unfold Memory.blessNoteRange
    split <;> rfl
  have hRam : (m.blessNoteRange T phys len).ram = m.ram := by
    unfold Memory.blessNoteRange
    split <;> rfl
  unfold Memory.markExecutableRange
  split
  · exact h
  · refine h.of_flags (by simp only [hText]) hRam fun hFlagged => ?_
    rcases hFlagged with hModified | hDirty
    · exact .inl (by simpa only [hText] using hModified)
    · refine .inr ?_
      simp only [setBits, hDirty]
      split <;> rfl

theorem textNativeOk_trusted (h : Trusted f m) (phys : Nat) :
    Trusted f (m.textNativeOk phys).1 := by
  unfold Memory.textNativeOk
  split
  · exact h
  · repeat' split
    all_goals exact h.of_flags rfl rfl id

theorem textBless_trusted (h : Trusted f m) {phys len : Nat} {bytes : Nat → Byte}
    (hOk : TextStepOk f m (.bless phys len bytes)) : Trusted f (m.textBless phys len bytes) := by
  obtain ⟨img, hImage, hLo, hHi, hIntact⟩ := h.image
  simp only [Memory.textBless, hImage]
  split
  · exact h
  · split
    · exact h
    · refine ⟨⟨_, rfl, hLo, hHi, fun a hEntry hFin => ?_⟩, h.unflagged, h.head⟩
      dsimp only
      split
      · exact hOk a hEntry hFin (by omega) (by omega)
      · exact hIntact a hEntry hFin

theorem clearImageBaseline_trusted (h : Trusted f m) {floor : Nat}
    (hOk : TextStepOk f m (.activate floor)) : Trusted f (m.clearImageBaseline floor) := by
  obtain ⟨img, hImage, hLo, hHi, hIntact⟩ := h.image
  unfold Memory.clearImageBaseline
  split
  · exact h
  · rename_i hFloor
    have hRam := hOk.resolve_left hFloor
    simp only [hImage]
    exact ⟨⟨img, rfl, hLo, hHi, hIntact⟩, fun _ => hRam, fun _ => hRam⟩

theorem textStep_trusted (h : Trusted f m) (e : TextEvent) (hOk : TextStepOk f m e) :
    Trusted f (textStep T m e) := by
  cases e with
  | store phys width val =>
      rw [textStep]
      split
      · exact write_trusted h hOk
      · exact h
  | markExecutable phys len => exact markExecutableRange_trusted h phys len
  | bless phys len bytes => exact textBless_trusted h hOk
  | activate floor => exact clearImageBaseline_trusted h hOk
  | query phys => exact textNativeOk_trusted h phys

/-- The guard's answer at the entry, when its two tests can be trusted. -/
theorem Trusted.intact (h : Trusted f m) (hOk : (m.textNativeOk f.entry).2 = true) :
    f.Intact m.ram := by
  obtain ⟨img, hImage, hLo, hHi, hIntact⟩ := h.image
  have hEntry := f.lo_le
  have hFin := f.fin_le
  have hNonempty := f.entry_lt
  have hSize := f.image.hi_le
  have hDirty : m.isDirty f.entry = m.dirty (pageOf f.entry) := by
    simp only [Memory.isDirty, show f.entry < ramSize by omega, decide_true, Bool.true_and]
  have hRange : ¬(f.entry < img.lo ∨ img.hi ≤ f.entry) := by omega
  simp only [Memory.textNativeOk, hImage, if_neg hRange, hDirty] at hOk
  split at hOk
  · exact absurd hOk (by simp)
  · split at hOk
    · rename_i hPristine
      simp only [Bool.and_eq_true, Bool.not_eq_true'] at hPristine
      refine h.unflagged fun hFlagged => ?_
      rcases hFlagged with hModified | hMarked
      · rw [hPristine.1] at hModified
        exact Bool.noConfusion hModified
      · rw [hPristine.2] at hMarked
        exact Bool.noConfusion hMarked
    · split at hOk
      · rename_i hCompare
        simp only [List.all_eq_true, List.mem_range, beq_iff_eq] at hCompare
        refine h.head fun a hFirst hLast hWindow => ?_
        have hByte := hCompare (a - f.entry) (by omega)
        rw [show f.entry + (a - f.entry) = a by omega] at hByte
        exact hByte.trans (hIntact a hFirst hLast)
      · split at hOk <;> exact absurd hOk (by simp)

end Steps

theorem registerTextImage_eq (m : Memory) (physLo len : Nat) (bytes : Nat → Byte) :
    (m.registerTextImage physLo len bytes).ram = m.ram ∧
      (m.registerTextImage physLo len bytes).dirty = m.dirty := by
  unfold Memory.registerTextImage
  split <;> exact ⟨rfl, rfl⟩

/-- In every run behind the registration of the image whose steps are such as
the guard relies on, a function that the guard lets run natively is intact. -/
theorem intact_of_textNativeOk {T : KernelBodies} {f : CompiledFunction} {before m : Memory}
    {physLo len : Nat} {bytes : Nat → Byte}
    (hImage : (before.registerTextImage physLo len bytes).text.image = some f.image)
    (hLoaded : before.dirty (pageOf f.entry) = false → f.Intact before.ram)
    (hHead : f.HeadDecides before.ram)
    (hRun : Reach (textStep T) (TextStepOk f) (before.registerTextImage physLo len bytes) m)
    (hOk : (m.textNativeOk f.entry).2 = true) : f.Intact m.ram := by
  obtain ⟨hRam, hDirty⟩ := registerTextImage_eq before physLo len bytes
  have hStart : Trusted f (before.registerTextImage physLo len bytes) :=
    { image := ⟨f.image, hImage, rfl, rfl, fun _ _ _ => rfl⟩
      unflagged := fun hClean => by
        rw [hRam]
        refine hLoaded (Bool.eq_false_iff.mpr fun hMarked => hClean (.inr ?_))
        rwa [hDirty]
      head := hRam ▸ hHead }
  have hTrusted : Trusted f m := hRun.invariant hStart fun m e h hOk => textStep_trusted h e hOk
  exact hTrusted.intact hOk

/-- A function of eight words, half of them in the page behind its entry. -/
def crossingFunction : CompiledFunction where
  image := ⟨0x10000, 0x11010, fun _ => 0, by decide⟩
  entry := 0x10FF0
  fin := 0x11010
  lo_le := by decide
  entry_lt := by decide
  fin_le := by decide

/-- A patch before the function marks its page, and the bytes decide. -/
theorem intact_patched_before :
    let loaded := zeroMemory.registerTextImage 0x10000 0x1010 fun _ => 0
    crossingFunction.Intact (textStep oneBody loaded (.store 0x10FE0 .word 1)).ram := by
  have hRun : Reach (textStep oneBody) (TextStepOk crossingFunction)
      (zeroMemory.registerTextImage 0x10000 0x1010 fun _ => 0)
      (textStep oneBody (zeroMemory.registerTextImage 0x10000 0x1010 fun _ => 0)
        (.store 0x10FE0 .word 1)) := by
    refine Reach.start.next _ ⟨.inr (.inr (by decide)), fun hHead a hEntry hFin => ?_⟩
    exact hHead a hEntry hFin (by simp only [crossingFunction] at hFin ⊢; omega)
  exact intact_of_textNativeOk rfl (fun _ _ _ _ => rfl) (fun _ _ _ _ => rfl) hRun (by decide)

/-- The word behind the page boundary is patched, and the guard looks at the
page before it. -/
theorem textNativeOk_crossing :
    ¬∀ (T : KernelBodies) (f : CompiledFunction) (before m : Memory) (physLo len : Nat)
      (bytes : Nat → Byte),
      (before.registerTextImage physLo len bytes).text.image = some f.image →
      f.Intact before.ram →
      Reach (textStep T) (fun _ _ => True) (before.registerTextImage physLo len bytes) m →
      (m.textNativeOk f.entry).2 = true → f.Intact m.ram := by
  intro hClaim
  have hIntact := hClaim oneBody crossingFunction zeroMemory _ 0x10000 0x1010 (fun _ => 0) rfl
    (fun _ _ _ => rfl) (Reach.start.next (.store 0x11000 .word 1) trivial) (by decide)
  exact absurd (hIntact 0x11000 (by decide) (by decide)) (by decide)

end RecompStudio.Runtime
