import RecompStudio.Runtime.KernelBless
import RecompStudio.Runtime.OverlaySafety
import RecompStudio.Runtime.ShadowDiff
import RecompStudio.Runtime.TextGuard

/-!
What a shadow run leaves behind. The CPU, the RAM and the scratchpad are those of
the interpreter. The guards answer as after its pass alone if the last thing that the
native pass did to each of their records answers for the interpreter's bytes.
-/

namespace RecompStudio.Runtime

open LastWrite

section Frames

variable {T : KernelBodies} {m : Memory} {s : Loader} {phys : Nat}

theorem blessDispatchable_mem :
    ∃ bless, (m.blessDispatchable T phys).1 = { m with bless := bless } := by
  unfold Memory.blessDispatchable
  split
  · split
    · exact ⟨_, rfl⟩
    · split <;> exact ⟨_, rfl⟩
  · exact ⟨_, rfl⟩

theorem textNativeOk_mem :
    ∃ diverged, (m.textNativeOk phys).1 = { m with text.diverged := diverged } := by
  unfold Memory.textNativeOk
  split
  · exact ⟨_, rfl⟩
  · split
    · exact ⟨_, rfl⟩
    split
    · exact ⟨_, rfl⟩
    split
    · exact ⟨_, rfl⟩
    split
    · exact ⟨_, rfl⟩
    split <;> exact ⟨_, rfl⟩

theorem watch_mem (ranges : List CodeRange) :
    ∃ watched, s.watch ranges = { s.mem with watched := watched } := by
  unfold Loader.watch
  generalize s.mem = m
  induction ranges generalizing m with
  | nil => exact ⟨_, rfl⟩
  | cons r rest ih =>
      obtain ⟨watched, hWatched⟩ := ih (m.watchSetRange r.lo r.len)
      refine ⟨watched, hWatched.trans ?_⟩
      unfold Memory.watchSetRange
      split <;> rfl

theorem candRegister_mem (f : DllFunction) :
    ∃ watched, (s.candRegister f).mem = { s.mem with watched := watched } := by
  unfold Loader.candRegister
  split
  · exact ⟨_, rfl⟩
  · exact watch_mem _

theorem registerSljit_mem (shard : SljitShard) :
    ∃ watched, (s.registerSljit shard).mem = { s.mem with watched := watched } := by
  unfold Loader.registerSljit
  split
  · exact ⟨_, rfl⟩
  · exact watch_mem _

theorem checkCand_mem (i : Nat) : (s.checkCand i).1.mem = s.mem := by
  unfold Loader.checkCand
  split
  · rfl
  · split <;> rfl

theorem push_mem (i : Nat) : (s.push i).mem = s.mem := by
  unfold Loader.push
  split <;> rfl

/-- An event that neither stores into RAM nor asks the bless or the text guard. -/
def PassEvent.Quiet (e : PassEvent) : Prop :=
  (∀ st, e = .store st → ramSize ≤ st.phys) ∧ ∀ phys, e ≠ .bless phys ∧ e ≠ .text phys

/-- An event stores a value, or it changes at most the verdicts of the bless, the
diverged pages of the text guard or the watched pages. -/
theorem passStep_mem (T : KernelBodies) (s : Loader) (e : PassEvent) :
    (∃ st, e = .store st ∧ st.phys < ramSize ∧
      (s.passStep T e).mem = s.mem.write T st.phys st.width.bytes st.val) ∨
    (∃ phys, e = .bless phys ∧ (s.passStep T e).mem = (s.mem.blessDispatchable T phys).1) ∨
    (∃ phys, e = .text phys ∧ (s.passStep T e).mem = (s.mem.textNativeOk phys).1) ∨
    (e.Quiet ∧ ∃ watched, (s.passStep T e).mem = { s.mem with watched := watched }) := by
  have hQuiet : ∀ e : PassEvent, (∀ st, e ≠ .store st) →
      (∀ phys, e ≠ .bless phys ∧ e ≠ .text phys) → e.Quiet :=
    fun e hStore hAsk => ⟨fun st h => absurd h (hStore st), hAsk⟩
  cases e with
  | store st =>
      rw [Loader.passStep, Loader.store]
      split
      · rename_i hRam
        exact .inl ⟨st, rfl, hRam, rfl⟩
      · rename_i hRam
        refine .inr (.inr (.inr ⟨⟨?_, by simp⟩, _, rfl⟩))
        intro st' hSame
        rw [← PassEvent.store.inj hSame]
        exact not_lt.mp hRam
  | check i => exact .inr (.inr (.inr ⟨hQuiet _ (by simp) (by simp), _, checkCand_mem i⟩))
  | bless phys => exact .inr (.inl ⟨phys, rfl, rfl⟩)
  | text phys => exact .inr (.inr (.inl ⟨phys, rfl, rfl⟩))
  | register f => exact .inr (.inr (.inr ⟨hQuiet _ (by simp) (by simp), candRegister_mem f⟩))
  | registerSljit shard =>
      exact .inr (.inr (.inr ⟨hQuiet _ (by simp) (by simp), registerSljit_mem shard⟩))
  | enter i => exact .inr (.inr (.inr ⟨hQuiet _ (by simp) (by simp), _, push_mem i⟩))
  | leave => exact .inr (.inr (.inr ⟨hQuiet _ (by simp) (by simp), _, rfl⟩))

theorem image_passRun (es : List PassEvent) :
    (s.passRun T es).mem.text.image = s.mem.text.image := by
  induction es generalizing s with
  | nil => rfl
  | cons e rest ih =>
      refine (ih (s := s.passStep T e)).trans ?_
      rcases passStep_mem T s e with
        ⟨st, -, -, h⟩ | ⟨phys, -, h⟩ | ⟨phys, -, h⟩ | ⟨-, watched, h⟩
      · rw [h, write_image]
      · obtain ⟨bless, hBless⟩ := @blessDispatchable_mem T s.mem phys
        rw [h, hBless]
      · obtain ⟨diverged, hDiverged⟩ := @textNativeOk_mem s.mem phys
        rw [h, hDiverged]
      · rw [h]

theorem rom_passRun (es : List PassEvent) : (s.passRun T es).mem.rom = s.mem.rom := by
  induction es generalizing s with
  | nil => rfl
  | cons e rest ih =>
      refine (ih (s := s.passStep T e)).trans ?_
      rcases passStep_mem T s e with
        ⟨st, -, -, h⟩ | ⟨phys, -, h⟩ | ⟨phys, -, h⟩ | ⟨-, watched, h⟩
      · rw [h, write_rom]
      · obtain ⟨bless, hBless⟩ := @blessDispatchable_mem T s.mem phys
        rw [h, hBless]
      · obtain ⟨diverged, hDiverged⟩ := @textNativeOk_mem s.mem phys
        rw [h, hDiverged]
      · rw [h]

end Frames

section Marks

variable {T : KernelBodies} {m : Memory} {s : Loader} {phys : Nat}

theorem write_dirty (size : Nat) (val : Word) (p : Nat) :
    (m.write T phys size val).dirty p = true ↔
      m.dirty p = true ∨ (phys < 0x10000 ∧ pageOf phys = p) := by
  simp only [Memory.write, watchNoteWrite_dirty, textNoteWrite_dirty]
  unfold Memory.markKernelWrite
  split
  · rename_i hKernel
    have hBits : ((({ m with dirty := setBit m.dirty (pageOf phys) } : Memory).kblessNoteWrite T
        phys).dirty p) = setBit m.dirty (pageOf phys) p := by
      unfold Memory.kblessNoteWrite
      split <;> rfl
    rw [hBits, setBit]
    by_cases hp : p = pageOf phys
    · simp [hp, hKernel]
    · simp [hp, Ne.symm hp]
  · rename_i hKernel
    simp [hKernel]

/-- The pages of the kernel window that a pass stores to. -/
def StoresKernel (p : Nat) (e : PassEvent) : Prop :=
  ∃ st, e = .store st ∧ st.phys < 0x10000 ∧ pageOf st.phys = p

theorem dirty_passStep (p : Nat) (s : Loader) (e : PassEvent) :
    (s.passStep T e).mem.dirty p = true ↔ s.mem.dirty p = true ∨ StoresKernel p e := by
  rcases passStep_mem T s e with
    ⟨st, rfl, -, h⟩ | ⟨phys, rfl, h⟩ | ⟨phys, rfl, h⟩ | ⟨hQuiet, watched, h⟩
  · rw [h, write_dirty]
    refine or_congr_right ⟨fun hKernel => ⟨st, rfl, hKernel⟩, ?_⟩
    rintro ⟨st', hSame, hKernel⟩
    rwa [PassEvent.store.inj hSame]
  · obtain ⟨bless, hBless⟩ := @blessDispatchable_mem T s.mem phys
    rw [h, hBless]
    simp [StoresKernel]
  · obtain ⟨diverged, hDiverged⟩ := @textNativeOk_mem s.mem phys
    rw [h, hDiverged]
    simp [StoresKernel]
  · rw [h]
    refine (or_iff_left ?_).symm
    rintro ⟨st, hStore, hKernel, -⟩
    have := hQuiet.1 st hStore
    unfold ramSize at this
    omega

/-- The page of a store that differs from the image, as far as it lies inside. -/
@[grind =] def StoresDifferent (img : TextImage) (p : Nat) (e : PassEvent) : Prop :=
  ∃ st, e = .store st ∧ img.lo ≤ st.phys ∧ st.phys + st.width.bytes ≤ img.hi ∧
    (List.range st.width.bytes).any (fun i => img.bytes (st.phys + i) != byteOf st.val i) ∧
    pageOf st.phys = p

theorem write_text (size : Nat) (val : Word) :
    (m.write T phys size val).text = (m.textNoteWrite phys size val).text := by
  simp only [Memory.write, watchNoteWrite_text]
  unfold Memory.textNoteWrite
  rw [markKernelWrite_text]
  split
  · exact markKernelWrite_text phys
  · split
    · rfl
    · exact markKernelWrite_text phys

theorem textNoteWrite_text (size : Nat) (val : Word) {img : TextImage}
    (hImage : m.text.image = some img) :
    (m.textNoteWrite phys size val).text =
      if img.lo ≤ phys ∧ phys + size ≤ img.hi ∧
          (List.range size).any (fun i => img.bytes (phys + i) != byteOf val i) then
        { m.text with modified := setBit m.text.modified (pageOf phys) }
      else m.text := by
  unfold Memory.textNoteWrite
  rw [hImage]
  dsimp only
  split <;> rfl

/-- A failed question of an entry inside the image, while the guard is active. -/
@[grind =] def FailsText (img : TextImage) (p : Nat) (s : Loader) (e : PassEvent) : Prop :=
  ∃ phys, e = .text phys ∧ pageOf phys = p ∧ img.lo ≤ phys ∧ phys < img.hi ∧
    s.mem.text.active = true ∧ (s.mem.textNativeOk phys).2 = false

/-- What an event does to the text guard of an image. -/
structure TextStep (img : TextImage) (s s' : Loader) (e : PassEvent) : Prop where
  image : s'.mem.text.image = some img
  active : s'.mem.text.active = s.mem.text.active
  modified : ∀ p, s'.mem.text.modified p = true ↔
    s.mem.text.modified p = true ∨ StoresDifferent img p e
  diverged : ∀ p, s'.mem.text.diverged p = true ↔
    s.mem.text.diverged p = true ∨ FailsText img p s e

theorem TextStep.same {img : TextImage} {s s' : Loader} {e : PassEvent}
    (hImage : s.mem.text.image = some img) (hText : s'.mem.text = s.mem.text)
    (hStores : ∀ p, ¬StoresDifferent img p e) (hFails : ∀ p, ¬FailsText img p s e) :
    TextStep img s s' e where
  image := hText ▸ hImage
  active := by rw [hText]
  modified p := by rw [hText, or_iff_left (hStores p)]
  diverged p := by rw [hText, or_iff_left (hFails p)]

theorem storesDifferent_store {img : TextImage} {p : Nat} {st : GuestStore} :
    StoresDifferent img p (.store st) ↔
      (img.lo ≤ st.phys ∧ st.phys + st.width.bytes ≤ img.hi ∧
        (List.range st.width.bytes).any fun i => img.bytes (st.phys + i) != byteOf st.val i) ∧
        pageOf st.phys = p := by
  unfold StoresDifferent
  constructor
  · rintro ⟨st', hSame, hLo, hHi, hAny, hPage⟩
    obtain rfl := PassEvent.store.inj hSame
    exact ⟨⟨hLo, hHi, hAny⟩, hPage⟩
  · rintro ⟨⟨hLo, hHi, hAny⟩, hPage⟩
    exact ⟨st, rfl, hLo, hHi, hAny, hPage⟩

theorem failsText_text {img : TextImage} {p : Nat} :
    FailsText img p s (.text phys) ↔ pageOf phys = p ∧ img.lo ≤ phys ∧ phys < img.hi ∧
      s.mem.text.active = true ∧ (s.mem.textNativeOk phys).2 = false := by
  unfold FailsText
  constructor
  · rintro ⟨phys', hSame, hFails⟩
    obtain rfl := PassEvent.text.inj hSame
    exact hFails
  · exact fun hFails => ⟨phys, rfl, hFails⟩

theorem setBit_eq_true {bits : Nat → Bool} {page p : Nat} :
    setBit bits page p = true ↔ bits p = true ∨ page = p := by
  unfold setBit
  by_cases h : p = page
  · simp [h]
  · simp [h, Ne.symm h]

/-- A failed question of an active guard leaves its page diverged. -/
theorem diverged_textNativeOk {img : TextImage} (hImage : m.text.image = some img) (p : Nat) :
    (m.textNativeOk phys).1.text.diverged p = true ↔
      m.text.diverged p = true ∨ (pageOf phys = p ∧ img.lo ≤ phys ∧ phys < img.hi ∧
        m.text.active = true ∧ (m.textNativeOk phys).2 = false) := by
  unfold Memory.textNativeOk
  rw [hImage]
  dsimp only
  split
  · rename_i hOutside
    refine (or_iff_left ?_).symm
    rintro ⟨-, hLo, hHi, -⟩
    omega
  rename_i hInside
  split
  · rename_i hDiverged
    refine (or_iff_left_of_imp ?_).symm
    rintro ⟨rfl, -⟩
    exact (Bool.and_eq_true_iff.mp hDiverged).2
  split
  · simp
  split
  · simp
  split
  · rename_i hActive
    rw [setBit_eq_true]
    refine or_congr_right ⟨fun hPage => ⟨hPage, ?_⟩, fun h => h.1⟩
    exact ⟨by omega, by omega, hActive, rfl⟩
  · rename_i hInactive
    simp [hInactive]

theorem text_passStep {img : TextImage} (hImage : s.mem.text.image = some img) (e : PassEvent) :
    TextStep img s (s.passStep T e) e := by
  rcases passStep_mem T s e with
    ⟨st, rfl, -, h⟩ | ⟨phys, rfl, h⟩ | ⟨phys, rfl, h⟩ | ⟨hQuiet, watched, h⟩
  · have hText := @textNoteWrite_text _ st.phys st.width.bytes st.val _ hImage
    rw [← write_text (T := T), ← h] at hText
    by_cases hNoted : img.lo ≤ st.phys ∧ st.phys + st.width.bytes ≤ img.hi ∧
        (List.range st.width.bytes).any (fun i => img.bytes (st.phys + i) != byteOf st.val i)
    · rw [if_pos hNoted] at hText
      refine ⟨by rw [hText]; exact hImage, by rw [hText], fun p => ?_, fun p => ?_⟩
      · rw [hText, setBit_eq_true, storesDifferent_store]
        exact or_congr_right ⟨fun hPage => ⟨hNoted, hPage⟩, fun hStores => hStores.2⟩
      · rw [hText]
        simp [FailsText]
    · rw [if_neg hNoted] at hText
      refine .same hImage hText (fun p hStores => ?_) fun p => by simp [FailsText]
      exact hNoted (storesDifferent_store.1 hStores).1
  · obtain ⟨bless, hBless⟩ := @blessDispatchable_mem T s.mem phys
    rw [hBless] at h
    exact .same hImage (by rw [h]) (fun p => by simp [StoresDifferent]) fun p => by simp [FailsText]
  · obtain ⟨diverged, hDiverged⟩ := @textNativeOk_mem s.mem phys
    refine ⟨by rw [h, hDiverged]; exact hImage, by rw [h, hDiverged], fun p => ?_, fun p => ?_⟩
    · rw [h, hDiverged]
      simp [StoresDifferent]
    · rw [h, failsText_text]
      exact diverged_textNativeOk hImage p
  · refine .same hImage (by rw [h]) (fun p => ?_) fun p => ?_
    · rintro ⟨st, hStore, hLo, hHi, -⟩
      have hOutside := hQuiet.1 st hStore
      have := img.hi_le
      have := st.width.bytes_pos
      omega
    · rintro ⟨phys, hText, -⟩
      exact (hQuiet.2 phys).2 hText

end Marks

section Bodies

variable {T : KernelBodies} {m : Memory} {s : Loader} {phys i : Nat} {b : KernelBody}

/-- The answer for a body. -/
def Memory.bodyAnswer (m : Memory) (i : Nat) (b : KernelBody) : Bool :=
  match m.bless i with
  | .clean => true
  | .mismatch => false
  | .unknown => bodyMatches m.ram m.rom b

/-- What an event writes as the verdict on body `i`: a store drops it, and a question
without a verdict compares the bytes. -/
def blessWrites (T : KernelBodies) (i : Nat) (b : KernelBody) (s : Loader) :
    PassEvent → Option BlessState
  | .store st => if b.lo ≤ st.phys ∧ st.phys < b.hi then some .unknown else none
  | .bless phys =>
      if T.find phys = some i ∧ s.mem.bless i = .unknown then
        some (if bodyMatches s.mem.ram s.mem.rom b then .clean else .mismatch)
      else none
  | _ => none

theorem find_window (hFind : T.find phys = some i) : 0x500 ≤ phys ∧ phys < 0x8500 := by
  obtain ⟨b, hb, rfl⟩ := KernelBodies.find_eq_some_iff.mp hFind
  exact T.keys b (List.mem_of_getElem? hb)

theorem blessDispatchable_of_find (hOn : T.on = true) (hb : T.bodies[i]? = some b)
    (hFind : T.find phys = some i) : (m.blessDispatchable T phys).2 = m.bodyAnswer i b := by
  obtain ⟨hLo, hHi⟩ := find_window hFind
  unfold Memory.blessDispatchable Memory.bodyAnswer
  rw [if_pos ⟨hLo, hHi, hOn⟩, hFind]
  dsimp only
  rw [hb]
  cases m.bless i <;> rfl

theorem bless_blessDispatchable (hOn : T.on = true) (hb : T.bodies[i]? = some b) :
    (m.blessDispatchable T phys).1.bless i =
      if T.find phys = some i ∧ m.bless i = .unknown then
        (if bodyMatches m.ram m.rom b then .clean else .mismatch)
      else m.bless i := by
  by_cases hFind : T.find phys = some i
  · obtain ⟨hLo, hHi⟩ := find_window hFind
    unfold Memory.blessDispatchable
    rw [if_pos ⟨hLo, hHi, hOn⟩, hFind]
    dsimp only
    rw [hb]
    cases hBless : m.bless i <;> simp [hBless]
  · rw [if_neg fun h => hFind h.1]
    unfold Memory.blessDispatchable
    split
    · split
      · rfl
      · rename_i j hOther
        have hNe : i ≠ j := fun h => hFind (h ▸ hOther)
        split <;> first | rfl | exact if_neg hNe
    · rfl

/-- The verdict on a body is what is written last. -/
theorem bless_governs (hOn : T.on = true) (hb : T.bodies[i]? = some b) :
    Governs (Loader.passStep T) (blessWrites T i b) (fun s => s.mem.bless i)
      (fun written verdict => verdict = written) (fun _ => True) := by
  have hStep : ∀ s e, (Loader.passStep T s e).mem.bless i =
      (blessWrites T i b s e).getD (s.mem.bless i) := by
    intro s e
    rcases passStep_mem T s e with
      ⟨st, rfl, -, h⟩ | ⟨phys, rfl, h⟩ | ⟨phys, rfl, h⟩ | ⟨hQuiet, watched, h⟩
    · rw [h, write_bless, markKernelWrite_bless hOn hb, blessWrites]
      split <;> rfl
    · rw [h, bless_blessDispatchable hOn hb, blessWrites]
      split <;> rfl
    · obtain ⟨diverged, hDiverged⟩ := @textNativeOk_mem s.mem phys
      rw [h, hDiverged]
      rfl
    · rw [h]
      cases e with
      | store st =>
          have hOutside := hQuiet.1 st rfl
          obtain ⟨-, -, hHi⟩ := T.inside b (List.mem_of_getElem? hb)
          unfold ramSize at hOutside
          rw [blessWrites, if_neg (by omega)]
          rfl
      | bless phys => exact absurd rfl (hQuiet.2 phys).1
      | check _ | text _ | register _ | registerSljit _ | enter _ | leave => rfl
  refine ⟨fun _ _ _ => trivial, fun s e _ hNone => ?_, fun s e a _ hSome => ?_⟩
  · rw [hStep, hNone, Option.getD_none]
  · rw [hStep, hSome, Option.getD_some]

end Bodies

/-- What an event does to the record of a candidate. -/
inductive CandMark where
  | judged (holds : Bool) (gens : Nat)
  | banned
deriving DecidableEq, Repr

def CandMark.Shown (c : Candidate) : CandMark → Prop
  | .judged holds gens => c.state = (if holds then .valid else .invalid) ∧ c.valGen = gens
  | .banned => c.state = .blacklist

/-- A registration retires a shard with the same entry whose code is in memory. -/
def DllFunction.Retires (f : DllFunction) (s : Loader) (c : Candidate) : Prop :=
  s.cands.length < candCap ∧
    candCrc s.mem.ram (f.ranges.take 16) = f.crc.getD (candCrc s.mem.ram (f.ranges.take 16)) ∧
    f.phys ≠ 0 ∧ c.addr = f.phys ∧ c.dll = none ∧ c.state ≠ .blacklist ∧
    candCrc s.mem.ram c.ranges = c.crcCode

instance (f : DllFunction) (s : Loader) (c : Candidate) : Decidable (f.Retires s c) :=
  inferInstanceAs (Decidable (_ ∧ _))

/-- A store into the code of an active candidate, on a watched page. -/
def GuestStore.Bans (st : GuestStore) (s : Loader) (i : Nat) (c : Candidate) : Prop :=
  st.phys < ramSize ∧ s.mem.watched (pageOf st.phys) = true ∧ i ∈ s.active ∧
    ∃ r ∈ c.ranges, r.Touched st.phys st.width.bytes

instance (st : GuestStore) (s : Loader) (i : Nat) (c : Candidate) : Decidable (st.Bans s i c) :=
  inferInstanceAs (Decidable (_ ∧ _))

/-- What an event writes into the record of candidate `i`: a check without a current
verdict hashes the code. -/
@[grind =] def candWrites (i : Nat) (s : Loader) (e : PassEvent) : Option CandMark :=
  match s.cands[i]? with
  | none => none
  | some c =>
      match e with
      | .check j =>
          if j = i ∧ c.state ≠ .blacklist ∧ ¬c.Current s.mem then
            some (.judged (candCrc s.mem.ram c.ranges = c.crcCode) (candGensum s.mem c.ranges))
          else none
      | .store st => if st.Bans s i c then some .banned else none
      | .register f => if f.Retires s c then some .banned else none
      | _ => none

section Candidates

variable {T : KernelBodies} {s : Loader} {i : Nat} {c : Candidate}

/-- The code of a candidate never changes. -/
def SameCode (i : Nat) (c : Candidate) (s : Loader) : Prop :=
  ∃ d, s.cands[i]? = some d ∧ d.ranges = c.ranges ∧ d.crcCode = c.crcCode

/-- What an event does to a candidate: its mark, and nothing without one. -/
def CandStep (i : Nat) (s s' : Loader) (e : PassEvent) : Prop :=
  ∀ c, s.cands[i]? = some c → ∃ d, s'.cands[i]? = some d ∧ d.ranges = c.ranges ∧
    d.crcCode = c.crcCode ∧
    match candWrites i s e with
    | none => d = c
    | some mark => mark.Shown d

theorem validate_current (m : Memory) (hListed : c.state ≠ .blacklist) (hCurrent : c.Current m) :
    (c.validate m).1 = c := by
  unfold Candidate.validate
  cases hState : c.state with
  | valid => simp [hCurrent]
  | invalid => simp [hCurrent]
  | blacklist => exact absurd hState hListed

theorem validate_stale (m : Memory) (hStale : ¬c.Current m) :
    (c.validate m).1 = { c with
      valGen := candGensum m c.ranges
      state := if candCrc m.ram c.ranges = c.crcCode then .valid else .invalid } := by
  unfold Candidate.validate
  rw [if_neg fun h => hStale h.2, if_neg fun h => hStale h.2]
  split <;> rfl

theorem candStep_check (j : Nat) : CandStep i s (s.checkCand j).1 (.check j) := by
  intro c hc
  unfold candWrites
  rw [hc]
  dsimp only
  by_cases hj : j = i
  · subst hj
    unfold Loader.checkCand
    rw [hc]
    dsimp only
    by_cases hListed : c.state = .blacklist
    · rw [if_pos hListed, if_neg fun h => h.2.1 hListed]
      exact ⟨c, hc, rfl, rfl, rfl⟩
    · have hSet : (s.setCand j (c.validate s.mem).1).cands[j]? = some (c.validate s.mem).1 := by
        exact List.getElem?_set_self (List.getElem?_eq_some_iff.mp hc).1
      rw [if_neg hListed]
      refine ⟨_, hSet, ?_⟩
      by_cases hCurrent : c.Current s.mem
      · rw [if_neg fun h => h.2.2 hCurrent, validate_current s.mem hListed hCurrent]
        exact ⟨rfl, rfl, rfl⟩
      · rw [if_pos ⟨rfl, hListed, hCurrent⟩, validate_stale s.mem hCurrent]
        refine ⟨rfl, rfl, ?_, rfl⟩
        simp
  · rw [if_neg fun h => hj h.1]
    refine ⟨c, ?_, rfl, rfl, rfl⟩
    unfold Loader.checkCand
    split
    · exact hc
    · split
      · exact hc
      · exact (List.getElem?_set_ne hj).trans hc

theorem cand_store {st : GuestStore} (hc : s.cands[i]? = some c) :
    (s.store T st).cands[i]? =
      some (if st.Bans s i c then { c with state := .blacklist } else c) := by
  unfold Loader.store
  by_cases hBans : st.Bans s i c
  · have ⟨hRam, hWatched, hActive⟩ := hBans
    rw [if_pos hBans, if_pos hRam]
    dsimp only
    rw [if_pos hWatched]
    simp only [Loader.activeWriteCheck, List.getElem?_map, List.getElem?_zipIdx, hc,
      Option.map_some, Nat.zero_add]
    rw [if_pos hActive]
  · rw [if_neg hBans]
    split
    · rename_i hRam
      dsimp only
      split
      · rename_i hWatched
        simp only [Loader.activeWriteCheck, List.getElem?_map, List.getElem?_zipIdx, hc,
          Option.map_some, Nat.zero_add]
        rw [if_neg fun hActive => hBans ⟨hRam, hWatched, hActive⟩]
      · exact hc
    · exact hc

theorem candStep_store (st : GuestStore) : CandStep i s (s.store T st) (.store st) := by
  intro c hc
  refine ⟨_, cand_store hc, ?_⟩
  unfold candWrites
  rw [hc]
  dsimp only
  split <;> exact ⟨rfl, rfl, rfl⟩

theorem cand_candRegister {f : DllFunction} (hc : s.cands[i]? = some c) :
    (s.candRegister f).cands[i]? =
      some (if f.Retires s c then { c with state := .blacklist } else c) := by
  have hIndex := (List.getElem?_eq_some_iff.mp hc).1
  obtain ⟨watched, hWatch⟩ := watch_mem (s := s) (f.ranges.take 16)
  unfold Loader.candRegister
  split
  · rename_i hFull
    rw [hc, if_neg fun h => absurd h.1 (not_lt.mpr hFull)]
  · rename_i hRoom
    dsimp only
    rw [hWatch]
    split
    · rename_i hLive
      rw [List.getElem?_append_left (by rw [Loader.retire, List.length_map]; exact hIndex),
        Loader.retire, List.getElem?_map, hc, Option.map_some]
      by_cases hRetires : f.Retires s c
      · rw [if_pos hRetires, if_pos hRetires.2.2]
      · rw [if_neg hRetires, if_neg fun h => hRetires ⟨not_le.mp hRoom, hLive, h⟩]
    · rename_i hDead
      rw [List.getElem?_append_left hIndex, hc, if_neg fun h => hDead h.2.1]

theorem candStep_register (f : DllFunction) : CandStep i s (s.candRegister f) (.register f) := by
  intro c hc
  refine ⟨_, cand_candRegister hc, ?_⟩
  unfold candWrites
  rw [hc]
  dsimp only
  split <;> exact ⟨rfl, rfl, rfl⟩

/-- An event that leaves the candidates it finds. -/
theorem candStep_keep {s' : Loader} {e : PassEvent} (hWrites : candWrites i s e = none)
    (hKeep : ∀ c, s.cands[i]? = some c → s'.cands[i]? = some c) : CandStep i s s' e := by
  intro c hc
  rw [hWrites]
  exact ⟨c, hKeep c hc, rfl, rfl, rfl⟩

theorem candStep_passStep (e : PassEvent) : CandStep i s (s.passStep T e) e := by
  have hQuiet : ∀ e, (∀ j, e ≠ .check j) → (∀ st, e ≠ .store st) → (∀ f, e ≠ .register f) →
      candWrites i s e = none := by
    intro e hCheck hStore hRegister
    unfold candWrites
    cases s.cands[i]? with
    | none => rfl
    | some c =>
        cases e with
        | check j => exact absurd rfl (hCheck j)
        | store st => exact absurd rfl (hStore st)
        | register f => exact absurd rfl (hRegister f)
        | bless _ | text _ | registerSljit _ | enter _ | leave => rfl
  cases e with
  | check j => exact candStep_check j
  | store st => exact candStep_store st
  | register f => exact candStep_register f
  | bless phys => exact candStep_keep (hQuiet _ (by simp) (by simp) (by simp)) fun c hc => hc
  | text phys => exact candStep_keep (hQuiet _ (by simp) (by simp) (by simp)) fun c hc => hc
  | leave => exact candStep_keep (hQuiet _ (by simp) (by simp) (by simp)) fun c hc => hc
  | enter j =>
      refine candStep_keep (hQuiet _ (by simp) (by simp) (by simp)) fun c hc => ?_
      rw [Loader.passStep, Loader.push]
      split <;> exact hc
  | registerSljit shard =>
      refine candStep_keep (hQuiet _ (by simp) (by simp) (by simp)) fun c hc => ?_
      rw [Loader.passStep, Loader.registerSljit]
      split
      · exact hc
      · exact (List.getElem?_append_left (List.getElem?_eq_some_iff.mp hc).1).trans hc

/-- The record of a candidate shows what is written last. -/
theorem cand_governs (i : Nat) (c : Candidate) :
    Governs (Loader.passStep T) (candWrites i) (fun s => s.cands[i]?)
      (fun mark found => ∃ d, found = some d ∧ mark.Shown d) (SameCode i c) := by
  refine ⟨?_, ?_, ?_⟩
  · rintro s e ⟨d, hd, hRanges, hCrc⟩
    obtain ⟨d', hd', hRanges', hCrc', -⟩ := candStep_passStep (T := T) e d hd
    exact ⟨d', hd', hRanges'.trans hRanges, hCrc'.trans hCrc⟩
  · rintro s e ⟨d, hd, -⟩ hNone
    obtain ⟨d', hd', -, -, hMark⟩ := candStep_passStep (T := T) e d hd
    rw [hNone] at hMark
    subst hMark
    exact hd'.trans hd.symm
  · rintro s e mark ⟨d, hd, -⟩ hSome
    obtain ⟨d', hd', -, -, hMark⟩ := candStep_passStep (T := T) e d hd
    rw [hSome] at hMark
    exact ⟨d', hd', hMark⟩

end Candidates

/-- The code at an entry is the image's. -/
def TextImage.window (img : TextImage) (ram : Nat → Byte) (phys : Nat) : Bool :=
  (List.range (min 256 (img.hi - phys))).all fun i => ram (phys + i) == img.bytes (phys + i)

/-- The answer of a check of a candidate whose pages are at the generations `gens`. -/
@[grind =] def Candidate.answer (c : Candidate) (gens : Nat) (ram : Nat → Byte) : Bool :=
  if c.state = .blacklist then false
  else if gens % 2 ^ 32 = c.valGen % 2 ^ 32 then decide (c.state = .valid)
  else decide (candCrc ram c.ranges = c.crcCode)

/-- Other generations leave the answer: the candidate is banned, or its verdict is as
current at them as before, or the verdict is that of its bytes. -/
theorem Candidate.answer_eq_iff (c : Candidate) (gens gens' : Nat) (ram : Nat → Byte) :
    c.answer gens ram = c.answer gens' ram ↔
      c.state = .blacklist ∨
      (gens % 2 ^ 32 = c.valGen % 2 ^ 32 ↔ gens' % 2 ^ 32 = c.valGen % 2 ^ 32) ∨
      (c.state = .valid ↔ candCrc ram c.ranges = c.crcCode) := by
  unfold Candidate.answer
  by_cases hBanned : c.state = .blacklist
  · simp only [hBanned, if_true, true_or]
  rw [if_neg hBanned, if_neg hBanned, or_iff_right hBanned]
  by_cases hNow : gens % 2 ^ 32 = c.valGen % 2 ^ 32
  · by_cases hThen : gens' % 2 ^ 32 = c.valGen % 2 ^ 32
    · simp only [hNow, hThen, true_or]
    · have hMoved := not_iff.mpr (iff_of_false (not_not_intro hNow) hThen)
      rw [if_pos hNow, if_neg hThen, or_iff_right hMoved]
      exact decide_eq_decide
  · by_cases hThen : gens' % 2 ^ 32 = c.valGen % 2 ^ 32
    · have hMoved := not_iff.mpr (iff_of_true hNow hThen)
      rw [if_neg hNow, if_pos hThen, or_iff_right hMoved]
      exact decide_eq_decide.trans iff_comm
    · rw [if_neg hNow, if_neg hThen]
      exact iff_of_true rfl (.inl (iff_of_false hNow hThen))

/-- Every check of a guard answers in the second state as in the first. -/
structure SameAnswers (T : KernelBodies) (s s' : Loader) : Prop where
  dirty : ∀ phys, s'.mem.isDirty phys = s.mem.isDirty phys
  bless : ∀ phys, (s'.mem.blessDispatchable T phys).2 = (s.mem.blessDispatchable T phys).2
  text : ∀ phys, (s'.mem.textNativeOk phys).2 = (s.mem.textNativeOk phys).2
  cand : ∀ i < s.cands.length, (s'.checkCand i).2 = (s.checkCand i).2

section Conditions

variable (T : KernelBodies) (s : Loader) (ram : Nat → Byte) (es : List PassEvent)

/-- The pages of the kernel window that the native pass stores to are dirty anyway. -/
def KernelHolds : Prop := ∀ p, ∀ e ∈ es, StoresKernel p e → s.mem.dirty p = true

/-- The last thing that the native pass does to the verdict on a body gives the answer
of the interpreter's memory. -/
def BodiesHold : Prop :=
  T.on = true → ∀ i b, T.bodies[i]? = some b →
    match last (Loader.passStep T) (blessWrites T i b) (s.copyRam ram) es with
    | none => True
    | some .clean => s.mem.bodyAnswer i b = true
    | some .mismatch => s.mem.bodyAnswer i b = false
    | some .unknown => s.mem.bodyAnswer i b = bodyMatches s.mem.ram s.mem.rom b

/-- A page of the image on which a question fails in the native pass is refused anyway,
and one that it stores something different to is compared with success. -/
def TextHolds : Prop :=
  ∀ img, s.mem.text.image = some img → ∀ phys, img.lo ≤ phys → phys < img.hi →
    ((∃ before e after, es = before ++ e :: after ∧
        FailsText img (pageOf phys) ((s.copyRam ram).passRun T before) e) →
      (s.mem.textNativeOk phys).2 = false) ∧
    ((∃ e ∈ es, StoresDifferent img (pageOf phys) e) → (s.mem.textNativeOk phys).2 = true →
      img.window s.mem.ram phys = true)

/-- The last thing that the native pass does to the record of a candidate gives the
answer of the interpreter's memory, with the generations that its stores leave. A record
that it leaves alone is banned, or as current behind the stores as before them, or right
about the interpreter's bytes. -/
def CandsHold : Prop :=
  ∀ i c, s.cands[i]? = some c →
    let gens := candGensum ((s.copyRam ram).passRun T es).mem c.ranges
    let answer := c.answer (candGensum s.mem c.ranges) s.mem.ram
    match last (Loader.passStep T) (candWrites i) (s.copyRam ram) es with
    | none => c.state = .blacklist ∨
        (gens % 2 ^ 32 = c.valGen % 2 ^ 32 ↔
          candGensum s.mem c.ranges % 2 ^ 32 = c.valGen % 2 ^ 32) ∨
        (c.state = .valid ↔ candCrc s.mem.ram c.ranges = c.crcCode)
    | some .banned => answer = false
    | some (.judged holds since) =>
        answer = if gens % 2 ^ 32 = since % 2 ^ 32 then holds
          else decide (candCrc s.mem.ram c.ranges = c.crcCode)

end Conditions

section Answers

variable {T : KernelBodies} {m : Memory} {s : Loader} {ram : Nat → Byte} {es : List PassEvent}
  {phys : Nat}

/-- The loader behind the native pass, with the interpreter's RAM copied back. -/
def behindNative (T : KernelBodies) (s : Loader) (ram : Nat → Byte) (es : List PassEvent) :
    Loader :=
  ((s.copyRam ram).passRun T es).copyRam s.mem.ram

theorem dirty_behindNative (p : Nat) :
    (behindNative T s ram es).mem.dirty p = true ↔
      s.mem.dirty p = true ∨ ∃ e ∈ es, StoresKernel p e :=
  @run_mark_iff_mem _ _ _ (fun _ => True) (fun s => s.mem.dirty p = true) _
    (fun _ _ _ => trivial) (fun s e _ => dirty_passStep p s e) _ trivial es

theorem sameDirty_iff :
    (∀ phys, (behindNative T s ram es).mem.isDirty phys = s.mem.isDirty phys) ↔
      KernelHolds s es := by
  constructor
  · intro hSame p e he hStores
    obtain ⟨st, hEvent, hKernel, rfl⟩ := hStores
    have hDirty := hSame st.phys
    have hRam : st.phys < ramSize := hKernel.trans (by decide)
    have hSet : (behindNative T s ram es).mem.dirty (pageOf st.phys) = true :=
      (dirty_behindNative _).mpr (.inr ⟨e, he, st, hEvent, hKernel, rfl⟩)
    simpa [Memory.isDirty, hRam, hSet] using hDirty.symm
  · intro hHolds phys
    have hPage : (behindNative T s ram es).mem.dirty (pageOf phys) = s.mem.dirty (pageOf phys) := by
      rw [Bool.eq_iff_iff, dirty_behindNative]
      refine or_iff_left_of_imp ?_
      rintro ⟨e, he, hStores⟩
      exact hHolds _ e he hStores
    rw [Memory.isDirty, Memory.isDirty, hPage]

theorem bodyAnswer_behindNative (hOn : T.on = true) {i : Nat} {b : KernelBody}
    (hb : T.bodies[i]? = some b) :
    (behindNative T s ram es).mem.bodyAnswer i b =
      match last (Loader.passStep T) (blessWrites T i b) (s.copyRam ram) es with
      | none => s.mem.bodyAnswer i b
      | some .clean => true
      | some .mismatch => false
      | some .unknown => bodyMatches s.mem.ram s.mem.rom b := by
  have hRom : (behindNative T s ram es).mem.rom = s.mem.rom := rom_passRun es
  have hGoverns := bless_governs hOn hb
  unfold Memory.bodyAnswer
  rw [hRom]
  change (match ((s.copyRam ram).passRun T es).mem.bless i with
    | .clean => true
    | .mismatch => false
    | .unknown => bodyMatches s.mem.ram s.mem.rom b) = _
  cases hLast : last (Loader.passStep T) (blessWrites T i b) (s.copyRam ram) es with
  | none =>
      have hSame := hGoverns.run_none trivial hLast
      rw [Loader.passRun, hSame]
      rfl
  | some verdict =>
      have hWritten := hGoverns.run_some trivial hLast
      rw [Loader.passRun, hWritten]
      cases verdict <;> rfl

theorem sameBless_iff :
    (∀ phys, ((behindNative T s ram es).mem.blessDispatchable T phys).2 =
      (s.mem.blessDispatchable T phys).2) ↔ BodiesHold T s ram es := by
  have hBody : T.on = true → ∀ i b, T.bodies[i]? = some b →
      ((behindNative T s ram es).mem.bodyAnswer i b = s.mem.bodyAnswer i b ↔
        match last (Loader.passStep T) (blessWrites T i b) (s.copyRam ram) es with
        | none => True
        | some .clean => s.mem.bodyAnswer i b = true
        | some .mismatch => s.mem.bodyAnswer i b = false
        | some .unknown => s.mem.bodyAnswer i b = bodyMatches s.mem.ram s.mem.rom b) := by
    intro hOn i b hb
    rw [bodyAnswer_behindNative hOn hb]
    cases last (Loader.passStep T) (blessWrites T i b) (s.copyRam ram) es with
    | none => simp
    | some verdict => cases verdict <;> exact eq_comm
  constructor
  · intro hSame hOn i b hb
    have hFind : T.find b.key = some i := KernelBodies.find_eq_some_iff.mpr ⟨b, hb, rfl⟩
    have hAnswer := hSame b.key
    rw [blessDispatchable_of_find hOn hb hFind, blessDispatchable_of_find hOn hb hFind] at hAnswer
    exact (hBody hOn i b hb).mp hAnswer
  · intro hHolds phys
    by_cases hOn : T.on = true
    · cases hFind : T.find phys with
      | none =>
          unfold Memory.blessDispatchable
          rw [hFind]
          split <;> rfl
      | some i =>
          obtain ⟨b, hb, -⟩ := KernelBodies.find_eq_some_iff.mp hFind
          rw [blessDispatchable_of_find hOn hb hFind, blessDispatchable_of_find hOn hb hFind]
          exact (hBody hOn i b hb).mpr (hHolds hOn i b hb)
    · unfold Memory.blessDispatchable
      rw [if_neg fun h => hOn h.2.2, if_neg fun h => hOn h.2.2]

/-- The answer of the text guard for an entry inside the image. -/
theorem textNativeOk_answer {img : TextImage} (hImage : m.text.image = some img)
    (hLo : img.lo ≤ phys) (hHi : phys < img.hi) :
    (m.textNativeOk phys).2 =
      (!(m.text.active && m.text.diverged (pageOf phys)) &&
        ((!m.text.modified (pageOf phys) && !m.isDirty phys) || img.window m.ram phys)) := by
  unfold Memory.textNativeOk TextImage.window
  rw [hImage]
  dsimp only
  rw [if_neg (by omega)]
  split
  · rename_i hDiverged
    rw [hDiverged]
    rfl
  rename_i hDiverged
  rw [Bool.not_eq_true] at hDiverged
  rw [hDiverged]
  split
  · rename_i hTrusted
    rw [hTrusted]
    rfl
  rename_i hTrusted
  rw [Bool.not_eq_true] at hTrusted
  rw [hTrusted]
  split
  · rename_i hWindow
    rw [hWindow]
    rfl
  rename_i hWindow
  rw [Bool.not_eq_true] at hWindow
  rw [hWindow]
  split <;> rfl

/-- Outside the image an entry is refused on a dirty page. -/
theorem textNativeOk_outside
    (hOutside : ∀ img, m.text.image = some img → phys < img.lo ∨ img.hi ≤ phys) :
    (m.textNativeOk phys).2 = !m.isDirty phys := by
  unfold Memory.textNativeOk
  cases hImage : m.text.image with
  | none => rfl
  | some img =>
      dsimp only
      rw [if_pos (hOutside img hImage)]

/-- The marks of the text guard behind the native pass. -/
theorem text_behindNative {img : TextImage} (hImage : s.mem.text.image = some img) (p : Nat) :
    let after := behindNative T s ram es
    (after.mem.text.active = true ↔ s.mem.text.active = true) ∧
    (after.mem.text.modified p = true ↔
      s.mem.text.modified p = true ∨ ∃ e ∈ es, StoresDifferent img p e) ∧
    (after.mem.text.diverged p = true ↔ s.mem.text.diverged p = true ∨
      ∃ before e after, es = before ++ e :: after ∧
        FailsText img p ((s.copyRam ram).passRun T before) e) := by
  have hStays : ∀ (s : Loader) e, s.mem.text.image = some img →
      (s.passStep T e).mem.text.image = some img := fun s e h => (text_passStep h e).image
  refine ⟨?_, ?_, ?_⟩
  · have hActive := @run_mark_iff_mem _ _ _ _ (fun s : Loader => s.mem.text.active = true)
      (fun _ => False) hStays
      (fun s e h => by rw [(text_passStep (T := T) h e).active, or_false])
      (s.copyRam ram) hImage es
    exact hActive.trans (or_iff_left fun ⟨_, _, h⟩ => h)
  · exact @run_mark_iff_mem _ _ _ _ (fun s : Loader => s.mem.text.modified p = true) _ hStays
      (fun s e h => (text_passStep h e).modified p) (s.copyRam ram) hImage es
  · exact @run_mark_iff _ _ _ _ (fun s : Loader => s.mem.text.diverged p = true) _ hStays
      (fun s e h => (text_passStep h e).diverged p) (s.copyRam ram) hImage es

/-- More pages diverge and are modified: the answer stays if no failure was news and
what is compared now is equal. -/
theorem textAnswer_iff {active diverged diverged' modified modified' dirty window : Bool}
    {fails stores : Prop} (hDiverged : diverged' = true ↔ diverged = true ∨ fails)
    (hModified : modified' = true ↔ modified = true ∨ stores) (hActive : fails → active = true) :
    (!(active && diverged') && ((!modified' && !dirty) || window)) =
        (!(active && diverged) && ((!modified && !dirty) || window)) ↔
      (fails → (!(active && diverged) && ((!modified && !dirty) || window)) = false) ∧
      (stores → (!(active && diverged) && ((!modified && !dirty) || window)) = true →
        window = true) := by
  by_cases hFails : fails
  · rw [hActive hFails, hDiverged.mpr (.inr hFails)]
    constructor
    · intro hRefused
      exact ⟨fun _ => hRefused.symm,
        fun _ hTrue => absurd (hRefused.trans hTrue) Bool.false_ne_true⟩
    · exact fun h => (h.1 hFails).symm
  rw [Bool.eq_iff_iff.mpr (hDiverged.trans (or_iff_left hFails))]
  by_cases hStores : stores
  · rw [hModified.mpr (.inr hStores)]
    generalize (active && diverged) = refused
    generalize (!modified && !dirty) = trusted
    cases refused <;> cases trusted <;> cases window <;> simp [hFails, hStores]
  · rw [Bool.eq_iff_iff.mpr (hModified.trans (or_iff_left hStores))]
    simp [hFails, hStores]

theorem sameText_iff
    (hDirty : ∀ phys, (behindNative T s ram es).mem.isDirty phys = s.mem.isDirty phys) :
    (∀ phys, ((behindNative T s ram es).mem.textNativeOk phys).2 = (s.mem.textNativeOk phys).2) ↔
      TextHolds T s ram es := by
  have hEntry : ∀ img, s.mem.text.image = some img → ∀ phys, img.lo ≤ phys → phys < img.hi →
      (((behindNative T s ram es).mem.textNativeOk phys).2 = (s.mem.textNativeOk phys).2 ↔
        ((∃ before e after, es = before ++ e :: after ∧
            FailsText img (pageOf phys) ((s.copyRam ram).passRun T before) e) →
          (s.mem.textNativeOk phys).2 = false) ∧
        ((∃ e ∈ es, StoresDifferent img (pageOf phys) e) → (s.mem.textNativeOk phys).2 = true →
          img.window s.mem.ram phys = true)) := by
    intro img hImage phys hLo hHi
    obtain ⟨hActive, hModified, hDiverged⟩ :=
      @text_behindNative T _ ram es _ hImage (pageOf phys)
    have hImage' : (behindNative T s ram es).mem.text.image = some img :=
      (image_passRun (s := s.copyRam ram) es).trans hImage
    have hFailsActive : (∃ before e after, es = before ++ e :: after ∧
        FailsText img (pageOf phys) ((s.copyRam ram).passRun T before) e) →
        s.mem.text.active = true := by
      rintro ⟨before, e, after, -, phys', -, -, -, -, hSet, -⟩
      exact (@text_behindNative T _ ram before _ hImage 0).1.mp hSet
    have hSameActive := Bool.eq_iff_iff.mpr hActive
    rw [textNativeOk_answer hImage' hLo hHi, textNativeOk_answer hImage hLo hHi, hDirty,
      hSameActive]
    exact textAnswer_iff hDiverged hModified hFailsActive
  constructor
  · intro hSame img hImage phys hLo hHi
    exact (hEntry img hImage phys hLo hHi).mp (hSame phys)
  · intro hHolds phys
    by_cases hInside : ∃ img, s.mem.text.image = some img ∧ img.lo ≤ phys ∧ phys < img.hi
    · obtain ⟨img, hImage, hLo, hHi⟩ := hInside
      exact (hEntry img hImage phys hLo hHi).mpr (hHolds img hImage phys hLo hHi)
    · have hOutside : ∀ img, s.mem.text.image = some img → phys < img.lo ∨ img.hi ≤ phys := by
        intro img hImage
        by_contra hNot
        exact hInside ⟨img, hImage, by omega, by omega⟩
      have hOutside' : ∀ img, (behindNative T s ram es).mem.text.image = some img →
          phys < img.lo ∨ img.hi ≤ phys := fun img hImage =>
        hOutside img ((image_passRun (s := s.copyRam ram) es).symm.trans hImage)
      rw [textNativeOk_outside hOutside, textNativeOk_outside hOutside', hDirty]

theorem checkCand_answer {i : Nat} {c : Candidate} (hc : s.cands[i]? = some c) :
    (s.checkCand i).2 = c.answer (candGensum s.mem c.ranges) s.mem.ram := by
  unfold Loader.checkCand Candidate.answer
  rw [hc]
  dsimp only
  by_cases hListed : c.state = .blacklist
  · rw [if_pos hListed, if_pos hListed]
  rw [if_neg hListed, if_neg hListed]
  unfold Candidate.validate
  by_cases hCurrent : c.Current s.mem
  · have hSame : candGensum s.mem c.ranges % 2 ^ 32 = c.valGen % 2 ^ 32 := hCurrent
    rw [if_pos hSame]
    cases hState : c.state with
    | valid => simp [hCurrent]
    | invalid => simp [hCurrent]
    | blacklist => exact absurd hState hListed
  · have hMoved : ¬candGensum s.mem c.ranges % 2 ^ 32 = c.valGen % 2 ^ 32 := hCurrent
    rw [if_neg hMoved, if_neg fun h => hCurrent h.2, if_neg fun h => hCurrent h.2]
    by_cases hCrc : candCrc s.mem.ram c.ranges = c.crcCode
    · simp [hCrc]
    · simp [hCrc]

/-- A candidate behind the native pass answers by its last mark. -/
theorem answer_behindNative {i : Nat} {c : Candidate} (hc : s.cands[i]? = some c) :
    ((behindNative T s ram es).checkCand i).2 =
      let gens := candGensum ((s.copyRam ram).passRun T es).mem c.ranges
      match last (Loader.passStep T) (candWrites i) (s.copyRam ram) es with
      | none => c.answer gens s.mem.ram
      | some .banned => false
      | some (.judged holds since) =>
          if gens % 2 ^ 32 = since % 2 ^ 32 then holds
          else decide (candCrc s.mem.ram c.ranges = c.crcCode) := by
  have hGoverns := cand_governs (T := T) i c
  have hStart : SameCode i c (s.copyRam ram) := ⟨c, hc, rfl, rfl⟩
  obtain ⟨d, hd, hRanges, hCrc⟩ := @Governs.run_inv _ _ _ _ _ _ _ _ _ hGoverns _ es hStart
  have hAnswer := checkCand_answer (s := behindNative T s ram es) hd
  have hGens : candGensum (behindNative T s ram es).mem d.ranges =
      candGensum ((s.copyRam ram).passRun T es).mem c.ranges := by
    rw [hRanges]
    rfl
  rw [hAnswer, hGens]
  change d.answer _ s.mem.ram = _
  cases hLast : last (Loader.passStep T) (candWrites i) (s.copyRam ram) es with
  | none =>
      have hSame := hGoverns.run_none hStart hLast
      have hEq : some d = some c := hd.symm.trans (hSame.trans hc)
      rw [Option.some.inj hEq]
  | some mark =>
      obtain ⟨d', hd', hShown⟩ := hGoverns.run_some hStart hLast
      have hEq : d' = d := Option.some.inj (hd'.symm.trans hd)
      subst hEq
      unfold Candidate.answer
      cases mark with
      | banned => exact if_pos hShown
      | judged holds since =>
          obtain ⟨hState, hGen⟩ := hShown
          dsimp only
          rw [hGen, hRanges, hCrc, if_neg (by rw [hState]; cases holds <;> decide)]
          split
          · rw [hState]
            cases holds <;> rfl
          · rfl

theorem sameCand_iff :
    (∀ i < s.cands.length, ((behindNative T s ram es).checkCand i).2 = (s.checkCand i).2) ↔
      CandsHold T s ram es := by
  have hOne : ∀ i c, s.cands[i]? = some c →
      (((behindNative T s ram es).checkCand i).2 = (s.checkCand i).2 ↔
        let gens := candGensum ((s.copyRam ram).passRun T es).mem c.ranges
        let answer := c.answer (candGensum s.mem c.ranges) s.mem.ram
        match last (Loader.passStep T) (candWrites i) (s.copyRam ram) es with
        | none => c.state = .blacklist ∨
            (gens % 2 ^ 32 = c.valGen % 2 ^ 32 ↔
              candGensum s.mem c.ranges % 2 ^ 32 = c.valGen % 2 ^ 32) ∨
            (c.state = .valid ↔ candCrc s.mem.ram c.ranges = c.crcCode)
        | some .banned => answer = false
        | some (.judged holds since) =>
            answer = if gens % 2 ^ 32 = since % 2 ^ 32 then holds
              else decide (candCrc s.mem.ram c.ranges = c.crcCode)) := by
    intro i c hc
    rw [answer_behindNative hc, checkCand_answer hc]
    dsimp only
    cases last (Loader.passStep T) (candWrites i) (s.copyRam ram) es with
    | none => exact c.answer_eq_iff _ _ _
    | some mark => cases mark <;> exact eq_comm
  constructor
  · intro hSame i c hc
    exact (hOne i c hc).mp (hSame i (List.getElem?_eq_some_iff.mp hc).1)
  · intro hHolds i hi
    have hc := List.getElem?_eq_getElem hi
    exact (hOne i _ hc).mpr (hHolds i _ hc)

end Answers

section Run

variable {T : KernelBodies} {s : Loader}

/-- The budget and the device mark are no part of a check. -/
theorem checkCand_modify (i j : Nat) {f : Candidate → Candidate}
    (hKeeps : ∀ c gens ram, (f c).answer gens ram = c.answer gens ram ∧ (f c).ranges = c.ranges) :
    (({ s with cands := s.cands.modify i f } : Loader).checkCand j).2 = (s.checkCand j).2 := by
  cases hc : s.cands[j]? with
  | none =>
      unfold Loader.checkCand
      dsimp only
      rw [List.getElem?_modify, hc]
      rfl
  | some c =>
      have hModified : (s.cands.modify i f)[j]? = some (if i = j then f c else c) := by
        rw [List.getElem?_modify, hc]
        split <;> rfl
      rw [checkCand_answer hModified, checkCand_answer hc]
      split
      · rw [(hKeeps c 0 s.mem.ram).2]
        exact (hKeeps c _ _).1
      · rfl

theorem SameAnswers.of_modify {s s' : Loader} (i : Nat) {f : Candidate → Candidate}
    (hKeeps : ∀ c gens ram, (f c).answer gens ram = c.answer gens ram ∧ (f c).ranges = c.ranges) :
    SameAnswers T s { s' with cands := s'.cands.modify i f } ↔ SameAnswers T s s' := by
  constructor
  · intro h
    refine ⟨h.dirty, h.bless, h.text, fun j hj => ?_⟩
    rw [← h.cand j hj, checkCand_modify i j hKeeps]
  · intro h
    refine ⟨h.dirty, h.bless, h.text, fun j hj => ?_⟩
    rw [← h.cand j hj, checkCand_modify i j hKeeps]

theorem sameAnswers_behindNative (ram : Nat → Byte) (es : List PassEvent) :
    SameAnswers T s (behindNative T s ram es) ↔
      KernelHolds s es ∧ BodiesHold T s ram es ∧ TextHolds T s ram es ∧ CandsHold T s ram es := by
  constructor
  · rintro ⟨hDirty, hBless, hText, hCand⟩
    exact ⟨sameDirty_iff.mp hDirty, sameBless_iff.mp hBless, (sameText_iff hDirty).mp hText,
      sameCand_iff.1 hCand⟩
  · rintro ⟨hKernel, hBodies, hText, hCands⟩
    have hDirty := (@sameDirty_iff T _ ram _).mpr hKernel
    exact ⟨hDirty, sameBless_iff.mpr hBodies, (sameText_iff hDirty).mpr hText,
      sameCand_iff.2 hCands⟩

/-- Behind a shadow run with a native pass the checks answer as behind that pass. -/
theorem runShadowDiff_native (g : Guest) (i : Nat) {interp : ShadowPass} (native : ShadowPass)
    (hDevice : interp.device = false) :
    let kept := g.run T interp
    ∃ same, g.runShadowDiff T i interp native =
      Guest.modifyCand ⟨kept.cpu, kept.spad,
        behindNative T kept.loader g.loader.mem.ram native.events⟩ i (Candidate.credit same) :=
  ⟨_, if_neg (by rw [hDevice]; exact Bool.false_ne_true)⟩

theorem run_loader_nil (g : Guest) {p : ShadowPass} (hEvents : p.events = []) :
    (g.run T p).loader = g.loader := by
  unfold Guest.run
  rw [hEvents]
  rfl

theorem sameAnswers_credit (g : Guest) (i : Nat) (same : Bool) :
    SameAnswers T s (g.modifyCand i (Candidate.credit same)).loader ↔ SameAnswers T s g.loader := by
  have hKeeps : ∀ (c : Candidate) gens ram,
      (c.credit same).answer gens ram = c.answer gens ram ∧ (c.credit same).ranges = c.ranges :=
    fun c gens ram => ⟨rfl, rfl⟩
  exact SameAnswers.of_modify i hKeeps

end Run

/-- A shadow run leaves the CPU, the RAM and the scratchpad of the interpreter's pass.
The checks behind it answer as behind that pass alone exactly if there was no native
pass, or the last thing it did to each record answers for the interpreter's bytes. -/
theorem runShadowDiff_iff (T : KernelBodies) (s : Guest) (i : Nat) (interp native : ShadowPass) :
    let kept := s.run T interp
    let after := s.runShadowDiff T i interp native
    (after.cpu = kept.cpu ∧ after.spad = kept.spad ∧ after.loader.mem.ram = kept.loader.mem.ram) ∧
    (SameAnswers T kept.loader after.loader ↔ interp.device = true ∨
      (KernelHolds kept.loader native.events ∧
        BodiesHold T kept.loader s.loader.mem.ram native.events ∧
        TextHolds T kept.loader s.loader.mem.ram native.events ∧
        CandsHold T kept.loader s.loader.mem.ram native.events)) := by
  intro kept after
  cases hDevice : interp.device with
  | true =>
      have hAfter : after = kept.modifyCand i Candidate.markDevice := if_pos hDevice
      rw [hAfter]
      refine ⟨⟨rfl, rfl, rfl⟩, ⟨fun _ => .inl rfl, fun _ => ?_⟩⟩
      have hKeeps : ∀ (c : Candidate) gens ram, c.markDevice.answer gens ram = c.answer gens ram ∧
          c.markDevice.ranges = c.ranges := fun c gens ram => ⟨rfl, rfl⟩
      apply (SameAnswers.of_modify i hKeeps).mpr
      exact ⟨fun _ => rfl, fun _ => rfl, fun _ => rfl, fun _ _ => rfl⟩
  | false =>
      obtain ⟨same, hAfter⟩ := runShadowDiff_native (T := T) s i native hDevice
      rw [show after = _ from hAfter]
      refine ⟨⟨rfl, rfl, rfl⟩, ?_⟩
      simp only [Bool.false_eq_true, false_or]
      exact (sameAnswers_credit _ i same).trans (sameAnswers_behindNative _ _)

/-- A function whose code is not in memory, and one that runs in a shadow. -/
def twoFunctions : Guest where
  cpu := ⟨fun _ => 0, 0, 0, 0, fun _ => 0, fun _ => 0, fun _ => 0, ()⟩
  spad _ := 0
  loader :=
    (emptyLoader.candRegister ⟨0x10000, [oneWord], some 2943190994, 0⟩).candRegister
      ⟨0x20000, [⟨0x20000, 4, oneWord_pos, by decide⟩], none, 1⟩

def idlePass (events : List PassEvent) : ShadowPass :=
  ⟨events, twoFunctions.cpu, twoFunctions.spad, false⟩

/-- The native code stores the code of the first function and dispatches to it. -/
def strayStore : List PassEvent := [.store ⟨0x10000, .word, 0x12345678⟩, .check 0]

/-- The first function stays valid though its code has gone with the native pass. -/
theorem strayStore_leaves_verdict :
    ¬SameAnswers oneBody (twoFunctions.run oneBody (idlePass [])).loader
      (twoFunctions.runShadowDiff oneBody 1 (idlePass []) (idlePass strayStore)).loader := by
  intro hSame
  obtain ⟨same, hAfter⟩ := runShadowDiff_native (T := oneBody) twoFunctions 1
    (idlePass strayStore) (show (idlePass []).device = false from rfl)
  have hKept := run_loader_nil (T := oneBody) twoFunctions (p := idlePass []) rfl
  rw [hAfter, sameAnswers_credit, hKept] at hSame
  have hValid : ((behindNative oneBody twoFunctions.loader twoFunctions.loader.mem.ram
      strayStore).checkCand 0).2 = true := by decide +kernel
  have hInvalid : (twoFunctions.loader.checkCand 0).2 = false := by decide +kernel
  have hListed : 0 < twoFunctions.loader.cands.length := by decide +kernel
  have hCand := hSame.cand 0 hListed
  dsimp only [idlePass] at hCand
  rw [hInvalid, hValid] at hCand
  exact Bool.noConfusion hCand

end RecompStudio.Runtime
