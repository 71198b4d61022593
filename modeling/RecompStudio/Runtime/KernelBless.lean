import RecompStudio.Library.Machine
import RecompStudio.Runtime.Memory

/-!
The kernel bless: a native BIOS body may run in place of its RAM copy when the
copy still is the ROM text. The verdict on a body is cached, so that the cache
has to be dropped by every way in which the copy can change.
-/

namespace RecompStudio.Runtime

open Machine

namespace KernelBodies

variable {T : KernelBodies} {phys i j : Nat} {a b : KernelBody}

theorem key_lt_key (ha : T.bodies[i]? = some a) (hb : T.bodies[j]? = some b) (hLt : i < j) :
    a.key < b.key := by
  obtain ⟨hi, rfl⟩ := List.getElem?_eq_some_iff.mp ha
  obtain ⟨hj, rfl⟩ := List.getElem?_eq_some_iff.mp hb
  have hSorted := List.pairwise_iff_getElem.mp T.sorted i j (by simpa using hi) (by simpa using hj)
    hLt
  simpa using hSorted

/-- The search reports only bodies with the key. -/
theorem findLoop_sound (fuel lo hi : Nat) (hFind : T.findLoop phys fuel lo hi = some i) :
    ∃ b, T.bodies[i]? = some b ∧ b.key = phys := by
  induction fuel generalizing lo hi with
  | zero => simp [findLoop] at hFind
  | succ fuel ih =>
      rw [findLoop] at hFind
      split at hFind
      · split at hFind
        · exact absurd hFind (by simp)
        · rename_i b hMid
          split at hFind
          · rename_i hKey
            obtain rfl := Option.some.inj hFind
            exact ⟨b, hMid, hKey⟩
          · split at hFind
            · exact ih _ _ hFind
            · exact ih _ _ hFind
      · exact absurd hFind (by simp)

/-- The search finds the body with the key while its index is between the bounds. -/
theorem findLoop_complete (hb : T.bodies[i]? = some b) (hKey : b.key = phys) (fuel lo hi : Nat)
    (hLo : lo ≤ i) (hHi : i < hi) (hLength : hi ≤ T.bodies.length) (hFuel : hi - lo ≤ fuel) :
    T.findLoop phys fuel lo hi = some i := by
  induction fuel generalizing lo hi with
  | zero => omega
  | succ fuel ih =>
      have hMid : (lo + hi) / 2 < T.bodies.length := by omega
      rw [findLoop, if_pos (by omega), List.getElem?_eq_getElem hMid]
      have hGet := List.getElem?_eq_getElem hMid
      rcases Nat.lt_trichotomy ((lo + hi) / 2) i with hLt | hEq | hGt
      · have hLess := key_lt_key hGet hb hLt
        simp only [if_neg (show ¬T.bodies[(lo + hi) / 2].key = phys by omega),
          if_pos (show T.bodies[(lo + hi) / 2].key < phys by omega)]
        exact ih _ _ (by omega) hHi hLength (by omega)
      · subst hEq
        simp only [Option.some.inj (hGet.symm.trans hb), if_pos hKey]
      · have hMore := key_lt_key hb hGet hGt
        simp only [if_neg (show ¬T.bodies[(lo + hi) / 2].key = phys by omega),
          if_neg (show ¬T.bodies[(lo + hi) / 2].key < phys by omega)]
        exact ih _ _ hLo (by omega) (by omega) (by omega)

theorem find_eq_some_iff : T.find phys = some i ↔ ∃ b, T.bodies[i]? = some b ∧ b.key = phys := by
  constructor
  · exact findLoop_sound _ _ _
  · rintro ⟨b, hb, hKey⟩
    obtain ⟨hi, _⟩ := List.getElem?_eq_some_iff.mp hb
    exact findLoop_complete hb hKey _ _ _ (Nat.zero_le i) hi le_rfl (by omega)

theorem eq_of_key (ha : a ∈ T.bodies) (hb : b ∈ T.bodies) (hKey : a.key = b.key) : a = b := by
  obtain ⟨i, hi⟩ := List.getElem?_of_mem ha
  obtain ⟨j, hj⟩ := List.getElem?_of_mem hb
  have hFirst := find_eq_some_iff.2 ⟨a, hi, hKey⟩
  have hSecond := find_eq_some_iff.2 ⟨b, hj, rfl⟩
  obtain rfl := Option.some.inj (hFirst.symm.trans hSecond)
  exact Option.some.inj (hi.symm.trans hj)

end KernelBodies

theorem bodyMatches_iff {ram rom : Nat → Byte} {b : KernelBody} (hInside : 0x500 ≤ b.lo) :
    bodyMatches ram rom b = true ↔
      ∀ a, b.lo ≤ a → a < b.hi → ram a = rom (0x10000 + (a - 0x500)) := by
  simp only [bodyMatches, List.all_eq_true, List.mem_range, beq_iff_eq]
  constructor
  · intro h a hLo hHi
    have hByte := h (a - b.lo) (by omega)
    rwa [show b.lo + (a - b.lo) = a by omega,
      show 0x10000 + (b.lo - 0x500) + (a - b.lo) = 0x10000 + (a - 0x500) by omega] at hByte
  · intro h i hi
    have hByte := h (b.lo + i) (by omega) (by omega)
    rwa [show 0x10000 + (b.lo + i - 0x500) = 0x10000 + (b.lo - 0x500) + i by omega] at hByte

theorem bodyMatches_congr {ram ram' rom : Nat → Byte} {b : KernelBody}
    (hSame : ∀ a, b.lo ≤ a → a < b.hi → ram' a = ram a) :
    bodyMatches ram' rom b = bodyMatches ram rom b := by
  rw [Bool.eq_iff_iff]
  simp only [bodyMatches, List.all_eq_true, List.mem_range]
  refine forall_congr' fun i => imp_congr_right fun hi => ?_
  rw [hSame (b.lo + i) (by omega) (by omega)]

/-- What the guest and the devices do to the bless. -/
inductive KernelEvent where
  | store (phys : Nat) (width : Width) (val : Word)
  | noteRange (phys len : Nat)
  | markExecutable (phys len : Nat)
  | restore (ram : Nat → Byte)
  | query (phys : Nat)

/-- One event. A restore replaces the RAM and then notes all of it. -/
def kernelStep (T : KernelBodies) (m : Memory) : KernelEvent → Memory
  | .store phys width val => if phys < ramSize then m.write T phys width.bytes val else m
  | .noteRange phys len => m.blessNoteRange T phys len
  | .markExecutable phys len => m.markExecutableRange T phys len
  | .restore ram => ({ m with ram := ram } : Memory).blessNoteRange T 0 ramSize
  | .query phys => (m.blessDispatchable T phys).1

/-- No store begins before a body with a cached verdict and reaches into it. -/
def KernelStepOk (T : KernelBodies) (m : Memory) : KernelEvent → Prop
  | .store phys width _ => ∀ i b, T.bodies[i]? = some b → phys < b.lo →
      b.lo < phys + width.bytes → m.bless i = .unknown
  | _ => True

/-- Every cached verdict is the one that a comparison would give. -/
def VerdictsHold (T : KernelBodies) (m : Memory) : Prop :=
  ∀ i b, T.bodies[i]? = some b →
    (m.bless i = .clean → bodyMatches m.ram m.rom b = true) ∧
      (m.bless i = .mismatch → bodyMatches m.ram m.rom b = false)

section Steps

variable {T : KernelBodies} {m m' : Memory} {phys len : Nat}

/-- A step keeps the verdicts if each body's is dropped or still is about the
same bytes. -/
theorem VerdictsHold.step (h : VerdictsHold T m)
    (hStep : ∀ i b, T.bodies[i]? = some b → m'.bless i = .unknown ∨
      m'.bless i = m.bless i ∧ bodyMatches m'.ram m'.rom b = bodyMatches m.ram m.rom b) :
    VerdictsHold T m' := by
  intro i b hb
  rcases hStep i b hb with hDrop | ⟨hBless, hMatches⟩
  · rw [hDrop]
    exact ⟨fun hClean => BlessState.noConfusion hClean, fun hMis => BlessState.noConfusion hMis⟩
  · rw [hBless, hMatches]
    exact h i b hb

theorem reset_apply (bless : Nat → BlessState) (p : KernelBody → Bool) {i : Nat} {b : KernelBody}
    (hb : T.bodies[i]? = some b) :
    T.reset bless p i = if p b then .unknown else bless i := by
  simp only [KernelBodies.reset, hb]

@[simp] theorem textNoteWrite_bless (size : Nat) (val : Word) :
    (m.textNoteWrite phys size val).bless = m.bless := by
  unfold Memory.textNoteWrite
  split
  · rfl
  · split <;> rfl

@[simp] theorem watchNoteWrite_bless : (m.watchNoteWrite phys).bless = m.bless := by
  unfold Memory.watchNoteWrite
  split <;> rfl

@[simp] theorem textNoteWrite_rom (size : Nat) (val : Word) :
    (m.textNoteWrite phys size val).rom = m.rom := by
  unfold Memory.textNoteWrite
  split
  · rfl
  · split <;> rfl

@[simp] theorem watchNoteWrite_rom : (m.watchNoteWrite phys).rom = m.rom := by
  unfold Memory.watchNoteWrite
  split <;> rfl

@[simp] theorem markKernelWrite_rom : (m.markKernelWrite T phys).rom = m.rom := by
  unfold Memory.markKernelWrite Memory.kblessNoteWrite
  split
  · split <;> rfl
  · rfl

@[simp] theorem write_rom (size : Nat) (val : Word) : (m.write T phys size val).rom = m.rom := by
  simp [Memory.write]

theorem write_bless (size : Nat) (val : Word) :
    (m.write T phys size val).bless = (m.markKernelWrite T phys).bless := by
  simp [Memory.write]

/-- The verdict of a body is dropped when the first byte of a store is in it. -/
theorem markKernelWrite_bless (hOn : T.on = true) {i : Nat} {b : KernelBody}
    (hb : T.bodies[i]? = some b) :
    (m.markKernelWrite T phys).bless i =
      if b.lo ≤ phys ∧ phys < b.hi then .unknown else m.bless i := by
  obtain ⟨hLo, hLt, hHi⟩ := T.inside b (List.mem_of_getElem? hb)
  unfold Memory.markKernelWrite Memory.kblessNoteWrite
  by_cases hBody : b.lo ≤ phys ∧ phys < b.hi
  · rw [if_pos (show phys < 0x10000 by omega),
      if_pos ⟨by omega, by omega, hOn⟩, if_pos hBody]
    simp only [reset_apply _ _ hb, hBody, and_self, decide_true, if_true]
  · rw [if_neg hBody]
    split
    · split
      · simp only [reset_apply _ _ hb, hBody, decide_false, Bool.false_eq_true, if_false]
      · rfl
    · rfl

theorem write_verdictsHold (h : VerdictsHold T m) (hOn : T.on = true) {width : Width} {val : Word}
    (hOk : KernelStepOk T m (.store phys width val)) :
    VerdictsHold T (m.write T phys width.bytes val) := by
  refine h.step fun i b hb => ?_
  rw [write_bless, markKernelWrite_bless hOn hb, write_rom]
  by_cases hFirst : b.lo ≤ phys ∧ phys < b.hi
  · exact .inl (if_pos hFirst)
  rw [if_neg hFirst]
  -- The store misses the body, or it begins before it and reaches into it.
  by_cases hReach : phys < b.lo ∧ b.lo < phys + width.bytes
  · exact .inl (hOk i b hb hReach.1 hReach.2)
  · refine .inr ⟨rfl, bodyMatches_congr fun a hLo hHi => ?_⟩
    exact writeBytes_of_outside val (by omega)

theorem blessNoteRange_verdictsHold (h : VerdictsHold T m) :
    VerdictsHold T (m.blessNoteRange T phys len) := by
  unfold Memory.blessNoteRange
  split
  · exact h
  · refine h.step fun i b hb => .inl ?_
    simp only [reset_apply _ _ hb, if_true]

theorem markExecutableRange_verdictsHold (h : VerdictsHold T m) :
    VerdictsHold T (m.markExecutableRange T phys len) := by
  unfold Memory.markExecutableRange
  split
  · exact h
  · exact (blessNoteRange_verdictsHold h).step fun i b hb => .inr ⟨rfl, rfl⟩

/-- A restored RAM is covered by the range that is noted after it. -/
theorem restore_verdictsHold (hOn : T.on = true) (ram : Nat → Byte) :
    VerdictsHold T (({ m with ram := ram } : Memory).blessNoteRange T 0 ramSize) := by
  have hSize : T.bodies.length ≤ 4096 := by
    have := (Bool.and_eq_true_iff.mp hOn).2
    simpa using this
  intro i b hb
  rw [Memory.blessNoteRange, if_neg (by unfold ramSize; omega)]
  simp only [reset_apply _ _ hb, if_true]
  exact ⟨fun hClean => BlessState.noConfusion hClean, fun hMis => BlessState.noConfusion hMis⟩

theorem blessDispatchable_verdictsHold (h : VerdictsHold T m) :
    VerdictsHold T (m.blessDispatchable T phys).1 := by
  unfold Memory.blessDispatchable
  split
  · split
    · exact h
    · rename_i i _
      split
      · exact h
      · exact h
      · exact h
      · rename_i b _ hb
        intro j c hc
        by_cases hj : j = i
        · subst hj
          obtain rfl := Option.some.inj (hb.symm.trans hc)
          cases bodyMatches m.ram m.rom b <;> simp
        · simp only [if_neg hj]
          exact h j c hc
  · exact h

theorem kernelStep_verdictsHold (hOn : T.on = true) (h : VerdictsHold T m) (e : KernelEvent)
    (hOk : KernelStepOk T m e) : VerdictsHold T (kernelStep T m e) := by
  cases e with
  | store phys width val =>
      rw [kernelStep]
      split
      · exact write_verdictsHold h hOn hOk
      · exact h
  | noteRange phys len => exact blessNoteRange_verdictsHold h
  | markExecutable phys len => exact markExecutableRange_verdictsHold h
  | restore ram => exact restore_verdictsHold hOn ram
  | query phys => exact blessDispatchable_verdictsHold h

/-- With verdicts that hold, a query answers as a fresh comparison. -/
theorem blessDispatchable_iff (h : VerdictsHold T m) (hOn : T.on = true) :
    (m.blessDispatchable T phys).2 = true ↔
      ∃ b ∈ T.bodies, b.key = phys ∧ bodyMatches m.ram m.rom b = true := by
  by_cases hRegistered : ∃ b ∈ T.bodies, b.key = phys
  · obtain ⟨b, hMem, hKey⟩ := hRegistered
    obtain ⟨i, hi⟩ := List.getElem?_of_mem hMem
    have hRight : (∃ b ∈ T.bodies, b.key = phys ∧ bodyMatches m.ram m.rom b = true) ↔
        bodyMatches m.ram m.rom b = true := by
      constructor
      · rintro ⟨c, hc, hKey', hMatches⟩
        rwa [KernelBodies.eq_of_key hc hMem (hKey'.trans hKey.symm)] at hMatches
      · exact fun hMatches => ⟨b, hMem, hKey, hMatches⟩
    obtain ⟨hLo, hHi⟩ := T.keys b hMem
    rw [hRight, Memory.blessDispatchable, if_pos ⟨by omega, by omega, hOn⟩,
      KernelBodies.find_eq_some_iff.2 ⟨b, hi, hKey⟩]
    obtain ⟨hClean, hMismatch⟩ := h i b hi
    cases hBless : m.bless i with
    | unknown => simp only [hBless, hi]
    | clean => simp [hBless, hClean hBless]
    | mismatch => simp [hBless, hMismatch hBless]
  · have hNone : T.find phys = none := by
      cases hFind : T.find phys with
      | none => rfl
      | some i =>
          obtain ⟨b, hb, hKey⟩ := KernelBodies.find_eq_some_iff.1 hFind
          exact absurd ⟨b, List.mem_of_getElem? hb, hKey⟩ hRegistered
    constructor
    · intro hTrue
      rw [Memory.blessDispatchable, hNone] at hTrue
      split at hTrue <;> exact absurd hTrue (by simp)
    · rintro ⟨b, hMem, hKey, _⟩
      exact absurd ⟨b, hMem, hKey⟩ hRegistered

end Steps

/-- In every run in which no store begins before a body with a cached verdict
and reaches into it, a body may run natively exactly while its bytes are those
of the ROM. -/
theorem blessDispatchable_iff_of_run {T : KernelBodies} {start m : Memory}
    (hStart : ∀ i, start.bless i = .unknown)
    (hRun : Reach (kernelStep T) (KernelStepOk T) start m) (phys : Nat) :
    (m.blessDispatchable T phys).2 = true ↔
      T.on = true ∧ ∃ b ∈ T.bodies, b.key = phys ∧
        ∀ a, b.lo ≤ a → a < b.hi → m.ram a = m.rom (0x10000 + (a - 0x500)) := by
  by_cases hOn : T.on = true
  · have hVerdicts : VerdictsHold T m := by
      refine hRun.invariant (fun i b hb => ?_) fun m e h hOk => kernelStep_verdictsHold hOn h e hOk
      simp [hStart i]
    rw [blessDispatchable_iff hVerdicts hOn]
    simp only [hOn, true_and]
    refine exists_congr fun b => and_congr_right fun hMem => and_congr_right fun _ => ?_
    exact bodyMatches_iff (T.inside b hMem).1
  · simp [Memory.blessDispatchable, hOn]

/-- A patch of the first word of the body is noticed. -/
theorem blessDispatchable_iff_patched :
    let patched := kernelStep oneBody (kernelStep oneBody zeroMemory (.query 0x600))
      (.store 0x600 .word 1)
    (patched.blessDispatchable oneBody 0x600).2 = true ↔
      oneBody.on = true ∧ ∃ b ∈ oneBody.bodies, b.key = 0x600 ∧
        ∀ a, b.lo ≤ a → a < b.hi → patched.ram a = patched.rom (0x10000 + (a - 0x500)) := by
  have hFirst : Reach (kernelStep oneBody) (KernelStepOk oneBody) zeroMemory
      (kernelStep oneBody zeroMemory (.query 0x600)) := Reach.start.next _ trivial
  refine blessDispatchable_iff_of_run (fun _ => rfl) (hFirst.next (.store 0x600 .word 1) ?_) 0x600
  intro i b hb hLt
  obtain rfl : b = ⟨0x600, 0x600, 0x610⟩ := by
    have hMem := List.mem_of_getElem? hb
    simpa [oneBody] using hMem
  exact absurd hLt (by decide)

/-- The word at `0x5FE` reaches into the body, and the cached verdict stays. -/
theorem blessDispatchable_straddled :
    ¬∀ (T : KernelBodies) (start m : Memory), (∀ i, start.bless i = .unknown) →
      Reach (kernelStep T) (fun _ _ => True) start m → ∀ b ∈ T.bodies,
        (m.blessDispatchable T b.key).2 = true →
          ∀ a, b.lo ≤ a → a < b.hi → m.ram a = m.rom (0x10000 + (a - 0x500)) := by
  intro hClaim
  have hFirst : Reach (kernelStep oneBody) (fun _ _ => True) zeroMemory
      (kernelStep oneBody zeroMemory (.query 0x600)) := Reach.start.next _ trivial
  have hByte := hClaim oneBody zeroMemory _ (fun _ => rfl)
    (hFirst.next (.store 0x5FE .word 0x10000) trivial) ⟨0x600, 0x600, 0x610⟩ (by decide) (by decide)
    0x600 (by decide) (by decide)
  exact absurd hByte (by decide)

end RecompStudio.Runtime
