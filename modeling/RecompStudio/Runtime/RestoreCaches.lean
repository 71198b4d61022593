import RecompStudio.Runtime.LazyManifest
import RecompStudio.Runtime.SaveRoundTrip
import RecompStudio.Runtime.TextGuard

/-!
The verdicts on code behind the load of a snapshot. The load copies the RAM in
one piece and tells the kernel bless alone. The candidates of the overlay
loader, the manifests of libraries that are not loaded yet and the text guard
keep what they found in the RAM before, as their generations and marks only
move with stores.
-/

namespace RecompStudio.Runtime

open Machine BootState Serial

/-- A block of bytes as memory. -/
@[grind =] def ramOf {n : Nat} (bs : Bytes n) : Nat → Byte := fun a => bs.val.getD a 0

/-- The words of the bitmap as a function of the page. -/
def dirtyOf (words : Fin dirtyWords → Word) : Nat → Bool := fun page =>
  if h : page / 32 < dirtyWords then (words ⟨page / 32, h⟩).getLsbD (page % 32) else false

variable {D : Devices}

/-- What the RAM and the bitmap of a snapshot do to memory. -/
@[grind =]
def Memory.restore (T : KernelBodies) (m : Memory) (loaded : BootState.Machine D) : Memory :=
  { ({ m with ram := ramOf loaded.ram } : Memory).blessNoteRange T 0 ramSize with
    dirty := dirtyOf loaded.dirty }

structure CodeCaches where
  loader : Loader
  lazies : List LazyMan

namespace CodeCaches

variable (T : KernelBodies) (s : CodeCaches)

@[grind =] def mem : Memory := s.loader.mem

@[grind =] def restore (loaded : BootState.Machine D) : CodeCaches :=
  { s with loader := { s.loader with mem := s.loader.mem.restore T loaded } }

/-- The caches behind a load that went through, with the machine it made. -/
def afterLoad : Bool × BootState.Machine D → Option CodeCaches
  | (true, loaded) => some (s.restore T loaded)
  | (false, _) => none

end CodeCaches

/-- Calls of the guards that store nothing. -/
inductive GuardCall where
  | registerText (physLo len : Nat) (bytes : Nat → Byte)
  | markExecutable (phys len : Nat)
  | textBless (phys len : Nat) (bytes : Nat → Byte)
  | clearBaseline (floor : Nat)
  | textNativeOk (phys : Nat)

def Memory.guardCall (T : KernelBodies) (m : Memory) : GuardCall → Memory
  | .registerText physLo len bytes => m.registerTextImage physLo len bytes
  | .markExecutable phys len => m.markExecutableRange T phys len
  | .textBless phys len bytes => m.textBless phys len bytes
  | .clearBaseline floor => m.clearImageBaseline floor
  | .textNativeOk phys => (m.textNativeOk phys).1

/-- What happens to the caches. -/
inductive CacheEvent (D : Devices) where
  | loader (e : LoaderEvent)
  | guard (call : GuardCall)
  | lazyManMatches (i : Nat)
  | load (loaded : BootState.Machine D)

def cacheStep (T : KernelBodies) (s : CodeCaches) : CacheEvent D → CodeCaches
  | .loader e => { s with loader := loaderStep T s.loader e }
  | .guard call => { s with loader := { s.loader with mem := s.loader.mem.guardCall T call } }
  | .lazyManMatches i =>
      { s with lazies := s.lazies.modify i fun lm => (lm.lazyManMatches s.loader.mem).1 }
  | .load loaded => s.restore T loaded

/-- The candidates whose verdict stands have their bytes in the RAM of the snapshot. -/
def CodeCaches.CandsSurvive (s : CodeCaches) (loaded : BootState.Machine D) : Prop :=
  ∀ c ∈ s.loader.cands, c.state = .valid → c.Current s.mem →
    candCrc (ramOf loaded.ram) c.ranges = c.crcCode

/-- What the loader relies on, and loads that the candidates survive. -/
def CacheStepOk (s : CodeCaches) : CacheEvent D → Prop
  | .loader e => LoaderStepOk s.loader e
  | .load loaded => s.CandsSurvive loaded
  | _ => True

/-- The first bytes from the entry, at most 256 of them, are not those of the image. -/
def CompiledFunction.HeadDiffers (f : CompiledFunction) (ram : Nat → Byte) : Prop :=
  ∃ i < min 256 (f.image.hi - f.entry), ram (f.entry + i) ≠ f.image.bytes (f.entry + i)

/-- The condition on the caches before a load and on the snapshot. -/
structure CodeCaches.Survive (functions : List CompiledFunction) (loaded : BootState.Machine D)
    (s : CodeCaches) : Prop where
  cands : s.CandsSurvive loaded
  /-- A function is intact in the snapshot, or its page is known as diverged, or it
  is marked by an earlier store or by the bitmap of the snapshot and the bytes at
  its entry tell. -/
  text : ∀ f ∈ functions, f.Intact (ramOf loaded.ram) ∨
    (s.mem.text.active && s.mem.text.diverged (pageOf f.entry)) = true ∨
    (s.mem.text.modified (pageOf f.entry) || dirtyOf loaded.dirty (pageOf f.entry)) = true ∧
      f.HeadDiffers (ramOf loaded.ram)
  lazies : ∀ lm ∈ s.lazies, lm.Reuses s.mem → ∀ r ∈ lm.ranges, ∀ a, r.lo ≤ a →
    a < r.lo + r.len → ramOf loaded.ram a = s.mem.ram a

/-- The caches are sound for the bytes that a load has put into the RAM. -/
structure CodeCaches.Sound (T : KernelBodies) (functions : List CompiledFunction)
    (s before : CodeCaches) : Prop where
  checked : ∀ c ∈ s.loader.cands, c.state ≠ .blacklist → (c.validate s.mem).2 = true →
    candCrc s.mem.ram c.ranges = c.crcCode
  dispatched : ∀ d : DispatchInput, d.Ok s.loader → ∀ c, (s.loader.dispatch T d).2 = some c →
    candCrc (s.loader.dispatch T d).1.mem.ram c.ranges = c.crcCode
  text : ∀ f ∈ functions, (s.mem.textNativeOk f.entry).2 = true → f.Intact s.mem.ram
  lazies : ∀ lm ∈ s.lazies, lm.Reuses s.mem → ∀ r ∈ lm.ranges, ∀ a, r.lo ≤ a →
    a < r.lo + r.len → s.mem.ram a = before.mem.ram a

section Restore

variable {T : KernelBodies} {s : CodeCaches} {m : Memory} (loaded : BootState.Machine D)

theorem restore_text : (m.restore T loaded).text = m.text := by
  simp only [Memory.restore, Memory.blessNoteRange]
  split <;> rfl

theorem restore_ram : (m.restore T loaded).ram = ramOf loaded.ram := by
  simp only [Memory.restore, Memory.blessNoteRange]
  split <;> rfl

theorem restore_pageGen : (m.restore T loaded).pageGen = m.pageGen := by
  simp only [Memory.restore, Memory.blessNoteRange]
  split <;> rfl

theorem restore_watched : (m.restore T loaded).watched = m.watched := by
  simp only [Memory.restore, Memory.blessNoteRange]
  split <;> rfl

/-- The load moves no generation, so that the verdicts which stood before still do. -/
theorem current_restore (c : Candidate) : c.Current (m.restore T loaded) ↔ c.Current m := by
  rw [Candidate.Current, Candidate.Current, candGensum_congr (restore_pageGen loaded)]

theorem reuses_restore (lm : LazyMan) : lm.Reuses (m.restore T loaded) ↔ lm.Reuses m := by
  rw [LazyMan.Reuses, LazyMan.Reuses, LazyMan.Current, LazyMan.Current,
    candGensum_congr (restore_pageGen loaded)]

theorem restore_sound (h : s.loader.Sound) (hCands : s.CandsSurvive loaded) :
    (s.restore T loaded).loader.Sound := by
  intro c hc
  have hOld := h c hc
  have hSum : candGensum (s.restore T loaded).loader.mem c.ranges =
      candGensum s.loader.mem c.ranges := candGensum_congr (restore_pageGen loaded) _
  refine ⟨fun hValid hStands => ?_, ?_, ?_⟩
  · have hCurrent : c.Current s.mem := by
      rw [Candidate.Current, ← hStands, hSum]
      rfl
    have hCrc := hCands c hc hValid hCurrent
    rwa [CodeCaches.restore, restore_ram]
  · rw [hSum]
    exact hOld.le
  · rw [CodeCaches.restore, restore_watched]
    exact hOld.watched

end Restore

section Runs

variable {T : KernelBodies} {s : CodeCaches} {m : Memory}

/-- A call of the guards leaves the bytes, the generations and the watched pages. -/
theorem guardCall_frame (call : GuardCall) : (m.guardCall T call).ram = m.ram ∧
    (m.guardCall T call).pageGen = m.pageGen ∧ (m.guardCall T call).watched = m.watched := by
  cases call with
  | registerText physLo len bytes =>
      simp only [Memory.guardCall, Memory.registerTextImage]
      split <;> exact ⟨rfl, rfl, rfl⟩
  | markExecutable phys len =>
      simp only [Memory.guardCall, Memory.markExecutableRange, Memory.blessNoteRange]
      repeat' split
      all_goals exact ⟨rfl, rfl, rfl⟩
  | textBless phys len bytes =>
      simp only [Memory.guardCall, Memory.textBless]
      repeat' split
      all_goals exact ⟨rfl, rfl, rfl⟩
  | clearBaseline floor =>
      simp only [Memory.guardCall, Memory.clearImageBaseline]
      repeat' split
      all_goals exact ⟨rfl, rfl, rfl⟩
  | textNativeOk phys =>
      simp only [Memory.guardCall, Memory.textNativeOk]
      repeat' split
      all_goals exact ⟨rfl, rfl, rfl⟩

theorem cacheStep_sound (h : s.loader.Sound) (e : CacheEvent D) (hOk : CacheStepOk s e) :
    (cacheStep T s e).loader.Sound := by
  cases e with
  | loader e => exact loaderStep_sound h e hOk
  | guard call =>
      obtain ⟨hRam, hGens, hWatched⟩ := guardCall_frame (m := s.loader.mem) (T := T) call
      intro c hc
      exact (h c hc).of_same hRam hGens (fun p hp => (congrFun hWatched p).trans hp) rfl rfl rfl id
  | lazyManMatches i => exact h
  | load loaded => exact restore_sound loaded h hOk

theorem reach_sound {start : CodeCaches} (hStart : start.loader.cands = [])
    (hRun : Reach (cacheStep T) (CacheStepOk (D := D)) start s) : s.loader.Sound := by
  refine hRun.invariant ?_ fun s e h hOk => cacheStep_sound h e hOk
  intro c hc
  rw [hStart] at hc
  exact absurd hc List.not_mem_nil

end Runs

section Verdicts

variable {T : KernelBodies} {s : CodeCaches} {m : Memory}

/-- The check of a candidate is right, unless a verdict that stands is wrong. -/
theorem validate_right_iff (c : Candidate) :
    ((c.validate m).2 = true → candCrc m.ram c.ranges = c.crcCode) ↔
      (c.state = .valid → c.Current m → candCrc m.ram c.ranges = c.crcCode) := by
  constructor
  · intro hCheck hValid hCurrent
    refine hCheck ?_
    rw [Candidate.validate, if_pos ⟨hValid, hCurrent⟩]
  · intro hStands hPassed
    unfold Candidate.validate at hPassed
    split at hPassed
    · rename_i hFast
      exact hStands hFast.1 hFast.2
    · split at hPassed
      · exact absurd hPassed (by simp)
      · split at hPassed
        · assumption
        · exact absurd hPassed (by simp)

/-- A verdict that stands on the newest candidate of an address is acted upon,
whatever the RAM holds. -/
theorem dispatch_of_stands {s : Loader} {d : DispatchInput} {i : Nat} {rest : List Nat}
    {c : Candidate} (hChain : s.chain (d.addr % 0x20000000) = i :: rest)
    (hGet : s.cands[i]? = some c) (hValid : c.state = .valid) (hCurrent : c.Current s.mem)
    (hGate : d.settings.entryGate d.addr c = .native) :
    s.dispatch T d = (d.flush.foldl (Loader.store T) ((s.setCand i c).push i), some c) := by
  have hCheck : c.validate s.mem = (c, true) := if_pos ⟨hValid, hCurrent⟩
  have hEntry : Loader.entryChain d.settings d.addr (i :: rest) s =
      ((s.setCand i c).push i, some (.call c)) := by
    simp only [Loader.entryChain, hGet, hValid, hCheck, hGate, reduceCtorEq, if_false]
  have hPass : s.pass d.settings d.first false d.addr =
      ((s.setCand i c).push i, some (.call c)) := by
    simp only [Loader.pass, Loader.discover, Loader.continueAt, Loader.orElse, hChain, hEntry,
      ne_eq, reduceCtorEq, not_false_eq_true, true_or, if_true, false_and, if_false,
      Bool.false_eq_true]
  simp only [Loader.dispatch, hPass]

/-- So it is behind a load, whatever the snapshot holds. -/
theorem dispatch_restored {d : DispatchInput} {i : Nat} {rest : List Nat} {c : Candidate}
    (hChain : s.loader.chain (d.addr % 0x20000000) = i :: rest)
    (hGet : s.loader.cands[i]? = some c) (hValid : c.state = .valid) (hCurrent : c.Current s.mem)
    (hGate : d.settings.entryGate d.addr c = .native) (hFlush : d.flush = [])
    (loaded : BootState.Machine D) :
    ((s.restore T loaded).loader.dispatch T d).2 = some c ∧
      ((s.restore T loaded).loader.dispatch T d).1.mem.ram = ramOf loaded.ram := by
  have hDispatch := dispatch_of_stands (s := (s.restore T loaded).loader) (T := T) hChain hGet
    hValid ((current_restore loaded c).mpr hCurrent) hGate
  rw [hDispatch, hFlush]
  refine ⟨rfl, ?_⟩
  have hPush : ∀ t : Loader, (t.push i).mem = t.mem := by
    intro t
    unfold Loader.push
    split <;> rfl
  rw [List.foldl_nil, hPush]
  exact restore_ram loaded

/-- When the guard lets a function of the registered image run natively. -/
theorem textNativeOk_iff {f : CompiledFunction} (hImage : m.text.image = some f.image) :
    (m.textNativeOk f.entry).2 = true ↔
      (m.text.active && m.text.diverged (pageOf f.entry)) = false ∧
        ((m.text.modified (pageOf f.entry) || m.dirty (pageOf f.entry)) = false ∨
          ¬f.HeadDiffers m.ram) := by
  have hEntry := f.lo_le
  have hFin := f.fin_le
  have hNonempty := f.entry_lt
  have hSize := f.image.hi_le
  have hDirty : m.isDirty f.entry = m.dirty (pageOf f.entry) := by
    simp only [Memory.isDirty, show f.entry < ramSize by omega, decide_true, Bool.true_and]
  have hRange : ¬(f.entry < f.image.lo ∨ f.image.hi ≤ f.entry) := by omega
  have hHead : ((List.range (min 256 (f.image.hi - f.entry))).all fun i =>
      m.ram (f.entry + i) == f.image.bytes (f.entry + i)) = true ↔ ¬f.HeadDiffers m.ram := by
    simp only [List.all_eq_true, List.mem_range, beq_iff_eq, CompiledFunction.HeadDiffers,
      not_exists, not_and, not_not]
  simp only [Memory.textNativeOk, hImage, if_neg hRange, hDirty]
  split
  · rename_i hDiverged
    simp [hDiverged]
  · rename_i hUnknown
    rw [Bool.not_eq_true] at hUnknown
    split
    · rename_i hPristine
      simp only [Bool.and_eq_true, Bool.not_eq_true'] at hPristine
      simp [hUnknown, hPristine]
    · rename_i hMarked
      have hFlag : (m.text.modified (pageOf f.entry) || m.dirty (pageOf f.entry)) = true := by
        rw [← Bool.not_or, Bool.not_eq_true, Bool.not_eq_false'] at hMarked
        exact hMarked
      rw [← hHead]
      split
      · rename_i hSame
        simp [hUnknown, hSame]
      · rename_i hDiffers
        simp only [hFlag, hDiffers, Bool.true_eq_false, false_or]
        split <;> simp

/-- What the guard says behind a load, by what it knew before and by the snapshot. -/
theorem textNativeOk_restore_iff {f : CompiledFunction} (hImage : s.mem.text.image = some f.image)
    (loaded : BootState.Machine D) :
    (((s.restore T loaded).mem.textNativeOk f.entry).2 = true →
        f.Intact (s.restore T loaded).mem.ram) ↔
      f.Intact (ramOf loaded.ram) ∨
        (s.mem.text.active && s.mem.text.diverged (pageOf f.entry)) = true ∨
        (s.mem.text.modified (pageOf f.entry) || dirtyOf loaded.dirty (pageOf f.entry)) = true ∧
          f.HeadDiffers (ramOf loaded.ram) := by
  have hText : (s.restore T loaded).mem.text = s.mem.text := restore_text loaded
  have hRam : (s.restore T loaded).mem.ram = ramOf loaded.ram := restore_ram loaded
  have hDirty : (s.restore T loaded).mem.dirty = dirtyOf loaded.dirty := rfl
  rw [textNativeOk_iff (hText ▸ hImage), hText, hRam, hDirty, ← Bool.not_eq_true,
    ← Bool.not_eq_true]
  tauto

end Verdicts

/-- Behind a load that goes through, the caches are sound for the restored bytes
exactly if what they keep from before survives it. -/
theorem load_caches_sound_iff {T : KernelBodies} {start s : CodeCaches}
    (hStart : start.loader.cands = [])
    (hRun : Reach (cacheStep T) (CacheStepOk (D := D)) start s)
    {functions : List CompiledFunction}
    (hText : ∀ f ∈ functions, s.mem.text.image = some f.image) {key : Key}
    {file : Option (List Serial.Byte)} {m : BootState.Machine D} {s' : CodeCaches}
    (hLoad : s.afterLoad T (bootStateLoad key file m) = some s') :
    s'.Sound T functions s ↔ s.Survive functions (bootStateLoad key file m).2 := by
  generalize bootStateLoad key file m = outcome at hLoad ⊢
  obtain ⟨_ | _, loaded⟩ := outcome
  · exact absurd hLoad (by simp [CodeCaches.afterLoad])
  obtain rfl := Option.some.inj hLoad
  have hRam : (s.restore T loaded).mem.ram = ramOf loaded.ram := restore_ram loaded
  constructor
  · intro h
    refine ⟨fun c hc hValid hCurrent => ?_, fun f hf => ?_, fun lm hlm hReuses => ?_⟩
    · rw [← hRam]
      refine (validate_right_iff c).mp (h.checked c hc ?_) hValid ?_
      · rw [hValid]
        exact EntryState.noConfusion
      · exact (current_restore loaded c).mpr hCurrent
    · exact (textNativeOk_restore_iff (hText f hf) loaded).mp (h.text f hf)
    · rw [← hRam]
      exact h.lazies lm hlm ((reuses_restore loaded lm).mpr hReuses)
  · intro h
    have hSound := restore_sound (T := T) loaded (reach_sound hStart hRun) h.cands
    refine ⟨fun c hc _ => (validate_right_iff c).mpr fun hValid hCurrent => ?_,
      fun d hOk c hCall => (dispatch_sound hSound hOk).2 c hCall, fun f hf => ?_,
      fun lm hlm hReuses => ?_⟩
    · rw [hRam]
      exact h.cands c hc hValid ((current_restore loaded c).mp hCurrent)
    · exact (textNativeOk_restore_iff (hText f hf) loaded).mpr (h.text f hf)
    · rw [hRam]
      exact h.lazies lm hlm ((reuses_restore loaded lm).mp hReuses)

/-- The caches with the text of a game registered, a function of an overlay at
`0x10000` and its manifest judged, all over zeros. -/
def warmCaches : CodeCaches :=
  [CacheEvent.guard (.registerText 0x10000 0x1010 fun _ => 0),
    .loader (.register ⟨0x10000, [oneWord], none, 0⟩), .lazyManMatches 0].foldl
      (cacheStep (D := byteDevices) oneBody)
      ⟨emptyLoader, [⟨0x10000, [oneWord], 0, 0, .unknown⟩]⟩

theorem warmCaches_reached : Reach (cacheStep oneBody) (CacheStepOk (D := byteDevices))
    ⟨emptyLoader, [⟨0x10000, [oneWord], 0, 0, .unknown⟩]⟩ warmCaches :=
  Reach.start.along _ ⟨trivial, trivial, trivial, trivial⟩

theorem warmCaches_code : warmCaches.loader.cands.map (fun c => (c.ranges, c.crcCode)) =
    [([oneWord], candCrc (fun _ => 0) [oneWord])] := by
  simp only [warmCaches, List.foldl, cacheStep, loaderStep, Loader.candRegister, Loader.retire,
    emptyLoader, candCap, List.length_nil, Nat.le_zero, List.map_nil, ite_self]
  rfl

/-- A machine with given bytes at the start of its RAM, and zeros else. -/
def machineWith (bytes : List Serial.Byte) : BootState.Machine byteDevices :=
  { Machine.zero byteDevices with ram := .ofList _ bytes }

/-- The load of what a machine has saved. -/
def loadOf (bytes : List Serial.Byte) : Bool × BootState.Machine byteDevices :=
  bootStateLoad gameKey (some (bootStateSave gameKey noBytes noBytes (machineWith bytes)))
    (Machine.zero byteDevices)

theorem loadOf_eq (bytes : List Serial.Byte) : ∃ loaded, loadOf bytes = (true, loaded) ∧
    loaded.ram = .ofList _ bytes := by
  refine ⟨_, bootStateLoad_save noBytes noBytes _ _ gameKey, rfl⟩

theorem ramOf_ofList {n : Nat} (bytes : List Serial.Byte) {a : Nat} (hLt : a < n) :
    ramOf (Bytes.ofList n bytes) a = bytes.getD a 0 := by
  simp only [ramOf, Bytes.ofList, List.getD_eq_getElem?_getD, List.getElem?_take_of_lt hLt]
  by_cases hInside : a < bytes.length
  · rw [List.getElem?_append_left hInside]
  · rw [List.getElem?_append_right (by omega), List.getElem?_eq_none (l := bytes) (by omega),
      List.getElem?_replicate]
    split <;> rfl

theorem ramOf_loadOf (bytes : List Serial.Byte) (a : Nat) :
    ramOf (loadOf bytes).2.ram a = if a < BootState.ramSize then bytes.getD a 0 else 0 := by
  obtain ⟨loaded, hLoaded, hRam⟩ := loadOf_eq bytes
  rw [hLoaded, hRam]
  split_ifs with hLt
  · exact ramOf_ofList bytes hLt
  · have hLength := (Bytes.ofList BootState.ramSize bytes).property
    rw [ramOf, List.getD_eq_getElem?_getD, List.getElem?_eq_none (by omega)]
    rfl

theorem lazyManMatches_ranges (lm : LazyMan) (m : Memory) :
    (lm.lazyManMatches m).1.ranges = lm.ranges := by
  unfold LazyMan.lazyManMatches
  split_ifs <;> rfl

/-- The data of a snapshot below the code, which is as it was. -/
def lowData : List Serial.Byte := [1, 2, 3]

theorem ramOf_lowData {a : Nat} (hAbove : 3 ≤ a) : ramOf (loadOf lowData).2.ram a = 0 := by
  rw [ramOf_loadOf, List.getD_eq_getElem?_getD, List.getElem?_eq_none hAbove]
  exact ite_self 0

/-- A snapshot with other data is loaded over a function of an overlay, one of the game and a
manifest, all of which are judged; its code is theirs. -/
theorem load_lowData_sound :
    (warmCaches.restore oneBody (loadOf lowData).2).mem.ram 1 ≠ warmCaches.mem.ram 1 ∧
    (warmCaches.restore oneBody (loadOf lowData).2).Sound oneBody [crossingFunction]
      warmCaches := by
  have hOther :
      (warmCaches.restore oneBody (loadOf lowData).2).mem.ram 1 ≠ warmCaches.mem.ram 1 := by
    have hRam : (warmCaches.restore oneBody (loadOf lowData).2).mem.ram =
        ramOf (loadOf lowData).2.ram :=
      restore_ram _
    have hOne : ramOf (loadOf lowData).2.ram 1 = 2 := by
      rw [ramOf_loadOf, if_pos (by decide)]
      rfl
    rw [hRam, hOne]
    decide +kernel
  have hLoad : warmCaches.afterLoad oneBody (loadOf lowData) =
      some (warmCaches.restore oneBody (loadOf lowData).2) := by
    obtain ⟨loaded, hLoaded, -⟩ := loadOf_eq lowData
    rw [hLoaded]
    rfl
  have hText : ∀ f ∈ [crossingFunction], warmCaches.mem.text.image = some f.image := by
    intro f hf
    obtain rfl := List.mem_singleton.mp hf
    rfl
  refine ⟨hOther, (load_caches_sound_iff rfl warmCaches_reached hText hLoad).mpr ?_⟩
  change warmCaches.Survive [crossingFunction] (loadOf lowData).2
  refine ⟨fun c hc _ _ => ?_, fun f hf => .inl ?_, fun lm hlm _ r hr a hLow _ => ?_⟩
  · have hCode := List.mem_map_of_mem (f := fun c => (c.ranges, c.crcCode)) hc
    rw [warmCaches_code, List.mem_singleton, Prod.mk.injEq] at hCode
    rw [hCode.1, hCode.2]
    refine candCrc_congr fun r hr a hLow _ => ramOf_lowData ?_
    obtain rfl := List.mem_singleton.mp hr
    exact le_trans (by decide) hLow
  · obtain rfl := List.mem_singleton.mp hf
    exact fun a hLow _ => ramOf_lowData (le_trans (by decide) hLow)
  · have hRanges : warmCaches.lazies.map LazyMan.ranges = [[oneWord]] := by
      simp only [warmCaches, List.foldl, cacheStep, List.modify_cons, List.map_cons, List.map_nil,
        if_true, lazyManMatches_ranges]
    have hOne := List.mem_map_of_mem (f := LazyMan.ranges) hlm
    rw [hRanges, List.mem_singleton] at hOne
    rw [hOne] at hr
    obtain rfl := List.mem_singleton.mp hr
    rw [ramOf_lowData (le_trans (by decide) hLow)]
    rfl

/-- The RAM with one other byte in the code of the overlay. -/
def patchedRam : List Serial.Byte := List.replicate 0x10000 0 ++ [1]

theorem patchedRam_get (a : Nat) : patchedRam.getD a 0 = if a = 0x10000 then 1 else 0 := by
  rw [patchedRam, List.getD_eq_getElem?_getD]
  by_cases hBefore : a < 0x10000
  · have hInside : a < (List.replicate 0x10000 (0 : Serial.Byte)).length := by
      rwa [List.length_replicate]
    rw [List.getElem?_append_left hInside, List.getElem?_replicate, if_pos hBefore,
      if_neg (by omega)]
    rfl
  · have hBehind : (List.replicate 0x10000 (0 : Serial.Byte)).length ≤ a := by
      rw [List.length_replicate]
      omega
    rw [List.getElem?_append_right hBehind, List.length_replicate]
    split
    · rename_i hAt
      rw [hAt]
      rfl
    · rw [List.getElem?_eq_none (by simp only [List.length_singleton]; omega)]
      rfl

theorem candCrc_patched : candCrc (ramOf (loadOf patchedRam).2.ram) [oneWord] = 0x99F8B879 := by
  obtain ⟨loaded, hLoaded, hRam⟩ := loadOf_eq patchedRam
  have hBytes : ∀ r ∈ [oneWord], ∀ a, r.lo ≤ a → a < r.lo + r.len →
      ramOf loaded.ram a = if a = 0x10000 then 1 else 0 := by
    intro r hr a hLo hHi
    obtain rfl := List.mem_singleton.mp hr
    have hLt : a < BootState.ramSize := lt_of_lt_of_le hHi (by decide)
    rw [hRam, ramOf_ofList _ hLt, patchedRam_get]
  rw [hLoaded, candCrc_congr hBytes]
  decide +kernel

theorem warmCaches_near (loaded : BootState.Machine byteDevices) :
    ∀ c ∈ (warmCaches.restore oneBody loaded).loader.cands,
      c.Near (warmCaches.restore oneBody loaded).loader.mem := by
  intro c hc
  have hNear : (warmCaches.loader.cands.all fun c => c.Near warmCaches.mem) = true := by
    decide +kernel
  have hOne : c.Near warmCaches.mem := of_decide_eq_true (List.all_eq_true.mp hNear c hc)
  rwa [Candidate.Near, CodeCaches.restore, candGensum_congr (restore_pageGen loaded)]

/-- The function of the overlay is called though the snapshot has other bytes. -/
theorem load_over_code :
    ¬∀ (T : KernelBodies) (start s : CodeCaches) (functions : List CompiledFunction)
      (file : Option (List Serial.Byte)) (m : BootState.Machine byteDevices) (s' : CodeCaches),
      start.loader.cands = [] → Reach (cacheStep T) (CacheStepOk (D := byteDevices)) start s →
      (∀ f ∈ functions, s.mem.text.image = some f.image) →
      s.afterLoad T (bootStateLoad gameKey file m) = some s' → s'.Sound T functions s := by
  intro hClaim
  have hLoad : warmCaches.afterLoad oneBody (loadOf patchedRam) =
      some (warmCaches.restore oneBody (loadOf patchedRam).2) := by
    obtain ⟨loaded, hLoaded, -⟩ := loadOf_eq patchedRam
    rw [hLoaded]
    rfl
  have hSound := hClaim oneBody _ warmCaches [] _ _ _ rfl warmCaches_reached
    (fun _ hf => absurd hf List.not_mem_nil) hLoad
  have hOk : plainDispatch.Ok (warmCaches.restore oneBody (loadOf patchedRam).2).loader :=
    { near := warmCaches_near _
      apart := fun c hc r hr st hst => absurd hst List.not_mem_nil
      first := noSources_ok _ _
      second := noSources_ok _ _ }
  have hStands : (warmCaches.loader.cands[0]?.map fun c => decide (c.state = .valid ∧
      c.Current warmCaches.mem ∧ plainDispatch.settings.entryGate plainDispatch.addr c = .native)) =
      some true := by decide +kernel
  obtain ⟨c, hGet, hVerdict⟩ := Option.map_eq_some_iff.mp hStands
  obtain ⟨hValid, hCurrent, hGate⟩ := of_decide_eq_true hVerdict
  have hCode := List.mem_map_of_mem (f := fun c => (c.ranges, c.crcCode))
    (List.mem_of_getElem? hGet)
  rw [warmCaches_code, List.mem_singleton, Prod.mk.injEq] at hCode
  have hChain : warmCaches.loader.chain (plainDispatch.addr % 0x20000000) = [0] := by
    decide +kernel
  obtain ⟨hCall, hRam⟩ := dispatch_restored (T := oneBody) hChain hGet hValid hCurrent hGate rfl
    (loadOf patchedRam).2
  have hCrc := hSound.dispatched plainDispatch hOk c hCall
  rw [hRam, hCode.1, hCode.2, candCrc_patched] at hCrc
  exact absurd hCrc (by decide +kernel)

end RecompStudio.Runtime
