import RecompStudio.Studio.BrandingManifest

/-!
The records of the branding patcher. Every byte that changes is in the range of a record,
and the records describe what is written, unless there is a first splash: then the marker
is put into the slot of the splash after the slot's record is made.
-/

namespace RecompStudio.Studio.Branding

open Serial (Byte)

/-- The range of a record and what was left in it. -/
@[grind =] def Patch.entry (p : Patch) : PatchLog.Entry Byte where
  offset := p.offset
  after := p.after

/-- The records account for each byte that is different, and describe what is there. -/
structure Faithful (input output : Rom) (patches : List Patch) : Prop where
  frame : ∀ i, output.byte i ≠ input.byte i → ∃ p ∈ patches, p.entry.Covers i
  describes : ∀ p ∈ patches, p.entry.Describes output.byte

/-- The offset and the length of a patch. -/
abbrev Range := Nat × Nat

def Range.Disjoint (r q : Range) : Prop := r.1 + r.2 ≤ q.1 ∨ q.1 + q.2 ≤ r.1

instance (r q : Range) : Decidable (Range.Disjoint r q) := inferInstanceAs (Decidable (_ ∨ _))

@[grind =] def Patch.range (p : Patch) : Range := (p.offset, p.after.length)

/-- Between two states, the ranges are patched in this order, each with a record. -/
structure Logged (s s' : Patched) (ranges : List Range) : Prop where
  size : s'.rom.size = s.rom.size
  log : ∃ records : List Patch, s'.patches = s.patches ++ records ∧
    PatchLog.Run s.rom.byte (records.map Patch.entry) s'.rom.byte ∧
    records.map Patch.range = ranges

namespace Logged

variable {s s' s'' : Patched} {ranges ranges' : List Range}

theorem refl : Logged s s [] := ⟨rfl, [], (List.append_nil _).symm, .nil _, rfl⟩

theorem trans (h : Logged s s' ranges) (h' : Logged s' s'' ranges') :
    Logged s s'' (ranges ++ ranges') := by
  obtain ⟨records, hPatches, hRun, rfl⟩ := h.log
  obtain ⟨records', hPatches', hRun', rfl⟩ := h'.log
  refine ⟨h'.size.trans h.size, records ++ records', ?_, ?_, List.map_append⟩
  · rw [hPatches', hPatches, List.append_assoc]
  · rw [List.map_append]
    exact hRun.append hRun'

/-- One patch, within the range of its record. -/
theorem record {rom : Rom} {kind : PatchKind} {description : String} {offset size : Nat}
    (h : Rom.Inside offset (offset + size) s.rom rom) :
    Logged s (s.record rom kind description offset size) [(offset, size)] := by
  have hLength : (rom.mid offset size).length = size := PatchLog.length_slice _ _ _
  refine ⟨h.size, [_], rfl, .single ⟨fun i hOut => h.frame i ?_, ?_⟩, ?_⟩
  · simp only [PatchLog.Entry.Covers, Patch.entry, hLength] at hOut
    omega
  · simp only [PatchLog.Entry.Describes, Patch.entry, hLength]
    rfl
  · simp only [List.map_singleton, Patch.range, hLength]

/-- Outside of the ranges, nothing changes. -/
theorem byte {i : Nat} (h : Logged s s' ranges) (hOut : ∀ r ∈ ranges, i < r.1 ∨ r.1 + r.2 ≤ i) :
    s'.rom.byte i = s.rom.byte i := by
  obtain ⟨records, -, hRun, rfl⟩ := h.log
  refine hRun.frame fun e he hCovers => ?_
  obtain ⟨p, hp, rfl⟩ := List.mem_map.mp he
  have hAside := hOut _ (List.mem_map_of_mem hp)
  simp only [PatchLog.Entry.Covers, Patch.entry, Patch.range] at hCovers hAside
  omega

theorem mem {p : Patch} (h : Logged s s' ranges) (hp : p ∈ s.patches) : p ∈ s'.patches := by
  obtain ⟨records, hPatches, -⟩ := h.log
  rw [hPatches]
  exact List.mem_append_left _ hp

variable (hStart : s.patches = [])

include hStart

/-- A byte that differs is in the range of a record. -/
theorem frame (h : Logged s s' ranges) {i : Nat} (hByte : s'.rom.byte i ≠ s.rom.byte i) :
    ∃ p ∈ s'.patches, p.entry.Covers i := by
  obtain ⟨records, hPatches, hRun, -⟩ := h.log
  rw [hPatches, hStart, List.nil_append]
  by_contra hNone
  refine hByte (hRun.frame fun e he hCovers => hNone ?_)
  obtain ⟨p, hp, rfl⟩ := List.mem_map.mp he
  exact ⟨p, hp, hCovers⟩

/-- The same where only the first range overlaps others, for the records behind it. -/
theorem describes_rest {r : Range} (h : Logged s s' (r :: ranges))
    (hDisjoint : ranges.Pairwise Range.Disjoint) {p : Patch} (hp : p ∈ s'.patches)
    (hOther : p.range ≠ r) : p.entry.Describes s'.rom.byte := by
  obtain ⟨records, hPatches, hRun, hRanges⟩ := h.log
  rw [hPatches, hStart, List.nil_append] at hp
  cases records with
  | nil => exact nomatch hRanges
  | cons first records =>
      obtain ⟨hFirst, rfl⟩ := List.cons.inj hRanges
      rcases List.mem_cons.mp hp with rfl | hp
      · exact absurd hFirst hOther
      · cases hRun with
        | cons _ hRest =>
            rw [List.pairwise_map] at hDisjoint
            exact hRest.describes (List.pairwise_map.mpr hDisjoint) _ (List.mem_map_of_mem hp)

/-- Where no two ranges overlap, the records describe what is there in the end. -/
theorem faithful (h : Logged s s' ranges) (hDisjoint : ranges.Pairwise Range.Disjoint) :
    Faithful s.rom s'.rom s'.patches where
  frame _ := h.frame hStart
  describes p hp := by
    obtain ⟨records, hPatches, hRun, rfl⟩ := h.log
    rw [hPatches, hStart, List.nil_append] at hp
    rw [List.pairwise_map] at hDisjoint
    exact hRun.describes (List.pairwise_map.mpr hDisjoint) _ (List.mem_map_of_mem hp)

end Logged

/-- A computation that succeeds does so step by step. -/
theorem exists_of_bind_eq_ok {ε α β : Type} {x : Except ε α} {f : α → Except ε β} {b : β}
    (h : x >>= f = .ok b) : ∃ a, x = .ok a ∧ f a = .ok b := by
  cases x with
  | error e => exact nomatch h
  | ok a => exact ⟨a, rfl, h⟩

section Steps

variable {std : StdSort} {host : Host} {s s' : Patched}

theorem patchTim_logged {offset width height : Nat} {image : Image} {transparent : Bool}
    {description : String}
    (h : patchTim std s offset width height image transparent description = .ok s') :
    Logged s s' [(offset, 64 + width / 4 * height * 2)] := by
  obtain ⟨hTim, rfl, rfl⟩ := isTim_of_patchTim h
  rw [patchTim_of_isTim hTim rfl rfl] at h
  cases h
  exact .record (timRom_inside (by have := hTim.imageWords; omega))

/-- The range of a word. -/
@[grind =] def WordPatch.range (patch : WordPatch) : Range := (patch.offset, 4)

theorem patchWord_logged {patch : WordPatch} (h : patchWord s patch = .ok s') :
    Logged s s' [patch.range] := by
  rw [patchWord] at h
  split at h
  · exact nomatch h
  · cases h
    exact ⟨rfl, [_], rfl, .single Rom.write_patches, rfl⟩

theorem patchWords_logged {patches : List WordPatch} (h : patchWords s patches = .ok s') :
    Logged s s' (patches.map WordPatch.range) := by
  induction patches generalizing s with
  | nil =>
      cases h
      exact .refl
  | cons patch patches ih =>
      obtain ⟨t, hFirst, hRest⟩ := exists_of_bind_eq_ok h
      exact (patchWord_logged hFirst).trans (ih hRest)

theorem addSource_logged {name path : String} (h : addSource host s name path = .ok s') :
    Logged s s' [] := by
  obtain ⟨sha256, -, h⟩ := exists_of_bind_eq_ok h
  cases h
  exact ⟨rfl, [], (List.append_nil _).symm, .nil _, rfl⟩

/-- The marker is written, and its record has it. -/
theorem installBrandingGateMarker_eq_ok (h : installBrandingGateMarker s = .ok s') :
    s' = s.record (s.rom.write kBrandingGateMarkerOffset kBrandingGateMarker) .brandingPresentGate
      "Mark BIOS for frontend black-until-logo presentation gating"
          kBrandingGateMarkerOffset 16 := by
  rw [installBrandingGateMarker] at h
  split at h
  · exact nomatch h
  · split at h
    · exact (Except.ok.inj h).symm
    · exact nomatch h

theorem installBrandingGateMarker_logged (h : installBrandingGateMarker s = .ok s') :
    Logged s s' [(kBrandingGateMarkerOffset, 16)] := by
  rw [installBrandingGateMarker_eq_ok h]
  exact .record (Rom.Inside.refl.write le_rfl le_rfl)

theorem installBrandingGateMarker_mem (h : installBrandingGateMarker s = .ok s') :
    ∃ marker ∈ s'.patches, marker.entry = ⟨kBrandingGateMarkerOffset, kBrandingGateMarker⟩ := by
  rw [installBrandingGateMarker_eq_ok h]
  exact ⟨_, List.mem_append_right _ List.mem_cons_self,
    congrArg (PatchLog.Entry.mk kBrandingGateMarkerOffset) Rom.mid_write⟩

theorem rewriteTimSlot_logged {original : TimInfo} {slotEnd : Nat} {image : Image}
    {palette : List Rgb} {transparent : Bool} {description : String}
    (h : rewriteTimSlot s original slotEnd image palette transparent description = .ok s') :
    Logged s s' [(original.offset, slotEnd - original.offset)] := by
  obtain ⟨⟨hWidth, hFits, -⟩, rfl⟩ := rewriteTimSlot_eq_ok h
  refine .record ?_
  rw [Nat.add_sub_cancel' (by omega)]
  exact slotRom_inside hWidth hFits

/-- The splash is patched first. In its slot there are zeros behind the TIM. -/
theorem patchExpandedInitialTims_logged {image : Image}
    (h : patchExpandedInitialTims std s image = .ok s') :
    ∃ (t : Patched) (kind : PatchKind) (description : String) (before : List Byte),
      Logged s t [(0x5CC30, 0x16C0)] ∧ Logged t s' [(0x5E2F0, 7264), (0x5FF50, 208)] ∧
      t.patches = s.patches ++
        [{ kind, description, offset := 0x5CC30, before, after := t.rom.mid 0x5CC30 0x16C0 }] ∧
      (∀ i, 0x5E188 ≤ i → i < 0x5E2F0 → t.rom.byte i = 0) := by
  obtain ⟨sony, hSony, h⟩ := exists_of_bind_eq_ok h
  obtain ⟨computer, hComputer, h⟩ := exists_of_bind_eq_ok h
  obtain ⟨trademark, hTrademark, h⟩ := exists_of_bind_eq_ok h
  rw [parseTim_offset hComputer, parseTim_offset hTrademark] at h
  dsimp only at h
  split at h
  · exact nomatch h
  · rename_i hSize
    push Not at hSize
    obtain ⟨t, hSlot, hTims⟩ := exists_of_bind_eq_ok h
    obtain ⟨u, hBlank, hMark⟩ := exists_of_bind_eq_ok hTims
    have hLogged := rewriteTimSlot_logged hSlot
    obtain ⟨⟨hWidth, -⟩, hRecord⟩ := rewriteTimSlot_eq_ok hSlot
    rw [parseTim_offset hSony] at hLogged hRecord
    subst hRecord
    refine ⟨_, _, _, _, hLogged, (patchTim_logged hBlank).trans (patchTim_logged hMark), rfl,
      fun i hRest hEnd => slotRom_rest hWidth ?_ hEnd⟩
    rw [parseTim_offset hSony, hSize.1, hSize.2]
    exact hRest

/-- The ranges that follow the slot of the splash. -/
def initialRanges : List Range :=
  [(0x5E2F0, 7264), (0x5FF50, 208)] ++ initialSetupPatches.map WordPatch.range ++
    [(kBrandingGateMarkerOffset, 16)]

theorem patchInitial_logged {path : String} (h : patchInitial std host path s = .ok s') :
    ∃ (t : Patched) (kind : PatchKind) (description : String) (before : List Byte),
      Logged s t [(0x5CC30, 0x16C0)] ∧ Logged t s' initialRanges ∧
      t.patches = s.patches ++
        [{ kind, description, offset := 0x5CC30, before, after := t.rom.mid 0x5CC30 0x16C0 }] ∧
      (∀ i, 0x5E188 ≤ i → i < 0x5E2F0 → t.rom.byte i = 0) ∧
      ∃ marker ∈ s'.patches, marker.entry = ⟨kBrandingGateMarkerOffset, kBrandingGateMarker⟩ := by
  obtain ⟨image, -, h⟩ := exists_of_bind_eq_ok h
  obtain ⟨u, hTims, h⟩ := exists_of_bind_eq_ok h
  obtain ⟨v, hWords, h⟩ := exists_of_bind_eq_ok h
  obtain ⟨w, hSource, hMarker⟩ := exists_of_bind_eq_ok h
  obtain ⟨t, kind, description, before, hSlot, hBlank, hPatches, hZero⟩ :=
    patchExpandedInitialTims_logged hTims
  have hLogged := ((hBlank.trans (patchWords_logged hWords)).trans (addSource_logged hSource)).trans
    (installBrandingGateMarker_logged hMarker)
  rw [List.append_nil] at hLogged
  exact ⟨t, kind, description, before, hSlot, hLogged, hPatches, hZero,
    installBrandingGateMarker_mem hMarker⟩

def handoffRanges : List Range :=
  [(0x4EF60, 4064), (0x4FF40, 4064), (0x50F20, 144)] ++ handoffSetupPatches.map WordPatch.range

theorem patchHandoff_logged {path : String} (h : patchHandoff std host path s = .ok s') :
    Logged s s' handoffRanges := by
  obtain ⟨image, -, h⟩ := exists_of_bind_eq_ok h
  obtain ⟨t, hRegistered, h⟩ := exists_of_bind_eq_ok h
  obtain ⟨u, hTrademark, h⟩ := exists_of_bind_eq_ok h
  obtain ⟨v, hBlank, h⟩ := exists_of_bind_eq_ok h
  obtain ⟨w, hWords, hSource⟩ := exists_of_bind_eq_ok h
  have hTims := ((patchTim_logged hRegistered).trans (patchTim_logged hTrademark)).trans
    (patchTim_logged hBlank)
  have hLogged := (hTims.trans (patchWords_logged hWords)).trans (addSource_logged hSource)
  rw [List.append_nil] at hLogged
  exact hLogged

/-- A part of the patches that an option leaves out. -/
theorem Logged.ite {P : Prop} [Decidable P] {x y : Except String Patched}
    {ranges ranges' : List Range} (h : (if P then x else y) = .ok s')
    (hThen : x = .ok s' → Logged s s' ranges) (hElse : y = .ok s' → Logged s s' ranges') :
    Logged s s' (if P then ranges else ranges') := by
  by_cases hP : P
  · rw [if_pos hP] at h ⊢
    exact hThen h
  · rw [if_neg hP] at h ⊢
    exact hElse h

theorem Logged.of_ok (h : Except.ok (ε := String) s = .ok s') : Logged s s' [] := by
  cases h
  exact .refl

/-- The ranges that follow those of the first splash. -/
def laterRanges (options : BiosBrandingPatchOptions) : List Range :=
  (if options.handoffImagePath = "" then [] else handoffRanges) ++
    (if options.removeStockPsGlyph then glyphPatches.map WordPatch.range else []) ++
    (if options.muteBootAudio then audioPatches.map WordPatch.range else [])

/-- No two of all ranges overlap, the slot of the splash apart. -/
theorem ranges_disjoint :
    (initialRanges ++ (handoffRanges ++ glyphPatches.map WordPatch.range ++
      audioPatches.map WordPatch.range)).Pairwise Range.Disjoint := by
  decide

theorem laterRanges_sublist (options : BiosBrandingPatchOptions) :
    (laterRanges options).Sublist (handoffRanges ++ glyphPatches.map WordPatch.range ++
      audioPatches.map WordPatch.range) := by
  refine .append (.append ?_ ?_) ?_
  all_goals split
  all_goals simp only [List.nil_sublist, List.Sublist.refl]

end Steps

/-- The slot of the splash and the marker in it cannot both be as they are recorded. -/
theorem slot_or_marker {output rom : Rom} (hZero : ∀ i, 0x5E188 ≤ i → i < 0x5E2F0 → rom.byte i = 0)
    (hSlot : PatchLog.slice output.byte 0x5CC30 0x16C0 = rom.mid 0x5CC30 0x16C0)
    (hMarker : PatchLog.slice output.byte kBrandingGateMarkerOffset 16 = kBrandingGateMarker) :
    False := by
  have hSame := PatchLog.slice_eq_iff.mp hSlot kBrandingGateMarkerOffset (by decide) (by decide)
  have hFirst := congrArg (·[0]?) hMarker
  rw [hZero _ (by decide) (by decide)] at hSame
  rw [PatchLog.getElem?_slice (by decide), Nat.add_zero, hSame] at hFirst
  exact absurd hFirst (by decide)

variable {std : StdSort} {host : Host} {options : BiosBrandingPatchOptions} {bios output : Rom}
  {s : Patched} {manifest : Manifest}

/-- The BIOS before any patch. -/
def unpatched (bios : Rom) : Patched := { rom := bios, patches := [], sourceImages := [] }

theorem later_logged {t : Patched}
    (h : (do
      let s ← (if options.handoffImagePath = "" then .ok t
        else patchHandoff std host options.handoffImagePath t)
      let s ← (if options.removeStockPsGlyph then patchWords s glyphPatches else .ok s)
      if options.muteBootAudio then patchWords s audioPatches else .ok s : Except String Patched) =
        .ok s) :
    Logged t s (laterRanges options) := by
  obtain ⟨u, hHandoff, h⟩ := exists_of_bind_eq_ok h
  obtain ⟨v, hGlyph, hAudio⟩ := exists_of_bind_eq_ok h
  exact ((Logged.ite hHandoff .of_ok patchHandoff_logged).trans
    (.ite hGlyph patchWords_logged .of_ok)).trans (.ite hAudio patchWords_logged .of_ok)

theorem patchBios_faithful (hSplash : options.initialSplashImagePath = "")
    (h : patchBios std host options bios = .ok s) : Faithful bios s.rom s.patches := by
  obtain ⟨t, hFirst, hLater⟩ := exists_of_bind_eq_ok h
  rw [if_pos hSplash] at hFirst
  cases hFirst
  have hDisjoint := (List.pairwise_append.mp ranges_disjoint).2.1
  exact Logged.faithful (s := unpatched bios) rfl (later_logged hLater)
    (.sublist (laterRanges_sublist options) hDisjoint)

/-- Also with a first splash, every changed byte is in a record's range, and every record
but that of the splash describes what is there. -/
theorem patchBios_records (hSplash : options.initialSplashImagePath ≠ "")
    (h : patchBios std host options bios = .ok s) :
    (∀ i, s.rom.byte i ≠ bios.byte i → ∃ p ∈ s.patches, p.entry.Covers i) ∧
      ∀ p ∈ s.patches, p.range ≠ (0x5CC30, 0x16C0) → p.entry.Describes s.rom.byte := by
  obtain ⟨u, hFirst, hLater⟩ := exists_of_bind_eq_ok h
  rw [if_neg hSplash] at hFirst
  obtain ⟨t, -, -, -, hSlot, hRest, -⟩ := patchInitial_logged hFirst
  have hLogged := hSlot.trans (hRest.trans (later_logged hLater))
  have hDisjoint :=
    ranges_disjoint.sublist ((laterRanges_sublist options).append_left initialRanges)
  exact ⟨fun _ => hLogged.frame rfl, fun p hp => hLogged.describes_rest rfl hDisjoint hp⟩

theorem patchBios_unfaithful (hSplash : options.initialSplashImagePath ≠ "")
    (h : patchBios std host options bios = .ok s) : ¬Faithful bios s.rom s.patches := by
  obtain ⟨u, hFirst, hLater⟩ := exists_of_bind_eq_ok h
  rw [if_neg hSplash] at hFirst
  obtain ⟨t, kind, description, before, -, hRest, hPatches, hZero, marker, hMem, hMarker⟩ :=
    patchInitial_logged hFirst
  intro hFaithful
  have hSlot := hFaithful.describes _ ((later_logged hLater).mem (hRest.mem (by
    rw [hPatches]
    exact List.mem_append_right _ List.mem_cons_self)))
  have hMarked := hFaithful.describes _ ((later_logged hLater).mem hMem)
  rw [hMarker] at hMarked
  simp only [PatchLog.Entry.Describes, Patch.entry, Rom.mid, PatchLog.length_slice] at hSlot
  exact slot_or_marker hZero hSlot hMarked

/-- A success leads through all checks. -/
theorem patch_eq_ok (h : patch std host options = .ok (output, manifest)) :
    ∃ bios s, host.readBios options.inputBiosPath = .ok bios ∧
      patchBios std host options bios = .ok s ∧ output = s.rom ∧ manifest.patches = s.patches := by
  obtain ⟨bios, hBios, h⟩ := exists_of_bind_eq_ok h
  split at h
  · exact nomatch h
  · split at h
    · exact nomatch h
    · obtain ⟨s, hPatched, h⟩ := exists_of_bind_eq_ok h
      obtain ⟨-, -, h⟩ := exists_of_bind_eq_ok h
      refine ⟨bios, s, hBios, hPatched, ?_⟩
      dsimp only at h
      split at h
      · cases h
        exact ⟨rfl, rfl⟩
      · obtain ⟨-, -, h⟩ := exists_of_bind_eq_ok h
        cases h
        exact ⟨rfl, rfl⟩

end RecompStudio.Studio.Branding
