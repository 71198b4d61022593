import RecompStudio.Studio.BrandingLog
import Mathlib.Tactic.Common

/-!
On a BIOS that has the stock TIMs and instructions the branding patcher succeeds. Whether
its manifest is then true of the BIOS that it writes depends on the first splash alone.
-/

namespace RecompStudio.Studio.Branding

open Serial (Byte)

/-- The instructions that are patched, in all parts of the patcher. -/
def allWords : List WordPatch :=
  initialSetupPatches ++ handoffSetupPatches ++ glyphPatches ++ audioPatches

/-- A BIOS with the stock TIMs and the stock instructions. -/
structure Stock (bios : Rom) : Prop where
  size : bios.size = kBiosSize
  sony : IsTim bios 0x5CC30 240 48
  computer : IsTim bios 0x5E2F0 240 60
  trademark : IsTim bios 0x5FF50 24 12
  registeredWordmark : IsTim bios 0x4EF60 200 40
  trademarkWordmark : IsTim bios 0x4FF40 200 40
  handoffTrademark : IsTim bios 0x50F20 20 8
  words : ∀ patch ∈ allWords, bios.read32 patch.offset = patch.before

theorem exists_bind_eq_ok {ε α β : Type} {x : Except ε α} {f : α → Except ε β} {a : α}
    (hFirst : x = .ok a) (hRest : ∃ b, f a = .ok b) : ∃ b, x >>= f = .ok b := by
  rw [hFirst]
  exact hRest

/-- A range that is disjoint from another one is so from a first part of it. -/
theorem Range.Disjoint.mono {r : Range} {offset size size' : Nat}
    (h : Range.Disjoint r (offset, size)) (hLe : size' ≤ size) : Range.Disjoint r (offset, size') :=
  h.imp_right (Nat.add_le_add_left hLe offset).trans

namespace Logged

variable {s s' : Patched} {ranges : List Range}

theorem byte_of_disjoint {offset size i : Nat} (h : Logged s s' ranges)
    (hOut : ∀ r ∈ ranges, Range.Disjoint r (offset, size)) (hi : i < size) :
    s'.rom.byte (offset + i) = s.rom.byte (offset + i) := by
  refine h.byte fun r hr => ?_
  have hAside := hOut r hr
  simp only [Range.Disjoint] at hAside
  omega

theorem isTim {offset width height : Nat} (h : Logged s s' ranges)
    (hTim : IsTim s.rom offset width height)
    (hOut : ∀ r ∈ ranges, Range.Disjoint r (offset, 64)) : IsTim s'.rom offset width height :=
  hTim.congr h.size fun _ hi => h.byte_of_disjoint hOut (by omega)

theorem read32 {offset : Nat} (h : Logged s s' ranges)
    (hOut : ∀ r ∈ ranges, Range.Disjoint r (offset, 4)) :
    s'.rom.read32 offset = s.rom.read32 offset :=
  Rom.read32_congr fun _ hi => h.byte_of_disjoint hOut hi

end Logged

section Success

variable {std : StdSort} {host : Host} {s : Patched}

theorem exists_patchTim {offset width height : Nat} {image : Image} {transparent : Bool}
    {description : String} (hTim : IsTim s.rom offset width height) (hWidth : image.width = width)
    (hHeight : image.height = height) :
    ∃ s', patchTim std s offset width height image transparent description = .ok s' :=
  ⟨_, patchTim_of_isTim hTim hWidth hHeight⟩

theorem exists_patchWord {patch : WordPatch} (hSize : patch.offset + 4 ≤ s.rom.size)
    (hWord : s.rom.read32 patch.offset = patch.before) : ∃ s', patchWord s patch = .ok s' :=
  ⟨_, if_neg fun hNot => hNot.elim (Nat.not_lt.mpr hSize) (absurd hWord)⟩

/-- Words that do not overlap are patched one after the other. -/
theorem exists_patchWords {patches : List WordPatch}
    (hSize : ∀ patch ∈ patches, patch.offset + 4 ≤ s.rom.size)
    (hWords : ∀ patch ∈ patches, s.rom.read32 patch.offset = patch.before)
    (hDisjoint : (patches.map WordPatch.range).Pairwise Range.Disjoint) :
    ∃ s', patchWords s patches = .ok s' := by
  induction patches generalizing s with
  | nil => exact ⟨s, rfl⟩
  | cons patch patches ih =>
      obtain ⟨hFirst, hRest⟩ := List.pairwise_cons.mp hDisjoint
      obtain ⟨t, hPatch⟩ := exists_patchWord (hSize patch List.mem_cons_self)
        (hWords patch List.mem_cons_self)
      have hLogged := patchWord_logged hPatch
      refine exists_bind_eq_ok hPatch (ih (fun q hq => ?_) (fun q hq => ?_) hRest)
      · rw [hLogged.size]
        exact hSize q (List.mem_cons_of_mem _ hq)
      · rw [hLogged.read32 ?_, hWords q (List.mem_cons_of_mem _ hq)]
        intro r hr
        cases List.mem_singleton.mp hr
        exact hFirst _ (List.mem_map_of_mem hq)

theorem exists_rewriteTimSlot {original : TimInfo} {slotEnd : Nat} {image : Image}
    {palette : List Rgb} {transparent : Bool} {description : String} (hWidth : image.width = 120)
    (hHeight : image.height = 90) (hPalette : palette.length = 16)
    (hSlot : original.offset + 5464 ≤ slotEnd) (hSize : slotEnd ≤ s.rom.size) :
    ∃ s', rewriteTimSlot s original slotEnd image palette transparent description = .ok s' := by
  rw [rewriteTimSlot, if_neg]
  · dsimp only
    rw [if_neg]
    · exact ⟨_, rfl⟩
    · rw [hWidth, hHeight]
      omega
  · rw [hWidth, hHeight, hPalette]
    omega

theorem exists_patchExpandedInitialTims {image : Image} (hSize : s.rom.size = kBiosSize)
    (hSony : IsTim s.rom 0x5CC30 240 48) (hComputer : IsTim s.rom 0x5E2F0 240 60)
    (hTrademark : IsTim s.rom 0x5FF50 24 12) (hWidth : image.width = 120)
    (hHeight : image.height = 90) : ∃ s', patchExpandedInitialTims std s image = .ok s' := by
  refine exists_bind_eq_ok (parseTim_of_isTim hSony) ?_
  refine exists_bind_eq_ok (parseTim_of_isTim hComputer) ?_
  refine exists_bind_eq_ok (parseTim_of_isTim hTrademark) ?_
  rw [if_neg fun hNot => hNot.elim (absurd hWidth) (absurd hHeight)]
  have hParsed := parseTim_offset (parseTim_of_isTim hSony)
  generalize timAt s.rom 0x5CC30 240 48 = sony at hParsed ⊢
  obtain ⟨t, hSlot⟩ := @exists_rewriteTimSlot s sony 0x5E2F0 image (makePalette std image 16 false)
    false "Full-frame initial splash source texture" hWidth hHeight (length_makePalette _ _ _ _)
    (by rw [hParsed]; decide) (by rw [hSize]; decide)
  refine exists_bind_eq_ok hSlot ?_
  have hLogged := rewriteTimSlot_logged hSlot
  rw [hParsed] at hLogged
  obtain ⟨u, hBlank⟩ := @exists_patchTim std t 0x5E2F0 240 60 (blank 240 60) true
    "Remove COMPUTER ENTERTAINMENT TIM" (hLogged.isTim hComputer (by decide)) rfl rfl
  refine exists_bind_eq_ok hBlank ?_
  have hMark : IsTim u.rom 0x5FF50 24 12 :=
    (hLogged.trans (patchTim_logged hBlank)).isTim hTrademark (by decide)
  exact exists_patchTim hMark rfl rfl

theorem exists_installBrandingGateMarker (hSize : s.rom.size = kBiosSize)
    (hZero : ∀ i, i < 16 → s.rom.byte (kBrandingGateMarkerOffset + i) = 0) :
    ∃ s', installBrandingGateMarker s = .ok s' := by
  have hAll : (s.rom.mid kBrandingGateMarkerOffset kBrandingGateMarker.length).all
      (· == 0) = true := by
    refine List.all_eq_true.mpr fun byte hByte => ?_
    obtain ⟨i, hi, rfl⟩ := List.mem_map.mp hByte
    exact beq_iff_eq.mpr (hZero i (List.mem_range.mp hi))
  rw [installBrandingGateMarker, if_neg (by rw [hSize]; decide), if_pos hAll]
  exact ⟨_, rfl⟩

/-- A path to a file that can be hashed, and decoded as an image. -/
structure Readable (host : Host) (path : String) : Prop where
  image : ∃ image, host.readImage path = .ok image
  hash : ∃ hash, host.sha256File path = .ok hash

theorem exists_addSource {name path : String} (hPath : Readable host path) :
    ∃ s', addSource host s name path = .ok s' := by
  obtain ⟨hash, hHash⟩ := hPath.hash
  exact exists_bind_eq_ok hHash ⟨_, rfl⟩

variable {bios : Rom} {ranges : List Range} (hStock : Stock bios)

include hStock

/-- Stock instructions are still there outside of what was patched. -/
theorem Stock.exists_patchWords {patches : List WordPatch}
    (hLogged : Logged (unpatched bios) s ranges) (hPatches : patches ⊆ allWords)
    (hOut : ∀ patch ∈ patches, ∀ r ∈ ranges, r.Disjoint patch.range)
    (hDisjoint : (patches.map WordPatch.range).Pairwise Range.Disjoint) :
    ∃ s', patchWords s patches = .ok s' := by
  refine Branding.exists_patchWords (fun patch hPatch => ?_) (fun patch hPatch => ?_) hDisjoint
  · have hAll : ∀ patch ∈ allWords, patch.offset + 4 ≤ kBiosSize := by decide
    rw [hLogged.size]
    exact (hAll patch (hPatches hPatch)).trans hStock.size.ge
  · rw [hLogged.read32 (hOut patch hPatch)]
    exact hStock.words patch (hPatches hPatch)

theorem Stock.exists_patchInitial {path : String} (hPath : Readable host path)
    (hScaled : ∀ image, (host.scaling.ignoringAspectRatio image 120 90).width = 120 ∧
      (host.scaling.ignoringAspectRatio image 120 90).height = 90) :
    ∃ s', patchInitial std host path (unpatched bios) = .ok s' := by
  obtain ⟨image, hImage⟩ := hPath.image
  obtain ⟨hWidth, hHeight⟩ := hScaled image
  obtain ⟨t, hTims⟩ := @exists_patchExpandedInitialTims std (unpatched bios)
    (makeInitialSplash host.scaling image 120 90) hStock.size hStock.sony hStock.computer
    hStock.trademark hWidth hHeight
  obtain ⟨slotted, -, -, -, hSlot, hBlank, -, hZero⟩ := patchExpandedInitialTims_logged hTims
  have hInitial : initialSetupPatches ⊆ allWords := by decide
  obtain ⟨u, hWords⟩ :=
    hStock.exists_patchWords (hSlot.trans hBlank) hInitial (by decide) (by decide)
  obtain ⟨v, hSource⟩ := @exists_addSource host u "initial" path hPath
  have hRest := (hBlank.trans (patchWords_logged hWords)).trans (addSource_logged hSource)
  refine exists_bind_eq_ok hImage (exists_bind_eq_ok hTims (exists_bind_eq_ok hWords
    (exists_bind_eq_ok hSource (exists_installBrandingGateMarker ?_ fun i hi => ?_))))
  · rw [hRest.size, hSlot.size]
    exact hStock.size
  · rw [hRest.byte_of_disjoint (by decide) hi]
    rw [kBrandingGateMarkerOffset]
    exact hZero _ (by omega) (by omega)

theorem Stock.exists_patchHandoff {path : String} (hPath : Readable host path)
    (hLogged : Logged (unpatched bios) s ranges)
    (hOut : ∀ r ∈ ranges, ∀ q ∈ handoffRanges, r.Disjoint q) :
    ∃ s', patchHandoff std host path s = .ok s' := by
  obtain ⟨image, hImage⟩ := hPath.image
  have hAside : ∀ q ∈ handoffRanges, 64 ≤ q.2 → ∀ r ∈ ranges, r.Disjoint (q.1, 64) :=
    fun q hq hSize r hr => (hOut r hr q hq).mono hSize
  obtain ⟨t, hRegistered⟩ := @exists_patchTim std s 0x4EF60 200 40
    (makeHandoffSplash host.scaling image) true "Replace registered handover wordmark TIM"
    (hLogged.isTim hStock.registeredWordmark
      (hAside (0x4EF60, 4064) (by decide) (by decide))) rfl rfl
  have hFirst := hLogged.trans (patchTim_logged hRegistered)
  obtain ⟨u, hTrademark⟩ := @exists_patchTim std t 0x4FF40 200 40
    (makeHandoffSplash host.scaling image) true "Replace trademark handover wordmark TIM"
    (hFirst.isTim hStock.trademarkWordmark (List.forall_mem_append.mpr
      ⟨hAside (0x4FF40, 4064) (by decide) (by decide), by decide⟩)) rfl rfl
  have hSecond := hFirst.trans (patchTim_logged hTrademark)
  obtain ⟨v, hBlank⟩ := @exists_patchTim std u 0x50F20 20 8 (blank 20 8) true
    "Remove handoff trademark TIM" (hSecond.isTim hStock.handoffTrademark
      (List.forall_mem_append.mpr ⟨List.forall_mem_append.mpr
        ⟨hAside (0x50F20, 144) (by decide) (by decide), by decide⟩, by decide⟩)) rfl rfl
  have hThird := hSecond.trans (patchTim_logged hBlank)
  rw [List.append_assoc, List.append_assoc] at hThird
  have hWordsOut : ∀ patch ∈ handoffSetupPatches,
    ∀ r ∈ ranges ++ ([(0x4EF60, 64 + 200 / 4 * 40 * 2)] ++
      ([(0x4FF40, 64 + 200 / 4 * 40 * 2)] ++ [(0x50F20, 64 + 20 / 4 * 8 * 2)])),
      Range.Disjoint r patch.range := by
    have hTims : ∀ patch ∈ handoffSetupPatches, ∀ r ∈ [(0x4EF60, 64 + 200 / 4 * 40 * 2)] ++
        ([(0x4FF40, 64 + 200 / 4 * 40 * 2)] ++ [(0x50F20, 64 + 20 / 4 * 8 * 2)]),
        Range.Disjoint r patch.range := by decide
    exact fun patch hPatch => List.forall_mem_append.mpr
      ⟨fun r hr => hOut r hr _ (List.mem_append_right _ (List.mem_map_of_mem hPatch)),
        hTims patch hPatch⟩
  obtain ⟨w, hWords⟩ := hStock.exists_patchWords hThird (by decide) hWordsOut (by decide)
  obtain ⟨s', hSource⟩ := @exists_addSource host w "handoff" path hPath
  exact exists_bind_eq_ok hImage (exists_bind_eq_ok hRegistered (exists_bind_eq_ok hTrademark
    (exists_bind_eq_ok hBlank (exists_bind_eq_ok hWords ⟨s', hSource⟩))))

theorem Stock.exists_option (option : Bool) {patches : List WordPatch} {earlier : List Range}
    (hLogged : Logged (unpatched bios) s ranges) (hRanges : ranges ⊆ earlier)
    (hPatches : patches ⊆ allWords)
    (hOut : ∀ patch ∈ patches, ∀ r ∈ earlier, r.Disjoint patch.range)
    (hDisjoint : (patches.map WordPatch.range).Pairwise Range.Disjoint) :
    ∃ s', (if option then patchWords s patches else .ok s) = .ok s' ∧
      ∃ later, Logged (unpatched bios) s' (ranges ++ later) ∧
        ranges ++ later ⊆ earlier ++ patches.map WordPatch.range := by
  cases option with
  | false =>
      refine ⟨s, rfl, [], ?_⟩
      rw [List.append_nil]
      exact ⟨hLogged, List.subset_append_of_subset_left _ hRanges⟩
  | true =>
      obtain ⟨s', hWords⟩ := hStock.exists_patchWords hLogged hPatches
        (fun patch hPatch r hr => hOut patch hPatch r (hRanges hr)) hDisjoint
      exact ⟨s', hWords, _, hLogged.trans (patchWords_logged hWords),
        List.append_subset.mpr ⟨List.subset_append_of_subset_left _ hRanges,
          List.subset_append_right _ _⟩⟩

theorem Stock.exists_patchBios {options : BiosBrandingPatchOptions}
    (hInitial : options.initialSplashImagePath ≠ "" → Readable host options.initialSplashImagePath)
    (hHandoff : options.handoffImagePath ≠ "" → Readable host options.handoffImagePath)
    (hScaled : ∀ image, (host.scaling.ignoringAspectRatio image 120 90).width = 120 ∧
      (host.scaling.ignoringAspectRatio image 120 90).height = 90) :
    ∃ s', patchBios std host options bios = .ok s' := by
  obtain ⟨t, first, hFirst, hLogged, hFirstRanges⟩ : ∃ t first,
      (if options.initialSplashImagePath = "" then .ok (unpatched bios)
        else patchInitial std host options.initialSplashImagePath (unpatched bios)) = .ok t ∧
      Logged (unpatched bios) t first ∧ first ⊆ (0x5CC30, 0x16C0) :: initialRanges := by
    split
    · exact ⟨_, [], rfl, .refl, List.nil_subset _⟩
    · rename_i hSplash
      obtain ⟨t, hPatched⟩ := hStock.exists_patchInitial (hInitial hSplash) hScaled
      obtain ⟨slotted, -, -, -, hSlot, hRest, -⟩ := patchInitial_logged hPatched
      exact ⟨t, _, hPatched, hSlot.trans hRest, List.Subset.refl _⟩
  obtain ⟨u, second, hSecond, hLogged', hSecondRanges⟩ : ∃ u second,
      (if options.handoffImagePath = "" then .ok t
        else patchHandoff std host options.handoffImagePath t) = .ok u ∧
      Logged t u second ∧ second ⊆ handoffRanges := by
    split
    · exact ⟨_, [], rfl, .refl, List.nil_subset _⟩
    · rename_i hPath
      have hAside : ∀ r ∈ (0x5CC30, 0x16C0) :: initialRanges, ∀ q ∈ handoffRanges,
          Range.Disjoint r q := by decide
      obtain ⟨u, hPatched⟩ := hStock.exists_patchHandoff (hHandoff hPath) hLogged
        fun r hr => hAside r (hFirstRanges hr)
      exact ⟨u, _, hPatched, patchHandoff_logged hPatched, List.Subset.refl _⟩
  have hRanges : first ++ second ⊆ (0x5CC30, 0x16C0) :: initialRanges ++ handoffRanges :=
    List.append_subset.mpr ⟨List.subset_append_of_subset_left _ hFirstRanges,
      List.subset_append_of_subset_right _ hSecondRanges⟩
  obtain ⟨v, hGlyph, third, hLogged'', hThirdRanges⟩ := hStock.exists_option
    options.removeStockPsGlyph (hLogged.trans hLogged') hRanges
    (show glyphPatches ⊆ allWords by decide) (by decide) (by decide)
  obtain ⟨w, hAudio, -⟩ := hStock.exists_option options.muteBootAudio hLogged'' hThirdRanges
    (show audioPatches ⊆ allWords by decide) (by decide) (by decide)
  exact exists_bind_eq_ok hFirst (exists_bind_eq_ok hSecond (exists_bind_eq_ok hGlyph ⟨w, hAudio⟩))

end Success

variable {std : StdSort} {host : Host} {options : BiosBrandingPatchOptions} {bios output : Rom}
  {manifest : Manifest} {s : Patched}

theorem exists_patch (hBios : host.readBios options.inputBiosPath = .ok bios)
    (hSize : bios.size = kBiosSize)
    (hHash : host.sha256 (bios.mid 0 bios.size) = kCanonicalSha256)
    (hImages : (options.initialSplashImagePath == "") = (options.handoffImagePath == ""))
    (hPatched : patchBios std host options bios = .ok s)
    (hOutput : host.writeBios options.outputBiosPath s.rom = .ok ())
    (hManifest : ∀ manifest, host.writeManifest options.manifestPath manifest = .ok ()) :
    ∃ written, patch std host options = .ok written := by
  refine exists_bind_eq_ok hBios ?_
  rw [if_neg fun hNot => hNot.elim (absurd hSize) (absurd hHash), hImages, bne_self_eq_false,
    if_neg Bool.false_ne_true]
  refine exists_bind_eq_ok hPatched (exists_bind_eq_ok hOutput ?_)
  dsimp only
  split
  · exact ⟨_, rfl⟩
  · exact exists_bind_eq_ok (hManifest _) ⟨_, rfl⟩

/-- The words of a TIM's header. -/
def timWords (offset width height : Nat) : List (Nat × BitVec 32) :=
  [(offset, 0x10), (offset + 4, 0x08), (offset + 8, 44), (offset + 16, 0x00010010),
    (offset + 52, BitVec.ofNat 32 (12 + width / 4 * height * 2)),
    (offset + 60, BitVec.ofNat 32 (width / 4 + height * 65536))]

/-- A BIOS with no more in it than what is checked. -/
def stockBios : Rom where
  size := kBiosSize
  byte i :=
    let words := allWords.map (fun patch => (patch.offset, patch.before)) ++
      timWords 0x5CC30 240 48 ++ timWords 0x5E2F0 240 60 ++ timWords 0x5FF50 24 12 ++
      timWords 0x4EF60 200 40 ++ timWords 0x4FF40 200 40 ++ timWords 0x50F20 20 8
    match words.lookup (i / 4 * 4) with
    | some word => (Rom.wordBytes word).getD (i % 4) 0
    | none => 0

theorem stock_stockBios : Stock stockBios where
  size := rfl
  sony := by constructor <;> decide
  computer := by constructor <;> decide
  trademark := by constructor <;> decide
  registeredWordmark := by constructor <;> decide
  trademarkWordmark := by constructor <;> decide
  handoffTrademark := by constructor <;> decide
  words := by decide

def mergeSort : StdSort where
  sort less l := l.mergeSort fun lhs rhs => !less rhs lhs
  perm _ l := l.mergeSort_perm _

/-- Each pixel is that of the source at its place. -/
def scaled (image : Image) (width height : Nat) : Image where
  width
  height
  pixel x y := image.pixel (x * image.width / width) (y * image.height / height)

/-- A host on which all files are the same, and the hash is the one that is asked for. -/
def stockHost : Host where
  readBios _ := .ok stockBios
  readImage _ := .ok { width := 1, height := 1, pixel := fun _ _ => qRgb 255 255 255 }
  scaling := {
    ignoringAspectRatio := scaled
    keepingAspectRatio := fun image width height =>
      if height * image.width / image.height ≤ width then
        scaled image (height * image.width / image.height) height
      else scaled image width (width * image.height / image.width) }
  sha256 _ := kCanonicalSha256
  sha256File _ := .ok kCanonicalSha256
  writeBios _ _ := .ok ()
  writeManifest _ _ := .ok ()

theorem readable_stockHost (path : String) : Readable stockHost path := ⟨⟨_, rfl⟩, ⟨_, rfl⟩⟩

/-- On this host every choice of options succeeds, with both images or none. -/
theorem exists_patch_stockHost (options : BiosBrandingPatchOptions)
    (hImages : (options.initialSplashImagePath == "") = (options.handoffImagePath == "")) :
    ∃ written, patch mergeSort stockHost options = .ok written := by
  obtain ⟨s, hPatched⟩ :=
    @Stock.exists_patchBios mergeSort stockHost stockBios stock_stockBios options
    (fun _ => readable_stockHost _) (fun _ => readable_stockHost _) fun _ => ⟨rfl, rfl⟩
  exact exists_patch rfl rfl rfl hImages hPatched rfl fun _ => rfl

/-- The manifest of a success is true of the BIOS that is written exactly where there is no
first splash. -/
theorem manifest_faithful_iff (h : patch std host options = .ok (output, manifest))
    (hBios : host.readBios options.inputBiosPath = .ok bios) :
    Faithful bios output manifest.patches ↔ options.initialSplashImagePath = "" := by
  obtain ⟨bios', s, hBios', hPatched, rfl, hPatches⟩ := patch_eq_ok h
  cases hBios.symm.trans hBios'
  rw [hPatches]
  refine ⟨fun hFaithful => ?_, fun hSplash => patchBios_faithful hSplash hPatched⟩
  by_contra hSplash
  exact patchBios_unfaithful hSplash hPatched hFaithful

/-- The default options, with two images. -/
def splashOptions : BiosBrandingPatchOptions where
  inputBiosPath := "SCPH1001.BIN"
  outputBiosPath := "branded.bin"
  initialSplashImagePath := "initial.png"
  handoffImagePath := "handoff.png"
  manifestPath := "branded.json"
  muteBootAudio := true
  removeStockPsGlyph := true

def plainOptions : BiosBrandingPatchOptions :=
  { splashOptions with initialSplashImagePath := "", handoffImagePath := "" }

theorem plain_faithful : ∃ output manifest, patch mergeSort stockHost plainOptions =
    .ok (output, manifest) ∧ Faithful stockBios output manifest.patches := by
  obtain ⟨⟨output, manifest⟩, hPatch⟩ := exists_patch_stockHost plainOptions rfl
  exact ⟨output, manifest, hPatch, (manifest_faithful_iff hPatch rfl).mpr rfl⟩

theorem splash_not_faithful : ¬∀ (std : StdSort) (host : Host) (options : BiosBrandingPatchOptions)
    (bios output : Rom) (manifest : Manifest),
    host.readBios options.inputBiosPath = .ok bios →
      patch std host options = .ok (output, manifest) →
        Faithful bios output manifest.patches := by
  intro hAll
  obtain ⟨⟨output, manifest⟩, hPatch⟩ := exists_patch_stockHost splashOptions rfl
  obtain ⟨bios, s, hBios, hPatched, rfl, hPatches⟩ := patch_eq_ok hPatch
  refine patchBios_unfaithful (by decide) hPatched ?_
  rw [← hPatches]
  exact hAll mergeSort stockHost splashOptions bios _ manifest hBios hPatch

end RecompStudio.Studio.Branding
