import RecompStudio.Studio.BrandingTim
import Mathlib.Tactic.Common

/-!
The branding patcher: about forty patches of one BIOS, in sequence, each with its record in
a manifest. The records describe what is written, but for the slot of the first splash,
in whose unused rest a marker is put afterwards.
-/

namespace RecompStudio.Studio.Branding

open Serial (Byte)

def kBiosSize : Nat := 512 * 1024

def kCanonicalSha256 : String := "71af94d1e47a68c11e8fdb9f8368040601514a42a5a399cda48c7d3bff1e99d3"

def kBrandingGateMarkerOffset : Nat := 0x5E2D0

/-- `PSXBRGATE001`, and a number. -/
def kBrandingGateMarker : List Byte :=
  [0x50, 0x53, 0x58, 0x42, 0x52, 0x47, 0x41, 0x54, 0x45, 0x30, 0x30, 0x31, 0, 0, 0, 1]

structure BiosBrandingPatchOptions where
  inputBiosPath : String
  outputBiosPath : String
  initialSplashImagePath : String
  handoffImagePath : String
  manifestPath : String
  muteBootAudio : Bool
  removeStockPsGlyph : Bool
deriving DecidableEq, Repr

/-- The two ways of an image library to scale an image. -/
structure Scaling where
  ignoringAspectRatio : Image → (width height : Nat) → Image
  keepingAspectRatio : Image → (width height : Nat) → Image

structure Rect where
  left : Nat
  top : Nat
  width : Nat
  height : Nat
deriving DecidableEq, Repr

def peak (pixel : Rgb) : Nat := max (max pixel.r.toNat pixel.g.toNat) pixel.b.toNat

/-- `contentBounds`, by brightness. -/
def contentBounds (image : Image) (threshold : Nat) : Rect :=
  let content := (List.range image.height).flatMap fun y =>
    ((List.range image.width).filter fun x => threshold < peak (image.pixel x y)).map fun x =>
      (x, y)
  match content with
  | [] => { left := 0, top := 0, width := image.width, height := image.height }
  | (x, y) :: rest =>
      let minX := rest.foldl (fun m p => min m p.1) x
      let minY := rest.foldl (fun m p => min m p.2) y
      let maxX := rest.foldl (fun m p => max m p.1) x
      let maxY := rest.foldl (fun m p => max m p.2) y
      let padX := max 2 ((maxX - minX + 1) / 25)
      let padY := max 2 ((maxY - minY + 1) / 12)
      let left := minX - padX
      let top := minY - padY
      { left, top
        width := min (maxX + padX) (image.width - 1) + 1 - left
        height := min (maxY + padY) (image.height - 1) + 1 - top }

def Image.copy (image : Image) (rect : Rect) : Image where
  width := rect.width
  height := rect.height
  pixel x y := image.pixel (rect.left + x) (rect.top + y)

/-- An image of transparent pixels. -/
def blank (width height : Nat) : Image where
  width
  height
  pixel _ _ := clear

def makeInitialSplash (scaling : Scaling) (source : Image) (width height : Nat) : Image :=
  scaling.ignoringAspectRatio source width height

def makeHandoffSplash (scaling : Scaling) (source : Image) : Image :=
  let content := source.copy (contentBounds source 30)
  let scaled := scaling.keepingAspectRatio content 194 38
  let left := (200 - scaled.width) / 2
  let top := (40 - scaled.height) / 2
  { width := 200
    height := 40
    pixel x y :=
      let drawn :=
        if left ≤ x ∧ x < left + scaled.width ∧ top ≤ y ∧ y < top + scaled.height then
          scaled.pixel (x - left) (y - top)
        else clear
      if peak drawn < 10 then clear else { drawn with a := 255 } }

/-- The three TIMs of the first splash: the first becomes the image, over its slot up to the
second one, and the others become blank. -/
def patchExpandedInitialTims (std : StdSort) (s : Patched) (image : Image) :
    Except String Patched := do
  let sony ← parseTim s.rom 0x5CC30 240 48
  let computer ← parseTim s.rom 0x5E2F0 240 60
  let trademark ← parseTim s.rom 0x5FF50 24 12
  if image.width ≠ 120 ∨ image.height ≠ 90 then
    .error "Internal image size mismatch for expanded initial splash."
  else
    let palette := makePalette std image 16 false
    let s ← rewriteTimSlot s sony computer.offset image palette false
      "Full-frame initial splash source texture"
    let s ← patchTim std s computer.offset 240 60 (blank 240 60) true
      "Remove COMPUTER ENTERTAINMENT TIM"
    patchTim std s trademark.offset 24 12 (blank 24 12) true "Remove initial trademark TIM"

def blankTim (std : StdSort) (s : Patched) (offset width height : Nat) (description : String) :
    Except String Patched :=
  patchTim std s offset width height (blank width height) true description

/-- An instruction of the stock BIOS and what replaces it. -/
structure WordPatch where
  offset : Nat
  before : BitVec 32
  after : BitVec 32
  description : String
deriving DecidableEq, Repr

def patchWord (s : Patched) (patch : WordPatch) : Except String Patched :=
  if s.rom.size < patch.offset + 4 ∨ s.rom.read32 patch.offset ≠ patch.before then
    .error ("Original instruction mismatch at BIOS offset " ++ hex patch.offset ++ " for " ++
      patch.description ++ ".")
  else
    .ok {
      rom := s.rom.write32 patch.offset patch.after
      sourceImages := s.sourceImages
      patches := s.patches ++ [{
        kind := .instruction
        description := patch.description
        offset := patch.offset
        before := Rom.wordBytes patch.before
        after := Rom.wordBytes patch.after }] }

def patchWords (s : Patched) (patches : List WordPatch) : Except String Patched :=
  patches.foldlM patchWord s

def initialSetupPatches : List WordPatch :=
  [⟨0x28570, 0x0C0102E1, 0x00000000, "Skip earlier three-polygon SCE diamond builder"⟩,
    ⟨0x28594, 0x240400B4, 0x00002021, "Clear first-logo renderer to black (red)"⟩,
    ⟨0x28598, 0x240500B4, 0x00002821, "Clear first-logo renderer to black (green)"⟩,
    ⟨0x285A0, 0x240600B4, 0x00003021, "Clear first-logo renderer to black (blue)"⟩,
    ⟨0x286BC, 0x0C014601, 0x00000000, "Skip earlier SCE diamond primitive submission A"⟩,
    ⟨0x286F4, 0x0C014601, 0x00000000, "Skip earlier SCE diamond primitive submission B"⟩,
    ⟨0x2872C, 0x0C014601, 0x00000000, "Skip earlier SCE diamond primitive submission C"⟩,
    ⟨0x287F8, 0x240400B4, 0x00002021, "Keep first-logo renderer black (red)"⟩,
    ⟨0x287FC, 0x240500B4, 0x00002821, "Keep first-logo renderer black (green)"⟩,
    ⟨0x28804, 0x240600B4, 0x00003021, "Keep first-logo renderer black (blue)"⟩,
    ⟨0x289FC, 0x240B0050, 0x240B00F0, "Center full-frame Microsoft quad vertically"⟩,
    ⟨0x28A58, 0x12600004, 0x00000000,
      "Retain current-buffer Microsoft quad for full-frame sizing"⟩,
    ⟨0x28A5C, 0x24020002, 0x24050280, "Set Microsoft quad width to 640"⟩,
    ⟨0x28A60, 0x10000002, 0x0C011262, "Call textured-quad size helper"⟩,
    ⟨0x28A64, 0x24020001, 0x240601E0, "Set Microsoft quad height to 480"⟩,
    ⟨0x28A68, 0x24020002, 0x10000033, "Skip unused initial text-quad positioning"⟩,
    ⟨0x28A6C, 0x240D019C, 0x00000000, "Full-frame setup branch delay slot"⟩,
    ⟨0x29B34, 0xAFA200A8, 0xAFA000A8,
      "Suppress SCE diamond model count while preserving the replacement render loop"⟩]

def handoffSetupPatches : List WordPatch :=
  [⟨0x274AC, 0x240F0122, 0x240F00F0, "Center MVII handoff sprite vertically"⟩,
    ⟨0x274B8, 0x24050148, 0x24050140, "Center MVII handoff sprite horizontally"⟩]

def glyphPatches : List WordPatch :=
  [⟨0x27868, 0x27BDFFC0, 0x03E00008,
      "Return immediately from exclusive PS-glyph primitive builder"⟩,
    ⟨0x2786C, 0xAFBF003C, 0x00000000, "PS-glyph early-return delay slot"⟩]

def audioPatches : List WordPatch :=
  [⟨0x3B230, 0xA70D0188, 0xA7000188, "Suppress BIOS-shell SPU key-on low path A"⟩,
    ⟨0x3B244, 0xA72E018A, 0xA720018A, "Suppress BIOS-shell SPU key-on high path A"⟩,
    ⟨0x3C390, 0xA60B0188, 0xA6000188, "Suppress BIOS-shell SPU key-on low path B"⟩,
    ⟨0x3C3A4, 0xA60D018A, 0xA600018A, "Suppress BIOS-shell SPU key-on high path B"⟩]

def installBrandingGateMarker (s : Patched) : Except String Patched :=
  if s.rom.size < kBrandingGateMarkerOffset + kBrandingGateMarker.length then
    .error "Branding presentation marker is outside the BIOS image."
  else if (s.rom.mid kBrandingGateMarkerOffset kBrandingGateMarker.length).all (· == 0) then
    .ok (s.record (s.rom.write kBrandingGateMarkerOffset kBrandingGateMarker) .brandingPresentGate
      "Mark BIOS for frontend black-until-logo presentation gating" kBrandingGateMarkerOffset
      kBrandingGateMarker.length)
  else .error "Branding presentation marker slot is not empty."

/-- The manifest. It has the hashes of the records' bytes, or the words of an instruction. -/
structure Manifest where
  inputBios : String
  inputSha256 : String
  outputBios : String
  outputSha256 : String
  muteBootAudio : Bool
  removeStockPsGlyph : Bool
  sourceImages : List SourceImage
  patches : List Patch
deriving DecidableEq, Repr

/-- What the patcher takes from the system: files, image decoding and hashes. -/
structure Host where
  readBios : String → Except String Rom
  readImage : String → Except String Image
  scaling : Scaling
  sha256 : List Byte → String
  sha256File : String → Except String String
  writeBios : String → Rom → Except String Unit
  writeManifest : String → Manifest → Except String Unit

variable (std : StdSort) (host : Host)

def addSource (s : Patched) (name path : String) : Except String Patched := do
  let sha256 ← host.sha256File path
  return { s with sourceImages := s.sourceImages ++ [{ name, path, sha256 }] }

def patchInitial (path : String) (s : Patched) : Except String Patched := do
  let image ← host.readImage path
  let splash := makeInitialSplash host.scaling image 120 90
  let s ← patchExpandedInitialTims std s splash
  let s ← patchWords s initialSetupPatches
  let s ← addSource host s "initial" path
  installBrandingGateMarker s

def patchHandoff (path : String) (s : Patched) : Except String Patched := do
  let image ← host.readImage path
  let splash := makeHandoffSplash host.scaling image
  let s ← patchTim std s 0x4EF60 200 40 splash true "Replace registered handover wordmark TIM"
  let s ← patchTim std s 0x4FF40 200 40 splash true "Replace trademark handover wordmark TIM"
  let s ← blankTim std s 0x50F20 20 8 "Remove handoff trademark TIM"
  let s ← patchWords s handoffSetupPatches
  addSource host s "handoff" path

/-- All that is patched in a BIOS, before it is written. -/
def patchBios (options : BiosBrandingPatchOptions) (bios : Rom) : Except String Patched := do
  let s : Patched := { rom := bios, patches := [], sourceImages := [] }
  let s ← (if options.initialSplashImagePath = "" then .ok s
    else patchInitial std host options.initialSplashImagePath s)
  let s ← (if options.handoffImagePath = "" then .ok s
    else patchHandoff std host options.handoffImagePath s)
  let s ← (if options.removeStockPsGlyph then patchWords s glyphPatches else .ok s)
  if options.muteBootAudio then patchWords s audioPatches else .ok s

/-- `BiosBrandingPatcher::patch`, with the BIOS that it writes and the manifest, which is
only saved where there is a path for it. -/
def patch (options : BiosBrandingPatchOptions) : Except String (Rom × Manifest) := do
  let bios ← host.readBios options.inputBiosPath
  if bios.size ≠ kBiosSize ∨ host.sha256 (bios.mid 0 bios.size) ≠ kCanonicalSha256 then
    .error "BIOS branding patch requires the canonical 512 KiB SCPH1001.BIN."
  else if (options.initialSplashImagePath == "") != (options.handoffImagePath == "") then
    .error "BIOS branding requires both the initial and handover images."
  else
    let s ← patchBios std host options bios
    host.writeBios options.outputBiosPath s.rom
    let manifest : Manifest := {
      inputBios := options.inputBiosPath
      inputSha256 := kCanonicalSha256
      outputBios := options.outputBiosPath
      outputSha256 := host.sha256 (s.rom.mid 0 s.rom.size)
      muteBootAudio := options.muteBootAudio
      removeStockPsGlyph := options.removeStockPsGlyph
      sourceImages := s.sourceImages
      patches := s.patches }
    if options.manifestPath = "" then return (s.rom, manifest)
    else
      host.writeManifest options.manifestPath manifest
      return (s.rom, manifest)

end RecompStudio.Studio.Branding
