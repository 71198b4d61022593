import RecompStudio.Gpu.Gp0
import RecompStudio.Library.Painting

/-!
The software renderer: native VRAM and, at an internal scale above one, the enlarged
mirror of it. Fills, copies, transfers, rectangles and lines go to both.
-/

namespace RecompStudio.Gpu

open RecompStudio.Painting

/-- A place of a buffer, by column and row. -/
abbrev Place := Int × Int

abbrev Picture := Place → Color

/-- `g_uv_lim`: the first and the last texel that is sampled, by column and by row. -/
structure UvLimits where
  u : Int × Int
  v : Int × Int

structure SwRenderer where
  vram : Picture
  /-- `g_hr`, which is there at a scale above one. -/
  hr : Picture
  scale : Nat
  scale_pos : 0 < scale
  clipX1 : Int
  clipY1 : Int
  clipX2 : Int
  clipY2 : Int
  semiTrans : Bool
  semiMode : BitVec 2
  setMask : Bool
  checkMask : Bool
  twMaskX : BitVec 5
  twMaskY : BitVec 5
  twOffX : BitVec 5
  twOffY : BitVec 5
  modR : Nat
  modG : Nat
  modB : Nat
  rawTexture : Bool
  /-- `g_texture_filter`. -/
  textureFilter : Bool
  uvLimits : UvLimits

/-- `sw_renderer_init` and `sw_renderer_set_scale` on a VRAM of zeros. -/
def freshRenderer (scale : Int) : SwRenderer where
  vram _ := 0
  hr _ := 0
  scale := (max 1 (min 4 scale)).toNat
  scale_pos := by omega
  clipX1 := 0
  clipY1 := 0
  clipX2 := 1023
  clipY2 := 511
  semiTrans := false
  semiMode := 0
  setMask := false
  checkMask := false
  twMaskX := 0
  twMaskY := 0
  twOffX := 0
  twOffY := 0
  modR := 16
  modG := 16
  modB := 16
  rawTexture := false
  textureFilter := false
  uvLimits := ⟨(0, 255), (0, 255)⟩

@[grind =] def channel (c : Color) (k : Nat) : Int := (c.extractLsb' (5 * k) 5).toNat

def rgb (r g b : Int) : Color :=
  BitVec.ofInt 16 r ||| BitVec.ofInt 16 g <<< 5 ||| BitVec.ofInt 16 b <<< 10

/-- `blend_pixels`. -/
def blendPixels (back front : Color) (mode : BitVec 2) : Color :=
  let mix (k : Nat) : Int :=
    let b := channel back k
    let f := channel front k
    match mode with
    | 0#2 => (b + f) / 2
    | 1#2 => min 31 (b + f)
    | 2#2 => max 0 (b - f)
    | _ => min 31 (b + f / 4)
  rgb (mix 0) (mix 1) (mix 2)

/-- A target of the rasterisers: its scale and its clip rectangle. The buffer is
1024 by 512 places of that scale. -/
structure RTarget where
  scale : Nat
  cx1 : Int
  cy1 : Int
  cx2 : Int
  cy2 : Int

namespace RTarget

variable (t : RTarget)

def Inside (p : Place) : Prop :=
  (0 ≤ p.1 ∧ p.1 < 1024 * t.scale ∧ 0 ≤ p.2 ∧ p.2 < 512 * t.scale) ∧
    t.cx1 ≤ p.1 ∧ p.1 ≤ t.cx2 ∧ t.cy1 ≤ p.2 ∧ p.2 ≤ t.cy2

instance (p : Place) : Decidable (t.Inside p) := inferInstanceAs (Decidable (_ ∧ _))

/-- The places of `raster_flat_rect`: the rows in the clip rectangle, each from its left
edge to its right one. -/
def rectPlaces (x y : Int) (w h : Nat) : List Place :=
  (grid w h fun col row => ((x + col, y + row) : Place)).filter fun p =>
    t.cy1 ≤ p.2 ∧ p.2 ≤ t.cy2 ∧ t.cx1 ≤ p.1 ∧ p.1 ≤ t.cx2

end RTarget

namespace SwRenderer

variable (r : SwRenderer)

/-- `rt_native`. -/
def rtNative : RTarget := ⟨1, r.clipX1, r.clipY1, r.clipX2, r.clipY2⟩

/-- `rt_hires`. -/
def rtHires : RTarget :=
  ⟨r.scale, r.clipX1 * r.scale, r.clipY1 * r.scale, r.clipX2 * r.scale + (r.scale - 1),
    r.clipY2 * r.scale + (r.scale - 1)⟩

/-- What `put_opaque` makes of a pixel that is inside. -/
def overlay (color old : Color) : Color :=
  if r.checkMask ∧ old.msb then old
  else
    let c := if r.semiTrans then blendPixels old color r.semiMode else color
    if r.setMask then c ||| 0x8000#16 else c

/-- `put_opaque`. -/
def putOpaque (t : RTarget) (color : Color) (p : Place) (old : Color) : Color :=
  if t.Inside p then r.overlay color old else old

/-- The cells of a native pixel in the mirror. -/
def block (p : Place) (d : Nat × Nat) : Place := (p.1 * r.scale + d.1, p.2 * r.scale + d.2)

/-- The same, as most loops wrap them at the edges of the mirror. -/
def wrappedBlock (p : Place) (d : Nat × Nat) : Place :=
  ((p.1 * r.scale + d.1) % (1024 * r.scale), (p.2 * r.scale + d.2) % (512 * r.scale))

def offsets : List (Nat × Nat) := grid r.scale r.scale Prod.mk

/-- `g_hr`: it is there. -/
def HasMirror : Prop := 1 < r.scale

instance : Decidable r.HasMirror := inferInstanceAs (Decidable (_ < _))

/-- What is done to the mirror, if it is there. -/
@[grind =] def onMirror (f : Picture → Picture) : Picture := if r.HasMirror then f r.hr else r.hr

def wrapX (x : Int) : Int := x % 1024

def wrapY (y : Int) : Int := y % 512

/-- `sw_vram_write`. -/
def vramWrite (x y : Int) (pixel : Color) : SwRenderer :=
  let p : Place := (wrapX x, wrapY y)
  { r with
    vram := Function.update r.vram p pixel
    hr := r.onMirror (stamp (r.block p) (fun _ => pixel) r.offsets) }

/-- `sw_vram_transfer_in`: a pixel of it. -/
def transferPixel (p : Place) (pixel : Color) : SwRenderer :=
  { r with
    vram := Function.update r.vram p pixel
    hr := r.onMirror (stamp (r.wrappedBlock p) (fun _ => pixel) r.offsets) }

/-- `sw_vram_transfer_in`. -/
def vramTransferIn (x y : Int) (w h : Nat) (data : Nat → Color) : SwRenderer :=
  (grid w h fun col row => (col, row)).foldl
    (fun r c => r.transferPixel (wrapX (x + c.1), wrapY (y + c.2)) (data (c.2 * w + c.1))) r

/-- `sw_fill_rect` with `hr_fill_block`. -/
def fillRect (x y : Int) (w h : Nat) (color : Color) : SwRenderer :=
  { r with
    vram := paint (fun _ _ => color)
      (grid w h fun col row => ((wrapX (wrapX x + col), wrapY (wrapY y + row)) : Place)) r.vram
    hr := r.onMirror (paint (fun _ _ => color)
      (grid (w * r.scale) (h * r.scale) fun col row =>
        (((wrapX x * r.scale + col) % (1024 * r.scale),
          (wrapY y * r.scale + row) % (512 * r.scale)) : Place))) }

/-- What `sw_copy_rect` makes of a pixel that it does not skip. -/
def copied (c : Color) : Color := if r.setMask then c ||| 0x8000#16 else c

/-- A pixel of `sw_copy_rect`: where the native place is masked, its cells are left
too. -/
def copyPixel (p : Place) (color : Color) (cells : Nat × Nat → Color) : SwRenderer :=
  if r.checkMask ∧ (r.vram p).msb then r
  else
    { r with
      vram := Function.update r.vram p (r.copied color)
      hr := r.onMirror (stamp (r.wrappedBlock p) (fun d => r.copied (cells d)) r.offsets) }

/-- A row of `sw_copy_rect`: it is read before any of it is written. -/
def copyRow (srcX srcY dstX dstY : Int) (w : Nat) (row : Nat) : SwRenderer :=
  (List.range w).foldl
    (fun r' col =>
      let source : Place := (wrapX (srcX + (col : Nat)), wrapY (srcY + row))
      r'.copyPixel (wrapX (dstX + (col : Nat)), wrapY (dstY + row)) (r.vram source)
        fun d => r.hr (r.wrappedBlock source d)) r

/-- `sw_copy_rect`. -/
def copyRect (srcX srcY dstX dstY : Int) (w h : Nat) : SwRenderer :=
  (List.range h).foldl (fun r row => r.copyRow srcX srcY dstX dstY w row) r

/-- `raster_flat_rect`. -/
def rasterFlatRect (t : RTarget) (x y : Int) (w h : Nat) (color : Color) (v : Picture) : Picture :=
  paint (r.putOpaque t color) (t.rectPlaces x y w h) v

/-- `sw_draw_flat_rect`. -/
def drawFlatRect (x y : Int) (w h : Nat) (color : Color) : SwRenderer :=
  { r with
    vram := r.rasterFlatRect r.rtNative x y w h color r.vram
    hr := r.onMirror (r.rasterFlatRect r.rtHires (x * r.scale) (y * r.scale) (w * r.scale)
      (h * r.scale) color) }

/-- A pixel of a line: `put_opaque`, and `hr_put_block_opaque`. -/
def plot (p : Place) (color : Color) : SwRenderer :=
  { r with
    vram := paint (r.putOpaque r.rtNative color) [p] r.vram
    hr := r.onMirror (paint (r.putOpaque r.rtHires color) (r.offsets.map (r.block p))) }

/-- `vram_get`. -/
def vramGet (v : Picture) (x y : Int) : Color := v (wrapX x, wrapY y)

/-- A texture, by its page and the place of its palette. -/
structure Texture where
  page : BitVec 16
  clutX : BitVec 16
  clutY : BitVec 16

/-- The texture window on a column or a row. -/
def windowed (mask off : BitVec 5) (u : BitVec 8) : BitVec 8 :=
  (u &&& ~~~(mask.setWidth 8 <<< 3)) ||| ((off &&& mask).setWidth 8 <<< 3)

def window (u v : BitVec 8) : BitVec 8 × BitVec 8 :=
  if r.twMaskX ||| r.twMaskY = 0 then (u, v)
  else (windowed r.twMaskX r.twOffX u, windowed r.twMaskY r.twOffY v)

/-- Where the word of a texel is, with so many texels to the word. -/
def texelPlace (tex : Texture) (texels : Nat) (uv : BitVec 8 × BitVec 8) : Place :=
  (wrapX ((tex.page.extractLsb' 0 4).toNat * 64 + uv.1.toNat / texels : Nat),
    wrapY ((tex.page.extractLsb' 4 1).toNat * 256 + uv.2.toNat : Nat))

/-- Where the colour of a palette is. -/
def clutPlace (tex : Texture) (index : Nat) : Place :=
  (wrapX (tex.clutX.toNat + index : Nat), wrapY tex.clutY.toNat)

/-- `texel_fetch`: the places that it reads, the colour being at the last one. -/
def texelPlaces (tex : Texture) (v : Picture) (u₀ v₀ : BitVec 8) : Place × Place :=
  let uv := r.window u₀ v₀
  match tex.page.extractLsb' 7 2 with
  | 0#2 =>
      let word := texelPlace tex 4 uv
      (word, clutPlace tex ((v word).extractLsb' (4 * (uv.1.toNat % 4)) 4).toNat)
  | 1#2 =>
      let word := texelPlace tex 2 uv
      (word, clutPlace tex ((v word).extractLsb' (8 * (uv.1.toNat % 2)) 8).toNat)
  | _ => (texelPlace tex 1 uv, texelPlace tex 1 uv)

def texelFetch (tex : Texture) (v : Picture) (u₀ v₀ : BitVec 8) : Color :=
  v (r.texelPlaces tex v u₀ v₀).2

/-- `bl_fetch`. -/
def blFetch (tex : Texture) (vram : Picture) (u v : Int) : Color :=
  let within (lim : Int × Int) (a : Int) : Int :=
    if r.twMaskX ||| r.twMaskY ≠ 0 then a
    else if a < lim.1 then lim.1 else if lim.2 < a then lim.2 else a
  r.texelFetch tex vram (BitVec.ofInt 8 (within r.uvLimits.u (u % 256)))
    (BitVec.ofInt 8 (within r.uvLimits.v (v % 256)))

/-- Colours with their weights, of which those of no colour weigh nothing. -/
def mixTexels (texels : List (Color × Int)) : Color :=
  let weigh (f : Color → Int) : Int :=
    (texels.map fun t => if t.1 = 0 then 0 else f t.1 * t.2).sum
  let opac := weigh fun _ => 1
  if opac < 32768 then 0
  else
    let mix (k : Nat) : Int := weigh (channel · k) / opac
    let stp := opac ≤ weigh (fun c => if c.msb then 1 else 0) * 2
    rgb (mix 0) (mix 1) (mix 2) ||| if stp then 0x8000#16 else 0

/-- `texel_fetch_bilinear` at so many 256ths of a texel. The texel itself is mixed with
those on the nearer side of it. -/
def texelFetchBilinear (tex : Texture) (vram : Picture) (u v fracU fracV : Int) : Color :=
  let side (frac : Int) : Int := if frac < 128 then -1 else 1
  let far (frac : Int) : Int := min 128 |frac - 128|
  let u' := u + side fracU
  let v' := v + side fracV
  let fx := far fracU
  let fy := far fracV
  mixTexels [(r.blFetch tex vram u v, (256 - fx) * (256 - fy)),
    (r.blFetch tex vram u' v, fx * (256 - fy)), (r.blFetch tex vram u v', (256 - fx) * fy),
    (r.blFetch tex vram u' v', fx * fy)]

/-- What `put_textured` makes of a pixel that is inside, with a texel that is not
transparent. -/
def overlayTexel (texel old : Color) : Color :=
  if r.checkMask ∧ old.msb then old
  else
    let mix (k : Nat) (factor : Nat) : Int := min 31 (channel texel k * factor / 16)
    let c := if r.rawTexture then texel &&& 0x7FFF#16
      else rgb (mix 0 r.modR) (mix 1 r.modG) (mix 2 r.modB)
    let c := if r.semiTrans ∧ texel.msb then blendPixels old c r.semiMode else c
    if r.setMask then c ||| 0x8000#16 else c

/-- `put_textured`. -/
def putTextured (t : RTarget) (texel : Color) (p : Place) (old : Color) : Color :=
  if t.Inside p ∧ texel ≠ 0 then r.overlayTexel texel old else old

/-- The texel of `raster_textured_rect` for a column and a row of the rectangle, from some
picture. The coordinates are below 2048, where single precision tells the 256ths of a
texel as the integers do. -/
def rectTexel (scale : Nat) (u₀ v₀ : Int) (tex : Texture) (texels : Picture) (col row : Int) :
    Color :=
  let u := u₀ + col / scale
  let v := v₀ + row / scale
  if r.textureFilter then
    r.texelFetchBilinear tex texels u v (256 * (col % scale) / scale) (256 * (row % scale) / scale)
  else r.texelFetch tex texels (BitVec.ofInt 8 u) (BitVec.ofInt 8 v)

/-- The pixel of `raster_textured_rect` at a place, for texels of some picture. -/
@[grind =]
def texturedPixel (t : RTarget) (x y : Int) (u₀ v₀ : Int) (tex : Texture) (texels : Picture)
    (p : Place) (old : Color) : Color :=
  r.putTextured t (r.rectTexel t.scale u₀ v₀ tex texels (p.1 - x) (p.2 - y)) p old

/-- `psx_uv_axis_limits`. -/
def uvAxisLimits (lo hi dir : Int) : Int × Int :=
  let hi' := if 0 < dir ∧ lo < hi then hi - 1 else hi
  let lo' := if dir < 0 ∧ lo < hi then lo + 1 else lo
  if lo' / 256 = hi' / 256 then (lo' % 256, hi' % 256) else (0, 255)

/-- `psx_uv_rect_limits`. -/
def uvRectLimits (u₀ v₀ u₁ v₁ : Int) : UvLimits :=
  ⟨uvAxisLimits (min u₀ u₁) (max u₀ u₁) (u₁ - u₀), uvAxisLimits (min v₀ v₁) (max v₀ v₁) (v₁ - v₀)⟩

/-- `sw_rect_uv_limits`, for the filter only. -/
def rectUvLimits (u₀ v₀ : Int) (w h : Nat) : SwRenderer :=
  if r.textureFilter then { r with uvLimits := uvRectLimits u₀ v₀ (u₀ + w) (v₀ + h) } else r

/-- `raster_textured_rect` on VRAM, whose texels are read while it is drawn on, and on the
mirror, with the texels of VRAM as it then is. -/
def rasterTexturedRect (x y : Int) (w h : Nat) (u₀ v₀ : Int) (tex : Texture) : SwRenderer :=
  let vram := reading (fun v => r.texturedPixel r.rtNative x y u₀ v₀ tex v)
    (r.rtNative.rectPlaces x y w h) r.vram
  { r with
    vram := vram
    hr := r.onMirror (paint (r.texturedPixel r.rtHires (x * r.scale) (y * r.scale) u₀ v₀ tex vram)
      (r.rtHires.rectPlaces (x * r.scale) (y * r.scale) (w * r.scale) (h * r.scale))) }

/-- `sw_draw_textured_rect`. -/
def drawTexturedRect (x y : Int) (w h : Nat) (u₀ v₀ : Int) (tex : Texture) : SwRenderer :=
  (r.rectUvLimits u₀ v₀ w h).rasterTexturedRect x y w h u₀ v₀ tex

/-- `sw_set_draw_area`. -/
def setDrawArea (x1 y1 x2 y2 : Int) : SwRenderer :=
  { r with
    clipX1 := max 0 (min 1023 x1)
    clipY1 := max 0 (min 511 y1)
    clipX2 := max 0 (min 1023 x2)
    clipY2 := max 0 (min 511 y2) }

/-- `sw_set_semi_transparency`. -/
def setSemiTransparency (enabled : Bool) (mode : Int) : SwRenderer :=
  { r with semiTrans := enabled, semiMode := BitVec.ofInt 2 mode }

/-- `sw_set_mask_bits`. -/
def setMaskBits (setBit checkBit : Bool) : SwRenderer :=
  { r with setMask := setBit, checkMask := checkBit }

/-- `sw_set_texture_window`. -/
def setTextureWindow (raw : BitVec 32) : SwRenderer :=
  { r with
    twMaskX := raw.extractLsb' 0 5
    twMaskY := raw.extractLsb' 5 5
    twOffX := raw.extractLsb' 10 5
    twOffY := raw.extractLsb' 15 5 }

/-- `sw_set_texture_filter`. -/
def setTextureFilter (bilinear : Bool) : SwRenderer := { r with textureFilter := bilinear }

/-- `sw_set_color_modulation`. -/
def setColorModulation (red green blue : BitVec 8) (raw : Bool) : SwRenderer :=
  { r with
    modR := red.toNat / 8
    modG := green.toNat / 8
    modB := blue.toNat / 8
    rawTexture := raw }

/-- `rgb555_to_argb`. -/
def argb (c : Color) : BitVec 32 :=
  let wide (k : Nat) : BitVec 32 :=
    ((c.extractLsb' (5 * k) 5).setWidth 32 <<< 3) ||| ((c.extractLsb' (5 * k) 5).setWidth 32 >>> 2)
  (wide 0 <<< 16) ||| (wide 1 <<< 8) ||| wide 2 ||| 0xFF000000#32

/-- `sw_render_display`: the pixel of a row and a column. -/
def renderDisplay (x y : Nat) (row col : Nat) : BitVec 32 :=
  argb (vramGet r.vram (x + col : Nat) (y + row : Nat))

/-- `sw_render_display_hires`. -/
def renderDisplayHires (x y : Nat) (row col : Nat) : BitVec 32 :=
  if r.HasMirror then
    argb (r.hr (((x * r.scale + col : Nat) : Int) % (1024 * r.scale),
      ((y * r.scale + row : Nat) : Int) % (512 * r.scale)))
  else r.renderDisplay x y row col

end SwRenderer

end RecompStudio.Gpu
