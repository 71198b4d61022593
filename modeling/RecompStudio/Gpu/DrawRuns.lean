import RecompStudio.Gpu.Line
import RecompStudio.Gpu.Mirror

/-!
Runs of the software renderer: whatever is drawn, VRAM is the same at every internal
scale, and the display of the mirror is the display of VRAM enlarged.
-/

namespace RecompStudio.Gpu

open RecompStudio.Painting

/-- What the renderer is called with. -/
inductive Draw where
  | vramWrite (x y : Int) (pixel : Color)
  | vramTransferIn (x y : Int) (w h : Nat) (data : Nat → Color)
  | fillRect (x y : Int) (w h : Nat) (color : Color)
  | copyRect (srcX srcY dstX dstY : Int) (w h : Nat)
  | flatRect (x y : Int) (w h : Nat) (color : Color)
  | texturedRect (x y : Int) (w h : Nat) (u v : Int) (tex : SwRenderer.Texture)
  | line (x0 y0 x1 y1 : Int) (color : Color)
  | shadedLine (x0 y0 : Int) (c0 : Color) (x1 y1 : Int) (c1 : Color)
  | drawArea (x1 y1 x2 y2 : Int)
  | semiTransparency (enabled : Bool) (mode : Int)
  | maskBits (setBit checkBit : Bool)
  | textureWindow (raw : BitVec 32)
  | textureFilter (bilinear : Bool)
  | colorModulation (red green blue : BitVec 8) (raw : Bool)

namespace SwRenderer

def draw (r : SwRenderer) : Draw → SwRenderer
  | .vramWrite x y pixel => r.vramWrite x y pixel
  | .vramTransferIn x y w h data => r.vramTransferIn x y w h data
  | .fillRect x y w h color => r.fillRect x y w h color
  | .copyRect srcX srcY dstX dstY w h => r.copyRect srcX srcY dstX dstY w h
  | .flatRect x y w h color => r.drawFlatRect x y w h color
  | .texturedRect x y w h u v tex => r.drawTexturedRect x y w h u v tex
  | .line x0 y0 x1 y1 color => r.drawLine x0 y0 x1 y1 color
  | .shadedLine x0 y0 c0 x1 y1 c1 => r.drawShadedLine x0 y0 c0 x1 y1 c1
  | .drawArea x1 y1 x2 y2 => r.setDrawArea x1 y1 x2 y2
  | .semiTransparency enabled mode => r.setSemiTransparency enabled mode
  | .maskBits setBit checkBit => r.setMaskBits setBit checkBit
  | .textureWindow raw => r.setTextureWindow raw
  | .textureFilter bilinear => r.setTextureFilter bilinear
  | .colorModulation red green blue raw => r.setColorModulation red green blue raw

def run (r : SwRenderer) (draws : List Draw) : SwRenderer := draws.foldl draw r

/-- No textured rectangle is filtered, or drawn on its own texture or palette. -/
def AllApart (r : SwRenderer) : List Draw → Prop
  | [] => True
  | d :: draws =>
      (match d with
        | .texturedRect x y w h u v tex =>
            r.textureFilter = false ∧ Apart r x y w h u v tex
        | _ => True) ∧ AllApart (r.draw d) draws

/-- The renderer without a mirror. -/
def native (r : SwRenderer) : SwRenderer :=
  { r with hr := fun _ => 0, scale := 1, scale_pos := Nat.one_pos }

theorem native_foldl {ι : Type} {f g : SwRenderer → ι → SwRenderer} (is : List ι) (r : SwRenderer)
    (hStep : ∀ r i, (f r i).native = g r.native i) :
    (is.foldl f r).native = is.foldl g r.native := by
  induction is generalizing r with
  | nil => rfl
  | cons i is ih => rw [List.foldl_cons, List.foldl_cons, ih, hStep]

theorem native_copyPixel (r : SwRenderer) (p : Place) (color : Color)
    (cells cells' : Nat × Nat → Color) :
    (r.copyPixel p color cells).native = r.native.copyPixel p color cells' := by
  unfold copyPixel
  change SwRenderer.native (if r.checkMask ∧ (r.vram p).msb then _ else _) =
    if r.checkMask ∧ (r.vram p).msb then _ else _
  split
  · rfl
  · rfl

theorem native_copyRow (r : SwRenderer) (srcX srcY dstX dstY : Int) (w row : Nat) :
    (r.copyRow srcX srcY dstX dstY w row).native = r.native.copyRow srcX srcY dstX dstY w row :=
  native_foldl _ r fun r' _ => native_copyPixel r' _ _ _ _

theorem native_texturedRect (r : SwRenderer) (x y : Int) (w h : Nat) (u v : Int) (tex : Texture) :
    (r.drawTexturedRect x y w h u v tex).native = r.native.drawTexturedRect x y w h u v tex := by
  unfold drawTexturedRect rectUvLimits
  change SwRenderer.native (rasterTexturedRect (if r.textureFilter then _ else _) _ _ _ _ _ _ _) =
    rasterTexturedRect (if r.textureFilter then _ else _) _ _ _ _ _ _ _
  split
  · rfl
  · rfl

theorem native_draw (r : SwRenderer) (d : Draw) : (r.draw d).native = r.native.draw d := by
  cases d with
  | vramWrite => rfl
  | vramTransferIn => exact native_foldl _ r fun _ _ => rfl
  | fillRect => rfl
  | copyRect => exact native_foldl _ r fun r _ => native_copyRow r _ _ _ _ _ _
  | flatRect => rfl
  | texturedRect => exact native_texturedRect r _ _ _ _ _ _ _
  | line => exact native_foldl _ r fun _ _ => rfl
  | shadedLine => exact native_foldl _ r fun _ _ => rfl
  | drawArea => rfl
  | semiTransparency => rfl
  | maskBits => rfl
  | textureWindow => rfl
  | textureFilter => rfl
  | colorModulation => rfl

theorem native_run (r : SwRenderer) (draws : List Draw) :
    (r.run draws).native = r.native.run draws :=
  native_foldl draws r native_draw

end SwRenderer

open SwRenderer

theorem Coherent.draw {s : Nat} {r : SwRenderer} (h : Coherent s r) {d : Draw} {draws : List Draw}
    (hApart : AllApart r (d :: draws)) : Coherent s (r.draw d) := by
  cases d with
  | vramWrite => exact h.vramWrite _ _ _
  | vramTransferIn => exact h.vramTransferIn _ _ _ _ _
  | fillRect => exact h.fillRect _ _ _ _ _
  | copyRect => exact h.copyRect _ _ _ _ _ _
  | flatRect => exact h.drawFlatRect _ _ _ _ _
  | texturedRect => exact h.drawTexturedRect hApart.1.1 hApart.1.2
  | line => exact h.foldl _ fun _ _ h => h.plot _ _
  | shadedLine => exact h.foldl _ fun _ _ h => h.plot _ _
  | drawArea => exact ⟨h.scale, h.mirror⟩
  | semiTransparency => exact ⟨h.scale, h.mirror⟩
  | maskBits => exact ⟨h.scale, h.mirror⟩
  | textureWindow => exact ⟨h.scale, h.mirror⟩
  | textureFilter => exact ⟨h.scale, h.mirror⟩
  | colorModulation => exact ⟨h.scale, h.mirror⟩

theorem AllApart.of_native {r : SwRenderer} {draws : List Draw} (h : AllApart r.native draws) :
    AllApart r draws := by
  induction draws generalizing r with
  | nil => trivial
  | cons d draws ih =>
      obtain ⟨hHere, hRest⟩ := h
      rw [← native_draw] at hRest
      refine ⟨?_, ih hRest⟩
      cases d with
      | texturedRect => exact hHere
      | _ => trivial

theorem Coherent.run {s : Nat} {r : SwRenderer} (h : Coherent s r) {draws : List Draw}
    (hApart : AllApart r draws) : Coherent s (r.run draws) := by
  induction draws generalizing r with
  | nil => exact h
  | cons d draws ih => exact ih (h.draw hApart) hApart.2

/-- The display of a mirror that is VRAM enlarged. -/
theorem Coherent.display {s : Nat} {r : SwRenderer} (h : Coherent s r) (x y row col : Nat) :
    r.renderDisplayHires x y row col = r.renderDisplay x y (row / s) (col / s) := by
  obtain ⟨rfl, hMirror⟩ := h
  have hs := r.scale_pos
  have hPos : (0 : Int) < r.scale := by exact_mod_cast hs
  unfold renderDisplayHires
  split
  · next hHas =>
    have hWrap (n : Int) (hn : 0 < n) (a b : Nat) :
        (((a * r.scale + b : Nat) : Int) % (n * r.scale)) / r.scale =
          ((a + b / r.scale : Nat) : Int) % n := by
      have hMod := Nat.mod_lt b hs
      have hSplit : ((a * r.scale + b : Nat) : Int) =
          ((a + b / r.scale : Nat) : Int) * r.scale + (b % r.scale : Nat) := by
        have hDivMod := Nat.div_add_mod' b r.scale
        rw [← Nat.cast_mul, ← Nat.cast_add, Nat.add_mul, Nat.add_assoc, hDivMod]
      rw [hSplit, emod_scaled hs _ n hn hMod, ediv_eq_iff hs]
      exact ⟨_, hMod, rfl⟩
    rw [hMirror hHas _ ⟨⟨Int.emod_nonneg _ (by omega), Int.emod_lt_of_pos _ (by omega)⟩,
        Int.emod_nonneg _ (by omega), Int.emod_lt_of_pos _ (by omega)⟩]
    unfold origin renderDisplay vramGet wrapX wrapY
    rw [hWrap 1024 (by decide), hWrap 512 (by decide)]
  · next hHas =>
    have hOne : r.scale = 1 := by
      unfold HasMirror at hHas
      omega
    rw [hOne, Nat.div_one, Nat.div_one]

/-- Every list of draws leaves the same VRAM at every internal scale. As long as no
textured rectangle is filtered, or drawn on its own texture, every pixel of the enlarged
display is the pixel of the display at scale one that it is of. -/
theorem display_enlarged (scale : Int) (draws : List Draw) :
    ((freshRenderer scale).run draws).vram = ((freshRenderer 1).run draws).vram ∧
      (AllApart (freshRenderer 1) draws → ∀ x y row col : Nat,
        ((freshRenderer scale).run draws).renderDisplayHires x y row col =
          ((freshRenderer 1).run draws).renderDisplay x y (row / (freshRenderer scale).scale)
            (col / (freshRenderer scale).scale)) := by
  have hNative : ((freshRenderer scale).run draws).native = (freshRenderer 1).run draws :=
    native_run (freshRenderer scale) draws
  constructor
  · have hVram := congrArg SwRenderer.vram hNative
    exact hVram
  · intro hApart x y row col
    have hCoherent := (freshRenderer_coherent scale).run
      (AllApart.of_native (r := freshRenderer scale) hApart)
    rw [hCoherent.display, ← hNative]
    rfl

/-- A sprite of one pixel at an internal scale of two. -/
theorem display_enlarged_sprite :
    ((freshRenderer 2).run
        [.fillRect 0 0 1 1 0x001F, .texturedRect 8 8 1 1 0 0 ⟨0x0100, 0, 0⟩]).renderDisplayHires
        0 0 17 16 = 0xFFFF0000#32 := by
  have hDisplay := (display_enlarged 2
    [.fillRect 0 0 1 1 0x001F, .texturedRect 8 8 1 1 0 0 ⟨0x0100, 0, 0⟩]).2
    ⟨trivial, ⟨rfl, by unfold Apart; decide⟩, trivial⟩ 0 0 17 16
  exact hDisplay.trans (by decide)

end RecompStudio.Gpu
