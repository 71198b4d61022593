import RecompStudio.Gpu.SwRenderer
import Mathlib.Algebra.Order.Group.Int
import Mathlib.Data.Int.Order.Basic
import Mathlib.Tactic.Ring

/-!
The mirror of the software renderer: every operation that works on blocks, flat
rectangles and lines leaves each of its cells with the colour of the native pixel that
the cell is of.
-/

namespace RecompStudio.Gpu

open RecompStudio.Painting

/-- The native pixel of a cell. -/
def origin (s : Nat) (q : Place) : Place := (q.1 / s, q.2 / s)

/-- The cells of the mirror. -/
def IsCell (s : Nat) (q : Place) : Prop := (0 ≤ q.1 ∧ q.1 < 1024 * s) ∧ 0 ≤ q.2 ∧ q.2 < 512 * s

/-- The places of VRAM. -/
def IsPixel (p : Place) : Prop := (0 ≤ p.1 ∧ p.1 < 1024) ∧ 0 ≤ p.2 ∧ p.2 < 512

/-- The mirror, if there is one, is VRAM enlarged. -/
structure Coherent (s : Nat) (r : SwRenderer) : Prop where
  scale : r.scale = s
  mirror : r.HasMirror → Enlarges (origin s) (IsCell s) r.hr r.vram

theorem freshRenderer_coherent (scale : Int) :
    Coherent (freshRenderer scale).scale (freshRenderer scale) :=
  ⟨rfl, fun _ _ _ => rfl⟩

theorem isPixel_wrap (x y : Int) : IsPixel (SwRenderer.wrapX x, SwRenderer.wrapY y) := by
  unfold IsPixel SwRenderer.wrapX SwRenderer.wrapY
  dsimp only
  omega

section Cells

variable {s : Nat}

theorem ediv_eq_iff (hs : 0 < s) {a b : Int} : a / s = b ↔ ∃ d < s, b * s + (d : Nat) = a := by
  have hPos : (0 : Int) < s := by exact_mod_cast hs
  constructor
  · rintro rfl
    have hMod := Int.emod_lt_of_pos a hPos
    have hNonneg := Int.emod_nonneg a hPos.ne'
    refine ⟨(a % s).toNat, by omega, ?_⟩
    rw [Int.toNat_of_nonneg hNonneg]
    exact Int.ediv_mul_add_emod a s
  · rintro ⟨d, hd, rfl⟩
    rw [Int.add_comm, Int.add_mul_ediv_right _ _ hPos.ne', Int.ediv_eq_zero_of_lt (by omega)
      (by omega), Int.zero_add]

/-- A cell is one of the `s * s` of the pixel that it is of. -/
theorem origin_eq_iff (hs : 0 < s) {p q : Place} : origin s q = p ↔
    ∃ d ∈ grid s s Prod.mk, ((p.1 * s + (d.1 : Nat), p.2 * s + (d.2 : Nat)) : Place) = q := by
  rw [Prod.ext_iff]
  simp only [origin, ediv_eq_iff hs, mem_grid, Prod.ext_iff]
  constructor
  · rintro ⟨⟨dx, hx, hX⟩, dy, hy, hY⟩
    exact ⟨(dx, dy), ⟨dx, hx, dy, hy, rfl, rfl⟩, hX, hY⟩
  · rintro ⟨d, ⟨dx, hx, dy, hy, rfl, rfl⟩, hX, hY⟩
    exact ⟨⟨d.1, hx, hX⟩, d.2, hy, hY⟩

theorem le_ediv_iff (hs : 0 < s) {a b : Int} : a ≤ b / s ↔ a * s ≤ b :=
  Int.le_ediv_iff_mul_le (by exact_mod_cast hs)

theorem ediv_lt_iff (hs : 0 < s) {a b : Int} : b / s < a ↔ b < a * s :=
  Int.ediv_lt_iff_lt_mul (by exact_mod_cast hs)

/-- The last cell of a pixel still belongs to it. -/
theorem ediv_le_iff (hs : 0 < s) {a b : Int} : b / s ≤ a ↔ b ≤ a * s + (s - 1) := by
  rw [← Int.lt_add_one_iff, ediv_lt_iff hs, Int.add_mul]
  omega

/-- Cells that wrap at the edge of the mirror are of pixels that wrap at the edge of
VRAM. -/
theorem emod_scaled (hs : 0 < s) (a n : Int) (hn : 0 < n) {d : Nat} (hd : d < s) :
    (a * s + (d : Nat)) % (n * s) = a % n * s + (d : Nat) := by
  have hPos : (0 : Int) < s := by exact_mod_cast hs
  have hSplit : a * s + (d : Nat) = a % n * s + (d : Nat) + n * s * (a / n) := by
    have hDivMod := Int.ediv_mul_add_emod a n
    calc a * s + (d : Nat) = (a / n * n + a % n) * s + (d : Nat) := by rw [hDivMod]
      _ = a % n * s + (d : Nat) + n * s * (a / n) := by ring
  have hLow := Int.emod_nonneg a hn.ne'
  have hHigh : a % n + 1 ≤ n := Int.emod_lt_of_pos a hn
  have hBound : (a % n + 1) * s ≤ n * s := Int.mul_le_mul_of_nonneg_right hHigh hPos.le
  rw [hSplit, Int.add_mul_emod_self_left]
  refine Int.emod_eq_of_lt (Int.add_nonneg (Int.mul_nonneg hLow hPos.le) (by omega)) ?_
  rw [Int.add_mul, Int.one_mul] at hBound
  omega

/-- A cell of a scaled run of places, which wraps, is of a place of the run. -/
theorem run_iff (hs : 0 < s) {n : Int} (hn : 0 < n) (x a : Int) (w : Nat) :
    (∃ c < w * s, (x * s + (c : Nat)) % (n * s) = a) ↔ ∃ c < w, (x + (c : Nat)) % n = a / s := by
  have hCell (c d : Nat) : x * s + ((c * s + d : Nat) : Int) = (x + c) * s + (d : Nat) := by
    push_cast
    ring
  constructor
  · rintro ⟨c, hc, rfl⟩
    refine ⟨c / s, (Nat.div_lt_iff_lt_mul hs).mpr hc, ?_⟩
    have hMod := Nat.mod_lt c hs
    rw [eq_comm, ediv_eq_iff hs]
    refine ⟨c % s, hMod, ?_⟩
    rw [← emod_scaled hs _ n hn hMod, ← hCell, Nat.div_add_mod']
  · rintro ⟨c, hc, hPlace⟩
    obtain ⟨d, hd, rfl⟩ := (ediv_eq_iff hs).mp hPlace.symm
    refine ⟨c * s + d, ?_, ?_⟩
    · calc c * s + d < c * s + s := by omega
        _ = (c + 1) * s := (Nat.succ_mul c s).symm
        _ ≤ w * s := Nat.mul_le_mul_right s hc
    · rw [hCell, emod_scaled hs _ n hn hd]

end Cells

namespace SwRenderer

variable {r : SwRenderer} {s : Nat}

theorem mem_block_iff (p q : Place) : (∃ d ∈ r.offsets, r.block p d = q) ↔ origin r.scale q = p :=
  (origin_eq_iff r.scale_pos).symm

/-- No block of a pixel of VRAM wraps. -/
theorem wrappedBlock_eq {p : Place} (hp : IsPixel p) {d : Nat × Nat} (hd : d ∈ r.offsets) :
    r.wrappedBlock p d = r.block p d := by
  obtain ⟨dx, hx, dy, hy, rfl⟩ := mem_grid.mp hd
  obtain ⟨⟨hX, hX'⟩, hY, hY'⟩ := hp
  have hCol := emod_scaled r.scale_pos p.1 1024 (by decide) hx
  have hRow := emod_scaled r.scale_pos p.2 512 (by decide) hy
  rw [Int.emod_eq_of_lt hX hX'] at hCol
  rw [Int.emod_eq_of_lt hY hY'] at hRow
  exact Prod.ext hCol hRow

theorem mem_wrappedBlock_iff {p : Place} (hp : IsPixel p) (q : Place) :
    (∃ d ∈ r.offsets, r.wrappedBlock p d = q) ↔ origin r.scale q = p := by
  rw [← mem_block_iff]
  exact exists_congr fun d => and_congr_right fun hd => by rw [wrappedBlock_eq hp hd]

theorem nodup_block (p : Place) : (r.offsets.map (r.block p)).Nodup := by
  refine List.Nodup.map (fun d d' h => ?_) (nodup_grid fun _ _ _ _ h => Prod.mk.inj h)
  have hX := congrArg Prod.fst h
  have hY := congrArg Prod.snd h
  simp only [block] at hX hY
  exact Prod.ext (by omega) (by omega)

/-- A cell is inside the clip rectangle of the mirror if its pixel is inside the native
one. -/
theorem inside_iff (q : Place) : r.rtHires.Inside q ↔ r.rtNative.Inside (origin r.scale q) := by
  have hs := r.scale_pos
  have hOne (a : Int) : a * ((1 : Nat) : Int) = a := by simp
  simp only [RTarget.Inside, rtHires, rtNative, origin, le_ediv_iff hs, ediv_le_iff hs, hOne]
  rw [ediv_lt_iff hs, ediv_lt_iff hs, Int.zero_mul]

theorem putOpaque_hires (color : Color) (q : Place) :
    r.putOpaque r.rtHires color q = r.putOpaque r.rtNative color (origin r.scale q) := by
  funext old
  unfold putOpaque
  rw [if_congr (inside_iff q) rfl rfl]

theorem mem_rectPlaces {t : RTarget} {x y : Int} {w k : Nat} {q : Place} :
    q ∈ t.rectPlaces x y w k ↔ (x ≤ q.1 ∧ q.1 < x + w ∧ y ≤ q.2 ∧ q.2 < y + k) ∧
      t.cy1 ≤ q.2 ∧ q.2 ≤ t.cy2 ∧ t.cx1 ≤ q.1 ∧ q.1 ≤ t.cx2 := by
  rw [RTarget.rectPlaces, List.mem_filter, mem_grid, decide_eq_true_eq]
  refine and_congr_left fun _ => ?_
  constructor
  · rintro ⟨c, hc, d, hd, rfl⟩
    dsimp only
    omega
  · rintro ⟨hX, hX', hY, hY'⟩
    refine ⟨(q.1 - x).toNat, by omega, (q.2 - y).toNat, by omega, Prod.ext ?_ ?_⟩
    · dsimp only
      omega
    · dsimp only
      omega

theorem mem_rectPlaces_hires {x y : Int} {w k : Nat} {q : Place} :
    q ∈ r.rtHires.rectPlaces (x * r.scale) (y * r.scale) (w * r.scale) (k * r.scale) ↔
      origin r.scale q ∈ r.rtNative.rectPlaces x y w k := by
  have hs := r.scale_pos
  have hW : x * r.scale + ((w * r.scale : Nat) : Int) = (x + w) * r.scale := by
    push_cast
    ring
  have hK : y * r.scale + ((k * r.scale : Nat) : Int) = (y + k) * r.scale := by
    push_cast
    ring
  simp only [mem_rectPlaces, rtHires, rtNative, origin, le_ediv_iff hs, ediv_le_iff hs,
    ediv_lt_iff hs, hW, hK]

theorem nodup_rectPlaces (t : RTarget) (x y : Int) (w k : Nat) : (t.rectPlaces x y w k).Nodup := by
  refine (nodup_grid fun c d c' d' h => ?_).filter _
  have hX := congrArg Prod.fst h
  have hY := congrArg Prod.snd h
  dsimp only at hX hY
  omega

/-- What a texel is read from, for a picture that has the same colours there. -/
theorem texelFetch_congr {tex : Texture} {v v' : Picture} {u₀ v₀ : BitVec 8}
    (hWord : v' (r.texelPlaces tex v u₀ v₀).1 = v (r.texelPlaces tex v u₀ v₀).1)
    (hColor : v' (r.texelPlaces tex v u₀ v₀).2 = v (r.texelPlaces tex v u₀ v₀).2) :
    r.texelFetch tex v' u₀ v₀ = r.texelFetch tex v u₀ v₀ := by
  have hPlaces : r.texelPlaces tex v' u₀ v₀ = r.texelPlaces tex v u₀ v₀ := by
    unfold texelPlaces at hWord ⊢
    dsimp only at hWord ⊢
    split at hWord
    · rw [hWord]
    · rw [hWord]
    · rfl
  rw [texelFetch, texelFetch, hPlaces, hColor]

/-- A rectangle that is drawn neither on its texture nor on its palette. -/
def Apart (r : SwRenderer) (x y : Int) (w k : Nat) (u₀ v₀ : Int) (tex : Texture) : Prop :=
  ∀ p ∈ r.rtNative.rectPlaces x y w k,
    let read := r.texelPlaces tex r.vram (BitVec.ofInt 8 (u₀ + (p.1 - x)))
      (BitVec.ofInt 8 (v₀ + (p.2 - y)))
    read.1 ∉ r.rtNative.rectPlaces x y w k ∧ read.2 ∉ r.rtNative.rectPlaces x y w k

/-- The pixels of such a rectangle do not depend on how much of it is drawn. -/
theorem texturedPixel_of_apart (hOff : r.textureFilter = false) {x y : Int} {w k : Nat}
    {u₀ v₀ : Int} {tex : Texture}
    (hApart : Apart r x y w k u₀ v₀ tex) {v : Picture}
    (hv : ∀ q, q ∉ r.rtNative.rectPlaces x y w k → v q = r.vram q) {p : Place}
    (hp : p ∈ r.rtNative.rectPlaces x y w k) :
    r.texturedPixel r.rtNative x y u₀ v₀ tex v p =
        r.texturedPixel r.rtNative x y u₀ v₀ tex r.vram p := by
  obtain ⟨hWord, hColor⟩ := hApart p hp
  have hOne : ((r.rtNative.scale : Nat) : Int) = 1 := rfl
  have hFetch := texelFetch_congr (hv _ hWord) (hv _ hColor)
  funext old
  unfold texturedPixel rectTexel
  dsimp only
  rw [hOff, if_neg Bool.false_ne_true, if_neg Bool.false_ne_true, hOne, Int.ediv_one, Int.ediv_one,
    hFetch]

theorem putTextured_hires (texel : Color) (q : Place) :
    r.putTextured r.rtHires texel q = r.putTextured r.rtNative texel (origin r.scale q) := by
  funext old
  unfold putTextured
  rw [if_congr (and_congr_left' (inside_iff q)) rfl rfl]

/-- A cell has the texel of its pixel. -/
theorem texturedPixel_hires (hOff : r.textureFilter = false) (x y : Int) (u₀ v₀ : Int)
    (tex : Texture) (v : Picture) (q : Place) :
    r.texturedPixel r.rtHires (x * r.scale) (y * r.scale) u₀ v₀ tex v q =
      r.texturedPixel r.rtNative x y u₀ v₀ tex v (origin r.scale q) := by
  have hPos : (r.scale : Int) ≠ 0 := by
    have := r.scale_pos
    omega
  have hDiv (a b : Int) :
      (a - b * r.scale) / (r.rtHires.scale : Nat) =
          (a / r.scale - b) / (r.rtNative.scale : Nat) := by
    calc (a - b * r.scale) / (r.rtHires.scale : Nat) = a / r.scale - b :=
          Int.sub_mul_ediv_right _ _ hPos
      _ = (a / r.scale - b) / (r.rtNative.scale : Nat) := (Int.ediv_one _).symm
  funext old
  unfold texturedPixel rectTexel
  dsimp only
  rw [hOff, if_neg Bool.false_ne_true, if_neg Bool.false_ne_true, hDiv, hDiv, putTextured_hires]
  rfl

end SwRenderer

namespace Coherent

open SwRenderer

variable {r : SwRenderer} {s : Nat}

/-- The colour of one pixel, on VRAM and on its cells. -/
theorem stampPixel (h : Coherent s r) {p : Place} {c : Color}
    {place : Nat × Nat → Place} {color : Nat × Nat → Color}
    (hColor : r.HasMirror → ∀ d ∈ r.offsets, color d = c)
    (hMem : ∀ q, (∃ d ∈ r.offsets, place d = q) ↔ origin r.scale q = p) :
    Coherent s { r with
      vram := Function.update r.vram p c
      hr := r.onMirror (stamp place color r.offsets) } := by
  obtain ⟨rfl, hMirror⟩ := h
  refine ⟨rfl, fun hHas => ?_⟩
  change Enlarges _ _ (r.onMirror _) _
  rw [onMirror, if_pos (show r.HasMirror from hHas)]
  exact (hMirror hHas).stamp (hColor hHas) fun q _ => hMem q

theorem vramWrite (h : Coherent s r) (x y : Int) (pixel : Color) :
    Coherent s (r.vramWrite x y pixel) :=
  h.stampPixel (fun _ _ _ => rfl) (mem_block_iff _)

theorem transferPixel (h : Coherent s r) {p : Place} (hp : IsPixel p) (pixel : Color) :
    Coherent s (r.transferPixel p pixel) :=
  h.stampPixel (fun _ _ _ => rfl) (mem_wrappedBlock_iff hp)

theorem foldl {ι : Type} {f : SwRenderer → ι → SwRenderer} (h : Coherent s r)
    (is : List ι) (hStep : ∀ r i, Coherent s r → Coherent s (f r i)) :
    Coherent s (is.foldl f r) := by
  induction is generalizing r with
  | nil => exact h
  | cons i is ih => exact ih (hStep r i h)

theorem vramTransferIn (h : Coherent s r) (x y : Int) (w k : Nat) (data : Nat → Color) :
    Coherent s (r.vramTransferIn x y w k data) :=
  h.foldl _ fun _ _ h => h.transferPixel (isPixel_wrap _ _) _

theorem fillRect (h : Coherent s r) (x y : Int) (w k : Nat) (color : Color) :
    Coherent s (r.fillRect x y w k color) := by
  obtain ⟨rfl, hMirror⟩ := h
  refine ⟨rfl, fun hHas => ?_⟩
  change Enlarges _ _ (r.onMirror _) _
  rw [onMirror, if_pos (show r.HasMirror from hHas)]
  refine (hMirror hHas).fill color fun q _ => ?_
  have hX := run_iff r.scale_pos (n := 1024) (by decide) (wrapX x) q.1 w
  have hY := run_iff r.scale_pos (n := 512) (by decide) (wrapY y) q.2 k
  rw [mem_grid, mem_grid]
  simp only [Prod.ext_iff, origin]
  constructor
  · rintro ⟨c, hc, d, hd, hC, hD⟩
    obtain ⟨c', hc', hC'⟩ := hX.mp ⟨c, hc, hC⟩
    obtain ⟨d', hd', hD'⟩ := hY.mp ⟨d, hd, hD⟩
    exact ⟨c', hc', d', hd', hC', hD'⟩
  · rintro ⟨c, hc, d, hd, hC, hD⟩
    obtain ⟨c', hc', hC'⟩ := hX.mpr ⟨c, hc, hC⟩
    obtain ⟨d', hd', hD'⟩ := hY.mpr ⟨d, hd, hD⟩
    exact ⟨c', hc', d', hd', hC', hD'⟩

/-- A row is copied from VRAM and from the mirror as they were before it. -/
theorem copyRow (h : Coherent s r) (srcX srcY dstX dstY : Int) (w row : Nat) :
    Coherent s (r.copyRow srcX srcY dstX dstY w row) := by
  refine h.foldl _ fun r' col h' => ?_
  unfold copyPixel
  split
  · exact h'
  · refine h'.stampPixel (fun hHas d hd => congrArg r'.copied ?_)
      (mem_wrappedBlock_iff (isPixel_wrap _ _))
    have hSame : r'.scale = r.scale := h'.scale.trans h.scale.symm
    have hOffsets : r'.offsets = r.offsets := by rw [offsets, offsets, hSame]
    have hHas' : r.HasMirror := by
      unfold HasMirror at hHas ⊢
      rwa [← hSame]
    have hSource := isPixel_wrap (srcX + (col : Nat)) (srcY + row)
    rw [hOffsets] at hd
    have hOrigin := (mem_wrappedBlock_iff hSource _).mp ⟨d, hd, rfl⟩
    have hMirror := h.mirror hHas'
    rw [← h.scale] at hMirror
    -- the cell that is read lies in the mirror
    have hPos : (0 : Int) < r.scale := by exact_mod_cast r.scale_pos
    have hCell := hMirror (r.wrappedBlock (wrapX (srcX + (col : Nat)), wrapY (srcY + row)) d)
      ⟨⟨Int.emod_nonneg _ (by omega), Int.emod_lt_of_pos _ (by omega)⟩,
        Int.emod_nonneg _ (by omega), Int.emod_lt_of_pos _ (by omega)⟩
    rw [hOrigin] at hCell
    exact hCell

theorem copyRect (h : Coherent s r) (srcX srcY dstX dstY : Int) (w k : Nat) :
    Coherent s (r.copyRect srcX srcY dstX dstY w k) :=
  h.foldl _ fun _ row h => h.copyRow srcX srcY dstX dstY w row

theorem drawFlatRect (h : Coherent s r) (x y : Int) (w k : Nat) (color : Color) :
    Coherent s (r.drawFlatRect x y w k color) := by
  obtain ⟨rfl, hMirror⟩ := h
  refine ⟨rfl, fun hHas => ?_⟩
  change Enlarges _ _ (r.onMirror _) _
  rw [onMirror, if_pos (show r.HasMirror from hHas)]
  exact (hMirror hHas).paint (fun q _ _ => putOpaque_hires color q) (nodup_rectPlaces _ _ _ _ _)
    (nodup_rectPlaces _ _ _ _ _) fun q _ => mem_rectPlaces_hires

/-- A rectangle with a texture that it leaves as it is, and that is not filtered. -/
theorem drawTexturedRect (h : Coherent s r) {x y : Int} {w k : Nat} {u₀ v₀ : Int} {tex : Texture}
    (hOff : r.textureFilter = false) (hApart : Apart r x y w k u₀ v₀ tex) :
    Coherent s (r.drawTexturedRect x y w k u₀ v₀ tex) := by
  rw [SwRenderer.drawTexturedRect, rectUvLimits, hOff, if_neg Bool.false_ne_true]
  obtain ⟨rfl, hMirror⟩ := h
  have hNative : (r.rasterTexturedRect x y w k u₀ v₀ tex).vram =
      paint (r.texturedPixel r.rtNative x y u₀ v₀ tex r.vram)
          (r.rtNative.rectPlaces x y w k) r.vram :=
    reading_eq_paint fun v hv p hp => texturedPixel_of_apart hOff hApart hv hp
  -- The mirror is drawn on last, with the texels of VRAM as it then is.
  have hAfter : ∀ q, q ∉ r.rtNative.rectPlaces x y w k →
      (r.rasterTexturedRect x y w k u₀ v₀ tex).vram q = r.vram q := by
    intro q hq
    rw [hNative, paint_of_notMem _ _ hq]
  refine ⟨rfl, fun hHas => ?_⟩
  change Enlarges _ _ (r.onMirror (paint (r.texturedPixel _ _ _ _ _ _
    (r.rasterTexturedRect x y w k u₀ v₀ tex).vram) _)) _
  rw [onMirror, if_pos (show r.HasMirror from hHas), hNative]
  rw [hNative] at hAfter
  refine (hMirror hHas).paint (fun q hq _ => ?_) (nodup_rectPlaces _ _ _ _ _)
    (nodup_rectPlaces _ _ _ _ _) fun q _ => mem_rectPlaces_hires
  rw [texturedPixel_hires hOff,
    texturedPixel_of_apart hOff hApart hAfter (mem_rectPlaces_hires.1 hq)]

theorem plot (h : Coherent s r) (p : Place) (color : Color) :
    Coherent s (r.plot p color) := by
  obtain ⟨rfl, hMirror⟩ := h
  refine ⟨rfl, fun hHas => ?_⟩
  change Enlarges _ _ (r.onMirror _) _
  rw [onMirror, if_pos (show r.HasMirror from hHas)]
  refine (hMirror hHas).paint (fun q _ _ => putOpaque_hires color q) (nodup_block p)
    (List.nodup_singleton p) fun q _ => ?_
  rw [List.mem_singleton, ← mem_block_iff, List.mem_map]

end Coherent

end RecompStudio.Gpu
