import RecompStudio.Gte.Flags

/-!
Which accumulators a command meets, stage by stage, and from it the exact
condition under which its flags mean what is documented.
-/

namespace RecompStudio.Gte

local instance neZero_axes : NeZero 3 := ⟨by decide⟩

section Bounds

variable {a b : BitVec 16}

theorem toInt16_bounds (a : BitVec 16) : -2 ^ 15 ≤ a.toInt ∧ a.toInt < 2 ^ 15 :=
  ⟨BitVec.le_toInt a, BitVec.toInt_lt⟩

theorem mul_bounds (a b : BitVec 16) :
    -2 ^ 30 ≤ a.toInt * b.toInt ∧ a.toInt * b.toInt ≤ 2 ^ 30 := by
  obtain ⟨hALow, hAHigh⟩ := toInt16_bounds a
  obtain ⟨hBLow, hBHigh⟩ := toInt16_bounds b
  constructor <;> nlinarith

theorem dot_bounds (row v : Vec3 (BitVec 16)) :
    -(3 * 2 ^ 30) ≤ dot row v ∧ dot row v ≤ 3 * 2 ^ 30 := by
  have hX := mul_bounds row.x v.x
  have hY := mul_bounds row.y v.y
  have hZ := mul_bounds row.z v.z
  unfold dot
  omega

theorem shl12_bounds (w : Word) :
    -2 ^ 43 ≤ shl 12 w.toInt ∧ shl 12 w.toInt ≤ 2 ^ 43 - 2 ^ 12 := by
  have hLow := BitVec.le_toInt w
  have hHigh := BitVec.toInt_lt (x := w)
  unfold shl
  omega

theorem sar_bounds {n : Nat} {v bound : Int} (hBound : 0 ≤ bound) (hLow : -bound ≤ v)
    (hHigh : v < bound) : -bound ≤ sar n v ∧ sar n v < bound := by
  have hPow : (0 : Int) < 2 ^ n := by positivity
  have hOne : (1 : Int) ≤ 2 ^ n := hPow
  unfold sar
  constructor
  · rw [Int.le_ediv_iff_mul_le hPow]
    nlinarith
  · rw [Int.ediv_lt_iff_lt_mul hPow]
    nlinarith

end Bounds

/-- A property of the three events of an accumulation. -/
def Accumulated (Q : Event → Prop) (v : Vec3 Int) : Prop :=
  Q (.accumulated 0 v.x) ∧ Q (.accumulated 1 v.y) ∧ Q (.accumulated 2 v.z)

def MacChecked (Q : Event → Prop) (v : Vec3 Int) : Prop :=
  Q (.macChecked 0 v.x) ∧ Q (.macChecked 1 v.y) ∧ Q (.macChecked 2 v.z)

/-- A property of all events so far. -/
def Pass.All (Q : Event → Prop) (p : Pass) : Prop := ∀ e ∈ p.log, Q e

section All

variable {Q : Event → Prop} {p : Pass}

theorem all_meet (events : List Event) :
    (p.meet events).All Q ↔ p.All Q ∧ ∀ e ∈ events, Q e := List.forall_mem_append

theorem all_accumulate (v : Vec3 Int) : (p.accumulate v).All Q ↔ p.All Q ∧ Accumulated Q v := by
  rw [Pass.accumulate, all_meet]
  simp [Accumulated]

theorem all_checkMac (v : Vec3 Int) : (p.checkMac v).All Q ↔ p.All Q ∧ MacChecked Q v := by
  rw [Pass.checkMac, all_meet]
  simp [MacChecked]

variable (hQ : ∀ e : Event, e.Plain → Q e)
include hQ

theorem all_meet_plain {events : List Event} (hPlain : ∀ e ∈ events, e.Plain) :
    (p.meet events).All Q ↔ p.All Q := by
  rw [all_meet, and_iff_left]
  exact fun e he => hQ e (hPlain e he)

theorem all_setIr (lm : Bool) (v : Vec3 Int) : (p.setIr lm v).All Q ↔ p.All Q :=
  all_meet_plain hQ (by simp [Event.Plain])

theorem all_store (lm : Bool) (v : Vec3 Int) : (p.store lm v).All Q ↔ p.All Q :=
  all_setIr hQ lm _

theorem all_pushColour : p.pushColour.All Q ↔ p.All Q :=
  all_meet_plain hQ (by simp [Event.Plain])

theorem all_pushSz (v : Int) : (p.pushSz v).All Q ↔ p.All Q :=
  all_meet_plain hQ (by simp [Event.Plain])

theorem all_project (ws : Widescreen) : (project ws p).All Q ↔ p.All Q :=
  (all_meet_plain hQ (by simp [Event.Plain])).trans (all_meet_plain hQ (by simp [Event.Plain]))

theorem all_setMac0 : p.setMac0.All Q ↔ p.All Q :=
  all_meet_plain hQ (by simp [Event.Plain])

variable (w : Word) (v : GTEState → Vec3 (BitVec 16))

theorem all_lightTransform : (lightTransform w v p).All Q ↔
    p.All Q ∧ Accumulated Q (p.regs.l.apply (v p.regs)) := by
  rw [lightTransform, all_store hQ, all_accumulate]

theorem all_lightColor : (lightColor w p).All Q ↔
    p.All Q ∧ Accumulated Q (lightColorAcc p.regs) := by
  rw [lightColor, all_store hQ, all_accumulate]

theorem all_colorOutput : (colorOutput w p).All Q ↔
    p.All Q ∧ Accumulated Q ((tinted (components p.regs.rgbc) p.regs).map (shl 4)) := by
  rw [colorOutput, all_pushColour hQ, all_store hQ, all_accumulate]

theorem all_depthCueFromIr : (depthCueFromIr w p).All Q ↔
    ((p.All Q ∧ Accumulated Q (depthCueFar p.regs)) ∧
      Accumulated Q (depthCueAcc (instrSf w) p.regs)) ∧
      MacChecked Q ((depthCueAcc (instrSf w) p.regs).map (sar (instrSf w))) := by
  rw [depthCueFromIr, all_store hQ, all_checkMac, all_accumulate,
    all_meet_plain hQ (by simp [Event.Plain]), all_accumulate]

theorem all_dpcsInternal (colour : GTEState → Word) : (dpcsInternal w colour p).All Q ↔
    (depthCueFromIr w (p.setIr false ((components (colour p.regs)).map (shl 4)))).All Q :=
  all_pushColour hQ

theorem all_rotate : (rotate v p).All Q ↔
    (p.All Q ∧ Accumulated Q (rotated p.regs (v p.regs))) ∧
      MacChecked Q ((rotated p.regs (v p.regs)).map (sar 12)) := by
  rw [rotate, all_pushSz hQ, all_store hQ, all_checkMac, all_accumulate]

theorem all_rtpsInternal (ws : Widescreen) (setMac0 : Bool) :
    (rtpsInternal ws v setMac0 p).All Q ↔ (rotate v p).All Q := by
  cases setMac0 with
  | false => exact all_project hQ ws
  | true => exact (all_setMac0 hQ).trans (all_project hQ ws)

end All

/-- The three accumulators are in the 44-bit range. -/
@[grind =] def Fits (v : Vec3 Int) : Prop := Fits44 v.x ∧ Fits44 v.y ∧ Fits44 v.z

theorem inRange_of_plain (e : Event) (hPlain : e.Plain) : e.InRange := by
  cases e with
  | accumulated => exact hPlain.elim
  | _ => trivial

theorem unflagged_of_plain (e : Event) (hPlain : e.Plain) : e.Unflagged := by
  cases e with
  | macChecked => exact hPlain.elim
  | _ => trivial

theorem accumulated_inRange (v : Vec3 Int) : Accumulated Event.InRange v ↔ Fits v := Iff.rfl

theorem macChecked_inRange (v : Vec3 Int) : MacChecked Event.InRange v :=
  ⟨trivial, trivial, trivial⟩

theorem accumulated_unflagged (v : Vec3 Int) : Accumulated Event.Unflagged v :=
  ⟨trivial, trivial, trivial⟩

theorem fits_apply (m : Mat3) (v : Vec3 (BitVec 16)) : Fits (m.apply v) := by
  have h0 := dot_bounds m.r0 v
  have h1 := dot_bounds m.r1 v
  have h2 := dot_bounds m.r2 v
  simp only [Fits, Fits44, Mat3.apply]
  omega

theorem component_mul_bounds (c : Nat) (hC : c ≤ 255) (ir : BitVec 16) :
    -2 ^ 23 ≤ (c : Int) * ir.toInt ∧ (c : Int) * ir.toInt ≤ 2 ^ 23 := by
  obtain ⟨hLow, hHigh⟩ := toInt16_bounds ir
  have hCast : (c : Int) ≤ 255 := by exact_mod_cast hC
  constructor <;> nlinarith

theorem component_le (rgb mask : Word) (hMask : mask = 0xFF#32) : (rgb &&& mask).toNat ≤ 255 := by
  rw [hMask, BitVec.toNat_and]
  exact Nat.and_le_right

theorem fits_tinted (rgb : Word) (g : GTEState) (n : Nat) (hN : n ≤ 4) :
    Fits ((tinted (components rgb) g).map (shl n)) := by
  have hX := component_mul_bounds _ (component_le rgb _ rfl) g.ir1
  have hY := component_mul_bounds _ (component_le (rgb >>> 8) _ rfl) g.ir2
  have hZ := component_mul_bounds _ (component_le (rgb >>> 16) _ rfl) g.ir3
  simp only [Fits, Fits44, tinted, components, Vec3.map, Vec3.zip, GTEState.irVec, shl]
  interval_cases n <;> omega

/-- The interpolation starts from a shifted register and adds one product. -/
theorem interpolation_bounds (ir0 ir step : BitVec 16) :
    -2 ^ 31 ≤ shl 12 ir.toInt + ir0.toInt * step.toInt ∧
      shl 12 ir.toInt + ir0.toInt * step.toInt < 2 ^ 31 := by
  have hBase := toInt16_bounds ir
  have hProduct := mul_bounds ir0 step
  unfold shl
  omega

theorem fits_depthCueAcc (sf : Nat) (g : GTEState) : Fits (depthCueAcc sf g) := by
  have hX := interpolation_bounds g.ir0 g.ir1 (limitIr false (depthCueRaw sf g).x)
  have hY := interpolation_bounds g.ir0 g.ir2 (limitIr false (depthCueRaw sf g).y)
  have hZ := interpolation_bounds g.ir0 g.ir3 (limitIr false (depthCueRaw sf g).z)
  simp only [Fits, Fits44, depthCueAcc, depthCueBase, Vec3.map, Vec3.zip, GTEState.irVec]
  omega

theorem unflagged_depthCue (sf : Nat) (g : GTEState) :
    MacChecked Event.Unflagged ((depthCueAcc sf g).map (sar sf)) := by
  have hBound (v : Int) (h : -2 ^ 31 ≤ v ∧ v < 2 ^ 31) :
      -2 ^ 35 ≤ sar sf v ∧ sar sf v < 2 ^ 35 := by
    have hShifted := @sar_bounds sf _ (2 ^ 31) (by norm_num) h.1 h.2
    omega
  exact ⟨hBound _ (interpolation_bounds _ _ _), hBound _ (interpolation_bounds _ _ _),
    hBound _ (interpolation_bounds _ _ _)⟩

theorem unflagged_translated (tr : Vec3 Word) (m : Mat3) (v : Vec3 (BitVec 16)) :
    MacChecked Event.Unflagged (((shiftedUp tr).zip (· + ·) (m.apply v)).map (sar 12)) := by
  have hX := shl12_bounds tr.x
  have hY := shl12_bounds tr.y
  have hZ := shl12_bounds tr.z
  have h0 := dot_bounds m.r0 v
  have h1 := dot_bounds m.r1 v
  have h2 := dot_bounds m.r2 v
  simp only [MacChecked, Event.Unflagged, shiftedUp, Mat3.apply, Vec3.map, Vec3.zip, sar]
  omega

theorem unflagged_rotated (g : GTEState) (v : Vec3 (BitVec 16)) :
    MacChecked Event.Unflagged ((rotated g v).map (sar 12)) := unflagged_translated _ _ _

section Unflagged

variable {p : Pass} {w : Word} {v : GTEState → Vec3 (BitVec 16)}

theorem unflagged_begin (g : GTEState) : (begin g).All Event.Unflagged :=
  fun _ he => absurd he (List.not_mem_nil)

theorem unflagged_lightTransform (hp : p.All Event.Unflagged) :
    (lightTransform w v p).All Event.Unflagged :=
  (all_lightTransform unflagged_of_plain w v).mpr ⟨hp, accumulated_unflagged _⟩

theorem unflagged_lightColor (hp : p.All Event.Unflagged) :
    (lightColor w p).All Event.Unflagged :=
  (all_lightColor unflagged_of_plain w).mpr ⟨hp, accumulated_unflagged _⟩

theorem unflagged_colorOutput (hp : p.All Event.Unflagged) :
    (colorOutput w p).All Event.Unflagged :=
  (all_colorOutput unflagged_of_plain w).mpr ⟨hp, accumulated_unflagged _⟩

theorem unflagged_depthCueFromIr (hp : p.All Event.Unflagged) :
    (depthCueFromIr w p).All Event.Unflagged :=
  (all_depthCueFromIr unflagged_of_plain w).mpr
    ⟨⟨⟨hp, accumulated_unflagged _⟩, accumulated_unflagged _⟩, unflagged_depthCue _ _⟩

theorem unflagged_dpcsInternal {colour : GTEState → Word} (hp : p.All Event.Unflagged) :
    (dpcsInternal w colour p).All Event.Unflagged :=
  (all_dpcsInternal unflagged_of_plain w colour).mpr
    (unflagged_depthCueFromIr ((all_setIr unflagged_of_plain _ _).mpr hp))

theorem unflagged_rtpsInternal {ws : Widescreen} {setMac0 : Bool} (hp : p.All Event.Unflagged) :
    (rtpsInternal ws v setMac0 p).All Event.Unflagged :=
  (all_rtpsInternal unflagged_of_plain v ws setMac0).mpr
    ((all_rotate unflagged_of_plain v).mpr
      ⟨⟨hp, accumulated_unflagged _⟩, unflagged_rotated _ _⟩)

end Unflagged

def GTEState.withIr (g : GTEState) (ir : Vec3 (BitVec 16)) : GTEState :=
  { g with ir1 := ir.x, ir2 := ir.y, ir3 := ir.z }

/-- What values leave in IR1 to IR3 when they are stored. -/
def storedIr (lm : Bool) (v : Vec3 Int) : Vec3 (BitVec 16) :=
  v.map fun a => limitIr lm (BitVec.ofInt 32 a).toInt

/-- IR1 to IR3 after the light matrix. -/
def litIr (w : Word) (g : GTEState) (v : Vec3 (BitVec 16)) : Vec3 (BitVec 16) :=
  storedIr (instrLm w) ((g.l.apply v).map (sar 12))

/-- IR1 to IR3 after the light colours, from what they were. -/
def colouredIr (w : Word) (g : GTEState) (ir : Vec3 (BitVec 16)) : Vec3 (BitVec 16) :=
  storedIr (instrLm w) ((lightColorAcc (g.withIr ir)).map (sar 12))

/-- IR1 to IR3 loaded with a colour. -/
def shownIr (rgb : Word) : Vec3 (BitVec 16) := ((components rgb).map (shl 4)).map (limitIr false)

/-- The light colours on given IR1 to IR3 stay in the range. -/
def ColourFits (g : GTEState) (ir : Vec3 (BitVec 16)) : Prop := Fits (lightColorAcc (g.withIr ir))

/-- The distance to the far colour from given IR1 to IR3 stays in the range. -/
def CueFits (g : GTEState) (ir : Vec3 (BitVec 16)) : Prop := Fits (depthCueFar (g.withIr ir))

section InRange

variable {g : GTEState} {p : Pass} {w : Word} {v : GTEState → Vec3 (BitVec 16)}

/-- The fields of the inputs that a stage reads. -/
theorem inputs_eq_iff {a b : GTEState} : a.inputs = b.inputs ↔
    a.v0 = b.v0 ∧ a.v1 = b.v1 ∧ a.v2 = b.v2 ∧ a.rgbc = b.rgbc ∧ a.rt = b.rt ∧ a.tr = b.tr ∧
      a.l = b.l ∧ a.bk = b.bk ∧ a.lc = b.lc ∧ a.fc = b.fc := by
  simp [GTEState.inputs]

theorem lightColorAcc_withIr (hp : p.regs.inputs = g.inputs) :
    lightColorAcc p.regs = lightColorAcc (g.withIr p.regs.irVec) := by
  obtain ⟨-, -, -, -, -, -, -, hBk, hLc, -⟩ := inputs_eq_iff.1 hp
  change (shiftedUp p.regs.bk).zip _ (p.regs.lc.apply _) = (shiftedUp g.bk).zip _ (g.lc.apply _)
  rw [hBk, hLc]
  rfl

theorem depthCueFar_withIr (hp : p.regs.inputs = g.inputs) :
    depthCueFar p.regs = depthCueFar (g.withIr p.regs.irVec) := by
  obtain ⟨-, -, -, -, -, -, -, -, -, hFc⟩ := inputs_eq_iff.1 hp
  change (shiftedUp p.regs.fc).zip _ _ = (shiftedUp g.fc).zip _ _
  rw [hFc]
  rfl

theorem rotated_inputs (hp : p.regs.inputs = g.inputs) (x : Vec3 (BitVec 16)) :
    rotated p.regs x = rotated g x := by
  obtain ⟨-, -, -, -, hRt, hTr, -⟩ := inputs_eq_iff.1 hp
  rw [rotated, rotated, hRt, hTr]

theorem inputs_closed (g : GTEState) : Closed fun p => p.regs.inputs = g.inputs where
  meet _ hp := hp
  update hChange hp := (hChange.inputs _).trans hp
  pushSxy _ _ hp := hp

theorem irVec_lightTransform (hp : p.regs.inputs = g.inputs) :
    (lightTransform w v p).regs.irVec = litIr w g (v p.regs) := by
  obtain ⟨-, -, -, -, -, -, hL, -⟩ := inputs_eq_iff.1 hp
  rw [litIr, ← hL]
  rfl

theorem irVec_lightColor (hp : p.regs.inputs = g.inputs) :
    (lightColor w p).regs.irVec = colouredIr w g p.regs.irVec := by
  rw [colouredIr, ← lightColorAcc_withIr hp]
  rfl

theorem inRange_lightTransform :
    (lightTransform w v p).All Event.InRange ↔ p.All Event.InRange := by
  rw [all_lightTransform inRange_of_plain, and_iff_left]
  exact fits_apply _ _

theorem inRange_lightColor (hp : p.regs.inputs = g.inputs) :
    (lightColor w p).All Event.InRange ↔ p.All Event.InRange ∧ ColourFits g p.regs.irVec := by
  rw [all_lightColor inRange_of_plain, accumulated_inRange, lightColorAcc_withIr hp, ColourFits]

theorem inRange_colorOutput : (colorOutput w p).All Event.InRange ↔ p.All Event.InRange := by
  rw [all_colorOutput inRange_of_plain, and_iff_left]
  exact fits_tinted _ _ 4 (le_refl 4)

theorem inRange_depthCueFromIr (hp : p.regs.inputs = g.inputs) :
    (depthCueFromIr w p).All Event.InRange ↔ p.All Event.InRange ∧ CueFits g p.regs.irVec := by
  rw [all_depthCueFromIr inRange_of_plain, and_iff_left (macChecked_inRange _),
    accumulated_inRange, accumulated_inRange, and_iff_left (fits_depthCueAcc _ _),
    depthCueFar_withIr hp, CueFits]

/-- The light on one vertex, in any state with the inputs of `g`. -/
theorem inRange_lit (hp : p.regs.inputs = g.inputs) (hV : v p.regs = v g) :
    (lightColor w (lightTransform w v p)).All Event.InRange ↔
      p.All Event.InRange ∧ ColourFits g (litIr w g (v g)) := by
  have hLit : (lightTransform w v p).regs.inputs = g.inputs := (inputs_closed g).lightTransform hp
  rw [inRange_lightColor hLit, inRange_lightTransform, irVec_lightTransform hp, hV]

theorem inRange_nccsInternal (hp : p.regs.inputs = g.inputs) (hV : v p.regs = v g) :
    (nccsInternal w v p).All Event.InRange ↔
      p.All Event.InRange ∧ ColourFits g (litIr w g (v g)) := by
  rw [nccsInternal, inRange_colorOutput, inRange_lit hp hV]

theorem inRange_ncsInternal (hp : p.regs.inputs = g.inputs) (hV : v p.regs = v g) :
    (ncsInternal w v p).All Event.InRange ↔
      p.All Event.InRange ∧ ColourFits g (litIr w g (v g)) := by
  rw [ncsInternal, all_pushColour inRange_of_plain, inRange_lit hp hV]

theorem inRange_ncdsInternal (hp : p.regs.inputs = g.inputs) (hV : v p.regs = v g) :
    (ncdsInternal w v p).All Event.InRange ↔
      p.All Event.InRange ∧ ColourFits g (litIr w g (v g)) ∧
        CueFits g (colouredIr w g (litIr w g (v g))) := by
  have hLit : (lightTransform w v p).regs.inputs = g.inputs := (inputs_closed g).lightTransform hp
  have hColoured : (lightColor w (lightTransform w v p)).regs.inputs = g.inputs :=
    (inputs_closed g).lightColor hLit
  rw [ncdsInternal, inRange_colorOutput, inRange_depthCueFromIr hColoured, inRange_lit hp hV,
    irVec_lightColor hLit, irVec_lightTransform hp, hV, and_assoc]

theorem inRange_dpcsInternal {colour : GTEState → Word} (hp : p.regs.inputs = g.inputs) :
    (dpcsInternal w colour p).All Event.InRange ↔
      p.All Event.InRange ∧ CueFits g (shownIr (colour p.regs)) := by
  have hShown : (p.setIr false ((components (colour p.regs)).map (shl 4))).regs.inputs = g.inputs :=
    (inputs_closed g).setIr hp _ _
  rw [all_dpcsInternal inRange_of_plain, inRange_depthCueFromIr hShown,
    all_setIr inRange_of_plain]
  rfl

theorem inRange_rtpsInternal {ws : Widescreen} {setMac0 : Bool} (hp : p.regs.inputs = g.inputs)
    (hV : v p.regs = v g) : (rtpsInternal ws v setMac0 p).All Event.InRange ↔
      p.All Event.InRange ∧ Fits (rotated g (v g)) := by
  rw [all_rtpsInternal inRange_of_plain, all_rotate inRange_of_plain,
    and_iff_left (macChecked_inRange _), accumulated_inRange, rotated_inputs hp, hV]

end InRange

section Vertices

variable {g : GTEState} {internal : (GTEState → Vec3 (BitVec 16)) → Pass → Pass}
  {C : Vec3 (BitVec 16) → Prop}

/-- What a step on one vertex adds, in any state with the inputs of `g`. -/
def Adds (g : GTEState) (internal : (GTEState → Vec3 (BitVec 16)) → Pass → Pass)
    (C : Vec3 (BitVec 16) → Prop) : Prop :=
  ∀ p v, p.regs.inputs = g.inputs → v p.regs = v g →
    ((internal v p).regs.inputs = g.inputs ∧
      ((internal v p).All Event.InRange ↔ p.All Event.InRange ∧ C (v g)))

theorem inRange_begin (g : GTEState) : (begin g).All Event.InRange :=
  fun _ he => absurd he List.not_mem_nil

theorem inRange_single (hAdds : Adds g internal C) :
    (single internal g).All Event.InRange ↔ C g.v0 :=
  (hAdds (begin g) GTEState.v0 rfl rfl).2.trans (and_iff_right (inRange_begin g))

theorem inRange_three {first second third : Pass → Pass} {c0 c1 c2 : Prop}
    (h0 : ∀ p, p.regs.inputs = g.inputs → (first p).regs.inputs = g.inputs ∧
      ((first p).All Event.InRange ↔ p.All Event.InRange ∧ c0))
    (h1 : ∀ p, p.regs.inputs = g.inputs → (second p).regs.inputs = g.inputs ∧
      ((second p).All Event.InRange ↔ p.All Event.InRange ∧ c1))
    (h2 : ∀ p, p.regs.inputs = g.inputs → (third p).regs.inputs = g.inputs ∧
      ((third p).All Event.InRange ↔ p.All Event.InRange ∧ c2)) :
    (third (second (first (begin g)))).All Event.InRange ↔ c0 ∧ c1 ∧ c2 := by
  obtain ⟨hFirst, hC0⟩ := h0 (begin g) rfl
  obtain ⟨hSecond, hC1⟩ := h1 _ hFirst
  rw [(h2 _ hSecond).2, hC1, hC0, and_iff_right (inRange_begin g), and_assoc]

theorem inRange_triple (hAdds : Adds g internal C) :
    (triple internal g).All Event.InRange ↔ C g.v0 ∧ C g.v1 ∧ C g.v2 :=
  inRange_three (fun p hp => hAdds p GTEState.v0 hp (inputs_eq_iff.1 hp).1)
    (fun p hp => hAdds p GTEState.v1 hp (inputs_eq_iff.1 hp).2.1)
    (fun p hp => hAdds p GTEState.v2 hp (inputs_eq_iff.1 hp).2.2.1)

variable (w : Word)

theorem adds_nccsInternal :
    Adds g (nccsInternal w) fun vertex => ColourFits g (litIr w g vertex) :=
  fun _ _ hp hV => ⟨(inputs_closed g).nccsInternal w _ hp, inRange_nccsInternal hp hV⟩

theorem adds_ncsInternal :
    Adds g (ncsInternal w) fun vertex => ColourFits g (litIr w g vertex) :=
  fun _ _ hp hV => ⟨(inputs_closed g).ncsInternal w _ hp, inRange_ncsInternal hp hV⟩

theorem adds_ncdsInternal :
    Adds g (ncdsInternal w) fun vertex => ColourFits g (litIr w g vertex) ∧
      CueFits g (colouredIr w g (litIr w g vertex)) :=
  fun _ _ hp hV => ⟨(inputs_closed g).ncdsInternal w _ hp, inRange_ncdsInternal hp hV⟩

theorem all_setErrorFlag {Q : Event → Prop} (p : Pass) : p.setErrorFlag.All Q ↔ p.All Q := Iff.rfl

theorem inRange_rtpt (ws : Widescreen) : (rtpt ws g).All Event.InRange ↔
    Fits (rotated g g.v0) ∧ Fits (rotated g g.v1) ∧ Fits (rotated g g.v2) := by
  have hTurn (v : GTEState → Vec3 (BitVec 16)) (last : Bool) (p : Pass)
      (hp : p.regs.inputs = g.inputs) : (rtpsInternal ws v last p).regs.inputs = g.inputs :=
    (inputs_closed g).rtpsInternal hp
  rw [rtpt, all_setErrorFlag]
  exact inRange_three
    (fun p hp => ⟨hTurn _ _ p hp, inRange_rtpsInternal hp (inputs_eq_iff.1 hp).1⟩)
    (fun p hp => ⟨hTurn _ _ p hp, inRange_rtpsInternal hp (inputs_eq_iff.1 hp).2.1⟩)
    (fun p hp => ⟨hTurn _ _ p hp, inRange_rtpsInternal hp (inputs_eq_iff.1 hp).2.2.1⟩)

/-- The colour FIFO. -/
def GTEState.rgbFifo (g : GTEState) : Vec3 Word := ⟨g.rgb0, g.rgb1, g.rgb2⟩

theorem rgbFifo_store (p : Pass) (lm : Bool) (x : Vec3 Int) :
    (p.store lm x).regs.rgbFifo = p.regs.rgbFifo := rfl

theorem rgbFifo_meet (p : Pass) (events : List Event) :
    (p.meet events).regs.rgbFifo = p.regs.rgbFifo := rfl

theorem rgbFifo_depthCueFromIr (p : Pass) :
    (depthCueFromIr w p).regs.rgbFifo = p.regs.rgbFifo := by
  rw [depthCueFromIr, rgbFifo_store, Pass.checkMac, rgbFifo_meet, Pass.accumulate, rgbFifo_meet,
    rgbFifo_meet, Pass.accumulate, rgbFifo_meet]

theorem rgbFifo_pushColour (p : Pass) : p.pushColour.regs.rgb0 = p.regs.rgbFifo.y ∧
    p.pushColour.regs.rgb1 = p.regs.rgbFifo.z := ⟨rfl, rfl⟩

theorem rgbFifo_dpcsInternal (colour : GTEState → Word) (p : Pass) :
    (dpcsInternal w colour p).regs.rgb0 = p.regs.rgb1 ∧
      (dpcsInternal w colour p).regs.rgb1 = p.regs.rgb2 := by
  rw [dpcsInternal, (rgbFifo_pushColour _).1, (rgbFifo_pushColour _).2, rgbFifo_depthCueFromIr]
  exact ⟨rfl, rfl⟩

/-- Each turn takes the next colour of the FIFO. -/
theorem inRange_dpct : (dpct w g).All Event.InRange ↔
    CueFits g (shownIr g.rgb0) ∧ CueFits g (shownIr g.rgb1) ∧ CueFits g (shownIr g.rgb2) := by
  have hTurn (p : Pass) (hp : p.regs.inputs = g.inputs) :
      (dpcsInternal w GTEState.rgb0 p).regs.inputs = g.inputs :=
    (inputs_closed g).dpcsInternal hp
  have hBegin : (begin g).regs.inputs = g.inputs := rfl
  rw [dpct, all_setErrorFlag, inRange_dpcsInternal (hTurn _ (hTurn _ hBegin)),
    inRange_dpcsInternal (hTurn _ hBegin), inRange_dpcsInternal hBegin,
    (rgbFifo_dpcsInternal w _ _).1, (rgbFifo_dpcsInternal w _ _).1,
    (rgbFifo_dpcsInternal w _ _).2, and_iff_right (inRange_begin g), and_assoc]
  rfl

end Vertices

/-- The check against 36 bits agrees with the 44-bit range on the value. -/
def Agrees (v : Int) : Prop := ¬(2 ^ 35 ≤ v ∧ v < 2 ^ 43) ∧ ¬(-2 ^ 43 ≤ v ∧ v < -2 ^ 35)

/-- The events of an accumulation, of its check, and others. -/
def checkedLog (v : Vec3 Int) (rest : List Event) : List Event :=
  [.accumulated 0 v.x, .accumulated 1 v.y, .accumulated 2 v.z,
    .macChecked 0 v.x, .macChecked 1 v.y, .macChecked 2 v.z] ++ rest

def Vec3.component {α : Type} (v : Vec3 α) : Fin 3 → α
  | 0 => v.x
  | 1 => v.y
  | 2 => v.z

section Checked

variable {v : Vec3 Int} {rest : List Event}

theorem mem_checkedLog {e : Event} : e ∈ checkedLog v rest ↔
    (∃ i, e = .accumulated i (v.component i)) ∨ (∃ i, e = .macChecked i (v.component i)) ∨
      e ∈ rest := by
  simp [checkedLog, Fin.exists_fin_succ, Vec3.component, or_assoc]

variable (hRest : ∀ e ∈ rest, e.Plain)
include hRest

theorem checkedLog_raises (n : Nat) : (∃ e ∈ checkedLog v rest, e.raises.getLsbD n = true) ↔
    (∃ i : Fin 3, (n = 30 - i.val ∧ 2 ^ 35 ≤ v.component i) ∨
      (n = 27 - i.val ∧ v.component i < -2 ^ 35)) ∨ ∃ e ∈ rest, e.Sets n := by
  constructor
  · rintro ⟨e, he, hRaises⟩
    rcases mem_checkedLog.1 he with ⟨i, rfl⟩ | ⟨i, rfl⟩ | he
    · exact absurd hRaises (accumulated_raises i _ n)
    · exact Or.inl ⟨i, (macChecked_raises_iff i _ n).mp hRaises⟩
    · exact Or.inr ⟨e, he, (raises_iff_sets (hRest e he) n).mp hRaises⟩
  · rintro (⟨i, hFires⟩ | ⟨e, he, hSets⟩)
    · exact ⟨_, mem_checkedLog.2 (Or.inr (Or.inl ⟨i, rfl⟩)),
        (macChecked_raises_iff i _ n).mpr hFires⟩
    · exact ⟨e, mem_checkedLog.2 (Or.inr (Or.inr he)), (raises_iff_sets (hRest e he) n).mpr hSets⟩

omit hRest in
theorem checkedLog_sets (n : Nat) : (∃ e ∈ checkedLog v rest, e.Sets n) ↔
    (∃ i : Fin 3, (n = 30 - i.val ∧ 2 ^ 43 ≤ v.component i) ∨
      (n = 27 - i.val ∧ v.component i < -2 ^ 43)) ∨ ∃ e ∈ rest, e.Sets n := by
  constructor
  · rintro ⟨e, he, hSets⟩
    rcases mem_checkedLog.1 he with ⟨i, rfl⟩ | ⟨i, rfl⟩ | he
    · exact Or.inl ⟨i, hSets⟩
    · exact hSets.elim
    · exact Or.inr ⟨e, he, hSets⟩
  · rintro (⟨i, hOver⟩ | ⟨e, he, hSets⟩)
    · exact ⟨_, mem_checkedLog.2 (Or.inl ⟨i, rfl⟩), hOver⟩
    · exact ⟨e, mem_checkedLog.2 (Or.inr (Or.inr he)), hSets⟩

/-- Where the accumulators themselves are checked, the bits are right exactly
when the two ranges agree on them. -/
theorem bits_iff_agrees :
    (∀ n < 31, (∃ e ∈ checkedLog v rest, e.raises.getLsbD n = true) ↔
      ∃ e ∈ checkedLog v rest, e.Sets n) ↔ ∀ i, Agrees (v.component i) := by
  have hLow {n : Nat} (hn : 25 ≤ n) : ¬∃ e ∈ rest, e.Sets n := by
    rintro ⟨e, he, hSets⟩
    exact absurd (plain_sets_lt (hRest e he) hSets) (by omega)
  constructor
  · intro hBits i
    have hOnly (n : Nat) (hHigh : 25 ≤ n) (hn : n < 31) := (checkedLog_raises hRest n).symm.trans
      ((hBits n hn).trans (checkedLog_sets n))
    constructor
    · rintro ⟨hFires, hFits⟩
      rcases (hOnly (30 - i) (by omega) (by omega)).mp (Or.inl ⟨i, Or.inl ⟨rfl, hFires⟩⟩) with
        ⟨j, ⟨hSame, hOver⟩ | ⟨hSame, -⟩⟩ | hSets
      · obtain rfl : i = j := by omega
        exact absurd hOver (by omega)
      · omega
      · exact hLow (by omega) hSets
    · rintro ⟨hFits, hFires⟩
      rcases (hOnly (27 - i) (by omega) (by omega)).mp (Or.inl ⟨i, Or.inr ⟨rfl, hFires⟩⟩) with
        ⟨j, ⟨hSame, -⟩ | ⟨hSame, hUnder⟩⟩ | hSets
      · omega
      · obtain rfl : i = j := by omega
        exact absurd hUnder (by omega)
      · exact hLow (by omega) hSets
  · intro hAgrees n hn
    rw [checkedLog_raises hRest, checkedLog_sets]
    refine or_congr_left (exists_congr fun i => ?_)
    have hI := hAgrees i
    simp only [Agrees] at hI
    omega

end Checked

theorem instrSf_cases (w : Word) : instrSf w = 0 ∨ instrSf w = 12 := by
  unfold instrSf
  split
  · exact Or.inr rfl
  · exact Or.inl rfl

end RecompStudio.Gte
