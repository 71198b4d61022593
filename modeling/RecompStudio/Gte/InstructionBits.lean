import RecompStudio.Gte.RegisterFile

/-!
The lighting and depth-cue commands with both bits of the instruction word as
parameters of every stage, as the hardware has them, and for which words the
commands of the source are these.
-/

namespace RecompStudio.Gte

local instance neZero_components : NeZero 3 := ⟨by decide⟩

section Stages

variable (sf : Nat) (lm : Bool)

def lightTransformAt (v : GTEState → Vec3 (BitVec 16)) (p : Pass) : Pass :=
  let acc := p.regs.l.apply (v p.regs)
  (p.accumulate acc).store lm (acc.map (sar sf))

def lightColorAt (p : Pass) : Pass :=
  let acc := lightColorAcc p.regs
  (p.accumulate acc).store lm (acc.map (sar sf))

def colorOutputAt (p : Pass) : Pass :=
  let acc := (tinted (components p.regs.rgbc) p.regs).map (shl 4)
  ((p.accumulate acc).store lm (acc.map (sar sf))).pushColour

/-- The step towards the far colour is limited with `lm` off. -/
def depthCueAt (p : Pass) : Pass :=
  let g := p.regs
  let raw := depthCueRaw sf g
  let mac := (depthCueAcc sf g).map (sar sf)
  ((((p.accumulate (depthCueFar g)).meet
    [.ir 0 false raw.x, .ir 1 false raw.y, .ir 2 false raw.z]).accumulate
      (depthCueAcc sf g)).checkMac mac).store lm mac

/-- The product of the colour with IR1 to IR3, shifted up by 4 as in
`color_output`. -/
def tintAt (p : Pass) : Pass :=
  let acc := tinted (components p.regs.rgbc) p.regs
  (p.accumulate acc).store lm ((acc.map (shl 4)).map (sar sf))

def dpcsAt (colour : GTEState → Word) (p : Pass) : Pass :=
  (depthCueAt sf lm (p.setIr lm ((components (colour p.regs)).map (shl 4)))).pushColour

end Stages

/-- The twelve commands by function code: the lighting stages shift by `sf`, the
depth cue by `cue`. -/
@[grind =] def shade (sf cue : Nat) (lm : Bool) (func : Nat) (g : GTEState) : Option Pass :=
  let ncs v p := (lightColorAt sf lm (lightTransformAt sf lm v p)).pushColour
  let nccs v p := colorOutputAt sf lm (lightColorAt sf lm (lightTransformAt sf lm v p))
  let ncds v p := colorOutputAt sf lm
    (depthCueAt cue lm (lightColorAt sf lm (lightTransformAt sf lm v p)))
  match func with
  | 0x10 => some (dpcsAt cue lm GTEState.rgbc (begin g)).setErrorFlag
  | 0x11 => some (depthCueAt cue lm (begin g)).pushColour.setErrorFlag
  | 0x13 => some (single ncds g)
  | 0x14 =>
      some (colorOutputAt sf lm (depthCueAt cue lm (lightColorAt sf lm (begin g)))).setErrorFlag
  | 0x16 => some (triple ncds g)
  | 0x1B => some (single nccs g)
  | 0x1C => some (colorOutputAt sf lm (lightColorAt sf lm (begin g))).setErrorFlag
  | 0x1E => some (single ncs g)
  | 0x20 => some (triple ncs g)
  | 0x29 => some (depthCueAt cue lm (tintAt sf lm (begin g))).pushColour.setErrorFlag
  | 0x2A =>
      some (dpcsAt cue lm GTEState.rgb0 (dpcsAt cue lm GTEState.rgb0
        (dpcsAt cue lm GTEState.rgb0 (begin g)))).setErrorFlag
  | 0x3F => some (triple nccs g)
  | _ => none

def funcOf (w : Word) : Nat := (w &&& 0x3F#32).toNat

/-- The lighting commands whose stages have a shift, and all twelve. -/
def lit : List Nat := [0x13, 0x14, 0x16, 0x1B, 0x1C, 0x1E, 0x20, 0x29, 0x3F]

def shaded : List Nat := [0x10, 0x11, 0x2A] ++ lit

theorem mem_shaded {func : Nat} : func ∈ shaded ↔ func = 0x10 ∨ func = 0x11 ∨ func = 0x2A ∨
    func = 0x13 ∨ func = 0x14 ∨ func = 0x16 ∨ func = 0x1B ∨ func = 0x1C ∨ func = 0x1E ∨
    func = 0x20 ∨ func = 0x29 ∨ func = 0x3F := by
  simp [shaded, lit]

/-- Both bits from the instruction word. -/
def hardware (w : Word) (g : GTEState) : Option Pass :=
  shade (instrSf w) (instrSf w) (instrLm w) (funcOf w) g

/-- The registers that a command leaves. -/
def results (p : Option Pass) : Option GTEState := p.map Pass.regs

theorem shl4_component_bounds (rgb mask : Word) (hMask : mask = 0xFF#32) :
    0 ≤ shl 4 ((rgb &&& mask).toNat : Int) ∧ shl 4 ((rgb &&& mask).toNat : Int) ≤ 0x7FFF := by
  have hLe : (rgb &&& mask).toNat ≤ 255 := by
    rw [hMask, BitVec.toNat_and]
    exact Nat.and_le_right
  unfold shl
  omega

section Clamp

variable {v : Int} (h : 0 ≤ v ∧ v ≤ 0x7FFF) (lm : Bool)
include h

theorem ir_raises_of_bounds (i : Fin 3) : (Event.ir i lm v).raises = 0 := by
  have hFloor : irFloor lm ≤ 0 := by cases lm <;> decide
  change (if v < irFloor lm then flagBit (24 - i)
    else if v > 0x7FFF then flagBit (24 - i) else 0) = 0
  rw [if_neg (by omega), if_neg (by omega)]

theorem limitIr_of_bounds : limitIr lm v = BitVec.ofInt 16 v := by
  have hFloor : irFloor lm ≤ 0 := by cases lm <;> decide
  change BitVec.ofInt 16 (if v < irFloor lm then irFloor lm
    else if v > 0x7FFF then 0x7FFF else v) = _
  rw [if_neg (by omega), if_neg (by omega)]

end Clamp

theorem setIr_regs_of_bounds (p : Pass) (lm : Bool) {v : Vec3 Int} (hX : 0 ≤ v.x ∧ v.x ≤ 0x7FFF)
    (hY : 0 ≤ v.y ∧ v.y ≤ 0x7FFF) (hZ : 0 ≤ v.z ∧ v.z ≤ 0x7FFF) :
    (p.setIr lm v).regs = (p.setIr false v).regs := by
  simp only [Pass.setIr, Pass.update, Pass.meet, List.foldl_cons, List.foldl_nil,
    ir_raises_of_bounds hX, ir_raises_of_bounds hY, ir_raises_of_bounds hZ,
    limitIr_of_bounds hX, limitIr_of_bounds hY, limitIr_of_bounds hZ]

/-- The record has no influence on the registers. -/
theorem depthCueAt_regs {p q : Pass} (sf : Nat) (lm : Bool) (h : p.regs = q.regs) :
    (depthCueAt sf lm p).pushColour.regs = (depthCueAt sf lm q).pushColour.regs := by
  obtain ⟨g, logP⟩ := p
  obtain ⟨g', logQ⟩ := q
  obtain rfl : g = g' := h
  rfl

theorem setErrorFlag_regs {p q : Pass} (h : p.regs = q.regs) :
    p.setErrorFlag.regs = q.setErrorFlag.regs := by
  unfold Pass.setErrorFlag Pass.update
  rw [h]

theorem setIr_regs {p q : Pass} (h : p.regs = q.regs) (lm : Bool) (v : Vec3 Int) :
    (p.setIr lm v).regs = (q.setIr lm v).regs := by
  unfold Pass.setIr Pass.meet Pass.update
  rw [h]

section Source

variable (w : Word)

theorem lightTransformAt_twelve : lightTransformAt 12 (instrLm w) = lightTransform w := rfl

theorem lightColorAt_twelve : lightColorAt 12 (instrLm w) = lightColor w := rfl

theorem colorOutputAt_twelve : colorOutputAt 12 (instrLm w) = colorOutput w := rfl

theorem depthCueAt_instr : depthCueAt (instrSf w) (instrLm w) = depthCueFromIr w := rfl

theorem dpcsAt_regs {p q : Pass} (colour : GTEState → Word) (h : p.regs = q.regs) :
    (dpcsAt (instrSf w) (instrLm w) colour p).regs = (dpcsInternal w colour q).regs := by
  have hLoad : (p.setIr (instrLm w) ((components (colour p.regs)).map (shl 4))).regs =
      (q.setIr false ((components (colour q.regs)).map (shl 4))).regs := by
    rw [setIr_regs h, h]
    exact setIr_regs_of_bounds q _ (shl4_component_bounds _ _ rfl)
      (shl4_component_bounds _ _ rfl) (shl4_component_bounds _ _ rfl)
  exact depthCueAt_regs _ _ hLoad

theorem map_sar_shl (v : Vec3 Int) : (v.map (shl 4)).map (sar 12) = v.map (sar 8) := by
  have hShift (a : Int) : sar 12 (shl 4 a) = sar 8 a := by
    unfold sar shl
    omega
  simp only [Vec3.map, hShift]

variable (g : GTEState)

theorem dpcl_eq :
    (depthCueFromIr w (tintAt 12 (instrLm w) (begin g))).pushColour.setErrorFlag = dpcl w g := by
  rw [tintAt, map_sar_shl]
  rfl

/-- The commands of the source: the lighting stages shift by 12 whatever the
word says. -/
theorem command_eq_shade (ws : Widescreen) (hFunc : funcOf w ∈ shaded) :
    results (command ws w g) = results (shade 12 (instrSf w) (instrLm w) (funcOf w) g) := by
  have hCode : (w &&& 0x3F#32).toNat = funcOf w := rfl
  unfold command
  rw [hCode]
  generalize funcOf w = func at hFunc
  rcases mem_shaded.1 hFunc with
    rfl | rfl | rfl | rfl | rfl | rfl | rfl | rfl | rfl | rfl | rfl | rfl <;>
    simp only [shade, lightTransformAt_twelve, lightColorAt_twelve, colorOutputAt_twelve,
      depthCueAt_instr, dpcl_eq]
  case inl => exact congrArg some (setErrorFlag_regs (dpcsAt_regs w _ rfl)).symm
  case inr.inr.inl =>
    exact congrArg some
      (setErrorFlag_regs (dpcsAt_regs w _ (dpcsAt_regs w _ (dpcsAt_regs w _ rfl)))).symm
  all_goals rfl

end Source

/-- Outside the lighting stages there is no shift by 12. -/
theorem shade_cue_only {func : Nat} (hFunc : func ∈ shaded) (hLit : func ∉ lit) (sf cue : Nat)
    (lm : Bool) (g : GTEState) : shade sf cue lm func g = shade 12 cue lm func g := by
  have hCue : func ∈ [0x10, 0x11, 0x2A] := (List.mem_append.mp hFunc).resolve_right hLit
  simp only [List.mem_cons, List.not_mem_nil, or_false] at hCue
  rcases hCue with rfl | rfl | rfl <;> simp only [shade]

/-- One unit of light on three vertices of length one, a small light colour and a
small colour: nothing saturates under a shift by 12. -/
def dimLight : GTEState :=
  unpackRegisters
    (Function.update (Function.update (Function.update (Function.update (Function.update
      (fun _ => 0) 0 0x1000#32) 2 0x1000#32) 4 0x1000#32) 6 1#32) 9 0x100#32)
    (Function.update (Function.update (fun _ => 0) 8 1#32) 16 0x10#32) false

set_option maxRecDepth 8000 in
theorem dimLight_shows : ∀ func ∈ lit, ∀ lm : Bool,
    (shade 12 0 lm func dimLight).map (fun p => p.regs.flag.getLsbD 24) = some false ∧
      (shade 0 0 lm func dimLight).map (fun p => p.regs.flag.getLsbD 24) = some true := by
  decide

theorem flag_eq_of_results {p q : Option Pass} (hSame : results p = results q) (n : Nat) :
    p.map (fun p => p.regs.flag.getLsbD n) = q.map fun p => p.regs.flag.getLsbD n := by
  have hMap := congrArg (Option.map fun g : GTEState => g.flag.getLsbD n) hSame
  rwa [results, results, Option.map_map, Option.map_map] at hMap

theorem shift_shows {func : Nat} (hLit : func ∈ lit) (lm : Bool) :
    results (shade 12 0 lm func dimLight) ≠ results (shade 0 0 lm func dimLight) := by
  intro hSame
  obtain ⟨hSource, hHardware⟩ := dimLight_shows func hLit lm
  have hFlag := flag_eq_of_results hSame 24
  rw [hSource, hHardware] at hFlag
  exact absurd hFlag (by decide)

theorem instrSf_eq_twelve_iff (w : Word) : instrSf w = 12 ↔ w.getLsbD 19 = true := by
  simp [instrSf]

/-- A lighting command does in every state what its instruction word says if and
only if the word asks for the shift or the command has no lighting stage. -/
theorem command_eq_hardware_iff (w : Word) (hFunc : funcOf w ∈ shaded) :
    (∀ ws g, results (command ws w g) = results (hardware w g)) ↔
      w.getLsbD 19 = true ∨ funcOf w ∉ lit := by
  rw [← instrSf_eq_twelve_iff]
  constructor
  · intro hSame
    by_contra hNeither
    obtain ⟨hSf, hLit⟩ := not_or.mp hNeither
    have hZero : instrSf w = 0 := by
      rw [instrSf_eq_twelve_iff] at hSf
      exact if_neg hSf
    have hAt := hSame nativeScreen dimLight
    rw [command_eq_shade w _ _ hFunc, hardware, hZero] at hAt
    exact shift_shows (not_not.mp hLit) _ hAt
  · rintro (hSf | hLit) ws g
    · rw [command_eq_shade w _ _ hFunc, hardware, hSf]
    · rw [command_eq_shade w _ _ hFunc, hardware, shade_cue_only hFunc hLit (instrSf w)]

/-- `INTPL` without the shift, the case that the source's comment is about. -/
theorem intpl_eq_hardware :
    funcOf 0x11 ∈ shaded ∧ ∀ ws g, results (command ws 0x11 g) = results (hardware 0x11 g) :=
  ⟨by decide, (command_eq_hardware_iff 0x11 (by decide)).mpr (Or.inr (by decide))⟩

/-- `NCS` without the shift. -/
theorem ncs_ne_hardware :
    results (command nativeScreen 0x1E dimLight) ≠ results (hardware 0x1E dimLight) := by
  rw [command_eq_shade _ _ _ (by decide)]
  exact shift_shows (by decide) _

end RecompStudio.Gte
