import RecompStudio.Gte.Overflow
import RecompStudio.Gte.RegisterFile

/-!
The flag register after every command and after a write of it: exactly when it
means what is documented.
-/

namespace RecompStudio.Gte

section General

variable {w : Word} {g : GTEState}

theorem fits_opAcc (g : GTEState) : Fits (opAcc g) := by
  have h23 := mul_bounds g.rt.r1.y g.ir3
  have h32 := mul_bounds g.rt.r2.z g.ir2
  have h31 := mul_bounds g.rt.r2.z g.ir1
  have h13 := mul_bounds g.rt.r0.x g.ir3
  have h12 := mul_bounds g.rt.r0.x g.ir2
  have h21 := mul_bounds g.rt.r1.y g.ir1
  simp only [Fits, Fits44, opAcc]
  omega

theorem fits_products (f : BitVec 16 → BitVec 16) (g : GTEState) :
    Fits (g.irVec.map fun ir => (f ir).toInt * ir.toInt) := by
  have hX := mul_bounds (f g.ir1) g.ir1
  have hY := mul_bounds (f g.ir2) g.ir2
  have hZ := mul_bounds (f g.ir3) g.ir3
  simp only [Fits, Fits44, GTEState.irVec, Vec3.map]
  omega

theorem fits_squares (g : GTEState) : Fits (g.irVec.map fun ir => ir.toInt * ir.toInt) :=
  fits_products id g

theorem fits_ir0Scaled (g : GTEState) : Fits (ir0Scaled g) := fits_products (fun _ => g.ir0) g

theorem unflagged_general (acc : Vec3 Int) : (general w acc g).All Event.Unflagged := by
  rw [general, all_store unflagged_of_plain, all_accumulate]
  exact ⟨unflagged_begin g, accumulated_unflagged acc⟩

theorem inRange_general (acc : Vec3 Int) : (general w acc g).All Event.InRange ↔ Fits acc := by
  rw [general, all_store inRange_of_plain, all_accumulate, accumulated_inRange,
    and_iff_right (inRange_begin g)]

/-- Shifted down by 12, no translation reaches the threshold of the check. -/
theorem unflagged_mvmvaAcc (w : Word) (g : GTEState) :
    MacChecked Event.Unflagged ((mvmvaAcc w g).map (sar 12)) := by
  rw [mvmvaAcc, mvmvaTranslation]
  split
  · exact unflagged_translated _ _ _
  · exact unflagged_translated _ _ _
  · exact unflagged_translated _ _ _
  · exact unflagged_translated ⟨0, 0, 0⟩ _ _

theorem map_sar_zero (v : Vec3 Int) : v.map (sar 0) = v := by
  simp [Vec3.map, sar]

theorem mvmva_log_unshifted (hSf : instrSf w = 0) : ∃ rest : List Event,
    (mvmva w g).log = checkedLog (mvmvaAcc w g) rest ∧ ∀ e ∈ rest, e.Plain := by
  rw [mvmva, hSf, map_sar_zero]
  exact ⟨_, rfl, by simp [Event.Plain]⟩

theorem mvmva_all_iff {Q : Event → Prop} (hQ : ∀ e : Event, e.Plain → Q e) :
    (mvmva w g).All Q ↔ ((begin g).All Q ∧ Accumulated Q (mvmvaAcc w g)) ∧
      MacChecked Q ((mvmvaAcc w g).map (sar (instrSf w))) := by
  rw [mvmva, all_setErrorFlag, all_store hQ, all_checkMac, all_accumulate]

end General

/-- Depth cueing a vertex after its lighting. -/
def CuedFits (w : Word) (g : GTEState) (v : Vec3 (BitVec 16)) : Prop :=
  ColourFits g (litIr w g v) ∧ CueFits g (colouredIr w g (litIr w g v))

/-- IR1 to IR3 as `gte_dpcl` leaves them to its depth cue. -/
def dpclIr (w : Word) (g : GTEState) : Vec3 (BitVec 16) :=
  storedIr (instrLm w) ((tinted (components g.rgbc) g).map (sar 8))

/-- A property of all three vertices. -/
def GTEState.Vertices (g : GTEState) (P : Vec3 (BitVec 16) → Prop) : Prop :=
    P g.v0 ∧ P g.v1 ∧ P g.v2

/-- No accumulator that the command leaves unchecked leaves the 44-bit range,
and the one that is checked does not lie between the two ranges. -/
def FlagsExact (w : Word) (g : GTEState) : Prop :=
  match (w &&& 0x3F#32).toNat with
  | 0x01 => Fits (rotated g g.v0)
  | 0x10 => CueFits g (shownIr g.rgbc)
  | 0x11 => CueFits g g.irVec
  | 0x12 =>
      if instrSf w = 12 then Fits (mvmvaAcc w g)
      else ∀ i, Agrees ((mvmvaAcc w g).component i)
  | 0x13 => CuedFits w g g.v0
  | 0x14 => ColourFits g g.irVec ∧ CueFits g (colouredIr w g g.irVec)
  | 0x16 => g.Vertices (CuedFits w g)
  | 0x1B => ColourFits g (litIr w g g.v0)
  | 0x1C => ColourFits g g.irVec
  | 0x1E => ColourFits g (litIr w g g.v0)
  | 0x20 => g.Vertices fun v => ColourFits g (litIr w g v)
  | 0x29 => CueFits g (dpclIr w g)
  | 0x2A => CueFits g (shownIr g.rgb0) ∧ CueFits g (shownIr g.rgb1) ∧ CueFits g (shownIr g.rgb2)
  | 0x30 => g.Vertices fun v => Fits (rotated g v)
  | 0x3E => Fits (gplAcc w g)
  | 0x3F => g.Vertices fun v => ColourFits g (litIr w g v)
  | _ => True

section Exact

variable {ws : Widescreen} {w : Word} {g : GTEState} {p : Pass}

theorem documented_of_quiet {C : Prop} (hCommand : command ws w g = some p)
    (hUnflagged : p.All Event.Unflagged) (hInRange : p.All Event.InRange ↔ C) :
    Documented p.regs.flag p.log ↔ C :=
  (documented_iff hCommand).trans ((bits_iff_inRange hUnflagged).trans hInRange)

theorem documented_mvmva (hCommand : command ws w g = some (mvmva w g)) :
    Documented (mvmva w g).regs.flag (mvmva w g).log ↔
      if instrSf w = 12 then Fits (mvmvaAcc w g)
      else ∀ i, Agrees ((mvmvaAcc w g).component i) := by
  rcases instrSf_cases w with hSf | hSf
  · obtain ⟨rest, hLog, hRest⟩ := mvmva_log_unshifted (g := g) hSf
    rw [documented_iff hCommand, hLog, bits_iff_agrees hRest, hSf, if_neg (by norm_num)]
  · have hChecked := unflagged_mvmvaAcc w g
    rw [← hSf] at hChecked
    rw [if_pos hSf]
    refine documented_of_quiet hCommand ?_ ?_
    · exact (mvmva_all_iff unflagged_of_plain).mpr
        ⟨⟨unflagged_begin g, accumulated_unflagged _⟩, hChecked⟩
    · rw [mvmva_all_iff inRange_of_plain, and_iff_left (macChecked_inRange _),
        and_iff_right (inRange_begin g), accumulated_inRange]

theorem all_averageSz {Q : Event → Prop} (hQ : ∀ e : Event, e.Plain → Q e) (scaled : Int) :
    (averageSz g scaled).All Q := by
  rw [averageSz, all_setErrorFlag]
  exact (all_meet_plain hQ (by simp [Event.Plain])).mpr fun _ he => absurd he List.not_mem_nil

theorem all_nclip {Q : Event → Prop} (hQ : ∀ e : Event, e.Plain → Q e) : (nclip g).All Q := by
  rw [nclip, all_setErrorFlag]
  exact (all_meet_plain hQ (by simp [Event.Plain])).mpr fun _ he => absurd he List.not_mem_nil

theorem inRange_dpcl : (dpcl w g).All Event.InRange ↔ CueFits g (dpclIr w g) := by
  have hStored : (((begin g).accumulate (tinted (components g.rgbc) g)).store (instrLm w)
      ((tinted (components g.rgbc) g).map (sar 8))).regs.inputs = g.inputs :=
    (inputs_closed g).store ((inputs_closed g).meet _ rfl) _ _
  have hFits : Accumulated Event.InRange (tinted (components g.rgbc) g) := by
    have hZero : (tinted (components g.rgbc) g).map (shl 0) = tinted (components g.rgbc) g := by
      simp [Vec3.map, shl]
    rw [← hZero]
    exact fits_tinted _ _ 0 (by norm_num)
  rw [dpcl, all_setErrorFlag, all_pushColour inRange_of_plain, inRange_depthCueFromIr hStored,
    all_store inRange_of_plain, all_accumulate, and_iff_left hFits, and_iff_right (inRange_begin g)]
  rfl

theorem unflagged_dpcl : (dpcl w g).All Event.Unflagged := by
  rw [dpcl, all_setErrorFlag, all_pushColour unflagged_of_plain]
  refine unflagged_depthCueFromIr ((all_store unflagged_of_plain _ _).mpr ?_)
  exact (all_accumulate _).mpr ⟨unflagged_begin g, accumulated_unflagged _⟩

section Vertices

variable (internal : (GTEState → Vec3 (BitVec 16)) → Pass → Pass)
  (hTurn : ∀ {q : Pass} (v : GTEState → Vec3 (BitVec 16)), q.All Event.Unflagged →
    (internal v q).All Event.Unflagged)
include hTurn

theorem unflagged_single : (single internal g).All Event.Unflagged := by
  rw [single, all_setErrorFlag]
  exact hTurn _ (unflagged_begin g)

theorem unflagged_triple : (triple internal g).All Event.Unflagged := by
  rw [triple, all_setErrorFlag]
  exact hTurn _ (hTurn _ (hTurn _ (unflagged_begin g)))

end Vertices

theorem unflagged_nccsInternal {q : Pass} (v : GTEState → Vec3 (BitVec 16))
    (hq : q.All Event.Unflagged) : (nccsInternal w v q).All Event.Unflagged :=
  unflagged_colorOutput (unflagged_lightColor (unflagged_lightTransform hq))

theorem unflagged_ncsInternal {q : Pass} (v : GTEState → Vec3 (BitVec 16))
    (hq : q.All Event.Unflagged) : (ncsInternal w v q).All Event.Unflagged :=
  (all_pushColour unflagged_of_plain).mpr
    (unflagged_lightColor (unflagged_lightTransform hq))

theorem unflagged_ncdsInternal {q : Pass} (v : GTEState → Vec3 (BitVec 16))
    (hq : q.All Event.Unflagged) : (ncdsInternal w v q).All Event.Unflagged :=
  unflagged_colorOutput
    (unflagged_depthCueFromIr (unflagged_lightColor (unflagged_lightTransform hq)))

theorem unflagged_rtps : (rtps ws g).All Event.Unflagged := by
  rw [rtps, all_setErrorFlag]
  exact unflagged_rtpsInternal (unflagged_begin g)

theorem unflagged_op : (op w g).All Event.Unflagged := by
  rw [op, all_setErrorFlag]
  exact unflagged_general _

theorem unflagged_sqr : (sqr w g).All Event.Unflagged := by
  rw [sqr, all_setErrorFlag]
  exact unflagged_general _

theorem unflagged_gpf : (gpf w g).All Event.Unflagged := by
  rw [gpf, all_setErrorFlag, all_pushColour unflagged_of_plain]
  exact unflagged_general _

theorem unflagged_gpl : (gpl w g).All Event.Unflagged := by
  rw [gpl, all_setErrorFlag, all_pushColour unflagged_of_plain]
  exact unflagged_general _

theorem unflagged_dpcs : (dpcs w g).All Event.Unflagged := by
  rw [dpcs, all_setErrorFlag]
  exact unflagged_dpcsInternal (unflagged_begin g)

theorem unflagged_intpl : (intpl w g).All Event.Unflagged := by
  rw [intpl, all_setErrorFlag, all_pushColour unflagged_of_plain]
  exact unflagged_depthCueFromIr (unflagged_begin g)

theorem unflagged_cdp : (cdp w g).All Event.Unflagged := by
  rw [cdp, all_setErrorFlag]
  exact unflagged_colorOutput
    (unflagged_depthCueFromIr (unflagged_lightColor (unflagged_begin g)))

theorem unflagged_cc : (cc w g).All Event.Unflagged := by
  rw [cc, all_setErrorFlag]
  exact unflagged_colorOutput (unflagged_lightColor (unflagged_begin g))

theorem unflagged_nccs : (nccs w g).All Event.Unflagged :=
  unflagged_single (nccsInternal w) unflagged_nccsInternal

theorem unflagged_ncs : (ncs w g).All Event.Unflagged :=
  unflagged_single (ncsInternal w) unflagged_ncsInternal

theorem unflagged_ncds : (ncds w g).All Event.Unflagged :=
  unflagged_single (ncdsInternal w) unflagged_ncdsInternal

theorem unflagged_ncct : (ncct w g).All Event.Unflagged :=
  unflagged_triple (nccsInternal w) unflagged_nccsInternal

theorem unflagged_nct : (nct w g).All Event.Unflagged :=
  unflagged_triple (ncsInternal w) unflagged_ncsInternal

theorem unflagged_ncdt : (ncdt w g).All Event.Unflagged :=
  unflagged_triple (ncdsInternal w) unflagged_ncdsInternal

theorem unflagged_dpct : (dpct w g).All Event.Unflagged := by
  rw [dpct, all_setErrorFlag]
  exact unflagged_dpcsInternal (unflagged_dpcsInternal (unflagged_dpcsInternal (unflagged_begin g)))

theorem unflagged_rtpt : (rtpt ws g).All Event.Unflagged := by
  rw [rtpt, all_setErrorFlag]
  exact unflagged_rtpsInternal (unflagged_rtpsInternal (unflagged_rtpsInternal (unflagged_begin g)))

theorem inRange_rtps : (rtps ws g).All Event.InRange ↔ Fits (rotated g g.v0) := by
  rw [rtps, all_setErrorFlag, inRange_rtpsInternal (g := g) rfl rfl,
    and_iff_right (inRange_begin g)]

theorem inRange_op : (op w g).All Event.InRange := by
  rw [op, all_setErrorFlag]
  exact (inRange_general _).mpr (fits_opAcc g)

theorem inRange_sqr : (sqr w g).All Event.InRange := by
  rw [sqr, all_setErrorFlag]
  exact (inRange_general _).mpr (fits_squares g)

theorem inRange_gpf : (gpf w g).All Event.InRange := by
  rw [gpf, all_setErrorFlag, all_pushColour inRange_of_plain]
  exact (inRange_general _).mpr (fits_ir0Scaled g)

theorem inRange_gpl : (gpl w g).All Event.InRange ↔ Fits (gplAcc w g) := by
  rw [gpl, all_setErrorFlag, all_pushColour inRange_of_plain, inRange_general]

theorem inRange_cc : (cc w g).All Event.InRange ↔ ColourFits g g.irVec := by
  rw [cc, all_setErrorFlag, inRange_colorOutput, inRange_lightColor (g := g) rfl,
    and_iff_right (inRange_begin g)]
  rfl

theorem inRange_cdp : (cdp w g).All Event.InRange ↔
    ColourFits g g.irVec ∧ CueFits g (colouredIr w g g.irVec) := by
  have hBegin : (begin g).regs.inputs = g.inputs := rfl
  have hColoured : (lightColor w (begin g)).regs.inputs = g.inputs :=
    (inputs_closed g).lightColor hBegin
  rw [cdp, all_setErrorFlag, inRange_colorOutput, inRange_depthCueFromIr hColoured,
    inRange_lightColor hBegin, irVec_lightColor hBegin, and_iff_right (inRange_begin g)]
  rfl

theorem inRange_intpl : (intpl w g).All Event.InRange ↔ CueFits g g.irVec := by
  rw [intpl, all_setErrorFlag, all_pushColour inRange_of_plain,
    inRange_depthCueFromIr (g := g) rfl, and_iff_right (inRange_begin g)]
  rfl

theorem inRange_dpcs : (dpcs w g).All Event.InRange ↔ CueFits g (shownIr g.rgbc) := by
  rw [dpcs, all_setErrorFlag, inRange_dpcsInternal (g := g) rfl, and_iff_right (inRange_begin g)]
  rfl

theorem documented_command (hCommand : command ws w g = some p) :
    Documented p.regs.flag p.log ↔ FlagsExact w g := by
  have hWhole := hCommand
  unfold command at hCommand
  unfold FlagsExact
  split at hCommand <;> rename_i hFunc <;> cases hCommand <;> rw [hFunc]
  case h_1 => exact documented_of_quiet hWhole unflagged_rtps inRange_rtps
  case h_2 =>
    exact documented_of_quiet hWhole (all_nclip unflagged_of_plain)
      (iff_of_true (all_nclip inRange_of_plain) trivial)
  case h_3 => exact documented_of_quiet hWhole unflagged_op (iff_of_true inRange_op trivial)
  case h_4 => exact documented_of_quiet hWhole unflagged_dpcs inRange_dpcs
  case h_5 => exact documented_of_quiet hWhole unflagged_intpl inRange_intpl
  case h_6 => exact documented_mvmva hWhole
  case h_7 =>
    exact documented_of_quiet hWhole unflagged_ncds (inRange_single (adds_ncdsInternal w))
  case h_8 => exact documented_of_quiet hWhole unflagged_cdp inRange_cdp
  case h_9 =>
    exact documented_of_quiet hWhole unflagged_ncdt (inRange_triple (adds_ncdsInternal w))
  case h_10 =>
    exact documented_of_quiet hWhole unflagged_nccs (inRange_single (adds_nccsInternal w))
  case h_11 => exact documented_of_quiet hWhole unflagged_cc inRange_cc
  case h_12 => exact documented_of_quiet hWhole unflagged_ncs (inRange_single (adds_ncsInternal w))
  case h_13 => exact documented_of_quiet hWhole unflagged_nct (inRange_triple (adds_ncsInternal w))
  case h_14 => exact documented_of_quiet hWhole unflagged_sqr (iff_of_true inRange_sqr trivial)
  case h_15 => exact documented_of_quiet hWhole unflagged_dpcl inRange_dpcl
  case h_16 => exact documented_of_quiet hWhole unflagged_dpct (inRange_dpct w)
  case h_17 =>
    exact documented_of_quiet hWhole (all_averageSz unflagged_of_plain _)
      (iff_of_true (all_averageSz inRange_of_plain _) trivial)
  case h_18 =>
    exact documented_of_quiet hWhole (all_averageSz unflagged_of_plain _)
      (iff_of_true (all_averageSz inRange_of_plain _) trivial)
  case h_19 => exact documented_of_quiet hWhole unflagged_rtpt (inRange_rtpt ws)
  case h_20 => exact documented_of_quiet hWhole unflagged_gpf (iff_of_true inRange_gpf trivial)
  case h_21 => exact documented_of_quiet hWhole unflagged_gpl inRange_gpl
  case h_22 =>
    exact documented_of_quiet hWhole unflagged_ncct (inRange_triple (adds_nccsInternal w))

/-- A write keeps the error bits and never sets the summary. -/
theorem ctc2_flag_summarised (g : GTEState) (v : Word) :
    Summarised (ctc2 g 31 v).flag ↔ v &&& flagErrorMask = 0 := by
  have hFlag : (ctc2 g 31 v).flag = v &&& 0x7FFFF000#32 := rfl
  have hMasked : v &&& 0x7FFFF000#32 &&& flagErrorMask = v &&& flagErrorMask := by
    rw [BitVec.and_assoc]
    rfl
  have hClear : ¬(v &&& 0x7FFFF000#32).getLsbD 31 = true := by
    rw [BitVec.getLsbD_and]
    simp
  rw [Summarised, hFlag, ← masked_ne_zero_iff, hMasked]
  exact ⟨fun h => not_not.mp (mt h.mpr hClear), fun h => iff_of_false hClear (not_not.mpr h)⟩

/-- The whole register: after a command it is as documented exactly if the flags of the command are
exact in the state, and after a write bit 31 sums it up exactly if no error bit was written. -/
theorem flag_register_documented (ws : Widescreen) (w : Word) (g : GTEState) (v : Word) :
    (∀ p, command ws w g = some p → (Documented p.regs.flag p.log ↔ FlagsExact w g)) ∧
    (Summarised (ctc2 g 31 v).flag ↔ v &&& flagErrorMask = 0) :=
  ⟨fun _ => documented_command, ctc2_flag_summarised g v⟩

end Exact

/-- A translation at its bound, and a product that carries the first accumulator
beyond 43 bits. -/
def farTranslation : GTEState :=
  unpackRegisters (Function.update (fun _ => 0) 0 0x1000#32)
    (Function.update (Function.update (fun _ => 0) 0 0x1000#32) 5 0x7FFFFFFF#32) false

/-- `RTPS` misses an overflow, and a write of an overflow bit leaves the summary
clear. -/
theorem flag_register_misses :
    (∃ p, command nativeScreen 0x180001#32 farTranslation = some p ∧
      ¬Documented p.regs.flag p.log) ∧
    ¬Summarised (ctc2 farTranslation 31 0x40000000#32).flag := by
  refine ⟨⟨_, rfl, fun hDocumented => ?_⟩, fun hSummarised => ?_⟩
  · have hFits : Fits (rotated farTranslation farTranslation.v0) :=
      (@documented_command nativeScreen 0x180001#32 _ _ rfl).mp hDocumented
    exact absurd hFits.1.2 (by decide)
  · exact absurd ((ctc2_flag_summarised farTranslation _).mp hSummarised) (by decide)

end RecompStudio.Gte
