import RecompStudio.Gte.Steps
import RecompStudio.Backends.GteMoves

/-!
The three descriptions of the register file: the bulk bridge, the moves one by
one, and the commands between them. What the working state keeps twice agrees
in every state that can be met, so that the bridge loses nothing.
-/

namespace RecompStudio.Gte

/-- The data registers that the moves load: not the one that pushes, nor the one
that is a lossy view of three others. -/
def loadedData : List RegIndex := ((List.finRange 32).map BitVec.ofFin).filter
  fun r => r != 15#5 && r != 28#5

def loadedCtrl : List RegIndex := (List.finRange 32).map BitVec.ofFin

/-- The registers written one by one into a state. What it was before does not
matter: every field is written. -/
def writeRegisters (g : GTEState) (d c : RegIndex → Word) : GTEState :=
  loadedCtrl.foldl (fun g r => ctc2 g r (c r)) (loadedData.foldl (fun g r => mtc2 g r (d r)) g)

theorem writeRegisters_eq (g : GTEState) (d c : RegIndex → Word) :
    writeRegisters g d c = unpackRegisters d c false := rfl

/-- The flags kept as stored are the one difference of the preserving bridge. -/
theorem unpackRegisters_preserving (g : GTEState) (d c : RegIndex → Word) :
    unpackRegisters d c true = { writeRegisters g d c with flag := c 31 } := rfl

theorem packData_eq_mfc2 (g : GTEState) (r : RegIndex) : packData g r = mfc2 g r := by
  obtain ⟨n, hn, rfl⟩ := exists_ofNat_regIndex r
  interval_cases n <;> rfl

theorem packCtrl_eq_cfc2 (g : GTEState) (r : RegIndex) : packCtrl g r = cfc2 g r := by
  obtain ⟨n, hn, rfl⟩ := exists_ofNat_regIndex r
  interval_cases n <;> rfl

/-- The bits of the flag register that a write keeps. -/
def flagWritable : Word := 0x7FFFF000#32

theorem unpackRegisters_pack_masked {g : GTEState} (hg : g.Consistent) :
    unpackRegisters (packData g) (packCtrl g) false =
      { g with flag := g.flag &&& flagWritable } := by
  have hPreserving := unpackRegisters_pack hg
  calc unpackRegisters (packData g) (packCtrl g) false
      = { unpackRegisters (packData g) (packCtrl g) true with
          flag := g.flag &&& flagWritable } := rfl
    _ = _ := by rw [hPreserving]

/-- The arrays after they went through the working state. -/
def bridged (preserve : Bool) (d c : RegIndex → Word) : (RegIndex → Word) × (RegIndex → Word) :=
  (packData (unpackRegisters d c preserve), packCtrl (unpackRegisters d c preserve))

theorem bridged_idempotent (preserve : Bool) (d c : RegIndex → Word) :
    bridged preserve (bridged preserve d c).1 (bridged preserve d c).2 = bridged preserve d c := by
  have hConsistent := consistent_unpackRegisters d c preserve
  cases preserve with
  | true => rw [bridged, bridged, unpackRegisters_pack hConsistent]
  | false =>
      have hMask : (c 31 &&& flagWritable) &&& flagWritable = c 31 &&& flagWritable := by
        rw [BitVec.and_assoc, BitVec.and_self]
      have hFlags : { unpackRegisters d c false with
          flag := (unpackRegisters d c false).flag &&& flagWritable } = unpackRegisters d c false :=
        congrArg (fun flag => { unpackRegisters d c false with flag := flag }) hMask
      rw [bridged, bridged, unpackRegisters_pack_masked hConsistent, hFlags]

/-- The one step that changes the screen coordinates writes both copies. -/
theorem consistent_closed : Closed fun p => p.regs.Consistent where
  meet _ hp := ⟨hp.sxy3, hp.lzcr⟩
  update hChange hp :=
    ⟨(hChange.sxy3 _).trans (hp.sxy3.trans (hChange.sxy2 _).symm),
      (hChange.lzcr _).trans (hp.lzcr.trans (congrArg leadingCount (hChange.lzcs _).symm))⟩
  pushSxy _ _ hp := ⟨rfl, hp.lzcr⟩

/-- Every command keeps the two copies in agreement. -/
theorem consistent_command {ws : Widescreen} {w : Word} {g : GTEState} {p : Pass}
    (hg : g.Consistent) (hCommand : command ws w g = some p) : p.regs.Consistent := by
  have hBegin : (begin g).regs.Consistent := ⟨hg.sxy3, hg.lzcr⟩
  obtain ⟨q, hq, rfl⟩ := consistent_closed.command hBegin hCommand
  exact ⟨hq.sxy3, hq.lzcr⟩

/-- The working states of `gte_execute` and of the register helpers. -/
inductive Reachable : GTEState → Prop where
  | load (d c : RegIndex → Word) (preserve : Bool) : Reachable (unpackRegisters d c preserve)
  | mtc2 {g : GTEState} (h : Reachable g) (r : RegIndex) (v : Word) : Reachable (mtc2 g r v)
  | ctc2 {g : GTEState} (h : Reachable g) (r : RegIndex) (v : Word) : Reachable (ctc2 g r v)
  | command {g : GTEState} {ws : Widescreen} {w : Word} {p : Pass} (h : Reachable g)
      (hCommand : command ws w g = some p) : Reachable p.regs

theorem Reachable.consistent {g : GTEState} (h : Reachable g) : g.Consistent := by
  induction h with
  | load d c preserve => exact consistent_unpackRegisters d c preserve
  | mtc2 _ r v ih => exact consistent_mtc2 ih r v
  | ctc2 _ r v ih => exact consistent_ctc2 ih r v
  | command _ hCommand ih => exact consistent_command ih hCommand

/-- The bridge, the moves one by one and the reads agree for every content of
the arrays, and on every state that can be met the preserving bridge loses
nothing; the other one loses the flag bits that a write masks. -/
theorem bridge_exact :
    (∀ g d c, unpackRegisters d c false = writeRegisters g d c ∧
      unpackRegisters d c true = { writeRegisters g d c with flag := c 31 }) ∧
    (∀ g r, packData g r = mfc2 g r ∧ packCtrl g r = cfc2 g r) ∧
    (∀ preserve d c, bridged preserve (bridged preserve d c).1 (bridged preserve d c).2 =
      bridged preserve d c) ∧
    (∀ g, g.Consistent → (∀ r v, (mtc2 g r v).Consistent ∧ (ctc2 g r v).Consistent) ∧
      ∀ ws w p, command ws w g = some p → p.regs.Consistent) ∧
    ∀ g, Reachable g → g.Consistent ∧
      unpackRegisters (packData g) (packCtrl g) true = g ∧
      unpackRegisters (packData g) (packCtrl g) false =
        { g with flag := g.flag &&& flagWritable } := by
  refine ⟨fun g d c => ⟨(writeRegisters_eq g d c).symm, unpackRegisters_preserving g d c⟩,
    fun g r => ⟨packData_eq_mfc2 g r, packCtrl_eq_cfc2 g r⟩, bridged_idempotent,
    fun g hg => ⟨fun r v => ⟨consistent_mtc2 hg r v, consistent_ctc2 hg r v⟩,
      fun ws w p hCommand => consistent_command hg hCommand⟩, fun g hReachable => ?_⟩
  have hConsistent := hReachable.consistent
  exact ⟨hConsistent, unpackRegisters_pack hConsistent, unpackRegisters_pack_masked hConsistent⟩

/-- An average depth below zero: the flags end with the error bit. -/
def negativeDepth : GTEState :=
  (avsz3 (unpackRegisters (Function.update (fun _ => 0) 19 0x1000#32)
    (Function.update (fun _ => 0) 29 0xFFFF#32) false)).regs

/-- The native presentation, without any widescreen setting. -/
def nativeScreen : Widescreen where
  xNum := 1
  xDen := 1
  presentNative43 := true
  suppress := false
  farThreshold := 900
  domeOn := false
  domeNum := 1
  domeDen := 1
  domeCallSites := []
  callerRa := 0
  xDen_ne := by decide
  domeDen_ne := by decide

/-- With the flags preserved the bridge is not the moves one by one; with the
flags masked it is not the inverse of packing. -/
theorem bridge_modes_differ :
    (∃ c : RegIndex → Word, ∀ g, unpackRegisters (fun _ => 0) c true ≠
      writeRegisters g (fun _ => 0) c) ∧
    Reachable negativeDepth ∧
      unpackRegisters (packData negativeDepth) (packCtrl negativeDepth) false ≠ negativeDepth := by
  refine ⟨⟨Function.update (fun _ => 0) 31 1, fun g hEq => ?_⟩, ?_, fun hEq => ?_⟩
  · exact absurd (congrArg GTEState.flag hEq) (by rw [writeRegisters_eq]; decide)
  · exact @Reachable.command _ nativeScreen 0x2D _ (Reachable.load _ _ false) rfl
  · exact absurd (congrArg GTEState.flag hEq) (by decide)

end RecompStudio.Gte
