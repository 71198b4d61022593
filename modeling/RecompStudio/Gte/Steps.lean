import RecompStudio.Gte.Commands

/-!
A command is a sequence of a few kinds of steps, whatever it computes. What
each kind keeps, every command keeps up to its error flag.
-/

namespace RecompStudio.Gte

/-- The registers that no command changes. -/
structure Inputs where
  v0 : Vec3 (BitVec 16)
  v1 : Vec3 (BitVec 16)
  v2 : Vec3 (BitVec 16)
  rgbc : Word
  rt : Mat3
  tr : Vec3 Word
  l : Mat3
  bk : Vec3 Word
  lc : Mat3
  fc : Vec3 Word
deriving DecidableEq, Repr

def GTEState.inputs (g : GTEState) : Inputs :=
  ⟨g.v0, g.v1, g.v2, g.rgbc, g.rt, g.tr, g.l, g.bk, g.lc, g.fc⟩

/-- A change that leaves the inputs, the flags, the screen coordinates and the
leading count. -/
structure Elsewhere (change : GTEState → GTEState) : Prop where
  inputs : ∀ g, (change g).inputs = g.inputs
  flag : ∀ g, (change g).flag = g.flag
  sxy2 : ∀ g, (change g).sxy2 = g.sxy2
  sxy3 : ∀ g, (change g).sxy3 = g.sxy3
  lzcs : ∀ g, (change g).lzcs = g.lzcs
  lzcr : ∀ g, (change g).lzcr = g.lzcr

/-- A property that every kind of step keeps. -/
structure Closed (P : Pass → Prop) : Prop where
  meet : ∀ {p : Pass} (events : List Event), P p → P (p.meet events)
  update : ∀ {p : Pass} {change : GTEState → GTEState}, Elsewhere change → P p →
    P (p.update change)
  pushSxy : ∀ {p : Pass} (sx sy : Int), P p → P (p.pushSxy sx sy)

namespace Closed

variable {P : Pass → Prop} (hP : Closed P) {p : Pass}
include hP

theorem setMac (hp : P p) (v : Vec3 Int) : P (p.setMac v) :=
  hP.update ⟨fun _ => rfl, fun _ => rfl, fun _ => rfl, fun _ => rfl, fun _ => rfl, fun _ => rfl⟩ hp

theorem setIr (hp : P p) (lm : Bool) (v : Vec3 Int) : P (p.setIr lm v) :=
  hP.update ⟨fun _ => rfl, fun _ => rfl, fun _ => rfl, fun _ => rfl, fun _ => rfl, fun _ => rfl⟩
    (hP.meet _ hp)

theorem store (hp : P p) (lm : Bool) (v : Vec3 Int) : P (p.store lm v) :=
  hP.setIr (hP.setMac hp v) _ _

theorem pushColour (hp : P p) : P p.pushColour := by
  unfold Pass.pushColour Pass.pushRgb
  refine hP.update ?_ (hP.meet _ hp)
  exact ⟨fun _ => rfl, fun _ => rfl, fun _ => rfl, fun _ => rfl, fun _ => rfl, fun _ => rfl⟩

theorem pushSz (hp : P p) (v : Int) : P (p.pushSz v) :=
  hP.update ⟨fun _ => rfl, fun _ => rfl, fun _ => rfl, fun _ => rfl, fun _ => rfl, fun _ => rfl⟩
    (hP.meet _ hp)

theorem setMac0 (hp : P p) : P p.setMac0 := by
  unfold Pass.setMac0
  refine hP.update ?_ (hP.meet _ hp)
  exact ⟨fun _ => rfl, fun _ => rfl, fun _ => rfl, fun _ => rfl, fun _ => rfl, fun _ => rfl⟩

section Stages

variable {w : Word} {v : GTEState → Vec3 (BitVec 16)}

theorem lightTransform (hp : P p) : P (lightTransform w v p) := hP.store (hP.meet _ hp) _ _

theorem lightColor (hp : P p) : P (lightColor w p) := hP.store (hP.meet _ hp) _ _

theorem colorOutput (hp : P p) : P (colorOutput w p) :=
  hP.pushColour (hP.store (hP.meet _ hp) _ _)

theorem depthCueFromIr (hp : P p) : P (depthCueFromIr w p) :=
  hP.store (hP.meet _ (hP.meet _ (hP.meet _ (hP.meet _ hp)))) _ _

theorem dpcsInternal {colour : GTEState → Word} (hp : P p) : P (dpcsInternal w colour p) :=
  hP.pushColour (hP.depthCueFromIr (hP.setIr hp _ _))

theorem rotate (hp : P p) : P (rotate v p) :=
  hP.pushSz (hP.store (hP.meet _ (hP.meet _ hp)) _ _) _

theorem project {ws : Widescreen} (hp : P p) : P (project ws p) := hP.pushSxy _ _ (hP.meet _ hp)

theorem rtpsInternal {ws : Widescreen} {setMac0 : Bool} (hp : P p) :
    P (rtpsInternal ws v setMac0 p) := by
  have hProjected : P (Gte.project ws (Gte.rotate v p)) := hP.project (hP.rotate hp)
  cases setMac0 with
  | false => exact hProjected
  | true => exact hP.setMac0 hProjected

end Stages

theorem nccsInternal (w : Word) (v : GTEState → Vec3 (BitVec 16)) (hp : P p) :
    P (nccsInternal w v p) := hP.colorOutput (hP.lightColor (hP.lightTransform hp))

theorem ncdsInternal (w : Word) (v : GTEState → Vec3 (BitVec 16)) (hp : P p) :
    P (ncdsInternal w v p) :=
  hP.colorOutput (hP.depthCueFromIr (hP.lightColor (hP.lightTransform hp)))

theorem ncsInternal (w : Word) (v : GTEState → Vec3 (BitVec 16)) (hp : P p) :
    P (ncsInternal w v p) := hP.pushColour (hP.lightColor (hP.lightTransform hp))

theorem general {g : GTEState} (hBegin : P (begin g)) (w : Word) (acc : Vec3 Int) :
    P (general w acc g) := hP.store (hP.meet _ hBegin) _ _

theorem averageSz {g : GTEState} (hBegin : P (begin g)) (scaled : Int) :
    ∃ q, P q ∧ averageSz g scaled = q.setErrorFlag := by
  refine ⟨_, hP.update ?_ (hP.meet _ hBegin), rfl⟩
  exact ⟨fun _ => rfl, fun _ => rfl, fun _ => rfl, fun _ => rfl, fun _ => rfl, fun _ => rfl⟩

/-- The whole command, before the error flag is set. -/
theorem command {ws : Widescreen} {w : Word} {g : GTEState} {p : Pass} (hBegin : P (begin g))
    (hCommand : command ws w g = some p) : ∃ q, P q ∧ p = q.setErrorFlag := by
  unfold Gte.command at hCommand
  split at hCommand <;> cases hCommand
  case h_1 => exact ⟨_, hP.rtpsInternal hBegin, rfl⟩
  case h_2 =>
    refine ⟨_, hP.update ?_ (hP.meet _ hBegin), rfl⟩
    exact ⟨fun _ => rfl, fun _ => rfl, fun _ => rfl, fun _ => rfl, fun _ => rfl, fun _ => rfl⟩
  case h_3 => exact ⟨_, hP.general hBegin w _, rfl⟩
  case h_4 => exact ⟨_, hP.dpcsInternal hBegin, rfl⟩
  case h_5 => exact ⟨_, hP.pushColour (hP.depthCueFromIr hBegin), rfl⟩
  case h_6 => exact ⟨_, hP.store (hP.meet _ (hP.meet _ hBegin)) _ _, rfl⟩
  case h_7 => exact ⟨_, hP.ncdsInternal w _ hBegin, rfl⟩
  case h_8 =>
    exact ⟨_, hP.colorOutput (hP.depthCueFromIr (hP.lightColor hBegin)), rfl⟩
  case h_9 =>
    exact ⟨_, hP.ncdsInternal w _ (hP.ncdsInternal w _ (hP.ncdsInternal w _ hBegin)), rfl⟩
  case h_10 => exact ⟨_, hP.nccsInternal w _ hBegin, rfl⟩
  case h_11 => exact ⟨_, hP.colorOutput (hP.lightColor hBegin), rfl⟩
  case h_12 => exact ⟨_, hP.ncsInternal w _ hBegin, rfl⟩
  case h_13 =>
    exact ⟨_, hP.ncsInternal w _ (hP.ncsInternal w _ (hP.ncsInternal w _ hBegin)), rfl⟩
  case h_14 => exact ⟨_, hP.general hBegin w _, rfl⟩
  case h_15 =>
    exact ⟨_, hP.pushColour (hP.depthCueFromIr (hP.store (hP.meet _ hBegin) _ _)), rfl⟩
  case h_16 =>
    exact ⟨_, hP.dpcsInternal (hP.dpcsInternal (hP.dpcsInternal hBegin)), rfl⟩
  case h_17 => exact hP.averageSz hBegin _
  case h_18 => exact hP.averageSz hBegin _
  case h_19 =>
    exact ⟨_, hP.rtpsInternal (hP.rtpsInternal (hP.rtpsInternal hBegin)), rfl⟩
  case h_20 => exact ⟨_, hP.pushColour (hP.general hBegin w _), rfl⟩
  case h_21 => exact ⟨_, hP.pushColour (hP.general hBegin w _), rfl⟩
  case h_22 =>
    exact ⟨_, hP.nccsInternal w _ (hP.nccsInternal w _ (hP.nccsInternal w _ hBegin)), rfl⟩

end Closed

end RecompStudio.Gte
