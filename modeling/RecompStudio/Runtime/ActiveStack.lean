import RecompStudio.Runtime.OverlayPasses

/-!
Nested activations of native candidates. The host's stack holds a frame for each
native function that runs, and the loader keeps a stack of its own for the check
of stores into running code. The two part when the loader's stack is full, when a
host unwind skips a frame, in the native pass of a shadow run, and while the pump
behind a dispatch delivers an interrupt.
-/

namespace RecompStudio.Runtime

open RecompStudio.Machine

namespace Loader

variable (s : Loader) (d : DispatchInput)

/-- The candidate that a dispatch runs in the shadow of the interpreter: the
chain of an entry ends at its first valid candidate. -/
def shadowed : Option Nat :=
  match (s.passes d).2 with
  | some (.shadow _) =>
      ((s.passes d).1.chain (d.addr % 0x20000000)).find? fun i =>
        ((s.passes d).1.cands[i]?).any fun c => c.state = .valid
  | _ => none

end Loader

/-- The parts of `run_shadow_diff`: the interpreter's pass, the native function,
and the dispatches that follow it to its return. -/
inductive ShadowPhase where
  | interp | native | chain
deriving DecidableEq, Repr

/-- The frames of the host's stack that the loader takes part in. -/
inductive HostFrame where
  /-- The native function of a candidate, called by a dispatch. -/
  | native (i : Nat)
  /-- A dispatch whose native function has returned, in `overlay_post_dispatch_irq_pump`. -/
  | pump
  | shadow (phase : ShadowPhase) (i : Nat)
  /-- A delivery of an interrupt, with the epoch of its `setjmp`. -/
  | handler (epoch : Nat)
deriving DecidableEq, Repr

/-- The candidate whose native function a frame executes. -/
@[grind =] def HostFrame.executing : HostFrame → Option Nat
  | .native i | .shadow .native i => some i
  | .pump | .shadow .interp _ | .shadow .chain _ | .handler _ => none

/-- The globals of a shadow run. -/
structure ShadowRun where
  inShadow : Bool
  cand : Option Nat
  epoch : Nat
  savedNativeExec : Bool
  savedSupp : Bool

structure NativeHost where
  loader : Loader
  /-- Innermost first. -/
  frames : List HostFrame
  shadow : ShadowRun
  nativeExec : Bool
  suppressIrq : Bool
  /-- `g_exc_setjmp_epoch`. -/
  setjmpEpoch : Nat

/-- What happens to the host. The stores are those that devices make in the cycles
that a flush commits. -/
inductive HostEvent where
  | register (f : DllFunction)
  | registerSljit (shard : SljitShard)
  | store (st : GuestStore)
  | dispatch (d : DispatchInput)
  /-- A native function returns to its dispatch, which may pump interrupts. -/
  | returned (flush : List GuestStore) (pumps : Bool)
  | pumped
  | shadowNative
  | shadowReturned (flush : List GuestStore)
  | shadowEnd (passes : Nat) (touch : Bool) (ram : Nat → Byte)
  | interrupt
  /-- A handler returns without an unwind. -/
  | handled
  /-- A jump to the armed handler, which dispatches again or ends. -/
  | unwind (redirect : Bool) (flush : List GuestStore)

namespace NativeHost

variable (T : KernelBodies) (h : NativeHost)

/-- The candidates whose native functions are being executed. -/
@[grind =] def executing : List Nat := h.frames.filterMap HostFrame.executing

def inException : Bool := h.frames.any fun f => f matches .handler _

/-- A dispatch sees the host's own flags. -/
def input (d : DispatchInput) : DispatchInput :=
  { d with settings := { d.settings with
      nativeExec := h.nativeExec
      inException := h.inException
      inShadow := h.shadow.inShadow
      shadowCand := h.shadow.cand } }

def flush (stores : List GuestStore) : NativeHost :=
  { h with loader := stores.foldl (Loader.store T) h.loader }

/-- `overlay_loader_dispatch`, up to the call of a native function. -/
def dispatch (d : DispatchInput) : NativeHost :=
  let after := { h with loader := (h.loader.dispatch T (h.input d)).1 }
  match h.loader.called (h.input d), h.loader.shadowed (h.input d) with
  | some i, _ => { after with frames := .native i :: h.frames }
  | none, some i =>
      { after with
        frames := .shadow .interp i :: h.frames
        shadow := ⟨true, h.shadow.cand, h.setjmpEpoch, h.nativeExec, h.suppressIrq⟩
        nativeExec := false
        suppressIrq := true }
  | none, none => after

/-- The end of a dispatch behind the call of its native function. -/
def returned (stores : List GuestStore) (pumps : Bool) : NativeHost :=
  match h.frames with
  | .native _ :: rest =>
      let after := h.flush T stores
      if pumps then { after with frames := .pump :: rest }
      else { after with loader := after.loader.pop, frames := rest }
  | _ => h

def pumped : NativeHost :=
  match h.frames with
  | .pump :: rest => { h with loader := h.loader.pop, frames := rest }
  | _ => h

def shadowNative : NativeHost :=
  match h.frames with
  | .shadow .interp i :: rest =>
      { h with
        frames := .shadow .native i :: rest
        shadow := { h.shadow with cand := some i } }
  | _ => h

def shadowReturned (stores : List GuestStore) : NativeHost :=
  match h.frames with
  | .shadow .native i :: rest => { h.flush T stores with frames := .shadow .chain i :: rest }
  | _ => h

/-- The epilogue of `run_shadow_diff`. A candidate that touched a device has had no
native pass. -/
def shadowEnd (passes : Nat) (touch : Bool) (ram : Nat → Byte) : NativeHost :=
  match h.frames with
  | .shadow .interp i :: rest | .shadow .chain i :: rest =>
      { h with
        loader := h.loader.shadowEnd i passes touch ram
        frames := rest
        shadow := { h.shadow with inShadow := false, cand := none }
        nativeExec := h.shadow.savedNativeExec
        suppressIrq := h.shadow.savedSupp }
  | _ => h

def interrupt : NativeHost :=
  { h with frames := .handler (h.setjmpEpoch + 1) :: h.frames, setjmpEpoch := h.setjmpEpoch + 1 }

def handled : NativeHost :=
  match h.frames with
  | .handler _ :: rest => { h with frames := rest }
  | _ => h

/-- `overlay_loader_shadow_escape_fixup`. -/
def shadowEscapeFixup (stores : List GuestStore) (target : Nat) : NativeHost :=
  let after := h.flush T stores
  if !h.shadow.inShadow then after
  else if h.shadow.epoch < target then after
  else
    { after with
      shadow := { h.shadow with inShadow := false, cand := none }
      nativeExec := h.shadow.savedNativeExec
      suppressIrq := h.shadow.savedSupp }

/-- The frames above the armed handler, which a jump to it leaves. -/
def skipped : List HostFrame := h.frames.takeWhile (· ≠ .handler h.setjmpEpoch)

/-- `deferred_exception_longjmp`. A handler that dispatches again keeps its frame. -/
def unwind (redirect : Bool) (stores : List GuestStore) : NativeHost :=
  match h.frames.dropWhile (· ≠ .handler h.setjmpEpoch) with
  | [] => h
  | armed :: rest =>
      { h.shadowEscapeFixup T stores h.setjmpEpoch with
        frames := if redirect then armed :: rest else rest }

end NativeHost

def hostStep (T : KernelBodies) (h : NativeHost) : HostEvent → NativeHost
  | .register f => { h with loader := h.loader.candRegister f }
  | .registerSljit shard => { h with loader := h.loader.registerSljit shard }
  | .store st => { h with loader := h.loader.store T st }
  | .dispatch d => h.dispatch T d
  | .returned stores pumps => h.returned T stores pumps
  | .pumped => h.pumped
  | .shadowNative => h.shadowNative
  | .shadowReturned stores => h.shadowReturned T stores
  | .shadowEnd passes touch ram => h.shadowEnd passes touch ram
  | .interrupt => h.interrupt
  | .handled => h.handled
  | .unwind redirect stores => h.unwind T redirect stores

namespace NativeHost

variable {T : KernelBodies} {h : NativeHost}

/-- The loader's stack is the list of the running candidates, and neither a pump
nor the native pass of a shadow run is under way. -/
structure Balanced (h : NativeHost) : Prop where
  watched : h.loader.Watched
  active : h.loader.active = h.executing
  plain : ∀ f ∈ h.frames, f ≠ .pump ∧ ∀ i, f ≠ .shadow .native i

/-- The steps on which the loader's stack relies: it has room for the candidate
that a dispatch calls, the pump behind a dispatch delivers nothing, no shadow run
gets to its native pass, and an unwind skips no native function. -/
def StepOk (h : NativeHost) : HostEvent → Prop
  | .dispatch d => h.loader.called (h.input d) ≠ none → h.loader.active.length < 64
  | .returned _ pumps => pumps = false
  | .shadowNative => False
  | .unwind _ _ => ∀ f ∈ h.skipped, f.executing = none
  | _ => True

theorem Balanced.dispatch (hBalanced : h.Balanced) (d : DispatchInput)
    (hRoom : h.loader.called (h.input d) ≠ none → h.loader.active.length < 64) :
    (h.dispatch T d).Balanced := by
  have hWatched := Loader.dispatch_watched T hBalanced.watched (h.input d)
  have hActive := Loader.dispatch_active T h.loader (h.input d) hRoom
  unfold NativeHost.dispatch
  dsimp only
  split
  · rename_i i hCalled
    rw [hCalled, hBalanced.active] at hActive
    exact ⟨hWatched, hActive, List.forall_mem_cons.mpr ⟨by simp, hBalanced.plain⟩⟩
  · rename_i i hCalled hShadowed
    rw [hCalled, hBalanced.active] at hActive
    exact ⟨hWatched, hActive, List.forall_mem_cons.mpr ⟨by simp, hBalanced.plain⟩⟩
  · rename_i hCalled hShadowed
    rw [hCalled, hBalanced.active] at hActive
    exact ⟨hWatched, hActive, hBalanced.plain⟩

theorem Balanced.returned (hBalanced : h.Balanced) (stores : List GuestStore) :
    (h.returned T stores false).Balanced := by
  have hActive := hBalanced.active
  unfold NativeHost.returned
  split
  · rename_i i rest hFrames
    have hWatched := Loader.flush_watched T stores hBalanced.watched
    have hPlain := hBalanced.plain
    rw [hFrames] at hPlain
    refine ⟨hWatched, ?_, fun f hf => hPlain f (List.mem_cons_of_mem _ hf)⟩
    rw [executing, hFrames] at hActive
    have hPopped : (stores.foldl (Loader.store T) h.loader).pop.active = h.loader.active.tail := by
      rw [Loader.pop, Loader.flush_active]
    exact hPopped.trans (congrArg List.tail hActive)
  · exact hBalanced

theorem Balanced.pumped (hBalanced : h.Balanced) : h.pumped.Balanced := by
  unfold NativeHost.pumped
  split
  · rename_i rest hFrames
    exact absurd rfl (hBalanced.plain .pump (hFrames ▸ List.mem_cons_self)).1
  · exact hBalanced

theorem Balanced.shadowReturned (hBalanced : h.Balanced) (stores : List GuestStore) :
    (h.shadowReturned T stores).Balanced := by
  unfold NativeHost.shadowReturned
  split
  · rename_i i rest hFrames
    exact absurd rfl ((hBalanced.plain (.shadow .native i) (hFrames ▸ List.mem_cons_self)).2 i)
  · exact hBalanced

/-- The end of a frame in which no native function runs. -/
theorem Balanced.tail (hBalanced : h.Balanced) {f : HostFrame} {rest : List HostFrame}
    (hFrames : h.frames = f :: rest) (hSilent : f.executing = none) {s : Loader}
    (hWatched : s.Watched) (hActive : s.active = h.loader.active) (shadow : ShadowRun)
    (nativeExec suppressIrq : Bool) :
    Balanced ⟨s, rest, shadow, nativeExec, suppressIrq, h.setjmpEpoch⟩ := by
  have hSame := hBalanced.active
  have hPlain := hBalanced.plain
  rw [hFrames] at hPlain
  rw [executing, hFrames, List.filterMap_cons_none hSilent] at hSame
  exact ⟨hWatched, hActive.trans hSame, fun g hg => hPlain g (List.mem_cons_of_mem _ hg)⟩

theorem Balanced.shadowEnd (hBalanced : h.Balanced) (passes : Nat) (touch : Bool)
    (ram : Nat → Byte) : (h.shadowEnd passes touch ram).Balanced := by
  unfold NativeHost.shadowEnd
  split
  · rename_i i rest hFrames
    exact hBalanced.tail hFrames rfl
      (Loader.shadowEnd_watched hBalanced.watched i passes touch ram) rfl _ _ _
  · rename_i i rest hFrames
    exact hBalanced.tail hFrames rfl
      (Loader.shadowEnd_watched hBalanced.watched i passes touch ram) rfl _ _ _
  · exact hBalanced

theorem Balanced.handled (hBalanced : h.Balanced) : h.handled.Balanced := by
  unfold NativeHost.handled
  split
  · rename_i epoch rest hFrames
    exact hBalanced.tail hFrames rfl hBalanced.watched rfl _ _ _
  · exact hBalanced

theorem shadowEscapeFixup_loader (stores : List GuestStore) (target : Nat) :
    (h.shadowEscapeFixup T stores target).loader = stores.foldl (Loader.store T) h.loader := by
  unfold shadowEscapeFixup
  dsimp only
  split_ifs <;> rfl

/-- An unwind that skips no native function. -/
theorem Balanced.unwind (hBalanced : h.Balanced) (redirect : Bool) (stores : List GuestStore)
    (hSkipped : ∀ f ∈ h.skipped, f.executing = none) :
    (h.unwind T redirect stores).Balanced := by
  unfold NativeHost.unwind
  split
  · exact hBalanced
  · rename_i armed rest hArmed
    have hSplit : h.skipped ++ armed :: rest = h.frames := by
      rw [skipped, ← hArmed]
      exact List.takeWhile_append_dropWhile
    have hHandler : armed = .handler h.setjmpEpoch := by
      have hHead := List.head?_dropWhile_not (· ≠ HostFrame.handler h.setjmpEpoch) h.frames
      rw [hArmed] at hHead
      simpa using hHead
    have hSilent : armed.executing = none := by
      rw [hHandler]
      rfl
    have hExecuting : h.executing = rest.filterMap HostFrame.executing := by
      rw [executing, ← hSplit, List.filterMap_append, List.filterMap_cons_none hSilent,
        List.filterMap_eq_nil_iff.mpr hSkipped, List.nil_append]
    have hLoader := shadowEscapeFixup_loader (T := T) (h := h) stores h.setjmpEpoch
    have hActive : (h.shadowEscapeFixup T stores h.setjmpEpoch).loader.active =
        rest.filterMap HostFrame.executing := by
      rw [hLoader, Loader.flush_active, hBalanced.active, hExecuting]
    have hWatched : (h.shadowEscapeFixup T stores h.setjmpEpoch).loader.Watched := by
      rw [hLoader]
      exact Loader.flush_watched T stores hBalanced.watched
    have hKept : ∀ f ∈ armed :: rest, f ≠ .pump ∧ ∀ i, f ≠ .shadow .native i :=
      fun f hf => hBalanced.plain f (hSplit ▸ List.mem_append_right _ hf)
    cases redirect with
    | true => exact ⟨hWatched, hActive.trans (List.filterMap_cons_none hSilent).symm, hKept⟩
    | false => exact ⟨hWatched, hActive, fun f hf => hKept f (List.mem_cons_of_mem _ hf)⟩

theorem hostStep_balanced (hBalanced : h.Balanced) (e : HostEvent) (hOk : h.StepOk e) :
    (hostStep T h e).Balanced := by
  cases e with
  | register f =>
      have hSame := congrArg Loader.active
        (Loader.candRegister_withActive h.loader.active h.loader f)
      exact ⟨Loader.watched_kept.register f hBalanced.watched, hSame.trans hBalanced.active,
        hBalanced.plain⟩
  | registerSljit shard =>
      have hSame := congrArg Loader.active
        (Loader.registerSljit_withActive h.loader.active h.loader shard)
      exact ⟨Loader.watched_kept.registerSljit shard hBalanced.watched,
        hSame.trans hBalanced.active, hBalanced.plain⟩
  | store st =>
      exact ⟨Loader.store_watched T hBalanced.watched st,
        (Loader.store_active T h.loader st).trans hBalanced.active, hBalanced.plain⟩
  | dispatch d => exact hBalanced.dispatch d hOk
  | returned stores pumps =>
      obtain rfl : pumps = false := hOk
      exact hBalanced.returned stores
  | pumped => exact hBalanced.pumped
  | shadowNative => exact hOk.elim
  | shadowReturned stores => exact hBalanced.shadowReturned stores
  | shadowEnd passes touch ram => exact hBalanced.shadowEnd passes touch ram
  | interrupt =>
      exact ⟨hBalanced.watched, hBalanced.active, List.forall_mem_cons.mpr
        ⟨by simp, hBalanced.plain⟩⟩
  | handled => exact hBalanced.handled
  | unwind redirect stores => exact hBalanced.unwind redirect stores hOk

end NativeHost

open NativeHost in
/-- In every run whose steps are such as the loader's stack relies on, that stack
is the list of the candidates whose native functions are being executed, and a store
into the code of one of them blacklists it. -/
theorem active_exact {T : KernelBodies} {start h : NativeHost} (hCands : start.loader.cands = [])
    (hActive : start.loader.active = []) (hFrames : start.frames = [])
    (hRun : Reach (hostStep T) StepOk start h) :
    h.loader.active = h.executing ∧
      ∀ (st : GuestStore) (i : Nat) (c : Candidate), i ∈ h.executing →
        h.loader.cands[i]? = some c → (∃ r ∈ c.ranges, r.Touched st.phys st.width.bytes) →
        st.Noted c →
        ∃ c', (h.loader.store T st).cands[i]? = some c' ∧ c'.state = .blacklist := by
  have hBalanced : h.Balanced := by
    refine hRun.invariant ⟨?_, ?_, ?_⟩ fun t e ht hOk => hostStep_balanced ht e hOk
    · intro c hc
      rw [hCands] at hc
      exact absurd hc List.not_mem_nil
    · rw [hActive, executing, hFrames]
      rfl
    · intro f hf
      rw [hFrames] at hf
      exact absurd hf List.not_mem_nil
  refine ⟨hBalanced.active, fun st i c hi hc hHit hNoted => ?_⟩
  rw [← hBalanced.active] at hi
  exact Loader.store_blacklists T hBalanced.watched hi hc hHit hNoted

def emptyHost : NativeHost := ⟨emptyLoader, [], ⟨false, none, 0, false, false⟩, true, false, 0⟩

/-- A candidate at `0x80010000`, called. -/
theorem active_exact_called :
    let h := hostStep oneBody
      (hostStep oneBody emptyHost (.register ⟨0x10000, [oneWord], none, 0⟩))
      (.dispatch plainDispatch)
    h.loader.active = h.executing ∧
      ∀ (st : GuestStore) (i : Nat) (c : Candidate), i ∈ h.executing →
        h.loader.cands[i]? = some c → (∃ r ∈ c.ranges, r.Touched st.phys st.width.bytes) →
        st.Noted c →
        ∃ c', (h.loader.store oneBody st).cands[i]? = some c' ∧ c'.state = .blacklist := by
  intro h
  have hRegistered : Reach (hostStep oneBody) NativeHost.StepOk emptyHost
      (hostStep oneBody emptyHost (.register ⟨0x10000, [oneWord], none, 0⟩)) :=
    Reach.start.next _ trivial
  have hRoom : (hostStep oneBody emptyHost
      (.register ⟨0x10000, [oneWord], none, 0⟩)).loader.active.length < 64 := by
    decide
  have hRun : Reach (hostStep oneBody) NativeHost.StepOk emptyHost h :=
    hRegistered.next (.dispatch plainDispatch) fun _ => hRoom
  exact active_exact rfl rfl rfl hRun

/-- A handler leaves a native function by `ReturnFromException`: the function is over,
its entry stays on the loader's stack. -/
theorem active_stale_after_unwind :
    ¬∀ (T : KernelBodies) (start h : NativeHost), start.loader.cands = [] →
      start.loader.active = [] → start.frames = [] →
      Reach (hostStep T) (fun _ _ => True) start h →
      h.loader.active = h.executing ∧
        ∀ (st : GuestStore) (i : Nat) (c : Candidate), i ∈ h.executing →
          h.loader.cands[i]? = some c → (∃ r ∈ c.ranges, r.Touched st.phys st.width.bytes) →
          ∃ c', (h.loader.store T st).cands[i]? = some c' ∧ c'.state = .blacklist := by
  intro hAll
  have hRun : Reach (hostStep oneBody) (fun _ _ => True) emptyHost _ :=
    Reach.start.run [.register ⟨0x10000, [oneWord], none, 0⟩, .interrupt, .dispatch plainDispatch,
      .unwind false []] fun _ _ _ => trivial
  have hSame := (hAll oneBody emptyHost _ rfl rfl rfl hRun).1
  revert hSame
  decide +kernel

end RecompStudio.Runtime
