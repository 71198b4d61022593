import RecompStudio.Cpu.State
import RecompStudio.Runtime.ActiveStack

/-!
The answers of `overlay_loader_dispatch`. A native function that is entered at an
address which is none of its own raises `g_native_bad_entry` and returns at once. The
flag is one for all activations, and whichever dispatch comes to the end of its call
next takes it for its own.
-/

namespace RecompStudio.Runtime

open RecompStudio.Machine

/-- The entry switch of a generated function. A function of one block has no
continuations, and no switch. -/
structure EntrySwitch where
  start : Word
  conts : List Word

namespace EntrySwitch

variable (f : EntrySwitch) (pc : Word)

def Accepts : Prop := f.conts = [] ∨ pc = 0 ∨ pc ∈ f.conts ∨ pc = f.start

instance : Decidable (f.Accepts pc) := inferInstanceAs (Decidable (_ ∨ _))

/-- The switch takes the address out of `cpu->pc` and puts a foreign one back. -/
def pcBehind : Word := if f.conts ≠ [] ∧ f.Accepts pc then 0 else pc

theorem pcBehind_of_not_accepts (hForeign : ¬f.Accepts pc) : f.pcBehind pc = pc :=
  if_neg fun h => hForeign h.2

end EntrySwitch

/-- What a dispatch does not decide by itself: the switch of each candidate's function,
and where `dirty_ram_dispatch` interprets. -/
structure EntryWorld where
  bodies : KernelBodies
  switch : Nat → EntrySwitch
  interprets : Memory → Nat → Bool

/-- A dispatch on the host's stack, with the guest as it was at the call. -/
structure DispatchCall where
  id : Nat
  addr : Nat
  cpu : CPUState Unit
  ram : Nat → Byte
  /-- How often the function has been entered for good. The native pass of a shadow
  run is thrown away. -/
  entered : Nat

/-- A dispatch that has returned. -/
structure DispatchEnd where
  call : DispatchCall
  ret : Bool
  /-- The dispatch whose function raised the flag that this one has found. -/
  consumed : Option Nat
  cpu : CPUState Unit
  ram : Nat → Byte

/-- A dispatch without success leaves the guest as it was, but for the address that it
was asked for. One with success has entered the function once, and no dispatch finds the
flag of another one. -/
structure DispatchEnd.Right (r : DispatchEnd) : Prop where
  refused : r.ret = false → r.call.entered = 0 ∧ r.ram = r.call.ram ∧
    ∃ pc, r.cpu = { r.call.cpu with pc := pc } ∧
      (pc = r.call.cpu.pc ∨ pc = BitVec.ofNat 32 r.call.addr)
  ran : r.ret = true → r.call.entered = 1
  own : ∀ id, r.consumed = some id → id = r.call.id

structure EntryHost where
  host : NativeHost
  cpu : CPUState Unit
  /-- The dispatches on the host's stack, with a gap for each handler. -/
  calls : List (Option DispatchCall)
  /-- `g_native_bad_entry`, with the dispatch whose function has raised it. -/
  badEntry : Option Nat
  made : Nat
  ends : List DispatchEnd

/-- What happens to the host. Where a function returns at once, the dispatch also says
what is committed behind it and whether the pump delivers an interrupt. -/
inductive EntryEvent where
  | register (f : DllFunction)
  | registerSljit (shard : SljitShard)
  | store (st : GuestStore)
  /-- Instructions of the code on top of the host's stack. -/
  | exec (cpu : CPUState Unit)
  | dispatch (d : DispatchInput) (leave : List GuestStore) (pumps : Bool)
  | returned (flush : List GuestStore) (pumps : Bool)
  | pumped
  | shadowNative (leave : List GuestStore)
  | shadowReturned (flush : List GuestStore)
  | shadowEnd (passes : Nat) (touch : Bool) (ram : Nat → Byte) (cpu : CPUState Unit)
  | interrupt
  | handled
  | unwind (redirect : Bool) (flush : List GuestStore)

/-- The way that a dispatch takes. -/
inductive DispatchRoute where
  | native (i : Nat)
  | shadow (i : Nat)
  | interp
deriving DecidableEq

namespace EntryHost

variable (W : EntryWorld) (h : EntryHost)

@[grind =] def ram : Nat → Byte := h.host.loader.mem.ram

/-- The passes of a dispatch, with the host's own flags. -/
def passes (d : DispatchInput) : Loader × Option Outcome :=
  h.host.loader.passes (h.host.input d)

def route (d : DispatchInput) : DispatchRoute :=
  match (h.passes d).2, h.host.loader.called (h.host.input d),
      h.host.loader.shadowed (h.host.input d) with
  | some (.call _), some i, _ => .native i
  | some (.shadow _), _, some i => .shadow i
  | _, _, _ => .interp

/-- The address in `cpu->pc` when the function is called: a continuation, which is called
where the address has no entry of its own, is written there. -/
def pcAtCall (d : DispatchInput) : Word :=
  if (h.passes d).1.chain (d.addr % 0x20000000) = [] then .ofNat 32 d.addr else h.cpu.pc

def newCall (d : DispatchInput) (entered : Nat) : DispatchCall :=
  ⟨h.made, d.addr, h.cpu, h.ram, entered⟩

def finish (c : DispatchCall) (ret : Bool) (consumed : Option Nat) : EntryHost :=
  { h with ends := ⟨c, ret, consumed, h.cpu, h.ram⟩ :: h.ends }

/-- The check behind a native call. -/
def conclude (c : DispatchCall) : EntryHost :=
  match h.badEntry with
  | some id => { h with badEntry := none }.finish c false (some id)
  | none => h.finish c true none

/-- The call of the function of a candidate. -/
def callNative (d : DispatchInput) (i : Nat) (leave : List GuestStore) (pumps : Bool) :
    EntryHost :=
  let f := W.switch i
  let called := { h with
    host := h.host.dispatch W.bodies d
    cpu := { h.cpu with pc := f.pcBehind (h.pcAtCall d) }
    made := h.made + 1 }
  if f.Accepts (h.pcAtCall d) then { called with calls := some (h.newCall d 1) :: h.calls }
  else
    let back := { called with
      host := called.host.returned W.bodies leave pumps
      badEntry := some h.made }
    if pumps then { back with calls := some (h.newCall d 0) :: h.calls }
    else back.conclude (h.newCall d 0)

def dispatch (d : DispatchInput) (leave : List GuestStore) (pumps : Bool) : EntryHost :=
  match h.route d with
  | .native i => h.callNative W d i leave pumps
  | .shadow _ =>
      { h with
        host := h.host.dispatch W.bodies d
        made := h.made + 1
        calls := some (h.newCall d (if W.interprets h.host.loader.mem d.addr then 1 else 0)) ::
          h.calls }
  | .interp =>
      { h with
        host := { h.host with loader := (h.passes d).1 }
        made := h.made + 1 }.finish (h.newCall d 0) false none

def returned (stores : List GuestStore) (pumps : Bool) : EntryHost :=
  match h.host.frames, h.calls with
  | .native _ :: _, some c :: rest =>
      let back := { h with host := h.host.returned W.bodies stores pumps }
      if pumps then back else { back with calls := rest }.conclude c
  | _, _ => h

def pumped : EntryHost :=
  match h.host.frames, h.calls with
  | .pump :: _, some c :: rest => { h with host := h.host.pumped, calls := rest }.conclude c
  | _, _ => h

/-- The native pass starts with the guest of the dispatch, whose `cpu->pc` is the
address that the switch sees. -/
def shadowNative (leave : List GuestStore) : EntryHost :=
  match h.host.frames, h.calls with
  | .shadow .interp i :: _, some c :: _ =>
      let f := W.switch i
      let native := h.host.shadowNative
      let called := { h with
        host := { native with loader := { native.loader with
          mem := { native.loader.mem with ram := c.ram } } }
        cpu := { c.cpu with pc := f.pcBehind c.cpu.pc } }
      if f.Accepts c.cpu.pc then called
      else { called with
        host := called.host.shadowReturned W.bodies leave
        badEntry := some c.id }
  | _, _ => h

/-- A dispatch returns 1 behind a shadow run, whatever the flag says. -/
def shadowEnd (passes : Nat) (touch : Bool) (ram : Nat → Byte) (cpu : CPUState Unit) :
    EntryHost :=
  match h.host.frames, h.calls with
  | .shadow .interp _ :: _, some c :: rest | .shadow .chain _ :: _, some c :: rest =>
      { h with host := h.host.shadowEnd passes touch ram, cpu := cpu, calls := rest }.finish c
        true none
  | _, _ => h

def handled : EntryHost :=
  match h.host.frames, h.calls with
  | .handler _ :: _, none :: rest => { h with host := h.host.handled, calls := rest }
  | _, _ => h

/-- The dispatches whose frames are skipped never return. -/
def unwind (redirect : Bool) (stores : List GuestStore) : EntryHost :=
  let after := h.host.unwind W.bodies redirect stores
  { h with
    host := after
    calls := h.calls.drop (h.host.frames.length - after.frames.length) }

end EntryHost

def entryStep (W : EntryWorld) (h : EntryHost) : EntryEvent → EntryHost
  | .register f => { h with host := hostStep W.bodies h.host (.register f) }
  | .registerSljit shard => { h with host := hostStep W.bodies h.host (.registerSljit shard) }
  | .store st => { h with host := hostStep W.bodies h.host (.store st) }
  | .exec cpu => { h with cpu := cpu }
  | .dispatch d leave pumps => h.dispatch W d leave pumps
  | .returned stores pumps => h.returned W stores pumps
  | .pumped => h.pumped
  | .shadowNative leave => h.shadowNative W leave
  | .shadowReturned stores => { h with host := h.host.shadowReturned W.bodies stores }
  | .shadowEnd passes touch ram cpu => h.shadowEnd passes touch ram cpu
  | .interrupt => { h with host := h.host.interrupt, calls := none :: h.calls }
  | .handled => h.handled
  | .unwind redirect stores => h.unwind W redirect stores

namespace EntryHost

variable {W : EntryWorld} {h : EntryHost}

/-- The steps on which the answers rely. Around a call that the switch refuses nothing is
stored and no interrupt is delivered, the interpreter takes the function of a shadow run,
and the native pass of such a run begins at an address of the function. -/
def StepOk (W : EntryWorld) (h : EntryHost) : EntryEvent → Prop
  | .dispatch d leave pumps =>
      match h.route d with
      | .native i =>
          (W.switch i).Accepts (h.pcAtCall d) ∨ d.flush = [] ∧ leave = [] ∧ pumps = false
      | .shadow _ => W.interprets h.host.loader.mem d.addr = true
      | .interp => True
  | .shadowNative _ =>
      match h.host.frames, h.calls with
      | .shadow .interp i :: _, some c :: _ => (W.switch i).Accepts c.cpu.pc
      | _, _ => True
  | _ => True

theorem stepOk_native {d : DispatchInput} {leave : List GuestStore} {pumps : Bool} {i : Nat}
    (hRoute : h.route d = .native i) : StepOk W h (.dispatch d leave pumps) ↔
      (W.switch i).Accepts (h.pcAtCall d) ∨ d.flush = [] ∧ leave = [] ∧ pumps = false := by
  simp only [StepOk, hRoute]

/-- Between two steps the flag is clear, every dispatch on the stack has entered its
function once, and those that have returned gave the right answer. -/
structure Answered (h : EntryHost) : Prop where
  flag : h.badEntry = none
  calls : ∀ c, some c ∈ h.calls → c.entered = 1
  ends : ∀ r ∈ h.ends, r.Right

/-- The passes of a dispatch only look for a candidate and judge its bytes. -/
theorem passes_ram (d : DispatchInput) : (h.passes d).1.mem.ram = h.ram := by
  have hKept : Loader.Kept fun s => s.mem.ram = h.ram := by
    refine ⟨fun hs _ _ => hs, ?_, fun _ hs => hs, ?_, ?_⟩
    · intro s i hs
      unfold Loader.push
      split <;> exact hs
    · intro s f hs
      exact (candRegister_memory s f).1.trans hs
    · intro s shard hs
      exact (registerSljit_memory s shard).1.trans hs
  exact hKept.passes rfl (h.host.input d)

theorem dispatch_ram {d : DispatchInput} (hFlush : d.flush = []) :
    (h.host.dispatch W.bodies d).loader.mem.ram = h.ram := by
  have hLoader : (h.host.dispatch W.bodies d).loader =
      (h.host.loader.dispatch W.bodies (h.host.input d)).1 := by
    unfold NativeHost.dispatch
    dsimp only
    split <;> rfl
  have hPasses : (h.host.loader.dispatch W.bodies (h.host.input d)).1 = (h.passes d).1 := by
    have hNothing : (h.host.input d).flush = [] := hFlush
    rw [Loader.dispatch_eq, hNothing]
    split <;> rfl
  rw [hLoader, hPasses, passes_ram]

theorem returned_ram (n : NativeHost) :
    (n.returned W.bodies [] false).loader.mem.ram = n.loader.mem.ram := by
  unfold NativeHost.returned
  split <;> rfl

theorem Answered.finish (hAnswered : h.Answered) {c : DispatchCall} {ret : Bool}
    {consumed : Option Nat} (hRight : DispatchEnd.Right ⟨c, ret, consumed, h.cpu, h.ram⟩) :
    (h.finish c ret consumed).Answered where
  flag := hAnswered.flag
  calls := hAnswered.calls
  ends := List.forall_mem_cons.mpr ⟨hRight, hAnswered.ends⟩

/-- A function that has been entered once answers for itself. -/
theorem Answered.succeed (hAnswered : h.Answered) {c : DispatchCall} (hEntered : c.entered = 1) :
    (h.finish c true none).Answered :=
  hAnswered.finish ⟨fun hRet => Bool.noConfusion hRet, fun _ => hEntered, fun _ hId => by cases hId⟩

theorem Answered.conclude (hAnswered : h.Answered) {c : DispatchCall} (hEntered : c.entered = 1) :
    (h.conclude c).Answered := by
  unfold EntryHost.conclude
  rw [hAnswered.flag]
  exact hAnswered.succeed hEntered

/-- The host and the CPU are no part of what has been answered. -/
theorem Answered.of_same (hAnswered : h.Answered) {g : EntryHost} (hFlag : g.badEntry = h.badEntry)
    (hCalls : ∀ c, some c ∈ g.calls → some c ∈ h.calls) (hEnds : g.ends = h.ends) :
    g.Answered where
  flag := hFlag.trans hAnswered.flag
  calls c hc := hAnswered.calls c (hCalls c hc)
  ends := hEnds ▸ hAnswered.ends

theorem Answered.push (hAnswered : h.Answered) {c : DispatchCall} (hEntered : c.entered = 1)
    (host : NativeHost) (cpu : CPUState Unit) (made : Nat) :
    Answered { h with
      host := host
      cpu := cpu
      made := made
      calls := some c :: h.calls } where
  flag := hAnswered.flag
  calls := by
    intro d hd
    rcases List.mem_cons.mp hd with hNew | hOld
    · obtain rfl := Option.some.inj hNew
      exact hEntered
    · exact hAnswered.calls d hOld
  ends := hAnswered.ends

/-- The dispatch that calls a function finds the flag of that function, and the guest as
it has called it. -/
theorem Answered.callNative (hAnswered : h.Answered) {d : DispatchInput} {i : Nat}
    {leave : List GuestStore} {pumps : Bool}
    (hOk : (W.switch i).Accepts (h.pcAtCall d) ∨ d.flush = [] ∧ leave = [] ∧ pumps = false) :
    (h.callNative W d i leave pumps).Answered := by
  unfold EntryHost.callNative
  dsimp only
  by_cases hAccepts : (W.switch i).Accepts (h.pcAtCall d)
  · rw [if_pos hAccepts]
    exact hAnswered.push rfl _ _ _
  · obtain ⟨hFlush, rfl, rfl⟩ := hOk.resolve_left hAccepts
    rw [if_neg hAccepts, if_neg Bool.false_ne_true]
    refine ⟨rfl, hAnswered.calls, List.forall_mem_cons.mpr ⟨⟨fun _ => ⟨rfl, ?_, ?_⟩, ?_, ?_⟩,
      hAnswered.ends⟩⟩
    · exact (returned_ram _).trans (dispatch_ram hFlush)
    · refine ⟨h.pcAtCall d, ?_, ?_⟩
      · exact congrArg (fun pc => { h.cpu with pc := pc })
          (EntrySwitch.pcBehind_of_not_accepts _ _ hAccepts)
      · unfold pcAtCall
        split
        · exact .inr rfl
        · exact .inl rfl
    · exact fun hRet => Bool.noConfusion hRet
    · intro id hId
      exact (Option.some.inj hId).symm

theorem Answered.dispatch (hAnswered : h.Answered) {d : DispatchInput} {leave : List GuestStore}
    {pumps : Bool} (hOk : StepOk W h (.dispatch d leave pumps)) :
    (h.dispatch W d leave pumps).Answered := by
  unfold EntryHost.dispatch
  cases hRoute : h.route d with
  | native i =>
      exact hAnswered.callNative ((stepOk_native hRoute).mp hOk)
  | shadow i =>
      simp only [StepOk, hRoute] at hOk
      exact hAnswered.push (if_pos hOk) _ _ _
  | interp =>
      have hSame : Answered { h with
          host := { h.host with loader := (h.passes d).1 }
          made := h.made + 1 } := hAnswered.of_same rfl (fun _ hc => hc) rfl
      exact hSame.finish ⟨fun _ => ⟨rfl, passes_ram d, h.cpu.pc, rfl, .inl rfl⟩,
        fun hRet => Bool.noConfusion hRet, fun _ hId => by cases hId⟩

theorem Answered.returned (hAnswered : h.Answered) (stores : List GuestStore) (pumps : Bool) :
    (h.returned W stores pumps).Answered := by
  unfold EntryHost.returned
  split
  · rename_i c rest _ hCalls
    dsimp only
    split
    · exact hAnswered.of_same rfl (fun _ hc => hc) rfl
    · have hEntered := hAnswered.calls c (hCalls ▸ List.mem_cons_self)
      refine Answered.conclude ?_ hEntered
      exact hAnswered.of_same rfl (fun _ hc => hCalls ▸ List.mem_cons_of_mem _ hc) rfl
  · exact hAnswered

theorem Answered.pumped (hAnswered : h.Answered) : h.pumped.Answered := by
  unfold EntryHost.pumped
  split
  · rename_i c rest _ hCalls
    have hEntered := hAnswered.calls c (hCalls ▸ List.mem_cons_self)
    refine Answered.conclude ?_ hEntered
    exact hAnswered.of_same rfl (fun _ hc => hCalls ▸ List.mem_cons_of_mem _ hc) rfl
  · exact hAnswered

theorem Answered.shadowNative (hAnswered : h.Answered) {leave : List GuestStore}
    (hOk : StepOk W h (.shadowNative leave)) : (h.shadowNative W leave).Answered := by
  unfold EntryHost.shadowNative
  split
  · rename_i i _ c _ hFrames hCalls
    simp only [StepOk, hFrames, hCalls] at hOk
    dsimp only
    rw [if_pos hOk]
    exact hAnswered.of_same rfl (fun _ hc => hc) rfl
  · exact hAnswered

theorem Answered.shadowEnd (hAnswered : h.Answered) (passes : Nat) (touch : Bool)
    (ram : Nat → Byte) (cpu : CPUState Unit) :
    (h.shadowEnd passes touch ram cpu).Answered := by
  have hEnd : ∀ c rest, h.calls = some c :: rest →
      Answered (EntryHost.finish { h with
        host := h.host.shadowEnd passes touch ram
        cpu := cpu
        calls := rest } c true none) := by
    intro c rest hCalls
    refine Answered.succeed ?_ (hAnswered.calls c (hCalls ▸ List.mem_cons_self))
    exact hAnswered.of_same rfl (fun _ hc => hCalls ▸ List.mem_cons_of_mem _ hc) rfl
  unfold EntryHost.shadowEnd
  split
  · rename_i hCalls
    exact hEnd _ _ hCalls
  · rename_i hCalls
    exact hEnd _ _ hCalls
  · exact hAnswered

theorem entryStep_answered (hAnswered : h.Answered) (e : EntryEvent) (hOk : StepOk W h e) :
    (entryStep W h e).Answered := by
  cases e with
  | register | registerSljit | store | exec | shadowReturned =>
      exact hAnswered.of_same rfl (fun _ hc => hc) rfl
  | dispatch d leave pumps => exact hAnswered.dispatch hOk
  | returned stores pumps => exact hAnswered.returned stores pumps
  | pumped => exact hAnswered.pumped
  | shadowNative leave => exact hAnswered.shadowNative hOk
  | shadowEnd passes touch ram cpu => exact hAnswered.shadowEnd passes touch ram cpu
  | interrupt =>
      refine hAnswered.of_same rfl (fun c hc => ?_) rfl
      exact (List.mem_cons.mp hc).resolve_left (Option.some_ne_none c)
  | handled =>
      simp only [entryStep, EntryHost.handled]
      split
      · rename_i hCalls
        exact hAnswered.of_same rfl (fun _ hc => hCalls ▸ List.mem_cons_of_mem _ hc) rfl
      · exact hAnswered
  | unwind redirect stores => exact hAnswered.of_same rfl (fun _ hc => List.mem_of_mem_drop hc) rfl

/-- The frame of a dispatch, and not of a handler. -/
def isDispatch : HostFrame → Bool
  | .handler _ => false
  | _ => true

/-- Every dispatch on the host's stack has its call, and every handler its gap. -/
@[grind =]
def Aligned (h : EntryHost) : Prop := h.calls.map Option.isSome = h.host.frames.map isDispatch

end EntryHost

open EntryHost in
/-- In every run whose steps are such as the answers rely on, each dispatch that has
returned gave the right answer, and no flag is left for another one. -/
theorem dispatch_answers {W : EntryWorld} {start h : EntryHost} (hFlag : start.badEntry = none)
    (hCalls : start.calls = []) (hEnds : start.ends = [])
    (hRun : Reach (entryStep W) (StepOk W) start h) :
    h.badEntry = none ∧ ∀ r ∈ h.ends, r.Right := by
  have hStart : start.Answered := by
    refine ⟨hFlag, fun c hc => ?_, fun r hr => ?_⟩
    · rw [hCalls] at hc
      exact absurd hc List.not_mem_nil
    · rw [hEnds] at hr
      exact absurd hr List.not_mem_nil
  have hAnswered : h.Answered :=
    hRun.invariant hStart fun t e ht hOk => entryStep_answered ht e hOk
  exact ⟨hAnswered.flag, hAnswered.ends⟩

/-- A function at `0x80010000` with one continuation. -/
def oneSwitch : EntryWorld := ⟨oneBody, fun _ => ⟨0x80010000, [0x80010004]⟩, fun _ _ => true⟩

/-- The candidate of the function is registered, and nothing has been dispatched. -/
def idleEntry : EntryHost where
  host := hostStep oneBody emptyHost (.register ⟨0x10000, [oneWord], none, 0⟩)
  cpu := ⟨fun _ => 0, 0, 0, 0, fun _ => 0, fun _ => 0, fun _ => 0, ()⟩
  calls := []
  badEntry := none
  made := 0
  ends := []

/-- A jump to the function through its uncached address, which the switch does not know. -/
def uncachedDispatch : DispatchInput := { plainDispatch with addr := 0xA0010000 }

def uncachedEntry : EntryHost :=
  entryStep oneSwitch idleEntry (.exec { idleEntry.cpu with pc := 0xA0010000 })

def refusedEntry : EntryHost :=
  entryStep oneSwitch uncachedEntry (.dispatch uncachedDispatch [] false)

/-- The function refuses to be entered at its uncached address. -/
theorem dispatch_answers_uncached :
    refusedEntry.badEntry = none ∧ ∀ r ∈ refusedEntry.ends, r.Right := by
  have hRoute : uncachedEntry.route uncachedDispatch = .native 0 := by decide +kernel
  have hJump : Reach (entryStep oneSwitch) (EntryHost.StepOk oneSwitch) idleEntry uncachedEntry :=
    Reach.start.next _ trivial
  have hRun : Reach (entryStep oneSwitch) (EntryHost.StepOk oneSwitch) idleEntry refusedEntry :=
    hJump.next (.dispatch uncachedDispatch [] false) (by
      rw [EntryHost.stepOk_native hRoute]
      exact .inr ⟨rfl, rfl, rfl⟩)
  exact dispatch_answers rfl rfl rfl hRun

/-- A dispatch in the mode that compares the passes. -/
def shadowDispatch : DispatchInput :=
  { uncachedDispatch with settings := { plainDispatch.settings with diffMode := true } }

/-- A shadow run whose native pass is refused, and a call of the function behind it. -/
def staleFlag : List EntryEvent :=
  [.exec { idleEntry.cpu with pc := 0xA0010000 }, .dispatch shadowDispatch [] false,
    .shadowNative [], .shadowEnd 0 false (fun _ => 0) idleEntry.cpu,
    .dispatch plainDispatch [] false, .returned [] false]

def staleEntry : EntryHost := staleFlag.foldl (entryStep oneSwitch) idleEntry

/-- The flag of a native pass makes the next dispatch answer that nothing has been
executed. -/
theorem staleFlag_refuses :
    ¬∀ (W : EntryWorld) (start h : EntryHost), start.badEntry = none → start.calls = [] →
      start.ends = [] → Reach (entryStep W) (fun _ _ => True) start h →
      h.badEntry = none ∧ ∀ r ∈ h.ends, r.Right := by
  intro hAll
  have hRun : Reach (entryStep oneSwitch) (fun _ _ => True) idleEntry staleEntry :=
    Reach.start.run staleFlag fun _ _ _ => trivial
  have hRight := (hAll oneSwitch idleEntry staleEntry rfl rfl rfl hRun).2
  have hRefused : (staleEntry.ends.any fun r => !r.ret && r.call.entered == 1) = true := by
    decide +kernel
  obtain ⟨r, hr, hAnswer⟩ := List.any_eq_true.mp hRefused
  have hRet : r.ret = false := by
    simpa using (Bool.and_eq_true_iff.mp hAnswer).1
  have hEntered : r.call.entered = 1 := by
    simpa using (Bool.and_eq_true_iff.mp hAnswer).2
  have hNever := ((hRight r hr).refused hRet).1
  omega

end RecompStudio.Runtime
