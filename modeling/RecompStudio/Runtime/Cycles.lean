import RecompStudio.Cpu.Word
import RecompStudio.Library.Machine

/-!
The guest cycle clock. Cycles are charged to one counter, and the devices are
brought up to it when their next event is due or when the guest looks at them.
Device code may itself charge cycles or synchronise the devices, so the calls
that are open are part of the state.
-/

namespace RecompStudio.Runtime

open Machine

/-- The devices in the order of `advance_devices`. -/
inductive Device where
  | sio | cdrom | dma | timers | interrupts
deriving DecidableEq, Repr

/-- Device code that the clock calls: the advance function of a device, or
`interrupts_service_scheduled_events`. -/
inductive Callback where
  | advance (d : Device) (cycles : Nat)
  | scheduled
deriving DecidableEq, Repr

/-- The loop that a call goes on with behind its callbacks:
`psx_devices_service_to_now` with its target, and whether it was entered from
`psx_devices_mmio_sync`, or `psx_advance_cycles_exact` with the cycles left. -/
inductive ClockLoop where
  | service (target : Nat) (mmio : Bool)
  | exact (cycles : Nat)
deriving DecidableEq, Repr

/-- A public call that is waiting for a callback. `entry` is the counter at the
time of the call. -/
structure ClockCall where
  queue : List Callback
  loop : ClockLoop
  entry : Nat
deriving DecidableEq, Repr

/-- The clock, with the cycles that every device has been given and the cycles
that have been charged. -/
structure Clock where
  count : Nat
  synced : Nat
  nextService : Nat
  inService : Bool
  conservative : Bool
  totals : Device → Nat
  charged : Nat
  calls : List ClockCall

def deadlineHardCap : Nat := 16384

/-- The end of `devices_cycles_to_next_internal_event`, behind the minimum. -/
def internalEvent (best : Word) : Nat := if best.toNat = 0 then 1 else best.toNat

namespace Clock

variable (s : Clock)

/-- `psx_devices_recompute_deadline`. -/
def recomputeDeadline (best : Word) : Clock :=
  { s with nextService := s.count + min (internalEvent best) deadlineHardCap }

/-- The first part of `psx_devices_service_to_now`, up to its first callback:
the counter goes back to where the devices are. -/
@[grind =] def serviceToNow (entry : Nat) (mmio : Bool) (best : Word) : Clock :=
  if s.inService then s
  else if s.synced < s.count then
    { s with
      count := s.synced
      inService := true
      calls := ⟨[], .service s.count mmio, entry⟩ :: s.calls }
  else s.recomputeDeadline best

/-- `psx_advance_cycles`, up to its first callback. -/
@[grind =] def advanceCycles (cycles best : Word) : Clock :=
  if cycles.toNat = 0 then s
  else
    let t := { s with charged := s.charged + cycles.toNat }
    if s.conservative then
      { t with calls := ⟨[], .exact cycles.toNat, s.count⟩ :: s.calls }
    else
      let t := { t with count := s.count + cycles.toNat }
      if s.inService then t
      else if t.nextService = 0 ∨ t.nextService ≤ t.count then t.serviceToNow s.count false best
      else t

/-- `psx_devices_mmio_sync`, up to its first callback. A service marks the
deadline when it is over. -/
@[grind =] def mmioSync (best : Word) : Clock :=
  let t := if s.synced ≠ s.count then s.serviceToNow s.count true best else s
  if t.calls.length = s.calls.length then { t with nextService := 0 } else t

/-- `advance_devices`, up to the callback of the first device. -/
@[grind =]
def advanceDevices (call : ClockCall) (rest : List ClockCall) (loop : ClockLoop) (c : Nat) :
    Clock :=
  { s with
    count := s.count + c
    totals := fun d => if d = .sio then s.totals d + c else s.totals d
    calls := { call with
      queue := [.advance .cdrom c, .advance .dma c, .advance .timers c, .advance .interrupts c,
        .scheduled]
      loop := loop } :: rest }

/-- The length of a chunk of `psx_devices_service_to_now`. -/
def serviceStep (target : Nat) (best : Word) : Nat :=
  let remaining := (target - s.count) % 2 ^ 32
  let step := if internalEvent best < remaining then internalEvent best else remaining
  if step = 0 then 1 else step

/-- The length of a chunk of `psx_advance_cycles_exact`. -/
def exactStep (cycles : Nat) (toVblank : Word) : Nat :=
  if s.conservative = true ∧ 1 < cycles then 1
  else if 0 < toVblank.toNat ∧ toVblank.toNat < cycles then toVblank.toNat
  else cycles

/-- The callback that is running returns: the next one of its call is made, or
the loop of the call goes on, or the call returns. -/
@[grind =] def resume (best toVblank : Word) : Clock :=
  match s.calls with
  | [] => s
  | call :: rest =>
      match call.queue, call.loop with
      | .advance d c :: queue, _ =>
          { s with
            totals := fun e => if e = d then s.totals e + c else s.totals e
            calls := { call with queue := queue } :: rest }
      | .scheduled :: queue, _ => { s with calls := { call with queue := queue } :: rest }
      | [], .service target mmio =>
          if s.count < target then
            s.advanceDevices call rest call.loop (s.serviceStep target best)
          else
            let t := ({ s with synced := target, inService := false, calls := rest } :
              Clock).recomputeDeadline best
            if mmio then { t with nextService := 0 } else t
      | [], .exact cycles =>
          if 0 < cycles then
            s.advanceDevices call rest (.exact (cycles - s.exactStep cycles toVblank))
              (s.exactStep cycles toVblank)
          else { s with synced := s.count, nextService := 0, calls := rest }

end Clock

/-- What the guest and device code do to the clock. The words are what the
devices answer for their distances when they are asked. -/
inductive ClockEvent where
  | advance (cycles best : Word)
  | mmioSync (best : Word)
  | setConservative (on : Bool)
  | resume (best toVblank : Word)

def clockStep (s : Clock) : ClockEvent → Clock
  | .advance cycles best => s.advanceCycles cycles best
  | .mmioSync best => s.mmioSync best
  | .setConservative on => { s with conservative := on }
  | .resume best toVblank => s.resume best toVblank

/-- Where device code may charge cycles: in the last chunk of a service, or in
conservative mode under an exact call. The mode changes between the calls, and
the exact path is taken with no cycles deferred. -/
def ClockStepOk (s : Clock) : ClockEvent → Prop
  | .advance cycles _ =>
      cycles.toNat = 0 ∨
      (s.calls = [] ∧ (s.conservative = true → s.synced = s.count)) ∨
      (s.conservative = true ∧ s.inService = false ∧ s.calls ≠ []) ∨
      (s.conservative = false ∧ ∃ call rest target mmio,
        s.calls = call :: rest ∧ call.loop = .service target mmio ∧ target ≤ s.count)
  | .mmioSync _ => s.calls = [] ∨ s.inService = true ∨ s.synced = s.count
  | .setConservative _ => s.calls = []
  | .resume _ _ => True

/-- The counter before the public call that an event returns from. -/
def returnsFrom (s : Clock) (e : ClockEvent) : Option Nat :=
  match e, s.calls with
  | .resume _ _, call :: rest =>
      if (clockStep s e).calls.length = rest.length then some call.entry else none
  | .resume _ _, [] => none
  | _, _ => if (clockStep s e).calls.length = s.calls.length then some s.count else none

/-- The cycles that callbacks have still to give to a device. -/
def queuedFor (d : Device) (queue : List Callback) : Nat :=
  (queue.map fun cb => match cb with
    | .advance e c => if e = d then c else 0
    | .scheduled => 0).sum

/-- No call is open. -/
structure Idle (base : Nat) (s : Clock) : Prop where
  calls : s.calls = []
  inService : s.inService = false
  synced_le : s.synced ≤ s.count
  totals : ∀ d, s.totals d + base = s.synced
  charged : s.charged + base = s.count

/-- The devices are being brought up to a target. `reached` is where they are
at the end of the chunk. -/
structure Servicing (base : Nat) (s : Clock) : Prop where
  inService : s.inService = true
  open_call : ∃ queue target mmio entry reached,
    s.calls = [⟨queue, .service target mmio, entry⟩] ∧ entry ≤ target ∧
    s.synced ≤ reached ∧ reached ≤ target ∧
    (s.count = reached ∨ reached = target ∧ target ≤ s.count) ∧
    (∀ d, s.totals d + queuedFor d queue + base = reached) ∧
    s.charged + base + reached = target + s.count

/-- Exact calls are open, one inside the other. -/
structure Exact (base : Nat) (s : Clock) : Prop where
  inService : s.inService = false
  conservative : s.conservative = true
  calls : s.calls ≠ []
  synced_le : s.synced ≤ s.count
  exact_calls : ∀ call ∈ s.calls, call.entry ≤ s.count ∧ ∃ cycles, call.loop = .exact cycles
  totals : ∀ d, s.totals d + (s.calls.map fun call => queuedFor d call.queue).sum + base = s.count
  charged : s.charged + base = s.count + (s.calls.map fun call => match call.loop with
    | .exact cycles => cycles
    | .service _ _ => 0).sum

def Accounted (base : Nat) (s : Clock) : Prop := Idle base s ∨ Servicing base s ∨ Exact base s

section Steps

variable {base : Nat} {s : Clock}

@[simp] theorem queuedFor_nil (d : Device) : queuedFor d [] = 0 := rfl

@[simp] theorem queuedFor_advance (d e : Device) (c : Nat) (queue : List Callback) :
    queuedFor d (.advance e c :: queue) = (if e = d then c else 0) + queuedFor d queue := rfl

@[simp] theorem queuedFor_scheduled (d : Device) (queue : List Callback) :
    queuedFor d (.scheduled :: queue) = queuedFor d queue := by
  simp [queuedFor]

/-- A chunk is given to every device, to the first one at once. -/
theorem queuedFor_chunk (d : Device) (m c : Nat) :
    (if d = .sio then m + c else m) + queuedFor d [.advance .cdrom c, .advance .dma c,
      .advance .timers c, .advance .interrupts c, .scheduled] = m + c := by
  cases d <;> simp

/-- A device is given its cycles when its callback is made. -/
theorem queuedFor_callback (d e : Device) (m c : Nat) (queue : List Callback) :
    (if d = e then m + c else m) + queuedFor d queue =
      m + queuedFor d (.advance e c :: queue) := by
  by_cases hd : d = e
  · subst hd
    simp [Nat.add_assoc]
  · simp [hd, Ne.symm hd]

theorem internalEvent_pos (best : Word) : 0 < internalEvent best := by
  unfold internalEvent
  split <;> omega

theorem serviceStep_bounds (best : Word) {target : Nat} (hLt : s.count < target) :
    0 < s.serviceStep target best ∧ s.serviceStep target best ≤ target - s.count := by
  have hMod : (target - s.count) % 2 ^ 32 ≤ target - s.count := Nat.mod_le _ _
  have hEvent := internalEvent_pos best
  unfold Clock.serviceStep
  dsimp only
  by_cases hNear : internalEvent best < (target - s.count) % 2 ^ 32
  · rw [if_pos hNear, if_neg (by omega)]
    omega
  · rw [if_neg hNear]
    split <;> omega

theorem exactStep_bounds (toVblank : Word) {cycles : Nat} (hPos : 0 < cycles) :
    0 < s.exactStep cycles toVblank ∧ s.exactStep cycles toVblank ≤ cycles := by
  unfold Clock.exactStep
  split
  · omega
  · split <;> omega

theorem Idle.serviceToNow (h : Idle base s) {entry : Nat} (hEntry : entry ≤ s.count) (mmio : Bool)
    (best : Word) (hLt : s.synced < s.count) :
    Servicing base (s.serviceToNow entry mmio best) := by
  rw [Clock.serviceToNow, if_neg (by simp [h.inService]), if_pos hLt]
  refine ⟨rfl, [], s.count, mmio, entry, s.synced, by simp [h.calls], hEntry, le_rfl,
    h.synced_le, .inl rfl, fun d => ?_, ?_⟩
  · simpa using h.totals d
  · have := h.charged
    dsimp only
    omega

theorem Idle.advanceCycles (h : Idle base s) {cycles best : Word}
    (hOk : ClockStepOk s (.advance cycles best)) :
    Accounted base (s.advanceCycles cycles best) := by
  have hTotals := h.totals
  have hCharged := h.charged
  have hSynced := h.synced_le
  unfold Clock.advanceCycles
  split
  · exact .inl h
  · rename_i hPos
    dsimp only
    split
    · rename_i hMode
      have hSync : s.synced = s.count := by
        rcases hOk with hZero | ⟨_, hSync⟩ | ⟨_, _, hOpen⟩ | ⟨hOff, _⟩
        · exact absurd hZero hPos
        · exact hSync hMode
        · exact absurd h.calls hOpen
        · rw [hMode] at hOff
          exact Bool.noConfusion hOff
      refine .inr (.inr ⟨h.inService, hMode, by simp, hSynced, ?_, fun d => ?_, ?_⟩)
      · simp [h.calls]
      · have := hTotals d
        simp [h.calls]
        omega
      · simp [h.calls]
        omega
    · have hLater : Idle (base) { s with
          charged := s.charged + cycles.toNat
          count := s.count + cycles.toNat } :=
        ⟨h.calls, h.inService, Nat.le_add_right_of_le hSynced, hTotals, by dsimp only; omega⟩
      rw [if_neg (by simp [h.inService])]
      split
      · exact .inr (.inl (hLater.serviceToNow (Nat.le_add_right _ _) false best (by
          dsimp only
          omega)))
      · exact .inl hLater

theorem Idle.mmioSync (h : Idle base s) (best : Word) : Accounted base (s.mmioSync best) := by
  unfold Clock.mmioSync
  by_cases hGap : s.synced ≠ s.count
  · have hSynced := h.synced_le
    have hService := h.serviceToNow le_rfl true best (by omega)
    obtain ⟨queue, target, mmio, entry, reached, hCalls, -⟩ := hService.open_call
    rw [if_pos hGap]
    dsimp only
    rw [if_neg (by simp [hCalls, h.calls])]
    exact .inr (.inl hService)
  · rw [if_neg hGap]
    dsimp only
    rw [if_pos rfl]
    exact .inl ⟨h.calls, h.inService, h.synced_le, h.totals, h.charged⟩

theorem Servicing.advanceCycles (h : Servicing base s) {cycles best : Word}
    (hOk : ClockStepOk s (.advance cycles best)) :
    Servicing base (s.advanceCycles cycles best) := by
  obtain ⟨queue, target, mmio, entry, reached, hCalls, hEntry, hLow, hHigh, hCount, hTotals,
    hCharged⟩ := h.open_call
  unfold Clock.advanceCycles
  split
  · exact h
  · rename_i hPos
    rcases hOk with hZero | ⟨hNone, _⟩ | ⟨_, hOut, _⟩ | ⟨hOff, call, rest, target', mmio', hCalls',
      hLoop, hLast⟩
    · exact absurd hZero hPos
    · rw [hCalls] at hNone
      exact absurd hNone (by simp)
    · rw [h.inService] at hOut
      exact Bool.noConfusion hOut
    · rw [hCalls] at hCalls'
      obtain ⟨rfl, -⟩ := List.cons.inj hCalls'
      obtain ⟨rfl, -⟩ := ClockLoop.service.inj hLoop
      dsimp only
      rw [if_neg (by simp [hOff]), if_pos h.inService]
      have hReached : reached = target := by omega
      refine ⟨h.inService, queue, target, mmio, entry, reached, hCalls, hEntry, hLow, hHigh,
        .inr ⟨hReached, Nat.le_add_right_of_le hLast⟩, hTotals, ?_⟩
      dsimp only
      omega

theorem Servicing.mmioSync (h : Servicing base s) (best : Word) :
    Servicing base (s.mmioSync best) := by
  have hSame : s.serviceToNow s.count true best = s := by
    rw [Clock.serviceToNow, if_pos h.inService]
  unfold Clock.mmioSync
  simp only [hSame, ite_self, if_true]
  exact ⟨h.inService, h.open_call⟩

theorem Servicing.resume (h : Servicing base s) (best toVblank : Word) :
    Accounted base (s.resume best toVblank) := by
  obtain ⟨queue, target, mmio, entry, reached, hCalls, hEntry, hLow, hHigh, hCount, hTotals,
    hCharged⟩ := h.open_call
  unfold Clock.resume
  simp only [hCalls]
  cases queue with
  | cons cb queue =>
      cases cb with
      | advance e c =>
          refine .inr (.inl ⟨h.inService, queue, target, mmio, entry, reached, rfl, hEntry, hLow,
            hHigh, hCount, fun d => ?_, hCharged⟩)
          dsimp only
          rw [queuedFor_callback]
          exact hTotals d
      | scheduled =>
          exact .inr (.inl ⟨h.inService, queue, target, mmio, entry, reached, rfl, hEntry, hLow,
            hHigh, hCount, by simpa using hTotals, hCharged⟩)
  | nil =>
      dsimp only
      split
      · rename_i hLt
        obtain ⟨hPos, hStep⟩ := serviceStep_bounds best hLt
        refine .inr (.inl ⟨h.inService, _, target, mmio, entry,
          reached + s.serviceStep target best, rfl, hEntry,
            by dsimp only [Clock.advanceDevices]; omega,
          by omega, .inl ?_, fun d => ?_, ?_⟩)
        · dsimp only [Clock.advanceDevices]
          omega
        · have := hTotals d
          rw [queuedFor_nil] at this
          dsimp only [Clock.advanceDevices]
          rw [queuedFor_chunk]
          omega
        · dsimp only [Clock.advanceDevices]
          omega
      · rename_i hEnd
        have hReached : reached = target := by omega
        have hIdle : Idle base ((({ s with synced := target, inService := false, calls := [] } :
            Clock)).recomputeDeadline best) :=
          ⟨rfl, rfl, by dsimp only [Clock.recomputeDeadline]; omega,
            fun d => by simpa [hReached, Clock.recomputeDeadline] using hTotals d,
            by dsimp only [Clock.recomputeDeadline]; omega⟩
        split
        · exact .inl ⟨hIdle.calls, hIdle.inService, hIdle.synced_le, hIdle.totals, hIdle.charged⟩
        · exact .inl hIdle

theorem Exact.advanceCycles (h : Exact base s) {cycles best : Word} :
    Exact base (s.advanceCycles cycles best) := by
  have hCharged := h.charged
  unfold Clock.advanceCycles
  split
  · exact h
  · dsimp only
    rw [if_pos h.conservative]
    refine ⟨h.inService, h.conservative,
      by simp, h.synced_le, fun call hCall => ?_, fun d => ?_, ?_⟩
    · rcases List.mem_cons.mp hCall with rfl | hOld
      · exact ⟨le_rfl, _, rfl⟩
      · exact h.exact_calls call hOld
    · simpa using h.totals d
    · simp only [List.map_cons, List.sum_cons]
      omega

theorem Exact.mmioSync (h : Exact base s) {best : Word} (hOk : ClockStepOk s (.mmioSync best)) :
    Exact base (s.mmioSync best) := by
  have hSync : s.synced = s.count := by
    rcases hOk with hNone | hIn | hSync
    · exact absurd hNone h.calls
    · rw [h.inService] at hIn
      exact Bool.noConfusion hIn
    · exact hSync
  unfold Clock.mmioSync
  rw [if_neg (not_not.mpr hSync)]
  dsimp only
  rw [if_pos rfl]
  exact ⟨h.inService, h.conservative, h.calls, h.synced_le, h.exact_calls, h.totals, h.charged⟩

theorem Exact.resume (h : Exact base s) (best toVblank : Word) :
    Accounted base (s.resume best toVblank) := by
  have hTotals := h.totals
  have hCharged := h.charged
  have hCallsOk := h.exact_calls
  unfold Clock.resume
  cases hCalls : s.calls with
  | nil => exact absurd hCalls h.calls
  | cons call rest =>
      rw [hCalls] at hTotals hCharged hCallsOk
      obtain ⟨queue, loop, entry⟩ := call
      obtain ⟨hEntry, cycles, rfl⟩ := hCallsOk _ List.mem_cons_self
      have hRest : ∀ call ∈ rest, call.entry ≤ s.count ∧ ∃ cycles, call.loop = .exact cycles :=
        fun call hCall => hCallsOk call (List.mem_cons_of_mem _ hCall)
      simp only [List.map_cons, List.sum_cons] at hTotals hCharged
      cases queue with
      | cons cb queue =>
          cases cb with
          | advance e c =>
              refine .inr (.inr ⟨h.inService, h.conservative, by simp, h.synced_le, ?_,
                fun d => ?_, by simpa using hCharged⟩)
              · simpa [hEntry] using hRest
              · have hCallback := queuedFor_callback d e (s.totals d) c queue
                have := hTotals d
                simp only [List.map_cons, List.sum_cons]
                omega
          | scheduled =>
              refine .inr (.inr ⟨h.inService, h.conservative, by simp, h.synced_le, ?_,
                fun d => ?_, by simpa using hCharged⟩)
              · simpa [hEntry] using hRest
              · simpa using hTotals d
      | nil =>
          dsimp only
          split
          · rename_i hPos
            obtain ⟨hStepPos, hStep⟩ := exactStep_bounds (s := s) toVblank hPos
            refine .inr (.inr ⟨h.inService, h.conservative, by simp [Clock.advanceDevices], ?_, ?_,
              fun d => ?_, ?_⟩)
            · exact Nat.le_add_right_of_le h.synced_le
            · intro call hCall
              rcases List.mem_cons.mp hCall with rfl | hOld
              · exact ⟨Nat.le_add_right_of_le hEntry, _, rfl⟩
              · obtain ⟨hOldEntry, hExact⟩ := hRest call hOld
                exact ⟨Nat.le_add_right_of_le hOldEntry, hExact⟩
            · have := hTotals d
              have hChunk := queuedFor_chunk d (s.totals d) (s.exactStep cycles toVblank)
              simp only [queuedFor_nil] at this
              simp only [Clock.advanceDevices, List.map_cons, List.sum_cons]
              omega
            · simp only [Clock.advanceDevices, List.map_cons, List.sum_cons]
              omega
          · rename_i hEnd
            cases rest with
            | nil =>
                refine .inl ⟨rfl, h.inService, le_rfl, fun d => ?_, ?_⟩
                · simpa using hTotals d
                · simp at hCharged
                  dsimp only
                  omega
            | cons outer rest =>
                refine .inr (.inr ⟨h.inService, h.conservative, by simp, le_rfl, hRest,
                  fun d => ?_, ?_⟩)
                · simpa using hTotals d
                · dsimp only
                  omega

theorem clockStep_accounted (h : Accounted base s) (e : ClockEvent) (hOk : ClockStepOk s e) :
    Accounted base (clockStep s e) := by
  cases e with
  | advance cycles best =>
      rcases h with hIdle | hServicing | hExact
      · exact hIdle.advanceCycles hOk
      · exact .inr (.inl (hServicing.advanceCycles hOk))
      · exact .inr (.inr hExact.advanceCycles)
  | mmioSync best =>
      rcases h with hIdle | hServicing | hExact
      · exact hIdle.mmioSync best
      · exact .inr (.inl (hServicing.mmioSync best))
      · exact .inr (.inr (hExact.mmioSync hOk))
  | setConservative on =>
      have hNone : s.calls = [] := hOk
      rcases h with hIdle | hServicing | hExact
      · exact .inl ⟨hIdle.calls, hIdle.inService, hIdle.synced_le, hIdle.totals, hIdle.charged⟩
      · obtain ⟨queue, target, mmio, entry, reached, hCalls, -⟩ := hServicing.open_call
        rw [hCalls] at hNone
        exact absurd hNone (by simp)
      · exact absurd hNone hExact.calls
  | resume best toVblank =>
      rcases h with hIdle | hServicing | hExact
      · rw [clockStep, Clock.resume, hIdle.calls]
        exact .inl hIdle
      · exact hServicing.resume best toVblank
      · exact hExact.resume best toVblank

theorem Accounted.synced_le (h : Accounted base s) : s.synced ≤ s.count := by
  rcases h with hIdle | hServicing | hExact
  · exact hIdle.synced_le
  · obtain ⟨queue, target, mmio, entry, reached, -, -, hLow, hHigh, hCount, -⟩ :=
      hServicing.open_call
    omega
  · exact hExact.synced_le

/-- Open calls have not been made later than the counter says, when they return. -/
theorem Accounted.entry_le (h : Accounted base s) {call : ClockCall} {rest : List ClockCall}
    (hCalls : s.calls = call :: rest)
    (hReturn : ∀ target mmio, call.loop = .service target mmio → target ≤ s.count) :
    call.entry ≤ s.count := by
  rcases h with hIdle | hServicing | hExact
  · rw [hIdle.calls] at hCalls
    exact absurd hCalls (by simp)
  · obtain ⟨queue, target, mmio, entry, reached, hOpen, hEntry, -⟩ := hServicing.open_call
    obtain ⟨rfl, -⟩ := List.cons.inj (hOpen.symm.trans hCalls)
    exact hEntry.trans (hReturn target mmio rfl)
  · exact (hExact.exact_calls call (by simp [hCalls])).1

/-- A service either opens a call or leaves the counter. -/
theorem serviceToNow_count {entry : Nat} {mmio : Bool} {best : Word}
    (hLength : (s.serviceToNow entry mmio best).calls.length = s.calls.length) :
    (s.serviceToNow entry mmio best).count = s.count := by
  unfold Clock.serviceToNow at hLength ⊢
  split at hLength
  · rename_i hIn
    rw [if_pos hIn]
  · rename_i hOut
    rw [if_neg hOut]
    split at hLength
    · simp at hLength
    · rename_i hSync
      rw [if_neg hSync]
      rfl

theorem advanceCycles_count_le {cycles best : Word}
    (hLength : (s.advanceCycles cycles best).calls.length = s.calls.length) :
    s.count ≤ (s.advanceCycles cycles best).count := by
  unfold Clock.advanceCycles at hLength ⊢
  split at hLength
  · rename_i hZero
    rw [if_pos hZero]
  · rename_i hPos
    rw [if_neg hPos]
    dsimp only at hLength ⊢
    split at hLength
    · simp at hLength
    · rename_i hDeadline
      rw [if_neg hDeadline]
      split at hLength
      · rename_i hIn
        rw [if_pos hIn]
        exact Nat.le_add_right _ _
      · rename_i hOut
        rw [if_neg hOut]
        split at hLength
        · rename_i hDue
          rw [if_pos hDue, serviceToNow_count hLength]
          exact Nat.le_add_right _ _
        · rename_i hEarly
          rw [if_neg hEarly]
          exact Nat.le_add_right _ _

theorem mmioSync_count_le {best : Word}
    (hLength : (s.mmioSync best).calls.length = s.calls.length) :
    s.count ≤ (s.mmioSync best).count := by
  unfold Clock.mmioSync at hLength ⊢
  by_cases hSync : s.synced ≠ s.count
  · rw [if_pos hSync] at hLength ⊢
    dsimp only at hLength ⊢
    split at hLength
    · rename_i hSame
      rw [if_pos hSame]
      exact (serviceToNow_count hSame).ge
    · rename_i hOpen
      exact absurd hLength hOpen
  · rw [if_neg hSync]
    dsimp only
    rw [if_pos rfl]

theorem returnsFrom_le (h : Accounted base s) {e : ClockEvent} {before : Nat}
    (hReturn : returnsFrom s e = some before) : before ≤ (clockStep s e).count := by
  cases e with
  | advance cycles best =>
      simp only [returnsFrom] at hReturn
      split at hReturn
      · rename_i hLength
        obtain rfl := Option.some.inj hReturn
        exact advanceCycles_count_le hLength
      · exact absurd hReturn (by simp)
  | mmioSync best =>
      simp only [returnsFrom] at hReturn
      split at hReturn
      · rename_i hLength
        obtain rfl := Option.some.inj hReturn
        exact mmioSync_count_le hLength
      · exact absurd hReturn (by simp)
  | setConservative on =>
      simp only [returnsFrom] at hReturn
      split at hReturn
      · obtain rfl := Option.some.inj hReturn
        exact le_rfl
      · exact absurd hReturn (by simp)
  | resume best toVblank =>
      cases hCalls : s.calls with
      | nil => simp [returnsFrom, hCalls] at hReturn
      | cons call rest =>
          simp only [returnsFrom, hCalls] at hReturn
          split at hReturn
          · rename_i hLength
            obtain rfl := Option.some.inj hReturn
            obtain ⟨queue, loop, entry⟩ := call
            simp only [clockStep, Clock.resume, hCalls] at hLength ⊢
            cases queue with
            | cons cb queue => cases cb <;> simp at hLength
            | nil =>
                cases loop with
                | service target mmio =>
                    dsimp only at hLength ⊢
                    split at hLength
                    · simp [Clock.advanceDevices] at hLength
                    · rename_i hEnd
                      rw [if_neg hEnd]
                      have hEntry := h.entry_le hCalls fun target' mmio' hLoop => by
                        obtain ⟨rfl, -⟩ := ClockLoop.service.inj hLoop
                        omega
                      split <;> exact hEntry
                | exact cycles =>
                    dsimp only at hLength ⊢
                    split at hLength
                    · simp [Clock.advanceDevices] at hLength
                    · rename_i hEnd
                      rw [if_neg hEnd]
                      exact h.entry_le hCalls fun _ _ hLoop => ClockLoop.noConfusion hLoop
          · exact absurd hReturn (by simp)

end Steps

/-- The clock at a counter with the devices in sync. -/
def freshClock (count : Nat) (conservative : Bool) : Clock where
  count := count
  synced := count
  nextService := 0
  inService := false
  conservative := conservative
  totals := fun _ => 0
  charged := 0
  calls := []

/-- In every run in which cycles are charged and devices synchronised where the
clock allows for it, each device has been given the cycles that were charged up
to the position of the devices, the counter does not fall across a public call,
and the devices are not ahead of it. -/
theorem cycles_accounted {count : Nat} {conservative : Bool} {s : Clock}
    (hRun : Reach clockStep ClockStepOk (freshClock count conservative) s) :
    s.synced ≤ s.count ∧
      (s.calls = [] → ∀ d, s.totals d + count = s.synced ∧
        s.totals d + (s.count - s.synced) = s.charged) ∧
      ∀ e before, returnsFrom s e = some before → before ≤ (clockStep s e).count := by
  have hStart : Accounted count (freshClock count conservative) :=
    .inl ⟨rfl, rfl, le_rfl, fun d => Nat.zero_add _, Nat.zero_add _⟩
  have h : Accounted count s := hRun.invariant hStart fun s e h hOk => clockStep_accounted h e hOk
  refine ⟨h.synced_le, fun hNone d => ?_, fun e before hReturn => returnsFrom_le h hReturn⟩
  have hIdle : Idle count s := by
    rcases h with hIdle | hServicing | hExact
    · exact hIdle
    · obtain ⟨queue, target, mmio, entry, reached, hCalls, -⟩ := hServicing.open_call
      rw [hCalls] at hNone
      exact absurd hNone (by simp)
    · exact absurd hNone hExact.calls
  have hTotals := hIdle.totals d
  have hCharged := hIdle.charged
  have hSynced := hIdle.synced_le
  exact ⟨hTotals, by omega⟩

/-- Five cycles are charged and served in one chunk. -/
theorem cycles_accounted_five :
    let s := (List.replicate 7 (ClockEvent.resume 100 100)).foldl clockStep
      (clockStep (freshClock 0 false) (.advance 5 100))
    s.calls = [] ∧ s.charged = 5 ∧ ∀ d, s.totals d + 0 = s.synced ∧
      s.totals d + (s.count - s.synced) = s.charged := by
  have hFirst : Reach clockStep ClockStepOk (freshClock 0 false)
      (clockStep (freshClock 0 false) (.advance 5 100)) :=
    Reach.start.next _ (.inr (.inl ⟨rfl, fun _ => rfl⟩))
  have hRun := hFirst.run (List.replicate 7 (.resume 100 100)) fun t e he => by
    obtain ⟨-, rfl⟩ := List.mem_replicate.mp he
    trivial
  exact ⟨by decide, by decide, (cycles_accounted hRun).2.1 (by decide)⟩

/-- The device of the first chunk charges ten cycles itself: they are counted
as served, and no device gets them. -/
theorem cycles_accounted_nested :
    ¬∀ (count : Nat) (conservative : Bool) (s : Clock),
      Reach clockStep (fun _ _ => True) (freshClock count conservative) s → s.calls = [] →
      ∀ d, s.totals d + count = s.synced := by
  intro hClaim
  have hRun : Reach clockStep (fun _ _ => True) (freshClock 0 false) _ :=
    Reach.start.run ([.advance 100 1, .resume 1 1, .advance 10 1] ++
      List.replicate 12 (.resume 1000 1000)) fun _ _ _ => trivial
  exact absurd (hClaim 0 false _ hRun (by decide) .sio) (by decide)

end RecompStudio.Runtime
