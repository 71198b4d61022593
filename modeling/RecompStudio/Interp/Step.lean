import RecompStudio.Interp.ExecOne

/-!
`exec_one` with everything it leaves behind: the processor's state also when a
word is given up, the flag that tells so, and the delay slots that are executed on
the way. What lies outside the interpreter (system calls, exceptions, the ways in
which a call is resolved, the cycles that an instruction is charged) is a host.
-/

namespace RecompStudio.Interp

open RecompStudio.Emitted
open RecompStudio.Insn

variable {M : Type}

/-- The processor and the flags of the interpreter. -/
structure InterpState (M : Type) where
  cpu : CPUState M
  /-- `g_unsupported_seen`. -/
  unsupported : Bool
  /-- `g_psx_call_bail`. -/
  bail : Bool

namespace InterpState

def setPc (i : InterpState M) (pc : Word) : InterpState M :=
    { i with cpu := { i.cpu with pc := pc } }

/-- `abort_unsupported`. -/
def abort (i : InterpState M) : InterpState M := { i with unsupported := true }

/-- The processor, with the flags clear. -/
def ofCpu (s : CPUState M) : InterpState M := ⟨s, false, false⟩

end InterpState

/-- What `exec_one` returns: whether control was transferred, and `*next_pc_out`. -/
structure Stepped (M : Type) where
  state : InterpState M
  transferred : Bool
  next : Word

/-- A call outside the precise mode, behind its delay slot. -/
structure CallSite where
  pc : Word
  insn : Word
  target : Word
  returnPc : Word

/-- What `exec_one` calls. A charge for an instruction may bring device events, which
the memory stands for as well. -/
structure StepHost (M : Type) extends Host M where
  fetch : Word → M → Word
  charge : Word → M → M
  /-- `psx_break`, `psx_cop_unusable` and `psx_address_error_exception`. -/
  trap : Trap → Word → Word → InterpState M → InterpState M
  /-- `psx_syscall`. -/
  psxSyscall : Word → InterpState M → InterpState M
  /-- The compiled code, the overlays, the dispatch of a call, or a plain transfer. -/
  call : CallSite → InterpState M → Stepped M

/-- What the loops around `exec_one` call. -/
structure RuntimeHost (M : Type) extends StepHost M where
  /-- `psx_get_in_exception`. -/
  inException : M → Bool
  /-- `psx_check_interrupts`, with `g_dirty_safe_resume_pc`. -/
  checkInterrupts : Word → InterpState M → InterpState M
  /-- `PSX_HAS_GAME_DISPATCH`. -/
  hasGameDispatch : Bool
  gameAddressInText : Word → Bool
  dirtyRamIsDirty : Word → M → Bool

/-- The target of a word that executes its delay slot. -/
@[grind =] def transferTarget (pc w : Word) (s : CPUState M) : Option Word :=
  match Op.ofWord w with
  | .jr | .jalr => some (s.gpr (rs w))
  | .j | .jal => some (jumpTarget pc w)
  | .cop1 =>
      if cop1Usable s && isBc1 w then
        some (if (rt w).getLsbD 0 then pc + 8#32 else branchTarget pc w)
      else none
  | _ => (branchTaken w s).map fun taken => if taken then branchTarget pc w else pc + 8#32

/-- The link register, which is written before the delay slot is executed. -/
def linkWrite (pc w : Word) (s : CPUState M) : CPUState M :=
  match Op.ofWord w with
  | .jalr => writeGpr s (if rd w = 0 then 31 else rd w) (pc + 8#32)
  | .jal => s.setGpr 31 (pc + 8#32)
  | _ => if branchLinks w then s.setGpr 31 (pc + 8#32) else s

/-- The link does not depend on the memory. -/
theorem linkWrite_mem {pc w : Word} {s : CPUState M} {m : M} :
    linkWrite pc w { s with mem := m } = { linkWrite pc w s with mem := m } := by
  unfold linkWrite
  split
  · rfl
  · rfl
  · split_ifs <;> rfl

def isCall (w : Word) : Bool :=
  match Op.ofWord w with
  | .jal | .jalr => true
  | _ => false

namespace StepHost

variable (H : StepHost M)

/-- The charge for the instruction at `pc`. -/
def charged (pc : Word) (i : InterpState M) : InterpState M :=
  { i with cpu := { i.cpu with mem := H.charge pc i.cpu.mem } }

@[grind =] def word (pc : Word) (i : InterpState M) : Word := H.fetch pc i.cpu.mem

/-- The cases of `exec_one` that execute no delay slot. -/
def execSimple (pc w : Word) (i : InterpState M) : Stepped M :=
  if Op.ofWord w = .syscall then
    let j := H.psxSyscall (trapCode w) (i.setPc pc)
    ⟨j, j.cpu.pc ≠ 0, pc + 4#32⟩
  else
    match execPlain H.toHost pc w i.cpu with
    | .advance s => ⟨{ i with cpu := s }, false, pc + 4#32⟩
    | .transfer s => ⟨{ i with cpu := s }, true, pc + 4#32⟩
    | .trap t => ⟨H.trap t pc w i, true, pc + 4#32⟩
    | .unsupported => ⟨i.abort, true, pc + 4#32⟩

/-- `exec_one`, given `exec_delay_slot`. What the slot asks for is ignored. -/
@[grind =]
def execOneWith (precise : Bool) (slot : Word → InterpState M → Option (InterpState M)) (pc : Word)
    (i : InterpState M) : Option (Stepped M) :=
  let w := H.word pc i
  let c := H.charged pc i
  match transferTarget pc w c.cpu with
  | none => some (H.execSimple pc w c)
  | some target =>
      (slot (pc + 4#32) { c with cpu := linkWrite pc w c.cpu }).map fun j =>
        if isCall w && !precise then H.call ⟨pc, w, target, pc + 8#32⟩ j
        else ⟨j.setPc target, true, pc + 4#32⟩

/-- `exec_delay_slot`, given `exec_one`. -/
def delaySlotWith (one : Word → InterpState M → Option (Stepped M)) (pc : Word)
    (i : InterpState M) : Option (InterpState M) :=
  if rejectsDelaySlot (H.word pc i) then some i.abort else (one pc i).map Stepped.state

/-- `exec_one` on a host stack with room for `depth` slots inside each other, which
only coprocessor branches are; there is no answer when it overflows. -/
def execOne (precise : Bool) : Nat → Word → InterpState M → Option (Stepped M)
  | 0 => H.execOneWith precise (H.delaySlotWith fun _ _ => none)
  | depth + 1 => H.execOneWith precise (H.delaySlotWith (execOne precise depth))

/-- `exec_delay_slot`. -/
@[grind =]
def execDelaySlot (precise : Bool) (depth : Nat) : Word → InterpState M → Option (InterpState M) :=
  match depth with
  | 0 => H.delaySlotWith fun _ _ => none
  | depth + 1 => H.delaySlotWith (H.execOne precise depth)

theorem execOne_eq (precise : Bool) (depth : Nat) :
    H.execOne precise depth = H.execOneWith precise (H.execDelaySlot precise depth) := by
  cases depth <;> rfl

/-- The word at `pc` is one that `exec_one` has no case for. -/
def unknownWord (pc w : Word) (s : CPUState M) : Bool :=
  Op.ofWord w ≠ .syscall && (match execPlain H.toHost pc w s with
    | .unsupported => true
    | _ => false)

/-- The last word of an instruction: the word itself, or what stands in its delay slot,
behind the coprocessor branches there that execute slots of their own. -/
structure LastWord (M : Type) where
  pc : Word
  word : Word
  /-- In front of the word, with its charge unless it may not stand in a slot. -/
  state : InterpState M
  /-- Where the coprocessor branch goes that the slot begins with. -/
  target : Option Word

/-- Where the slot at `pc` ends; nowhere when the host's stack overflows. -/
def slotEnd : Nat → Word → InterpState M → Option (LastWord M)
  | 0, pc, i => if rejectsDelaySlot (H.word pc i) then some ⟨pc, H.word pc i, i, none⟩ else none
  | depth + 1, pc, i =>
      if rejectsDelaySlot (H.word pc i) then some ⟨pc, H.word pc i, i, none⟩
      else
        match transferTarget pc (H.word pc i) (H.charged pc i).cpu with
        | none => some ⟨pc, H.word pc i, H.charged pc i, none⟩
        | some target => (slotEnd depth (pc + 4#32) (H.charged pc i)).map
            ({ · with target := some target })

/-- `exec_delay_slot` gives the slot up. -/
def slotGivenUp (e : LastWord M) : Bool :=
  rejectsDelaySlot e.word || H.unknownWord e.pc e.word e.state.cpu

/-- What `exec_delay_slot` leaves. -/
def slotState (e : LastWord M) : InterpState M :=
  let j := if rejectsDelaySlot e.word then e.state.abort
    else (H.execSimple e.pc e.word e.state).state
  e.target.elim j j.setPc

/-- What a word comes to outside the interpreter, in a system call or an exception. -/
def outside (pc w : Word) (i : InterpState M) : InterpState M :=
  if Op.ofWord w = .syscall then H.psxSyscall (trapCode w) (i.setPc pc)
  else
    match execPlain H.toHost pc w i.cpu with
    | .trap t => H.trap t pc w i
    | _ => i

variable {H} {precise : Bool} {depth : Nat} {pc : Word} {i j : InterpState M} {e : LastWord M}
variable {slot : Word → InterpState M → Option (InterpState M)}

/-- A word with no case leaves the state, up to its charge. -/
theorem execSimple_unknown {w : Word} (hUnknown : H.unknownWord pc w i.cpu = true) :
    H.execSimple pc w i = ⟨i.abort, true, pc + 4#32⟩ := by
  obtain ⟨hNoSyscall, hExec⟩ := Bool.and_eq_true_iff.mp hUnknown
  rw [execSimple, if_neg (by simpa using hNoSyscall)]
  split at hExec
  · rename_i hUnsupported
    rw [hUnsupported]
  · cases hExec

/-- Only what is called outside raises a flag in a word that is executed. -/
theorem execSimple_flags {w : Word} (hKnown : H.unknownWord pc w i.cpu = false) :
    (H.execSimple pc w i).state.unsupported = (H.outside pc w i).unsupported ∧
      (H.execSimple pc w i).state.bail = (H.outside pc w i).bail := by
  rw [execSimple, outside]
  split
  · exact ⟨rfl, rfl⟩
  · rename_i hOp
    rw [unknownWord, decide_eq_true (p := Op.ofWord w ≠ .syscall) hOp, Bool.true_and] at hKnown
    cases hExec : execPlain H.toHost pc w i.cpu with
    | unsupported =>
        rw [hExec] at hKnown
        cases hKnown
    | advance s => exact ⟨rfl, rfl⟩
    | transfer s => exact ⟨rfl, rfl⟩
    | trap t => exact ⟨rfl, rfl⟩

/-- A word that may stand in a delay slot neither links nor calls. -/
theorem linkWrite_of_slot {w target : Word} {g : CPUState M} (hRejects : rejectsDelaySlot w = false)
    (hTarget : transferTarget pc w g = some target) :
    isCall w = false ∧ linkWrite pc w g = g := by
  rw [isCall, linkWrite, branchLinks]
  rw [rejectsDelaySlot] at hRejects
  rw [transferTarget, branchTaken] at hTarget
  cases hOp : Op.ofWord w <;> simp_all

theorem execOneWith_nested {target : Word} (hRejects : rejectsDelaySlot (H.word pc i) = false)
    (hTarget : transferTarget pc (H.word pc i) (H.charged pc i).cpu = some target) :
    H.execOneWith precise slot pc i = (slot (pc + 4#32) (H.charged pc i)).map fun j =>
      ⟨j.setPc target, true, pc + 4#32⟩ := by
  obtain ⟨hCall, hLink⟩ := linkWrite_of_slot hRejects hTarget
  simp only [execOneWith, hTarget, hLink, hCall, Bool.false_and, Bool.false_eq_true, if_false]

theorem execDelaySlot_rejected (hRejects : rejectsDelaySlot (H.word pc i) = true) :
    H.execDelaySlot precise depth pc i = some i.abort := by
  cases depth <;> simp [execDelaySlot, delaySlotWith, hRejects]

theorem execDelaySlot_succ (hRejects : rejectsDelaySlot (H.word pc i) = false) :
    H.execDelaySlot precise (depth + 1) pc i =
      (H.execOne precise depth pc i).map Stepped.state := by
  rw [execDelaySlot, delaySlotWith, hRejects, if_neg Bool.false_ne_true]

theorem slotEnd_rejected (hRejects : rejectsDelaySlot (H.word pc i) = true) :
    H.slotEnd depth pc i = some ⟨pc, H.word pc i, i, none⟩ := by
  cases depth <;> rw [slotEnd, if_pos hRejects]

/-- The delay slot, by its last word. -/
theorem execDelaySlot_eq :
    H.execDelaySlot precise depth pc i = (H.slotEnd depth pc i).map H.slotState := by
  induction depth generalizing pc i with
  | zero =>
      cases hRejects : rejectsDelaySlot (H.word pc i) with
      | true =>
          rw [execDelaySlot_rejected hRejects, slotEnd_rejected hRejects, Option.map_some,
            slotState, if_pos hRejects]
          rfl
      | false =>
          rw [execDelaySlot, delaySlotWith, hRejects, slotEnd, hRejects,
            if_neg Bool.false_ne_true, if_neg Bool.false_ne_true]
          rfl
  | succ depth ih =>
      cases hRejects : rejectsDelaySlot (H.word pc i) with
      | true =>
          rw [execDelaySlot_rejected hRejects, slotEnd_rejected hRejects, Option.map_some,
            slotState, if_pos hRejects]
          rfl
      | false =>
          rw [execDelaySlot_succ hRejects, execOne_eq, slotEnd, hRejects,
            if_neg Bool.false_ne_true]
          cases hTarget : transferTarget pc (H.word pc i) (H.charged pc i).cpu with
          | none =>
              simp only [execOneWith, hTarget, Option.map_some, slotState, hRejects,
                Bool.false_eq_true, if_false, Option.elim_none]
          | some target =>
              rw [execOneWith_nested hRejects hTarget, ih, Option.map_map, Option.map_map,
                Option.map_map]
              refine congrArg (Option.map · _) (funext fun e => ?_)
              -- the outer branch sets the program counter last
              cases hInner : e.target with
              | none => simp only [Function.comp_apply, slotState, hInner, Option.elim_none,
                  Option.elim_some]
              | some inner => simp only [Function.comp_apply, slotState, hInner, Option.elim_some,
                  InterpState.setPc]

/-- In front of the last word of a slot only cycles have been charged. -/
theorem slotEnd_state (hSlot : H.slotEnd depth pc i = some e) :
    ∃ m, e.state = { i with cpu := { i.cpu with mem := m } } := by
  induction depth generalizing pc i e with
  | zero =>
      rw [slotEnd] at hSlot
      split at hSlot
      · cases hSlot
        exact ⟨_, rfl⟩
      · cases hSlot
  | succ depth ih =>
      rw [slotEnd] at hSlot
      split at hSlot
      · cases hSlot
        exact ⟨_, rfl⟩
      · split at hSlot
        · cases hSlot
          exact ⟨_, rfl⟩
        · obtain ⟨e', hEnd, rfl⟩ := Option.map_eq_some_iff.mp hSlot
          obtain ⟨m, hState⟩ := ih hEnd
          exact ⟨m, hState⟩

/-- A slot that is given up leaves the state in front of its last word, up to the program
counter. -/
theorem slotState_givenUp (hUp : H.slotGivenUp e = true) (target : Word) :
    (H.slotState e).setPc target = e.state.abort.setPc target := by
  rw [slotState]
  cases hRejects : rejectsDelaySlot e.word with
  | true => cases e.target <;> rfl
  | false =>
      rw [slotGivenUp, hRejects, Bool.false_or] at hUp
      simp only [execSimple_unknown hUp, Bool.false_eq_true, if_false]
      cases e.target <;> rfl

/-- A slot that is executed leaves what its last word does, up to the program counter. -/
theorem slotState_executed (hFine : H.slotGivenUp e = false) (target : Word) :
    (H.slotState e).setPc target = (H.execSimple e.pc e.word e.state).state.setPc target := by
  obtain ⟨hRejects, -⟩ := Bool.or_eq_false_iff.mp hFine
  rw [slotState, hRejects, if_neg Bool.false_ne_true]
  cases e.target <;> rfl

/-- `exec_one` on words in a row, up to the first transfer of control. -/
def interpret (H : StepHost M) (depth : Nat) : Nat → Word → InterpState M → Option (InterpState M)
  | 0, _, _ => none
  | fuel + 1, pc, i =>
      (H.execOne true depth pc i).bind fun r =>
        if r.transferred then some r.state else interpret H depth fuel r.next r.state

/-- The interpreter on words that nothing writes, and on the host of the emitted code. No
cycles are charged. -/
def onWords (h : Host M) (fetch : Word → Word) : StepHost M where
  toHost := h
  fetch := fun pc _ => fetch pc
  charge := fun _ m => m
  trap := fun t pc w i => { i with cpu := h.raise t pc w i.cpu }
  psxSyscall := fun code i => { i with cpu := (h.syscall code i.cpu).2 }
  call := fun c i => ⟨i.setPc c.target, true, c.pc + 4#32⟩

/-- What `exec_one` leaves of a word that executes no slot, where it has a case for it. -/
def wordLeaves (h : Host M) (pc w : Word) (s : CPUState M) : Option (CPUState M) :=
  match execPlain h pc w s with
  | .advance t | .transfer t => some t
  | .trap t => some (h.raise t pc w s)
  | .unsupported => none

variable {h : Host M} {fetch : Word → Word} {s t : CPUState M} {w target : Word} {fuel : Nat}

theorem execOne_onWords_none (hWord : fetch pc = w) (hNone : transferTarget pc w s = none) :
    (onWords h fetch).execOne true depth pc (.ofCpu s) =
      some ((onWords h fetch).execSimple pc w (.ofCpu s)) := by
  subst hWord
  rw [execOne_eq]
  change (match transferTarget pc (fetch pc) s with
    | none => some ((onWords h fetch).execSimple pc (fetch pc) (.ofCpu s))
    | some target => _) = _
  rw [hNone]

theorem execOne_onWords_advance (hWord : fetch pc = w) (hNone : transferTarget pc w s = none)
    (hExec : execPlain h pc w s = .advance t) :
    (onWords h fetch).execOne true depth pc (.ofCpu s) = some ⟨.ofCpu t, false, pc + 4#32⟩ := by
  have hStep : (onWords h fetch).execSimple pc w (.ofCpu s) = ⟨.ofCpu t, false, pc + 4#32⟩ := by
    by_cases hOp : Op.ofWord w = .syscall
    · simp only [execPlain, hOp] at hExec
      split_ifs at hExec with hPc
      obtain rfl := ExecResult.advance.inj hExec
      simp [execSimple, hOp, onWords, InterpState.ofCpu, InterpState.setPc, hPc]
    · have hHost : execPlain (onWords h fetch).toHost pc w (InterpState.ofCpu s).cpu = .advance t :=
        hExec
      rw [execSimple, if_neg hOp, hHost]
      rfl
  rw [execOne_eq]
  change (match transferTarget pc (fetch pc) s with
    | none => some ((onWords h fetch).execSimple pc (fetch pc) (.ofCpu s))
    | some target => _) = _
  rw [hWord, hNone]
  exact congrArg some hStep

/-- A transfer goes to its target whatever its delay slot asks for. -/
theorem execOne_onWords_transfer (hWord : fetch pc = w)
    (hTarget : transferTarget pc w s = some target) :
    (onWords h fetch).execOne true depth pc (.ofCpu s) =
      ((onWords h fetch).execDelaySlot true depth (pc + 4#32) (.ofCpu (linkWrite pc w s))).map
        fun j => ⟨j.setPc target, true, pc + 4#32⟩ := by
  subst hWord
  rw [execOne_eq]
  change (match transferTarget pc (fetch pc) s with
    | none => some ((onWords h fetch).execSimple pc (fetch pc) (.ofCpu s))
    | some target => ((onWords h fetch).execDelaySlot true depth (pc + 4#32)
        (.ofCpu (linkWrite pc (fetch pc) s))).map fun j : InterpState M =>
          if isCall (fetch pc) && !true then _ else ⟨j.setPc target, true, pc + 4#32⟩) = _
  rw [hTarget]
  simp only [Bool.not_true, Bool.and_false, Bool.false_eq_true, if_false]

/-- A delay slot that executes no slot of its own. -/
theorem execDelaySlot_onWords (hWord : fetch pc = w) (hRejects : rejectsDelaySlot w = false)
    (hNone : transferTarget pc w s = none) :
    (onWords h fetch).execDelaySlot true (depth + 1) pc (.ofCpu s) =
      some ((wordLeaves h pc w s).elim (InterpState.ofCpu s).abort .ofCpu) := by
  have hStep : ((onWords h fetch).execSimple pc w (.ofCpu s)).state =
      (wordLeaves h pc w s).elim (InterpState.ofCpu s).abort .ofCpu := by
    by_cases hOp : Op.ofWord w = .syscall
    · simp only [execSimple, wordLeaves, execPlain, hOp, if_true]
      by_cases hPc : (h.syscall (trapCode w) { s with pc := pc }).2.pc = 0
      · rw [if_pos hPc]
        rfl
      · rw [if_neg hPc]
        rfl
    · rw [execSimple, if_neg hOp]
      change Stepped.state (match execPlain h pc w s with
        | .advance t => _ | .transfer t => _ | .trap t => _ | .unsupported => _) = _
      rw [wordLeaves]
      cases execPlain h pc w s <;> rfl
  have hHead : (onWords h fetch).word pc (.ofCpu s) = w := hWord
  rw [execDelaySlot_succ (by rw [hHead, hRejects]), execOne_onWords_none hWord hNone,
    Option.map_some, hStep]

/-- A word that is accepted and may stand in a delay slot is no transfer itself. -/
theorem transferTarget_of_slot (hRejects : rejectsDelaySlot w = false)
    (hAccepted : execPlain h pc w s ≠ .unsupported) : transferTarget pc w s = none := by
  rw [rejectsDelaySlot] at hRejects
  rw [execPlain] at hAccepted
  rw [transferTarget, branchTaken]
  cases hOp : Op.ofWord w <;> simp only [hOp, reduceCtorEq] at hRejects hAccepted ⊢
  case cop1 => split_ifs at hAccepted ⊢ <;> simp_all
  all_goals rfl

/-- A transfer with a delay slot that goes on. -/
theorem execOne_onWords_slot {slot : Word} (hWord : fetch pc = w) (hSlot : fetch (pc + 4#32) = slot)
    (hTarget : transferTarget pc w s = some target) (hRejects : rejectsDelaySlot slot = false)
    (hExec : execPlain h (pc + 4#32) slot (linkWrite pc w s) = .advance t) :
    (onWords h fetch).execOne true (depth + 1) pc (.ofCpu s) =
      some ⟨.ofCpu { t with pc := target }, true, pc + 4#32⟩ := by
  have hAccepted : execPlain h (pc + 4#32) slot (linkWrite pc w s) ≠ .unsupported := by
    simp only [hExec, ne_eq, reduceCtorEq, not_false_eq_true]
  rw [execOne_onWords_transfer hWord hTarget,
    execDelaySlot_onWords hSlot hRejects (transferTarget_of_slot hRejects hAccepted), wordLeaves,
    hExec]
  rfl

theorem interpret_onWords_advance (hWord : fetch pc = w) (hNone : transferTarget pc w s = none)
    (hExec : execPlain h pc w s = .advance t) :
    (onWords h fetch).interpret depth (fuel + 1) pc (.ofCpu s) =
      (onWords h fetch).interpret depth fuel (pc + 4#32) (.ofCpu t) := by
  rw [interpret, execOne_onWords_advance hWord hNone hExec]
  rfl

theorem interpret_onWords_transfer (hWord : fetch pc = w)
    (hTarget : transferTarget pc w s = some target) :
    (onWords h fetch).interpret depth (fuel + 1) pc (.ofCpu s) =
      ((onWords h fetch).execDelaySlot true depth (pc + 4#32) (.ofCpu (linkWrite pc w s))).map
        (InterpState.setPc · target) := by
  rw [interpret, execOne_onWords_transfer hWord hTarget]
  cases (onWords h fetch).execDelaySlot true depth (pc + 4#32) (.ofCpu (linkWrite pc w s)) <;> rfl

end StepHost

/-- A host on which nothing happens beside the instructions, with clean game text. -/
def quietHost (fetch : Word → Word) : RuntimeHost Unit where
  bus := ⟨fun _ m => (0, m), fun _ m => (0, m), fun _ m => (0, m), fun _ _ _ m => m,
    fun _ _ _ m => m, fun _ _ _ m => m⟩
  gteCommand := fun _ g => g
  hostFn := fun _ a _ => a
  syscall := fun _ s => (false, s)
  raise := fun _ _ _ s => s
  fetch := fun pc _ => fetch pc
  charge := fun _ m => m
  trap := fun _ _ _ i => i
  psxSyscall := fun _ i => i
  call := fun c i => ⟨i, true, c.returnPc⟩
  inException := fun _ => false
  checkInterrupts := fun _ i => i
  hasGameDispatch := true
  gameAddressInText := fun pc => (0x80010000#32).ule pc && pc.ult 0x80020000#32
  dirtyRamIsDirty := fun _ _ => false

/-- All registers are zero. -/
def stateAt (pc : Word) : InterpState Unit :=
  ⟨⟨fun _ => 0, pc, 0, 0, fun _ => 0, fun _ => 0, fun _ => 0, ()⟩, false, false⟩

end RecompStudio.Interp
