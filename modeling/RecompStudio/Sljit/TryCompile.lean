import RecompStudio.Sljit.EmitOne

/-!
`overlay_sljit_try_compile`: the scan that finds the fragment and its branch
targets, the pass that emits it, and the shard as it runs. The fragment is what
lies between the entry and the first `jr $ra`, with its delay slot.
-/

namespace RecompStudio.Sljit

open RecompStudio.Insn
open RecompStudio.Staged
open RecompStudio.Staged.Emit

variable {M : Type}

def maxFragInsns : Nat := 2048

def maxFragCtrl : Nat := 512

/-- What the build fixes: continuation-passing mode, and `GPR_SLOTS_MAX`, which
is four on the host with the fewest saved registers. -/
structure Target where
  cps : Bool
  gprSlotsMax : Nat
  enough : 4 ≤ gprSlotsMax

inductive Control where
  | none
  | ret
  | branch (targetByte : Word)
  | jump (targetByte : Word)
  | call
  | tailJump
  | abort
deriving DecidableEq, Repr

/-- `classify_control`, for the word at the byte offset `off` of the fragment. A
target is a signed offset from the entry. -/
def classifyControl (entryPhys off w : Word) : Control :=
  match Op.ofWord w with
  | .jr => if rs w = 31 then .ret else .tailJump
  | .jalr | .jal => .call
  | .j => .jump ((((w &&& 0x03FFFFFF#32) <<< 2) &&& 0x1FFFFFFF#32) - entryPhys)
  | .beq | .bne | .blez | .bgtz => .branch (off + 4#32 + (simm w <<< 2))
  | .regimm =>
      if rt w = 0x00 ∨ rt w = 0x01 ∨ rt w = 0x10 ∨ rt w = 0x11 then
        .branch (off + 4#32 + (simm w <<< 2))
      else .abort
  | _ => .none

def physical (a : Word) : Word := a &&& 0x1FFFFFFF#32

/-- `img_word`. -/
def imgWord (bytes : List (BitVec 8)) (off : Nat) : Word :=
  bytes.getD (off + 3) 0 ++ bytes.getD (off + 2) 0 ++ bytes.getD (off + 1) 0 ++ bytes.getD off 0

/-- At most `n` words of the image, as far as they lie in it. -/
@[grind =] def imageWords (bytes : List (BitVec 8)) : Nat → Nat → List Word
  | _, 0 => []
  | off, n + 1 =>
      if off + 4 ≤ bytes.length then imgWord bytes off :: imageWords bytes (off + 4) n else []

/-- The code that is compiled: its words, from the entry on. -/
structure Fragment where
  entry : Word
  words : List Word
deriving DecidableEq, Repr

namespace Fragment

/-- The address of a word. -/
@[grind =] def pcOf (F : Fragment) (i : Nat) : Word := F.entry + BitVec.ofNat 32 (4 * i)

def classify (F : Fragment) (i : Nat) (w : Word) : Control :=
  classifyControl (physical F.entry) (BitVec.ofNat 32 (4 * i)) w

/-- The first `jr $ra` from the word `i` on, unless a word before it is not
supported. -/
def findReturn (entry : Word) : Nat → List Word → Option Nat
  | _, [] => none
  | i, w :: rest =>
      match classifyControl (physical entry) (BitVec.ofNat 32 (4 * i)) w with
      | .abort => none
      | .ret => some i
      | _ => findReturn entry (i + 1) rest

/-- The target offsets of the branches and jumps, from the word `i` on. -/
def targetsFrom (F : Fragment) : Nat → List Word → List Word
  | _, [] => []
  | i, w :: rest =>
      match F.classify i w with
      | .branch t | .jump t => t :: targetsFrom F (i + 1) rest
      | _ => targetsFrom F (i + 1) rest

/-- The branches before the `jr $ra`. -/
def targets (F : Fragment) : List Word := F.targetsFrom 0 (F.words.take (F.words.length - 2))

/-- `is_ds`: the word follows a control instruction. -/
def isDelaySlot (F : Fragment) : Nat → Bool
  | 0 => false
  | i + 1 =>
      match F.words[i]? with
      | some w => F.classify i w != .none
      | none => false

/-- A target that the second pass can give a label. -/
def targetOk (F : Fragment) (t : Word) : Bool :=
  !t.slt 0 && t &&& 3#32 == 0 && decide (t.toNat / 4 < F.words.length) &&
    !F.isDelaySlot (t.toNat / 4)

/-- `is_target`. -/
def isTarget (F : Fragment) (i : Nat) : Bool := F.targets.any fun t => t.toNat / 4 == i

/-- `used_mask`. -/
def used (F : Fragment) : Finset RegIndex := F.words.foldr (fun w acc => gprRefMask w ∪ acc) ∅

end Fragment

/-- The first pass. -/
def scan (entry : Word) (bytes : List (BitVec 8)) (imageBase : Word) : Option Fragment :=
  if (physical entry).ult (physical imageBase) then none
  else
    let off := (physical entry - physical imageBase).toNat
    let words := imageWords bytes off maxFragInsns
    match Fragment.findReturn entry 0 words with
    | none => none
    | some i =>
        let F : Fragment := { entry := entry, words := words.take (i + 2) }
        if words.length < i + 2 then none
        else if maxFragCtrl < F.targets.length then none
        else if F.targets.all F.targetOk then some F else none

/-- The transfer that waits for its delay slot. -/
inductive Pending where
  | none
  | ret
  | tail
  | branch (word : Nat) (cond : Bool)
  | call (target : Option Word) (returnPc : Word) (check : Bool)
deriving DecidableEq, Repr

/-- `emit_cond_to_S1`. -/
def emitCond (w : Word) : Emit Unit :=
  match Op.ofWord w with
  | .beq => do
      let a ← gprSrc (rs w)
      let b ← gprSrc (rt w)
      let a ← oneReg a b
      emit (.sub32u .zero a b)
      emit (.opFlags .ctrl .equal)
      gprUnpin
  | .bne => do
      let a ← gprSrc (rs w)
      let b ← gprSrc (rt w)
      let a ← oneReg a b
      emit (.sub32u .zero a b)
      emit (.opFlags .ctrl .notEqual)
      gprUnpin
  | .blez => emitSign .sigGreater .sigLessEqual
  | .bgtz => emitSign .sigGreater .sigGreater
  | _ =>
      if rt w = 0x00 ∨ rt w = 0x10 then emitSign .sigLess .sigLess
      else emitSign .sigLess .sigGreaterEqual
where
  /-- The comparison of a register with zero. -/
  emitSign (set : FlagType) (cc : Cond) : Emit Unit := do
    let a ← gprSrc (rs w)
    let a ← asReg a .r0
    emit (.sub32u set a (.imm 0))
    emit (.opFlags .ctrl cc)
    gprUnpin

/-- The link of a branch, written before the condition is read. -/
def emitLink (w returnPc : Word) : Emit Unit := do
  if Op.ofWord w = .regimm ∧ (rt w = 0x10 ∨ rt w = 0x11) then
    let d ← gprDst 31
    emit (.op1 .mov32 (.reg d) (.imm (returnPc.zeroExtend 64)))

/-- What a control instruction emits before its delay slot. -/
def emitControl (pc w : Word) : Control → Emit Pending
  | .branch t => do
      emitLink w (pc + 8#32)
      emitCond w
      pure (.branch (t.toNat / 4) true)
  | .jump t => pure (.branch (t.toNat / 4) false)
  | .tailJump => do
      let a ← gprSrc (rs w)
      emit (.op1 .mov32 (.reg .ctrl) a)
      gprUnpin
      pure .tail
  | .call =>
      if Op.ofWord w = .jal then do
        let d ← gprDst 31
        emit (.op1 .mov32 (.reg d) (.imm ((pc + 8#32).zeroExtend 64)))
        pure (.call (some (jumpTarget pc w)) (pc + 8#32) true)
      else do
        let a ← gprSrc (rs w)
        emit (.op1 .mov32 (.reg .ctrl) a)
        let d ← gprDst (if rd w = 0 then 31 else rd w)
        emit (.op1 .mov32 (.reg d) (.imm ((pc + 8#32).zeroExtend 64)))
        gprUnpin
        pure (.call none (pc + 8#32) (rd w = 0 || rd w = 31))
  | _ => pure .ret

/-- What follows the delay slot, once memory has the registers. Calls are not
compiled in continuation-passing mode. -/
def emitTransfer (cps : Bool) : Pending → Option (Emit Unit)
  | .none => some (pure ())
  | .ret => some do
      if cps then
        emitAll [.op1 .mov32 (.reg .r0) (.mem (.gpr 31)), .op1 .mov32 (.mem .pc) (.reg .r0)]
      emit .returnVoid
      gprReset
  | .tail => some do
      emit (.op1 .mov32 (.mem .pc) (.reg .ctrl))
      emit .returnVoid
      gprReset
  | .branch word true => some (emit (.cmpJump .notEqual (.reg .ctrl) (.imm 0) word))
  | .branch word false => some do
      emit (.jump word)
      gprReset
  | .call target returnPc check =>
      if cps then none
      else some do
        emit (.op1 .mov32 (.reg .r1)
          (match target with
            | some t => .imm (t.zeroExtend 64)
            | none => .reg .ctrl))
        emit (.op1 .mov32 (.reg .r2) (.imm (returnPc.zeroExtend 64)))
        emit (.op1 .mov32 (.reg .r3) (.imm (if check then 1 else 0)))
        emit (.icall .call)
        emitAll [.cmpSkip .equal (.reg .r0) (.imm 0) 1, .returnVoid]
        gprReset

/-- A branch target: the edge that falls into it saves its registers before the
label, as the edges that jump to it have done. -/
def emitLabel (F : Fragment) (i : Nat) : Emit Unit := do
  if F.isTarget i then
    gprFlush
    gprReset
    emit (.label i)

/-- A delay slot, and the transfer that waited for it. -/
def emitSlot (m transfer : Emit Unit) : Emit Pending := do
  m
  gprFlush
  transfer
  pure .none

/-- The word `i` of the second pass, which is a delay slot if a transfer is
pending. -/
@[grind =]
def emitWord (cps : Bool) (F : Fragment) (i : Nat) (w : Word) : Pending → Option (Emit Pending)
  | .none =>
      match F.classify i w with
      | .abort => none
      | .none => do
          let m ← emitOne w
          some do
            m
            pure .none
      | ctrl => some (emitControl (F.pcOf i) w ctrl)
  | pending =>
      match F.classify i w with
      | .none => do
          let m ← emitOne w
          let transfer ← emitTransfer cps pending
          some (emitSlot m transfer)
      | _ => none

/-- The code from some word on, and `labels`: the code behind each label in it. -/
structure Assembled where
  code : List Lir
  labels : List (Nat × List Lir)

/-- The second pass, from the word `i` on. -/
def emitFrom (cps : Bool) (F : Fragment) : Nat → Pending → List Word → GprCache → Option Assembled
  | _, .none, [], _ => some { code := [], labels := [] }
  | _, _, [], _ => none
  | i, pending, w :: rest, c =>
      match emitWord cps F i w pending with
      | none => none
      | some m =>
          let label := emitLabel F i c
          let r := m label.state
          match emitFrom cps F (i + 1) r.value rest r.state with
          | none => none
          | some later =>
              let behind := r.code ++ later.code
              some {
                code := label.code ++ behind
                labels := if F.isTarget i then (i, behind) :: later.labels else later.labels }

/-- The cache at the entry. -/
def initialCache (T : Target) (F : Fragment) : GprCache where
  slots := List.replicate (min F.used.card T.gprSlotsMax) ⟨none, false, false, 0⟩
  lru := 0

structure Shard where
  fragment : Fragment
  assembled : Assembled

/-- `overlay_sljit_try_compile`. -/
def tryCompile (T : Target) (entry : Word) (bytes : List (BitVec 8)) (imageBase : Word) :
    Option Shard :=
  match scan entry bytes imageBase with
  | none => none
  | some F =>
      match emitFrom T.cps F 0 .none F.words (initialCache T F) with
      | none => none
      | some assembled => some { fragment := F, assembled := assembled }

/-- Running a shard from some place in it, with a bound on the jumps. -/
@[grind =] def runShard (p : Platform M) (labels : List (Nat × List Lir)) :
    Nat → List Lir → HostState M → Option (CPUState M)
  | 0, _, _ => none
  | fuel + 1, code, st =>
      match run (step p) code st with
      | .error (.returned cpu) => some cpu
      | .error (.jumped word st') =>
          match labels.lookup word with
          | some code' => runShard p labels fuel code' st'
          | none => none
      | _ => none

/-- The host state in which a shard is entered. -/
def entryState (p : Platform M) (s : CPUState M) : HostState M where
  regs := p.clobber
  flags := none
  skip := 0
  cpu := s

/-- The shard, entered with `s`, returns with `t`. -/
def ShardExits (p : Platform M) (shard : Shard) (s t : CPUState M) : Prop :=
  ∃ fuel, runShard p shard.assembled.labels fuel shard.assembled.code (entryState p s) = some t

/-- Where the guest goes on after a shard has returned. Outside
continuation-passing mode a program counter of zero means that it returned as
its caller expects, to the address in `$ra`. -/
@[grind =] def nextGuestPc (cps : Bool) (s : CPUState M) : Word :=
  if !cps && s.pc == 0 then s.gpr 31 else s.pc

end RecompStudio.Sljit
