import RecompStudio.CodeGen.Labels
import RecompStudio.Runtime.Interlock

/-!
The cycles that a path through a basic block is charged: by the emitted text, at
every instruction or once at the block's head, and by the interpreter.
-/

namespace RecompStudio.CodeGen

open RecompStudio.Insn
open RecompStudio.Runtime

/-- `psx_instr_base_cycles`. -/
@[grind =] def instrBaseCycles (_ : Word) : Nat := 1

/-- `psx_cyc_dep_res_mask`. -/
def cycDepResMask (w : Word) : Word :=
  let mRs := 1#32 <<< rs w
  let mRt := 1#32 <<< rt w
  let mRd := 1#32 <<< rd w
  match Op.ofWord w with
  | .sll | .srl | .sra => mRt ||| mRd
  | .sllv | .srlv | .srav => mRs ||| mRt ||| mRd
  | .jr | .jalr => mRs ||| mRd
  | .mfhi | .mflo => mRd
  | .mthi | .mtlo => mRs
  | .mult | .multu | .div | .divu => mRs ||| mRt
  | .add | .addu | .sub | .subu | .and | .or | .xor | .nor | .slt | .sltu => mRs ||| mRt ||| mRd
  | .regimm => mRs ||| (if rt w &&& 0x1E = 0x10 then 1#32 <<< 31 else 0)
  | .jal => 1#32 <<< 31
  | .beq | .bne => mRs ||| mRt
  | .blez | .bgtz => mRs
  | .addi | .addiu | .slti | .sltiu | .andi | .ori | .xori => mRs ||| mRt
  | .lui => mRt
  | .lb | .lh | .lwl | .lw | .lbu | .lhu | .lwr => mRs
  | .sb | .sh | .swl | .sw | .swr => mRs ||| mRt
  | .lwc1 | .swc1 => mRs
  | _ => 0

/-- The opcodes 0x20 to 0x26, whose interlock runs with the access. -/
def isCpuLoad (w : Word) : Bool :=
  match Op.ofWord w with
  | .lb | .lh | .lwl | .lw | .lbu | .lhu | .lwr => true
  | _ => false

/-- What an instruction finds in the machine when it runs: the address of its
access, the register of a multiplication, whether coprocessor 1 is usable, and
what the service behind a `syscall` charges. -/
structure Operands where
  address : Word
  factor : Word
  cop1 : Bool
  service : List TimingCall

/-- `codegen_cycle_per_insn`: every instruction is charged at its own site, or a
block at its head. -/
inductive CycleMode where
  | perInsn | upFront
deriving DecidableEq, Repr

def loadCall (addr : Word) (size : Nat) (w : Word) : TimingCall :=
  .load addr size (rt w) (1#32 <<< rs w)

/-- The calls of the COP2 instructions. -/
@[grind =] def cop2Calls (w : Word) : List TimingCall :=
  if rs w = 0x00 ∨ rs w = 0x02 then [.gteRead (rt w)]
  else if rs w = 0x04 ∨ rs w = 0x06 then [.gteStall]
  else if rs w &&& 0x10 ≠ 0 then [.gteSet (gteCmdLatency (w &&& 0x1FFFFFF#32))]
  else []

/-- The calls in the translation of a word. An unaligned load to the zero register
emits nothing, and the words without translation are comments. -/
@[grind =] def translatedCalls (o : Operands) (w : Word) : List TimingCall :=
  match Op.ofWord w with
  | .syscall => o.service
  | .mfhi | .mflo => [.muldivStall]
  | .mult => [.muldivSet (multLatencyS o.factor)]
  | .multu => [.muldivSet (multLatencyU o.factor)]
  | .div | .divu => [.muldivSet 37]
  | .cop0 => if rs w = 0 then [.moveCop0 (rt w)] else []
  | .cop2 => cop2Calls w
  | .lb | .lbu => [loadCall o.address 1 w]
  | .lh | .lhu => [loadCall o.address 2 w]
  | .lw => [loadCall o.address 4 w]
  | .lwl | .lwr => if rt w = 0 then [] else [loadCall (o.address &&& 0xFFFFFFFC#32) 4 w]
  | .lwc2 => [.gteStall, .copLoad o.address]
  | .swc2 => [.gteStall]
  | _ => []

/-- The calls in the body of `exec_one`. -/
@[grind =] def execOneBody (o : Operands) (w : Word) : List TimingCall :=
  match Op.ofWord w with
  | .syscall => o.service
  | .mfhi | .mflo => [.muldivStall]
  | .mult => [.muldivSet (multLatencyS o.factor)]
  | .multu => [.muldivSet (multLatencyU o.factor)]
  | .div | .divu => [.muldivSet 37]
  | .cop0 => if rs w = 0 then [.moveCop0 (rt w)] else []
  | .cop2 => cop2Calls w
  | .lb | .lbu => [loadCall o.address 1 w]
  | .lh | .lhu => [loadCall o.address 2 w]
  | .lw => [loadCall o.address 4 w]
  | .lwl | .lwr => [loadCall (o.address &&& 0xFFFFFFFC#32) 4 w]
  | .lwc1 => if o.cop1 ∧ o.address &&& 3#32 = 0 then [.copLoad o.address] else []
  | .lwc2 => [.gteStall, .copLoad o.address]
  | .swc2 => [.gteStall]
  | _ => []

/-- The interlock in front of an instruction that is no load. -/
def preTiming (w : Word) : List TimingCall :=
  if isCpuLoad w then [] else [.step (cycDepResMask w)]

/-- `exec_one`: the fetch, the interlock and the body. -/
def execOneCalls (o : Operands) (pc w : Word) : List TimingCall :=
  .fetch pc :: (preTiming w ++ execOneBody o w)

/-- The words that `exec_delay_slot` gives up at. -/
def rejectedInSlot (w : Word) : Bool :=
  match Op.ofWord w with
  | .j | .jal | .beq | .bne | .blez | .bgtz | .regimm | .jr | .jalr => true
  | _ => false

/-- How a word stands in a block's text: in its place, as the exit, or as the
delay slot, which a branch-likely guards with its condition. -/
inductive Role where
  | plain | exit | slot | likelySlot
deriving DecidableEq, Repr

/-- A word that runs on a path through a block. -/
structure Executed where
  addr : Word
  word : Word
  role : Role
deriving DecidableEq, Repr

/-- The interpreter runs the word too: it gives up at a branch-likely, and at a
transfer in a delay slot. -/
@[grind =] def Executed.interpreted (e : Executed) : Bool :=
  match e.role with
  | .plain | .exit => true
  | .slot => !rejectedInSlot e.word
  | .likelySlot => false

/-- The calls of the interpreter for a word of a path. -/
def Executed.interpreterCalls (e : Executed) (o : Operands) : List TimingCall :=
  if e.interpreted then execOneCalls o e.addr e.word else []

/-- A word for which the text makes the calls of the interpreter, up to the fetch. -/
structure Executed.Charged (e : Executed) : Prop where
  interpreted : e.interpreted = true
  not_dropped : ¬((Op.ofWord e.word = .lwl ∨ Op.ofWord e.word = .lwr) ∧ rt e.word = 0)
  not_lwc1 : Op.ofWord e.word ≠ .lwc1

namespace EmitContext

variable (ctx : EmitContext)

/-- The calls in the text of a word. A configured rewrite makes none; a word that
stops the build has no text. -/
def wordCalls (o : Operands) (addr w : Word) : List TimingCall :=
  match firstDecision (siteChecks ctx.sites addr w) with
  | .rewrite _ => []
  | .pass | .fatal => translatedCalls o w

/-- Where the text fetches: at the head of the block, at the first word of a
cache line, and at a label. -/
def fetchPoint (b : BasicBlock) (addr : Word) : Bool :=
  addr == b.startAddr || addr &&& 0xC#32 == 0 || ctx.extra.contains addr

/-- `emit_pre_icache`. -/
def preIcache (b : BasicBlock) (addr : Word) : List TimingCall :=
  if ctx.fetchPoint b addr then [.fetch addr] else []

/-- The calls in the text of a word of a path. -/
def emittedCalls (mode : CycleMode) (b : BasicBlock) (o : Operands) (e : Executed) :
    List TimingCall :=
  match mode, e.role with
  | .perInsn, .plain | .perInsn, .slot =>
      ctx.preIcache b e.addr ++ (preTiming e.word ++ ctx.wordCalls o e.addr e.word)
  | .perInsn, .exit => ctx.preIcache b e.addr ++ preTiming b.exitInstr.instruction
  | .perInsn, .likelySlot => ctx.wordCalls o e.addr e.word
  | .upFront, .exit => []
  | .upFront, _ => ctx.wordCalls o e.addr e.word

end EmitContext

/-- The base cost of some words, up to the first one outside the image. -/
@[grind =] def wordCycles (img : Image) : List Word → Nat
  | [] => 0
  | addr :: rest =>
      match img.readWord addr with
      | none => 0
      | some w => instrBaseCycles w + wordCycles img rest

/-- The delay slot stands behind the block. -/
@[grind =] def exitSlotOutside (b : BasicBlock) : Bool :=
  b.exitInstr.hasDelaySlot && b.exitInstr.type != .none && b.exitInstr.address == b.endAddr

/-- `block_exec_cycles`: the words of the block, and the delay slot behind it. -/
@[grind =] def blockExecCycles (img : Image) (b : BasicBlock) : Nat :=
  wordCycles img (addrRange b.startAddr (b.endAddr.toNat + 1)) +
    if exitSlotOutside b then
      match img.readWord (b.endAddr + 4#32) with
      | none => 0
      | some w => instrBaseCycles w
    else 0

/-- `partial_block_cycle_count`. -/
def partialBlockCycleCount (addr : Word) (cfg : ControlFlowGraph) : Nat :=
  if cfg.hasBlock addr then 0
  else
    match cfg.blocks.find? fun b =>
      b.startAddr < addr && addr ≤ b.endAddr && (addr - b.startAddr) &&& 3#32 == 0 with
    | some b => (b.endAddr - addr).toNat / 4 + 1
    | none => 0

/-- `emit_mid_block_cycle_charge`. -/
def midBlockCharge (mode : CycleMode) (addr : Word) (cfg : ControlFlowGraph) : List TimingCall :=
  if mode = .perInsn ∨ partialBlockCycleCount addr cfg = 0 then []
  else [.advance (partialBlockCycleCount addr cfg)]

/-- The charge at the head of a block. -/
def headCharge (mode : CycleMode) (img : Image) (b : BasicBlock) : List TimingCall :=
  if mode = .upFront ∧ 0 < blockExecCycles img b then [.advance (blockExecCycles img b)] else []

/-- The delay slot on a path; `taken` is the condition of a branch-likely. -/
def slotExecuted (img : Image) (b : BasicBlock) (taken : Bool) : List Executed :=
  match img.readWord (b.exitInstr.address + 4#32) with
  | none => []
  | some w =>
      if b.exitInstr.isLikely then
        if taken then [⟨b.exitInstr.address + 4#32, w, .likelySlot⟩] else []
      else [⟨b.exitInstr.address + 4#32, w, .slot⟩]

/-- The words that run when the text of a block is entered at the first of some
addresses. -/
def executedFrom (img : Image) (b : BasicBlock) (taken : Bool) : List Word → List Executed
  | [] => []
  | addr :: rest =>
      match img.readWord addr with
      | none => []
      | some w =>
          if EmitContext.slotInBlock b && addr == b.endAddr then []
          else if isControlFlow w then
            if addr = EmitContext.exitBranchAddr b then
              ⟨addr, w, .exit⟩ :: slotExecuted img b taken
            else executedFrom img b taken rest
          else ⟨addr, w, .plain⟩ :: executedFrom img b taken rest

/-- A path through a block of a function: from its head, or from a label inside. -/
structure BlockPath (out : OutputConfig) (f : Function) where
  block : BasicBlock
  entry : Word
  taken : Bool
  mem_blocks : block ∈ (out.context f).cfg.blocks
  written : entry ∈ writtenAddrs out.img block
  labelled : entry = block.startAddr ∨ (out.context f).extra.contains entry = true

namespace BlockPath

variable {out : OutputConfig} {f : Function} (p : BlockPath out f)

/-- The words that run on the path. -/
def executed : List Executed :=
  executedFrom out.img p.block p.taken (addrRange p.entry (p.block.endAddr.toNat + 1))

/-- The charge at the entry: at the head, or in the table switch that jumps to the
label. -/
def entryCharge (mode : CycleMode) : List TimingCall :=
  if p.entry = p.block.startAddr then headCharge mode out.img p.block
  else midBlockCharge mode p.entry (out.context f).cfg

/-- The state after the text of the first `n` words. -/
def emittedRun (mode : CycleMode) (env : Word → Operands) (n : Nat) (t : Timing) : Timing :=
  TimingCall.run t (p.entryCharge mode ++ (p.executed.take n).flatMap fun e =>
    (out.context f).emittedCalls mode p.block (env e.addr) e)

/-- The state after the interpreter has run the first `n` words. -/
def interpretedRun (env : Word → Operands) (n : Nat) (t : Timing) : Timing :=
  TimingCall.run t ((p.executed.take n).flatMap fun e => e.interpreterCalls (env e.addr))

/-- The interpreter runs the same words, and the text charges what it charges:
after every word where the text charges word by word, else for the whole path. -/
structure ChargedAlike (mode : CycleMode) : Prop where
  interpreted : ∀ e ∈ p.executed, e.interpreted = true
  cycles : ∀ (env : Word → Operands) (t : Timing) (n : Nat),
    mode = .perInsn ∨ n = p.executed.length →
      (p.emittedRun mode env n t).cycleCount = (p.interpretedRun env n t).cycleCount

/-- The words are charged alike, and a word behind a `syscall`, whose service may
evict its line, is fetched again. -/
structure Clean : Prop where
  words : ∀ e ∈ p.executed, e.Charged
  lines : p.executed.IsChain fun e e' =>
    Op.ofWord e.word = .syscall → (out.context f).fetchPoint p.block e'.addr = true

/-- What the text charges at once for the path: at the head, or in the switch. -/
def upFrontCycles : Nat :=
  if p.entry = p.block.startAddr then blockExecCycles out.img p.block
  else partialBlockCycleCount p.entry (out.context f).cfg

/-- The base costs of the words that run on the path. -/
def baseCycles : Nat := (p.executed.map fun e => instrBaseCycles e.word).sum

def slotWord : Option Word := out.img.readWord (p.block.exitInstr.address + 4#32)

/-- The delay slot of the exit runs on the path. -/
def slotRuns : Bool := p.slotWord.isSome && (!p.block.exitInstr.isLikely || p.taken)

/-- The charge at once has counted the delay slot if and only if it runs: the head
counts it wherever it stands, the switch only inside the block. -/
def SlotCounted : Prop :=
  if p.block.exitInstr.type = .none then
    p.entry = p.block.startAddr ∨ (out.img.readWord p.block.endAddr).isSome = true
  else if p.entry = p.block.startAddr then p.slotRuns = p.slotWord.isSome
  else p.slotRuns = EmitContext.slotInBlock p.block

end BlockPath

end RecompStudio.CodeGen
