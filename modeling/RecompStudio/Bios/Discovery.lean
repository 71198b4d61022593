import RecompStudio.Bios.StrictTranslator
import RecompStudio.CodeGen.JumpTable
import RecompStudio.Library.MarkedSearch

/-!
Function discovery: the breadth-first walk from the entry of a BIOS function
over the static control flow inside its boundaries.
-/

namespace RecompStudio.Bios

open RecompStudio.Insn
open RecompStudio.CodeGen (TableScan sortUnique)
open RecompStudio.Worklist

/-- `ram_alias_to_rom`. -/
def ramAliasToRom (addr : Word) : Word :=
  let phys := addr &&& 0x1FFFFFFF#32
  if 0x500#32 ≤ phys ∧ phys < 0x8500#32 then 0xBFC10000#32 + (phys - 0x500#32)
  else if 0x30000#32 ≤ phys ∧ phys ≤ 0x5AFFF#32 then 0xBFC18000#32 + (phys - 0x30000#32)
  else addr

/-- Jump targets of the kernel's second part, whose copy runs at `0x500`. -/
def remapKernelTarget (target srcPhys : Word) : Word :=
  let runtimeAddr := srcPhys - 0x1FC10000#32 + 0x500#32
  let ramTarget := (runtimeAddr &&& 0xF0000000#32) ||| (target &&& 0x0FFFFFFF#32)
  let ramPhys := ramTarget &&& 0x1FFFFFFF#32
  if 0x500#32 ≤ ramPhys ∧ ramPhys < 0x8500#32 then 0xBFC10000#32 + (ramPhys - 0x500#32)
  else if 0x1FC00000#32 ≤ ramPhys ∧ ramPhys < 0x1FC80000#32 then ramTarget
  else target

/-- Jump targets of the shell, whose copy runs at `0x80030000`. -/
def remapShellTarget (target : Word) : Word :=
  let ramTarget := 0x80000000#32 ||| (target &&& 0x0FFFFFFF#32)
  let ramPhys := ramTarget &&& 0x1FFFFFFF#32
  if 0x30000#32 ≤ ramPhys ∧ ramPhys < 0x5A800#32 then 0xBFC18000#32 + (ramPhys - 0x30000#32)
  else if 0x500#32 ≤ ramPhys ∧ ramPhys < 0x8500#32 then 0xBFC10000#32 + (ramPhys - 0x500#32)
  else if 0x1FC00000#32 ≤ ramPhys ∧ ramPhys < 0x1FC10000#32 then
    0xBFC00000#32 + (ramPhys - 0x1FC00000#32)
  else target

/-- `remap_relocated_j_target`: the ROM address of a jump target of code that
runs from its copy in RAM. -/
@[grind =] def remapRelocatedJTarget (target sourceRomAddr : Word) : Word :=
  let srcPhys := sourceRomAddr &&& 0x1FFFFFFF#32
  if 0x1FC10000#32 ≤ srcPhys ∧ srcPhys ≤ 0x1FC17FFF#32 then remapKernelTarget target srcPhys
  else if 0x1FC18000#32 ≤ srcPhys ∧ srcPhys ≤ 0x1FC427FF#32 then remapShellTarget target
  else target

inductive CFKind where
  | normal | condBranch | jump | call | jrRa | jrIndirect | jalr | syscall | break | rfe
  | reservedInstruction
deriving DecidableEq, Repr

structure CFInfo where
  kind : CFKind
  target : Word := 0
  reg : RegIndex := 0
deriving DecidableEq, Repr

/-- `classify_control_flow`. -/
@[grind =] def classifyControlFlow (raw addr : Word) : CFInfo :=
  let branch : CFInfo := { kind := .condBranch, target := branchTarget addr raw }
  let jumpTo := remapRelocatedJTarget (jumpTarget addr raw) addr
  match Op.ofWord raw with
  | .beq | .bne | .blez | .bgtz | .regimm => branch
  | .cop1 => if rs raw = 0x08 ∨ rs raw = 0x0C then branch else { kind := .normal }
  | .j => { kind := .jump, target := jumpTo }
  | .jal => { kind := .call, target := jumpTo }
  | .jr => if rs raw = 31 then { kind := .jrRa } else { kind := .jrIndirect, reg := rs raw }
  | .jalr => { kind := .jalr, reg := rs raw }
  | .syscall => { kind := .syscall }
  | .break => { kind := .break }
  | .sync | .specialOther => { kind := .reservedInstruction }
  | .cop0 => if raw = 0x42000010#32 then { kind := .rfe } else { kind := .normal }
  | _ => { kind := .normal }

/-- The kinds that take a delay slot. -/
@[grind =] def CFKind.hasSlot : CFKind → Bool
  | .condBranch | .jump | .call | .jrRa | .jrIndirect | .jalr => true
  | _ => false

/-- The kinds after which execution goes on at the next word. -/
def CFKind.fallsThrough : CFKind → Bool
  | .normal | .syscall | .break => true
  | _ => false

/-- The arguments of `walk_function`. -/
structure FunctionWalk where
  rom : List (BitVec 8)
  baseAddr : Word
  romEnd : Word
  entry : Word
  hardCap : Word

namespace FunctionWalk

variable (f : FunctionWalk)

def InBounds (addr : Word) : Prop :=
  f.baseAddr ≤ addr ∧ addr ≤ f.romEnd ∧ f.entry ≤ addr ∧ addr < f.hardCap

instance (addr : Word) : Decidable (f.InBounds addr) :=
  inferInstanceAs (Decidable (_ ∧ _ ∧ _ ∧ _))

def byteAt (offset : Nat) : Word := (f.rom.getD offset 0).zeroExtend 32

/-- `fetch`: the little-endian word at an address of the image. -/
def fetch (addr : Word) : Word :=
  let offset := (addr - f.baseAddr).toNat
  f.byteAt offset ||| (f.byteAt (offset + 1) <<< 8) ||| (f.byteAt (offset + 2) <<< 16) |||
    (f.byteAt (offset + 3) <<< 24)

/-- The strict translator takes the instruction at an address. -/
def Supported (addr : Word) : Prop := strictTranslate addr (f.fetch addr) ≠ .unsupported

instance (addr : Word) : Decidable (f.Supported addr) := inferInstanceAs (Decidable (_ ≠ _))

def controlFlow (addr : Word) : CFInfo := classifyControlFlow (f.fetch addr) addr

/-- The words before an indirect jump, nearest first, for at most `fuel` steps. -/
def scanBack (jrReg : RegIndex) : Nat → Word → TableScan → TableScan
  | 0, _, t => t
  | fuel + 1, addr, t =>
      if addr < f.entry ∨ ¬ f.InBounds addr then t
      else
        match t.step jrReg (f.fetch addr) with
        | none => t
        | some t' => scanBack jrReg fuel (addr - 4#32) t'

/-- The jump table of the indirect jump at an address: its place in ROM and its
length. -/
def jumpTable (addr : Word) : Option (Word × Nat) :=
  let t := f.scanBack (f.controlFlow addr).reg 40 (addr - 4#32) {}
  match t.lui with
  | none => none
  | some lui =>
      if 0 < t.count.toNat ∧ t.count.toNat < 512 then
        some (ramAliasToRom (lui + t.addiu0.getD 0 + t.lwOffset), t.count.toNat)
      else none

/-- The case targets inside the function that a table names. -/
def tableTargets (base : Word) (count : Nat) : List Word :=
  ((List.range count).map fun i => base + BitVec.ofNat 32 (4 * i)).filterMap fun taddr =>
    if f.InBounds taddr then
      let target := ramAliasToRom (f.fetch taddr)
      if f.InBounds target then some target else none
    else none

/-- An address, if it is inside the function. -/
def inside (addr : Word) : List Word := if f.InBounds addr then [addr] else []

/-- A static target, where zero stands for none. -/
@[grind =] def insideTarget (addr : Word) : List Word := if addr ≠ 0 then f.inside addr else []

/-- What an instruction adds to the work queue. -/
@[grind =] def pushes (addr : Word) : List Word :=
  if f.Supported addr then
    match (f.controlFlow addr).kind with
    | .normal | .syscall | .break => f.inside (addr + 4#32)
    | .condBranch => f.inside (addr + 8#32) ++ f.insideTarget (f.controlFlow addr).target
    | .jump => f.insideTarget (f.controlFlow addr).target
    | .call | .jalr => f.inside (addr + 8#32)
    | .jrIndirect =>
        match f.jumpTable addr with
        | none => []
        | some (base, count) => f.tableTargets base count ++ f.inside (addr + 8#32)
    | .jrRa | .rfe | .reservedInstruction => []
  else []

/-- The delay slot that an instruction adds to the visited set. -/
@[grind =] def marks (addr : Word) : List Word :=
  if f.Supported addr ∧ (f.controlFlow addr).kind.hasSlot then f.inside (addr + 4#32) else []

/-- The addresses inside the function. -/
def domain : List Word :=
  ((List.range (f.hardCap.toNat - f.entry.toNat)).map fun i => f.entry + BitVec.ofNat 32 i).filter
    fun addr => f.InBounds addr

def search : Search Word := ⟨queue, f.domain, f.marks, f.pushes⟩

/-- The loop of `walk_function`: `seen` is its visited set, `visited` the
addresses that it popped and processed, the last one first. -/
def trail : Trail Word := f.search.run [f.entry] ⟨[], []⟩

end FunctionWalk

structure CallEdge where
  callerFunc : Word
  callerPc : Word
  calleeAddr : Word
  inRom : Bool
deriving DecidableEq, Repr

inductive IndirectKind where
  | jrNonRa | jalr
deriving DecidableEq, Repr

structure IndirectJumpSite where
  funcAddr : Word
  pc : Word
  reg : RegIndex
  kind : IndirectKind
deriving DecidableEq, Repr

inductive ExitType where
  | jrRa | jOutOfFunction | indirectJump | rfe | reservedInstruction
deriving DecidableEq, Repr

/-- The exit that an instruction records. -/
def FunctionWalk.exitType (f : FunctionWalk) (addr : Word) : Option ExitType :=
  match (f.controlFlow addr).kind with
  | .jump => if f.insideTarget (f.controlFlow addr).target = [] then some .jOutOfFunction else none
  | .jrRa => some .jrRa
  | .jrIndirect => some .indirectJump
  | .rfe => some .rfe
  | .reservedInstruction => some .reservedInstruction
  | _ => none

def FunctionWalk.callEdge (f : FunctionWalk) (addr : Word) : Option CallEdge :=
  let cf := f.controlFlow addr
  if cf.kind = .call then
    some ⟨f.entry, addr, cf.target, f.baseAddr ≤ cf.target ∧ cf.target ≤ f.romEnd⟩
  else none

def FunctionWalk.indirectJump (f : FunctionWalk) (addr : Word) : Option IndirectJumpSite :=
  let cf := f.controlFlow addr
  match cf.kind with
  | .jrIndirect => some ⟨f.entry, addr, cf.reg, .jrNonRa⟩
  | .jalr => some ⟨f.entry, addr, cf.reg, .jalr⟩
  | _ => none

/-- `SingleFunctionResult`. The exits are a set; the edges and indirect jumps
come in the order of the walk. -/
structure SingleFunctionResult where
  instructions : List (Word × Word)
  unsupported : List (Word × Word)
  edges : List CallEdge
  indirectJumps : List IndirectJumpSite
  exitTypes : List ExitType
  endAddr : Word
deriving DecidableEq, Repr

/-- `walk_function`. -/
@[grind =] def walkFunction (f : FunctionWalk) : SingleFunctionResult :=
  let addrs := sortUnique f.trail.seen
  let processed := f.trail.visited.reverse.filter fun addr => f.Supported addr
  { instructions := addrs.map fun addr => (addr, f.fetch addr)
    unsupported :=
      (addrs.filter fun addr => ¬ f.Supported addr).map fun addr => (addr, f.fetch addr)
    edges := processed.filterMap f.callEdge
    indirectJumps := processed.filterMap f.indirectJump
    exitTypes := processed.filterMap f.exitType
    endAddr := addrs.getLastD f.entry }

end RecompStudio.Bios
