import RecompStudio.CodeGen.Block
import RecompStudio.Library.Worklist

/-!
The C functions of the output: `generate_function` for a plain function and
`generate_alias_group` for the entries inside a host function, with the
continuations that each of them registers for the dispatch table.
-/

namespace RecompStudio.CodeGen

open RecompStudio.Insn

/-- A C function of the output: the cases of the continuation switch, those of
the entry switch that an alias group has behind it, and the statements. With
`failClosed` the continuation switch has no default into the text. -/
structure FunctionText where
  owner : Word
  failClosed : Bool
  continuations : List Word
  entries : List Word
  text : List CStmt
deriving DecidableEq, Repr

/-- What all functions of an output share. `known` holds the function starts. -/
structure OutputConfig where
  img : Image
  sites : SiteConfig
  known : Word → Bool

namespace OutputConfig

variable (out : OutputConfig)

/-- The emission context of a function, after the scan of its jump tables. -/
def context (f : Function) : EmitContext where
  img := out.img
  sites := out.sites
  known := out.known
  cfg := analyzeFunction out.img f
  extra := extraLabels out.img (analyzeFunction out.img f)

/-- The continuations of the emitted blocks: the return points of calls, then
the leaders that are not entries themselves. -/
def continuations (blocks : List BasicBlock) (entries : List Word) : List Word :=
  (blocks.flatMap EmitContext.blockContinuations ++
    (blocks.map BasicBlock.startAddr).filter fun a => !entries.contains a).eraseDups

/-- The last block ends without a transfer, or in one that leaves the function. -/
def needsFallthrough (b : BasicBlock) : Bool :=
  match b.exitInstr.type with
  | .none => true
  | .branch | .jump => b.successors == []
  | _ => false

/-- The call behind the last block of a function. -/
def fallthroughCall (f : Function) (blocks : List BasicBlock) (reachable : BasicBlock → Bool) :
    List CStmt :=
  match blocks.getLast? with
  | none => []
  | some last =>
      if out.known f.endAddr ∧ needsFallthrough last ∧ reachable last then
        [.transfer (.enter f.endAddr)]
      else []

/-- `generate_function`. No block records its predecessors, so the last one
counts as reachable only if it is the first. -/
@[grind =] def generateFunction (f : Function) : FunctionText :=
  let ctx := out.context f
  let blocks := ctx.cfg.blocks
  { owner := f.startAddr
    failClosed := out.sites.overlayMode
    continuations := continuations blocks [f.startAddr]
    entries := []
    text := blocks.flatMap ctx.translateBasicBlock ++ out.fallthroughCall f blocks (·.isEntry) }

end OutputConfig

/-- The entries inside one host function, which are emitted together. -/
structure AliasGroup where
  host : Word
  endAddr : Word
  first : Word
  others : List Word
deriving DecidableEq, Repr

namespace AliasGroup

variable (g : AliasGroup)

def entries : List Word := g.first :: g.others

/-- The function of one entry; its analysis covers the host. -/
def member (entry : Word) : Function := ⟨entry, g.endAddr, false, g.host, g.entries⟩

end AliasGroup

/-- `containing_block`, with zero for an address in no block. -/
def containingBlock (cfg : ControlFlowGraph) (a : Word) : Word :=
  match (cfg.blocks.filter fun b => b.startAddr ≤ a).getLast? with
  | none => 0
  | some b => if a ≤ b.endAddr then b.startAddr else 0

/-- The non-zero containing blocks of some addresses. -/
def containingBlocks (cfg : ControlFlowGraph) (addrs : List Word) : List Word :=
  (addrs.map (containingBlock cfg)).filter (· ≠ 0)

/-- The search for the blocks that the entries of a group reach, through
successors and jump tables. -/
def liveSearch (img : Image) (cfg : ControlFlowGraph) : Worklist.Search Word where
  discipline := Worklist.stack
  domain := cfg.blocks.map BasicBlock.startAddr
  marks := fun _ => []
  pushes := fun a =>
    match cfg.find a with
    | none => []
    | some b =>
        b.successors.filter (cfg.hasBlock ·) ++ containingBlocks cfg (jrTableEdges img cfg b)

def liveBlocks (img : Image) (cfg : ControlFlowGraph) (entries : List Word) : List Word :=
  ((liveSearch img cfg).run (containingBlocks cfg entries).reverse ⟨[], []⟩).seen

namespace OutputConfig

variable (out : OutputConfig)

/-- A block of the host that the entries of a group reach. -/
def isLive (g : AliasGroup) (b : BasicBlock) : Bool :=
  (liveBlocks out.img (out.context (g.member g.first)).cfg g.entries).contains b.startAddr

/-- `generate_alias_group`: the shared body. -/
@[grind =] def generateAliasGroup (g : AliasGroup) : FunctionText :=
  let ctx := out.context (g.member g.first)
  let blocks := ctx.cfg.blocks.filter (out.isLive g)
  { owner := g.first
    failClosed := false
    continuations := continuations blocks g.entries
    entries := g.entries
    text := blocks.flatMap ctx.translateBasicBlock ++
      out.fallthroughCall (g.member g.first) ctx.cfg.blocks (out.isLive g) }

end OutputConfig

/-- One C function of the output. -/
inductive OutputUnit where
  | function (f : Function)
  | aliasGroup (g : AliasGroup)
deriving DecidableEq, Repr

def OutputConfig.generate (out : OutputConfig) : OutputUnit → FunctionText
  | .function f => out.generateFunction f
  | .aliasGroup g => out.generateAliasGroup g

/-- `cps_continuation_owner_` after the given functions; a later function takes
over what an earlier one has registered. -/
def continuationOwner : List FunctionText → Word → Option Word
  | [], _ => none
  | ft :: rest, c =>
      (continuationOwner rest c).or (if ft.continuations.contains c then some ft.owner else none)

/-- The labels that a text defines. -/
def labelsOf (text : List CStmt) : List Word :=
  text.filterMap fun c =>
    match c with
    | .label a => some a
    | _ => none

def Transfer.gotos : Transfer → List Word
  | .goto target => [target]
  | .publish _ | .enter _ => []

def CStmt.gotos : CStmt → List Word
  | .branch _ taken notTaken => taken.gotos ++ notTaken.gotos
  | .transfer t => t.gotos
  | .switch _ cases => cases.map Prod.snd
  | _ => []

/-- The labels that a function jumps to, from its two switches and its text. -/
def FunctionText.gotos (ft : FunctionText) : List Word :=
  ft.continuations ++ ft.entries ++ ft.text.flatMap CStmt.gotos

end RecompStudio.CodeGen
