import RecompStudio.CodeGen.FunctionText

/-!
The pre-pass of `generate_file`, which cuts functions at the branch and jump
targets inside them until no new target is found, and the units that the
resulting functions are emitted as.
-/

namespace RecompStudio.CodeGen

open RecompStudio.Insn

/-- `known_addrs`: a function starts at the address. -/
def isStart (fs : List Function) (a : Word) : Bool := fs.any fun f => f.startAddr == a

/-- Insertion into a list that ascends by start. -/
def insertFunction (f : Function) : List Function → List Function
  | [] => [f]
  | g :: rest => if g.startAddr < f.startAddr then g :: insertFunction f rest else f :: g :: rest

def sortFunctions (fs : List Function) : List Function := fs.foldr insertFunction []

/-- The functions between two passes, and the starts of those whose blocks the
next pass scans. An empty list scans all. The graph of a function is its
analysis, since a pass rebuilds those that it changes. -/
structure SplitState where
  functions : List Function
  scan : List Word
deriving DecidableEq, Repr

namespace SplitState

variable (img : Image) (st : SplitState)

/-- `check_target`: inside the image, and neither a block nor a function yet. -/
def isMidTarget (cfg : ControlFlowGraph) (target : Word) : Bool :=
  target ≠ 0 ∧ cfg.hasBlock target = false ∧ isStart st.functions target = false ∧
    img.loadAddress ≤ target ∧ target < img.endAddress ∧ target &&& 3#32 = 0

/-- The targets that the exit of a block is scanned for. -/
def exitTargets (b : BasicBlock) : List Word :=
  match b.exitInstr.type with
  | .branch => [b.exitInstr.target, b.exitInstr.address + 8#32]
  | .jump => [b.exitInstr.target]
  | _ => []

def scanCfg (cfg : ControlFlowGraph) : List Word :=
  (cfg.blocks.flatMap exitTargets).filter (st.isMidTarget img cfg)

def scanned : List Function :=
  if st.scan = [] then st.functions
  else st.functions.filter fun f => st.scan.contains f.startAddr

/-- `mid_targets`, ascending. -/
def midTargets : List Word :=
  sortUnique (st.scanned.flatMap fun f => st.scanCfg img (analyzeFunction img f))

/-- `func_starts`: the starts that are no alias entries, ascending. -/
def funcStarts : List Word :=
  sortUnique ((st.functions.filter fun f => f.aliasWalkLo == 0).map Function.startAddr)

/-- The function that a target lies inside of. -/
def hostOf (target : Word) : Option Function :=
  match (st.funcStarts.filter fun a => a ≤ target).getLast? with
  | none => none
  | some start =>
      (st.functions.find? fun f => f.startAddr == start).filter fun f =>
        f.startAddr < target ∧ target < f.endAddr

/-- The targets that fall into a function. -/
def splitsOf (f : Function) : List Word :=
  (st.midTargets img).filter fun t => (st.hostOf t).map Function.startAddr == some f.startAddr

/-- A target in no function opens a piece up to the next function. -/
def gapEnd (target : Word) : Word := (st.funcStarts.find? fun a => target < a).getD img.endAddress

def gapFunctions : List Function :=
  ((st.midTargets img).filter fun t => (st.hostOf t).isNone && t < st.gapEnd img t).map fun t =>
    ⟨t, st.gapEnd img t, false, 0, []⟩

/-- The pieces behind the first cut; the last one ends where the function did. -/
def pieces (isData : Bool) (stop : Word) : List Word → List Function
  | [] => []
  | t :: rest => ⟨t, rest.headD stop, isData, 0, []⟩ :: pieces isData stop rest

/-- What becomes of a function, and its new pieces. -/
def cut (f : Function) : Function × List Function :=
  match st.splitsOf img f with
  | [] => (f, [])
  | t :: rest =>
      if f.endAddr ≤ (t :: rest).getLastD t then (f, [])
      else ({ f with endAddr := t }, pieces f.isDataSection f.endAddr (t :: rest))

/-- One pass. -/
def pass : SplitState :=
  let fresh := st.gapFunctions img ++ st.functions.flatMap fun f => (st.cut img f).2
  let functions := sortFunctions (st.functions.map (fun f => (st.cut img f).1) ++ fresh)
  let changed := st.functions.filter fun f => (st.cut img f).2 != []
  let affected := (fresh ++ changed).map Function.startAddr
  ⟨functions, (functions.map Function.startAddr).filter affected.contains⟩

/-- The passes up to a limit, or until no target is left. -/
def passes : Nat → SplitState → SplitState
  | 0, st => st
  | n + 1, st => if st.midTargets img = [] then st else passes n (st.pass img)

end SplitState

/-- The functions that are emitted; an overlay keeps its own. -/
def splitFunctions (img : Image) (split : Bool) (fs : List Function) : List Function :=
  if split then (SplitState.passes img 256 ⟨fs, []⟩).functions else fs

/-- The entries inside the host of an alias. The members of a group share their
end, and each lists the others. -/
def aliasGroupOf (fs : List Function) (f : Function) : AliasGroup where
  host := f.aliasWalkLo
  endAddr := f.endAddr
  first := f.startAddr
  others := ((fs.filter fun g => g.aliasWalkLo == f.aliasWalkLo).map Function.startAddr).tail

/-- `generate_all_functions`: a group is emitted in place of its first member. -/
def unitsFrom (fs : List Function) (groups : List Word) : List Function → List OutputUnit
  | [] => []
  | f :: rest =>
      if f.aliasWalkLo = 0 then .function f :: unitsFrom fs groups rest
      else if groups.contains f.aliasWalkLo then unitsFrom fs groups rest
      else .aliasGroup (aliasGroupOf fs f) :: unitsFrom fs (f.aliasWalkLo :: groups) rest

def outputUnits (fs : List Function) : List OutputUnit := unitsFrom fs [] fs

end RecompStudio.CodeGen
