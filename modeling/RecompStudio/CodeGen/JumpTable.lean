import RecompStudio.CodeGen.ControlFlow

/-!
The backward scan that recognises a jump table before a `jr`, and the targets
that its entries name.
-/

namespace RecompStudio.CodeGen

open RecompStudio.Insn

/-- The locals of the scan. The two candidates are the operands of the `addu`
that forms the table address; slot zero of the immediates doubles as the
immediate of the candidate that the `lui` picks. -/
structure TableScan where
  lwBase : Option RegIndex := none
  lwOffset : Word := 0
  candidates : Option (RegIndex × RegIndex) := none
  addiu0 : Option Word := none
  addiu1 : Option Word := none
  lui : Option Word := none
  count : Word := 0
deriving DecidableEq, Repr

namespace TableScan

/-- `addiu` on a candidate; the first slot that fits takes it. -/
def stepAddiu (t : TableScan) (c : RegIndex × RegIndex) (w : Word) : TableScan :=
  if t.addiu0.isNone ∧ rs w = c.1 ∧ rt w = c.1 then { t with addiu0 := some (simm w) }
  else if t.addiu1.isNone ∧ rs w = c.2 ∧ rt w = c.2 then { t with addiu1 := some (simm w) }
  else t

/-- `lui` on a candidate, which becomes the table base. -/
def stepLui (t : TableScan) (c : RegIndex × RegIndex) (w : Word) : TableScan :=
  if rt w = c.1 then { t with lui := some (uimm w <<< 16) }
  else if rt w = c.2 then { t with lui := some (uimm w <<< 16), addiu0 := t.addiu1 }
  else t

/-- One word of the scan, or the end of it. -/
def step (jrReg : RegIndex) (t : TableScan) (w : Word) : Option TableScan :=
  let rest (t : TableScan) : Option TableScan :=
    if Op.ofWord w = .sltiu ∧ t.count = 0 then some { t with count := uimm w }
    else if t.lui.isSome ∧ t.count ≠ 0 then none
    else some t
  if Op.ofWord w = .lw ∧ rt w = jrReg ∧ t.lwBase.isNone then
    some { t with lwBase := some (rs w), lwOffset := simm w }
  else if Op.ofWord w = .addu ∧ t.lwBase = some (rd w) ∧ t.candidates.isNone then
    some { t with candidates := some (rs w, rt w) }
  else
    match t.candidates with
    | none => rest t
    | some c =>
        if Op.ofWord w = .addiu then some (t.stepAddiu c w)
        else if Op.ofWord w = .lui ∧ t.lui.isNone then some (t.stepLui c w)
        else rest t

end TableScan

/-- The words before `addr`, nearest first, for at most `fuel` steps. -/
def scanBack (img : Image) (functionStart : Word) (jrReg : RegIndex) :
    Nat → Word → TableScan → TableScan
  | 0, _, t => t
  | fuel + 1, addr, t =>
      if addr < functionStart then t
      else
        match img.readWord addr with
        | none => t
        | some w =>
            match t.step jrReg w with
            | none => t
            | some t' => scanBack img functionStart jrReg fuel (addr - 4#32) t'

/-- The base and length of the table before the `jr` at `addr`, if one is found. -/
def findTable (img : Image) (functionStart addr : Word) (jrReg : RegIndex) :
    Option (Word × Nat) :=
  let t := scanBack img functionStart jrReg 40 (addr - 4#32) {}
  match t.lui with
  | none => none
  | some lui =>
      let base := lui + t.addiu0.getD 0 + t.lwOffset
      if 0 < t.count.toNat ∧ t.count.toNat < 512 ∧ base ≠ 0 then some (base, t.count.toNat)
      else none

/-- The readable entries of a table, each as it stands and as an image address. -/
def tableEntries (img : Image) (base : Word) (count : Nat) : List (Word × Word) :=
  (List.range count).filterMap fun i =>
    (img.readWord (img.ramToRom base + BitVec.ofNat 32 (4 * i))).map fun entry =>
      (entry, img.ramToRom entry)

/-- The table entries of the `jr` that ends a block. -/
def jrEntries (img : Image) (cfg : ControlFlowGraph) (b : BasicBlock) : List (Word × Word) :=
  match findTable img cfg.functionStart b.exitInstr.address (rs b.exitInstr.instruction) with
  | none => []
  | some (base, count) => tableEntries img base count

/-- The table targets inside the function that one block contributes. -/
def jrTableEdges (img : Image) (cfg : ControlFlowGraph) (b : BasicBlock) : List Word :=
  if b.exitInstr.type = .jumpRegister then
    ((jrEntries img cfg b).map Prod.snd).filter fun t =>
      cfg.functionStart ≤ t ∧ t < cfg.functionEnd
  else []

/-- `extra_labels_` after `scan_jr_tables`: table targets that lead no block. -/
def extraLabels (img : Image) (cfg : ControlFlowGraph) : List Word :=
  (cfg.blocks.flatMap (jrTableEdges img cfg)).filter fun t => !cfg.hasBlock t

/-- The cases of the emitted switch: the first entry for each image address, if
there is a label for it. -/
def switchTargets (cfg : ControlFlowGraph) (extra : List Word) :
    List Word → List (Word × Word) → List (Word × Word)
  | _, [] => []
  | seen, (runtime, rom) :: rest =>
      if seen.contains rom then switchTargets cfg extra seen rest
      else if cfg.hasBlock rom || extra.contains rom then
        (runtime, rom) :: switchTargets cfg extra (rom :: seen) rest
      else switchTargets cfg extra (rom :: seen) rest

end RecompStudio.CodeGen
