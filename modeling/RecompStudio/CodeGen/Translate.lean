import RecompStudio.Emitted.Syntax

/-!
The instruction translations of the game code generator: one C statement
sequence for each instruction word, with the rewrites at configured sites
first and the plain translation after them.
-/

namespace RecompStudio.CodeGen

open RecompStudio.Emitted
open RecompStudio.Insn

/-- The statement for a write that the generator drops for the zero register. -/
def guardZero (r : RegIndex) (stmt : Stmt) : Stmt := if r = 0 then .nop else stmt

/-- `rs + offset`, without the addition for a zero offset. -/
@[grind =] def addrExpr (w : Word) : Expr :=
  if simm w = 0 then .gpr (rs w) else .add (.gpr (rs w)) (.lit (simm w))

/-- The load translations: a load to the zero register keeps the access. -/
def translateLoad (kind : LoadKind) (w : Word) : Stmt :=
  .load (if rt w = 0 then none else some (rt w)) kind (addrExpr w)

/-- The unaligned loads: a load to the zero register emits nothing. -/
def translateLoadMerge (side : MergeSide) (w : Word) : Stmt :=
  guardZero (rt w) (.loadMerge (some (rt w)) side .table (addrExpr w))

def translateStore (width : Width) (w : Word) : Stmt :=
  .store width (addrExpr w) (.gpr (rt w))

def translateStoreMerge (side : MergeSide) (w : Word) : Stmt :=
  .storeMerge side .table (addrExpr w) (.gpr (rt w))

/-- The register operations without a special form. -/
def translateBinary (op : Expr → Expr → Expr) (w : Word) : Stmt :=
  guardZero (rd w) (.setGpr (rd w) (op (.gpr (rs w)) (.gpr (rt w))))

/-- `or` and `addu`, which become moves when an operand is the zero register. -/
def translateMoveable (op : Expr → Expr → Expr) (w : Word) : Stmt :=
  guardZero (rd w)
    (if rt w = 0 then .setGpr (rd w) (.gpr (rs w))
      else if rs w = 0 then .setGpr (rd w) (.gpr (rt w))
      else .setGpr (rd w) (op (.gpr (rs w)) (.gpr (rt w))))

def translateNor (w : Word) : Stmt :=
  guardZero (rd w)
    (if rt w = 0 then .setGpr (rd w) (.not (.gpr (rs w)))
      else if rs w = 0 then .setGpr (rd w) (.not (.gpr (rt w)))
      else .setGpr (rd w) (.not (.or (.gpr (rs w)) (.gpr (rt w)))))

/-- `addi` and `addiu`. The load of an immediate is recognised before the
destination is looked at. -/
def translateAddiu (w : Word) : Stmt :=
  if rs w = 0 then .setGpr (rt w) (.lit (simm w))
  else guardZero (rt w) (.setGpr (rt w) (.add (.gpr (rs w)) (.lit (simm w))))

def translateImmediate (op : Expr → Expr → Expr) (imm : Word) (w : Word) : Stmt :=
  guardZero (rt w) (.setGpr (rt w) (op (.gpr (rs w)) (.lit imm)))

def translateOri (w : Word) : Stmt :=
  guardZero (rt w)
    (if rs w = 0 then .setGpr (rt w) (.lit (uimm w))
      else .setGpr (rt w) (.or (.gpr (rs w)) (.lit (uimm w))))

def translateLui (w : Word) : Stmt :=
  guardZero (rt w) (.setGpr (rt w) (.lit (uimm w <<< 16)))

def shamtLit (w : Word) : Expr := .lit ((shamt w).zeroExtend 32)

def translateSll (w : Word) : Stmt :=
  guardZero (rd w)
    (if shamt w = 0 then .setGpr (rd w) (.gpr (rt w))
      else .setGpr (rd w) (.shl (.gpr (rt w)) (shamtLit w)))

/-- `srl` and `sra`. -/
def translateShift (op : Expr → Expr → Expr) (w : Word) : Stmt :=
  guardZero (rd w) (.setGpr (rd w) (op (.gpr (rt w)) (shamtLit w)))

/-- `sllv`, `srlv` and `srav`. -/
def translateShiftVar (op : Expr → Expr → Expr) (w : Word) : Stmt :=
  guardZero (rd w) (.setGpr (rd w) (op (.gpr (rt w)) (.and (.gpr (rs w)) (.lit 0x1F))))

def translateMoveFrom (e : Expr) (w : Word) : Stmt := guardZero (rd w) (.setGpr (rd w) e)

/-- Data registers that are read through `gte_read_data`. -/
def gteDataReadSpecial (r : RegIndex) : Bool :=
  (8 ≤ r.toNat && r.toNat ≤ 11) || r == 15 || r == 28 || r == 29 || r == 31

/-- Data registers that are written through `gte_write_data`. -/
def gteDataWriteSpecial (r : RegIndex) : Bool :=
  r == 7 || (8 ≤ r.toNat && r.toNat ≤ 11) || r == 14 || r == 15 || r == 28 || r == 30

/-- Control registers that go through the accessors. -/
def gteCtrlSpecial (r : RegIndex) : Bool :=
  r == 26 || r == 27 || r == 29 || r == 30 || r == 31

@[grind =] def gteDataValue (r : RegIndex) : Expr :=
  if gteDataReadSpecial r then .gteReadData r else .gteData r

@[grind =] def gteCtrlValue (r : RegIndex) : Expr :=
  if gteCtrlSpecial r then .gteReadCtrl r else .gteCtrl r

/-- The COP0 instructions. An unknown one becomes a comment. -/
def translateCop0 (w : Word) : Stmt :=
  if rs w = 0x00 then .setGpr (rt w) (.cop0 (rd w))
  else if rs w = 0x04 then .setCop0 (rd w) (.gpr (rt w))
  else if rs w = 0x10 ∧ funct w = 0x10 then .rfe 0xFFFFFFF0#32
  else .nop

/-- The COP2 instructions. An unknown one becomes a comment. -/
def translateCop2 (w : Word) : Stmt :=
  if rs w = 0x00 then .setGpr (rt w) (gteDataValue (rd w))
  else if rs w = 0x02 then .setGpr (rt w) (gteCtrlValue (rd w))
  else if rs w = 0x04 then
    if gteDataWriteSpecial (rd w) then .gteWriteData (rd w) (.gpr (rt w))
    else .setGteData (rd w) (.gpr (rt w))
  else if rs w = 0x06 then
    if gteCtrlSpecial (rd w) then .gteWriteCtrl (rd w) (.gpr (rt w))
    else .setGteCtrl (rd w) (.gpr (rt w))
  else if rs w &&& 0x10 ≠ 0 then .gteExecute (w &&& 0x1FFFFFF#32)
  else .nop

/-- The code for a word, or the marker of an opcode without translation. The
marker is a comment in the text, so it runs as nothing. -/
inductive Translation where
  | code (stmts : List Stmt)
  | todo
  | fatal
deriving DecidableEq, Repr

def Translation.stmts : Translation → List Stmt
  | .code stmts => stmts
  | .todo => []
  | .fatal => []

/-- The translation of a word at an address that no site rewrites. -/
@[grind =] def translatePlain (addr w : Word) : Translation :=
  match Op.ofWord w with
  | .sll => .code [translateSll w]
  | .srl => .code [translateShift .shr w]
  | .sra => .code [translateShift .sar w]
  | .sllv => .code [translateShiftVar .shl w]
  | .srlv => .code [translateShiftVar .shr w]
  | .srav => .code [translateShiftVar .sar w]
  | .jr => .code [.ret]
  | .jalr => .code [.setGpr (rd w) (.lit (addr + 8#32)), .setPc (.gpr (rs w))]
  | .syscall => .code [.syscall (trapCode w)]
  | .break => .code [.nop]
  | .mfhi => .code [translateMoveFrom .hi w]
  | .mthi => .code [.setHi (.gpr (rs w))]
  | .mflo => .code [translateMoveFrom .lo w]
  | .mtlo => .code [.setLo (.gpr (rs w))]
  | .mult => .code [.mult (.gpr (rs w)) (.gpr (rt w))]
  | .multu => .code [.multu (.gpr (rs w)) (.gpr (rt w))]
  | .div => .code [.div (.gpr (rs w)) (.gpr (rt w))]
  | .divu => .code [.divu (.gpr (rs w)) (.gpr (rt w))]
  | .add => .code [translateMoveable .add w]
  | .addu => .code [translateMoveable .add w]
  | .sub => .code [translateBinary .sub w]
  | .subu => .code [translateBinary .sub w]
  | .and => .code [translateBinary .and w]
  | .or => .code [translateMoveable .or w]
  | .xor => .code [translateBinary .xor w]
  | .nor => .code [translateNor w]
  | .slt => .code [translateBinary .slt w]
  | .sltu => .code [translateBinary .sltu w]
  | .addi => .code [translateAddiu w]
  | .addiu => .code [translateAddiu w]
  | .slti => .code [translateImmediate .slt (simm w) w]
  | .sltiu => .code [translateImmediate .sltu (simm w) w]
  | .andi => .code [translateImmediate .and (uimm w) w]
  | .ori => .code [translateOri w]
  | .xori => .code [translateImmediate .xor (uimm w) w]
  | .lui => .code [translateLui w]
  | .cop0 => .code [translateCop0 w]
  | .cop2 => .code [translateCop2 w]
  | .lb => .code [translateLoad .byte w]
  | .lh => .code [translateLoad .half w]
  | .lwl => .code [translateLoadMerge .left w]
  | .lw => .code [translateLoad .word w]
  | .lbu => .code [translateLoad .byteUnsigned w]
  | .lhu => .code [translateLoad .halfUnsigned w]
  | .lwr => .code [translateLoadMerge .right w]
  | .sb => .code [translateStore .byte w]
  | .sh => .code [translateStore .half w]
  | .swl => .code [translateStoreMerge .left w]
  | .sw => .code [translateStore .word w]
  | .swr => .code [translateStoreMerge .right w]
  | .cache => .code [.nop]
  | .lwc2 => .code [.loadGte (gteDataWriteSpecial (rt w)) (rt w) (addrExpr w)]
  | .swc2 => .code [.store .word (addrExpr w) (gteDataValue (rt w))]
  | .sync | .specialOther | .regimm | .j | .jal | .beq | .bne | .blez | .bgtz | .cop1 | .beql
  | .bnel | .blezl | .bgtzl | .lwc1 | .swc1 | .other => .todo

/-- The configured rewrite sites. `cullBltzPcs`, `autoCullFunc` and
`backdropSites` are filled for each function by the site detectors. -/
structure SiteConfig where
  overlayMode : Bool
  backdropSites : Word → Option (Bool × Int)
  cullBiasSites : Word → Bool
  cullRangeSites : Word → Bool
  cullA1Sites : Word → Bool
  cullScreenXSites : Word → Bool
  autoCullFunc : Bool
  cullWImms : List (BitVec 16)
  cullSltiSites : Word → Bool
  cullBltzPcs : Word → Bool
  backdropXSites : Word → Bool
  bg2dCountSite : Word
  bg2dStartcolSite : Word
  bg2dStartxSite : Word
  bg2dStreamLeftSite : Word
  bg2dStreamRightSite : Word
  bg2dBufbaseSite : Word
  bg2dCapSite : Word
  persistInitStoreSites : Word → Bool

/-- No site is configured. -/
def SiteConfig.none : SiteConfig where
  overlayMode := false
  backdropSites := fun _ => .none
  cullBiasSites := fun _ => false
  cullRangeSites := fun _ => false
  cullA1Sites := fun _ => false
  cullScreenXSites := fun _ => false
  autoCullFunc := false
  cullWImms := [0x140, 0x141]
  cullSltiSites := fun _ => false
  cullBltzPcs := fun _ => false
  backdropXSites := fun _ => false
  bg2dCountSite := 0
  bg2dStartcolSite := 0
  bg2dStartxSite := 0
  bg2dStreamLeftSite := 0
  bg2dStreamRightSite := 0
  bg2dBufbaseSite := 0
  bg2dCapSite := 0
  persistInitStoreSites := fun _ => false

/-- What one site check decides: leave the word alone, rewrite it, or stop the
build because the word is not of the site's kind. -/
inductive SiteResult where
  | pass
  | rewrite (stmts : List Stmt)
  | fatal
deriving DecidableEq, Repr

/-- A site that rewrites words of its kind. Other words stop the build, unless
an overlay is compiled, whose variants hold other code at the address. -/
def siteCheck (active overlayMode : Bool) (matched : Option (List Stmt)) : SiteResult :=
  if active then
    match matched with
    | some stmts => .rewrite stmts
    | none => if overlayMode then .pass else .fatal
  else .pass

/-- A single-address site; zero switches it off. -/
def siteAt (site addr : Word) : Bool := site != 0 && addr == site

section Sites

variable (cfg : SiteConfig) (addr w : Word)

def margin : Expr := .host .xMargin (.lit 0) (.lit 0)

def siteBackdrop : SiteResult :=
  match cfg.backdropSites addr with
  | none => .pass
  | some (isEnd, wcols) =>
      match Op.ofWord w with
      | .addu | .or =>
          .rewrite [.setGpr (rd w)
            (.host (.backdropValue isEnd wcols) (.gpr (if rt w = 0 then rs w else rt w)) (.lit 0))]
      | .addiu | .addi =>
          .rewrite [.setGpr (rt w)
            (.host (.backdropValue isEnd wcols)
              (if rs w = 0 then .lit (simm w) else .add (.gpr (rs w)) (.lit (simm w))) (.lit 0))]
      | _ => .fatal

def siteCullBias : SiteResult :=
  siteCheck (cfg.cullBiasSites addr) cfg.overlayMode <|
    match Op.ofWord w with
    | .addi | .addiu =>
        some [.setGpr (rt w) (.add (.gpr (rs w)) (.addSigned (.lit (simm w)) margin))]
    | _ => none

def siteCullRange : SiteResult :=
  siteCheck (cfg.cullRangeSites addr) cfg.overlayMode <|
    match Op.ofWord w with
    | .sltiu =>
        some [.setGpr (rt w)
          (.sltu (.gpr (rs w)) (.addSigned (.lit (simm w)) (.addSigned margin margin)))]
    | _ => none

def siteCullA1 : SiteResult :=
  siteCheck (cfg.cullA1Sites addr) cfg.overlayMode <|
    if w = 0 then some [.setGpr 5 (.add (.gpr 5) margin)]
    else
      match Op.ofWord w with
      | .addu =>
          if (rs w = 5 ∧ rt w = 0) ∨ (rs w = 0 ∧ rt w = 5) then
            some [.setGpr (rd w) (.add (.gpr 5) margin)]
          else none
      | _ => none

def siteCullScreenX : SiteResult :=
  siteCheck (cfg.cullScreenXSites addr) cfg.overlayMode <|
    match Op.ofWord w with
    | .sltiu => some [.setGpr (rt w) (.host (.cullSltiu (imm16 w)) (.gpr (rs w)) (.lit 0))]
    | _ => none

/-- The signature-detected compare never stops the build. -/
def siteAutoCull : SiteResult :=
  if cfg.autoCullFunc ∧ imm16 w ∈ cfg.cullWImms then
    match Op.ofWord w with
    | .sltiu => .rewrite [.setGpr (rt w) (.host (.cullSltiu (imm16 w)) (.gpr (rs w)) (.lit 0))]
    | .slti => .rewrite [.setGpr (rt w) (.host (.cullSlti (imm16 w)) (.gpr (rs w)) (.lit 0))]
    | _ => .pass
  else .pass

def siteCullSlti : SiteResult :=
  siteCheck (cfg.cullSltiSites addr) cfg.overlayMode <|
    match Op.ofWord w with
    | .slti => some [.setGpr (rt w) (.host (.cullSlti (imm16 w)) (.gpr (rs w)) (.lit 0))]
    | _ => none

def siteBackdropX : SiteResult :=
  siteCheck (cfg.backdropXSites addr) cfg.overlayMode <|
    match Op.ofWord w with
    | .sh => some [.store .half (addrExpr w) (.host .backdropX (.gpr (rt w)) (.lit 0))]
    | _ => none

def siteBg2dCount : SiteResult :=
  siteCheck (siteAt cfg.bg2dCountSite addr) cfg.overlayMode <|
    let cols : Expr := .host (.bg2dCols (imm16 w)) (.lit 0) (.lit 0)
    match Op.ofWord w with
    | .addiu | .ori => some [.setGpr (rt w) cols]
    | .slti => some [.setGpr (rt w) (.slt (.gpr (rs w)) cols)]
    | .sltiu => some [.setGpr (rt w) (.sltu (.gpr (rs w)) cols)]
    | _ => none

def siteBg2dStartcol : SiteResult :=
  siteCheck (siteAt cfg.bg2dStartcolSite addr) cfg.overlayMode <|
    match Op.ofWord w with
    | .andi =>
        some [.setGpr (rt w)
          (.host (.bg2dStartcol (imm16 w)) (.and (.gpr (rs w)) (.lit (uimm w))) (.lit 0))]
    | _ => none

def siteBg2dStartx : SiteResult :=
  siteCheck (siteAt cfg.bg2dStartxSite addr) cfg.overlayMode <|
    match Op.ofWord w with
    | .sra =>
        some [.setGpr (rd w) (.host .bg2dStartx (.sar (.gpr (rt w)) (shamtLit w)) (.lit 0))]
    | .subu =>
        if rs w = 0 then
          some [.setGpr (rd w) (.host .bg2dStartx (.negSigned (.gpr (rt w))) (.lit 0))]
        else none
    | _ => none

/-- The two stream edges of the tile ring. -/
def siteBg2dStream (site : Word) (f : HostFn) : SiteResult :=
  siteCheck (siteAt site addr) cfg.overlayMode <|
    match Op.ofWord w with
    | .addi | .addiu =>
        some [.setGpr (rt w) (.host f (.addSigned (.gpr (rs w)) (.lit (simm w))) (.lit 0))]
    | _ => none

def siteBg2dBufbase : SiteResult :=
  siteCheck (siteAt cfg.bg2dBufbaseSite addr) cfg.overlayMode <|
    match Op.ofWord w with
    | .addu =>
        some [.setGpr (rd w) (.host .mmx6BgBufbase (.add (.gpr (rs w)) (.gpr (rt w))) (.lit 0))]
    | _ => none

def siteBg2dCap : SiteResult :=
  siteCheck (siteAt cfg.bg2dCapSite addr) cfg.overlayMode <|
    match Op.ofWord w with
    | .slti => some [.setGpr (rt w) (.host (.bg2dUndercap (imm16 w)) (.gpr (rs w)) (.lit 0))]
    | _ => none

/-- The persisted-option store stops the build also for an overlay. -/
def sitePersistInitStore : SiteResult :=
  siteCheck (cfg.persistInitStoreSites addr) false <|
    let value : Expr := .host .gameOptionStore (addrExpr w) (.gpr (rt w))
    match Op.ofWord w with
    | .sb => some [.store .byte (addrExpr w) value]
    | .sh => some [.store .half (addrExpr w) value]
    | _ => none

/-- The site checks in the order in which the generator makes them. -/
def siteChecks : List SiteResult :=
  [siteBackdrop cfg addr w, siteCullBias cfg addr w, siteCullRange cfg addr w,
    siteCullA1 cfg addr w, siteCullScreenX cfg addr w, siteAutoCull cfg w,
    siteCullSlti cfg addr w, siteBackdropX cfg addr w, siteBg2dCount cfg addr w,
    siteBg2dStartcol cfg addr w, siteBg2dStartx cfg addr w,
    siteBg2dStream cfg addr w cfg.bg2dStreamLeftSite .bg2dStreamLeft,
    siteBg2dStream cfg addr w cfg.bg2dStreamRightSite .bg2dStreamRight,
    siteBg2dBufbase cfg addr w, siteBg2dCap cfg addr w, sitePersistInitStore cfg addr w]

/-- The first check that does not pass decides. -/
def firstDecision : List SiteResult → SiteResult
  | [] => .pass
  | .pass :: rest => firstDecision rest
  | decided :: _ => decided

theorem mem_of_firstDecision {l : List SiteResult} {stmts : List Stmt}
    (hFirst : firstDecision l = .rewrite stmts) : .rewrite stmts ∈ l := by
  induction l with
  | nil => cases hFirst
  | cons r rest ih =>
      cases r with
      | pass => exact List.mem_cons_of_mem _ (ih hFirst)
      | rewrite stmts' =>
          cases hFirst
          exact List.mem_cons_self
      | fatal => cases hFirst

/-- `translate_instruction`. -/
def translateInstruction : Translation :=
  match firstDecision (siteChecks cfg addr w) with
  | .rewrite stmts => .code stmts
  | .fatal => .fatal
  | .pass => translatePlain addr w

end Sites

/-- `generate_branch_condition`. -/
def generateBranchCondition (cfg : SiteConfig) (w addr : Word) : Expr :=
  match Op.ofWord w with
  | .regimm =>
      match (rt w).toNat with
      | 0x00 =>
          if cfg.cullBltzPcs addr then .host .cullBltz (.gpr (rs w)) (.lit 0)
          else .slt (.gpr (rs w)) (.lit 0)
      | 0x01 => .sle (.lit 0) (.gpr (rs w))
      | 0x10 => .slt (.gpr (rs w)) (.lit 0)
      | 0x11 => .sle (.lit 0) (.gpr (rs w))
      | _ => .lit 0
  | .beq | .beql => if rs w = rt w then .lit 1 else .eq (.gpr (rs w)) (.gpr (rt w))
  | .bne | .bnel => if rs w = rt w then .lit 0 else .ne (.gpr (rs w)) (.gpr (rt w))
  | .blez | .blezl => .sle (.gpr (rs w)) (.lit 0)
  | .bgtz | .bgtzl => .slt (.lit 0) (.gpr (rs w))
  | _ => .lit 0

end RecompStudio.CodeGen
