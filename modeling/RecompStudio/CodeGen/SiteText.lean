import RecompStudio.Backends.CodeGenFollows

/-!
The text at a configured site. It stands for one word, and is one write of the register or
one store to the address that the word writes, with the value of a hook.
-/

namespace RecompStudio.CodeGen

open RecompStudio.Emitted
open RecompStudio.Insn
open RecompStudio.Interp

/-- The value that a word of a site's kind gives to its register. The `nop` of a cull site
leaves `$a1` as it is. -/
def siteValue {M : Type} (w : Word) (s : CPUState M) : Word :=
  match Op.ofWord w with
  | .sll => s.gpr 5
  | .sra => (s.gpr (rt w)).sshiftRight (shamt w).toNat
  | .addu => s.gpr (rs w) + s.gpr (rt w)
  | .subu => s.gpr (rs w) - s.gpr (rt w)
  | .or => s.gpr (rs w) ||| s.gpr (rt w)
  | .addi | .addiu => s.gpr (rs w) + simm w
  | .slti => ofBool ((s.gpr (rs w)).slt (simm w))
  | .sltiu => ofBool ((s.gpr (rs w)).ult (simm w))
  | .andi => s.gpr (rs w) &&& uimm w
  | .ori => s.gpr (rs w) ||| uimm w
  | _ => 0

/-- Statements that stand for a word: a write of the register that the word writes, or a store
of the width and to the address of the word's own. -/
def SiteText (addr w : Word) (stmts : List Stmt) : Prop :=
  (∃ r e, stmts = [.setGpr r e] ∧ ∀ (M : Type) (h : Host M) (t : CPUState M), t.gpr 0 = 0 →
    execPlain h addr w t = advanceWith t r (siteValue w t)) ∨
  ∃ width e, stmts = [.store width (addrExpr w) e] ∧
    ∀ (M : Type) (h : Host M) (t : CPUState M), execPlain h addr w t = execStore h t w width

variable {cfg : SiteConfig} {addr w : Word} {stmts : List Stmt}

theorem siteText_siteCheck {active overlay : Bool} {matched : Option (List Stmt)}
    (hMatched : ∀ stmts, matched = some stmts → SiteText addr w stmts)
    (hRewrite : siteCheck active overlay matched = .rewrite stmts) : SiteText addr w stmts := by
  unfold siteCheck at hRewrite
  cases active
  · cases hRewrite
  cases matched with
  | none => cases overlay <;> cases hRewrite
  | some stmts' =>
      cases hRewrite
      exact hMatched stmts rfl

theorem siteText_siteBackdrop (hRewrite : siteBackdrop cfg addr w = .rewrite stmts) :
    SiteText addr w stmts := by
  unfold siteBackdrop at hRewrite
  split at hRewrite
  · cases hRewrite
  · split at hRewrite <;> cases hRewrite
    all_goals
      rename_i hOp
      refine .inl ⟨_, _, rfl, fun M h t _ => ?_⟩
      rw [execPlain, siteValue, hOp]

theorem siteText_siteAutoCull (hRewrite : siteAutoCull cfg w = .rewrite stmts) :
    SiteText addr w stmts := by
  unfold siteAutoCull at hRewrite
  split_ifs at hRewrite
  split at hRewrite <;> cases hRewrite
  all_goals
    rename_i hOp
    refine .inl ⟨_, _, rfl, fun M h t _ => ?_⟩
    rw [execPlain, siteValue, hOp]

/-- The `nop` of a cull site writes no register, and so leaves `$a1`. -/
theorem siteText_nop {e : Expr} : SiteText addr 0 [.setGpr 5 e] := by
  refine .inl ⟨_, _, rfl, fun M h t hZero => ?_⟩
  have hOp : Op.ofWord 0 = .sll := rfl
  have hRd : rd 0 = 0 := rfl
  have hKept : advanceWith t 5 (t.gpr 5) = .advance t := by
    rw [advanceWith, writeGpr_eq_setGpr hZero (by decide), CPUState.setGpr_eq_self t rfl]
  rw [execPlain, siteValue, hOp, hKept, hRd, advanceWith, writeGpr_zero hZero]

theorem siteText_siteCullA1 (hRewrite : siteCullA1 cfg addr w = .rewrite stmts) :
    SiteText addr w stmts := by
  refine siteText_siteCheck (fun stmts hSome => ?_) hRewrite
  split at hSome
  next hNop =>
    cases hSome
    rw [hNop]
    exact siteText_nop
  next =>
    split at hSome
    next hOp =>
      split_ifs at hSome
      cases hSome
      refine .inl ⟨_, _, rfl, fun M h t _ => ?_⟩
      rw [execPlain, siteValue, hOp]
    next => cases hSome

theorem siteText_siteChecks {r : SiteResult} (hMem : r ∈ siteChecks cfg addr w)
    (hRewrite : r = .rewrite stmts) : SiteText addr w stmts := by
  simp only [siteChecks, List.mem_cons, List.not_mem_nil, or_false] at hMem
  rcases hMem with rfl | rfl | rfl | rfl | rfl | rfl | rfl | rfl | rfl | rfl | rfl | rfl | rfl |
    rfl | rfl | rfl
  case inl => exact siteText_siteBackdrop hRewrite
  case inr.inr.inr.inl => exact siteText_siteCullA1 hRewrite
  case inr.inr.inr.inr.inr.inl => exact siteText_siteAutoCull hRewrite
  all_goals
    refine siteText_siteCheck (fun stmts hSome => ?_) hRewrite
    repeat' split at hSome
    all_goals cases hSome
    all_goals first
      | exact .inl ⟨_, _, rfl, fun M h t _ => by simp only [execPlain, siteValue, *]⟩
      | exact .inr ⟨_, _, rfl, fun M h t => by simp only [execPlain, *]⟩

/-- The first check that does not pass rewrites the word to text that stands for it. -/
theorem siteText_of_rewrite (hFirst : firstDecision (siteChecks cfg addr w) = .rewrite stmts) :
    SiteText addr w stmts :=
  siteText_siteChecks (mem_of_firstDecision hFirst) rfl

end RecompStudio.CodeGen
