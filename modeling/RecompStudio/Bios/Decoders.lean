import RecompStudio.Backends.Agreement
import RecompStudio.Bios.Discovery

/-!
The two decoders of the BIOS pipeline. The walker classifies an instruction word
by itself and asks the translator only whether it takes the word; the emitter
ends its blocks where the translator says so.
-/

namespace RecompStudio.Bios

open RecompStudio.Emitted
open RecompStudio.Insn
open RecompStudio.Interp

variable {M : Type}

/-- The ways in which an instruction leaves the straight line. -/
inductive ExitKind where
  | branch | jump | call | jr | jalr | syscall | break | rfe | reservedInstruction
deriving DecidableEq, Repr

def Terminator.exitKind : Terminator → ExitKind
  | .branch => .branch
  | .jump => .jump
  | .jal => .call
  | .jr => .jr
  | .jalr => .jalr
  | .rfe => .rfe
  | .reservedInstruction => .reservedInstruction

/-- The exit that the translator makes of a word. `syscall` and `break` are no
terminators of a slice, but their code leaves the emitted function. -/
def StrictResult.exitKind : StrictResult → Option ExitKind
  | .terminator kind _ => some kind.exitKind
  | .code [.syscallOrReturn _] => some .syscall
  | .code [.raise .break] => some .break
  | .code _ | .unsupported => none

/-- The exit that the walker sees. -/
def CFKind.exitKind : CFKind → Option ExitKind
  | .normal => none
  | .condBranch => some .branch
  | .jump => some .jump
  | .call => some .call
  | .jrRa | .jrIndirect => some .jr
  | .jalr => some .jalr
  | .syscall => some .syscall
  | .break => some .break
  | .rfe => some .rfe
  | .reservedInstruction => some .reservedInstruction

/-- Both decoders see the same exit, or none, in a word. -/
def SameExit (addr w : Word) : Prop :=
  (strictTranslate addr w).exitKind = (classifyControlFlow w addr).kind.exitKind

instance (addr w : Word) : Decidable (SameExit addr w) := inferInstanceAs (Decidable (_ = _))

/-- A word that the walker goes through as a normal instruction. -/
@[grind =] def AcceptedNormal (addr w : Word) : Prop :=
  (classifyControlFlow w addr).kind = .normal ∧ strictTranslate addr w ≠ .unsupported

/-- Its code is no reserved-instruction exit, and unless it raises an exception
it leaves the registers and the memory that `exec_one` leaves. -/
def TranslatedToEffect (host : Host M) (addr w : Word) (s : CPUState M) : Prop :=
  (∀ stmts, strictTranslate addr w ≠ .terminator .reservedInstruction stmts) ∧
    (strictOutcome host addr w s ≠ .exception →
      SameOutcome (strictOutcome host addr w s) (interpOutcome host addr w s))

/-- The words on which the decoders agree: `mult` is a normal instruction for the
walker and reserved for the translator; the link branches and the undefined
branches of REGIMM are branches for the walker and refused by the translator. -/
def SharedWord (w : Word) : Prop :=
  Op.ofWord w ≠ .mult ∧ (Op.ofWord w = .regimm → rt w = 0x00 ∨ rt w = 0x01)

instance (w : Word) : Decidable (SharedWord w) := inferInstanceAs (Decidable (_ ∧ _))

/-- The states in which the code of a normal word does what the word does. -/
structure EffectKept (host : Host M) (w : Word) (s : CPUState M) : Prop where
  add : ¬ AddOverflows w s
  bytes : ¬ KeepsOtherBytes host w s
  gte : ¬ ReadsBeyond host w s

section Exits

variable {addr w : Word}

theorem exitKind_emitGprWrite (dst : RegIndex) (e : Expr) :
    (StrictResult.code [emitGprWrite dst e]).exitKind = none := by
  unfold emitGprWrite
  split <;> rfl

theorem exitKind_cop0 (w : Word) :
    (strictCop0 w).exitKind = if w = 0x42000010#32 then some .rfe else none := by
  unfold strictCop0
  split
  · rfl
  · split
    · exact exitKind_emitGprWrite _ _
    · split <;> rfl

theorem exitKind_cop1 (w : Word) :
    (strictCop1 w).exitKind = if rs w = 0x08 ∨ rs w = 0x0C then some .branch else none := by
  unfold strictCop1
  split <;> rfl

theorem exitKind_cop2 (w : Word) : (strictCop2 w).exitKind = none := by
  unfold strictCop2
  split_ifs
  all_goals first | exact exitKind_emitGprWrite _ _ | rfl

/-- The two switches on opcode and function field, case by case. -/
theorem sameExit_iff (addr w : Word) : SameExit addr w ↔ SharedWord w := by
  unfold SameExit SharedWord strictTranslate classifyControlFlow
  by_cases hNop : w = 0
  · subst hNop
    exact iff_of_true rfl ⟨by decide, by decide⟩
  rw [if_neg hNop]
  cases hOp : Op.ofWord w
  case mult => exact iff_of_false nofun (fun h => h.1 rfl)
  case regimm =>
    simp only [ne_eq, reduceCtorEq, not_false_eq_true, true_implies, true_and]
    split
    next hRt => exact iff_of_true rfl hRt
    next hRt => exact iff_of_false nofun hRt
  -- on every other operation both decoders name the same exit
  all_goals refine iff_of_true ?_ ⟨nofun, nofun⟩
  case cop0 =>
    simp only [exitKind_cop0]
    split <;> rfl
  case cop1 =>
    simp only [exitKind_cop1]
    split <;> rfl
  case cop2 => exact exitKind_cop2 w
  case jr =>
    simp only
    split <;> rfl
  all_goals first | rfl | exact exitKind_emitGprWrite _ _

end Exits

section Effects

variable {host : Host M} {addr w : Word} {s : CPUState M}

theorem AcceptedNormal.plain (h : AcceptedNormal addr w) : transfersControl w = false := by
  have hKind := h.1
  unfold classifyControlFlow at hKind
  unfold transfersControl
  cases hOp : Op.ofWord w <;> simp only [hOp] at hKind ⊢
  case cop1 =>
    split at hKind
    next => cases hKind
    next hBranch => simpa [isBc1, not_or] using hBranch
  case beql | bnel | blezl | bgtzl =>
    have hNonzero : w ≠ 0 := ne_zero_of_op hOp (by decide)
    exact absurd (by simp only [strictTranslate, hOp, if_neg hNonzero]) h.2
  case jr => split at hKind <;> cases hKind
  all_goals cases hKind

theorem strictOutcome_ran (hTaken : strictTranslate addr w ≠ .unsupported)
    (hQuiet : strictOutcome host addr w s ≠ .exception) : (strictOutcome host addr w s).Ran := by
  unfold strictOutcome at hQuiet ⊢
  cases hCode : strictTranslate addr w with
  | unsupported => exact absurd hCode hTaken
  | code stmts | terminator _ stmts =>
      simp only [hCode] at hQuiet ⊢
      cases hFlow : execStmts host s stmts with
      | trap _ => exact absurd (congrArg Outcome.ofFlow hFlow) hQuiet
      | _ => trivial

/-- A normal word of which the decoders see the same has its effect where the
state loses nothing. -/
theorem AcceptedNormal.translated (h : AcceptedNormal addr w) (hShared : SharedWord w)
    (hZero : s.gpr 0 = 0) (hKept : EffectKept host w s) : TranslatedToEffect host addr w s := by
  refine ⟨fun stmts hReserved => ?_, fun hQuiet => ?_⟩
  · have hExit : (strictTranslate addr w).exitKind = _ := (sameExit_iff addr w).mpr hShared
    rw [hReserved, h.1] at hExit
    cases hExit
  · have hMode : ¬ ClearsOldMode w s := by
      rintro ⟨rfl, _⟩
      exact nomatch h.1
    exact strict_same_interp hZero h.plain (strictOutcome_ran h.2 hQuiet)
      ⟨hKept.add, hMode, hKept.bytes⟩ hKept.gte

/-- The addresses and sums that the emitted code adds as signed numbers. -/
theorem acceptedNormal_of_addOverflows (hAdd : AddOverflows w s) : AcceptedNormal addr w := by
  obtain ⟨_, hOps⟩ := hAdd
  cases hOp : Op.ofWord w <;> simp only [hOp] at hOps
  all_goals
    have hNonzero : w ≠ 0 := ne_zero_of_op hOp (by decide)
    simp only [AcceptedNormal, classifyControlFlow, strictTranslate, hOp, if_neg hNonzero]
    refine ⟨trivial, ?_⟩
    intro h
    cases h

theorem keepsOtherBytes_accepted (hNoAdd : ¬ AddOverflows w s)
    (hBytes : KeepsOtherBytes host w s) :
    AcceptedNormal addr w ∧ strictOutcome host addr w s ≠ .exception := by
  rcases keepsOtherBytes_op hBytes with hOp | hOp
  all_goals
    have hNonzero : w ≠ 0 := ne_zero_of_op hOp (by decide)
    have hDefined : (strictAddr w).defined host s = true := by
      rw [strictAddr_defined_iff, ← Bool.not_eq_true]
      exact fun h => hNoAdd ⟨h, by simp only [hOp]⟩
    simp only [AcceptedNormal, classifyControlFlow, strictOutcome, strictTranslate, hOp,
      if_neg hNonzero, execStmts, Stmt.exec, hDefined, if_true, Outcome.ofFlow]
    refine ⟨⟨trivial, ?_⟩, ?_⟩ <;> intro h <;> cases h

theorem readsBeyond_accepted (hNoAdd : ¬ AddOverflows w s) (hBeyond : ReadsBeyond host w s) :
    AcceptedNormal addr w ∧ strictOutcome host addr w s ≠ .exception := by
  rcases readsBeyond_op hBeyond with hOp | hOp
  · obtain ⟨e, v, _, _, hMove, hDefined, _⟩ := readsBeyond_move addr hOp hBeyond
    refine ⟨⟨?_, ?_⟩, ?_⟩
    · simp only [classifyControlFlow, hOp]
    · rw [hMove]
      intro h
      cases h
    · simp only [strictOutcome, hMove]
      rw [execStmts_singleton, Stmt.exec, if_pos hDefined]
      intro h
      cases h
  · have hNonzero : w ≠ 0 := ne_zero_of_op hOp (by decide)
    rw [strict_swc2 hOp hNoAdd]
    simp only [AcceptedNormal, classifyControlFlow, strictTranslate, hOp, if_neg hNonzero]
    refine ⟨⟨trivial, ?_⟩, ?_⟩ <;> intro h <;> cases h

/-- Where the effect is lost, the word is one that the walker accepts. -/
theorem effectKept_of_translated
    (h : AcceptedNormal addr w → TranslatedToEffect host addr w s) : EffectKept host w s := by
  have hAdd : ¬ AddOverflows w s := by
    intro hAdd
    have hEffect := (h (acceptedNormal_of_addOverflows hAdd)).2
    rw [strict_addOverflows hAdd] at hEffect
    exact not_sameOutcome_undefined (hEffect nofun)
  refine ⟨hAdd, fun hBytes => ?_, fun hBeyond => ?_⟩
  · obtain ⟨hNormal, hQuiet⟩ := keepsOtherBytes_accepted hAdd hBytes
    exact strict_not_same_interp hNormal.plain (.inl fun hSound => hSound.bytes hBytes)
      ((h hNormal).2 hQuiet)
  · obtain ⟨hNormal, hQuiet⟩ := readsBeyond_accepted hAdd hBeyond
    exact strict_not_same_interp hNormal.plain (.inr hBeyond) ((h hNormal).2 hQuiet)

end Effects

/-- The decoders agree on a word, and a normal word is translated to its effect,
exactly on the shared words in the states that keep the effect. -/
theorem decoders_agree_iff (host : Host M) (addr w : Word) (s : CPUState M)
    (hZero : s.gpr 0 = 0) :
    SameExit addr w ∧ (AcceptedNormal addr w → TranslatedToEffect host addr w s) ↔
      SharedWord w ∧ EffectKept host w s := by
  rw [sameExit_iff]
  constructor
  · rintro ⟨hShared, hTranslated⟩
    exact ⟨hShared, effectKept_of_translated hTranslated⟩
  · rintro ⟨hShared, hKept⟩
    exact ⟨hShared, fun hNormal => hNormal.translated hShared hZero hKept⟩

/-- `multu $2, $4` and `sw $2, 4($4)`, where the registers hold an address and a word. -/
theorem decoders_agree_store :
    (SameExit 0xBFC00000#32 0x00440019#32 ∧
      (AcceptedNormal 0xBFC00000#32 0x00440019#32 →
        TranslatedToEffect cellHost 0xBFC00000#32 0x00440019#32 partState)) ∧
    AcceptedNormal 0xBFC00004#32 0xAC820004#32 ∧
    TranslatedToEffect cellHost 0xBFC00004#32 0xAC820004#32 partState := by
  have hStore : SameExit 0xBFC00004#32 0xAC820004#32 ∧
      (AcceptedNormal 0xBFC00004#32 0xAC820004#32 →
        TranslatedToEffect cellHost 0xBFC00004#32 0xAC820004#32 partState) :=
    (decoders_agree_iff cellHost 0xBFC00004#32 0xAC820004#32 partState rfl).mpr
      ⟨by decide, ⟨fun h => absurd h.1 (by decide), id, id⟩⟩
  have hNormal : AcceptedNormal 0xBFC00004#32 0xAC820004#32 := ⟨by decide, by decide⟩
  refine ⟨?_, hNormal, hStore.2 hNormal⟩
  exact (decoders_agree_iff cellHost 0xBFC00000#32 0x00440019#32 partState rfl).mpr
    ⟨by decide, ⟨fun h => h.2, id, id⟩⟩

/-- `mult $2, $3` is accepted as a normal instruction and raises the
reserved-instruction exception. -/
theorem decoders_disagree_mult :
    AcceptedNormal 0xBFC00000#32 0x00430018#32 ∧ ¬ SameExit 0xBFC00000#32 0x00430018#32 ∧
      strictTranslate 0xBFC00000#32 0x00430018#32 =
        .terminator .reservedInstruction [.raise .reservedInstruction] :=
  ⟨⟨by decide, by decide⟩, by decide, by decide⟩

end RecompStudio.Bios
