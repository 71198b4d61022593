import RecompStudio.Sljit.EmitOne
import RecompStudio.Sljit.GprLive
import RecompStudio.Interp.ExecOne

/-!
The code for one guest instruction against the interpreter: from a host state
that stands for a guest state, it leads to one that stands for what the
interpreter makes of the guest state.
-/

namespace RecompStudio.Sljit

open RecompStudio.Staged
open RecompStudio.Interp
open RecompStudio.Insn
open RecompStudio.Emitted

variable {M : Type} {p : Platform M} {cps : Bool} {used : Finset RegIndex}
variable {c c₀ : GprCache} {g g' : CPUState M} {st st₀ : HostState M} {n : RegIndex}

/-- The code has run through and the host state stands for `g'`; the temporary
of a control transfer is as it was. -/
structure Follows (cps : Bool) (used : Finset RegIndex) (g' : CPUState M) (c : GprCache)
    (st : HostState M) (c' : GprCache) (st' : HostState M) : Prop where
  live : Live cps used c' g' st'
  ctrl : st'.regs .ctrl = st.regs .ctrl
  pins : c'.pins = 0
  lru : c'.lru ≤ c.lru + 3

/-- Between the instructions nothing is pinned, and the clock of the cache is
far from its end. -/
structure Between (cps : Bool) (used : Finset RegIndex) (c : GprCache) (g : CPUState M)
    (st : HostState M) : Prop where
  live : Live cps used c g st
  pins : c.pins = 0
  lru : c.lru + 3 < 0xFFFFFFFF

theorem wp_gprUnpin (hLive : Live cps used c g st) (hCtrl : st.regs .ctrl = st₀.regs .ctrl)
    (hLru : c.lru ≤ c₀.lru + 3) :
    wp (step p) gprUnpin c st fun _ c' st' => Follows cps used g c₀ st₀ c' st' :=
  wp_modify ⟨hLive.unpin, hCtrl, pins_unpin c, hLru⟩

theorem step_op1_reg (hRunning : st.skip = 0) (op : Op1) (d : HostReg) (a : Operand) :
    step p st (.op1 op (.reg d) a) = .ok (st.setReg d (op.apply p.extension (st.eval p a))) := by
  rw [step_of_running hRunning]
  rfl

theorem step_op1_mem (hRunning : st.skip = 0) (op : Op1) (f : Field) (a : Operand) :
    step p st (.op1 op (.mem f) a) =
      .ok { st with cpu := f.write st.cpu (low (op.apply p.extension (st.eval p a))) } := by
  rw [step_of_running hRunning]
  rfl

theorem step_op2 (hRunning : st.skip = 0) {op : Op2} {a b : Operand} {x : BitVec 64} (d : HostReg)
    (hApply : op.apply p.extension b (st.eval p a) (st.eval p b) = some x) :
    step p st (.op2 op d a b) = .ok (st.assign d x) := by
  rw [step_of_running hRunning, execute, hApply]

/-- An operand survives a write to a register it does not lie in. -/
theorem Holds.setReg {v : Word} {a : Operand} (h : Holds c st v a) {r : HostReg} (x : BitVec 64)
    (hNe : a ≠ .reg r) : Holds c (st.setReg r x) v a := by
  cases a with
  | imm y => exact h
  | mem f => cases h
  | reg r' =>
      have hRegs : (st.setReg r x).regs r' = st.regs r' :=
        Function.update_of_ne (fun hEq => hNe (congrArg _ hEq)) _ _
      cases r' with
      | slot k => exact ⟨by rw [hRegs]; exact h.1, h.2⟩
      | _ => exact (congrArg low hRegs).trans h

/-- `as_reg` copies an immediate to the scratch register. -/
theorem wp_asReg {v : Word} {a : Operand} {r : HostReg}
    {Q : Operand → GprCache → HostState M → Prop}
    (hHolds : Holds c st v a) (hRunning : st.skip = 0)
    (hSame : Q a c st) (hCopy : ∀ x y, a = .imm y → low x = v → Q (.reg r) c (st.setReg r x)) :
    wp (step p) (asReg a r) c st Q := by
  cases a with
  | imm y =>
      refine wp_bind (wp_emit (step_op1_reg hRunning _ _ _) (wp_pure (hCopy _ y rfl ?_)))
      rw [Op1.apply, low_widen]
      exact hHolds
  | reg r' => exact wp_pure hSame
  | mem f => exact wp_pure hSame

theorem wp_oneReg {v : Word} {a b : Operand} {Q : Operand → GprCache → HostState M → Prop}
    (hHolds : Holds c st v a) (hRunning : st.skip = 0) (hSame : Q a c st)
    (hCopy : ∀ x y, b = .imm y → low x = v → Q (.reg .r0) c (st.setReg .r0 x)) :
    wp (step p) (oneReg a b) c st Q := by
  cases a with
  | imm y =>
      cases b with
      | imm z => exact wp_asReg hHolds hRunning hSame fun x _ _ hx => hCopy x z rfl hx
      | reg r => exact wp_pure hSame
      | mem f => exact wp_pure hSame
  | reg r => exact wp_pure hSame
  | mem f => exact wp_pure hSame

/-- The instruction that fills the destination, and the end of the guest
instruction. -/
theorem wp_fill {c₁ : GprCache} {st₁ st' : HostState M} {d : HostReg}
    (h : Prepared cps used n g c₁ st₁ d c st) {i : Lir} {x : BitVec 64}
    {f : Option (FlagType × Word × Word)} {v : Word}
    (hStep : step p st' i = .ok { st.setReg d x with flags := f }) (hx : low x = v)
    (hCtrl : st₁.regs .ctrl = st₀.regs .ctrl) (hLru : c₁.lru ≤ c₀.lru + 2) :
    wp (step p) (do Staged.Emit.emit i; gprUnpin : Emit Unit) c st'
      fun _ c' st' => Follows cps used (writeGpr g n v) c₀ st₀ c' st' := by
  subst hx
  refine wp_bind (wp_emit hStep (wp_gprUnpin ((h.ready x).setFlags f) ?_ ?_))
  · show Function.update st.regs d x .ctrl = _
    rw [Function.update_of_ne h.notCtrl.symm, h.keeps.scratch _ (by simp), hCtrl]
  · exact h.lru.trans (by omega)

/-- Two operands of an instruction, where the second may be an immediate. -/
theorem wp_twoOperands {rs : RegIndex} {rhs : Emit Operand} {v₂ : Word} {β : Type}
    {k : Operand → Operand → Emit β} {Q : β → GprCache → HostState M → Prop}
    (h : Between cps used c g st) (hRs : rs ≠ 0 → rs ∈ used)
    (hRhs : ∀ c₁ st₁, Live cps used c₁ g st₁ → c₁.pins ≤ 1 → c₁.lru ≤ c.lru + 1 →
      wp (step p) rhs c₁ st₁ fun b c₂ st₂ => Live cps used c₂ g st₂ ∧ Keeps c₁ st₁ c₂ st₂ ∧
        Holds c₂ st₂ v₂ b ∧ c₂.pins ≤ c₁.pins + 1 ∧ c₂.lru ≤ c₁.lru + 1)
    (hNext : ∀ a b c₂ st₂, Live cps used c₂ g st₂ → Holds c₂ st₂ (g.gpr rs) a →
      Holds c₂ st₂ v₂ b → st₂.regs .ctrl = st.regs .ctrl → c₂.pins ≤ 2 → c₂.lru ≤ c.lru + 2 →
      wp (step p) (k a b) c₂ st₂ Q) :
    wp (step p) (do
      let a ← gprSrc rs
      let b ← rhs
      let a ← oneReg a b
      k a b) c st Q := by
  refine wp_bind (wp_mono (wp_gprSrc h.live hRs (by have := h.pins; omega)
    (by have := h.lru; omega)) ?_)
  intro a c₁ st₁ hA
  have hPins₁ : c₁.pins ≤ 1 := by
    have := hA.pins
    have := h.pins
    omega
  refine wp_bind (wp_mono (hRhs c₁ st₁ hA.live hPins₁ hA.lru) ?_)
  rintro b c₂ st₂ ⟨hLive, hKeeps, hHoldsB, hPins, hLru⟩
  have hHoldsA := hA.holds.keep hKeeps
  have hCtrl : st₂.regs .ctrl = st.regs .ctrl := by
    rw [hKeeps.scratch _ (by simp), hA.keeps.scratch _ (by simp)]
  have hPins₂ : c₂.pins ≤ 2 := by omega
  have hLru₂ : c₂.lru ≤ c.lru + 2 := by
    have := hA.lru
    omega
  refine wp_bind (wp_oneReg hHoldsA hLive.running ?_ ?_)
  · exact hNext a b c₂ st₂ hLive hHoldsA hHoldsB hCtrl hPins₂ hLru₂
  · rintro x y rfl hx
    refine hNext _ _ c₂ _ (hLive.setReg (by simp) x) (by simpa [Holds] using hx) hHoldsB ?_ hPins₂
      hLru₂
    simpa using hCtrl

theorem wp_gprSrc_rhs {rt : RegIndex} (hRt : rt ≠ 0 → rt ∈ used) (hLimit : c₀.lru + 3 < 0xFFFFFFFF)
    (c₁ : GprCache) (st₁ : HostState M) (hLive : Live cps used c₁ g st₁) (hPins : c₁.pins ≤ 1)
    (hLru : c₁.lru ≤ c₀.lru + 1) :
    wp (step p) (gprSrc rt) c₁ st₁ fun b c₂ st₂ => Live cps used c₂ g st₂ ∧
      Keeps c₁ st₁ c₂ st₂ ∧ Holds c₂ st₂ (g.gpr rt) b ∧ c₂.pins ≤ c₁.pins + 1 ∧
        c₂.lru ≤ c₁.lru + 1 :=
  wp_mono (wp_gprSrc hLive hRt (by omega) (by omega)) fun _ _ _ h =>
    ⟨h.live, h.keeps, h.holds, h.pins, h.lru⟩

theorem wp_imm_rhs {v : Word} {x : BitVec 64} (hx : low x = v) (c₁ : GprCache) (st₁ : HostState M)
    (hLive : Live cps used c₁ g st₁) :
    wp (step p) (pure (.imm x) : Emit Operand) c₁ st₁ fun b c₂ st₂ => Live cps used c₂ g st₂ ∧
      Keeps c₁ st₁ c₂ st₂ ∧ Holds c₂ st₂ v b ∧ c₂.pins ≤ c₁.pins + 1 ∧ c₂.lru ≤ c₁.lru + 1 :=
  wp_pure ⟨hLive, Keeps.refl c₁ st₁, hx, by omega, by omega⟩

variable {rd rs rt : RegIndex}

theorem wp_emitAluRr (h : Between cps used c g st) (hRs : rs ≠ 0 → rs ∈ used)
    (hRt : rt ≠ 0 → rt ∈ used) (hRd : rd ≠ 0 → rd ∈ used) {op : Op2} {f : Word → Word → Word}
    (hOp : ∀ b x y, op.apply p.extension b x y = some (p.extension.widen (f (low x) (low y)))) :
    wp (step p) (emitAluRr op rd rs rt) c st fun _ c' st' =>
      Follows cps used (writeGpr g rd (f (g.gpr rs) (g.gpr rt))) c st c' st' := by
  refine wp_twoOperands h hRs (wp_gprSrc_rhs hRt h.lru) ?_
  intro a b c₂ st₂ hLive hA hB hCtrl hPins hLru
  refine wp_bind (wp_mono (wp_gprDst hLive hRd (by omega) (by have := h.lru; omega)) ?_)
  intro d c₃ st₃ hD
  refine wp_fill hD (step_op2 hD.running d (hOp _ _ _)) ?_ hCtrl hLru
  rw [low_widen, (hA.keep hD.keeps).low_eval, (hB.keep hD.keeps).low_eval]

theorem wp_emitNor (h : Between cps used c g st) (hRs : rs ≠ 0 → rs ∈ used)
    (hRt : rt ≠ 0 → rt ∈ used) (hRd : rd ≠ 0 → rd ∈ used) :
    wp (step p) (emitNor rd rs rt) c st fun _ c' st' =>
      Follows cps used (writeGpr g rd (~~~(g.gpr rs ||| g.gpr rt))) c st c' st' := by
  refine wp_twoOperands h hRs (wp_gprSrc_rhs hRt h.lru) ?_
  intro a b c₂ st₂ hLive hA hB hCtrl hPins hLru
  refine wp_bind (wp_mono (wp_gprDst hLive hRd (by omega) (by have := h.lru; omega)) ?_)
  intro d c₃ st₃ hD
  have hOr : step p st₃ (.op2 .or32 d a b) =
      .ok (st₃.assign d (p.extension.widen (g.gpr rs ||| g.gpr rt))) := by
    refine step_op2 hD.running d ?_
    rw [Op2.apply, (hA.keep hD.keeps).low_eval, (hB.keep hD.keeps).low_eval]
  -- the destination is written twice, and the second value stands
  have hNot : step p (st₃.assign d (p.extension.widen (g.gpr rs ||| g.gpr rt)))
      (.op2 .xor32 d (.reg d) (.imm (-1))) =
        .ok (st₃.assign d (p.extension.widen (~~~(g.gpr rs ||| g.gpr rt)))) := by
    rw [step_op2 (x := p.extension.widen (~~~(g.gpr rs ||| g.gpr rt))) (by exact hD.running) d,
      HostState.assign_assign]
    simp only [Op2.apply, HostState.eval, HostState.assign_regs, Function.update_self, low_widen]
    rw [show low (-1) = BitVec.allOnes 32 by decide, BitVec.xor_allOnes]
  exact wp_bind (wp_emit hOr (wp_fill hD hNot (low_widen _ _) hCtrl hLru))

/-- An operand in a register, and a destination. -/
theorem wp_oneOperand {f : Word → Word} {i : HostReg → Operand → Lir}
    (h : Between cps used c g st) (hRs : rs ≠ 0 → rs ∈ used) (hRd : rd ≠ 0 → rd ∈ used)
    (hStep : ∀ a d st', st'.skip = 0 → step p st' (i d a) =
      .ok (st'.assign d (p.extension.widen (f (low (st'.eval p a)))))) :
    wp (step p) (do
      let a ← gprSrc rs
      let a ← asReg a .r0
      let d ← gprDst rd
      Staged.Emit.emit (i d a)
      gprUnpin) c st fun _ c' st' =>
      Follows cps used (writeGpr g rd (f (g.gpr rs))) c st c' st' := by
  refine wp_bind (wp_mono (wp_gprSrc h.live hRs (by have := h.pins; omega)
    (by have := h.lru; omega)) ?_)
  intro a c₁ st₁ hA
  have hPins : c₁.pins ≤ 3 := by
    have := hA.pins
    have := h.pins
    omega
  have hLru : c₁.lru + 1 < 0xFFFFFFFF := by
    have := hA.lru
    have := h.lru
    omega
  have hCtrl : st₁.regs .ctrl = st.regs .ctrl := hA.keeps.scratch _ (by simp)
  have hRest : ∀ a' st', Live cps used c₁ g st' → Holds c₁ st' (g.gpr rs) a' →
      st'.regs .ctrl = st.regs .ctrl → wp (step p) (do
        let d ← gprDst rd
        Staged.Emit.emit (i d a')
        gprUnpin) c₁ st' fun _ c' st' =>
        Follows cps used (writeGpr g rd (f (g.gpr rs))) c st c' st' := by
    intro a' st' hLive hHolds hCtrl'
    refine wp_bind (wp_mono (wp_gprDst hLive hRd hPins hLru) ?_)
    intro d c₃ st₃ hD
    refine wp_fill hD (hStep a' d st₃ hD.running) ?_ hCtrl' (by have := hA.lru; omega)
    rw [low_widen, (hHolds.keep hD.keeps).low_eval]
  refine wp_bind (wp_asReg hA.holds hA.live.running ?_ ?_)
  · exact hRest a st₁ hA.live hA.holds hCtrl
  · intro x y _ hx
    refine hRest _ _ (hA.live.setReg (by simp) x) (by simpa [Holds] using hx) ?_
    simpa using hCtrl

/-- The shifts that the compiler emits, and what they do. -/
inductive ShiftOp : Op2 → (Word → Nat → Word) → Prop where
  | shl : ShiftOp .shl32 fun x n => x <<< n
  | lshr : ShiftOp .lshr32 fun x n => x >>> n
  | ashr : ShiftOp .ashr32 fun x n => x.sshiftRight n

theorem shiftCount_of_lt {width n : Nat} (b : Operand) (h : n < width) :
    shiftCount width b n = some n := by
  cases b <;> simp [shiftCount, h, Nat.mod_eq_of_lt h]

theorem ShiftOp.apply {op : Op2} {f : Word → Nat → Word} (h : ShiftOp op f) {e : Extension}
    {b : Operand} {x y : BitVec 64} (hCount : shiftCount 32 b (low y).toNat = some (low y).toNat) :
    op.apply e b x y = some (e.widen (f (low x) (low y).toNat)) := by
  cases h <;> simp [Op2.apply, hCount]

theorem toNat_low_zeroExtend (sh : RegIndex) : (low (sh.zeroExtend 64)).toNat = sh.toNat := by
  have := sh.isLt
  simp only [low, BitVec.toNat_setWidth, BitVec.zeroExtend]
  omega

theorem wp_emitShiftImm {op : Op2} {f : Word → Nat → Word} (hOp : ShiftOp op f)
    (h : Between cps used c g st) (hRt : rt ≠ 0 → rt ∈ used) (hRd : rd ≠ 0 → rd ∈ used)
    (sh : RegIndex) :
    wp (step p) (emitShiftImm op rd rt sh) c st fun _ c' st' =>
      Follows cps used (writeGpr g rd (f (g.gpr rt) sh.toNat)) c st c' st' := by
  refine wp_oneOperand (f := fun v => f v sh.toNat) h hRt hRd ?_
  intro a d st' hRunning
  refine step_op2 hRunning d ?_
  have hCount : shiftCount 32 (.imm (sh.zeroExtend 64)) (low (sh.zeroExtend 64)).toNat =
      some (low (sh.zeroExtend 64)).toNat := by
    rw [toNat_low_zeroExtend, shiftCount_of_lt _ sh.isLt]
  simp only [HostState.eval]
  rw [hOp.apply hCount, toNat_low_zeroExtend]

theorem toNat_and_31_lt (x : Word) : (x &&& 31#32).toNat < 32 := by
  rw [BitVec.toNat_and]
  exact lt_of_le_of_lt Nat.and_le_right (by decide)

theorem wp_emitShiftVar {op : Op2} {f : Word → Nat → Word} (hOp : ShiftOp op f)
    (h : Between cps used c g st) (hRs : rs ≠ 0 → rs ∈ used) (hRt : rt ≠ 0 → rt ∈ used)
    (hRd : rd ≠ 0 → rd ∈ used) :
    wp (step p) (emitShiftVar op rd rt rs) c st fun _ c' st' =>
      Follows cps used (writeGpr g rd (f (g.gpr rt) (g.gpr rs &&& 31#32).toNat)) c st c' st' := by
  have hLimit := h.lru
  refine wp_bind (wp_mono (wp_gprSrc h.live hRs (by have := h.pins; omega) (by omega)) ?_)
  intro count c₁ st₁ hCount
  have hPins₁ : c₁.pins ≤ 1 := by
    have := hCount.pins
    have := h.pins
    omega
  have hLru₁ := hCount.lru
  have hCtrl₁ : st₁.regs .ctrl = st.regs .ctrl := hCount.keeps.scratch _ (by simp)
  have hLow := toNat_and_31_lt (g.gpr rs)
  -- the rest, for a count operand that holds the masked count
  have hRest : ∀ b st₂, Live cps used c₁ g st₂ → st₂.regs .ctrl = st.regs .ctrl →
      (∀ (c' : GprCache) (st' : HostState M), (∀ r, r ≠ .r0 → (∀ k, r ≠ .slot k) →
        st'.regs r = st₂.regs r) → low (st'.eval p b) = g.gpr rs &&& 31#32) →
      wp (step p) (do
        let a ← gprSrc rt
        let a ← asReg a .r0
        let d ← gprDst rd
        Staged.Emit.emit (.op2 op d a b)
        gprUnpin) c₁ st₂ fun _ c' st' =>
        Follows cps used (writeGpr g rd (f (g.gpr rt) (g.gpr rs &&& 31#32).toNat)) c st c' st' := by
    intro b st₂ hLive hCtrl hB
    refine wp_bind (wp_mono (wp_gprSrc hLive hRt (by omega) (by omega)) ?_)
    intro a c₃ st₃ hA
    have hPins₃ := hA.pins
    have hLru₃ := hA.lru
    have hFinish : ∀ a' st', Live cps used c₃ g st' → Holds c₃ st' (g.gpr rt) a' →
        (∀ r, r ≠ .r0 → (∀ k, r ≠ .slot k) → st'.regs r = st₂.regs r) →
        wp (step p) (do
          let d ← gprDst rd
          Staged.Emit.emit (.op2 op d a' b)
          gprUnpin) c₃ st' fun _ c' st' =>
          Follows cps used (writeGpr g rd (f (g.gpr rt) (g.gpr rs &&& 31#32).toNat)) c st c'
            st' := by
      intro a' st' hLive' hHolds hScratch
      refine wp_bind (wp_mono (wp_gprDst hLive' hRd (by omega) (by omega)) ?_)
      intro d c₄ st₄ hD
      have hCountValue := hB c₄ st₄ fun r hr hSlot =>
        (hD.keeps.scratch r hSlot).trans (hScratch r hr hSlot)
      have hInRange : shiftCount 32 b (low (st₄.eval p b)).toNat =
          some (low (st₄.eval p b)).toNat := by
        rw [hCountValue, shiftCount_of_lt b hLow]
      refine wp_fill hD (step_op2 hD.running d (hOp.apply hInRange)) ?_
        ((hScratch _ (by simp) (by simp)).trans hCtrl) (by omega)
      rw [low_widen, (hHolds.keep hD.keeps).low_eval, hCountValue]
    refine wp_bind (wp_asReg hA.holds hA.live.running ?_ ?_)
    · exact hFinish a st₃ hA.live hA.holds fun r _ hSlot => hA.keeps.scratch r hSlot
    · intro x y _ hx
      refine hFinish _ _ (hA.live.setReg (by simp) x) (by simpa [Holds] using hx) ?_
      intro r hr hSlot
      rw [HostState.setReg_regs, Function.update_of_ne hr]
      exact hA.keeps.scratch r hSlot
  cases count with
  | imm v =>
      refine hRest _ st₁ hCount.live hCtrl₁ fun c' st' _ => ?_
      have hv : low v = g.gpr rs := hCount.holds
      rw [HostState.eval, ← hv]
      simp [low]
  | mem f => exact hCount.holds.elim
  | reg r =>
      have hAnd : step p st₁ (.op2 .and32 .r1 (.reg r) (.imm 31)) =
          .ok (st₁.assign .r1 (p.extension.widen (g.gpr rs &&& 31#32))) := by
        refine step_op2 hCount.live.running _ ?_
        rw [Op2.apply, hCount.holds.low_eval]
        rfl
      refine wp_bind (wp_emit hAnd ?_)
      refine hRest _ _ ((hCount.live.setReg (by simp) _).setFlags none) ?_ fun c' st' hScratch => ?_
      · simpa using hCtrl₁
      · rw [HostState.eval, hScratch _ (by simp) (by simp)]
        simp

theorem wp_emitSlt {set : FlagType} {cc : Cond} {rhs : Emit Operand} {v : Word}
    (hSet : set = cc.flagType) (h : Between cps used c g st) (hRs : rs ≠ 0 → rs ∈ used)
    (hRd : rd ≠ 0 → rd ∈ used)
    (hRhs : ∀ c₁ st₁, Live cps used c₁ g st₁ → c₁.pins ≤ 1 → c₁.lru ≤ c.lru + 1 →
      wp (step p) rhs c₁ st₁ fun b c₂ st₂ => Live cps used c₂ g st₂ ∧ Keeps c₁ st₁ c₂ st₂ ∧
        Holds c₂ st₂ v b ∧ c₂.pins ≤ c₁.pins + 1 ∧ c₂.lru ≤ c₁.lru + 1) :
    wp (step p) (emitSlt set cc rd rs rhs) c st fun _ c' st' =>
      Follows cps used (writeGpr g rd (ofBool (cc.holds (g.gpr rs) v))) c st c' st' := by
  refine wp_twoOperands h hRs hRhs ?_
  intro a b c₂ st₂ hLive hA hB hCtrl hPins hLru
  refine wp_bind (wp_mono (wp_gprDst hLive hRd (by omega) (by have := h.lru; omega)) ?_)
  intro d c₃ st₃ hD
  have hSub : step p st₃ (.sub32u set a b) =
      .ok { st₃ with flags := some (set, g.gpr rs, v) } := by
    rw [step_of_running hD.running, execute, (hA.keep hD.keeps).low_eval,
      (hB.keep hD.keeps).low_eval]
  have hFlags : step p { st₃ with flags := some (set, g.gpr rs, v) } (.opFlags d cc) =
      .ok { st₃.setReg d (p.extension.widen (ofBool (cc.holds (g.gpr rs) v))) with
        flags := some (set, g.gpr rs, v) } := by
    rw [step_of_running (by exact hD.running)]
    simp only [execute]
    rw [if_pos hSet]
    rfl
  exact wp_bind (wp_emit hSub (wp_fill hD hFlags (low_widen _ _) hCtrl hLru))

theorem wp_emitLogicImm {op : Op2} {f : Word → Word → Word} (h : Between cps used c g st)
    (hRs : rs ≠ 0 → rs ∈ used) (hRt : rt ≠ 0 → rt ∈ used) (imm : BitVec 16)
    (hOp : ∀ b x y, op.apply p.extension b x y = some (p.extension.widen (f (low x) (low y)))) :
    wp (step p) (emitLogicImm op rt rs imm) c st fun _ c' st' =>
      Follows cps used (writeGpr g rt (f (g.gpr rs) (imm.zeroExtend 32))) c st c' st' := by
  refine wp_oneOperand (f := fun v => f v (imm.zeroExtend 32)) h hRs hRt ?_
  intro a d st' hRunning
  refine step_op2 hRunning d ?_
  rw [hOp]
  simp [HostState.eval, low]

theorem low_simm64 (w : Word) : low (simm64 w) = simm w := by
  apply BitVec.eq_of_getLsbD_eq
  intro i hi
  simp only [low, simm64, simm, BitVec.getLsbD_setWidth, BitVec.getLsbD_signExtend]
  simp [hi, show i < 64 by omega]

theorem wp_emitAddi (h : Between cps used c g st) (hRs : rs ≠ 0 → rs ∈ used)
    (hRt : rt ≠ 0 → rt ∈ used) (x : BitVec 64) :
    wp (step p) (emitAddi rt rs x) c st fun _ c' st' =>
      Follows cps used (writeGpr g rt (g.gpr rs + low x)) c st c' st' := by
  have hLimit := h.lru
  refine wp_bind (wp_mono (wp_gprSrc h.live hRs (by have := h.pins; omega) (by omega)) ?_)
  intro a c₁ st₁ hA
  have hPins := hA.pins
  have hLru := hA.lru
  have hCtrl : st₁.regs .ctrl = st.regs .ctrl := hA.keeps.scratch _ (by simp)
  refine wp_bind (wp_mono (wp_gprDst hA.live hRt (by have := h.pins; omega) (by omega)) ?_)
  intro d c₂ st₂ hD
  have hHolds := hA.holds.keep hD.keeps
  cases a with
  | imm v =>
      have hv : low v = g.gpr rs := hHolds
      refine wp_fill hD (step_op1_reg hD.running _ _ _) ?_ hCtrl (by omega)
      rw [Op1.apply, low_widen, HostState.eval, ← hv]
      simp [low, BitVec.setWidth_add]
  | mem f => exact hHolds.elim
  | reg r =>
      refine wp_fill hD (step_op2 hD.running d rfl) ?_ hCtrl (by omega)
      rw [low_widen, hHolds.low_eval]
      rfl

/-- A destination that is filled in an instruction without operands. -/
theorem wp_emitDst {i : HostReg → Lir} {v : Word} (h : Between cps used c g st)
    (hRd : rd ≠ 0 → rd ∈ used)
    (hStep : ∀ d st', st'.skip = 0 → SameRest st'.cpu g → ∃ x, low x = v ∧
      step p st' (i d) = .ok (st'.setReg d x)) :
    wp (step p) (do
      let d ← gprDst rd
      Staged.Emit.emit (i d)) c st fun _ c' st' =>
      Follows cps used (writeGpr g rd v) c st c' st' := by
  have hPins := h.pins
  refine wp_bind (wp_mono (wp_gprDst h.live hRd (by omega) (by have := h.lru; omega)) ?_)
  intro d c₁ st₁ hD
  have hRest : SameRest st₁.cpu g := by
    have hR := (hD.ready 0).rest
    exact ⟨hR.hi, hR.lo, hR.cop0, hR.gteData, hR.gteCtrl, hR.mem⟩
  obtain ⟨x, rfl, hx⟩ := hStep d st₁ hD.running hRest
  refine wp_emit hx ⟨hD.ready x, ?_, ?_, ?_⟩
  · rw [HostState.setReg_regs, Function.update_of_ne hD.notCtrl.symm]
    exact hD.keeps.scratch _ (by simp)
  · have := hD.pins
    omega
  · have := hD.lru
    omega

/-- `hi` or `lo` written in memory, which the cache does not hold. -/
theorem LiveExcept.setHiLo {hole : Option Nat} (h : LiveExcept cps used hole c g st)
    (hi lo : Word) :
    LiveExcept cps used hole c { g with hi := hi, lo := lo }
      { st with cpu := { st.cpu with hi := hi, lo := lo } } :=
  h.setRest rfl rfl rfl ⟨rfl, rfl, h.rest.cop0, h.rest.gteData, h.rest.gteCtrl, h.rest.mem⟩

theorem wp_emitMoveTo {f : Field} (h : Between cps used c g st) (hRs : rs ≠ 0 → rs ∈ used)
    (hField : f = .hi ∨ f = .lo) :
    wp (step p) (emitMoveTo f rs) c st fun _ c' st' =>
      Follows cps used (f.write g (g.gpr rs)) c st c' st' := by
  refine wp_bind (wp_mono (wp_gprSrc h.live hRs (by have := h.pins; omega)
    (by have := h.lru; omega)) ?_)
  intro a c₁ st₁ hA
  have hLru := hA.lru
  have hWrite : ∀ a' st', Live cps used c₁ g st' → Holds c₁ st' (g.gpr rs) a' →
      st'.regs .ctrl = st.regs .ctrl →
      wp (step p) (do Staged.Emit.emit (.op1 .mov32 (.mem f) a'); gprUnpin) c₁ st' fun _ c' st' =>
        Follows cps used (f.write g (g.gpr rs)) c st c' st' := by
    intro a' st' hLive hHolds hCtrl
    refine wp_bind (wp_emit (step_op1_mem hLive.running _ _ _) ?_)
    rw [Op1.apply, low_widen, hHolds.low_eval]
    refine wp_gprUnpin ?_ hCtrl (by omega)
    rcases hField with rfl | rfl
    · have hSet := hLive.setHiLo (g.gpr rs) g.lo
      rwa [show ({ st'.cpu with hi := g.gpr rs, lo := g.lo } : CPUState M) =
        { st'.cpu with hi := g.gpr rs } by rw [← hLive.rest.lo]] at hSet
    · have hSet := hLive.setHiLo g.hi (g.gpr rs)
      rwa [show ({ st'.cpu with hi := g.hi, lo := g.gpr rs } : CPUState M) =
        { st'.cpu with lo := g.gpr rs } by rw [← hLive.rest.hi]] at hSet
  have hCtrl : st₁.regs .ctrl = st.regs .ctrl := hA.keeps.scratch _ (by simp)
  refine wp_bind (wp_asReg hA.holds hA.live.running ?_ ?_)
  · exact hWrite a st₁ hA.live hA.holds hCtrl
  · intro x y _ hx
    exact hWrite _ _ (hA.live.setReg (by simp) x) (by simpa [Holds] using hx) (by simpa using hCtrl)

/-- Both operands are in their scratch registers, and the guest is as it was. -/
theorem wp_emitOperands {ext : Op1} {f : Word → BitVec 64} (h : Between cps used c g st)
    (hRs : rs ≠ 0 → rs ∈ used) (hRt : rt ≠ 0 → rt ∈ used)
    (hExt : ∀ x, ext.apply p.extension x = f (low x)) :
    wp (step p) (emitOperands ext rs rt) c st fun _ c' st' =>
      Follows cps used g c st c' st' ∧ st'.regs .r0 = f (g.gpr rs) ∧
        st'.regs .r1 = f (g.gpr rt) := by
  have hLimit := h.lru
  refine wp_bind (wp_mono (wp_gprSrc h.live hRs (by have := h.pins; omega) (by omega)) ?_)
  intro a c₁ st₁ hA
  have hPins := hA.pins
  have hLru := hA.lru
  refine wp_bind (wp_emit (step_op1_reg hA.live.running _ _ _) ?_)
  rw [hExt, hA.holds.low_eval]
  have hLive₁ : Live cps used c₁ g (st₁.setReg .r0 (f (g.gpr rs))) := hA.live.setReg (by simp) _
  refine wp_bind (wp_mono (wp_gprSrc hLive₁ hRt (by have := h.pins; omega) (by omega)) ?_)
  intro b c₂ st₂ hB
  have hLru₂ := hB.lru
  refine wp_bind (wp_emit (step_op1_reg hB.live.running _ _ _) ?_)
  rw [hExt, hB.holds.low_eval]
  have hR0 : st₂.regs .r0 = f (g.gpr rs) := by
    rw [hB.keeps.scratch _ (by simp)]
    simp
  have hCtrl : st₂.regs .ctrl = st.regs .ctrl := by
    rw [hB.keeps.scratch _ (by simp)]
    simpa using hA.keeps.scratch .ctrl (by simp)
  refine wp_modify ⟨⟨(hB.live.setReg (by simp) _).unpin, ?_, pins_unpin _, ?_⟩, ?_, by simp⟩
  · simpa using hCtrl
  · show c₂.lru ≤ _
    omega
  · simpa using hR0

theorem low_eq_extractLsb' (x : BitVec 64) : low x = x.extractLsb' 0 32 := by
  apply BitVec.eq_of_getLsbD_eq
  intro i hi
  simp [low, hi]

theorem low_ushiftRight_32 (x : BitVec 64) : low (x >>> 32) = x.extractLsb' 32 32 := by
  apply BitVec.eq_of_getLsbD_eq
  intro i hi
  simp [low, hi]

theorem wp_emitMult {ext : Op1} {f : Word → BitVec 64} (h : Between cps used c g st)
    (hRs : rs ≠ 0 → rs ∈ used) (hRt : rt ≠ 0 → rt ∈ used)
    (hExt : ∀ x, ext.apply p.extension x = f (low x)) :
    wp (step p) (emitMult ext rs rt) c st fun _ c' st' =>
      Follows cps used { g with
        hi := (f (g.gpr rs) * f (g.gpr rt)).extractLsb' 32 32
        lo := (f (g.gpr rs) * f (g.gpr rt)).extractLsb' 0 32 } c st c' st' := by
  refine wp_bind (wp_mono (wp_emitOperands h hRs hRt hExt) ?_)
  rintro _ c₁ st₁ ⟨hF, hR0, hR1⟩
  have hRunning := hF.live.running
  generalize hProduct : f (g.gpr rs) * f (g.gpr rt) = x
  have hMul : step p st₁ (.op2 .mul .r0 (.reg .r0) (.reg .r1)) = .ok (st₁.assign .r0 x) := by
    refine step_op2 hRunning _ ?_
    simp only [Op2.apply, HostState.eval]
    rw [hR0, hR1, hProduct]
  refine wp_bind (wp_emit hMul (wp_bind (wp_emit (step_op1_mem (by exact hRunning) _ _ _) ?_)))
  refine wp_bind (wp_emit (step_op2 (by exact hRunning) _ rfl) ?_)
  refine wp_emit (step_op1_mem (by exact hRunning) _ _ _) ⟨?_, ?_, hF.pins, hF.lru⟩
  · have hLive := ((hF.live.setReg (r := .r0) (by simp) (x >>> 32)).setFlags none).setHiLo
      (x.extractLsb' 32 32) (x.extractLsb' 0 32)
    rw [← low_eq_extractLsb', ← low_ushiftRight_32] at hLive ⊢
    simpa [HostState.eval, HostState.assign, HostState.setReg, Field.write, Op1.apply] using hLive
  · simpa [HostState.assign, HostState.setReg] using hF.ctrl

/-- What a division leaves in `lo` and `hi`; other registers than the scratch
ones are as they were. -/
structure Divides (st : HostState M) (lo hi : Word) (st' : HostState M) : Prop where
  regs : ∀ r, r ≠ .r0 → r ≠ .r1 → r ≠ .r2 → st'.regs r = st.regs r
  skip : st'.skip = 0
  cpu : st'.cpu = { st.cpu with hi := hi, lo := lo }

theorem runsTo_skip {code : List Lir} {Q : HostState M → Prop} {k : Nat} (hk : st.skip = k)
    (hLength : k ≤ code.length) (h : RunsTo (step p) (code.drop k) { st with skip := 0 } Q) :
    RunsTo (step p) code st Q := by
  induction k generalizing code st with
  | zero =>
      rw [show st = { st with skip := 0 } by rw [← hk]]
      exact h
  | succ k ih =>
      cases code with
      | nil => simp at hLength
      | cons i rest =>
          have hStep : step p st i = .ok { st with skip := k } := by rw [step, hk]
          exact .cons hStep (ih rfl (by simpa using hLength) h)

theorem runsTo_cmpSkip32_taken {code : List Lir} {Q : HostState M → Prop} {cc : Cond}
    {a b : Operand} {k : Nat} (hRunning : st.skip = 0)
    (hHolds : cc.holds (low (st.eval p a)) (low (st.eval p b)) = true) (hLength : k ≤ code.length)
    (h : RunsTo (step p) (code.drop k) { st with flags := none } Q) :
    RunsTo (step p) (.cmpSkip32 cc a b k :: code) st Q := by
  refine .cons (step_of_running hRunning _) (runsTo_skip (k := k) (if_pos hHolds) hLength ?_)
  rwa [← hRunning]

theorem runsTo_cmpSkip32_not {code : List Lir} {Q : HostState M → Prop} {cc : Cond}
    {a b : Operand} {k : Nat} (hRunning : st.skip = 0)
    (hHolds : cc.holds (low (st.eval p a)) (low (st.eval p b)) = false)
    (h : RunsTo (step p) code { st with flags := none } Q) :
    RunsTo (step p) (.cmpSkip32 cc a b k :: code) st Q := by
  refine .cons (step_of_running hRunning _) (runsTo_skip (k := 0) ?_ (Nat.zero_le _) ?_)
  · simp [hHolds]
  · rw [hRunning] at h
    exact h

theorem runsTo_end {code : List Lir} {Q : HostState M → Prop} {k : Nat} (hRunning : st.skip = 0)
    (hk : code.length = k) (h : Q st) : RunsTo (step p) (.skip k :: code) st Q := by
  subst hk
  refine .cons (step_of_running hRunning _) (runsTo_skip rfl (Nat.le_refl _) ?_)
  rw [List.drop_length, show ({ st with skip := 0 } : HostState M) = st by rw [← hRunning]]
  exact .nil h

theorem Divides.of_same {st₁ st' : HostState M} {lo hi : Word} (h : Divides st₁ lo hi st')
    (hRegs : st₁.regs = st.regs) (hCpu : st₁.cpu = st.cpu) : Divides st lo hi st' :=
  ⟨hRegs ▸ h.regs, h.skip, hCpu ▸ h.cpu⟩

theorem runsTo_divByZero (hRunning : st.skip = 0) :
    RunsTo (step p) (divCode.drop 10) st (Divides st
      (if (low (st.regs .r0)).slt 0 then 1 else 0xFFFFFFFF#32) (low (st.regs .r0))) := by
  refine .cons (step_of_running hRunning _) ?_
  refine .cons (step_of_running (by exact hRunning) _) ?_
  refine .cons (step_op2 (by exact hRunning) _ rfl) ?_
  refine .cons (step_op2 (by exact hRunning) _ rfl) ?_
  refine .cons (step_op1_mem (by exact hRunning) _ _ _) ?_
  refine .cons (step_op1_mem (by exact hRunning) _ _ _) (.nil ?_)
  refine ⟨?_, hRunning, ?_⟩
  · intro r _ _ hr
    simp [HostState.setReg, Function.update_of_ne hr]
  · cases hSign : (low (st.regs .r0)).slt 0#32 with
    | true =>
        simp [HostState.eval, HostState.setReg, Field.write, Op1.apply, Cond.holds, hSign, ofBool]
    | false =>
        simp [HostState.eval, HostState.setReg, Field.write, Op1.apply, Cond.holds, hSign, ofBool]

theorem runsTo_quotient (hRunning : st.skip = 0) {q r : Word}
    (hDiv : divmod true (low (st.regs .r0)) (low (st.regs .r1)) = some (q, r)) :
    RunsTo (step p) (divCode.drop 6) st (Divides st q r) := by
  have hStep : step p st (.divmod32 true) =
      .ok ((st.assign .r0 (p.extension.widen q)).assign .r1 (p.extension.widen r)) := by
    rw [step_of_running hRunning]
    simp only [execute, hDiv]
  refine .cons hStep ?_
  refine .cons (step_op1_mem (by exact hRunning) _ _ _) ?_
  refine .cons (step_op1_mem (by exact hRunning) _ _ _) ?_
  refine runsTo_end (by exact hRunning) rfl ⟨?_, hRunning, ?_⟩
  · intro s hr0 hr1 _
    simp [HostState.assign, HostState.setReg, Function.update_of_ne hr0, Function.update_of_ne hr1]
  · simp [HostState.eval, HostState.assign, HostState.setReg, Field.write, Op1.apply]

theorem runsTo_overflow (hRunning : st.skip = 0) :
    RunsTo (step p) (divCode.drop 3) st (Divides st 0x80000000#32 0) := by
  refine .cons (step_op1_mem hRunning _ _ _) ?_
  refine .cons (step_op1_mem (by exact hRunning) _ _ _) ?_
  refine runsTo_end (by exact hRunning) rfl ⟨fun _ _ _ _ => rfl, hRunning, ?_⟩
  simp [HostState.eval, Field.write, Op1.apply]

/-- What a signed division leaves in `lo` and `hi`. -/
def divResult (a b : Word) : Word × Word :=
  if b = 0 then (if a.slt 0 then 1 else 0xFFFFFFFF#32, a)
  else if isIntMin a && b == 0xFFFFFFFF#32 then (0x80000000#32, 0)
  else (a.sdiv b, a.srem b)

theorem runsTo_divCode (hRunning : st.skip = 0) {a b : Word} (hA : low (st.regs .r0) = a)
    (hB : low (st.regs .r1) = b) :
    RunsTo (step p) divCode st (Divides st (divResult a b).1 (divResult a b).2) := by
  by_cases hZero : b = 0
  · refine runsTo_cmpSkip32_taken hRunning (by simp [Cond.holds, HostState.eval, hB, hZero])
      (by decide) ?_
    rw [divResult, if_pos hZero, ← hA]
    exact (runsTo_divByZero (by exact hRunning)).mono fun _ h => h.of_same rfl rfl
  · refine runsTo_cmpSkip32_not hRunning (by simpa [Cond.holds, HostState.eval, hB] using hZero) ?_
    -- the quotient, once one of the two guards has excluded the overflow
    have hQuotient : ∀ st₁ : HostState M, st₁.skip = 0 → st₁.regs = st.regs → st₁.cpu = st.cpu →
        ¬(isIntMin a && b == 0xFFFFFFFF#32) = true →
        RunsTo (step p) (divCode.drop 6) st₁
          (Divides st (divResult a b).1 (divResult a b).2) := by
      intro st₁ hRunning₁ hRegs hCpu hNoOverflow
      rw [divResult, if_neg hZero, if_neg hNoOverflow]
      refine (runsTo_quotient hRunning₁ ?_).mono fun _ h => h.of_same hRegs hCpu
      rw [hRegs, hA, hB, divmod, if_neg hZero, if_pos rfl, if_neg hNoOverflow]
    by_cases hMin : a = 0x80000000#32
    · refine runsTo_cmpSkip32_not (by exact hRunning)
        (by simp [Cond.holds, HostState.eval, hA, hMin]) ?_
      by_cases hMinusOne : b = 0xFFFFFFFF#32
      · refine runsTo_cmpSkip32_not (by exact hRunning)
          (by simp [Cond.holds, HostState.eval, hB, hMinusOne]) ?_
        rw [divResult, if_neg hZero, if_pos (by simp [isIntMin, hMin, hMinusOne])]
        exact (runsTo_overflow (by exact hRunning)).mono fun _ h => h.of_same rfl rfl
      · exact runsTo_cmpSkip32_taken (by exact hRunning)
          (by simpa [Cond.holds, HostState.eval, hB] using hMinusOne) (by decide)
          (hQuotient _ hRunning rfl rfl (by simp [hMinusOne]))
    · exact runsTo_cmpSkip32_taken (by exact hRunning)
        (by simpa [Cond.holds, HostState.eval, hA] using hMin) (by decide)
        (hQuotient _ hRunning rfl rfl (by simp [isIntMin, hMin]))

theorem runsTo_divuCode (hRunning : st.skip = 0) {a b : Word} (hA : low (st.regs .r0) = a)
    (hB : low (st.regs .r1) = b) :
    RunsTo (step p) divuCode st (Divides st (if b = 0 then 0xFFFFFFFF#32 else a / b)
      (if b = 0 then a else a % b)) := by
  by_cases hZero : b = 0
  · refine runsTo_cmpSkip32_taken hRunning (by simp [Cond.holds, HostState.eval, hB, hZero])
      (by decide) ?_
    refine .cons (step_op1_mem (by exact hRunning) _ _ _) ?_
    refine .cons (step_op1_mem (by exact hRunning) _ _ _) (.nil ?_)
    rw [if_pos hZero, if_pos hZero]
    refine ⟨fun _ _ _ _ => rfl, hRunning, ?_⟩
    simp [HostState.eval, Field.write, Op1.apply, hA]
  · refine runsTo_cmpSkip32_not hRunning (by simpa [Cond.holds, HostState.eval, hB] using hZero) ?_
    have hStep : step p { st with flags := none } (.divmod32 false) =
        .ok ((HostState.assign { st with flags := none } .r0 (p.extension.widen (a / b))).assign .r1
          (p.extension.widen (a % b))) := by
      rw [step_of_running (by exact hRunning)]
      simp only [execute, hA, hB, divmod, if_neg hZero]
      rfl
    refine .cons hStep ?_
    refine .cons (step_op1_mem (by exact hRunning) _ _ _) ?_
    refine .cons (step_op1_mem (by exact hRunning) _ _ _) ?_
    rw [if_neg hZero, if_neg hZero]
    refine runsTo_end (by exact hRunning) rfl ⟨?_, hRunning, ?_⟩
    · intro s hr0 hr1 _
      simp [Function.update_of_ne hr0, Function.update_of_ne hr1]
    · simp [HostState.eval, Field.write, Op1.apply]

theorem wp_emitDiv {code : List Lir} {lo hi : Word} (h : Between cps used c g st)
    (hRs : rs ≠ 0 → rs ∈ used) (hRt : rt ≠ 0 → rt ∈ used)
    (hCode : ∀ st₁ : HostState M, st₁.skip = 0 → low (st₁.regs .r0) = g.gpr rs →
      low (st₁.regs .r1) = g.gpr rt → RunsTo (step p) code st₁ (Divides st₁ lo hi)) :
    wp (step p) (emitDiv code rs rt) c st fun _ c' st' =>
      Follows cps used { g with hi := hi, lo := lo } c st c' st' := by
  refine wp_bind (wp_mono (wp_emitOperands (f := p.extension.widen) h hRs hRt fun _ => rfl) ?_)
  rintro _ c₁ st₁ ⟨hF, hR0, hR1⟩
  refine wp_emitAll ((hCode st₁ hF.live.running ?_ ?_).mono ?_)
  · rw [hR0, low_widen]
  · rw [hR1, low_widen]
  · intro st' hDiv
    refine ⟨?_, ?_, hF.pins, hF.lru⟩
    · have hSet := hF.live.setHiLo hi lo
      have hRegs : Live cps used c₁ { g with hi := hi, lo := lo }
          { st' with skip := st₁.skip, flags := st₁.flags } := by
        rw [hDiv.cpu]
        exact hSet.setRegs st'.regs fun k => hDiv.regs _ (by simp) (by simp) (by simp)
      rw [show st' = { st' with flags := st'.flags, skip := 0 } by rw [← hDiv.skip]]
      rw [hF.live.running] at hRegs
      exact hRegs.setFlags st'.flags
    · rw [hDiv.regs _ (by simp) (by simp) (by simp), hF.ctrl]

/-- The address is in `R0`, and nothing that stands for the guest has changed. -/
theorem wp_emitAddr {a : Operand} {v : Word} (hLive : Live cps used c g st)
    (hHolds : Holds c st v a) (x : BitVec 64) :
    wp (step p) (emitAddr a x) c st fun _ c' st' => c' = c ∧ Live cps used c g st' ∧
      low (st'.regs .r0) = v + low x ∧ st'.regs .ctrl = st.regs .ctrl := by
  have hRunning := hLive.running
  refine wp_bind (wp_emit (step_op1_reg hRunning _ _ _) ?_)
  rw [Op1.apply, hHolds.low_eval]
  by_cases hx : x = 0
  · rw [if_neg (not_not.mpr hx)]
    exact wp_pure ⟨rfl, hLive.setReg (by simp) _, by simp [hx], by simp⟩
  · rw [if_pos hx]
    refine wp_emit (step_op2 (by exact hRunning) _ rfl) ⟨rfl, ?_, ?_, ?_⟩
    · exact ((hLive.setReg (by simp) _).setReg (by simp) _).setFlags none
    · simp [HostState.eval]
    · simp

/-- A call that reaches the memory behind the bus only. -/
theorem LiveExcept.afterCall {hole : Option Nat} (h : LiveExcept cps used hole c g st)
    (result : Word) (m : M) :
    LiveExcept cps used hole c { g with mem := m }
      { st with
        regs := Sljit.afterCall p st.regs result
        flags := none
        cpu := { st.cpu with mem := m } } := by
  have hMem : LiveExcept cps used hole c { g with mem := m }
      { st with cpu := { st.cpu with mem := m } } :=
    h.setRest rfl rfl rfl
      ⟨h.rest.hi, h.rest.lo, h.rest.cop0, h.rest.gteData, h.rest.gteCtrl, rfl⟩
  exact (hMem.setRegs (Sljit.afterCall p st.regs result) fun _ => rfl).setFlags none

/-- The read that a load makes, and the extension of what it returns. -/
structure LoadsAs (p : Platform M) (f : HostCall) (ext : Op1) (kind : LoadKind) : Prop where
  value : ∀ st : HostState M, low (ext.apply p.extension (p.extension.widen (f.perform p st).1)) =
    (busLoad p.host.bus kind (low (st.regs .r0)) st.cpu.mem).1
  cpu : ∀ st : HostState M, (f.perform p st).2 =
    { st.cpu with mem := (busLoad p.host.bus kind (low (st.regs .r0)) st.cpu.mem).2 }

theorem wp_emitLoad {f : HostCall} {ext : Op1} {kind : LoadKind} (hLoads : LoadsAs p f ext kind)
    (h : Between cps used c g st) (hRs : rs ≠ 0 → rs ∈ used) (hRt : rt ≠ 0 → rt ∈ used)
    (x : BitVec 64) :
    wp (step p) (emitLoad f ext rt rs x) c st fun _ c' st' =>
      Follows cps used (writeGpr
        { g with mem := (busLoad p.host.bus kind (g.gpr rs + low x) g.mem).2 } rt
        (busLoad p.host.bus kind (g.gpr rs + low x) g.mem).1) c st c' st' := by
  have hLimit := h.lru
  refine wp_bind (wp_mono (wp_gprSrc h.live hRs (by have := h.pins; omega) (by omega)) ?_)
  intro a c₁ st₁ hA
  have hPins := hA.pins
  have hLru := hA.lru
  have hCtrl₁ : st₁.regs .ctrl = st.regs .ctrl := hA.keeps.scratch _ (by simp)
  refine wp_bind (wp_mono (wp_emitAddr hA.live hA.holds x) ?_)
  rintro _ c₂ st₂ ⟨rfl, hLive, hAddr, hCtrl⟩
  refine wp_bind (wp_emit (step_of_running hLive.running _) ?_)
  have hValue := hLoads.value st₂
  have hMem : st₂.cpu.mem = g.mem := hLive.rest.mem
  rw [hAddr, hMem] at hValue
  dsimp only
  rw [hLoads.cpu st₂, hAddr, hMem]
  generalize busLoad p.host.bus kind (g.gpr rs + low x) g.mem = loaded at hValue ⊢
  have hLive₂ := hLive.afterCall (p := p) (f.perform p st₂).1 loaded.2
  -- the rest, from a state that has the extended value in `R0`
  have hRest : ∀ st', Live cps used c₂ { g with mem := loaded.2 } st' →
      low (st'.regs .r0) = loaded.1 → st'.regs .ctrl = st.regs .ctrl →
      wp (step p) (do
        let d ← gprDst rt
        Staged.Emit.emit (.op1 .mov32 (.reg d) (.reg .r0))
        gprUnpin) c₂ st' fun _ c' st' =>
        Follows cps used (writeGpr { g with mem := loaded.2 } rt loaded.1) c st c' st' := by
    intro st' hLive' hR0 hCtrl'
    refine wp_bind (wp_mono (wp_gprDst hLive' hRt (by have := h.pins; omega) (by omega)) ?_)
    intro d c₄ st₄ hD
    refine wp_fill hD (step_op1_reg hD.running _ _ _) ?_ hCtrl' (by omega)
    rw [Op1.apply, low_widen, HostState.eval, hD.keeps.scratch _ (by simp), hR0]
  by_cases hExt : ext = .mov32
  · rw [if_neg (not_not.mpr hExt)]
    refine hRest _ hLive₂ ?_ (hCtrl.trans hCtrl₁)
    simpa [hExt, Op1.apply, afterCall] using hValue
  · rw [if_pos hExt]
    refine wp_bind (wp_emit (step_op1_reg hLive₂.running _ _ _) ?_)
    refine hRest _ (hLive₂.setReg (by simp) _) ?_ ?_
    · simpa [HostState.eval, afterCall] using hValue
    · simpa [afterCall] using hCtrl.trans hCtrl₁

/-- The write that a store makes. -/
def StoresAs (p : Platform M) (f : HostCall) (width : Width) : Prop :=
  ∀ st : HostState M, (f.perform p st).2 = { st.cpu with
    mem := busStore p.host.bus width st.cpu.sr (low (st.regs .r0)) (low (st.regs .r1))
      st.cpu.mem }

theorem wp_emitStore {f : HostCall} {width : Width} (hStores : StoresAs p f width)
    (h : Between cps used c g st) (hRs : rs ≠ 0 → rs ∈ used) (hRt : rt ≠ 0 → rt ∈ used)
    (x : BitVec 64) :
    wp (step p) (emitStore f rt rs x) c st fun _ c' st' =>
      Follows cps used { g with
        mem := busStore p.host.bus width g.sr (g.gpr rs + low x)
            (g.gpr rt) g.mem } c st c' st' := by
  have hLimit := h.lru
  refine wp_bind (wp_mono (wp_gprSrc h.live hRs (by have := h.pins; omega) (by omega)) ?_)
  intro a c₁ st₁ hA
  have hPins := hA.pins
  have hLru := hA.lru
  have hCtrl₁ : st₁.regs .ctrl = st.regs .ctrl := hA.keeps.scratch _ (by simp)
  refine wp_bind (wp_mono (wp_emitAddr hA.live hA.holds x) ?_)
  rintro _ c₂ st₂ ⟨rfl, hLive, hAddr, hCtrl⟩
  refine wp_bind (wp_mono (wp_gprSrc hLive hRt (by have := h.pins; omega) (by omega)) ?_)
  intro b c₃ st₃ hB
  have hLru₃ := hB.lru
  refine wp_bind (wp_emit (step_op1_reg hB.live.running _ _ _) ?_)
  rw [Op1.apply, hB.holds.low_eval]
  have hLive₃ := hB.live.setReg (r := .r1) (by simp) (p.extension.widen (g.gpr rt))
  refine wp_bind (wp_emit (step_of_running hLive₃.running _) ?_)
  rw [hStores]
  have hR0 : st₃.regs .r0 = st₂.regs .r0 := hB.keeps.scratch _ (by simp)
  have hSr : st₃.cpu.sr = g.sr := by rw [CPUState.sr, hB.live.rest.cop0, CPUState.sr]
  simp only [HostState.setReg_regs, HostState.setReg_cpu, Function.update_self, low_widen, ne_eq,
    reduceCtorEq, not_false_eq_true, Function.update_of_ne, hR0, hAddr, hSr, hB.live.rest.mem]
  refine wp_gprUnpin (hLive₃.afterCall (p := p) _ _) ?_ (by omega)
  simp only [afterCall]
  rw [Function.update_of_ne (by simp), hB.keeps.scratch _ (by simp), hCtrl, hCtrl₁]

theorem setWidth_widen (e : Extension) (w : Word) {k : Nat} (hk : k ≤ 32) :
    (e.widen w).setWidth k = w.setWidth k := by
  rw [← BitVec.setWidth_setWidth_of_le (e.widen w) hk]
  exact congrArg _ (low_widen e w)

theorem low_signExtend {k : Nat} (b : BitVec k) : low (b.signExtend 64) = b.signExtend 32 := by
  apply BitVec.eq_of_getLsbD_eq
  intro i hi
  simp only [low, BitVec.getLsbD_setWidth, BitVec.getLsbD_signExtend]
  simp [hi, show i < 64 by omega]

theorem low_zeroExtend {k : Nat} (b : BitVec k) : low (b.zeroExtend 64) = b.zeroExtend 32 := by
  apply BitVec.eq_of_getLsbD_eq
  intro i hi
  simp only [low, BitVec.zeroExtend, BitVec.getLsbD_setWidth]
  simp [hi, show i < 64 by omega]

theorem loadsAs_word : LoadsAs p .readWord .mov32 .word :=
  ⟨fun _ => by simp [Op1.apply, HostCall.perform, busLoad], fun _ => rfl⟩

theorem loadsAs_half : LoadsAs p .readHalf .movS16 .half :=
  ⟨fun _ => by simp [Op1.apply, HostCall.perform, busLoad, setWidth_widen, low_signExtend],
    fun _ => rfl⟩

theorem loadsAs_halfUnsigned : LoadsAs p .readHalf .movU16 .halfUnsigned :=
  ⟨fun _ => by
    rw [Op1.apply, low_zeroExtend, setWidth_widen _ _ (by omega)]
    simp [HostCall.perform, busLoad], fun _ => rfl⟩

theorem loadsAs_byte : LoadsAs p .readByte .movS8 .byte :=
  ⟨fun _ => by simp [Op1.apply, HostCall.perform, busLoad, setWidth_widen, low_signExtend],
    fun _ => rfl⟩

theorem loadsAs_byteUnsigned : LoadsAs p .readByte .movU8 .byteUnsigned :=
  ⟨fun _ => by
    rw [Op1.apply, low_zeroExtend, setWidth_widen _ _ (by omega)]
    simp [HostCall.perform, busLoad], fun _ => rfl⟩

/-- Memory that has all registers of the guest is the guest, but for the program
counter. -/
theorem cpu_eq {s : CPUState M} (hGpr : s.gpr = g.gpr) (hRest : SameRest s g) :
    s = { g with pc := s.pc } := by
  obtain ⟨gpr, pc, hi, lo, cop0, gteData, gteCtrl, mem⟩ := s
  obtain ⟨h₁, h₂, h₃, h₄, h₅, h₆⟩ := hRest
  simp only at hGpr h₁ h₂ h₃ h₄ h₅ h₆
  subst hGpr h₁ h₂ h₃ h₄ h₅ h₆
  rfl

/-- A helper that works on the whole state is run on the guest. -/
theorem wp_emitHelper2 {f : HostCall} {insn : Word} {helper : CPUState M → CPUState M}
    (hPerform : ∀ st : HostState M, low (st.regs .r1) = insn →
      (f.perform p st).2 = helper st.cpu)
    (hPc : ∀ q, helper { g with pc := q } = { helper g with pc := q })
    (hZero : (helper g).gpr 0 = 0) (h : Between cps used c g st) :
    wp (step p) (emitHelper2 f insn) c st fun _ c' st' =>
      Follows cps used (helper g) c st c' st' := by
  refine wp_bind (wp_mono (wp_gprFlush h.live) ?_)
  intro _ c₁ st₁ hFlush
  have hCpu := cpu_eq hFlush.gpr hFlush.live.rest
  refine wp_bind (wp_emit (step_op1_reg hFlush.live.running _ _ _) ?_)
  have hInsn :
      low (Op1.mov32.apply p.extension (st₁.eval p (.imm (insn.zeroExtend 64)))) = insn := by
    simp [Op1.apply, HostState.eval, low_zeroExtend]
  generalize Op1.mov32.apply p.extension (st₁.eval p (.imm (insn.zeroExtend 64))) = x at hInsn ⊢
  refine wp_bind (wp_emit (step_of_running (by exact hFlush.live.running) _) ?_)
  rw [hPerform _ (by simpa using hInsn), HostState.setReg_cpu, hCpu, hPc]
  refine wp_modify ⟨.reset hFlush.live.wf rfl ⟨rfl, rfl, rfl, rfl, rfl, rfl⟩ hZero ?_ ?_, ?_,
    pins_reset _, ?_⟩
  · intro hCps
    exact hFlush.live.pc hCps
  · exact hFlush.live.running
  · simp [afterCall, hFlush.host.regs]
  · rw [hFlush.cache]
    exact Nat.le_add_right _ _

theorem sljitCop2_setPc (h : Host M) (w q : Word) (s : CPUState M) :
    sljitCop2 h w { s with pc := q } = { sljitCop2 h w s with pc := q } := by
  unfold sljitCop2
  cases Op.ofWord w with
  | cop2 =>
      dsimp only
      split
      · rfl
      · split
        · rfl
        · split
          · rfl
          · split
            · rfl
            · split <;> rfl
  | _ => rfl

theorem sljitMemx_setPc (h : Host M) (w q : Word) (s : CPUState M) :
    sljitMemx h w { s with pc := q } = { sljitMemx h w s with pc := q } := by
  unfold sljitMemx
  cases Op.ofWord w <;> rfl

variable {w pc : Word}

theorem execDiv_eq (g : CPUState M) (w : Word) :
    execDiv g w = { g with
      hi := (divResult (g.gpr (Insn.rs w)) (g.gpr (Insn.rt w))).2
      lo := (divResult (g.gpr (Insn.rs w)) (g.gpr (Insn.rt w))).1 } := by
  simp only [execDiv, divResult]
  split
  · rfl
  · split <;> rfl

theorem execDivu_eq (g : CPUState M) (w : Word) :
    execDivu g w = { g with
      hi := if g.gpr (Insn.rt w) = 0 then g.gpr (Insn.rs w)
        else g.gpr (Insn.rs w) % g.gpr (Insn.rt w)
      lo := if g.gpr (Insn.rt w) = 0 then 0xFFFFFFFF#32
        else g.gpr (Insn.rs w) / g.gpr (Insn.rt w) } := by
  simp only [execDivu]
  split <;> rfl

/-- The helper for the coprocessor does what the interpreter does, on every
operation that the interpreter has. -/
theorem sljitCop2_eq {h : Host M} (hOp : Op.ofWord w = .cop2)
    (hExec : execCop2 h g w = .advance g') : sljitCop2 h w g = g' := by
  unfold execCop2 at hExec
  simp only [sljitCop2, hOp]
  split at hExec
  · next h₀ => rw [if_pos h₀]; exact ExecResult.advance.inj hExec
  · next h₀ =>
    rw [if_neg h₀]
    split at hExec
    · next h₁ => rw [if_pos h₁]; exact ExecResult.advance.inj hExec
    · next h₁ =>
      rw [if_neg h₁]
      split at hExec
      · next h₂ => rw [if_pos h₂]; exact ExecResult.advance.inj hExec
      · next h₂ =>
        rw [if_neg h₂]
        split at hExec
        · next h₃ => rw [if_pos h₃]; exact ExecResult.advance.inj hExec
        · next h₃ =>
          rw [if_neg h₃]
          split at hExec
          · next h₄ => rw [if_pos h₄]; exact ExecResult.advance.inj hExec
          · cases hExec

theorem mem_used (hRefs : gprRefMask w ⊆ used) {r : RegIndex} (hr : r ∈ gprRefs w)
    (hr0 : r ≠ 0) : r ∈ used :=
  hRefs (Finset.mem_erase.mpr ⟨hr0, hr⟩)

theorem gpr_zero_sljitCop2 (h : Host M) (hZero : g.gpr 0 = 0) : (sljitCop2 h w g).gpr 0 = 0 := by
  unfold sljitCop2
  cases Op.ofWord w with
  | cop2 =>
      dsimp only
      split
      · exact writeGpr_gpr_zero g _ _
      · split
        · exact writeGpr_gpr_zero g _ _
        · split
          · exact hZero
          · split
            · exact hZero
            · split
              · exact hZero
              · exact hZero
  | _ => exact hZero

theorem gpr_zero_sljitMemx (h : Host M) (hZero : g.gpr 0 = 0) : (sljitMemx h w g).gpr 0 = 0 := by
  unfold sljitMemx
  cases Op.ofWord w with
  | lwl => exact writeGpr_gpr_zero _ _ _
  | lwr => exact writeGpr_gpr_zero _ _ _
  | _ => exact hZero

theorem wp_helperCop2 (h : Between cps used c g st) :
    wp (step p) (emitHelper2 .cop2 w) c st fun _ c' st' =>
      Follows cps used (sljitCop2 p.host w g) c st c' st' := by
  refine wp_emitHelper2 (fun st hInsn => ?_) (fun q => sljitCop2_setPc p.host w q g)
    (gpr_zero_sljitCop2 p.host h.live.zero) h
  simp only [HostCall.perform, hInsn]

theorem wp_helperMemx (h : Between cps used c g st) :
    wp (step p) (emitHelper2 .memx w) c st fun _ c' st' =>
      Follows cps used (sljitMemx p.host w g) c st c' st' := by
  refine wp_emitHelper2 (fun st hInsn => ?_) (fun q => sljitMemx_setPc p.host w q g)
    (gpr_zero_sljitMemx p.host h.live.zero) h
  simp only [HostCall.perform, hInsn]

theorem wp_emitMoveFrom {f : Field} {v : Word} (h : Between cps used c g st)
    (hRd : Insn.rd w ≠ 0 → Insn.rd w ∈ used)
    (hField : ∀ st' : HostState M, SameRest st'.cpu g → f.read st'.cpu = v) :
    wp (step p) (emitMoveFrom f (Insn.rd w)) c st fun _ c' st' =>
      Follows cps used (writeGpr g (Insn.rd w) v) c st c' st' := by
  refine wp_emitDst (i := fun d => .op1 .mov32 (.reg d) (.mem f)) h hRd ?_
  intro d st' hRunning hRest
  refine ⟨_, ?_, step_op1_reg hRunning _ _ _⟩
  rw [Op1.apply, low_widen, HostState.eval, low_widen]
  exact hField st' hRest

theorem wp_emitLui (h : Between cps used c g st) (hRt : Insn.rt w ≠ 0 → Insn.rt w ∈ used) :
    wp (step p) (emitLui (Insn.rt w) (uimm w)) c st fun _ c' st' =>
      Follows cps used (writeGpr g (Insn.rt w) (uimm w <<< 16)) c st c' st' := by
  refine wp_emitDst (i := fun d => .op1 .mov32 (.reg d) (.imm ((uimm w <<< 16).zeroExtend 64)))
    h hRt ?_
  intro d st' hRunning _
  refine ⟨_, ?_, step_op1_reg hRunning _ _ _⟩
  rw [Op1.apply, low_widen, HostState.eval, low_zeroExtend]
  exact BitVec.setWidth_eq _

/-- The words that the helper for partial words takes. -/
theorem wp_helperMemx_of (h : Between cps used c g st) (hMemx : sljitMemx p.host w g = g') :
    wp (step p) (emitHelper2 .memx w) c st fun _ c' st' => Follows cps used g' c st c' st' := by
  rw [← hMemx]
  exact wp_helperMemx h

/-- The words that the helper for the GTE takes. -/
theorem wp_helperCop2_of (h : Between cps used c g st) (hCop2 : sljitCop2 p.host w g = g') :
    wp (step p) (emitHelper2 .cop2 w) c st fun _ c' st' => Follows cps used g' c st c' st' := by
  rw [← hCop2]
  exact wp_helperCop2 h

theorem wp_load {f : HostCall} {ext : Op1} {kind : LoadKind} (hLoads : LoadsAs p f ext kind)
    (h : Between cps used c g st) (hRs : Insn.rs w ≠ 0 → Insn.rs w ∈ used)
    (hRt : Insn.rt w ≠ 0 → Insn.rt w ∈ used) :
    wp (step p) (emitLoad f ext (Insn.rt w) (Insn.rs w) (simm64 w)) c st fun _ c' st' =>
      Follows cps used (writeGpr
        { g with mem := (busLoad p.host.bus kind (effectiveAddr g w) g.mem).2 } (Insn.rt w)
        (busLoad p.host.bus kind (effectiveAddr g w) g.mem).1) c st c' st' := by
  rw [effectiveAddr, ← low_simm64]
  exact wp_emitLoad hLoads h hRs hRt _

theorem wp_store {f : HostCall} {width : Width} (hStores : StoresAs p f width)
    (h : Between cps used c g st) (hRs : Insn.rs w ≠ 0 → Insn.rs w ∈ used)
    (hRt : Insn.rt w ≠ 0 → Insn.rt w ∈ used) :
    wp (step p) (emitStore f (Insn.rt w) (Insn.rs w) (simm64 w)) c st fun _ c' st' =>
      Follows cps used { g with
        mem := busStore p.host.bus width g.sr (effectiveAddr g w) (g.gpr (Insn.rt w)) g.mem }
        c st c' st' := by
  rw [effectiveAddr, ← low_simm64]
  exact wp_emitStore hStores h hRs hRt _

/-- `emit_one`: where the interpreter advances, the code leads to a host state
that stands for what it advances to. -/
theorem wp_emitOne {m : Emit Unit} (hEmit : emitOne w = some m) (hRefs : gprRefMask w ⊆ used)
    (hExec : execPlain p.host pc w g = .advance g') (h : Between cps used c g st) :
    wp (step p) m c st fun _ c' st' => Follows cps used g' c st c' st' := by
  have hUsed : ∀ r ∈ gprRefs w, r ≠ 0 → r ∈ used := fun r => mem_used hRefs
  unfold emitOne at hEmit
  unfold execPlain at hExec
  unfold gprRefs at hUsed
  cases hOp : Op.ofWord w
  all_goals rw [hOp] at hEmit hExec hUsed
  all_goals cases hEmit
  all_goals
    simp only [Finset.mem_insert, Finset.mem_singleton, forall_eq_or_imp, forall_eq,
      Finset.notMem_empty, false_imp_iff, implies_true] at hUsed
  case cop2 => exact wp_helperCop2_of h (sljitCop2_eq hOp hExec)
  all_goals cases hExec
  -- shifts
  case sll => exact wp_emitShiftImm .shl h hUsed.2.1 hUsed.2.2 _
  case srl => exact wp_emitShiftImm .lshr h hUsed.2.1 hUsed.2.2 _
  case sra => exact wp_emitShiftImm .ashr h hUsed.2.1 hUsed.2.2 _
  case sllv => exact wp_emitShiftVar .shl h hUsed.1 hUsed.2.1 hUsed.2.2
  case srlv => exact wp_emitShiftVar .lshr h hUsed.1 hUsed.2.1 hUsed.2.2
  case srav => exact wp_emitShiftVar .ashr h hUsed.1 hUsed.2.1 hUsed.2.2
  -- HI and LO
  case mfhi => exact wp_emitMoveFrom h hUsed.2.2 fun _ hRest => hRest.hi
  case mflo => exact wp_emitMoveFrom h hUsed.2.2 fun _ hRest => hRest.lo
  case mthi => exact wp_emitMoveTo h hUsed.1 (.inl rfl)
  case mtlo => exact wp_emitMoveTo h hUsed.1 (.inr rfl)
  case mult | multu => exact wp_emitMult h hUsed.1 hUsed.2.1 fun _ => rfl
  case div =>
    rw [execDiv_eq]
    exact wp_emitDiv h hUsed.1 hUsed.2.1 fun _ hRunning hA hB => runsTo_divCode hRunning hA hB
  case divu =>
    rw [execDivu_eq]
    exact wp_emitDiv h hUsed.1 hUsed.2.1 fun _ hRunning hA hB => runsTo_divuCode hRunning hA hB
  -- arithmetic and logic
  case add | addu | sub | subu | and | or | xor =>
    exact wp_emitAluRr h hUsed.1 hUsed.2.1 hUsed.2.2 fun _ _ _ => rfl
  case nor => exact wp_emitNor h hUsed.1 hUsed.2.1 hUsed.2.2
  case slt | sltu => exact wp_emitSlt rfl h hUsed.1 hUsed.2.2 (wp_gprSrc_rhs hUsed.2.1 h.lru)
  case addi | addiu =>
    rw [← low_simm64]
    exact wp_emitAddi h hUsed.1 hUsed.2 _
  case slti | sltiu =>
    exact wp_emitSlt rfl h hUsed.1 hUsed.2 fun c₁ st₁ hLive _ _ =>
      wp_imm_rhs (low_simm64 w) c₁ st₁ hLive
  case andi | ori | xori => exact wp_emitLogicImm h hUsed.1 hUsed.2 _ fun _ _ _ => rfl
  case lui => exact wp_emitLui h hUsed
  -- memory
  case lb => exact wp_load loadsAs_byte h hUsed.1 hUsed.2
  case lh => exact wp_load loadsAs_half h hUsed.1 hUsed.2
  case lw => exact wp_load loadsAs_word h hUsed.1 hUsed.2
  case lbu => exact wp_load loadsAs_byteUnsigned h hUsed.1 hUsed.2
  case lhu => exact wp_load loadsAs_halfUnsigned h hUsed.1 hUsed.2
  case sb | sh | sw => exact wp_store (fun _ => rfl) h hUsed.1 hUsed.2
  case lwl | lwr | swl | swr => exact wp_helperMemx_of h (by simp only [sljitMemx, hOp]; rfl)
  case lwc2 | swc2 => exact wp_helperCop2_of h (by simp only [sljitCop2, hOp]; rfl)
  case sync => exact wp_pure ⟨h.live, rfl, h.pins, by omega⟩

end RecompStudio.Sljit
