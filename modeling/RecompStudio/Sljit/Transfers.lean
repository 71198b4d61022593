import RecompStudio.Sljit.EmitOneFollows
import RecompStudio.Sljit.FragmentRun

/-!
The code around a delay slot: the condition, link and target before it, the
flush and the jump behind it, and the labels.
-/

namespace RecompStudio.Sljit

open RecompStudio.Staged
open RecompStudio.Interp
open RecompStudio.Insn
open RecompStudio.Emitted

variable {M : Type} {p : Platform M} {cps : Bool} {used : Finset RegIndex}
variable {c : GprCache} {g : CPUState M} {st : HostState M} {w : Word}

/-- The host state stands for `g`, and the temporary holds `x`. -/
structure Prepares (cps : Bool) (used : Finset RegIndex) (g : CPUState M) (x : BitVec 64)
    (c : GprCache) (c' : GprCache) (st' : HostState M) : Prop where
  live : Live cps used c' g st'
  ctrl : st'.regs .ctrl = x
  pins : c'.pins = 0
  lru : c'.lru ≤ c.lru + 2

/-- The comparison of two operands, and the flag in the temporary. -/
theorem wp_emitFlag {a b : Operand} {x y : Word} {set : FlagType} {cc : Cond} {c₀ : GprCache}
    (hLive : Live cps used c g st) (hA : Holds c st x a) (hB : Holds c st y b)
    (hSet : set = cc.flagType) (hLru : c.lru ≤ c₀.lru + 2) :
    wp (step p) (do
      Staged.Emit.emit (.sub32u set a b)
      Staged.Emit.emit (.opFlags .ctrl cc)
      gprUnpin : Emit Unit) c st fun _ c' st' =>
        Prepares cps used g (p.extension.widen (ofBool (cc.holds x y))) c₀ c' st' := by
  have hSub : step p st (.sub32u set a b) = .ok { st with flags := some (set, x, y) } := by
    rw [step_of_running hLive.running, execute, hA.low_eval, hB.low_eval]
  refine wp_bind (wp_emit hSub ?_)
  have hFlags : step p { st with flags := some (set, x, y) } (.opFlags .ctrl cc) =
      .ok { st.setReg .ctrl (p.extension.widen (ofBool (cc.holds x y))) with
        flags := some (set, x, y) } := by
    rw [step_of_running (by exact hLive.running), execute]
    simp only [hSet, if_true]
    rfl
  refine wp_bind (wp_emit hFlags (wp_modify ?_))
  have hLive' := (hLive.setReg (r := .ctrl) (by simp)
    (p.extension.widen (ofBool (cc.holds x y)))).setFlags (some (set, x, y))
  exact ⟨hLive'.unpin, by simp, pins_unpin c, hLru⟩

theorem wp_emitSign {set : FlagType} {cc : Cond} (h : Between cps used c g st)
    (hRs : rs w ≠ 0 → rs w ∈ used) (hSet : set = cc.flagType) :
    wp (step p) (emitCond.emitSign w set cc) c st fun _ c' st' =>
      Prepares cps used g (p.extension.widen (ofBool (cc.holds (g.gpr (rs w)) 0))) c c' st' := by
  have hLimit := h.lru
  refine wp_bind (wp_mono (wp_gprSrc h.live hRs (by have := h.pins; omega) (by omega)) ?_)
  intro a c₁ st₁ hA
  have hLru : c₁.lru ≤ c.lru + 2 := by
    have := hA.lru
    omega
  refine wp_bind (wp_asReg hA.holds hA.live.running ?_ ?_)
  · exact wp_emitFlag hA.live hA.holds (by simp [Holds]) hSet hLru
  · intro x y _ hx
    exact wp_emitFlag (hA.live.setReg (by simp) x) (by simpa [Holds] using hx) (by simp [Holds])
      hSet hLru

/-- `emit_cond_to_S1`: the temporary says whether the branch is taken. -/
theorem wp_emitCond {taken : Bool} (hRefs : gprRefMask w ⊆ used)
    (hTaken : branchTaken w g = some taken) (h : Between cps used c g st) :
    wp (step p) (emitCond w) c st fun _ c' st' =>
      Prepares cps used g (p.extension.widen (ofBool taken)) c c' st' := by
  have hUsed : ∀ r ∈ gprRefs w, r ≠ 0 → r ∈ used := fun r => mem_used hRefs
  unfold branchTaken at hTaken
  unfold gprRefs at hUsed
  unfold emitCond
  cases hOp : Op.ofWord w
  all_goals rw [hOp] at hTaken hUsed
  all_goals simp only [Option.some.injEq, reduceCtorEq] at hTaken
  case beq =>
    subst hTaken
    refine wp_twoOperands h (hUsed _ (by simp)) (wp_gprSrc_rhs (hUsed _ (by simp)) h.lru) ?_
    intro a b c₂ st₂ hLive hA hB _ _ hLru
    exact wp_emitFlag hLive hA hB rfl (by omega)
  case bne =>
    subst hTaken
    refine wp_twoOperands h (hUsed _ (by simp)) (wp_gprSrc_rhs (hUsed _ (by simp)) h.lru) ?_
    intro a b c₂ st₂ hLive hA hB _ _ hLru
    exact wp_emitFlag hLive hA hB rfl (by omega)
  case blez =>
    subst hTaken
    exact wp_emitSign h (hUsed _ (by simp)) rfl
  case bgtz =>
    subst hTaken
    exact wp_emitSign h (hUsed _ (by simp)) rfl
  case regimm =>
    have hRs : rs w ≠ 0 → rs w ∈ used := by
      refine hUsed _ ?_
      dsimp only
      split <;> simp
    have hRt : ∀ n : Nat, (rt w).toNat = n → rt w = BitVec.ofNat 5 n := by
      rintro n rfl
      simp
    split at hTaken
    · next hEq =>
      rw [if_pos (.inl (hRt 0 hEq))]
      cases hTaken
      exact wp_emitSign h hRs rfl
    · next hEq =>
      rw [if_pos (.inr (hRt 16 hEq))]
      cases hTaken
      exact wp_emitSign h hRs rfl
    · next hEq =>
      rw [if_neg (by rw [hRt 1 hEq]; decide)]
      cases hTaken
      exact wp_emitSign h hRs rfl
    · next hEq =>
      rw [if_neg (by rw [hRt 17 hEq]; decide)]
      cases hTaken
      exact wp_emitSign h hRs rfl
    · cases hTaken

/-- The return address is written to the register `n`. -/
theorem Prepared.link {n : RegIndex} {d : HostReg} {c' : GprCache} {st' : HostState M}
    (hD : Prepared cps used n g c st d c' st') (p : Platform M) (v : Word) :
    ∃ st'', step p st' (.op1 .mov32 (.reg d) (.imm (v.zeroExtend 64))) = .ok st'' ∧
      Live cps used c' (writeGpr g n v) st'' ∧ st''.regs .ctrl = st.regs .ctrl := by
  have hValue : low (Op1.mov32.apply p.extension (st'.eval p (.imm (v.zeroExtend 64)))) = v := by
    rw [Op1.apply, low_widen, HostState.eval, low_zeroExtend]
    exact BitVec.setWidth_eq _
  have hReady := hD.ready (Op1.mov32.apply p.extension (st'.eval p (.imm (v.zeroExtend 64))))
  rw [hValue] at hReady
  refine ⟨_, step_op1_reg hD.running _ _ _, hReady, ?_⟩
  rw [HostState.setReg_regs, Function.update_of_ne hD.notCtrl.symm]
  exact hD.keeps.scratch _ (by simp)

/-- The guest state in which the condition of a branch is read. -/
def linked (w ret : Word) (g : CPUState M) : CPUState M :=
  if branchLinks w then g.setGpr 31 ret else g

theorem wp_emitLink {ret : Word} (hRefs : gprRefMask w ⊆ used) (h : Between cps used c g st) :
    wp (step p) (emitLink w ret) c st fun _ c' st' =>
      Live cps used c' (linked w ret g) st' ∧ c'.pins = 0 ∧ c'.lru ≤ c.lru + 1 := by
  have hLinks : branchLinks w = true ↔ Op.ofWord w = .regimm ∧ (rt w = 0x10 ∨ rt w = 0x11) := by
    unfold branchLinks
    cases hOp : Op.ofWord w with
    | regimm => simp [← BitVec.toNat_inj]
    | _ => simp
  unfold emitLink linked
  by_cases hLink : branchLinks w = true
  · have hLinkReg : (31 : RegIndex) ≠ 0 := by decide
    rw [if_pos (hLinks.mp hLink), if_pos hLink, ← writeGpr_eq_setGpr h.live.zero hLinkReg]
    have hRa : (31 : RegIndex) ∈ used := by
      refine mem_used hRefs ?_ (by decide)
      rw [gprRefs, (hLinks.mp hLink).1]
      dsimp only
      rw [if_pos (hLinks.mp hLink).2]
      simp
    have hPins := h.pins
    refine wp_bind (wp_mono (wp_gprDst h.live (fun _ => hRa) (by omega)
      (by have := h.lru; omega)) ?_)
    intro d c₁ st₁ hD
    obtain ⟨st₂, hStep, hLive, -⟩ := hD.link p ret
    have hPins₁ := hD.pins
    exact wp_emit hStep ⟨hLive, by omega, hD.lru⟩
  · rw [if_neg (fun hc => hLink (hLinks.mpr hc)), if_neg hLink]
    exact wp_pure ⟨h.live, h.pins, by omega⟩

/-- A register is copied to the temporary. -/
theorem wp_capture {rs : RegIndex} {β : Type} {m : Emit β} {Q : β → GprCache → HostState M → Prop}
    (h : Between cps used c g st) (hRs : rs ≠ 0 → rs ∈ used)
    (hNext : ∀ c₁ st₁, Live cps used c₁ g st₁ → st₁.regs .ctrl = p.extension.widen (g.gpr rs) →
      c₁.pins ≤ 1 → c₁.lru ≤ c.lru + 1 → wp (step p) m c₁ st₁ Q) :
    wp (step p) (do
      let a ← gprSrc rs
      Staged.Emit.emit (.op1 .mov32 (.reg .ctrl) a)
      m) c st Q := by
  have hPins := h.pins
  refine wp_bind (wp_mono (wp_gprSrc h.live hRs (by omega) (by have := h.lru; omega)) ?_)
  intro a c₁ st₁ hA
  refine wp_bind (wp_emit (step_op1_reg hA.live.running _ _ _) ?_)
  have hPins₁ := hA.pins
  refine hNext _ _ (hA.live.setReg (by simp) _) ?_ (by omega) hA.lru
  rw [HostState.setReg_regs, Function.update_self, Op1.apply, hA.holds.low_eval]

theorem wp_emitTail (hRefs : gprRefMask w ⊆ used) (hOp : Op.ofWord w = .jr)
    (h : Between cps used c g st) (pc : Word) :
    wp (step p) (emitControl pc w .tailJump) c st fun pending c' st' => pending = .tail ∧
      Prepares cps used g (p.extension.widen (g.gpr (rs w))) c c' st' := by
  refine wp_capture h (mem_used hRefs (by simp [gprRefs, hOp])) ?_
  intro c₁ st₁ hLive hCtrl _ hLru
  have hLru₁ : c₁.lru ≤ c.lru + 2 := by omega
  exact wp_bind (wp_modify (wp_pure ⟨rfl, hLive.unpin, hCtrl, pins_unpin _, hLru₁⟩))

theorem wp_emitJal (hRefs : gprRefMask w ⊆ used) (hOp : Op.ofWord w = .jal)
    (h : Between cps used c g st) (pc : Word) :
    wp (step p) (emitControl pc w .call) c st fun pending c' st' =>
      pending = .call (some (jumpTarget pc w)) (pc + 8#32) true ∧
        Prepares cps used (g.setGpr 31 (pc + 8#32)) (st.regs .ctrl) c c' st' := by
  have hPins := h.pins
  have hRa : (31 : RegIndex) ∈ used := mem_used hRefs (by simp [gprRefs, hOp]) (by decide)
  show wp (step p) (if Op.ofWord w = .jal then _ else _) c st _
  have hLinkReg : (31 : RegIndex) ≠ 0 := by decide
  rw [if_pos hOp, ← writeGpr_eq_setGpr h.live.zero hLinkReg]
  refine wp_bind (wp_mono (wp_gprDst h.live (fun _ => hRa) (by omega) (by have := h.lru; omega)) ?_)
  intro d c₁ st₁ hD
  obtain ⟨st₂, hStep, hLive, hCtrl⟩ := hD.link p (pc + 8#32)
  have hPins₁ := hD.pins
  have hLru₁ := hD.lru
  exact wp_bind (wp_emit hStep (wp_pure ⟨rfl, hLive, hCtrl, by omega, by omega⟩))

theorem wp_emitJalr (hRefs : gprRefMask w ⊆ used) (hOp : Op.ofWord w = .jalr)
    (h : Between cps used c g st) (pc : Word) :
    wp (step p) (emitControl pc w .call) c st fun pending c' st' =>
      pending = .call none (pc + 8#32) (rd w = 0 || rd w = 31) ∧
        Prepares cps used (writeGpr g (if rd w = 0 then 31 else rd w) (pc + 8#32))
          (p.extension.widen (g.gpr (rs w))) c c' st' := by
  have hLimit := h.lru
  have hUsed : ∀ r ∈ gprRefs w, r ≠ 0 → r ∈ used := fun r => mem_used hRefs
  rw [gprRefs, hOp] at hUsed
  show wp (step p) (if Op.ofWord w = .jal then _ else _) c st _
  rw [if_neg (by rw [hOp]; decide)]
  refine wp_capture h (hUsed _ (by simp)) ?_
  intro c₁ st₁ hLive hCtrl hPins hLru
  refine wp_bind (wp_mono (wp_gprDst hLive (hUsed _ (by simp)) (by omega) (by omega)) ?_)
  intro d c₂ st₂ hD
  obtain ⟨st₃, hStep, hLive₃, hCtrl₃⟩ := hD.link p (pc + 8#32)
  have hLru₂ : c₂.lru ≤ c.lru + 2 := by
    have := hD.lru
    omega
  exact wp_bind (wp_emit hStep (wp_bind (wp_modify (wp_pure ⟨rfl, hLive₃.unpin,
    hCtrl₃.trans hCtrl, pins_unpin _, hLru₂⟩))))

/-- A branch: the link, and then the condition on the linked state. -/
theorem wp_emitBranch {pc t : Word} {taken : Bool} (hRefs : gprRefMask w ⊆ used)
    (hTaken : branchTaken w (linked w (pc + 8#32) g) = some taken) (h : Between cps used c g st)
    (hLimit : c.lru + 4 < 0xFFFFFFFF) :
    wp (step p) (emitControl pc w (.branch t)) c st fun pending c' st' =>
      pending = .branch (t.toNat / 4) true ∧
        Live cps used c' (linked w (pc + 8#32) g) st' ∧
        st'.regs .ctrl = p.extension.widen (ofBool taken) ∧ c'.pins = 0 ∧ c'.lru ≤ c.lru + 3 := by
  refine wp_bind (wp_mono (wp_emitLink hRefs h) ?_)
  rintro _ c₁ st₁ ⟨hLive, hPins, hLru⟩
  refine wp_bind (wp_mono (wp_emitCond hRefs hTaken ⟨hLive, hPins, by omega⟩) ?_)
  intro _ c₂ st₂ hCond
  have hLru₂ := hCond.lru
  exact wp_pure ⟨rfl, hCond.live, hCond.ctrl, hCond.pins, by omega⟩

/-- Memory has the whole guest state. -/
structure Saved (cps : Bool) (g : CPUState M) (st : HostState M) : Prop where
  gpr : st.cpu.gpr = g.gpr
  rest : SameRest st.cpu g
  zero : g.gpr 0 = 0
  pc : cps = false → st.cpu.pc = 0
  running : st.skip = 0

theorem Flushed.saved {c' : GprCache} {st' : HostState M} (h : Flushed cps used g c st c' st') :
    Saved cps g st' :=
  ⟨h.gpr, h.live.rest, h.live.zero, h.live.pc, h.live.running⟩

theorem Saved.reset (h : Saved cps g st) (hWf : c.Wf used) :
    Live cps used (c.mapSlots GprSlot.reset) g st :=
  .reset hWf h.gpr h.rest h.zero h.pc h.running

/-- The edge that falls into a label. -/
theorem wp_emitLabel (F : Fragment) (i : Nat) (hLive : Live cps used c g st) (hPins : c.pins = 0) :
    wp (step p) (emitLabel F i) c st fun _ c' st' => Live cps used c' g st' ∧
      st'.regs .ctrl = st.regs .ctrl ∧ c'.pins = 0 ∧ c'.lru = c.lru := by
  unfold emitLabel
  by_cases hTarget : F.isTarget i = true
  · rw [if_pos hTarget]
    refine wp_bind (wp_mono (wp_gprFlush hLive) ?_)
    intro _ c₁ st₁ hFlush
    refine wp_bind (wp_modify ?_)
    have hStep : step p st₁ (.label i) = .ok st₁ := by
      rw [step_of_running hFlush.live.running]
      rfl
    refine wp_emit hStep ⟨hFlush.saved.reset hFlush.live.wf, ?_, pins_reset _, ?_⟩
    · rw [hFlush.host.regs]
    · rw [hFlush.cache]
      rfl
  · rw [if_neg hTarget]
    exact wp_pure ⟨hLive, rfl, hPins, rfl⟩

/-- The delay slot, the flush behind it, and the transfer. -/
theorem wpLeave_slot {m t : Emit Unit} {g' : CPUState M} {pc slot : Word}
    {Q : Pending → GprCache → HostState M → Prop} {E : Leave M → Prop}
    (hEmit : emitOne slot = some m) (hRefs : gprRefMask slot ⊆ used)
    (hExec : execPlain p.host pc slot g = .advance g') (h : Between cps used c g st)
    (hNext : ∀ c' st', Live cps used c' g' st' → Saved cps g' st' →
      st'.regs .ctrl = st.regs .ctrl →
        wpLeave (step p) t c' st' (fun _ c'' st'' => Q .none c'' st'') E) :
    wpLeave (step p) (emitSlot m t) c st Q E := by
  refine wpLeave_bind (wpLeave_of_wp (wp_mono (wp_emitOne hEmit hRefs hExec h) ?_))
  intro _ c₁ st₁ hFollows
  refine wpLeave_bind (wpLeave_of_wp (wp_mono (wp_gprFlush hFollows.live) ?_))
  intro _ c₂ st₂ hFlush
  have hCtrl : st₂.regs .ctrl = st.regs .ctrl := by
    rw [hFlush.host.regs]
    exact hFollows.ctrl
  refine wpLeave_bind (wpLeave_mono (hNext c₂ st₂ hFlush.live hFlush.saved hCtrl) ?_)
  intro _ c₃ st₃ hQ
  exact wpLeave_of_wp (wp_pure hQ)

/-- The shard is left in a state that agrees with the guest `g`, which goes on
at `next`. -/
def Returns (cps : Bool) (next : Word) (g : CPUState M) : Leave M → Prop
  | .returned cpu => SameExit cps cpu next g
  | _ => False

/-- The word `i` is jumped to while memory has the guest `g`. -/
def Jumps (cps : Bool) (i : Nat) (g : CPUState M) : Leave M → Prop
  | .jumped word st => word = i ∧ Saved cps g st
  | _ => False

variable {t : Emit Unit} {Q : Unit → GprCache → HostState M → Prop}

theorem wpLeave_ret (hEmit : emitTransfer cps .ret = some t) (h : Saved cps g st) :
    wpLeave (step p) t c st Q (Returns cps (g.gpr 31) g) := by
  cases hEmit
  cases cps with
  | false =>
      rw [if_neg (by simp)]
      refine wpLeave_bind (wpLeave_emit_error (step_of_running h.running _) ⟨h.gpr, h.rest, ?_⟩)
      rw [nextGuestPc, h.pc rfl, h.gpr]
      rfl
  | true =>
      rw [if_pos rfl]
      have hLoad := step_op1_reg (p := p) h.running .mov32 .r0 (.mem (.gpr 31))
      refine wpLeave_bind (wpLeave_of_wp (wp_emitAll (.cons hLoad (.cons
        (step_op1_mem (by exact h.running) .mov32 .pc (.reg .r0)) (.nil ?_)))))
      refine wpLeave_bind (wpLeave_emit_error (step_of_running (by exact h.running) _) ⟨?_, ?_, ?_⟩)
      · exact h.gpr
      · exact ⟨h.rest.hi, h.rest.lo, h.rest.cop0, h.rest.gteData, h.rest.gteCtrl, h.rest.mem⟩
      · simp [nextGuestPc, Field.write, Field.read, Op1.apply, HostState.eval, h.gpr]

theorem wpLeave_tail {target : Word} (hEmit : emitTransfer cps .tail = some t) (h : Saved cps g st)
    (hCtrl : low (st.regs .ctrl) = target) (hTarget : cps = false → target ≠ 0) :
    wpLeave (step p) t c st Q (Returns cps target g) := by
  cases hEmit
  refine wpLeave_bind (wpLeave_of_wp (wp_emit (step_op1_mem h.running .mov32 .pc (.reg .ctrl)) ?_))
  refine wpLeave_bind (wpLeave_emit_error (step_of_running (by exact h.running) _) ⟨?_, ?_, ?_⟩)
  · exact h.gpr
  · exact ⟨h.rest.hi, h.rest.lo, h.rest.cop0, h.rest.gteData, h.rest.gteCtrl, h.rest.mem⟩
  · have hPc : (Field.write st.cpu .pc
        (low (Op1.mov32.apply p.extension (st.eval p (.reg .ctrl))))).pc = target := by
      simp [Field.write, Op1.apply, HostState.eval, hCtrl]
    rw [nextGuestPc, hPc, if_neg]
    cases cps with
    | false => simpa using hTarget rfl
    | true => simp

theorem wpLeave_jump {i : Nat} (hEmit : emitTransfer cps (.branch i false) = some t)
    (h : Saved cps g st) : wpLeave (step p) t c st Q (Jumps cps i g) := by
  cases hEmit
  exact wpLeave_bind (wpLeave_emit_error (step_of_running h.running _) ⟨rfl, h⟩)

theorem widen_ofBool_ne_zero (e : Extension) (b : Bool) : (e.widen (ofBool b) != 0#64) = b := by
  cases e <;> cases b <;> decide

theorem wpLeave_branch {i : Nat} {taken : Bool}
    (hEmit : emitTransfer cps (.branch i true) = some t) (hLive : Live cps used c g st)
    (h : Saved cps g st) (hCtrl : st.regs .ctrl = p.extension.widen (ofBool taken)) :
    wpLeave (step p) t c st
      (fun _ c' st' => taken = false ∧ Live cps used c' g st')
      (fun o => taken = true ∧ Jumps cps i g o) := by
  cases hEmit
  have hCond : Cond.holds .notEqual (st.eval p (.reg .ctrl)) (st.eval p (.imm 0)) = taken := by
    simp only [Cond.holds, HostState.eval, hCtrl]
    exact widen_ofBool_ne_zero _ _
  have hStep := step_of_running (p := p) h.running (.cmpJump .notEqual (.reg .ctrl) (.imm 0) i)
  rw [execute, hCond] at hStep
  cases taken with
  | false => exact wpLeave_of_wp (wp_emit hStep ⟨rfl, hLive.setFlags none⟩)
  | true => exact wpLeave_emit_error hStep ⟨rfl, rfl, h.gpr, h.rest, h.zero, h.pc, h.running⟩

theorem widen_ofBool_eq_zero (e : Extension) (b : Bool) : (e.widen (ofBool b) == 0#64) = !b := by
  cases e <;> cases b <;> decide

/-- The call itself, once its arguments are in place. -/
theorem wpLeave_callee {addr ret : Word} {check : Bool} {r : CPUState M × Bool}
    (hRunning : st.skip = 0) (hWf : c.Wf used) (hZero : g.gpr 0 = 0)
    (hCpu : { st.cpu with pc := 0 } = { g with pc := 0 }) (hAddr : low (st.regs .r1) = addr)
    (hRet : low (st.regs .r2) = ret) (hCheck : (low (st.regs .r3) != 0) = check)
    (hRun : p.guestCall.run addr ret check { g with pc := 0 } = r) :
    wpLeave (step p) (do
      Staged.Emit.emit (.icall .call)
      Staged.Emit.emitAll [.cmpSkip .equal (.reg .r0) (.imm 0) 1, .returnVoid]
      gprReset : Emit Unit) c st
      (fun _ c' st' => r.2 = false ∧ Live cps used c' r.1 st')
      (fun o => r.2 = true ∧ Returns cps (nextGuestPc cps r.1) r.1 o) := by
  have hPerform : HostCall.call.perform p st = (ofBool r.2, r.1) := by
    simp only [HostCall.perform, hCpu, hAddr, hRet, hCheck, hRun]
  have hCall := step_of_running (p := p) hRunning (.icall .call)
  simp only [execute, hPerform] at hCall
  refine wpLeave_bind (wpLeave_of_wp (wp_emit hCall ?_))
  generalize hSt : ({ st with
    regs := afterCall p st.regs (ofBool r.2), flags := none, cpu := r.1 } : HostState M) = st₁
  have hCpu₁ : st₁.cpu = r.1 := by rw [← hSt]
  have hRunning₁ : st₁.skip = 0 := by
    rw [← hSt]
    exact hRunning
  have hR0 : Cond.holds .equal (st₁.eval p (.reg .r0)) (st₁.eval p (.imm 0)) = !r.2 := by
    rw [← hSt]
    exact widen_ofBool_eq_zero p.extension r.2
  have hSkip := step_of_running (p := p) hRunning₁ (.cmpSkip .equal (.reg .r0) (.imm 0) 1)
  rw [execute, hR0] at hSkip
  cases hStop : r.2 with
  | false =>
      rw [hStop] at hSkip
      refine wpLeave_bind (wpLeave_of_wp (wp_emitAll (.cons hSkip (.cons rfl (.nil ?_)))))
      refine wpLeave_of_wp (wp_modify ⟨rfl, .reset hWf ?_ ?_ ?_ ?_ rfl⟩)
      · rw [hCpu₁]
      · rw [hCpu₁]
        exact ⟨rfl, rfl, rfl, rfl, rfl, rfl⟩
      · rw [← hRun]
        exact p.guestCall.keepsZero _ _ _ _ hZero
      · intro _
        rw [hCpu₁, ← hRun]
        rw [← hRun] at hStop
        exact p.guestCall.clearsPc _ _ _ _ hStop
  | true =>
      rw [hStop] at hSkip
      have hReturns : Returns cps (nextGuestPc cps r.1) r.1 (.returned r.1) :=
        ⟨rfl, ⟨rfl, rfl, rfl, rfl, rfl, rfl⟩, rfl⟩
      refine wpLeave_bind (wpLeave_emitAll_error ?_ ⟨rfl, hReturns⟩)
      rw [run_cons, hSkip, ← hCpu₁]
      rfl

/-- A call, with what the callee makes of the guest. -/
theorem wpLeave_call {target : Option Word} {addr ret : Word} {check : Bool} {r : CPUState M × Bool}
    (hEmit : emitTransfer cps (.call target ret check) = some t) (hWf : c.Wf used)
    (h : Saved cps g st) (hAddr : target.getD (low (st.regs .ctrl)) = addr)
    (hRun : p.guestCall.run addr ret check { g with pc := 0 } = r) :
    wpLeave (step p) t c st
      (fun _ c' st' => r.2 = false ∧ Live cps used c' r.1 st')
      (fun o => r.2 = true ∧ Returns cps (nextGuestPc cps r.1) r.1 o) := by
  cases cps with
  | true => cases hEmit
  | false =>
      cases hEmit
      refine wpLeave_bind (wpLeave_of_wp (wp_emit (step_op1_reg h.running _ _ _) ?_))
      refine wpLeave_bind (wpLeave_of_wp (wp_emit (step_op1_reg (by exact h.running) _ _ _) ?_))
      refine wpLeave_bind (wpLeave_of_wp (wp_emit (step_op1_reg (by exact h.running) _ _ _) ?_))
      refine wpLeave_callee (by exact h.running) hWf h.zero ?_ ?_ ?_ ?_ hRun
      · simp only [HostState.setReg_cpu]
        rw [cpu_eq h.gpr h.rest]
      · subst hAddr
        cases target <;> simp [Op1.apply, HostState.eval, low_zeroExtend]
      · simp [Op1.apply, HostState.eval, low_zeroExtend]
      · cases check <;> simp [Op1.apply, HostState.eval]

end RecompStudio.Sljit
