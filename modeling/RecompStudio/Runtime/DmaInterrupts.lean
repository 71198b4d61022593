import RecompStudio.Runtime.DmaRegisters

/-!
DICR: the interrupt is raised once for every rising edge of the master flag, a
channel flag is set by a completion of its channel that is armed, and cleared by
a one that is written to it.
-/

namespace RecompStudio.Runtime

open Machine

namespace Dma

/-- The flag of a channel in DICR. -/
@[grind =] def channelFlag (d : Dma) (ch : Fin 7) : Bool := d.dicr.getLsbD (24 + ch.val)

/-- The master flag, which DICR shows in bit 31. -/
@[grind =] def master (d : Dma) : Bool := masterFlag d.dicr

/-- A rising edge of the master flag. -/
@[grind =] def edge (d d' : Dma) : Nat := (!d.master && d'.master).toNat

/-- What completions do to the controller: each clears the start bit of its
channel and sets the flag if it is armed, and flags are not cleared. -/
structure Flow (d d' : Dma) : Prop where
  armed : ∀ ch, d'.irqArmed ch = d.irqArmed ch
  dpcr : d'.dpcr = d.dpcr
  kept : ∀ ch, d.channelFlag ch = true → d'.channelFlag ch = true
  control : ∀ i < 24, d'.dicr.getLsbD i = d.dicr.getLsbD i
  idle : ∀ ch, (d.channel ch).chcrBit 24 = false → (d'.channel ch).chcrBit 24 = false
  grows : ∀ ch, (d.channel ch).completed ≤ (d'.channel ch).completed
  completed : ∀ ch, (d.channel ch).completed < (d'.channel ch).completed →
    (d'.channel ch).chcrBit 24 = false ∧ (d.irqArmed ch = true → d'.channelFlag ch = true)
  fresh : ∀ ch, d.channelFlag ch = false → d'.channelFlag ch = true →
    (d.channel ch).completed < (d'.channel ch).completed ∧ d.irqArmed ch = true
  raised : d'.raised = d.raised + edge d d'

theorem edge_self (d : Dma) : edge d d = 0 := by
  unfold edge
  cases d.master <;> rfl

theorem Flow.refl (d : Dma) : Flow d d where
  armed _ := rfl
  dpcr := rfl
  kept _ h := h
  control _ _ := rfl
  idle _ h := h
  grows _ := le_rfl
  completed _ h := absurd h (Nat.lt_irrefl _)
  fresh _ h h' := absurd h' (by rw [h]; exact Bool.false_ne_true)
  raised := by rw [edge_self, Nat.add_zero]

/-- The channel flags are the bits of DICR that the master flag looks at. -/
theorem and_flags_ne_zero (v : Word) :
    v &&& 0x7F000000 ≠ 0 ↔ ∃ ch : Fin 7, v.getLsbD (24 + ch.val) = true := by
  have hMask : ∀ ch : Fin 7, (0x7F000000 : Word).getLsbD (24 + ch.val) = true := by decide
  constructor
  · intro hNe
    by_contra hNone
    refine hNe (BitVec.eq_of_getLsbD_eq fun i hi => ?_)
    have hZero : (0 : Word).getLsbD i = false := BitVec.getLsbD_zero
    rw [BitVec.getLsbD_and, hZero]
    by_cases hRange : 24 ≤ i ∧ i < 31
    · have hBit : v.getLsbD i = false := by
        apply Bool.eq_false_of_not_eq_true
        intro hSet
        exact hNone ⟨⟨i - 24, by omega⟩, by rwa [show 24 + (i - 24) = i by omega]⟩
      rw [hBit, Bool.false_and]
    · have hOut : ∀ i < 32, ¬ (24 ≤ i ∧ i < 31) → (0x7F000000 : Word).getLsbD i = false := by decide
      rw [hOut i hi hRange, Bool.and_false]
  · rintro ⟨ch, hSet⟩ hZero
    have hBit := congrArg (fun w : Word => w.getLsbD (24 + ch.val)) hZero
    simp only [BitVec.getLsbD_and, hSet, hMask ch, Bool.and_self] at hBit
    exact absurd (hBit.trans BitVec.getLsbD_zero) (by decide)

theorem master_eq_true (d : Dma) : d.master = true ↔ d.dicr.getLsbD 15 = true ∨
    d.dicr.getLsbD 23 = true ∧ ∃ ch, d.channelFlag ch = true := by
  have hFlags := and_flags_ne_zero d.dicr
  unfold master masterFlag channelFlag
  rw [Bool.or_eq_true, Bool.and_eq_true, bne_iff_ne, hFlags]

/-- While flags are only set, the master flag stays. -/
theorem master_of_flow {d d' : Dma} (h : Flow d d') (hMaster : d.master = true) :
    d'.master = true := by
  rw [master_eq_true] at hMaster ⊢
  rw [h.control 15 (by decide), h.control 23 (by decide)]
  rcases hMaster with hForced | ⟨hOn, ch, hFlag⟩
  · exact Or.inl hForced
  · exact Or.inr ⟨hOn, ch, h.kept ch hFlag⟩

theorem edge_trans {d d' d'' : Dma} (hFirst : d.master = true → d'.master = true)
    (hLast : d'.master = true → d''.master = true) : edge d d' + edge d' d'' = edge d d'' := by
  unfold edge
  cases h : d.master <;> cases h' : d'.master <;> cases h'' : d''.master <;> simp_all

theorem Flow.trans {d d' d'' : Dma} (hFirst : Flow d d') (hLast : Flow d' d'') : Flow d d'' where
  armed ch := (hLast.armed ch).trans (hFirst.armed ch)
  dpcr := hLast.dpcr.trans hFirst.dpcr
  kept ch h := hLast.kept ch (hFirst.kept ch h)
  control i hi := (hLast.control i hi).trans (hFirst.control i hi)
  idle ch h := hLast.idle ch (hFirst.idle ch h)
  grows ch := (hFirst.grows ch).trans (hLast.grows ch)
  completed ch hMore := by
    by_cases hNow : (d.channel ch).completed < (d'.channel ch).completed
    · obtain ⟨hIdle, hFlag⟩ := hFirst.completed ch hNow
      exact ⟨hLast.idle ch hIdle, fun hArmed => hLast.kept ch (hFlag hArmed)⟩
    · have hSame := hFirst.grows ch
      obtain ⟨hIdle, hFlag⟩ := hLast.completed ch (by omega)
      exact ⟨hIdle, fun hArmed => hFlag ((hFirst.armed ch).trans hArmed)⟩
  fresh ch hClear hSet := by
    cases hMiddle : d'.channelFlag ch with
    | true =>
        obtain ⟨hMore, hArmed⟩ := hFirst.fresh ch hClear hMiddle
        exact ⟨hMore.trans_le (hLast.grows ch), hArmed⟩
    | false =>
        obtain ⟨hMore, hArmed⟩ := hLast.fresh ch hMiddle hSet
        exact ⟨(hFirst.grows ch).trans_lt hMore, (hFirst.armed ch).symm.trans hArmed⟩
  raised := by
    rw [hLast.raised, hFirst.raised, Nat.add_assoc,
      edge_trans (master_of_flow hFirst) (master_of_flow hLast)]

variable {d : Dma} {ch : Fin 7} {f : DmaChannel → DmaChannel} {p : DmaChannel → Bool}

theorem flag_dicr (d : Dma) (ch : Fin 7) :
    (d.flag ch).dicr = if d.irqArmed ch then d.dicr ||| BitVec.twoPow 32 (24 + ch.val)
      else d.dicr := by
  unfold flag
  split
  · exact raiseOnMasterEdge_dicr _
  · rfl

theorem channelFlag_flag (d : Dma) (ch ch' : Fin 7) :
    (d.flag ch).channelFlag ch' = (d.channelFlag ch' || (d.irqArmed ch && decide (ch' = ch))) := by
  have := ch.isLt
  have := ch'.isLt
  rw [channelFlag, flag_dicr]
  cases hArmed : d.irqArmed ch with
  | false =>
      simp only [Bool.false_eq_true, if_false, Bool.false_and, Bool.or_false]
      rfl
  | true =>
      have hSame : (24 + ch.val = 24 + ch'.val) = (ch' = ch) := by
        rw [Fin.ext_iff]
        apply propext
        omega
      have hLess : 24 + ch.val < 32 := by omega
      simp only [if_true, BitVec.getLsbD_or, BitVec.getLsbD_twoPow, hSame, hLess, Bool.true_and,
        decide_true]
      rfl

theorem flag_control (d : Dma) (ch : Fin 7) {i : Nat} (hi : i < 24) :
    (d.flag ch).dicr.getLsbD i = d.dicr.getLsbD i := by
  rw [flag_dicr]
  split
  · have hNe : ¬ 24 + ch.val = i := by omega
    rw [BitVec.getLsbD_or, BitVec.getLsbD_twoPow]
    simp [hNe]
  · rfl

theorem raised_raiseOnMasterEdge (d : Dma) (before : Word) :
    (d.raiseOnMasterEdge before).raised =
      d.raised + (!masterFlag before && masterFlag d.dicr).toNat := by
  unfold raiseOnMasterEdge
  split
  next hEdge =>
    rw [hEdge]
    rfl
  next hEdge =>
    rw [Bool.eq_false_of_not_eq_true hEdge]
    rfl

theorem raised_flag (d : Dma) (ch : Fin 7) :
    (d.flag ch).raised = d.raised + edge d (d.flag ch) := by
  unfold edge master
  rw [flag_dicr]
  unfold flag
  split
  · exact raised_raiseOnMasterEdge _ _
  · rw [Bool.not_and_self]
    rfl

/-- What a change of a channel may do: only a completion counts as one, and it
clears the start bit. -/
structure Acts (f : DmaChannel → DmaChannel) (p : DmaChannel → Bool) (c : DmaChannel) : Prop where
  idle : c.chcrBit 24 = false → (f c).chcrBit 24 = false
  completes : p c = true → (f c).completed = c.completed + 1 ∧ (f c).chcrBit 24 = false
  goesOn : p c = false → (f c).completed = c.completed

theorem flow_act (hActs : Acts f p (d.channel ch)) : Flow d (d.act ch f p) := by
  have hOther : ∀ ch', ch' ≠ ch → (d.act ch f p).channel ch' = d.channel ch' :=
    fun ch' hNe => act_channel_ne hNe
  have hSelf : (d.act ch f p).channel ch = f (d.channel ch) := act_channel_self
  cases hp : p (d.channel ch) with
  | false =>
      have hAct : d.act ch f p = d.modify ch f := if_neg (by rw [hp]; exact Bool.false_ne_true)
      have hCount : ∀ ch', ((d.act ch f p).channel ch').completed = (d.channel ch').completed := by
        intro ch'
        by_cases hNe : ch' = ch
        · rw [hNe, hSelf, hActs.goesOn hp]
        · rw [hOther ch' hNe]
      refine ⟨fun _ => by rw [hAct]; rfl, act_dpcr, fun _ h => by rw [hAct]; exact h,
        fun _ _ => by rw [hAct]; rfl, fun ch' hIdle => ?_, fun ch' => (hCount ch').ge,
        fun ch' hMore => absurd hMore (by rw [hCount]; exact Nat.lt_irrefl _),
        fun ch' hClear hSet => ?_, ?_⟩
      · by_cases hNe : ch' = ch
        · subst hNe
          rw [hSelf]
          exact hActs.idle hIdle
        · rwa [hOther ch' hNe]
      · rw [hAct] at hSet
        exact absurd (hSet.symm.trans hClear) (by decide)
      · rw [hAct]
        exact (Flow.refl d).raised
  | true =>
      obtain ⟨hDone, hIdle⟩ := hActs.completes hp
      have hAct : d.act ch f p = (d.flag ch).modify ch f := by
        rw [act, if_pos hp, flag_modify]
      have hDicr : (d.act ch f p).dicr = (d.flag ch).dicr := by rw [hAct]; rfl
      have hFlag : ∀ ch', (d.act ch f p).channelFlag ch' =
          (d.channelFlag ch' || (d.irqArmed ch && decide (ch' = ch))) := by
        intro ch'
        rw [← channelFlag_flag, channelFlag, hDicr]
        rfl
      refine ⟨fun ch' => ?_, act_dpcr, fun ch' h => ?_, fun i hi => ?_, fun ch' h => ?_,
        fun ch' => ?_,
        fun ch' hMore => ?_, fun ch' hClear hSet => ?_, ?_⟩
      · have hArmed : (d.flag ch).irqArmed ch' = d.irqArmed ch' := irqArmed_flag
        rw [← hArmed, irqArmed, hDicr]
        rfl
      · rw [hFlag, h, Bool.true_or]
      · rw [hDicr, flag_control d ch hi]
      · by_cases hNe : ch' = ch
        · subst hNe
          rw [hSelf]
          exact hIdle
        · rwa [hOther ch' hNe]
      · by_cases hNe : ch' = ch
        · subst hNe
          rw [hSelf, hDone]
          exact Nat.le_succ _
        · rw [hOther ch' hNe]
      · by_cases hNe : ch' = ch
        · subst hNe
          refine ⟨by rw [hSelf]; exact hIdle, fun hArmed => ?_⟩
          rw [hFlag, hArmed]
          simp
        · rw [hOther ch' hNe] at hMore
          exact absurd hMore (Nat.lt_irrefl _)
      · rw [hFlag, hClear, Bool.false_or, Bool.and_eq_true, decide_eq_true_eq] at hSet
        obtain ⟨hArmed, hEq⟩ := hSet
        subst hEq
        rw [hSelf, hDone]
        exact ⟨Nat.lt_succ_self _, hArmed⟩
      · have hEdge : edge d (d.act ch f p) = edge d (d.flag ch) := by
          unfold edge master
          rw [hDicr]
        rw [hEdge, ← raised_flag, hAct]
        rfl

theorem flow_modify (hIdle : (d.channel ch).chcrBit 24 = false →
    (f (d.channel ch)).chcrBit 24 = false)
    (hCount : (f (d.channel ch)).completed = (d.channel ch).completed) :
    Flow d (d.modify ch f) := by
  have hAct : d.act ch f (fun _ => false) = d.modify ch f := if_neg Bool.false_ne_true
  rw [← hAct]
  exact flow_act ⟨hIdle, fun h => absurd h Bool.false_ne_true, fun _ => hCount⟩

end Dma

namespace DmaChannel

variable {c : DmaChannel}

theorem clearBusy_busy (c : DmaChannel) : c.clearBusy.chcrBit 24 = false := by
  have hMask : (~~~0x11000000 : Word).getLsbD 24 = false := by decide
  change (c.chcr &&& ~~~0x11000000).getLsbD 24 = false
  rw [BitVec.getLsbD_and, hMask, Bool.and_false]

/-- A change that is the completion of a transfer. -/
theorem acts_ended (c : DmaChannel) : Dma.Acts ended (fun _ => true) c where
  idle _ := clearBusy_busy _
  completes _ := ⟨rfl, clearBusy_busy _⟩
  goesOn h := absurd h.symm Bool.false_ne_true

theorem acts_delay (cycles : Nat) (c : DmaChannel) :
    Dma.Acts (delay cycles) (delayDue cycles) c := by
  unfold delay delayDue
  cases hActive : c.delayed.active with
  | false =>
      refine ⟨fun h => ?_, fun h => ?_, fun _ => ?_⟩
      · simpa [hActive] using h
      · simp [hActive] at h
      · simp [hActive]
  | true =>
      by_cases hLess : cycles < c.delayed.cyclesRemaining
      · have hDue : ¬ c.delayed.cyclesRemaining ≤ cycles := by omega
        refine ⟨fun h => ?_, fun h => ?_, fun _ => ?_⟩
        · simp only [hActive, hLess, Bool.not_true, Bool.false_eq_true, if_false, if_true]
          exact h
        · simp [hDue] at h
        · simp [hActive, hLess]
      · have hDue : c.delayed.cyclesRemaining ≤ cycles := by omega
        refine ⟨fun _ => ?_, fun _ => ?_, fun h => ?_⟩
        · simp only [hActive, hLess, Bool.not_true, Bool.false_eq_true, if_false]
          exact clearBusy_busy _
        · simp only [hActive, hLess, Bool.not_true, Bool.false_eq_true, if_false]
          exact ⟨rfl, clearBusy_busy _⟩
        · simp [hActive, hDue] at h

theorem acts_note {δ : Type} (after : Transfer δ × Nat) (c : DmaChannel) :
    Dma.Acts (note after) (exhausts after) c := by
  unfold note exhausts
  dsimp only
  by_cases hSame : after.1.remaining = c.async.remaining
  · refine ⟨fun h => ?_, fun h => ?_, fun _ => ?_⟩
    · rw [if_pos hSame]
      exact h
    · exact absurd hSame (of_decide_eq_true h).1
    · rw [if_pos hSame]
  · by_cases hZero : after.1.remaining = 0
    · refine ⟨fun _ => ?_, fun _ => ?_, fun h => ?_⟩
      · rw [if_neg hSame, if_pos hZero]
        exact clearBusy_busy _
      · rw [if_neg hSame, if_pos hZero]
        exact ⟨rfl, clearBusy_busy _⟩
      · exact absurd ⟨hSame, hZero⟩ (of_decide_eq_false h)
    · refine ⟨fun h => ?_, fun h => ?_, fun _ => ?_⟩
      · rw [if_neg hSame, if_neg hZero]
        exact h
      · exact absurd (of_decide_eq_true h).2 hZero
      · rw [if_neg hSame, if_neg hZero]

theorem acts_startDelayed (madr : Word) (words cyclesPerWord : Nat) (hCost : 0 < cyclesPerWord)
    (c : DmaChannel) :
    Dma.Acts (fun c => (c.setMadr madr).startDelayed words cyclesPerWord)
      (fun _ => decide (words = 0)) c := by
  unfold startDelayed
  have hEmpty : (words = 0 ∨ cyclesPerWord = 0) = (words = 0) := by
    apply propext
    omega
  simp only [hEmpty]
  by_cases hZero : words = 0
  · refine ⟨fun _ => ?_, fun _ => ?_, fun h => absurd hZero (of_decide_eq_false h)⟩
    · rw [if_pos hZero]
      exact clearBusy_busy _
    · rw [if_pos hZero]
      exact ⟨rfl, clearBusy_busy _⟩
  · refine ⟨fun h => ?_, fun h => absurd (of_decide_eq_true h) hZero, fun _ => ?_⟩
    · rw [if_neg hZero]
      exact h
    · rw [if_neg hZero]
      rfl

theorem acts_startCdrom (words : Nat) (c : DmaChannel) :
    Dma.Acts (startCdrom words) (startsEmpty words) c := by
  unfold startCdrom startsEmpty
  by_cases hActive : c.async.active = true
  · refine ⟨fun h => ?_, fun h => ?_, fun _ => ?_⟩
    · rw [if_pos hActive]
      exact h
    · rw [hActive] at h
      exact absurd h Bool.false_ne_true
    · rw [if_pos hActive]
  · have hEmpty : (!c.async.active && decide (words = 0)) = decide (words = 0) := by
      rw [Bool.eq_false_of_not_eq_true hActive]
      rfl
    by_cases hZero : words = 0
    · refine ⟨fun _ => ?_, fun _ => ?_, fun h => ?_⟩
      · rw [if_neg hActive, if_pos hZero]
        exact clearBusy_busy _
      · rw [if_neg hActive, if_pos hZero]
        exact ⟨rfl, clearBusy_busy _⟩
      · exact absurd hZero (of_decide_eq_false (hEmpty.symm.trans h))
    · refine ⟨fun h => ?_, fun h => absurd (of_decide_eq_true (hEmpty.symm.trans h)) hZero,
        fun _ => ?_⟩
      · rw [if_neg hActive, if_neg hZero]
        exact h
      · rw [if_neg hActive, if_neg hZero]
        rfl

theorem acts_otc (c : DmaChannel) :
    Dma.Acts (fun c => c.start.complete) (fun _ => true) c where
  idle _ := clearBusy_busy _
  completes _ := ⟨rfl, clearBusy_busy _⟩
  goesOn h := absurd h.symm Bool.false_ne_true

end DmaChannel

section Advance

open Dma

variable {μ : Type}

theorem flow_advanceMdec (port : DmaPort μ) (ch : Fin 7) (fromRam : Bool) (s : DmaSide μ)
    (cycles : Nat) : Flow s.dma (s.advanceMdec port ch fromRam cycles).dma := by
  unfold DmaSide.advanceMdec
  split
  · exact Flow.refl _
  split
  · exact flow_act (DmaChannel.acts_ended _)
  · exact flow_act (DmaChannel.acts_note _ _)

theorem flow_advanceCdromDma (s : DmaSide μ) (cycles : Nat) :
    Flow s.dma (s.advanceCdromDma cycles).dma := by
  unfold DmaSide.advanceCdromDma
  split
  · exact Flow.refl _
  · exact flow_act (DmaChannel.acts_note _ _)

theorem flow_advanceDelayed (chs : List (Fin 7)) (d : Dma) (cycles : Nat) :
    Flow d (chs.foldl (fun d ch => d.advanceDelayed ch cycles) d) := by
  induction chs generalizing d with
  | nil => exact Flow.refl d
  | cons ch rest ih =>
      have hHead : Flow d (d.advanceDelayed ch cycles) := flow_act (DmaChannel.acts_delay _ _)
      exact hHead.trans (ih _)

/-- `dma_advance` only completes transfers. -/
theorem flow_advanceDma (M : MdecDevice μ) (s : DmaSide μ) (cycles : Nat) :
    Flow s.dma (s.advanceDma M cycles).dma := by
  unfold DmaSide.advanceDma
  split
  · exact Flow.refl _
  · exact (((flow_advanceMdec _ _ _ s cycles).trans (flow_advanceMdec _ _ _ _ cycles)).trans
      (flow_advanceCdromDma _ cycles)).trans (flow_advanceDelayed _ _ cycles)

end Advance

section Start

open Dma

variable {μ γ σ : Type} (D : DmaDevices μ γ σ) (ctx : StoreContext) (b : DmaBoard μ γ σ)

theorem flow_startAsync (ch : Fin 7) (words : Nat) :
    Flow b.dma (b.dma.modify ch (DmaChannel.startAsync words)) := by
  refine flow_modify (fun hIdle => ?_) ?_
  · unfold DmaChannel.startAsync
    split
    · exact hIdle
    · exact hIdle
  · unfold DmaChannel.startAsync
    split <;> rfl

theorem flow_startCd : Flow b.dma b.startCd.dma := by
  unfold DmaBoard.startCd
  split
  · exact flow_modify (fun _ => DmaChannel.clearBusy_busy _) rfl
  · exact flow_act (DmaChannel.acts_startCdrom _ _)

theorem flow_execute (ch : Fin 7) : Flow b.dma (b.execute D ctx ch).dma := by
  match ch with
  | 0 | 1 => exact flow_startAsync b _ _
  | 2 => exact flow_act (DmaChannel.acts_startDelayed _ _ 1 (by decide) _)
  | 3 => exact flow_startCd b
  | 4 => exact flow_act (DmaChannel.acts_startDelayed _ _ 48 (by decide) _)
  | 5 => exact Flow.refl _
  | 6 => exact flow_act (DmaChannel.acts_otc _)

theorem flow_clearTrigger (ch : Fin 7) : Flow b.dma (b.clearTrigger ch).dma := by
  have hMask : (~~~0x10000000 : Word).getLsbD 24 = true := by decide
  refine flow_modify (fun hIdle => ?_) rfl
  change ((b.dma.channel ch).chcr &&& ~~~0x10000000).getLsbD 24 = false
  rw [BitVec.getLsbD_and, hMask, Bool.and_true]
  exact hIdle

theorem flow_tryExecute (ch : Fin 7) : Flow b.dma (b.tryExecute D ctx ch).dma := by
  unfold DmaBoard.tryExecute
  split
  · exact Flow.refl _
  split
  · exact (flow_clearTrigger b ch).trans (flow_execute D ctx _ ch)
  · exact flow_clearTrigger b ch

/-- Behind the merge of its lanes a write to CHCR only starts and completes. -/
theorem flow_writeChcr (ch : Fin 7) (val mask : Word) :
    Flow (b.mergeChcr ch val mask).dma (b.writeChcr D ctx ch val mask).dma := by
  unfold DmaBoard.writeChcr
  dsimp only
  split
  · exact Flow.refl _
  split
  · exact flow_tryExecute D ctx _ ch
  · exact flow_modify (fun h => h) rfl

end Start

namespace Dma

theorem dicrReadValue_master (v : Word) : (dicrReadValue v).getLsbD 31 = masterFlag v := by
  have hClear : (~~~0x80000000 : Word).getLsbD 31 = false := by decide
  rw [dicrReadValue, BitVec.getLsbD_or, BitVec.getLsbD_and, hClear, Bool.and_false, Bool.false_or]
  cases masterFlag v <;> decide

theorem raised_writeDicr (d : Dma) (val mask : Word) :
    (d.writeDicr val mask).raised = d.raised + edge d (d.writeDicr val mask) := by
  unfold writeDicr edge master
  rw [raised_raiseOnMasterEdge, raiseOnMasterEdge_dicr]

/-- A DICR write leaves a flag unless it writes a one to it. -/
theorem channelFlag_writeDicr (d : Dma) (val mask : Word) (ch : Fin 7) :
    (d.writeDicr val mask).channelFlag ch =
      (d.channelFlag ch && !(val &&& mask).getLsbD (24 + ch.val)) := by
  have hControl : ∀ ch : Fin 7, (0x00FF807F : Word).getLsbD (24 + ch.val) = false := by decide
  have hFlags : ∀ ch : Fin 7, (0x7F000000 : Word).getLsbD (24 + ch.val) = true := by decide
  have hLess : 24 + ch.val < 32 := by omega
  unfold channelFlag writeDicr
  rw [raiseOnMasterEdge_dicr]
  simp only [BitVec.getLsbD_and, BitVec.getLsbD_or, BitVec.getLsbD_not, hControl ch,
    hFlags ch, hLess,
    decide_true, Bool.true_and, Bool.false_and, Bool.and_false, Bool.or_false, Bool.not_false,
    Bool.and_true]

end Dma

open Dma

variable {μ γ σ : Type} (D : DmaDevices μ γ σ)

/-- Bit 31 of DICR as software reads it. -/
def DmaBoard.masterRead (b : DmaBoard μ γ σ) : Bool := (b.read 0x1F8010F4).getLsbD 31

theorem masterRead_eq (b : DmaBoard μ γ σ) : b.masterRead = b.dma.master := dicrReadValue_master _

/-- The rising edges of bit 31 in a run. -/
def risingEdges : DmaBoard μ γ σ → List (DmaEvent μ γ σ) → Nat
  | _, [] => 0
  | b, e :: rest =>
      (!b.masterRead && (dmaStep D b e).masterRead).toNat + risingEdges (dmaStep D b e) rest

/-- What a step does to the interrupt: the edges and the flags. -/
structure IrqStep (b : DmaBoard μ γ σ) (e : DmaEvent μ γ σ) (d : Dma) : Prop where
  raised : d.raised = b.dma.raised + edge b.dma d
  set : ∀ ch, b.dma.channelFlag ch = false → d.channelFlag ch = true →
    (b.dma.channel ch).completed < (d.channel ch).completed ∧ b.dma.irqArmed ch = true
  cleared : ∀ ch, b.dma.channelFlag ch = true → d.channelFlag ch = false →
    ∃ ctx addr val mask, e = .write ctx addr val mask ∧ DmaBoard.register addr = some .dicr ∧
      (val &&& mask).getLsbD (24 + ch.val) = true
  completed : ∀ ch, (b.dma.channel ch).completed < (d.channel ch).completed →
    (d.channel ch).chcrBit 24 = false ∧ (b.dma.irqArmed ch = true → d.channelFlag ch = true)

theorem irqStep_of_flow {b : DmaBoard μ γ σ} {e : DmaEvent μ γ σ} {d d' : Dma} (hFlow : Flow d d')
    (hDicr : d.dicr = b.dma.dicr) (hRaised : d.raised = b.dma.raised)
    (hCount : ∀ ch, (d.channel ch).completed = (b.dma.channel ch).completed) :
    IrqStep b e d' where
  raised := by
    rw [hFlow.raised, hRaised]
    unfold edge master
    rw [hDicr]
  set ch hClear hSet := by
    rw [channelFlag, ← hDicr] at hClear
    rw [← hCount, irqArmed, ← hDicr]
    exact hFlow.fresh ch hClear hSet
  cleared ch hSet hClear := by
    rw [channelFlag, ← hDicr] at hSet
    exact absurd ((hFlow.kept ch hSet).symm.trans hClear) (by decide)
  completed ch hMore := by
    rw [← hCount] at hMore
    rw [irqArmed, ← hDicr]
    exact hFlow.completed ch hMore

theorem completed_modify {f : DmaChannel → DmaChannel}
    (hf : ∀ c, (f c).completed = c.completed) (d : Dma) (ch ch' : Fin 7) :
    ((d.modify ch f).channel ch').completed = (d.channel ch').completed := by
  unfold Dma.modify
  dsimp only
  by_cases hNe : ch' = ch
  · rw [hNe, Function.update_self, hf]
  · rw [Function.update_of_ne hNe]

theorem irqStep_write (ctx : StoreContext) (b : DmaBoard μ γ σ) (addr val mask : Word) :
    IrqStep b (.write ctx addr val mask) (b.writeMasked D ctx addr val mask).dma := by
  unfold DmaBoard.writeMasked
  cases hRegister : DmaBoard.register addr with
  | none => exact irqStep_of_flow (Flow.refl _) rfl rfl fun _ => rfl
  | some r =>
      cases r with
      | madr ch =>
          refine irqStep_of_flow (Flow.refl _) rfl rfl fun ch' => ?_
          exact completed_modify (f := fun c => c.setMadr (mergeLanes c.madr val mask))
            (fun _ => rfl)
            b.dma ch ch'
      | bcr ch =>
          refine irqStep_of_flow (Flow.refl _) rfl rfl fun ch' => ?_
          exact completed_modify (f := fun c => c.setBcr (mergeLanes c.bcr val mask)) (fun _ => rfl)
            b.dma ch ch'
      | chcr ch =>
          refine irqStep_of_flow (flow_writeChcr D ctx b ch val mask) rfl rfl fun ch' => ?_
          exact completed_modify (f := fun c => c.setChcr (mergeLanes c.chcr val mask))
            (fun _ => rfl) b.dma ch ch'
      | dpcr =>
          have hFlow := Flow.refl { b.dma with dpcr := mergeLanes b.dma.dpcr val mask }
          exact irqStep_of_flow hFlow rfl rfl fun _ => rfl
      | dicr =>
          have hChannel : (b.dma.writeDicr val mask).channel = b.dma.channel :=
            raiseOnMasterEdge_channel _
          refine ⟨raised_writeDicr _ _ _, fun ch hClear hSet => ?_, fun ch hSet hClear => ?_,
            fun ch hMore => absurd (congrFun hChannel ch ▸ hMore) (Nat.lt_irrefl _)⟩
          · have hKept := channelFlag_writeDicr b.dma val mask ch
            rw [hClear, Bool.false_and] at hKept
            exact absurd (hSet.symm.trans hKept) (by decide)
          · refine ⟨ctx, addr, val, mask, rfl, hRegister, ?_⟩
            have hKept := channelFlag_writeDicr b.dma val mask ch
            rw [hSet, Bool.true_and] at hKept
            simpa using hKept.symm.trans hClear

theorem irqStep_step (b : DmaBoard μ γ σ) (e : DmaEvent μ γ σ) :
    IrqStep b e (dmaStep D b e).dma := by
  have hSame : IrqStep b e b.dma := irqStep_of_flow (Flow.refl _) rfl rfl fun _ => rfl
  unfold dmaStep
  split
  · exact hSame
  cases e with
  | write ctx addr val mask => exact irqStep_write D ctx b addr val mask
  | advance cycles =>
      exact irqStep_of_flow (flow_advanceDma D.mdec b.toDmaSide cycles) rfl rfl fun _ => rfl
  | outside side gpu spu => exact hSame

theorem raised_run (b : DmaBoard μ γ σ) (es : List (DmaEvent μ γ σ)) :
    (es.foldl (dmaStep D) b).dma.raised = b.dma.raised + risingEdges D b es := by
  induction es generalizing b with
  | nil => rfl
  | cons e rest ih =>
      have hStep := (irqStep_step D b e).raised
      unfold edge at hStep
      rw [List.foldl_cons, ih, hStep, risingEdges, masterRead_eq, masterRead_eq, Nat.add_assoc]

/-- The interrupt is raised once for every rising edge of bit 31 of DICR, a flag
is set by an armed completion of its channel, and cleared by a one that is
written to it. -/
theorem dmaIrq_onMasterEdge (D : DmaDevices μ γ σ) :
    (∀ (b : DmaBoard μ γ σ) (es : List (DmaEvent μ γ σ)),
      (es.foldl (dmaStep D) b).dma.raised = b.dma.raised + risingEdges D b es) ∧
    ∀ (b : DmaBoard μ γ σ) (e : DmaEvent μ γ σ) (ch : Fin 7),
      (b.dma.channelFlag ch = false → (dmaStep D b e).dma.channelFlag ch = true →
        (b.dma.channel ch).completed < ((dmaStep D b e).dma.channel ch).completed ∧
          b.dma.irqArmed ch = true) ∧
      (b.dma.channelFlag ch = true → (dmaStep D b e).dma.channelFlag ch = false →
        ∃ ctx addr val mask, e = .write ctx addr val mask ∧ DmaBoard.register addr = some .dicr ∧
          (val &&& mask).getLsbD (24 + ch.val) = true) :=
  ⟨raised_run D, fun b e ch => ⟨(irqStep_step D b e).set ch, (irqStep_step D b e).cleared ch⟩⟩

/-- Devices that are never ready. -/
def idleDevices : DmaDevices Unit Unit Unit :=
  ⟨⟨fun _ => false, fun _ => false, fun _ _ => (), fun _ => ((), 0)⟩,
    ⟨fun _ => ((), 0), fun _ _ _ => ()⟩, ⟨fun _ _ => ()⟩⟩

/-- The controller behind `dma_init`, with other values of DPCR and DICR. -/
def idleBoard (dpcr dicr : Word) : DmaBoard Unit Unit Unit :=
  ⟨⟨⟨Dma.init.channel, dpcr, dicr, false, 0⟩, (),
    Cdrom.initial none ⟨1, 32⟩ [0x53, 0x43, 0x45, 0x41], false, fun _ => 0, false⟩, (), (), false⟩

/-- Channel 6 is started with its interrupt, and the flag is acknowledged. -/
theorem dmaIrq_onMasterEdge_otc :
    let b := idleBoard 0x08000000 0x00C00000
    let start : DmaEvent Unit Unit Unit := .write ⟨false, 0⟩ 0x1F8010E8 0x11000002 0xFFFFFFFF
    let done := dmaStep idleDevices b start
    let ack : DmaEvent Unit Unit Unit := .write ⟨false, 0⟩ 0x1F8010F4 0x40C00000 0xFFFFFFFF
    done.dma.raised = b.dma.raised + risingEdges idleDevices b [start] ∧
      (b.dma.channel 6).completed < (done.dma.channel 6).completed ∧
      ∃ ctx addr val mask, ack = .write ctx addr val mask ∧
        DmaBoard.register addr = some .dicr ∧
            (val &&& mask).getLsbD (24 + (6 : Fin 7).val) = true := by
  intro b start done ack
  obtain ⟨hRuns, hFlags⟩ := dmaIrq_onMasterEdge idleDevices
  exact ⟨hRuns b [start], ((hFlags b start 6).1 (by decide) (by decide)).1,
    (hFlags done ack 6).2 (by decide) (by decide)⟩

end RecompStudio.Runtime
