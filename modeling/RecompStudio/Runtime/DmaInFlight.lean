import RecompStudio.Runtime.DmaInterrupts

/-!
The start bits and the transfers in flight: a channel that is busy and enabled
has a transfer in flight, an idle one has none, and every transfer that was
started has been completed, cancelled or is still in flight.
-/

namespace RecompStudio.Runtime

local instance neZero_inFlight : NeZero 7 := ⟨by decide⟩

open Machine

/-- The channels whose words are moved as time passes. -/
def MovesAsync (ch : Fin 7) : Prop := ch = 0 ∨ ch = 1 ∨ ch = 3

/-- The channels that are only completed late. -/
def CompletesLate (ch : Fin 7) : Prop := ch = 2 ∨ ch = 4

instance (ch : Fin 7) : Decidable (MovesAsync ch) := inferInstanceAs (Decidable (_ ∨ _ ∨ _))

instance (ch : Fin 7) : Decidable (CompletesLate ch) := inferInstanceAs (Decidable (_ ∨ _))

namespace DmaChannel

/-- The transfers of a channel: one in flight needs the start bit and has
something left to do, and every transfer is accounted for. -/
structure Kept (ch : Fin 7) (c : DmaChannel) : Prop where
  idle : c.inFlight = true → c.chcrBit 24 = true
  counted : c.started = c.completed + c.cancelled + c.inFlight.toNat
  async : c.async.active = true → MovesAsync ch ∧ 0 < c.async.remaining
  delayed : c.delayed.active = true → CompletesLate ch ∧ 0 < c.delayed.cyclesRemaining

/-- A channel that is busy and enabled has a transfer in flight as well. -/
structure Fits (ch : Fin 7) (enabled : Bool) (c : DmaChannel) : Prop extends Kept ch c where
  busy : c.chcrBit 24 = true → enabled = true → c.inFlight = true

variable {ch : Fin 7} {enabled : Bool} {c : DmaChannel}

theorem not_both (hAsync : MovesAsync ch) : ¬ CompletesLate ch := by
  revert hAsync ch
  decide

theorem Kept.async_of_late (h : c.Kept ch) (hLate : CompletesLate ch) : c.async.active = false :=
  Bool.eq_false_of_not_eq_true fun hAsync => not_both (h.async hAsync).1 hLate

theorem Kept.delayed_of_moves (h : c.Kept ch) (hMoves : MovesAsync ch) : c.delayed.active = false :=
  Bool.eq_false_of_not_eq_true fun hDelayed => not_both hMoves (h.delayed hDelayed).1

/-- A channel whose transfer has just been completed. -/
theorem fits_of_done {c' : DmaChannel} (hBusy : c'.chcrBit 24 = false)
    (hAsync : c'.async.active = false) (hDelayed : c'.delayed.active = false)
    (hCounted : c'.started = c'.completed + c'.cancelled) : c'.Fits ch enabled where
  idle h := by
    rw [inFlight, hAsync, hDelayed] at h
    cases h
  counted := by
    rw [inFlight, hAsync, hDelayed]
    exact hCounted
  async h := absurd (h.symm.trans hAsync) (by decide)
  delayed h := absurd (h.symm.trans hDelayed) (by decide)
  busy h := absurd (h.symm.trans hBusy) (by decide)

theorem Kept.started_of_inFlight (h : c.Kept ch) (hFlight : c.inFlight = true) :
    c.started = c.completed + c.cancelled + 1 := by
  rw [h.counted, hFlight]
  rfl

theorem Kept.started_of_idle (h : c.Kept ch) (hFlight : c.inFlight = false) :
    c.started = c.completed + c.cancelled := by
  rw [h.counted, hFlight]
  rfl

theorem Kept.ended (h : c.Kept ch) (hFlight : c.inFlight = true) : c.ended.Fits ch enabled := by
  refine fits_of_done (clearBusy_busy _) rfl rfl ?_
  have hStarted := h.started_of_inFlight hFlight
  change c.started = c.completed + 1 + c.cancelled
  omega

theorem inFlight_of_async (hAsync : c.async.active = true) : c.inFlight = true := by
  rw [inFlight, hAsync, Bool.true_or]

theorem inFlight_of_delayed (hDelayed : c.delayed.active = true) : c.inFlight = true := by
  rw [inFlight, hDelayed, Bool.or_true]

/-- Registers may change while the start bit and the transfers stay. -/
theorem Fits.of_same (h : c.Fits ch enabled) {c' : DmaChannel}
    (hBusy : c'.chcrBit 24 = c.chcrBit 24) (hAsync : c'.async = c.async)
    (hDelayed : c'.delayed = c.delayed) (hStarted : c'.started = c.started)
    (hCompleted : c'.completed = c.completed) (hCancelled : c'.cancelled = c.cancelled) :
    c'.Fits ch enabled := by
  have hFlight : c'.inFlight = c.inFlight := by rw [inFlight, hAsync, hDelayed, inFlight]
  refine ⟨⟨?_, ?_, ?_, ?_⟩, ?_⟩
  · rw [hFlight, hBusy]
    exact h.idle
  · rw [hStarted, hCompleted, hCancelled, hFlight]
    exact h.counted
  · rw [hAsync]
    exact h.async
  · rw [hDelayed]
    exact h.delayed
  · rw [hBusy, hFlight]
    exact h.busy

theorem Fits.delay (h : c.Fits ch enabled) (cycles : Nat) : (c.delay cycles).Fits ch enabled := by
  unfold DmaChannel.delay
  split
  · exact h
  next hActive =>
    have hDelayed : c.delayed.active = true := by simpa using hActive
    have hFlight := inFlight_of_delayed hDelayed
    have hAsync := h.async_of_late (h.delayed hDelayed).1
    split
    next hLess =>
      refine ⟨⟨fun _ => h.idle hFlight, ?_, h.async, fun _ => ?_⟩, fun _ _ => ?_⟩
      · have hStarted := h.started_of_inFlight hFlight
        rw [inFlight, hDelayed, Bool.or_true]
        exact hStarted
      · exact ⟨(h.delayed hDelayed).1, Nat.sub_pos_of_lt hLess⟩
      · rw [inFlight, hDelayed, Bool.or_true]
    next =>
      refine fits_of_done (clearBusy_busy _) hAsync rfl ?_
      have hStarted := h.started_of_inFlight hFlight
      change c.started = c.completed + 1 + c.cancelled
      omega

theorem Fits.note {δ : Type} (h : c.Fits ch enabled) (hActive : c.async.active = true)
    (after : Transfer δ × Nat) : (c.note after).Fits ch enabled := by
  have hFlight := inFlight_of_async hActive
  have hKept : ∀ madr, 0 < after.1.remaining →
      ({ c with
        madr := madr
        async.remaining := after.1.remaining
        async.accum := after.2 } : DmaChannel).Fits ch enabled := by
    intro madr hLeft
    refine ⟨⟨fun _ => h.idle hFlight, ?_, fun _ => ⟨(h.async hActive).1, hLeft⟩, h.delayed⟩,
      fun _ _ => ?_⟩
    · have hStarted := h.started_of_inFlight hFlight
      rw [inFlight, hActive, Bool.true_or]
      exact hStarted
    · rw [inFlight, hActive, Bool.true_or]
  unfold DmaChannel.note
  dsimp only
  split
  next hSame => exact hKept c.madr (hSame ▸ (h.async hActive).2)
  split
  next =>
    refine fits_of_done (clearBusy_busy _) rfl rfl ?_
    have hStarted := h.started_of_inFlight hFlight
    change c.started = c.completed + 1 + c.cancelled
    omega
  next hLeft => exact hKept _ (Nat.pos_of_ne_zero hLeft)

theorem Kept.startAsync (h : c.Kept ch) (hMoves : MovesAsync ch) (hBusy : c.chcrBit 24 = true)
    {words : Nat} (hWords : 0 < words) : (c.startAsync words).Fits ch enabled := by
  unfold DmaChannel.startAsync
  split
  next hActive => exact ⟨h, fun _ _ => inFlight_of_async hActive⟩
  next hActive =>
    have hFlight : c.inFlight = false := by
      rw [inFlight, Bool.eq_false_of_not_eq_true hActive, h.delayed_of_moves hMoves]
      rfl
    refine ⟨⟨fun _ => hBusy, ?_, fun _ => ⟨hMoves, hWords⟩, h.delayed⟩, fun _ _ => rfl⟩
    have hStarted := h.started_of_idle hFlight
    change c.started + 1 = c.completed + c.cancelled + 1
    rw [hStarted]

theorem Kept.startCdrom (h : c.Kept ch) (hMoves : MovesAsync ch) (hBusy : c.chcrBit 24 = true)
    {words : Nat} (hWords : 0 < words) : (c.startCdrom words).Fits ch enabled := by
  have hSame : c.startCdrom words = c.startAsync words := by
    unfold DmaChannel.startCdrom DmaChannel.startAsync
    rw [if_neg (Nat.ne_of_gt hWords)]
  rw [hSame]
  exact h.startAsync hMoves hBusy hWords

theorem Kept.startDelayed (h : c.Kept ch) (hLate : CompletesLate ch) (hBusy : c.chcrBit 24 = true)
    (hFlight : c.inFlight = false) {words cyclesPerWord : Nat} (hCost : 0 < cyclesPerWord) :
    (c.startDelayed words cyclesPerWord).Fits ch enabled := by
  have hStarted := h.started_of_idle hFlight
  have hAsync := h.async_of_late hLate
  unfold DmaChannel.startDelayed
  split
  · refine fits_of_done (clearBusy_busy _) hAsync ?_ ?_
    · have hDelayed := hFlight
      rw [inFlight, hAsync, Bool.false_or] at hDelayed
      exact hDelayed
    · change c.started + 1 = c.completed + 1 + c.cancelled
      omega
  next hSome =>
    have hCycles : 0 < min (words * cyclesPerWord) (2 ^ 32 - 1) := by
      have hProd : 0 < words * cyclesPerWord := Nat.mul_pos (by omega) hCost
      omega
    refine ⟨⟨fun _ => hBusy, ?_, h.async, fun _ => ⟨hLate, hCycles⟩⟩, fun _ _ => ?_⟩
    · rw [inFlight, Bool.or_true]
      change c.started + 1 = c.completed + c.cancelled + 1
      rw [hStarted]
    · rw [inFlight, Bool.or_true]

theorem Kept.startMoved (h : c.Kept ch) (hLate : CompletesLate ch) (hBusy : c.chcrBit 24 = true)
    (hFlight : c.inFlight = false) (madr : Word) (words : Nat) {cyclesPerWord : Nat}
    (hCost : 0 < cyclesPerWord) :
    ((c.setMadr madr).startDelayed words cyclesPerWord).Fits ch enabled := by
  have hKept : (c.setMadr madr).Kept ch := ⟨h.idle, h.counted, h.async, h.delayed⟩
  exact hKept.startDelayed hLate hBusy hFlight hCost

theorem Kept.startOtc (h : c.Kept ch) (hNone : c.inFlight = false) :
    c.start.complete.Fits ch enabled := by
  have hStarted := h.started_of_idle hNone
  have hFlight := hNone
  rw [inFlight, Bool.or_eq_false_iff] at hFlight
  refine fits_of_done (clearBusy_busy _) hFlight.1 hFlight.2 ?_
  change c.started + 1 = c.completed + 1 + c.cancelled
  omega

theorem Kept.stop (h : c.Kept ch) (hBusy : c.chcrBit 24 = false) : c.stop.Fits ch enabled := by
  refine fits_of_done hBusy rfl rfl ?_
  change c.started = c.completed + (c.cancelled + c.inFlight.toNat)
  rw [h.counted, Nat.add_assoc]

end DmaChannel

/-- Every channel fits its enable bit. -/
@[grind =] def Dma.Fits (d : Dma) : Prop := ∀ ch, (d.channel ch).Fits ch (d.enabled ch)

namespace Dma

variable {d : Dma} {ch : Fin 7} {f : DmaChannel → DmaChannel} {p : DmaChannel → Bool}

theorem enabled_act (ch' : Fin 7) : (d.act ch f p).enabled ch' = d.enabled ch' := by
  unfold enabled
  rw [act_dpcr]

theorem Fits.act (h : d.Fits) (hf : (f (d.channel ch)).Fits ch (d.enabled ch)) :
    (d.act ch f p).Fits := by
  intro ch'
  rw [enabled_act]
  by_cases hNe : ch' = ch
  · subst hNe
    rw [act_channel_self]
    exact hf
  · rw [act_channel_ne hNe]
    exact h ch'

theorem Fits.modify (h : d.Fits) (hf : (f (d.channel ch)).Fits ch (d.enabled ch)) :
    (d.modify ch f).Fits := by
  have hAct : d.act ch f (fun _ => false) = d.modify ch f := if_neg Bool.false_ne_true
  rw [← hAct]
  exact h.act hf

theorem Fits.advanceDelayed (h : d.Fits) (chs : List (Fin 7)) (cycles : Nat) :
    (chs.foldl (fun d ch => d.advanceDelayed ch cycles) d).Fits := by
  induction chs generalizing d with
  | nil => exact h
  | cons ch rest ih => exact ih (h.act ((h ch).delay cycles))

theorem async_of_live (hLive : d.live ch = true) : (d.channel ch).async.active = true :=
  (Bool.and_eq_true_iff.mp (Bool.and_eq_true_iff.mp hLive).1).1

end Dma

section Side

variable {μ : Type} {s : DmaSide μ}

theorem fits_advanceMdec (h : s.dma.Fits) (port : DmaPort μ) (ch : Fin 7) (fromRam : Bool)
    (cycles : Nat) : (s.advanceMdec port ch fromRam cycles).dma.Fits := by
  unfold DmaSide.advanceMdec
  split
  · exact h
  next hLive =>
    have hActive := Dma.async_of_live (by simpa using hLive)
    split
    · exact h.act ((h ch).ended (DmaChannel.inFlight_of_async hActive))
    · exact h.act ((h ch).note hActive _)

theorem fits_advanceCdromDma (h : s.dma.Fits) (cycles : Nat) :
    (s.advanceCdromDma cycles).dma.Fits := by
  unfold DmaSide.advanceCdromDma
  split
  · exact h
  next hLive =>
    have hActive : s.dma.cdromTransferActive = true := by simpa using hLive
    exact h.act ((h dmaCdrom).note
      (Dma.async_of_live (Bool.and_eq_true_iff.mp hActive).1) _)

theorem fits_advanceDma (h : s.dma.Fits) (M : MdecDevice μ) (cycles : Nat) :
    (s.advanceDma M cycles).dma.Fits := by
  unfold DmaSide.advanceDma
  split
  · exact h
  · have hIn := fits_advanceMdec h (mdecInPort M) dmaMdecIn true cycles
    have hOut := fits_advanceMdec hIn (mdecOutPort M (s.advanceMdecIn M cycles).isolated)
      dmaMdecOut false cycles
    exact (fits_advanceCdromDma hOut cycles).advanceDelayed _ cycles

end Side

variable {μ γ σ : Type}

namespace DmaBoard

/-- The start bit of an enabled channel starts a transfer, and does not halt. -/
def starts (b : DmaBoard μ γ σ) (ch : Fin 7) : Bool :=
    b.kicked ch && (b.clearTrigger ch).lengthOk ch

/-- A start that does not run into another transfer: the late completion of
channel 2 or 4 is over, and channel 3 is not turned around under a transfer. -/
def StartsAlone (b : DmaBoard μ γ σ) (ch : Fin 7) : Prop :=
  (CompletesLate ch → (b.dma.channel ch).inFlight = false) ∧
    (ch = dmaCdrom → (b.dma.channel ch).fromRam = true → (b.dma.channel ch).inFlight = false)

instance (b : DmaBoard μ γ σ) (ch : Fin 7) : Decidable (b.StartsAlone ch) :=
  inferInstanceAs (Decidable (_ ∧ _))

/-- A DPCR write does not enable a channel that waits with its start bit set. -/
def EnablesNone (b : DmaBoard μ γ σ) (dpcr : Word) : Prop :=
  ∀ ch : Fin 7, (b.dma.channel ch).chcrBit 24 = true → dpcr.getLsbD (ch.val * 4 + 3) = true →
    (b.dma.channel ch).inFlight = true

instance (b : DmaBoard μ γ σ) (dpcr : Word) : Decidable (b.EnablesNone dpcr) :=
  inferInstanceAs (Decidable (∀ _, _))

/-- The writes under which busy bits and transfers keep in step. -/
def ProperWrite (b : DmaBoard μ γ σ) (addr val mask : Word) : Prop :=
  (register addr = some .dpcr → b.EnablesNone (mergeLanes b.dma.dpcr val mask)) ∧
    ∀ ch, register addr = some (.chcr ch) → mask.getLsbD 24 = true →
      (b.mergeChcr ch val mask).starts ch = true → (b.mergeChcr ch val mask).StartsAlone ch

instance (b : DmaBoard μ γ σ) (addr val mask : Word) : Decidable (b.ProperWrite addr val mask) :=
  inferInstanceAs (Decidable (_ ∧ ∀ _, _))

def Proper (b : DmaBoard μ γ σ) : DmaEvent μ γ σ → Prop
  | .write _ addr val mask => b.ProperWrite addr val mask
  | .advance _ => True
  | .outside _ _ _ => True

instance (b : DmaBoard μ γ σ) : ∀ e, Decidable (b.Proper e)
  | .write _ addr val mask => inferInstanceAs (Decidable (b.ProperWrite addr val mask))
  | .advance _ => isTrue trivial
  | .outside _ _ _ => isTrue trivial

end DmaBoard

variable {b : DmaBoard μ γ σ} {ch : Fin 7} (D : DmaDevices μ γ σ) (ctx : StoreContext)

theorem fullBlock_mul_pos (c : DmaChannel) : 0 < c.wordCount := by
  have hBlock : 0 < c.fullBlock := by
    unfold DmaChannel.fullBlock
    split <;> omega
  unfold DmaChannel.wordCount
  split
  · refine Nat.mul_pos hBlock ?_
    split <;> omega
  · exact hBlock

theorem transferWordCount_pos (b : DmaBoard μ γ σ) (ch : Fin 7) : 0 < b.transferWordCount ch := by
  unfold DmaBoard.transferWordCount
  split
  · unfold Cdrom.sectorWordCount
    dsimp only
    split
    · split <;> decide
    · omega
  · exact fullBlock_mul_pos _

/-- The channels that start beside the others. -/
structure FitsBut (b : DmaBoard μ γ σ) (ch : Fin 7) : Prop where
  others : ∀ ch', ch' ≠ ch → (b.dma.channel ch').Fits ch' (b.dma.enabled ch')
  kept : (b.dma.channel ch).Kept ch

theorem FitsBut.act (h : FitsBut b ch) {f : DmaChannel → DmaChannel} {p : DmaChannel → Bool}
    (hf : (f (b.dma.channel ch)).Fits ch (b.dma.enabled ch)) : (b.dma.act ch f p).Fits := by
  intro ch'
  rw [Dma.enabled_act]
  by_cases hNe : ch' = ch
  · subst hNe
    rw [Dma.act_channel_self]
    exact hf
  · rw [Dma.act_channel_ne hNe]
    exact h.others ch' hNe

theorem FitsBut.modify (h : FitsBut b ch) {f : DmaChannel → DmaChannel}
    (hf : (f (b.dma.channel ch)).Fits ch (b.dma.enabled ch)) : (b.dma.modify ch f).Fits := by
  have hAct : b.dma.act ch f (fun _ => false) = b.dma.modify ch f := if_neg Bool.false_ne_true
  rw [← hAct]
  exact h.act hf

/-- Only the start bit and the transfers of a channel count. -/
theorem kept_setChcr {c : DmaChannel} (h : c.Kept ch) {chcr : Word}
    (hBusy : c.inFlight = true → chcr.getLsbD 24 = true) : (c.setChcr chcr).Kept ch :=
  ⟨hBusy, h.counted, h.async, h.delayed⟩

theorem FitsBut.clearTrigger (h : FitsBut b ch) : FitsBut (b.clearTrigger ch) ch where
  others ch' hNe := by
    have hSame : (b.clearTrigger ch).dma.channel ch' = b.dma.channel ch' :=
      Function.update_of_ne hNe _ _
    rw [hSame]
    exact h.others ch' hNe
  kept := by
    have hMask : (~~~0x10000000 : Word).getLsbD 24 = true := by decide
    have hSelf : (b.clearTrigger ch).dma.channel ch =
        (b.dma.channel ch).setChcr ((b.dma.channel ch).chcr &&& ~~~0x10000000) :=
      Function.update_self _ _ _
    rw [hSelf]
    refine kept_setChcr h.kept fun hFlight => ?_
    rw [BitVec.getLsbD_and, hMask, Bool.and_true]
    exact h.kept.idle hFlight

/-- A start leaves the channels fitting, unless the controller halts. -/
theorem FitsBut.execute (h : FitsBut b ch) (hBusy : (b.dma.channel ch).chcrBit 24 = true)
    (hAlone : b.StartsAlone ch) (hRuns : (b.execute D ctx ch).halted = false) :
    (b.execute D ctx ch).dma.Fits := by
  match ch with
  | 0 => exact h.modify (h.kept.startAsync (by decide) hBusy (transferWordCount_pos b 0))
  | 1 => exact h.modify (h.kept.startAsync (by decide) hBusy (transferWordCount_pos b 1))
  | 2 =>
      have hLate : CompletesLate 2 := by decide
      exact h.act (h.kept.startMoved hLate hBusy (hAlone.1 hLate) _ _ Nat.one_pos)
  | 3 =>
      unfold DmaBoard.execute DmaBoard.startCd
      dsimp only
      split
      next hRam =>
        have hFree := hAlone.2 rfl hRam
        refine h.modify ?_
        have hStarted := h.kept.started_of_idle hFree
        rw [DmaChannel.inFlight, Bool.or_eq_false_iff] at hFree
        exact DmaChannel.fits_of_done (DmaChannel.clearBusy_busy _) hFree.1 hFree.2 hStarted
      next => exact h.act (h.kept.startCdrom (by decide) hBusy (transferWordCount_pos b dmaCdrom))
  | 4 =>
      have hLate : CompletesLate 4 := by decide
      have hCost : 0 < 48 := by decide
      exact h.act (h.kept.startMoved hLate hBusy (hAlone.1 hLate) _ _ hCost)
  | 5 => cases hRuns
  | 6 =>
      have hFree : (b.dma.channel 6).inFlight = false := by
        have hAsync : (b.dma.channel 6).async.active = false :=
          Bool.eq_false_of_not_eq_true fun hOn => absurd (h.kept.async hOn).1 (by decide)
        have hDelayed : (b.dma.channel 6).delayed.active = false :=
          Bool.eq_false_of_not_eq_true fun hOn => absurd (h.kept.delayed hOn).1 (by decide)
        rw [DmaChannel.inFlight, hAsync, hDelayed]
        rfl
      exact h.act (h.kept.startOtc hFree)

theorem clearTrigger_chcrBit (b : DmaBoard μ γ σ) (ch : Fin 7) {i : Nat} (hi : i < 28) :
    ((b.clearTrigger ch).dma.channel ch).chcrBit i = (b.dma.channel ch).chcrBit i := by
  have hMask : ∀ i < 28, (~~~0x10000000 : Word).getLsbD i = true := by decide
  have hSelf : (b.clearTrigger ch).dma.channel ch =
      (b.dma.channel ch).setChcr ((b.dma.channel ch).chcr &&& ~~~0x10000000) :=
    Function.update_self _ _ _
  rw [hSelf]
  change ((b.dma.channel ch).chcr &&& ~~~0x10000000).getLsbD i = _
  rw [BitVec.getLsbD_and, hMask i hi, Bool.and_true]
  rfl

theorem clearTrigger_inFlight (b : DmaBoard μ γ σ) (ch : Fin 7) :
    ((b.clearTrigger ch).dma.channel ch).inFlight = (b.dma.channel ch).inFlight := by
  have hSelf : (b.clearTrigger ch).dma.channel ch =
      (b.dma.channel ch).setChcr ((b.dma.channel ch).chcr &&& ~~~0x10000000) :=
    Function.update_self _ _ _
  rw [hSelf]
  rfl

theorem DmaBoard.StartsAlone.clearTrigger (h : b.StartsAlone ch) :
    (b.clearTrigger ch).StartsAlone ch := by
  unfold DmaBoard.StartsAlone DmaChannel.fromRam
  rw [clearTrigger_inFlight, clearTrigger_chcrBit b ch (by decide)]
  exact h

theorem FitsBut.tryExecute (h : FitsBut b ch) (hBusy : (b.dma.channel ch).chcrBit 24 = true)
    (hAlone : b.starts ch = true → b.StartsAlone ch)
    (hRuns : (b.tryExecute D ctx ch).halted = false) : (b.tryExecute D ctx ch).dma.Fits := by
  unfold DmaBoard.tryExecute at hRuns ⊢
  split
  next hDisabled =>
    have hOff : b.dma.enabled ch = false := by
      simpa [DmaBoard.kicked, hBusy] using hDisabled
    intro ch'
    by_cases hNe : ch' = ch
    · subst hNe
      exact ⟨h.kept, fun _ hOn => absurd (hOn.symm.trans hOff) (by decide)⟩
    · exact h.others ch' hNe
  next hKicked =>
    have hKick : b.kicked ch = true := by simpa using hKicked
    rw [if_neg hKicked] at hRuns
    split
    next hLength =>
      rw [if_pos hLength] at hRuns
      have hStarts : b.starts ch = true := by rw [DmaBoard.starts, hKick, hLength, Bool.and_self]
      exact h.clearTrigger.execute D ctx
        ((clearTrigger_chcrBit b ch (by decide)).trans hBusy) (hAlone hStarts).clearTrigger hRuns
    next hLength =>
      rw [if_neg hLength] at hRuns
      cases hRuns

/-- The merge of CHCR lanes while the start bit agrees with the transfers. -/
theorem fitsBut_mergeChcr (h : b.dma.Fits) {val mask : Word}
    (hBusy : (b.dma.channel ch).inFlight = true →
      (mergeLanes (b.dma.channel ch).chcr val mask).getLsbD 24 = true) :
    FitsBut (b.mergeChcr ch val mask) ch where
  others ch' hNe := by
    have hSame : (b.mergeChcr ch val mask).dma.channel ch' = b.dma.channel ch' :=
      Function.update_of_ne hNe _ _
    rw [hSame]
    exact h ch'
  kept := by
    have hSelf : (b.mergeChcr ch val mask).dma.channel ch =
        (b.dma.channel ch).setChcr (mergeLanes (b.dma.channel ch).chcr val mask) :=
      Function.update_self _ _ _
    rw [hSelf]
    exact kept_setChcr (h ch).toKept hBusy

theorem fits_writeChcr (h : b.dma.Fits) {val mask : Word}
    (hProper : mask.getLsbD 24 = true → (b.mergeChcr ch val mask).starts ch = true →
      (b.mergeChcr ch val mask).StartsAlone ch)
    (hRuns : (b.writeChcr D ctx ch val mask).halted = false) :
    (b.writeChcr D ctx ch val mask).dma.Fits := by
  have hSelf : ((b.mergeChcr ch val mask).dma.channel ch) =
      (b.dma.channel ch).setChcr (mergeLanes (b.dma.channel ch).chcr val mask) :=
    Function.update_self _ _ _
  unfold DmaBoard.writeChcr at hRuns ⊢
  dsimp only at hRuns ⊢
  split
  next hLane =>
    -- the start bit is in another lane
    have hBit : (mergeLanes (b.dma.channel ch).chcr val mask).getLsbD 24 =
        (b.dma.channel ch).chcrBit 24 := by
      rw [getLsbD_mergeLanes, if_neg (by simpa using hLane)]
      rfl
    exact h.modify ((h ch).of_same hBit rfl rfl rfl rfl rfl)
  next hLane =>
    have hOn : mask.getLsbD 24 = true := by simpa using hLane
    rw [if_neg hLane] at hRuns
    split
    next hBusy =>
      rw [if_pos hBusy] at hRuns
      have hMerged : (mergeLanes (b.dma.channel ch).chcr val mask).getLsbD 24 = true := by
        rw [hSelf] at hBusy
        exact hBusy
      exact (fitsBut_mergeChcr h fun _ => hMerged).tryExecute D ctx hBusy (hProper hOn) hRuns
    next hBusy =>
      have hOff := Bool.eq_false_of_not_eq_true hBusy
      rw [hSelf] at hOff
      intro ch'
      by_cases hNe : ch' = ch
      · subst hNe
        have hChannel : (((b.mergeChcr ch' val mask).setDma
            ((b.mergeChcr ch' val mask).dma.modify ch' DmaChannel.stop)).dma.channel ch') =
              ((b.dma.channel ch').setChcr (mergeLanes (b.dma.channel ch').chcr val mask)).stop :=
          (Function.update_self _ _ _).trans (congrArg DmaChannel.stop hSelf)
        rw [hChannel]
        have hCounted := (h ch').counted
        refine DmaChannel.fits_of_done hOff rfl rfl ?_
        change (b.dma.channel ch').started = (b.dma.channel ch').completed +
          ((b.dma.channel ch').cancelled + (b.dma.channel ch').inFlight.toNat)
        rw [hCounted, Nat.add_assoc]
      · have hOther : (((b.mergeChcr ch val mask).setDma
            ((b.mergeChcr ch val mask).dma.modify ch DmaChannel.stop)).dma.channel ch') =
              b.dma.channel ch' :=
          (Function.update_of_ne hNe _ _).trans (Function.update_of_ne hNe _ _)
        rw [hOther]
        exact h ch'

theorem fits_writeMasked (h : b.dma.Fits) {addr val mask : Word}
    (hProper : b.ProperWrite addr val mask)
    (hRuns : (b.writeMasked D ctx addr val mask).halted = false) :
    (b.writeMasked D ctx addr val mask).dma.Fits := by
  unfold DmaBoard.writeMasked at hRuns ⊢
  cases hRegister : DmaBoard.register addr with
  | none => exact h
  | some r =>
      rw [hRegister] at hRuns
      cases r with
      | madr ch => exact h.modify ((h ch).of_same rfl rfl rfl rfl rfl rfl)
      | bcr ch => exact h.modify ((h ch).of_same rfl rfl rfl rfl rfl rfl)
      | chcr ch => exact fits_writeChcr D ctx h (hProper.2 ch hRegister) hRuns
      | dpcr => exact fun ch => ⟨(h ch).toKept, hProper.1 hRegister ch⟩
      | dicr =>
          intro ch
          have hChannel : (b.dma.writeDicr val mask).channel = b.dma.channel :=
            Dma.raiseOnMasterEdge_channel _
          have hEnabled : (b.dma.writeDicr val mask).enabled ch = b.dma.enabled ch := by
            unfold Dma.enabled Dma.writeDicr
            rw [Dma.raiseOnMasterEdge_dpcr]
          have hFits := h ch
          rw [← hChannel, ← hEnabled] at hFits
          exact hFits

theorem fits_step (h : b.dma.Fits) {e : DmaEvent μ γ σ} (hProper : b.Proper e)
    (hRuns : (dmaStep D b e).halted = false) : (dmaStep D b e).dma.Fits := by
  unfold dmaStep at hRuns ⊢
  split
  · exact h
  next hHalted =>
    rw [if_neg hHalted] at hRuns
    cases e with
    | write ctx addr val mask => exact fits_writeMasked D ctx h hProper hRuns
    | advance cycles => exact fits_advanceDma h D.mdec cycles
    | outside side gpu spu => exact h

theorem halted_step (hHalted : b.halted = true) (e : DmaEvent μ γ σ) :
    (dmaStep D b e).halted = true := by
  unfold dmaStep
  rw [if_pos hHalted]
  exact hHalted

theorem fits_init : Dma.init.Fits := by
  intro ch
  exact DmaChannel.fits_of_done (show (0 : Word).getLsbD 24 = false by decide) rfl rfl rfl

/-- The transfers of every state of a run whose writes keep the start bits and
the transfers in step. -/
theorem fits_of_run {start b : DmaBoard μ γ σ} (hStart : start.dma = Dma.init)
    (hReach : Reach (dmaStep D) DmaBoard.Proper start b) (hRuns : b.halted = false) :
    b.dma.Fits := by
  have hInv : b.halted = false → b.dma.Fits := by
    refine @Reach.invariant _ _ _ _ _ _ (fun b => b.halted = false → b.dma.Fits) hReach
      (fun _ => ?_)
      ?_
    · rw [hStart]
      exact fits_init
    · intro b e hFits hProper hOn
      refine fits_step D (hFits ?_) hProper hOn
      apply Bool.eq_false_of_not_eq_true
      intro hHalted
      exact absurd ((halted_step D hHalted e).symm.trans hOn) (by decide)
  exact hInv hRuns

/-- The channel part of the busy bits: what is busy and enabled is in flight with
something left to do, what is idle is not, and every transfer is accounted for. -/
structure ChannelInStep (d : Dma) (ch : Fin 7) : Prop where
  busy : (d.channel ch).chcrBit 24 = true → d.enabled ch = true → (d.channel ch).inFlight = true
  idle : (d.channel ch).chcrBit 24 = false → (d.channel ch).inFlight = false
  left : (d.channel ch).inFlight = true →
    (d.channel ch).async.active = true ∧ 0 < (d.channel ch).async.remaining ∨
      (d.channel ch).delayed.active = true ∧ 0 < (d.channel ch).delayed.cyclesRemaining
  counted : (d.channel ch).started =
    (d.channel ch).completed + (d.channel ch).cancelled + (d.channel ch).inFlight.toNat

theorem channelInStep_of_fits {d : Dma} (h : d.Fits) (ch : Fin 7) : ChannelInStep d ch where
  busy := (h ch).busy
  idle hOff := by
    apply Bool.eq_false_of_not_eq_true
    intro hFlight
    exact absurd (((h ch).idle hFlight).symm.trans hOff) (by decide)
  left hFlight := by
    rcases Bool.or_eq_true_iff.mp hFlight with hAsync | hDelayed
    · exact Or.inl ⟨hAsync, ((h ch).async hAsync).2⟩
    · exact Or.inr ⟨hDelayed, ((h ch).delayed hDelayed).2⟩
  counted := (h ch).counted

/-- In every run whose writes keep them in step, busy channels and transfers in
flight belong together, and a completion clears the start bit and sets the flag
of an armed channel. -/
theorem dmaChannels_inStep (D : DmaDevices μ γ σ) {start b : DmaBoard μ γ σ}
    (hStart : start.dma = Dma.init) (hReach : Reach (dmaStep D) DmaBoard.Proper start b)
    (hRuns : b.halted = false) :
    (∀ ch, ChannelInStep b.dma ch) ∧
    ∀ (e : DmaEvent μ γ σ) (ch : Fin 7),
      (b.dma.channel ch).completed < ((dmaStep D b e).dma.channel ch).completed →
        ((dmaStep D b e).dma.channel ch).chcrBit 24 = false ∧
          (b.dma.irqArmed ch = true → (dmaStep D b e).dma.channelFlag ch = true) :=
  ⟨channelInStep_of_fits (fits_of_run D hStart hReach hRuns),
    fun e ch => (irqStep_step D b e).completed ch⟩

/-- Channel 2 is enabled and started, and its late completion comes. -/
def gpuRun : List (DmaEvent Unit Unit Unit) :=
  [.write ⟨false, 0⟩ 0x1F8010F0 0x00000800 0xFFFFFFFF,
    .write ⟨false, 0⟩ 0x1F8010A4 0x00010004 0xFFFFFFFF,
    .write ⟨false, 0⟩ 0x1F8010A8 0x01000201 0xFFFFFFFF, .advance 4]

theorem dmaChannels_inStep_gpu :
    ChannelInStep (gpuRun.foldl (dmaStep idleDevices) (idleBoard 0x07654321 0)).dma 2 := by
  have hRun : RunOk (dmaStep idleDevices) DmaBoard.Proper (idleBoard 0x07654321 0) gpuRun := by
    decide
  exact (dmaChannels_inStep idleDevices rfl (Reach.start.along gpuRun hRun) (by decide)).1 2

/-- A channel that is started first and enabled afterwards is busy and enabled,
and nothing of it is in flight. -/
theorem started_then_enabled :
    let b := List.foldl (dmaStep idleDevices) (idleBoard 0x07654321 0)
      [.write ⟨false, 0⟩ 0x1F8010A8 0x01000201 0xFFFFFFFF,
        .write ⟨false, 0⟩ 0x1F8010F0 0x00000800 0xFFFFFFFF]
    (b.dma.channel 2).chcrBit 24 = true ∧ b.dma.enabled 2 = true ∧
      (b.dma.channel 2).inFlight = false := by
  decide

end RecompStudio.Runtime
