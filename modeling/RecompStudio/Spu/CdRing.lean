import RecompStudio.Library.RingQueue
import RecompStudio.Spu.Runs

/-!
The ring of the CD input holds a queue that drops its oldest frames, over any events.
-/

namespace RecompStudio.Spu

open SpuState RingQueue

structure CdPart where
  ring : CdRing
  readPos : Nat
  writePos : Nat
  frameCount : Nat
  pushFrames : BitVec 64
  overflowFrames : BitVec 64

def cdPart (s : SpuState) : CdPart :=
  ⟨s.cdRing, s.cdReadPos, s.cdWritePos, s.cdFrameCount, s.cdPushFrames, s.cdOverflowFrames⟩

section Part

variable (s : SpuState)

@[simp] theorem cdPart_transferHalf (value : BitVec 32) :
    cdPart (s.transferHalf value) = cdPart s := by
  simp only [transferHalf]
  split <;> rfl

@[simp] theorem cdPart_dmaWrite (word : BitVec 32) : cdPart (s.dmaWrite word) = cdPart s := by
  simp only [dmaWrite]
  split <;> rfl

@[simp] theorem cdPart_keyOn (mask : BitVec 32) : cdPart (s.keyOn mask) = cdPart s := rfl

@[simp] theorem cdPart_keyOff (mask : BitVec 32) : cdPart (s.keyOff mask) = cdPart s := rfl

@[simp] theorem cdPart_setRepeat (idx : Nat) (value : BitVec 16) :
    cdPart (s.setRepeat idx value) = cdPart s := rfl

@[simp] theorem cdPart_write (addr value : BitVec 32) : cdPart (s.write addr value) = cdPart s := by
  have hAddr (t : SpuState) (a : Nat) : cdPart { t with transferAddr := a } = cdPart t := rfl
  have hRegs (t : SpuState) (regs : Regs) : cdPart { t with regs := regs } = cdPart t := rfl
  simp only [SpuState.write, apply_ite cdPart, cdPart_transferHalf, hAddr, cdPart_keyOff,
    cdPart_keyOn, cdPart_setRepeat, hRegs, ite_self]

@[simp] theorem cdPart_voiceNextSample (idx : Nat) :
    cdPart (s.voiceNextSample idx).2 = cdPart s := by
  cases hActive : (s.voices idx).active with
  | false => rw [voiceNextSample_inactive hActive]
  | true =>
      rw [voiceNextSample_active hActive]
      change cdPart (s.ready idx) = cdPart s
      rw [SpuState.ready]
      split <;> rfl

end Part

/-- The frames that a push hands over. -/
def pushedFrames : Event → List (Int × Int)
  | .push (some stereo) frames => stereo.take frames.toNat
  | _ => []

/-- The buffer of a push holds its frames. -/
def SpuState.Event.Backed : Event → Prop
  | .push (some stereo) frames => frames.toNat ≤ stereo.length
  | _ => True

/-- What an event does to the queue. -/
def ledgerStep (cap : Nat) (l : Ledger (Int × Int)) : Event → Ledger (Int × Int)
  | .pop => l.pop
  | .reset => .empty
  | e => l.push cap (pushedFrames e)

/-- The frames of pushes longer than the ring that were skipped. -/
def skipStep (cap skipped : Nat) : Event → Nat
  | .reset => 0
  | e => skipped + ((pushedFrames e).length - cap)

/-- An event that hands over no frames leaves the queue as it is. -/
theorem ledgerStep_nothing {cap skipped : Nat} {l : Ledger (Int × Int)} {e : Event}
    (hLength : l.queue.length ≤ cap) (hFrames : pushedFrames e = []) (hPop : e ≠ .pop)
    (hReset : e ≠ .reset) : ledgerStep cap l e = l ∧ skipStep cap skipped e = skipped := by
  have hPush : ledgerStep cap l e = l.push cap (pushedFrames e) := by
    cases e with
    | pop => exact absurd rfl hPop
    | reset => exact absurd rfl hReset
    | _ => rfl
  have hSkip : skipStep cap skipped e = skipped + ((pushedFrames e).length - cap) := by
    cases e with
    | reset => exact absurd rfl hReset
    | _ => rfl
  rw [hPush, hSkip, hFrames, Ledger.push_nil hLength, List.length_nil, Nat.zero_sub]
  exact ⟨rfl, rfl⟩

/-- A ring holds the queue and counts it. -/
structure CdHolds (cap : Nat) (p : CdPart) (l : Ledger (Int × Int)) (skipped : Nat) : Prop where
  ring : Holds cap p.ring p.readPos p.writePos l.queue
  count : p.frameCount = l.queue.length
  overflow : p.overflowFrames = BitVec.ofNat 64 l.dropped
  pushes : p.pushFrames + BitVec.ofNat 64 skipped = BitVec.ofNat 64 l.pushed.length

/-- The counters behind a push: what is skipped and what is dropped are the oldest frames of
all. -/
theorem CdHolds.pushed {cap : Nat} {p : CdPart} {l : Ledger (Int × Int)} {skipped : Nat}
    (h : CdHolds cap p l skipped) (xs : List (Int × Int)) {ring : CdRing} {readPos writePos : Nat}
    (hRing : Holds cap ring readPos writePos (pushDropping cap l.queue xs)) :
    CdHolds cap
      ⟨ring, readPos, writePos,
        (l.queue.drop (l.queue.length + (xs.drop (xs.length - cap)).length - cap)).length +
          (xs.drop (xs.length - cap)).length,
        p.pushFrames + BitVec.ofNat 64 (xs.drop (xs.length - cap)).length,
        p.overflowFrames + BitVec.ofNat 64 (xs.length - cap) + BitVec.ofNat 64
          (l.queue.length + (xs.drop (xs.length - cap)).length - cap)⟩
      (l.push cap xs) (skipped + (xs.length - cap)) := by
  obtain ⟨hHeld, hCount, hOverflow, hPushes⟩ := h
  refine ⟨hRing, ?_, ?_, ?_⟩
  · rw [Ledger.queue_push, pushDropping_eq, List.length_append]
  · have hSum : l.queue.length + xs.length - cap = xs.length - cap +
        (l.queue.length + (xs.drop (xs.length - cap)).length - cap) := by
      have hLe := hHeld.length_le
      rw [List.length_drop]
      omega
    rw [Ledger.dropped_push, hSum, BitVec.ofNat_add, BitVec.ofNat_add, ← BitVec.add_assoc,
      hOverflow]
  · have hSum : xs.length = (xs.drop (xs.length - cap)).length + (xs.length - cap) := by
      rw [List.length_drop]
      omega
    rw [Ledger.pushed_push, List.length_append, BitVec.ofNat_add l.pushed.length, ← hPushes]
    conv_rhs => rw [hSum]
    rw [BitVec.ofNat_add, BitVec.ofNat_add]
    exact add_add_add_comm _ _ _ _

theorem cdHolds_reset (s : SpuState) : CdHolds cdRingFrames (cdPart s.cdAudioReset) .empty 0 :=
  ⟨holds_nil _ (Nat.zero_lt_succ _), rfl, rfl, rfl⟩

theorem cdPart_countFrames (s : SpuState) (n : Nat) :
    cdPart (s.countFrames n) =
      ⟨s.cdRing, s.cdReadPos, s.cdWritePos, s.cdFrameCount + n,
        s.cdPushFrames + BitVec.ofNat 64 n, s.cdOverflowFrames⟩ := rfl

section Push

variable {s : SpuState} {q : List (Int × Int)}

theorem cdPart_skipFrames (s : SpuState) (n : Nat) :
    cdPart (s.skipFrames n) = { cdPart s with
      overflowFrames := s.cdOverflowFrames + BitVec.ofNat 64 (n - cdRingFrames) } := by
  rw [skipFrames]
  by_cases hLong : cdRingFrames < n
  · rw [if_pos hLong]
    rfl
  · rw [if_neg hLong, Nat.sub_eq_zero_of_le (Nat.le_of_not_lt hLong), BitVec.add_zero]
    rfl

/-- The oldest frames make room for a push. -/
theorem holds_dropFrames (hRing : Holds cdRingFrames s.cdRing s.cdReadPos s.cdWritePos q)
    (hCount : s.cdFrameCount = q.length) {n : Nat} (hn : n ≤ cdRingFrames) :
    Holds cdRingFrames (s.dropFrames n).cdRing (s.dropFrames n).cdReadPos
        (s.dropFrames n).cdWritePos (q.drop (q.length + n - cdRingFrames)) ∧
      (s.dropFrames n).cdFrameCount = (q.drop (q.length + n - cdRingFrames)).length ∧
      (s.dropFrames n).cdPushFrames = s.cdPushFrames ∧
      (s.dropFrames n).cdOverflowFrames =
        s.cdOverflowFrames + BitVec.ofNat 64 (q.length + n - cdRingFrames) := by
  rw [dropFrames, ← hCount]
  by_cases hFull : cdRingFrames < s.cdFrameCount + n
  · have hDropped := hRing.drop (n := s.cdFrameCount + n - cdRingFrames) (by omega)
    rw [if_pos hFull]
    exact ⟨hDropped, by rw [List.length_drop, ← hCount], rfl, rfl⟩
  · rw [if_neg hFull, Nat.sub_eq_zero_of_le (Nat.le_of_not_lt hFull), BitVec.add_zero,
      List.drop_zero]
    exact ⟨hRing, hCount, rfl, rfl⟩

/-- The loop of a push appends the frames to the queue. -/
theorem holds_storeFrames {fs : List (Int × Int)}
    (hRing : Holds cdRingFrames s.cdRing s.cdReadPos s.cdWritePos q)
    (hRoom : q.length + fs.length ≤ cdRingFrames) :
    Holds cdRingFrames (s.storeFrames fs).cdRing (s.storeFrames fs).cdReadPos
        (s.storeFrames fs).cdWritePos (q ++ fs) ∧
      (s.storeFrames fs).cdFrameCount = s.cdFrameCount ∧
      (s.storeFrames fs).cdPushFrames = s.cdPushFrames ∧
      (s.storeFrames fs).cdOverflowFrames = s.cdOverflowFrames := by
  induction fs generalizing s q with
  | nil => exact ⟨by rw [List.append_nil]; exact hRing, rfl, rfl, rfl⟩
  | cons f fs ih =>
      rw [List.length_cons] at hRoom
      have hFirst := hRing.store (by omega) f
      have hRest := @ih { s with
          cdRing := Function.update s.cdRing s.cdWritePos f
          cdWritePos := (s.cdWritePos + 1) % cdRingFrames } _ hFirst
        (by rw [List.length_append, List.length_singleton]; omega)
      rw [List.append_assoc] at hRest
      exact hRest

/-- A push drops the oldest frames of the queue. -/
theorem cdHolds_push {l : Ledger (Int × Int)} {skipped : Nat}
    (hHolds : CdHolds cdRingFrames (cdPart s) l skipped) {stereo : List (Int × Int)} {frames : Int}
    (hSome : ¬frames ≤ 0) (hBacked : frames.toNat ≤ stereo.length) :
    CdHolds cdRingFrames (cdPart (s.cdAudioPush (some stereo) frames))
      (l.push cdRingFrames (stereo.take frames.toNat))
      (skipped + ((stereo.take frames.toNat).length - cdRingFrames)) := by
  rw [s.cdAudioPush_pos stereo hSome]
  have hLength : (stereo.take frames.toNat).length = frames.toNat := List.length_take_of_le hBacked
  generalize stereo.take frames.toNat = xs at hLength ⊢
  rw [keptFrames, ← hLength]
  have hKept : (xs.drop (xs.length - cdRingFrames)).length =
      xs.length - (xs.length - cdRingFrames) := List.length_drop
  rw [← hKept]
  obtain ⟨hRingT, hReadT, hWriteT, hCountT, hPushT, hOverflowT⟩ :=
    CdPart.mk.inj (cdPart_skipFrames s xs.length)
  generalize s.skipFrames xs.length = t at *
  have hRing : Holds cdRingFrames t.cdRing t.cdReadPos t.cdWritePos l.queue := by
    rw [hRingT, hReadT, hWriteT]
    exact hHolds.ring
  have hLe := hRing.length_le
  obtain ⟨hRingU, hCountU, hPushU, hOverflowU⟩ := holds_dropFrames hRing
    (hCountT.trans hHolds.count) (n := (xs.drop (xs.length - cdRingFrames)).length) (by omega)
  generalize t.dropFrames (xs.drop (xs.length - cdRingFrames)).length = u at *
  obtain ⟨hRingV, hCountV, hPushV, hOverflowV⟩ := @holds_storeFrames u _
    (xs.drop (xs.length - cdRingFrames)) hRingU (by rw [List.length_drop]; omega)
  rw [← pushDropping_eq] at hRingV
  rw [cdPart_countFrames, hCountV, hCountU, hPushV, hPushU, hPushT, hOverflowV, hOverflowU,
    hOverflowT]
  exact hHolds.pushed xs hRingV

/-- A pop takes the oldest frame. -/
theorem cdHolds_pop {l : Ledger (Int × Int)} {skipped : Nat}
    (hHolds : CdHolds cdRingFrames (cdPart s) l skipped) :
    s.cdAudioPop.1 = l.queue.head? ∧
        CdHolds cdRingFrames (cdPart s.cdAudioPop.2) l.pop skipped := by
  obtain ⟨hRing, hCount, hOverflow, hPushes⟩ := hHolds
  have hCount' : s.cdFrameCount = l.queue.length := hCount
  rw [cdAudioPop, hCount']
  by_cases hEmpty : l.queue = []
  · have hNone : l.queue.length = 0 := congrArg List.length hEmpty
    have hKept : l.pop.queue = l.queue := by rw [Ledger.pop, hEmpty]; rfl
    rw [if_pos hNone, hEmpty]
    exact ⟨rfl, hKept ▸ hRing, hKept ▸ hCount, hOverflow, hPushes⟩
  · obtain ⟨hHead, hRest⟩ := hRing.head hEmpty
    rw [if_neg fun h => hEmpty (List.length_eq_zero_iff.mp h), hHead]
    refine ⟨rfl, hRest, ?_, hOverflow, hPushes⟩
    exact (List.length_tail).symm

end Push

def SpuState.run (s : SpuState) (es : List Event) : SpuState := es.foldl step s

/-- What the events since a reset do to the queue. -/
def ledgerOf (es : List Event) : Ledger (Int × Int) := es.foldl (ledgerStep cdRingFrames) .empty

def skippedOf (es : List Event) : Nat := es.foldl (skipStep cdRingFrames) 0

variable {s : SpuState} {l : Ledger (Int × Int)} {skipped : Nat}

theorem cdHolds_step (hHolds : CdHolds cdRingFrames (cdPart s) l skipped) {e : Event}
    (hBacked : e.Backed) :
    CdHolds cdRingFrames (cdPart (s.step e)) (ledgerStep cdRingFrames l e)
      (skipStep cdRingFrames skipped e) := by
  have hSame (hPart : cdPart (s.step e) = cdPart s) (hFrames : pushedFrames e = [])
      (hPop : e ≠ .pop) (hReset : e ≠ .reset) :
      CdHolds cdRingFrames (cdPart (s.step e)) (ledgerStep cdRingFrames l e)
        (skipStep cdRingFrames skipped e) := by
    obtain ⟨hLedger, hSkip⟩ := @ledgerStep_nothing _ skipped l e hHolds.ring.length_le hFrames hPop
      hReset
    rw [hPart, hLedger, hSkip]
    exact hHolds
  cases e with
  | write addr value => exact hSame (cdPart_write s addr value) rfl nofun nofun
  | dma word => exact hSame (cdPart_dmaWrite s word) rfl nofun nofun
  | push stereo frames =>
      cases stereo with
      | none => exact hSame rfl rfl nofun nofun
      | some stereo =>
          by_cases hNone : frames ≤ 0
          · refine hSame (congrArg cdPart (if_pos hNone)) ?_ nofun nofun
            rw [pushedFrames, Int.toNat_of_nonpos hNone, List.take_zero]
          · exact cdHolds_push hHolds hNone hBacked
  | pop => exact (cdHolds_pop hHolds).2
  | underflow => exact hSame rfl rfl nofun nofun
  | reset => exact cdHolds_reset s
  | sample idx => exact hSame (cdPart_voiceNextSample s idx) rfl nofun nofun

theorem balanced_step (hBalanced : l.Balanced cdRingFrames) (e : Event) :
    (ledgerStep cdRingFrames l e).Balanced cdRingFrames := by
  cases e with
  | pop => exact hBalanced.pop
  | reset => exact Ledger.balanced_empty
  | _ => exact hBalanced.push _

theorem cdHolds_run (hHolds : CdHolds cdRingFrames (cdPart s) l skipped)
    (hBalanced : l.Balanced cdRingFrames) {es : List Event} (hBacked : ∀ e ∈ es, e.Backed) :
    CdHolds cdRingFrames (cdPart (s.run es)) (es.foldl (ledgerStep cdRingFrames) l)
        (es.foldl (skipStep cdRingFrames) skipped) ∧
      (es.foldl (ledgerStep cdRingFrames) l).Balanced cdRingFrames := by
  induction es generalizing s l skipped with
  | nil => exact ⟨hHolds, hBalanced⟩
  | cons e es ih =>
      exact ih (cdHolds_step hHolds (hBacked e List.mem_cons_self)) (balanced_step hBalanced e)
        fun e he => hBacked e (List.mem_cons_of_mem _ he)

end RecompStudio.Spu
