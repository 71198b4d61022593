import RecompStudio.Spu.CdRing

/-!
Transfers to the sound RAM, by the data port and by DMA in any order, and the claim
about them and the ring of the CD input together.
-/

namespace RecompStudio.Spu

open SpuState RingQueue

/-- The bytes of an event for the transfer. -/
@[grind =] def transferBytes : Event → List Byte
  | .write addr value => if addr = 0x1F801DA8 then [byteOf value 0, byteOf value 1] else []
  | .dma word => [byteOf word 0, byteOf word 1, byteOf word 2, byteOf word 3]
  | _ => []

/-- Bytes written from an address on, behind the end of RAM from its start. -/
@[grind =] def landed (ram : Ram) (base : Nat) : List Byte → Ram
  | [] => ram
  | b :: bs => landed (Function.update ram (base % ramSize) b) (base + 1) bs

theorem landed_append (ram : Ram) (base : Nat) (bs cs : List Byte) :
    landed ram base (bs ++ cs) = landed (landed ram base bs) (base + bs.length) cs := by
  induction bs generalizing ram base with
  | nil => rfl
  | cons b bs ih =>
      rw [List.cons_append, landed, landed, ih, List.length_cons, Nat.add_assoc, Nat.add_comm 1]

/-- An address that wraps lands in the same place. -/
theorem landed_mod (ram : Ram) (base : Nat) (bs : List Byte) :
    landed ram (base % ramSize) bs = landed ram base bs := by
  induction bs generalizing ram base with
  | nil => rfl
  | cons b bs ih =>
      have hNext : (base % ramSize + 1) % ramSize = (base + 1) % ramSize := Nat.mod_add_mod _ _ _
      rw [landed, landed, Nat.mod_mod, ← ih, hNext, ih]

/-- An event does not program the transfer address. -/
def SpuState.Event.KeepsAddress : Event → Prop
  | .write addr _ => addr ≠ 0x1F801DA6
  | _ => True

/-- No DMA word starts in the last halfword of RAM. -/
def WholeWords (base : Nat) (es : List Event) : Prop :=
  ∀ xs word ys, es = xs ++ .dma word :: ys →
    (base + (xs.flatMap transferBytes).length) % ramSize ≠ 0x7FFFE

theorem landed_cons {ram : Ram} {base : Nat} {b : Byte} {bs : List Byte} (hBase : base < ramSize) :
    landed ram base (b :: bs) = landed (Function.update ram base b) (base + 1) bs := by
  rw [landed, Nat.mod_eq_of_lt hBase]

section Step

variable {s : SpuState}

theorem transferHalf_lands {value : BitVec 32} (hFits : s.transferAddr + 1 < ramSize) :
    (s.transferHalf value).ram =
      landed s.ram s.transferAddr [byteOf value 0, byteOf value 1] := by
  rw [landed_cons (Nat.lt_of_succ_lt hFits), landed_cons hFits, transferHalf]
  simp only [if_pos hFits]
  rfl

theorem dmaWrite_lands {word : BitVec 32} (hFits : s.transferAddr + 3 < ramSize) :
    (s.dmaWrite word).ram = landed s.ram s.transferAddr (transferBytes (.dma word)) := by
  rw [transferBytes, landed_cons (by omega), landed_cons (by omega), landed_cons (by omega),
    landed_cons hFits, dmaWrite]
  simp only [if_pos hFits]
  rfl

theorem transferAddr_write {addr : BitVec 32} (value : BitVec 32) (hAddr : addr ≠ 0x1F801DA6)
    (hPort : addr ≠ 0x1F801DA8) : (s.write addr value).transferAddr = s.transferAddr := by
  have hKeyOn (t : SpuState) (mask : BitVec 32) :
    (t.keyOn mask).transferAddr = t.transferAddr := rfl
  have hKeyOff (t : SpuState) (mask : BitVec 32) : (t.keyOff mask).transferAddr = t.transferAddr :=
    rfl
  have hRepeat (t : SpuState) (idx : Nat) (half : BitVec 16) :
      (t.setRepeat idx half).transferAddr = t.transferAddr := rfl
  simp only [SpuState.write, if_neg hAddr, if_neg hPort, apply_ite SpuState.transferAddr, hKeyOn,
    hKeyOff, hRepeat, ite_self]

theorem transferAddr_voiceNextSample (idx : Nat) :
    (s.voiceNextSample idx).2.transferAddr = s.transferAddr := by
  cases hActive : (s.voices idx).active with
  | false => rw [voiceNextSample_inactive hActive]
  | true =>
      rw [voiceNextSample_active hActive]
      change (s.ready idx).transferAddr = s.transferAddr
      rw [SpuState.ready]
      split <;> rfl

/-- What an event does to the RAM and the transfer address: its bytes land, unless it is a
word that starts in the last halfword of RAM. -/
theorem transfer_step {e : Event} (hKeeps : e.KeepsAddress) (hEven : s.transferAddr % 2 = 0)
    (hIn : s.transferAddr < ramSize) :
    (s.step e).transferAddr = (s.transferAddr + (transferBytes e).length) % ramSize ∧
      ((∀ word, e = .dma word → s.transferAddr ≠ 0x7FFFE) →
        (s.step e).ram = landed s.ram s.transferAddr (transferBytes e)) := by
  have hSize : ramSize = 524288 := rfl
  have hNothing {t : SpuState} (hRam : t.ram = s.ram) (hAddr : t.transferAddr = s.transferAddr) :
      t.transferAddr = (s.transferAddr + ([] : List Byte).length) % ramSize ∧
        t.ram = landed s.ram s.transferAddr [] := by
    rw [hRam, hAddr, List.length_nil, Nat.add_zero, Nat.mod_eq_of_lt hIn]
    exact ⟨rfl, rfl⟩
  cases e with
  | write addr value =>
      by_cases hPort : addr = 0x1F801DA8
      · have hBytes : transferBytes (.write addr value) = [byteOf value 0, byteOf value 1] :=
          if_pos hPort
        have hLands := @transferHalf_lands (s.storeReg 0x1F801DA8 value) value
          (by change s.transferAddr + 1 < ramSize; omega)
        rw [hBytes, hPort]
        exact ⟨rfl, fun _ => hLands⟩
      · have hBytes : transferBytes (.write addr value) = [] := if_neg hPort
        obtain ⟨hAddr, hRam⟩ := hNothing (ram_write s value hPort)
          (transferAddr_write value hKeeps hPort)
        rw [hBytes]
        exact ⟨hAddr, fun _ => hRam⟩
  | dma word =>
      refine ⟨rfl, fun hWhole => dmaWrite_lands ?_⟩
      have hNe := hWhole word rfl
      omega
  | push stereo frames =>
      have hApart := s.apart_cdAudioPush stereo frames
      exact (hNothing hApart.ram hApart.transferAddr).imp_right fun h _ => h
  | pop =>
      exact (hNothing s.apart_cdAudioPop.ram s.apart_cdAudioPop.transferAddr).imp_right fun h _ => h
  | underflow => exact (hNothing rfl rfl).imp_right fun h _ => h
  | reset => exact (hNothing rfl rfl).imp_right fun h _ => h
  | sample idx =>
      exact (hNothing (ram_voiceNextSample s idx) (transferAddr_voiceNextSample idx)).imp_right
        fun h _ => h

theorem length_transferBytes (e : Event) : ∃ n, (transferBytes e).length = 2 * n := by
  cases e with
  | write addr value =>
      rw [transferBytes]
      split
      · exact ⟨1, rfl⟩
      · exact ⟨0, rfl⟩
  | dma word => exact ⟨2, rfl⟩
  | _ => exact ⟨0, rfl⟩

/-- The bytes of a run land one after the other. -/
theorem transfer_run {es : List Event} (hKeeps : ∀ e ∈ es, e.KeepsAddress)
    (hEven : s.transferAddr % 2 = 0) (hIn : s.transferAddr < ramSize) :
    (s.run es).transferAddr = (s.transferAddr + (es.flatMap transferBytes).length) % ramSize ∧
      (WholeWords s.transferAddr es →
        (s.run es).ram = landed s.ram s.transferAddr (es.flatMap transferBytes)) := by
  induction es generalizing s with
  | nil => exact ⟨(Nat.mod_eq_of_lt hIn).symm, fun _ => rfl⟩
  | cons e es ih =>
      obtain ⟨hAddr, hRam⟩ := transfer_step (hKeeps e List.mem_cons_self) hEven hIn
      obtain ⟨n, hLength⟩ := length_transferBytes e
      have hSize : ramSize = 524288 := rfl
      obtain ⟨hAddr', hRam'⟩ := @ih (s.step e) (fun e he => hKeeps e (List.mem_cons_of_mem _ he))
        (by rw [hAddr, hLength, hSize]; omega) (by rw [hAddr]; exact Nat.mod_lt _ (by decide))
      change ((s.step e).run es).transferAddr = _ ∧ (_ → ((s.step e).run es).ram = _)
      rw [List.flatMap_cons, List.length_append, landed_append, hAddr', hAddr, Nat.mod_add_mod,
        Nat.add_assoc]
      refine ⟨rfl, fun hWhole => ?_⟩
      have hFirst : ∀ word, e = .dma word → s.transferAddr ≠ 0x7FFFE := by
        intro word hDma
        have hNe := hWhole [] word es (by rw [hDma]; rfl)
        rwa [List.flatMap_nil, List.length_nil, Nat.add_zero, Nat.mod_eq_of_lt hIn] at hNe
      rw [hRam', hRam hFirst, hAddr, landed_mod]
      intro xs word ys hSplit
      have hNe := hWhole (e :: xs) word ys (by rw [hSplit]; rfl)
      rwa [List.flatMap_cons, List.length_append, ← Nat.add_assoc, ← Nat.mod_add_mod, ← hAddr]
        at hNe

end Step

/-- The state behind events, for the RAM and the transfer address that they started with. -/
structure RunRefines (ram : Ram) (base : Nat) (es : List Event) (t : SpuState) : Prop where
  popped : t.cdAudioPop.1 = (ledgerOf es).queue.head?
  count : t.cdFrameCount = (ledgerOf es).queue.length
  overflow : t.cdOverflowFrames = BitVec.ofNat 64 (ledgerOf es).dropped
  balanced : (ledgerOf es).Balanced cdRingFrames
  pushes : t.cdPushFrames = BitVec.ofNat 64 (ledgerOf es).popped.length + t.cdOverflowFrames +
      BitVec.ofNat 64 t.cdFrameCount ↔ skippedOf es % 2 ^ 64 = 0
  transferAddr : t.transferAddr = (base + (es.flatMap transferBytes).length) % ramSize
  landed : WholeWords base es → t.ram = landed ram base (es.flatMap transferBytes)

/-- What was pushed is counted without the frames that were skipped. -/
theorem CdHolds.pushes_iff {cap : Nat} {p : CdPart} {l : Ledger (Int × Int)} {skipped : Nat}
    (h : CdHolds cap p l skipped) (hBalanced : l.Balanced cap) :
    p.pushFrames = BitVec.ofNat 64 l.popped.length + p.overflowFrames +
        BitVec.ofNat 64 p.frameCount ↔ skipped % 2 ^ 64 = 0 := by
  have hSum := h.pushes
  rw [hBalanced.sum, BitVec.ofNat_add, BitVec.ofNat_add] at hSum
  rw [h.overflow, h.count, ← hSum, left_eq_add, ← BitVec.toNat_inj, BitVec.toNat_ofNat]
  exact Iff.rfl

theorem transferAddr_programmed (s : SpuState) (value : BitVec 32) :
    (s.write 0x1F801DA6 value).transferAddr = (value.setWidth 16).toNat * 8 := by
  have hHalf := (value.setWidth 16).isLt
  have hFits : (value.setWidth 16).toNat * 8 < ramSize := by
    rw [ramSize]
    omega
  exact if_pos hFits

/-- Behind a reset and a programmed transfer address, the CD ring is a queue that drops its
oldest frames, and the transferred bytes land one after the other as long as no DMA word
starts in the last halfword of RAM. -/
theorem ring_and_transfers (s : SpuState) (value : BitVec 32) {es : List Event}
    (hBacked : ∀ e ∈ es, e.Backed) (hKeeps : ∀ e ∈ es, e.KeepsAddress) :
    RunRefines s.ram ((value.setWidth 16).toNat * 8) es
      ((s.cdAudioReset.write 0x1F801DA6 value).run es) := by
  have hAddr := transferAddr_programmed s.cdAudioReset value
  have hRam : (s.cdAudioReset.write 0x1F801DA6 value).ram = s.ram :=
    ram_write s.cdAudioReset value (by decide)
  have hStart : CdHolds cdRingFrames (cdPart (s.cdAudioReset.write 0x1F801DA6 value)) .empty 0 := by
    rw [cdPart_write]
    exact cdHolds_reset s
  have hHalf := (value.setWidth 16).isLt
  have hSize : ramSize = 524288 := rfl
  obtain ⟨hHolds, hBalanced⟩ := cdHolds_run hStart Ledger.balanced_empty hBacked
  obtain ⟨hTransfer, hLanded⟩ := @transfer_run (s.cdAudioReset.write 0x1F801DA6 value) es hKeeps
    (by rw [hAddr]; omega) (by rw [hAddr, hSize]; omega)
  rw [hAddr] at hTransfer hLanded
  rw [hRam] at hLanded
  exact ⟨(cdHolds_pop hHolds).1, hHolds.count, hHolds.overflow, hBalanced,
    hHolds.pushes_iff hBalanced, hTransfer, hLanded⟩

/-- Two frames are pushed, one is popped and a halfword is written. -/
theorem ring_and_transfers_short :
    RunRefines SpuState.init.ram (((0x200 : BitVec 32).setWidth 16).toNat * 8)
      [.push (some [(1, 2), (3, 4)]) 2, .pop, .write 0x1F801DA8 0x5678]
      ((SpuState.init.cdAudioReset.write 0x1F801DA6 0x200).run
        [.push (some [(1, 2), (3, 4)]) 2, .pop, .write 0x1F801DA8 0x5678]) := by
  refine ring_and_transfers SpuState.init 0x200 ?_ ?_
  · simp only [List.forall_mem_cons]
    exact ⟨Nat.le_refl _, trivial, trivial, nofun⟩
  · have hPort : (0x1F801DA8 : BitVec 32) ≠ 0x1F801DA6 := by decide
    simp only [List.forall_mem_cons]
    exact ⟨trivial, trivial, hPort, nofun⟩

/-- Three halfwords from 7FFF8 on and a DMA word behind them, which is lost. -/
theorem split_word_lost :
    ∃ es : List Event, (∀ e ∈ es, ∃ v, e = .write 0x1F801DA8 v ∨ e = .dma v) ∧
      ((SpuState.init.cdAudioReset.write 0x1F801DA6 0xFFFF).run es).ram ≠
        landed SpuState.init.ram 0x7FFF8 (es.flatMap transferBytes) := by
  refine ⟨[.write 0x1F801DA8 1, .write 0x1F801DA8 1, .write 0x1F801DA8 1, .dma 0x01020304], ?_, ?_⟩
  · simp only [List.forall_mem_cons]
    exact ⟨⟨1, Or.inl rfl⟩, ⟨1, Or.inl rfl⟩, ⟨1, Or.inl rfl⟩, ⟨_, Or.inr rfl⟩, nofun⟩
  · intro h
    have hByte := congrFun h 0x7FFFE
    revert hByte
    decide

end RecompStudio.Spu
