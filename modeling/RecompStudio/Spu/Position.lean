import RecompStudio.Spu.Runs

/-!
Which sample a voice plays. At a constant pitch the position moves on by the pitch, in
4096ths of a sample; at the end of a block the rest of a step waits for the next one.
-/

namespace RecompStudio.Spu

open SpuState

/-- The voice behind so many of its blocks: in the order of their addresses, from the
repeat address behind an end block. -/
def streamAt (ram : Ram) (v : Voice) : Nat → Voice
  | 0 => v
  | k + 1 => decodedVoice ram (jumpedVoice (streamAt ram v k))

/-- The samples of the blocks in turn. -/
def sampleAt (ram : Ram) (v : Voice) (j : Nat) : Int :=
  (streamAt ram v (j / blockSamples + 1)).samples.getD (j % blockSamples) 0

/-- Voices at the same place of the same samples. -/
structure SameStream (v w : Voice) : Prop where
  curAddr : v.curAddr = w.curAddr
  repeatAddr : v.repeatAddr = w.repeatAddr
  flags : v.flags = w.flags
  hist1 : v.hist1 = w.hist1
  hist2 : v.hist2 = w.hist2
  samples : v.samples = w.samples

theorem SameStream.refl (v : Voice) : SameStream v v := ⟨rfl, rfl, rfl, rfl, rfl, rfl⟩

theorem SameStream.trans {u v w : Voice} (h : SameStream u v) (h' : SameStream v w) :
    SameStream u w :=
  ⟨h.curAddr.trans h'.curAddr, h.repeatAddr.trans h'.repeatAddr, h.flags.trans h'.flags,
    h.hist1.trans h'.hist1, h.hist2.trans h'.hist2, h.samples.trans h'.samples⟩

theorem SameStream.jumped {v w : Voice} (h : SameStream v w) :
    SameStream (jumpedVoice v) (jumpedVoice w) := by
  obtain ⟨hCur, hRepeat, hFlags, hHist1, hHist2, hSamples⟩ := h
  rw [jumpedVoice, jumpedVoice, hFlags, hRepeat]
  by_cases hEnd : w.flags &&& 1 = 0
  · rw [if_pos hEnd, if_pos hEnd]
    exact ⟨hCur, hRepeat, hFlags, hHist1, hHist2, hSamples⟩
  · rw [if_neg hEnd, if_neg hEnd]
    by_cases hLoop : w.flags &&& 2 ≠ 0
    · simp only [if_pos hLoop]
      exact ⟨rfl, rfl, rfl, hHist1, hHist2, hSamples⟩
    · simp only [if_neg hLoop]
      exact ⟨rfl, rfl, rfl, hHist1, hHist2, hSamples⟩

theorem SameStream.decoded (ram : Ram) {v w : Voice} (h : SameStream v w) :
    SameStream (decodedVoice ram v) (decodedVoice ram w) := by
  obtain ⟨hCur, hRepeat, hFlags, hHist1, hHist2, hSamples⟩ := h
  have hAddr : blockAddr v = blockAddr w := by
    rw [blockAddr, blockAddr, hCur]
  simp only [decodedVoice, hAddr, hRepeat, hHist1, hHist2]
  exact ⟨rfl, rfl, rfl, rfl, rfl, rfl⟩

/-- The loop moves whole samples from the phase to the index, up to the block's end. -/
theorem consumePhase_eq (left sampleIdx phase : Nat) {position : Nat × Nat}
    (hPosition : consumePhase left sampleIdx phase = position) :
    position.1 ≤ sampleIdx + left ∧
      position.1 * 0x1000 + position.2 = sampleIdx * 0x1000 + phase ∧
      (position.1 < sampleIdx + left → position.2 < 0x1000) ∧ position.2 ≤ phase := by
  induction left generalizing sampleIdx phase with
  | zero =>
      subst hPosition
      exact ⟨Nat.le_refl _, rfl, fun h => absurd h (Nat.lt_irrefl _), Nat.le_refl _⟩
  | succ left ih =>
      rw [consumePhase] at hPosition
      by_cases hWhole : 0x1000 ≤ phase
      · rw [if_pos hWhole] at hPosition
        obtain ⟨hIdx, hSum, hRest, hLe⟩ := ih (sampleIdx + 1) (phase - 0x1000) hPosition
        have hPhase := Nat.sub_add_cancel hWhole
        exact ⟨by omega, by linarith, fun h => hRest (by omega), by omega⟩
      · rw [if_neg hWhole] at hPosition
        subst hPosition
        exact ⟨Nat.le_add_right _ _, rfl, fun _ => Nat.lt_of_not_le hWhole, Nat.le_refl _⟩

/-- A change that leaves the samples, the position and the activity of a voice alone. -/
structure Untouched (i : Nat) (s t : SpuState) : Prop where
  ram : t.ram = s.ram
  stream : SameStream (t.voices i) (s.voices i)
  sampleIdx : (t.voices i).sampleIdx = (s.voices i).sampleIdx
  phase : (t.voices i).phase = (s.voices i).phase
  active : (t.voices i).active = (s.voices i).active

/-- So many samples were taken from a voice since it was keyed on, all with one pitch. -/
inductive Playing (start : SpuState) (i p : Nat) : Nat → SpuState → Prop where
  | keyed (mask : BitVec 32) (hVoice : i < voiceCount) (hBit : mask.getLsbD i = true) :
      Playing start i p 0 (start.keyOn mask)
  | sample {n : Nat} {s : SpuState} (hPlaying : Playing start i p n s)
      (hPitch : (s.voiceReg i 2).toNat % 0x4000 = p) :
      Playing start i p (n + 1) (s.voiceNextSample i).2
  | other {n : Nat} {s t : SpuState} (hPlaying : Playing start i p n s)
      (hOther : Untouched i s t) : Playing start i p n t

/-- The sample that a position in 4096ths is in. -/
@[grind =] def sampleNumber (p n : Nat) : Nat := n * p / 0x1000

/-- The blocks that are decoded before sample `n` is taken. -/
def blocksBefore (p : Nat) : Nat → Nat
  | 0 => 0
  | n + 1 => sampleNumber p n / blockSamples + 1

/-- A block is decoded for sample `n`, and the step to it went past the block's first
sample. -/
def Overshoots (p n : Nat) : Prop :=
  blocksBefore p n < blocksBefore p (n + 1) ∧ sampleNumber p n % blockSamples ≠ 0

instance (p n : Nat) : Decidable (Overshoots p n) := inferInstanceAs (Decidable (_ ∧ _))

/-- Where an active voice stands before sample `n`. A phase of a whole sample or more is
left over at the end of a block only. -/
structure Placed (start : SpuState) (i p n : Nat) (s : SpuState) : Prop where
  ram : s.ram = start.ram
  stream : SameStream (s.voices i) (streamAt start.ram (start.keyedVoice i) (blocksBefore p n))
  idx_le : (s.voices i).sampleIdx ≤ blockSamples
  within : (s.voices i).sampleIdx < blockSamples → (s.voices i).phase < 0x1000
  phase_lt : (s.voices i).phase < 0x5000
  position : n * p + blockSamples * 0x1000 =
    blockSamples * 0x1000 * blocksBefore p n + (s.voices i).sampleIdx * 0x1000 + (s.voices i).phase

/-- Where a voice stands when sample `n` is taken. Behind a decoded block it is at the
block's first sample, wherever the step led to. -/
structure AtSample (start : SpuState) (i p n : Nat) (v : Voice) : Prop where
  stream : SameStream v (streamAt start.ram (start.keyedVoice i) (blocksBefore p (n + 1)))
  idx_lt : v.sampleIdx < blockSamples
  phase_lt : v.phase < 0x5000
  decoded : blocksBefore p n < blocksBefore p (n + 1) → v.sampleIdx = 0
  within : ¬blocksBefore p n < blocksBefore p (n + 1) → v.phase < 0x1000
  position : n * p = blockSamples * 0x1000 * (sampleNumber p n / blockSamples) +
    v.sampleIdx * 0x1000 + v.phase

section Placed

variable {start s t : SpuState} {i p n : Nat}

theorem block_eq {k rest : Nat} (hPosition : n * p = blockSamples * 0x1000 * k + rest)
    (hRest : rest < blockSamples * 0x1000) : sampleNumber p n / blockSamples = k := by
  rw [sampleNumber, Nat.div_div_eq_div_mul, hPosition, Nat.mul_comm 0x1000,
    Nat.mul_add_div (by decide), Nat.div_eq_of_lt hRest, Nat.add_zero]

theorem phase_decodedVoice (ram : Ram) (v : Voice) :
    (decodedVoice ram (jumpedVoice v)).phase = v.phase := by
  change (jumpedVoice v).phase = v.phase
  simp only [jumpedVoice]
  split_ifs <;> rfl

/-- The place of a voice says where the next sample is taken. -/
theorem Placed.ready (hPlaced : Placed start i p n s) :
    AtSample start i p n (readyVoice s.ram (s.voices i)) := by
  obtain ⟨hRam, hStream, hIdx, hWithin, hPhase, hPosition⟩ := hPlaced
  have hSize : blockSamples * 0x1000 = 114688 := rfl
  have hBlocks : blocksBefore p (n + 1) = sampleNumber p n / blockSamples + 1 := rfl
  rw [readyVoice, hRam]
  by_cases hEnd : blockSamples ≤ (s.voices i).sampleIdx
  · -- The phase that is left over is behind the block that is decoded.
    rw [if_pos hEnd]
    have hIdxEq : (s.voices i).sampleIdx = blockSamples := Nat.le_antisymm hIdx hEnd
    rw [hIdxEq] at hPosition
    have hPos : n * p = blockSamples * 0x1000 * blocksBefore p n + (s.voices i).phase := by
      linarith
    have hBlock := block_eq hPos (by linarith)
    rw [hBlock] at hBlocks
    have hKept := phase_decodedVoice start.ram (s.voices i)
    refine ⟨?_, Nat.zero_lt_succ _, hKept ▸ hPhase, fun _ => rfl, fun h => ?_, ?_⟩
    · rw [hBlocks]
      exact hStream.jumped.decoded start.ram
    · exact absurd (Nat.lt_of_lt_of_eq (Nat.lt_succ_self _) hBlocks.symm) h
    · have hFirst : (decodedVoice start.ram (jumpedVoice (s.voices i))).sampleIdx = 0 := rfl
      rw [hBlock, hKept, hPos, hFirst, Nat.zero_mul, Nat.add_zero]
  · -- The same block goes on.
    rw [if_neg hEnd]
    have hIdxLt : (s.voices i).sampleIdx < blockSamples := Nat.lt_of_not_le hEnd
    have hLow := hWithin hIdxLt
    have hRest : (s.voices i).sampleIdx * 0x1000 + (s.voices i).phase < blockSamples * 0x1000 := by
      have hMul := Nat.mul_le_mul_right 0x1000 (Nat.succ_le_of_lt hIdxLt)
      rw [Nat.succ_mul] at hMul
      linarith
    obtain ⟨k, hSome⟩ : ∃ k, blocksBefore p n = k + 1 := by
      cases hCount : blocksBefore p n with
      | zero =>
          rw [hCount, Nat.mul_zero] at hPosition
          linarith [Nat.zero_le (n * p)]
      | succ k => exact ⟨k, rfl⟩
    rw [hSome] at hPosition hStream
    have hPos : n * p = blockSamples * 0x1000 * k +
        ((s.voices i).sampleIdx * 0x1000 + (s.voices i).phase) := by linarith
    have hBlock := block_eq hPos hRest
    rw [hBlock] at hBlocks
    refine ⟨?_, hIdxLt, hPhase, fun h => ?_, fun _ => hLow, ?_⟩
    · rw [hBlocks]
      exact hStream
    · exact absurd h (by rw [hBlocks, hSome]; exact Nat.lt_irrefl _)
    · rw [hBlock]
      linarith

/-- A step of at most four samples, with what is left over, ends in its block. -/
theorem movedVoice_placed {v : Voice} {pitch : Nat} (hIdx : v.sampleIdx < blockSamples)
    (hPhase : v.phase < 0x5000) (hFirst : v.sampleIdx = 0 ∨ v.phase < 0x1000)
    (hPitch : pitch ≤ 0x3FFF) :
    (movedVoice pitch v).sampleIdx ≤ blockSamples ∧
      ((movedVoice pitch v).sampleIdx < blockSamples → (movedVoice pitch v).phase < 0x1000) ∧
      (movedVoice pitch v).phase < 0x5000 ∧
      (movedVoice pitch v).sampleIdx * 0x1000 + (movedVoice pitch v).phase =
        v.sampleIdx * 0x1000 + v.phase + pitch := by
  have hMod : (v.phase + pitch) % 2 ^ 32 = v.phase + pitch := Nat.mod_eq_of_lt (by omega)
  obtain ⟨hLe, hSum, hWithin, hRest⟩ :=
    @consumePhase_eq (blockSamples - v.sampleIdx) v.sampleIdx ((v.phase + pitch) % 2 ^ 32)
      ((movedVoice pitch v).sampleIdx, (movedVoice pitch v).phase) rfl
  have hLeft : v.sampleIdx + (blockSamples - v.sampleIdx) = blockSamples :=
    Nat.add_sub_of_le hIdx.le
  generalize (movedVoice pitch v).sampleIdx = sampleIdx at hLe hSum hWithin
  generalize (movedVoice pitch v).phase = phase at hSum hWithin hRest
  simp only [hLeft] at hLe hWithin
  simp only [hMod] at hSum hRest
  refine ⟨hLe, hWithin, ?_, by rw [hSum, Nat.add_assoc]⟩
  rcases hFirst with hZero | hLow
  · -- From the first sample a step does not reach the block's end.
    have hShort : sampleIdx < blockSamples := by
      by_contra hEnd
      have hMul := Nat.mul_le_mul_right 0x1000 (Nat.le_of_not_lt hEnd)
      have hSize : blockSamples * 0x1000 = 114688 := rfl
      rw [hZero] at hSum
      linarith
    exact (hWithin hShort).trans (by decide)
  · exact hRest.trans_lt (by omega)

/-- The envelope leaves the samples and the position alone. -/
theorem adsrRun_stream (regs : Regs) (idx : Nat) (v : Voice) :
    SameStream (adsrRun regs idx v) v ∧ (adsrRun regs idx v).sampleIdx = v.sampleIdx ∧
      (adsrRun regs idx v).phase = v.phase := by
  simp only [adsrRun]
  split_ifs <;> exact ⟨⟨rfl, rfl, rfl, rfl, rfl, rfl⟩, rfl, rfl⟩

theorem pitchOf_ready (s : SpuState) (idx : Nat) : (s.ready idx).pitchOf idx = s.pitchOf idx := by
  rw [pitchOf, pitchOf, voiceReg_ready s idx idx (by decide)]

theorem pitchOf_eq (hPos : 1 ≤ p) (hPitch : (s.voiceReg i 2).toNat % 0x4000 = p) :
    s.pitchOf i = p := by
  rw [pitchOf, hPitch]
  exact if_neg (Nat.ne_of_gt hPos)

/-- A sample moves an active voice on by the pitch. -/
theorem Placed.sample (hPlaced : Placed start i p n s) (hActive : (s.voices i).active = true)
    (hRange : 1 ≤ p ∧ p ≤ 0x3FFF) (hPitch : (s.voiceReg i 2).toNat % 0x4000 = p) :
    Placed start i p (n + 1) (s.voiceNextSample i).2 := by
  have hAt := hPlaced.ready
  have hVoice : (s.voiceNextSample i).2.voices i =
      movedVoice p (adsrRun (s.ready i).regs i (readyVoice s.ram (s.voices i))) := by
    rw [voiceNextSample_active hActive, pitchOf_ready, pitchOf_eq hRange.1 hPitch]
    exact voices_setVoice_self _ _
  obtain ⟨hSame, hIdx, hPhase⟩ :=
    adsrRun_stream (s.ready i).regs i (readyVoice s.ram (s.voices i))
  generalize adsrRun (s.ready i).regs i (readyVoice s.ram (s.voices i)) = w at *
  have hFirst : w.sampleIdx = 0 ∨ w.phase < 0x1000 := by
    by_cases hNew : blocksBefore p n < blocksBefore p (n + 1)
    · exact Or.inl (hIdx.trans (hAt.decoded hNew))
    · exact Or.inr (hPhase ▸ hAt.within hNew)
  obtain ⟨hLe, hWithin, hLow, hSum⟩ :=
    movedVoice_placed (hIdx ▸ hAt.idx_lt) (hPhase ▸ hAt.phase_lt) hFirst hRange.2
  rw [← hVoice] at hLe hWithin hLow hSum
  have hMoved : SameStream ((s.voiceNextSample i).2.voices i) w := by
    rw [hVoice]
    exact ⟨rfl, rfl, rfl, rfl, rfl, rfl⟩
  refine ⟨(ram_voiceNextSample s i).trans hPlaced.ram, (hMoved.trans hSame).trans hAt.stream, hLe,
    hWithin, hLow, ?_⟩
  have hPosition := hAt.position
  have hBlocks : blocksBefore p (n + 1) = sampleNumber p n / blockSamples + 1 := rfl
  rw [← hIdx, ← hPhase] at hPosition
  rw [hBlocks, Nat.mul_succ, Nat.succ_mul]
  linarith

/-- While a voice is active it is where the pitch led it. -/
theorem Playing.placed (hPlaying : Playing start i p n s) (hRange : 1 ≤ p ∧ p ≤ 0x3FFF)
    (hActive : (s.voices i).active = true) : Placed start i p n s := by
  induction hPlaying with
  | keyed mask hVoice hBit =>
      have hKeyed : (start.keyOn mask).voices i = start.keyedVoice i := if_pos ⟨hVoice, hBit⟩
      refine ⟨rfl, hKeyed ▸ .refl _, ?_, ?_, ?_, ?_⟩
      · rw [hKeyed]
        exact Nat.le_refl _
      · rw [hKeyed]
        exact fun h => absurd h (Nat.lt_irrefl _)
      · rw [hKeyed]
        exact Nat.zero_lt_succ _
      · have hNone : blocksBefore p 0 = 0 := rfl
        have hEnd : (start.keyedVoice i).sampleIdx = blockSamples := rfl
        have hPhase : (start.keyedVoice i).phase = 0 := rfl
        rw [hKeyed, hNone, hEnd, hPhase, Nat.zero_mul, Nat.mul_zero, Nat.add_zero]
  | @sample n s hPlaying hPitch ih =>
      have hBefore : (s.voices i).active = true := by
        cases hWas : (s.voices i).active with
        | true => rfl
        | false =>
            rw [voiceNextSample_inactive hWas] at hActive
            exact hWas.symm.trans hActive
      exact (ih hBefore).sample hBefore hRange hPitch
  | @other n s t hPlaying hOther ih =>
      obtain ⟨hRam, hStream, hIdx, hWithin, hPhase, hPosition⟩ := ih (hOther.active ▸ hActive)
      rw [← hOther.sampleIdx] at hIdx hWithin hPosition
      rw [← hOther.phase] at hWithin hPhase hPosition
      exact ⟨hOther.ram.trans hRam, hOther.stream.trans hStream, hIdx, hWithin, hPhase, hPosition⟩

/-- The sample that is played: the one at the position, or the first of a block that the
step went into. -/
theorem AtSample.played {v : Voice} (hAt : AtSample start i p n v) :
    v.samples.getD v.sampleIdx 0 = sampleAt start.ram (start.keyedVoice i)
      (if Overshoots p n then sampleNumber p n / blockSamples * blockSamples
        else sampleNumber p n) := by
  obtain ⟨hStream, hIdx, hPhase, hDecoded, hWithin, hPosition⟩ := hAt
  have hBlocks : blocksBefore p (n + 1) = sampleNumber p n / blockSamples + 1 := rfl
  have hAt (j : Nat) (hBlock : j / blockSamples = sampleNumber p n / blockSamples)
      (hPlace : j % blockSamples = v.sampleIdx) :
      v.samples.getD v.sampleIdx 0 = sampleAt start.ram (start.keyedVoice i) j := by
    rw [sampleAt, hBlock, hPlace, ← hBlocks, hStream.samples]
  -- The position within the block, in samples.
  have hNumber : sampleNumber p n =
      blockSamples * (sampleNumber p n / blockSamples) + v.sampleIdx + v.phase / 0x1000 := by
    have hSplit : n * p =
      (blockSamples * (sampleNumber p n / blockSamples) + v.sampleIdx) * 0x1000 +
        v.phase := by linarith
    conv_lhs => rw [sampleNumber, hSplit, Nat.add_comm, Nat.add_mul_div_right _ _ (by decide)]
    exact Nat.add_comm _ _
  have hDivMod := Nat.div_add_mod (sampleNumber p n) blockSamples
  have hRest : sampleNumber p n % blockSamples = v.sampleIdx + v.phase / 0x1000 := by
    rw [Nat.add_assoc] at hNumber
    exact Nat.add_left_cancel (hDivMod.trans hNumber)
  by_cases hOver : Overshoots p n
  · rw [if_pos hOver]
    refine hAt _ (Nat.mul_div_cancel _ (by decide)) ?_
    rw [Nat.mul_mod_left, hDecoded hOver.1]
  · rw [if_neg hOver]
    refine hAt _ rfl ?_
    by_cases hNew : blocksBefore p n < blocksBefore p (n + 1)
    · rw [hDecoded hNew]
      exact not_not.mp fun h => hOver ⟨hNew, h⟩
    · rw [hRest, Nat.div_eq_of_lt (hWithin hNew), Nat.add_zero]

end Placed

section Played

variable {start s : SpuState} {i p n : Nat}

/-- The envelope level of a sample: zero behind an end block that does not repeat. -/
def levelAt (v : Voice) : BitVec 16 :=
  if blockSamples ≤ v.sampleIdx ∧ v.flags &&& 1 ≠ 0 ∧ v.flags &&& 2 = 0 then 0 else v.envLevel

theorem levelAt_eq (ram : Ram) {v : Voice} (hActive : v.active = true) :
    (readyVoice ram v).envLevel = levelAt v := by
  rw [levelAt]
  rcases readyVoice_envelope ram hActive with ⟨hEnd, _, _, hLevel⟩ | ⟨hEnd, _, _, hLevel⟩
  · rw [hLevel, if_pos hEnd.2]
  · rw [hLevel, if_neg fun h => hEnd ⟨hActive, h⟩]

theorem voiceNextSample_played (hPlaying : Playing start i p n s) (hRange : 1 ≤ p ∧ p ≤ 0x3FFF)
    (hActive : (s.voices i).active = true) :
    (s.voiceNextSample i).1 = shape (sampleAt start.ram (start.keyedVoice i)
      (if Overshoots p n then sampleNumber p n / blockSamples * blockSamples
        else sampleNumber p n)) (levelAt (s.voices i)) := by
  rw [voiceNextSample_active hActive, ← (hPlaying.placed hRange hActive).ready.played,
    ← levelAt_eq s.ram hActive]

/-- A sample is the one at its position, exactly unless the step to it went past the first
sample of a block and the two sound different. -/
theorem plays_position_iff (hPlaying : Playing start i p n s) (hRange : 1 ≤ p ∧ p ≤ 0x3FFF)
    (hActive : (s.voices i).active = true) :
    (s.voiceNextSample i).1 =
        shape (sampleAt start.ram (start.keyedVoice i) (n * p / 0x1000)) (levelAt (s.voices i)) ↔
      ¬Overshoots p n ∨
        shape (sampleAt start.ram (start.keyedVoice i)
            (n * p / 0x1000 / blockSamples * blockSamples)) (levelAt (s.voices i)) =
          shape (sampleAt start.ram (start.keyedVoice i) (n * p / 0x1000))
            (levelAt (s.voices i)) := by
  rw [voiceNextSample_played hPlaying hRange hActive, ← sampleNumber]
  by_cases hOver : Overshoots p n
  · rw [if_pos hOver]
    exact ⟨Or.inr, fun h => h.resolve_left (not_not.mpr hOver)⟩
  · rw [if_neg hOver]
    exact ⟨fun _ => Or.inl hOver, fun _ => rfl⟩

end Played

/-- Voice 0 at address 0 with the highest pitch. -/
def highVoice (ram : Nat → Byte) : SpuState :=
  { SpuState.init with ram, regs := fun r => if r = 2 then 0x3FFF else 0 }

/-- So many samples of voice 0 behind its key-on. -/
def samplesBehind (start : SpuState) : Nat → SpuState
  | 0 => start.keyOn 1
  | n + 1 => ((samplesBehind start n).voiceNextSample 0).2

theorem highVoice_playing (ram : Nat → Byte) (n : Nat) :
    Playing (highVoice ram) 0 0x3FFF n (samplesBehind (highVoice ram) n) := by
  have hPitch (n : Nat) : (samplesBehind (highVoice ram) n).voiceReg 0 2 = 0x3FFF := by
    induction n with
    | zero => rfl
    | succ n ih => exact (voiceReg_voiceNextSample _ 0 0 (by decide)).trans ih
  induction n with
  | zero => exact .keyed 1 (by decide) rfl
  | succ n ih => exact .sample ih (by rw [hPitch]; rfl)

/-- The samples 31 and 35 stand in the second block. -/
def secondBlock (a : Nat) : Byte := if a = 19 then 0x70 else if a = 21 then 0x50 else 0

/-- Sample 9 is at position 35, in the block behind the one that sample 8 went past the
start of. -/
theorem plays_position_secondBlock :
    Overshoots 0x3FFF 8 ∧ ¬ Overshoots 0x3FFF 9 ∧
    ((samplesBehind (highVoice secondBlock) 9).voiceNextSample 0).1 ≠ 0 ∧
    ((samplesBehind (highVoice secondBlock) 9).voiceNextSample 0).1 =
      shape (sampleAt (highVoice secondBlock).ram ((highVoice secondBlock).keyedVoice 0)
          (9 * 0x3FFF / 0x1000))
        (levelAt ((samplesBehind (highVoice secondBlock) 9).voices 0)) :=
  ⟨by decide, by decide, by decide +kernel,
    (plays_position_iff (highVoice_playing secondBlock 9) (by decide) (by decide +kernel)).mpr
      (Or.inl (by decide))⟩

/-- Only sample 31 is not zero. -/
def lateSample : SpuState := highVoice fun a => if a = 19 then 0x70 else 0

/-- Sample 8 is at position 31 and plays the first one of its block. -/
theorem position_not_played :
    ∃ start i p n s, Playing start i p n s ∧ (1 ≤ p ∧ p ≤ 0x3FFF) ∧ (s.voices i).active = true ∧
      (s.voiceNextSample i).1 ≠
        shape (sampleAt start.ram (start.keyedVoice i) (n * p / 0x1000)) (levelAt (s.voices i)) :=
  ⟨lateSample, 0, 0x3FFF, 8, samplesBehind lateSample 8, highVoice_playing _ 8, by decide,
    by decide, by decide +kernel⟩

end RecompStudio.Spu
