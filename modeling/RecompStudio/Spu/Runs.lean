import RecompStudio.Spu.Envelope
import Mathlib.Logic.Relation

/-!
Runs of the sound processor: register writes, transfers, pushed CD frames and samples in
any order. What a render does is a run of its samples.
-/

namespace RecompStudio.Spu

namespace SpuState

section Frames

variable (s : SpuState) {i idx : Nat}

@[simp] theorem voices_storeByte (a : Nat) (b : Byte) : (s.storeByte a b).voices = s.voices := rfl

@[simp] theorem voices_setVoice_self (v : Voice) : (s.setVoice i v).voices i = v := by
  simp only [setVoice, Function.update_self]

theorem voices_setVoice_ne {j : Nat} (hNe : j ≠ i) (v : Voice) :
    (s.setVoice i v).voices j = s.voices j := by
  simp only [setVoice, Function.update_of_ne hNe]

@[simp] theorem voices_transferHalf (value : BitVec 32) :
    (s.transferHalf value).voices = s.voices := by
  simp only [transferHalf]
  split <;> rfl

@[simp] theorem voices_dmaWrite (word : BitVec 32) : (s.dmaWrite word).voices = s.voices := by
  simp only [dmaWrite]
  split <;> rfl

@[simp] theorem voices_decodeBlock : (s.decodeBlock i).voices i = decodedVoice s.ram (s.voices i) :=
  s.voices_setVoice_self _

theorem voices_decodeBlock_ne {j : Nat} (hNe : j ≠ i) :
    (s.decodeBlock i).voices j = s.voices j := s.voices_setVoice_ne hNe _

/-- States that differ in the CD input only. -/
structure ApartFromCd (s t : SpuState) : Prop where
  ram : t.ram = s.ram
  regs : t.regs = s.regs
  voices : t.voices = s.voices
  endx : t.endx = s.endx
  transferAddr : t.transferAddr = s.transferAddr

theorem ApartFromCd.refl (s : SpuState) : ApartFromCd s s := ⟨rfl, rfl, rfl, rfl, rfl⟩

theorem ApartFromCd.trans {s t u : SpuState} (h : ApartFromCd s t) (h' : ApartFromCd t u) :
    ApartFromCd s u :=
  ⟨h'.ram.trans h.ram, h'.regs.trans h.regs, h'.voices.trans h.voices, h'.endx.trans h.endx,
    h'.transferAddr.trans h.transferAddr⟩

theorem apart_skipFrames (n : Nat) : ApartFromCd s (s.skipFrames n) := by
  rw [skipFrames]
  split
  · exact ⟨rfl, rfl, rfl, rfl, rfl⟩
  · exact .refl s

theorem apart_dropFrames (n : Nat) : ApartFromCd s (s.dropFrames n) := by
  rw [dropFrames]
  split
  · exact ⟨rfl, rfl, rfl, rfl, rfl⟩
  · exact .refl s

theorem apart_storeFrames (fs : List (Int × Int)) : ApartFromCd s (s.storeFrames fs) := by
  induction fs generalizing s with
  | nil => exact .refl s
  | cons f fs ih =>
      have hFirst : ApartFromCd s { s with
          cdRing := Function.update s.cdRing s.cdWritePos f
          cdWritePos := (s.cdWritePos + 1) % cdRingFrames } := ⟨rfl, rfl, rfl, rfl, rfl⟩
      exact hFirst.trans (ih _)

/-- The frames of a push that are kept. -/
def keptFrames (frames : Int) : Nat := frames.toNat - (frames.toNat - cdRingFrames)

theorem cdAudioPush_pos (stereo : List (Int × Int)) {frames : Int} (hSome : ¬frames ≤ 0) :
    s.cdAudioPush (some stereo) frames =
      (((s.skipFrames frames.toNat).dropFrames (keptFrames frames)).storeFrames
        ((stereo.take frames.toNat).drop (frames.toNat - cdRingFrames))).countFrames
          (keptFrames frames) := if_neg hSome

theorem apart_cdAudioPush (stereo : Option (List (Int × Int))) (frames : Int) :
    ApartFromCd s (s.cdAudioPush stereo frames) := by
  cases stereo with
  | none => exact .refl s
  | some stereo =>
      by_cases hNone : frames ≤ 0
      · have hKept : s.cdAudioPush (some stereo) frames = s := if_pos hNone
        rw [hKept]
        exact .refl s
      · rw [s.cdAudioPush_pos stereo hNone]
        have hCount (t : SpuState) (n : Nat) : ApartFromCd t (t.countFrames n) :=
          ⟨rfl, rfl, rfl, rfl, rfl⟩
        exact (((s.apart_skipFrames _).trans (apart_dropFrames _ _)).trans
          (apart_storeFrames _ _)).trans (hCount _ _)

theorem apart_cdAudioPop : ApartFromCd s s.cdAudioPop.2 := by
  rw [cdAudioPop]
  split
  · exact .refl s
  · exact ⟨rfl, rfl, rfl, rfl, rfl⟩

end Frames

/-- The bits of a key register write that reach a voice. -/
def keyMask (low high : BitVec 32) (addr value : BitVec 32) : BitVec 32 :=
  let half := (value.setWidth 16).setWidth 32
  if addr = low then half else if addr = high then half <<< 16 else 0

/-- A write keys a voice on. -/
def KeysOn (addr value : BitVec 32) (i : Nat) : Prop :=
  i < voiceCount ∧ (keyMask 0x1F801D88 0x1F801D8A addr value).getLsbD i = true

/-- A write keys a voice off. -/
def KeysOff (addr value : BitVec 32) (i : Nat) : Prop :=
  i < voiceCount ∧ (keyMask 0x1F801D8C 0x1F801D8E addr value).getLsbD i = true

/-- What a register write can do to a voice. -/
inductive Written (addr value : BitVec 32) (i : Nat) (v : Voice) : Voice → Prop where
  | kept : Written addr value i v v
  | moved (hReg : regIndex addr = i * 8 + 7) (repeatAddr : BitVec 32) :
      Written addr value i v { v with repeatAddr := repeatAddr }
  | keyedOn (hKey : KeysOn addr value i) (curAddr repeatAddr : BitVec 32) :
      Written addr value i v { Voice.zero with
        active := true
        curAddr := curAddr
        repeatAddr := repeatAddr
        sampleIdx := blockSamples }
  | keyedOff (hKey : KeysOff addr value i) (hActive : v.active = true) :
      Written addr value i v { v with adsrPhase := .release, adsrDivider := 0 }

theorem written_setRepeat (s : SpuState) {addr : BitVec 32} (value : BitVec 32) {idx : Nat}
    (hReg : regIndex addr = idx * 8 + 7) (i : Nat) (half : BitVec 16) :
    Written addr value i (s.voices i) ((s.setRepeat idx half).voices i) := by
  by_cases hIdx : i = idx
  · rw [hIdx, setRepeat, voices_setVoice_self]
    exact .moved hReg _
  · rw [setRepeat, voices_setVoice_ne s hIdx]
    exact .kept

theorem written_keyOn (s : SpuState) {addr value mask : BitVec 32} {i : Nat}
    (hMask : mask = keyMask 0x1F801D88 0x1F801D8A addr value) :
    Written addr value i (s.voices i) ((s.keyOn mask).voices i) := by
  simp only [keyOn]
  split_ifs with hKey
  · exact .keyedOn ⟨hKey.1, hMask ▸ hKey.2⟩ _ _
  · exact .kept

theorem written_keyOff (s : SpuState) {addr value mask : BitVec 32} {i : Nat}
    (hMask : mask = keyMask 0x1F801D8C 0x1F801D8E addr value) :
    Written addr value i (s.voices i) ((s.keyOff mask).voices i) := by
  simp only [keyOff]
  split_ifs with hKey
  · exact .keyedOff ⟨hKey.1, hMask ▸ hKey.2.1⟩ hKey.2.2
  · exact .kept

/-- The register of a write, stored. -/
def storeReg (s : SpuState) (addr value : BitVec 32) : SpuState :=
  { s with regs := Function.update s.regs (regIndex addr) (value.setWidth 16) }

theorem write_keyOnLow (s : SpuState) (value : BitVec 32) :
    s.write 0x1F801D88 value =
      (s.storeReg 0x1F801D88 value).keyOn ((value.setWidth 16).setWidth 32) := rfl

theorem write_keyOnHigh (s : SpuState) (value : BitVec 32) :
    s.write 0x1F801D8A value =
      (s.storeReg 0x1F801D8A value).keyOn ((value.setWidth 16).setWidth 32 <<< 16) := rfl

theorem write_keyOffLow (s : SpuState) (value : BitVec 32) :
    s.write 0x1F801D8C value =
      (s.storeReg 0x1F801D8C value).keyOff ((value.setWidth 16).setWidth 32) := rfl

theorem write_keyOffHigh (s : SpuState) (value : BitVec 32) :
    s.write 0x1F801D8E value =
      (s.storeReg 0x1F801D8E value).keyOff ((value.setWidth 16).setWidth 32 <<< 16) := rfl

/-- A write does one thing: the registers of the branches are different. -/
theorem written_write (s : SpuState) (addr value : BitVec 32) (i : Nat) :
    Written addr value i (s.voices i) ((s.write addr value).voices i) := by
  by_cases h88 : addr = 0x1F801D88
  · rw [h88, write_keyOnLow]
    exact written_keyOn (s.storeReg _ value) rfl
  by_cases h8A : addr = 0x1F801D8A
  · rw [h8A, write_keyOnHigh]
    exact written_keyOn (s.storeReg _ value) rfl
  by_cases h8C : addr = 0x1F801D8C
  · rw [h8C, write_keyOffLow]
    exact written_keyOff (s.storeReg _ value) rfl
  by_cases h8E : addr = 0x1F801D8E
  · rw [h8E, write_keyOffHigh]
    exact written_keyOff (s.storeReg _ value) rfl
  rw [write]
  simp only [h88, h8A, h8C, h8E, if_false]
  by_cases hRange : 0x1F801C00 ≤ addr ∧ addr ≤ 0x1F801DFF
  swap
  · rw [if_neg hRange]
    exact .kept
  rw [if_pos hRange, ← storeReg]
  have hRepeat : Written addr value i (s.voices i)
      ((if regIndex addr < voiceCount * 8 ∧ regIndex addr % 8 = 7 then
        (s.storeReg addr value).setRepeat (regIndex addr / 8) (value.setWidth 16)
      else s.storeReg addr value).voices i) := by
    split_ifs with hReg
    · exact written_setRepeat (s.storeReg addr value) value (by omega) i _
    · exact .kept
  split_ifs at hRepeat ⊢ <;> simpa using hRepeat

/-- The voice that a sample is taken from: at the end of its block the next one is decoded. -/
def readyVoice (ram : Ram) (v : Voice) : Voice :=
  if blockSamples ≤ v.sampleIdx then decodedVoice ram (jumpedVoice v) else v

/-- The state that a sample of a voice is taken in. -/
@[grind =] def ready (s : SpuState) (idx : Nat) : SpuState :=
  if blockSamples ≤ (s.voices idx).sampleIdx then
    (s.setVoice idx (jumpedVoice (s.voices idx))).decodeBlock idx
  else s

theorem voices_ready (s : SpuState) (idx : Nat) :
    (s.ready idx).voices idx = readyVoice s.ram (s.voices idx) := by
  rw [ready, readyVoice]
  by_cases hEnd : blockSamples ≤ (s.voices idx).sampleIdx
  · rw [if_pos hEnd, if_pos hEnd, voices_decodeBlock, voices_setVoice_self]
    rfl
  · rw [if_neg hEnd, if_neg hEnd]

theorem voices_ready_ne (s : SpuState) {idx j : Nat} (hNe : j ≠ idx) :
    (s.ready idx).voices j = s.voices j := by
  rw [ready]
  split
  · rw [voices_decodeBlock_ne _ hNe, voices_setVoice_ne _ hNe]
  · rfl

/-- The pitch that a sample moves on by. -/
@[grind =] def pitchOf (s : SpuState) (idx : Nat) : Nat :=
  let pitch := (s.voiceReg idx 2).toNat % 0x4000
  if pitch = 0 then 0x1000 else pitch

/-- The voice behind a sample, from the one with its envelope stepped. -/
def movedVoice (pitch : Nat) (v : Voice) : Voice :=
  let position := consumePhase (blockSamples - v.sampleIdx) v.sampleIdx ((v.phase + pitch) % 2 ^ 32)
  { v with
    active := !(v.adsrPhase = .release ∧ v.envLevel = 0 : Bool)
    sampleIdx := position.1
    phase := position.2 }

theorem voiceNextSample_active {s : SpuState} {idx : Nat} (hActive : (s.voices idx).active = true) :
    s.voiceNextSample idx =
      let v := readyVoice s.ram (s.voices idx)
      (shape (v.samples.getD v.sampleIdx 0) v.envLevel,
        (s.ready idx).setVoice idx
          (movedVoice ((s.ready idx).pitchOf idx) (adsrRun (s.ready idx).regs idx v))) := by
  rw [voiceNextSample, if_neg (by rw [hActive]; exact Bool.noConfusion), ← voices_ready]
  rfl

theorem voiceNextSample_inactive {s : SpuState} {idx : Nat}
    (hActive : (s.voices idx).active = false) : s.voiceNextSample idx = (0, s) := if_pos hActive

theorem ram_ready (s : SpuState) (idx : Nat) : (s.ready idx).ram = s.ram := by
  rw [ready]
  split <;> rfl

theorem ram_voiceNextSample (s : SpuState) (idx : Nat) : (s.voiceNextSample idx).2.ram = s.ram := by
  cases hActive : (s.voices idx).active with
  | false => rw [voiceNextSample_inactive hActive]
  | true =>
      rw [voiceNextSample_active hActive]
      exact ram_ready s idx

/-- Only the data port writes the RAM. -/
theorem ram_write (s : SpuState) {addr : BitVec 32} (value : BitVec 32)
    (hPort : addr ≠ 0x1F801DA8) :
    (s.write addr value).ram = s.ram := by
  rw [write]
  simp only [if_neg hPort]
  split_ifs <;> rfl

theorem voices_voiceNextSample_ne (s : SpuState) {i j : Nat} (hNe : i ≠ j) :
    (s.voiceNextSample j).2.voices i = s.voices i := by
  cases hActive : (s.voices j).active with
  | false => rw [voiceNextSample_inactive hActive]
  | true =>
      rw [voiceNextSample_active hActive]
      simp only [voices_setVoice_ne _ hNe, voices_ready_ne _ hNe]

/-- A decoded block only writes its voice's repeat register. -/
theorem regs_decodeBlock (s : SpuState) (idx : Nat) {reg : Nat} (hReg : reg ≠ idx * 8 + 7) :
    (s.decodeBlock idx).regs reg = s.regs reg := by
  have hRegs : (s.decodeBlock idx).regs =
      if s.ram (blockAddr (s.voices idx) + 1) &&& 4 ≠ 0 then
        Function.update s.regs (idx * 8 + 7) (BitVec.ofNat 16 (blockAddr (s.voices idx) / 8))
      else s.regs := rfl
  rw [hRegs]
  split_ifs
  · exact Function.update_of_ne hReg _ _
  · rfl

theorem voiceReg_ready (s : SpuState) (idx voice : Nat) {reg : Nat} (hReg : reg < 7) :
    (s.ready idx).voiceReg voice reg = s.voiceReg voice reg := by
  rw [ready]
  split
  · exact regs_decodeBlock _ idx (by omega)
  · rfl

theorem voiceReg_voiceNextSample (s : SpuState) (idx voice : Nat) {reg : Nat} (hReg : reg < 7) :
    (s.voiceNextSample idx).2.voiceReg voice reg = s.voiceReg voice reg := by
  cases hActive : (s.voices idx).active with
  | false => rw [voiceNextSample_inactive hActive]
  | true =>
      rw [voiceNextSample_active hActive]
      exact voiceReg_ready s idx voice hReg

/-- A voice at the end of an end block without the repeat flag. -/
def EndsStop (v : Voice) : Prop :=
  v.active = true ∧ blockSamples ≤ v.sampleIdx ∧ v.flags &&& 1 ≠ 0 ∧ v.flags &&& 2 = 0

/-- The envelope that a sample starts from. -/
theorem readyVoice_envelope (ram : Ram) {v : Voice} (hActive : v.active = true) :
    EndsStop v ∧ (readyVoice ram v).adsrPhase = .release ∧ (readyVoice ram v).adsrDivider = 0 ∧
        (readyVoice ram v).envLevel = 0 ∨
      ¬EndsStop v ∧ (readyVoice ram v).adsrPhase = v.adsrPhase ∧
        (readyVoice ram v).adsrDivider = v.adsrDivider ∧
        (readyVoice ram v).envLevel = v.envLevel := by
  rw [readyVoice]
  by_cases hEnd : blockSamples ≤ v.sampleIdx
  · rw [if_pos hEnd, jumpedVoice]
    by_cases hFlag : v.flags &&& 1 = 0
    · rw [if_pos hFlag]
      exact Or.inr ⟨fun h => h.2.2.1 hFlag, rfl, rfl, rfl⟩
    · rw [if_neg hFlag]
      by_cases hRepeat : v.flags &&& 2 ≠ 0
      · rw [if_pos hRepeat]
        exact Or.inr ⟨fun h => hRepeat h.2.2.2, rfl, rfl, rfl⟩
      · rw [if_neg hRepeat]
        exact Or.inl ⟨⟨hActive, hEnd, hFlag, not_not.mp hRepeat⟩, rfl, rfl, rfl⟩
  · rw [if_neg hEnd]
    exact Or.inr ⟨fun h => hEnd h.2.1, rfl, rfl, rfl⟩

inductive Event where
  | write (addr value : BitVec 32)
  | dma (word : BitVec 32)
  | push (stereo : Option (List (Int × Int))) (frames : Int)
  | pop
  | underflow
  | reset
  | sample (idx : Nat)

def step (s : SpuState) : Event → SpuState
  | .write addr value => s.write addr value
  | .dma word => s.dmaWrite word
  | .push stereo frames => s.cdAudioPush stereo frames
  | .pop => s.cdAudioPop.2
  | .underflow => { s with cdUnderflowFrames := s.cdUnderflowFrames + 1 }
  | .reset => s.cdAudioReset
  | .sample idx => (s.voiceNextSample idx).2

/-- One state leads to another by events. -/
def Leads : SpuState → SpuState → Prop := Relation.ReflTransGen fun s t => ∃ e, t = s.step e

/-- A state that is met after `spu_init`. -/
def Reached (s : SpuState) : Prop := init.Leads s

def Event.KeysOn (i : Nat) : Event → Prop
  | .write addr value => SpuState.KeysOn addr value i
  | _ => False

def Event.KeysOff (i : Nat) : Event → Prop
  | .write addr value => SpuState.KeysOff addr value i
  | _ => False

/-- The ways from one phase to the next. -/
inductive PhaseMove (e : Event) (i : Nat) (v v' : Voice) : Prop where
  | same (hPhase : v'.adsrPhase = v.adsrPhase)
  | toDecay (hSample : e = .sample i) (hFrom : v.adsrPhase = .attack ∧ v.envLevel = 0x7FFF)
      (hTo : v'.adsrPhase = .decay)
  | toSustain (hSample : e = .sample i)
      (hFrom : v.adsrPhase = .attack ∧ v.envLevel = 0x7FFF ∨ v.adsrPhase = .decay)
      (hTo : v'.adsrPhase = .sustain)
  | keyedOff (hKey : e.KeysOff i) (hTo : v'.adsrPhase = .release)
  | ended (hSample : e = .sample i) (hEnd : EndsStop v) (hTo : v'.adsrPhase = .release)
  | keyedOn (hKey : e.KeysOn i) (hTo : v'.adsrPhase = .attack)

/-- What an event does to the envelope of a voice. -/
structure EnvelopeMove (e : Event) (i : Nat) (v v' : Voice) : Prop where
  range : InRange v'
  phase : PhaseMove e i v v'
  rises : v.adsrPhase = .attack → v'.adsrPhase = .attack → ¬e.KeysOn i →
    v.envLevel.toNat ≤ v'.envLevel.toNat
  falls : v.adsrPhase = .decay ∨ v.adsrPhase = .release → v'.envLevel.toNat ≤ v.envLevel.toNat

theorem EnvelopeMove.of_same {e : Event} {i : Nat} {v v' : Voice} (hRange : InRange v)
    (hLevel : v'.envLevel = v.envLevel) (hDivider : v'.adsrDivider = v.adsrDivider)
    (hPhase : v'.adsrPhase = v.adsrPhase) : EnvelopeMove e i v v' :=
  ⟨by rw [InRange, hLevel, hDivider]; exact hRange, .same hPhase,
    fun _ _ _ => Nat.le_of_eq (congrArg BitVec.toNat hLevel.symm),
    fun _ => Nat.le_of_eq (congrArg BitVec.toNat hLevel)⟩

theorem zero_inRange : (0 : BitVec 16).toNat ≤ 0x7FFF ∧ (0 : BitVec 32).toNat < 0x8000 := by
  decide

theorem envelope_written {addr value : BitVec 32} {i : Nat} {v v' : Voice} (hRange : InRange v)
    (hWritten : Written addr value i v v') : EnvelopeMove (.write addr value) i v v' := by
  cases hWritten with
  | kept => exact .of_same hRange rfl rfl rfl
  | moved => exact .of_same hRange rfl rfl rfl
  | keyedOn hKey =>
      exact ⟨zero_inRange, .keyedOn hKey rfl, fun _ _ hNot => absurd hKey hNot,
        fun _ => Nat.zero_le _⟩
  | keyedOff hKey =>
      exact ⟨⟨hRange.1, zero_inRange.2⟩, .keyedOff hKey rfl, fun _ h => AdsrPhase.noConfusion h,
        fun _ => Nat.le_refl _⟩

/-- Attack at the top is sampled as decay. -/
theorem samplePhase_cases (v : Voice) :
    v.adsrPhase = .attack ∧ v.envLevel = 0x7FFF ∧ samplePhase v = .decay ∨
      ¬(v.adsrPhase = .attack ∧ v.envLevel = 0x7FFF) ∧ samplePhase v = v.adsrPhase := by
  by_cases hTop : v.adsrPhase = .attack ∧ v.envLevel = 0x7FFF
  · exact Or.inl ⟨hTop.1, hTop.2, if_pos hTop⟩
  · exact Or.inr ⟨hTop, if_neg hTop⟩

theorem envelope_sample (s : SpuState) {i : Nat} (hRange : InRange (s.voices i)) :
    EnvelopeMove (.sample i) i (s.voices i) ((s.voiceNextSample i).2.voices i) := by
  cases hActive : (s.voices i).active with
  | false =>
      rw [voiceNextSample_inactive hActive]
      exact .of_same hRange rfl rfl rfl
  | true =>
      rw [voiceNextSample_active hActive]
      simp only [voices_setVoice_self]
      have hKept (pitch : Nat) (w : Voice) : (movedVoice pitch w).envLevel = w.envLevel ∧
          (movedVoice pitch w).adsrDivider = w.adsrDivider ∧
          (movedVoice pitch w).adsrPhase = w.adsrPhase := ⟨rfl, rfl, rfl⟩
      obtain ⟨hMovedLevel, hMovedDivider, hMovedPhase⟩ := hKept ((s.ready i).pitchOf i)
        (adsrRun (s.ready i).regs i (readyVoice s.ram (s.voices i)))
      generalize movedVoice _ _ = moved at hMovedLevel hMovedDivider hMovedPhase
      rcases readyVoice_envelope s.ram hActive with hReady | hReady
      · obtain ⟨hEnd, hPhase, hDivider, hLevel⟩ := hReady
        have hStart : InRange (readyVoice s.ram (s.voices i)) := by
          rw [InRange, hLevel, hDivider]
          exact zero_inRange
        have hSample : samplePhase (readyVoice s.ram (s.voices i)) = .release := by
          rw [samplePhase, hPhase, if_neg (fun h => AdsrPhase.noConfusion h.1)]
        obtain ⟨hIn, hMove, _, hFalls⟩ := adsrRun_step (s.ready i).regs i hStart
        rw [hSample] at hMove hFalls
        have hTo := hMove.resolve_right fun h => AdsrPhase.noConfusion h.1
        have hZero := hFalls (Or.inr rfl)
        rw [hLevel] at hZero
        rw [← hMovedPhase] at hTo
        rw [← hMovedLevel] at hZero
        refine ⟨by rw [InRange, hMovedLevel, hMovedDivider]; exact hIn, .ended rfl hEnd hTo, ?_, ?_⟩
        · intro _ hAttack
          exact absurd (hTo.symm.trans hAttack) AdsrPhase.noConfusion
        · intro _
          exact hZero.trans (Nat.zero_le _)
      · obtain ⟨_, hPhase, hDivider, hLevel⟩ := hReady
        have hStart : InRange (readyVoice s.ram (s.voices i)) := by
          rw [InRange, hLevel, hDivider]
          exact hRange
        have hSample : samplePhase (readyVoice s.ram (s.voices i)) = samplePhase (s.voices i) := by
          rw [samplePhase, samplePhase, hPhase, hLevel]
        obtain ⟨hIn, hMove, hRises, hFalls⟩ := adsrRun_step (s.ready i).regs i hStart
        rw [hSample] at hMove hRises hFalls
        rw [hLevel, ← hMovedLevel] at hRises hFalls
        rw [← hMovedPhase] at hMove
        refine ⟨by rw [InRange, hMovedLevel, hMovedDivider]; exact hIn, ?_, ?_, ?_⟩
        · rcases samplePhase_cases (s.voices i) with ⟨hAttack, hTop, hDecay⟩ | ⟨_, hSame⟩
          · rw [hDecay] at hMove
            rcases hMove with hTo | ⟨_, hTo⟩
            · exact .toDecay rfl ⟨hAttack, hTop⟩ hTo
            · exact .toSustain rfl (Or.inl ⟨hAttack, hTop⟩) hTo
          · rw [hSame] at hMove
            rcases hMove with hTo | ⟨hDecay, hTo⟩
            · exact .same hTo
            · exact .toSustain rfl (Or.inr hDecay) hTo
        · intro _ hAttack _
          rcases samplePhase_cases (s.voices i) with ⟨_, _, hDecay⟩ | ⟨_, hSame⟩
          · rw [hDecay, hAttack] at hMove
            rcases hMove with hTo | ⟨_, hTo⟩
            · exact AdsrPhase.noConfusion hTo
            · exact AdsrPhase.noConfusion hTo
          · exact hRises (by rw [hSame]; assumption)
        · intro hFrom
          rcases samplePhase_cases (s.voices i) with ⟨hAttack, _, _⟩ | ⟨_, hSame⟩
          · rw [hAttack] at hFrom
            rcases hFrom with h | h
            · exact AdsrPhase.noConfusion h
            · exact AdsrPhase.noConfusion h
          · exact hFalls (by rw [hSame]; exact hFrom)

/-- Every event moves every envelope in one of the ways. -/
theorem envelope_step (s : SpuState) (e : Event) {i : Nat} (hRange : InRange (s.voices i)) :
    EnvelopeMove e i (s.voices i) ((s.step e).voices i) := by
  have hSame {t : SpuState} (hVoice : t.voices i = s.voices i) :
      EnvelopeMove e i (s.voices i) (t.voices i) := by
    rw [hVoice]
    exact .of_same hRange rfl rfl rfl
  cases e with
  | write addr value => exact envelope_written hRange (written_write s addr value i)
  | dma word => exact hSame (congrFun (voices_dmaWrite s word) i)
  | push stereo frames => exact hSame (congrFun (apart_cdAudioPush s stereo frames).voices i)
  | pop => exact hSame (congrFun (apart_cdAudioPop s).voices i)
  | underflow => exact hSame rfl
  | reset => exact hSame rfl
  | sample idx =>
      by_cases hIdx : i = idx
      · subst hIdx
        exact envelope_sample s hRange
      · exact hSame (voices_voiceNextSample_ne s hIdx)

theorem Reached.inRange {s : SpuState} (hReached : s.Reached) (i : Nat) : InRange (s.voices i) := by
  induction hReached with
  | refl => exact zero_inRange
  | tail _ hStep ih =>
      obtain ⟨e, rfl⟩ := hStep
      exact (envelope_step _ e ih).range

theorem Leads.step {s t : SpuState} (h : s.Leads t) (e : Event) : s.Leads (t.step e) :=
  h.tail ⟨e, rfl⟩

theorem mixVoices_leads {idxs : List Nat} {s t : SpuState} {l r l' r' : Int}
    (hMix : mixVoices idxs (s, l, r) = some (t, l', r')) : s.Leads t := by
  induction idxs generalizing s l r with
  | nil =>
      obtain ⟨rfl, _⟩ := Prod.mk.inj (Option.some.inj hMix)
      exact .refl
  | cons idx idxs ih =>
      have hFirst : s.Leads (s.voiceNextSample idx).2 := Leads.step .refl (.sample idx)
      rw [mixVoices] at hMix
      simp only at hMix
      split_ifs at hMix
      · exact hFirst.trans (ih hMix)
      · obtain ⟨_, _, hMix⟩ := Option.bind_eq_some_iff.mp hMix
        obtain ⟨_, _, hMix⟩ := Option.bind_eq_some_iff.mp hMix
        exact hFirst.trans (ih hMix)

theorem mixCd_leads {regs : RenderRegs} {s t : SpuState} {l r l' r' : Int}
    (hMix : mixCd regs (s, l, r) = some (t, l', r')) : s.Leads t := by
  have hPop : s.Leads s.cdAudioPop.2 := Leads.step .refl .pop
  rw [mixCd] at hMix
  split_ifs at hMix
  · cases hFrame : s.cdAudioPop with
    | mk frame popped =>
        rw [hFrame] at hMix hPop
        cases frame with
        | some cd =>
            obtain ⟨_, _, hMix⟩ := Option.bind_eq_some_iff.mp hMix
            obtain ⟨_, _, hMix⟩ := Option.bind_eq_some_iff.mp hMix
            obtain ⟨rfl, _⟩ := Prod.mk.inj (Option.some.inj hMix)
            exact hPop
        | none =>
            obtain ⟨rfl, _⟩ := Prod.mk.inj (Option.some.inj hMix)
            split_ifs
            · exact hPop.step .underflow
            · exact hPop
  · obtain ⟨rfl, _⟩ := Prod.mk.inj (Option.some.inj hMix)
    exact .refl

theorem renderFrame_leads {regs : RenderRegs} {s t : SpuState} {frame : Int × Int}
    (hRender : renderFrame regs s = some (frame, t)) : s.Leads t := by
  rw [renderFrame] at hRender
  split_ifs at hRender
  · obtain ⟨⟨u, l, r⟩, hMix, hRender⟩ := Option.bind_eq_some_iff.mp hRender
    obtain ⟨⟨w, l', r'⟩, hVoices, hCd⟩ := Option.bind_eq_some_iff.mp hMix
    obtain ⟨_, _, hRender⟩ := Option.bind_eq_some_iff.mp hRender
    obtain ⟨_, _, hRender⟩ := Option.bind_eq_some_iff.mp hRender
    obtain ⟨_, rfl⟩ := Prod.mk.inj (Option.some.inj hRender)
    exact (mixVoices_leads hVoices).trans (mixCd_leads hCd)
  · obtain ⟨_, rfl⟩ := Prod.mk.inj (Option.some.inj hRender)
    exact .refl

theorem renderFrames_leads {regs : RenderRegs} {n : Nat} {s t : SpuState} {out : List (Int × Int)}
    (hRender : renderFrames regs n s = some (out, t)) : s.Leads t := by
  induction n generalizing s out with
  | zero =>
      obtain ⟨_, rfl⟩ := Prod.mk.inj (Option.some.inj hRender)
      exact .refl
  | succ n ih =>
      obtain ⟨⟨frame, u⟩, hFrame, hRender⟩ := Option.bind_eq_some_iff.mp hRender
      obtain ⟨⟨frames, w⟩, hRest, hRender⟩ := Option.bind_eq_some_iff.mp hRender
      obtain ⟨_, rfl⟩ := Prod.mk.inj (Option.some.inj hRender)
      exact (renderFrame_leads hFrame).trans (ih hRest)

/-- After any accesses and samples, and the renders that take samples, every envelope is in
range and the next event moves it in one of the ways. -/
theorem envelopes_move {s : SpuState} (hReached : s.Reached) :
    (∀ (e : Event) (i : Nat),
      InRange (s.voices i) ∧ EnvelopeMove e i (s.voices i) ((s.step e).voices i)) ∧
      ∀ frames out t, s.render frames = some (out, t) → t.Reached :=
  ⟨fun e i => ⟨hReached.inRange i, envelope_step s e (hReached.inRange i)⟩,
    fun _ _ _ hRender => hReached.trans (renderFrames_leads hRender)⟩

/-- Voice 0 with a pitch and a rate, keyed on, behind one sample. -/
def attacking : SpuState :=
  (((init.step (.write 0x1F801C04 0x1000)).step (.write 0x1F801C08 0x1000)).step
    (.write 0x1F801D88 1)).step (.sample 0)

theorem attacking_reached : attacking.Reached :=
  (((Leads.step .refl _).step _).step _).step _

/-- The next sample moves the envelope of a voice in attack up. -/
theorem envelopes_move_attacking :
    (attacking.voices 0).adsrPhase = .attack ∧
    (attacking.voices 0).envLevel.toNat < ((attacking.step (.sample 0)).voices 0).envLevel.toNat ∧
    EnvelopeMove (.sample 0) 0 (attacking.voices 0) ((attacking.step (.sample 0)).voices 0) :=
  ⟨by decide +kernel, by decide +kernel, ((envelopes_move attacking_reached).1 _ _).2⟩

/-- A voice in attack that is keyed on again falls to zero and stays in attack. -/
theorem attack_restarted :
    ∃ s e i, Reached s ∧ (s.voices i).adsrPhase = .attack ∧
      ((s.step e).voices i).adsrPhase = .attack ∧
      ((s.step e).voices i).envLevel.toNat < (s.voices i).envLevel.toNat := by
  refine ⟨(init.step (.write 0x1F801D88 1)).step (.sample 0), .write 0x1F801D88 1, 0,
    ?_, ?_, ?_, ?_⟩
  · exact Leads.step (Leads.step .refl _) _
  · decide
  · decide +kernel
  · decide +kernel

end SpuState

end RecompStudio.Spu
