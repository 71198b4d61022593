import RecompStudio.Spu.CdRing
import Mathlib.Algebra.Order.Ring.Abs

/-!
The mix of a frame in exact arithmetic, and when `spu_render` computes it: the terms and
their sums fit their integers, the product with the main volume does not always.
-/

namespace RecompStudio.Spu

open SpuState

def InInt16 (x : Int) : Prop := -32768 ≤ x ∧ x ≤ 32767

def InInt32 (x : Int) : Prop := -2 ^ 31 ≤ x ∧ x ≤ 2 ^ 31 - 1

def voicesAfter (s : SpuState) (idxs : List Nat) : SpuState :=
  idxs.foldl (fun s i => (s.voiceNextSample i).2) s

def cdAfter (r : RenderRegs) (s : SpuState) : SpuState :=
  if r.cdEnabled then
    match s.cdAudioPop with
    | (some _, s) => s
    | (none, s) =>
        if s.cdPushFrames ≠ 0 then { s with cdUnderflowFrames := s.cdUnderflowFrames + 1 } else s
  else s

/-- The state behind a frame. -/
@[grind =] def frameAfter (r : RenderRegs) (s : SpuState) : SpuState :=
  if r.enabled then cdAfter r (voicesAfter s (List.range voiceCount)) else s

theorem clamp16_inInt16 (x : Int) : InInt16 (clamp16 x) := by
  rw [InInt16, clamp16]
  split_ifs <;> omega

/-- The values that C keeps in `int16_t`. -/
structure Typed (s : SpuState) : Prop where
  samples : ∀ i, ∀ x ∈ (s.voices i).samples, InInt16 x
  hist : ∀ i, InInt16 (s.voices i).hist1 ∧ InInt16 (s.voices i).hist2
  ring : ∀ k, InInt16 (s.cdRing k).1 ∧ InInt16 (s.cdRing k).2

theorem decodeNibbles_typed (shift filter : Nat) (nibbles : List Nat) {hist : Int × Int}
    (hHist : InInt16 hist.1 ∧ InInt16 hist.2) :
    (∀ x ∈ (decodeNibbles shift filter nibbles hist).1, InInt16 x) ∧
      InInt16 (decodeNibbles shift filter nibbles hist).2.1 ∧
      InInt16 (decodeNibbles shift filter nibbles hist).2.2 := by
  induction nibbles generalizing hist with
  | nil => exact ⟨nofun, hHist⟩
  | cons n nibbles ih =>
      rw [decodeNibbles]
      simp only
      generalize hSample : clamp16 _ = sample
      have hTyped : InInt16 sample := hSample ▸ clamp16_inInt16 _
      obtain ⟨hAll, hRest⟩ := @ih (sample, hist.1) ⟨hTyped, hHist.1⟩
      exact ⟨List.forall_mem_cons.mpr ⟨hTyped, hAll⟩, hRest⟩

/-- The samples and the history of a voice. -/
def VoiceTyped (v : Voice) : Prop :=
  (∀ x ∈ v.samples, InInt16 x) ∧ InInt16 v.hist1 ∧ InInt16 v.hist2

theorem VoiceTyped.ready {v : Voice} (h : VoiceTyped v) (ram : Ram) :
    VoiceTyped (readyVoice ram v) := by
  have hJumped : VoiceTyped (jumpedVoice v) := by
    simp only [jumpedVoice]
    split_ifs <;> exact h
  rw [readyVoice]
  split_ifs
  · exact decodeNibbles_typed _ _ _ ⟨hJumped.2.1, hJumped.2.2⟩
  · exact h

theorem Typed.voice {s : SpuState} (h : Typed s) (i : Nat) : VoiceTyped (s.voices i) :=
  ⟨h.samples i, h.hist i⟩

theorem Typed.voiceNextSample {s : SpuState} (h : Typed s) (i : Nat) :
    Typed (s.voiceNextSample i).2 := by
  have hVoices (j : Nat) : VoiceTyped ((s.voiceNextSample i).2.voices j) := by
    by_cases hNe : j = i
    · rw [hNe]
      cases hActive : (s.voices i).active with
      | false =>
          rw [voiceNextSample_inactive hActive]
          exact h.voice i
      | true =>
          rw [voiceNextSample_active hActive]
          simp only [voices_setVoice_self]
          have hReady := (h.voice i).ready s.ram
          have hStep : VoiceTyped (adsrRun (s.ready i).regs i (readyVoice s.ram (s.voices i))) := by
            simp only [adsrRun]
            split_ifs <;> exact hReady
          exact hStep
    · rw [s.voices_voiceNextSample_ne hNe]
      exact h.voice j
  have hRing : (s.voiceNextSample i).2.cdRing = s.cdRing :=
    congrArg CdPart.ring (cdPart_voiceNextSample s i)
  exact ⟨fun j => (hVoices j).1, fun j => (hVoices j).2, hRing ▸ h.ring⟩

theorem Typed.voicesAfter {s : SpuState} (h : Typed s) (idxs : List Nat) :
    Typed (voicesAfter s idxs) := by
  induction idxs generalizing s with
  | nil => exact h
  | cons i idxs ih => exact ih (h.voiceNextSample i)

theorem Typed.frameAfter {s : SpuState} (h : Typed s) (r : RenderRegs) :
    Typed (frameAfter r s) := by
  have hPop (t : SpuState) (hTyped : Typed t) : Typed (cdAfter r t) := by
    rw [cdAfter]
    split_ifs
    · by_cases hEmpty : t.cdFrameCount = 0
      · have hPop : t.cdAudioPop = (none, t) := if_pos hEmpty
        rw [hPop]
        simp only
        split_ifs
        · exact ⟨hTyped.samples, hTyped.hist, hTyped.ring⟩
        · exact hTyped
      · have hPop : t.cdAudioPop = (some (t.cdRing t.cdReadPos), _) := if_neg hEmpty
        rw [hPop]
        exact ⟨hTyped.samples, hTyped.hist, hTyped.ring⟩
    · exact hTyped
  rw [Spu.frameAfter]
  split_ifs
  · exact hPop _ (h.voicesAfter _)
  · exact h

/-- The products and sums of one decoded nibble. -/
def NibbleFits (shift filter n : Nat) (hist : Int × Int) : Prop :=
  let sample4 : Int := if n < 8 then n else n - 16
  let w := filterWeights filter
  InInt32 (sample4 * 2 ^ 12) ∧ InInt32 (hist.1 * w.1) ∧ InInt32 (hist.2 * w.2) ∧
    InInt32 (hist.1 * w.1 + hist.2 * w.2) ∧ InInt32 (hist.1 * w.1 + hist.2 * w.2 + 32) ∧
    InInt32 ((sample4 * 2 ^ 12) >>> shift + (hist.1 * w.1 + hist.2 * w.2 + 32) >>> (6 : Nat))

/-- Those of a block. -/
def DecodeFits (shift filter : Nat) : List Nat → Int × Int → Prop
  | [], _ => True
  | n :: ns, hist =>
      NibbleFits shift filter n hist ∧
        DecodeFits shift filter ns (decodeNibbles shift filter [n] hist).2

/-- The products that the next sample of a voice is made of, whichever block is decoded. -/
structure SampleFits (ram : Ram) (v : Voice) : Prop where
  decode : ∀ shift filter addr, DecodeFits shift filter (blockNibbles ram addr) (v.hist1, v.hist2)
  shape : InInt32 ((readyVoice ram v).samples.getD (readyVoice ram v).sampleIdx 0 *
    (readyVoice ram v).envLevel.toNat)
  envelope : ∀ speed < 128, ∀ inv,
    InInt32 ((readyVoice ram v).envLevel.toInt * rateIncrement speed inv)

theorem filterWeights_bounds (filter : Nat) :
    0 ≤ (filterWeights filter).1 ∧ (filterWeights filter).1 ≤ 122 ∧
      -60 ≤ (filterWeights filter).2 ∧ (filterWeights filter).2 ≤ 0 := by
  by_cases hFilter : filter < 5
  · revert hFilter filter
    decide
  · have hDefault : filterWeights filter = (0, 0) := by
      rw [filterWeights, List.getD_eq_getElem?_getD,
        List.getElem?_eq_none (Nat.le_of_not_lt hFilter),
        Option.getD_none]
    rw [hDefault]
    decide

theorem shiftRight_abs {x b : Int} (n : Nat) (hAbs : |x| ≤ b) : |x >>> n| ≤ b := by
  obtain ⟨hLow, hHigh⟩ := abs_le.mp hAbs
  have hPos : (1 : Int) ≤ ((2 ^ n : Nat) : Int) := by exact_mod_cast Nat.one_le_two_pow
  have hB : 0 ≤ b := (abs_nonneg x).trans hAbs
  rw [Int.shiftRight_eq_div_pow, abs_le]
  constructor
  · exact (Int.le_ediv_iff_mul_le (by linarith)).mpr (by nlinarith)
  · exact Int.ediv_le_of_le_mul (by linarith) (by nlinarith)

theorem inInt32_of_abs_le {x b : Int} (hAbs : |x| ≤ b) (hB : b < 2 ^ 31) : InInt32 x := by
  obtain ⟨hLow, hHigh⟩ := abs_le.mp hAbs
  exact ⟨by linarith, by omega⟩

theorem abs_mul_le {x y b c : Int} (hx : |x| ≤ b) (hy : |y| ≤ c) : |x * y| ≤ b * c := by
  rw [abs_mul]
  exact mul_le_mul hx hy (abs_nonneg _) ((abs_nonneg x).trans hx)

theorem InInt16.abs_bound {x : Int} (h : InInt16 x) : |x| ≤ 32768 :=
  abs_le.mpr ⟨h.1, h.2.trans (by decide)⟩

theorem nibbleFits (shift filter : Nat) {n : Nat} (hn : n < 16) {hist : Int × Int}
    (hHist : InInt16 hist.1 ∧ InInt16 hist.2) : NibbleFits shift filter n hist := by
  obtain ⟨hLow, hHigh, hLow', hHigh'⟩ := filterWeights_bounds filter
  have hFirst : |hist.1 * (filterWeights filter).1| ≤ 32768 * 122 :=
    abs_mul_le hHist.1.abs_bound (abs_le.mpr ⟨by linarith, hHigh⟩)
  have hSecond : |hist.2 * (filterWeights filter).2| ≤ 32768 * 60 :=
    abs_mul_le hHist.2.abs_bound (abs_le.mpr ⟨hLow', by linarith⟩)
  have hSum := (abs_add_le _ _).trans (add_le_add hFirst hSecond)
  have hRound := (abs_add_le _ 32).trans (add_le_add hSum (le_refl |(32 : Int)|))
  have hSample : |(if n < 8 then (n : Int) else n - 16) * 2 ^ 12| ≤ 32768 := by
    rw [abs_le]
    split_ifs <;> omega
  have hAll := (abs_add_le _ _).trans
    (add_le_add (shiftRight_abs shift hSample) (shiftRight_abs 6 hRound))
  exact ⟨inInt32_of_abs_le hSample (by decide), inInt32_of_abs_le hFirst (by decide),
    inInt32_of_abs_le hSecond (by decide), inInt32_of_abs_le hSum (by decide),
    inInt32_of_abs_le hRound (by decide), inInt32_of_abs_le hAll (by decide)⟩

theorem decodeFits (shift filter : Nat) {nibbles : List Nat} (hNibbles : ∀ n ∈ nibbles, n < 16)
    {hist : Int × Int} (hHist : InInt16 hist.1 ∧ InInt16 hist.2) :
    DecodeFits shift filter nibbles hist := by
  induction nibbles generalizing hist with
  | nil => trivial
  | cons n nibbles ih =>
      obtain ⟨hFirst, hRest⟩ := List.forall_mem_cons.mp hNibbles
      exact ⟨nibbleFits shift filter hFirst hHist,
        ih hRest (decodeNibbles_typed shift filter [n] hHist).2⟩

theorem blockNibbles_lt (ram : Ram) (addr : Nat) : ∀ n ∈ blockNibbles ram addr, n < 16 := by
  intro n hn
  obtain ⟨b, _, hb⟩ := List.mem_flatMap.mp hn
  have hByte := (ram (addr + 2 + b)).isLt
  simp only [List.mem_cons, List.not_mem_nil, or_false] at hb
  omega

theorem VoiceTyped.fits {v : Voice} (h : VoiceTyped v) (ram : Ram) : SampleFits ram v := by
  have hReady := h.ready ram
  generalize hVoice : readyVoice ram v = w at hReady
  have hSample : InInt16 (w.samples.getD w.sampleIdx 0) := by
    rw [List.getD_eq_getElem?_getD]
    cases hGet : w.samples[w.sampleIdx]? with
    | none => exact ⟨by decide, by decide⟩
    | some x => exact hReady.1 x (List.mem_of_getElem? hGet)
  have hLevel := w.envLevel.isLt
  refine ⟨fun shift filter addr => decodeFits shift filter (blockNibbles_lt ram addr) h.2, ?_, ?_⟩
  · rw [hVoice]
    have hAbs : |(w.envLevel.toNat : Int)| ≤ 65535 := by
      rw [Nat.abs_cast]
      omega
    exact inInt32_of_abs_le (abs_mul_le hSample.abs_bound hAbs) (by decide)
  · intro speed hSpeed inv
    rw [hVoice]
    have hAbs : |w.envLevel.toInt| ≤ 32768 :=
      abs_le.mpr ⟨BitVec.le_toInt _, BitVec.toInt_lt.le⟩
    have hRate : |rateIncrement speed inv| ≤ 16384 := by
      cases inv with
      | false =>
          obtain ⟨hLow, hHigh⟩ := rateIncrement_up hSpeed
          exact abs_le.mpr ⟨by linarith, by linarith⟩
      | true =>
          obtain ⟨hLow, hHigh⟩ := rateIncrement_down hSpeed
          exact abs_le.mpr ⟨hLow, by linarith⟩
    exact inInt32_of_abs_le (abs_mul_le hAbs hRate) (by decide)

theorem Typed.frames {s : SpuState} (h : Typed s) (r : RenderRegs) (k : Nat) :
    Typed ((Spu.frameAfter r)^[k] s) := by
  induction k generalizing s with
  | zero => exact h
  | succ k ih => exact ih (h.frameAfter r)

end RecompStudio.Spu
