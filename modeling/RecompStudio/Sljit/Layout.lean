import RecompStudio.Sljit.Transfers

/-!
The code of a fragment as the second pass lays it out. The cache of the
compiler does not depend on the run of the code, so what a run shows of it holds
wherever the code is entered.
-/

namespace RecompStudio.Sljit

open RecompStudio.Staged
open RecompStudio.Interp
open RecompStudio.Insn
open RecompStudio.Emitted

variable {M : Type} {p : Platform M} {cps : Bool} {used : Finset RegIndex}
variable {c : GprCache} {g : CPUState M} {st : HostState M} {w pc : Word}

/-- What the interpreter runs as a plain instruction if the compiler does. -/
theorem execPlain_advances {m : Emit Unit} (hEmit : emitOne w = some m) (hKnown : copKnown w)
    (h : Host M) (pc : Word) (g : CPUState M) : ∃ g', execPlain h pc w g = .advance g' := by
  unfold emitOne at hEmit
  unfold copKnown at hKnown
  unfold execPlain
  cases hOp : Op.ofWord w
  all_goals rw [hOp] at hEmit
  all_goals first
    | exact ⟨_, rfl⟩
    | cases hEmit
  case cop2 =>
    have hKnown := hKnown hOp
    dsimp only
    unfold execCop2
    split
    · exact ⟨_, rfl⟩
    · split
      · exact ⟨_, rfl⟩
      · split
        · exact ⟨_, rfl⟩
        · split
          · exact ⟨_, rfl⟩
          · split
            · exact ⟨_, rfl⟩
            · simp_all

/-- The code for an instruction runs through, whatever the interpreter says. -/
theorem exists_wp_emitOne {m : Emit Unit} (hEmit : emitOne w = some m)
    (hRefs : gprRefMask w ⊆ used) (h : Between cps used c g st) :
    ∃ g', wp (step p) m c st fun _ c' st' => Follows cps used g' c st c' st' := by
  by_cases hKnown : copKnown w
  · obtain ⟨g', hExec⟩ := execPlain_advances hEmit hKnown p.host 0 g
    exact ⟨g', wp_emitOne hEmit hRefs hExec h⟩
  · have hOp : Op.ofWord w = .cop2 := by
      unfold copKnown at hKnown
      push Not at hKnown
      exact hKnown.1
    rw [emitOne, hOp] at hEmit
    cases hEmit
    exact ⟨_, wp_helperCop2 h⟩

/-- What the class of a word says about it. -/
def Control.Describes (entryPhys off w : Word) : Control → Prop
  | .none => rejectsDelaySlot w = false
  | .ret => Op.ofWord w = .jr ∧ rs w = 31
  | .tailJump => Op.ofWord w = .jr ∧ rs w ≠ 31
  | .jump t => Op.ofWord w = .j ∧
      t = (((w &&& 0x03FFFFFF#32) <<< 2) &&& 0x1FFFFFFF#32) - entryPhys
  | .call => Op.ofWord w = .jal ∨ Op.ofWord w = .jalr
  | .branch t => t = off + 4#32 + (simm w <<< 2) ∧ (Op.ofWord w = .beq ∨ Op.ofWord w = .bne ∨
      Op.ofWord w = .blez ∨ Op.ofWord w = .bgtz ∨ Op.ofWord w = .regimm ∧
        (rt w = 0x00 ∨ rt w = 0x01 ∨ rt w = 0x10 ∨ rt w = 0x11))
  | .abort => rejectsDelaySlot w = true

theorem classifyControl_describes (entryPhys off w : Word) :
    (classifyControl entryPhys off w).Describes entryPhys off w := by
  unfold classifyControl
  cases hOp : Op.ofWord w with
  | jr =>
      dsimp only
      split
      · next hRs => exact ⟨hOp, hRs⟩
      · next hRs => exact ⟨hOp, hRs⟩
  | regimm =>
      dsimp only
      split
      · next hRt => exact ⟨rfl, .inr (.inr (.inr (.inr ⟨hOp, hRt⟩)))⟩
      · simp [Control.Describes, rejectsDelaySlot, hOp]
  | j => exact ⟨hOp, rfl⟩
  | jal => exact .inl hOp
  | jalr => exact .inr hOp
  | beq => exact ⟨rfl, .inl hOp⟩
  | bne => exact ⟨rfl, .inr (.inl hOp)⟩
  | blez => exact ⟨rfl, .inr (.inr (.inl hOp))⟩
  | bgtz => exact ⟨rfl, .inr (.inr (.inr (.inl hOp)))⟩
  | _ => simp [Control.Describes, rejectsDelaySlot, hOp]

/-- The class of a word in a fragment. -/
theorem Fragment.describes {F : Fragment} {i : Nat} {ctrl : Control} (h : F.classify i w = ctrl) :
    ctrl.Describes (physical F.entry) (BitVec.ofNat 32 (4 * i)) w := by
  subst h
  exact classifyControl_describes _ _ _

/-- A word is a control instruction for the compiler if it is one for
`exec_delay_slot`. -/
theorem Control.Describes.rejects {ctrl : Control} {entryPhys off : Word}
    (h : ctrl.Describes entryPhys off w) (hCtrl : ctrl ≠ .none) : rejectsDelaySlot w = true := by
  unfold rejectsDelaySlot
  cases ctrl with
  | none => exact absurd rfl hCtrl
  | ret | tailJump => rw [h.1]
  | jump t => rw [h.1]
  | call =>
      rcases h with hOp | hOp
      · rw [hOp]
      · rw [hOp]
  | branch t =>
      rcases h.2 with hOp | hOp | hOp | hOp | ⟨hOp, -⟩
      all_goals rw [hOp]
  | abort => exact h

theorem Control.Describes.branchTaken {t entryPhys off : Word}
    (h : (Control.branch t).Describes entryPhys off w) (g : CPUState M) :
    ∃ taken, branchTaken w g = some taken := by
  unfold Interp.branchTaken
  rcases h.2 with hOp | hOp | hOp | hOp | ⟨hOp, hRt⟩
  · exact ⟨_, by rw [hOp]⟩
  · exact ⟨_, by rw [hOp]⟩
  · exact ⟨_, by rw [hOp]⟩
  · exact ⟨_, by rw [hOp]⟩
  · rw [hOp]
    rcases hRt with hRt | hRt | hRt | hRt
    all_goals exact ⟨_, by rw [hRt]; rfl⟩

/-- The cache of the compiler before the word `i`. -/
structure Settled (used : Finset RegIndex) (i : Nat) (c : GprCache) : Prop where
  wf : c.Wf used
  pins : c.pins = 0
  lru : c.lru ≤ 3 * i

theorem Settled.between {i : Nat} (h : Settled used i c) (hLive : Live cps used c g st)
    (hi : i ≤ maxFragInsns) : Between cps used c g st := by
  refine ⟨hLive, h.pins, ?_⟩
  have hLru := h.lru
  unfold maxFragInsns at hi
  omega

/-- A host state that a cache stands for. -/
theorem GprCache.Wf.exists_live (hWf : c.Wf used) (cps : Bool) (s : CPUState M) :
    ∃ (g : CPUState M) (st : HostState M), Live cps used c g st := by
  let g : CPUState M := { s with gpr := fun _ => 0, pc := 0 }
  refine ⟨g, { regs := fun _ => 0, flags := none, skip := 0, cpu := g }, hWf, ?_, ?_, ?_,
    rfl, ?_, rfl⟩
  · intros
    rfl
  · intros
    rfl
  · exact ⟨rfl, rfl, rfl, rfl, rfl, rfl⟩
  · intro _
    rfl

section Compiling

variable (p) (cps) (s : CPUState M) {F : Fragment} {i : Nat}

theorem Settled.succ (h : Settled used i c) : Settled used (i + 1) c :=
  ⟨h.wf, h.pins, h.lru.trans (Nat.mul_le_mul_left 3 (Nat.le_succ i))⟩

theorem Settled.reset (h : Settled used i c) : Settled used i (c.mapSlots GprSlot.reset) :=
  ⟨h.wf.mapSlots (fun _ _ hr => by cases hr) (fun _ _ _ => rfl) fun _ => rfl, pins_reset c, h.lru⟩

include p cps s

theorem Settled.emitLabel (h : Settled used i c) : Settled used i (emitLabel F i c).state := by
  obtain ⟨g, st, hLive⟩ := h.wf.exists_live cps s
  obtain ⟨st', -, hLive', -, hPins, hLru⟩ := wp_emitLabel (p := p) F i hLive h.pins
  exact ⟨hLive'.wf, hPins, hLru.trans_le h.lru⟩

theorem Settled.emitOne {m : Emit Unit} (h : Settled used i c) (hi : i ≤ maxFragInsns)
    (hEmit : emitOne w = some m) (hRefs : gprRefMask w ⊆ used) :
    Settled used (i + 1) (m c).state := by
  obtain ⟨g, st, hLive⟩ := h.wf.exists_live cps s
  obtain ⟨g', st', -, hFollows⟩ := exists_wp_emitOne (p := p) hEmit hRefs (h.between hLive hi)
  have hLru := h.lru
  have hLru' := hFollows.lru
  exact ⟨hFollows.live.wf, hFollows.pins, by omega⟩

theorem Settled.emitControl {ctrl : Control} {entryPhys off : Word} (h : Settled used i c)
    (hi : i ≤ maxFragInsns) (hDescribes : ctrl.Describes entryPhys off w)
    (hRefs : gprRefMask w ⊆ used) : Settled used (i + 1) (emitControl pc w ctrl c).state := by
  obtain ⟨g, st, hLive⟩ := h.wf.exists_live cps s
  have hLru := h.lru
  have hBetween := h.between hLive hi
  -- what is prepared before a delay slot
  have hPrepared : ∀ {g' : CPUState M} {x c' st'}, Prepares cps used g' x c c' st' →
      Settled used (i + 1) c' := by
    intro g' x c' st' hPrepares
    have hLru' := hPrepares.lru
    exact ⟨hPrepares.live.wf, hPrepares.pins, by omega⟩
  cases ctrl with
  | tailJump =>
      obtain ⟨st', -, -, hPrepares⟩ := wp_emitTail (p := p) hRefs hDescribes.1 hBetween pc
      exact hPrepared hPrepares
  | call =>
      rcases hDescribes with hOp | hOp
      · obtain ⟨st', -, -, hPrepares⟩ := wp_emitJal (p := p) hRefs hOp hBetween pc
        exact hPrepared hPrepares
      · obtain ⟨st', -, -, hPrepares⟩ := wp_emitJalr (p := p) hRefs hOp hBetween pc
        exact hPrepared hPrepares
  | branch t =>
      obtain ⟨taken, hTaken⟩ := hDescribes.branchTaken (linked w (pc + 8#32) g)
      unfold maxFragInsns at hi
      obtain ⟨st', -, -, hLive', -, hPins, hLru'⟩ := wp_emitBranch (p := p) (t := t) hRefs hTaken
        hBetween (by omega)
      exact ⟨hLive'.wf, hPins, by omega⟩
  | none | ret | jump t | abort => exact h.succ

end Compiling

theorem Settled.gprFlush {i : Nat} (h : Settled used i c) :
    Settled used i (c.mapSlots GprSlot.clean) :=
  ⟨h.wf.mapSlots (fun s _ hr => s.clean_reg.symm.trans hr)
    (fun s hs hNone => s.clean_pinned.trans (hs (s.clean_reg.symm.trans hNone))) GprSlot.clean_lru,
    (pins_clean c).trans h.pins, h.lru⟩

/-- A transfer leaves the cache alone or empties it. -/
theorem Settled.emitTransfer {i : Nat} {pending : Pending} {t : Emit Unit} (h : Settled used i c)
    (hEmit : emitTransfer cps pending = some t) : Settled used i (t c).state := by
  cases pending with
  | none => cases hEmit; exact h
  | ret => cases hEmit; cases cps <;> exact h.reset
  | tail => cases hEmit; exact h.reset
  | branch word cond =>
      cases cond with
      | false => cases hEmit; exact h.reset
      | true => cases hEmit; exact h
  | call target ret check =>
      cases cps with
      | false => cases hEmit; exact h.reset
      | true => cases hEmit

variable {F : Fragment} {i : Nat} {m : Emit Pending} {pending : Pending}

theorem emitWord_plain (hEmit : emitWord cps F i w .none = some m)
    (hClass : F.classify i w = .none) :
    ∃ m₀, emitOne w = some m₀ ∧ m = (do m₀; pure .none) := by
  simp only [emitWord, hClass] at hEmit
  obtain ⟨m₀, hOne, hEq⟩ := Option.bind_eq_some_iff.mp hEmit
  exact ⟨m₀, hOne, (Option.some.inj hEq).symm⟩

theorem emitWord_control (hEmit : emitWord cps F i w .none = some m) {ctrl : Control}
    (hClass : F.classify i w = ctrl) (hCtrl : ctrl ≠ .none) :
    ctrl ≠ .abort ∧ m = emitControl (F.pcOf i) w ctrl := by
  simp only [emitWord, hClass] at hEmit
  cases ctrl with
  | none => exact absurd rfl hCtrl
  | abort => cases hEmit
  | _ => exact ⟨by simp, (Option.some.inj hEmit).symm⟩

theorem emitWord_slot (hEmit : emitWord cps F i w pending = some m) (hPending : pending ≠ .none) :
    F.classify i w = .none ∧ ∃ m₀ t, emitOne w = some m₀ ∧ emitTransfer cps pending = some t ∧
      m = emitSlot m₀ t := by
  cases hClass : F.classify i w with
  | none =>
      have hSlot : ((emitOne w).bind fun m₀ => (emitTransfer cps pending).bind fun t =>
          some (emitSlot m₀ t)) = some m := by
        cases pending with
        | none => exact absurd rfl hPending
        | _ =>
            simp only [emitWord, hClass] at hEmit
            exact hEmit
      obtain ⟨m₀, hOne, hRest⟩ := Option.bind_eq_some_iff.mp hSlot
      obtain ⟨t, hTransfer, hEq⟩ := Option.bind_eq_some_iff.mp hRest
      exact ⟨rfl, m₀, t, hOne, hTransfer, (Option.some.inj hEq).symm⟩
  | _ =>
      cases pending with
      | none => exact absurd rfl hPending
      | _ => simp only [emitWord, hClass, reduceCtorEq] at hEmit

theorem emitControl_ne_none {ctrl : Control} {pc : Word} :
    (emitControl pc w ctrl c).value ≠ .none := by
  cases ctrl with
  | call =>
      show ((if Op.ofWord w = .jal then _ else _ : Emit Pending) c).value ≠ .none
      split
      · exact Pending.noConfusion
      · exact Pending.noConfusion
  | _ => exact Pending.noConfusion

/-- A transfer is pending exactly before a delay slot. -/
theorem pending_emitWord (hWord : F.words[i]? = some w)
    (hEmit : emitWord cps F i w pending = some m) :
    (m c).value = .none ↔ F.isDelaySlot (i + 1) = false := by
  have hSlot : F.isDelaySlot (i + 1) = (F.classify i w != .none) := by
    simp only [Fragment.isDelaySlot, hWord]
  rw [hSlot]
  by_cases hPending : pending = .none
  · subst hPending
    by_cases hClass : F.classify i w = .none
    · obtain ⟨m₀, -, rfl⟩ := emitWord_plain hEmit hClass
      simp [hClass, bind, pure]
    · obtain ⟨-, rfl⟩ := emitWord_control hEmit rfl hClass
      simp [hClass, emitControl_ne_none]
  · obtain ⟨hClass, m₀, t, -, -, rfl⟩ := emitWord_slot hEmit hPending
    simp [hClass, emitSlot, bind, pure]

theorem Settled.emitWord (p : Platform M) (s : CPUState M) (h : Settled used i c)
    (hi : i ≤ maxFragInsns) (hEmit : emitWord cps F i w pending = some m)
    (hRefs : gprRefMask w ⊆ used) : Settled used (i + 1) (m c).state := by
  by_cases hPending : pending = .none
  · subst hPending
    by_cases hClass : F.classify i w = .none
    · obtain ⟨m₀, hOne, rfl⟩ := emitWord_plain hEmit hClass
      exact h.emitOne p cps s hi hOne hRefs
    · obtain ⟨-, rfl⟩ := emitWord_control hEmit rfl hClass
      exact h.emitControl p cps s hi (F.describes rfl) hRefs
  · obtain ⟨-, m₀, t, hOne, hTransfer, rfl⟩ := emitWord_slot hEmit hPending
    exact (h.emitOne p cps s hi hOne hRefs).gprFlush.emitTransfer hTransfer

/-- The code from the word `i` on, behind its label, as emitted with the cache
`c`. -/
structure AtWord (cps : Bool) (F : Fragment) (i : Nat) (pending : Pending) (c : GprCache)
    (w : Word) (m : Emit Pending) (code : List Lir) : Prop where
  word : F.words[i]? = some w
  emit : emitWord cps F i w pending = some m
  later : ∃ later, emitFrom cps F (i + 1) (m c).value (F.words.drop (i + 1)) (m c).state =
    some later ∧ code = (m c).code ++ later.code

theorem emitFrom_cons {assembled : Assembled} (hi : i < F.words.length)
    (hEmit : emitFrom cps F i pending (F.words.drop i) c = some assembled) :
    ∃ w m later, F.words[i]? = some w ∧ emitWord cps F i w pending = some m ∧
      emitFrom cps F (i + 1) (m (emitLabel F i c).state).value (F.words.drop (i + 1))
        (m (emitLabel F i c).state).state = some later ∧
      assembled.code = (emitLabel F i c).code ++
        ((m (emitLabel F i c).state).code ++ later.code) ∧
      assembled.labels = if F.isTarget i then
          (i, (m (emitLabel F i c).state).code ++ later.code) :: later.labels
        else later.labels := by
  rw [List.drop_eq_getElem_cons hi, emitFrom] at hEmit
  cases hWord : emitWord cps F i F.words[i] pending with
  | none => rw [hWord] at hEmit; cases hEmit
  | some m =>
      rw [hWord] at hEmit
      dsimp only at hEmit
      cases hLater : emitFrom cps F (i + 1) (m (emitLabel F i c).state).value
        (F.words.drop (i + 1)) (m (emitLabel F i c).state).state with
      | none => rw [hLater] at hEmit; cases hEmit
      | some later =>
          rw [hLater] at hEmit
          cases hEmit
          exact ⟨_, m, later, List.getElem?_eq_getElem hi, hWord, hLater, rfl, rfl⟩

theorem Fragment.gprRefMask_subset_used (hWord : F.words[i]? = some w) : gprRefMask w ⊆ F.used := by
  have hMem := List.mem_of_getElem? hWord
  unfold Fragment.used
  generalize F.words = words at hMem
  induction words with
  | nil => cases hMem
  | cons v rest ih =>
      rw [List.foldr_cons]
      cases hMem with
      | head => exact Finset.subset_union_left
      | tail _ hMem => exact (ih hMem).trans Finset.subset_union_right

/-- The labels of a fragment are where the jumps to it look for them, with an
empty cache behind them. -/
theorem lookup_labels (p : Platform M) (s : CPUState M) {assembled : Assembled} {j : Nat}
    (hLength : F.words.length ≤ maxFragInsns)
    (hEmit : emitFrom cps F i pending (F.words.drop i) c = some assembled)
    (hPending : pending = .none ↔ F.isDelaySlot i = false) (hSettled : Settled F.used i c)
    (hij : i ≤ j) (hj : j < F.words.length) (hTarget : F.isTarget j = true)
    (hBoundary : F.isDelaySlot j = false) :
    ∃ (c' : GprCache) (w : Word) (m : Emit Pending) (code : List Lir),
      assembled.labels.lookup j = some code ∧
        AtWord cps F j .none (c'.mapSlots GprSlot.reset) w m code ∧
        Settled F.used j c' := by
  induction hn : j - i generalizing i pending c assembled with
  | zero =>
      obtain rfl : i = j := by omega
      obtain ⟨w, m, later, hWord, hEmitWord, hLater, -, hLabels⟩ := emitFrom_cons hj hEmit
      obtain rfl := hPending.mpr hBoundary
      have hState : (emitLabel F i c).state =
          (c.mapSlots GprSlot.clean).mapSlots GprSlot.reset := by
        unfold emitLabel
        rw [if_pos hTarget]
        rfl
      rw [hState] at hLater hLabels
      refine ⟨_, w, m, _, ?_, ⟨hWord, hEmitWord, later, hLater, rfl⟩, hSettled.gprFlush⟩
      rw [hLabels, if_pos hTarget, List.lookup_cons_self]
  | succ n ih =>
      obtain ⟨w, m, later, hWord, hEmitWord, hLater, -, hLabels⟩ :=
        emitFrom_cons (by omega) hEmit
      have hSettled' := (hSettled.emitLabel (F := F) p cps s).emitWord p s (by omega) hEmitWord
        (F.gprRefMask_subset_used hWord)
      obtain ⟨c', w', m', code, hLookup, hAt, hSettledAt⟩ :=
        ih hLater (pending_emitWord hWord hEmitWord) hSettled' (by omega) (by omega)
      refine ⟨c', w', m', code, ?_, hAt, hSettledAt⟩
      rw [hLabels]
      split
      · rw [List.lookup_cons, beq_false_of_ne (by omega)]
        exact hLookup
      · exact hLookup

end RecompStudio.Sljit
