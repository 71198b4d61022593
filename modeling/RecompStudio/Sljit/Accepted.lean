import RecompStudio.Sljit.Layout

/-!
What the first pass has made sure of: the fragment ends in a `jr $ra` with its
delay slot, and its branches and jumps go to words of it that are no delay
slots.
-/

namespace RecompStudio.Sljit

open RecompStudio.Interp
open RecompStudio.Insn

variable {F : Fragment} {i : Nat} {w t : Word}

structure Accepted (F : Fragment) : Prop where
  length : F.words.length ≤ maxFragInsns
  ret : ∃ w, F.words[F.words.length - 2]? = some w ∧ Op.ofWord w = .jr ∧ rs w = 31
  slot : 2 ≤ F.words.length
  targets : ∀ t ∈ F.targets, F.targetOk t = true

theorem length_imageWords_le (bytes : List (BitVec 8)) (off n : Nat) :
    (imageWords bytes off n).length ≤ n := by
  induction n generalizing off with
  | zero => simp [imageWords]
  | succ n ih =>
      rw [imageWords]
      split
      · simpa using ih (off + 4)
      · simp

theorem findReturn_spec {entry : Word} {words : List Word} {j : Nat}
    (h : Fragment.findReturn entry i words = some j) :
    i ≤ j ∧ ∃ w, words[j - i]? = some w ∧ Op.ofWord w = .jr ∧ rs w = 31 := by
  induction words generalizing i with
  | nil => cases h
  | cons w rest ih =>
      have hDescribes := classifyControl_describes (physical entry) (BitVec.ofNat 32 (4 * i)) w
      rw [Fragment.findReturn] at h
      split at h
      · cases h
      · next hRet =>
        obtain rfl := Option.some.inj h
        rw [hRet] at hDescribes
        exact ⟨Nat.le_refl i, w, by simp, hDescribes⟩
      · obtain ⟨hLe, w', hAt, hRet⟩ := ih h
        refine ⟨by omega, w', ?_, hRet⟩
        rw [show j - i = (j - (i + 1)) + 1 by omega]
        exact hAt

theorem scan_accepted {entry imageBase : Word} {bytes : List (BitVec 8)}
    (h : scan entry bytes imageBase = some F) : F.entry = entry ∧ Accepted F := by
  unfold scan at h
  split at h
  · cases h
  · dsimp only at h
    split at h
    · cases h
    · next j hReturn =>
      obtain ⟨-, w, hAt, hOp, hRs⟩ := findReturn_spec hReturn
      split at h
      · cases h
      · next hLength =>
        split at h
        · cases h
        · split at h
          · next hTargets =>
            obtain rfl := Option.some.inj h
            have hMax := length_imageWords_le bytes
              (physical entry - physical imageBase).toNat maxFragInsns
            refine ⟨rfl, ?_, ⟨w, ?_, hOp, hRs⟩, ?_, List.all_eq_true.mp hTargets⟩
            · simp only [List.length_take]
              omega
            · simp only [List.length_take]
              rw [show min (j + 2) _ - 2 = j by omega, List.getElem?_take_of_lt (by omega)]
              exact hAt
            · simp only [List.length_take]
              omega
          · cases h

theorem mem_targetsFrom {words : List Word} {k : Nat} (hWord : words[k]? = some w)
    (hClass : F.classify (i + k) w = .branch t ∨ F.classify (i + k) w = .jump t) :
    t ∈ F.targetsFrom i words := by
  induction words generalizing i k with
  | nil => cases hWord
  | cons v rest ih =>
      cases k with
      | zero =>
          obtain rfl := Option.some.inj hWord
          rw [Nat.add_zero] at hClass
          rcases hClass with hClass | hClass
          · rw [Fragment.targetsFrom, hClass]
            exact List.mem_cons_self
          · rw [Fragment.targetsFrom, hClass]
            exact List.mem_cons_self
      | succ k =>
          rw [show i + (k + 1) = i + 1 + k by omega] at hClass
          have hMem := ih hWord hClass
          rw [Fragment.targetsFrom]
          split
          · exact List.mem_cons_of_mem _ hMem
          · exact List.mem_cons_of_mem _ hMem
          · exact hMem

/-- A place in the fragment where an instruction starts. -/
structure Boundary (F : Fragment) (i : Nat) : Prop where
  lt : i < F.words.length
  notSlot : F.isDelaySlot i = false

theorem Fragment.isDelaySlot_succ (hWord : F.words[i]? = some w) :
    F.isDelaySlot (i + 1) = (F.classify i w != .none) := by
  simp only [Fragment.isDelaySlot, hWord]

namespace Accepted

variable (hF : Accepted F)

include hF

/-- The last word is a delay slot, so there is a word before it. -/
theorem lt_slot (hi : Boundary F i) : i + 1 < F.words.length := by
  by_contra hLast
  obtain ⟨w, hRet, hOp, hRs⟩ := hF.ret
  have hSlot := hF.slot
  have hlt := hi.lt
  obtain rfl : i = F.words.length - 2 + 1 := by omega
  have hNot := hi.notSlot
  rw [Fragment.isDelaySlot_succ hRet] at hNot
  simp [Fragment.classify, classifyControl, hOp, hRs] at hNot

/-- A word that is not the last transfer lies before it. -/
theorem lt_ret (hi : Boundary F i) (hWord : F.words[i]? = some w)
    (hOp : Op.ofWord w ≠ .jr) : i + 2 < F.words.length := by
  have hlt := hF.lt_slot hi
  by_contra hLast
  obtain ⟨w', hRet, hOp', -⟩ := hF.ret
  obtain rfl : i = F.words.length - 2 := by omega
  obtain rfl := Option.some.inj (hWord.symm.trans hRet)
  exact hOp hOp'

theorem target_ok (hi : i + 2 < F.words.length) (hWord : F.words[i]? = some w)
    (hClass : F.classify i w = .branch t ∨ F.classify i w = .jump t) :
    t &&& 3#32 = 0 ∧ Boundary F (t.toNat / 4) ∧ F.isTarget (t.toNat / 4) = true := by
  have hMem : t ∈ F.targets := by
    refine mem_targetsFrom (k := i) ?_ (by simpa using hClass)
    rw [List.getElem?_take_of_lt (by omega)]
    exact hWord
  have hOk := hF.targets t hMem
  simp only [Fragment.targetOk, Bool.and_eq_true, Bool.not_eq_true', beq_iff_eq,
    decide_eq_true_eq] at hOk
  refine ⟨hOk.1.1.2, ⟨hOk.1.2, hOk.2⟩, ?_⟩
  exact List.any_eq_true.mpr ⟨t, hMem, by simp⟩

end Accepted

theorem Fragment.pcOf_zero (F : Fragment) : F.pcOf 0 = F.entry := by
  simp [Fragment.pcOf]

theorem Fragment.pcOf_succ (F : Fragment) (i : Nat) : F.pcOf (i + 1) = F.pcOf i + 4#32 := by
  rw [Fragment.pcOf, Fragment.pcOf, Nat.mul_add, BitVec.ofNat_add, BitVec.add_assoc]

theorem Fragment.pcOf_add_two (F : Fragment) (i : Nat) : F.pcOf (i + 2) = F.pcOf i + 8#32 := by
  rw [Fragment.pcOf_succ, Fragment.pcOf_succ, BitVec.add_assoc]
  rfl

theorem Fragment.pcOf_target (F : Fragment) (ht : t &&& 3#32 = 0) :
    F.pcOf (t.toNat / 4) = F.entry + t := by
  have hMod : t.toNat % 4 = 0 := by
    have := congrArg BitVec.toNat ht
    rw [BitVec.toNat_and] at this
    simpa [Nat.and_two_pow_sub_one_eq_mod t.toNat 2] using this
  rw [Fragment.pcOf, show 4 * (t.toNat / 4) = t.toNat by omega, BitVec.ofNat_toNat,
    BitVec.setWidth_eq]

theorem Fragment.fetch_pcOf (F : Fragment) (hi : i < 0x40000000) :
    F.fetch (F.pcOf i) = F.words[i]? := by
  have hOff : F.pcOf i - F.entry = BitVec.ofNat 32 (4 * i) := by
    rw [Fragment.pcOf, BitVec.add_comm, BitVec.add_sub_cancel]
  have hNat : (BitVec.ofNat 32 (4 * i)).toNat = 4 * i := by
    rw [BitVec.toNat_ofNat]
    omega
  have hAligned : BitVec.ofNat 32 (4 * i) &&& 3#32 = 0 := by
    apply BitVec.eq_of_toNat_eq
    rw [BitVec.toNat_and, hNat]
    show 4 * i &&& 3 = 0
    rw [Nat.and_two_pow_sub_one_eq_mod _ 2]
    omega
  rw [Fragment.fetch, hOff, if_pos hAligned, hNat, Nat.mul_div_cancel_left _ (by omega)]

theorem Accepted.fetch_pcOf (hF : Accepted F) (hi : i ≤ F.words.length) :
    F.fetch (F.pcOf i) = F.words[i]? := by
  have hLength := hF.length
  unfold maxFragInsns at hLength
  exact F.fetch_pcOf (by omega)

/-- A branch goes where its target offset says. -/
theorem Fragment.entry_add_branch (F : Fragment) (i : Nat) (w : Word) :
    F.entry + (BitVec.ofNat 32 (4 * i) + 4#32 + (simm w <<< 2)) = branchTarget (F.pcOf i) w := by
  rw [branchTarget, Fragment.pcOf]
  ac_rfl

/-- The segment of an address and its physical part. -/
theorem segment_add_physical (a : Word) : (a &&& 0xE0000000#32) + physical a = a := by
  have hDisjoint : (a &&& 0xE0000000#32) &&& physical a = 0#32 := by
    rw [physical, BitVec.and_comm a 0x1FFFFFFF#32, BitVec.and_assoc, ← BitVec.and_assoc _ _ a]
    simp
  rw [BitVec.add_eq_or_of_and_eq_zero _ _ hDisjoint, physical, ← BitVec.and_or_distrib_left]
  exact BitVec.and_allOnes

theorem physical_jump (w : Word) :
    ((w &&& 0x03FFFFFF#32) <<< 2) &&& 0x1FFFFFFF#32 = (w &&& 0x03FFFFFF#32) <<< 2 := by
  have hAnd : (w &&& 0x03FFFFFF#32).toNat ≤ 0x03FFFFFF := by
    rw [BitVec.toNat_and]
    exact Nat.and_le_right
  have hShift : ((w &&& 0x03FFFFFF#32) <<< 2).toNat < 0x20000000 := by
    rw [BitVec.toNat_shiftLeft, Nat.shiftLeft_eq]
    omega
  apply BitVec.eq_of_toNat_eq
  rw [BitVec.toNat_and]
  show _ &&& 2 ^ 29 - 1 = _
  rw [Nat.and_two_pow_sub_one_eq_mod, Nat.mod_eq_of_lt hShift]

/-- A jump goes where its target offset says, in the segment of the entry. -/
theorem Fragment.entry_add_jump (F : Fragment) {pc : Word}
    (hSegment : (pc + 4#32) &&& 0xF0000000#32 = F.entry &&& 0xE0000000#32) :
    F.entry + ((((w &&& 0x03FFFFFF#32) <<< 2) &&& 0x1FFFFFFF#32) - physical F.entry) =
      jumpTarget pc w := by
  have hDisjoint : (F.entry &&& 0xE0000000#32) &&& ((w &&& 0x03FFFFFF#32) <<< 2) = 0#32 := by
    rw [← physical_jump, BitVec.and_comm ((w &&& 0x03FFFFFF#32) <<< 2), BitVec.and_assoc,
      ← BitVec.and_assoc 0xE0000000#32]
    simp
  calc F.entry + ((((w &&& 0x03FFFFFF#32) <<< 2) &&& 0x1FFFFFFF#32) - physical F.entry)
      = (F.entry &&& 0xE0000000#32) + physical F.entry +
          ((w &&& 0x03FFFFFF#32) <<< 2 - physical F.entry) := by
        rw [segment_add_physical, physical_jump]
    _ = (F.entry &&& 0xE0000000#32) + ((w &&& 0x03FFFFFF#32) <<< 2) := by
        rw [BitVec.add_assoc, BitVec.add_comm (physical F.entry), BitVec.sub_add_cancel]
    _ = jumpTarget pc w := by
        rw [BitVec.add_eq_or_of_and_eq_zero _ _ hDisjoint, jumpTarget, hSegment]

end RecompStudio.Sljit
