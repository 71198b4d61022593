import RecompStudio.Bios.Discovery
import RecompStudio.Bios.AddressMap
import Mathlib.Tactic.SplitIfs

/-!
Relocation of copied BIOS code. The walker and the emitter each turn the target
of a `j` or `jal` read at its ROM address into the address it has for the copy.
-/

namespace RecompStudio.Bios

open RecompStudio.Insn

/-- The `normalize_address` of function discovery, which leaves the shell alone. -/
@[grind =] def discoveryNormalize (addr : Word) : Word := kernelToRam (addr &&& 0x1FFFFFFF#32)

/-- `bios_runtime_pc`: the address from which a ROM word is executed. -/
def biosRuntimePc (romPc : Word) : Word :=
  let phys := romPc &&& 0x1FFFFFFF#32
  if 0x1FC18000#32 ≤ phys ∧ phys ≤ 0x1FC42FFF#32 then 0x80030000#32 + (phys - 0x1FC18000#32)
  else if 0x1FC10000#32 ≤ phys ∧ phys ≤ 0x1FC17FFF#32 then phys - 0x1FC10000#32 + 0x500#32
  else romPc

/-- `relocate_j_target` of the emitter. -/
def relocateJTarget (romAddr target : Word) : Word :=
  let phys := romAddr &&& 0x1FFFFFFF#32
  if 0x1FC10000#32 ≤ phys ∧ phys ≤ 0x1FC17FFF#32 then
    let runtimeAddr := phys - 0x1FC10000#32 + 0x500#32
    (runtimeAddr &&& 0xF0000000#32) ||| (target &&& 0x0FFFFFFF#32)
  else if 0x1FC18000#32 ≤ phys ∧ phys ≤ 0x1FC42FFF#32 then
    let runtimeAddr := 0x80030000#32 + (phys - 0x1FC18000#32)
    (runtimeAddr &&& 0xF0000000#32) ||| (target &&& 0x0FFFFFFF#32)
  else target

/-- The address that the walker records for the jump word `w` at `addr`. -/
def walkedTarget (addr w : Word) : Word := (classifyControlFlow w addr).target

/-- The address that the emitter writes for it. -/
def emittedTarget (addr w : Word) : Word := relocateJTarget addr (jumpTarget addr w)

/-- Runtime addresses of the two copies: the kernel's in KUSEG, the shell's in KSEG0. -/
def InCopy (addr : Word) : Prop :=
  (0x500#32 ≤ addr ∧ addr < 0x8500#32) ∨ (0x80030000#32 ≤ addr ∧ addr ≤ 0x8005AFFF#32)

/-- The words of the ROM that are copied. -/
def InCopied (addr : Word) : Prop := 0xBFC10000#32 ≤ addr ∧ addr ≤ 0xBFC42FFF#32

/-- The condition on which a jump has one target: `low` is the part of the
target that the instruction encodes. -/
def JumpMapped (addr w : Word) : Prop :=
  let phys := addr &&& 0x1FFFFFFF#32
  let low := jumpTarget addr w &&& 0x0FFFFFFF#32
  if 0x1FC10000#32 ≤ phys ∧ phys ≤ 0x1FC17FFF#32 then 0x500#32 ≤ low ∧ low < 0x8500#32
  else if 0x1FC18000#32 ≤ phys ∧ phys ≤ 0x1FC427FF#32 then
    (0x500#32 ≤ low ∧ low < 0x8500#32) ∨ (0x30000#32 ≤ low ∧ low < 0x5A800#32)
  else if 0x1FC42800#32 ≤ phys ∧ phys ≤ 0x1FC42FFF#32 then False
  else
    let target := jumpTarget addr w &&& 0x1FFFFFFF#32
    ¬ (0x30000#32 ≤ target ∧ target ≤ 0x5AFFF#32)

private theorem low_toNat (a : Word) : (a &&& 0x0FFFFFFF#32).toNat = a.toNat % 2 ^ 28 := by
  rw [BitVec.toNat_and]
  exact Nat.and_two_pow_sub_one_eq_mod a.toNat 28

private theorem region_add_low (a : Word) : (a &&& 0xF0000000#32) + (a &&& 0x0FFFFFFF#32) = a := by
  have hDisjoint : (a &&& 0xF0000000#32) &&& (a &&& 0x0FFFFFFF#32) = 0#32 := by
    rw [BitVec.and_comm a 0x0FFFFFFF#32, BitVec.and_assoc, ← BitVec.and_assoc _ _ a]
    simp
  rw [BitVec.add_eq_or_of_and_eq_zero _ _ hDisjoint, ← BitVec.and_or_distrib_left]
  exact BitVec.and_allOnes

private theorem region_toNat (a : Word) :
    (a &&& 0xF0000000#32).toNat = a.toNat - a.toNat % 2 ^ 28 := by
  have hSum := congrArg BitVec.toNat (region_add_low a)
  have hLow := low_toNat a
  have hLe : (a &&& 0xF0000000#32).toNat ≤ a.toNat := by
    rw [BitVec.toNat_and]
    exact Nat.and_le_left
  rw [BitVec.toNat_add] at hSum
  omega

/-- A jump target is the region of one address with the encoded part of another. -/
private theorem region_or_toNat (a : Word) {low : Word} (hLow : low.toNat < 2 ^ 28) :
    ((a &&& 0xF0000000#32) ||| low).toNat = a.toNat - a.toNat % 2 ^ 28 + low.toNat := by
  have hMasked : low &&& 0x0FFFFFFF#32 = low := by
    apply BitVec.eq_of_toNat_eq
    rw [low_toNat, Nat.mod_eq_of_lt hLow]
  have hDisjoint : (a &&& 0xF0000000#32) &&& low = 0#32 := by
    rw [← hMasked, BitVec.and_comm low, BitVec.and_assoc, ← BitVec.and_assoc 0xF0000000#32]
    simp
  rw [← BitVec.add_eq_or_of_and_eq_zero _ _ hDisjoint, BitVec.toNat_add, region_toNat]
  omega

theorem jumpTarget_toNat (pc w : Word) :
    (jumpTarget pc w).toNat =
      (pc + 4#32).toNat - (pc + 4#32).toNat % 2 ^ 28 + w.toNat % 2 ^ 26 * 4 := by
  have hField : ((w &&& 0x03FFFFFF#32) <<< 2).toNat = w.toNat % 2 ^ 26 * 4 := by
    have hMask : (w &&& 0x03FFFFFF#32).toNat = w.toNat % 2 ^ 26 := by
      rw [BitVec.toNat_and]
      exact Nat.and_two_pow_sub_one_eq_mod w.toNat 26
    rw [BitVec.toNat_shiftLeft, Nat.shiftLeft_eq, hMask]
    omega
  rw [jumpTarget, region_or_toNat, hField]
  omega

/-- The targets of code in the copied part of the ROM, read at their ROM address,
lie in the 256 MB region of the ROM. -/
theorem jumpTarget_of_copied (addr w : Word) (hLo : 0x1FC10000 ≤ addr.toNat % 2 ^ 29)
    (hHi : addr.toNat % 2 ^ 29 ≤ 0x1FC42FFF) :
    (jumpTarget addr w).toNat % 2 ^ 29 = 2 ^ 28 + w.toNat % 2 ^ 26 * 4 ∧
      (jumpTarget addr w).toNat % 2 ^ 28 = w.toNat % 2 ^ 26 * 4 := by
  have hNext : (addr + 4#32).toNat = addr.toNat + 4 := by
    rw [BitVec.toNat_add]
    have hLt := addr.isLt
    have hFour : (4#32 : Word).toNat = 4 := rfl
    omega
  rw [jumpTarget_toNat, hNext]
  omega

/-- The runtime region of the kernel's copy is the lowest one. -/
private theorem kernel_region {phys : Word} (hLo : 0x1FC10000 ≤ phys.toNat)
    (hHi : phys.toNat ≤ 0x1FC17FFF) (low : Word) :
    (phys - 0x1FC10000#32 + 0x500#32) &&& 0xF0000000#32 ||| (low &&& 0x0FFFFFFF#32) =
      low &&& 0x0FFFFFFF#32 := by
  apply BitVec.eq_of_toNat_eq
  have hLow : (low &&& 0x0FFFFFFF#32).toNat < 2 ^ 28 := by
    rw [low_toNat]
    exact Nat.mod_lt _ (by decide)
  rw [region_or_toNat _ hLow]
  bv_omega

theorem relocateJTarget_toNat (addr target : Word) :
    (relocateJTarget addr target).toNat =
      if 0x1FC10000 ≤ addr.toNat % 2 ^ 29 ∧ addr.toNat % 2 ^ 29 ≤ 0x1FC17FFF then
        target.toNat % 2 ^ 28
      else if 0x1FC18000 ≤ addr.toNat % 2 ^ 29 ∧ addr.toNat % 2 ^ 29 ≤ 0x1FC42FFF then
        2 ^ 31 + target.toNat % 2 ^ 28
      else target.toNat := by
  have hPhys := and_segment_toNat addr
  have hLow : (target &&& 0x0FFFFFFF#32).toNat < 2 ^ 28 := by
    rw [low_toNat]
    exact Nat.mod_lt _ (by decide)
  simp only [relocateJTarget, BitVec.le_def, hPhys, BitVec.toNat_ofNat, Nat.reduceMod,
    Nat.reducePow, apply_ite BitVec.toNat]
  split
  next hKernel =>
    rw [kernel_region (by omega) (by omega), low_toNat]
    rfl
  next =>
    split
    next hShell =>
      rw [region_or_toNat _ hLow, low_toNat]
      bv_omega
    next => rfl

theorem remapKernelTarget_toNat {phys : Word} (hLo : 0x1FC10000 ≤ phys.toNat)
    (hHi : phys.toNat ≤ 0x1FC17FFF) (target : Word) :
    (remapKernelTarget target phys).toNat =
      if 0x500 ≤ target.toNat % 2 ^ 28 ∧ target.toNat % 2 ^ 28 < 0x8500 then
        0xBFC10000 + (target.toNat % 2 ^ 28 - 0x500)
      else target.toNat := by
  have hSegment : (target &&& 0x0FFFFFFF#32 &&& 0x1FFFFFFF#32).toNat = target.toNat % 2 ^ 28 := by
    rw [and_segment_toNat, low_toNat]
    omega
  simp only [remapKernelTarget, kernel_region hLo hHi, BitVec.le_def, BitVec.lt_def,
    apply_ite BitVec.toNat, BitVec.toNat_add, BitVec.toNat_sub, hSegment, BitVec.toNat_ofNat,
    Nat.reduceMod, Nat.reducePow]
  -- a target of 28 bits never lies in the ROM
  split
  next => omega
  next => rw [if_neg (by omega)]

theorem remapShellTarget_toNat (target : Word) :
    (remapShellTarget target).toNat =
      if 0x30000 ≤ target.toNat % 2 ^ 28 ∧ target.toNat % 2 ^ 28 < 0x5A800 then
        0xBFC18000 + (target.toNat % 2 ^ 28 - 0x30000)
      else if 0x500 ≤ target.toNat % 2 ^ 28 ∧ target.toNat % 2 ^ 28 < 0x8500 then
        0xBFC10000 + (target.toNat % 2 ^ 28 - 0x500)
      else target.toNat := by
  have hLow : (target &&& 0x0FFFFFFF#32).toNat < 2 ^ 28 := by
    rw [low_toNat]
    exact Nat.mod_lt _ (by decide)
  have hSegment : ((0x80000000#32 ||| (target &&& 0x0FFFFFFF#32)) &&& 0x1FFFFFFF#32).toNat =
      target.toNat % 2 ^ 28 := by
    rw [and_segment_toNat, show 0x80000000#32 = 0x80000000#32 &&& 0xF0000000#32 from rfl,
      region_or_toNat _ hLow, low_toNat]
    bv_omega
  simp only [remapShellTarget, BitVec.le_def, BitVec.lt_def,
    apply_ite BitVec.toNat, BitVec.toNat_add, BitVec.toNat_sub, hSegment, BitVec.toNat_ofNat,
    Nat.reduceMod, Nat.reducePow]
  split
  next => omega
  next =>
    split
    next => omega
    next => rw [if_neg (by omega)]

theorem discoveryNormalize_toNat (addr : Word) :
    (discoveryNormalize addr).toNat =
      if 0x1FC10000 ≤ addr.toNat % 2 ^ 29 ∧ addr.toNat % 2 ^ 29 ≤ 0x1FC17FFF then
        addr.toNat % 2 ^ 29 - 0x1FC10000 + 0x500
      else addr.toNat % 2 ^ 29 := by
  rw [discoveryNormalize, kernelToRam_toNat, and_segment_toNat]

theorem normalizeAddress_toNat (addr : Word) :
    (normalizeAddress addr).toNat =
      if 0x30000 ≤ (discoveryNormalize addr).toNat ∧ (discoveryNormalize addr).toNat ≤ 0x5AFFF then
        (discoveryNormalize addr).toNat - 0x30000 + 0x1FC18000
      else (discoveryNormalize addr).toNat := by
  rw [normalizeAddress, shellToRom_toNat, discoveryNormalize]

/-- Both normal forms are stable. -/
theorem normalizeAddress_idempotent (addr : Word) :
    normalizeAddress (normalizeAddress addr) = normalizeAddress addr := by
  apply BitVec.eq_of_toNat_eq
  simp only [normalizeAddress_toNat, discoveryNormalize_toNat]
  split_ifs <;> omega

theorem discoveryNormalize_idempotent (addr : Word) :
    discoveryNormalize (discoveryNormalize addr) = discoveryNormalize addr := by
  apply BitVec.eq_of_toNat_eq
  simp only [discoveryNormalize_toNat]
  split_ifs <;> omega

theorem ramAliasToRom_toNat (addr : Word) :
    (ramAliasToRom addr).toNat =
      if 0x500 ≤ addr.toNat % 2 ^ 29 ∧ addr.toNat % 2 ^ 29 < 0x8500 then
        0xBFC10000 + (addr.toNat % 2 ^ 29 - 0x500)
      else if 0x30000 ≤ addr.toNat % 2 ^ 29 ∧ addr.toNat % 2 ^ 29 ≤ 0x5AFFF then
        0xBFC18000 + (addr.toNat % 2 ^ 29 - 0x30000)
      else addr.toNat := by
  simp only [ramAliasToRom, BitVec.le_def, BitVec.lt_def, apply_ite BitVec.toNat,
    BitVec.toNat_add, BitVec.toNat_sub, and_segment_toNat, BitVec.toNat_ofNat, Nat.reduceMod,
    Nat.reducePow]
  split
  next => omega
  next =>
    split
    next => omega
    next => rfl

theorem biosRuntimePc_toNat (addr : Word) :
    (biosRuntimePc addr).toNat =
      if 0x1FC18000 ≤ addr.toNat % 2 ^ 29 ∧ addr.toNat % 2 ^ 29 ≤ 0x1FC42FFF then
        0x80030000 + (addr.toNat % 2 ^ 29 - 0x1FC18000)
      else if 0x1FC10000 ≤ addr.toNat % 2 ^ 29 ∧ addr.toNat % 2 ^ 29 ≤ 0x1FC17FFF then
        addr.toNat % 2 ^ 29 - 0x1FC10000 + 0x500
      else addr.toNat := by
  simp only [biosRuntimePc, BitVec.le_def, apply_ite BitVec.toNat,
    BitVec.toNat_add, BitVec.toNat_sub, and_segment_toNat, BitVec.toNat_ofNat, Nat.reduceMod,
    Nat.reducePow]
  split
  next => omega
  next =>
    split
    next => omega
    next => rfl

theorem InCopy.toNat {addr : Word} (h : InCopy addr) :
    (0x500 ≤ addr.toNat ∧ addr.toNat < 0x8500) ∨
      (0x80030000 ≤ addr.toNat ∧ addr.toNat ≤ 0x8005AFFF) := h

/-- The ROM source of a copied address, and back. -/
theorem InCopy.biosRuntimePc_ramAliasToRom {addr : Word} (h : InCopy addr) :
    InCopied (ramAliasToRom addr) ∧ biosRuntimePc (ramAliasToRom addr) = addr := by
  have hRange := h.toNat
  have hRom := ramAliasToRom_toNat addr
  constructor
  · rw [InCopied, BitVec.le_def, BitVec.le_def, hRom]
    simp only [BitVec.toNat_ofNat, Nat.reduceMod, Nat.reducePow]
    split_ifs <;> omega
  · apply BitVec.eq_of_toNat_eq
    rw [biosRuntimePc_toNat, hRom]
    split_ifs <;> omega

theorem InCopied.ramAliasToRom_biosRuntimePc {addr : Word} (h : InCopied addr) :
    InCopy (biosRuntimePc addr) ∧ ramAliasToRom (biosRuntimePc addr) = addr := by
  have hRange : 0xBFC10000 ≤ addr.toNat ∧ addr.toNat ≤ 0xBFC42FFF := h
  have hPc := biosRuntimePc_toNat addr
  constructor
  · simp only [InCopy, BitVec.le_def, BitVec.lt_def, hPc, BitVec.toNat_ofNat, Nat.reduceMod,
      Nat.reducePow]
    split_ifs <;> omega
  · apply BitVec.eq_of_toNat_eq
    rw [ramAliasToRom_toNat, hPc]
    split_ifs <;> omega

/-- `j` and `jal`. -/
def IsJump (w : Word) : Prop := Op.ofWord w = .j ∨ Op.ofWord w = .jal

theorem walkedTarget_of_jump {w : Word} (hJump : IsJump w) (addr : Word) :
    walkedTarget addr w = remapRelocatedJTarget (jumpTarget addr w) addr := by
  rcases hJump with hOp | hOp <;> simp only [walkedTarget, classifyControlFlow, hOp]

/-- The walker and the emitter give a jump one ROM address: the key of the
function that the walker records is what the emitted address normalizes to. -/
def SameTarget (addr w : Word) : Prop :=
  discoveryNormalize (walkedTarget addr w) = normalizeAddress (emittedTarget addr w)

instance (addr w : Word) : Decidable (SameTarget addr w) := inferInstanceAs (Decidable (_ = _))

theorem JumpMapped_toNat (addr w : Word) :
    JumpMapped addr w ↔
      if 0x1FC10000 ≤ addr.toNat % 2 ^ 29 ∧ addr.toNat % 2 ^ 29 ≤ 0x1FC17FFF then
        0x500 ≤ (jumpTarget addr w).toNat % 2 ^ 28 ∧ (jumpTarget addr w).toNat % 2 ^ 28 < 0x8500
      else if 0x1FC18000 ≤ addr.toNat % 2 ^ 29 ∧ addr.toNat % 2 ^ 29 ≤ 0x1FC427FF then
        (0x500 ≤ (jumpTarget addr w).toNat % 2 ^ 28 ∧
          (jumpTarget addr w).toNat % 2 ^ 28 < 0x8500) ∨
        (0x30000 ≤ (jumpTarget addr w).toNat % 2 ^ 28 ∧
          (jumpTarget addr w).toNat % 2 ^ 28 < 0x5A800)
      else if 0x1FC42800 ≤ addr.toNat % 2 ^ 29 ∧ addr.toNat % 2 ^ 29 ≤ 0x1FC42FFF then False
      else ¬ (0x30000 ≤ (jumpTarget addr w).toNat % 2 ^ 29 ∧
        (jumpTarget addr w).toNat % 2 ^ 29 ≤ 0x5AFFF) := by
  simp only [JumpMapped, BitVec.le_def, BitVec.lt_def, and_segment_toNat, low_toNat,
    BitVec.toNat_ofNat, Nat.reduceMod, Nat.reducePow]

section Target

variable {addr w : Word}

private theorem sameTarget_toNat (hJump : IsJump w) :
    SameTarget addr w ↔
      (discoveryNormalize (remapRelocatedJTarget (jumpTarget addr w) addr)).toNat =
        (normalizeAddress (relocateJTarget addr (jumpTarget addr w))).toNat := by
  rw [SameTarget, walkedTarget_of_jump hJump, emittedTarget, BitVec.toNat_inj]

/-- Code of the kernel's second part: only its own copy is mapped. -/
theorem sameTarget_iff_of_kernel (hJump : IsJump w) (hLo : 0x1FC10000 ≤ addr.toNat % 2 ^ 29)
    (hHi : addr.toNat % 2 ^ 29 ≤ 0x1FC17FFF) : SameTarget addr w ↔ JumpMapped addr w := by
  obtain ⟨hSegment, hLow⟩ := jumpTarget_of_copied addr w hLo (by omega)
  have hPhys := and_segment_toNat addr
  have hWalked : remapRelocatedJTarget (jumpTarget addr w) addr =
      remapKernelTarget (jumpTarget addr w) (addr &&& 0x1FFFFFFF#32) := by
    rw [remapRelocatedJTarget, if_pos]
    rw [BitVec.le_def, BitVec.le_def, hPhys]
    exact ⟨hLo, hHi⟩
  have hEmitted : (relocateJTarget addr (jumpTarget addr w)).toNat = w.toNat % 2 ^ 26 * 4 := by
    rw [relocateJTarget_toNat, if_pos ⟨hLo, hHi⟩, hLow]
  have hMapped : JumpMapped addr w ↔
      0x500 ≤ w.toNat % 2 ^ 26 * 4 ∧ w.toNat % 2 ^ 26 * 4 < 0x8500 := by
    rw [JumpMapped_toNat, if_pos ⟨hLo, hHi⟩, hLow]
  rw [sameTarget_toNat hJump, hMapped, hWalked, normalizeAddress_toNat, discoveryNormalize_toNat,
    discoveryNormalize_toNat, hEmitted,
    remapKernelTarget_toNat (hPhys.symm ▸ hLo) (hPhys.symm ▸ hHi), hLow]
  split_ifs <;> omega

/-- Code of the shell: its own copy up to the walker's bound, and the kernel's. -/
theorem sameTarget_iff_of_shell (hJump : IsJump w) (hLo : 0x1FC18000 ≤ addr.toNat % 2 ^ 29)
    (hHi : addr.toNat % 2 ^ 29 ≤ 0x1FC427FF) : SameTarget addr w ↔ JumpMapped addr w := by
  obtain ⟨hSegment, hLow⟩ := jumpTarget_of_copied addr w (by omega) (by omega)
  have hWalked : remapRelocatedJTarget (jumpTarget addr w) addr =
      remapShellTarget (jumpTarget addr w) := by
    simp only [remapRelocatedJTarget, BitVec.le_def, and_segment_toNat, BitVec.toNat_ofNat,
      Nat.reduceMod, Nat.reducePow]
    rw [if_neg (by omega), if_pos ⟨hLo, hHi⟩]
  have hEmitted : (relocateJTarget addr (jumpTarget addr w)).toNat =
      2 ^ 31 + w.toNat % 2 ^ 26 * 4 := by
    rw [relocateJTarget_toNat, if_neg (by omega), if_pos ⟨hLo, by omega⟩, hLow]
  have hMapped : JumpMapped addr w ↔
      (0x500 ≤ w.toNat % 2 ^ 26 * 4 ∧ w.toNat % 2 ^ 26 * 4 < 0x8500) ∨
        (0x30000 ≤ w.toNat % 2 ^ 26 * 4 ∧ w.toNat % 2 ^ 26 * 4 < 0x5A800) := by
    rw [JumpMapped_toNat, if_neg (by omega), if_pos ⟨hLo, hHi⟩, hLow]
  rw [sameTarget_toNat hJump, hMapped, hWalked, normalizeAddress_toNat, discoveryNormalize_toNat,
    discoveryNormalize_toNat, hEmitted, remapShellTarget_toNat, hLow]
  split_ifs <;> omega

/-- The last words of the copied shell: the emitter relocates them, the walker
does not. -/
theorem not_sameTarget_of_gap (hJump : IsJump w) (hLo : 0x1FC42800 ≤ addr.toNat % 2 ^ 29)
    (hHi : addr.toNat % 2 ^ 29 ≤ 0x1FC42FFF) : ¬ SameTarget addr w := by
  obtain ⟨hSegment, hLow⟩ := jumpTarget_of_copied addr w (by omega) (by omega)
  have hWalked : remapRelocatedJTarget (jumpTarget addr w) addr = jumpTarget addr w := by
    simp only [remapRelocatedJTarget, BitVec.le_def, and_segment_toNat, BitVec.toNat_ofNat,
      Nat.reduceMod, Nat.reducePow]
    rw [if_neg (by omega), if_neg (by omega)]
  have hEmitted : (relocateJTarget addr (jumpTarget addr w)).toNat =
      2 ^ 31 + w.toNat % 2 ^ 26 * 4 := by
    rw [relocateJTarget_toNat, if_neg (by omega), if_pos ⟨by omega, hHi⟩, hLow]
  rw [sameTarget_toNat hJump, hWalked, normalizeAddress_toNat, discoveryNormalize_toNat,
    discoveryNormalize_toNat, hEmitted, hSegment]
  split_ifs <;> omega

theorem sameTarget_iff_of_uncopied (hJump : IsJump w)
    (hOutside : addr.toNat % 2 ^ 29 < 0x1FC10000 ∨ 0x1FC42FFF < addr.toNat % 2 ^ 29) :
    SameTarget addr w ↔ JumpMapped addr w := by
  have hWalked : remapRelocatedJTarget (jumpTarget addr w) addr = jumpTarget addr w := by
    simp only [remapRelocatedJTarget, BitVec.le_def, and_segment_toNat, BitVec.toNat_ofNat,
      Nat.reduceMod, Nat.reducePow]
    rw [if_neg (by omega), if_neg (by omega)]
  have hEmitted : (relocateJTarget addr (jumpTarget addr w)).toNat =
      (jumpTarget addr w).toNat := by
    rw [relocateJTarget_toNat, if_neg (by omega), if_neg (by omega)]
  rw [sameTarget_toNat hJump, JumpMapped_toNat, if_neg (by omega), if_neg (by omega),
    if_neg (by omega), hWalked, normalizeAddress_toNat, discoveryNormalize_toNat,
    discoveryNormalize_toNat, hEmitted]
  split_ifs <;> omega

theorem sameTarget_iff (hJump : IsJump w) : SameTarget addr w ↔ JumpMapped addr w := by
  by_cases hKernel : 0x1FC10000 ≤ addr.toNat % 2 ^ 29 ∧ addr.toNat % 2 ^ 29 ≤ 0x1FC17FFF
  · exact sameTarget_iff_of_kernel hJump hKernel.1 hKernel.2
  · by_cases hShell : 0x1FC18000 ≤ addr.toNat % 2 ^ 29 ∧ addr.toNat % 2 ^ 29 ≤ 0x1FC427FF
    · exact sameTarget_iff_of_shell hJump hShell.1 hShell.2
    · by_cases hGap : 0x1FC42800 ≤ addr.toNat % 2 ^ 29 ∧ addr.toNat % 2 ^ 29 ≤ 0x1FC42FFF
      · have hUnmapped : ¬ JumpMapped addr w := by
          rw [JumpMapped_toNat, if_neg hKernel, if_neg hShell, if_pos hGap]
          exact id
        exact iff_of_false (not_sameTarget_of_gap hJump hGap.1 hGap.2) hUnmapped
      · exact sameTarget_iff_of_uncopied hJump (by omega)

/-- Behind ROM code a mapped jump also survives the mirror fold of the emitted
dispatcher: the key that it looks up is the one of the recorded function. -/
theorem normalize_emittedTarget (hJump : IsJump w) (hRom : 0x1FC00000 ≤ addr.toNat % 2 ^ 29)
    (hEnd : addr.toNat % 2 ^ 29 < 0x1FC80000) (hMapped : JumpMapped addr w) :
    normalize (emittedTarget addr w) = discoveryNormalize (walkedTarget addr w) := by
  rw [(sameTarget_iff hJump).mpr hMapped]
  have hNext : (addr + 4#32).toNat = addr.toNat + 4 := by
    rw [BitVec.toNat_add]
    have hLt := addr.isLt
    have hFour : (4#32 : Word).toNat = 4 := rfl
    omega
  have hTarget := jumpTarget_toNat addr w
  rw [hNext] at hTarget
  rw [JumpMapped_toNat] at hMapped
  apply BitVec.eq_of_toNat_eq
  simp only [normalize, shellToRom_toNat, kernelToRam_toNat, mainRamMirrorPhys_toNat,
    normalizeAddress_toNat, discoveryNormalize_toNat, emittedTarget, relocateJTarget_toNat]
  split_ifs at hMapped ⊢ <;> omega

end Target

/-- The address maps of the BIOS pipeline: the normal forms are stable, the two
maps between a copy and its source are inverse, and a jump has one ROM address in
the walker and in the emitter exactly when it is mapped; then the dispatcher looks
up the recorded function. -/
theorem addressMaps_consistent_iff (addr w : Word) (hJump : IsJump w) :
    (∀ a, normalizeAddress (normalizeAddress a) = normalizeAddress a) ∧
    (∀ a, discoveryNormalize (discoveryNormalize a) = discoveryNormalize a) ∧
    (∀ a, InCopy a → InCopied (ramAliasToRom a) ∧ biosRuntimePc (ramAliasToRom a) = a) ∧
    (∀ a, InCopied a → InCopy (biosRuntimePc a) ∧ ramAliasToRom (biosRuntimePc a) = a) ∧
    (SameTarget addr w ↔ JumpMapped addr w) ∧
    (0x1FC00000 ≤ addr.toNat % 2 ^ 29 ∧ addr.toNat % 2 ^ 29 < 0x1FC80000 → JumpMapped addr w →
      normalize (emittedTarget addr w) = discoveryNormalize (walkedTarget addr w)) :=
  ⟨normalizeAddress_idempotent, discoveryNormalize_idempotent,
    fun _ h => h.biosRuntimePc_ramAliasToRom, fun _ h => h.ramAliasToRom_biosRuntimePc,
    sameTarget_iff hJump, fun hRom => normalize_emittedTarget hJump hRom.1 hRom.2⟩

/-- A call of the shell inside its copy: `jal 0x80030000`. -/
theorem addressMaps_consistent_shellCall :
    JumpMapped 0xBFC18000#32 0x0C00C000#32 ∧ SameTarget 0xBFC18000#32 0x0C00C000#32 := by
  have hMapped : JumpMapped 0xBFC18000#32 0x0C00C000#32 := by
    rw [JumpMapped_toNat]
    decide
  have hMaps := addressMaps_consistent_iff 0xBFC18000#32 0x0C00C000#32 (Or.inr (by decide))
  exact ⟨hMapped, hMaps.2.2.2.2.1.mpr hMapped⟩

/-- A call of the shell to `0x8005A800`, behind the walker's bound but inside the
emitter's. -/
theorem addressMaps_inconsistent_at_shellEnd :
    IsJump 0x0C016A00#32 ∧ ¬ SameTarget 0xBFC18000#32 0x0C016A00#32 :=
  ⟨Or.inr (by decide), by decide⟩

end RecompStudio.Bios
