import RecompStudio.Cpu.Word

/-!
The address maps of the BIOS pipeline. The kernel's second part is copied from
ROM to RAM at `0x500`, the shell from ROM to RAM at `0x30000`.
-/

namespace RecompStudio.Bios

/-- `psx_main_ram_mirror_phys`: drop the segment bits and fold the RAM mirrors. -/
def mainRamMirrorPhys (addr : Word) : Word :=
  let phys := addr &&& 0x1FFFFFFF#32
  if phys < 0x00800000#32 then phys &&& 0x001FFFFF#32 else phys

/-- Kernel ROM addresses move to their RAM copy. -/
def kernelToRam (phys : Word) : Word :=
  if 0x1FC10000#32 ≤ phys ∧ phys ≤ 0x1FC17FFF#32 then phys - 0x1FC10000#32 + 0x00000500#32 else phys

/-- Shell RAM addresses move to their ROM source. -/
def shellToRom (phys : Word) : Word :=
  if 0x00030000#32 ≤ phys ∧ phys ≤ 0x0005AFFF#32 then phys - 0x00030000#32 + 0x1FC18000#32 else phys

/-- The generator's `normalize_address`. -/
def normalizeAddress (addr : Word) : Word := shellToRom (kernelToRam (addr &&& 0x1FFFFFFF#32))

/-- The `normalize` of the emitted dispatcher, which also folds RAM mirrors. -/
def normalize (addr : Word) : Word := shellToRom (kernelToRam (mainRamMirrorPhys addr))

theorem and_segment_toNat (addr : Word) :
    (addr &&& 0x1FFFFFFF#32).toNat = addr.toNat % 2 ^ 29 := by
  rw [BitVec.toNat_and]
  exact Nat.and_two_pow_sub_one_eq_mod addr.toNat 29

private theorem and_mirror_toNat (addr : Word) :
    (addr &&& 0x001FFFFF#32).toNat = addr.toNat % 2 ^ 21 := by
  rw [BitVec.toNat_and]
  exact Nat.and_two_pow_sub_one_eq_mod addr.toNat 21

theorem mainRamMirrorPhys_toNat (addr : Word) :
    (mainRamMirrorPhys addr).toNat =
      if addr.toNat % 2 ^ 29 < 0x800000 then addr.toNat % 2 ^ 21 else addr.toNat % 2 ^ 29 := by
  simp only [mainRamMirrorPhys, BitVec.lt_def, and_segment_toNat, apply_ite BitVec.toNat,
    and_mirror_toNat]
  have hSmall : (0x00800000#32 : Word).toNat = 0x800000 := rfl
  rw [hSmall]
  split
  · omega
  · rfl

theorem kernelToRam_toNat (phys : Word) :
    (kernelToRam phys).toNat =
      if 0x1FC10000 ≤ phys.toNat ∧ phys.toNat ≤ 0x1FC17FFF then
        phys.toNat - 0x1FC10000 + 0x500
      else phys.toNat := by
  simp only [kernelToRam, BitVec.le_def, apply_ite BitVec.toNat]
  have hLo : (0x1FC10000#32 : Word).toNat = 0x1FC10000 := rfl
  have hHi : (0x1FC17FFF#32 : Word).toNat = 0x1FC17FFF := rfl
  rw [hLo, hHi]
  split <;> bv_omega

theorem shellToRom_toNat (phys : Word) :
    (shellToRom phys).toNat =
      if 0x30000 ≤ phys.toNat ∧ phys.toNat ≤ 0x5AFFF then
        phys.toNat - 0x30000 + 0x1FC18000
      else phys.toNat := by
  simp only [shellToRom, BitVec.le_def, apply_ite BitVec.toNat]
  have hLo : (0x00030000#32 : Word).toNat = 0x30000 := rfl
  have hHi : (0x0005AFFF#32 : Word).toNat = 0x5AFFF := rfl
  rw [hLo, hHi]
  split <;> bv_omega

/-- Normalizing twice changes nothing, so the fixed points of `normalize` are
exactly the addresses that the dispatcher can ask the table for. -/
theorem normalize_idempotent (addr : Word) : normalize (normalize addr) = normalize addr := by
  apply BitVec.eq_of_toNat_eq
  simp only [normalize, shellToRom_toNat, kernelToRam_toNat, mainRamMirrorPhys_toNat]
  split <;> split <;> split <;> split <;> split <;> split <;> omega

end RecompStudio.Bios
