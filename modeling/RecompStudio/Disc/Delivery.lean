import RecompStudio.Disc.Image
import RecompStudio.Runtime.Cdrom

/-!
The sectors that the drive delivers, next to those that the tools read: both from one image,
but each with its own idea of where the user data of a raw sector is.
-/

namespace RecompStudio.Disc

open RecompStudio.Runtime

/-- The reader, as the functions `iso_*` pass it on to the drive. -/
def ISOReader.disc (reader : ISOReader) : Runtime.Disc where
  raw lba := reader.readRawSector (BitVec.ofInt 32 lba)
  user lba := reader.readSector (BitVec.ofInt 32 lba)
  sectors := reader.sectorCount.toNat
  trackCount := reader.tracks.length
  trackStart track := (reader.trackStartLba (BitVec.ofInt 32 track)).toNat

section Sectors

variable {reader : ISOReader} {lba : BitVec 32} {user raw : Nat → Byte}

/-- What the tools read of a raw sector depends on its mode. -/
theorem readSector_of_raw (hUser : reader.readSector lba = some user)
    (hRaw : reader.readRawSector lba = some raw) : user = ISOReader.userData raw := by
  obtain ⟨image, hImage, hUser⟩ := Option.bind_eq_some_iff.mp hUser
  obtain ⟨image', hImage', hRaw⟩ := Option.bind_eq_some_iff.mp hRaw
  cases hImage.symm.trans hImage'
  by_cases hSize : image.sectorSize = rawSectorSize
  · rw [if_pos hSize] at hRaw
    dsimp only at hUser
    split at hUser
    · exact nomatch hUser
    · rw [hRaw] at hUser
      exact (Option.some.inj hUser).symm
  · rw [if_neg hSize] at hRaw
    exact nomatch hRaw

end Sectors

section Delivery

variable {reader : ISOReader} {d : Drive} {place : Msf} {user : Nat → Byte}

/-- What is in the sector buffer in 2048-byte mode. -/
theorem sector_data (hDisc : d.disc = some reader.disc) (hMode : d.modeBit 5 = false)
    (hDelivered : (d.readSectorAt place).2 = true)
    (hUser : reader.readSector (BitVec.ofInt 32 place.toLba) = some user) {i : Nat}
    (hi : i < 2048) :
    (d.readSectorAt place).1.sector.data i =
      ((reader.readRawSector (BitVec.ofInt 32 place.toLba)).map fun raw i => raw (24 + i)).getD user
        i := by
  unfold Drive.readSectorAt at hDelivered ⊢
  dsimp only at hDelivered ⊢
  simp only [hDisc, ISOReader.disc, Option.bind_some] at hDelivered ⊢
  simp only [hDelivered, hMode, hUser, Bool.not_true, Bool.false_eq_true, if_false, if_pos hi]
  cases reader.readRawSector (BitVec.ofInt 32 place.toLba) with
  | none => rfl
  | some raw => rfl

/-- A sector of the drive is delivered in 2048-byte mode as the tools read it, unless it is a
raw one of mode 1: then the drive takes it from eight bytes further on. -/
theorem delivered_iff (hDisc : d.disc = some reader.disc) (hMode : d.modeBit 5 = false)
    (hDelivered : (d.readSectorAt place).2 = true)
    (hUser : reader.readSector (BitVec.ofInt 32 place.toLba) = some user) :
    (∀ i < 2048, (d.readSectorAt place).1.sector.data i = user i) ↔
      ∀ raw, reader.readRawSector (BitVec.ofInt 32 place.toLba) = some raw → raw 15 = 1 →
        ∀ i < 2048, raw (24 + i) = raw (16 + i) := by
  have hData : ∀ i < 2048, _ := fun i hi => @sector_data _ _ _ _ hDisc hMode hDelivered hUser i hi
  cases hRaw : reader.readRawSector (BitVec.ofInt 32 place.toLba) with
  | none =>
      rw [hRaw] at hData
      exact iff_of_true hData nofun
  | some raw =>
      rw [hRaw] at hData
      have hRead : ∀ i < 2048, (d.readSectorAt place).1.sector.data i = raw (24 + i) := hData
      rw [readSector_of_raw hUser hRaw]
      constructor
      · rintro hSame raw' ⟨⟩ hFirst i hi
        rw [← hRead i hi, hSame i hi, ISOReader.userData, if_pos hFirst]
      · intro hAgree i hi
        rw [hRead i hi, ISOReader.userData]
        split
        · rename_i hFirst
          exact hAgree raw rfl hFirst i hi
        · rfl

end Delivery

/-- An image of one sector in mode 1, with the user data 7, 0, 0 and so on. -/
def modeOneImage : FileData where
  size := 2352
  byte i := if i = 15 then 1 else if i = 16 then 7 else 0

def modeOneReader : ISOReader where
  images := [⟨[], 0, 1, 2352, false, modeOneImage⟩]
  tracks := [⟨1, false, 0, 0, 0, 2352, []⟩]

def modeOneDrive : Drive where
  disc := some modeOneReader.disc
  speed := ⟨1, 1⟩
  stat := cdStatMotor
  request := 0
  mode := 0
  seek := ⟨0, 2, 0⟩
  seekFar := false
  reading := true
  readAt := ⟨0, 2, 0⟩
  readCmd := 6
  readDelay := 1
  filterFile := 0
  filterChannel := 0
  muted := false
  xa := .reset
  sector := ⟨fun _ => 0, 0, 0, false⟩
  lastLba := 0
  lastHead := ⟨0, 0, 0, 0, 0⟩
  pendingDataready := none

theorem modeOne_sector :
    modeOneReader.readRawSector 0 = some (fun i => modeOneImage.byte (0 + i)) ∧
      modeOneReader.readSector 0 =
        some (ISOReader.userData fun i => modeOneImage.byte (0 + i)) := by
  have hFind : modeOneReader.findImageFile 0 = some ⟨[], 0, 1, 2352, false, modeOneImage⟩ := rfl
  have hStart : (0 - 0 : BitVec 32).toNat * rawSectorSize = 0 := by decide
  have hRead : modeOneImage.read 0 rawSectorSize = some fun i => modeOneImage.byte (0 + i) :=
    if_pos (by decide)
  constructor
  · unfold ISOReader.readRawSector
    rw [hFind, Option.bind_eq_bind, Option.bind_some]
    dsimp only
    rw [if_pos (show 2352 = rawSectorSize from rfl), hStart, hRead]
  · unfold ISOReader.readSector
    rw [hFind, Option.bind_eq_bind, Option.bind_some]
    dsimp only
    rw [hStart, hRead]
    rfl

/-- The drive misses the byte 7 at the start of the sector. -/
theorem modeOne_not_delivered :
    ¬∀ i < 2048, (modeOneDrive.readSectorAt ⟨0, 2, 0⟩).1.sector.data i =
      ISOReader.userData (fun i => modeOneImage.byte (0 + i)) i := by
  have hPlace : BitVec.ofInt 32 (Msf.toLba ⟨0, 2, 0⟩) = 0 := by decide
  have hIff := @delivered_iff modeOneReader modeOneDrive ⟨0, 2, 0⟩
    (ISOReader.userData fun i => modeOneImage.byte (0 + i)) rfl (by decide) rfl
    (by rw [hPlace]; exact modeOne_sector.2)
  rw [hIff, hPlace]
  intro hAgree
  have hFirst := hAgree _ modeOne_sector.1 (by decide) 0 (by decide)
  exact absurd hFirst (by decide)

end RecompStudio.Disc
