import RecompStudio.Runtime.CdInterrupts

/-!
Time at the CD-ROM controller: an advance in which nothing is due only takes its
cycles off what is to come, and does not touch what the DMA reads.
-/

namespace RecompStudio.Runtime

def PendingCmd.wait (p : PendingCmd) (n : Nat) : PendingCmd :=
    { p with delay := p.delay - (n : Int) }

namespace Cdrom

/-- `cdrom_cycles_to_irq`. -/
def cyclesToIrq (s : Cdrom) (mask : Word) : Nat :=
  if !mask.getLsbD 2 then 2 ^ 32 - 1
  else
    let shown := if s.irqFlag ≠ 0 ∧ s.irqEnabled then s.presentDelay.toNat else 2 ^ 32 - 1
    let pending := if s.pending.pending ∧ 0 < s.pending.delay then s.pending.delay.toNat
      else 2 ^ 32 - 1
    let reading := if s.drive.reading ∧ 0 < s.drive.readDelay then s.drive.readDelay.toNat
      else 2 ^ 32 - 1
    min (min shown pending) reading

/-- What holds between the register accesses: a command waits only behind an
interrupt, what is to come has not come yet, and no read is completed late. -/
structure Settled (s : Cdrom) : Prop where
  queued : QueuedBehind s
  pending : s.pending.pending = true →
    0 < s.pending.delay ∧ s.pending.cmd.toNat ≠ 0x06 ∧ s.pending.cmd.toNat ≠ 0x1B
  reading : s.drive.reading = true → 0 < s.drive.readDelay

/-- Nothing comes before the end of some cycles. -/
structure QuietFor (n : Nat) (s : Cdrom) : Prop where
  shown : s.irqFlag ≠ 0 → s.irqEnabled = true → (n : Int) ≤ s.presentDelay
  pending : s.pending.pending = true → (n : Int) ≤ s.pending.delay
  reading : s.drive.reading = true → (n : Int) ≤ s.drive.readDelay

def put (s : Cdrom) (pending : PendingCmd) (drive : Drive) : Cdrom :=
  { s with pending := pending, drive := drive }

/-- The completion has come nearer. It does not while an interrupt is shown. -/
def pendingLater (s : Cdrom) (n : Nat) : PendingCmd :=
  if s.pending.pending = true ∧ s.irqFlag = 0 then s.pending.wait n else s.pending

end Cdrom

def Drive.setReadDelay (d : Drive) (delay : Int) : Drive := { d with readDelay := delay }

/-- The next sector has come nearer. -/
def Drive.later (d : Drive) (n : Nat) : Drive :=
  if d.reading = true then d.setReadDelay (d.readDelay - (n : Int)) else d

def Drive.setSector (d : Drive) (b : SectorBuffer) : Drive := { d with sector := b }

def Cdrom.setSector (s : Cdrom) (b : SectorBuffer) : Cdrom := s.setDrive (s.drive.setSector b)

/-- The controller some cycles later, without an event. -/
def Cdrom.later (s : Cdrom) (n : Nat) : Cdrom :=
  (s.grow (BitVec.ofNat 32 n)).put (s.pendingLater n) (s.drive.later n)

section Words

variable {n : Nat}

end Words

open Cdrom

variable {s : Cdrom} {j n : Nat} {dmaActive : Bool}

theorem advance_eq (hQueued : QueuedBehind s) (cycles : Word) :
    s.advance cycles dmaActive =
      (((s.grow cycles).present.processPending cycles).processReadStream
          cycles dmaActive).present := by
  have hGrown : Kept s (s.grow cycles) := ⟨rfl, rfl, id, fun _ => rfl⟩
  have hBehind : QueuedBehind (s.grow cycles).present :=
    (hGrown.trans present_kept).queuedBehind hQueued
  have hSame : (s.grow cycles).present.tryExecuteQueued = (s.grow cycles).present := by
    unfold tryExecuteQueued
    split
    · rename_i q hSome
      exact if_pos (hBehind (by rw [hSome]; exact Option.some_ne_none q))
    · rfl
  rw [advance, hSame]

/-- An interrupt that may not be shown yet is not shown. -/
theorem present_of_waiting (hWaiting : s.irqFlag ≠ 0 → s.irqEnabled = true → 0 < s.presentDelay) :
    s.present = s := by
  unfold present
  split
  · rfl
  · rename_i hOver
    rw [if_neg]
    rintro ⟨hFlag, hEnabled, -⟩
    exact hOver (hWaiting hFlag hEnabled)

/-- The interrupt that is shown does not depend on what is to come. -/
theorem put_present (p : PendingCmd) (d : Drive) : (s.put p d).present = s.present.put p d := by
  unfold present
  change ite (0 < s.presentDelay) _ (ite (s.irqFlag ≠ 0 ∧ s.irqEnabled = true ∧
    (!s.latched) = true) _ _) = _
  split
  · rfl
  · split <;> rfl

theorem present_pending : s.present.pending = s.pending := by
  unfold present
  split
  · rfl
  · split <;> rfl

theorem present_drive : s.present.drive = s.drive := by
  unfold present
  split
  · rfl
  · split <;> rfl

/-- The completion that is due. -/
def Cdrom.completes (s : Cdrom) (p : PendingCmd) : Cdrom :=
  match s.drive.complete s.scex s.pending.cmd with
  | (drive, some (bytes, type)) => ((s.respond []).put p drive).answer bytes type
  | (drive, none) => (s.respond []).put p drive

/-- The distance of the next event bounds what is to come. -/
theorem quietFor_of_le (hSettled : s.Settled) {mask : Word} (hMask : mask.getLsbD 2 = true)
    (hPos : 0 < n) (hLe : n ≤ s.cyclesToIrq mask) : s.QuietFor n := by
  unfold cyclesToIrq at hLe
  rw [if_neg (by simp [hMask])] at hLe
  dsimp only at hLe
  refine ⟨fun hFlag hEnabled => ?_, fun hPending => ?_, fun hReading => ?_⟩
  · rw [if_pos ⟨hFlag, hEnabled⟩] at hLe
    omega
  · rw [if_pos (c := s.pending.pending = true ∧ _) ⟨hPending, (hSettled.pending hPending).1⟩] at hLe
    omega
  · rw [if_pos (c := s.drive.reading = true ∧ _) ⟨hReading, hSettled.reading hReading⟩] at hLe
    omega

/-- The stream a completion leaves alone. -/
structure SameStream (s t : Cdrom) : Prop where
  reading : t.drive.reading = s.drive.reading
  readDelay : t.drive.readDelay = s.drive.readDelay
  sector : t.drive.sector = s.drive.sector
  request : t.drive.request = s.drive.request

theorem answer_pending (bytes : List Byte) (type : CdIrq) :
    (s.answer bytes type).pending = s.pending := present_pending

theorem sectorDue_pending : (s.sectorDue dmaActive).pending = s.pending := by
  unfold sectorDue
  dsimp only
  split
  · split
    · exact answer_pending _ _
    · rfl
  · split <;> rfl

end RecompStudio.Runtime
