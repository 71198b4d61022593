import Mathlib.Logic.Function.Iterate
import RecompStudio.Runtime.CdDistance

/-!
The sectors a read streams: which they are, and what of one the data FIFO holds
when its interrupt is delivered.
-/

namespace RecompStudio.Runtime

local instance neZero_ports : NeZero 4 := ⟨by decide⟩

open Machine

/-- A position whose seconds and frames are in range. -/
def Msf.Valid (p : Msf) : Prop := p.sec < 60 ∧ p.sect < 75

section Positions

variable {p : Msf}

theorem Msf.Valid.advance (h : p.Valid) : p.advance.Valid ∧ p.advance.toLba = p.toLba + 1 := by
  obtain ⟨hSec, hSect⟩ := h
  unfold Msf.advance Msf.toLba Msf.Valid
  split
  rename_i hCarry
  split at hCarry <;> obtain ⟨rfl, rfl⟩ := Prod.mk.inj hCarry <;> split <;>
    refine ⟨⟨?_, ?_⟩, ?_⟩ <;> dsimp only <;> omega

theorem Msf.Valid.iterate (h : p.Valid) (k : Nat) :
    (Msf.advance^[k] p).Valid ∧ (Msf.advance^[k] p).toLba = p.toLba + k := by
  induction k with
  | zero => exact ⟨h, by simp⟩
  | succ k ih =>
      rw [Function.iterate_succ_apply']
      obtain ⟨hValid, hLba⟩ := ih.1.advance
      refine ⟨hValid, ?_⟩
      rw [hLba, ih.2, Int.natCast_succ, Int.add_assoc]

/-- `lba_to_msf` is the inverse of `msf_to_lba` on the valid positions. -/
theorem Msf.Valid.lbaToMsf (h : p.Valid) : lbaToMsf p.toLba 150 = p := by
  obtain ⟨hSec, hSect⟩ := h
  obtain ⟨min, sec, sect⟩ := p
  have hFrames : (Msf.toLba ⟨min, sec, sect⟩ + (150 : Nat)).toNat =
      (min * 60 + sec) * 75 + sect := by
    unfold Msf.toLba
    dsimp only
    omega
  unfold Runtime.lbaToMsf
  rw [hFrames]
  dsimp only at hSec hSect ⊢
  rw [Msf.mk.injEq]
  omega

end Positions

/-- The bytes of a sector: its user data, or all behind the sync pattern where the
mode asks for them, with a header made up where the image has none. -/
def sectorBytes (disc : Option Disc) (whole : Bool) (lba : Int) : List Byte :=
  let raw := disc.bind fun disc => disc.raw lba
  let user := match raw with
    | some bytes => (List.range 2048).map fun i => bytes (24 + i)
    | none => match disc.bind fun disc => disc.user lba with
      | some bytes => (List.range 2048).map bytes
      | none => List.replicate 2048 0
  if whole then
    match raw with
    | some bytes => (List.range 2340).map fun i => bytes (12 + i)
    | none =>
        let p := lbaToMsf lba 150
        [binToBcd p.min, binToBcd p.sec, binToBcd p.sect, 0x02] ++ List.replicate 8 0 ++ user
  else user

/-- What the guest can take out of the data FIFO. -/
def Drive.fifo (d : Drive) : List Byte :=
  if d.sector.available then
    (List.range (d.sector.size - d.sector.readPos)).map fun i =>
      d.sector.data (d.sector.readPos + i)
  else []

section Bytes

variable {d : Drive} {at' : Msf}

theorem map_range_take {n : Nat} (f : Nat → Byte) :
    ((List.range n).map fun i => if i < n then f i else 0) = (List.range n).map f := by
  refine List.map_congr_left fun i hi => ?_
  rw [if_pos (List.mem_range.mp hi)]

/-- The sector with the header that is made up. -/
theorem map_range_header (min sec sect : Byte) (user : Nat → Byte) :
    ((List.range 2060).map fun i =>
      if i = 0 then min else if i = 1 then sec else if i = 2 then sect else if i = 3 then 0x02
      else if i < 12 then 0 else if i < 2060 then user (i - 12) else 0) =
      [min, sec, sect, 0x02] ++ List.replicate 8 0 ++ (List.range 2048).map user := by
  rw [show 2060 = 12 + 2048 from rfl, List.range_add, List.map_append, List.map_map]
  refine congrArg₂ (· ++ ·) rfl (List.map_congr_left fun i hi => ?_)
  have hUser := List.mem_range.mp hi
  dsimp only [Function.comp]
  rw [if_neg (by omega), if_neg (by omega), if_neg (by omega), if_neg (by omega),
    if_neg (by omega), if_pos (by omega), Nat.add_sub_cancel_left]

/-- A sector that is data is in the FIFO from its first byte. -/
theorem readSectorAt_fifo (hValid : at'.Valid) (hDelivered : (d.readSectorAt at').2 = true) :
    (d.readSectorAt at').1.sector.readPos = 0 ∧
      (d.readSectorAt at').1.fifo = sectorBytes d.disc (d.modeBit 5) at'.toLba := by
  refine ⟨rfl, ?_⟩
  have hHeader := hValid.lbaToMsf
  unfold Drive.readSectorAt at hDelivered
  unfold Drive.fifo Drive.readSectorAt sectorBytes
  dsimp only at hDelivered ⊢
  simp only [hDelivered, hHeader, ↓reduceIte, Bool.not_true, Bool.false_eq_true, Nat.sub_zero,
    Nat.zero_add]
  generalize (d.disc.bind fun disc => disc.raw at'.toLba) = raw
  generalize (d.disc.bind fun disc => disc.user at'.toLba) = user
  have hZero : ((List.range 2048).map fun _ => (0 : Byte)) = List.replicate 2048 0 := by
    rw [List.map_const', List.length_range]
  cases d.modeBit 5
  · cases raw with
    | some bytes => exact map_range_take _
    | none =>
        cases user with
        | some bytes => exact map_range_take _
        | none => exact (map_range_take _).trans hZero
  · cases raw with
    | some bytes => exact map_range_take _
    | none =>
        cases user with
        | some bytes => exact map_range_header _ _ _ bytes
        | none =>
            rw [← hZero]
            exact map_range_header _ _ _ fun _ => 0

end Bytes

/-- The data-ready interrupts that have been set. -/
@[grind =] def readies (trace : List CdTrace) : Nat :=
  trace.countP fun
    | .irq _ .dataReady => true
    | _ => false

namespace Cdrom

/-- An advance before its completion and its sector. -/
def begun (s : Cdrom) (cycles : Word) : Cdrom := (s.grow cycles).present.tryExecuteQueued

/-- The completion that is due reads a sector. -/
def completesRead (s : Cdrom) (cycles : Word) : Bool :=
  s.pending.pending && cycles ≠ 0 && s.irqFlag = 0 && s.pending.delay - cycles.toInt ≤ 0 &&
    (s.pending.cmd.toNat = 0x06 || s.pending.cmd.toNat = 0x1B) && s.drive.reading

/-- The stream has a sector due. -/
@[grind =] def streamDue (s : Cdrom) (cycles : Word) : Bool :=
  s.drive.reading && s.drive.readDelay - cycles.toInt ≤ 0

end Cdrom

/-- The positions of the sectors a step reads, as `last_sector_lba` shows them. -/
def sectorsRead (s : Cdrom) : CdEvent → List Int
  | .advance cycles dmaActive =>
      let completed := (s.begun cycles).processPending cycles
      (if (s.begun cycles).completesRead cycles then [completed.drive.lastLba] else []) ++
        if completed.streamDue cycles then
          [(completed.processReadStream cycles dmaActive).drive.lastLba]
        else []
  | _ => []

/-- The sector of a step is data whose interrupt waits for an acknowledge. -/
def sectorPended (s : Cdrom) : CdEvent → Bool
  | .advance cycles dmaActive =>
      let completed := (s.begun cycles).processPending cycles
      completed.streamDue cycles && completed.irqFlag ≠ 0 && !dmaActive &&
        completed.drive.nextSector.2
  | _ => false

/-- A drive that streams the same sectors from the same position. -/
structure SameCourse (d d' : Drive) : Prop where
  disc : d'.disc = d.disc
  mode : d'.mode = d.mode
  seek : d'.seek = d.seek
  reading : d'.reading = d.reading
  readAt : d'.readAt = d.readAt

/-- The drive at the next position. -/
def Drive.turned (d : Drive) : Drive := { d with readAt := d.readAt.advance }

/-- What a step does to the stream: it executes a command, it reads no sector, or it
reads one. -/
inductive StreamStep (s : Cdrom) (e : CdEvent) (t : Cdrom) : Prop
  | ran (q : QueuedCmd) (hExecs : execs t.trace = execs s.trace ++ [q])
      (hDrive : t.drive = (s.drive.exec q.cmd q.params).drive)
      (hRead : sectorsRead s e = []) (hPended : sectorPended s e = false)
  | quiet (hExecs : execs t.trace = execs s.trace) (hSame : SameCourse s.drive t.drive)
      (hSector : t.drive.sector = s.drive.sector ∨
        t.drive.sector = { s.drive.sector with readPos := 0 } ∨
        s.drive.sector.readPos < t.drive.sector.readPos)
      (hPending : t.drive.pendingDataready ≠ none → s.drive.pendingDataready ≠ none)
      (hReady : readies t.trace = readies s.trace ∨ s.drive.pendingDataready ≠ none)
      (hRead : sectorsRead s e = []) (hPended : sectorPended s e = false)
  | sector (d : Drive) (hExecs : execs t.trace = execs s.trace) (hReading : d.reading = true)
      (hSame : SameCourse s.drive d)
      (hNext : SameCourse d.turned t.drive)
      (hSector : t.drive.sector = (d.readSectorAt d.readAt).1.sector)
      (hPending : sectorPended s e = false → t.drive.pendingDataready ≠ none →
        s.drive.pendingDataready ≠ none)
      (hReady : readies t.trace = readies s.trace ∨ (d.readSectorAt d.readAt).2 = true)
      (hRead : sectorsRead s e = [d.readAt.toLba])
      (hPended : sectorPended s e = true → (d.readSectorAt d.readAt).2 = true)

section Steps

open Cdrom

variable {s t : Cdrom} {d : Drive}

theorem SameCourse.refl (d : Drive) : SameCourse d d := ⟨rfl, rfl, rfl, rfl, rfl⟩

theorem SameCourse.trans {d d' d'' : Drive} (h : SameCourse d d') (h' : SameCourse d' d'') :
    SameCourse d d'' :=
  ⟨h'.disc.trans h.disc, h'.mode.trans h.mode, h'.seek.trans h.seek, h'.reading.trans h.reading,
    h'.readAt.trans h.readAt⟩

@[simp] theorem readies_append (a b : List CdTrace) : readies (a ++ b) = readies a + readies b :=
  List.countP_append

theorem present_readies : readies s.present.trace = readies s.trace := by
  unfold present
  split
  · rfl
  · split
    · simp [readies]
    · rfl

theorem answer_drive (bytes : List Byte) (type : CdIrq) : (s.answer bytes type).drive = s.drive :=
  present_drive

theorem answer_readies (bytes : List Byte) {type : CdIrq} (hType : type ≠ .dataReady) :
    readies (s.answer bytes type).trace = readies s.trace := by
  rw [answer, present_readies]
  cases type <;> simp [setIrq, respond, readies] at hType ⊢

theorem execCommand_drive (cmd : Byte) :
    (s.execCommand cmd).drive = (s.drive.exec cmd s.params).drive := by
  refine (answer_drive _ _).trans ?_
  cases (s.drive.exec cmd s.params).completion <;> rfl

theorem tryExecuteQueued_eq {q : QueuedCmd} (hQueued : s.queued = some q) (hClear : s.irqFlag = 0) :
    s.tryExecuteQueued =
      ({ s with queued := none, params := q.params } : Cdrom).execCommand q.cmd := by
  simp only [tryExecuteQueued, hQueued]
  rw [if_neg (not_not.mpr hClear)]

theorem execCommand_streamStep (hClear : s.irqFlag = 0) (cmd : Byte) {e : CdEvent}
    (hRead : sectorsRead s e = []) (hPended : sectorPended s e = false) :
    StreamStep s e (s.execCommand cmd) :=
  .ran ⟨cmd, s.params⟩ (execCommand_execs hClear cmd).2 (execCommand_drive cmd) hRead hPended

/-- A completion of another command does nothing to the stream. -/
theorem complete_course {scex : List Byte} {cmd : Byte} (hRead : cmd.toNat ≠ 0x06)
    (hReadS : cmd.toNat ≠ 0x1B) :
    let r := d.complete scex cmd
    SameCourse d r.1 ∧ r.1.sector = d.sector ∧ r.1.pendingDataready = d.pendingDataready ∧
      ∀ bytes type, r.2 = some (bytes, type) → type ≠ .dataReady := by
  have hAnswer {response : List Byte} {irq : CdIrq} (hIrq : irq ≠ .dataReady) (bytes : List Byte)
      (type : CdIrq) (hIs : some (response, irq) = some (bytes, type)) : type ≠ .dataReady := by
    obtain ⟨-, rfl⟩ := Prod.mk.inj (Option.some.inj hIs)
    exact hIrq
  have hComplete : CdIrq.complete ≠ .dataReady := by decide
  have hError : CdIrq.error ≠ .dataReady := by decide
  dsimp only
  unfold Drive.complete
  split
  case h_1 hCmd => exact absurd hCmd hRead
  case h_2 hCmd => exact absurd hCmd hReadS
  case h_9 =>
    split
    · exact ⟨.refl d, rfl, rfl, hAnswer hError⟩
    · exact ⟨.refl d, rfl, rfl, hAnswer hComplete⟩
  case h_11 => exact ⟨.refl d, rfl, rfl, fun _ _ h => absurd h (Option.some_ne_none _).symm⟩
  all_goals exact ⟨⟨rfl, rfl, rfl, rfl, rfl⟩, rfl, rfl, hAnswer hComplete⟩

theorem processPending_course (hTimed : s.Timed) (cycles : Word) :
    let t := s.processPending cycles
    SameCourse s.drive t.drive ∧ t.drive.sector = s.drive.sector ∧
      t.drive.pendingDataready = s.drive.pendingDataready ∧ readies t.trace = readies s.trace := by
  dsimp only
  unfold processPending
  split
  · exact ⟨.refl _, rfl, rfl, rfl⟩
  · rename_i hOpen
    have hPending : s.pending.pending = true := by
      simp only [Bool.or_eq_true, Bool.not_eq_true', not_or, Bool.not_eq_false] at hOpen
      exact hOpen.1.1
    obtain ⟨-, hRead, hReadS⟩ := hTimed.pending hPending
    split
    · exact ⟨.refl _, rfl, rfl, rfl⟩
    · dsimp only
      have hComplete := @complete_course s.drive s.scex _ hRead hReadS
      split
      · rename_i drive bytes type hIs
        change s.drive.complete s.scex s.pending.cmd = _ at hIs
        rw [hIs] at hComplete
        obtain ⟨hSame, hSector, hData, hType⟩ := hComplete
        rw [answer_drive, answer_readies _ (hType bytes type rfl)]
        exact ⟨hSame, hSector, hData, rfl⟩
      · rename_i drive hIs
        change s.drive.complete s.scex s.pending.cmd = _ at hIs
        rw [hIs] at hComplete
        obtain ⟨hSame, hSector, hData, -⟩ := hComplete
        exact ⟨hSame, hSector, hData, rfl⟩

/-- A stream whose sector is not due keeps its course. -/
theorem processReadStream_course {cycles : Word} (hQuiet : s.streamDue cycles = false)
    (dmaActive : Bool) :
    let t := s.processReadStream cycles dmaActive
    SameCourse s.drive t.drive ∧ t.drive.sector = s.drive.sector ∧
      t.drive.pendingDataready = s.drive.pendingDataready ∧ t.trace = s.trace := by
  dsimp only
  unfold processReadStream
  split
  · exact ⟨.refl _, rfl, rfl, rfl⟩
  · rename_i hReading
    dsimp only
    rw [if_neg]
    · exact ⟨⟨rfl, rfl, rfl, rfl, rfl⟩, rfl, rfl, rfl⟩
    · intro hDue
      change s.drive.readDelay - cycles.toInt ≤ 0 at hDue
      simp only [Bool.not_eq_true', Bool.not_eq_false] at hReading
      simp [streamDue, hReading, hDue] at hQuiet

theorem sectorDue_course (dmaActive : Bool) :
    let t := s.sectorDue dmaActive
    SameCourse s.drive.turned t.drive ∧
      t.drive.lastLba = s.drive.readAt.toLba ∧
      t.drive.sector = (s.drive.readSectorAt s.drive.readAt).1.sector ∧
      ((s.irqFlag ≠ 0 && !dmaActive && s.drive.nextSector.2) = false →
        t.drive.pendingDataready = s.drive.pendingDataready) ∧
      (readies t.trace = readies s.trace ∨ s.drive.nextSector.2 = true) := by
  dsimp only
  unfold sectorDue
  dsimp only
  split
  · split
    · rename_i hDelivered
      rw [answer_drive]
      exact ⟨⟨rfl, rfl, rfl, rfl, rfl⟩, rfl, rfl, fun _ => rfl, .inr hDelivered⟩
    · exact ⟨⟨rfl, rfl, rfl, rfl, rfl⟩, rfl, rfl, fun _ => rfl, .inl rfl⟩
  · rename_i hShown
    split
    · exact ⟨⟨rfl, rfl, rfl, rfl, rfl⟩, rfl, rfl, fun _ => rfl, .inl rfl⟩
    · rename_i hPends
      refine ⟨⟨rfl, rfl, rfl, rfl, rfl⟩, rfl, rfl, fun hNot => ?_, .inl rfl⟩
      simp only [not_or, Bool.not_eq_true, Bool.not_eq_false'] at hPends
      exact absurd (by simpa [hPends.1, hPends.2] using hNot) hShown

/-- A sector that is due is read at the position of the drive, which advances. -/
theorem processReadStream_due {cycles : Word} (hDue : s.streamDue cycles = true)
    (dmaActive : Bool) :
    let t := s.processReadStream cycles dmaActive
    SameCourse s.drive.turned t.drive ∧
      t.drive.lastLba = s.drive.readAt.toLba ∧
      t.drive.sector = (s.drive.readSectorAt s.drive.readAt).1.sector ∧
      ((s.irqFlag ≠ 0 && !dmaActive && s.drive.nextSector.2) = false →
        t.drive.pendingDataready = s.drive.pendingDataready) ∧
      (readies t.trace = readies s.trace ∨ s.drive.nextSector.2 = true) := by
  simp only [streamDue, Bool.and_eq_true, decide_eq_true_eq] at hDue
  obtain ⟨hReading, hDelay⟩ := hDue
  have hEq : s.processReadStream cycles dmaActive = ((s.setDrive
      (s.drive.setReadDelay (s.drive.readDelay - cycles.toInt))).sectorDue
        dmaActive).nextSectorDelay := by
    unfold processReadStream
    rw [if_neg (by simp [hReading])]
    exact if_pos hDelay
  rw [hEq]
  have hLater (u : Cdrom) : SameCourse u.drive u.nextSectorDelay.drive := ⟨rfl, rfl, rfl, rfl, rfl⟩
  obtain ⟨hCourse, hLba, hSector, hPending, hReady⟩ := @sectorDue_course
    (s.setDrive (s.drive.setReadDelay (s.drive.readDelay - cycles.toInt))) dmaActive
  have hTurned : SameCourse s.drive.turned
      (s.drive.setReadDelay (s.drive.readDelay - cycles.toInt)).turned := ⟨rfl, rfl, rfl, rfl, rfl⟩
  exact ⟨(hTurned.trans hCourse).trans (hLater _), hLba, hSector, hPending, hReady⟩

theorem begun_eq (hBehind : QueuedBehind s) (cycles : Word) :
    s.begun cycles = (s.grow cycles).present := by
  have hGrown : Kept s (s.grow cycles) := ⟨rfl, rfl, id, fun _ => rfl⟩
  rcases tryExecuteQueued_cases (s := (s.grow cycles).present) with ⟨hSame, -⟩ | ⟨q, hQ, hClear, -⟩
  · exact hSame
  · have hShown := (hGrown.trans present_kept).queuedBehind hBehind (by simp [hQ])
    exact absurd hClear hShown

theorem completesRead_timed (hTimed : s.Timed) (cycles : Word) :
    s.completesRead cycles = false := by
  unfold completesRead
  cases hPending : s.pending.pending with
  | false => simp
  | true =>
      obtain ⟨-, hRead, hReadS⟩ := hTimed.pending hPending
      simp [hRead, hReadS]

theorem advance_streamStep (hBehind : QueuedBehind s) (hTimed : s.Timed) (cycles : Word)
    (dmaActive : Bool) :
    StreamStep s (.advance cycles dmaActive) (cdStep s (.advance cycles dmaActive)) := by
  have hBegun := begun_eq hBehind cycles
  have hDrive : (s.grow cycles).present.drive = s.drive := present_drive
  have hReadies : readies (s.grow cycles).present.trace = readies s.trace := present_readies
  have hBegunTimed : (s.grow cycles).present.Timed :=
    present_timed (hTimed.congr (t := s.grow cycles) rfl rfl rfl)
  have hStep : cdStep s (.advance cycles dmaActive) =
      ((((s.grow cycles).present.processPending cycles).processReadStream cycles
        dmaActive).present) := advance_eq hBehind cycles
  have hGrown : Kept s (s.grow cycles) := ⟨rfl, rfl, id, fun _ => rfl⟩
  have hExecs : execs (cdStep s (.advance cycles dmaActive)).trace = execs s.trace := by
    rw [hStep]
    exact ((((hGrown.trans present_kept).trans (processPending_kept cycles)).trans
      (processReadStream_kept cycles dmaActive)).trans present_kept).execs
  obtain ⟨hSame, hSector, hPending, hReady⟩ := processPending_course hBegunTimed cycles
  rw [hDrive] at hSame hSector hPending
  rw [hReadies] at hReady
  have hRead : sectorsRead s (.advance cycles dmaActive) =
      if ((s.grow cycles).present.processPending cycles).streamDue cycles then
        [(((s.grow cycles).present.processPending cycles).processReadStream cycles
          dmaActive).drive.lastLba]
      else [] := by
    simp only [sectorsRead, hBegun, completesRead_timed hBegunTimed, Bool.false_eq_true, if_false,
      List.nil_append]
  have hPended : sectorPended s (.advance cycles dmaActive) =
      (((s.grow cycles).present.processPending cycles).streamDue cycles &&
        decide (((s.grow cycles).present.processPending cycles).irqFlag ≠ 0) && !dmaActive &&
        ((s.grow cycles).present.processPending cycles).drive.nextSector.2) := by
    simp only [sectorPended, hBegun]
  generalize (s.grow cycles).present.processPending cycles = u at *
  cases hDue : u.streamDue cycles with
  | false =>
      obtain ⟨hCourse, hBuffer, hData, hTrace⟩ := processReadStream_course hDue dmaActive
      refine .quiet hExecs ?_ (.inl ?_) ?_ (.inl ?_) ?_ ?_
      · rw [hStep, present_drive]
        exact hSame.trans hCourse
      · rw [hStep, present_drive]
        exact hBuffer.trans hSector
      · rw [hStep, present_drive, hData, hPending]
        exact id
      · rw [hStep, present_readies, hTrace, hReady]
      · rw [hRead, hDue]
        rfl
      · rw [hPended, hDue]
        rfl
  | true =>
      obtain ⟨hCourse, hLba, hBuffer, hData, hSet⟩ := processReadStream_due hDue dmaActive
      have hReading : u.drive.reading = true := (Bool.and_eq_true_iff.mp hDue).1
      refine .sector u.drive hExecs hReading hSame ?_ ?_ ?_ ?_ ?_ ?_
      · rw [hStep, present_drive]
        exact hCourse
      · rw [hStep, present_drive]
        exact hBuffer
      · intro hNot
        rw [hPended, hDue, Bool.true_and] at hNot
        rw [hStep, present_drive, hData hNot, hPending]
        exact id
      · rw [hStep, present_readies, ← hReady]
        exact hSet
      · rw [hRead, hDue, if_pos rfl, hLba]
      · intro hIs
        rw [hPended] at hIs
        exact (Bool.and_eq_true_iff.mp hIs).2

theorem acknowledge_streamStep (val : Byte) {e : CdEvent} (hRead : sectorsRead s e = [])
    (hPended : sectorPended s e = false) : StreamStep s e (s.acknowledge val) := by
  have hQuiet : StreamStep s e (s.clearFlag val) :=
    .quiet rfl (.refl _) (.inl rfl) id (.inl rfl) hRead hPended
  unfold acknowledge
  by_cases hShown : (s.clearFlag val).irqFlag = 0 ∧ s.drive.pendingDataready ≠ none
  · obtain ⟨hClear, hSome⟩ := hShown
    obtain ⟨stat, hStat⟩ := Option.ne_none_iff_exists'.mp hSome
    -- The interrupt that waited is shown now, so that no command is executed.
    have hPresent : (s.clearFlag val).presentPendingDataready =
        ((s.clearFlag val).setDrive { s.drive with pendingDataready := none }).answer [stat]
          .dataReady := by
      have hStat' : (s.clearFlag val).drive.pendingDataready = some stat := hStat
      simp only [presentPendingDataready, hStat']
      rw [if_neg (not_not.mpr hClear)]
      rfl
    have hTry : (s.clearFlag val).presentPendingDataready.tryExecuteQueued =
        (s.clearFlag val).presentPendingDataready := by
      rcases tryExecuteQueued_cases (s := (s.clearFlag val).presentPendingDataready) with
        ⟨hSame, -⟩ | ⟨q, -, hFlag, -⟩
      · exact hSame
      · rw [hPresent] at hFlag
        exact absurd hFlag (answer_flag _ _)
    have hDrive : (s.clearFlag val).presentPendingDataready.drive =
        { s.drive with pendingDataready := none } := by
      rw [hPresent, answer_drive]
      rfl
    have hKept : Kept (s.clearFlag val) (s.clearFlag val).presentPendingDataready :=
      presentPendingDataready_kept
    rw [hTry]
    refine .quiet hKept.execs ?_ (.inl ?_) (fun _ => hSome) (.inr hSome) hRead hPended
    · rw [hDrive]
      exact ⟨rfl, rfl, rfl, rfl, rfl⟩
    · rw [hDrive]
  · have hPresent : (s.clearFlag val).presentPendingDataready = s.clearFlag val := by
      cases hStat : (s.clearFlag val).drive.pendingDataready with
      | none => simp only [presentPendingDataready, hStat]
      | some stat =>
          have hFlag : (s.clearFlag val).irqFlag ≠ 0 := fun hClear =>
            hShown ⟨hClear, fun hNone => Option.some_ne_none stat (hStat.symm.trans hNone)⟩
          simp only [presentPendingDataready, hStat]
          rw [if_pos hFlag]
    rw [hPresent]
    rcases tryExecuteQueued_cases (s := s.clearFlag val) with
      ⟨hSame, -⟩ | ⟨q, hQ, hClear, -, hExecs⟩
    · rw [hSame]
      exact hQuiet
    · refine .ran q hExecs ?_ hRead hPended
      rw [tryExecuteQueued_eq hQ hClear]
      exact execCommand_drive q.cmd

theorem cdStep_streamStep (hBehind : QueuedBehind s) (hTimed : s.Timed) (e : CdEvent) :
    StreamStep s e (cdStep s e) := by
  cases e with
  | advance cycles dmaActive => exact advance_streamStep hBehind hTimed cycles dmaActive
  | write reg val =>
      have hQuiet {t : Cdrom} (hTrace : t.trace = s.trace) (hDrive : t.drive = s.drive) :
          StreamStep s (.write reg val) t :=
        .quiet (by rw [hTrace]) (by rw [hDrive]; exact .refl _) (.inl (by rw [hDrive]))
          (by rw [hDrive]; exact id) (.inl (by rw [hTrace])) rfl rfl
      dsimp only [cdStep]
      unfold write
      split
      · exact hQuiet rfl rfl
      · unfold queueOrExec
        split
        · rename_i hClear
          exact execCommand_streamStep hClear val rfl rfl
        · exact hQuiet rfl rfl
      · split <;> exact hQuiet rfl rfl
      · exact hQuiet rfl rfl
      · dsimp only
        split
        · exact .quiet rfl ⟨rfl, rfl, rfl, rfl, rfl⟩ (.inl rfl) id (.inl rfl) rfl rfl
        · exact .quiet rfl ⟨rfl, rfl, rfl, rfl, rfl⟩ (.inr (.inl rfl)) id (.inl rfl) rfl rfl
      · exact acknowledge_streamStep val rfl rfl
      · exact hQuiet rfl rfl
  | read reg =>
      have hQuiet {t : Cdrom} (hTrace : t.trace = s.trace) (hDrive : t.drive = s.drive) :
          StreamStep s (.read reg) t :=
        .quiet (by rw [hTrace]) (by rw [hDrive]; exact .refl _) (.inl (by rw [hDrive]))
          (by rw [hDrive]; exact id) (.inl (by rw [hTrace])) rfl rfl
      dsimp only [cdStep]
      unfold Cdrom.read
      split
      · exact hQuiet rfl rfl
      · split <;> exact hQuiet rfl rfl
      · split
        · refine .quiet rfl ⟨rfl, rfl, rfl, rfl, rfl⟩ (.inr (.inr ?_)) id (.inl rfl) rfl rfl
          exact Nat.lt_succ_self _
        · exact hQuiet rfl rfl
      · exact hQuiet rfl rfl
  | dmaRead =>
      dsimp only [cdStep]
      unfold Cdrom.dmaRead
      split
      · refine .quiet rfl ⟨rfl, rfl, rfl, rfl, rfl⟩ (.inr (.inr ?_)) id (.inl rfl) rfl rfl
        exact Nat.lt_add_of_pos_right (by decide)
      · exact .quiet rfl (.refl _) (.inl rfl) id (.inl rfl) rfl rfl
  | setSpeed speed =>
      exact .quiet rfl ⟨rfl, rfl, rfl, rfl, rfl⟩ (.inl rfl) id (.inl rfl) rfl rfl

end Steps

/-- The position behind a command. -/
def seekAfter (p : Msf) (q : QueuedCmd) : Msf :=
  if q.cmd.toNat = 0x02 then
    match q.params with
    | m :: s :: f :: _ => ⟨bcdToBin m, bcdToBin s, bcdToBin f⟩
    | _ => p
  else p

/-- ReadN and ReadS. -/
def QueuedCmd.Reads (q : QueuedCmd) : Prop := q.cmd.toNat = 0x06 ∨ q.cmd.toNat = 0x1B

/-- Nothing is read without a disc. -/
def Drive.Loaded (d : Drive) : Prop := d.disc = none → d.reading = false ∧ d.pendingDataready = none

section Commands

variable {d : Drive} {cmd : Byte} {params : List Byte}

theorem startReadStream_loaded (hDisc : d.disc.isNone = false) (cmd : Byte) :
    (d.startReadStream cmd).Loaded := by
  intro hNone
  have hSame : (d.startReadStream cmd).disc = d.disc := by
    unfold Drive.startReadStream Drive.clearSectorBuffer
    dsimp only
    split <;> rfl
  rw [hSame] at hNone
  simp [hNone] at hDisc

theorem startReadStream_position (cmd : Byte) :
    (d.startReadStream cmd).disc = d.disc ∧ (d.startReadStream cmd).seek = d.seek ∧
      (d.startReadStream cmd).readAt = d.seek ∧
      (d.startReadStream cmd).pendingDataready = none := by
  unfold Drive.startReadStream Drive.clearSectorBuffer
  dsimp only
  split <;> exact ⟨rfl, rfl, rfl, rfl⟩

theorem exec_position (hLoaded : d.Loaded) (cmd : Byte) (params : List Byte) :
    let t := (d.exec cmd params).drive
    t.disc = d.disc ∧ t.seek = seekAfter d.seek ⟨cmd, params⟩ ∧ t.Loaded := by
  have hKept {t : Drive} {p : Msf} (hDisc : t.disc = d.disc) (hSeek : t.seek = p)
      (hReading : t.reading = d.reading) (hPending : t.pendingDataready = d.pendingDataready) :
      t.disc = d.disc ∧ t.seek = p ∧ t.Loaded :=
    ⟨hDisc, hSeek, fun hNone => by rw [hReading, hPending]; exact hLoaded (hDisc ▸ hNone)⟩
  have hStopped {t : Drive} {p : Msf} (hDisc : t.disc = d.disc) (hSeek : t.seek = p)
      (hReading : t.reading = false) (hPending : t.pendingDataready = none) :
      t.disc = d.disc ∧ t.seek = p ∧ t.Loaded :=
    ⟨hDisc, hSeek, fun _ => ⟨hReading, hPending⟩⟩
  dsimp only
  unfold Drive.exec seekAfter
  generalize cmd.toNat = k
  split
  case h_2 =>
    rcases params with _ | ⟨m, _ | ⟨s, _ | ⟨f, rest⟩⟩⟩ <;> exact hKept rfl rfl rfl rfl
  case h_4 | h_5 =>
    dsimp only
    split
    · exact hKept rfl rfl rfl rfl
    · rename_i hDisc
      obtain ⟨hSame, hSeek, -⟩ := @startReadStream_position d cmd
      rw [Bool.not_eq_true] at hDisc
      exact ⟨hSame, hSeek, startReadStream_loaded hDisc cmd⟩
  case h_7 | h_8 | h_9 => exact hStopped rfl rfl rfl rfl
  case h_12 =>
    dsimp only [Drive.acknowledge]
    split <;> exact hKept rfl rfl rfl rfl
  case h_13 =>
    dsimp only [Drive.acknowledge]
    split
    · split <;> exact hKept rfl rfl rfl rfl
    · exact hKept rfl rfl rfl rfl
  case h_18 =>
    change (d.getTD params).drive.disc = _ ∧ (d.getTD params).drive.seek = _ ∧
      (d.getTD params).drive.Loaded
    unfold Drive.getTD
    split <;> exact hKept rfl rfl rfl rfl
  case h_24 =>
    rw [if_neg (by assumption)]
    exact hKept rfl rfl rfl rfl
  all_goals first
    | exact hKept rfl rfl rfl rfl
    | (dsimp only; split <;> exact hKept rfl rfl rfl rfl)

/-- A read starts where the drive was sent. -/
theorem exec_reads (hLoaded : d.Loaded) (hReads : (QueuedCmd.mk cmd params).Reads) :
    let t := (d.exec cmd params).drive
    (t.reading = true → t.readAt = t.seek) ∧ t.pendingDataready = none := by
  have hDrive : (d.exec cmd params).drive = if d.disc.isNone then d else d.startReadStream cmd := by
    rcases hReads with hCmd | hCmd <;> dsimp only at hCmd <;> cases hNone : d.disc.isNone <;>
      simp [Drive.exec, hCmd, hNone, Drive.fail, Drive.acknowledge]
  rw [hDrive]
  split
  · rename_i hNone
    obtain ⟨hReading, hPending⟩ := hLoaded (by simpa using hNone)
    exact ⟨fun hOn => absurd (hReading.symm.trans hOn) Bool.false_ne_true, hPending⟩
  · obtain ⟨-, hSeek, hAt, hPending⟩ := @startReadStream_position d cmd
    exact ⟨fun _ => hAt.trans hSeek.symm, hPending⟩

end Commands

/-- The controller with the sectors that have been read since the last command, whether
bytes of the last one have been taken, and which one waits with its interrupt. -/
structure CdWatch where
  cd : Cdrom
  reads : List Int
  taken : Bool
  pended : Option Nat

namespace CdWatch

def start (s : Cdrom) : CdWatch := ⟨s, [], false, none⟩

/-- A step behind which the last command is the one before. -/
@[grind =]
def SameCommand (w : CdWatch) (e : CdEvent) : Prop := execs (cdStep w.cd e).trace = execs w.cd.trace

instance (w : CdWatch) (e : CdEvent) : Decidable (w.SameCommand e) :=
  inferInstanceAs (Decidable (_ = _))

@[grind =] def nextReads (w : CdWatch) (e : CdEvent) : List Int :=
  (if w.SameCommand e then w.reads else []) ++ sectorsRead w.cd e

@[grind =] def step (w : CdWatch) (e : CdEvent) : CdWatch where
  cd := cdStep w.cd e
  reads := w.nextReads e
  taken :=
    if sectorsRead w.cd e = [] then
      w.taken || w.cd.drive.sector.readPos < (cdStep w.cd e).drive.sector.readPos
    else false
  pended :=
    if sectorPended w.cd e then some ((w.nextReads e).length - 1)
    else if w.SameCommand e then w.pended else none

/-- The sector whose data-ready interrupt a step delivers. -/
def announced (w : CdWatch) (e : CdEvent) : Option Nat :=
  if sectorsRead w.cd e = [] then w.pended else some ((w.nextReads e).length - 1)

end CdWatch

/-- The stream of a read since its command. -/
structure Streaming (disc : Option Disc) (w : CdWatch) : Prop where
  reads : w.reads = (List.range w.reads.length).map fun (k : Nat) => w.cd.drive.seek.toLba + k
  next : w.cd.drive.reading = true →
    w.cd.drive.readAt = Msf.advance^[w.reads.length] w.cd.drive.seek
  pended : w.cd.drive.pendingDataready ≠ none → w.pended ≠ none
  held : ∀ k, w.pended = some k → k < w.reads.length ∧
    (k + 1 = w.reads.length → w.taken = false → w.cd.drive.sector.readPos = 0 ∧
      w.cd.drive.fifo = sectorBytes disc (w.cd.drive.modeBit 5) (w.cd.drive.seek.toLba + k))

/-- The last command is a read. -/
def LastReads (s : Cdrom) : Prop := ∃ before q, execs s.trace = before ++ [q] ∧ q.Reads

/-- What holds of the drive and of the last command. -/
structure StreamInv (disc : Option Disc) (w : CdWatch) : Prop where
  image : w.cd.drive.disc = disc
  loaded : w.cd.drive.Loaded
  seek : w.cd.drive.seek = (execs w.cd.trace).foldl seekAfter ⟨0, 0, 0⟩
  stream : LastReads w.cd → w.cd.drive.seek.Valid → Streaming disc w

section Runs

variable {disc : Option Disc} {w : CdWatch} {e : CdEvent}

theorem Drive.fifo_congr {d d' : Drive} (hSector : d'.sector = d.sector) : d'.fifo = d.fifo := by
  unfold Drive.fifo
  rw [hSector]

theorem Drive.Loaded.congr {d d' : Drive} (h : d.Loaded) (hDisc : d'.disc = d.disc)
    (hReading : d'.reading = d.reading)
    (hPending : d'.pendingDataready ≠ none → d.pendingDataready ≠ none) : d'.Loaded := by
  intro hNone
  obtain ⟨hIdle, hNothing⟩ := h (hDisc ▸ hNone)
  exact ⟨hReading.trans hIdle, not_not.mp fun hSome => hPending hSome hNothing⟩

theorem step_kept (hSame : w.SameCommand e) (hRead : sectorsRead w.cd e = [])
    (hPended : sectorPended w.cd e = false) :
    (w.step e).reads = w.reads ∧ (w.step e).pended = w.pended ∧
      (w.step e).taken = (w.taken || decide (w.cd.drive.sector.readPos <
        (cdStep w.cd e).drive.sector.readPos)) := by
  simp [CdWatch.step, CdWatch.nextReads, hSame, hRead, hPended]

theorem lastReads_congr {s t : Cdrom} (hExecs : execs t.trace = execs s.trace) (h : LastReads t) :
    LastReads s := by
  unfold LastReads at h ⊢
  exact hExecs ▸ h

theorem Streaming.quiet (h : Streaming disc w) (hSame : w.SameCommand e)
    (hCourse : SameCourse w.cd.drive (cdStep w.cd e).drive)
    (hSector : (cdStep w.cd e).drive.sector = w.cd.drive.sector ∨
      (cdStep w.cd e).drive.sector = { w.cd.drive.sector with readPos := 0 } ∨
      w.cd.drive.sector.readPos < (cdStep w.cd e).drive.sector.readPos)
    (hPending : (cdStep w.cd e).drive.pendingDataready ≠ none →
      w.cd.drive.pendingDataready ≠ none)
    (hRead : sectorsRead w.cd e = []) (hPended : sectorPended w.cd e = false) :
    Streaming disc (w.step e) := by
  obtain ⟨hReads, hWaits, hTaken⟩ := step_kept hSame hRead hPended
  have hMode : (cdStep w.cd e).drive.modeBit 5 = w.cd.drive.modeBit 5 := by
    unfold Drive.modeBit
    rw [hCourse.mode]
  change Streaming disc (w.step e)
  refine ⟨?_, fun hOn => ?_, fun hSome => ?_, fun k hk => ?_⟩
  · rw [hReads, show (w.step e).cd.drive.seek = w.cd.drive.seek from hCourse.seek]
    exact h.reads
  · rw [hReads, show (w.step e).cd.drive.readAt = w.cd.drive.readAt from hCourse.readAt,
      show (w.step e).cd.drive.seek = w.cd.drive.seek from hCourse.seek]
    exact h.next (hCourse.reading ▸ hOn)
  · rw [hWaits]
    exact h.pended (hPending hSome)
  · rw [hWaits] at hk
    obtain ⟨hLess, hHeld⟩ := h.held k hk
    rw [hReads]
    refine ⟨hLess, fun hLast hNone => ?_⟩
    rw [hTaken, Bool.or_eq_false_iff, decide_eq_false_iff_not] at hNone
    obtain ⟨hZero, hFifo⟩ := hHeld hLast hNone.1
    have hBuffer : (cdStep w.cd e).drive.sector = w.cd.drive.sector := by
      rcases hSector with hIs | hIs | hMore
      · exact hIs
      · rw [hIs, ← hZero]
      · exact absurd hMore hNone.2
    change (cdStep w.cd e).drive.sector.readPos = 0 ∧ (cdStep w.cd e).drive.fifo =
      sectorBytes disc ((cdStep w.cd e).drive.modeBit 5) ((cdStep w.cd e).drive.seek.toLba + k)
    rw [Drive.fifo_congr hBuffer, hBuffer, hMode, hCourse.seek]
    exact ⟨hZero, hFifo⟩

theorem Streaming.sector (h : Streaming disc w) (hValid : w.cd.drive.seek.Valid)
    (hImage : w.cd.drive.disc = disc) {d : Drive} (hReading : d.reading = true)
    (hSame : w.SameCommand e) (hCourse : SameCourse w.cd.drive d)
    (hNext : SameCourse d.turned (cdStep w.cd e).drive)
    (hSector : (cdStep w.cd e).drive.sector = (d.readSectorAt d.readAt).1.sector)
    (hPending : sectorPended w.cd e = false → (cdStep w.cd e).drive.pendingDataready ≠ none →
      w.cd.drive.pendingDataready ≠ none)
    (hRead : sectorsRead w.cd e = [d.readAt.toLba])
    (hPended : sectorPended w.cd e = true → (d.readSectorAt d.readAt).2 = true) :
    Streaming disc (w.step e) ∧
      ((d.readSectorAt d.readAt).2 = true → (w.step e).cd.drive.sector.readPos = 0 ∧
        (w.step e).cd.drive.fifo = sectorBytes disc ((w.step e).cd.drive.modeBit 5)
          ((w.step e).cd.drive.seek.toLba + w.reads.length)) := by
  have hSeek : (w.step e).cd.drive.seek = w.cd.drive.seek := hNext.seek.trans hCourse.seek
  have hMode : (w.step e).cd.drive.modeBit 5 = d.modeBit 5 := by
    unfold Drive.modeBit
    rw [show (w.step e).cd.drive.mode = d.mode from hNext.mode]
  have hAt : d.readAt = Msf.advance^[w.reads.length] w.cd.drive.seek :=
    hCourse.readAt.trans (h.next (hCourse.reading ▸ hReading))
  obtain ⟨hAtValid, hAtLba⟩ := hValid.iterate w.reads.length
  rw [← hAt] at hAtValid hAtLba
  have hReads : (w.step e).reads = w.reads ++ [d.readAt.toLba] := by
    simp [CdWatch.step, CdWatch.nextReads, hSame, hRead]
  have hLength : (w.step e).reads.length = w.reads.length + 1 := by
    rw [hReads, List.length_append]
    rfl
  have hPendedIs : (w.step e).pended =
      if sectorPended w.cd e then some w.reads.length else w.pended := by
    simp [CdWatch.step, CdWatch.nextReads, hSame, hRead]
  have hHeld (hDelivered : (d.readSectorAt d.readAt).2 = true) :
      (w.step e).cd.drive.sector.readPos = 0 ∧
        (w.step e).cd.drive.fifo = sectorBytes disc ((w.step e).cd.drive.modeBit 5)
          ((w.step e).cd.drive.seek.toLba + w.reads.length) := by
    obtain ⟨hZero, hFifo⟩ := readSectorAt_fifo hAtValid hDelivered
    have hBuffer : (w.step e).cd.drive.fifo = (d.readSectorAt d.readAt).1.fifo :=
      Drive.fifo_congr hSector
    refine ⟨hSector ▸ hZero, ?_⟩
    rw [hBuffer, hFifo, hMode, hSeek, ← hAtLba, hCourse.disc, hImage]
  refine ⟨⟨?_, fun _ => ?_, fun hSome => ?_, fun k hk => ?_⟩, hHeld⟩
  · rw [hLength, List.range_succ, List.map_append, hSeek, ← h.reads, hReads, hAtLba]
    rfl
  · rw [hLength, hSeek, Function.iterate_succ_apply', ← hAt]
    exact hNext.readAt
  · rw [hPendedIs]
    cases hIs : sectorPended w.cd e with
    | true => simp
    | false => exact h.pended (hPending hIs hSome)
  · rw [hPendedIs] at hk
    rw [hLength]
    cases hIs : sectorPended w.cd e with
    | true =>
        rw [hIs, if_pos rfl] at hk
        obtain rfl := Option.some.inj hk
        exact ⟨Nat.lt_succ_self _, fun _ _ => hHeld (hPended hIs)⟩
    | false =>
        rw [hIs, if_neg Bool.false_ne_true] at hk
        have hLess := (h.held k hk).1
        exact ⟨by omega, fun hLast => by omega⟩

theorem StreamInv.step (h : StreamInv disc w) (hBehind : QueuedBehind w.cd) (hTimed : w.cd.Timed)
    (e : CdEvent) : StreamInv disc (w.step e) := by
  cases cdStep_streamStep hBehind hTimed e with
  | ran q hExecs hDrive hRead hPended =>
      obtain ⟨hImage, hSeek, hLoaded⟩ := exec_position h.loaded q.cmd q.params
      have hPast : ¬w.SameCommand e := fun hSame => by
        rw [CdWatch.SameCommand, hExecs] at hSame
        simp at hSame
      have hReads : (w.step e).reads = [] := by
        simp [CdWatch.step, CdWatch.nextReads, hPast, hRead]
      have hWaits : (w.step e).pended = none := by
        simp [CdWatch.step, hPast, hPended]
      refine ⟨hDrive ▸ hImage.trans h.image, hDrive ▸ hLoaded, ?_, fun hLast _ => ?_⟩
      · change (cdStep w.cd e).drive.seek = (execs (cdStep w.cd e).trace).foldl _ _
        rw [hDrive, hSeek, h.seek, hExecs, List.foldl_append]
        rfl
      · obtain ⟨before, q', hIs, hReadCmd⟩ := hLast
        obtain ⟨-, rfl⟩ := List.append_singleton_inj.mp (hExecs.symm.trans hIs)
        obtain ⟨hAt, hNothing⟩ := exec_reads h.loaded hReadCmd
        refine ⟨by rw [hReads]; rfl, fun hOn => ?_, fun hSome => ?_, fun k hk => ?_⟩
        · rw [hReads]
          exact hDrive ▸ hAt (hDrive ▸ hOn)
        · exact absurd (hDrive ▸ hNothing) hSome
        · exact absurd (hWaits.symm.trans hk) (Option.some_ne_none k).symm
  | quiet hExecs hSame hSector hPending hReady hRead hPended =>
      refine ⟨hSame.disc.trans h.image, h.loaded.congr hSame.disc hSame.reading hPending, ?_,
        fun hLast hValid => ?_⟩
      · change (cdStep w.cd e).drive.seek = _
        rw [hSame.seek, h.seek]
        exact congrArg (List.foldl seekAfter _) hExecs.symm
      · have hStream := h.stream (lastReads_congr hExecs hLast) (hSame.seek ▸ hValid)
        exact hStream.quiet hExecs hSame hSector hPending hRead hPended
  | sector d hExecs hReading hSame hNext hSector hPending hReady hRead hPended =>
      have hCourse : (cdStep w.cd e).drive.seek = w.cd.drive.seek := hNext.seek.trans hSame.seek
      have hImage : (cdStep w.cd e).drive.disc = w.cd.drive.disc := hNext.disc.trans hSame.disc
      have hSome : w.cd.drive.disc ≠ none := fun hNone =>
        absurd ((h.loaded hNone).1.symm.trans (hSame.reading ▸ hReading)) Bool.false_ne_true
      refine ⟨hImage.trans h.image, fun hNone => absurd (hImage ▸ hNone) hSome, ?_,
        fun hLast hValid => ?_⟩
      · change (cdStep w.cd e).drive.seek = _
        rw [hCourse, h.seek]
        exact congrArg (List.foldl seekAfter _) hExecs.symm
      · have hValid' : w.cd.drive.seek.Valid := hCourse ▸ hValid
        have hStream := h.stream (lastReads_congr hExecs hLast) hValid'
        exact (hStream.sector hValid' h.image hReading hExecs hSame hNext hSector hPending hRead
          hPended).1

end Runs

theorem seekAfter_setLoc {before between : List QueuedCmd} {q : QueuedCmd} {m s f : Byte}
    {rest : List Byte} {p : Msf} (hBetween : ∀ q ∈ between, q.cmd ≠ 0x02) (hRead : q.Reads) :
    (before ++ ⟨0x02, m :: s :: f :: rest⟩ :: between ++ [q]).foldl seekAfter p =
      ⟨bcdToBin m, bcdToBin s, bcdToBin f⟩ := by
  have hOther (p : Msf) : seekAfter p q = p := by
    refine if_neg fun hCmd => ?_
    rcases hRead with hIs | hIs <;> omega
  have hKept (p : Msf) : between.foldl seekAfter p = p := by
    induction between with
    | nil => rfl
    | cons q rest ih =>
        have hCmd : seekAfter p q = p := by
          refine if_neg fun hCmd => hBetween q List.mem_cons_self ?_
          exact BitVec.eq_of_toNat_eq hCmd
        rw [List.foldl_cons, hCmd]
        exact ih fun q hq => hBetween q (List.mem_cons_of_mem _ hq)
  rw [List.foldl_append, List.foldl_cons, hOther, List.foldl_nil, List.foldl_append,
    List.foldl_cons, hKept]
  rfl

/-- The sectors of a read from a position that was set are those from it on, one
after the other; and where a data-ready interrupt is delivered for the newest of
them, before a byte of it is taken, the FIFO holds it from its first byte. -/
theorem cd_stream {disc : Option Disc} {speed : DiscSpeed} {scex : List Byte} {w : CdWatch}
    (hRun : Reach CdWatch.step (fun w => SmallAdvance w.cd)
      (.start (Cdrom.initial disc speed scex)) w)
    {before between : List QueuedCmd} {m s f cmd : Byte} {rest params : List Byte}
    (hCommands : execs w.cd.trace =
      before ++ ⟨0x02, m :: s :: f :: rest⟩ :: between ++ [⟨cmd, params⟩])
    (hBetween : ∀ q ∈ between, q.cmd ≠ 0x02) (hRead : cmd = 0x06 ∨ cmd = 0x1B)
    (hSec : bcdToBin s < 60) (hSect : bcdToBin f < 75) :
    let lba := Msf.toLba ⟨bcdToBin m, bcdToBin s, bcdToBin f⟩
    w.reads = (List.range w.reads.length).map (fun (k : Nat) => lba + k) ∧
      ∀ e, w.SameCommand e → readies (cdStep w.cd e).trace ≠ readies w.cd.trace →
        ∃ k, w.announced e = some k ∧ k < (w.step e).reads.length ∧
          (k + 1 = (w.step e).reads.length → (w.step e).taken = false →
            (w.step e).cd.drive.fifo =
              sectorBytes disc ((w.step e).cd.drive.modeBit 5) (lba + k)) := by
  have hStart : StreamInv disc (.start (Cdrom.initial disc speed scex)) := by
    refine ⟨rfl, fun _ => ⟨rfl, rfl⟩, rfl, fun ⟨before, q, hIs, _⟩ => ?_⟩
    exact absurd hIs.symm (List.append_ne_nil_of_right_ne_nil _ (List.cons_ne_nil _ _))
  obtain ⟨hBehind, hTimed, hInv⟩ : QueuedBehind w.cd ∧ w.cd.Timed ∧ StreamInv disc w := by
    refine @Reach.invariant _ _ _ _ _ _
      (fun w => QueuedBehind w.cd ∧ w.cd.Timed ∧ StreamInv disc w) hRun ?_ ?_
    · obtain ⟨hBehind, hTimed⟩ := @timed_of_reach _ disc speed scex .start
      exact ⟨hBehind, hTimed, hStart⟩
    · intro w e ⟨hBehind, hTimed, hInv⟩ hSmall
      exact ⟨cdStep_queuedBehind hBehind e, cdStep_timed hTimed e hSmall,
        hInv.step hBehind hTimed e⟩
  have hReads : (QueuedCmd.mk cmd params).Reads := by
    rcases hRead with rfl | rfl
    · exact .inl rfl
    · exact .inr rfl
  have hSeek : w.cd.drive.seek = ⟨bcdToBin m, bcdToBin s, bcdToBin f⟩ := by
    rw [hInv.seek, hCommands, seekAfter_setLoc hBetween hReads]
  have hValid : w.cd.drive.seek.Valid := by
    rw [hSeek]
    exact ⟨hSec, hSect⟩
  have hStream : Streaming disc w := hInv.stream ⟨_, _, hCommands, hReads⟩ hValid
  intro lba
  have hLba : w.cd.drive.seek.toLba = lba := by rw [hSeek]
  refine ⟨hLba ▸ hStream.reads, fun e hSame hReady => ?_⟩
  cases cdStep_streamStep hBehind hTimed e with
  | ran q hExecs =>
      rw [CdWatch.SameCommand, hExecs] at hSame
      simp at hSame
  | quiet hExecs hCourse hSector hPending hSet hNone hPended =>
      have hWaits : w.cd.drive.pendingDataready ≠ none := hSet.resolve_left hReady
      obtain ⟨k, hk⟩ := Option.ne_none_iff_exists'.mp (hStream.pended hWaits)
      have hNext := hStream.quiet hSame hCourse hSector hPending hNone hPended
      have hLba' : (w.step e).cd.drive.seek.toLba = lba := by
        rw [show (w.step e).cd.drive.seek = w.cd.drive.seek from hCourse.seek, hLba]
      obtain ⟨hLess, hHeld⟩ := hNext.held k ((step_kept hSame hNone hPended).2.1.trans hk)
      refine ⟨k, by rw [CdWatch.announced, if_pos hNone, hk], hLess, fun hLast hTaken => ?_⟩
      rw [(hHeld hLast hTaken).2, hLba']
  | sector d hExecs hReading hCourse hNext hSector hPending hSet hOne hPended =>
      have hDelivered := hSet.resolve_left hReady
      obtain ⟨-, hHeld⟩ := hStream.sector hValid hInv.image hReading hSame hCourse hNext hSector
        hPending hOne hPended
      have hLba' : (w.step e).cd.drive.seek.toLba = lba := by
        rw [show (w.step e).cd.drive.seek = w.cd.drive.seek from
          hNext.seek.trans hCourse.seek, hLba]
      have hLength : (w.nextReads e).length = w.reads.length + 1 := by
        simp [CdWatch.nextReads, hSame, hOne]
      refine ⟨w.reads.length, ?_, ?_, fun _ _ => ?_⟩
      · rw [CdWatch.announced, if_neg (by simp [hOne]), hLength]
        rfl
      · exact hLength ▸ Nat.lt_succ_self _
      · rw [(hHeld hDelivered).2, hLba']

/-- An image without data. -/
def blankDisc : Disc := ⟨fun _ => none, fun _ => none, 0, 1, fun _ => 0⟩

def blankDrive : CdWatch := .start (Cdrom.initial (some blankDisc) ⟨1, 32⟩ [])

/-- SetLoc to the first sector, and ReadN. -/
def readFirst : List CdEvent :=
  [.write 2 0x00, .write 2 0x02, .write 2 0x00, .write 1 0x02, .write 0 0x01, .write 3 0x1F,
    .write 0 0x00, .write 1 0x06]

/-- Two sectors come while the response of ReadN is shown. -/
def twoSectors : CdWatch :=
  (readFirst ++ [CdEvent.advance 903168 false, .advance 451584 false, .write 0 0x01]).foldl
    CdWatch.step blankDrive

theorem twoSectors_reached :
    Reach CdWatch.step (fun w => SmallAdvance w.cd) blankDrive twoSectors := by
  have hFirst : BitVec.toNat (903168 : Word) < 2 ^ 31 := by decide
  have hSecond : BitVec.toNat (451584 : Word) < 2 ^ 31 := by decide
  exact Reach.start.along _ ⟨trivial, trivial, trivial, trivial, trivial, trivial, trivial, trivial,
    hFirst, hSecond, trivial, trivial⟩

/-- The acknowledge shows the interrupt of the second one. -/
theorem cd_stream_twoSectors :
    twoSectors.reads = [0, 1] ∧
      (twoSectors.step (.write 3 0x1F)).cd.drive.fifo = sectorBytes (some blankDisc) false 1 := by
  have hCommands : execs twoSectors.cd.trace =
      [] ++ ⟨0x02, 0x00 :: 0x02 :: 0x00 :: []⟩ :: [] ++ [⟨0x06, []⟩] := by decide
  obtain ⟨hReads, hReady⟩ := cd_stream twoSectors_reached hCommands (by simp) (.inl rfl)
    (by decide) (by decide)
  obtain ⟨k, hFor, -, hHeld⟩ := hReady (.write 3 0x1F) (by decide) (by decide)
  have hSecond : twoSectors.announced (.write 3 0x1F) = some 1 := by decide
  obtain rfl := Option.some.inj (hFor.symm.trans hSecond)
  refine ⟨hReads.trans (by decide), ?_⟩
  exact hHeld (by decide) (by decide)

/-- One sector comes, and a byte of it is taken before its interrupt is delivered. -/
def byteTaken : CdWatch :=
  (readFirst ++ [CdEvent.advance 903168 false, .write 3 0x80, .read 2, .write 0 0x01]).foldl
    CdWatch.step blankDrive

theorem byteTaken_reached :
    Reach CdWatch.step (fun w => SmallAdvance w.cd) blankDrive byteTaken := by
  have hSmall : BitVec.toNat (903168 : Word) < 2 ^ 31 := by decide
  exact Reach.start.along _ ⟨trivial, trivial, trivial, trivial, trivial, trivial, trivial, trivial,
    hSmall, trivial, trivial, trivial, trivial⟩

/-- The FIFO does not start with the first byte then, although no newer sector has
been read. -/
theorem byteTaken_shifted :
    ¬∀ (w : CdWatch) (e : CdEvent) (k : Nat),
      Reach CdWatch.step (fun w => SmallAdvance w.cd) blankDrive w →
      execs w.cd.trace = [⟨0x02, [0x00, 0x02, 0x00]⟩, ⟨0x06, []⟩] → w.SameCommand e →
      readies (cdStep w.cd e).trace ≠ readies w.cd.trace → w.announced e = some k →
      k + 1 = (w.step e).reads.length →
        (w.step e).cd.drive.fifo = sectorBytes (some blankDisc) false k := by
  intro hClaim
  have hFifo := hClaim byteTaken (.write 3 0x1F) 0 byteTaken_reached (by decide)
    (by decide) (by decide) (by decide) (by decide)
  have hLength := congrArg List.length hFifo
  have hLeft : (byteTaken.step (.write 3 0x1F)).cd.drive.fifo.length = 2047 := by decide +kernel
  have hWhole : (sectorBytes (some blankDisc) false (0 : Nat)).length = 2048 :=
    List.length_replicate
  omega

end RecompStudio.Runtime
