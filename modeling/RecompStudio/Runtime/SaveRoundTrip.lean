import RecompStudio.Runtime.BootState
import RecompStudio.Threads.Tcb

/-!
Save states: the requests of the user, carried out at a block boundary, and what
a save that is loaded later brings back. All of the machine comes back but the PC,
for which the loader has the game's entry.
-/

namespace RecompStudio.BootState

open Serial

variable {D : Devices}

section Records

variable {s : Section} {rest : List Byte}

theorem readSection_bytes (hTag : s.tag < 2 ^ 32) (hLength : s.payload.length ≤ 64 * 1024 * 1024) :
    readSection (s.bytes ++ rest) = some (s, rest) := by
  have hTagBytes : (s.bytes ++ rest).take 4 = leBytes 4 s.tag := by
    simp only [Section.bytes, List.append_assoc]
    exact List.take_left' (length_leBytes _ _)
  have hEight : (s.bytes ++ rest).drop 8 = leBytes 8 s.payload.length ++ (s.payload ++ rest) := by
    have hFront : (leBytes 4 s.tag ++ leBytes 4 0).length = 8 := by simp
    simp only [Section.bytes, List.append_assoc]
    rw [← List.append_assoc (leBytes 4 s.tag)]
    exact List.drop_left' hFront
  have hSixteen : (s.bytes ++ rest).drop 16 = s.payload ++ rest := by
    have hSplit : (s.bytes ++ rest).drop 16 = ((s.bytes ++ rest).drop 8).drop 8 := by
      rw [List.drop_drop]
    rw [hSplit, hEight]
    exact List.drop_left' (length_leBytes _ _)
  have hLen : leValue (((s.bytes ++ rest).drop 8).take 8) = s.payload.length := by
    rw [hEight, List.take_left' (length_leBytes _ _), leValue_leBytes]
    exact Nat.mod_eq_of_lt (by omega)
  have hTagValue : leValue ((s.bytes ++ rest).take 4) = s.tag := by
    rw [hTagBytes, leValue_leBytes]
    exact Nat.mod_eq_of_lt (by omega)
  have hLong : ¬(s.bytes ++ rest).length < 16 := by
    simp only [Section.bytes, List.length_append, length_leBytes]
    omega
  unfold readSection
  rw [if_neg hLong]
  simp only [hLen, hTagValue, hSixteen]
  rw [if_neg (by omega), if_neg (by rw [List.length_append]; omega), List.take_left' rfl,
    List.drop_left' rfl]

theorem ofCode_code (t : Tag) : Tag.ofCode t.code = some t := by
  cases t <;> rfl

end Records

section Payloads

theorem regWords_get (regs : RegIndex → Word) (r : RegIndex) :
    (regWords regs)[r.toNat]? = some (regs r) := by
  have hLt : r.toNat < 32 := r.isLt
  rw [regWords, List.getElem?_ofFn, dif_pos hLt]
  rfl

theorem length_regWords (regs : RegIndex → Word) : (regWords regs).length = 32 := by
  simp [regWords]

variable (c : CpuRegs) (r : RegIndex)

theorem words_gpr : c.words[r.toNat]? = some (c.gpr r) := by
  have hLt : r.toNat < (regWords c.gpr).length := by rw [length_regWords]; exact r.isLt
  rw [CpuRegs.words, List.getElem?_append_left hLt]
  exact regWords_get c.gpr r

/-- The words behind the first register file. -/
theorem words_behind (i : Nat) : c.words[32 + i]? =
    ([c.pc, c.hi, c.lo] ++
        (regWords c.cop0 ++ (regWords c.gteData ++ regWords c.gteCtrl)))[i]? := by
  rw [CpuRegs.words, List.getElem?_append_right (by rw [length_regWords]; omega), length_regWords,
    Nat.add_sub_cancel_left]

theorem words_cop0 : c.words[35 + r.toNat]? = some (c.cop0 r) := by
  have hIndex : 35 + r.toNat = 32 + (3 + r.toNat) := by omega
  have hLt : r.toNat < (regWords c.cop0).length := by rw [length_regWords]; exact r.isLt
  rw [hIndex, words_behind, List.getElem?_append_right (by simp)]
  simp only [List.length_cons, List.length_nil, Nat.zero_add, Nat.reduceAdd,
    Nat.add_sub_cancel_left]
  rw [List.getElem?_append_left hLt]
  exact regWords_get c.cop0 r

theorem words_gteData : c.words[67 + r.toNat]? = some (c.gteData r) := by
  have hIndex : 67 + r.toNat = 32 + (3 + (32 + r.toNat)) := by omega
  have hLt : r.toNat < (regWords c.gteData).length := by rw [length_regWords]; exact r.isLt
  rw [hIndex, words_behind, List.getElem?_append_right (by simp)]
  simp only [List.length_cons, List.length_nil, Nat.zero_add, Nat.reduceAdd,
    Nat.add_sub_cancel_left]
  rw [List.getElem?_append_right (by rw [length_regWords]; omega), length_regWords,
    Nat.add_sub_cancel_left, List.getElem?_append_left hLt]
  exact regWords_get c.gteData r

theorem words_gteCtrl : c.words[99 + r.toNat]? = some (c.gteCtrl r) := by
  have hIndex : 99 + r.toNat = 32 + (3 + (32 + (32 + r.toNat))) := by omega
  rw [hIndex, words_behind, List.getElem?_append_right (by simp)]
  simp only [List.length_cons, List.length_nil, Nat.zero_add, Nat.reduceAdd,
    Nat.add_sub_cancel_left]
  rw [List.getElem?_append_right (by rw [length_regWords]; omega), length_regWords,
    Nat.add_sub_cancel_left, List.getElem?_append_right (by rw [length_regWords]; omega),
    length_regWords, Nat.add_sub_cancel_left]
  exact regWords_get c.gteCtrl r

theorem length_cpuBytes : c.bytes.length = 524 := by
  simp [CpuRegs.bytes, CpuRegs.words, length_regWords]

theorem arrayGet_cpuBytes {i : Nat} {w : Word} (h : c.words[i]? = some w) :
    arrayGet 4 c.bytes i = w := by
  have hRead : arrayGet 4 (arrayBytes 4 c.words ++ []) i = w := arrayGet_arrayBytes [] h
  rwa [List.append_nil] at hRead

theorem arrayGet_ofFn {k n : Nat} (f : Fin n → BitVec (8 * k)) (bs : List Byte) (i : Fin n) :
    arrayGet k (arrayBytes k (List.ofFn f) ++ bs) i = f i := by
  refine arrayGet_arrayBytes bs ?_
  rw [List.getElem?_ofFn, dif_pos i.isLt]

theorem timers_read_back (t : TimerRegs) (unset₁ unset₂ : Bytes 2) :
    TimerRegs.ofBytes (t.bytes unset₁ unset₂) = t := by
  have hHalf : ∀ f : Fin 3 → BitVec 16, (arrayBytes 2 (List.ofFn f)).length = 6 := fun f => by
    simp [length_arrayBytes 2]
  have hFull : ∀ f : Fin 3 → Word, (arrayBytes 4 (List.ofFn f)).length = 12 := fun f => by
    simp [length_arrayBytes 4]
  have hMode : (t.bytes unset₁ unset₂).drop 8 = arrayBytes 4 (List.ofFn t.mode) ++
      (arrayBytes 2 (List.ofFn t.target) ++ (unset₂.val ++ (arrayBytes 4 (List.ofFn t.irqLine) ++
        arrayBytes 4 (List.ofFn t.frac)))) := by
    rw [TimerRegs.bytes, drop_front (hHalf _) (by decide), drop_front unset₁.property (by decide)]
    rfl
  have hTarget : (t.bytes unset₁ unset₂).drop 20 = arrayBytes 2 (List.ofFn t.target) ++
      (unset₂.val ++ (arrayBytes 4 (List.ofFn t.irqLine) ++ arrayBytes 4 (List.ofFn t.frac))) := by
    rw [TimerRegs.bytes, drop_front (hHalf _) (by decide), drop_front unset₁.property (by decide),
      drop_front (hFull _) (by decide)]
    rfl
  have hIrq : (t.bytes unset₁ unset₂).drop 28 =
      arrayBytes 4 (List.ofFn t.irqLine) ++ arrayBytes 4 (List.ofFn t.frac) := by
    rw [TimerRegs.bytes, drop_front (hHalf _) (by decide), drop_front unset₁.property (by decide),
      drop_front (hFull _) (by decide), drop_front (hHalf _) (by decide),
      drop_front unset₂.property (by decide)]
    rfl
  have hFrac : (t.bytes unset₁ unset₂).drop 40 = arrayBytes 4 (List.ofFn t.frac) ++ [] := by
    rw [TimerRegs.bytes, drop_front (hHalf _) (by decide), drop_front unset₁.property (by decide),
      drop_front (hFull _) (by decide), drop_front (hHalf _) (by decide),
      drop_front unset₂.property (by decide), drop_front (hFull _) (by decide), List.append_nil]
    rfl
  have hCounter : t.bytes unset₁ unset₂ = arrayBytes 2 (List.ofFn t.counter) ++
      (unset₁.val ++ (arrayBytes 4 (List.ofFn t.mode) ++ (arrayBytes 2 (List.ofFn t.target) ++
        (unset₂.val ++ (arrayBytes 4 (List.ofFn t.irqLine) ++
          arrayBytes 4 (List.ofFn t.frac)))))) := rfl
  unfold TimerRegs.ofBytes
  rw [hMode, hTarget, hIrq, hFrac, hCounter]
  congr 1 <;> funext i <;> exact arrayGet_ofFn _ _ i

theorem length_timerBytes (t : TimerRegs) (unset₁ unset₂ : Bytes 2) :
    (t.bytes unset₁ unset₂).length = 52 := by
  simp only [TimerRegs.bytes, List.length_append, length_arrayBytes, List.length_ofFn,
    unset₁.property, unset₂.property]

end Payloads

/-- The variables of a module behind a load: those that a snapshot lists are back. -/
def SnapModule.restored (M : SnapModule) (s t : M.Vars) : M.Vars :=
  fun f => if f ∈ M.fields then s f else t f

theorem SnapModule.read_write (M : SnapModule) (s t : M.Vars) :
    M.snapshotRead (M.snapshotWrite s) t = some (M.restored s t) := by
  refine (if_pos (length_writeFields M.size s M.fields)).trans ?_
  refine congrArg some (funext fun f => ?_)
  unfold restored
  split
  · rename_i hMem
    exact readFields_writeFields hMem
  · rename_i hNot
    exact readFields_of_notMem hNot

theorem mem_gpuSnapFields (f : GpuField) : f ∈ gpuSnapFields := by cases f <;> decide

theorem gpu_restored (s t : gpuModule.Vars) : gpuModule.restored s t = s :=
  funext fun f => if_pos (mem_gpuSnapFields f)

theorem mem_spuSnapFields (f : SpuField) : f ∈ spuSnapFields := by cases f <;> decide

theorem spu_restored (s t : spuModule.Vars) : spuModule.restored s t = s :=
  funext fun f => if_pos (mem_spuSnapFields f)

/-- A machine behind the load of one section of another. -/
def restoreTag (entryPc : Word) (m m' : Machine D) : Tag → Machine D
  | .cpu => { m' with cpu := { m.cpu with pc := entryPc } }
  | .ram => { m' with ram := m.ram }
  | .spad => { m' with scratchpad := m.scratchpad }
  | .irq => { m' with iStat := m.iStat, iMask := m.iMask }
  | .timer => { m' with timers := m.timers }
  | .clock => { m' with cycleCount := m.cycleCount }
  | .gpu => { m' with gpu := m.gpu }
  | .vram => { m' with vram := m.vram }
  | .spu => { m' with spu := m.spu }
  | .spuram => { m' with spuRam := m.spuRam }
  | .cdrom => { m' with cdrom := D.cdrom.restored m.cdrom m'.cdrom }
  | .dma => { m' with dma := D.dma.restored m.dma m'.dma }
  | .sio => { m' with sio := D.sio.restored m.sio m'.sio }
  | .dirty => { m' with dirty := m.dirty }

section Restore

variable (entryPc : Word) (unset₁ unset₂ : Bytes 2) (m m' : Machine D)

theorem applyTag_cpu : applyTag entryPc m.cpu.bytes m' .cpu =
    some (restoreTag entryPc m m' .cpu) := by
  have hGpr : (fun r : RegIndex => arrayGet 4 m.cpu.bytes r.toNat) = m.cpu.gpr :=
    funext fun r => arrayGet_cpuBytes _ (words_gpr _ r)
  have hCop0 : (fun r : RegIndex => arrayGet 4 m.cpu.bytes (35 + r.toNat)) = m.cpu.cop0 :=
    funext fun r => arrayGet_cpuBytes _ (words_cop0 _ r)
  have hData : (fun r : RegIndex => arrayGet 4 m.cpu.bytes (67 + r.toNat)) = m.cpu.gteData :=
    funext fun r => arrayGet_cpuBytes _ (words_gteData _ r)
  have hCtrl : (fun r : RegIndex => arrayGet 4 m.cpu.bytes (99 + r.toNat)) = m.cpu.gteCtrl :=
    funext fun r => arrayGet_cpuBytes _ (words_gteCtrl _ r)
  have hHi : arrayGet 4 m.cpu.bytes 33 = m.cpu.hi := arrayGet_cpuBytes _ (words_behind _ 1)
  have hLo : arrayGet 4 m.cpu.bytes 34 = m.cpu.lo := arrayGet_cpuBytes _ (words_behind _ 2)
  unfold applyTag
  dsimp only
  rw [if_pos (length_cpuBytes _), hGpr, hCop0, hData, hCtrl, hHi, hLo]
  rfl

theorem applyTag_irq : applyTag entryPc (arrayBytes 4 [m.iStat, m.iMask]) m' .irq =
    some (restoreTag entryPc m m' .irq) := by
  have hStat : arrayGet 4 (arrayBytes 4 [m.iStat, m.iMask] ++ []) 0 = m.iStat :=
    arrayGet_arrayBytes [] rfl
  have hMask : arrayGet 4 (arrayBytes 4 [m.iStat, m.iMask] ++ []) 1 = m.iMask :=
    arrayGet_arrayBytes [] rfl
  rw [List.append_nil] at hStat hMask
  have hLength : (arrayBytes 4 [m.iStat, m.iMask]).length = 8 := length_arrayBytes 4 _
  rw [applyTag, if_pos hLength, hStat, hMask]
  rfl

theorem applyTag_dirty : applyTag entryPc (arrayBytes 4 (List.ofFn m.dirty)) m' .dirty =
    some (restoreTag entryPc m m' .dirty) := by
  have hLength : (arrayBytes 4 (List.ofFn m.dirty)).length = 64 := by
    rw [length_arrayBytes, List.length_ofFn]
    rfl
  have hWords : setBitmapWords (arrayBytes 4 (List.ofFn m.dirty)) m'.dirty = m.dirty := by
    funext i
    have hRead := arrayGet_ofFn (k := 4) m.dirty [] i
    rw [List.append_nil] at hRead
    have hLt : i.val < 64 / 4 := i.isLt
    unfold setBitmapWords
    rw [hLength, if_pos hLt]
    exact hRead
  unfold applyTag
  dsimp only
  rw [if_neg (by rw [hLength]; decide), hWords]
  rfl

/-- A section that a machine has saved brings that part of it back. -/
theorem applyTag_payload (t : Tag) :
    applyTag entryPc (sectionPayload unset₁ unset₂ m t) m' t =
        some (restoreTag entryPc m m' t) := by
  cases t with
  | cpu => exact applyTag_cpu entryPc m m'
  | irq => exact applyTag_irq entryPc m m'
  | dirty => exact applyTag_dirty entryPc m m'
  | ram =>
      exact (if_pos m.ram.property).trans
        (congrArg (fun b => some { m' with ram := b }) m.ram.ofList_val)
  | spad =>
      exact (if_pos m.scratchpad.property).trans
        (congrArg (fun b => some { m' with scratchpad := b }) m.scratchpad.ofList_val)
  | vram =>
      exact (if_pos m.vram.property).trans
        (congrArg (fun b => some { m' with vram := b }) m.vram.ofList_val)
  | spuram =>
      exact (if_pos m.spuRam.property).trans
        (congrArg (fun b => some { m' with spuRam := b }) m.spuRam.ofList_val)
  | timer =>
      rw [sectionPayload, applyTag, if_pos (length_timerBytes _ _ _), timers_read_back]
      rfl
  | clock =>
      rw [sectionPayload, applyTag, if_pos (length_bitsBytes 8 m.cycleCount), bitsOf_bitsBytes 8]
      rfl
  | gpu =>
      simp only [applyTag, sectionPayload, SnapModule.read_write, gpu_restored, Option.map_some]
      rfl
  | spu =>
      simp only [applyTag, sectionPayload, SnapModule.read_write, spu_restored, Option.map_some]
      rfl
  | cdrom =>
      simp only [applyTag, sectionPayload, SnapModule.read_write, Option.map_some]
      rfl
  | dma =>
      simp only [applyTag, sectionPayload, SnapModule.read_write, Option.map_some]
      rfl
  | sio =>
      simp only [applyTag, sectionPayload, SnapModule.read_write, Option.map_some]
      rfl

theorem length_snapshotWrite (M : SnapModule) (s : M.Vars) :
    (M.snapshotWrite s).length ≤ 64 * 1024 * 1024 :=
  (length_writeFields M.size s M.fields).trans_le M.bounded

theorem length_payload (t : Tag) :
    (sectionPayload unset₁ unset₂ m t).length ≤ 64 * 1024 * 1024 := by
  cases t with
  | cpu => exact (length_cpuBytes _).trans_le (by decide)
  | ram => exact m.ram.property.trans_le (by decide)
  | spad => exact m.scratchpad.property.trans_le (by decide)
  | irq => exact (length_arrayBytes 4 [m.iStat, m.iMask]).trans_le (by simp)
  | timer => exact (length_timerBytes _ _ _).trans_le (by decide)
  | clock => exact (length_bitsBytes 8 _).trans_le (by decide)
  | vram => exact m.vram.property.trans_le (by decide)
  | spuram => exact m.spuRam.property.trans_le (by decide)
  | gpu => exact length_snapshotWrite _ _
  | spu => exact length_snapshotWrite _ _
  | cdrom => exact length_snapshotWrite _ _
  | dma => exact length_snapshotWrite _ _
  | sio => exact length_snapshotWrite _ _
  | dirty =>
      refine (length_arrayBytes 4 _).trans_le ?_
      rw [List.length_ofFn]
      exact (by decide : 4 * dirtyWords ≤ 64 * 1024 * 1024)

theorem Tag.code_lt (t : Tag) : t.code < 32 := by cases t <;> decide

/-- The loop over saved sections brings back their parts in turn. -/
theorem loadSections_saved (ts : List Tag) (seen : Nat) (rest : List Byte) :
    loadSections entryPc ts.length
        ((ts.flatMap fun t => Section.bytes ⟨t.code, sectionPayload unset₁ unset₂ m t⟩) ++ rest)
        m' seen =
      (true, ts.foldl (restoreTag entryPc m) m',
        ts.foldl (fun seen t => seen ||| 2 ^ t.code) seen) := by
  induction ts generalizing m' seen with
  | nil => rfl
  | cons t ts ih =>
      have hTag : t.code < 2 ^ 32 := t.code_lt.trans (by decide)
      rw [List.flatMap_cons, List.append_assoc, List.length_cons, loadSections,
        readSection_bytes hTag (length_payload unset₁ unset₂ m t)]
      simp only [applySection, ofCode_code, applyTag_payload, if_pos t.code_lt]
      exact ih _ _

/-- A machine behind the load of all sections of another. -/
def restoreAll : Machine D := Tag.all.foldl (restoreTag entryPc m) m'

variable (key : Key)

theorem headerAccepted_save (rest : List Byte) :
    headerAccepted key (headerBytes key 14#32 ++ rest) = true := by
  have hLength : (headerBytes key 14#32).length = 36 := length_arrayBytes 4 _
  have hWord : ∀ i ∈ List.range 7, (arrayGet 4 (headerBytes key 14#32 ++ rest) i ==
      (headerKey key).getD i 0) = true := by
    intro i hi
    have hLt : i < (headerKey key).length := List.mem_range.mp hi
    rw [beq_iff_eq, List.getD_eq_getElem?_getD, List.getElem?_eq_getElem hLt]
    refine arrayGet_arrayBytes rest ?_
    rw [List.getElem?_append_left hLt, List.getElem?_eq_getElem hLt]
    rfl
  unfold headerAccepted
  rw [Bool.and_eq_true, decide_eq_true_eq]
  exact ⟨by rw [List.length_append]; omega, List.all_eq_true.mpr hWord⟩

/-- What a machine has saved is loaded into any other. -/
theorem bootStateLoad_save : bootStateLoad key (some (bootStateSave key unset₁ unset₂ m)) m' =
    (true, restoreAll key.entryPc m m') := by
  have hCount : arrayGet 4 (bootStateSave key unset₁ unset₂ m) 7 = 14#32 :=
    arrayGet_arrayBytes _ rfl
  have hDrop : (bootStateSave key unset₁ unset₂ m).drop 36 =
      (Tag.all.flatMap fun t => Section.bytes ⟨t.code, sectionPayload unset₁ unset₂ m t⟩) ++
          [] := by
    rw [List.append_nil]
    exact List.drop_left' (length_arrayBytes 4 _)
  have hLoop := loadSections_saved key.entryPc unset₁ unset₂ m m' Tag.all 0 []
  rw [← hDrop] at hLoop
  have hAccepted : headerAccepted key (bootStateSave key unset₁ unset₂ m) = true :=
    headerAccepted_save key _
  have hAll : (14#32).toNat = Tag.all.length := rfl
  unfold bootStateLoad
  simp only [hAccepted, if_true, hCount, hAll, hLoop]
  rfl

end Restore

abbrev Slot := Fin 12

/-- The staged requests, and the files behind the slots. -/
structure SaveHost where
  savePending : Option Slot
  loadPending : Option Slot
  files : Slot → Option (List Byte)

/-- How a poll ends: the guest goes on, it is dispatched anew, or the runtime stops
at a PC that cannot be. -/
inductive PollOutcome (D : Devices) where
  | continues (m : Machine D)
  | resumes (pc : Word) (m : Machine D)
  | crashes

def Machine.atPc (m : Machine D) (pc : Word) : Machine D :=
  { m with cpu := { m.cpu with pc := pc } }

/-- `savestate_poll`, with a file system that takes what is written. -/
@[grind =] def savestatePoll (key : Key) (unset₁ unset₂ : Bytes 2) (host : SaveHost) (m : Machine D)
    (resumePc : Word) : SaveHost × PollOutcome D :=
  let host :=
    match host.savePending with
    | none => host
    | some slot =>
        let snap := m.atPc resumePc
        { host with
          savePending := none
          files := Function.update host.files slot (some (bootStateSave key unset₁ unset₂ snap)) }
  match host.loadPending with
  | none => (host, .continues m)
  | some slot =>
      let host := { host with loadPending := none }
      match bootStateLoad key (host.files slot) m with
      | (true, m') =>
          (host, if Threads.isDispatchable m'.cpu.pc then .resumes m'.cpu.pc m' else .crashes)
      | (false, m') => (host, .continues m')

/-- The parts of the machine that a save state is to bring back, but for the PC. -/
structure SameState (m m' : Machine D) : Prop where
  gpr : m'.cpu.gpr = m.cpu.gpr
  hi : m'.cpu.hi = m.cpu.hi
  lo : m'.cpu.lo = m.cpu.lo
  cop0 : m'.cpu.cop0 = m.cpu.cop0
  gteData : m'.cpu.gteData = m.cpu.gteData
  gteCtrl : m'.cpu.gteCtrl = m.cpu.gteCtrl
  ram : m'.ram = m.ram
  scratchpad : m'.scratchpad = m.scratchpad
  iStat : m'.iStat = m.iStat
  iMask : m'.iMask = m.iMask
  timers : m'.timers = m.timers
  cycleCount : m'.cycleCount = m.cycleCount
  gpu : m'.gpu = m.gpu
  vram : m'.vram = m.vram
  spu : m'.spu = m.spu
  spuRam : m'.spuRam = m.spuRam

/-- The guest is dispatched anew at a PC with the state of a machine. -/
def ResumedAt (m : Machine D) (pc : Word) (outcome : PollOutcome D) : Prop :=
  ∃ m', outcome = .resumes pc m' ∧ SameState m m'

section Polls

variable {key : Key} {unset₁ unset₂ unset₃ unset₄ : Bytes 2} {host host' : SaveHost}
  {m m' : Machine D} {pc pc' : Word} {slot : Slot}

theorem savestatePoll_save (hSave : host.savePending = some slot) :
    (savestatePoll key unset₁ unset₂ host m pc).1.files slot =
      some (bootStateSave key unset₁ unset₂ (m.atPc pc)) := by
  unfold savestatePoll
  rw [hSave]
  dsimp only
  split
  · exact Function.update_self ..
  · split <;> exact Function.update_self ..

theorem savestatePoll_load (hLoad : host.loadPending = some slot)
    (hOther : host.savePending ≠ some slot)
    (hFile : host.files slot =
      some (bootStateSave key unset₁ unset₂ (m.atPc pc))) :
    (savestatePoll key unset₃ unset₄ host m' pc').2 =
      if Threads.isDispatchable key.entryPc then
        .resumes key.entryPc
          (restoreAll key.entryPc (m.atPc pc) m')
      else .crashes := by
  have hLoaded := bootStateLoad_save unset₁ unset₂ (m.atPc pc) m' key
  unfold savestatePoll
  cases hSave : host.savePending with
  | none =>
      dsimp only
      rw [hLoad]
      dsimp only
      rw [hFile, hLoaded]
      rfl
  | some other =>
      have hNe : slot ≠ other := fun h => hOther (by rw [hSave, h])
      dsimp only
      rw [hLoad]
      dsimp only
      rw [Function.update_of_ne hNe, hFile, hLoaded]
      rfl

theorem sameState_restoreAll (entryPc : Word) :
    SameState m (restoreAll entryPc (m.atPc pc) m') where
  gpr := rfl
  hi := rfl
  lo := rfl
  cop0 := rfl
  gteData := rfl
  gteCtrl := rfl
  ram := rfl
  scratchpad := rfl
  iStat := rfl
  iMask := rfl
  timers := rfl
  cycleCount := rfl
  gpu := rfl
  vram := rfl
  spu := rfl
  spuRam := rfl

/-- A save state brings the machine back and enters the game at its entry, so that
the guest goes on where it was exactly if that is where it was saved. -/
theorem savestate_resumes_iff (hSave : host.savePending = some slot)
    (hLoad : host'.loadPending = some slot) (hOther : host'.savePending ≠ some slot)
    (hFile : host'.files slot = (savestatePoll key unset₁ unset₂ host m pc).1.files slot) :
    (ResumedAt m pc (savestatePoll key unset₃ unset₄ host' m' pc').2 ↔
      pc = key.entryPc ∧ Threads.isDispatchable key.entryPc = true) ∧
    (Threads.isDispatchable key.entryPc = true →
      ResumedAt m key.entryPc (savestatePoll key unset₃ unset₄ host' m' pc').2) := by
  rw [savestatePoll_save hSave] at hFile
  have hOutcome : (savestatePoll key unset₃ unset₄ host' m' pc').2 = _ :=
    savestatePoll_load hLoad hOther hFile
  have hEntry : Threads.isDispatchable key.entryPc = true →
      ResumedAt m key.entryPc (savestatePoll key unset₃ unset₄ host' m' pc').2 := by
    intro hDispatchable
    rw [hOutcome, if_pos hDispatchable]
    exact ⟨_, rfl, sameState_restoreAll _⟩
  refine ⟨⟨?_, ?_⟩, hEntry⟩
  · rintro ⟨m'', hResumes, -⟩
    rw [hOutcome] at hResumes
    split at hResumes
    · rename_i hDispatchable
      exact ⟨(PollOutcome.resumes.inj hResumes).1.symm, hDispatchable⟩
    · exact absurd hResumes (by simp)
  · rintro ⟨rfl, hDispatchable⟩
    exact hEntry hDispatchable

end Polls

def noBytes : Bytes 2 := .ofList 2 []

/-- The host when a save is staged, and when it is loaded after the poll at `pc`. -/
def savingHost : SaveHost := ⟨some 0, none, fun _ => none⟩

@[grind =] def loadingHost (m : Machine D) (pc : Word) : SaveHost :=
  ⟨none, some 0, (savestatePoll gameKey noBytes noBytes savingHost m pc).1.files⟩

/-- A machine with something in its registers, its memory and its devices. -/
def runMachine : Machine byteDevices :=
  { Machine.zero byteDevices with
    cpu := ⟨fun r => r.setWidth 32, 0x80012340#32, 3, 5, fun _ => 1, fun _ => 2, fun _ => 4⟩
    ram := .ofList _ [0x08, 0x00, 0xE0, 0x03]
    iMask := 1
    cycleCount := 33868800
    spu := fun _ => .ofList _ [7]
    sio := fun _ => .ofList _ [1] }

/-- A game that is saved at its entry is resumed there, in a machine that had another state. -/
theorem savestate_at_entry :
    ¬SameState runMachine (Machine.zero byteDevices) ∧
    ResumedAt runMachine gameKey.entryPc
      (savestatePoll gameKey noBytes noBytes (loadingHost runMachine gameKey.entryPc)
        (Machine.zero byteDevices) 0).2 := by
  have hOther : ¬SameState runMachine (Machine.zero byteDevices) := by
    intro hSame
    have hMask := hSame.iMask
    unfold Machine.zero at hMask
    exact absurd hMask (by decide)
  have hFile : (loadingHost runMachine gameKey.entryPc).files 0 =
      (savestatePoll gameKey noBytes noBytes savingHost runMachine gameKey.entryPc).1.files 0 := rfl
  exact ⟨hOther,
    (savestate_resumes_iff rfl rfl (by simp [loadingHost]) hFile).1.mpr ⟨rfl, by decide⟩⟩

/-- A game that is saved elsewhere is not. -/
theorem savestate_mid_game : ¬ResumedAt (Machine.zero byteDevices) 0x80012340#32
    (savestatePoll gameKey noBytes noBytes (loadingHost (Machine.zero byteDevices) 0x80012340#32)
      (Machine.zero byteDevices) 0).2 := by
  have hSaved : (savestatePoll gameKey noBytes noBytes savingHost (Machine.zero byteDevices)
      0x80012340#32).1.files 0 =
      some (bootStateSave gameKey noBytes noBytes
          ((Machine.zero byteDevices).atPc 0x80012340#32)) :=
    savestatePoll_save rfl
  have hFile : (loadingHost (Machine.zero byteDevices) 0x80012340#32).files 0 =
      some (bootStateSave gameKey noBytes noBytes
          ((Machine.zero byteDevices).atPc 0x80012340#32)) :=
    hSaved
  rintro ⟨m, hResumes, -⟩
  rw [savestatePoll_load rfl (by simp [loadingHost]) hFile, if_pos (by decide)] at hResumes
  exact absurd (PollOutcome.resumes.inj hResumes).1 (by decide)

end RecompStudio.BootState
