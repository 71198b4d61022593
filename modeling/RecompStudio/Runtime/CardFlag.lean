import RecompStudio.Runtime.CardRoundTrip

/-!
The flag byte with which a card tells that it has just been inserted. The working
variables hold the flag of the card at work, and its slot gets it back when
SELECT ends.
-/

namespace RecompStudio.Runtime

open Machine

variable {σ : Type}

/-- The commands that a card answers with its flag. -/
@[grind =] def isCardCommand (b : Byte) : Prop := b = 0x52 ∨ b = 0x57 ∨ b = 0x53

instance (b : Byte) : Decidable (isCardCommand b) :=
  inferInstanceAs (Decidable (b = 0x52 ∨ b = 0x57 ∨ b = 0x53))

/-- The slot of the card that answers a command between two states of the bus, and
the flag that it answers with. -/
@[grind =] def flagReport (before after : Bus σ) : Option (Slot × Byte) :=
  if before.mc.state = .cmd ∧ after.mc.state = .id1 then some (after.mcSlot, after.rx) else none

/-- The reports of a run. -/
def flagReports (P : PadDevice σ) : Sio σ → List SioEvent → List (Slot × Byte)
  | _, [] => []
  | s, e :: rest =>
      (flagReport s.bus (sioStep P s e).bus).toList ++ flagReports P (sioStep P s e) rest

/-- The slots that have answered a command, behind one more answer. -/
def markSeen (seen : Slot → Bool) (k : Slot) : Slot → Bool := fun j => j == k || seen j

/-- Each slot reports a new card with its first answer and no more. -/
def ShownOnce : (Slot → Bool) → List (Slot × Byte) → Prop
  | _, [] => True
  | seen, (k, flag) :: rest =>
      flag = (if seen k then 0x00 else 0x08) ∧ ShownOnce (markSeen seen k) rest

/-- A step takes the bus from a card whose flag is not in its slot yet, and not
by the end of SELECT: a reset, or a byte that is not for a card behind the end
of its transaction. -/
def LosesFlag (s : Sio σ) (e : SioEvent) : Prop :=
  s.bus.active = .memcard ∧ s.bus.mc.flag ≠ (s.bus.slots s.bus.mcSlot).flag ∧
    match e with
    | .ctrl v => ctrlReset v = true
    | .iterate => s.shiftDone = true ∧ s.bus.mc.state = .idle ∧ s.shiftByte ≠ 0x81
    | _ => False

instance (s : Sio σ) : (e : SioEvent) → Decidable (LosesFlag s e)
  | .ctrl v => inferInstanceAs (Decidable (_ ∧ _ ∧ ctrlReset v = true))
  | .iterate => inferInstanceAs (Decidable (_ ∧ _ ∧ _ ∧ _ ∧ _))
  | .tx _ | .mode _ | .baud _ | .readRx | .readStat | .advance _ =>
      inferInstanceAs (Decidable (_ ∧ _ ∧ False))

/-- The flag that the card in a slot would report next. -/
@[grind =] def Bus.shownFlag (s : Bus σ) (k : Slot) : Byte :=
  if s.active = .memcard ∧ s.mcSlot = k then s.mc.flag else (s.slots k).flag

/-- The flags of the cards, with the slots that have answered a command. -/
structure FlagsKept (seen : Slot → Bool) (s : Bus σ) : Prop extends Parked s where
  slot : s.active = .memcard → s.mcSlot = s.selectedSlot
  answered : s.mc.state ≠ .idle → s.mc.state ≠ .cmd → s.mc.flag = 0x00
  shown : ∀ k, s.shownFlag k = if seen k then 0x00 else 0x08

section Bytes

variable {P : PadDevice σ} {s : Bus σ} {seen : Slot → Bool} {k : Slot} {b : Byte}

/-- A byte to a card clears its flag with the answer to a command, and with the
end of a write. -/
theorem mcProcessByte_flag (s : Bus σ) (b : Byte) :
    (s.mcProcessByte b).1.mc.flag =
      if s.mc.state = .cmd ∧ isCardCommand b ∨ s.mc.state = .writeEnd then 0x00 else s.mc.flag := by
  unfold Bus.mcProcessByte isCardCommand
  cases hState : s.mc.state with
  | idle =>
      dsimp only
      split <;> simp [Bus.answer]
  | cmd =>
      dsimp only
      split <;> simp_all [Bus.answer]
  | addrLsb =>
      dsimp only [Bus.address]
      split <;> simp [Bus.answer]
  | writeChk =>
      dsimp only [Bus.commit]
      split
      · simp [Bus.answer]
      · split <;> simp [Bus.answer]
  | _ => simp [Bus.answer, Bus.buffer]

/-- The state behind a byte: a command is answered with the flag, and nothing
else comes to a command or its answer. -/
theorem mcProcessByte_state (s : Bus σ) (b : Byte) :
    ((s.mcProcessByte b).1.mc.state = .id1 ↔ s.mc.state = .cmd ∧ isCardCommand b) ∧
      ((s.mcProcessByte b).1.mc.state = .id1 → (s.mcProcessByte b).1.rx = s.mc.flag) ∧
      (s.mc.state = .idle → (s.mcProcessByte b).1.mc.state = .idle ∨
        (s.mcProcessByte b).1.mc.state = .cmd) ∧
      (s.mc.state = .cmd → ¬ isCardCommand b → (s.mcProcessByte b).1.mc.state = .idle) := by
  unfold Bus.mcProcessByte isCardCommand
  cases hState : s.mc.state with
  | idle =>
      dsimp only
      split <;> simp_all [Bus.answer]
  | cmd =>
      dsimp only
      split <;> simp_all [Bus.answer]
  | id2 =>
      dsimp only
      split <;> simp [Bus.answer]
  | addrLsb =>
      dsimp only [Bus.address]
      split <;> simp [Bus.answer]
  | readData =>
      dsimp only
      split <;> simp [Bus.answer]
  | writeData =>
      dsimp only
      split <;> simp [Bus.answer]
  | writeChk =>
      dsimp only [Bus.commit]
      split
      · simp [Bus.answer]
      · split <;> simp [Bus.answer]
  | _ => simp [Bus.answer, Bus.buffer]

theorem shownFlag_of_inactive (hOff : s.active ≠ .memcard) : s.shownFlag k = (s.slots k).flag :=
  if_neg fun h => hOff h.1

/-- The flags behind a step, with the slots that have answered by then. -/
structure Reported (seen : Slot → Bool) (before after : Bus σ) : Prop where
  kept : FlagsKept ((flagReport before after).elim seen fun r => markSeen seen r.1) after
  right : ∀ r, flagReport before after = some r → r.2 = if seen r.1 then 0x00 else 0x08

/-- No command is answered, and every card would report what it would before. -/
theorem Reported.silent {t : Bus σ} (hNone : flagReport s t = none) (hParked : Parked t)
    (hSlot : t.active = .memcard → t.mcSlot = t.selectedSlot)
    (hAnswered : t.mc.state ≠ .idle → t.mc.state ≠ .cmd → t.mc.flag = 0x00)
    (hShown : ∀ k, t.shownFlag k = if seen k then 0x00 else 0x08) : Reported seen s t := by
  refine ⟨?_, fun r hSome => ?_⟩
  · rw [hNone]
    exact ⟨hParked, hSlot, hAnswered, hShown⟩
  · rw [hNone] at hSome
    exact absurd hSome (by simp)

/-- A byte to a card that the bus holds, its first one or one of a transaction. -/
theorem toCard_reported (h : FlagsKept seen s) (hActive : s.active = .memcard) :
    Reported seen s (s.toCard b).1 := by
  obtain ⟨hSlots, hSame, hSelected, -, hKeeps, -⟩ := mcProcessByte_frame s b
  obtain ⟨hId1, hRx, hIdle, hCmd⟩ := mcProcessByte_state s b
  have hFlag := mcProcessByte_flag s b
  have hParked : Parked (s.toCard b).1 := toCard_parked h.saved hActive b
  have hSlot : (s.mcProcessByte b).1.mcSlot = s.mcSlot := by
    by_cases hBusy : s.mc.state = .idle
    · have hTaken : (s.mcProcessByte b).1.mcSlot = s.selectedSlot := by
        unfold Bus.mcProcessByte
        rw [hBusy]
        dsimp only
        split <;> rfl
      exact hTaken.trans (h.slot hActive).symm
    · exact hKeeps hBusy
  have hShown : s.mc.flag = if seen s.mcSlot then 0x00 else 0x08 := by
    have hOwn := h.shown s.mcSlot
    rwa [Bus.shownFlag, if_pos ⟨hActive, rfl⟩] at hOwn
  change Reported seen s (s.mcProcessByte b).1
  change Parked (s.mcProcessByte b).1 at hParked
  generalize (s.mcProcessByte b).1 = t at *
  have hActive' : t.active = .memcard := hSame.trans hActive
  have hOther (k : Slot) (hNe : s.mcSlot ≠ k) :
      t.shownFlag k = if seen k then 0x00 else 0x08 := by
    rw [← h.shown k, Bus.shownFlag, Bus.shownFlag, if_neg fun hk => hNe (hSlot.symm.trans hk.2),
      if_neg fun hk => hNe hk.2, hSlots]
  by_cases hAnswer : s.mc.state = .cmd ∧ isCardCommand b
  · have hReport : flagReport s t = some (s.mcSlot, s.mc.flag) := by
      rw [flagReport, if_pos ⟨hAnswer.1, hId1.mpr hAnswer⟩, hSlot, hRx (hId1.mpr hAnswer)]
    have hCleared : t.mc.flag = 0x00 := by rw [hFlag, if_pos (.inl hAnswer)]
    refine ⟨?_, fun r hSome => ?_⟩
    · rw [hReport]
      refine ⟨hParked, fun _ => ?_, fun _ _ => hCleared, fun k => ?_⟩
      · rw [hSlot, hSelected]
        exact h.slot hActive
      · by_cases hk : s.mcSlot = k
        · subst hk
          rw [Bus.shownFlag, if_pos ⟨hActive', hSlot⟩, hCleared]
          simp [markSeen]
        · rw [hOther k hk]
          have hNe : (k == s.mcSlot) = false := beq_false_of_ne (Ne.symm hk)
          simp [markSeen, hNe]
    · rw [hReport] at hSome
      obtain rfl := Option.some.inj hSome
      exact hShown
  · have hNone : flagReport s t = none := if_neg fun hBoth => hAnswer (hId1.mp hBoth.2)
    have hSameFlag : t.mc.flag = s.mc.flag := by
      rw [hFlag]
      split
      · rename_i hWhich
        rcases hWhich with hBoth | hEnd
        · exact absurd hBoth hAnswer
        · exact (h.answered (by rw [hEnd]; decide) (by rw [hEnd]; decide)).symm
      · rfl
    refine .silent hNone hParked (fun _ => ?_) (fun hBusy hPast => ?_) fun k => ?_
    · rw [hSlot, hSelected]
      exact h.slot hActive
    · rw [hSameFlag]
      refine h.answered (fun hWas => ?_) fun hWas => ?_
      · exact (hIdle hWas).elim hBusy hPast
      · exact hBusy (hCmd hWas fun hCommand => hAnswer ⟨hWas, hCommand⟩)
    · by_cases hk : s.mcSlot = k
      · subst hk
        rw [Bus.shownFlag, if_pos ⟨hActive', hSlot⟩, hSameFlag, hShown]
      · exact hOther k hk

theorem flagReport_none {t : Bus σ} (hState : s.mc.state ≠ .cmd) : flagReport s t = none :=
  if_neg fun h => hState h.1

/-- Only a state that waits for a command matters to a report. -/
theorem Reported.before {t u : Bus σ} (h : Reported seen u t) (hU : u.mc.state ≠ .cmd)
    (hS : s.mc.state ≠ .cmd) : Reported seen s t := by
  obtain ⟨hKept, -⟩ := h
  rw [flagReport_none hU] at hKept
  exact .silent (flagReport_none hS) hKept.toParked hKept.slot hKept.answered hKept.shown

theorem Reported.congr {t u : Bus σ} (h : Reported seen u t) (hState : u.mc.state = s.mc.state) :
    Reported seen s t := by
  have hSame : flagReport s t = flagReport u t := by rw [flagReport, flagReport, hState]
  exact ⟨hSame ▸ h.kept, hSame ▸ h.right⟩

/-- Nobody holds the bus any more, and the slots have the flags. -/
theorem Reported.free {t : Bus σ} (h : FlagsKept seen s) (hState : s.mc.state ≠ .cmd)
    (hParked : Parked t) (hOff : t.active ≠ .memcard)
    (hFlags : ∀ k, (t.slots k).flag = s.shownFlag k) : Reported seen s t := by
  refine .silent (flagReport_none hState) hParked (fun hOn => absurd hOn hOff) ?_ fun k => ?_
  · exact fun hBusy => absurd (hParked.idle hOff) hBusy
  · rw [shownFlag_of_inactive hOff, hFlags, h.shown]

theorem select_reported (P : PadDevice σ) (h : FlagsKept seen s) (hNone : s.active = .none) :
    Reported seen s (s.select P k b).1 := by
  have hOff : s.active ≠ .memcard := by rw [hNone]; decide
  have hIdle : s.mc.state = .idle := h.idle hOff
  have hBefore : s.mc.state ≠ .cmd := by rw [hIdle]; decide
  have hFlags (j : Slot) : (s.slots j).flag = s.shownFlag j := (shownFlag_of_inactive hOff).symm
  unfold Bus.select
  dsimp only
  split
  · rw [if_neg (not_not_intro hIdle)]
    exact .free h hBefore (.ofIdle h.saved hIdle) (fun hOn => ActiveDevice.noConfusion hOn) hFlags
  · split
    · refine Reported.before (toCard_reported ⟨⟨h.saved, fun _ => rfl⟩, fun _ => rfl, ?_, ?_⟩ rfl)
        (fun hCmd => McState.noConfusion hCmd) hBefore
      · exact fun hBusy => absurd rfl hBusy
      · intro j
        rw [← h.shown j, ← hFlags]
        unfold Bus.shownFlag Bus.loadSlot
        dsimp only
        split
        · rename_i hj
          rw [hj.2]
        · rfl
    · split
      · rename_i hBusy
        exact absurd (h.saved k) hBusy.1
      · refine .free h hBefore (.ofIdle h.saved rfl) ?_ hFlags
        intro hOn
        exact ActiveDevice.noConfusion (hNone.symm.trans hOn)

/-- A byte, unless it takes the bus from a card whose flag is not in its slot. -/
theorem processByte_reported (P : PadDevice σ) (h : FlagsKept seen s)
    (hKeeps : s.active = .memcard → s.mc.state = .idle → b ≠ 0x81 →
      s.mc.flag = (s.slots s.mcSlot).flag) : Reported seen s (s.processByte P k b).1 := by
  have hTaken : FlagsKept seen { s with taken := s.taken ++ [(k, b)] } :=
    ⟨⟨h.saved, h.idle⟩, h.slot, h.answered, h.shown⟩
  unfold Bus.processByte
  dsimp only
  cases hActive : s.active with
  | none =>
      have hSelect : Reported seen _ (Bus.select P _ k b).1 := select_reported P hTaken hActive
      rw [hActive] at hSelect
      exact hSelect.congr rfl
  | pad =>
      have hOff : s.active ≠ .memcard := by rw [hActive]; decide
      have hIdle : s.mc.state = .idle := h.idle hOff
      refine .free h (by rw [hIdle]; decide) (.ofIdle h.saved hIdle) ?_ ?_
      · exact fun hOn => ActiveDevice.noConfusion hOn
      · exact fun j => (shownFlag_of_inactive hOff).symm
  | memcard =>
      dsimp only
      split
      · rename_i hOver
        obtain ⟨hIdle, hOther⟩ := hOver
        have hSaved (j : Slot) : (s.slots j).flag = s.shownFlag j := by
          unfold Bus.shownFlag
          split
          · rename_i hj
            rw [← hj.2, hKeeps hActive hIdle hOther]
          · rfl
        have hBefore : s.mc.state ≠ .cmd := by rw [hIdle]; decide
        split
        · exact .free h hBefore (.ofIdle h.saved hIdle)
            (fun hOn => ActiveDevice.noConfusion hOn) hSaved
        · exact .free h hBefore (.ofIdle h.saved hIdle)
            (fun hOn => ActiveDevice.noConfusion hOn) hSaved
      · have hHeld := toCard_reported (b := b) hTaken hActive
        rw [hActive] at hHeld
        exact hHeld.congr rfl

theorem FlagsKept.reset (P : PadDevice σ) (h : FlagsKept seen s)
    (hKeeps : s.active = .memcard → s.mc.flag = (s.slots s.mcSlot).flag) :
    FlagsKept seen (s.reset P) := by
  refine ⟨⟨fun _ => rfl, fun _ => rfl⟩, fun hOn => ActiveDevice.noConfusion hOn,
    fun hBusy => absurd rfl hBusy, fun k => ?_⟩
  rw [← h.shown k, shownFlag_of_inactive fun hOn => ActiveDevice.noConfusion hOn]
  unfold Bus.shownFlag
  split
  · rename_i hk
    rw [← hk.2, hKeeps hk.1]
    rfl
  · rfl

/-- The end of SELECT writes the flag of the card at work back. -/
theorem FlagsKept.deselect (P : PadDevice σ) (h : FlagsKept seen s) :
    FlagsKept seen (s.deselect P) := by
  refine ⟨⟨fun _ => rfl, fun _ => rfl⟩, fun hOn => ActiveDevice.noConfusion hOn,
    fun hBusy => absurd rfl hBusy, fun k => ?_⟩
  rw [← h.shown k, shownFlag_of_inactive fun hOn => ActiveDevice.noConfusion hOn]
  unfold Bus.shownFlag Bus.deselect
  dsimp only
  by_cases hk : s.active = .memcard ∧ s.mcSlot = k
  · rw [if_pos hk, if_pos ⟨hk.1, hk.2.symm⟩]
  · rw [if_neg hk, if_neg fun hBoth => hk ⟨hBoth.1, hBoth.2.symm⟩]

theorem FlagsKept.control (P : PadDevice σ) (h : FlagsKept seen s) {old v : BitVec 16}
    (hKeeps : ctrlReset v = true → s.active = .memcard → s.mc.flag = (s.slots s.mcSlot).flag) :
    FlagsKept seen (s.control P old v) := by
  have hReset : FlagsKept seen (if ctrlReset v then s.reset P else s) := by
    split
    · rename_i hOn
      exact h.reset P (hKeeps hOn)
    · exact h
  unfold Bus.control
  dsimp only
  split
  · exact hReset.deselect P
  · exact hReset

/-- A state that a step leaves alone, or with no card at work, reports nothing. -/
theorem FlagsKept.reported {t : Bus σ} (h : FlagsKept seen t)
    (hQuiet : t = s ∨ t.mc.state = .idle) : Reported seen s t := by
  refine .silent (if_neg fun hBoth => ?_) h.toParked h.slot h.answered h.shown
  rcases hQuiet with rfl | hIdle
  · exact McState.noConfusion (hBoth.1.symm.trans hBoth.2)
  · exact McState.noConfusion (hIdle.symm.trans hBoth.2)

end Bytes

theorem sioStep_reported {P : PadDevice σ} {s : Sio σ} {seen : Slot → Bool}
    (h : FlagsKept seen s.bus) {e : SioEvent} (hKeeps : ¬ LosesFlag s e) :
    Reported seen s.bus (sioStep P s e).bus := by
  rcases sioStep_bus (P := P) (s := s) e with hSame | ⟨b, hByte, hWhen⟩ | ⟨v, rfl, hControl⟩
  · rw [hSame]
    exact h.reported (.inl rfl)
  · rw [hByte]
    refine processByte_reported P h fun hActive hIdle hOther => ?_
    rcases hWhen with hOff | ⟨rfl, hDone, rfl⟩
    · exact absurd hActive hOff
    · by_contra hFlag
      exact hKeeps ⟨hActive, hFlag, hDone, hIdle, hOther⟩
  · rw [hControl]
    have hKept : FlagsKept seen (s.bus.control P s.ctrl v) := by
      refine h.control P fun hReset hActive => ?_
      by_contra hFlag
      exact hKeeps ⟨hActive, hFlag, hReset⟩
    refine hKept.reported ?_
    exact (control_released (P := P) s.bus s.ctrl v).imp_right Released.idle

/-- Along a run each report is right for the slots that have answered before. -/
theorem flagReports_shown {P : PadDevice σ} (es : List SioEvent) :
    ∀ {s : Sio σ} {seen : Slot → Bool}, FlagsKept seen s.bus →
      RunOk (sioStep P) (fun s e => ¬ LosesFlag s e) s es →
          ShownOnce seen (flagReports P s es) := by
  induction es with
  | nil => intro s seen _ _; trivial
  | cons e rest ih =>
      intro s seen h hOk
      obtain ⟨hKept, hRight⟩ := sioStep_reported (P := P) h hOk.1
      unfold flagReports
      cases hReport : flagReport s.bus (sioStep P s e).bus with
      | none =>
          rw [hReport] at hKept
          exact ih hKept hOk.2
      | some r =>
          rw [hReport] at hKept
          exact ⟨hRight r hReport, ih hKept hOk.2⟩

theorem initial_flagsKept (cards : Slot → Card) (pad : σ) :
    FlagsKept (fun _ => false) (Sio.initial cards pad).bus :=
  ⟨⟨fun _ => rfl, fun _ => rfl⟩, fun hOn => ActiveDevice.noConfusion hOn,
    fun hBusy => absurd rfl hBusy, fun _ => rfl⟩

/-- In a run from `sio_init` in which every card that is at work gives the bus up
with the end of SELECT, each slot reports a new card with the first command that
it answers and an old one from then on, whatever the other slot does. -/
theorem flags_shown_once (P : PadDevice σ) (cards : Slot → Card) (pad : σ) (es : List SioEvent)
    (hKept : RunOk (sioStep P) (fun s e => ¬ LosesFlag s e) (.initial cards pad) es) :
    ShownOnce (fun _ => false) (flagReports P (.initial cards pad) es) :=
  flagReports_shown es (initial_flagsKept cards pad) hKept

/-- A command to each of the slots and one more to the first, with a deselect
behind each. -/
def threeCommands : List SioEvent :=
  [.ctrl 0x1003] ++ spaced [0x81, 0x52] ++ [.ctrl 0x0000, .ctrl 0x3003] ++ spaced [0x81, 0x53] ++
    [.ctrl 0x0000, .ctrl 0x1003] ++ spaced [0x81, 0x52]

theorem flags_shown_once_three :
    flagReports noPads blankPort threeCommands = [(false, 0x08), (true, 0x08), (false, 0x00)] ∧
      ShownOnce (fun _ => false) (flagReports noPads blankPort threeCommands) :=
  ⟨by decide, flags_shown_once noPads (fun _ => blankCard) () threeCommands
    (by decide)⟩

/-- The same command twice, with a reset of the port in between. -/
def resetBetween : List SioEvent :=
  [.ctrl 0x1003] ++ spaced [0x81, 0x52] ++ [.ctrl 0x0040, .ctrl 0x1003] ++ spaced [0x81, 0x52]

/-- Behind a reset the card is a new one again. -/
theorem resetBetween_shown_twice :
    ¬ ShownOnce (fun _ => false) (flagReports noPads blankPort resetBetween) := by
  have hReports : flagReports noPads blankPort resetBetween = [(false, 0x08), (false, 0x08)] := by
    decide
  rw [hReports]
  rintro ⟨-, hSecond, -⟩
  exact absurd hSecond (by decide)

end RecompStudio.Runtime
