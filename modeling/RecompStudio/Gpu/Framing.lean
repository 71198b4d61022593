import RecompStudio.Gpu.Gp0
import RecompStudio.Library.PrefixCode

/-!
The framing of the command stream: what a command is, in terms of the words
alone, and that the parser cuts every stream into commands and does each of them
once, at its last word.
-/

namespace RecompStudio.Gpu

open PrefixCode

/-- The ways that commands end. -/
inductive Frame where
  | unknown
  | fixed (count : Nat)
  | transfer
  | polylineMono
  | polylineShaded
deriving DecidableEq, Repr

def frameOf (op : Opcode) : Frame :=
  let count := commandWordCount op
  if count = 0 then .unknown
  else if count < 0 then (if op &&& 0x10#8 ≠ 0 then .polylineShaded else .polylineMono)
  else if 0xA0 ≤ op.toNat ∧ op.toNat ≤ 0xBF then .transfer
  else .fixed count.toNat

/-- The words of data behind the header of a transfer. -/
@[grind =]
def transferWords (dims : Word) : Nat := (transferWidth dims * transferHeight dims + 1) / 2

/-- The words behind the first end its command: there are as many as the table
says, as many as the pixels take, or the last of them ends a polyline where a
vertex (mono) or a color (shaded) is due. -/
def Ends (h : Word) (t : List Word) : Prop :=
  match frameOf (opcode h) with
  | .unknown => False
  | .fixed count => t.length + 1 = count
  | .transfer => ∃ dest dims data, t = dest :: dims :: data ∧ data.length = transferWords dims
  | .polylineMono => ∃ w, t.getLast? = some w ∧ isTerminator w = true
  | .polylineShaded => t.length % 2 = 0 ∧ ∃ w, t.getLast? = some w ∧ isTerminator w = true

theorem ends_fixed {h : Word} {t : List Word} {n : Nat} (hFrame : frameOf (opcode h) = .fixed n) :
    Ends h t ↔ t.length + 1 = n := by
  unfold Ends
  rw [hFrame]

/-- The words of one command. -/
def IsCommand : List Word → Prop
  | [] => False
  | h :: t => First (Ends h) t

theorem isCommand_prefixFree : PrefixFree IsCommand where
  eq_of_prefix {a b} ha hb hPrefix := by
    cases a with
    | nil => exact ha.elim
    | cons h t =>
        cases b with
        | nil => exact hb.elim
        | cons h' t' =>
            obtain ⟨rfl, hTail⟩ := List.cons_prefix_cons.mp hPrefix
            rw [hb.2 t hTail ha.1]
  not_nil := id

/-- Words that have not come to the end of their command. -/
def Unended (h : Word) (t : List Word) : Prop := ∀ t', t' <+: t → ¬Ends h t'

theorem Unended.stuck {h : Word} {t : List Word} (hUnended : Unended h t) :
    ∀ c, IsCommand c → ¬c <+: h :: t := by
  intro c hCommand hPrefix
  cases c with
  | nil => exact hCommand
  | cons h' t' =>
      obtain ⟨rfl, hTail⟩ := List.cons_prefix_cons.mp hPrefix
      exact hUnended t' hTail hCommand.1

theorem Unended.snoc {h w : Word} {t : List Word} (hUnended : Unended h t)
    (hEnds : ¬Ends h (t ++ [w])) : Unended h (t ++ [w]) := by
  intro t' hPrefix
  rcases List.prefix_concat_iff.mp hPrefix with rfl | hPrefix
  · exact hEnds
  · exact hUnended t' hPrefix

theorem Unended.isCommand {h w : Word} {t : List Word} (hUnended : Unended h t)
    (hEnds : Ends h (t ++ [w])) : IsCommand (h :: t ++ [w]) := by
  refine ⟨hEnds, fun t' hPrefix hEnds' => ?_⟩
  rcases List.prefix_concat_iff.mp hPrefix with rfl | hPrefix
  · rfl
  · exact absurd hEnds' (hUnended t' hPrefix)

/-- What the two tables say of an opcode. -/
@[grind =] def tablesAgree (op : Opcode) : Bool :=
  match frameOf op with
  | .unknown => commandWordCount op == 0
  | .fixed n =>
      decide (1 ≤ n) && decide (n ≤ 12) && commandWordCount op == n &&
        (op == 0x1F#8 || (commandExec op).any (· != .cpuToVram))
  | .transfer => commandWordCount op == 3 && commandExec op == some .cpuToVram
  | .polylineMono =>
      decide (commandWordCount op < 0) && op &&& 0x10#8 == 0 && commandExec op == none
  | .polylineShaded =>
      decide (commandWordCount op < 0) && op &&& 0x10#8 != 0 && commandExec op == none

/-- The ranges that meet the opcodes with a high digit. -/
def meeting {α : Type} (table : List (Nat × Nat × α)) (high : Nat) : List (Nat × Nat × α) :=
  table.filter fun r => Nat.ble r.1 (16 * high + 15) && Nat.ble (16 * high) r.2.1

def lookupIn {α : Type} (table : List (Nat × Nat × α)) (n : Nat) : Option α :=
  (table.find? fun r => Nat.ble r.1 n && Nat.ble n r.2.1).map fun r => r.2.2

theorem lookupRange_eq {α : Type} (table : List (Nat × Nat × α)) (op : Opcode) :
    lookupRange table op = lookupIn (meeting table (op.toNat / 16)) op.toNat := by
  rw [lookupRange, lookupIn, meeting, List.find?_filter]
  congr 2
  funext r
  rw [Bool.eq_iff_iff]
  simp only [Bool.and_eq_true, decide_eq_true_eq, Nat.ble_eq]
  omega

/-- The entries of the two tables for an opcode. -/
def entriesAgree (count : Int) (exec : Option Gp0Exec) (n : Nat) : Bool :=
  match count with
  | .negSucc _ => exec == none
  | .ofNat 0 => true
  | .ofNat (m + 1) =>
      if Nat.ble 0xA0 n && Nat.ble n 0xBF then Nat.beq m 2 && exec == some .cpuToVram
      else Nat.ble m 11 && (Nat.beq n 0x1F || exec.any (· != .cpuToVram))

theorem entries_agree (op : Opcode) :
    entriesAgree (commandWordCount op) (commandExec op) op.toNat = true := by
  have hAll : ∀ high ∈ List.range 16, ∀ low ∈ List.range 16,
      entriesAgree ((lookupIn (meeting wordCounts high) (16 * high + low)).getD 0)
        (lookupIn (meeting execs high) (16 * high + low)) (16 * high + low) = true := by
    decide
  have hOp := op.isLt
  have hHere := hAll (op.toNat / 16) (List.mem_range.mpr (by omega)) (op.toNat % 16)
    (List.mem_range.mpr (by omega))
  rwa [Nat.div_add_mod, ← lookupRange_eq, ← lookupRange_eq] at hHere

theorem tables_agree (op : Opcode) : tablesAgree op = true := by
  have h := entries_agree op
  unfold tablesAgree frameOf
  generalize commandWordCount op = count at h ⊢
  cases count with
  | negSucc k =>
      have hNone : commandExec op = none := by simpa [entriesAgree] using h
      rw [if_neg (by simp), if_pos (Int.negSucc_lt_zero k), hNone]
      by_cases hShaded : op &&& 0x10#8 ≠ 0
      · rw [if_pos hShaded]
        simpa [Int.negSucc_lt_zero] using hShaded
      · rw [if_neg hShaded]
        simpa [Int.negSucc_lt_zero] using hShaded
  | ofNat m =>
      cases m with
      | zero => simp
      | succ m =>
          rw [if_neg (by simp only [Int.ofNat_eq_natCast]; omega),
            if_neg (by simp only [Int.ofNat_eq_natCast]; omega)]
          simp only [entriesAgree] at h
          by_cases hTransfer : 0xA0 ≤ op.toNat ∧ op.toNat ≤ 0xBF
          · rw [if_pos hTransfer]
            rw [if_pos (by simpa using hTransfer)] at h
            obtain ⟨hCount, hExec⟩ := Bool.and_eq_true_iff.mp h
            obtain rfl : m = 2 := Nat.eq_of_beq_eq_true hCount
            simpa using hExec
          · rw [if_neg hTransfer]
            rw [if_neg (by simpa using hTransfer)] at h
            have hIrq : Nat.beq op.toNat 0x1F = (op == 0x1F#8) := by
              rw [Bool.eq_iff_iff, beq_iff_eq, Nat.beq_eq]
              exact ⟨fun hEq => BitVec.eq_of_toNat_eq hEq, fun hEq => by rw [hEq]; rfl⟩
            rw [hIrq] at h
            obtain ⟨hCount, hExec⟩ := Bool.and_eq_true_iff.mp h
            have hToNat : (Int.ofNat (m + 1)).toNat = m + 1 := rfl
            have hLe : m + 1 ≤ 12 := Nat.succ_le_succ (Nat.le_of_ble_eq_true hCount)
            rw [hToNat]
            simp only [hExec, Bool.and_true, decide_eq_true hLe, Int.ofNat_eq_natCast,
              decide_eq_true (Nat.succ_le_succ (Nat.zero_le m) : 1 ≤ m + 1), beq_self_eq_true]

/-- What the tables say of an opcode, by the way its command ends. -/
def TablesOf (op : Opcode) : Frame → Prop
  | .unknown => commandWordCount op = 0
  | .fixed n => (1 ≤ n ∧ n ≤ 12 ∧ commandWordCount op = n) ∧
      (op ≠ 0x1F#8 → ∃ exec, commandExec op = some exec ∧ exec ≠ .cpuToVram)
  | .transfer => commandWordCount op = 3 ∧ commandExec op = some .cpuToVram
  | .polylineMono => commandWordCount op < 0 ∧ op &&& 0x10#8 = 0 ∧ commandExec op = none
  | .polylineShaded => commandWordCount op < 0 ∧ op &&& 0x10#8 ≠ 0 ∧ commandExec op = none

theorem tablesOf_frameOf (op : Opcode) : TablesOf op (frameOf op) := by
  have h := tables_agree op
  unfold tablesAgree at h
  cases hFrame : frameOf op with
  | unknown =>
      rw [hFrame] at h
      exact beq_iff_eq.mp h
  | fixed n =>
      rw [hFrame] at h
      simp only [Bool.and_eq_true, Bool.or_eq_true, decide_eq_true_eq, beq_iff_eq] at h
      refine ⟨⟨h.1.1.1, h.1.1.2, h.1.2⟩, fun hIrq => ?_⟩
      have hAny := h.2.resolve_left hIrq
      cases hExec : commandExec op with
      | none => rw [hExec] at hAny; exact absurd hAny (by simp)
      | some exec => rw [hExec] at hAny; exact ⟨exec, rfl, bne_iff_ne.mp hAny⟩
  | transfer =>
      rw [hFrame] at h
      simpa [TablesOf] using h
  | polylineMono =>
      rw [hFrame] at h
      simpa [TablesOf, and_assoc] using h
  | polylineShaded =>
      rw [hFrame] at h
      simpa [TablesOf, and_assoc] using h

section Tables

variable {op : Opcode} {n : Nat}

theorem count_of_unknown (hFrame : frameOf op = .unknown) : commandWordCount op = 0 := by
  have h := tablesOf_frameOf op
  rw [hFrame] at h
  exact h

theorem count_of_fixed (hFrame : frameOf op = .fixed n) :
    1 ≤ n ∧ n ≤ 12 ∧ commandWordCount op = n := by
  have h := tablesOf_frameOf op
  rw [hFrame] at h
  exact h.1

theorem exec_of_fixed (hFrame : frameOf op = .fixed n) (hIrq : op ≠ 0x1F#8) :
    ∃ exec, commandExec op = some exec ∧ exec ≠ .cpuToVram := by
  have h := tablesOf_frameOf op
  rw [hFrame] at h
  exact h.2 hIrq

theorem tables_of_transfer (hFrame : frameOf op = .transfer) :
    commandWordCount op = 3 ∧ commandExec op = some .cpuToVram := by
  have h := tablesOf_frameOf op
  rw [hFrame] at h
  exact h

theorem tables_of_mono (hFrame : frameOf op = .polylineMono) :
    commandWordCount op < 0 ∧ op &&& 0x10#8 = 0 ∧ commandExec op = none := by
  have h := tablesOf_frameOf op
  rw [hFrame] at h
  exact h

theorem tables_of_shaded (hFrame : frameOf op = .polylineShaded) :
    commandWordCount op < 0 ∧ op &&& 0x10#8 ≠ 0 ∧ commandExec op = none := by
  have h := tablesOf_frameOf op
  rw [hFrame] at h
  exact h

theorem frameOf_irq : frameOf 0x1F#8 = .fixed 1 := by decide

theorem exec_irq : commandExec 0x1F#8 = none := by decide

end Tables

@[grind =] def DrawEnv.vertex (env : DrawEnv) (w : Word) : Point := (parseVertex w).add env.offset

/-- A transfer with its cursor at a pixel. -/
@[grind =] def transferAt (dest dims : Word) (pixel remaining : Nat) : VramWrite where
  x := (dest &&& 0x3FF#32).toNat
  y := ((dest >>> 16) &&& 0x1FF#32).toNat
  w := transferWidth dims
  h := transferHeight dims
  col := pixel % transferWidth dims
  row := pixel / transferWidth dims
  remaining := remaining

def execActions (h : Word) (command : List Word) : List Action :=
  (commandExec (opcode h)).toList.map fun exec => .execute exec command

/-- The pixels of a word of data; behind the last of them the transfer is done. -/
def transferActions (env : DrawEnv) (dest dims : Word) (k : Nat) (w : Word) : List Action :=
  let total := transferWidth dims * transferHeight dims
  env.pixel (transferAt dest dims (2 * k) 0) (w.extractLsb' 0 16) ::
    ((if 2 * k + 1 < total then
        [env.pixel (transferAt dest dims (2 * k + 1) 0) (w.extractLsb' 16 16)] else []) ++
      if k + 1 = transferWords dims then
        [.commit (transferAt dest dims 0 0).x (transferAt dest dims 0 0).y
          (transferWidth dims) (transferHeight dims)]
      else [])

/-- What is done at a word, by the words of its command up to it. -/
@[grind =] def wordActions (env : DrawEnv) : List Word → Word → List Action
  | [], w =>
      match frameOf (opcode w) with
      | .fixed 1 => execActions w [w]
      | .polylineMono | .polylineShaded => [.startPolyline (w.getLsbD 25)]
      | _ => []
  | h :: t, w =>
      match frameOf (opcode h) with
      | .unknown => []
      | .fixed n => if t.length + 2 = n then execActions h (h :: t ++ [w]) else []
      | .transfer =>
          match t with
          | [] => []
          | [dest] => execActions h [h, dest, w]
          | dest :: dims :: data => transferActions env dest dims data.length w
      | .polylineMono =>
          match t.getLast? with
          | none => []
          | some v => if isTerminator w then []
              else [.line (env.vertex v) (env.vertex w) (rgb555 h)]
      | .polylineShaded =>
          match t.reverse with
          | c :: v :: before =>
              if before.length % 2 = 0 then
                [.shadedLine (env.vertex v) (rgb555 (before.headD h)) (env.vertex w) (rgb555 c)]
              else []
          | _ => []

theorem wordActions_fixed {h : Word} {n : Nat} (hFrame : frameOf (opcode h) = .fixed n)
    (env : DrawEnv) (t : List Word) (w : Word) :
    wordActions env (h :: t) w =
      if t.length + 2 = n then execActions h (h :: t ++ [w]) else [] := by
  simp only [wordActions, hFrame]

/-- The settings behind a command. -/
def envAfter (env : DrawEnv) : List Word → DrawEnv
  | [] => env
  | h :: _ => ((commandExec (opcode h)).map fun exec => execEnv exec h env).getD env

/-- Words are being collected for a command of `n`. -/
structure Collects (s : GpuState) (n : Nat) (h : Word) (t : List Word) : Prop where
  state : s.state = .collecting
  collected : s.wordsCollected = t.length + 1
  needed : s.wordsNeeded = n
  short : t.length + 1 < n
  buf : (List.range (t.length + 1)).map s.cmdBuf = h :: t

/-- A polyline behind the words of a mono one. -/
structure MonoAt (env : DrawEnv) (h : Word) (t : List Word) (p : Polyline) : Prop where
  color : p.color = rgb555 h
  fresh : t.getLast? = none → p.hasPrev = 0
  prev : ∀ v, t.getLast? = some v → p.hasPrev = 1 ∧ p.prev = env.vertex v

/-- A polyline behind the words of a shaded one, the last of them first. -/
def ShadedAt (env : DrawEnv) (h : Word) (p : Polyline) : List Word → Prop
  | [] => p.hasPrev = 0 ∧ p.color = rgb555 h
  | w :: before =>
      if before.length % 2 = 0 then
        p.hasPrev = 1 ∧ p.prev = env.vertex w ∧ p.prevColor = rgb555 (before.headD h)
      else
        p.hasPrev = 2 ∧ p.color = rgb555 w ∧ ∃ v rest, before = v :: rest ∧
          p.prev = env.vertex v ∧ p.prevColor = rgb555 (rest.headD h)

/-- The parser is behind the words of a command that has not ended. -/
def Reads (s : GpuState) : List Word → Prop
  | [] => s.state = .idle
  | h :: t =>
      Unended h t ∧
        match frameOf (opcode h) with
        | .unknown => False
        | .fixed n => Collects s n h t
        | .transfer =>
            match t with
            | dest :: dims :: data =>
                s.state = .vramWrite ∧ data.length < transferWords dims ∧
                  s.vramWrite =
                    transferAt dest dims (2 * data.length) (transferWords dims - data.length)
            | t => Collects s 3 h t
        | .polylineMono => s.state = .polylineMono ∧ MonoAt s.env h t s.polyline
        | .polylineShaded => s.state = .polylineShaded ∧ ShadedAt s.env h s.polyline t.reverse

/-- The same, with the index of the command buffer inside it. -/
structure Reading (s : GpuState) (pre : List Word) : Prop where
  index : s.wordsCollected < 16
  reads : Reads s pre

/-- What a word does behind the words of its command. -/
structure Steps (s : GpuState) (pre : List Word) (w : Word) (s' : GpuState) : Prop where
  write : writeGp0 s w = .ok (s', wordActions s.env pre w)
  index : s'.wordsCollected < 16
  next : (IsCommand (pre ++ [w]) ∧ Reads s' [] ∧ s'.env = envAfter s.env (pre ++ [w])) ∨
    (Reads s' (pre ++ [w]) ∧ s'.env = s.env)

theorem Steps.of_write {s s' : GpuState} {pre : List Word} {w : Word} {actions : List Action}
    (hWrite : writeGp0 s w = .ok (s', actions)) (hActions : actions = wordActions s.env pre w)
    (hIndex : s'.wordsCollected < 16)
    (hNext : (IsCommand (pre ++ [w]) ∧ Reads s' [] ∧ s'.env = envAfter s.env (pre ++ [w])) ∨
      (Reads s' (pre ++ [w]) ∧ s'.env = s.env)) : Steps s pre w s' :=
  ⟨hActions ▸ hWrite, hIndex, hNext⟩

section Idle

variable {s : GpuState} {w : Word}

theorem unended_nil (hOne : frameOf (opcode w) ≠ .fixed 1) : Unended w [] := by
  intro t' hPrefix hEnds
  rw [List.prefix_nil] at hPrefix
  subst hPrefix
  unfold Ends at hEnds
  cases hFrame : frameOf (opcode w) with
  | unknown => rw [hFrame] at hEnds; exact hEnds
  | fixed n =>
      rw [hFrame] at hEnds
      have hEnds' : 0 + 1 = n := hEnds
      exact hOne (by rw [hFrame, ← hEnds'])
  | transfer => rw [hFrame] at hEnds; simp at hEnds
  | polylineMono => rw [hFrame] at hEnds; simp at hEnds
  | polylineShaded => rw [hFrame] at hEnds; simp at hEnds

theorem isCommand_singleton (hFrame : frameOf (opcode w) = .fixed 1) : IsCommand [w] := by
  exact ⟨(ends_fixed hFrame).mpr rfl, fun t' hPrefix _ => List.prefix_nil.mp hPrefix⟩

theorem executeCommand_eq {exec : Gp0Exec} (hExec : commandExec (opcode (s.cmdBuf 0)) = some exec) :
    executeCommand s =
      .ok ({ (if exec = .cpuToVram then execCpuToVram s else s) with
          env := execEnv exec (s.cmdBuf 0) s.env },
        [.execute exec ((List.range s.wordsNeeded).map s.cmdBuf)]) := by
  unfold executeCommand
  rw [hExec]

/-- A word that has to be collected with others. -/
theorem steps_collect {n : Nat} (hIdle : s.state = .idle)
    (hCount : commandWordCount (opcode w) = n) (hMany : 1 < n)
    (hFrame : frameOf (opcode w) = .fixed n ∨ frameOf (opcode w) = .transfer ∧ n = 3) :
    ∃ s', Steps s [] w s' := by
  have hWrite : writeGp0 s w = .ok ({ s with
      cmdBuf := Function.update s.cmdBuf 0 w, wordsCollected := 1, wordsNeeded := n
      state := .collecting }, []) := by
    unfold writeGp0 writeIdle
    rw [hIdle]
    dsimp only
    rw [hCount, if_neg (by omega), if_neg (by omega), if_neg (by omega)]
    rfl
  have hCollects : Collects { s with
      cmdBuf := Function.update s.cmdBuf 0 w, wordsCollected := 1, wordsNeeded := n
      state := .collecting } n w [] :=
    ⟨rfl, rfl, rfl, hMany, by simp⟩
  refine ⟨_, .of_write hWrite ?_ (by decide : 1 < 16) (.inr ⟨?_, rfl⟩)⟩
  · rcases hFrame with hFrame | ⟨hFrame, rfl⟩
    · have hNot : n ≠ 1 := by omega
      simp only [wordActions, hFrame]
      split
      · rename_i h
        exact absurd (Frame.fixed.inj h) hNot
      · rename_i h
        exact absurd h (by simp)
      · rename_i h
        exact absurd h (by simp)
      · rfl
    · simp only [wordActions, hFrame]
  · rcases hFrame with hFrame | ⟨hFrame, rfl⟩
    · refine ⟨unended_nil ?_, ?_⟩
      · rw [hFrame]
        intro h
        have := Frame.fixed.inj h
        omega
      · rw [hFrame]
        exact hCollects
    · refine ⟨unended_nil (by rw [hFrame]; simp), ?_⟩
      rw [hFrame]
      exact hCollects

theorem steps_single (hIdle : s.state = .idle) (hFrame : frameOf (opcode w) = .fixed 1)
    (hIrq : opcode w ≠ 0x1F#8) : ∃ s', Steps s [] w s' := by
  obtain ⟨-, -, hCount⟩ := count_of_fixed hFrame
  obtain ⟨exec, hExec, hNot⟩ := exec_of_fixed hFrame hIrq
  have hWrite : writeGp0 s w = executeCommand { s with
      cmdBuf := Function.update s.cmdBuf 0 w, wordsCollected := 1, wordsNeeded := 1 } := by
    unfold writeGp0 writeIdle
    rw [hIdle]
    dsimp only
    rw [hCount, if_neg (by decide), if_neg (by decide), if_pos (by decide)]
    rfl
  rw [executeCommand_eq (by simpa using hExec), if_neg hNot] at hWrite
  refine ⟨_, .of_write hWrite ?_ (by decide : 1 < 16) (.inl ⟨isCommand_singleton hFrame, ?_, ?_⟩)⟩
  · simp [wordActions, hFrame, execActions, hExec]
  · exact hIdle
  · simp [envAfter, hExec]

theorem steps_startPolyline (hIdle : s.state = .idle)
    (hFrame : frameOf (opcode w) = .polylineMono ∨ frameOf (opcode w) = .polylineShaded)
    (hIndex : s.wordsCollected < 16) : ∃ s', Steps s [] w s' := by
  have hUnended : Unended w [] := by
    refine unended_nil fun h => ?_
    rcases hFrame with hFrame | hFrame
    · rw [hFrame] at h; exact absurd h (by simp)
    · rw [hFrame] at h; exact absurd h (by simp)
  have hCount : commandWordCount (opcode w) < 0 := by
    rcases hFrame with hFrame | hFrame
    · exact (tables_of_mono hFrame).1
    · exact (tables_of_shaded hFrame).1
  have hWrite : writeGp0 s w = .ok ({ s with
      polyline := { s.polyline with
        semiTrans := w.getLsbD 25, color := rgb555 w, prevColor := rgb555 w, hasPrev := 0 }
      state := if opcode w &&& 0x10#8 ≠ 0 then .polylineShaded else .polylineMono },
      [.startPolyline (w.getLsbD 25)]) := by
    unfold writeGp0 writeIdle
    rw [hIdle]
    dsimp only
    rw [if_neg (by omega), if_pos hCount]
  refine ⟨_, .of_write hWrite ?_ hIndex (.inr ⟨⟨hUnended, ?_⟩, rfl⟩)⟩
  · rcases hFrame with hFrame | hFrame
    · simp only [wordActions, hFrame]
    · simp only [wordActions, hFrame]
  · rcases hFrame with hFrame | hFrame
    · rw [hFrame]
      refine ⟨if_neg (not_not.mpr (tables_of_mono hFrame).2.1), rfl, fun _ => rfl, ?_⟩
      intro v hv
      exact absurd hv (by simp)
    · rw [hFrame]
      exact ⟨if_pos (tables_of_shaded hFrame).2.1, rfl, rfl⟩

theorem steps_idle (hReading : Reading s []) (hKnown : frameOf (opcode w) ≠ .unknown)
    (hIrq : opcode w ≠ 0x1F#8) : ∃ s', Steps s [] w s' := by
  have hIdle : s.state = .idle := hReading.reads
  cases hFrame : frameOf (opcode w) with
  | unknown => exact absurd hFrame hKnown
  | fixed n =>
      obtain ⟨hPos, -, hCount⟩ := count_of_fixed hFrame
      by_cases hOne : n = 1
      · subst hOne
        exact steps_single hIdle hFrame hIrq
      · exact steps_collect hIdle hCount (by omega) (.inl hFrame)
  | transfer =>
      exact steps_collect hIdle (tables_of_transfer hFrame).1 (by decide) (.inr ⟨hFrame, rfl⟩)
  | polylineMono => exact steps_startPolyline hIdle (.inl hFrame) hReading.index
  | polylineShaded => exact steps_startPolyline hIdle (.inr hFrame) hReading.index

end Idle

section Collecting

variable {s : GpuState} {n : Nat} {h w : Word} {t : List Word}

/-- The parser with one word more in its buffer. -/
def withWord (s : GpuState) (w : Word) : GpuState :=
  { s with
    cmdBuf := Function.update s.cmdBuf s.wordsCollected w
    wordsCollected := s.wordsCollected + 1 }

theorem Collects.write_eq (hCollects : Collects s n h t) : writeGp0 s w = writeCollecting s w := by
  unfold writeGp0
  rw [hCollects.state]

theorem Collects.buf_snoc (hCollects : Collects s n h t) :
    (List.range (t.length + 2)).map (withWord s w).cmdBuf = h :: t ++ [w] := by
  have hOld : (List.range (t.length + 1)).map (withWord s w).cmdBuf =
      (List.range (t.length + 1)).map s.cmdBuf := by
    refine List.map_congr_left fun i hi => ?_
    have hNe : i ≠ s.wordsCollected := by
      have := List.mem_range.mp hi
      have := hCollects.collected
      omega
    exact Function.update_of_ne hNe ..
  have hNew : (withWord s w).cmdBuf (t.length + 1) = w := by
    rw [← hCollects.collected]
    exact Function.update_self ..
  rw [List.range_succ, List.map_append, hOld, hCollects.buf, List.map_singleton, hNew]

theorem Collects.first (hCollects : Collects s n h t) : (withWord s w).cmdBuf 0 = h := by
  have hBuf := hCollects.buf_snoc (w := w)
  rw [List.range_succ_eq_map, List.map_cons, List.cons_append] at hBuf
  exact (List.cons.inj hBuf).1

theorem Collects.write_short (hCollects : Collects s n h t) (hShort : t.length + 2 < n) :
    writeGp0 s w = .ok (withWord s w, []) ∧ Collects (withWord s w) n h (t ++ [w]) := by
  constructor
  · have hMore : ¬s.wordsCollected + 1 ≥ s.wordsNeeded := by
      rw [hCollects.collected, hCollects.needed]
      omega
    rw [hCollects.write_eq]
    exact if_neg hMore
  · refine ⟨hCollects.state, ?_, hCollects.needed, ?_, ?_⟩
    · rw [List.length_append]
      exact congrArg (· + 1) hCollects.collected
    · rw [List.length_append]
      exact hShort
    · rw [List.length_append]
      exact hCollects.buf_snoc

theorem Collects.write_last (hCollects : Collects s n h t) (hLast : t.length + 2 = n)
    {exec : Gp0Exec} (hExec : commandExec (opcode h) = some exec) :
    writeGp0 s w = .ok
      ({ (if exec = .cpuToVram then execCpuToVram { withWord s w with state := .idle }
          else { withWord s w with state := .idle }) with env := execEnv exec h s.env },
        [.execute exec (h :: t ++ [w])]) := by
  have hWrite : writeGp0 s w = executeCommand { withWord s w with state := .idle } := by
    have hFull : s.wordsCollected + 1 ≥ s.wordsNeeded := by
      rw [hCollects.collected, hCollects.needed]
      omega
    rw [hCollects.write_eq]
    exact if_pos hFull
  have hFirst : ({ withWord s w with state := .idle } : GpuState).cmdBuf 0 = h := hCollects.first
  rw [hWrite, executeCommand_eq (by rw [hFirst]; exact hExec), hFirst]
  change Except.ok (_, [Action.execute exec ((List.range s.wordsNeeded).map (withWord s w).cmdBuf)])
    = _
  rw [hCollects.needed, ← hLast, hCollects.buf_snoc]
  rfl

/-- A word of a command of fixed length. -/
theorem steps_fixed (hFrame : frameOf (opcode h) = .fixed n) (hUnended : Unended h t)
    (hCollects : Collects s n h t) : ∃ s', Steps s (h :: t) w s' := by
  obtain ⟨-, hMax, -⟩ := count_of_fixed hFrame
  have hShort := hCollects.short
  have hIrq : opcode h ≠ 0x1F#8 := by
    intro hOp
    rw [hOp, frameOf_irq] at hFrame
    have := Frame.fixed.inj hFrame
    omega
  have hEnds : Ends h (t ++ [w]) ↔ t.length + 2 = n := by
    rw [ends_fixed hFrame, List.length_append, List.length_singleton]
  have hIndex : (withWord s w).wordsCollected < 16 := by
    change s.wordsCollected + 1 < 16
    rw [hCollects.collected]
    omega
  by_cases hLast : t.length + 2 = n
  · obtain ⟨exec, hExec, hNot⟩ := exec_of_fixed hFrame hIrq
    have hWrite := hCollects.write_last (w := w) hLast hExec
    rw [if_neg hNot] at hWrite
    refine ⟨_, .of_write hWrite ?_ hIndex
      (.inl ⟨hUnended.isCommand (hEnds.mpr hLast), rfl, ?_⟩)⟩
    · simp [wordActions_fixed hFrame, execActions, hExec, hLast]
    · simp [envAfter, hExec]
  · obtain ⟨hWrite, hCollects'⟩ := hCollects.write_short (w := w) (by omega)
    refine ⟨_, .of_write hWrite ?_ hIndex
      (.inr ⟨⟨hUnended.snoc fun h => hLast (hEnds.mp h), ?_⟩, rfl⟩)⟩
    · simp [wordActions, hFrame, hLast]
    · rw [hFrame]
      exact hCollects'

theorem transferWidth_bounds (dims : Word) :
    0 < transferWidth dims ∧ transferWidth dims ≤ 1024 := by
  have hBound : (dims &&& 0x3FF#32).toNat ≤ 1023 := by
    rw [BitVec.toNat_and]
    exact Nat.and_le_right
  unfold transferWidth
  dsimp only
  split <;> omega

theorem transferHeight_bounds (dims : Word) :
    0 < transferHeight dims ∧ transferHeight dims ≤ 512 := by
  have hBound : ((dims >>> 16) &&& 0x1FF#32).toNat ≤ 511 := by
    rw [BitVec.toNat_and]
    exact Nat.and_le_right
  unfold transferHeight
  dsimp only
  split <;> omega

theorem transferWords_pos (dims : Word) : 0 < transferWords dims := by
  have := Nat.mul_pos (transferWidth_bounds dims).1 (transferHeight_bounds dims).1
  unfold transferWords
  omega

theorem transferWords_lt (dims : Word) : transferWords dims < 2 ^ 32 := by
  have := Nat.mul_le_mul (transferWidth_bounds dims).2 (transferHeight_bounds dims).2
  unfold transferWords
  omega

/-- A word of the header of a transfer. -/
theorem steps_header (hFrame : frameOf (opcode h) = .transfer) (hUnended : Unended h t)
    (hCollects : Collects s 3 h t) : ∃ s', Steps s (h :: t) w s' := by
  have hShort := hCollects.short
  obtain ⟨-, hExec⟩ := tables_of_transfer hFrame
  have hIndex : (withWord s w).wordsCollected < 16 := by
    change s.wordsCollected + 1 < 16
    rw [hCollects.collected]
    omega
  match t, hCollects with
  | [], hCollects =>
      have hEnds : ¬Ends h [w] := by
        unfold Ends
        rw [hFrame]
        simp
      obtain ⟨hWrite, hCollects'⟩ := hCollects.write_short (w := w) (by simp)
      refine ⟨_, .of_write hWrite ?_ hIndex (.inr ⟨⟨hUnended.snoc hEnds, ?_⟩, rfl⟩)⟩
      · simp [wordActions, hFrame]
      · rw [hFrame]
        exact hCollects'
  | [dest], hCollects =>
      have hPos := transferWords_pos w
      have hEnds : ¬Ends h [dest, w] := by
        unfold Ends
        rw [hFrame]
        rintro ⟨dest', dims', data, hTail, hLength⟩
        simp only [List.cons.injEq] at hTail
        obtain ⟨-, rfl, rfl⟩ := hTail
        simp at hLength
        omega
      have hWrite := hCollects.write_last (w := w) rfl hExec
      rw [if_pos rfl] at hWrite
      have hBuf := hCollects.buf_snoc (w := w)
      have hDest : (withWord s w).cmdBuf 1 = dest ∧ (withWord s w).cmdBuf 2 = w := by
        simpa [List.range_succ_eq_map] using (List.cons.inj hBuf).2
      refine ⟨_, .of_write hWrite ?_ hIndex (.inr ⟨⟨hUnended.snoc hEnds, ?_⟩, ?_⟩)⟩
      · simp [wordActions, hFrame, execActions, hExec]
      · rw [hFrame]
        dsimp only [List.cons_append, List.nil_append]
        refine ⟨?_, hPos, ?_⟩
        · simp only [execCpuToVram]
          rw [hDest.2]
          exact if_pos hPos
        · simp only [execCpuToVram, hDest.1, hDest.2, transferAt, List.length_nil, Nat.mul_zero,
            Nat.zero_mod, Nat.zero_div, Nat.sub_zero]
          rfl
      · rfl
  | _ :: _ :: _, _ => exact absurd hShort (by simp)

end Collecting

section Transfer

variable {s : GpuState} {h w dest dims : Word} {data : List Word} {i r : Nat}

/-- The cursor goes through the pixels in order. -/
theorem transferAt_advance :
    (transferAt dest dims i r).advance = (transferAt dest dims (i + 1) r,
      decide (i + 1 = transferWidth dims * transferHeight dims)) := by
  obtain ⟨hW, -⟩ := transferWidth_bounds dims
  unfold VramWrite.advance transferAt
  dsimp only
  generalize transferWidth dims = W at hW ⊢
  have hDivMod := Nat.div_add_mod i W
  have hMod := Nat.mod_lt i hW
  split
  · rename_i hCol
    have hNext : i + 1 = W * (i / W + 1) := by rw [Nat.mul_add, Nat.mul_one]; omega
    have hDiv : (i + 1) / W = i / W + 1 := by rw [hNext, Nat.mul_div_cancel_left _ hW]
    have hZero : (i + 1) % W = 0 := by rw [hNext, Nat.mul_mod_right]
    rw [hDiv, hZero]
    refine Prod.ext rfl ?_
    simp only [beq_eq_decide, decide_eq_decide]
    rw [hNext]
    exact (Nat.mul_right_inj hW.ne').symm
  · rename_i hCol
    have hNext : i + 1 = W * (i / W) + (i % W + 1) := by omega
    have hLt : i % W + 1 < W := by omega
    have hDiv : (i + 1) / W = i / W := by
      rw [hNext, Nat.mul_add_div hW, Nat.div_eq_of_lt hLt, Nat.add_zero]
    have hCol' : (i + 1) % W = i % W + 1 := by rw [hNext, Nat.mul_add_mod, Nat.mod_eq_of_lt hLt]
    rw [hDiv, hCol']
    refine Prod.ext rfl ?_
    refine (decide_eq_false fun hEnd => ?_).symm
    have hZero : (i + 1) % W = 0 := by rw [hEnd, Nat.mul_mod_right]
    omega

theorem steps_transfer (hFrame : frameOf (opcode h) = .transfer)
    (hUnended : Unended h (dest :: dims :: data)) (hIndex : s.wordsCollected < 16)
    (hState : s.state = .vramWrite) (hMore : data.length < transferWords dims)
    (hWrite : s.vramWrite =
      transferAt dest dims (2 * data.length) (transferWords dims - data.length)) :
    ∃ s', Steps s (h :: dest :: dims :: data) w s' := by
  have hEnds : Ends h (dest :: dims :: data ++ [w]) ↔ data.length + 1 = transferWords dims := by
    unfold Ends
    rw [hFrame]
    constructor
    · rintro ⟨dest', dims', data', hTail, hLength⟩
      simp only [List.cons_append, List.cons.injEq] at hTail
      obtain ⟨-, rfl, rfl⟩ := hTail
      simpa using hLength
    · intro hLength
      exact ⟨dest, dims, data ++ [w], rfl, by simpa using hLength⟩
  have hEnv : envAfter s.env (h :: dest :: dims :: data ++ [w]) = s.env := by
    simp [envAfter, (tables_of_transfer hFrame).2, execEnv]
  have hWords : transferWords dims = (transferWidth dims * transferHeight dims + 1) / 2 := rfl
  have hLt := transferWords_lt dims
  have hGp0 : writeGp0 s w = .ok (writeVram s w) := by unfold writeGp0; rw [hState]
  rw [writeVram, hWrite, transferAt_advance] at hGp0
  dsimp only at hGp0
  have hActions : wordActions s.env (h :: dest :: dims :: data) w =
      transferActions s.env dest dims data.length w := by simp only [wordActions, hFrame]
  by_cases hOdd : 2 * data.length + 1 = transferWidth dims * transferHeight dims
  · -- the transfer ends within the word
    rw [if_pos (by simpa using hOdd)] at hGp0
    have hLast : data.length + 1 = transferWords dims := by omega
    refine ⟨_, .of_write hGp0 ?_ hIndex
      (.inl ⟨hUnended.isCommand (hEnds.mpr hLast), rfl, hEnv.symm⟩)⟩
    rw [hActions, transferActions, if_neg (by omega), if_pos hLast]
    rfl
  · rw [if_neg (by simpa using hOdd), transferAt_advance] at hGp0
    dsimp only at hGp0
    by_cases hEven : 2 * data.length + 1 + 1 = transferWidth dims * transferHeight dims
    · rw [if_pos (by simpa using hEven)] at hGp0
      have hLast : data.length + 1 = transferWords dims := by omega
      refine ⟨_, .of_write hGp0 ?_ hIndex
        (.inl ⟨hUnended.isCommand (hEnds.mpr hLast), rfl, hEnv.symm⟩)⟩
      rw [hActions, transferActions, if_pos (by omega), if_pos hLast]
      rfl
    · rw [if_neg (by simpa using hEven)] at hGp0
      have hNotLast : data.length + 1 ≠ transferWords dims := by omega
      have hRemaining : (transferWords dims - data.length + 2 ^ 32 - 1) % 2 ^ 32 =
          transferWords dims - (data.length + 1) := by omega
      simp only [transferAt, hRemaining] at hGp0
      rw [if_neg (by omega)] at hGp0
      refine ⟨_, .of_write hGp0 ?_ hIndex
        (.inr ⟨⟨hUnended.snoc fun h => hNotLast (hEnds.mp h), ?_⟩, rfl⟩)⟩
      · rw [hActions, transferActions, if_pos (by omega), if_neg hNotLast]
        rfl
      · rw [hFrame]
        have hLength : (data ++ [w]).length = data.length + 1 := by simp
        refine ⟨hState, hLength.trans_lt (by omega), ?_⟩
        change _ = transferAt dest dims (2 * (data ++ [w]).length)
          (transferWords dims - (data ++ [w]).length)
        rw [hLength]
        rfl

end Transfer

section Polylines

variable {s : GpuState} {h w : Word} {t : List Word}

theorem steps_mono (hFrame : frameOf (opcode h) = .polylineMono) (hUnended : Unended h t)
    (hIndex : s.wordsCollected < 16) (hState : s.state = .polylineMono)
    (hMono : MonoAt s.env h t s.polyline) : ∃ s', Steps s (h :: t) w s' := by
  have hEnds : Ends h (t ++ [w]) ↔ isTerminator w = true := by
    unfold Ends
    rw [hFrame]
    simp
  have hGp0 : writeGp0 s w = .ok (writePolylineMono s w) := by unfold writeGp0; rw [hState]
  unfold writePolylineMono at hGp0
  by_cases hEnd : isTerminator w = true
  · rw [if_pos hEnd] at hGp0
    refine ⟨_, .of_write hGp0 ?_ hIndex (.inl ⟨hUnended.isCommand (hEnds.mpr hEnd), rfl, ?_⟩)⟩
    · simp only [wordActions, hFrame, hEnd, if_true]
      cases t.getLast? with
      | none => rfl
      | some v => rfl
    · simp [envAfter, (tables_of_mono hFrame).2.2]
  · rw [if_neg hEnd] at hGp0
    refine ⟨_, .of_write hGp0 ?_ hIndex
      (.inr ⟨⟨hUnended.snoc fun h => hEnd (hEnds.mp h), ?_⟩, rfl⟩)⟩
    · simp only [wordActions, hFrame]
      cases hLast : t.getLast? with
      | none => simp [hMono.fresh hLast]
      | some v =>
          obtain ⟨hHas, hPrev⟩ := hMono.prev v hLast
          simp [hHas, hPrev, hMono.color, hEnd, DrawEnv.vertex]
    · rw [hFrame]
      have hLast : (t ++ [w]).getLast? = some w := List.getLast?_concat
      refine ⟨hState, hMono.color, fun hNone => ?_, fun v hv => ?_⟩
      · exact absurd (hLast.symm.trans hNone) (by simp)
      · exact ⟨rfl, by rw [Option.some.inj (hv.symm.trans hLast)]; rfl⟩

theorem reads_shaded (hFrame : frameOf (opcode h) = .polylineShaded)
    (hUnended : Unended h (t ++ [w])) (hState : s.state = .polylineShaded)
    (hShaded : ShadedAt s.env h s.polyline (w :: t.reverse)) : Reads s (h :: t ++ [w]) := by
  have hReverse : (t ++ [w]).reverse = w :: t.reverse := by simp
  refine ⟨hUnended, ?_⟩
  rw [hFrame]
  exact ⟨hState, hReverse ▸ hShaded⟩

theorem steps_shaded (hFrame : frameOf (opcode h) = .polylineShaded) (hUnended : Unended h t)
    (hIndex : s.wordsCollected < 16) (hState : s.state = .polylineShaded)
    (hShaded : ShadedAt s.env h s.polyline t.reverse) : ∃ s', Steps s (h :: t) w s' := by
  have hEnds : Ends h (t ++ [w]) ↔ t.reverse.length % 2 = 1 ∧ isTerminator w = true := by
    unfold Ends
    rw [hFrame]
    simp only [List.length_append, List.length_singleton, List.getLast?_concat, Option.some.injEq,
      exists_eq_left', List.length_reverse]
    exact and_congr_left' (by omega)
  have hGp0 : writeGp0 s w = .ok (writePolylineShaded s w) := by unfold writeGp0; rw [hState]
  have hEnv : envAfter s.env (h :: t ++ [w]) = s.env := by
    simp [envAfter, (tables_of_shaded hFrame).2.2]
  unfold writePolylineShaded at hGp0
  simp only [] at hGp0
  cases hWords : t.reverse with
  | nil =>
      -- the first vertex
      rw [hWords] at hShaded hEnds
      obtain ⟨hHas, hColor⟩ := hShaded
      rw [if_pos hHas] at hGp0
      have hOpen : Unended h (t ++ [w]) := hUnended.snoc fun h => absurd (hEnds.mp h).1 (by simp)
      refine ⟨_, .of_write hGp0 ?_ hIndex (.inr ⟨reads_shaded hFrame hOpen hState ?_, rfl⟩)⟩
      · simp only [wordActions, hFrame, hWords]
      · rw [hWords]
        simp [ShadedAt, DrawEnv.vertex, hColor]
  | cons v before =>
      rw [hWords] at hShaded hEnds
      rw [ShadedAt] at hShaded
      by_cases hParity : before.length % 2 = 0
      · -- a color is due
        rw [if_pos hParity] at hShaded
        obtain ⟨hHas, hPrev, hPrevColor⟩ := hShaded
        rw [if_neg (by omega), if_pos hHas] at hGp0
        have hActions : wordActions s.env (h :: t) w = [] := by
          simp only [wordActions, hFrame, hWords]
          cases before with
          | nil => rfl
          | cons u rest => rw [List.length_cons] at hParity; exact if_neg (by omega)
        by_cases hEnd : isTerminator w = true
        · rw [if_pos hEnd] at hGp0
          have hLast : Ends h (t ++ [w]) :=
            hEnds.mpr ⟨by rw [List.length_cons]; omega, hEnd⟩
          exact ⟨_, .of_write hGp0 hActions.symm hIndex
            (.inl ⟨hUnended.isCommand hLast, rfl, hEnv.symm⟩)⟩
        · rw [if_neg hEnd] at hGp0
          have hOpen : Unended h (t ++ [w]) := hUnended.snoc fun h => hEnd (hEnds.mp h).2
          refine ⟨_, .of_write hGp0 hActions.symm hIndex
            (.inr ⟨reads_shaded hFrame hOpen hState ?_, rfl⟩)⟩
          rw [hWords, ShadedAt, if_neg (by rw [List.length_cons]; omega)]
          exact ⟨rfl, rfl, v, before, rfl, hPrev, hPrevColor⟩
      · -- a vertex is due
        rw [if_neg hParity] at hShaded
        obtain ⟨hHas, hColor, u, rest, rfl, hPrev, hPrevColor⟩ := hShaded
        rw [List.length_cons] at hParity
        rw [if_neg (by omega), if_neg (by omega)] at hGp0
        have hOpen : Unended h (t ++ [w]) := hUnended.snoc fun h => by
          have := (hEnds.mp h).1
          simp only [List.length_cons] at this
          omega
        refine ⟨_, .of_write hGp0 ?_ hIndex (.inr ⟨reads_shaded hFrame hOpen hState ?_, rfl⟩)⟩
        · simp only [wordActions, hFrame, hWords]
          rw [if_pos (by omega), hPrev, hPrevColor, hColor]
          rfl
        · rw [hWords, ShadedAt, if_pos (by simp only [List.length_cons]; omega)]
          exact ⟨rfl, rfl, hColor⟩

end Polylines

section Words

variable {s : GpuState} {pre ws rest : List Word} {w : Word} {cs : List (List Word)}

/-- A word of a command, or the first of one that the tables agree on. -/
theorem Reading.steps (hReading : Reading s pre)
    (hFirst : pre = [] → frameOf (opcode w) ≠ .unknown ∧ opcode w ≠ 0x1F#8) :
    ∃ s', Steps s pre w s' := by
  cases pre with
  | nil => exact steps_idle hReading (hFirst rfl).1 (hFirst rfl).2
  | cons h t =>
      obtain ⟨hUnended, hFrame⟩ := hReading.reads
      cases hKind : frameOf (opcode h) with
      | unknown => rw [hKind] at hFrame; exact hFrame.elim
      | fixed n => rw [hKind] at hFrame; exact steps_fixed hKind hUnended hFrame
      | transfer =>
          rw [hKind] at hFrame
          match t, hFrame with
          | [], hFrame => exact steps_header hKind hUnended hFrame
          | [dest], hFrame => exact steps_header hKind hUnended hFrame
          | dest :: dims :: data, ⟨hState, hMore, hWrite⟩ =>
              exact steps_transfer hKind hUnended hReading.index hState hMore hWrite
      | polylineMono =>
          rw [hKind] at hFrame
          exact steps_mono hKind hUnended hReading.index hFrame.1 hFrame.2
      | polylineShaded =>
          rw [hKind] at hFrame
          exact steps_shaded hKind hUnended hReading.index hFrame.1 hFrame.2

theorem Reading.stuck (hReading : Reading s pre) : ∀ c, IsCommand c → ¬c <+: pre := by
  cases pre with
  | nil =>
      intro c hCommand hPrefix
      rw [List.prefix_nil] at hPrefix
      exact isCommand_prefixFree.not_nil (hPrefix ▸ hCommand)
  | cons h t => exact hReading.reads.1.stuck

theorem stuck_of_unknown (hFrame : frameOf (opcode w) = .unknown) :
    ∀ c, IsCommand c → ¬c <+: w :: ws := by
  intro c hCommand hPrefix
  cases c with
  | nil => exact hCommand
  | cons h t =>
      obtain ⟨rfl, -⟩ := List.cons_prefix_cons.mp hPrefix
      have hEnds := hCommand.1
      unfold Ends at hEnds
      rw [hFrame] at hEnds
      exact hEnds

theorem writeGp0_unknown (hReading : Reading s []) (hFrame : frameOf (opcode w) = .unknown) :
    writeGp0 s w = .error (.unknownCommand (opcode w) w) := by
  have hIdle : s.state = .idle := hReading.reads
  unfold writeGp0 writeIdle
  rw [hIdle]
  exact if_pos (count_of_unknown hFrame)

theorem writeGp0_irq (hReading : Reading s []) (hIrq : opcode w = 0x1F#8) :
    writeGp0 s w = .error (.unimplementedCommand 0x1F#8 w) := by
  have hIdle : s.state = .idle := hReading.reads
  have hCount : commandWordCount 0x1F#8 = 1 := by decide
  unfold writeGp0 writeIdle executeCommand
  simp only [hIdle, hIrq, hCount, exec_irq, Function.update_self]
  rfl

/-- The ways that a stream goes on with a word. -/
inductive Goes (s : GpuState) (pre : List Word) (w : Word) (ws : List Word)
    (cs : List (List Word)) (rest : List Word) : Prop where
  | unknown (hPre : pre = []) (hFrame : frameOf (opcode w) = .unknown) (hCs : cs = [])
      (hRest : rest = w :: ws)
  | irq (hPre : pre = []) (hIrq : opcode w = 0x1F#8) (hMem : [w] ∈ cs)
  | ends (s' : GpuState) (ds : List (List Word))
      (hWrite : writeGp0 s w = .ok (s', wordActions s.env pre w)) (hReading : Reading s' [])
      (hEnv : s'.env = envAfter s.env (pre ++ [w])) (hCs : cs = (pre ++ [w]) :: ds)
      (hFraming : Framing IsCommand ws ds rest)
  | more (s' : GpuState) (hWrite : writeGp0 s w = .ok (s', wordActions s.env pre w))
      (hReading : Reading s' (pre ++ [w])) (hEnv : s'.env = s.env)
      (hFraming : Framing IsCommand (pre ++ [w] ++ ws) cs rest)

theorem Reading.goes (hReading : Reading s pre)
    (hFraming : Framing IsCommand (pre ++ w :: ws) cs rest) : Goes s pre w ws cs rest := by
  have hSplit : pre ++ w :: ws = pre ++ [w] ++ ws := by simp
  by_cases hUnknown : pre = [] ∧ frameOf (opcode w) = .unknown
  · obtain ⟨rfl, hFrame⟩ := hUnknown
    obtain ⟨rfl, rfl⟩ := hFraming.of_stuck isCommand_prefixFree (stuck_of_unknown hFrame)
    exact .unknown rfl hFrame rfl rfl
  by_cases hIrq : pre = [] ∧ opcode w = 0x1F#8
  · obtain ⟨rfl, hOp⟩ := hIrq
    have hCommand : IsCommand [w] := isCommand_singleton (by rw [hOp, frameOf_irq])
    rw [hSplit] at hFraming
    obtain ⟨ds, rfl, -⟩ := hFraming.of_append isCommand_prefixFree hCommand
    exact .irq rfl hOp (.head _)
  obtain ⟨s', hWrite, hIndex, ⟨hCommand, hReads, hEnv⟩ | ⟨hReads, hEnv⟩⟩ := hReading.steps
    (w := w) fun hPre => ⟨fun h => hUnknown ⟨hPre, h⟩, fun h => hIrq ⟨hPre, h⟩⟩
  · rw [hSplit] at hFraming
    obtain ⟨ds, rfl, hFraming'⟩ := hFraming.of_append isCommand_prefixFree hCommand
    exact .ends s' ds hWrite ⟨hIndex, hReads⟩ hEnv rfl hFraming'
  · exact .more s' hWrite ⟨hIndex, hReads⟩ hEnv (hSplit ▸ hFraming)

end Words

/-- What is done at the words of a command behind the first ones. -/
@[grind =] def logFrom (env : DrawEnv) (pre : List Word) : List Word → List (List Action)
  | [] => []
  | w :: ws => wordActions env pre w :: logFrom env (pre ++ [w]) ws

/-- What is done at the words of a stream. Nothing is at the rest if it begins with
an unknown command. -/
@[grind =] def streamLog (env : DrawEnv) : List (List Word) → List Word → List (List Action)
  | [], rest =>
      if rest.head?.map (fun w => frameOf (opcode w)) = some .unknown then []
        else logFrom env [] rest
  | c :: cs, rest => logFrom env [] c ++ streamLog (envAfter env c) cs rest

/-- How a stream ends. -/
def EndsAs (rest : List Word) : Except Halt GpuState → Prop
  | .ok s => Reading s rest
  | .error (.unknownCommand op w) =>
      op = opcode w ∧ frameOf op = .unknown ∧ ∃ ws, rest = w :: ws
  | .error (.unimplementedCommand _ _) => False

/-- Every word of a stream does what its command says, and the stream is stopped by
nothing but an unknown command. -/
structure Carried (s : GpuState) (pre ws : List Word) (cs : List (List Word)) (rest : List Word) :
    Prop where
  log : (writeAll s ws).1 = (streamLog s.env cs rest).drop pre.length
  ends : EndsAs rest (writeAll s ws).2

@[grind =] def requestsIrq (c : List Word) : Prop := c.head?.map opcode = some 0x1F#8

section Streams

variable {s : GpuState} {pre ws us rest : List Word} {w : Word} {cs : List (List Word)}
  {env : DrawEnv}

theorem logFrom_append (vs : List Word) :
    logFrom env pre (vs ++ us) = logFrom env pre vs ++ logFrom env (pre ++ vs) us := by
  induction vs generalizing pre with
  | nil => simp [logFrom]
  | cons v vs ih => simp [logFrom, ih]

theorem length_logFrom (vs : List Word) : (logFrom env pre vs).length = vs.length := by
  induction vs generalizing pre with
  | nil => rfl
  | cons v vs ih => simp [logFrom, ih]

/-- The log of a command from one of its words on. -/
theorem drop_logFrom : (logFrom env [] (pre ++ w :: us)).drop pre.length =
    wordActions env pre w :: logFrom env (pre ++ [w]) us := by
  rw [logFrom_append, List.drop_left' (length_logFrom pre)]
  rfl

theorem streamLog_more (hStuck : ∀ c, IsCommand c → ¬c <+: pre ++ [w])
    (hKnown : (pre ++ [w]).head?.map (fun w => frameOf (opcode w)) ≠ some .unknown)
    (hFraming : Framing IsCommand (pre ++ [w] ++ ws) cs rest) :
    (streamLog env cs rest).drop pre.length =
      wordActions env pre w :: (streamLog env cs rest).drop (pre ++ [w]).length := by
  have hStep : ∀ tail : List (List Action), ∀ us,
      (logFrom env [] (pre ++ [w] ++ us) ++ tail).drop pre.length =
        wordActions env pre w ::
          (logFrom env [] (pre ++ [w] ++ us) ++ tail).drop (pre ++ [w]).length := by
    intro tail us
    have hLength : pre.length ≤ (logFrom env [] (pre ++ [w] ++ us)).length := by
      rw [length_logFrom]
      simp only [List.length_append]
      omega
    have hLength' : (pre ++ [w]).length ≤ (logFrom env [] (pre ++ [w] ++ us)).length := by
      rw [length_logFrom]
      simp only [List.length_append]
      omega
    rw [List.drop_append_of_le_length hLength, List.drop_append_of_le_length hLength']
    rw [logFrom_append (pre ++ [w]), List.drop_left' (length_logFrom _), ← logFrom_append,
      List.append_assoc, List.singleton_append, drop_logFrom]
    rfl
  cases cs with
  | nil =>
      have hRest : rest = pre ++ [w] ++ ws := hFraming.words
      have hKnown' : ¬rest.head?.map (fun w => frameOf (opcode w)) = some .unknown := by
        rw [hRest, List.head?_append]
        cases hHead : (pre ++ [w]).head? with
        | none => simp at hHead
        | some v => rw [hHead] at hKnown; exact hKnown
      rw [streamLog, if_neg hKnown', hRest]
      simpa using hStep [] ws
  | cons c cs =>
      have hCommand := hFraming.codes c (.head _)
      have hWords : c ++ (cs.flatten ++ rest) = pre ++ [w] ++ ws := by
        rw [← hFraming.words, List.flatten_cons, List.append_assoc]
      obtain ⟨us, rfl⟩ : pre ++ [w] <+: c := by
        rcases List.prefix_or_prefix_of_prefix (List.prefix_append (pre ++ [w]) ws)
          (hWords ▸ List.prefix_append c _) with hPrefix | hPrefix
        · exact hPrefix
        · exact absurd hPrefix (hStuck c hCommand)
      exact hStep _ us

theorem Reading.known (hReading : Reading s (w :: ws)) : frameOf (opcode w) ≠ .unknown := by
  intro hFrame
  have hReads := hReading.reads.2
  rw [hFrame] at hReads
  exact hReads

theorem carried (hReading : Reading s pre) (hFraming : Framing IsCommand (pre ++ ws) cs rest)
    (hNoIrq : ∀ c ∈ cs, ¬requestsIrq c) : Carried s pre ws cs rest := by
  induction ws generalizing s pre cs with
  | nil =>
      rw [List.append_nil] at hFraming
      obtain ⟨rfl, rfl⟩ := hFraming.of_stuck isCommand_prefixFree hReading.stuck
      refine ⟨?_, hReading⟩
      rw [streamLog]
      split
      · exact List.drop_nil.symm
      · exact (List.drop_eq_nil_of_le (length_logFrom rest).le).symm
  | cons w ws ih =>
      cases hReading.goes hFraming with
      | unknown hPre hFrame hCs hRest =>
          subst hPre hCs hRest
          have hWrite := writeGp0_unknown hReading hFrame
          constructor
          · simp [writeAll, hWrite, streamLog, hFrame]
          · simp only [writeAll, hWrite]
            exact ⟨rfl, hFrame, ws, rfl⟩
      | irq hPre hIrq hMem =>
          exact absurd (by simp [requestsIrq, hIrq]) (hNoIrq _ hMem)
      | ends s' ds hWrite hReading' hEnv hCs hFraming' =>
          subst hCs
          have hRun := ih hReading' hFraming' fun c hc => hNoIrq c (.tail _ hc)
          constructor
          · simp only [writeAll, hWrite, hRun.log, hEnv, List.length_nil, List.drop_zero]
            rw [streamLog, logFrom_append, List.append_assoc, List.drop_left' (length_logFrom pre)]
            rfl
          · simp only [writeAll, hWrite]
            exact hRun.ends
      | more s' hWrite hReading' hEnv hFraming' =>
          have hRun := ih hReading' hFraming' hNoIrq
          have hKnown : (pre ++ [w]).head?.map (fun w => frameOf (opcode w)) ≠ some .unknown := by
            cases hWords : pre ++ [w] with
            | nil => simp
            | cons v vs =>
                rw [hWords] at hReading'
                simpa using hReading'.known
          constructor
          · simp only [writeAll, hWrite, hRun.log, hEnv]
            exact (streamLog_more hReading'.stuck hKnown hFraming').symm
          · simp only [writeAll, hWrite]
            exact hRun.ends

/-- A word that is taken is not a request for an interrupt. -/
theorem Reading.not_requestsIrq (hReading : Reading s pre) {s' : GpuState} {actions : List Action}
    (hWrite : writeGp0 s w = .ok (s', actions)) : ¬requestsIrq (pre ++ [w]) := by
  intro hRequests
  cases pre with
  | nil =>
      have hIrq : opcode w = 0x1F#8 := by simpa [requestsIrq] using hRequests
      rw [writeGp0_irq hReading hIrq] at hWrite
      exact absurd hWrite (by simp)
  | cons h t =>
      have hIrq : opcode h = 0x1F#8 := by simpa [requestsIrq] using hRequests
      have hReads := hReading.reads.2
      rw [hIrq, frameOf_irq] at hReads
      exact absurd hReads.short (by omega)

/-- The request for an interrupt is where the tables differ. -/
theorem writeAll_irq (hReading : Reading s pre) (hFraming : Framing IsCommand (pre ++ ws) cs rest)
    (hIrq : ∃ c ∈ cs, requestsIrq c) :
    ∃ w, (writeAll s ws).2 = .error (.unimplementedCommand 0x1F#8 w) := by
  induction ws generalizing s pre cs with
  | nil =>
      rw [List.append_nil] at hFraming
      obtain ⟨rfl, rfl⟩ := hFraming.of_stuck isCommand_prefixFree hReading.stuck
      simp at hIrq
  | cons w ws ih =>
      cases hReading.goes hFraming with
      | unknown hPre hFrame hCs hRest =>
          subst hCs
          simp at hIrq
      | irq hPre hIrq hMem =>
          subst hPre
          refine ⟨w, ?_⟩
          simp only [writeAll, writeGp0_irq hReading hIrq]
      | ends s' ds hWrite hReading' hEnv hCs hFraming' =>
          subst hCs
          have hTail : ∃ c ∈ ds, requestsIrq c := by
            obtain ⟨c, hMem, hRequests⟩ := hIrq
            rcases List.mem_cons.mp hMem with rfl | hMem
            · exact absurd hRequests (hReading.not_requestsIrq hWrite)
            · exact ⟨c, hMem, hRequests⟩
          obtain ⟨v, hRun⟩ := ih hReading' hFraming' hTail
          exact ⟨v, by simp only [writeAll, hWrite, hRun]⟩
      | more s' hWrite hReading' hEnv hFraming' =>
          obtain ⟨v, hRun⟩ := ih hReading' hFraming' hIrq
          exact ⟨v, by simp only [writeAll, hWrite, hRun]⟩

theorem Reachable.reading (h : Reachable s) : ∃ pre, Reading s pre := by
  induction h with
  | reset s => exact ⟨[], by simp [GpuState.reset], rfl⟩
  | resetCommandBuffer h ih => exact ⟨[], by simp [GpuState.resetCommandBuffer], rfl⟩
  | @word s s' w actions h hWrite ih =>
      obtain ⟨pre, hReading⟩ := ih
      have hFirst : pre = [] → frameOf (opcode w) ≠ .unknown ∧ opcode w ≠ 0x1F#8 := by
        rintro rfl
        refine ⟨fun hFrame => ?_, fun hIrq => ?_⟩
        · rw [writeGp0_unknown hReading hFrame] at hWrite
          exact absurd hWrite (by simp)
        · rw [writeGp0_irq hReading hIrq] at hWrite
          exact absurd hWrite (by simp)
      obtain ⟨t, hStep, hIndex, hNext⟩ := hReading.steps hFirst
      have hEq : t = s' := by
        rw [hStep] at hWrite
        exact (Prod.mk.inj (Except.ok.inj hWrite)).1
      subst hEq
      rcases hNext with ⟨-, hReads, -⟩ | ⟨hReads, -⟩
      · exact ⟨[], hIndex, hReads⟩
      · exact ⟨pre ++ [w], hIndex, hReads⟩

theorem Reachable.writeAll (h : Reachable s) {t : GpuState}
    (hRun : (writeAll s ws).2 = .ok t) : Reachable t := by
  induction ws generalizing s with
  | nil => exact Except.ok.inj hRun ▸ h
  | cons w ws ih =>
      rw [Gpu.writeAll] at hRun
      split at hRun
      · exact absurd hRun (by simp)
      · rename_i s' actions hWrite
        exact ih (h.word hWrite) hRun

/-- A command of fixed length is done at its last word and nowhere else. -/
theorem logFrom_fixed {h : Word} {t : List Word} {n : Nat} (hFrame : frameOf (opcode h) = .fixed n)
    (hCommand : IsCommand (h :: t)) :
    logFrom env [] (h :: t) = List.replicate t.length [] ++ [execActions h (h :: t)] := by
  have hLength : t.length + 1 = n := (ends_fixed hFrame).mp hCommand.1
  have hTail : ∀ us vs : List Word, us ++ vs = t → vs ≠ [] →
      logFrom env (h :: us) vs =
        List.replicate (vs.length - 1) [] ++ [execActions h (h :: t)] := by
    intro us vs
    induction vs generalizing us with
    | nil => exact fun _ hNe => absurd rfl hNe
    | cons v vs ih =>
        intro hSplit _
        have hCount : us.length + (vs.length + 1) = t.length := by
          rw [← hSplit, List.length_append, List.length_cons]
        cases vs with
        | nil =>
            simp only [logFrom, wordActions_fixed hFrame]
            rw [if_pos (by rw [List.length_nil] at hCount; omega), ← hSplit]
            rfl
        | cons v' vs =>
            have hRest := ih (us ++ [v]) (by rw [← hSplit]; simp) (by simp)
            rw [logFrom, List.cons_append, hRest, wordActions_fixed hFrame]
            rw [List.length_cons] at hCount
            rw [if_neg (by omega)]
            simp [List.replicate_succ]
  cases t with
  | nil =>
      have hOne : frameOf (opcode h) = .fixed 1 := by rw [hFrame, ← hLength]; rfl
      simp [logFrom, wordActions, hOne]
  | cons v vs =>
      have hNotOne : n ≠ 1 := by rw [List.length_cons] at hLength; omega
      have hFirst : wordActions env [] h = [] := by
        simp only [wordActions, hFrame]
        split
        · rename_i hEq
          exact absurd (Frame.fixed.inj hEq) hNotOne
        · rename_i hEq
          exact absurd hEq (by simp)
        · rename_i hEq
          exact absurd hEq (by simp)
        · rfl
      rw [logFrom, hFirst, List.nil_append, hTail [] (v :: vs) rfl (by simp)]
      simp [List.replicate_succ]

end Streams

/-- From every state that the GPU can be in, with the words `pre` of a command
under way, every stream of words is cut into commands in one way, and the buffer
takes them. The parser does each command, those of fixed length at their last
word, exactly if none is a request for an interrupt. -/
theorem gp0_stream_framed {s : GpuState} (hReachable : Reachable s) :
    ∃ pre, Reads s pre ∧ ∀ ws,
      (∃! p : List (List Word) × List Word, Framing IsCommand (pre ++ ws) p.1 p.2) ∧
      (∀ vs t, vs <+: ws → (writeAll s vs).2 = .ok t → t.wordsCollected < 16) ∧
      (∀ cs rest, Framing IsCommand (pre ++ ws) cs rest →
        (Carried s pre ws cs rest ↔ ∀ c ∈ cs, ¬requestsIrq c)) ∧
      ∀ env h t n, frameOf (opcode h) = .fixed n → IsCommand (h :: t) →
        logFrom env [] (h :: t) = List.replicate t.length [] ++ [execActions h (h :: t)] := by
  obtain ⟨pre, hReading⟩ := hReachable.reading
  refine ⟨pre, hReading.reads, fun ws => ⟨?_, fun vs t _ hRun => ?_, fun cs rest hFraming => ?_,
    fun env h t n hFrame hCommand => logFrom_fixed hFrame hCommand⟩⟩
  · obtain ⟨cs, rest, hFraming⟩ := exists_framing isCommand_prefixFree (pre ++ ws)
    refine ⟨(cs, rest), hFraming, fun p hp => ?_⟩
    obtain ⟨hCs, hRest⟩ := hFraming.unique isCommand_prefixFree hp
    exact Prod.ext hCs hRest
  · obtain ⟨_, hReading'⟩ := (hReachable.writeAll hRun).reading
    exact hReading'.index
  · constructor
    · intro hCarried c hMem hIrq
      obtain ⟨w, hHalt⟩ := writeAll_irq hReading hFraming ⟨c, hMem, hIrq⟩
      have hEnds := hCarried.ends
      rw [hHalt] at hEnds
      exact hEnds
    · exact carried hReading hFraming

/-- The GPU behind its reset. -/
def resetGpu : GpuState :=
  GpuState.reset ⟨.idle, fun _ => 0, 0, 0, ⟨0, ⟨0, 0⟩, 0, false, 0⟩, ⟨0, 0, 0, 0, 0, 0, 0⟩,
    ⟨⟨0, 0⟩, false, false⟩⟩

/-- Two settings and a polyline behind the reset. -/
theorem resetGpu_framed : ∃ pre, Reads resetGpu pre ∧
    ∀ cs rest, Framing IsCommand (pre ++
        [0xE1000000#32, 0xE5000801#32, 0x48FFFFFF#32, 0#32, 0x00010001#32, 0x55555555#32]) cs rest →
      (Carried resetGpu pre
        [0xE1000000#32, 0xE5000801#32, 0x48FFFFFF#32, 0#32, 0x00010001#32, 0x55555555#32] cs rest ↔
        ∀ c ∈ cs, ¬requestsIrq c) := by
  obtain ⟨pre, hReads, hFramed⟩ := gp0_stream_framed (s := resetGpu) (.reset _)
  exact ⟨pre, hReads, (hFramed _).2.2.1⟩

/-- The request for an interrupt has a length in one table and no case in the
other. -/
theorem irq_request_rejected : commandWordCount 0x1F#8 = 1 ∧ Reachable resetGpu ∧
    writeAll resetGpu [0x1F000000#32] =
      ([], .error (.unimplementedCommand 0x1F#8 0x1F000000#32)) :=
  ⟨by decide, .reset _, rfl⟩

end RecompStudio.Gpu
