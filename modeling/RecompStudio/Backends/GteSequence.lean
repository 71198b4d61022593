import RecompStudio.Backends.Simulation
import RecompStudio.Bios.StrictTranslator

/-!
The GTE accesses of the BIOS code in sequence. The translator goes through the
accessors for some registers and straight to the register arrays for the others;
here its code is set against the same code with every access through an accessor.
-/

namespace RecompStudio

open RecompStudio.Emitted
open RecompStudio.Gte
open RecompStudio.Insn
open RecompStudio.Bios
open RecompStudio.CodeGen (gteDataValue gteCtrlValue gteDataReadSpecial gteDataWriteSpecial
  gteCtrlSpecial)

variable {M : Type}

/-- An instruction where it runs, with the registers and the memory it finds. -/
structure GteSite (M : Type) where
  addr : Word
  word : Word
  gpr : RegIndex → Word
  mem : M

/-- The CPU at a site, with the GTE as it was left. -/
def GteSite.enter (x : GteSite M) (s : CPUState M) : CPUState M :=
  { s with gpr := x.gpr, mem := x.mem }

/-- The statement that the translator emits for an access of the GTE. -/
def GteSite.stmt (x : GteSite M) : Option Stmt :=
  match Op.ofWord x.word, strictTranslate x.addr x.word with
  | .cop2, .code [stmt] | .lwc2, .code [stmt] | .swc2, .code [stmt] => some stmt
  | _, _ => none

/-- A GTE register that is read straight from its array, read through its accessor. -/
def throughAccessor : Expr → Expr
  | .gteData r => .gteReadData r
  | .gteCtrl r => .gteReadCtrl r
  | e => e

/-- The same statement with its access through `gte_read_data`, `gte_read_ctrl`,
`gte_write_data` or `gte_write_ctrl`. -/
def throughAccessors : Stmt → Stmt
  | .setGpr r e => .setGpr r (throughAccessor e)
  | .store width addr e => .store width addr (throughAccessor e)
  | .setGteData r e => .gteWriteData r e
  | .setGteCtrl r e => .gteWriteCtrl r e
  | .loadGte _ r addr => .loadGte true r addr
  | stmt => stmt

/-- The value that a statement reads from the GTE. -/
def movedValue (host : Host M) (s : CPUState M) : Stmt → Option Word
  | .setGpr _ e | .store _ _ e => some (e.eval host s)
  | _ => none

/-- The values read along the sites, by the emitted statements in some form. They
end at an address that the emitted code has no value for. -/
def valuesRead (host : Host M) (form : Stmt → Stmt) : CPUState M → List (GteSite M) → List Word
  | _, [] => []
  | s, x :: rest =>
      match x.stmt with
      | none => valuesRead host form s rest
      | some stmt =>
          match (form stmt).exec host (x.enter s) with
          | .next s' =>
              (movedValue host (x.enter s) (form stmt)).toList ++ valuesRead host form s' rest
          | _ => []

/-- What the arrays hold beyond the widths of the registers. -/
structure Excess where
  data : RegIndex → Word
  ctrl : RegIndex → Word

def Excess.of (s : CPUState M) : Excess :=
  ⟨fun r => dataBeyond r (s.gteData r), fun r => ctrlBeyond r (s.gteCtrl r)⟩

def Excess.none : Excess := ⟨fun _ => 0, fun _ => 0⟩

/-- What a statement leaves: a direct write its own excess, an accessor's write or
a command nothing in any register. -/
def Excess.behind (host : Host M) (s : CPUState M) (e : Excess) : Stmt → Excess
  | .setGteData r v => { e with data := Function.update e.data r (dataBeyond r (v.eval host s)) }
  | .setGteCtrl r v => { e with ctrl := Function.update e.ctrl r (ctrlBeyond r (v.eval host s)) }
  | .loadGte false r addr =>
      let v := (host.bus.readWord (addr.eval host s) s.mem).1
      { e with data := Function.update e.data r (dataBeyond r v) }
  | .gteWriteData _ _ | .gteWriteCtrl _ _ | .gteExecute _ | .loadGte true _ _ => Excess.none
  | _ => e

/-- The excess that a statement reads. -/
def Excess.readBy (e : Excess) : Stmt → Word
  | .setGpr _ (.gteData r) | .store _ _ (.gteData r) => e.data r
  | .setGpr _ (.gteCtrl r) => e.ctrl r
  | _ => 0

/-- No register is read from its array while the array holds more than the
register, from a direct write with no accessor's write or command behind it. -/
def ReadsWithin (host : Host M) (s : CPUState M) : Excess → List (GteSite M) → Prop
  | _, [] => True
  | e, x :: rest =>
      match x.stmt with
      | none => ReadsWithin host s e rest
      | some stmt =>
          match stmt.exec host (x.enter s) with
          | .next _ => e.readBy stmt = 0 ∧ ReadsWithin host s (e.behind host (x.enter s) stmt) rest
          | _ => True

/-- The statements that access the GTE. -/
inductive GteStmt : Stmt → Prop where
  | nop : GteStmt .nop
  | readData (d r) : GteStmt (.setGpr d (gteDataValue r))
  | readCtrl (d r) : GteStmt (.setGpr d (gteCtrlValue r))
  | writeData (r g) :
      GteStmt (if gteDataWriteSpecial r then .gteWriteData r (.gpr g) else .setGteData r (.gpr g))
  | writeCtrl (r g) :
      GteStmt (if gteCtrlSpecial r then .gteWriteCtrl r (.gpr g) else .setGteCtrl r (.gpr g))
  | command (c) : GteStmt (.gteExecute c)
  | load (r w) : GteStmt (.loadGte (gteDataWriteSpecial r) r (strictGteAddr w))
  | store (r w) : GteStmt (.store .word (strictGteAddr w) (gteDataValue r))

theorem strictCop2_cases (w : Word) :
    strictCop2 w = .unsupported ∨ ∃ stmt, strictCop2 w = .code [stmt] ∧ GteStmt stmt := by
  unfold strictCop2 emitGprWrite
  by_cases hRead : rs w = 0x00
  · rw [if_pos hRead]
    refine .inr ⟨_, rfl, ?_⟩
    split
    · exact .nop
    · exact .readData _ _
  rw [if_neg hRead]
  by_cases hCtrl : rs w = 0x02
  · rw [if_pos hCtrl]
    refine .inr ⟨_, rfl, ?_⟩
    split
    · exact .nop
    · exact .readCtrl _ _
  rw [if_neg hCtrl]
  by_cases hWrite : rs w = 0x04
  · rw [if_pos hWrite]
    exact .inr ⟨_, rfl, .writeData _ _⟩
  rw [if_neg hWrite]
  by_cases hWriteCtrl : rs w = 0x06
  · rw [if_pos hWriteCtrl]
    exact .inr ⟨_, rfl, .writeCtrl _ _⟩
  rw [if_neg hWriteCtrl]
  split
  · exact .inr ⟨_, rfl, .command _⟩
  · exact .inl rfl

theorem GteSite.gteStmt {x : GteSite M} {stmt : Stmt} (h : x.stmt = some stmt) : GteStmt stmt := by
  unfold GteSite.stmt at h
  split at h
  · rename_i hOp hCode
    have hWord := ne_zero_of_op hOp (by decide)
    simp only [strictTranslate, if_neg hWord, hOp] at hCode
    rcases strictCop2_cases x.word with hNone | ⟨stmt', hSome, hGte⟩
    · rw [hNone] at hCode
      cases hCode
    · rw [hSome] at hCode
      cases hCode
      cases h
      exact hGte
  · rename_i hOp hCode
    have hWord := ne_zero_of_op hOp (by decide)
    simp only [strictTranslate, if_neg hWord, hOp] at hCode
    cases hCode
    cases h
    exact .load _ _
  · rename_i hOp hCode
    have hWord := ne_zero_of_op hOp (by decide)
    simp only [strictTranslate, if_neg hWord, hOp] at hCode
    cases hCode
    cases h
    exact .store _ _
  · cases h

section Step

variable (host : Host M) {s t : CPUState M}

theorem excess_storeState (g : GTEState) : Excess.of (storeState s g) = Excess.none := by
  have hHalf : ∀ a : BitVec 16, a.zeroExtend 32 &&& 0xFFFF0000#32 = 0 := by
    intro a
    rw [← eq_zeroExtend_low_iff, low_zeroExtend]
  have hData : ∀ r, dataBeyond r (packData g r) = 0 := by
    intro r
    obtain ⟨n, hn, rfl⟩ := exists_ofNat_regIndex r
    interval_cases n <;> first | rfl | exact hHalf _
  have hCtrl : ∀ r, ctrlBeyond r (packCtrl g r) = 0 := by
    intro r
    obtain ⟨n, hn, rfl⟩ := exists_ofNat_regIndex r
    interval_cases n <;> first | rfl | exact hHalf _
  exact congrArg₂ Excess.mk (funext hData) (funext hCtrl)

theorem excess_setGteData (r : RegIndex) (v : Word) :
    Excess.of { s with gteData := Function.update s.gteData r v } =
      { Excess.of s with data := Function.update (Excess.of s).data r (dataBeyond r v) } :=
  congrArg₂ Excess.mk (funext fun i => Function.apply_update dataBeyond s.gteData r v i) rfl

theorem excess_setGteCtrl (r : RegIndex) (v : Word) :
    Excess.of { s with gteCtrl := Function.update s.gteCtrl r v } =
      { Excess.of s with ctrl := Function.update (Excess.of s).ctrl r (ctrlBeyond r v) } :=
  congrArg₂ Excess.mk rfl (funext fun i => Function.apply_update ctrlBeyond s.gteCtrl r v i)

/-- The emitted read of a data register against the accessor's. -/
theorem gteDataValue_eval_iff (hAgree : Agree s t) (r : RegIndex) (stmt : Expr → Stmt)
    (hStmt : ∀ e : Excess, e.readBy (stmt (.gteData r)) = e.data r)
    (hOther : ∀ e : Excess, e.readBy (stmt (.gteReadData r)) = 0) :
    (gteDataValue r).eval host s = (throughAccessor (gteDataValue r)).eval host t ↔
      (Excess.of s).readBy (stmt (gteDataValue r)) = 0 := by
  unfold gteDataValue
  cases hSpecial : gteDataReadSpecial r with
  | true =>
      rw [if_pos rfl, hOther]
      exact iff_of_true (hAgree.readData r) rfl
  | false =>
      rw [if_neg (by decide), hStmt]
      change s.gteData r = readData t r ↔ dataBeyond r (s.gteData r) = 0
      rw [← hAgree.readData r]
      exact gteData_eq_readData_iff s hSpecial

theorem gteCtrlValue_eval_iff (hAgree : Agree s t) (d r : RegIndex) :
    (gteCtrlValue r).eval host s = (throughAccessor (gteCtrlValue r)).eval host t ↔
      (Excess.of s).readBy (.setGpr d (gteCtrlValue r)) = 0 := by
  unfold gteCtrlValue
  cases hSpecial : gteCtrlSpecial r with
  | true =>
      rw [if_pos rfl]
      exact iff_of_true (hAgree.readCtrl r) rfl
  | false =>
      rw [if_neg (by decide)]
      change s.gteCtrl r = readCtrl t r ↔ ctrlBeyond r (s.gteCtrl r) = 0
      rw [← hAgree.readCtrl r]
      exact gteCtrl_eq_readCtrl_iff s hSpecial

/-- What the two forms of a statement have in common. -/
structure Matched (host : Host M) (s t s' t' : CPUState M) (stmt : Stmt) : Prop where
  hi : s'.hi = t'.hi
  lo : s'.lo = t'.lo
  cop0 : s'.cop0 = t'.cop0
  gte : loadData s' = loadData t'
  excess : Excess.of s' = (Excess.of s).behind host s stmt
  reads : (movedValue host s stmt).isSome = (movedValue host t (throughAccessors stmt)).isSome
  value : movedValue host s stmt = movedValue host t (throughAccessors stmt) ↔
    (Excess.of s).readBy stmt = 0

theorem Matched.of_agree host {s' t' : CPUState M} {stmt : Stmt} (hAgree : Agree s' t')
    (hExcess : Excess.of s' = (Excess.of s).behind host s stmt)
    (hSilent : movedValue host s stmt = none ∧ movedValue host t (throughAccessors stmt) = none ∧
      (Excess.of s).readBy stmt = 0) : Matched host s t s' t' stmt where
  hi := hAgree.hi
  lo := hAgree.lo
  cop0 := hAgree.cop0
  gte := hAgree.gte
  excess := hExcess
  reads := by rw [hSilent.1, hSilent.2.1]
  value := by rw [hSilent.1, hSilent.2.1, hSilent.2.2]; simp

theorem gteDataValue_defined_both (r : RegIndex) :
    (gteDataValue r).defined host s = true ∧
      (throughAccessor (gteDataValue r)).defined host s = true := by
  unfold gteDataValue
  split <;> exact ⟨rfl, rfl⟩

theorem gteCtrlValue_defined_both (r : RegIndex) :
    (gteCtrlValue r).defined host s = true ∧
      (throughAccessor (gteCtrlValue r)).defined host s = true := by
  unfold gteCtrlValue
  split <;> exact ⟨rfl, rfl⟩

/-- The address of a load or a store is the same for the same registers. -/
theorem strictGteAddr_congr (hGpr : s.gpr = t.gpr) (w : Word) :
    (strictGteAddr w).eval host s = (strictGteAddr w).eval host t ∧
      (strictGteAddr w).defined host s = (strictGteAddr w).defined host t := by
  unfold strictGteAddr strictAddr
  split <;> simp [Expr.eval, Expr.defined, hGpr]

/-- One access, in the emitted form and through the accessors. -/
theorem gteStmt_exec {stmt : Stmt} (hStmt : GteStmt stmt) (hAgree : Agree s t) :
    ((∀ u, stmt.exec host s ≠ .next u) ∧ ∀ u, (throughAccessors stmt).exec host t ≠ .next u) ∨
    ∃ s' t', stmt.exec host s = .next s' ∧ (throughAccessors stmt).exec host t = .next t' ∧
      Matched host s t s' t' stmt := by
  cases hStmt with
  | nop => exact .inr ⟨s, t, rfl, rfl, .of_agree host hAgree rfl ⟨rfl, rfl, rfl⟩⟩
  | readData d r =>
      refine .inr ⟨_, _, if_pos (gteDataValue_defined_both host r).1,
        if_pos (gteDataValue_defined_both host r).2,
        hAgree.hi, hAgree.lo, hAgree.cop0, hAgree.gte, rfl, rfl, ?_⟩
      rw [← gteDataValue_eval_iff host hAgree r (.setGpr d) (fun _ => rfl) fun _ => rfl]
      exact Option.some_inj
  | readCtrl d r =>
      refine .inr ⟨_, _, if_pos (gteCtrlValue_defined_both host r).1,
        if_pos (gteCtrlValue_defined_both host r).2,
        hAgree.hi, hAgree.lo, hAgree.cop0, hAgree.gte, rfl, rfl, ?_⟩
      rw [← gteCtrlValue_eval_iff host hAgree d r]
      exact Option.some_inj
  | writeData r g =>
      refine .inr ?_
      cases hSpecial : gteDataWriteSpecial r with
      | true =>
          refine ⟨_, _, rfl, rfl, .of_agree host ?_ (excess_storeState _) ⟨rfl, rfl, rfl⟩⟩
          change Agree (writeData s r (s.gpr g)) (writeData t r (t.gpr g))
          rw [hAgree.gpr]
          exact hAgree.writeData r _
      | false =>
          refine ⟨_, _, rfl, rfl, .of_agree host ?_ (excess_setGteData _ _) ⟨rfl, rfl, rfl⟩⟩
          change Agree { s with gteData := Function.update s.gteData r (s.gpr g) }
            (writeData t r (t.gpr g))
          rw [← hAgree.gpr]
          exact hAgree.setGteData hSpecial _
  | writeCtrl r g =>
      refine .inr ?_
      cases hSpecial : gteCtrlSpecial r with
      | true =>
          refine ⟨_, _, rfl, rfl, .of_agree host ?_ (excess_storeState _) ⟨rfl, rfl, rfl⟩⟩
          change Agree (writeCtrl s r (s.gpr g)) (writeCtrl t r (t.gpr g))
          rw [hAgree.gpr]
          exact hAgree.writeCtrl r _
      | false =>
          refine ⟨_, _, rfl, rfl, .of_agree host ?_ (excess_setGteCtrl _ _) ⟨rfl, rfl, rfl⟩⟩
          change Agree { s with gteCtrl := Function.update s.gteCtrl r (s.gpr g) }
            (writeCtrl t r (t.gpr g))
          rw [← hAgree.gpr]
          exact hAgree.setGteCtrl hSpecial _
  | command c =>
      exact .inr ⟨_, _, rfl, rfl, .of_agree host (hAgree.runGteCommand host c) (excess_storeState _)
        ⟨rfl, rfl, rfl⟩⟩
  | load r w =>
      obtain ⟨hEval, hDefined⟩ := strictGteAddr_congr host hAgree.gpr w
      cases hOn : (strictGteAddr w).defined host s with
      | false =>
          have hOn' := hDefined ▸ hOn
          left
          exact ⟨by simp [Stmt.exec, hOn], by simp [throughAccessors, Stmt.exec, hOn']⟩
      | true =>
          have hRead : host.bus.readWord ((strictGteAddr w).eval host t) t.mem =
              host.bus.readWord ((strictGteAddr w).eval host s) s.mem := by rw [hEval, hAgree.mem]
          refine .inr ⟨_, _, if_pos hOn, if_pos (hDefined ▸ hOn), ?_⟩
          rw [hRead]
          have hMem := hAgree.setMem (host.bus.readWord ((strictGteAddr w).eval host s) s.mem).2
          cases hSpecial : gteDataWriteSpecial r with
          | true =>
              exact .of_agree host (hMem.writeData r _) (excess_storeState _) ⟨rfl, rfl, rfl⟩
          | false =>
              exact .of_agree host (hMem.setGteData hSpecial _) (excess_setGteData _ _)
                ⟨rfl, rfl, rfl⟩
  | store r w =>
      obtain ⟨hEval, hDefined⟩ := strictGteAddr_congr host hAgree.gpr w
      cases hOn : (strictGteAddr w).defined host s with
      | false =>
          have hOn' := hDefined ▸ hOn
          left
          exact ⟨by simp [Stmt.exec, hOn], by simp [throughAccessors, Stmt.exec, hOn']⟩
      | true =>
          refine .inr ⟨_, _, if_pos hOn, if_pos (hDefined ▸ hOn), hAgree.hi, hAgree.lo,
            hAgree.cop0, hAgree.gte, rfl, rfl, ?_⟩
          rw [← gteDataValue_eval_iff host hAgree r (.store .word (strictGteAddr w))
            (fun _ => rfl) fun _ => rfl]
          exact Option.some_inj

/-- What a statement leaves beyond the registers, and whether it has a value at
all, depends on the registers and the memory only. -/
theorem gteStmt_behind {stmt : Stmt} (hStmt : GteStmt stmt) (hGpr : s.gpr = t.gpr)
    (hMem : s.mem = t.mem) (e : Excess) :
    e.behind host s stmt = e.behind host t stmt ∧
      ((∃ u, stmt.exec host s = .next u) ↔ ∃ u, stmt.exec host t = .next u) := by
  cases hStmt with
  | nop => exact ⟨rfl, iff_of_true ⟨_, rfl⟩ ⟨_, rfl⟩⟩
  | readData d r =>
      exact ⟨rfl, iff_of_true ⟨_, if_pos (gteDataValue_defined_both host r).1⟩
        ⟨_, if_pos (gteDataValue_defined_both host r).1⟩⟩
  | readCtrl d r =>
      exact ⟨rfl, iff_of_true ⟨_, if_pos (gteCtrlValue_defined_both host r).1⟩
        ⟨_, if_pos (gteCtrlValue_defined_both host r).1⟩⟩
  | writeData r g =>
      cases gteDataWriteSpecial r with
      | true => exact ⟨rfl, iff_of_true ⟨_, rfl⟩ ⟨_, rfl⟩⟩
      | false => exact ⟨by simp [Excess.behind, Expr.eval, hGpr], iff_of_true ⟨_, rfl⟩ ⟨_, rfl⟩⟩
  | writeCtrl r g =>
      cases gteCtrlSpecial r with
      | true => exact ⟨rfl, iff_of_true ⟨_, rfl⟩ ⟨_, rfl⟩⟩
      | false => exact ⟨by simp [Excess.behind, Expr.eval, hGpr], iff_of_true ⟨_, rfl⟩ ⟨_, rfl⟩⟩
  | command c => exact ⟨rfl, iff_of_true ⟨_, rfl⟩ ⟨_, rfl⟩⟩
  | load r w =>
      obtain ⟨hEval, hDefined⟩ := strictGteAddr_congr host hGpr w
      constructor
      · cases gteDataWriteSpecial r <;> simp [Excess.behind, hEval, hMem]
      · cases hOn : (strictGteAddr w).defined host t <;> simp [Stmt.exec, hDefined, hOn]
  | store r w =>
      obtain ⟨-, hDefined⟩ := strictGteAddr_congr host hGpr w
      refine ⟨rfl, ?_⟩
      cases hOn : (strictGteAddr w).defined host t <;> simp [Stmt.exec, hDefined, hOn]

end Step

theorem toList_append_eq_iff {α : Type} {a b : Option α} {l m : List α}
    (hSome : a.isSome = b.isSome) : a.toList ++ l = b.toList ++ m ↔ a = b ∧ l = m := by
  cases a <;> cases b <;> simp_all

/-- The run in the two forms, from registers that unpack to the same state. -/
theorem valuesRead_eq_iff (host : Host M) (s₀ : CPUState M) (sites : List (GteSite M)) :
    ∀ {s t : CPUState M}, s.hi = t.hi → s.lo = t.lo → s.cop0 = t.cop0 → loadData s = loadData t →
      (valuesRead host id s sites = valuesRead host throughAccessors t sites ↔
        ReadsWithin host s₀ (Excess.of s) sites) := by
  induction sites with
  | nil => exact fun _ _ _ _ => iff_of_true rfl trivial
  | cons x rest ih =>
      intro s t hHi hLo hCop0 hGte
      unfold valuesRead ReadsWithin
      cases hStmt : x.stmt with
      | none => exact ih hHi hLo hCop0 hGte
      | some stmt =>
          have hAccess := GteSite.gteStmt hStmt
          have hAgree : Agree (x.enter s) (x.enter t) := ⟨⟨rfl, hHi, hLo, hCop0, rfl⟩, hGte⟩
          obtain ⟨hBehind, hNext⟩ := gteStmt_behind host (s := x.enter s₀)
            (t := x.enter s) hAccess rfl rfl (Excess.of s)
          dsimp only [id]
          rcases gteStmt_exec host hAccess hAgree with
            ⟨hStuck, hStuck'⟩ | ⟨s', t', hExec, hExec', hMatched⟩
          · have hStuck₀ : ∀ u, stmt.exec host (x.enter s₀) ≠ .next u := by
              intro u hu
              obtain ⟨v, hv⟩ := hNext.mp ⟨u, hu⟩
              exact hStuck v hv
            split
            · exact absurd ‹_› (hStuck _)
            · exact iff_of_true rfl trivial
          · obtain ⟨u, hu⟩ := hNext.mpr ⟨s', hExec⟩
            rw [hExec, hExec', hu]
            dsimp only
            rw [toList_append_eq_iff hMatched.reads, hBehind,
              ih hMatched.hi hMatched.lo hMatched.cop0 hMatched.gte, hMatched.value]
            have hExcess : Excess.of (x.enter s) = Excess.of s := rfl
            rw [hMatched.excess, hExcess]

/-- The values that the BIOS code reads from the GTE are those that it would read
through the accessors exactly when no register is read with more in its array
than the register has. -/
theorem strict_gte_reads_iff (host : Host M) (s : CPUState M) (sites : List (GteSite M)) :
    valuesRead host id s sites = valuesRead host throughAccessors s sites ↔
      ReadsWithin host s (Excess.of s) sites :=
  valuesRead_eq_iff host s sites rfl rfl rfl rfl

/-- `mtc2` of a word to VZ0 and `mfc2` of it back. -/
def vectorSites : List (GteSite Word) :=
  [⟨0, 0x48880800#32, fun r => if r = 8 then 0x12345678#32 else 0, 0⟩,
    ⟨4, 0x48090800#32, fun _ => 0, 0⟩]

theorem strict_gte_reads_beyond :
    valuesRead cellHost id (blankState 0) vectorSites = [0x12345678#32] ∧
      valuesRead cellHost throughAccessors (blankState 0) vectorSites = [0x00005678#32] := by
  decide


end RecompStudio
