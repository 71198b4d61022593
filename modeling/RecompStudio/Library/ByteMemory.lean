import Mathlib.Data.BitVec
import Mathlib.Data.List.Nodup
import Mathlib.Tactic.IntervalCases
import Mathlib.Tactic.LinearCombination

/-!
Machine words and the memories that hold them. A memory is addressed by bytes, and its
addresses wrap around; a word is four bytes, the lowest address holding the lowest byte, at
any address. Of other stores only their cells are known: places that a write fills and that
no write to another cell touches. The remainder of a division of words is recovered from
its quotient.
-/

namespace RecompStudio.ByteMemory

/-- The word with the given bytes, the highest first. -/
def ofBytes (b₃ b₂ b₁ b₀ : BitVec 8) : BitVec 32 := b₃ ++ b₂ ++ b₁ ++ b₀

@[grind =] def byteAt (v : BitVec 32) (i : Nat) : BitVec 8 := v.extractLsb' (8 * i) 8

theorem getLsbD_ofBytes (b₃ b₂ b₁ b₀ : BitVec 8) (i : Nat) :
    (ofBytes b₃ b₂ b₁ b₀).getLsbD i =
      if i < 8 then b₀.getLsbD i
      else if i < 16 then b₁.getLsbD (i - 8)
      else if i < 24 then b₂.getLsbD (i - 16)
      else b₃.getLsbD (i - 24) := by
  simp only [ofBytes, BitVec.getLsbD_append]
  split_ifs
  all_goals first | rfl | omega

theorem getLsbD_byteAt (v : BitVec 32) (i j : Nat) :
    (byteAt v i).getLsbD j = (decide (j < 8) && v.getLsbD (8 * i + j)) := by
  rw [byteAt, BitVec.getLsbD_extractLsb']

/-- A word is determined by its bytes. -/
theorem eq_of_bytes {v w : BitVec 32} (h : ∀ i < 4, byteAt v i = byteAt w i) : v = w := by
  apply BitVec.eq_of_getLsbD_eq
  intro i hi
  have hByte := congrArg (BitVec.getLsbD · (i % 8)) (h (i / 8) (by omega))
  simp only [getLsbD_byteAt, Nat.div_add_mod] at hByte
  simpa [Nat.mod_lt i (show 0 < 8 by decide)] using hByte

/-- The `i`-th byte of a word given by its bytes. -/
theorem byteAt_ofBytes (b : Nat → BitVec 8) {i : Nat} (hi : i < 4) :
    byteAt (ofBytes (b 3) (b 2) (b 1) (b 0)) i = b i := by
  apply BitVec.eq_of_getLsbD_eq
  intro j hj
  rw [getLsbD_byteAt, getLsbD_ofBytes, decide_eq_true hj, Bool.true_and]
  interval_cases i
  all_goals
    split_ifs
    all_goals first | omega | (congr 1; omega)

variable {n : Nat}

abbrev Memory (n : Nat) := BitVec n → BitVec 8

def loadWord (m : Memory n) (a : BitVec n) : BitVec 32 :=
  ofBytes (m (a + BitVec.ofNat n 3)) (m (a + BitVec.ofNat n 2)) (m (a + BitVec.ofNat n 1))
    (m (a + BitVec.ofNat n 0))

@[grind =] def storeWord (m : Memory n) (a : BitVec n) (v : BitVec 32) : Memory n :=
  fun x => if (x - a).toNat < 4 then byteAt v (x - a).toNat else m x

variable {m : Memory n} {a p : BitVec n} {v w : BitVec 32}

theorem byteAt_loadWord (m : Memory n) (a : BitVec n) {i : Nat} (hi : i < 4) :
    byteAt (loadWord m a) i = m (a + BitVec.ofNat n i) :=
  byteAt_ofBytes (fun i => m (a + BitVec.ofNat n i)) hi

/-- Within four bytes of an address the offset is read back. -/
theorem offset_toNat (hn : 4 ≤ 2 ^ n) (a : BitVec n) {i : Nat} (hi : i < 4) :
    (a + BitVec.ofNat n i - a).toNat = i := by
  rw [BitVec.add_comm, BitVec.add_sub_cancel, BitVec.toNat_ofNat]
  exact Nat.mod_eq_of_lt (by omega)

theorem storeWord_at (hn : 4 ≤ 2 ^ n) (m : Memory n) (a : BitVec n) (v : BitVec 32) {i : Nat}
    (hi : i < 4) : storeWord m a v (a + BitVec.ofNat n i) = byteAt v i := by
  rw [storeWord, offset_toNat hn a hi, if_pos hi]

theorem storeWord_outside {x : BitVec n} (hx : 4 ≤ (x - a).toNat) :
    storeWord m a v x = m x := if_neg (by omega)

/-- A word is read back. -/
theorem loadWord_storeWord (hn : 4 ≤ 2 ^ n) (m : Memory n) (a : BitVec n) (v : BitVec 32) :
    loadWord (storeWord m a v) a = v :=
  eq_of_bytes fun i hi => by rw [byteAt_loadWord _ _ hi, storeWord_at hn m a v hi]

/-- A word that shares no byte with the stored one is read as before. -/
theorem loadWord_storeWord_apart (h : ∀ i < 4, 4 ≤ (p + BitVec.ofNat n i - a).toNat) :
    loadWord (storeWord m a v) p = loadWord m p :=
  eq_of_bytes fun i hi => by
    rw [byteAt_loadWord _ _ hi, byteAt_loadWord _ _ hi, storeWord_outside (h i hi)]

theorem storeWord_inj (hn : 4 ≤ 2 ^ n) : storeWord m a v = storeWord m a w ↔ v = w := by
  constructor
  · intro h
    rw [← loadWord_storeWord hn m a v, h, loadWord_storeWord hn]
  · rintro rfl
    rfl

/-- Two words that share no byte are stored independently. -/
theorem storeWord_pair_inj (hn : 4 ≤ 2 ^ n) {v' w' : BitVec 32}
    (h : ∀ i < 4, 4 ≤ (a + BitVec.ofNat n i - p).toNat) :
    storeWord (storeWord m a v) p w = storeWord (storeWord m a v') p w' ↔ v = v' ∧ w = w' := by
  constructor
  · intro hSame
    have hFirst := congrArg (loadWord · a) hSame
    have hSecond := congrArg (loadWord · p) hSame
    simp only [loadWord_storeWord_apart h, loadWord_storeWord hn] at hFirst hSecond
    exact ⟨hFirst, hSecond⟩
  · rintro ⟨rfl, rfl⟩
    rfl

end RecompStudio.ByteMemory

namespace RecompStudio.CellStore

variable {M A V : Type}

/-- A store, with what is read from it and written to it. -/
structure Store (M A V : Type) where
  read : M → A → V
  write : A → V → M → M

/-- The places that behave as cells. -/
structure Cells (S : Store M A V) (cell : A → Prop) : Prop where
  read_write : ∀ {a} v m, cell a → S.read (S.write a v m) a = v
  read_write_ne : ∀ {a b} v m, cell a → cell b → b ≠ a → S.read (S.write a v m) b = S.read m b

namespace Store

variable (S : Store M A V)

def writeAll (ws : List (A × V)) (m : M) : M := ws.foldl (fun m w => S.write w.1 w.2 m) m

variable {S} {cell : A → Prop} {ws : List (A × V)} {m : M} {a : A} {v : V}

theorem writeAll_cons {w : A × V} :
    S.writeAll (w :: ws) m = S.writeAll ws (S.write w.1 w.2 m) := rfl

theorem read_writeAll_of_notMem (hCells : Cells S cell) (hAll : ∀ w ∈ ws, cell w.1) (ha : cell a)
    (hNot : a ∉ ws.map Prod.fst) : S.read (S.writeAll ws m) a = S.read m a := by
  induction ws generalizing m with
  | nil => rfl
  | cons w ws ih =>
      rw [List.map_cons, List.mem_cons, not_or] at hNot
      rw [writeAll_cons, ih (fun w hw => hAll w (.tail _ hw)) hNot.2,
        hCells.read_write_ne _ _ (hAll w (.head _)) ha hNot.1]

/-- A block of writes to different cells is read back. -/
theorem read_writeAll_of_mem (hCells : Cells S cell) (hAll : ∀ w ∈ ws, cell w.1)
    (hNodup : (ws.map Prod.fst).Nodup) (hMem : (a, v) ∈ ws) : S.read (S.writeAll ws m) a = v := by
  induction ws generalizing m with
  | nil => exact absurd hMem List.not_mem_nil
  | cons w ws ih =>
      rw [List.map_cons, List.nodup_cons] at hNodup
      rw [writeAll_cons]
      rcases List.mem_cons.mp hMem with hHead | hTail
      · subst hHead
        rw [read_writeAll_of_notMem hCells (fun w hw => hAll w (.tail _ hw)) (hAll _ (.head _))
          hNodup.1, hCells.read_write _ _ (hAll _ (.head _))]
      · exact ih (fun w hw => hAll w (.tail _ hw)) hNodup.2 hTail

end Store

end RecompStudio.CellStore

namespace RecompStudio.BitVecDivision

variable {w : Nat} (n d : BitVec w)

theorem udiv_mul_add_umod : n / d * d + n % d = n := by
  apply BitVec.eq_of_toNat_eq
  have hDiv : n.toNat / d.toNat * d.toNat + n.toNat % d.toNat = n.toNat := Nat.div_add_mod' _ _
  rw [BitVec.toNat_add, BitVec.toNat_mul, BitVec.toNat_udiv, BitVec.toNat_umod,
    Nat.mod_add_mod, hDiv, Nat.mod_eq_of_lt n.isLt]

theorem sub_udiv_mul : n - n / d * d = n % d := by
  linear_combination -udiv_mul_add_umod n d

/-- Truncating division and its remainder, whatever the signs. -/
theorem sub_sdiv_mul : n - n.sdiv d * d = n.srem d := by
  rw [BitVec.sdiv_eq, BitVec.srem_eq]
  cases n.msb <;> cases d.msb <;> simp only [BitVec.udiv_eq]
  · linear_combination -udiv_mul_add_umod n d
  · linear_combination -udiv_mul_add_umod n (-d)
  · linear_combination udiv_mul_add_umod (-n) d
  · linear_combination udiv_mul_add_umod (-n) (-d)

end RecompStudio.BitVecDivision
