import RecompStudio.Bios.AddressMap
import RecompStudio.Library.BinarySearch
import Mathlib.Data.List.Sort

/-!
The BIOS dispatch table: its rows as the emitter concatenates them, and the
binary search of the emitted dispatcher over the row keys.
-/

namespace RecompStudio.BiosDispatch

local instance lawfulBEq_word : LawfulBEq Word := inferInstance

open RecompStudio.Bios

/-- `[[recompiler.bios_aliases]]`: a RAM stub that always calls one function. -/
structure BiosAlias where
  ramAddr : Word
  targetKey : Word
deriving DecidableEq, Repr

/-- `[[recompiler.bios_vectors]]`: a RAM stub that dispatches through a ROM table. -/
structure BiosVectorTable where
  ramAddr : Word
  indexReg : Nat
  tableRomAddr : Word
  tableCount : Word
  tableRamAddr : Word
deriving DecidableEq, Repr

structure ContinuationLabel where
  parentFuncNorm : Word
  romAddr : Word
deriving DecidableEq, Repr

/-- The C function that a row names. -/
inductive Handler where
  | biosAlias (stub : BiosAlias)
  | biosVec (table : BiosVectorTable)
  | func (norm : Word)
  | contWrapper (label : ContinuationLabel)
deriving DecidableEq, Repr

structure DispatchEntry where
  addr : Word
  func : Handler
deriving DecidableEq, Repr

/-- The inputs of `emit_dispatch`. The emitted keys are a set, listed in
ascending order; the continuations are a map from key to label. -/
structure DispatchConfig where
  emittedNormalized : List Word
  continuations : Word → Option ContinuationLabel
  romSize : Word
  baseAddr : Word
  biosVectors : List BiosVectorTable
  biosAliases : List BiosAlias
  emitted_sorted : emittedNormalized.Pairwise (· < ·)

namespace DispatchConfig

variable (cfg : DispatchConfig)

/-- The range check on a vector's ROM table, in 32-bit arithmetic. -/
def vectorInRom (bvt : BiosVectorTable) : Bool :=
  let basePhys := cfg.baseAddr &&& 0x1FFFFFFF#32
  let tablePhys := bvt.tableRomAddr &&& 0x1FFFFFFF#32
  !(decide (tablePhys < basePhys) ||
    decide (basePhys + cfg.romSize < tablePhys + bvt.tableCount * 4#32))

/-- The alias and vector rows, in configuration order. -/
def vecHandlers : List DispatchEntry :=
  (cfg.biosAliases.filter (fun ba => ba.targetKey ∈ cfg.emittedNormalized)).map
      (fun ba => ⟨ba.ramAddr, .biosAlias ba⟩) ++
    (cfg.biosVectors.filter cfg.vectorInRom).map (fun bvt => ⟨bvt.ramAddr, .biosVec bvt⟩)

def emittedRow (norm : Word) : DispatchEntry :=
  match cfg.continuations norm with
  | some label => ⟨norm, .contWrapper label⟩
  | none => ⟨norm, .func norm⟩

/-- `dispatch_table`. -/
def dispatchTable : List DispatchEntry :=
  cfg.vecHandlers ++ cfg.emittedNormalized.map cfg.emittedRow

end DispatchConfig

/-- The largest `int`. -/
@[grind =] def intMax : Int := 2147483647

/-- A row key as the unsigned number that the comparisons see. -/
def rowKey (table : List DispatchEntry) (i : Nat) : Nat :=
  (table[i]?.map (fun row => row.addr.toNat)).getD 0

/-- The search loop of `psx_dispatch_impl`, for at most `fuel` iterations. -/
def dispatchSearch (table : List DispatchEntry) (fuel : Nat) (addr : Word) :
    BinarySearch.Result :=
  BinarySearch.search intMax (rowKey table) (normalize addr).toNat fuel 0
    ((table.length : Int) - 1)

/-- The keys increase strictly, every address gets the row of its normalized
form or a miss, and no row is out of reach. -/
structure DispatchCorrect (table : List DispatchEntry) : Prop where
  increasing : (table.map DispatchEntry.addr).Pairwise (· < ·)
  hit : ∀ addr i, ∀ hi : i < table.length, (table.get ⟨i, hi⟩).addr = normalize addr →
    ∀ fuel, table.length < fuel → dispatchSearch table fuel addr = .found i
  miss : ∀ addr, (∀ row ∈ table, row.addr ≠ normalize addr) →
    ∀ fuel, table.length < fuel → dispatchSearch table fuel addr = .notFound
  reachable : ∀ i < table.length, ∃ addr, ∀ fuel, table.length < fuel →
    dispatchSearch table fuel addr = .found i

/-- The configured stubs ascend and lie below every emitted key, every key is
its own normalized form, and the table is small enough for `int` midpoints. -/
structure WellOrdered (cfg : DispatchConfig) : Prop where
  stubs_ascend : (cfg.vecHandlers.map DispatchEntry.addr).Pairwise (· < ·)
  stubs_below : ∀ stub ∈ cfg.vecHandlers, ∀ key ∈ cfg.emittedNormalized, stub.addr < key
  keys_normal : ∀ row ∈ cfg.dispatchTable, normalize row.addr = row.addr
  midpoints_fit : cfg.dispatchTable.length ≤ 2 ^ 30

section Rows

variable (cfg : DispatchConfig)

theorem emittedRow_addr (norm : Word) : (cfg.emittedRow norm).addr = norm := by
  rw [DispatchConfig.emittedRow]
  split <;> rfl

theorem dispatchTable_keys :
    cfg.dispatchTable.map DispatchEntry.addr =
      cfg.vecHandlers.map DispatchEntry.addr ++ cfg.emittedNormalized := by
  have hRows : (DispatchEntry.addr ∘ cfg.emittedRow) = id := by
    funext norm
    exact emittedRow_addr cfg norm
  rw [DispatchConfig.dispatchTable, List.map_append, List.map_map, hRows, List.map_id]

/-- Only the configured stubs can disturb the order. -/
theorem dispatchTable_increasing_iff :
    (cfg.dispatchTable.map DispatchEntry.addr).Pairwise (· < ·) ↔
      (cfg.vecHandlers.map DispatchEntry.addr).Pairwise (· < ·) ∧
        ∀ stub ∈ cfg.vecHandlers, ∀ key ∈ cfg.emittedNormalized, stub.addr < key := by
  rw [dispatchTable_keys, List.pairwise_append]
  constructor
  · rintro ⟨hStubs, _, hBelow⟩
    exact ⟨hStubs, fun stub hStub => hBelow _ (List.mem_map_of_mem hStub)⟩
  · rintro ⟨hStubs, hBelow⟩
    refine ⟨hStubs, cfg.emitted_sorted, ?_⟩
    intro a ha
    obtain ⟨stub, hStub, rfl⟩ := List.mem_map.mp ha
    exact hBelow stub hStub

end Rows

section Search

variable {table : List DispatchEntry}

theorem rowKey_eq {i : Nat} (hi : i < table.length) :
    rowKey table i = (table.get ⟨i, hi⟩).addr.toNat := by
  rw [rowKey, List.getElem?_eq_getElem hi]
  rfl

theorem rowKey_strictMono (hSorted : (table.map DispatchEntry.addr).Pairwise (· < ·)) :
    ∀ i j, i < j → j < table.length → rowKey table i < rowKey table j := by
  intro i j hij hj
  rw [rowKey_eq (hij.trans hj), rowKey_eq hj]
  have hPairs := List.pairwise_iff_getElem.mp hSorted i j
    (by simpa using hij.trans hj) (by simpa using hj) hij
  simpa [BitVec.lt_def] using hPairs

theorem dispatchSearch_spec (hSorted : (table.map DispatchEntry.addr).Pairwise (· < ·))
    (hSmall : table.length ≤ 2 ^ 30) (addr : Word) {fuel : Nat} (hFuel : table.length < fuel) :
    (∃ i < table.length, rowKey table i = (normalize addr).toNat ∧
        dispatchSearch table fuel addr = .found i) ∨
      ((∀ i < table.length, rowKey table i ≠ (normalize addr).toNat) ∧
        dispatchSearch table fuel addr = .notFound) := by
  refine BinarySearch.search_window (rowKey_strictMono hSorted) ?_ fuel _ _
    (BinarySearch.Window.full _ _ _) (by omega)
  rw [intMax]
  omega

theorem rowKey_inj (hSorted : (table.map DispatchEntry.addr).Pairwise (· < ·)) {i j : Nat}
    (hi : i < table.length) (hj : j < table.length) (h : rowKey table i = rowKey table j) :
    i = j := by
  rcases Nat.lt_trichotomy i j with hLt | hEq | hGt
  · exact absurd h (rowKey_strictMono hSorted i j hLt hj).ne
  · exact hEq
  · exact absurd h.symm (rowKey_strictMono hSorted j i hGt hi).ne

theorem dispatchSearch_found (hSorted : (table.map DispatchEntry.addr).Pairwise (· < ·))
    (hSmall : table.length ≤ 2 ^ 30) {addr : Word} {i : Nat} (hi : i < table.length)
    (hKey : rowKey table i = (normalize addr).toNat) {fuel : Nat} (hFuel : table.length < fuel) :
    dispatchSearch table fuel addr = .found i := by
  rcases dispatchSearch_spec hSorted hSmall addr hFuel with ⟨j, hj, hSame, hFound⟩ | ⟨hNone, _⟩
  · obtain rfl : j = i := rowKey_inj hSorted hj hi (hSame.trans hKey.symm)
    exact hFound
  · exact absurd hKey (hNone i hi)

/-- A row that the search can report has its own normalized form as its key. -/
theorem key_normal_of_found {addr : Word} {fuel i : Nat} (hi : i < table.length)
    (hFound : dispatchSearch table fuel addr = .found i) :
    normalize (table.get ⟨i, hi⟩).addr = (table.get ⟨i, hi⟩).addr := by
  obtain ⟨hKey, _⟩ := BinarySearch.search_found_midpoint (n := table.length) fuel _ _
    (by omega) le_rfl hFound
  rw [rowKey_eq hi] at hKey
  rw [BitVec.eq_of_toNat_eq hKey, normalize_idempotent]

/-- Reaching the last row takes a midpoint sum of twice its index. -/
theorem length_le_of_found_last {addr : Word} {fuel : Nat}
    (hFound : dispatchSearch table fuel addr = .found (table.length - 1)) :
    table.length ≤ 2 ^ 30 := by
  obtain ⟨_, lo, hi, hLe, hHi, hSum, hMid⟩ := BinarySearch.search_found_midpoint
    (n := table.length) fuel _ _ (by omega) le_rfl hFound
  rw [intMax] at hSum
  omega

end Search

/-- The emitted table is correct, as a table that a binary search over `int` positions reads,
exactly for well-ordered configurations. -/
theorem dispatchCorrect_iff_wellOrdered (cfg : DispatchConfig) :
    DispatchCorrect cfg.dispatchTable ↔ WellOrdered cfg := by
  constructor
  · intro hCorrect
    obtain ⟨hStubs, hBelow⟩ := (dispatchTable_increasing_iff cfg).mp hCorrect.increasing
    refine ⟨hStubs, hBelow, ?_, ?_⟩
    · intro row hRow
      obtain ⟨⟨i, hi⟩, rfl⟩ := List.mem_iff_get.mp hRow
      obtain ⟨addr, hFound⟩ := hCorrect.reachable i hi
      exact key_normal_of_found hi (hFound _ (Nat.lt_succ_self _))
    · rcases Nat.eq_zero_or_pos cfg.dispatchTable.length with hEmpty | hPos
      · omega
      · obtain ⟨addr, hFound⟩ := hCorrect.reachable (cfg.dispatchTable.length - 1) (by omega)
        exact length_le_of_found_last (hFound _ (Nat.lt_succ_self _))
  · intro hOrdered
    have hSorted := (dispatchTable_increasing_iff cfg).mpr
      ⟨hOrdered.stubs_ascend, hOrdered.stubs_below⟩
    have hSmall := hOrdered.midpoints_fit
    refine ⟨hSorted, ?_, ?_, ?_⟩
    · intro addr i hi hKey fuel hFuel
      exact dispatchSearch_found hSorted hSmall hi (by rw [rowKey_eq hi, hKey]) hFuel
    · intro addr hAbsent fuel hFuel
      rcases dispatchSearch_spec hSorted hSmall addr hFuel with ⟨i, hi, hKey, _⟩ | ⟨_, hMiss⟩
      · rw [rowKey_eq hi] at hKey
        exact absurd (BitVec.eq_of_toNat_eq hKey) (hAbsent _ (List.get_mem _ _))
      · exact hMiss
    · intro i hi
      refine ⟨(cfg.dispatchTable.get ⟨i, hi⟩).addr, fun fuel hFuel => ?_⟩
      refine dispatchSearch_found hSorted hSmall hi ?_ hFuel
      rw [rowKey_eq hi, hOrdered.keys_normal _ (List.get_mem _ _)]

/-- The alias that the configuration format documents: the stub at `0xCF0`
calls the function at `0x641C`, beside a kernel function at `0x500`. -/
def sioAliasConfig : DispatchConfig where
  emittedNormalized := [0x500, 0x641C]
  continuations := fun _ => none
  romSize := 0x80000
  baseAddr := 0xBFC00000
  biosVectors := []
  biosAliases := [⟨0xCF0, 0x641C⟩]
  emitted_sorted := by decide

theorem sioAlias_not_dispatchable :
    dispatchSearch sioAliasConfig.dispatchTable 4 0xCF0 = .notFound ∧
      ¬ DispatchCorrect sioAliasConfig.dispatchTable := by
  have hMiss : dispatchSearch sioAliasConfig.dispatchTable 4 0xCF0 = .notFound := by decide
  refine ⟨hMiss, fun hCorrect => ?_⟩
  have hHit := hCorrect.hit 0xCF0 0 (by decide) (by decide) 4 (by decide)
  rw [hMiss] at hHit
  exact BinarySearch.Result.noConfusion hHit

end RecompStudio.BiosDispatch
