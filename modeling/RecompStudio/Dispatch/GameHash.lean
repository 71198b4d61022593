import RecompStudio.Cpu.Word
import RecompStudio.Library.OpenAddressing
import Mathlib.Data.List.Sort

/-!
The game dispatch table: the records that the generator collects, the hash
table that it builds over them, and the lookup of the emitted C.
-/

namespace RecompStudio.GameDispatch

local instance lawfulBEq_word : LawfulBEq Word := inferInstance

/-- One row of `k_psx_game_dispatch`. A function start resumes at zero, a
continuation resumes at its own address inside the owner. -/
structure DispatchRecord where
  addr : Word
  resume : Word
  owner : Word
deriving DecidableEq, Repr

/-- What the generator knows when it builds the table. The function addresses
come from a set and the continuations from a map keyed by address. -/
structure DispatchInput where
  dispatchAddrs : List Word
  cpsEnabled : Bool
  cpsContinuations : List (Word × Word)
  addrs_nodup : dispatchAddrs.Nodup
  conts_nodup : (cpsContinuations.map Prod.fst).Nodup

/-- The records before sorting: every function start, then every continuation
that is not itself a function start. -/
@[grind =] def DispatchInput.collected (p : DispatchInput) : List DispatchRecord :=
  p.dispatchAddrs.map (fun addr => ⟨addr, 0, addr⟩) ++
    if p.cpsEnabled then
      (p.cpsContinuations.filter (fun c => c.1 ∉ p.dispatchAddrs)).map
        (fun c => ⟨c.1, c.1, c.2⟩)
    else []

/-- The records in ascending address order. -/
def DispatchInput.records (p : DispatchInput) : List DispatchRecord :=
  p.collected.insertionSort (fun a b => a.addr ≤ b.addr)

/-- `while (hash_size < need) hash_size <<= 1`; `need` doublings are enough. -/
def growHashSize (need : Nat) : Nat → Nat → Nat
  | 0, hashSize => hashSize
  | fuel + 1, hashSize =>
      if hashSize < need then growHashSize need fuel (hashSize <<< 1) else hashSize

def hashSizeFor (count : Nat) : Nat := growHashSize (count * 2) (count * 2) 1

/-- `((addr >> 2) * 2654435761) & mask` in 32-bit arithmetic. -/
def homeSlot (mask addr : Word) : Word := ((addr >>> 2) * 2654435761#32) &&& mask

def nextSlot (mask slot : Word) : Word := (slot + 1) &&& mask

/-- The placement loop `while (hash_slots[slot] != 0)`. -/
def placeSlot (slots : List Word) (mask : Word) : Nat → Word → Option Word
  | 0, _ => none
  | fuel + 1, slot =>
      if slots.getD slot.toNat 0 ≠ 0 then placeSlot slots mask fuel (nextSlot mask slot)
      else some slot

/-- Place the records from index `i` on. A slot holds the record index plus one. -/
def placeRecords (mask : Word) (fuel : Nat) :
    List DispatchRecord → Nat → List Word → Option (List Word)
  | [], _, slots => some slots
  | r :: rest, i, slots =>
      match placeSlot slots mask fuel (homeSlot mask r.addr) with
      | none => none
      | some slot =>
          placeRecords mask fuel rest (i + 1) (slots.set slot.toNat (BitVec.ofNat 32 (i + 1)))

/-- The probe loop that the generator replays and the emitted
`psx_game_find_entry` runs: the first record met whose address matches. The
outer `none` stands for a loop still running or a read past the records. -/
def findIndex (records : List DispatchRecord) (slots : List Word) (mask addr : Word) :
    Nat → Word → Option (Option Nat)
  | 0, _ => none
  | fuel + 1, slot =>
      let encoded := slots.getD slot.toNat 0
      if encoded = 0 then some none
      else
        match records[encoded.toNat - 1]? with
        | none => none
        | some r =>
            if r.addr = addr then some (some (encoded.toNat - 1))
            else findIndex records slots mask addr fuel (nextSlot mask slot)

/-- The generator's own replay: each record must resolve to itself. -/
def selfCheck (records : List DispatchRecord) (slots : List Word) (mask : Word)
    (hashSize : Nat) : Bool :=
  (List.range records.length).all fun expected =>
    match records[expected]? with
    | none => false
    | some r =>
        findIndex records slots mask r.addr hashSize (homeSlot mask r.addr) = some (some expected)

/-- The arrays of the emitted C file. -/
structure DispatchTables where
  entries : List DispatchRecord
  hash : List Word
  hashMask : Word

/-- The element type of the emitted hash array is `uint16_t` for at most 65535
records, and the lookup widens what it reads. -/
def storeSlots (count : Nat) (slots : List Word) : List Word :=
  if count ≤ 65535 then slots.map (fun v => (v.truncate 16).zeroExtend 32) else slots

inductive DispatchError where
  | exceedsAddressSpace
  | placementRunsForever
  | selfCheckFailed
deriving DecidableEq, Repr

/-- The table generation of the game recompiler. -/
def generateDispatch (p : DispatchInput) : Except DispatchError DispatchTables :=
  let records := p.records
  let hashSize := hashSizeFor records.length
  if 0x100000000 < hashSize then .error .exceedsAddressSpace
  else
    let mask := BitVec.ofNat 32 (hashSize - 1)
    match placeRecords mask hashSize records 0 (List.replicate hashSize 0) with
    | none => .error .placementRunsForever
    | some slots =>
        if selfCheck records slots mask hashSize then
          .ok ⟨records, storeSlots records.length slots, mask⟩
        else .error .selfCheckFailed

/-- `psx_game_canonical_address`. -/
def canonicalAddress (addr : Word) : Word :=
  let phys := addr &&& 0x1FFFFFFF
  if phys < 0x00800000 then 0x80000000 ||| (phys &&& 0x001FFFFF) else addr

/-- `psx_game_find_entry`, run for at most `fuel` probes. -/
def findEntry (t : DispatchTables) (fuel : Nat) (addr : Word) :
    Option (Option DispatchRecord) :=
  (findIndex t.entries t.hash t.hashMask addr fuel (homeSlot t.hashMask addr)).map
    (fun found => found.bind (fun i => t.entries[i]?))

/-- `psx_dispatch_game_compiled` up to the call: the entry that will run. -/
def dispatchGameCompiled (t : DispatchTables) (fuel : Nat) (addr : Word) :
    Option (Option DispatchRecord) :=
  findEntry t fuel (canonicalAddress addr)

/-- What the inputs register for an address, read off the inputs alone. -/
@[grind =] def DispatchInput.registered (p : DispatchInput) (addr : Word) : Option DispatchRecord :=
  if addr ∈ p.dispatchAddrs then some ⟨addr, 0, addr⟩
  else if p.cpsEnabled then
    (p.cpsContinuations.lookup addr).map (fun owner => ⟨addr, addr, owner⟩)
  else none

theorem growHashSize_spec (need fuel : Nat) (bits : Nat) (hFuel : need ≤ 2 ^ (bits + fuel)) :
    ∃ b, growHashSize need fuel (2 ^ bits) = 2 ^ b ∧ need ≤ 2 ^ b := by
  induction fuel generalizing bits with
  | zero => exact ⟨bits, rfl, by simpa using hFuel⟩
  | succ fuel ih =>
      rw [growHashSize]
      split
      · rw [Nat.shiftLeft_eq, ← Nat.pow_succ]
        exact ih (bits + 1) (by rwa [Nat.add_right_comm])
      · exact ⟨bits, rfl, by omega⟩

/-- The table size is a power of two with a load of at most one half. -/
theorem hashSizeFor_spec (count : Nat) :
    ∃ b, hashSizeFor count = 2 ^ b ∧ count * 2 ≤ 2 ^ b := by
  refine growHashSize_spec (count * 2) (count * 2) 0 ?_
  rw [Nat.zero_add]
  exact Nat.lt_two_pow_self.le

theorem bits_le_of_hashSize {count b : Nat} (hSize : hashSizeFor count = 2 ^ b)
    (hFits : hashSizeFor count ≤ 2 ^ 32) : b ≤ 32 := by
  rw [hSize] at hFits
  exact (Nat.pow_le_pow_iff_right (by decide)).mp hFits

section Masks

variable {b : Nat}

private theorem mask_toNat (hb : b ≤ 32) :
    (BitVec.ofNat 32 (2 ^ b - 1)).toNat = 2 ^ b - 1 := by
  have hPow : 2 ^ b ≤ 2 ^ 32 := Nat.pow_le_pow_right (by decide) hb
  have hPos : 0 < 2 ^ b := Nat.two_pow_pos b
  rw [BitVec.toNat_ofNat, Nat.mod_eq_of_lt (by omega)]

private theorem and_mask_toNat (hb : b ≤ 32) (x : Word) :
    (x &&& BitVec.ofNat 32 (2 ^ b - 1)).toNat = x.toNat % 2 ^ b := by
  rw [BitVec.toNat_and, mask_toNat hb, Nat.and_two_pow_sub_one_eq_mod]

theorem homeSlot_lt (hb : b ≤ 32) (addr : Word) :
    (homeSlot (BitVec.ofNat 32 (2 ^ b - 1)) addr).toNat < 2 ^ b := by
  rw [homeSlot, and_mask_toNat hb]
  exact Nat.mod_lt _ (Nat.two_pow_pos b)

/-- The 32-bit increment may wrap; the mask absorbs the wrap. -/
theorem nextSlot_toNat (hb : b ≤ 32) (slot : Word) :
    (nextSlot (BitVec.ofNat 32 (2 ^ b - 1)) slot).toNat = (slot.toNat + 1) % 2 ^ b := by
  have hDvd : 2 ^ b ∣ 2 ^ 32 := Nat.pow_dvd_pow 2 hb
  rw [nextSlot, and_mask_toNat hb, BitVec.toNat_add]
  exact Nat.mod_mod_of_dvd _ hDvd

end Masks

section Tables

/-- A slot word read as a table cell. -/
@[grind =] def cellOf (slots : List Word) (s : Nat) : Option Nat :=
  if slots.getD s 0 = 0 then none else some ((slots.getD s 0).toNat - 1)

@[grind =] def keyOf (records : List DispatchRecord) (i : Nat) : Word :=
  (records[i]?.map DispatchRecord.addr).getD 0

variable {b : Nat} {records : List DispatchRecord} {slots : List Word}

theorem cellOf_replicate (n : Nat) : cellOf (List.replicate n 0) = fun _ => none := by
  funext s
  have hZero : (List.replicate n (0 : Word)).getD s 0 = 0 := by
    rw [List.getD_eq_getElem?_getD, List.getElem?_replicate]
    split <;> rfl
  rw [cellOf, if_pos hZero]

theorem cellOf_set {s i : Nat} (hs : s < slots.length) (hi : i + 1 < 2 ^ 32) :
    cellOf (slots.set s (BitVec.ofNat 32 (i + 1))) =
      Function.update (cellOf slots) s (some i) := by
  funext t
  by_cases hEq : t = s
  · subst hEq
    have hRead : (slots.set t (BitVec.ofNat 32 (i + 1))).getD t 0 = BitVec.ofNat 32 (i + 1) := by
      simp [List.getD_eq_getElem?_getD, hs]
    have hVal : (BitVec.ofNat 32 (i + 1)).toNat = i + 1 := by
      rw [BitVec.toNat_ofNat, Nat.mod_eq_of_lt hi]
    have hNonzero : BitVec.ofNat 32 (i + 1) ≠ 0 := by
      intro h
      have := congrArg BitVec.toNat h
      rw [hVal] at this
      simp at this
    rw [cellOf, hRead, if_neg hNonzero, hVal, Function.update_self, Nat.add_sub_cancel]
  · have hRead : (slots.set s (BitVec.ofNat 32 (i + 1))).getD t 0 = slots.getD t 0 := by
      simp [List.getD_eq_getElem?_getD, List.getElem?_set_ne (Ne.symm hEq)]
    rw [cellOf, hRead, Function.update_of_ne hEq, cellOf]

theorem placeSlot_toNat (slots : List Word) (hb : b ≤ 32) (fuel : Nat) (slot : Word) :
    (placeSlot slots (BitVec.ofNat 32 (2 ^ b - 1)) fuel slot).map BitVec.toNat =
      OpenAddressing.vacant (2 ^ b) (cellOf slots) fuel slot.toNat := by
  induction fuel generalizing slot with
  | zero => rfl
  | succ fuel ih =>
      rw [placeSlot, OpenAddressing.vacant, cellOf]
      by_cases hEmpty : slots.getD slot.toNat 0 = 0
      · simp only [hEmpty, ne_eq, not_true_eq_false, if_false, if_true]
        rfl
      · simp only [ne_eq, hEmpty, not_false_eq_true, if_true, if_false]
        rw [ih, nextSlot_toNat hb]

/-- The emitted loop is the abstract search as long as used cells name records. -/
theorem findIndex_eq_search (hb : b ≤ 32)
    (hNamed : ∀ s < 2 ^ b, ∀ i, cellOf slots s = some i → i < records.length)
    (addr : Word) (fuel : Nat) (slot : Word) (hSlot : slot.toNat < 2 ^ b) :
    findIndex records slots (BitVec.ofNat 32 (2 ^ b - 1)) addr fuel slot =
      OpenAddressing.search (2 ^ b) (cellOf slots) (keyOf records) addr fuel slot.toNat := by
  induction fuel generalizing slot with
  | zero => rfl
  | succ fuel ih =>
      have hNext : (nextSlot (BitVec.ofNat 32 (2 ^ b - 1)) slot).toNat < 2 ^ b := by
        rw [nextSlot_toNat hb]
        exact Nat.mod_lt _ (Nat.two_pow_pos b)
      have hCell := hNamed _ hSlot
      rw [findIndex, OpenAddressing.search]
      by_cases hEmpty : slots.getD slot.toNat 0 = 0
      · simp only [cellOf, hEmpty, if_true]
      · simp only [cellOf, if_neg hEmpty] at hCell ⊢
        have hLt := hCell _ rfl
        have hRead := List.getElem?_eq_getElem hLt
        have hKey : keyOf records ((slots.getD slot.toNat 0).toNat - 1) =
            (records[(slots.getD slot.toNat 0).toNat - 1]).addr := by
          rw [keyOf, hRead]
          rfl
        simp only [hRead, hKey]
        split
        · rfl
        · rw [ih _ hNext, nextSlot_toNat hb]

/-- The home slot of a key in a table of `2 ^ b` slots. -/
def homeOf (b : Nat) (addr : Word) : Nat :=
  (homeSlot (BitVec.ofNat 32 (2 ^ b - 1)) addr).toNat

/-- The slots hold the first `n` records. -/
def Holds (b : Nat) (records : List DispatchRecord) (slots : List Word) (n : Nat) : Prop :=
  slots.length = 2 ^ b ∧
    OpenAddressing.Represents (2 ^ b) (homeOf b) (keyOf records) (cellOf slots) (List.range n)

theorem Holds.initial (b : Nat) (records : List DispatchRecord) :
    Holds b records (List.replicate (2 ^ b) 0) 0 := by
  refine ⟨List.length_replicate, ?_⟩
  rw [cellOf_replicate]
  exact OpenAddressing.Represents.empty _ _ _

/-- One iteration of the placement loop stores one more record. -/
theorem Holds.place (hb : b ≤ 32) {n : Nat} (h : Holds b records slots n)
    (hLoad : (n + 1) * 2 ≤ 2 ^ b) (hn : n < records.length) :
    ∃ slot, placeSlot slots (BitVec.ofNat 32 (2 ^ b - 1)) (2 ^ b)
        (homeSlot (BitVec.ofNat 32 (2 ^ b - 1)) (records[n]).addr) = some slot ∧
      Holds b records (slots.set slot.toNat (BitVec.ofNat 32 (n + 1))) (n + 1) := by
  obtain ⟨hLength, hTable⟩ := h
  have hKey : keyOf records n = (records[n]).addr := by
    rw [keyOf, List.getElem?_eq_getElem hn]
    rfl
  have hHome : homeOf b (keyOf records n) < 2 ^ b := homeSlot_lt hb _
  obtain ⟨d, hd, hVacant, hFree, hUsed⟩ :=
    hTable.exists_vacant (by rw [List.length_range]; omega) hHome le_rfl
  have hPlace := placeSlot_toNat slots hb (2 ^ b)
    (homeSlot (BitVec.ofNat 32 (2 ^ b - 1)) (records[n]).addr)
  rw [← hKey] at hPlace ⊢
  change _ = OpenAddressing.vacant (2 ^ b) (cellOf slots) (2 ^ b) (homeOf b (keyOf records n))
    at hPlace
  rw [hVacant] at hPlace
  obtain ⟨slot, hSlot, hNat⟩ := Option.map_eq_some_iff.mp hPlace
  refine ⟨slot, hSlot, by rw [List.length_set, hLength], ?_⟩
  have hPow : 2 ^ b ≤ 2 ^ 32 := Nat.pow_le_pow_right (by decide) hb
  have hSlotLt : slot.toNat < slots.length := by
    rw [hNat, hLength]
    exact OpenAddressing.probe_lt (Nat.two_pow_pos b) d
  rw [cellOf_set hSlotLt (by omega), List.range_succ, hNat]
  exact hTable.store n hHome hd hFree hUsed

theorem placeRecords_holds (hb : b ≤ 32) (hLoad : records.length * 2 ≤ 2 ^ b)
    (rest : List DispatchRecord) (n : Nat) (hRest : records.drop n = rest)
    (h : Holds b records slots n) :
    ∃ final, placeRecords (BitVec.ofNat 32 (2 ^ b - 1)) (2 ^ b) rest n slots = some final ∧
      Holds b records final (n + rest.length) := by
  induction rest generalizing n slots with
  | nil => exact ⟨slots, rfl, h⟩
  | cons r rest ih =>
      have hn : n < records.length := by
        by_contra hLe
        rw [List.drop_eq_nil_of_le (by omega)] at hRest
        exact List.cons_ne_nil _ _ hRest.symm
      rw [List.drop_eq_getElem_cons hn] at hRest
      obtain ⟨hHead, hTail⟩ := List.cons.inj hRest
      obtain ⟨slot, hSlot, hNext⟩ := h.place hb (by omega) hn
      obtain ⟨final, hFinal, hHolds⟩ := ih (n + 1) hTail hNext
      refine ⟨final, ?_, ?_⟩
      · rw [placeRecords, ← hHead, hSlot]
        exact hFinal
      · rw [List.length_cons]
        have hCount : n + 1 + rest.length = n + (rest.length + 1) := by omega
        rwa [hCount] at hHolds

/-- What the probe loop answers once every record is stored. -/
theorem Holds.findIndex_eq (hb : b ≤ 32) (hLoad : records.length * 2 ≤ 2 ^ b)
    (hNodup : (records.map DispatchRecord.addr).Nodup)
    (h : Holds b records slots records.length) (addr : Word) {fuel : Nat} (hFuel : 2 ^ b ≤ fuel) :
    (∃ i, ∃ hi : i < records.length, (records[i]).addr = addr ∧
      findIndex records slots (BitVec.ofNat 32 (2 ^ b - 1)) addr fuel
        (homeSlot (BitVec.ofNat 32 (2 ^ b - 1)) addr) = some (some i)) ∨
    ((∀ r ∈ records, r.addr ≠ addr) ∧
      findIndex records slots (BitVec.ofNat 32 (2 ^ b - 1)) addr fuel
        (homeSlot (BitVec.ofNat 32 (2 ^ b - 1)) addr) = some none) := by
  obtain ⟨_, hTable⟩ := h
  have hHome : ∀ a, homeOf b a < 2 ^ b := homeSlot_lt hb
  have hKey : ∀ i, ∀ hi : i < records.length, keyOf records i = (records[i]).addr := by
    intro i hi
    rw [keyOf, List.getElem?_eq_getElem hi]
    rfl
  have hNamed : ∀ s < 2 ^ b, ∀ i, cellOf slots s = some i → i < records.length := by
    intro s hs i hCell
    exact List.mem_range.mp (hTable.sound s hs i hCell)
  have hDistinct : ∀ i ∈ List.range records.length, ∀ j ∈ List.range records.length,
      keyOf records i = keyOf records j → i = j := by
    intro i hi j hj hSame
    rw [List.mem_range] at hi hj
    rw [hKey i hi, hKey j hj] at hSame
    have hi' : i < (records.map DispatchRecord.addr).length := by simpa using hi
    have hj' : j < (records.map DispatchRecord.addr).length := by simpa using hj
    have hGet := hNodup.get_inj_iff (i := ⟨i, hi'⟩) (j := ⟨j, hj'⟩)
    simpa using hGet.mp (by simpa using hSame)
  rw [findIndex_eq_search hb hNamed addr fuel _ (hHome addr)]
  change (∃ i, ∃ hi : i < records.length, (records[i]).addr = addr ∧
      OpenAddressing.search _ _ _ addr fuel (homeOf b addr) = _) ∨ (_ ∧
      OpenAddressing.search _ _ _ addr fuel (homeOf b addr) = _)
  by_cases hStored : ∃ i, ∃ hi : i < records.length, (records[i]).addr = addr
  · obtain ⟨i, hi, rfl⟩ := hStored
    refine Or.inl ⟨i, hi, rfl, ?_⟩
    rw [← hKey i hi]
    exact hTable.search_stored hDistinct (List.mem_range.mpr hi) (hHome _) hFuel
  · push Not at hStored
    refine Or.inr ⟨?_, ?_⟩
    · intro r hr
      obtain ⟨i, hi, rfl⟩ := List.mem_iff_getElem.mp hr
      exact hStored i hi
    · have hPos : 0 < 2 ^ b := Nat.two_pow_pos b
      refine hTable.search_absent (by rw [List.length_range]; omega) ?_ (hHome _) hFuel
      intro i hi
      rw [List.mem_range] at hi
      rw [hKey i hi]
      exact hStored i hi

/-- The narrow element type of the emitted array loses nothing. -/
theorem Holds.storeSlots_eq (h : Holds b records slots records.length) :
    storeSlots records.length slots = slots := by
  obtain ⟨hLength, hTable⟩ := h
  rw [storeSlots]
  split
  · rename_i hCompact
    refine (List.map_congr_left ?_).trans (List.map_id slots)
    intro v hv
    obtain ⟨s, hs, rfl⟩ := List.mem_iff_getElem.mp hv
    by_cases hZero : slots[s] = 0
    · rw [hZero]
      rfl
    · have hRead : slots.getD s 0 = slots[s] := by simp [hs]
      have hCell : cellOf slots s = some (slots[s].toNat - 1) := by
        rw [cellOf, hRead, if_neg hZero]
      have hIndex := List.mem_range.mp (hTable.sound s (by omega) _ hCell)
      apply BitVec.eq_of_toNat_eq
      have hSmall : slots[s].toNat < 2 ^ 16 := by omega
      simp only [id_eq, BitVec.truncate_eq_setWidth, BitVec.toNat_setWidth]
      rw [Nat.mod_eq_of_lt hSmall, Nat.mod_eq_of_lt (by omega)]
  · rfl

end Tables

section Records

variable (p : DispatchInput)

theorem collected_addr_nodup : (p.collected.map DispatchRecord.addr).Nodup := by
  have hFunctions : (p.dispatchAddrs.map (fun addr => (⟨addr, 0, addr⟩ : DispatchRecord))).map
      DispatchRecord.addr = p.dispatchAddrs := by
    rw [List.map_map]
    exact List.map_id _
  rw [DispatchInput.collected, List.map_append, hFunctions]
  cases p.cpsEnabled with
  | false => simpa using p.addrs_nodup
  | true =>
      simp only [if_true, List.map_map]
      refine List.Nodup.append p.addrs_nodup ?_ ?_
      · exact (List.Nodup.sublist (List.filter_sublist.map Prod.fst) p.conts_nodup)
      · intro a hFunction hCont
        obtain ⟨c, hc, rfl⟩ := List.mem_map.mp hCont
        have hFiltered := (List.mem_filter.mp hc).2
        simp at hFiltered
        exact hFiltered hFunction

theorem records_addr_nodup : (p.records.map DispatchRecord.addr).Nodup :=
  ((List.perm_insertionSort _ p.collected).map _).nodup_iff.mpr (collected_addr_nodup p)

private theorem lookup_eq_some_iff_mem {conts : List (Word × Word)}
    (hNodup : (conts.map Prod.fst).Nodup) (a o : Word) :
    conts.lookup a = some o ↔ (a, o) ∈ conts := by
  induction conts with
  | nil => simp
  | cons c rest ih =>
      obtain ⟨key, owner⟩ := c
      rw [List.map_cons, List.nodup_cons] at hNodup
      have ih := ih hNodup.2
      by_cases hKey : a = key
      · subst hKey
        have hFresh : (a, o) ∉ rest := fun h => hNodup.1 (List.mem_map.mpr ⟨(a, o), h, rfl⟩)
        simp [hFresh, eq_comm]
      · simp [List.lookup_cons, hKey, ih, beq_eq_false_iff_ne.mpr hKey]

/-- The records are exactly what the inputs register. -/
theorem mem_records_iff (r : DispatchRecord) :
    r ∈ p.records ↔ p.registered r.addr = some r := by
  rw [DispatchInput.records, List.mem_insertionSort, DispatchInput.collected,
    DispatchInput.registered, List.mem_append]
  obtain ⟨addr, resume, owner⟩ := r
  have hFunction : (⟨addr, resume, owner⟩ : DispatchRecord) ∈
      p.dispatchAddrs.map (fun a => ⟨a, 0, a⟩) ↔
        addr ∈ p.dispatchAddrs ∧ resume = 0 ∧ owner = addr := by
    simp only [List.mem_map, DispatchRecord.mk.injEq]
    constructor
    · rintro ⟨a, ha, rfl, rfl, rfl⟩
      exact ⟨ha, rfl, rfl⟩
    · rintro ⟨ha, rfl, rfl⟩
      exact ⟨_, ha, rfl, rfl, rfl⟩
  have hCont : (⟨addr, resume, owner⟩ : DispatchRecord) ∈
      (p.cpsContinuations.filter (fun c => c.1 ∉ p.dispatchAddrs)).map
        (fun c => ⟨c.1, c.1, c.2⟩) ↔
        addr ∉ p.dispatchAddrs ∧ p.cpsContinuations.lookup addr = some owner ∧ resume = addr := by
    rw [lookup_eq_some_iff_mem p.conts_nodup]
    simp only [List.mem_map, List.mem_filter, decide_eq_true_eq, DispatchRecord.mk.injEq]
    constructor
    · rintro ⟨⟨a, o⟩, ⟨hMem, hNew⟩, rfl, rfl, rfl⟩
      exact ⟨hNew, hMem, rfl⟩
    · rintro ⟨hNew, hMem, rfl⟩
      exact ⟨(resume, owner), ⟨hMem, hNew⟩, rfl, rfl, rfl⟩
  rw [hFunction]
  by_cases hMem : addr ∈ p.dispatchAddrs
  · have hSame : (⟨addr, 0, addr⟩ : DispatchRecord) = ⟨addr, resume, owner⟩ ↔
        resume = 0 ∧ owner = addr := by
      simp only [DispatchRecord.mk.injEq, true_and, eq_comm]
    rw [if_pos hMem, Option.some_inj, hSame]
    cases p.cpsEnabled with
    | false => simp [hMem]
    | true =>
        simp only [if_true]
        rw [hCont]
        simp [hMem]
  · rw [if_neg hMem]
    cases p.cpsEnabled with
    | false => simp [hMem]
    | true =>
        simp only [if_true]
        rw [hCont, Option.map_eq_some_iff]
        simp only [hMem, false_and, false_or, not_false_eq_true, true_and, DispatchRecord.mk.injEq]
        constructor
        · rintro ⟨hOwner, rfl⟩
          exact ⟨owner, hOwner, rfl, rfl⟩
        · rintro ⟨o, hOwner, rfl, rfl⟩
          exact ⟨hOwner, rfl⟩

theorem registered_addr {addr : Word} {r : DispatchRecord} (h : p.registered addr = some r) :
    r.addr = addr := by
  rw [DispatchInput.registered] at h
  split at h
  · rw [← Option.some.inj h]
  · split at h
    · obtain ⟨owner, _, rfl⟩ := Option.map_eq_some_iff.mp h
      rfl
    · exact absurd h (Option.some_ne_none r).symm

theorem registered_eq_none_iff (addr : Word) :
    p.registered addr = none ↔ ∀ r ∈ p.records, r.addr ≠ addr := by
  constructor
  · rintro hNone r hr rfl
    rw [(mem_records_iff p r).mp hr] at hNone
    exact Option.some_ne_none r hNone
  · intro hAbsent
    by_contra hSome
    obtain ⟨r, hr⟩ := Option.ne_none_iff_exists'.mp hSome
    have hAddr := registered_addr p hr
    exact hAbsent r ((mem_records_iff p r).mpr (by rw [hAddr, hr])) hAddr

end Records

theorem selfCheck_holds {b : Nat} (hb : b ≤ 32) {records : List DispatchRecord} {slots : List Word}
    (hLoad : records.length * 2 ≤ 2 ^ b)
    (hNodup : (records.map DispatchRecord.addr).Nodup)
    (h : Holds b records slots records.length) :
    selfCheck records slots (BitVec.ofNat 32 (2 ^ b - 1)) (2 ^ b) = true := by
  rw [selfCheck, List.all_eq_true]
  intro expected hExpected
  rw [List.mem_range] at hExpected
  rw [List.getElem?_eq_getElem hExpected]
  rcases h.findIndex_eq hb hLoad hNodup (records[expected]).addr le_rfl with
    ⟨i, hi, hAddr, hFind⟩ | ⟨hAbsent, _⟩
  · have hGet := hNodup.get_inj_iff (i := ⟨i, by simpa using hi⟩)
      (j := ⟨expected, by simpa using hExpected⟩)
    obtain rfl : i = expected := by simpa using hGet.mp (by simpa using hAddr)
    simpa using hFind
  · exact absurd rfl (hAbsent _ (List.getElem_mem hExpected))

/-- Every accepted table answers every address: the lookup ends within one
round of probes with the record registered for the canonical address, or with
none. The size check is the only one that can reject a table. -/
theorem dispatchGameCompiled_registered (p : DispatchInput)
    (hFits : hashSizeFor p.records.length ≤ 0x100000000) :
    ∃ t, generateDispatch p = .ok t ∧
      ∀ addr fuel, hashSizeFor p.records.length ≤ fuel →
        dispatchGameCompiled t fuel addr = some (p.registered (canonicalAddress addr)) := by
  obtain ⟨b, hSize, hLoad⟩ := hashSizeFor_spec p.records.length
  have hb : b ≤ 32 := bits_le_of_hashSize hSize hFits
  have hNodup := records_addr_nodup p
  obtain ⟨slots, hPlace, hHolds⟩ := placeRecords_holds hb hLoad p.records 0
    List.drop_zero (Holds.initial b p.records)
  rw [Nat.zero_add] at hHolds
  refine ⟨⟨p.records, slots, BitVec.ofNat 32 (2 ^ b - 1)⟩, ?_, ?_⟩
  · simp only [generateDispatch]
    rw [if_neg (by omega), hSize, hPlace]
    simp only [selfCheck_holds hb hLoad hNodup hHolds, if_true, hHolds.storeSlots_eq]
  · intro addr fuel hFuel
    rw [hSize] at hFuel
    rw [dispatchGameCompiled, findEntry]
    rcases hHolds.findIndex_eq hb hLoad hNodup (canonicalAddress addr) hFuel with
      ⟨i, hi, hAddr, hFind⟩ | ⟨hAbsent, hFind⟩
    · have hRegistered := (mem_records_iff p _).mp (List.getElem_mem hi)
      rw [hAddr] at hRegistered
      simp [hFind, hRegistered]
    · simp [hFind, (registered_eq_none_iff p _).mpr hAbsent]

/-- Two functions and a continuation that all hash to the last slot, so that
the probe chain wraps to the start of the table. -/
def collidingInput : DispatchInput where
  dispatchAddrs := [0x8001001C, 0x8001003C]
  cpsEnabled := true
  cpsContinuations := [(0x8001005C, 0x8001003C)]
  addrs_nodup := by decide
  conts_nodup := by decide

theorem dispatchGameCompiled_colliding :
    ∃ t, generateDispatch collidingInput = .ok t ∧
      dispatchGameCompiled t 8 0xA001005C = some (some ⟨0x8001005C, 0x8001005C, 0x8001003C⟩) ∧
      dispatchGameCompiled t 8 0x8001007C = some none := by
  obtain ⟨t, hTable, hLookup⟩ := dispatchGameCompiled_registered collidingInput (by decide)
  refine ⟨t, hTable, ?_, ?_⟩
  · exact hLookup 0xA001005C 8 (by decide)
  · exact hLookup 0x8001007C 8 (by decide)

end RecompStudio.GameDispatch
