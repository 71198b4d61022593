import RecompStudio.Bios.Discovery

/-!
Whether the discovered instruction set is closed under the static successors of
the instructions that run in their own right, and whether reading it in address
order then falls through as the machine does.
-/

namespace RecompStudio.Bios

open RecompStudio.Insn
open RecompStudio.CodeGen (sortUnique mem_sortUnique pairwise_sortUnique Aligned aligned_add
  aligned_branchTarget aligned_jumpTarget)
open RecompStudio.Worklist

/-- The addresses of the discovered instructions, ascending. -/
@[grind =] def FunctionWalk.addresses (f : FunctionWalk) : List Word :=
  (walkFunction f).instructions.map Prod.fst

/-- The static successors of an instruction: where execution goes after it and
its delay slot, and for a recognised jump table also the word behind the slot. -/
@[grind =] def Follows (f : FunctionWalk) (a b : Word) : Prop :=
  match (f.controlFlow a).kind with
  | .normal | .syscall | .break => b = a + 4#32
  | .condBranch => b = (f.controlFlow a).target ∨ b = a + 8#32
  | .jump => b = (f.controlFlow a).target
  | .call | .jalr => b = a + 8#32
  | .jrIndirect =>
      ∃ base count, f.jumpTable a = some (base, count) ∧
        (b ∈ f.tableTargets base count ∨ b = a + 8#32)
  | .jrRa | .rfe | .reservedInstruction => False

/-- The addresses of the function that control flow leads to, other than as a
delay slot. -/
inductive Flows (f : FunctionWalk) : Word → Prop where
  | entry (hIn : f.InBounds f.entry) : Flows f f.entry
  | follow {a b : Word} (hFlows : Flows f a) (hSupported : f.Supported a) (hFollows : Follows f a b)
      (hIn : f.InBounds b) : Flows f b

/-- An instruction that runs in its own right has its successors inside the
function in the set, unless it is recorded as unsupported. -/
structure Closed (f : FunctionWalk) : Prop where
  entry : f.InBounds f.entry → f.entry ∈ f.addresses
  unsupported : ∀ a ∈ f.addresses, ¬ f.Supported a → (a, f.fetch a) ∈ (walkFunction f).unsupported
  successors : ∀ a ∈ f.addresses, Flows f a → f.Supported a → ∀ b, Follows f a b → f.InBounds b →
    b ∈ f.addresses

/-- The instruction whose text comes next in the emitted function. -/
def linearNext (f : FunctionWalk) (a : Word) : Option Word :=
  f.addresses.find? fun b => a < b

/-- Running on in the emitted text leads to the architectural successor: from
an instruction that falls through to the next word, and from a branch over its
delay slot, if that is in the text, to the word behind it. -/
structure FallsThrough (f : FunctionWalk) : Prop where
  next : ∀ a, Flows f a → f.Supported a → (f.controlFlow a).kind.fallsThrough = true →
    ∀ b, linearNext f a = some b → b = a + 4#32
  slot : ∀ a, Flows f a → f.Supported a → (f.controlFlow a).kind = .condBranch →
    a + 4#32 ∈ f.addresses → ∀ b, linearNext f a = some b → b = a + 4#32
  behind_slot : ∀ a, Flows f a → f.Supported a → (f.controlFlow a).kind = .condBranch →
    a + 4#32 ∈ f.addresses → ∀ b, linearNext f (a + 4#32) = some b → b = a + 8#32

/-- The addresses that control flow leads to, breadth first. -/
def flowOrder (f : FunctionWalk) : List Word := f.search.order [f.entry]

/-- A delay slot that control flow leads to after the instruction it belongs to
leads only to what an address before it leads to as well. -/
def SlotsLeadNowhereNew (f : FunctionWalk) : Prop :=
  ∀ a x, x ∈ flowOrder f → a ∈ before (flowOrder f) x → x = a + 4#32 →
    f.Supported a → (f.controlFlow a).kind.hasSlot = true → f.Supported x →
    ∀ b, Follows f x b → f.InBounds b →
      b = f.entry ∨ ∃ p ∈ before (flowOrder f) x, f.Supported p ∧ Follows f p b

/-- The entry and the case targets of the jump tables are word addresses. -/
structure WordAddresses (f : FunctionWalk) : Prop where
  entry : Aligned f.entry
  tables : ∀ a, Flows f a → ∀ base count, f.jumpTable a = some (base, count) →
    ∀ t ∈ f.tableTargets base count, Aligned t

section Walk

variable {f : FunctionWalk} {a b : Word}

theorem mem_inside : b ∈ f.inside a ↔ b = a ∧ f.InBounds b := by
  rw [FunctionWalk.inside]
  split
  · rename_i hIn
    rw [List.mem_singleton]
    constructor
    · rintro rfl
      exact ⟨rfl, hIn⟩
    · exact And.left
  · rename_i hOut
    constructor
    · intro hNil
      cases hNil
    · rintro ⟨rfl, hIn⟩
      exact absurd hIn hOut

/-- Only the entry can be the target zero. -/
theorem mem_insideTarget (hIn : f.InBounds b) (hEq : b = a) :
    b ∈ f.insideTarget a ∨ b = f.entry := by
  subst hEq
  rw [FunctionWalk.insideTarget]
  split
  · exact .inl (mem_inside.2 ⟨rfl, hIn⟩)
  · rename_i hZero
    have hEntry := hIn.2.2.1
    rw [not_not.mp hZero] at hEntry ⊢
    exact .inr (BitVec.le_zero_iff.mp hEntry).symm

theorem of_mem_insideTarget (hMem : b ∈ f.insideTarget a) : b = a ∧ f.InBounds b := by
  rw [FunctionWalk.insideTarget] at hMem
  split at hMem
  · exact mem_inside.1 hMem
  · cases hMem

theorem tableTargets_inBounds {base : Word} {count : Nat} (hMem : b ∈ f.tableTargets base count) :
    f.InBounds b := by
  obtain ⟨taddr, _, hEq⟩ := List.mem_filterMap.mp hMem
  dsimp only at hEq
  split_ifs at hEq with _ hIn
  exact Option.some.inj hEq ▸ hIn

theorem follows_of_mem_pushes (hMem : b ∈ f.pushes a) :
    f.Supported a ∧ Follows f a b ∧ f.InBounds b := by
  rw [FunctionWalk.pushes] at hMem
  split at hMem
  · rename_i hSupported
    refine ⟨hSupported, ?_⟩
    rw [Follows]
    cases hKind : (f.controlFlow a).kind <;> simp only [hKind] at hMem ⊢
    case normal | syscall | «break» | call | jalr => exact mem_inside.1 hMem
    case condBranch =>
        rcases List.mem_append.mp hMem with hMem | hMem
        · exact ⟨.inr (mem_inside.1 hMem).1, (mem_inside.1 hMem).2⟩
        · exact ⟨.inl (of_mem_insideTarget hMem).1, (of_mem_insideTarget hMem).2⟩
    case jump => exact of_mem_insideTarget hMem
    case jrIndirect =>
        split at hMem
        · cases hMem
        · rename_i base count hTable
          rcases List.mem_append.mp hMem with hMem | hMem
          · exact ⟨⟨base, count, hTable, .inl hMem⟩, tableTargets_inBounds hMem⟩
          · exact ⟨⟨base, count, hTable, .inr (mem_inside.1 hMem).1⟩, (mem_inside.1 hMem).2⟩
    all_goals cases hMem
  · cases hMem

theorem mem_pushes_of_follows (hSupported : f.Supported a) (hFollows : Follows f a b)
    (hIn : f.InBounds b) : b ∈ f.pushes a ∨ b = f.entry := by
  rw [Follows] at hFollows
  rw [FunctionWalk.pushes, if_pos hSupported]
  split at hFollows
  all_goals try simp only [*]
  · exact .inl (mem_inside.2 ⟨rfl, hFollows ▸ hIn⟩)
  · exact .inl (mem_inside.2 ⟨rfl, hFollows ▸ hIn⟩)
  · exact .inl (mem_inside.2 ⟨rfl, hFollows ▸ hIn⟩)
  · rw [List.mem_append]
    rcases hFollows with hTarget | hBehind
    · exact (mem_insideTarget hIn hTarget).imp_left .inr
    · exact .inl (.inl (mem_inside.2 ⟨hBehind, hIn⟩))
  · exact mem_insideTarget (hFollows ▸ hIn) rfl
  · exact .inl (mem_inside.2 ⟨rfl, hFollows ▸ hIn⟩)
  · exact .inl (mem_inside.2 ⟨rfl, hFollows ▸ hIn⟩)
  · obtain ⟨base, count, hTable, hTarget | hBehind⟩ := hFollows
    · rw [hTable]
      exact .inl (List.mem_append_left _ hTarget)
    · rw [hTable]
      exact .inl (List.mem_append_right _ (mem_inside.2 ⟨hBehind, hIn⟩))
  · exact hFollows.elim
  · exact hFollows.elim
  · exact hFollows.elim

theorem mem_domain : a ∈ f.domain ↔ f.InBounds a := by
  simp only [FunctionWalk.domain, List.mem_filter, List.mem_map, List.mem_range, decide_eq_true_eq]
  constructor
  · exact And.right
  · intro hIn
    refine ⟨⟨a.toNat - f.entry.toNat, ?_, ?_⟩, hIn⟩
    · have hLow := BitVec.le_def.mp hIn.2.2.1
      have hHigh := BitVec.lt_def.mp hIn.2.2.2
      omega
    · have hLow := BitVec.le_def.mp hIn.2.2.1
      apply BitVec.eq_of_toNat_eq
      rw [BitVec.toNat_add, BitVec.toNat_ofNat]
      omega

theorem flows_inBounds (h : Flows f a) : f.InBounds a := by
  cases h with
  | entry hIn => exact hIn
  | follow _ _ _ hIn => exact hIn

/-- Control flow leads to what the walk's search should see. -/
theorem reached_of_flows (h : Flows f a) : Reached f.search [f.entry] a := by
  induction h with
  | entry hIn => exact .start List.mem_cons_self (mem_domain.2 hIn)
  | follow _ hSupported hFollows hIn ih =>
      rcases mem_pushes_of_follows hSupported hFollows hIn with hPush | rfl
      · exact .push ih hPush (mem_domain.2 hIn)
      · exact .start List.mem_cons_self (mem_domain.2 hIn)

theorem flows_of_reached (h : Reached f.search [f.entry] a) : Flows f a := by
  induction h with
  | start hWork hDomain =>
      rw [List.mem_singleton.mp hWork] at hDomain ⊢
      exact .entry (mem_domain.1 hDomain)
  | push _ hPush hDomain ih =>
      obtain ⟨hSupported, hFollows, hIn⟩ := follows_of_mem_pushes hPush
      exact .follow ih hSupported hFollows hIn

theorem mem_addresses : a ∈ f.addresses ↔ a ∈ f.trail.seen := by
  rw [FunctionWalk.addresses, walkFunction, List.map_map]
  simp only [List.mem_map, mem_sortUnique, Function.comp_apply, exists_eq_right]

theorem pairwise_addresses (f : FunctionWalk) : f.addresses.Pairwise (· < ·) := by
  have hSame : f.addresses = sortUnique f.trail.seen := by
    rw [FunctionWalk.addresses, walkFunction, List.map_map]
    exact List.map_id _
  rw [hSame]
  exact pairwise_sortUnique _

theorem covered_trail (f : FunctionWalk) : Covered f.search [] f.trail :=
  covered_run (covered_start _ _)

/-- The set holds the processed addresses and the slots of transfers among
them. -/
theorem mem_addresses_cases (ha : a ∈ f.addresses) :
    Flows f a ∨ ∃ t, Flows f t ∧ f.Supported t ∧ (f.controlFlow t).kind.hasSlot = true ∧
      a = t + 4#32 ∧ f.InBounds a := by
  rcases (covered_trail f).seen a (mem_addresses.1 ha) with hVisited | ⟨t, ht, hMark⟩
  · exact .inl (flows_of_reached (reached_of_visited hVisited))
  · refine .inr ⟨t, flows_of_reached (reached_of_visited ht), ?_⟩
    change a ∈ f.marks t at hMark
    rw [FunctionWalk.marks] at hMark
    split at hMark
    · rename_i hSlot
      exact ⟨hSlot.1, hSlot.2, mem_inside.1 hMark⟩
    · cases hMark

theorem addresses_inBounds (ha : a ∈ f.addresses) : f.InBounds a := by
  rcases mem_addresses_cases ha with hFlows | ⟨t, _, _, _, _, hIn⟩
  · exact flows_inBounds hFlows
  · exact hIn

end Walk

section Closure

variable {f : FunctionWalk} {a b : Word}

theorem marksLoseNothing (hSlots : SlotsLeadNowhereNew f) :
    f.search.MarksLoseNothing [f.entry] := by
  intro x hx a ha hMark b hb _
  change x ∈ f.marks a at hMark
  rw [FunctionWalk.marks] at hMark
  split at hMark
  · rename_i hSlot
    obtain ⟨hSupported, hFollows, hIn⟩ := follows_of_mem_pushes hb
    rcases hSlots a x hx ha (mem_inside.1 hMark).1 hSlot.1 hSlot.2 hSupported b hFollows hIn with
      rfl | ⟨p, hp, hSupp, hLeads⟩
    · exact .inl List.mem_cons_self
    · rcases mem_pushes_of_follows hSupp hLeads hIn with hPush | rfl
      · exact .inr ⟨p, hp, hPush⟩
      · exact .inl List.mem_cons_self
  · cases hMark

/-- Everything that control flow leads to is discovered. -/
theorem mem_addresses_of_flows (hSlots : SlotsLeadNowhereNew f) (ha : Flows f a) :
    a ∈ f.addresses :=
  mem_addresses.2 (seen_of_reached rfl (marksLoseNothing hSlots) (reached_of_flows ha))

theorem closed_of_slots (hSlots : SlotsLeadNowhereNew f) : Closed f := by
  refine ⟨fun hIn => mem_addresses_of_flows hSlots (.entry hIn), ?_, ?_⟩
  · intro a ha hUnsupported
    rw [walkFunction]
    refine List.mem_map_of_mem (List.mem_filter.mpr ⟨?_, by simpa using hUnsupported⟩)
    exact mem_sortUnique.mpr (mem_addresses.1 ha)
  · intro a _ hFlows hSupported b hFollows hIn
    exact mem_addresses_of_flows hSlots (.follow hFlows hSupported hFollows hIn)

end Closure

section Addresses

variable {a b : Word}

theorem aligned_and (h : Aligned a) (m : Word) : Aligned (a &&& m) := by
  rw [Aligned, BitVec.toNat_and, show 4 = 2 ^ 2 from rfl, Nat.and_mod_two_pow]
  rw [show a.toNat % 2 ^ 2 = 0 from h, Nat.zero_and]

theorem aligned_or (ha : Aligned a) (hb : Aligned b) : Aligned (a ||| b) := by
  rw [Aligned, BitVec.toNat_or, show 4 = 2 ^ 2 from rfl, Nat.or_mod_two_pow]
  rw [show a.toNat % 2 ^ 2 = 0 from ha, show b.toNat % 2 ^ 2 = 0 from hb, Nat.or_zero]

theorem aligned_move (h : Aligned a) {lo base : Word} (hLo : Aligned lo) (hBase : Aligned base) :
    Aligned (base + (a - lo)) := by
  rw [Aligned] at *
  rw [BitVec.toNat_add, BitVec.toNat_sub]
  omega

theorem aligned_remapKernelTarget (h : Aligned a) (src : Word) :
    Aligned (remapKernelTarget a src) := by
  have hHigh : Aligned ((src - 0x1FC10000#32 + 0x500#32) &&& 0xF0000000#32) := by
    rw [BitVec.and_comm]
    exact aligned_and (by decide) _
  have hTarget := aligned_or hHigh (aligned_and h 0x0FFFFFFF#32)
  simp only [remapKernelTarget]
  split
  · exact aligned_move (aligned_and hTarget _) (by decide) (by decide)
  · split
    · exact hTarget
    · exact h

theorem aligned_remapShellTarget (h : Aligned a) : Aligned (remapShellTarget a) := by
  have hTarget : Aligned (0x80000000#32 ||| (a &&& 0x0FFFFFFF#32)) :=
    aligned_or (by decide) (aligned_and h _)
  simp only [remapShellTarget]
  split
  · exact aligned_move (aligned_and hTarget _) (by decide) (by decide)
  · split
    · exact aligned_move (aligned_and hTarget _) (by decide) (by decide)
    · split
      · exact aligned_move (aligned_and hTarget _) (by decide) (by decide)
      · exact h

theorem aligned_remap (h : Aligned a) (src : Word) : Aligned (remapRelocatedJTarget a src) := by
  simp only [remapRelocatedJTarget]
  split
  · exact aligned_remapKernelTarget h _
  · split
    · exact aligned_remapShellTarget h
    · exact h

theorem aligned_classify (h : Aligned a) (raw : Word) :
    Aligned (classifyControlFlow raw a).target := by
  have hBranch := aligned_branchTarget h raw
  have hJump := aligned_remap (aligned_jumpTarget a raw) a
  have hZero : Aligned 0 := by decide
  simp only [classifyControlFlow]
  split
  all_goals first | exact hBranch | exact hJump | exact hZero | (split <;> assumption)

theorem aligned_follows {f : FunctionWalk} (hWords : WordAddresses f) (hFlows : Flows f a)
    (h : Aligned a) (hFollows : Follows f a b) : Aligned b := by
  have hNext : Aligned (a + 4#32) := aligned_add h 1
  have hBehind : Aligned (a + 8#32) := aligned_add h 2
  have hTarget : Aligned (f.controlFlow a).target := aligned_classify h _
  rw [Follows] at hFollows
  split at hFollows
  · exact hFollows ▸ hNext
  · exact hFollows ▸ hNext
  · exact hFollows ▸ hNext
  · rcases hFollows with hEq | hEq
    · exact hEq ▸ hTarget
    · exact hEq ▸ hBehind
  · exact hFollows ▸ hTarget
  · exact hFollows ▸ hBehind
  · exact hFollows ▸ hBehind
  · obtain ⟨base, count, hTable, hCase | hEq⟩ := hFollows
    · exact hWords.tables a hFlows base count hTable b hCase
    · exact hEq ▸ hBehind
  · exact hFollows.elim
  · exact hFollows.elim
  · exact hFollows.elim

end Addresses

section FallThrough

variable {f : FunctionWalk} {a b : Word}

theorem aligned_of_flows (hWords : WordAddresses f) (h : Flows f a) : Aligned a := by
  induction h with
  | entry _ => exact hWords.entry
  | follow hFlows _ hFollows _ ih => exact aligned_follows hWords hFlows ih hFollows

theorem aligned_addresses (hWords : WordAddresses f) (ha : a ∈ f.addresses) : Aligned a := by
  rcases mem_addresses_cases ha with hFlows | ⟨t, hFlows, _, _, rfl, _⟩
  · exact aligned_of_flows hWords hFlows
  · exact aligned_add (aligned_of_flows hWords hFlows) 1

theorem linearNext_spec (hNext : linearNext f a = some b) :
    b ∈ f.addresses ∧ a < b ∧ ∀ c ∈ f.addresses, a < c → b ≤ c := by
  rw [linearNext] at hNext
  obtain ⟨hAbove, before, after, hSplit, hBefore⟩ := List.find?_eq_some_iff_append.mp hNext
  refine ⟨hSplit ▸ by simp, by simpa using hAbove, fun c hc hLt => ?_⟩
  have hSorted := pairwise_addresses f
  rw [hSplit] at hc hSorted
  rcases List.mem_append.mp hc with hc | hc
  · exact absurd hLt (by simpa using hBefore c hc)
  · rcases List.mem_cons.mp hc with rfl | hc
    · exact BitVec.le_refl _
    · exact BitVec.le_of_lt ((List.pairwise_cons.mp (List.pairwise_append.mp hSorted).2.1).1 c hc)

/-- Among word addresses the text goes on at the next word if that is in the
set whenever it is inside the function. -/
theorem linearNext_eq (hWords : WordAddresses f) (hSelf : Aligned a) (hIn : f.InBounds a)
    (hMem : f.InBounds (a + 4#32) → a + 4#32 ∈ f.addresses) (hNext : linearNext f a = some b) :
    b = a + 4#32 := by
  obtain ⟨hb, hLt, hLeast⟩ := linearNext_spec hNext
  have hAlignedB := aligned_addresses hWords hb
  have hBoundsB := addresses_inBounds hb
  rw [Aligned] at hSelf hAlignedB
  have hGap : (a + 4#32).toNat = a.toNat + 4 ∧ a.toNat + 4 ≤ b.toNat := by
    rw [BitVec.lt_def] at hLt
    rw [BitVec.toNat_add, show (4#32 : Word).toNat = 4 from rfl]
    omega
  have hBounds : f.InBounds (a + 4#32) := by
    simp only [FunctionWalk.InBounds, BitVec.le_def, BitVec.lt_def] at hIn hBoundsB ⊢
    omega
  have hLe := hLeast _ (hMem hBounds) (by rw [BitVec.lt_def]; omega)
  apply BitVec.eq_of_toNat_eq
  rw [BitVec.le_def] at hLe
  omega

theorem fallsThrough_of_slots (hSlots : SlotsLeadNowhereNew f) (hWords : WordAddresses f) :
    FallsThrough f := by
  have hFollow : ∀ {a b}, Flows f a → f.Supported a → Follows f a b → f.InBounds b →
      b ∈ f.addresses := fun hFlows hSupported hFollows hIn =>
    mem_addresses_of_flows hSlots (.follow hFlows hSupported hFollows hIn)
  refine ⟨?_, ?_, ?_⟩
  · intro a hFlows hSupported hKind b hNext
    refine linearNext_eq hWords (aligned_of_flows hWords hFlows) (flows_inBounds hFlows) ?_ hNext
    refine hFollow hFlows hSupported ?_
    rw [Follows]
    revert hKind
    cases (f.controlFlow a).kind <;> simp [CFKind.fallsThrough]
  · intro a hFlows hSupported hKind hSlot b hNext
    exact linearNext_eq hWords (aligned_of_flows hWords hFlows) (flows_inBounds hFlows)
      (fun _ => hSlot) hNext
  · intro a hFlows hSupported hKind hSlot b hNext
    have hBehind : a + 4#32 + 4#32 = a + 8#32 := by
      rw [BitVec.add_assoc]
      rfl
    rw [← hBehind]
    refine linearNext_eq hWords (aligned_addresses hWords hSlot) (addresses_inBounds hSlot) ?_ hNext
    rw [hBehind]
    refine hFollow hFlows hSupported ?_
    rw [Follows, hKind]
    exact .inr rfl

end FallThrough

/-- The discovered set is closed, and its text falls through as the machine
does, if no delay slot is the first to lead somewhere after it was marked. -/
theorem walkFunction_closed (f : FunctionWalk) (hSlots : SlotsLeadNowhereNew f) :
    Closed f ∧ (WordAddresses f → FallsThrough f) :=
  ⟨closed_of_slots hSlots, fallsThrough_of_slots hSlots⟩

/-- A function of seven words: a branch, a jump over one word, that word, and
the return. The argument is the branch distance. -/
def branchWalk (distance : BitVec 8) : FunctionWalk where
  rom :=
    [distance, 0x00, 0x20, 0x10,  -- beq $at, $zero
     0x00, 0x00, 0x00, 0x00,
     0x05, 0x00, 0xF0, 0x0B,      -- j 0xBFC00014
     0x00, 0x00, 0x00, 0x00,
     0x01, 0x00, 0x02, 0x24,      -- addiu $v0, $zero, 1
     0x08, 0x00, 0xE0, 0x03,      -- jr $ra
     0x00, 0x00, 0x00, 0x00]
  baseAddr := 0xBFC00000
  romEnd := 0xBFC0001B
  entry := 0xBFC00000
  hardCap := 0xBFC0001C

theorem branchWalk_flowOrder :
    flowOrder (branchWalk 3) = [0xBFC00000, 0xBFC00008, 0xBFC00010, 0xBFC00014] := by
  have hRun : (branchWalk 3).search.plain.runFor 8 [0xBFC00000] ⟨[], []⟩ =
      some ⟨[0xBFC00014, 0xBFC00010, 0xBFC00008, 0xBFC00000],
        [0xBFC00014, 0xBFC00010, 0xBFC00008, 0xBFC00000]⟩ := by decide
  rw [flowOrder, Search.order]
  change ((branchWalk 3).search.plain.run [0xBFC00000] ⟨[], []⟩).visited.reverse = _
  rw [run_of_runFor hRun]
  rfl

theorem branchWalk_closed :
    SlotsLeadNowhereNew (branchWalk 3) ∧ WordAddresses (branchWalk 3) ∧ Closed (branchWalk 3) ∧
      FallsThrough (branchWalk 3) := by
  have hSlots : SlotsLeadNowhereNew (branchWalk 3) := by
    intro a x hx ha hEq _ hSlot
    have hNone : [0xBFC00000, 0xBFC00008, 0xBFC00010, 0xBFC00014].all (fun a : Word =>
        ¬ (a + 4#32 ∈ [0xBFC00000#32, 0xBFC00008, 0xBFC00010, 0xBFC00014] ∧
          ((branchWalk 3).controlFlow a).kind.hasSlot = true)) = true := by decide
    have ha : a ∈ flowOrder (branchWalk 3) := (List.takeWhile_prefix _).subset ha
    rw [branchWalk_flowOrder] at hx ha
    exact absurd ⟨hEq ▸ hx, hSlot⟩ (of_decide_eq_true (List.all_eq_true.mp hNone a ha))
  have hWords : WordAddresses (branchWalk 3) := by
    refine ⟨by decide, fun a hFlows base count hTable => ?_⟩
    have hNone : [0xBFC00000, 0xBFC00008, 0xBFC00010, 0xBFC00014].all (fun a : Word =>
        (branchWalk 3).jumpTable a = none) = true := by decide
    have hOrder : a ∈ flowOrder (branchWalk 3) := mem_order_of_reached (reached_of_flows hFlows)
    rw [branchWalk_flowOrder] at hOrder
    rw [of_decide_eq_true (List.all_eq_true.mp hNone a hOrder)] at hTable
    cases hTable
  obtain ⟨hClosed, hFalls⟩ := walkFunction_closed _ hSlots
  exact ⟨hSlots, hWords, hClosed, hFalls hWords⟩

theorem sharedSlot_addresses :
    (branchWalk 2).addresses =
      [0xBFC00000, 0xBFC00004, 0xBFC00008, 0xBFC0000C, 0xBFC00014, 0xBFC00018] := by
  have hRun : (branchWalk 2).search.runFor 8 [0xBFC00000] ⟨[], []⟩ =
      some ⟨[0xBFC00014, 0xBFC00018, 0xBFC00008, 0xBFC0000C, 0xBFC00000, 0xBFC00004],
        [0xBFC00014, 0xBFC00008, 0xBFC00000]⟩ := by decide
  have hTrail : (branchWalk 2).trail = _ := run_of_runFor hRun
  rw [FunctionWalk.addresses, walkFunction, hTrail]
  decide

/-- The branch leads into the slot of the jump, which was marked before, so the
word behind the slot is missing and the text falls from the slot into the
return. -/
theorem sharedSlot_not_closed :
    linearNext (branchWalk 2) 0xBFC0000C = some 0xBFC00014 ∧ ¬ Closed (branchWalk 2) ∧
      ¬ FallsThrough (branchWalk 2) := by
  have hEntry : Flows (branchWalk 2) 0xBFC00000 := .entry (by decide)
  have hSlot : Flows (branchWalk 2) 0xBFC0000C :=
    .follow hEntry (by decide) (.inl (by decide)) (by decide)
  have hSupported : (branchWalk 2).Supported 0xBFC0000C := by decide
  have hNext : linearNext (branchWalk 2) 0xBFC0000C = some 0xBFC00014 := by
    rw [linearNext, sharedSlot_addresses]
    decide
  refine ⟨hNext, fun hClosed => ?_, fun hFalls => ?_⟩
  · have hKind : ((branchWalk 2).controlFlow 0xBFC0000C).kind = .normal := by decide
    have hFollows : Follows (branchWalk 2) 0xBFC0000C 0xBFC00010 := by
      simp only [Follows, hKind]
      decide
    have hMem := hClosed.successors 0xBFC0000C (by rw [sharedSlot_addresses]; decide) hSlot
      hSupported 0xBFC00010 hFollows (by decide)
    rw [sharedSlot_addresses] at hMem
    exact absurd hMem (by decide)
  · have hEq := hFalls.next 0xBFC0000C hSlot hSupported (by decide) _ hNext
    exact absurd hEq (by decide)

end RecompStudio.Bios
