import RecompStudio.Runtime.Memory

/-!
The overlay loader: native candidates for code that the guest loads into RAM.
A candidate may run while the CRC-32 of its code ranges is the one it was
compiled from. The verdict is cached with the sum of the generations of its
pages, and the code is hashed again when the sum has moved.
-/

namespace RecompStudio.Runtime

/-- An entry of the table of `crc32_init_table`. -/
def crc32Table (i : Word) : Word :=
  (fun c : Word => if c &&& 1 = 1 then 0xEDB88320 ^^^ (c >>> 1) else c >>> 1)^[8] i

/-- `crc32_update` by one byte. -/
def crc32Byte (crc : Word) (b : Byte) : Word :=
  crc32Table ((crc ^^^ b.setWidth 32) &&& 0xFF) ^^^ (crc >>> 8)

/-- A code range, which lies in main memory. -/
structure CodeRange where
  lo : Nat
  len : Nat
  pos : 0 < len
  inside : lo + len ≤ ramSize

namespace CodeRange

variable (r : CodeRange)

def bytes (ram : Nat → Byte) : List Byte := (List.range r.len).map fun i => ram (r.lo + i)

/-- A store of `size` bytes writes into the range. -/
def Touched (phys size : Nat) : Prop := phys < r.lo + r.len ∧ r.lo < phys + size

instance (phys size : Nat) : Decidable (r.Touched phys size) := inferInstanceAs (Decidable (_ ∧ _))

end CodeRange

inductive EntryState where
  | valid | invalid | blacklist
deriving DecidableEq, Repr

structure Candidate where
  addr : Nat
  ranges : List CodeRange
  crcCode : Word
  valGen : Nat
  state : EntryState
  /-- The index of the DLL, none for an sljit shard. -/
  dll : Option Nat
  diffPasses : Nat
  deviceTouch : Bool

/-- `cand_crc`. -/
def candCrc (ram : Nat → Byte) (ranges : List CodeRange) : Word :=
  ranges.foldl (fun crc r => (r.bytes ram).foldl crc32Byte crc) 0xFFFFFFFF ^^^ 0xFFFFFFFF

/-- `cand_gensum`, exact. -/
def candGensum (m : Memory) (ranges : List CodeRange) : Nat :=
  (ranges.map fun r => m.pagegenSum r.lo r.len).sum

namespace Candidate

variable (c : Candidate)

/-- No watched write since the last check, as far as 32 bits tell. -/
@[grind =] def Current (m : Memory) : Prop := candGensum m c.ranges % 2 ^ 32 = c.valGen % 2 ^ 32

instance (m : Memory) : Decidable (c.Current m) := inferInstanceAs (Decidable (_ = _))

/-- The check of `range_candidate_matches` and of the entry chain. -/
def validate (m : Memory) : Candidate × Bool :=
  if c.state = .valid ∧ c.Current m then (c, true)
  else if c.state = .invalid ∧ c.Current m then (c, false)
  else if candCrc m.ram c.ranges = c.crcCode then
    ({ c with valGen := candGensum m c.ranges, state := .valid }, true)
  else ({ c with valGen := candGensum m c.ranges, state := .invalid }, false)

/-- The second check of a continuation, which leaves the state of a candidate
that fails it. -/
def revalidate (m : Memory) : Candidate × Bool :=
  if c.state = .valid ∧ c.Current m then (c, true)
  else if candCrc m.ram c.ranges = c.crcCode then
    ({ c with valGen := candGensum m c.ranges, state := .valid }, true)
  else ({ c with valGen := candGensum m c.ranges }, false)

theorem validate_ranges (m : Memory) : (c.validate m).1.ranges = c.ranges := by
  unfold validate
  split_ifs <;> rfl

theorem revalidate_ranges (m : Memory) : (c.revalidate m).1.ranges = c.ranges := by
  unfold revalidate
  split_ifs <;> rfl

/-- A code range contains the address. -/
def contains (phys : Nat) : Bool := c.ranges.any fun r => r.lo ≤ phys ∧ phys < r.lo + r.len

end Candidate

/-- What a registration of a DLL function gives, with the hash of its manifest. -/
structure DllFunction where
  phys : Nat
  ranges : List CodeRange
  crc : Option Word
  dll : Nat

/-- An sljit shard, with the hash of its file if it comes from the cache. -/
structure SljitShard where
  phys : Nat
  range : CodeRange
  crcOverride : Word

structure Loader where
  mem : Memory
  /-- In the order of their registration. -/
  cands : List Candidate
  /-- The candidates that are being executed, innermost first. -/
  active : List Nat
  pcCache : Nat → Option (Nat × Nat)

/-- What the dispatch reads of the settings and of the run around it. -/
structure Settings where
  cpsMode : Bool
  diffMode : Bool
  sljitLive : Bool
  nativeExec : Bool
  inException : Bool
  inShadow : Bool
  shadowCand : Option Nat
  nativeBlocked : Nat → Bool

/-- What the lazy sources of candidates come up with during one pass. -/
structure PassSources where
  window : Bool
  scanned : List SljitShard
  hasExactEntry : Bool
  region : Option (List DllFunction)
  jit : List SljitShard
  lateRegion : Option (List DllFunction)

structure GuestStore where
  phys : Nat
  width : Width
  val : Word

/-- A dispatch, with the stores that devices make in the cycles the caller's
DLL still has to commit. -/
structure DispatchInput where
  addr : Nat
  settings : Settings
  first : PassSources
  second : PassSources
  flush : List GuestStore

/-- What the gates behind a check let happen. -/
inductive Gate where
  | interp | native | shadow
deriving DecidableEq, Repr

/-- How a pass ends. A shadow run calls the candidate as well, on the memory as
it was before the interpreter's pass. -/
inductive Outcome where
  | call (c : Candidate)
  | shadow (c : Candidate)
  | interp
  | retry

def candCap : Nat := 16384

def diffBudget : Nat := 32

namespace Settings

variable (o : Settings)

def wantDiff (addr : Nat) (c : Candidate) : Bool :=
  (o.diffMode || (o.sljitLive && c.dll.isNone)) && !decide (addr < 0x10000)

/-- The gates of a continuation behind its check. -/
def runsContinuation (addr i : Nat) (c : Candidate) : Bool :=
  !c.deviceTouch &&
    ((o.inShadow && o.shadowCand = some i) ||
      (!(o.wantDiff addr c && c.diffPasses < diffBudget) &&
        o.nativeExec && !o.nativeBlocked c.addr && !o.nativeBlocked addr))

/-- The gates of an entry behind its check. -/
def entryGate (addr : Nat) (c : Candidate) : Gate :=
  if c.deviceTouch then .interp
  else if o.wantDiff addr c && !o.inShadow && c.diffPasses < diffBudget then
    if o.inException then .interp else .shadow
  else if o.nativeExec && !o.nativeBlocked c.addr then .native
  else .interp

end Settings

namespace Loader

variable (T : KernelBodies) (s : Loader)

def setCand (i : Nat) (c : Candidate) : Loader := { s with cands := s.cands.set i c }

/-- Watching the pages of the ranges. -/
def watch (ranges : List CodeRange) : Memory :=
  ranges.foldl (fun m r => m.watchSetRange r.lo r.len) s.mem

/-- The retirement of the sljit shards that a DLL function supersedes. -/
def retire (phys : Nat) : List Candidate :=
  s.cands.map fun o =>
    if phys ≠ 0 ∧ o.addr = phys ∧ o.dll = none ∧ o.state ≠ .blacklist ∧
        candCrc s.mem.ram o.ranges = o.crcCode then { o with state := .blacklist }
    else o

/-- `cand_register`. -/
def candRegister (f : DllFunction) : Loader :=
  if candCap ≤ s.cands.length then s
  else
    let ranges := f.ranges.take 16
    let mem := s.watch ranges
    let live := candCrc mem.ram ranges
    let crcCode := f.crc.getD live
    let state := if live = crcCode then EntryState.valid else .invalid
    { s with
      mem := mem
      cands := (if live = crcCode then s.retire f.phys else s.cands) ++
        [⟨f.phys, ranges, crcCode, candGensum mem ranges, state, some f.dll, 0, false⟩] }

/-- `register_sljit_candidate`. -/
@[grind =] def registerSljit (shard : SljitShard) : Loader :=
  if candCap ≤ s.cands.length then s
  else
    let ranges := [shard.range]
    let mem := s.watch ranges
    let crcCode := if shard.crcOverride ≠ 0 then shard.crcOverride else candCrc mem.ram ranges
    { s with
      mem := mem
      cands := s.cands ++ [⟨shard.phys % 0x20000000, ranges, crcCode, candGensum mem ranges,
        .valid, none, 0, false⟩] }

/-- The chain of `idx_head`, the newest candidate first. The address zero
stands for an empty slot of the index. -/
def chain (phys : Nat) : List Nat :=
  if phys = 0 then []
  else ((List.range s.cands.length).filter fun i =>
    match s.cands[i]? with
    | none => false
    | some c => c.addr = phys).reverse

/-- `range_candidate_matches`. -/
def rangeCandidateMatches (i phys : Nat) : Loader × Bool :=
  match s.cands[i]? with
  | none => (s, false)
  | some c =>
      if c.state = .blacklist ∨ !c.contains phys then (s, false)
      else (s.setCand i (c.validate s.mem).1, (c.validate s.mem).2)

/-- The scan of `overlay_find_by_range`. The page index only leaves out
candidates without the address. -/
def scanRanges (phys : Nat) : List Nat → Loader → Loader × Option Nat
  | [], s => (s, none)
  | i :: rest, s =>
      match s.rangeCandidateMatches i phys with
      | (s, true) => (s, some i)
      | (s, false) => scanRanges phys rest s

def pcSlot (phys : Nat) : Nat := phys * 2654435761 % 2 ^ 32 % 16384

/-- The owner that the cache of hot addresses remembers, checked again. -/
def cachedOwner (phys : Nat) : Loader × Option Nat :=
  match s.pcCache (pcSlot phys) with
  | none => (s, none)
  | some (pc, i) =>
      if pc = phys then
        match s.rangeCandidateMatches i phys with
        | (s, true) => (s, some i)
        | (s, false) => (s, none)
      else (s, none)

/-- The first owner in the order of registration, which the cache remembers. -/
def scanAll (phys : Nat) : Loader × Option Nat :=
  match scanRanges phys (List.range s.cands.length) s with
  | (s, none) => (s, none)
  | (s, some i) =>
      ({ s with pcCache := fun slot =>
          if slot = pcSlot phys then some (phys, i) else s.pcCache slot }, some i)

/-- A search with a second one for the case that it comes up with nothing. -/
def orElse {α : Type} (found : Loader × Option α) (next : Loader → Loader × Option α) :
    Loader × Option α :=
  match found with
  | (s, some a) => (s, some a)
  | (s, none) => next s

/-- `overlay_find_by_range`. -/
def findByRange (phys : Nat) : Loader × Option Nat :=
  if ramSize ≤ phys then (s, none) else orElse (s.cachedOwner phys) fun s => s.scanAll phys

/-- The candidate goes on the stack of the active ones, if it has room. -/
def push (i : Nat) : Loader :=
  if s.active.length < 64 then { s with active := i :: s.active } else s

/-- The return of a native function. -/
def pop : Loader := { s with active := s.active.tail }

/-- The re-entry of a candidate at a continuation. -/
def continuation (o : Settings) (addr i : Nat) : Loader × Option Outcome :=
  match s.cands[i]? with
  | none => (s, none)
  | some c =>
      match c.revalidate s.mem with
      | (c, true) =>
          if o.runsContinuation addr i c then ((s.setCand i c).push i, some (.call c))
          else (s.setCand i c, some .interp)
      | (c, false) => (s.setCand i c, none)

/-- The chain of candidates for an entry. -/
def entryChain (o : Settings) (addr : Nat) : List Nat → Loader → Loader × Option Outcome
  | [], s => (s, none)
  | i :: rest, s =>
      match s.cands[i]? with
      | none => entryChain o addr rest s
      | some c =>
          if c.state = .blacklist then entryChain o addr rest s
          else
            match c.validate s.mem with
            | (c, true) =>
                match o.entryGate addr c with
                | .interp => (s.setCand i c, some .interp)
                | .native => ((s.setCand i c).push i, some (.call c))
                | .shadow => (s.setCand i c, some (.shadow c))
            | (c, false) => entryChain o addr rest (s.setCand i c)

/-- The owner of a continuation is asked for a lazy load when it is missing, or
when the address is an exact entry and the owner touches devices. -/
def wantsRegion (src : PassSources) (owner : Option Nat) : Bool :=
  match owner.bind (s.cands[·]?) with
  | none => true
  | some c => src.hasExactEntry && c.deviceTouch

/-- What a pass does while the chain of the address is empty: look for the
owner of a range, then for candidates that are not loaded yet. The answer is
the owner, or that the pass has to be tried again. -/
def discover (o : Settings) (src : PassSources) (lazyLoaded : Bool) (phys : Nat) :
    Loader × Option Nat × Bool :=
  if s.chain phys ≠ [] ∨ !src.window then (s, none, false)
  else
    let s := src.scanned.foldl registerSljit s
    if s.chain phys ≠ [] then (s, none, false)
    else
      let found := if o.cpsMode then s.findByRange phys else (s, none)
      match !lazyLoaded && found.1.wantsRegion src found.2, src.region with
      | true, some functions => (functions.foldl candRegister found.1, none, true)
      | _, _ => (src.jit.foldl registerSljit found.1, found.2, false)

/-- The continuation of an address without an entry. -/
def continueAt (o : Settings) (addr : Nat) (owner : Option Nat) : Loader × Option Outcome :=
  if s.chain (addr % 0x20000000) = [] ∧ o.cpsMode then
    match owner with
    | some i => s.continuation o addr i
    | none =>
        match s.findByRange (addr % 0x20000000) with
        | (s, some i) => s.continuation o addr i
        | (s, none) => (s, none)
  else (s, none)

/-- The end of a pass that called nothing. -/
def lateLoad (src : PassSources) (lazyLoaded : Bool) : Loader × Option Outcome :=
  match !lazyLoaded && src.window, src.lateRegion with
  | true, some functions => (functions.foldl candRegister s, some .retry)
  | _, _ => (s, some .interp)

/-- One pass of `overlay_loader_dispatch`. -/
def pass (o : Settings) (src : PassSources) (lazyLoaded : Bool) (addr : Nat) :
    Loader × Option Outcome :=
  let found := s.discover o src lazyLoaded (addr % 0x20000000)
  if found.2.2 then (found.1, some .retry)
  else
    orElse (found.1.continueAt o addr found.2.1) fun s =>
      orElse (entryChain o addr (s.chain (addr % 0x20000000)) s) fun s => s.lateLoad src lazyLoaded

/-- `overlay_loader_active_write_check`. -/
def activeWriteCheck (phys size : Nat) : List Candidate :=
  s.cands.zipIdx.map fun (c, i) =>
    if i ∈ s.active ∧ ∃ r ∈ c.ranges, r.Touched phys size then { c with state := .blacklist } else c

/-- A store, as far as it reaches main memory. -/
@[grind =] def store (st : GuestStore) : Loader :=
  if st.phys < ramSize then
    { s with
      mem := s.mem.write T st.phys st.width.bytes st.val
      cands := if s.mem.watched (pageOf st.phys) then s.activeWriteCheck st.phys st.width.bytes
        else s.cands }
  else s

/-- `overlay_loader_dispatch`, to the moment at which a candidate's function is
called: the cycles that the caller's DLL has pending are committed between the
check and the call. -/
def dispatch (d : DispatchInput) : Loader × Option Candidate :=
  let ended :=
    match s.pass d.settings d.first false d.addr with
    | (s, some .retry) => s.pass d.settings d.second true d.addr
    | ended => ended
  match ended.2 with
  | some (.call c) => (d.flush.foldl (store T) ended.1, some c)
  | some (.shadow c) => (d.flush.foldl (store T) ended.1, some c)
  | _ => (ended.1, none)

/-- The end of a shadow run of a candidate: its budget, and the interpreter's
memory copied back without a note. -/
def shadowEnd (i passes : Nat) (touch : Bool) (ram : Nat → Byte) : Loader :=
  { s with
    mem := { s.mem with ram := ram }
    cands := s.cands.modify i fun c => { c with diffPasses := passes, deviceTouch := touch } }

end Loader

/-- What happens to the loader. -/
inductive LoaderEvent where
  | register (f : DllFunction)
  | registerSljit (shard : SljitShard)
  | store (st : GuestStore)
  | dispatch (d : DispatchInput)
  | returned
  | shadowEnd (i passes : Nat) (touch : Bool) (ram : Nat → Byte)

def loaderStep (T : KernelBodies) (s : Loader) : LoaderEvent → Loader
  | .register f => s.candRegister f
  | .registerSljit shard => s.registerSljit shard
  | .store st => s.store T st
  | .dispatch d => (s.dispatch T d).1
  | .returned => s.pop
  | .shadowEnd i passes touch ram => s.shadowEnd i passes touch ram

end RecompStudio.Runtime
