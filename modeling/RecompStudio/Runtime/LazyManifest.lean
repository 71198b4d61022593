import RecompStudio.Runtime.RangeIndex

/-!
The manifests of the cached DLLs: their functions with the hashes of the code they
were compiled from, the index of them, and the load of the DLL whose code is in
memory. The verdict on an entry is cached with the sum of the generations of its
pages, whether or not anybody watches these.
-/

namespace RecompStudio.Runtime

open LinkArray

/-- The cached verdict on a manifest. -/
inductive LazyState where
  | unknown | valid | invalid
deriving DecidableEq, Repr

/-- A function in the manifest of a library that is not loaded yet. -/
structure LazyMan where
  entry : Nat
  ranges : List CodeRange
  crc : Word
  valGen : Nat
  state : LazyState

namespace LazyMan

variable (lm : LazyMan)

/-- No watched write since the verdict, as far as 32 bits tell. -/
@[grind =] def Current (m : Memory) : Prop := candGensum m lm.ranges % 2 ^ 32 = lm.valGen % 2 ^ 32

instance (m : Memory) : Decidable (lm.Current m) := inferInstanceAs (Decidable (_ = _))

/-- `lazy_man_matches`. -/
def lazyManMatches (m : Memory) : LazyMan × Bool :=
  if lm.state = .valid ∧ lm.Current m then (lm, true)
  else if lm.state = .invalid ∧ lm.Current m then (lm, false)
  else if candCrc m.ram lm.ranges = lm.crc then
    ({ lm with valGen := candGensum m lm.ranges, state := .valid }, true)
  else ({ lm with valGen := candGensum m lm.ranges, state := .invalid }, false)

/-- The verdict is taken from the cache. -/
def Reuses (m : Memory) : Prop := lm.state ≠ .unknown ∧ lm.Current m

/-- `lazy_man_contains`. -/
def contains (phys : Nat) : Bool :=
  lm.entry = phys || lm.ranges.any fun r => r.lo ≤ phys ∧ phys < r.lo + r.len

end LazyMan

/-- A function of a manifest. -/
structure ManFn where
  entry : Nat
  crc : Option Word
  ranges : List CodeRange

/-- A manifest entry of the index, with the place of its DLL in the cache. -/
structure IndexedMan extends LazyMan where
  cacheIdx : Nat

/-- A cached DLL. -/
structure CacheEntry where
  path : String
  regionStart : Nat
  funcCount : Nat
  indexedFuncCount : Nat

/-- `LAZY_MAN_CAP`. -/
def lazyManCap : Nat := candCap * 2

/-- `LAZY_RANGE_LINK_CAP`. -/
def lazyRangeLinkCap : Nat := lazyManCap * 8

/-- `MAX_LOADED_DLLS`. -/
def maxLoadedDlls : Nat := 4096

/-- The index of the manifest entries, with their links to the pages. The newest
entry of an address and of a bundle comes first in its chain. -/
structure LazyIndex where
  mans : List IndexedMan
  cache : List CacheEntry
  links : RangeIndex

namespace LazyIndex

variable (x : LazyIndex)

/-- A function without a hash or without code is not indexed. -/
def addMan (ci : Nat) (f : ManFn) : LazyIndex :=
  match f.crc with
  | none => x
  | some crc =>
      if f.ranges = [] then x
      else if lazyManCap ≤ x.mans.length then { x with links.overflow := true }
      else
        { mans := x.mans ++ [⟨⟨f.entry % 0x20000000, f.ranges, crc, 0, .unknown⟩, ci⟩]
          cache := x.cache.modify ci fun e => { e with indexedFuncCount := e.indexedFuncCount + 1 }
          links := x.links.addLinks lazyRangeLinkCap x.mans.length f.ranges }

/-- The functions of one manifest, until the index has no room. -/
def addMans (ci : Nat) : List ManFn → LazyIndex → LazyIndex
  | [], x => x
  | f :: rest, x =>
      if (x.addMan ci f).links.overflow then x.addMan ci f else addMans ci rest (x.addMan ci f)

/-- The manifests from the DLL `ci` on, none for a DLL without a readable one. -/
def addFiles : Nat → List (Option (List ManFn)) → LazyIndex → LazyIndex
  | _, [], x => x
  | ci, none :: rest, x => addFiles (ci + 1) rest x
  | ci, some man :: rest, x =>
      let counted := { x with
        cache := x.cache.modify ci fun e =>
          { e with funcCount := man.length, indexedFuncCount := 0 } }
      let added := addMans ci man counted
      if added.links.overflow then added else addFiles (ci + 1) rest added

/-- `rebuild_lazy_manifest_index`. -/
def rebuild (cache : List CacheEntry) (manifests : List (Option (List ManFn))) : LazyIndex :=
  addFiles 0 manifests ⟨[], cache, RangeIndex.init⟩

/-- The entries that a condition picks, the newest first. -/
def newest (p : IndexedMan → Bool) : List Nat :=
  ((List.range x.mans.length).filter fun li => (x.mans[li]?).any p).reverse

/-- The entries at an address. -/
def entries (phys : Nat) : List Nat := x.newest fun lm => lm.entry = phys

/-- The entries of a DLL. -/
def bundle (ci : Nat) : List Nat := x.newest fun lm => lm.cacheIdx = ci

end LazyIndex

/-- The loader with the index of the cached DLLs, and the paths of the loaded ones. -/
structure LazyLoader where
  loader : Loader
  index : LazyIndex
  loaded : List String

/-- The entries that `try_load_region` has settled on so far. -/
structure Picked where
  best : Option Nat
  fallback : Option Nat

namespace LazyLoader

variable (s : LazyLoader)

/-- `lazy_man_matches` of an entry of the index. -/
def manMatches (li : Nat) : LazyLoader × Bool :=
  match s.index.mans[li]? with
  | none => (s, false)
  | some lm =>
      ({ s with index.mans :=
          s.index.mans.set li { lm with toLazyMan := (lm.lazyManMatches s.loader.mem).1 } },
        (lm.lazyManMatches s.loader.mem).2)

/-- The loop of `lazy_bundle_matches`. -/
def allMatch : List Nat → LazyLoader → LazyLoader × Bool
  | [], s => (s, true)
  | li :: rest, s =>
      match s.manMatches li with
      | (s, true) => allMatch rest s
      | (s, false) => (s, false)

/-- `lazy_bundle_matches`. -/
def bundleMatches (ci : Nat) : LazyLoader × Bool :=
  match s.index.cache[ci]? with
  | none => (s, false)
  | some e =>
      if e.funcCount = 0 ∨ e.indexedFuncCount ≠ e.funcCount then (s, false)
      else
        match allMatch (s.index.bundle ci) s with
        | (s, true) => (s, (s.index.bundle ci).length = e.funcCount)
        | (s, false) => (s, false)

/-- The part of `lazy_is_loadable` in front of the check. -/
@[grind =] def eligible (lm : IndexedMan) (regionStart phys : Nat) : Bool :=
  (s.index.cache[lm.cacheIdx]?).any fun e =>
    e.regionStart = regionStart && !s.loaded.contains e.path && lm.contains phys

/-- `lazy_is_loadable`. -/
def isLoadable (li regionStart phys : Nat) : LazyLoader × Bool :=
  match s.index.mans[li]? with
  | none => (s, false)
  | some lm => if s.eligible lm regionStart phys then s.manMatches li else (s, false)

/-- The number of functions of the DLL of an entry. -/
def funcCount (li : Nat) : Nat :=
  match (s.index.mans[li]?).bind fun lm => s.index.cache[lm.cacheIdx]? with
  | none => 0
  | some e => e.funcCount

/-- A loadable entry is the fall-back if it is the first one, and the best one if
its whole bundle matches and has more functions. -/
def pick (li : Nat) (picked : Picked) : LazyLoader × Picked :=
  match s.index.mans[li]? with
  | none => (s, picked)
  | some lm =>
      let whole := s.bundleMatches lm.cacheIdx
      let better := picked.best.all fun best => whole.1.funcCount best < whole.1.funcCount li
      (whole.1,
        { best := if whole.2 && better then some li else picked.best
          fallback := picked.fallback.or (some li) })

/-- The loops of `try_load_region` over candidates of the index. -/
def pickAll (regionStart phys : Nat) : List Nat → LazyLoader → Picked → LazyLoader × Picked
  | [], s, picked => (s, picked)
  | li :: rest, s, picked =>
      match s.isLoadable li regionStart phys with
      | (s, true) => pickAll regionStart phys rest (s.pick li picked).1 (s.pick li picked).2
      | (s, false) => pickAll regionStart phys rest s picked

/-- The walk back over the dirty pages to the floor of the window. -/
def walkBack (m : Memory) (floor : Nat) : Nat → Nat
  | 0 => 0
  | pg + 1 => if floor < pg + 1 ∧ pg < 512 ∧ m.dirty pg = true then walkBack m floor pg else pg + 1

/-- The start of the region of an address. `overlayFloor` is the setting
`OVERLAY_REGION_FLOOR`. -/
def regionStart (overlayFloor phys : Nat) : Nat :=
  let pg := phys / 4096
  let floor := if pg < 16 then 0 else if pg < overlayFloor / 4096 then 16 else overlayFloor / 4096
  walkBack s.loader.mem floor pg * 4096

/-- The entries that are enclosed by a range on the page of the address, the entries
at the address itself left out. -/
@[grind =] def enclosing (phys : Nat) : List Nat :=
  if rangePageCount ≤ pageOf phys then []
  else (s.index.links.chains.walk (pageOf phys)).filter fun li =>
    (s.index.mans[li]?).all fun lm => lm.entry ≠ phys

/-- The choice of `try_load_region`: the entries at the address first, and those that
enclose it if there is none. -/
def select (overlayFloor phys : Nat) : LazyLoader × Picked :=
  let region := s.regionStart overlayFloor phys
  let exact := pickAll region phys (s.index.entries phys) s ⟨none, none⟩
  match exact.2.fallback with
  | some _ => exact
  | none => pickAll region phys (exact.1.enclosing phys) exact.1 exact.2

/-- `lazy_load_selected`, with the functions that the DLL registers. -/
def loadSelected (load : Nat → List DllFunction) (li : Nat) : LazyLoader × Bool :=
  match (s.index.mans[li]?).bind fun lm => (s.index.cache[lm.cacheIdx]?).map (lm.cacheIdx, ·) with
  | none => (s, false)
  | some (ci, e) =>
      if s.loaded.contains e.path || e.funcCount = 0 || (load ci).isEmpty then (s, false)
      else
        ({ s with
          loader := (load ci).foldl Loader.candRegister s.loader
          loaded := if s.loaded.length < maxLoadedDlls then s.loaded ++ [e.path] else s.loaded },
          true)

/-- `lazy_load_selected` of an entry that may be missing. -/
def loadIf (load : Nat → List DllFunction) : Option Nat → LazyLoader × Bool
  | none => (s, false)
  | some li => s.loadSelected load li

/-- `try_load_region`. -/
def tryLoadRegion (overlayFloor phys : Nat) (load : Nat → List DllFunction) : LazyLoader × Bool :=
  let found := s.select overlayFloor phys
  match found.1.loadIf load found.2.best with
  | (t, true) => (t, true)
  | (t, false) => t.loadIf load found.2.fallback

end LazyLoader

end RecompStudio.Runtime
