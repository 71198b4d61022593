import RecompStudio.Library.LexicalPath
import RecompStudio.Studio.VitaPkg

/-!
Where the files of a package go: the directories that an extraction creates and the
files that it writes, against the directory it was given.
-/

namespace RecompStudio.Studio

open LexicalPath

/-- What Qt's paths mean without symbolic links. `place` is the directory or the file that a
path leads to, by its names from the root. -/
structure Destination.Lexical (dest : Destination) (place : String → List Name) : Prop where
  cleanPath : ∀ name, (dest.cleanPath name).toList = clean name.toList
  filePath : ∀ relative, relative.startsWith "/" = false →
    place (dest.filePath relative) = follow (place dest.path) relative.toList
  absolutePath : ∀ target, place (dest.absolutePath target) = (place target).dropLast

section

variable (dest : Destination) (info : VitaPkgInfo) (wanted : Option (VitaPkgItem → Bool))

@[grind =] def accepted (item : VitaPkgItem) : Bool :=
  selected wanted item && !unusable (dest.cleanPath item.name)

/-- The path that `mkpath` is called with for an item. -/
@[grind =] def mkpathOf (item : VitaPkgItem) : String :=
  let target := dest.filePath (dest.cleanPath item.name)
  if item.isDirectory then target else dest.absolutePath target

/-- The items that the loop comes to: an error ends it. -/
@[grind =] def reached (file : PkgFile) : List VitaPkgItem → List VitaPkgItem
  | [] => []
  | item :: items =>
      item :: if (extractItem dest info wanted file item).error = none then reached file items
        else []

def reachedItems (file : Option PkgFile) : List VitaPkgItem :=
  match file with
  | none => []
  | some file =>
      if dest.mkpath dest.path = false then [] else reached dest info wanted file info.items

variable {dest info wanted}

theorem extractChunks_congr (mkpath : String → Bool) (item : VitaPkgItem) (target : String)
    (stream : CtrStream) (file : PkgFile) (remaining : Nat) (written : List Byte) :
    extractChunks { dest with mkpath } item target stream file remaining written =
      extractChunks dest item target stream file remaining written := by
  induction remaining using Nat.strong_induction_on generalizing stream file written with
  | _ remaining ih =>
      rcases Nat.eq_zero_or_pos remaining with rfl | hPos
      · rw [extractChunks, extractChunks]
        rfl
      · by_cases hEnd : (nextChunk file remaining).1 = []
        · rw [extractChunks, extractChunks]
          simp only [hEnd, dif_pos]
        · rw [extractChunks_step hPos hEnd, extractChunks_step hPos hEnd]
          have hChunk := List.length_pos_of_ne_nil hEnd
          simp only
          rw [ih _ (by omega)]

/-- An item asks `mkpath` for nothing else, and nothing when it is not accepted. -/
theorem extractItem_congr {file : PkgFile} {item : VitaPkgItem} {mkpath : String → Bool}
    (hSame : accepted dest wanted item = true →
      mkpath (mkpathOf dest item) = dest.mkpath (mkpathOf dest item)) :
    extractItem { dest with mkpath } info wanted file item =
      extractItem dest info wanted file item := by
  by_cases hSkip : wanted.any (fun f => item.isDirectory || !f item) = true
  · rw [extractItem, extractItem, if_pos hSkip, if_pos hSkip]
  by_cases hPath : unusable (dest.cleanPath item.name) = true
  · rw [extractItem, extractItem, if_neg hSkip, if_neg hSkip]
    simp only [hPath, if_true]
  have hAccepted : accepted dest wanted item = true := by
    rw [accepted, selected, Bool.eq_false_of_not_eq_true hSkip,
      Bool.eq_false_of_not_eq_true hPath]
    rfl
  have hSame := hSame hAccepted
  rw [extractItem, extractItem, if_neg hSkip, if_neg hSkip]
  by_cases hDirectory : item.isDirectory = true
  · rw [mkpathOf, if_pos hDirectory] at hSame
    simp only [hDirectory, if_true, hSame]
  · rw [mkpathOf, if_neg hDirectory] at hSame
    simp only [hDirectory, hSame, extractChunks_congr]
    rfl

/-- Only the target of an accepted item is opened. -/
theorem mem_files_extractItem {file : PkgFile} {item : VitaPkgItem} {f : WrittenFile}
    (hf : f ∈ (extractItem dest info wanted file item).files) :
    accepted dest wanted item = true ∧ f.target = dest.filePath (dest.cleanPath item.name) := by
  by_cases hPath : unusable (dest.cleanPath item.name) = true
  · rw [extractItem] at hf
    simp only [hPath, if_true] at hf
    split at hf <;> exact absurd hf List.not_mem_nil
  · have hUsable := Bool.eq_false_of_not_eq_true hPath
    have hOutcome := extractItem_outcome dest info wanted file item
    generalize extractItem dest info wanted file item = e at hf hOutcome
    cases hOutcome with
    | skipped => exact absurd hf List.not_mem_nil
    | directory => exact absurd hf List.not_mem_nil
    | refused => exact absurd hf List.not_mem_nil
    | written placed result hSelected =>
        rw [List.mem_singleton.mp hf]
        exact ⟨by rw [accepted, hSelected, hUsable]; rfl, rfl⟩

theorem mem_files_extractItems {file : PkgFile} {items : List VitaPkgItem} {f : WrittenFile}
    (hf : f ∈ (extractItems dest info wanted file items).files) :
    ∃ item ∈ reached dest info wanted file items, accepted dest wanted item = true ∧
      f.target = dest.filePath (dest.cleanPath item.name) := by
  induction items with
  | nil => exact absurd hf List.not_mem_nil
  | cons item items ih =>
      rw [extractItems] at hf
      rw [reached]
      cases hError : (extractItem dest info wanted file item).error with
      | some e =>
          simp only [hError] at hf
          exact ⟨item, List.mem_cons_self, mem_files_extractItem hf⟩
      | none =>
          simp only [hError] at hf
          rw [if_pos rfl]
          rcases List.mem_append.mp hf with hf | hf
          · exact ⟨item, List.mem_cons_self, mem_files_extractItem hf⟩
          · obtain ⟨other, hOther, hTarget⟩ := ih hf
            exact ⟨other, List.mem_cons_of_mem _ hOther, hTarget⟩

end

/-- A parent reference, what starts with one, or a path with a root. -/
def Escapes (relative : String) : Prop :=
  relative = ".." ∨ relative.startsWith "../" = true ∨ relative.startsWith "/" = true

section

variable (dest : Destination) (place : String → List Name) (info : VitaPkgInfo)
  (wanted : Option (VitaPkgItem → Bool)) (file : Option PkgFile) (fileError : String)

/-- The destination exists by then, so that the directories on the way to it are not created. -/
def Creates (path : String) (dir : List Name) : Prop :=
  dir <+: place path ∧ ¬ dir <+: place dest.path

/-- No accepted name escapes, and what is created or opened is below the destination. -/
structure Contained : Prop where
  names : ∀ item ∈ reachedItems dest info wanted file, accepted dest wanted item = true →
    ¬ Escapes (dest.cleanPath item.name)
  directories : ∀ item ∈ reachedItems dest info wanted file, accepted dest wanted item = true →
    ∀ dir, Creates dest place (mkpathOf dest item) dir → place dest.path <+: dir
  files : ∀ f ∈ (extractVitaPkg dest file fileError info wanted).files,
    place dest.path <+: place f.target

variable {dest place info wanted}

theorem unusable_eq_false {relative : String} (h : unusable relative = false) :
    relative.startsWith "/" = false ∧ relative.startsWith "../" = false := by
  simp only [unusable, Bool.or_eq_false_iff] at h
  exact ⟨h.1.1.2, h.1.2⟩

theorem usable_dotdot : unusable ".." = false := by
  simp only [unusable, Bool.or_eq_false_iff, String.startsWith_string_eq_false_iff,
    decide_eq_false_iff_not]
  decide

theorem target_below (hLexical : dest.Lexical place) {item : VitaPkgItem}
    (hAccepted : accepted dest wanted item = true) (hParent : dest.cleanPath item.name ≠ "..") :
    ∃ names, place (dest.filePath (dest.cleanPath item.name)) = place dest.path ++ names := by
  rw [accepted, Bool.and_eq_true, Bool.not_eq_true'] at hAccepted
  obtain ⟨hRoot, hClimb⟩ := unusable_eq_false hAccepted.2
  rw [hLexical.filePath _ hRoot]
  have hClean := hLexical.cleanPath item.name
  rw [String.startsWith_string_eq_false_iff, hClean] at hRoot hClimb
  rw [hClean]
  refine follow_clean (fun h => ?_) (fun h => ?_) hClimb _
  · obtain ⟨rest, hRest⟩ := List.head?_eq_some_iff.mp h
    exact hRoot ⟨rest, hRest.symm⟩
  · exact hParent (String.toList_injective (hClean.trans h))

/-- An extraction stays below its destination, in the files it writes, the directories it makes
and the names it takes, exactly if no selected item that it comes to has a name that cleans
to `..`. -/
theorem contained_iff (hLexical : dest.Lexical place) :
    Contained dest place info wanted file fileError ↔
      ∀ item ∈ reachedItems dest info wanted file, selected wanted item = true →
        dest.cleanPath item.name ≠ ".." := by
  constructor
  · intro hContained item hItem hSelected hParent
    refine hContained.names item hItem ?_ (Or.inl hParent)
    rw [accepted, hSelected, hParent, usable_dotdot]
    rfl
  · intro hNone
    have hBelow (item : VitaPkgItem) (hItem : item ∈ reachedItems dest info wanted file)
        (hAccepted : accepted dest wanted item = true) :
        dest.cleanPath item.name ≠ ".." ∧
          ∃ names, place (dest.filePath (dest.cleanPath item.name)) = place dest.path ++ names := by
      have hSelected := hAccepted
      rw [accepted, Bool.and_eq_true] at hSelected
      have hParent := hNone item hItem hSelected.1
      exact ⟨hParent, target_below hLexical hAccepted hParent⟩
    refine ⟨fun item hItem hAccepted hEscapes => ?_, fun item hItem hAccepted dir hDir => ?_,
      fun f hf => ?_⟩
    · obtain ⟨hParent, -⟩ := hBelow item hItem hAccepted
      rw [accepted, Bool.and_eq_true, Bool.not_eq_true'] at hAccepted
      obtain ⟨hRoot, hClimb⟩ := unusable_eq_false hAccepted.2
      rcases hEscapes with h | h | h
      · exact hParent h
      · exact Bool.false_ne_true (hClimb.symm.trans h)
      · exact Bool.false_ne_true (hRoot.symm.trans h)
    · obtain ⟨-, names, hTarget⟩ := hBelow item hItem hAccepted
      -- Both paths are on the way to the target.
      have hWay : dir <+: place dest.path ++ names := by
        rw [← hTarget]
        refine hDir.1.trans ?_
        rw [mkpathOf]
        split
        · exact List.prefix_rfl
        · rw [hLexical.absolutePath]
          exact List.dropLast_prefix _
      rcases List.prefix_or_prefix_of_prefix hWay (List.prefix_append _ _) with h | h
      · exact absurd h hDir.2
      · exact h
    · cases file with
      | none => exact absurd hf List.not_mem_nil
      | some file =>
          simp only [extractVitaPkg] at hf
          simp only [reachedItems] at hBelow
          by_cases hMade : dest.mkpath dest.path = false
          · rw [if_pos hMade] at hf
            exact absurd hf List.not_mem_nil
          · rw [if_neg hMade] at hf hBelow
            obtain ⟨item, hItem, hAccepted, hTarget⟩ := mem_files_extractItems hf
            obtain ⟨-, names, hPlace⟩ := hBelow item hItem hAccepted
            rw [hTarget, hPlace]
            exact List.prefix_append _ _

end

def lexicalPlace (path : String) : List Name := follow [] path.toList

/-- A destination whose paths are taken as text. -/
def outDestination : Destination where
  path := "/out"
  cleanPath name := String.ofList (clean name.toList)
  filePath relative := if relative.startsWith "/" then relative else "/out/" ++ relative
  absolutePath target := String.ofList ('/' :: joined (lexicalPlace target).dropLast)
  mkpath _ := true
  opens _ := true
  writes _ _ _ := true
  flushes _ := true
  errorString _ := ""

theorem outDestination_lexical : outDestination.Lexical lexicalPlace where
  cleanPath _ := String.toList_ofList
  filePath relative hRoot := by
    have hPath : outDestination.filePath relative = "/out/" ++ relative :=
      if_neg (by rw [hRoot]; exact Bool.false_ne_true)
    have hOut : "/out/".toList = "/out".toList ++ ['/'] := by decide
    rw [hPath, lexicalPlace, String.toList_append, hOut, List.append_assoc, List.singleton_append,
      follow_slash]
    rfl
  absolutePath target := by
    have hPlace : ∀ x ∈ (lexicalPlace target).dropLast, Proper x := fun x hx =>
      @proper_follow [] nofun target.toList x (List.dropLast_subset _ hx)
    change follow [] (String.ofList ('/' :: joined (lexicalPlace target).dropLast)).toList = _
    rw [String.toList_ofList, ← List.nil_append ('/' :: _), follow_slash, follow_joined hPlace]
    rfl

/-- A package with one directory. -/
def directoryPackage (name : String) : VitaPkgInfo where
  items := [{ name, offset := 0, size := 0, flags := 4 }]
  dataOffset := 0
  dataSize := 0
  itemKey := []
  itemCounter := []

theorem reachedItems_directory (name : String) :
    reachedItems outDestination (directoryPackage name) none (some ⟨[], 0⟩) =
      [{ name, offset := 0, size := 0, flags := 4 }] := by
  change reached outDestination (directoryPackage name) none ⟨[], 0⟩ [_] = _
  rw [reached]
  split <;> rfl

theorem inside_contained :
    Contained outDestination lexicalPlace (directoryPackage "a/../b") none (some ⟨[], 0⟩) "" := by
  refine (contained_iff (some ⟨[], 0⟩) "" outDestination_lexical).mpr fun item hItem _ h => ?_
  rw [reachedItems_directory] at hItem
  obtain rfl := List.mem_singleton.mp hItem
  have hClean := congrArg String.toList h
  rw [outDestination_lexical.cleanPath] at hClean
  revert hClean
  decide

/-- The extraction of a directory `..` succeeds. -/
theorem parent_accepted :
    (extractVitaPkg outDestination (some ⟨[], 0⟩) "" (directoryPackage "..") none).error = none ∧
      ¬ Contained outDestination lexicalPlace (directoryPackage "..") none (some ⟨[], 0⟩) "" := by
  have hClean : outDestination.cleanPath ".." = ".." := by
    refine String.toList_injective ?_
    rw [outDestination_lexical.cleanPath]
    decide
  constructor
  · have hItem : (extractItem outDestination (directoryPackage "..") none ⟨[], 0⟩
        { name := "..", offset := 0, size := 0, flags := 4 }).error = none := by
      rw [extractItem]
      simp only [hClean, usable_dotdot]
      rfl
    change (extractItems outDestination _ none ⟨[], 0⟩ [_]).error = none
    rw [extractItems]
    simp only [hItem]
    rfl
  · intro hContained
    refine hContained.names { name := "..", offset := 0, size := 0, flags := 4 } ?_ ?_
      (Or.inl hClean)
    · rw [reachedItems_directory]
      exact List.mem_singleton_self _
    · rw [accepted, hClean, usable_dotdot]
      rfl

end RecompStudio.Studio
