import MokuroBunko.Lib.OrderedMap
import Mathlib.Data.List.Infix
import Mathlib.Data.List.Induction

/-! A file system without links: folders and files at their places, each in a folder. Its
operations are those of an operating system; they have no result where it refuses them.
-/

namespace MokuroBunko.Lib

/-- What is at a place. -/
inductive FileNode (β : Type) where
  | folder
  | file (content : β)
deriving DecidableEq

structure FileSystem (ν β : Type) [DecidableEq ν] where
  entries : OrderedMap (List ν) (FileNode β)
  root : entries.get? [] = some .folder
  nested : ∀ place name, entries.get? (place ++ [name]) ≠ none → entries.get? place = some .folder

namespace FileSystem

variable {ν β : Type} [DecidableEq ν]

def get? (files : FileSystem ν β) (place : List ν) : Option (FileNode β) :=
  files.entries.get? place

def isFolder (files : FileSystem ν β) (place : List ν) : Bool :=
  match files.get? place with
  | some .folder => true
  | _ => false

def isFile (files : FileSystem ν β) (place : List ν) : Bool :=
  match files.get? place with
  | some (.file _) => true
  | _ => false

/-- The names in a folder, in no certain order. -/
def readDir (files : FileSystem ν β) (folder : List ν) : Option (List ν) :=
  if files.isFolder folder then
    some (files.entries.keys.filterMap (fun place =>
      if place ≠ [] ∧ place.dropLast = folder then place.getLast? else none))
  else none

theorem isFolder_iff {files : FileSystem ν β} {place : List ν}
    : files.isFolder place = true ↔ files.get? place = some .folder := by
  unfold isFolder
  rcases files.get? place with _ | _ | content <;> simp

theorem isFile_iff {files : FileSystem ν β} {place : List ν}
    : files.isFile place = true ↔ ∃ content, files.get? place = some (.file content) := by
  unfold isFile
  rcases files.get? place with _ | _ | content <;> simp

theorem folder_above {files : FileSystem ν β} {place below : List ν}
    (there : files.get? (place ++ below) ≠ none) (inner : below ≠ [])
    : files.get? place = some .folder := by
  induction below using List.reverseRecOn with
  | nil => exact absurd rfl inner
  | append_singleton front name ih =>
      rw [← List.append_assoc] at there
      have above := files.nested _ _ there
      cases front with
      | nil => rwa [List.append_nil] at above
      | cons first rest => exact ih (by rw [show files.get? _ = _ from above]; simp) (by simp)

theorem nameIn_eq_some_iff {folder place : List ν} {name : ν}
    : (if place ≠ [] ∧ place.dropLast = folder then place.getLast? else none) = some name
      ↔ place = folder ++ [name] := by
  constructor
  · intro found
    split at found
    case isFalse => cases found
    case isTrue inside =>
      obtain ⟨inner, rfl⟩ := inside
      rw [List.getLast?_eq_some_getLast inner] at found
      rw [← Option.some.inj found, List.dropLast_append_getLast]
  · rintro rfl
    rw [if_pos ⟨List.concat_ne_nil _ _, List.dropLast_concat⟩, List.getLast?_concat]

theorem mem_readDir {files : FileSystem ν β} {folder names : List ν} {name : ν}
    (read : files.readDir folder = some names)
    : name ∈ names ↔ files.get? (folder ++ [name]) ≠ none := by
  unfold readDir at read
  split at read
  case isFalse => cases read
  case isTrue =>
    obtain rfl := Option.some.inj read
    simp only [List.mem_filterMap, nameIn_eq_some_iff, exists_eq_right]
    rw [OrderedMap.mem_keys_iff, Option.ne_none_iff_exists']
    rfl

theorem nodup_readDir {files : FileSystem ν β} {folder names : List ν}
    (read : files.readDir folder = some names)
    : names.Nodup := by
  unfold readDir at read
  split at read
  case isFalse => cases read
  case isTrue =>
    obtain rfl := Option.some.inj read
    refine List.Nodup.filterMap ?_ files.entries.keysNodup
    intro place other name found also
    rw [Option.mem_def, nameIn_eq_some_iff] at found also
    rw [found, also]

/-- A file system of these entries, each in a folder of theirs. -/
def ofEntries (entries : OrderedMap (List ν) (FileNode β)) (root : entries.get? [] = some .folder)
    (parents : ∀ place ∈ entries.keys, place ≠ []
      → entries.get? place.dropLast = some .folder)
    : FileSystem ν β where
  entries := entries
  root := root
  nested place name there := by
    have above := parents (place ++ [name])
      (OrderedMap.mem_keys_iff.mpr (Option.ne_none_iff_exists'.mp there))
      (List.concat_ne_nil name place)
    rwa [List.dropLast_concat] at above

-- Operations

/-- Create a file or replace one. -/
def writeFile (files : FileSystem ν β) (place : List ν) (content : β) : Option (FileSystem ν β) :=
  if within : place ≠ [] ∧ files.isFolder place.dropLast = true
      ∧ files.isFolder place = false then
    some {
      entries := files.entries.insert place (.file content)
      root := by
        rw [OrderedMap.get?_insert, if_neg (Ne.symm within.1)]
        exact files.root
      nested := by
        intro folder name there
        rw [OrderedMap.get?_insert] at there ⊢
        have above : files.get? folder = some .folder := by
          by_cases new : folder ++ [name] = place
          · rw [← isFolder_iff, ← within.2.1, ← new, List.dropLast_concat]
          · rw [if_neg new] at there
            exact files.nested folder name there
        rw [if_neg]
        · exact above
        · rintro rfl
          rw [isFolder_iff.mpr above] at within
          cases within.2.2
    }
  else none

def removeFile (files : FileSystem ν β) (place : List ν) : Option (FileSystem ν β) :=
  if isFile : files.isFile place = true then
    some {
      entries := files.entries.erase place
      root := by
        rw [OrderedMap.get?_erase, if_neg]
        · exact files.root
        · rintro rfl
          obtain ⟨content, found⟩ := isFile_iff.mp isFile
          rw [get?, files.root] at found
          cases found
      nested := by
        intro folder name there
        rw [OrderedMap.get?_erase] at there ⊢
        split at there
        case isTrue => exact absurd rfl there
        case isFalse other =>
          have above := files.nested folder name there
          rw [if_neg]
          · exact above
          · rintro rfl
            obtain ⟨content, found⟩ := isFile_iff.mp isFile
            rw [get?, above] at found
            cases found
    }
  else none

/-- Move a file, over a file that is there. -/
def renameFile (files : FileSystem ν β) (source target : List ν) : Option (FileSystem ν β) :=
  match files.get? source with
  | some (.file content) => do
      let removed ← files.removeFile source
      removed.writeFile target content
  | _ => none

/-- Remove a folder with everything in it. -/
def removeDirAll (files : FileSystem ν β) (place : List ν) : Option (FileSystem ν β) :=
  if within : place ≠ [] ∧ files.isFolder place = true then
    some {
      entries := files.entries.retain (fun other _ => ! place.isPrefixOf other)
      root := by
        rw [OrderedMap.get?_retain, files.root]
        have inner := within.1
        cases place with
        | nil => exact absurd rfl inner
        | cons first rest => rfl
      nested := by
        intro folder name there
        rw [OrderedMap.get?_retain] at there ⊢
        have above : files.get? folder = some .folder := by
          apply files.nested folder name
          intro missing
          rw [missing] at there
          exact there rfl
        rw [show files.entries.get? folder = some .folder from above]
        rw [Option.filter_some, if_pos]
        rw [Bool.not_eq_true']
        by_contra below
        rw [Bool.not_eq_false, List.isPrefixOf_iff_prefix] at below
        have also : place.isPrefixOf (folder ++ [name]) = true :=
          List.isPrefixOf_iff_prefix.mpr (below.trans (List.prefix_append _ _))
        apply there
        rw [Option.filter_eq_none_iff]
        intro entry _
        rw [also]
        decide
    }
  else none

/-- Create a folder, in one that is there. -/
def makeDir (files : FileSystem ν β) (place : List ν) : Option (FileSystem ν β) :=
  if within : place ≠ [] ∧ files.isFolder place.dropLast = true ∧ files.get? place = none then
    some {
      entries := files.entries.insert place .folder
      root := by
        rw [OrderedMap.get?_insert, if_neg (Ne.symm within.1)]
        exact files.root
      nested := by
        intro folder name there
        rw [OrderedMap.get?_insert] at there ⊢
        by_cases new : folder = place
        · rw [if_pos new]
        · rw [if_neg new]
          by_cases last : folder ++ [name] = place
          · have above := isFolder_iff.mp within.2.1
            rwa [← last, List.dropLast_concat] at above
          · rw [if_neg last] at there
            exact files.nested folder name there
    }
  else none

/-- One folder of `createDirAll`: it may be there already. -/
def ensureDir (files : FileSystem ν β) (place : List ν) : Option (FileSystem ν β) :=
  match files.get? place with
  | some .folder => some files
  | some (.file _) => none
  | none => files.makeDir place

/-- Create a folder and those above it that are missing. -/
def createDirAll (files : FileSystem ν β) (place : List ν) : Option (FileSystem ν β) :=
  place.inits.foldlM ensureDir files

-- What is where afterwards

variable {files after : FileSystem ν β} {place asked : List ν} {content : β}

theorem get?_writeFile (written : files.writeFile place content = some after)
    : after.get? asked = if asked = place then some (.file content) else files.get? asked := by
  unfold writeFile at written
  split at written
  case isFalse => cases written
  case isTrue =>
    obtain rfl := Option.some.inj written
    exact OrderedMap.get?_insert ..

theorem writeFile_of (somewhere : place ≠ []) (above : files.get? place.dropLast = some .folder)
    (notFolder : files.get? place ≠ some .folder)
    : ∃ after, files.writeFile place content = some after := by
  refine ⟨_, dif_pos ⟨somewhere, isFolder_iff.mpr above, ?_⟩⟩
  rw [← Bool.not_eq_true, isFolder_iff]
  exact notFolder

theorem get?_removeFile (removed : files.removeFile place = some after)
    : after.get? asked = if asked = place then none else files.get? asked := by
  unfold removeFile at removed
  split at removed
  case isFalse => cases removed
  case isTrue =>
    obtain rfl := Option.some.inj removed
    exact OrderedMap.get?_erase ..

theorem removeFile_eq_none_iff : files.removeFile place = none ↔ files.isFile place = false := by
  unfold removeFile
  split
  case isTrue isFile => simp [isFile]
  case isFalse notFile => simpa using notFile

theorem writeFile_folder (isFolder : files.get? place = some .folder)
    : files.writeFile place content = none := by
  unfold writeFile
  rw [dif_neg]
  rintro ⟨-, -, notFolder⟩
  rw [isFolder_iff.mpr isFolder] at notFolder
  cases notFolder

theorem get?_renameFile {source target : List ν}
    (renamed : files.renameFile source target = some after)
    (found : files.get? source = some (.file content))
    : after.get? asked
      = if asked = target then some (.file content)
        else if asked = source then none
        else files.get? asked := by
  unfold renameFile at renamed
  rw [found] at renamed
  obtain ⟨removed, isRemoved, written⟩ := Option.bind_eq_some_iff.mp renamed
  rw [get?_writeFile written, get?_removeFile isRemoved]

theorem renameFile_of {source target : List ν} (inner : target ≠ [])
    (found : files.get? source = some (.file content)) (other : source ≠ target)
    (above : files.get? target.dropLast = some .folder)
    (notFolder : files.get? target ≠ some .folder)
    : ∃ after, files.renameFile source target = some after := by
  unfold renameFile
  rw [found]
  rcases removed : files.removeFile source with _ | middle
  · rw [removeFile_eq_none_iff, ← Bool.not_eq_true, isFile_iff] at removed
    exact absurd ⟨content, found⟩ removed
  · apply writeFile_of inner
    · rw [get?_removeFile removed, if_neg]
      · exact above
      · rintro rfl
        rw [above] at found
        cases found
    · rw [get?_removeFile removed, if_neg other.symm]
      exact notFolder

theorem get?_removeDirAll (removed : files.removeDirAll place = some after)
    : after.get? asked = if place <+: asked then none else files.get? asked := by
  unfold removeDirAll at removed
  split at removed
  case isFalse => cases removed
  case isTrue =>
    obtain rfl := Option.some.inj removed
    rw [get?, OrderedMap.get?_retain]
    have test := @List.isPrefixOf_iff_prefix _ _ _ place asked
    by_cases below : place <+: asked
    · rw [if_pos below, Option.filter_eq_none_iff]
      intro entry _
      simp [test.mpr below]
    · rw [if_neg below]
      rw [← test, Bool.not_eq_true] at below
      rcases found : files.entries.get? asked with _ | entry
      · rw [get?, found]
        rfl
      · rw [get?, found, Option.filter_some, below]
        rfl

theorem get?_ensureDir (made : files.ensureDir place = some after)
    : after.get? asked = if asked = place then some .folder else files.get? asked := by
  unfold ensureDir at made
  split at made
  case h_1 isFolder =>
    obtain rfl := Option.some.inj made
    split
    case isTrue same => rw [same, isFolder]
    case isFalse => rfl
  case h_2 => cases made
  case h_3 =>
    unfold makeDir at made
    split at made
    case isFalse => cases made
    case isTrue =>
      obtain rfl := Option.some.inj made
      exact OrderedMap.get?_insert ..

theorem createDirAll_concat (files : FileSystem ν β) (folder : List ν) (name : ν)
    : files.createDirAll (folder ++ [name])
      = (files.createDirAll folder).bind (fun made => made.ensureDir (folder ++ [name])) := by
  unfold createDirAll
  rw [List.inits_append, List.foldlM_append]
  simp [List.inits]

theorem get?_createDirAll (made : files.createDirAll place = some after)
    : after.get? asked = if asked <+: place then some .folder else files.get? asked := by
  induction place using List.reverseRecOn generalizing after with
  | nil =>
      obtain rfl : files = after := by
        have root := files.root
        simpa [createDirAll, ensureDir, get?, root] using made
      split
      case isTrue same => rw [List.prefix_nil.mp same, get?, files.root]
      case isFalse => rfl
  | append_singleton folder name ih =>
      rw [createDirAll_concat] at made
      obtain ⟨middle, first, last⟩ := Option.bind_eq_some_iff.mp made
      rw [get?_ensureDir last, ih first]
      by_cases same : asked = folder ++ [name]
      · rw [if_pos same, if_pos (List.prefix_concat_iff.mpr (.inl same))]
      · rw [if_neg same]
        by_cases above : asked <+: folder
        · rw [if_pos above, if_pos (List.prefix_concat_iff.mpr (.inr above))]
        · rw [if_neg above, if_neg]
          intro either
          exact above ((List.prefix_concat_iff.mp either).resolve_left same)

theorem createDirAll_of (free : ∀ above, above <+: place → files.isFile above = false)
    : ∃ after, files.createDirAll place = some after := by
  induction place using List.reverseRecOn with
  | nil => exact ⟨files, by simp [createDirAll, ensureDir, get?, files.root]⟩
  | append_singleton folder name ih =>
      obtain ⟨middle, first⟩ := ih (fun above isAbove =>
        free above (isAbove.trans (List.prefix_append _ _)))
      rw [createDirAll_concat, first, Option.bind_some]
      have isFolder : middle.get? folder = some .folder := by
        rw [get?_createDirAll first, if_pos (List.prefix_refl _)]
      have notFile := free _ (List.prefix_refl (folder ++ [name]))
      have found : middle.get? (folder ++ [name]) = files.get? (folder ++ [name]) := by
        rw [get?_createDirAll first, if_neg]
        intro below
        have longer := below.length_le
        rw [List.length_append, List.length_singleton] at longer
        omega
      unfold ensureDir
      rw [found]
      unfold isFile at notFile
      split at notFile
      case h_1 => cases notFile
      case h_2 other =>
        rcases there : files.get? (folder ++ [name]) with _ | _ | content
        · refine ⟨_, dif_pos ⟨by simp, ?_, by rw [found, there]⟩⟩
          rw [List.dropLast_concat]
          exact isFolder_iff.mpr isFolder
        · exact ⟨middle, rfl⟩
        · exact absurd there (other content)

theorem createDirAll_folder (isFolder : files.get? place = some .folder)
    : ∃ after, files.createDirAll place = some after
      ∧ ∀ asked, after.get? asked = files.get? asked := by
  have above {folder : List ν} (isAbove : folder <+: place)
      : files.get? folder = some .folder := by
    obtain ⟨below, rfl⟩ := isAbove
    cases below with
    | nil => rwa [List.append_nil] at isFolder
    | cons first rest => exact folder_above (by rw [isFolder]; simp) (List.cons_ne_nil _ _)
  obtain ⟨after, made⟩ := @createDirAll_of _ _ _ files place (fun folder isAbove => by
    rw [← Bool.not_eq_true, isFile_iff, above isAbove]
    rintro ⟨_, ⟨⟩⟩)
  refine ⟨after, made, fun asked => ?_⟩
  rw [get?_createDirAll made]
  split
  case isTrue isAbove => exact (above isAbove).symm
  case isFalse => rfl

end FileSystem

end MokuroBunko.Lib
