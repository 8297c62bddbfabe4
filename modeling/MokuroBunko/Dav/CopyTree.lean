import MokuroBunko.Dav.Sidecars
import MokuroBunko.Lib.FileSystem

/-! COPY requests on the library's tree (`methods/write.rs`): what is checked, what is deleted to
make room, and how files and folders are copied. The tree has no links, and nothing else writes
to it meanwhile.
-/

namespace MokuroBunko.Dav

open MokuroBunko.Lib
open MokuroBunko.Library

abbrev Place := List FileName

/-- The folders and files of the library, by their names from the root of the file system. -/
abbrev Tree := FileSystem FileName (List UInt8)

/-- What a request meets besides the tree. -/
structure Surroundings where
  /-- `Roots::library`. -/
  library : Place
  isPerUserRootName : FileName → Bool
  /-- The caller's own files outside the library's, and which of them are reading history. -/
  isProgress : Place → Bool
  isHistoryPath : Place → Bool
  /-- What `eval_if` and `check_dav_locks` find, the latter with or without what is below. -/
  conditionsHold : Place → Bool
  davLocked : Place → Bool → Bool
  /-- Whether `destination_path` has a place for the member. -/
  canBePlaced : Place → Bool
  /-- Whether another write holds the place, something above it or something below. -/
  busy : Place → Bool
  /-- The number of the process, in digits. -/
  processId : FileName
  std : LowerTables

/-- The headers of a COPY request and the places its paths lead to. -/
structure CopyRequest where
  source : Place
  /-- The refusal of a `Destination` header that is missing or invalid. -/
  destination : Except ℕ Place
  overwrite : Option FileName
  depth : Option FileName

/-- The tree after an operation, and the status of its error if it has failed. -/
abbrev Written := Tree × Option ℕ

variable (around : Surroundings)

-- Names

def fileName (phys : Place) : FileName := phys.getLastD []

/-- `is_staging_name`. -/
def isStagingName (name : FileName) : Bool :=
  ".".toList.isPrefixOf name && ".tmp".toList.isSuffixOf name
    && name.tails.any (fun tail => ".upload-".toList.isPrefixOf tail)

def isCbz (phys : Place) : Bool :=
  (pySuffix (fileName phys)).map Text.asciiLowerChar = ".cbz".toList

/-- `library_rel`. -/
def libraryRel (phys : Place) : Option Place :=
  if around.library.isPrefixOf phys then
    let rel := phys.drop around.library.length
    if around.isPerUserRootName (rel.headD []) then none else some rel
  else none

/-- Where `copy_one` writes a copy first. -/
def stagingPlace (dest : Place) : Place :=
  dest.dropLast
    ++ ['.' :: (fileName dest ++ ".upload-copy".toList ++ around.processId ++ ".tmp".toList)]

-- Deleting

/-- `siblings` of an archive, as places. -/
def siblingPlaces (tree : Tree) (phys : Place) : List Place :=
  (siblings around.std (tree.readDir phys.dropLast) (fileName phys)).map (phys.dropLast ++ [·])

/-- `remove_file` whose error is ignored. -/
def discard (tree : Tree) (phys : Place) : Tree := (tree.removeFile phys).getD tree

def deleteFile (tree : Tree) (phys : Place) : Written :=
  if (tree.get? phys).isNone then (tree, none)
  else if around.busy phys then (tree, some 423)
  else
    let cbz := (libraryRel around phys).isSome && isCbz phys
    let cleared := if cbz then (siblingPlaces around tree phys).foldl discard tree else tree
    match cleared.removeFile phys with
    | some removed => (removed, none)
    | none => (cleared, if (cleared.get? phys).isNone then none else some 500)

/-- `delete_resource` of a folder or of a file. -/
def deleteResource (tree : Tree) (phys : Place) (folder : Bool) : Written :=
  if folder then
    if (tree.get? phys).isNone then (tree, none)
    else if around.busy phys then (tree, some 423)
    else
      match tree.removeDirAll phys with
      | some removed => (removed, none)
      | none => (tree, some 500)
  else deleteFile around tree phys

-- Copying files

/-- `copy_one`: the copy is staged beside its place and then renamed. -/
def copyOne (tree : Tree) (src dest : Place) : Written :=
  let temp := stagingPlace around dest
  match tree.createDirAll dest.dropLast with
  | none => (tree, some 500)
  | some made =>
      match made.get? src with
      | some (.file bytes) =>
          -- `fs::copy` empties what it writes to before it reads
          match made.writeFile temp (if src = temp then [] else bytes) with
          | none => (discard made temp, some 500)
          | some staged =>
              match staged.renameFile temp dest with
              | none => (discard staged temp, some 500)
              | some copied => (copied, none)
      | _ => (discard made temp, some 500)

def copyFile (tree : Tree) (src dest : Place) : Written :=
  if around.busy dest then (tree, some 423) else copyOne around tree src dest

-- Copying folders

/-- The inner loop of `prune_unmatched`: the folders still to visit are put on the stack. -/
def pruneEntries (s d : Place) : List FileName → Tree → List (Place × Place)
    → Written × List (Place × Place)
  | [], tree, stack => ((tree, none), stack)
  | name :: rest, tree, stack =>
      let sp := s ++ [name]
      let dp := d ++ [name]
      let isDir := tree.isFolder dp
      if (tree.get? sp).any (fun _ => tree.isFolder sp == isDir) then
        pruneEntries s d rest tree (if isDir then (sp, dp) :: stack else stack)
      else if (tree.get? dp).isNone then pruneEntries s d rest tree stack
      else
        match deleteResource around tree dp isDir with
        | (deleted, none) => pruneEntries s d rest deleted stack
        | (deleted, some code) => ((deleted, some code), stack)

/-- `prune_unmatched`, with a bound on the turns of its loop. -/
def pruneUnmatched : ℕ → Tree → List (Place × Place) → Option Written
  | _, tree, [] => some (tree, none)
  | 0, _, _ :: _ => none
  | turns + 1, tree, (s, d) :: stack =>
      match tree.readDir d with
      | none => pruneUnmatched turns tree stack
      | some names =>
          match pruneEntries around s d names tree stack with
          | ((pruned, none), stack) => pruneUnmatched turns pruned stack
          | (failed, _) => some failed

/-- One member of a folder that is copied: a subfolder is made and put on the stack, a file
replaces what is at its place. -/
def copyMember (destRoot src dest : Place) (tree : Tree) (stack : List (Place × Place))
    : Written × List (Place × Place) :=
  match tree.get? src with
  | some .folder =>
      if around.library.isPrefixOf src && ! src.isPrefixOf destRoot then
        match tree.createDirAll dest with
        | none => ((tree, some 500), stack)
        | some made => ((made, none), (src, dest) :: stack)
      else ((tree, none), stack)
  | some (.file _) =>
      let cleared := if (tree.get? dest).isSome then deleteFile around tree dest else (tree, none)
      match cleared with
      | (cleared, none) => (copyFile around cleared src dest, stack)
      | failed => (failed, stack)
  | none => ((tree, none), stack)

/-- The inner loop of `copy_folder`, over the names in their order. -/
def copyEntries (destRoot src dest : Place) : List FileName → Tree → List (Place × Place)
    → Written × List (Place × Place)
  | [], tree, stack => ((tree, none), stack)
  | name :: rest, tree, stack =>
      if isStagingName name then copyEntries destRoot src dest rest tree stack
      else
        match copyMember around destRoot (src ++ [name]) (dest ++ [name]) tree stack with
        | ((copied, none), stack) => copyEntries destRoot src dest rest copied stack
        | failed => failed

/-- The loop of `copy_folder`, with a bound on its turns. -/
def copyFolders (destRoot : Place) : ℕ → Tree → List (Place × Place) → Option Written
  | _, tree, [] => some (tree, none)
  | 0, _, _ :: _ => none
  | turns + 1, tree, (src, dest) :: stack =>
      match tree.readDir src with
      | none => copyFolders destRoot turns tree stack
      | some names =>
          match copyEntries around destRoot src dest (names.insertionSort (· ≤ ·)) tree stack with
          | ((copied, none), stack) => copyFolders destRoot turns copied stack
          | (failed, _) => some failed

def copyFolder (turns : ℕ) (tree : Tree) (src dest : Place) (infinity : Bool)
    : Option Written := do
  let pruned ←
    if (tree.get? dest).isSome && infinity then pruneUnmatched around turns tree [(src, dest)]
    else some (tree, none)
  match pruned with
  | (failed, some code) => some (failed, some code)
  | (pruned, none) =>
      match pruned.createDirAll dest with
      | none => some (pruned, some 500)
      | some made =>
          if infinity then copyFolders around dest turns made [(src, dest)]
          else some (made, none)

-- Requests

def refuse (code : ℕ) (reason : Bool) : Except ℕ Unit :=
  if reason then .error code else .ok ()

/-- The `Overwrite` header, `T` by default. -/
def overwrites (header : Option FileName) : Except ℕ Bool :=
  match header.map (·.map Char.toUpper) with
  | none => .ok true
  | some ['T'] => .ok true
  | some ['F'] => .ok false
  | some _ => .error 400

/-- Whether the `Depth` header asks for a folder with all it has. -/
def depthInfinity (folder : Bool) (header : Option FileName) : Except ℕ Bool :=
  if header = none ∨ header = some "infinity".toList then .ok folder
  else if header = some "0".toList then .ok false
  else .error 400

/-- `class_of`: a path is the library's or the caller's, or cannot be copied. -/
def classOf (phys : Place) : Option Bool :=
  if around.isProgress phys then some false
  else if (libraryRel around phys).isSome then some true
  else none

/-- The checks of `copy_move`: the destination, and whether a folder is copied with all it
has. -/
def copyChecks (tree : Tree) (request : CopyRequest) : Except ℕ (Place × Bool) := do
  let src := request.source
  refuse 403 (src = around.library)
  refuse 404 (tree.get? src).isNone
  let dest ← request.destination
  let overwrite ← overwrites request.overwrite
  let infinity ← depthInfinity (tree.isFolder src) request.depth
  refuse 403 (around.isHistoryPath src || around.isHistoryPath dest)
  refuse 403 ((classOf around src).isNone || classOf around src != classOf around dest
    || dest = around.library)
  refuse 409 (! tree.isFolder dest.dropLast)
  refuse 412 (! around.conditionsHold src
    || ((tree.get? dest).isSome && ! around.conditionsHold dest))
  refuse 423 (if (tree.get? dest).isSome then around.davLocked dest true
    else around.davLocked dest.dropLast false)
  refuse 403 (src.isPrefixOf dest)
  refuse 412 ((tree.get? dest).isSome && ! overwrite)
  refuse 409 ((tree.get? dest).isSome && tree.isFolder dest != tree.isFolder src)
  refuse 403 (! around.canBePlaced dest)
  pure (dest, infinity)

/-- What `copy_move` does when nothing refuses the copy. -/
def copyAccepted (turns : ℕ) (tree : Tree) (src dest : Place) (infinity : Bool)
    : Option Written :=
  if tree.isFolder src then copyFolder around turns tree src dest infinity
  else
    match if (tree.get? dest).isSome then deleteFile around tree dest else (tree, none) with
    | (cleared, none) => some (copyFile around cleared src dest)
    | failed => some failed

/-- `copy_move` of a COPY: the tree afterwards and the status, once the loops have ended. -/
def copyMove (turns : ℕ) (tree : Tree) (request : CopyRequest) : Option (Tree × ℕ) :=
  match copyChecks around tree request with
  | .error code => some (tree, code)
  | .ok (dest, infinity) =>
      (copyAccepted around turns tree request.source dest infinity).map (fun written =>
        (written.1, written.2.getD (if (tree.get? dest).isSome then 204 else 201)))

end MokuroBunko.Dav
