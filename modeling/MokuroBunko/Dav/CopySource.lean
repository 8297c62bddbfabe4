import MokuroBunko.Dav.CopyTree

/-! What a COPY of a file does to its source: it is gone when it was a sidecar of the archive
that made room for the copy, or had the name that the copy was staged under.
-/

namespace MokuroBunko.Dav

open MokuroBunko.Lib
open MokuroBunko.Library

variable {around : Surroundings} {tree : Tree} {src dest : Place}

-- What deleting leaves

theorem get?_discard (tree : Tree) (phys asked : Place)
    : (discard tree phys).get? asked
      = if asked = phys ∧ tree.isFile asked = true then none else tree.get? asked := by
  unfold discard
  rcases removed : tree.removeFile phys with _ | after
  · have notFile := FileSystem.removeFile_eq_none_iff.mp removed
    rw [Option.getD_none, if_neg]
    rintro ⟨rfl, isFile⟩
    rw [notFile] at isFile
    cases isFile
  · rw [Option.getD_some, FileSystem.get?_removeFile removed]
    by_cases same : asked = phys
    · subst same
      have isFile : tree.isFile asked = true := by
        by_contra other
        rw [Bool.not_eq_true] at other
        rw [FileSystem.removeFile_eq_none_iff.mpr other] at removed
        cases removed
      rw [if_pos rfl, if_pos ⟨rfl, isFile⟩]
    · rw [if_neg same, if_neg (fun both => same both.1)]

theorem get?_discards (places : List Place) (tree : Tree) (asked : Place)
    : (places.foldl discard tree).get? asked
      = if asked ∈ places ∧ tree.isFile asked = true then none else tree.get? asked := by
  induction places generalizing tree with
  | nil => simp
  | cons place rest ih =>
      rw [List.foldl_cons, ih, get?_discard]
      have isFile : (discard tree place).isFile asked
          = if asked = place ∧ tree.isFile asked = true then false else tree.isFile asked := by
        rw [FileSystem.isFile, get?_discard]
        by_cases here : asked = place ∧ tree.isFile asked = true
        · rw [if_pos here, if_pos here]
        · rw [if_neg here, if_neg here]
          rfl
      rw [isFile]
      by_cases here : asked = place ∧ tree.isFile asked = true
      · rw [if_pos here, if_pos here, if_neg (by simp)]
        rw [if_pos ⟨by simp [here.1], here.2⟩]
      · rw [if_neg here, if_neg here]
        by_cases later : asked ∈ rest ∧ tree.isFile asked = true
        · rw [if_pos later, if_pos ⟨List.mem_cons_of_mem _ later.1, later.2⟩]
        · rw [if_neg later, if_neg]
          rintro ⟨isIn, file⟩
          rcases List.mem_cons.mp isIn with same | isLater
          · exact here ⟨same, file⟩
          · exact later ⟨isLater, file⟩

/-- The files that go when the file at the place is deleted. -/
def Removed (around : Surroundings) (tree : Tree) (phys asked : Place) : Prop :=
  asked = phys ∨ ((libraryRel around phys).isSome = true ∧ isCbz phys = true
    ∧ asked ∈ siblingPlaces around tree phys ∧ tree.isFile asked = true)

theorem deleteFile_spec {phys : Place} (isFile : tree.isFile phys = true)
    (free : around.busy phys = false)
    : ∃ after, deleteFile around tree phys = (after, none)
      ∧ ∀ asked, (Removed around tree phys asked → after.get? asked = none)
        ∧ (¬ Removed around tree phys asked → after.get? asked = tree.get? asked) := by
  obtain ⟨content, there⟩ := FileSystem.isFile_iff.mp isFile
  unfold deleteFile
  rw [there, free]
  dsimp only [Option.isNone_some]
  rw [if_neg Bool.false_ne_true, if_neg Bool.false_ne_true]
  generalize cleared : (if ((libraryRel around phys).isSome && isCbz phys) = true then
    (siblingPlaces around tree phys).foldl discard tree else tree) = after
  have ofCleared (asked : Place) : after.get? asked
      = if (libraryRel around phys).isSome = true ∧ isCbz phys = true
          ∧ asked ∈ siblingPlaces around tree phys ∧ tree.isFile asked = true then none
        else tree.get? asked := by
    subst cleared
    by_cases cbz : ((libraryRel around phys).isSome && isCbz phys) = true
    · rw [if_pos cbz, get?_discards]
      rw [Bool.and_eq_true] at cbz
      simp only [cbz, true_and]
    · rw [if_neg cbz, if_neg]
      rintro ⟨inLibrary, archive, -⟩
      exact cbz (by rw [inLibrary, archive]; rfl)
  rcases removed : after.removeFile phys with _ | final
  · -- the file was a sidecar of itself, which it is not, but it is gone in either case
    have gone : after.get? phys = none := by
      have notFile := FileSystem.removeFile_eq_none_iff.mp removed
      rcases found : after.get? phys with _ | _ | content
      · rfl
      · rw [ofCleared] at found
        split at found
        case isTrue => cases found
        case isFalse =>
          rw [there] at found
          cases found
      · rw [FileSystem.isFile_iff.mpr ⟨content, found⟩] at notFile
        cases notFile
    refine ⟨after, by rw [gone]; rfl, fun asked => ⟨?_, ?_⟩⟩
    · rintro (rfl | goes)
      · exact gone
      · rw [ofCleared, if_pos goes]
    · intro kept
      rw [ofCleared, if_neg (fun goes => kept (.inr goes))]
  · refine ⟨final, rfl, fun asked => ⟨?_, ?_⟩⟩
    · rw [FileSystem.get?_removeFile removed]
      rintro (rfl | goes)
      · rw [if_pos rfl]
      · split
        case isTrue => rfl
        case isFalse => rw [ofCleared, if_pos goes]
    · intro kept
      rw [FileSystem.get?_removeFile removed, if_neg (fun same => kept (.inl same)), ofCleared,
        if_neg (fun goes => kept (.inr goes))]

-- What copying leaves

theorem stagingPlace_dropLast (around : Surroundings) (dest : Place)
    : (stagingPlace around dest).dropLast = dest.dropLast :=
  List.dropLast_concat

theorem stagingPlace_ne (around : Surroundings) {dest : Place} (inner : dest ≠ [])
    : stagingPlace around dest ≠ dest := by
  intro same
  have names : fileName (stagingPlace around dest) = fileName dest := congrArg fileName same
  unfold stagingPlace at names
  rw [fileName, List.getLastD_concat] at names
  have lengths := congrArg List.length names
  simp only [List.length_cons, List.length_append] at lengths
  omega

theorem stagingPlace_ne_dropLast (around : Surroundings) (dest : Place)
    : stagingPlace around dest ≠ dest.dropLast := by
  intro same
  have lengths := congrArg List.length same
  unfold stagingPlace at lengths
  rw [List.length_append, List.length_singleton] at lengths
  omega

theorem made_folder (above : tree.get? dest.dropLast = some .folder)
    : ∃ made, tree.createDirAll dest.dropLast = some made
      ∧ ∀ asked, made.get? asked = tree.get? asked :=
  FileSystem.createDirAll_folder above

theorem copyOne_spec {bytes : List UInt8} (inner : dest ≠ [])
    (above : tree.get? dest.dropLast = some .folder) (notFolder : tree.get? dest ≠ some .folder)
    (found : tree.get? src = some (.file bytes))
    : (∃ after, copyOne around tree src dest = (after, none)
        ∧ ∀ asked, after.get? asked
          = if asked = dest then
              some (.file (if src = stagingPlace around dest then [] else bytes))
            else if asked = stagingPlace around dest then none
            else tree.get? asked)
      ∨ (tree.get? (stagingPlace around dest) = some .folder
        ∧ ∃ after code, copyOne around tree src dest = (after, some code)
          ∧ ∀ asked, after.get? asked = tree.get? asked) := by
  obtain ⟨made, isMade, same⟩ := made_folder above
  unfold copyOne
  dsimp only
  rw [isMade]
  dsimp only
  rw [same, found]
  dsimp only
  have other := stagingPlace_ne around inner
  have parent := stagingPlace_dropLast around dest
  have notParent := stagingPlace_ne_dropLast around dest
  have somewhere : stagingPlace around dest ≠ [] := List.concat_ne_nil _ _
  generalize stagingPlace around dest = temp at other parent notParent somewhere ⊢
  generalize (if src = temp then [] else bytes) = content
  by_cases blocked : tree.get? temp = some .folder
  · right
    refine ⟨blocked, discard made temp, 500, ?_, fun asked => ?_⟩
    · rw [FileSystem.writeFile_folder ((same temp).trans blocked)]
    · rw [get?_discard, if_neg, same]
      rintro ⟨rfl, isFile⟩
      obtain ⟨_, file⟩ := FileSystem.isFile_iff.mp isFile
      rw [same, blocked] at file
      cases file
  · left
    obtain ⟨staged, isStaged⟩ := @FileSystem.writeFile_of _ _ _ made temp content somewhere
      (by rw [parent, same, above]) (by rw [same]; exact blocked)
    have ofStaged (asked : Place) : staged.get? asked
        = if asked = temp then some (.file content) else tree.get? asked := by
      rw [FileSystem.get?_writeFile isStaged, same]
    obtain ⟨copied, isCopied⟩ := FileSystem.renameFile_of inner (by rw [ofStaged, if_pos rfl]) other
      (by rw [ofStaged, if_neg notParent.symm, above])
      (by rw [ofStaged, if_neg other.symm]; exact notFolder)
    refine ⟨copied, by rw [isStaged]; dsimp only; rw [isCopied], fun asked => ?_⟩
    rw [FileSystem.get?_renameFile isCopied (by rw [ofStaged, if_pos rfl])]
    by_cases isDest : asked = dest
    · rw [if_pos isDest, if_pos isDest]
    · rw [if_neg isDest, if_neg isDest]
      by_cases isTemp : asked = temp
      · rw [if_pos isTemp, if_pos isTemp]
      · rw [if_neg isTemp, if_neg isTemp, ofStaged, if_neg isTemp]

theorem copyOne_missing (above : tree.get? dest.dropLast = some .folder)
    (missing : tree.get? src = none)
    : (copyOne around tree src dest).1.get? src = none := by
  obtain ⟨made, isMade, same⟩ := made_folder above
  unfold copyOne
  dsimp only
  rw [isMade]
  dsimp only
  rw [same, missing]
  dsimp only
  rw [get?_discard, same, missing]
  split <;> rfl

-- Requests that are accepted

theorem refuse_eq_ok_iff {code : ℕ} {reason : Bool} {nothing : Unit}
    : refuse code reason = .ok nothing ↔ reason = false := by
  unfold refuse
  cases reason <;> simp

theorem bind_eq_ok_iff {α β : Type} {first : Except ℕ α} {next : α → Except ℕ β} {result : β}
    : (first >>= next) = .ok result ↔ ∃ value, first = .ok value ∧ next value = .ok result := by
  cases first with
  | error code =>
      constructor
      · rintro ⟨⟩
      · rintro ⟨_, ⟨⟩, _⟩
  | ok value =>
      constructor
      · intro same
        exact ⟨value, rfl, same⟩
      · rintro ⟨_, ⟨⟩, same⟩
        exact same

/-- What the checks leave of the requests. -/
structure Accepted (around : Surroundings) (tree : Tree) (src dest : Place) : Prop where
  present : tree.get? src ≠ none
  parent : tree.get? dest.dropLast = some .folder
  outside : ¬ src <+: dest
  kinds : tree.get? dest ≠ none → tree.isFolder dest = tree.isFolder src

theorem copyChecks_accepted {request : CopyRequest} {infinity : Bool}
    (checked : copyChecks around tree request = .ok (dest, infinity))
    : Accepted around tree request.source dest := by
  unfold copyChecks at checked
  simp only [bind_eq_ok_iff, refuse_eq_ok_iff] at checked
  obtain ⟨-, -, -, present, _, -, overwrite, -, asked, -, -, -, -, -, -, parent, -, -, -, -, -,
    outside, -, -, -, kinds, -, -, same⟩ := checked
  cases same
  refine ⟨?_, ?_, ?_, ?_⟩
  · intro missing
    rw [missing] at present
    cases present
  · exact FileSystem.isFolder_iff.mp (by simpa using parent)
  · intro below
    rw [List.isPrefixOf_iff_prefix.mpr below] at outside
    cases outside
  · intro there
    simpa [Option.isSome_iff_ne_none.mpr there] using kinds

/-- The copy puts the file it is asked to copy at risk: the file goes with the archive that is
replaced, or it is where the copy is staged. -/
structure Endangers (around : Surroundings) (tree : Tree) (src dest : Place) : Prop where
  free : around.busy dest = false
  lost : (tree.get? dest ≠ none ∧ (libraryRel around dest).isSome = true ∧ isCbz dest = true
      ∧ src ∈ siblingPlaces around tree dest)
    ∨ src = stagingPlace around dest

/-- An accepted copy of a file ends, and keeps the file exactly if it is not at risk. -/
theorem copyAccepted_keeps_iff {bytes : List UInt8} (turns : ℕ) (infinity : Bool)
    (found : tree.get? src = some (.file bytes)) (accepted : Accepted around tree src dest)
    : ∃ written, copyAccepted around turns tree src dest infinity = some written
      ∧ (written.1.get? src = some (.file bytes) ↔ ¬ Endangers around tree src dest) := by
  have isFile : tree.isFile src = true := FileSystem.isFile_iff.mpr ⟨bytes, found⟩
  have notFolder : tree.isFolder src = false := by
    rw [← Bool.not_eq_true, FileSystem.isFolder_iff, found]
    rintro ⟨⟩
  have different : src ≠ dest := by
    rintro rfl
    exact accepted.outside (List.prefix_refl _)
  have destFile : tree.get? dest ≠ some .folder := by
    intro folder
    have kinds := accepted.kinds (by rw [folder]; simp)
    rw [FileSystem.isFolder_iff.mpr folder, notFolder] at kinds
    cases kinds
  have inner : dest ≠ [] := by
    rintro rfl
    exact destFile tree.root
  unfold copyAccepted
  rw [if_neg (by rw [notFolder]; decide)]
  by_cases held : around.busy dest = true
  · -- nothing is done
    refine ⟨(tree, some 423), ?_, iff_of_true found (fun risk => ?_)⟩
    · unfold deleteFile copyFile
      rw [held]
      rcases tree.get? dest with _ | entry <;> rfl
    · rw [risk.free] at held
      cases held
  rw [Bool.not_eq_true] at held
  -- the tree that is copied in: the destination and what goes with it are gone
  have copies (cleared : Tree) (folders : ∀ place, tree.get? place = some .folder
        → cleared.get? place = some .folder)
      (only : cleared.get? dest ≠ some .folder)
      (kept : cleared.get? src = some (.file bytes) ∨ cleared.get? src = none)
      : (copyFile around cleared src dest).1.get? src = some (.file bytes)
        ↔ cleared.get? src = some (.file bytes) ∧ src ≠ stagingPlace around dest := by
    have above := folders _ accepted.parent
    unfold copyFile
    rw [held, if_neg Bool.false_ne_true]
    rcases kept with here | gone
    · rcases @copyOne_spec around cleared src dest bytes inner above only here with
        ⟨after, copied, reads⟩ | ⟨blocked, after, code, failed, reads⟩
      · rw [copied, reads, if_neg different]
        by_cases isTemp : src = stagingPlace around dest
        · rw [if_pos isTemp]
          exact iff_of_false (by rintro ⟨⟩) (fun both => both.2 isTemp)
        · rw [if_neg isTemp]
          exact ⟨fun _ => ⟨here, isTemp⟩, fun _ => here⟩
      · rw [failed, reads]
        refine ⟨fun _ => ⟨here, ?_⟩, fun _ => here⟩
        rintro rfl
        rw [blocked] at here
        cases here
    · rw [copyOne_missing above gone, gone]
      exact iff_of_false (by rintro ⟨⟩) (by rintro ⟨⟨⟩, _⟩)
  rcases there : tree.get? dest with _ | entry
  · refine ⟨copyFile around tree src dest, rfl, ?_⟩
    rw [copies tree (fun _ => id) (by rw [there]; rintro ⟨⟩) (.inl found)]
    constructor
    · rintro ⟨-, other⟩ ⟨-, ⟨present, -⟩ | same⟩
      · exact present there
      · exact other same
    · intro safe
      exact ⟨found, fun same => safe ⟨held, .inr same⟩⟩
  · have destIsFile : tree.isFile dest = true := by
      rcases entry with _ | content
      · exact absurd there destFile
      · exact FileSystem.isFile_iff.mpr ⟨content, there⟩
    obtain ⟨cleared, deleted, reads⟩ := deleteFile_spec destIsFile held
    refine ⟨copyFile around cleared src dest, ?_, ?_⟩
    · rw [Option.isSome_some, if_pos rfl, deleted]
    have folders (place : Place) (folder : tree.get? place = some .folder)
        : cleared.get? place = some .folder := by
      rw [(reads place).2, folder]
      rintro (rfl | ⟨-, -, -, file⟩)
      · exact destFile folder
      · obtain ⟨_, file⟩ := FileSystem.isFile_iff.mp file
        rw [folder] at file
        cases file
    by_cases taken : Removed around tree dest src
    · have gone := (reads src).1 taken
      rw [copies cleared folders (by rw [(reads dest).1 (.inl rfl)]; rintro ⟨⟩) (.inr gone), gone]
      refine iff_of_false (by rintro ⟨⟨⟩, _⟩) (fun safe => ?_)
      rcases taken with same | ⟨inLibrary, archive, isSibling, -⟩
      · exact different same
      · exact safe ⟨held, .inl ⟨by rw [there]; simp, inLibrary, archive, isSibling⟩⟩
    · have kept := ((reads src).2 taken).trans found
      rw [copies cleared folders (by rw [(reads dest).1 (.inl rfl)]; rintro ⟨⟩) (.inl kept)]
      constructor
      · rintro ⟨-, other⟩ ⟨-, ⟨-, inLibrary, archive, isSibling⟩ | same⟩
        · exact taken (.inr ⟨inLibrary, archive, isSibling, isFile⟩)
        · exact other same
      · intro safe
        exact ⟨kept, fun same => safe ⟨held, .inr same⟩⟩

-- Requests

/-- A request to copy a file is answered, and the file is there afterwards as it was. -/
def KeepsSource (around : Surroundings) (turns : ℕ) (tree : Tree) (request : CopyRequest)
    : Prop :=
  ∀ bytes, tree.get? request.source = some (.file bytes)
    → ∃ result, copyMove around turns tree request = some result
      ∧ result.1.get? request.source = some (.file bytes)

/-- The request gets past its checks and puts the file it is about at risk. -/
def EndangersSource (around : Surroundings) (tree : Tree) (request : CopyRequest) : Prop :=
  tree.isFile request.source = true
    ∧ ∃ dest infinity, copyChecks around tree request = .ok (dest, infinity)
      ∧ Endangers around tree request.source dest

theorem copy_keeps_source_iff (around : Surroundings) (turns : ℕ) (tree : Tree)
    (request : CopyRequest)
    : KeepsSource around turns tree request ↔ ¬ EndangersSource around tree request := by
  by_cases isFile : tree.isFile request.source = true
  · obtain ⟨bytes, found⟩ := FileSystem.isFile_iff.mp isFile
    have only : KeepsSource around turns tree request
        ↔ ∃ result, copyMove around turns tree request = some result
          ∧ result.1.get? request.source = some (.file bytes) := by
      constructor
      · intro keeps
        exact keeps bytes found
      · intro kept other also
        rw [found] at also
        cases also
        exact kept
    rw [only]
    unfold copyMove EndangersSource
    rcases checked : copyChecks around tree request with code | ⟨dest, infinity⟩
    · refine iff_of_true ⟨_, rfl, found⟩ ?_
      rintro ⟨-, _, _, ⟨⟩, -⟩
    · obtain ⟨written, copied, keeps⟩ := copyAccepted_keeps_iff turns infinity found
        (copyChecks_accepted checked)
      dsimp only
      rw [copied]
      constructor
      · rintro ⟨_, ⟨⟩, kept⟩ ⟨-, _, _, ⟨⟩, risk⟩
        exact keeps.mp kept risk
      · intro safe
        exact ⟨_, rfl, keeps.mpr (fun risk => safe ⟨isFile, dest, infinity, rfl, risk⟩)⟩
  · refine iff_of_true ?_ (fun risk => isFile risk.1)
    intro bytes found
    exact absurd (FileSystem.isFile_iff.mpr ⟨bytes, found⟩) isFile

-- A sidecar copied onto its archive

/-- A library by itself, whose paths are nobody else's and whose files nothing else writes. -/
def aloneAt (library : Place) : Surroundings where
  library := library
  isPerUserRootName _ := false
  isProgress _ := false
  isHistoryPath _ := false
  conditionsHold _ := true
  davLocked _ _ := false
  canBePlaced _ := true
  busy _ := false
  processId := ['7']
  std := letterTables

/-- `V.cbz` and `V.mokuro` in the library `l`. -/
def volumeTree : Tree :=
  FileSystem.ofEntries
    ⟨[([], .folder), (["l".toList], .folder), (["l".toList, "V.cbz".toList], .file [1]),
      (["l".toList, "V.mokuro".toList], .file [2])], by decide⟩
    (by decide) (by decide)

def ontoArchive : CopyRequest where
  source := ["l".toList, "V.mokuro".toList]
  destination := .ok ["l".toList, "V.cbz".toList]
  overwrite := none
  depth := none

/-- The sidecar goes with the archive that it is to replace, and is not there to be copied. -/
theorem sidecar_copied_onto_archive
    : ¬ KeepsSource (aloneAt ["l".toList]) 0 volumeTree ontoArchive := by
  intro keeps
  obtain ⟨result, answered, kept⟩ := keeps [2] (by decide)
  have gone : (copyMove (aloneAt ["l".toList]) 0 volumeTree ontoArchive).map
      (fun result => (result.1.get? ontoArchive.source, result.2)) = some (none, 500) := by
    decide +kernel
  rw [answered] at gone
  have missing : result.1.get? ontoArchive.source = none :=
    congrArg Prod.fst (Option.some.inj gone)
  rw [kept] at missing
  cases missing

end MokuroBunko.Dav
