import MokuroBunko.Dav.FolderPrune

/-! A folder that is copied with all it has: which of the copies are there in the end. A copy is
gone again when an archive that comes later in its folder takes it with the archive it replaces.
-/

namespace MokuroBunko.Dav

open MokuroBunko.Lib
open MokuroBunko.Library

variable {around : Surroundings} {tree start : Tree} {src dst path : Place}

-- One folder

/-- The name is one of the source's folder that is copied. -/
def IsCopied (tree : Tree) (src path : Place) (name : FileName) : Prop :=
  isStagingName name = false ∧ tree.get? (src ++ path ++ [name]) ≠ none

/-- The archive replaces one that the destination has, and the file goes with that, where the
destination's folder has these names at the time. -/
structure TakesAmong (around : Surroundings) (tree start : Tree) (src dst path : Place)
    (has : FileName → Prop) (name archive : FileName) : Prop where
  later : name < archive
  copied : isStagingName archive = false
  source : tree.isFile (src ++ path ++ [archive]) = true
  replaced : start.isFile (dst ++ path ++ [archive]) = true
  cbz : isCbz (dst ++ path ++ [archive]) = true
  sibling : SiblingAt around.std has archive name

/-- What the destination's folder has when the archive is copied. -/
def HasBefore (tree start : Tree) (src dst path : Place) (archive other : FileName) : Prop :=
  start.get? (dst ++ path ++ [other]) ≠ none ∨ (other < archive ∧ IsCopied tree src path other)

def TakesFrom (around : Surroundings) (tree start : Tree) (src dst path : Place)
    (name archive : FileName) : Prop :=
  TakesAmong around tree start src dst path (HasBefore tree start src dst path archive) name
    archive

/-- The destination's folder when some names have been copied. -/
structure Halfway (around : Surroundings) (tree start current : Tree) (src dst path : Place)
    (finished : FileName → Prop) : Prop where
  elsewhere : ∀ place, (∀ name, place ≠ dst ++ path ++ [name])
    → current.get? place = start.get? place
  waiting : ∀ name, ArchiveName name → ¬ finished name
    → current.get? (dst ++ path ++ [name]) = start.get? (dst ++ path ++ [name])
  arrived : ∀ name, ArchiveName name → finished name
    → current.get? (dst ++ path ++ [name]) ≠ none
  folders : ∀ name, finished name → tree.get? (src ++ path ++ [name]) = some .folder
    → current.get? (dst ++ path ++ [name]) = some .folder
  copied : ∀ name bytes, finished name → tree.get? (src ++ path ++ [name]) = some (.file bytes)
    → (current.get? (dst ++ path ++ [name]) = some (.file bytes)
        ∧ ∀ archive, finished archive → ¬ TakesFrom around tree start src dst path name archive)
      ∨ (current.get? (dst ++ path ++ [name]) = none
        ∧ ∃ archive, finished archive ∧ TakesFrom around tree start src dst path name archive)

theorem place_inj {place : Place} {name name' : FileName}
    : place ++ [name] = place ++ [name'] ↔ name = name' := by
  rw [List.append_cancel_left_eq, List.cons.injEq, and_iff_left rfl]

theorem stagingPlace_child (around : Surroundings) (folder : Place) (name : FileName)
    : ∃ temp, stagingPlace around (folder ++ [name]) = folder ++ [temp]
      ∧ isStagingName temp = true ∧ ¬ ArchiveName temp := by
  refine ⟨_, by rw [stagingPlace, List.dropLast_concat], ?_, ?_⟩
  · rw [isStagingName, Bool.and_eq_true, Bool.and_eq_true, List.isPrefixOf_iff_prefix,
      List.isSuffixOf_iff_suffix, List.any_eq_true]
    generalize fileName (folder ++ [name]) = front
    refine ⟨⟨⟨_, rfl⟩, ⟨'.' :: (front ++ ".upload-copy".toList ++ around.processId), by simp⟩⟩,
      ".upload-copy".toList ++ around.processId ++ ".tmp".toList, ?_, ?_⟩
    · rw [List.mem_tails]
      exact ⟨'.' :: front, by simp⟩
    · rw [List.isPrefixOf_iff_prefix]
      exact ⟨"copy".toList ++ around.processId ++ ".tmp".toList, rfl⟩
  · rintro ⟨extension, known, suffix⟩
    have apart : ∀ extension ∈ VOLUME_ARCHIVE_EXTENSIONS, extension.length ≤ 4
        ∧ ¬ extension <:+ ".tmp".toList := by
      decide
    obtain ⟨short, other⟩ := apart extension known
    rw [List.map_cons, List.map_append, ← List.cons_append] at suffix
    exact other (List.suffix_of_suffix_length_le suffix (List.suffix_append _ _) short)

theorem removed_child {current : Tree} {folder asked : Place} {name : FileName}
    (removed : Removed around current (folder ++ [name]) asked)
    : ∃ other, asked = folder ++ [other] ∧ (other = name ∨ ¬ ArchiveName other) := by
  rcases removed with rfl | ⟨-, -, isSibling, -⟩
  · exact ⟨name, rfl, .inl rfl⟩
  · obtain ⟨beside, inner, other⟩ := siblingPlaces_spec isSibling
    refine ⟨asked.getLast inner, ?_, .inr ?_⟩
    · rw [List.dropLast_concat] at beside
      rw [← beside, List.dropLast_append_getLast]
    · rwa [fileName, List.getLastD_eq_getLast?, List.getLast?_eq_some_getLast inner] at other

/-- What goes when the archive at the place is replaced. -/
def Goes (around : Surroundings) (current : Tree) (place asked : Place) : Prop :=
  current.isFile place = true ∧ Removed around current place asked

/-- A file that is copied: it is there, what went with the one it replaces is gone, and the
rest is as it was. -/
theorem copyMember_file {current after : Tree} {stack stack' : List (Place × Place)}
    {source folder : Place} {name : FileName} {bytes : List UInt8}
    (above : current.get? folder = some .folder) (outside : ¬ folder <+: source)
    (found : current.get? source = some (.file bytes))
    (done : copyMember around dst source (folder ++ [name]) current stack
      = ((after, none), stack'))
    : stack' = stack ∧ after.get? (folder ++ [name]) = some (.file bytes)
      ∧ ∃ temp, isStagingName temp = true ∧ ¬ ArchiveName temp
        ∧ ∀ asked, asked ≠ folder ++ [name]
          → (asked = folder ++ [temp] ∨ Goes around current (folder ++ [name]) asked
              → after.get? asked = none)
            ∧ (asked ≠ folder ++ [temp] → ¬ Goes around current (folder ++ [name]) asked
              → after.get? asked = current.get? asked) := by
  have parent : (folder ++ [name]).dropLast = folder := List.dropLast_concat
  obtain ⟨temp, isTemp, staging, notArchive⟩ := stagingPlace_child around folder name
  have sourceElse : ∀ other, source ≠ folder ++ [other] := by
    rintro other rfl
    exact outside (List.prefix_append _ _)
  -- the copy into a tree where the place is free
  have copies {cleared : Tree} (folderThere : cleared.get? folder = some .folder)
      (sourceThere : cleared.get? source = some (.file bytes))
      (free : cleared.get? (folder ++ [name]) ≠ some .folder)
      (copied : copyFile around cleared source (folder ++ [name]) = (after, none))
      : ∀ asked, after.get? asked = if asked = folder ++ [name] then some (.file bytes)
          else if asked = folder ++ [temp] then none else cleared.get? asked := by
    unfold copyFile at copied
    split at copied
    case isTrue => cases copied
    case isFalse =>
      rcases @copyOne_spec around cleared source (folder ++ [name]) bytes
          (List.concat_ne_nil _ _) (by rwa [parent]) free sourceThere with
        ⟨_, same, reads⟩ | ⟨-, _, _, failed, -⟩
      · rw [copied] at same
        cases same
        rw [isTemp, if_neg (sourceElse temp)] at reads
        exact reads
      · rw [copied] at failed
        cases failed
  unfold copyMember at done
  rw [found] at done
  dsimp only at done
  rcases there : current.get? (folder ++ [name]) with _ | entry
  · rw [there, Option.isSome_none, if_neg Bool.false_ne_true] at done
    dsimp only at done
    obtain ⟨copied, rfl⟩ := Prod.mk.inj done
    have reads := copies above found (by rw [there]; rintro ⟨⟩) copied
    refine ⟨rfl, by rw [reads, if_pos rfl], temp, staging, notArchive, fun asked other => ?_⟩
    rw [reads, if_neg other]
    constructor
    · rintro (rfl | ⟨isFile, -⟩)
      · rw [if_pos rfl]
      · obtain ⟨_, file⟩ := FileSystem.isFile_iff.mp isFile
        rw [there] at file
        cases file
    · intro notTemp _
      rw [if_neg notTemp]
  · rw [there, Option.isSome_some, if_pos rfl] at done
    have present : current.get? (folder ++ [name]) ≠ none := by
      rw [there]
      simp
    rcases deleted : deleteFile around current (folder ++ [name]) with ⟨cleared, _ | code⟩
    · rw [deleted] at done
      dsimp only at done
      obtain ⟨copied, rfl⟩ := Prod.mk.inj done
      obtain ⟨isFile, free⟩ := deleteFile_ok deleted present
      obtain ⟨_, same, clears⟩ := deleteFile_spec isFile free
      rw [deleted] at same
      cases same
      have notChild {place : Place} (elsewhere : ∀ other, place ≠ folder ++ [other])
          : cleared.get? place = current.get? place := by
        apply (clears place).2
        intro removed
        obtain ⟨other, same, -⟩ := removed_child removed
        exact elsewhere other same
      have folderElse : ∀ other, folder ≠ folder ++ [other] := by
        intro other same
        have lengths := congrArg List.length same
        rw [List.length_append, List.length_singleton] at lengths
        omega
      have reads := copies ((notChild folderElse).trans above)
        ((notChild sourceElse).trans found)
        (by rw [(clears _).1 (.inl rfl)]; rintro ⟨⟩) copied
      refine ⟨rfl, by rw [reads, if_pos rfl], temp, staging, notArchive, fun asked other => ?_⟩
      rw [reads, if_neg other]
      constructor
      · rintro (rfl | ⟨-, removed⟩)
        · rw [if_pos rfl]
        · rw [(clears asked).1 removed]
          split <;> rfl
      · intro notTemp stays
        rw [if_neg notTemp]
        exact (clears asked).2 (fun removed => stays ⟨isFile, removed⟩)
    · rw [deleted] at done
      cases done

theorem copyMember_folder {current after : Tree} {stack stack' : List (Place × Place)}
    {source folder : Place} {name : FileName} (above : current.get? folder = some .folder)
    (inLibrary : around.library <+: source) (notAbove : ¬ source <+: dst)
    (found : current.get? source = some .folder)
    (done : copyMember around dst source (folder ++ [name]) current stack
      = ((after, none), stack'))
    : stack' = (source, folder ++ [name]) :: stack
      ∧ ∀ asked, after.get? asked
        = if asked = folder ++ [name] then some .folder else current.get? asked := by
  unfold copyMember at done
  rw [found] at done
  dsimp only at done
  have test : (around.library.isPrefixOf source && ! source.isPrefixOf dst) = true := by
    rw [Bool.and_eq_true, List.isPrefixOf_iff_prefix, Bool.not_eq_true', ← Bool.not_eq_true,
      List.isPrefixOf_iff_prefix]
    exact ⟨inLibrary, notAbove⟩
  rw [if_pos test] at done
  rcases made : current.createDirAll (folder ++ [name]) with _ | tree'
  · rw [made] at done
    cases done
  · rw [made] at done
    cases done
    refine ⟨rfl, fun asked => ?_⟩
    rw [FileSystem.get?_createDirAll made]
    by_cases same : asked = folder ++ [name]
    · rw [if_pos same, if_pos (same ▸ List.prefix_refl _)]
    · rw [if_neg same]
      split
      case isTrue isAbove =>
        have within := (List.prefix_concat_iff.mp isAbove).resolve_left same
        obtain ⟨more, rfl⟩ := within
        cases more with
        | nil => rw [List.append_nil] at above; exact above.symm
        | cons first rest =>
            exact (FileSystem.folder_above (by rw [above]; simp) (List.cons_ne_nil first rest)).symm
      case isFalse => rfl

-- One name after another

/-- The source and the destination are apart, and both in the library. -/
structure Shared (around : Surroundings) (src dst : Place) : Prop where
  apart : Apart src dst
  within : ∀ more, around.library <+: src ++ more
  visible : ∀ more, (libraryRel around (dst ++ more)).isSome = true

/-- When a folder is copied the source is as it was, and the destination has the folder. -/
structure Copying (around : Surroundings) (tree start : Tree) (src dst path : Place) : Prop where
  shared : Shared around src dst
  sources : ∀ more, start.get? (src ++ more) = tree.get? (src ++ more)
  isThere : start.get? (dst ++ path) = some .folder

theorem Copying.outside (copying : Copying around tree start src dst path) (more : Place)
    : ∀ name, src ++ more ≠ dst ++ path ++ [name] := by
  intro name same
  apply copying.shared.apart.outside more
  rw [same, List.append_assoc]
  exact List.prefix_append _ _

theorem Halfway.source {current : Tree} {finished : FileName → Prop}
    (halfway : Halfway around tree start current src dst path finished)
    (copying : Copying around tree start src dst path) (more : Place)
    : current.get? (src ++ more) = tree.get? (src ++ more) :=
  (halfway.elsewhere _ (copying.outside more)).trans (copying.sources more)

theorem Halfway.isThere {current : Tree} {finished : FileName → Prop}
    (halfway : Halfway around tree start current src dst path finished)
    (copying : Copying around tree start src dst path)
    : current.get? (dst ++ path) = some .folder := by
  rw [halfway.elsewhere, copying.isThere]
  intro name same
  have lengths := congrArg List.length same
  simp only [List.length_append, List.length_singleton] at lengths
  omega

theorem Halfway.goes_iff {current : Tree} {finished : FileName → Prop} {archive name : FileName}
    {bytes : List UInt8}
    (halfway : Halfway around tree start current src dst path finished)
    (copying : Copying around tree start src dst path)
    (keeps : KeepsEndings around.std.piece ARCHIVE_CHARS)
    (before : ∀ other, finished other ↔ other < archive ∧ IsCopied tree src path other)
    (nonstaging : isStagingName archive = false)
    (source : tree.isFile (src ++ path ++ [archive]) = true)
    (isFinished : finished name)
    (isThere : current.get? (dst ++ path ++ [name]) = some (.file bytes))
    : Goes around current (dst ++ path ++ [archive]) (dst ++ path ++ [name])
      ↔ TakesFrom around tree start src dst path name archive := by
  obtain ⟨isLess, copied⟩ := (before name).mp isFinished
  have folder := halfway.isThere copying
  have notFinished : ¬ finished archive := fun is => lt_irrefl _ ((before archive).mp is).1
  obtain ⟨names, read⟩ : ∃ names, current.readDir (dst ++ path) = some names :=
    ⟨_, if_pos (FileSystem.isFolder_iff.mpr folder)⟩
  have isSibling : dst ++ path ++ [name] ∈ siblingPlaces around current (dst ++ path ++ [archive])
      ↔ SiblingAt around.std (HasBefore tree start src dst path archive) archive name := by
    have named : fileName (dst ++ path ++ [archive]) = archive := List.getLastD_concat ..
    rw [siblingPlaces, List.dropLast_concat, named, read, List.mem_map]
    simp only [place_inj, exists_eq_right]
    rw [mem_siblings_iff]
    apply SiblingAt.congr keeps
    · intro other isArchive
      rw [FileSystem.mem_readDir read]
      by_cases is : finished other
      · exact iff_of_true (halfway.arrived other isArchive is) (.inr ((before other).mp is))
      · rw [halfway.waiting other isArchive is]
        exact ⟨.inl, fun has => has.resolve_right (fun both => is ((before other).mpr both))⟩
    · refine iff_of_true ((FileSystem.mem_readDir read).mpr ?_) (.inr ⟨isLess, copied⟩)
      rw [isThere]
      simp
  have different : dst ++ path ++ [name] ≠ dst ++ path ++ [archive] := by
    rw [Ne, place_inj]
    exact isLess.ne
  have shared : (libraryRel around (dst ++ path ++ [archive])).isSome = true := by
    rw [List.append_assoc]
    exact copying.shared.visible _
  have waits (cbz : isCbz (dst ++ path ++ [archive]) = true)
      : current.isFile (dst ++ path ++ [archive]) = start.isFile (dst ++ path ++ [archive]) := by
    have isArchive := archiveName_of_isCbz cbz
    rw [fileName, List.getLastD_concat] at isArchive
    rw [FileSystem.isFile, halfway.waiting archive isArchive notFinished, FileSystem.isFile]
  constructor
  · rintro ⟨replaced, same | ⟨-, cbz, member, -⟩⟩
    · exact absurd same different
    · exact ⟨isLess, nonstaging, source, waits cbz ▸ replaced, cbz, isSibling.mp member⟩
  · intro takes
    refine ⟨(waits takes.cbz).trans takes.replaced, .inr ⟨shared, takes.cbz,
      isSibling.mpr takes.sibling, FileSystem.isFile_iff.mpr ⟨bytes, isThere⟩⟩⟩

/-- A file is copied. -/
theorem Halfway.file {current after : Tree} {finished : FileName → Prop} {name : FileName}
    {bytes : List UInt8} {stack stack' : List (Place × Place)}
    (halfway : Halfway around tree start current src dst path finished)
    (copying : Copying around tree start src dst path)
    (keeps : KeepsEndings around.std.piece ARCHIVE_CHARS)
    (before : ∀ other, finished other ↔ other < name ∧ IsCopied tree src path other)
    (nonstaging : isStagingName name = false)
    (source : tree.get? (src ++ path ++ [name]) = some (.file bytes))
    (done : copyMember around dst (src ++ path ++ [name]) (dst ++ path ++ [name]) current stack
      = ((after, none), stack'))
    : stack' = stack
      ∧ Halfway around tree start after src dst path
        (fun other => finished other ∨ other = name) := by
  have found : current.get? (src ++ path ++ [name]) = some (.file bytes) := by
    rw [List.append_assoc] at source ⊢
    rw [halfway.source copying, source]
  have outside : ¬ dst ++ path <+: src ++ path ++ [name] := by
    intro below
    rw [List.append_assoc] at below
    exact copying.shared.apart.outside _ ((List.prefix_append _ _).trans below)
  obtain ⟨rfl, arrived, temp, tempStaging, tempOther, reads⟩ :=
    copyMember_file (halfway.isThere copying) outside found done
  have notTemp {other : FileName} (is : finished other) : other ≠ temp := by
    rintro rfl
    rw [((before other).mp is).2.1] at tempStaging
    cases tempStaging
  have less {other : FileName} (is : finished other) : other ≠ name :=
    ((before other).mp is).1.ne
  -- an archive is neither where the copy was staged nor goes with another
  have archiveStays {other : FileName} (isArchive : ArchiveName other) (different : other ≠ name)
      : after.get? (dst ++ path ++ [other]) = current.get? (dst ++ path ++ [other]) := by
    apply (reads _ (place_inj.not.mpr different)).2
    · rw [Ne, place_inj]
      rintro rfl
      exact tempOther isArchive
    · rintro ⟨-, removed⟩
      obtain ⟨_, same, either⟩ := removed_child removed
      obtain rfl := place_inj.mp same
      rcases either with same | notArchive
      · exact different same
      · exact notArchive isArchive
  refine ⟨rfl, ?_, ?_, ?_, ?_, ?_⟩
  · intro place elsewhere
    rw [(reads place (elsewhere name)).2 (elsewhere temp), halfway.elsewhere place elsewhere]
    rintro ⟨-, removed⟩
    obtain ⟨other, same, -⟩ := removed_child removed
    exact elsewhere other same
  · intro other isArchive notFinished
    rw [not_or] at notFinished
    rw [archiveStays isArchive notFinished.2, halfway.waiting other isArchive notFinished.1]
  · intro other isArchive isFinished
    by_cases same : other = name
    · rw [same, arrived]
      simp
    · rw [archiveStays isArchive same]
      exact halfway.arrived other isArchive (isFinished.resolve_right same)
  · intro other isFinished folder
    have different : other ≠ name := by
      rintro rfl
      rw [source] at folder
      cases folder
    have is := isFinished.resolve_right different
    have isFolder := halfway.folders other is folder
    rw [(reads _ (place_inj.not.mpr different)).2 (place_inj.not.mpr (notTemp is)), isFolder]
    rintro ⟨-, same | ⟨-, -, -, isFile⟩⟩
    · exact different (place_inj.mp same)
    · obtain ⟨_, file⟩ := FileSystem.isFile_iff.mp isFile
      rw [isFolder] at file
      cases file
  · intro other content isFinished file
    by_cases same : other = name
    · subst same
      rw [source] at file
      cases file
      left
      refine ⟨arrived, ?_⟩
      rintro archive (is | rfl) takes
      · exact lt_asymm takes.later ((before archive).mp is).1
      · exact lt_irrefl _ takes.later
    · have is := isFinished.resolve_right same
      have read := reads _ (place_inj.not.mpr same)
      have notTempPlace := (@place_inj (dst ++ path) _ _).not.mpr (notTemp is)
      rcases halfway.copied other content is file with
        ⟨isThere, free⟩ | ⟨gone, archive, was, takes⟩
      · have goes := halfway.goes_iff copying keeps before nonstaging
          (FileSystem.isFile_iff.mpr ⟨bytes, source⟩) is isThere
        by_cases taken : TakesFrom around tree start src dst path other name
        · right
          exact ⟨read.1 (.inr (goes.mpr taken)), name, .inr rfl, taken⟩
        · left
          rw [read.2 notTempPlace (fun also => taken (goes.mp also))]
          refine ⟨isThere, ?_⟩
          rintro archive (was | rfl)
          · exact free archive was
          · exact taken
      · right
        refine ⟨?_, archive, .inl was, takes⟩
        by_cases also : Goes around current (dst ++ path ++ [name]) (dst ++ path ++ [other])
        · exact read.1 (.inr also)
        · rw [read.2 notTempPlace also, gone]

theorem Halfway.folder {current after : Tree} {finished : FileName → Prop} {name : FileName}
    {stack stack' : List (Place × Place)}
    (halfway : Halfway around tree start current src dst path finished)
    (copying : Copying around tree start src dst path)
    (source : tree.get? (src ++ path ++ [name]) = some .folder)
    (done : copyMember around dst (src ++ path ++ [name]) (dst ++ path ++ [name]) current stack
      = ((after, none), stack'))
    : stack' = (src ++ path ++ [name], dst ++ path ++ [name]) :: stack
      ∧ Halfway around tree start after src dst path
        (fun other => finished other ∨ other = name) := by
  have found : current.get? (src ++ path ++ [name]) = some .folder := by
    rw [List.append_assoc] at source ⊢
    rw [halfway.source copying, source]
  have inLibrary := copying.shared.within (path ++ [name])
  have notAbove : ¬ src ++ (path ++ [name]) <+: dst := fun above =>
    copying.shared.apart.notAbove ((List.prefix_append _ _).trans above)
  rw [← List.append_assoc] at inLibrary notAbove
  obtain ⟨rfl, reads⟩ := copyMember_folder (halfway.isThere copying) inLibrary notAbove found done
  have keep {other : FileName} (different : other ≠ name)
      : after.get? (dst ++ path ++ [other]) = current.get? (dst ++ path ++ [other]) := by
    rw [reads, if_neg (place_inj.not.mpr different)]
  have isFolder : after.get? (dst ++ path ++ [name]) = some .folder := by
    rw [reads, if_pos rfl]
  have notTaken (other : FileName) : ¬ TakesFrom around tree start src dst path other name := by
    intro takes
    obtain ⟨_, file⟩ := FileSystem.isFile_iff.mp takes.source
    rw [source] at file
    cases file
  refine ⟨rfl, ?_, ?_, ?_, ?_, ?_⟩
  · intro place elsewhere
    rw [reads, if_neg (elsewhere name), halfway.elsewhere place elsewhere]
  · intro other isArchive notFinished
    rw [not_or] at notFinished
    rw [keep notFinished.2, halfway.waiting other isArchive notFinished.1]
  · intro other isArchive isFinished
    by_cases same : other = name
    · rw [same, isFolder]
      simp
    · rw [keep same]
      exact halfway.arrived other isArchive (isFinished.resolve_right same)
  · intro other isFinished folder
    by_cases same : other = name
    · rw [same, isFolder]
    · rw [keep same]
      exact halfway.folders other (isFinished.resolve_right same) folder
  · intro other content isFinished file
    have different : other ≠ name := by
      rintro rfl
      rw [source] at file
      cases file
    rw [keep different]
    rcases halfway.copied other content (isFinished.resolve_right different) file with
      ⟨isThere, free⟩ | ⟨gone, archive, was, takes⟩
    · left
      refine ⟨isThere, ?_⟩
      rintro archive (was | rfl)
      · exact free archive was
      · exact notTaken other
    · right
      exact ⟨gone, archive, .inl was, takes⟩

/-- The subfolders among these names of a folder are to be visited, each once. -/
structure Entered (tree : Tree) (src path : Place) (names pushed : List FileName) : Prop where
  distinct : pushed.Nodup
  members : ∀ name, name ∈ pushed ↔ name ∈ names ∧ isStagingName name = false
    ∧ tree.get? (src ++ path ++ [name]) = some .folder

theorem Entered.skip {name : FileName} {names pushed : List FileName}
    (entered : Entered tree src path names pushed)
    (other : isStagingName name = true ∨ tree.get? (src ++ path ++ [name]) ≠ some .folder)
    : Entered tree src path (name :: names) pushed := by
  refine ⟨entered.distinct, fun asked => ?_⟩
  rw [entered.members, List.mem_cons]
  constructor
  · rintro ⟨isIn, kind⟩
    exact ⟨.inr isIn, kind⟩
  · rintro ⟨rfl | isIn, nonstaging, folder⟩
    · rcases other with staging | notFolder
      · rw [nonstaging] at staging
        cases staging
      · exact absurd folder notFolder
    · exact ⟨isIn, nonstaging, folder⟩

theorem Entered.push {name : FileName} {names pushed : List FileName}
    (entered : Entered tree src path names pushed) (new : name ∉ names)
    (nonstaging : isStagingName name = false)
    (folder : tree.get? (src ++ path ++ [name]) = some .folder)
    : Entered tree src path (name :: names) (pushed ++ [name]) := by
  constructor
  · rw [List.nodup_append]
    refine ⟨entered.distinct, List.nodup_singleton name, ?_⟩
    rintro other isIn _ isName rfl
    obtain rfl := List.mem_singleton.mp isName
    exact new ((entered.members other).mp isIn).1
  · intro asked
    rw [List.mem_append, entered.members, List.mem_singleton, List.mem_cons]
    constructor
    · rintro (⟨isIn, kind⟩ | rfl)
      · exact ⟨.inr isIn, kind⟩
      · exact ⟨.inl rfl, nonstaging, folder⟩
    · rintro ⟨rfl | isIn, kind⟩
      · exact .inr rfl
      · exact .inl ⟨isIn, kind⟩

/-- One folder of the loop, by induction on its names: all are copied, and the subfolders are
put on the stack. -/
theorem copyEntries_spec {current after : Tree} {names : List FileName}
    {stack stack' : List (Place × Place)}
    (copying : Copying around tree start src dst path)
    (keeps : KeepsEndings around.std.piece ARCHIVE_CHARS)
    (inOrder : names.Pairwise (· < ·))
    (present : ∀ name ∈ names, tree.get? (src ++ path ++ [name]) ≠ none)
    (all : ∀ name, IsCopied tree src path name
      → name ∈ names ∨ ∀ later ∈ names, name < later)
    (halfway : Halfway around tree start current src dst path
      (fun name => IsCopied tree src path name ∧ name ∉ names))
    (done : copyEntries around dst (src ++ path) (dst ++ path) names current stack
      = ((after, none), stack'))
    : Halfway around tree start after src dst path (IsCopied tree src path)
      ∧ ∃ pushed : List FileName,
        stack' = pushed.map (fun name => (src ++ (path ++ [name]), dst ++ (path ++ [name])))
          ++ stack
        ∧ Entered tree src path names pushed := by
  induction names generalizing current stack with
  | nil =>
      cases done
      have same : (fun name => IsCopied tree src path name ∧ name ∉ [])
          = IsCopied tree src path := by
        funext name
        simp
      exact ⟨same ▸ halfway, [], rfl, List.nodup_nil, by simp⟩
  | cons name rest ih =>
      rw [copyEntries] at done
      obtain ⟨first, inOrder⟩ := List.pairwise_cons.mp inOrder
      have notLater : name ∉ rest := fun isIn => lt_irrefl _ (first name isIn)
      have presentRest : ∀ other ∈ rest, tree.get? (src ++ path ++ [other]) ≠ none :=
        fun other isIn => present other (List.mem_cons_of_mem _ isIn)
      have allRest : ∀ other, IsCopied tree src path other
          → other ∈ rest ∨ ∀ later ∈ rest, other < later := by
        intro other copied
        rcases all other copied with isIn | before
        · rcases List.mem_cons.mp isIn with rfl | later
          · exact .inr first
          · exact .inl later
        · exact .inr (fun later isIn => before later (List.mem_cons_of_mem _ isIn))
      by_cases staging : isStagingName name = true
      · rw [if_pos staging] at done
        have same : (fun other => IsCopied tree src path other ∧ other ∉ name :: rest)
            = (fun other => IsCopied tree src path other ∧ other ∉ rest) := by
          funext other
          refine propext (and_congr_right (fun copied => ?_))
          rw [List.mem_cons, not_or, and_iff_right]
          rintro rfl
          rw [copied.1] at staging
          cases staging
        obtain ⟨finished, pushed, rfl, entered⟩ :=
          ih inOrder presentRest allRest (same ▸ halfway) done
        exact ⟨finished, pushed, rfl, entered.skip (.inl staging)⟩
      · rw [if_neg staging] at done
        rw [Bool.not_eq_true] at staging
        have isThere := present name List.mem_cons_self
        have isCopied : IsCopied tree src path name := ⟨staging, isThere⟩
        have before (other : FileName) : IsCopied tree src path other ∧ other ∉ name :: rest
            ↔ other < name ∧ IsCopied tree src path other := by
          constructor
          · rintro ⟨copied, notIn⟩
            exact ⟨(all other copied).resolve_left notIn name List.mem_cons_self, copied⟩
          · rintro ⟨less, copied⟩
            refine ⟨copied, fun isIn => ?_⟩
            rcases List.mem_cons.mp isIn with rfl | later
            · exact lt_irrefl _ less
            · exact lt_asymm less (first other later)
        have next : (fun other => (IsCopied tree src path other ∧ other ∉ name :: rest)
              ∨ other = name)
            = (fun other => IsCopied tree src path other ∧ other ∉ rest) := by
          funext other
          apply propext
          rw [List.mem_cons, not_or]
          constructor
          · rintro (⟨copied, -, notIn⟩ | rfl)
            · exact ⟨copied, notIn⟩
            · exact ⟨isCopied, notLater⟩
          · rintro ⟨copied, notIn⟩
            by_cases same : other = name
            · exact .inr same
            · exact .inl ⟨copied, same, notIn⟩
        rcases member : copyMember around dst (src ++ path ++ [name]) (dst ++ path ++ [name])
            current stack with ⟨⟨copied, _ | code⟩, stack₁⟩
        · rw [member] at done
          rcases source : tree.get? (src ++ path ++ [name]) with _ | _ | bytes
          · exact absurd source isThere
          · obtain ⟨rfl, made⟩ := halfway.folder copying source member
            obtain ⟨finished, pushed, rfl, entered⟩ :=
              ih inOrder presentRest allRest (next ▸ made) done
            exact ⟨finished, pushed ++ [name], by simp, entered.push notLater staging source⟩
          · obtain ⟨rfl, copiedFile⟩ :=
              halfway.file copying keeps before staging source member
            obtain ⟨finished, pushed, rfl, entered⟩ :=
              ih inOrder presentRest allRest (next ▸ copiedFile) done
            refine ⟨finished, pushed, rfl, entered.skip (.inr ?_)⟩
            rw [source]
            rintro ⟨⟩
        · rw [member] at done
          cases done

end MokuroBunko.Dav
