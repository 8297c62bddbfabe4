import MokuroBunko.Dav.CopyFailures
import MokuroBunko.Dav.FolderCopy

/-! A folder that is copied with all it has, as a whole: exactly the files that no archive takes
are there in the end.
-/

namespace MokuroBunko.Dav

open MokuroBunko.Lib
open MokuroBunko.Library

variable {around : Surroundings} {tree : Tree} {src dst : Place}

-- The folders on the stack

/-- The source is as it was, the folders to visit have been made, and what is to be below them
is as it was. -/
structure Visiting (tree base current : Tree) (src dst : Place) (paths : List Place) : Prop where
  sources : ∀ more, current.get? (src ++ more) = tree.get? (src ++ more)
  made : ∀ path ∈ paths, current.get? (dst ++ path) = some .folder
  isFolder : ∀ path ∈ paths, tree.get? (src ++ path) = some .folder
  fresh : ∀ path ∈ paths, ∀ more, more ≠ []
    → current.get? (dst ++ (path ++ more)) = base.get? (dst ++ (path ++ more))
  disjoint : paths.Pairwise (fun path other => ¬ path <+: other ∧ ¬ other <+: path)

/-- The place is in one of the folders, at any depth. -/
def IsBelow (dst : Place) (paths : List Place) (place : Place) : Prop :=
  ∃ path ∈ paths, ∃ more, more ≠ [] ∧ place = dst ++ (path ++ more)

/-- The files of the folder are at the destination exactly if no archive takes them. -/
def Arrives (around : Surroundings) (tree base after : Tree) (src dst path : Place) : Prop :=
  ∀ name bytes, isStagingName name = false
    → tree.get? (src ++ path ++ [name]) = some (.file bytes)
    → (after.get? (dst ++ path ++ [name]) = some (.file bytes)
      ↔ ∀ archive, ¬ TakesFrom around tree base src dst path name archive)

theorem TakesFrom.congr {base base' : Tree} {path : Place} {name archive : FileName}
    (same : ∀ other, base.get? (dst ++ path ++ [other]) = base'.get? (dst ++ path ++ [other]))
    : TakesFrom around tree base src dst path name archive
      ↔ TakesFrom around tree base' src dst path name archive := by
  have before : HasBefore tree base src dst path archive
      = HasBefore tree base' src dst path archive := by
    funext other
    rw [HasBefore, HasBefore, same]
  have isFile : base.isFile (dst ++ path ++ [archive])
      = base'.isFile (dst ++ path ++ [archive]) := by
    rw [FileSystem.isFile, FileSystem.isFile, same]
  unfold TakesFrom
  rw [before]
  constructor
  · rintro ⟨later, copied, source, replaced, cbz, sibling⟩
    exact ⟨later, copied, source, isFile ▸ replaced, cbz, sibling⟩
  · rintro ⟨later, copied, source, replaced, cbz, sibling⟩
    exact ⟨later, copied, source, isFile ▸ replaced, cbz, sibling⟩

theorem readDir_inOrder {folder : Place} {names : List FileName}
    (read : tree.readDir folder = some names)
    : (names.insertionSort (· ≤ ·)).Pairwise (· < ·) := by
  have distinct : (names.insertionSort (· ≤ ·)).Nodup :=
    (List.perm_insertionSort _ names).nodup_iff.mpr (FileSystem.nodup_readDir read)
  exact (List.pairwise_insertionSort _ names).imp₂ (fun _ _ => lt_of_le_of_ne) distinct

/-- The first folder of the stack is copied. -/
theorem Visiting.entries {base current after : Tree} {path : Place} {rest : List Place}
    {names : List FileName} {stack : List (Place × Place)}
    (visiting : Visiting tree base current src dst (path :: rest))
    (shared : Shared around src dst) (keeps : KeepsEndings around.std.piece ARCHIVE_CHARS)
    (read : current.readDir (src ++ path) = some names)
    (done : copyEntries around dst (src ++ path) (dst ++ path)
        (names.insertionSort (· ≤ ·)) current
        (rest.map (fun path => (src ++ path, dst ++ path))) = ((after, none), stack))
    : Halfway around tree current after src dst path (IsCopied tree src path)
      ∧ ∃ pushed : List FileName,
        stack = (pushed.map (path ++ [·]) ++ rest).map (fun path => (src ++ path, dst ++ path))
        ∧ Visiting tree base after src dst (pushed.map (path ++ [·]) ++ rest)
        ∧ ∀ name, isStagingName name = false
          → tree.get? (src ++ (path ++ [name])) = some .folder → name ∈ pushed := by
  have copying : Copying around tree current src dst path :=
    ⟨shared, visiting.sources, visiting.made path List.mem_cons_self⟩
  have isName (name : FileName) : name ∈ names.insertionSort (· ≤ ·)
      ↔ tree.get? (src ++ path ++ [name]) ≠ none := by
    rw [List.mem_insertionSort, FileSystem.mem_readDir read, List.append_assoc, visiting.sources]
  have begun : Halfway around tree current current src dst path
      (fun name => IsCopied tree src path name ∧ name ∉ names.insertionSort (· ≤ ·)) := by
    have never {name : FileName} (is : IsCopied tree src path name
        ∧ name ∉ names.insertionSort (· ≤ ·)) : False :=
      is.2 ((isName name).mpr is.1.2)
    refine ⟨fun _ _ => rfl, fun _ _ _ => rfl, ?_, ?_, ?_⟩
    · exact fun _ _ is => (never is).elim
    · exact fun _ is => (never is).elim
    · exact fun _ _ is => (never is).elim
  obtain ⟨finished, pushed, rfl, distinct, members⟩ :=
    copyEntries_spec copying keeps (readDir_inOrder read) (fun name => (isName name).mp)
      (fun name copied => .inl ((isName name).mpr copied.2)) begun done
  obtain ⟨apart, disjoint⟩ := List.pairwise_cons.mp visiting.disjoint
  -- only places right in the folder change
  have same {other : Place} (inner : ∀ name, other ≠ path ++ [name])
      : after.get? (dst ++ other) = current.get? (dst ++ other) := by
    apply finished.elsewhere
    intro name same
    rw [List.append_assoc, List.append_cancel_left_eq] at same
    exact inner name same
  refine ⟨finished, pushed, by rw [List.map_append, List.map_map]; rfl, ⟨?_, ?_, ?_, ?_, ?_⟩, ?_⟩
  · intro more
    exact finished.source copying more
  · intro other isIn
    rcases List.mem_append.mp isIn with isPushed | later
    · obtain ⟨name, member, rfl⟩ := List.mem_map.mp isPushed
      obtain ⟨_, nonstaging, folder⟩ := (members name).mp member
      rw [← List.append_assoc]
      exact finished.folders name ⟨nonstaging, by rw [folder]; simp⟩ folder
    · rw [same, visiting.made other (List.mem_cons_of_mem _ later)]
      rintro name rfl
      exact (apart _ later).1 (List.prefix_append _ _)
  · intro other isIn
    rcases List.mem_append.mp isIn with isPushed | later
    · obtain ⟨name, member, rfl⟩ := List.mem_map.mp isPushed
      rw [← List.append_assoc]
      exact ((members name).mp member).2.2
    · exact visiting.isFolder other (List.mem_cons_of_mem _ later)
  · intro other isIn more inner
    rcases List.mem_append.mp isIn with isPushed | later
    · obtain ⟨name, member, rfl⟩ := List.mem_map.mp isPushed
      rw [same, List.append_assoc]
      · exact visiting.fresh path List.mem_cons_self _ (List.cons_ne_nil name more)
      · intro name' is
        rw [List.append_assoc, List.append_cancel_left_eq, List.singleton_append,
          List.cons.injEq] at is
        exact inner is.2
    · rw [same, visiting.fresh other (List.mem_cons_of_mem _ later) more inner]
      intro name is
      rw [← List.dropLast_append_getLast inner, ← List.append_assoc] at is
      have within := (List.append_inj' is rfl).1
      exact (apart _ later).2 ⟨_, within⟩
  · rw [List.pairwise_append]
    refine ⟨?_, disjoint, ?_⟩
    · rw [List.pairwise_map]
      apply distinct.imp
      intro name name' different
      have not {one two : FileName} (other : one ≠ two) : ¬ path ++ [one] <+: path ++ [two] := by
        intro isAbove
        rw [List.prefix_append_right_inj] at isAbove
        exact other (List.cons_prefix_cons.mp isAbove).1
      exact ⟨not different, not different.symm⟩
    · intro pushedPath isPushed other later
      obtain ⟨name, _, rfl⟩ := List.mem_map.mp isPushed
      constructor
      · intro isAbove
        exact (apart other later).1 ((List.prefix_append _ _).trans isAbove)
      · intro isAbove
        rcases List.prefix_concat_iff.mp isAbove with rfl | isAbove
        · exact (apart _ later).1 (List.prefix_append _ _)
        · exact (apart other later).2 isAbove
  · intro name nonstaging folder
    rw [← List.append_assoc] at folder
    refine (members name).mpr ⟨(isName name).mpr ?_, nonstaging, folder⟩
    rw [folder]
    simp

/-- Every folder of the source below those on the stack is copied, and nothing else changes.
Induction on the turns of the loop. -/
theorem copyFolders_spec {base current after : Tree} {turns : ℕ} {paths : List Place}
    (shared : Shared around src dst) (keeps : KeepsEndings around.std.piece ARCHIVE_CHARS)
    (visiting : Visiting tree base current src dst paths)
    (done : copyFolders around dst turns current
      (paths.map (fun path => (src ++ path, dst ++ path))) = some (after, none))
    : (∀ place, ¬ IsBelow dst paths place → after.get? place = current.get? place)
      ∧ ∀ path ∈ paths, ∀ more, (∀ name ∈ more, isStagingName name = false)
        → tree.get? (src ++ (path ++ more)) = some .folder
        → Arrives around tree base after src dst (path ++ more) := by
  induction turns generalizing current paths with
  | zero =>
      cases paths with
      | nil =>
          cases done
          exact ⟨fun _ _ => rfl, by simp⟩
      | cons path rest => cases done
  | succ turns ih =>
      cases paths with
      | nil =>
          cases done
          exact ⟨fun _ _ => rfl, by simp⟩
      | cons path rest =>
          rw [List.map_cons, copyFolders] at done
          have folder := visiting.isFolder path List.mem_cons_self
          obtain ⟨names, read⟩ : ∃ names, current.readDir (src ++ path) = some names := by
            refine ⟨_, if_pos (FileSystem.isFolder_iff.mpr ?_)⟩
            rw [visiting.sources, folder]
          rw [read] at done
          dsimp only at done
          rcases entries : copyEntries around dst (src ++ path) (dst ++ path)
              (names.insertionSort (· ≤ ·)) current
              (rest.map (fun path => (src ++ path, dst ++ path)))
            with ⟨⟨copied, _ | code⟩, stack⟩
          · rw [entries] at done
            dsimp only at done
            obtain ⟨finished, pushed, rfl, next, isPushed⟩ :=
              visiting.entries shared keeps read entries
            obtain ⟨frame, arrives⟩ := ih next done
            obtain ⟨apart, -⟩ := List.pairwise_cons.mp visiting.disjoint
            refine ⟨fun place notBelow => ?_, ?_⟩
            · rw [frame, finished.elsewhere]
              · rintro name rfl
                exact notBelow ⟨path, List.mem_cons_self, [name], List.cons_ne_nil _ _,
                  List.append_assoc _ _ _⟩
              · rintro ⟨other, isIn, more, inner, rfl⟩
                rcases List.mem_append.mp isIn with isPushed | later
                · obtain ⟨name, _, rfl⟩ := List.mem_map.mp isPushed
                  exact notBelow ⟨path, List.mem_cons_self, name :: more, List.cons_ne_nil _ _,
                    by simp⟩
                · exact notBelow ⟨other, List.mem_cons_of_mem _ later, more, inner, rfl⟩
            · intro other isIn more nonstaging isFolder
              rcases List.mem_cons.mp isIn with rfl | later
              · cases more with
                | nil =>
                    rw [List.append_nil]
                    intro name bytes plain file
                    have kept : after.get? (dst ++ other ++ [name])
                        = copied.get? (dst ++ other ++ [name]) := by
                      apply frame
                      rintro ⟨third, isIn, more, inner, same⟩
                      rw [List.append_assoc, List.append_cancel_left_eq] at same
                      have third' : third <+: other := by
                        rw [← List.dropLast_append_getLast inner, ← List.append_assoc] at same
                        exact ⟨_, (List.append_inj' same.symm rfl).1⟩
                      rcases List.mem_append.mp isIn with isPushed | later
                      · obtain ⟨name', _, rfl⟩ := List.mem_map.mp isPushed
                        have long := third'.length_le
                        rw [List.length_append, List.length_singleton] at long
                        omega
                      · exact (apart third later).2 third'
                    have isFinished : IsCopied tree src other name :=
                      ⟨plain, by rw [file]; simp⟩
                    have alike (archive : FileName)
                        : TakesFrom around tree current src dst other name archive
                          ↔ TakesFrom around tree base src dst other name archive := by
                      apply TakesFrom.congr
                      intro third
                      rw [List.append_assoc]
                      exact visiting.fresh other List.mem_cons_self [third] (List.cons_ne_nil _ _)
                    rw [kept]
                    rcases finished.copied name bytes isFinished file with
                      ⟨isThere, free⟩ | ⟨gone, archive, _, takes⟩
                    · refine iff_of_true isThere (fun archive takes => ?_)
                      apply free archive _ ((alike archive).mpr takes)
                      refine ⟨takes.copied, fun missing => ?_⟩
                      obtain ⟨_, found⟩ := FileSystem.isFile_iff.mp takes.source
                      rw [missing] at found
                      cases found
                    · refine iff_of_false (by rw [gone]; rintro ⟨⟩) (fun free => ?_)
                      exact free archive ((alike archive).mp takes)
                | cons name more =>
                    have split : other ++ name :: more = other ++ [name] ++ more := by simp
                    rw [split] at isFolder ⊢
                    obtain ⟨plain, nonstaging⟩ := List.forall_mem_cons.mp nonstaging
                    have isPushed := isPushed name plain (by
                      rw [← List.append_assoc] at isFolder
                      cases more with
                      | nil => rwa [List.append_nil] at isFolder
                      | cons second more =>
                          exact FileSystem.folder_above (by rw [isFolder]; simp)
                            (List.cons_ne_nil second more))
                    exact arrives _ (List.mem_append_left _ (List.mem_map_of_mem isPushed)) more
                      nonstaging isFolder
              · exact arrives other (List.mem_append_right _ later) more nonstaging isFolder
          · rw [entries] at done
            cases done

-- What is copied into

/-- What the destination is like when the copying begins: of what it had the matched folders and
archives are left, and nothing that has no match. -/
structure Prepared (tree base : Tree) (src dst : Place) : Prop where
  sources : ∀ more, base.get? (src ++ more) = tree.get? (src ++ more)
  isThere : base.get? dst = some .folder
  shrinks : ∀ more entry, more ≠ [] → base.get? (dst ++ more) = some entry
    → tree.get? (dst ++ more) = some entry
  stays : ∀ path, path ≠ [] → Matched tree src dst path → ArchiveName (fileName (dst ++ path))
    → base.get? (dst ++ path) = tree.get? (dst ++ path)
  clean : ∀ path, tree.get? (src ++ path) = some .folder → Clean tree base src dst path

theorem prepared_of_pruned {turns : ℕ} {pruned made : Tree} (apart : Apart src dst)
    (isFolder : tree.get? dst = some .folder)
    (done : pruneUnmatched around turns tree [(src, dst)] = some (pruned, none))
    (isMade : pruned.createDirAll dst = some made)
    : Prepared tree made src dst := by
  obtain ⟨kept, clean⟩ := pruned_clean apart done
  have isThere : pruned.get? dst = some .folder := by
    rw [kept.outside dst (.inr rfl), isFolder]
  obtain ⟨_, same, reads⟩ := FileSystem.createDirAll_folder isThere
  rw [isMade] at same
  cases same
  refine ⟨fun more => ?_, ?_, fun more entry _ found => ?_, fun path _ matched archive => ?_,
    fun path folder name there => ?_⟩
  · rw [reads, kept.outside _ (.inl (apart.outside more))]
  · rw [reads, isThere]
  · exact kept.shrinks _ _ (reads _ ▸ found)
  · rw [reads, kept.stays path matched (.inr archive)]
  · rw [reads] at there
    exact clean path folder (pruned.nested _ _ there) name there

theorem prepared_of_new {made : Tree} (apart : Apart src dst) (missing : tree.get? dst = none)
    (parent : tree.get? dst.dropLast = some .folder) (isMade : tree.createDirAll dst = some made)
    : Prepared tree made src dst := by
  have reads (asked : Place) := @FileSystem.get?_createDirAll _ _ _ _ _ _ asked isMade
  have inner : dst ≠ [] := by
    rintro rfl
    rw [show tree.get? [] = _ from tree.root] at missing
    cases missing
  have below {more : Place} (some_ : more ≠ []) : made.get? (dst ++ more) = none := by
    rw [reads, if_neg]
    · by_contra there
      have above := FileSystem.folder_above there some_
      rw [missing] at above
      cases above
    · intro isAbove
      have long := isAbove.length_le
      have positive := List.length_pos_iff.mpr some_
      rw [List.length_append] at long
      omega
  have nothing (path : Place) : ¬ Matched tree src dst path := by
    rintro ⟨_, entry, -, there, -⟩
    cases path with
    | nil =>
        rw [List.append_nil, missing] at there
        cases there
    | cons first rest =>
        have above := FileSystem.folder_above (by rw [there]; simp) (List.cons_ne_nil first rest)
        rw [missing] at above
        cases above
  refine ⟨fun more => ?_, ?_, fun more entry some_ found => ?_, fun path _ matched => ?_,
    fun path _ name there => ?_⟩
  · rw [reads]
    split
    case isFalse => rfl
    case isTrue isAbove =>
      -- what is above the destination is there already
      rw [← List.dropLast_append_getLast inner] at isAbove
      rcases List.prefix_concat_iff.mp isAbove with same | ⟨rest, within⟩
      · rw [List.dropLast_append_getLast] at same
        exact absurd (same ▸ List.prefix_refl _) (apart.outside more)
      · cases rest with
        | nil => rw [List.append_nil] at within; rw [within, parent]
        | cons first rest =>
            rw [← within] at parent
            have above := FileSystem.folder_above (by rw [parent]; simp) (List.cons_ne_nil first rest)
            exact above.symm
  · rw [reads, if_pos (List.prefix_refl _)]
  · rw [below some_] at found
    cases found
  · exact absurd matched (nothing path)
  · rw [List.append_assoc, below (by simp)] at there
    exact absurd rfl there

/-- What the destination's folder has when the archive is copied, in terms of what it had in the
beginning. -/
def HasThen (tree : Tree) (src dst path : Place) (archive other : FileName) : Prop :=
  Matched tree src dst (path ++ [other]) ∨ (other < archive ∧ IsCopied tree src path other)

/-- The copy of the file goes with an archive that a later one replaces. -/
def Takes (around : Surroundings) (tree : Tree) (src dst path : Place) (name archive : FileName)
    : Prop :=
  TakesAmong around tree tree src dst path (HasThen tree src dst path archive) name archive

theorem Prepared.takes_iff {base : Tree} {path : Place} {name archive : FileName}
    (prepared : Prepared tree base src dst) (keeps : KeepsEndings around.std.piece ARCHIVE_CHARS)
    (folder : tree.get? (src ++ path) = some .folder) (copied : IsCopied tree src path name)
    : TakesFrom around tree base src dst path name archive
      ↔ Takes around tree src dst path name archive := by
  have stays {other : FileName} (matched : Matched tree src dst (path ++ [other]))
      (isArchive : ArchiveName other)
      : base.get? (dst ++ path ++ [other]) = tree.get? (dst ++ path ++ [other]) := by
    rw [List.append_assoc]
    apply prepared.stays _ (List.concat_ne_nil _ _) matched
    rwa [← List.append_assoc, fileName, List.getLastD_concat]
  have archives (other : FileName) (isArchive : ArchiveName other)
      : HasBefore tree base src dst path archive other
        ↔ HasThen tree src dst path archive other := by
    refine or_congr ⟨prepared.clean path folder other, fun matched => ?_⟩ Iff.rfl
    rw [stays matched isArchive, List.append_assoc]
    obtain ⟨_, entry, -, there, -⟩ := matched
    rw [there]
    simp
  have sibling (later : name < archive)
      : SiblingAt around.std (HasBefore tree base src dst path archive) archive name
        ↔ SiblingAt around.std (HasThen tree src dst path archive) archive name :=
    SiblingAt.congr keeps archives (iff_of_true (.inr ⟨later, copied⟩) (.inr ⟨later, copied⟩))
  constructor
  · rintro ⟨later, isCopied, source, replaced, cbz, isSibling⟩
    refine ⟨later, isCopied, source, ?_, cbz, (sibling later).mp isSibling⟩
    obtain ⟨bytes, found⟩ := FileSystem.isFile_iff.mp replaced
    rw [List.append_assoc] at found ⊢
    exact FileSystem.isFile_iff.mpr ⟨bytes, prepared.shrinks _ _ (List.concat_ne_nil _ _) found⟩
  · rintro ⟨later, isCopied, source, replaced, cbz, isSibling⟩
    refine ⟨later, isCopied, source, ?_, cbz, (sibling later).mpr isSibling⟩
    have isArchive := archiveName_of_isCbz cbz
    rw [fileName, List.getLastD_concat] at isArchive
    have matched : Matched tree src dst (path ++ [archive]) := by
      obtain ⟨bytes, found⟩ := FileSystem.isFile_iff.mp source
      obtain ⟨bytes', found'⟩ := FileSystem.isFile_iff.mp replaced
      rw [List.append_assoc] at found found'
      exact ⟨_, _, found, found', iff_of_false (by rintro ⟨⟩) (by rintro ⟨⟩)⟩
    rw [FileSystem.isFile, stays matched isArchive, ← FileSystem.isFile]
    exact replaced

-- Requests

theorem libraryRel_below {place : Place} (inLibrary : (libraryRel around place).isSome = true)
    (inner : place ≠ around.library) (more : Place)
    : (libraryRel around (place ++ more)).isSome = true := by
  unfold libraryRel at inLibrary ⊢
  split at inLibrary
  case isFalse => cases inLibrary
  case isTrue isAbove =>
    obtain ⟨rel, rfl⟩ := List.isPrefixOf_iff_prefix.mp isAbove
    cases rel with
    | nil => exact absurd (List.append_nil _) inner
    | cons first rest =>
        rw [List.append_assoc, if_pos (List.isPrefixOf_iff_prefix.mpr (List.prefix_append _ _))]
        dsimp only at inLibrary ⊢
        rw [List.drop_left] at inLibrary ⊢
        by_cases perUser : around.isPerUserRootName first = true
        · simp [perUser] at inLibrary
        · simp [perUser]

theorem copyChecks_shared {request : CopyRequest} {infinity : Bool}
    (checked : copyChecks around tree request = .ok (dst, infinity))
    (own : around.isProgress request.source = false) (notBelow : ¬ dst <+: request.source)
    : Shared around request.source dst := by
  have notAbove := (copyChecks_accepted checked).outside
  unfold copyChecks at checked
  simp only [bind_eq_ok_iff, refuse_eq_ok_iff] at checked
  obtain ⟨-, -, -, -, _, -, _, -, _, -, -, -, -, classes, -, -, -, -, -, -, -, -, -, -, -, -, -, -,
    same⟩ := checked
  cases same
  simp only [Bool.or_eq_false_iff, bne_eq_false_iff_eq, decide_eq_false_iff_not,
    Option.isNone_eq_false_iff] at classes
  obtain ⟨⟨known, alike⟩, inner⟩ := classes
  unfold classOf at known alike
  rw [own, if_neg Bool.false_ne_true] at known alike
  split at known
  case isFalse => cases known
  case isTrue inLibrary =>
    rw [if_pos inLibrary] at alike
    split at alike
    case isTrue => cases alike
    case isFalse =>
      split at alike
      case isFalse => cases alike
      case isTrue inLibrary' =>
        refine ⟨⟨notAbove, notBelow⟩, fun more => ?_, libraryRel_below inLibrary' inner⟩
        unfold libraryRel at inLibrary
        split at inLibrary
        case isFalse => cases inLibrary
        case isTrue isAbove =>
          exact (List.isPrefixOf_iff_prefix.mp isAbove).trans (List.prefix_append _ _)

/-- Every file of the source is at its place at the destination, unless it has a staging name or
is in a folder that has one. -/
def Complete (tree after : Tree) (src dst : Place) : Prop :=
  ∀ path bytes, (∀ name ∈ path, isStagingName name = false)
    → tree.get? (src ++ path) = some (.file bytes)
    → after.get? (dst ++ path) = some (.file bytes)

/-- No copy goes with an archive that a later one replaces. -/
def NoneTaken (around : Surroundings) (tree : Tree) (src dst : Place) : Prop :=
  ∀ path name archive, (∀ other ∈ path ++ [name], isStagingName other = false)
    → tree.isFile (src ++ path ++ [name]) = true
    → ¬ Takes around tree src dst path name archive

theorem copyFolder_complete_iff {turns : ℕ} {after : Tree} (shared : Shared around src dst)
    (keeps : KeepsEndings around.std.piece ARCHIVE_CHARS)
    (isFolder : tree.get? src = some .folder) (parent : tree.get? dst.dropLast = some .folder)
    (overFolder : tree.get? dst ≠ none → tree.get? dst = some .folder)
    (done : copyFolder around turns tree src dst true = some (after, none))
    : Complete tree after src dst ↔ NoneTaken around tree src dst := by
  obtain ⟨pruned, failure, isPruned, ⟨failed, same⟩ | ⟨-, -, same⟩ | ⟨rfl, made, isMade, copied⟩⟩ :=
    copyFolder_cases done
  · cases same
    exact absurd rfl failed
  · cases same
  rw [if_pos rfl] at copied
  have prepared : Prepared tree made src dst := by
    by_cases there : tree.get? dst = none
    · rw [there] at isPruned
      cases isPruned
      exact prepared_of_new shared.apart there parent isMade
    · rw [if_pos (by simpa [Option.isSome_iff_ne_none] using there)] at isPruned
      exact prepared_of_pruned shared.apart (overFolder there) isPruned isMade
  have visiting : Visiting tree made made src dst [[]] := by
    refine ⟨prepared.sources, ?_, ?_, fun _ _ _ _ => rfl, List.pairwise_singleton _ _⟩
    · rintro path (_ | ⟨_, ⟨⟩⟩)
      rw [List.append_nil, prepared.isThere]
    · rintro path (_ | ⟨_, ⟨⟩⟩)
      rw [List.append_nil, isFolder]
  obtain ⟨-, arrives⟩ := copyFolders_spec shared keeps visiting (by simpa using copied)
  have outcome {path : Place} {name : FileName} {bytes : List UInt8}
      (plain : ∀ other ∈ path ++ [name], isStagingName other = false)
      (found : tree.get? (src ++ path ++ [name]) = some (.file bytes))
      : after.get? (dst ++ path ++ [name]) = some (.file bytes)
        ↔ ∀ archive, ¬ Takes around tree src dst path name archive := by
    have folder : tree.get? (src ++ path) = some .folder :=
      tree.nested _ name (by rw [show tree.entries.get? _ = _ from found]; simp)
    have nonstaging := plain name (List.mem_append_right _ (List.mem_singleton_self name))
    have isCopied : IsCopied tree src path name := ⟨nonstaging, by rw [found]; simp⟩
    have arrived := arrives [] (List.mem_singleton_self _) path
      (fun other isIn => plain other (List.mem_append_left _ isIn)) folder
    rw [List.nil_append] at arrived
    rw [arrived name bytes nonstaging found]
    exact forall_congr' (fun archive => (prepared.takes_iff keeps folder isCopied).not)
  constructor
  · intro complete path name archive plain isFile
    obtain ⟨bytes, found⟩ := FileSystem.isFile_iff.mp isFile
    apply (outcome plain found).mp
    rw [List.append_assoc] at found ⊢
    exact complete _ _ plain found
  · intro free path bytes plain found
    rcases List.eq_nil_or_concat' path with rfl | ⟨path, name, rfl⟩
    · rw [List.append_nil, isFolder] at found
      cases found
    · rw [← List.append_assoc] at found ⊢
      apply (outcome plain found).mpr
      exact fun archive => free path name archive plain (FileSystem.isFile_iff.mpr ⟨bytes, found⟩)

/-- A COPY of a library folder with all it has, to a place that is not above it: where it answers
success it is complete exactly if no archive takes the copy of another file. -/
theorem copy_complete_iff {request : CopyRequest} {turns : ℕ} {after : Tree} {status : ℕ}
    (keeps : KeepsEndings around.std.piece ARCHIVE_CHARS)
    (isFolder : tree.isFolder request.source = true)
    (own : around.isProgress request.source = false) (notBelow : ¬ dst <+: request.source)
    (checked : copyChecks around tree request = .ok (dst, true))
    (answered : copyMove around turns tree request = some (after, status))
    (success : status = 201 ∨ status = 204)
    : Complete tree after request.source dst ↔ NoneTaken around tree request.source dst := by
  have accepted := copyChecks_accepted checked
  have source := FileSystem.isFolder_iff.mp isFolder
  unfold copyMove at answered
  rw [checked] at answered
  obtain ⟨⟨final, failure⟩, copied, same⟩ := Option.map_eq_some_iff.mp answered
  cases same
  unfold copyAccepted at copied
  rw [if_pos isFolder] at copied
  cases failure with
  | some code =>
      rcases copyFolder_failsPlainly copied code rfl with rfl | rfl
      · exact absurd success (by simp)
      · exact absurd success (by simp)
  | none =>
      apply copyFolder_complete_iff (copyChecks_shared checked own notBelow) keeps source
        accepted.parent _ copied
      intro there
      rw [← FileSystem.isFolder_iff, accepted.kinds there, isFolder]

-- A layer taken by an archive

/-- `V.cbz` and a layer `V.abc.mokuro` in the folder `a` of the library `l`, and `V.cbz` in its
folder `b`. -/
def layeredTree : Tree :=
  FileSystem.ofEntries
    ⟨[([], .folder), (["l".toList], .folder),
      (["l".toList, "a".toList], .folder), (["l".toList, "b".toList], .folder),
      (["l".toList, "a".toList, "V.abc.mokuro".toList], .file [1]),
      (["l".toList, "a".toList, "V.cbz".toList], .file [2]),
      (["l".toList, "b".toList, "V.cbz".toList], .file [3])], by decide⟩
    (by decide) (by decide)

def ontoFolder : CopyRequest where
  source := ["l".toList, "a".toList]
  destination := .ok ["l".toList, "b".toList]
  overwrite := none
  depth := none

theorem folder_copied
    : ∃ after, copyMove (aloneAt ["l".toList]) 1 layeredTree ontoFolder = some (after, 204)
      ∧ after.get? ["l".toList, "b".toList, "V.abc.mokuro".toList] = none := by
  have ended : (copyMove (aloneAt ["l".toList]) 1 layeredTree ontoFolder).map (fun result =>
      (result.1.get? ["l".toList, "b".toList, "V.abc.mokuro".toList], result.2))
      = some (none, 204) := by
    decide +kernel
  obtain ⟨⟨after, status⟩, answered, same⟩ := Option.map_eq_some_iff.mp ended
  obtain ⟨gone, rfl⟩ := Prod.mk.inj same
  exact ⟨after, answered, gone⟩

theorem copy_complete_layered
    : ∃ after, copyMove (aloneAt ["l".toList]) 1 layeredTree ontoFolder = some (after, 204)
      ∧ (Complete layeredTree after ["l".toList, "a".toList] ["l".toList, "b".toList]
        ↔ NoneTaken (aloneAt ["l".toList]) layeredTree ["l".toList, "a".toList]
          ["l".toList, "b".toList]) := by
  obtain ⟨after, answered, -⟩ := folder_copied
  exact ⟨after, answered, copy_complete_iff (letterTables_keep (forall_char (by decide)))
    (by decide) rfl (by decide) rfl answered (.inr rfl)⟩

/-- The layer is copied first, and goes with the archive that is replaced next. -/
theorem layer_taken_by_archive
    : ∃ after, copyMove (aloneAt ["l".toList]) 1 layeredTree ontoFolder = some (after, 204)
      ∧ ¬ Complete layeredTree after ["l".toList, "a".toList] ["l".toList, "b".toList] := by
  obtain ⟨after, answered, gone⟩ := folder_copied
  refine ⟨after, answered, fun complete => ?_⟩
  have copied := complete ["V.abc.mokuro".toList] [1] (by decide) (by decide)
  rw [show ["l".toList, "b".toList] ++ ["V.abc.mokuro".toList]
    = ["l".toList, "b".toList, "V.abc.mokuro".toList] from rfl, gone] at copied
  cases copied

end MokuroBunko.Dav
