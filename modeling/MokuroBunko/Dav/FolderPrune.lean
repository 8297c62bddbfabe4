import MokuroBunko.Dav.CopySource

/-! What `prune_unmatched` leaves of a folder that is copied over: of what it has, the members
that the source has as well, and of those every archive.
-/

namespace MokuroBunko.Dav

open MokuroBunko.Lib
open MokuroBunko.Library

variable {around : Surroundings}

-- Archives and siblings

/-- The name goes with the archive in a folder that has these names. -/
def SiblingAt (std : LowerTables) (has : FileName → Prop) (archive name : FileName) : Prop :=
  (∃ ending ∈ VOLUME_SIDE_SUFFIXES, name = pyStem archive ++ ending)
    ∨ (has name ∧ ∃ layer, splitLayerSidecar name = some (pyStem archive, layer)
      ∧ ∀ other, has other → volumeStem std other ≠ some (pyStem archive ++ '.' :: layer))

theorem mem_siblings_iff {std : LowerTables} {names : List FileName} {archive name : FileName}
    : name ∈ siblings std (some names) archive ↔ SiblingAt std (· ∈ names) archive name := by
  unfold siblings SiblingAt
  rw [mem_siblingsBy]
  unfold volumeStems
  simp only [List.mem_filterMap, List.mem_insertionSort, not_exists, not_and]

theorem SiblingAt.congr {std : LowerTables} {has has' : FileName → Prop}
    {archive name : FileName} (keeps : KeepsEndings std.piece ARCHIVE_CHARS)
    (archives : ∀ other, ArchiveName other → (has other ↔ has' other))
    (there : has name ↔ has' name)
    : SiblingAt std has archive name ↔ SiblingAt std has' archive name := by
  have isArchive {other stem : FileName} (found : volumeStem std other = some stem)
      : ArchiveName other := by
    obtain ⟨_, known, named, -⟩ := volumeStem_named keeps found
    exact Named.archiveName named known
  unfold SiblingAt
  rw [there]
  refine or_congr Iff.rfl (and_congr_right (fun _ => exists_congr (fun layer =>
    and_congr_right (fun _ => forall_congr' (fun other => ?_)))))
  constructor
  · intro absent isThere found
    exact absent ((archives other (isArchive found)).mpr isThere) found
  · intro absent isThere found
    exact absent ((archives other (isArchive found)).mp isThere) found

theorem archiveName_of_isCbz {phys : Place} (cbz : isCbz phys = true)
    : ArchiveName (fileName phys) := by
  have suffix : (pySuffix (fileName phys)).map Text.asciiLowerChar = ".cbz".toList :=
    of_decide_eq_true cbz
  refine ⟨".cbz".toList, List.mem_cons_self, ?_⟩
  have parts := congrArg (List.map Text.asciiLowerChar) (pyStem_append_pySuffix (fileName phys))
  rw [List.map_append, suffix] at parts
  rw [← parts]
  exact List.suffix_append _ _

-- What a deletion may change

/-- Nothing is new. -/
def Shrinks (tree after : Tree) : Prop :=
  ∀ place entry, after.get? place = some entry → tree.get? place = some entry

theorem none_of_shrinks {tree after : Tree} {place : Place} (shrinks : Shrinks tree after)
    (missing : tree.get? place = none)
    : after.get? place = none := by
  rcases found : after.get? place with _ | entry
  · rfl
  · rw [shrinks place entry found] at missing
    cases missing

/-- A deletion at a place takes what is there and below, and beside it files that are no
archives. -/
structure Deletes (tree after : Tree) (phys : Place) : Prop where
  shrinks : Shrinks tree after
  gone : after.get? phys = none
  reach : ∀ asked, after.get? asked = tree.get? asked ∨ phys <+: asked
    ∨ (asked.dropLast = phys.dropLast ∧ asked ≠ [] ∧ ¬ ArchiveName (fileName asked)
      ∧ tree.isFile asked = true)

theorem siblingPlaces_spec {tree : Tree} {phys asked : Place}
    (isSibling : asked ∈ siblingPlaces around tree phys)
    : asked.dropLast = phys.dropLast ∧ asked ≠ [] ∧ ¬ ArchiveName (fileName asked) := by
  obtain ⟨name, member, rfl⟩ := List.mem_map.mp isSibling
  refine ⟨List.dropLast_concat, List.concat_ne_nil _ _, ?_⟩
  rw [fileName, List.getLastD_concat]
  exact sibling_not_archive member

theorem deleteFile_ok {tree after : Tree} {phys : Place}
    (deleted : deleteFile around tree phys = (after, none)) (there : tree.get? phys ≠ none)
    : tree.isFile phys = true ∧ around.busy phys = false := by
  unfold deleteFile at deleted
  rw [if_neg (by simpa using there)] at deleted
  by_cases held : around.busy phys = true
  · rw [if_pos held] at deleted
    cases deleted
  rw [if_neg held] at deleted
  refine ⟨?_, Bool.not_eq_true _ ▸ held⟩
  by_contra notFile
  have kept (places : List Place) : (places.foldl discard tree).get? phys = tree.get? phys := by
    rw [get?_discards, if_neg (fun both => notFile both.2)]
  have cleared : (if ((libraryRel around phys).isSome && isCbz phys) = true then
      (siblingPlaces around tree phys).foldl discard tree else tree).get? phys
      = tree.get? phys := by
    split
    · exact kept _
    · rfl
  dsimp only at deleted
  generalize (if ((libraryRel around phys).isSome && isCbz phys) = true then
    (siblingPlaces around tree phys).foldl discard tree else tree) = middle at cleared deleted
  have refused : middle.removeFile phys = none := by
    rw [FileSystem.removeFile_eq_none_iff, ← Bool.not_eq_true]
    intro isFile
    obtain ⟨content, found⟩ := FileSystem.isFile_iff.mp isFile
    rw [cleared] at found
    exact notFile (FileSystem.isFile_iff.mpr ⟨content, found⟩)
  rw [refused] at deleted
  have failed := congrArg Prod.snd deleted
  dsimp only at failed
  rw [cleared, if_neg (by simpa using there)] at failed
  cases failed

theorem deleteFile_deletes {tree after : Tree} {phys : Place}
    (deleted : deleteFile around tree phys = (after, none)) (there : tree.get? phys ≠ none)
    : Deletes tree after phys := by
  obtain ⟨isFile, free⟩ := deleteFile_ok deleted there
  obtain ⟨_, same, reads⟩ := deleteFile_spec isFile free
  rw [deleted] at same
  cases same
  refine ⟨?_, (reads phys).1 (.inl rfl), fun asked => ?_⟩
  · intro asked entry found
    by_cases goes : Removed around tree phys asked
    · rw [(reads asked).1 goes] at found
      cases found
    · rwa [(reads asked).2 goes] at found
  · by_cases goes : Removed around tree phys asked
    · rcases goes with rfl | ⟨_, _, isSibling, file⟩
      · exact .inr (.inl (List.prefix_refl _))
      · obtain ⟨beside, inner, other⟩ := siblingPlaces_spec isSibling
        exact .inr (.inr ⟨beside, inner, other, file⟩)
    · exact .inl ((reads asked).2 goes)

theorem deleteResource_deletes {tree after : Tree} {phys : Place} {folder : Bool}
    (deleted : deleteResource around tree phys folder = (after, none))
    (there : tree.get? phys ≠ none)
    : Deletes tree after phys := by
  unfold deleteResource at deleted
  cases folder with
  | false => exact deleteFile_deletes deleted there
  | true =>
      rw [if_pos rfl, if_neg (by simpa using there)] at deleted
      split at deleted
      case isTrue => cases deleted
      case isFalse =>
        rcases removed : tree.removeDirAll phys with _ | left
        · rw [removed] at deleted
          cases deleted
        · rw [removed] at deleted
          cases deleted
          refine ⟨?_, ?_, fun asked => ?_⟩
          · intro asked entry found
            rw [FileSystem.get?_removeDirAll removed] at found
            split at found
            case isTrue => cases found
            case isFalse => exact found
          · rw [FileSystem.get?_removeDirAll removed, if_pos (List.prefix_refl _)]
          · rw [FileSystem.get?_removeDirAll removed]
            by_cases below : phys <+: asked
            · exact .inr (.inl below)
            · exact .inl (if_neg below)

-- Pruning

variable {tree : Tree} {src dst : Place}

/-- Neither place is the other or below it. -/
structure Apart (src dst : Place) : Prop where
  notAbove : ¬ src <+: dst
  notBelow : ¬ dst <+: src

theorem Apart.outside (apart : Apart src dst) (more : Place) : ¬ dst <+: src ++ more := by
  intro below
  rcases List.prefix_or_prefix_of_prefix below (List.prefix_append src more) with within | within
  · exact apart.notBelow within
  · exact apart.notAbove within

/-- The source and what it is copied over have both this member, as a folder or as a file. -/
def Matched (tree : Tree) (src dst : Place) (path : Place) : Prop :=
  ∃ entry entry', tree.get? (src ++ path) = some entry ∧ tree.get? (dst ++ path) = some entry'
    ∧ (entry = .folder ↔ entry' = .folder)

/-- What pruning keeps true of the tree it began with: nothing outside the destination or at
it changes, nothing is new, and no matched folder or archive goes. -/
structure Pruned (tree after : Tree) (src dst : Place) : Prop where
  outside : ∀ place, ¬ dst <+: place ∨ place = dst → after.get? place = tree.get? place
  shrinks : Shrinks tree after
  stays : ∀ path, Matched tree src dst path
    → (tree.get? (dst ++ path) = some .folder ∨ ArchiveName (fileName (dst ++ path)))
    → after.get? (dst ++ path) = tree.get? (dst ++ path)

theorem Pruned.deletes {middle after : Tree} {path : Place} {name : FileName}
    (pruned : Pruned tree middle src dst)
    (deletes : Deletes middle after (dst ++ (path ++ [name])))
    (there : middle.get? (dst ++ (path ++ [name])) ≠ none)
    (noMatch : ¬ Matched tree src dst (path ++ [name]))
    : Pruned tree after src dst := by
  obtain ⟨entry, found⟩ := Option.ne_none_iff_exists'.mp there
  have before := pruned.shrinks _ _ found
  refine ⟨fun place outside => ?_, fun place entry found => ?_, fun other matched kind => ?_⟩
  · rw [← pruned.outside place outside]
    rcases deletes.reach place with same | below | ⟨beside, inner, -, -⟩
    · exact same
    · rcases outside with notBelow | rfl
      · exact absurd ((List.prefix_append _ _).trans below) notBelow
      · have long := below.length_le
        simp only [List.length_append, List.length_singleton] at long
        omega
    · have within : dst <+: place := by
        rw [← List.dropLast_append_getLast inner, beside, ← List.append_assoc,
          List.dropLast_concat, List.append_assoc]
        exact List.prefix_append _ _
      rcases outside with notBelow | rfl
      · exact absurd within notBelow
      · have lengths := congrArg List.length beside
        rw [← List.append_assoc, List.dropLast_concat, List.length_dropLast,
          List.length_append] at lengths
        have positive := List.length_pos_iff.mpr inner
        omega
  · exact pruned.shrinks place entry (deletes.shrinks place entry found)
  · rw [← pruned.stays other matched kind]
    rcases deletes.reach (dst ++ other) with same | below | ⟨-, -, notArchive, isFile⟩
    · exact same
    · -- what is below a member is matched only if the member is
      exfalso
      apply noMatch
      rw [List.prefix_append_right_inj] at below
      obtain ⟨more, rfl⟩ := below
      cases more with
      | nil => rwa [List.append_nil] at matched
      | cons first rest =>
          obtain ⟨e, e', source, destination, -⟩ := matched
          have folder : tree.get? (src ++ (path ++ [name])) = some .folder := by
            apply FileSystem.folder_above _ (List.cons_ne_nil first rest)
            rw [List.append_assoc, source]
            simp
          have folder' : tree.get? (dst ++ (path ++ [name])) = some .folder := by
            apply FileSystem.folder_above _ (List.cons_ne_nil first rest)
            rw [List.append_assoc, destination]
            simp
          exact ⟨.folder, .folder, folder, folder', Iff.rfl⟩
    · rcases kind with folder | archive
      · obtain ⟨content, file⟩ := FileSystem.isFile_iff.mp isFile
        rw [pruned.stays other matched (.inl folder), folder] at file
        cases file
      · exact absurd archive notArchive

theorem Pruned.test_iff {middle : Tree} {path : Place} {name : FileName}
    {entry : FileNode (List UInt8)} (pruned : Pruned tree middle src dst) (apart : Apart src dst)
    (there : middle.get? (dst ++ path ++ [name]) = some entry)
    : (middle.get? (src ++ path ++ [name])).any (fun _ =>
        middle.isFolder (src ++ path ++ [name]) == middle.isFolder (dst ++ path ++ [name])) = true
      ↔ Matched tree src dst (path ++ [name]) := by
  have source : middle.get? (src ++ path ++ [name]) = tree.get? (src ++ (path ++ [name])) := by
    rw [List.append_assoc]
    exact pruned.outside _ (.inl (apart.outside _))
  have before := pruned.shrinks _ _ there
  rw [List.append_assoc] at before
  have isDir : middle.isFolder (dst ++ path ++ [name]) = true ↔ entry = .folder := by
    rw [FileSystem.isFolder_iff, there, Option.some_inj]
  have isDir' : middle.isFolder (src ++ path ++ [name]) = true
      ↔ tree.get? (src ++ (path ++ [name])) = some .folder := by
    rw [FileSystem.isFolder_iff, source]
  rw [source, Option.any_eq_true]
  constructor
  · rintro ⟨entry', found, same⟩
    rw [beq_iff_eq, Bool.eq_iff_iff, isDir, isDir', found, Option.some_inj] at same
    exact ⟨entry', entry, found, before, same⟩
  · rintro ⟨entry', _, found, also, same⟩
    rw [before] at also
    cases also
    refine ⟨entry', found, ?_⟩
    rw [beq_iff_eq, Bool.eq_iff_iff, isDir, isDir', found, Option.some_inj]
    exact same

/-- Of these members of a folder the ones that are left are matched, and the folders among them
are to be visited. -/
structure Cleared (tree after : Tree) (src dst path : Place) (names pushed : List FileName)
    : Prop where
  matched : ∀ name ∈ names, after.get? (dst ++ path ++ [name]) ≠ none
    → Matched tree src dst (path ++ [name])
  visited : ∀ name ∈ names, after.get? (dst ++ path ++ [name]) = some .folder → name ∈ pushed

theorem Cleared.cons {after : Tree} {path : Place} {name : FileName} {names pushed : List FileName}
    (cleared : Cleared tree after src dst path names pushed)
    (matched : after.get? (dst ++ path ++ [name]) ≠ none → Matched tree src dst (path ++ [name]))
    (noFolder : after.get? (dst ++ path ++ [name]) ≠ some .folder)
    : Cleared tree after src dst path (name :: names) pushed := by
  constructor
  · exact List.forall_mem_cons.mpr ⟨matched, cleared.matched⟩
  · exact List.forall_mem_cons.mpr ⟨fun folder => absurd folder noFolder, cleared.visited⟩

theorem Cleared.push {after : Tree} {path : Place} {name : FileName} {names pushed : List FileName}
    (cleared : Cleared tree after src dst path names pushed)
    (matched : after.get? (dst ++ path ++ [name]) ≠ none → Matched tree src dst (path ++ [name]))
    : Cleared tree after src dst path (name :: names) (pushed ++ [name]) := by
  constructor
  · exact List.forall_mem_cons.mpr ⟨matched, cleared.matched⟩
  · refine List.forall_mem_cons.mpr ⟨fun _ => by simp, fun other isIn folder => ?_⟩
    exact List.mem_append_left _ (cleared.visited other isIn folder)

theorem pruneEntries_spec (apart : Apart src dst) {path : Place} {names : List FileName}
    {middle after : Tree} {stack stack' : List (Place × Place)}
    (pruned : Pruned tree middle src dst)
    (done : pruneEntries around (src ++ path) (dst ++ path) names middle stack
      = ((after, none), stack'))
    : Pruned tree after src dst ∧ Shrinks middle after
      ∧ ∃ pushed : List FileName,
        stack' = pushed.map (fun name => (src ++ (path ++ [name]), dst ++ (path ++ [name])))
          ++ stack
        ∧ Cleared tree after src dst path names pushed := by
  induction names generalizing middle stack with
  | nil =>
      cases done
      exact ⟨pruned, fun _ _ => id, [], rfl, by simp, by simp⟩
  | cons name rest ih =>
      rw [pruneEntries] at done
      by_cases test : ((middle.get? (src ++ path ++ [name])).any (fun _ =>
          middle.isFolder (src ++ path ++ [name]) == middle.isFolder (dst ++ path ++ [name])))
        = true
      · -- a matched member stays
        rw [if_pos test] at done
        have isMatched {after : Tree} (shrinks : Shrinks middle after)
            (there : after.get? (dst ++ path ++ [name]) ≠ none)
            : Matched tree src dst (path ++ [name]) := by
          obtain ⟨entry, found⟩ := Option.ne_none_iff_exists'.mp there
          exact (pruned.test_iff apart (shrinks _ _ found)).mp test
        by_cases isDir : middle.isFolder (dst ++ path ++ [name]) = true
        · rw [if_pos isDir] at done
          obtain ⟨kept, shrinks, pushed, rfl, cleared⟩ := ih pruned done
          exact ⟨kept, shrinks, pushed ++ [name], by simp, cleared.push (isMatched shrinks)⟩
        · rw [if_neg isDir] at done
          obtain ⟨kept, shrinks, pushed, rfl, cleared⟩ := ih pruned done
          refine ⟨kept, shrinks, pushed, rfl, cleared.cons (isMatched shrinks) ?_⟩
          exact fun folder => isDir (FileSystem.isFolder_iff.mpr (shrinks _ _ folder))
      · rw [if_neg test] at done
        have absent {after : Tree} (gone : after.get? (dst ++ path ++ [name]) = none)
            {pushed : List FileName} (cleared : Cleared tree after src dst path rest pushed)
            : Cleared tree after src dst path (name :: rest) pushed :=
          cleared.cons (absurd gone) (by rw [gone]; rintro ⟨⟩)
        by_cases missing : middle.get? (dst ++ path ++ [name]) = none
        · rw [missing, Option.isNone_none, if_pos rfl] at done
          obtain ⟨kept, shrinks, pushed, rfl, cleared⟩ := ih pruned done
          exact ⟨kept, shrinks, pushed, rfl, absent (none_of_shrinks shrinks missing) cleared⟩
        · rw [if_neg (by simpa using missing)] at done
          rcases deletion : deleteResource around middle (dst ++ path ++ [name])
              (middle.isFolder (dst ++ path ++ [name])) with ⟨deleted, _ | code⟩
          · rw [deletion] at done
            have deletes := deleteResource_deletes deletion missing
            have noMatch : ¬ Matched tree src dst (path ++ [name]) := by
              obtain ⟨entry, found⟩ := Option.ne_none_iff_exists'.mp missing
              exact fun matched => test ((pruned.test_iff apart found).mpr matched)
            have gone := deletes.gone
            have next : Pruned tree deleted src dst := by
              rw [List.append_assoc] at deletes missing
              exact pruned.deletes deletes missing noMatch
            obtain ⟨kept, shrinks, pushed, rfl, cleared⟩ := ih next done
            refine ⟨kept, fun place entry found => deletes.shrinks _ _ (shrinks _ _ found),
              pushed, rfl, absent (none_of_shrinks shrinks gone) cleared⟩
          · rw [deletion] at done
            cases done

/-- The members of a folder that are left are matched. -/
def Clean (tree after : Tree) (src dst path : Place) : Prop :=
  ∀ name, after.get? (dst ++ path ++ [name]) ≠ none → Matched tree src dst (path ++ [name])

/-- The loop cleans every matched folder below those on its stack. Induction on its turns. -/
theorem pruneUnmatched_spec (apart : Apart src dst) {turns : ℕ} {middle after : Tree}
    {paths : List Place} (pruned : Pruned tree middle src dst)
    (done : pruneUnmatched around turns middle
      (paths.map (fun path => (src ++ path, dst ++ path))) = some (after, none))
    : Pruned tree after src dst ∧ Shrinks middle after
      ∧ ∀ path ∈ paths, ∀ more, tree.get? (src ++ (path ++ more)) = some .folder
        → after.get? (dst ++ (path ++ more)) = some .folder
        → Clean tree after src dst (path ++ more) := by
  induction turns generalizing middle paths with
  | zero =>
      cases paths with
      | nil =>
          cases done
          exact ⟨pruned, fun _ _ => id, by simp⟩
      | cons path rest => cases done
  | succ turns ih =>
      cases paths with
      | nil =>
          cases done
          exact ⟨pruned, fun _ _ => id, by simp⟩
      | cons path rest =>
          rw [List.map_cons, pruneUnmatched] at done
          rcases read : middle.readDir (dst ++ path) with _ | names
          · rw [read] at done
            obtain ⟨kept, shrinks, clean⟩ := ih pruned done
            refine ⟨kept, shrinks, ?_⟩
            intro other isIn more source folder
            rcases List.mem_cons.mp isIn with rfl | later
            · have above : middle.get? (dst ++ other) = some .folder := by
                have below := shrinks _ _ folder
                rw [← List.append_assoc] at below
                cases more with
                | nil => rwa [List.append_nil] at below
                | cons first more =>
                    have there : middle.get? (dst ++ other ++ first :: more) ≠ none := by
                      rw [below]
                      simp
                    exact FileSystem.folder_above there (List.cons_ne_nil first more)
              rw [FileSystem.readDir, if_pos (FileSystem.isFolder_iff.mpr above)] at read
              cases read
            · exact clean other later more source folder
          · rw [read] at done
            dsimp only at done
            rcases entries : pruneEntries around (src ++ path) (dst ++ path) names middle
                (rest.map (fun path => (src ++ path, dst ++ path)))
              with ⟨⟨deleted, _ | code⟩, stack⟩
            · rw [entries] at done
              dsimp only at done
              obtain ⟨next, fewer, pushed, rfl, cleared⟩ :=
                pruneEntries_spec apart pruned entries
              have paths : pushed.map (fun name =>
                    (src ++ (path ++ [name]), dst ++ (path ++ [name])))
                  ++ rest.map (fun path => (src ++ path, dst ++ path))
                  = (pushed.map (fun name => path ++ [name]) ++ rest).map
                    (fun path => (src ++ path, dst ++ path)) := by
                rw [List.map_append, List.map_map]
                rfl
              rw [paths] at done
              obtain ⟨kept, shrinks, clean⟩ := ih next done
              refine ⟨kept, fun place entry found => fewer _ _ (shrinks _ _ found), ?_⟩
              intro other isIn more source folder
              rcases List.mem_cons.mp isIn with rfl | later
              · cases more with
                | nil =>
                    rw [List.append_nil]
                    intro name there
                    apply cleared.matched name _
                      (fun missing => there (none_of_shrinks shrinks missing))
                    apply (FileSystem.mem_readDir read).mpr
                    exact fun missing => there
                      (none_of_shrinks shrinks (none_of_shrinks fewer missing))
                | cons first more =>
                    have split : other ++ first :: more = other ++ [first] ++ more := by simp
                    rw [split] at source folder ⊢
                    refine clean (other ++ [first]) ?_ more source folder
                    have inside : deleted.get? (dst ++ other ++ [first]) = some .folder := by
                      have below := shrinks _ _ folder
                      rw [← List.append_assoc, ← List.append_assoc] at below
                      cases more with
                      | nil => rwa [List.append_nil] at below
                      | cons second more =>
                          exact FileSystem.folder_above (by rw [below]; simp)
                            (List.cons_ne_nil second more)
                    have isName : first ∈ names := by
                      apply (FileSystem.mem_readDir read).mpr
                      intro missing
                      rw [none_of_shrinks fewer missing] at inside
                      cases inside
                    exact List.mem_append_left _
                      (List.mem_map_of_mem (cleared.visited first isName inside))
              · exact clean other (List.mem_append_right _ later) more source folder
            · rw [entries] at done
              cases done

theorem pruned_clean (apart : Apart src dst) {turns : ℕ} {after : Tree}
    (done : pruneUnmatched around turns tree [(src, dst)] = some (after, none))
    : Pruned tree after src dst
      ∧ ∀ path, tree.get? (src ++ path) = some .folder
        → after.get? (dst ++ path) = some .folder → Clean tree after src dst path := by
  have begun : Pruned tree tree src dst :=
    ⟨fun _ _ => rfl, fun _ _ => id, fun _ _ _ => rfl⟩
  obtain ⟨pruned, -, clean⟩ := @pruneUnmatched_spec around tree src dst apart turns tree after [[]]
    begun (by simpa using done)
  exact ⟨pruned, fun path source folder => clean [] (by simp) path source folder⟩

end MokuroBunko.Dav
