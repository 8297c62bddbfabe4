import MokuroBunko.Dav.CopyTree

/-! How a COPY fails once it has been accepted: another write holds a place, or the server has
failed. No failure has the status of a success.
-/

namespace MokuroBunko.Dav

open MokuroBunko.Lib
open MokuroBunko.Library

variable {around : Surroundings} {tree : Tree}

/-- An operation on the tree fails because another write holds a place, or for a reason of the
server's. -/
def FailsPlainly (written : Written) : Prop :=
  ∀ code, written.2 = some code → code = 423 ∨ code = 500

theorem failsPlainly_done (tree : Tree) : FailsPlainly (tree, none) :=
  fun _ failed => by cases failed

theorem failsPlainly_busy (tree : Tree) : FailsPlainly (tree, some 423) :=
  fun _ failed => .inl (Option.some.inj failed).symm

theorem failsPlainly_server (tree : Tree) : FailsPlainly (tree, some 500) :=
  fun _ failed => .inr (Option.some.inj failed).symm

theorem deleteFile_failsPlainly (phys : Place) : FailsPlainly (deleteFile around tree phys) := by
  unfold deleteFile
  split
  · exact failsPlainly_done _
  split
  · exact failsPlainly_busy _
  dsimp only
  generalize (if ((libraryRel around phys).isSome && isCbz phys) = true then
    (siblingPlaces around tree phys).foldl discard tree else tree) = cleared
  split
  · exact failsPlainly_done _
  split
  · exact failsPlainly_done _
  · exact failsPlainly_server _

theorem deleteResource_failsPlainly (phys : Place) (folder : Bool)
    : FailsPlainly (deleteResource around tree phys folder) := by
  unfold deleteResource
  split
  case isFalse => exact deleteFile_failsPlainly phys
  split
  · exact failsPlainly_done _
  split
  · exact failsPlainly_busy _
  split
  · exact failsPlainly_done _
  · exact failsPlainly_server _

theorem copyFile_failsPlainly (src dest : Place)
    : FailsPlainly (copyFile around tree src dest) := by
  unfold copyFile
  split
  · exact failsPlainly_busy _
  unfold copyOne
  dsimp only
  split
  · exact failsPlainly_server _
  split
  · split
    · exact failsPlainly_server _
    split
    · exact failsPlainly_server _
    · exact failsPlainly_done _
  · exact failsPlainly_server _

theorem pruneEntries_failsPlainly (s d : Place) (names : List FileName)
    (stack : List (Place × Place))
    : FailsPlainly (pruneEntries around s d names tree stack).1 := by
  induction names generalizing tree stack with
  | nil => exact failsPlainly_done tree
  | cons name rest ih =>
      rw [pruneEntries]
      split
      · exact ih _
      split
      · exact ih _
      split
      case h_1 deleted _ => exact ih _
      case h_2 deleted code failed =>
        have plainly := @deleteResource_failsPlainly around tree (d ++ [name])
          (tree.isFolder (d ++ [name]))
        rwa [failed] at plainly

theorem pruneUnmatched_failsPlainly {turns : ℕ} {stack : List (Place × Place)}
    {written : Written} (done : pruneUnmatched around turns tree stack = some written)
    : FailsPlainly written := by
  induction turns generalizing tree stack with
  | zero =>
      cases stack with
      | nil => exact Option.some.inj done ▸ failsPlainly_done tree
      | cons pair rest => cases done
  | succ turns ih =>
      cases stack with
      | nil => exact Option.some.inj done ▸ failsPlainly_done tree
      | cons pair rest =>
          rw [pruneUnmatched] at done
          split at done
          case h_1 => exact ih done
          case h_2 names _ =>
            have plainly := @pruneEntries_failsPlainly around tree pair.1 pair.2 names rest
            split at done
            case h_1 => exact ih done
            case h_2 failed _ _ same =>
              rw [same] at plainly
              exact Option.some.inj done ▸ plainly

theorem copyMember_failsPlainly (destRoot src dest : Place) (stack : List (Place × Place))
    : FailsPlainly (copyMember around destRoot src dest tree stack).1 := by
  unfold copyMember
  split
  · split
    · split
      · exact failsPlainly_server _
      · exact failsPlainly_done _
    · exact failsPlainly_done _
  · have plainly : FailsPlainly (if (tree.get? dest).isSome then deleteFile around tree dest
        else (tree, none)) := by
      split
      · exact deleteFile_failsPlainly dest
      · exact failsPlainly_done _
    dsimp only
    split
    · exact copyFile_failsPlainly src dest
    · exact plainly
  · exact failsPlainly_done _

theorem copyEntries_failsPlainly (destRoot src dest : Place) (names : List FileName)
    (stack : List (Place × Place))
    : FailsPlainly (copyEntries around destRoot src dest names tree stack).1 := by
  induction names generalizing tree stack with
  | nil => exact failsPlainly_done tree
  | cons name rest ih =>
      rw [copyEntries]
      split
      · exact ih _
      have plainly := @copyMember_failsPlainly around tree destRoot (src ++ [name])
        (dest ++ [name]) stack
      split
      · exact ih _
      · exact plainly

theorem copyFolders_failsPlainly {destRoot : Place} {turns : ℕ} {stack : List (Place × Place)}
    {written : Written} (done : copyFolders around destRoot turns tree stack = some written)
    : FailsPlainly written := by
  induction turns generalizing tree stack with
  | zero =>
      cases stack with
      | nil => exact Option.some.inj done ▸ failsPlainly_done tree
      | cons pair rest => cases done
  | succ turns ih =>
      cases stack with
      | nil => exact Option.some.inj done ▸ failsPlainly_done tree
      | cons pair rest =>
          rw [copyFolders] at done
          split at done
          case h_1 => exact ih done
          case h_2 names _ =>
            have plainly := @copyEntries_failsPlainly around tree destRoot pair.1 pair.2
              (names.insertionSort (· ≤ ·)) rest
            split at done
            case h_1 => exact ih done
            case h_2 failed _ _ same =>
              rw [same] at plainly
              exact Option.some.inj done ▸ plainly

theorem copyFolder_cases {turns : ℕ} {src dest : Place} {infinity : Bool} {written : Written}
    (done : copyFolder around turns tree src dest infinity = some written)
    : ∃ pruned failure,
        (if (tree.get? dest).isSome && infinity then
          pruneUnmatched around turns tree [(src, dest)] else some (tree, none))
          = some (pruned, failure)
        ∧ ((failure ≠ none ∧ written = (pruned, failure))
          ∨ (failure = none ∧ pruned.createDirAll dest = none ∧ written = (pruned, some 500))
          ∨ (failure = none ∧ ∃ made, pruned.createDirAll dest = some made
            ∧ (if infinity then copyFolders around dest turns made [(src, dest)]
              else some (made, none)) = some written)) := by
  have ends {pruned : Tree} {failure : Option ℕ}
      (done : failure.elim
          ((pruned.createDirAll dest).elim (some (pruned, some 500)) (fun made =>
            if infinity then copyFolders around dest turns made [(src, dest)]
            else some (made, none)))
          (fun code => some (pruned, some code)) = some written)
      : (failure ≠ none ∧ written = (pruned, failure))
        ∨ (failure = none ∧ pruned.createDirAll dest = none ∧ written = (pruned, some 500))
        ∨ (failure = none ∧ ∃ made, pruned.createDirAll dest = some made
          ∧ (if infinity then copyFolders around dest turns made [(src, dest)]
            else some (made, none)) = some written) := by
    cases failure with
    | some code => exact .inl ⟨by simp, (Option.some.inj done).symm⟩
    | none =>
        right
        rw [Option.elim_none] at done
        rcases made : pruned.createDirAll dest with _ | folder
        · rw [made] at done
          exact .inl ⟨rfl, rfl, (Option.some.inj done).symm⟩
        · rw [made] at done
          exact .inr ⟨rfl, folder, rfl, done⟩
  unfold copyFolder at done
  dsimp only at done
  by_cases prunes : ((tree.get? dest).isSome && infinity) = true
  · rw [if_pos prunes] at done ⊢
    obtain ⟨⟨pruned, failure⟩, isPruned, done⟩ := Option.bind_eq_some_iff.mp done
    refine ⟨pruned, failure, isPruned, ends ?_⟩
    rw [← done]
    cases failure with
    | some code => rfl
    | none =>
        dsimp only
        cases pruned.createDirAll dest <;> rfl
  · rw [if_neg prunes] at done ⊢
    refine ⟨tree, none, rfl, ends ?_⟩
    rw [← done, Option.bind_eq_bind, Option.bind_some]
    dsimp only
    cases tree.createDirAll dest <;> rfl

theorem copyFolder_failsPlainly {turns : ℕ} {src dest : Place} {infinity : Bool}
    {written : Written} (done : copyFolder around turns tree src dest infinity = some written)
    : FailsPlainly written := by
  obtain ⟨pruned, failure, isPruned, ⟨-, rfl⟩ | ⟨-, -, rfl⟩ | ⟨-, made, -, copied⟩⟩ :=
    copyFolder_cases done
  · split at isPruned
    · exact pruneUnmatched_failsPlainly isPruned
    · exact Option.some.inj isPruned ▸ failsPlainly_done _
  · exact failsPlainly_server _
  · split at copied
    · exact copyFolders_failsPlainly copied
    · exact Option.some.inj copied ▸ failsPlainly_done _

end MokuroBunko.Dav
