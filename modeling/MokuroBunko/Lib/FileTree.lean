import MokuroBunko.Lib.Text

/-! Directory trees with symbolic links, and the way an operating system walks a path through
one: link by link, up to a limit. Nothing is said about how names are chosen, and the tree may
be infinite.
-/

namespace MokuroBunko.Lib

/-- What stands at a place of the tree. -/
inductive Node (α : Type*) where
  | folder
  | file (content : α)
  | link (target : String)
deriving DecidableEq

/-- A component of a path as text. -/
inductive Component where
  | rootDir
  | curDir
  | parentDir
  | normal (name : String)
deriving DecidableEq

/-- The components of a text: empty segments and inner dots are dropped. -/
def components (text : String) : List Component :=
  let parts := Text.segments '/' text
  let start :=
    if text.toList.head? = some '/' then [.rootDir]
    else if parts.head? = some "." then [.curDir] else []
  start ++ parts.filterMap (fun part =>
    if part = "" ∨ part = "." then none
    else if part = ".." then some .parentDir else some (.normal part))

/-- A name that is a component of its own. -/
def PlainName (name : String) : Prop :=
  name ≠ "" ∧ name ≠ "." ∧ name ≠ ".." ∧ '/' ∉ name.toList

theorem plain_of_components {text name : String} (member : .normal name ∈ components text)
    : PlainName name := by
  unfold components at member
  rcases List.mem_append.mp member with start | inner
  · split at start
    · simp at start
    · split at start <;> simp at start
  · obtain ⟨part, listed, kept⟩ := List.mem_filterMap.mp inner
    split at kept
    case isTrue => cases kept
    case isFalse solid =>
      split at kept
      case isTrue => cases kept
      case isFalse inside =>
        obtain rfl := Component.normal.inj (Option.some.inj kept)
        rw [not_or] at solid
        exact ⟨solid.1, solid.2, inside, Text.not_mem_segment listed⟩

theorem none_below {β : Type*} {node : List String → Option β} {folder : β}
    {root path : List String}
    (nested : ∀ path name, root <+: path → (node (path ++ [name])).isSome
      → node path = some folder)
    (within : root <+: path) (missing : node path ≠ some folder) {more : List String}
    (below : more ≠ [])
    : node (path ++ more) = none := by
  induction more using List.reverseRecOn with
  | nil => exact absurd rfl below
  | append_singleton front name ih =>
      by_contra present
      have above := nested (path ++ front) name (within.trans (List.prefix_append ..))
        (by rw [List.append_assoc]; exact Option.isSome_iff_ne_none.mpr present)
      cases front with
      | nil => exact missing (by simpa using above)
      | cons first others => rw [ih (by simp)] at above; cases above

/-- What stands where; whatever stands below a place has a folder there. -/
structure FileTree (α : Type*) where
  node : List String → Option (Node α)
  root : node [] = some .folder
  nested : ∀ path name, (node (path ++ [name])).isSome → node path = some .folder

namespace FileTree

variable {α : Type*} (tree : FileTree α)

/-- Follow a path from a folder, leaving each link met to `follow`. The last name need not
stand for anything: it is where a file would be made. -/
def walk (follow : List String → List Component → Option (List String))
    : List String → List Component → Option (List String)
  | place, [] => some place
  | _, .rootDir :: rest => walk follow [] rest
  | place, .curDir :: rest => walk follow place rest
  | place, .parentDir :: rest => walk follow place.dropLast rest
  | place, .normal name :: rest =>
      match tree.node (place ++ [name]) with
      | none => if rest.isEmpty then some (place ++ [name]) else none
      | some .folder => walk follow (place ++ [name]) rest
      | some (.file _) => if rest.isEmpty then some (place ++ [name]) else none
      | some (.link target) => follow place (components target ++ rest)

/-- Where a path leads when at most so many links are followed. -/
def locate : ℕ → List String → List Component → Option (List String)
  | 0 => tree.walk (fun _ _ => none)
  | links + 1 => tree.walk (locate links)

/-- How many links are followed on the way of one path. -/
def maxLinks : ℕ := 40

/-- The place that opening the path, or creating it, touches. -/
def opens (path : List String) : Option (List String) :=
  tree.locate maxLinks [] (path.map .normal)

/-- What the path names, its last component not followed. -/
def lstat (path : List String) : Option (Node α) :=
  match path.getLast? with
  | none => tree.node []
  | some name => (tree.opens path.dropLast).bind (fun place => tree.node (place ++ [name]))

/-- Neither the path nor anything above it is a link. -/
def LinkFree (path : List String) : Prop :=
  ∀ place, place <+: path → ∀ target, tree.node place ≠ some (.link target)

variable {tree}

theorem node_below_none {path : List String} (missing : tree.node path ≠ some .folder)
    {more : List String} (below : more ≠ [])
    : tree.node (path ++ more) = none :=
  none_below (fun path name _ => tree.nested path name) List.nil_prefix missing below

theorem LinkFree.above {path place : List String} (free : tree.LinkFree path)
    (above : place <+: path)
    : tree.LinkFree place :=
  fun other within => free other (within.trans above)

theorem LinkFree.below_none {path : List String} (free : tree.LinkFree path)
    (missing : tree.node path = none) (more : List String)
    : tree.LinkFree (path ++ more) := by
  intro place within target link
  obtain inside | ⟨rest, same⟩ :=
    List.prefix_or_prefix_of_prefix within (List.prefix_append path more)
  · exact free place inside target link
  · subst same
    cases rest with
    | nil => exact free path List.prefix_rfl target (by simpa using link)
    | cons first others =>
        rw [node_below_none (by simp [missing]) (by simp)] at link
        cases link

theorem walk_linkFree (follow : List String → List Component → Option (List String))
    {place names : List String} (free : tree.LinkFree (place ++ names))
    : tree.walk follow place (names.map .normal) = some (place ++ names)
      ∨ tree.walk follow place (names.map .normal) = none := by
  induction names generalizing place with
  | nil => simp [walk]
  | cons name rest ih =>
      have split : place ++ name :: rest = (place ++ [name]) ++ rest := by simp
      have noLink : ∀ target, tree.node (place ++ [name]) ≠ some (.link target) :=
        free (place ++ [name]) (split ▸ List.prefix_append ..)
      have ends : rest = [] → place ++ [name] = place ++ name :: rest := by
        intro last
        rw [last]
      rw [List.map_cons, walk]
      cases found : tree.node (place ++ [name]) with
      | none => cases rest <;> simp
      | some node =>
          cases node with
          | folder =>
              rw [split] at free ⊢
              exact ih free
          | file content => cases rest <;> simp
          | link target => exact absurd found (noLink target)

theorem walk_folder (follow : List String → List Component → Option (List String))
    {place names : List String} (free : tree.LinkFree (place ++ names))
    (folder : tree.node (place ++ names) = some .folder)
    : tree.walk follow place (names.map .normal) = some (place ++ names) := by
  induction names generalizing place with
  | nil => simp [walk]
  | cons name rest ih =>
      have split : place ++ name :: rest = (place ++ [name]) ++ rest := by simp
      rw [split] at free folder ⊢
      have here : tree.node (place ++ [name]) = some .folder := by
        by_contra other
        by_cases last : rest = []
        · exact other (by simpa [last] using folder)
        · rw [node_below_none other last] at folder
          cases folder
      rw [List.map_cons, walk, here]
      exact ih free folder

theorem opens_linkFree {path : List String} (free : tree.LinkFree path)
    : tree.opens path = some path ∨ tree.opens path = none :=
  walk_linkFree _ (show tree.LinkFree ([] ++ path) from free)

theorem lstat_linkFree {path : List String} (free : tree.LinkFree path.dropLast)
    : tree.lstat path = tree.node path := by
  obtain rfl | ⟨front, name, rfl⟩ := path.eq_nil_or_concat'
  · rfl
  · rw [List.dropLast_concat] at free
    simp only [lstat, List.getLast?_concat, List.dropLast_concat]
    obtain there | nowhere := opens_linkFree free
    · rw [there, Option.bind_some]
    · rw [nowhere, Option.bind_none]
      by_contra present
      have folder := tree.nested front name
        (Option.isSome_iff_ne_none.mpr (fun missing => present missing.symm))
      have there : tree.opens front = some front := 
        walk_folder _ (show tree.LinkFree ([] ++ front) from free) folder
      rw [there] at nowhere
      cases nowhere

end FileTree

end MokuroBunko.Lib
