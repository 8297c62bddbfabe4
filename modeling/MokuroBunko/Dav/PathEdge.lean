import MokuroBunko.Dav.Resource

/-! A request path before the WebDAV layer reads it: the guard against traversal (`headers.rs`) and
the rewriting to the spelling on disk (`path_case.rs`).
-/

namespace MokuroBunko.Dav

open MokuroBunko.Lib

/-- `path_is_clean` of a decoded path: no `..` between slashes of either kind. -/
def pathIsClean (decoded : String) : Bool :=
  !((Text.segments '/' decoded).flatMap (Text.segments '\\')).contains ".."

def libraryPrefix : String := "/mokuro-reader/"

/-- The part of a decoded request path below the library, nothing for any other path. -/
def libraryRelative (path : String) : Option String :=
  (Text.stripPrefix path libraryPrefix).filter (fun relative =>
    Text.trimMatches '/' relative ≠ "" && !isPerUserRel relative)

/-- `PathCase` with what it asks the filesystem. -/
structure PathCase where
  library : OsPath
  caseSensitive : Bool
  /-- `fold_name`: the composed form in lower case. -/
  foldName : String → String
  /-- Whether `symlink_metadata` finds something. -/
  present : OsPath → Bool
  /-- The names in a folder that are UTF-8. -/
  readDir : OsPath → Option (List String)
  plain : ∀ dir names, readDir dir = some names → ∀ name ∈ names, PlainName name

namespace PathCase

variable (pathCase : PathCase)

/-- The spelling of a name on disk: the exact one, else the least of its variants. -/
def onDiskName (parent : OsPath) (name : String) (top : Bool) : Option String :=
  if pathCase.caseSensitive && pathCase.present (parent ++ [name]) then some name
  else do
    let names ← pathCase.readDir parent
    if names.contains name then some name
    else
      (names.filter (fun entry => !(top && isPerUserRootName entry)
        && pathCase.foldName entry == pathCase.foldName name)).min?

/-- The loop of `canonicalize`: names take their spelling on disk up to the first one missing. -/
def respell (keep : Option String) : List String → List String → List String
  | _, [] => []
  | resolved, part :: rest =>
      if part = "" then part :: respell keep resolved rest
      else
        match pathCase.onDiskName (pathCase.library ++ resolved) part resolved.isEmpty with
        | none => part :: rest
        | some onDisk =>
            let isLast := rest.all (· = "")
            if isLast && onDisk ≠ part && keep.any (· = Text.join '/' (resolved ++ [onDisk])) then
              part :: rest
            else onDisk :: respell keep (resolved ++ [onDisk]) rest

def canonicalize (relative : String) (keepLastIfVariantOf : Option String) : String :=
  let parts := Text.segments '/' relative
  if parts.any (fun part => part = "." || part = "..") then relative
  else
    Text.join '/' (pathCase.respell (keepLastIfVariantOf.map (Text.trimMatches '/')) [] parts)

def canonicalPath (path : String) (keepLastIfVariantOf : Option String) : String :=
  match libraryRelative path with
  | none => path
  | some relative => libraryPrefix ++ pathCase.canonicalize relative keepLastIfVariantOf

/-- The path of a request as the edge hands it on, nothing when the guard refuses it. -/
def requestPath (raw : String) : Option String :=
  ((decodeRequestPath raw).filter pathIsClean).map (pathCase.canonicalPath · none)

end PathCase

-- What the rewriting keeps

/-- Whether a segment names nothing: it is empty or a dot. -/
def mark (segment : String) : Option String :=
  if segment = "" ∨ segment = "." then some segment else none

/-- The segments of a path with the names blanked out, without the empty ones at its ends. -/
def strays (path : String) : List (Option String) :=
  (((Text.segments '/' path).map mark).dropWhile (· = some "")).rdropWhile (· = some "")

theorem mark_of_plain {name : String} (plain : PlainName name) : mark name = none := by
  simp [mark, plain.1, plain.2.1]

/-- A segment of a request path and what the rewriting makes of it. -/
def Respelled (part spelled : String) : Prop :=
  spelled = part ∨ (part ≠ "" ∧ part ≠ "." ∧ PlainName spelled)

theorem forall_of_forall₂ {α β : Type*} {holds : β → Prop} {left : List α} {right : List β}
    (related : List.Forall₂ (fun _ other => holds other) left right)
    : ∀ other ∈ right, holds other := by
  induction related with
  | nil => exact nofun
  | cons head _ ih => exact List.forall_mem_cons.mpr ⟨head, ih⟩

theorem segments_libraryPrefix (relative : String)
    : Text.segments '/' (libraryPrefix ++ relative)
      = "" :: readerRoot :: Text.segments '/' relative := by
  have chars : (libraryPrefix ++ relative).toList
      = [] ++ '/' :: (readerRoot.toList ++ '/' :: relative.toList) := by
    simp [libraryPrefix, readerRoot]
  have solid : '/' ∉ readerRoot.toList := by decide
  rw [Text.segments, chars, List.splitOn_append_cons_self, List.splitOn_append_cons_self,
    List.splitOn_eq_singleton solid]
  simp [Text.segments]

namespace PathCase

variable {pathCase : PathCase}

theorem plain_of_onDiskName {parent : OsPath} {name onDisk : String} {top : Bool}
    (found : pathCase.onDiskName parent name top = some onDisk)
    : onDisk = name ∨ PlainName onDisk := by
  unfold onDiskName at found
  split at found
  · exact .inl (Option.some.inj found).symm
  · obtain ⟨names, listed, found⟩ := Option.bind_eq_some_iff.mp found
    split at found
    · exact .inl (Option.some.inj found).symm
    · have member := List.mem_of_mem_filter (List.min?_mem found)
      exact .inr (pathCase.plain parent names listed onDisk member)

theorem respell_related (keep : Option String) (resolved parts : List String)
    : List.Forall₂ (fun part spelled => spelled = part ∨ (part ≠ "" ∧ PlainName spelled)) parts
        (pathCase.respell keep resolved parts) := by
  have unchanged : ∀ parts : List String,
      List.Forall₂ (fun part spelled => spelled = part ∨ (part ≠ "" ∧ PlainName spelled)) parts parts :=
    fun parts => List.forall₂_same.mpr fun _ _ => .inl rfl
  induction parts generalizing resolved with
  | nil => exact .nil
  | cons part rest ih =>
      unfold respell
      split_ifs with empty
      · exact .cons (.inl rfl) (ih resolved)
      · split
        · exact unchanged _
        · rename_i onDisk found
          dsimp only
          split_ifs
          · exact unchanged _
          · refine .cons ?_ (ih _)
            rcases plain_of_onDiskName found with same | plain
            · exact .inl same
            · exact .inr ⟨empty, plain⟩

theorem segments_canonicalPath (path : String) (keep : Option String)
    : List.Forall₂ Respelled (Text.segments '/' path)
        (Text.segments '/' (pathCase.canonicalPath path keep)) := by
  unfold canonicalPath
  cases below : libraryRelative path with
  | none => exact List.forall₂_same.mpr fun _ _ => .inl rfl
  | some relative =>
      obtain ⟨stripped, -⟩ := Option.filter_eq_some_iff.mp below
      obtain ⟨rest, split, rfl⟩ := Option.map_eq_some_iff.mp stripped
      have whole : path = libraryPrefix ++ String.ofList rest := by
        apply String.toList_injective
        rw [String.toList_append, String.toList_ofList]
        exact (List.isPrefixOf?_eq_some_iff_append_eq.mp split).symm
      dsimp only
      rw [segments_libraryPrefix, congrArg (Text.segments '/') whole, segments_libraryPrefix]
      refine .cons (.inl rfl) (.cons (.inl rfl) ?_)
      unfold canonicalize
      dsimp only
      split_ifs with dotted
      · exact List.forall₂_same.mpr fun _ _ => .inl rfl
      · simp only [List.any_eq_true, Bool.or_eq_true, decide_eq_true_eq, not_exists, not_and,
          not_or] at dotted
        have related := @respell_related pathCase (keep.map (Text.trimMatches '/')) []
          (Text.segments '/' (String.ofList rest))
        have own : ∀ part ∈ Text.segments '/' (String.ofList rest),
            part ≠ "." ∧ '/' ∉ part.toList :=
          fun part member => ⟨(dotted part member).1, Text.not_mem_segment member⟩
        have both := (List.forall₂_and_left _ _).mpr ⟨own, related⟩
        have filled : pathCase.respell (keep.map (Text.trimMatches '/')) []
            (Text.segments '/' (String.ofList rest)) ≠ [] := by
          intro empty
          rw [empty, List.forall₂_nil_right_iff] at related
          exact Text.segments_ne_nil _ _ related
        rw [Text.segments_join filled]
        · refine both.imp ?_
          rintro part spelled ⟨⟨noDot, -⟩, same | ⟨named, plain⟩⟩
          · exact .inl same
          · exact .inr ⟨named, noDot, plain⟩
        · refine forall_of_forall₂ (both.imp ?_)
          rintro part spelled ⟨⟨-, solid⟩, rfl | ⟨-, plain⟩⟩
          · exact solid
          · exact plain.2.2.2

theorem marks_respelled {parts spelled : List String} (related : List.Forall₂ Respelled parts spelled)
    : spelled.map mark = parts.map mark := by
  rw [← List.forall₂_eq_eq_eq, List.forall₂_map_left_iff, List.forall₂_map_right_iff]
  refine related.flip.imp ?_
  rintro other part (rfl | ⟨named, noDot, plain⟩)
  · rfl
  · rw [mark_of_plain plain, mark, if_neg (by simp [named, noDot])]

theorem strays_canonicalPath (path : String) (keep : Option String)
    : strays (pathCase.canonicalPath path keep) = strays path := by
  unfold strays
  rw [marks_respelled (segments_canonicalPath path keep)]

theorem strays_of_requestPath {raw path : String} (passed : pathCase.requestPath raw = some path)
    : (decodeRequestPath raw).map strays = some (strays path) := by
  obtain ⟨decoded, clean, rfl⟩ := Option.map_eq_some_iff.mp passed
  rw [(Option.filter_eq_some_iff.mp clean).1, Option.map_some, strays_canonicalPath]

theorem noParent_of_requestPath {raw path : String} (passed : pathCase.requestPath raw = some path)
    : ".." ∉ Text.segments '/' path := by
  obtain ⟨decoded, clean, rfl⟩ := Option.map_eq_some_iff.mp passed
  have guarded : pathIsClean decoded = true := (Option.filter_eq_some_iff.mp clean).2
  have own : ∀ part ∈ Text.segments '/' decoded, part ≠ ".." := by
    rintro part member rfl
    have split : ".." ∈ (Text.segments '/' decoded).flatMap (Text.segments '\\') :=
      List.mem_flatMap.mpr ⟨"..", member, by decide +kernel⟩
    simp [pathIsClean, split] at guarded
  have both := (List.forall₂_and_left _ _).mpr
    ⟨own, @segments_canonicalPath pathCase decoded none⟩
  have kept : ∀ spelled ∈ Text.segments '/' (pathCase.canonicalPath decoded none),
      spelled ≠ ".." := by
    refine forall_of_forall₂ (both.imp ?_)
    rintro part spelled ⟨noParent, rfl | ⟨-, -, plain⟩⟩
    · exact noParent
    · exact plain.2.2.1
  exact fun member => kept ".." member rfl

end PathCase

end MokuroBunko.Dav
