import Mathlib.Data.Finset.Card
import MokuroBunko.Layout.Furigana
import MokuroBunko.Layout.Order

/-! The layout of a page (`layout/mod.rs`): every line of the page is in one block, is one ruby run
or is dropped.
-/

namespace MokuroBunko.Layout

open MokuroBunko.Lib

variable {F Block : Type} [Floats F] (sorting : Sorting)

-- Layout

structure RawPage (F : Type) where
  width : ℤ
  height : ℤ
  lines : List (RawLine F)

structure PageLayout (F Block : Type) where
  /-- In reading order. -/
  blocks : List Block
  /-- The places of each block's lines in the page, in the order of the block. -/
  groups : List (List ℕ)
  kinds : List Kind
  ruby : List (Ruby F)
  /-- Lines with no text or no area. -/
  dropped : List ℕ
  bodies : List (Body F)

/-- What the layout leaves to `bodies.rs` and `block.rs`. Nothing is assumed of it. -/
structure Parts (F Block : Type) where
  findBodies : List (Line F) → List (Body F)
  classifyRoles : List (Line F) → List (Body F) → F → F → ℕ → Role
  buildBlock : List (Line F) → F → F → F → Block
  growBoxesOverRuby : List Block → List (List ℕ) → List Kind → List (Ruby F) → F → F → List Block

/-- The role of a group: that of its first line that is no noise. -/
def groupRole (roles : ℕ → Role) (group : List (Line F)) : Role :=
  ((group.map (fun line => roles line.index)).find? (· ≠ .noise)).getD .noise

/-- The body with the most lines of the group, of equal ones the first, and how many. -/
def groupBody (bodies : List (Body F)) (group : List (Line F)) : Option (Body F × ℕ) :=
  let indices := (group.map Line.index).toFinset
  bodies.foldl (fun found body =>
    let n := (indices ∩ body.members).card
    match found with
    | none => some (body, n)
    | some (_, best) => if best < n then some (body, n) else found) none

def roleKind : Role → Kind
  | .text => .text
  | .header => .header
  | .footer => .footer
  | .noise => .noise

/-- The blocks of a merged group: its paragraphs if half of it belongs to a body. -/
def placeGroup (bodies : List (Body F)) (roles : ℕ → Role) (group : List (Line F))
    : List (Group F) :=
  let role := groupRole roles group
  let whole : Group F := ⟨orderLines sorting group, roleKind role, 0.0⟩
  match groupBody bodies group with
  | some (body, best) =>
      if role = .text ∧ (group.map Line.index).toFinset.card ≤ 2 * best then
        (splitParagraphs sorting group body).map (fun paragraph =>
          ⟨paragraph, .body, body.gap / 2.0⟩)
      else [whole]
  | none => [whole]

/-- The lines of a page as blocks in reading order, with the furigana taken out. -/
def layoutPage (parts : Parts F Block) (page : RawPage F) : PageLayout F Block :=
  let width : F := (page.width : F)
  let height : F := (page.height : F)
  let (measured, dropped) := measureLines page.lines
  let lines := decideOrientations measured
  let (keptPos, ruby) := filterFurigana sorting lines
  let kept := keptPos.map lines.get
  let bodies := parts.findBodies kept
  let roles := parts.classifyRoles kept bodies height width
  let groups := (mergeLines kept bodies roles).flatMap (fun places =>
    placeGroup sorting bodies roles (places.map kept.get))
  let order := orderBlocks sorting groups bodies
  let blocks := order.map (fun i =>
    parts.buildBlock (groups.get i).lines width height (groups.get i).cap)
  let orderedGroups := order.map (fun i => (groups.get i).lines.map Line.index)
  let orderedKinds := order.map (fun i => (groups.get i).kind)
  {
    blocks := parts.growBoxesOverRuby blocks orderedGroups orderedKinds ruby width height
    groups := orderedGroups
    kinds := orderedKinds
    ruby := ruby
    dropped := dropped
    bodies := bodies
  }

-- Conservation

theorem placeGroup_perm {bodies : List (Body F)} {roles : ℕ → Role} {group : List (Line F)}
    : ((placeGroup sorting bodies roles group).flatMap Group.lines).Perm group := by
  have whole : ([⟨orderLines sorting group, roleKind (groupRole roles group), 0.0⟩] :
      List (Group F)).flatMap Group.lines = orderLines sorting group := by
    simp
  simp only [placeGroup]
  split
  · rename_i body best _
    split
    · rw [List.flatMap_map, List.flatMap_id']
      exact splitParagraphs_perm sorting
    · rw [whole]
      exact orderLines_perm sorting
  · rw [whole]
    exact orderLines_perm sorting

theorem placedGroups_perm {kept : List (Line F)} {bodies : List (Body F)} {roles : ℕ → Role}
    : (((mergeLines kept bodies roles).flatMap (fun places =>
        placeGroup sorting bodies roles (places.map kept.get))).flatMap
          Group.lines).Perm kept := by
  rw [List.flatMap_assoc]
  refine (List.Perm.flatMap_left _ (fun places _ => placeGroup_perm sorting)).trans ?_
  rw [← List.map_flatMap, List.flatMap_id']
  have listed := (mergeLines_perm kept bodies roles).map kept.get
  exact listed.trans (List.Perm.of_eq ((map_places kept id).trans (List.map_id _)))

theorem orderedGroups_perm {groups : List (Group F)} {bodies : List (Body F)}
    : ((orderBlocks sorting groups bodies).map
        (fun i => (groups.get i).lines.map Line.index)).flatten.Perm
      ((groups.flatMap Group.lines).map Line.index) := by
  have ordered := (orderBlocks_perm sorting groups bodies).map
    (fun i => (groups.get i).lines.map Line.index)
  have places := map_places groups (fun group => group.lines.map Line.index)
  refine (ordered.trans (List.Perm.of_eq places)).flatten.trans ?_
  rw [List.map_flatMap, List.flatMap_def]

/-- Every line of a page occurs once in its layout: in the lines of one block, as one ruby run or
among the dropped lines.
-/
theorem layoutPage_conserves (parts : Parts F Block) (page : RawPage F)
    : let layout := layoutPage sorting parts page
      (layout.groups.flatten ++ layout.ruby.map Ruby.line ++ layout.dropped).Perm
        (List.range page.lines.length) := by
  simp only [layoutPage]
  have measured := measureLines_perm page.lines
  have nodup : ((measureLines page.lines).1.map Line.index).Nodup :=
    (List.nodup_append.mp (measured.nodup_iff.mpr List.nodup_range)).1
  rw [← decideOrientations_index] at measured nodup
  have furigana := filterFurigana_perm sorting nodup
  refine List.Perm.trans (List.Perm.append_right _ ?_) measured
  refine List.Perm.trans (List.Perm.append_right _ ?_) furigana
  refine (orderedGroups_perm sorting).trans ?_
  refine ((placedGroups_perm sorting).map Line.index).trans ?_
  rw [List.map_map]
  rfl

end MokuroBunko.Layout
