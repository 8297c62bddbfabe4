import Mathlib.Data.Finset.Basic
import Mathlib.Order.Fin.Basic
import MokuroBunko.Layout.Geometry

/-! Lines grouped into blocks (`layout/merge.rs`): a union-find over pairs of lines, whose groups
hold every line once.
-/

namespace MokuroBunko.Layout

open MokuroBunko.Lib

-- Bodies and roles

/-- The text body of a page, in its own frame. -/
structure Body (F : Type) where
  vertical : Bool
  theta : F
  em : F
  top : F
  bottom : F
  cross0 : F
  cross1 : F
  gap : F
  /-- The indices of its lines. -/
  members : Finset ℕ

inductive Role where
  | text
  | header
  | footer
  | noise
  deriving DecidableEq

-- Pairs of lines

section Pairs

variable {F : Type} [Floats F]

/-- Whether the sizes and gaps are those of one column that was cut in two. -/
def isStitch (ta tb crossOverlap mainGap : F) (bodyGap : Option F) : Bool :=
  let em := max2 ta tb
  let limit : F := if bodyGap.isNone then stitchMaxGapEm else bodyStitchMaxGapEm
  em / min2 ta tb ≤ stitchMaxSizeRatio && stitchMinCrossOverlap * min2 ta tb ≤ crossOverlap
    && mainGap ≤ limit * em

def isColumnPiece (a b : Line F) (bodyGap : Option F) : Bool :=
  match pairTheta a b with
  | none => false
  | some theta =>
      if a.vertical != b.vertical then false
      else
        let s := a.mainCross theta a.vertical
        let t := b.mainCross theta a.vertical
        if s.hi1 ≤ s.lo1 ∨ t.hi1 ≤ t.lo1 then false
        else
          isStitch (s.hi1 - s.lo1) (t.hi1 - t.lo1) (overlap s.lo1 s.hi1 t.lo1 t.hi1)
            (-overlap s.lo0 s.hi0 t.lo0 t.hi0) bodyGap

/-- Whether the extents along the lines let two lines of one column size share a block. -/
def mergesByGap (em meanT ratio gap startDiff endDiff : F) : Bool :=
  if mergeStaggerEm * em < startDiff ∧ mergeStaggerEm * em < endDiff then false
  else
    let tier1 : F := if mergeMixedSizeRatio < ratio then mergeGapMixedSizeEm else mergeGapEm
    if gap < tier1 * meanT then true
    else if ratio < mergeAlignedSizeRatio ∧ gap < mergeAlignedGapEm * meanT
        ∧ startDiff < mergeAlignedStartEm * em then true
    else gap < mergeLooseGapEm * meanT && startDiff < mergeLooseStartEm * em

/-- Whether two lines belong to one block. -/
def shouldMerge (a b : Line F) (bodyGap bodyTop : Option F) : Bool :=
  if a.vertical != b.vertical then false
  else
    match pairTheta a b with
    | none => false
    | some theta =>
        let s := a.mainCross theta a.vertical
        let t := b.mainCross theta a.vertical
        let ta := s.hi1 - s.lo1
        let tb := t.hi1 - t.lo1
        if ta ≤ 0.0 ∨ tb ≤ 0.0 then false
        else
          let em := max2 ta tb
          let ratio := em / min2 ta tb
          let gap := -overlap s.lo1 s.hi1 t.lo1 t.hi1
          let mainOverlap := overlap s.lo0 s.hi0 t.lo0 t.hi0
          if mergeMaxSizeRatio < ratio then false
          else if isStitch ta tb (-gap) (-mainOverlap) bodyGap then true
          else
            let mainOverlap := match bodyGap, bodyTop with
              | some _, some top => overlap (min2 s.lo0 top) s.hi0 (min2 t.lo0 top) t.hi0
              | _, _ => mainOverlap
            if mainOverlap < mergeMinMainOverlap * min2 (s.hi0 - s.lo0) (t.hi0 - t.lo0) then false
            else
              match bodyGap with
              | some bodyGap => gap < max2 (mergeGapEm * em) (bodyGapFactor * bodyGap)
              | none =>
                  mergesByGap em ((ta + tb) / 2.0) ratio gap (Floats.abs (s.lo0 - t.lo0))
                    (Floats.abs (s.hi0 - t.hi0))

/-- The first body that lists the index. -/
def bodyOf (bodies : List (Body F)) (index : ℕ) : Option (Fin bodies.length) :=
  bodies.findFinIdx? (fun body => index ∈ body.members)

/-- Whether the merger joins two lines. Noise only joins text that it is a piece of. -/
def joined (bodies : List (Body F)) (roles : ℕ → Role) (a b : Line F) : Bool :=
  let roleA := roles a.index
  let roleB := roles b.index
  let bodyA := bodyOf bodies a.index
  let shared := bodyA.isSome && bodyA == bodyOf bodies b.index
  let bodyGap := if shared then bodyA.map (fun k => bodies[k].gap) else none
  let bodyTop := if shared then bodyA.map (fun k => bodies[k].top) else none
  if roleA = .noise ∨ roleB = .noise then
    let pair := (roleA = .noise ∧ roleB = .text) ∨ (roleA = .text ∧ roleB = .noise)
    pair && isColumnPiece a b bodyGap
  else roleA = roleB && shouldMerge a b bodyGap bodyTop

end Pairs

-- Union-find

/-- A parent never comes after its child, so the walk to a root ends. -/
structure Forest (n : ℕ) where
  parent : Fin n → Fin n
  below : ∀ i, parent i ≤ i

namespace Forest

variable {n : ℕ}

def singletons (n : ℕ) : Forest n := ⟨id, fun _ => le_rfl⟩

/-- The node hung below its grandparent. -/
def halve (forest : Forest n) (i : Fin n) : Forest n where
  parent := Function.update forest.parent i (forest.parent (forest.parent i))
  below := by
    intro j
    rcases eq_or_ne j i with same | apart
    · subst same
      rw [Function.update_self]
      exact (forest.below _).trans (forest.below _)
    · rw [Function.update_of_ne apart]
      exact forest.below j

/-- The root of the node, with the path to it halved. -/
def find (forest : Forest n) (i : Fin n) : Forest n × Fin n :=
  if forest.parent i = i then (forest, i)
  else (forest.halve i).find (forest.parent (forest.parent i))
termination_by i
decreasing_by
  rename_i inner
  have first := forest.below i
  have second := forest.below (forest.parent i)
  omega

/-- The later of two roots hung below the earlier. -/
def link (forest : Forest n) (a b : Fin n) : Forest n where
  parent := Function.update forest.parent (max a b) (min a b)
  below := by
    intro j
    rcases eq_or_ne j (max a b) with same | apart
    · subst same
      rw [Function.update_self]
      exact min_le_max
    · rw [Function.update_of_ne apart]
      exact forest.below j

def union (forest : Forest n) (i j : Fin n) : Forest n :=
  let (forest, ri) := forest.find i
  let (forest, rj) := forest.find j
  if ri ≠ rj then forest.link ri rj else forest

end Forest

-- Groups

/-- Every node pushed onto the group of its root. -/
def collectGroups {n : ℕ} (forest : Forest n) (nodes : List (Fin n))
    : Forest n × (Fin n → List (Fin n)) :=
  nodes.foldl (fun state i =>
    let (forest, root) := state.1.find i
    (forest, pushAt state.2 root i)) (forest, fun _ => [])

/-- The groups of places in the lines, by their lowest place. -/
def mergeLines {F : Type} [Floats F] (lines : List (Line F)) (bodies : List (Body F))
    (roles : ℕ → Role) : List (List (Fin lines.length)) :=
  let places := List.finRange lines.length
  let forest := places.foldl (fun forest i =>
    (places.filter (fun j => i < j)).foldl (fun forest j =>
      if joined bodies roles (lines.get i) (lines.get j) then forest.union i j else forest) forest)
    (Forest.singletons lines.length)
  groupsOf places (collectGroups forest places).2

theorem collectGroups_perm {n : ℕ} (forest : Forest n) (nodes : List (Fin n))
    : ((List.finRange n).flatMap (collectGroups forest nodes).2).Perm nodes := by
  induction nodes using List.reverseRecOn with
  | nil => simp [collectGroups]
  | append_singleton nodes node ih =>
      rw [collectGroups, List.foldl_append]
      refine (flatMap_pushAt (List.nodup_finRange n) (List.mem_finRange _)).trans ?_
      exact ih.append_right [node]

theorem mergeLines_perm {F : Type} [Floats F] (lines : List (Line F)) (bodies : List (Body F))
    (roles : ℕ → Role)
    : (mergeLines lines bodies roles).flatten.Perm (List.finRange lines.length) := by
  simp only [mergeLines]
  rw [flatten_groupsOf]
  exact collectGroups_perm _ _

end MokuroBunko.Layout
