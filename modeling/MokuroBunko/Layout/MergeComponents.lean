import Mathlib.Logic.Relation
import MokuroBunko.Layout.Merge

/-! The groups of the merger are the connected components of the pairs it joins, in whatever order
the pairs are united (`layout/merge.rs`).
-/

namespace MokuroBunko.Layout

open MokuroBunko.Lib

namespace Forest

variable {n : ℕ} {forest : Forest n}

-- Roots

/-- The root of the node, with nothing halved on the way. -/
def rootOf (forest : Forest n) (i : Fin n) : Fin n :=
  if forest.parent i = i then i else forest.rootOf (forest.parent i)
termination_by i
decreasing_by
  rename_i inner
  have first := forest.below i
  omega

theorem rootOf_root {i : Fin n} (isRoot : forest.parent i = i) : forest.rootOf i = i := by
  rw [rootOf, if_pos isRoot]

theorem rootOf_parent (forest : Forest n) (i : Fin n)
    : forest.rootOf (forest.parent i) = forest.rootOf i := by
  by_cases isRoot : forest.parent i = i
  · rw [isRoot]
  · have step : forest.rootOf i = forest.rootOf (forest.parent i) := by
      rw [rootOf, if_neg isRoot]
    exact step.symm

theorem climb {motive : Fin n → Prop} (forest : Forest n)
    (root : ∀ i, forest.parent i = i → motive i)
    (child : ∀ i, forest.parent i ≠ i → motive (forest.parent i) → motive i)
    (i : Fin n)
    : motive i := by
  induction i using WellFoundedLT.induction with
  | ind i ih =>
      by_cases isRoot : forest.parent i = i
      · exact root i isRoot
      · exact child i isRoot (ih _ (lt_of_le_of_ne (forest.below i) isRoot))

theorem parent_rootOf (forest : Forest n) (i : Fin n)
    : forest.parent (forest.rootOf i) = forest.rootOf i := by
  induction i using forest.climb with
  | root i isRoot => rw [rootOf_root isRoot, isRoot]
  | child i _ ih => rwa [rootOf_parent] at ih

theorem rootOf_le (forest : Forest n) (i : Fin n) : forest.rootOf i ≤ i := by
  induction i using forest.climb with
  | root i isRoot => rw [rootOf_root isRoot]
  | child i _ ih =>
      rw [rootOf_parent] at ih
      exact ih.trans (forest.below i)

theorem rootOf_rootOf (forest : Forest n) (i : Fin n)
    : forest.rootOf (forest.rootOf i) = forest.rootOf i :=
  rootOf_root (forest.parent_rootOf i)

theorem rootOf_halve (forest : Forest n) (i j : Fin n)
    : (forest.halve i).rootOf j = forest.rootOf j := by
  induction j using (forest.halve i).climb with
  | root j isRoot =>
      rw [rootOf_root isRoot]
      by_cases same : j = i
      · subst same
        have grand : forest.parent (forest.parent j) = j := by
          simpa [halve] using isRoot
        have above := forest.below j
        have further := forest.below (forest.parent j)
        rw [grand] at further
        rw [rootOf_root (le_antisymm above further)]
      · have kept : forest.parent j = j := by
          simpa [halve, Function.update_of_ne same] using isRoot
        rw [rootOf_root kept]
  | child j _ ih =>
      rw [← rootOf_parent, ih]
      by_cases same : j = i
      · subst same
        simp only [halve, Function.update_self]
        rw [rootOf_parent, rootOf_parent]
      · simp only [halve, Function.update_of_ne same]
        rw [rootOf_parent]

theorem find_spec (forest : Forest n) (i : Fin n)
    : (forest.find i).2 = forest.rootOf i
      ∧ ∀ j, (forest.find i).1.rootOf j = forest.rootOf j := by
  fun_induction find forest i with
  | case1 forest i isRoot => exact ⟨(rootOf_root isRoot).symm, fun _ => rfl⟩
  | case2 forest i inner ih =>
      refine ⟨?_, fun j => ?_⟩
      · rw [ih.1, rootOf_halve, rootOf_parent, rootOf_parent]
      · rw [ih.2, rootOf_halve]

theorem rootOf_link {a b : Fin n} (isRoot : forest.parent a = a) (isRoot' : forest.parent b = b)
    (j : Fin n)
    : (forest.link a b).rootOf j
      = if forest.rootOf j = a ∨ forest.rootOf j = b then min a b else forest.rootOf j := by
  have minRoot : forest.parent (min a b) = min a b := by
    rcases min_choice a b with same | same
    · rwa [same]
    · rwa [same]
  have maxRoot : forest.parent (max a b) = max a b := by
    rcases max_choice a b with same | same
    · rwa [same]
    · rwa [same]
  have linkedMin : (forest.link a b).rootOf (min a b) = min a b := by
    apply rootOf_root
    by_cases same : min a b = max a b
    · simp [link, ← same]
    · simp only [link]
      rw [Function.update_of_ne same, minRoot]
  have either {root : Fin n} : (root = a ∨ root = b) ↔ (root = max a b ∨ root = min a b) := by
    rcases le_total a b with le | le
    · rw [max_eq_right le, min_eq_left le, or_comm]
    · rw [max_eq_left le, min_eq_right le]
  induction j using forest.climb with
  | root j isRoot =>
      rw [rootOf_root isRoot]
      by_cases same : j = max a b
      · subst same
        rw [if_pos (either.mpr (.inl rfl)), ← rootOf_parent]
        simp only [link, Function.update_self]
        exact linkedMin
      · by_cases isMin : j = min a b
        · rw [if_pos (either.mpr (.inr isMin)), isMin, linkedMin]
        · rw [if_neg (fun is => (either.mp is).elim same isMin)]
          apply rootOf_root
          simp only [link]
          rw [Function.update_of_ne same, isRoot]
  | child j inner ih =>
      have same : j ≠ max a b := by
        rintro rfl
        exact inner maxRoot
      have parent : (forest.link a b).parent j = forest.parent j := by
        simp only [link]
        rw [Function.update_of_ne same]
      rw [← rootOf_parent, parent, ih, rootOf_parent]

theorem rootOf_union (forest : Forest n) (i j k : Fin n)
    : (forest.union i j).rootOf k
      = if forest.rootOf k = forest.rootOf i ∨ forest.rootOf k = forest.rootOf j then
          min (forest.rootOf i) (forest.rootOf j)
        else forest.rootOf k := by
  obtain ⟨first, kept⟩ := forest.find_spec i
  obtain ⟨second, kept'⟩ := (forest.find i).1.find_spec j
  simp only [union]
  rw [first, second, kept]
  have still (k : Fin n) : ((forest.find i).1.find j).1.rootOf k = forest.rootOf k := by
    rw [kept', kept]
  have isRoot (k : Fin n) : ((forest.find i).1.find j).1.parent (forest.rootOf k)
      = forest.rootOf k := by
    rw [← still, parent_rootOf]
  by_cases apart : forest.rootOf i = forest.rootOf j
  · rw [if_neg (not_not_intro apart), still]
    split
    case isTrue either =>
      rw [apart, min_self]
      exact either.elim (fun same => same.trans apart) id
    case isFalse => rfl
  · rw [if_pos apart, rootOf_link (isRoot i) (isRoot j), still]

-- Components

/-- Two nodes have one root exactly if they are connected by the pairs, and the root is the first
of them. -/
def Represents (forest : Forest n) (pairs : List (Fin n × Fin n)) : Prop :=
  ∀ i j, forest.rootOf i = forest.rootOf j ↔ Relation.EqvGen (fun a b => (a, b) ∈ pairs) i j

theorem represents_singletons : (singletons n).Represents [] := by
  have alone (i : Fin n) : (singletons n).rootOf i = i := rootOf_root rfl
  intro i j
  rw [alone, alone]
  constructor
  · rintro rfl
    exact .refl i
  · intro connected
    induction connected with
    | rel _ _ related => cases related
    | refl => rfl
    | symm _ _ _ ih => exact ih.symm
    | trans _ _ _ _ _ first second => exact first.trans second

theorem Represents.union {pairs : List (Fin n × Fin n)} (represents : forest.Represents pairs)
    (a b : Fin n)
    : (forest.union a b).Represents (pairs ++ [(a, b)]) := by
  have mono {i j : Fin n} (connected : Relation.EqvGen (fun a b => (a, b) ∈ pairs) i j)
      : Relation.EqvGen (fun i j => (i, j) ∈ pairs ++ [(a, b)]) i j :=
    connected.mono (fun _ _ related => List.mem_append_left _ related)
  have united : Relation.EqvGen (fun i j => (i, j) ∈ pairs ++ [(a, b)]) a b :=
    .rel _ _ (List.mem_append_right _ (List.mem_singleton_self _))
  intro i j
  constructor
  · intro same
    -- a node whose root was that of `a` or `b` is connected to `a`
    have toA {k : Fin n}
        (either : forest.rootOf k = forest.rootOf a ∨ forest.rootOf k = forest.rootOf b)
        : Relation.EqvGen (fun i j => (i, j) ∈ pairs ++ [(a, b)]) k a := by
      rcases either with root | root
      · exact mono ((represents k a).mp root)
      · exact (mono ((represents k b).mp root)).trans _ _ _ united.symm
    have old {k : Fin n}
        (neither : ¬ (forest.rootOf k = forest.rootOf a ∨ forest.rootOf k = forest.rootOf b))
        : forest.rootOf k ≠ min (forest.rootOf a) (forest.rootOf b) := by
      intro isMin
      rcases min_choice (forest.rootOf a) (forest.rootOf b) with which | which
      · exact neither (.inl (isMin.trans which))
      · exact neither (.inr (isMin.trans which))
    rw [rootOf_union, rootOf_union] at same
    split at same
    case isTrue either =>
      split at same
      case isTrue either' => exact (toA either).trans _ _ _ (toA either').symm
      case isFalse neither => exact absurd same.symm (old neither)
    case isFalse neither =>
      split at same
      case isTrue => exact absurd same (old neither)
      case isFalse => exact mono ((represents i j).mp same)
  · intro connected
    induction connected with
    | rel i j related =>
        rw [rootOf_union, rootOf_union]
        rcases List.mem_append.mp related with before | new
        · rw [(represents i j).mpr (.rel _ _ before)]
        · obtain ⟨rfl, rfl⟩ := Prod.mk.inj (List.mem_singleton.mp new)
          rw [if_pos (.inl rfl), if_pos (.inr rfl)]
    | refl => rfl
    | symm _ _ _ ih => exact ih.symm
    | trans _ _ _ _ _ first second => exact first.trans second

theorem Represents.rootOf_eq {other : Forest n} {pairs pairs' : List (Fin n × Fin n)}
    (represents : forest.Represents pairs) (represents' : other.Represents pairs')
    (same : ∀ pair, pair ∈ pairs ↔ pair ∈ pairs') (i : Fin n)
    : forest.rootOf i = other.rootOf i := by
  have alike (i j : Fin n) : forest.rootOf i = forest.rootOf j ↔ other.rootOf i = other.rootOf j := by
    rw [represents i j, represents' i j]
    simp only [same]
  apply le_antisymm
  · have root := (alike i (other.rootOf i)).mpr (other.rootOf_rootOf i).symm
    rw [root]
    exact forest.rootOf_le _
  · have root := (alike i (forest.rootOf i)).mp (forest.rootOf_rootOf i).symm
    rw [root]
    exact other.rootOf_le _

/-- The pairs united one after another. -/
def unite (pairs : List (Fin n × Fin n)) : Forest n :=
  pairs.foldl (fun forest pair => forest.union pair.1 pair.2) (singletons n)

theorem represents_unite (pairs : List (Fin n × Fin n)) : (unite pairs).Represents pairs := by
  induction pairs using List.reverseRecOn with
  | nil => exact represents_singletons
  | append_singleton pairs pair ih =>
      rw [unite, List.foldl_append]
      exact ih.union pair.1 pair.2

-- Parent tables

/-- The loop of `find` on a parent table of which nothing is known, with a bound on its turns. -/
def findIn : ℕ → (Fin n → Fin n) → Fin n → Option ((Fin n → Fin n) × Fin n)
  | 0, _, _ => none
  | turns + 1, parent, i =>
      if parent i = i then some (parent, i)
      else
        let grand := parent (parent i)
        findIn turns (Function.update parent i grand) grand

/-- The parent tables that finds and unions lead to. -/
inductive Reached : (Fin n → Fin n) → Prop
  | begun : Reached id
  | found {parent parent' : Fin n → Fin n} {turns : ℕ} {i root : Fin n} (reached : Reached parent)
    (looked : findIn turns parent i = some (parent', root))
    : Reached parent'
  | linked {parent : Fin n → Fin n} {i j : Fin n} (reached : Reached parent)
    (isRoot : parent i = i) (isRoot' : parent j = j)
    : Reached (Function.update parent (max i j) (min i j))

theorem findIn_forest (forest : Forest n) (i : Fin n)
    : ∃ turns, findIn turns forest.parent i
      = some ((forest.find i).1.parent, (forest.find i).2) := by
  fun_induction find forest i with
  | case1 forest i isRoot => exact ⟨1, by rw [findIn, if_pos isRoot]⟩
  | case2 forest i inner ih =>
      obtain ⟨turns, looked⟩ := ih
      refine ⟨turns + 1, ?_⟩
      rw [findIn, if_neg inner]
      exact looked

theorem findIn_mono {turns more : ℕ} {parent : Fin n → Fin n} {i : Fin n}
    {result : (Fin n → Fin n) × Fin n} (looked : findIn turns parent i = some result)
    (le : turns ≤ more)
    : findIn more parent i = some result := by
  induction turns generalizing more parent i with
  | zero => cases looked
  | succ turns ih =>
      obtain ⟨more, rfl⟩ := Nat.exists_eq_add_of_le' (Nat.one_le_iff_ne_zero.mpr
        (Nat.ne_of_gt (Nat.lt_of_lt_of_le (Nat.succ_pos turns) le)))
      rw [findIn] at looked ⊢
      split at looked
      case isTrue isRoot =>
        rw [if_pos isRoot, looked]
      case isFalse inner =>
        rw [if_neg inner]
        exact ih looked (by omega)

theorem Reached.isForest {parent : Fin n → Fin n} (reached : Reached parent)
    : ∃ forest : Forest n, forest.parent = parent := by
  induction reached with
  | begun => exact ⟨singletons n, rfl⟩
  | @found _ _ turns i _ _ looked ih =>
      obtain ⟨forest, rfl⟩ := ih
      obtain ⟨enough, ended⟩ := forest.findIn_forest i
      have one := findIn_mono looked (le_max_left turns enough)
      rw [findIn_mono ended (le_max_right turns enough)] at one
      exact ⟨_, congrArg Prod.fst (Option.some.inj one)⟩
  | @linked _ i j _ _ _ ih =>
      obtain ⟨forest, rfl⟩ := ih
      exact ⟨forest.link i j, rfl⟩

end Forest

-- Groups

theorem collectGroups_spec {n : ℕ} (forest : Forest n) (nodes : List (Fin n))
    : (∀ i, (collectGroups forest nodes).1.rootOf i = forest.rootOf i)
      ∧ ∀ root, (collectGroups forest nodes).2 root
        = nodes.filter (fun i => forest.rootOf i = root) := by
  induction nodes using List.reverseRecOn with
  | nil => exact ⟨fun _ => rfl, fun _ => rfl⟩
  | append_singleton nodes node ih =>
      obtain ⟨roots, groups⟩ := ih
      obtain ⟨found, kept⟩ := (collectGroups forest nodes).1.find_spec node
      have step : collectGroups forest (nodes ++ [node])
          = (((collectGroups forest nodes).1.find node).1,
            pushAt (collectGroups forest nodes).2
              ((collectGroups forest nodes).1.find node).2 node) := by
        rw [collectGroups, List.foldl_append]
        rfl
      rw [step, found, roots]
      refine ⟨fun i => (kept i).trans (roots i), fun root => ?_⟩
      rw [List.filter_append]
      show pushAt (collectGroups forest nodes).2 (forest.rootOf node) node root = _
      by_cases same : root = forest.rootOf node
      · subst same
        rw [pushAt, Function.update_self, groups]
        simp
      · rw [pushAt, Function.update_of_ne same, groups]
        simp [Ne.symm same]

/-- The groups of nodes that pairs united one after another make. -/
def groupsOfPairs {n : ℕ} (pairs : List (Fin n × Fin n)) : List (List (Fin n)) :=
  groupsOf (List.finRange n) (collectGroups (Forest.unite pairs) (List.finRange n)).2

theorem mem_groupsOfPairs {n : ℕ} {pairs : List (Fin n × Fin n)} {group : List (Fin n)}
    : group ∈ groupsOfPairs pairs ↔ group ≠ [] ∧ ∃ root, group
      = (List.finRange n).filter (fun i => (Forest.unite pairs).rootOf i = root) := by
  have groups := (collectGroups_spec (Forest.unite pairs) (List.finRange n)).2
  unfold groupsOfPairs groupsOf
  rw [List.mem_filter, List.mem_map]
  simp only [groups, List.mem_finRange, true_and, Bool.not_eq_true', List.isEmpty_eq_false_iff]
  constructor
  · rintro ⟨⟨root, same⟩, inhabited⟩
    exact ⟨inhabited, root, same.symm⟩
  · rintro ⟨inhabited, root, same⟩
    exact ⟨⟨root, same.symm⟩, inhabited⟩

theorem groupsOfPairs_congr {n : ℕ} {pairs pairs' : List (Fin n × Fin n)}
    (same : ∀ pair, pair ∈ pairs ↔ pair ∈ pairs')
    : groupsOfPairs pairs = groupsOfPairs pairs' := by
  have groups := (collectGroups_spec (Forest.unite pairs) (List.finRange n)).2
  have groups' := (collectGroups_spec (Forest.unite pairs') (List.finRange n)).2
  unfold groupsOfPairs
  congr 1
  funext root
  rw [groups, groups']
  simp only [(Forest.represents_unite pairs).rootOf_eq (Forest.represents_unite pairs') same]

theorem together_iff {n : ℕ} {pairs : List (Fin n × Fin n)} {i j : Fin n}
    : (∃ group ∈ groupsOfPairs pairs, i ∈ group ∧ j ∈ group)
      ↔ Relation.EqvGen (fun a b => (a, b) ∈ pairs) i j := by
  rw [← Forest.represents_unite pairs i j]
  constructor
  · rintro ⟨group, isGroup, first, second⟩
    obtain ⟨-, root, rfl⟩ := mem_groupsOfPairs.mp isGroup
    rw [List.mem_filter, decide_eq_true_eq] at first second
    rw [first.2, second.2]
  · intro same
    have isFirst : i ∈ (List.finRange n).filter (fun k =>
        (Forest.unite pairs).rootOf k = (Forest.unite pairs).rootOf j) := by
      simp [same]
    exact ⟨_, mem_groupsOfPairs.mpr ⟨List.ne_nil_of_mem isFirst, _, rfl⟩, isFirst, by simp⟩

-- Lines

variable {F : Type} [Floats F]

/-- The merger joins the lines at the two places, the first before the second. -/
def MayMerge (lines : List (Line F)) (bodies : List (Body F)) (roles : ℕ → Role)
    (i j : Fin lines.length) : Prop :=
  i < j ∧ joined bodies roles (lines.get i) (lines.get j) = true

/-- The pairs of places that are united, in the order of the loops. -/
def joinedPairs (lines : List (Line F)) (bodies : List (Body F)) (roles : ℕ → Role)
    : List (Fin lines.length × Fin lines.length) :=
  (List.finRange lines.length).flatMap (fun i =>
    (((List.finRange lines.length).filter (fun j => i < j)).filter (fun j =>
      joined bodies roles (lines.get i) (lines.get j))).map (fun j => (i, j)))

theorem mem_joinedPairs {lines : List (Line F)} {bodies : List (Body F)} {roles : ℕ → Role}
    {i j : Fin lines.length}
    : (i, j) ∈ joinedPairs lines bodies roles ↔ MayMerge lines bodies roles i j := by
  simp [joinedPairs, MayMerge, and_comm]

theorem mergeLines_eq (lines : List (Line F)) (bodies : List (Body F)) (roles : ℕ → Role)
    : mergeLines lines bodies roles = groupsOfPairs (joinedPairs lines bodies roles) := by
  simp only [mergeLines, groupsOfPairs, Forest.unite, joinedPairs, List.foldl_flatMap,
    List.foldl_map, List.foldl_filter]

/-- Every line is in one group; two lines are in one group exactly if they are connected by pairs
the merger joins; the order of the pairs does not matter; and in every parent table that finds
and unions lead to, `find` ends. -/
theorem merge_groups_are_components (lines : List (Line F)) (bodies : List (Body F))
    (roles : ℕ → Role)
    : ((mergeLines lines bodies roles).flatten.Perm (List.finRange lines.length)
        ∧ (∀ group ∈ mergeLines lines bodies roles, group ≠ [])
        ∧ ∀ i j, (∃ group ∈ mergeLines lines bodies roles, i ∈ group ∧ j ∈ group)
          ↔ Relation.EqvGen (MayMerge lines bodies roles) i j)
      ∧ (∀ pairs, (∀ i j, (i, j) ∈ pairs ↔ MayMerge lines bodies roles i j)
        → groupsOfPairs pairs = mergeLines lines bodies roles)
      ∧ ∀ (n : ℕ) (parent : Fin n → Fin n), Forest.Reached parent
        → ∀ i, ∃ turns result, Forest.findIn turns parent i = some result := by
  refine ⟨⟨mergeLines_perm lines bodies roles, ?_, ?_⟩, ?_, ?_⟩
  · intro group isGroup
    rw [mergeLines_eq] at isGroup
    exact (mem_groupsOfPairs.mp isGroup).1
  · intro i j
    rw [mergeLines_eq, together_iff]
    simp only [mem_joinedPairs]
  · intro pairs members
    rw [mergeLines_eq]
    apply groupsOfPairs_congr
    rintro ⟨i, j⟩
    rw [members, mem_joinedPairs]
  · intro n parent reached i
    obtain ⟨forest, rfl⟩ := reached.isForest
    obtain ⟨turns, ended⟩ := forest.findIn_forest i
    exact ⟨turns, _, ended⟩

end MokuroBunko.Layout
