import MokuroBunko.Layout.LongestMatch

/-! The edit script: the loop over the queue ends, its blocks are disjoint stretches, and the
opcodes between them tile both sequences and turn the one into the other.
-/

namespace MokuroBunko.Layout

/-- The ranges of a match. -/
def Match.box (found : Match) : Ranges :=
  ⟨found.a, found.a + found.size, found.b, found.b + found.size⟩

/-- In both sequences the one lies before the other. -/
def Ranges.Before (left right : Ranges) : Prop := left.ahi ≤ right.alo ∧ left.bhi ≤ right.blo

def Ranges.Apart (left right : Ranges) : Prop := left.Before right ∨ right.Before left

structure Ranges.Inside (inner outer : Ranges) : Prop where
  alo : outer.alo ≤ inner.alo
  ahi : inner.ahi ≤ outer.ahi
  blo : outer.blo ≤ inner.blo
  bhi : inner.bhi ≤ outer.bhi

theorem Ranges.Apart.symm {left right : Ranges} (apart : left.Apart right)
    : right.Apart left :=
  Or.symm apart

theorem Ranges.Apart.inside {inner outer other : Ranges} (apart : outer.Apart other)
    (inside : inner.Inside outer)
    : inner.Apart other := by
  obtain ⟨alo, ahi, blo, bhi⟩ := inside
  apply apart.imp
  · intro ⟨left, right⟩
    exact ⟨ahi.trans left, bhi.trans right⟩
  · intro ⟨left, right⟩
    exact ⟨left.trans alo, right.trans blo⟩

theorem Ranges.pairwise_apart_split {front back inner : List Ranges} {outer : Ranges}
    (apart : (front ++ outer :: back).Pairwise Ranges.Apart)
    (inside : ∀ ranges ∈ inner, ranges.Inside outer) (split : inner.Pairwise Ranges.Apart)
    : (front ++ (inner ++ back)).Pairwise Ranges.Apart := by
  rw [List.pairwise_append, List.pairwise_cons] at apart
  obtain ⟨fronts, ⟨outer_back, backs⟩, across⟩ := apart
  rw [List.pairwise_append, List.pairwise_append]
  refine ⟨fronts, ⟨split, backs, ?_⟩, ?_⟩
  · intro left left_in right right_in
    exact (outer_back right right_in).inside (inside left left_in)
  · intro left left_in right right_in
    obtain inner_in | back_in := List.mem_append.mp right_in
    · have beside := across left left_in outer List.mem_cons_self
      exact (beside.symm.inside (inside right inner_in)).symm
    · exact across left left_in right (List.mem_cons_of_mem _ back_in)

namespace SequenceMatcher

variable {α : Type*} [DecidableEq α] {a b : List α}

-- The queue

/-- Ranges of the sequences. -/
structure Ranged (a b : List α) (ranges : Ranges) : Prop where
  arow : ranges.alo ≤ ranges.ahi
  brow : ranges.blo ≤ ranges.bhi
  ahi : ranges.ahi ≤ a.length
  bhi : ranges.bhi ≤ b.length

/-- What holds at the head of the loop. -/
structure Ready (a b : List α) (queue : List Ranges) (blocks : List Match) : Prop where
  queued : ∀ ranges ∈ queue, Ranged a b ranges
  positive : ∀ found ∈ blocks, 0 < found.size
  equal : ∀ found ∈ blocks, Stretch a b found
  bounded : ∀ found ∈ blocks, Ranged a b found.box
  apart : (blocks.map Match.box ++ queue).Pairwise Ranges.Apart

/-- The parts of the ranges before and after the match, those that are not empty in a sequence:
what the loop puts on its queue. -/
def rest (ranges : Ranges) (found : Match) : List Ranges :=
  (if found.a + found.size < ranges.ahi ∧ found.b + found.size < ranges.bhi then
    [⟨found.a + found.size, ranges.ahi, found.b + found.size, ranges.bhi⟩] else [])
  ++ if ranges.alo < found.a ∧ ranges.blo < found.b then
    [⟨ranges.alo, found.a, ranges.blo, found.b⟩] else []

theorem collectBlocks_cons (rounds : ℕ) (ranges : Ranges) (queue : List Ranges)
    (blocks : List Match)
    : collectBlocks a b (rounds + 1) (ranges :: queue) blocks
      = if 0 < (findLongestMatch a b ranges).size then
          collectBlocks a b rounds (rest ranges (findLongestMatch a b ranges) ++ queue)
            (blocks ++ [findLongestMatch a b ranges])
        else collectBlocks a b rounds queue blocks := by
  rw [collectBlocks]
  dsimp only [rest]
  split
  · congr 1
    split <;> split <;> rfl
  · rfl

theorem mem_rest {ranges part : Ranges} {found : Match} (within : found.Within ranges)
    (member : part ∈ rest ranges found)
    : part.alo ≤ part.ahi ∧ part.blo ≤ part.bhi ∧ part.Inside ranges
      ∧ part.Apart found.box := by
  obtain ⟨alo, ahi, blo, bhi⟩ := within
  obtain after | before := List.mem_append.mp member
  · split at after
    · rename_i room
      rw [List.mem_singleton.mp after]
      refine ⟨room.1.le, room.2.le, ⟨?_, le_rfl, ?_, le_rfl⟩, Or.inr ⟨le_rfl, le_rfl⟩⟩
      · dsimp only
        omega
      · dsimp only
        omega
    · cases after
  · split at before
    · rename_i room
      rw [List.mem_singleton.mp before]
      refine ⟨room.1.le, room.2.le, ⟨le_rfl, ?_, le_rfl, ?_⟩, Or.inl ⟨le_rfl, le_rfl⟩⟩
      · dsimp only
        omega
      · dsimp only
        omega
    · cases before

theorem rest_pairwise (ranges : Ranges) (found : Match)
    : (rest ranges found).Pairwise Ranges.Apart := by
  apply List.pairwise_append.mpr
  refine ⟨?_, ?_, ?_⟩
  · split
    · exact List.pairwise_singleton _ _
    · exact List.Pairwise.nil
  · split
    · exact List.pairwise_singleton _ _
    · exact List.Pairwise.nil
  · intro after after_in before before_in
    split at after_in
    · split at before_in
      · rw [List.mem_singleton.mp after_in, List.mem_singleton.mp before_in]
        exact Or.inr ⟨Nat.le_add_right _ _, Nat.le_add_right _ _⟩
      · cases before_in
    · cases after_in

omit [DecidableEq α] in
theorem Ready.step {ranges : Ranges} {queue : List Ranges} {blocks : List Match}
    (ready : Ready a b (ranges :: queue) blocks) {found : Match}
    (longest : IsLongest a b ranges found) (positive : 0 < found.size)
    : Ready a b (rest ranges found ++ queue) (blocks ++ [found]) := by
  have within := longest.within
  have outer := ready.queued ranges List.mem_cons_self
  have inner : found.box.Inside ranges := ⟨within.alo, within.ahi, within.blo, within.bhi⟩
  have added : ∀ {property : Match → Prop}, (∀ other ∈ blocks, property other) → property found
      → ∀ other ∈ blocks ++ [found], property other := by
    intro property old new other member
    obtain before | last := List.mem_append.mp member
    · exact old other before
    · rw [List.mem_singleton.mp last]
      exact new
  refine ⟨?_, added ready.positive positive, added ready.equal longest.equal,
    added ready.bounded ⟨Nat.le_add_right _ _, Nat.le_add_right _ _,
      within.ahi.trans outer.ahi, within.bhi.trans outer.bhi⟩, ?_⟩
  · intro part member
    obtain new | old := List.mem_append.mp member
    · obtain ⟨arow, brow, inside, _⟩ := mem_rest within new
      exact ⟨arow, brow, inside.ahi.trans outer.ahi, inside.bhi.trans outer.bhi⟩
    · exact ready.queued part (List.mem_cons_of_mem _ old)
  · rw [List.map_append, List.append_assoc, List.map_singleton]
    have split : (found.box :: rest ranges found).Pairwise Ranges.Apart := by
      apply List.pairwise_cons.mpr
      refine ⟨?_, rest_pairwise ranges found⟩
      intro part member
      exact (mem_rest within member).2.2.2.symm
    have parted := Ranges.pairwise_apart_split ready.apart ?_ split
    · exact parted
    · intro part member
      obtain rfl | new := List.mem_cons.mp member
      · exact inner
      · exact (mem_rest within new).2.2.1

/-- The rounds a queue takes at most. -/
def work : List Ranges → ℕ
  | [] => 0
  | ranges :: queue => 2 * (ranges.ahi - ranges.alo) + 1 + work queue

theorem work_append (left right : List Ranges) : work (left ++ right) = work left + work right := by
  induction left with
  | nil => exact (Nat.zero_add _).symm
  | cons ranges left ih =>
      rw [List.cons_append, work, work, ih]
      omega

theorem work_rest {ranges : Ranges} {found : Match} (within : found.Within ranges)
    (positive : 0 < found.size)
    : work (rest ranges found) ≤ 2 * (ranges.ahi - ranges.alo) := by
  have := within.alo
  have := within.ahi
  unfold rest
  rw [work_append]
  split <;> split <;> simp only [work] <;> omega

theorem collectBlocks_spec {rounds : ℕ} {queue : List Ranges} {blocks : List Match}
    (ready : Ready a b queue blocks) (enough : work queue ≤ rounds)
    : ∃ all, collectBlocks a b rounds queue blocks = some all ∧ Ready a b [] all := by
  induction rounds generalizing queue blocks with
  | zero =>
      cases queue with
      | nil => exact ⟨blocks, rfl, ready⟩
      | cons ranges queue =>
          simp only [work] at enough
          omega
  | succ rounds ih =>
      cases queue with
      | nil => exact ⟨blocks, rfl, ready⟩
      | cons ranges queue =>
          rw [work] at enough
          have ranged := ready.queued ranges List.mem_cons_self
          have longest := findLongestMatch_spec a b ⟨ranged.arow, ranged.brow⟩ ranged.ahi
          rw [collectBlocks_cons]
          generalize findLongestMatch a b ranges = found at longest
          split
          · rename_i positive
            apply ih (ready.step longest positive)
            have := work_rest longest.within positive
            rw [work_append]
            omega
          · apply ih _ (by omega)
            refine ⟨?_, ready.positive, ready.equal, ready.bounded, ?_⟩
            · intro part member
              exact ready.queued part (List.mem_cons_of_mem _ member)
            · exact List.Pairwise.sublist
                (List.Sublist.append_left (List.sublist_cons_self _ _) _) ready.apart

theorem collectBlocks_more {rounds more : ℕ} {queue : List Ranges} {blocks all : List Match}
    (found : collectBlocks a b rounds queue blocks = some all) (enough : rounds ≤ more)
    : collectBlocks a b more queue blocks = some all := by
  induction rounds generalizing more queue blocks with
  | zero =>
      cases queue with
      | nil =>
          rw [collectBlocks] at found ⊢
          exact found
      | cons ranges queue => cases found
  | succ rounds ih =>
      obtain ⟨more, rfl⟩ : ∃ less, more = less + 1 := ⟨more - 1, by omega⟩
      cases queue with
      | nil =>
          rw [collectBlocks] at found ⊢
          exact found
      | cons ranges queue =>
          rw [collectBlocks_cons] at found ⊢
          split
          · rename_i positive
            rw [if_pos positive] at found
            exact ih found (Nat.le_of_succ_le_succ enough)
          · rename_i empty
            rw [if_neg empty] at found
            exact ih found (Nat.le_of_succ_le_succ enough)

-- The blocks

instance : Std.Total matchOrder where
  total left right := by
    unfold matchOrder
    omega

instance : IsTrans Match matchOrder where
  trans left middle right := by
    unfold matchOrder
    omega

/-- Stretches that follow each other from `(i, j)` on. -/
def Runs (a b : List α) : ℕ → ℕ → List Match → Prop
  | i, j, [] => i ≤ a.length ∧ j ≤ b.length
  | i, j, found :: rest =>
      i ≤ found.a ∧ j ≤ found.b ∧ 0 < found.size ∧ Stretch a b found
        ∧ Runs a b (found.a + found.size) (found.b + found.size) rest

/-- What follows does not adjoin. -/
def Loose (i j : ℕ) : List Match → Prop
  | [] => True
  | found :: _ => i < found.a ∨ j < found.b

/-- Stretches that follow each other from `(i, j)` on, none adjoining the one before. -/
def Chained (a b : List α) : ℕ → ℕ → List Match → Prop
  | i, j, [] => i ≤ a.length ∧ j ≤ b.length
  | i, j, found :: rest =>
      i ≤ found.a ∧ j ≤ found.b ∧ 0 < found.size ∧ Stretch a b found
        ∧ Loose (found.a + found.size) (found.b + found.size) rest
        ∧ Chained a b (found.a + found.size) (found.b + found.size) rest

omit [DecidableEq α] in
theorem runs_of_pairwise {i j : ℕ} {blocks : List Match} (row : i ≤ a.length)
    (column : j ≤ b.length)
    (later : ∀ found ∈ blocks, i ≤ found.a ∧ j ≤ found.b)
    (good : ∀ found ∈ blocks, 0 < found.size ∧ Stretch a b found ∧ Ranged a b found.box)
    (before : blocks.Pairwise (fun left right => left.box.Before right.box))
    : Runs a b i j blocks := by
  induction blocks generalizing i j with
  | nil => exact ⟨row, column⟩
  | cons found blocks ih =>
      obtain ⟨first, others⟩ := List.pairwise_cons.mp before
      obtain ⟨positive, equal, ranged⟩ := good found List.mem_cons_self
      obtain ⟨left, right⟩ := later found List.mem_cons_self
      refine ⟨left, right, positive, equal, ?_⟩
      exact ih ranged.ahi ranged.bhi first
        (fun other member => good other (List.mem_cons_of_mem _ member)) others

omit [DecidableEq α] in
theorem Ready.runs {blocks : List Match} (ready : Ready a b [] blocks)
    : Runs a b 0 0 (blocks.insertionSort matchOrder) := by
  have same := List.perm_insertionSort matchOrder blocks
  apply runs_of_pairwise (Nat.zero_le _) (Nat.zero_le _)
  · intro found _
    exact ⟨Nat.zero_le _, Nat.zero_le _⟩
  · intro found member
    have original := same.mem_iff.mp member
    exact ⟨ready.positive found original, ready.equal found original,
      ready.bounded found original⟩
  · have apart : blocks.Pairwise (fun left right => left.box.Apart right.box) := by
      have boxes := ready.apart
      rw [List.append_nil, List.pairwise_map] at boxes
      exact boxes
    have sorted := (same.pairwise_iff (fun other => Ranges.Apart.symm other)).mpr apart
    apply (sorted.and (List.pairwise_insertionSort matchOrder blocks)).imp_of_mem
    intro left right left_in right_in ⟨disjoint, ordered⟩
    obtain before | after := disjoint
    · exact before
    -- the later box comes second in the order, as its stretch is not empty
    · have := ready.positive right (same.mem_iff.mp right_in)
      obtain ⟨above, beside⟩ := after
      unfold matchOrder at ordered
      dsimp only [Match.box] at above beside
      omega

theorem coalesce_head (blocks : List Match) {found : Match} (positive : 0 < found.size)
    : ∃ size rest, coalesce found blocks = ⟨found.a, found.b, size⟩ :: rest := by
  induction blocks generalizing found with
  | nil =>
      rw [coalesce, if_pos positive]
      exact ⟨found.size, [], rfl⟩
  | cons next blocks ih =>
      rw [coalesce]
      split
      · exact ih (Nat.add_pos_left positive _)
      · exact ⟨found.size, _, rfl⟩

omit [DecidableEq α] in
theorem Stretch.append {found next : Match} (equal : Stretch a b found)
    (equal' : Stretch a b next)
    (adjoins : found.a + found.size = next.a ∧ found.b + found.size = next.b)
    : Stretch a b { found with size := found.size + next.size } := by
  intro d small
  obtain inside | beyond := Nat.lt_or_ge d found.size
  · exact equal d inside
  · obtain ⟨e, rfl⟩ := Nat.exists_eq_add_of_le beyond
    have here := equal' e (Nat.lt_of_add_lt_add_left small)
    rw [← adjoins.1, ← adjoins.2, Nat.add_assoc, Nat.add_assoc] at here
    exact here

omit [DecidableEq α] in
theorem coalesce_chained {i j : ℕ} {found : Match} {blocks : List Match}
    (row : i ≤ found.a) (column : j ≤ found.b) (equal : Stretch a b found)
    (runs : Runs a b (found.a + found.size) (found.b + found.size) blocks)
    : Chained a b i j (coalesce found blocks) := by
  induction blocks generalizing i j found with
  | nil =>
      obtain ⟨bound, bound'⟩ := runs
      rw [coalesce]
      split
      · rename_i positive
        exact ⟨row, column, positive, equal, trivial, bound, bound'⟩
      · exact ⟨by omega, by omega⟩
  | cons next blocks ih =>
      obtain ⟨left, right, positive', equal', runs⟩ := runs
      rw [coalesce]
      split
      · rename_i adjoins
        rw [← adjoins.1, ← adjoins.2, Nat.add_assoc, Nat.add_assoc] at runs
        exact @ih i j { found with size := found.size + next.size } row column
          (equal.append equal' adjoins) runs
      · rename_i loose
        split
        · rename_i positive
          refine ⟨row, column, positive, equal, ?_, ih left right equal' runs⟩
          obtain ⟨size, rest, begins⟩ := coalesce_head blocks positive'
          rw [begins]
          change found.a + found.size < next.a ∨ found.b + found.size < next.b
          omega
        · exact ih (by omega) (by omega) equal' runs

theorem matchingBlocks_spec (a b : List α)
    : ∃ blocks, (∀ rounds ≥ 2 * a.length + 1,
        matchingBlocks a b rounds = some (blocks ++ [⟨a.length, b.length, 0⟩]))
      ∧ Chained a b 0 0 blocks := by
  have ready : Ready a b [⟨0, a.length, 0, b.length⟩] [] := by
    refine ⟨?_, ?_, ?_, ?_, List.pairwise_singleton _ _⟩
    · intro ranges member
      rw [List.mem_singleton.mp member]
      exact ⟨Nat.zero_le _, Nat.zero_le _, le_rfl, le_rfl⟩
    all_goals
      intro found member
      cases member
  obtain ⟨all, collected, final⟩ :=
    collectBlocks_spec ready (le_refl (2 * (a.length - 0) + 1 + 0))
  refine ⟨coalesce ⟨0, 0, 0⟩ (all.insertionSort matchOrder), ?_, ?_⟩
  · intro rounds enough
    rw [matchingBlocks, collectBlocks_more collected enough]
    rfl
  · exact coalesce_chained le_rfl le_rfl (fun d small => absurd small (Nat.not_lt_zero d))
      final.runs

-- The opcodes

def slice (sequence : List α) (start stop : ℕ) : List α :=
  (sequence.drop start).take (stop - start)

/-- What an opcode's tag says of its stretches. -/
def Sound (a b : List α) (op : Opcode) : Prop :=
  match op.tag with
  | .replace => op.i1 < op.i2 ∧ op.j1 < op.j2
  | .delete => op.i1 < op.i2 ∧ op.j1 = op.j2
  | .insert => op.i1 = op.i2 ∧ op.j1 < op.j2
  | .equal => op.i1 < op.i2 ∧ op.j1 < op.j2 ∧ slice a op.i1 op.i2 = slice b op.j1 op.j2

/-- The opcodes tile the sequences from `(i, j)` to the ends. -/
def Tiles (a b : List α) : ℕ → ℕ → List Opcode → Prop
  | i, j, [] => i = a.length ∧ j = b.length
  | i, j, op :: ops =>
      op.i1 = i ∧ op.j1 = j ∧ i ≤ op.i2 ∧ j ≤ op.j2 ∧ Tiles a b op.i2 op.j2 ops

/-- The edit of `a`: what is equal is kept, what is replaced or inserted is taken from `b`. -/
def replay (a b : List α) : List Opcode → List α
  | [] => []
  | op :: ops =>
      (match op.tag with
        | .equal => slice a op.i1 op.i2
        | .delete => []
        | .replace | .insert => slice b op.j1 op.j2)
      ++ replay a b ops

omit [DecidableEq α] in
theorem Stretch.slices {found : Match} (equal : Stretch a b found)
    : slice a found.a (found.a + found.size) = slice b found.b (found.b + found.size) := by
  unfold slice
  rw [Nat.add_sub_cancel_left, Nat.add_sub_cancel_left]
  apply List.ext_getElem?
  intro d
  rw [List.getElem?_take, List.getElem?_take, List.getElem?_drop, List.getElem?_drop]
  split
  · rename_i small
    obtain ⟨element, left, right⟩ := equal d small
    rw [left, right]
  · rfl

/-- What lies between two blocks is nothing or one opcode that is not `equal`. -/
inductive Gap (a b : List α) (i j : ℕ) (block : Match) : List Opcode → Prop where
  | empty (row : i = block.a) (column : j = block.b) : Gap a b i j block []
  | between (tag : Tag) (unequal : tag ≠ .equal)
      (sound : Sound a b ⟨tag, i, block.a, j, block.b⟩)
      : Gap a b i j block [⟨tag, i, block.a, j, block.b⟩]

omit [DecidableEq α] in
theorem gap_spec (a b : List α) {i j : ℕ} {block : Match} (row : i ≤ block.a)
    (column : j ≤ block.b)
    : Gap a b i j block (gap i j block) := by
  unfold gap
  split
  · rename_i both
    exact .between .replace (fun same => by cases same) both
  · split
    · rename_i left
      exact .between .delete (fun same => by cases same) ⟨left, by dsimp only; omega⟩
    · split
      · rename_i right
        exact .between .insert (fun same => by cases same) ⟨by dsimp only; omega, right⟩
      · exact .empty (by omega) (by omega)

omit [DecidableEq α] in
theorem opcodesFrom_end (i j : ℕ)
    : opcodesFrom i j [⟨a.length, b.length, 0⟩] = gap i j ⟨a.length, b.length, 0⟩ := by
  rw [opcodesFrom, if_neg (Nat.lt_irrefl 0), opcodesFrom, List.append_nil, List.append_nil]

theorem opcodesFrom_cons {i j : ℕ} {found : Match} (positive : 0 < found.size)
    (blocks : List Match)
    : opcodesFrom i j (found :: blocks)
      = gap i j found ++ ⟨.equal, found.a, found.a + found.size, found.b, found.b + found.size⟩
        :: opcodesFrom (found.a + found.size) (found.b + found.size) blocks := by
  rw [opcodesFrom, if_pos positive, List.append_assoc]
  rfl

omit [DecidableEq α] in
theorem opcodesFrom_tiles {i j : ℕ} {blocks : List Match} (chained : Chained a b i j blocks)
    : Tiles a b i j (opcodesFrom i j (blocks ++ [⟨a.length, b.length, 0⟩])) := by
  induction blocks generalizing i j with
  | nil =>
      obtain ⟨row, column⟩ := chained
      rw [List.nil_append, opcodesFrom_end]
      have spec := @gap_spec _ a b i j ⟨a.length, b.length, 0⟩ row column
      generalize gap i j ⟨a.length, b.length, 0⟩ = ops at spec
      cases spec with
      | empty row column => exact ⟨row, column⟩
      | between tag _ _ => exact ⟨rfl, rfl, row, column, rfl, rfl⟩
  | cons found blocks ih =>
      obtain ⟨row, column, positive, equal, loose, chained⟩ := chained
      rw [List.cons_append, opcodesFrom_cons positive]
      have spec := gap_spec a b row column
      have tail := ih chained
      have left := Nat.le_add_right found.a found.size
      have right := Nat.le_add_right found.b found.size
      generalize gap i j found = ops at spec
      cases spec with
      | empty row column => exact ⟨row.symm, column.symm, row ▸ left, column ▸ right, tail⟩
      | between tag _ _ => exact ⟨rfl, rfl, row, column, rfl, rfl, left, right, tail⟩

omit [DecidableEq α] in
theorem opcodesFrom_sound {i j : ℕ} {blocks : List Match} (chained : Chained a b i j blocks)
    : ∀ op ∈ opcodesFrom i j (blocks ++ [⟨a.length, b.length, 0⟩]), Sound a b op := by
  have gaps : ∀ {i j : ℕ} {block : Match}, i ≤ block.a → j ≤ block.b
      → ∀ op ∈ gap i j block, Sound a b op := by
    intro i j block row column op member
    have spec := gap_spec a b row column
    generalize gap i j block = ops at spec member
    cases spec with
    | empty _ _ => cases member
    | between tag unequal sound =>
        rw [List.mem_singleton.mp member]
        exact sound
  induction blocks generalizing i j with
  | nil =>
      rw [List.nil_append, opcodesFrom_end]
      exact gaps chained.1 chained.2
  | cons found blocks ih =>
      obtain ⟨row, column, positive, equal, loose, chained⟩ := chained
      rw [List.cons_append, opcodesFrom_cons positive]
      intro op member
      obtain between | member := List.mem_append.mp member
      · exact gaps row column op between
      · obtain rfl | later := List.mem_cons.mp member
        · exact ⟨Nat.lt_add_of_pos_right positive, Nat.lt_add_of_pos_right positive,
            equal.slices⟩
        · exact ih chained op later

theorem isChain_tag_cons {tag : Tag} {ops : List Opcode}
    (tail : (ops.map Opcode.tag).IsChain (· ≠ ·)) (head : ∀ op ∈ ops.head?, tag ≠ op.tag)
    : (tag :: ops.map Opcode.tag).IsChain (· ≠ ·) := by
  cases ops with
  | nil => exact List.IsChain.singleton tag
  | cons op ops => exact List.IsChain.cons_cons (head op rfl) tail

omit [DecidableEq α] in
theorem opcodesFrom_tags {i j : ℕ} {blocks : List Match} (chained : Chained a b i j blocks)
    : ((opcodesFrom i j (blocks ++ [⟨a.length, b.length, 0⟩])).map Opcode.tag).IsChain (· ≠ ·)
      ∧ (Loose i j blocks → ∀ op ∈ (opcodesFrom i j (blocks ++ [⟨a.length, b.length, 0⟩])).head?,
        op.tag ≠ .equal) := by
  induction blocks generalizing i j with
  | nil =>
      rw [List.nil_append, opcodesFrom_end]
      have spec := @gap_spec _ a b i j ⟨a.length, b.length, 0⟩ chained.1 chained.2
      generalize gap i j ⟨a.length, b.length, 0⟩ = ops at spec
      cases spec with
      | empty _ _ =>
          refine ⟨List.IsChain.nil, ?_⟩
          intro _ op member
          cases member
      | between tag unequal _ =>
          refine ⟨List.IsChain.singleton tag, ?_⟩
          intro _ op member
          rw [← Option.some.inj member]
          exact unequal
  | cons found blocks ih =>
      obtain ⟨row, column, positive, equal, loose, chained⟩ := chained
      rw [List.cons_append, opcodesFrom_cons positive]
      obtain ⟨tail, head⟩ := ih chained
      -- the block's own opcode before the rest
      have matched : ∀ first : Opcode, first.tag = .equal → ((first :: opcodesFrom
          (found.a + found.size) (found.b + found.size)
          (blocks ++ [⟨a.length, b.length, 0⟩])).map Opcode.tag).IsChain (· ≠ ·) := by
        intro first same
        apply isChain_tag_cons tail
        intro op begins
        rw [same]
        exact (head loose op begins).symm
      have spec := gap_spec a b row column
      generalize gap i j found = ops at spec
      cases spec with
      | empty row column =>
          refine ⟨matched _ rfl, ?_⟩
          intro apart
          dsimp only [Loose] at apart
          omega
      | between tag unequal _ =>
          refine ⟨isChain_tag_cons (matched _ rfl) ?_, ?_⟩
          · intro next begins
            rw [← Option.some.inj begins]
            exact unequal
          · intro _ op member
            rw [← Option.some.inj member]
            exact unequal

omit [DecidableEq α] in
theorem append_slice {start stop : ℕ} (ordered : start ≤ stop)
    : slice b start stop ++ b.drop stop = b.drop start := by
  have joined := List.take_append_drop (stop - start) (b.drop start)
  rw [List.drop_drop, Nat.add_sub_cancel' ordered] at joined
  exact joined

omit [DecidableEq α] in
theorem replay_eq {i j : ℕ} {ops : List Opcode} (tiles : Tiles a b i j ops)
    (sound : ∀ op ∈ ops, Sound a b op)
    : replay a b ops = b.drop j := by
  induction ops generalizing i j with
  | nil =>
      rw [tiles.2, List.drop_length]
      rfl
  | cons op ops ih =>
      obtain ⟨rfl, rfl, _, ordered, tiles⟩ := tiles
      have here := sound op List.mem_cons_self
      rw [← append_slice ordered,
        ← ih tiles (fun other member => sound other (List.mem_cons_of_mem _ member)), replay]
      unfold Sound at here
      split
      · rename_i tagged
        rw [tagged] at here
        rw [here.2.2]
      · rename_i tagged
        rw [tagged] at here
        have empty : slice b op.j1 op.j2 = [] := by
          unfold slice
          rw [here.2, Nat.sub_self, List.take_zero]
        rw [empty]
      · rfl
      · rfl

/-- The edit script: whatever the rounds, if they are enough, one script comes out. Its opcodes
tile both sequences, each is what its tag says, no two neighbours have the same tag, and its
replay is the second sequence; and the match found in any ranges is a longest one. -/
theorem edit_script (a b : List α)
    : (∃ ops, (∀ rounds ≥ 2 * a.length + 1, opcodes a b rounds = some ops)
        ∧ Tiles a b 0 0 ops ∧ (∀ op ∈ ops, Sound a b op)
        ∧ (ops.map Opcode.tag).IsChain (· ≠ ·) ∧ replay a b ops = b)
      ∧ ∀ ranges, Ranged a b ranges → IsLongest a b ranges (findLongestMatch a b ranges) := by
  obtain ⟨blocks, found, chained⟩ := matchingBlocks_spec a b
  have tiles := opcodesFrom_tiles chained
  have sound := opcodesFrom_sound chained
  refine ⟨⟨_, ?_, tiles, sound, (opcodesFrom_tags chained).1, replay_eq tiles sound⟩, ?_⟩
  · intro rounds enough
    rw [opcodes, found rounds enough, Option.map_some]
  · intro ranges ranged
    exact findLongestMatch_spec a b ⟨ranged.arow, ranged.brow⟩ ranged.ahi

theorem edit_script_replace
    : Ranged "ab".toList "cb".toList ⟨0, 2, 0, 2⟩
      ∧ IsLongest "ab".toList "cb".toList ⟨0, 2, 0, 2⟩ ⟨1, 1, 1⟩ :=
  have ranged : Ranged "ab".toList "cb".toList ⟨0, 2, 0, 2⟩ :=
    ⟨by decide, by decide, by decide, by decide⟩
  ⟨ranged, (edit_script "ab".toList "cb".toList).2 ⟨0, 2, 0, 2⟩ ranged⟩

end SequenceMatcher

end MokuroBunko.Layout
