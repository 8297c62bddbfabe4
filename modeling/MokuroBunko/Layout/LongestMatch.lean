import Mathlib.Algebra.Order.Ring.Nat
import Mathlib.Data.List.Sort
import Mathlib.Logic.Function.Basic

/-! The sequence matcher (`difflib.rs`): the longest match of two ranges, the matching blocks of two
sequences, and the opcodes that turn one into the other. The longest match is longest, and of the
longest the first: the table of the search holds the lengths of the stretches that end in each cell.
-/

namespace MokuroBunko.Layout

inductive Tag where
  | replace
  | delete
  | insert
  | equal
deriving DecidableEq

structure Opcode where
  tag : Tag
  i1 : ℕ
  i2 : ℕ
  j1 : ℕ
  j2 : ℕ
deriving DecidableEq

structure Match where
  a : ℕ
  b : ℕ
  size : ℕ
deriving DecidableEq

/-- A range of each sequence: `(alo, ahi, blo, bhi)`. -/
structure Ranges where
  alo : ℕ
  ahi : ℕ
  blo : ℕ
  bhi : ℕ
deriving DecidableEq

namespace SequenceMatcher

variable {α : Type*} [DecidableEq α] (a b : List α)

/-- `b2j`: the places of an element, ascending. -/
def places (element : α) : List ℕ :=
  (List.range b.length).filter (fun j => b[j]? = some element)

/-- The lengths of the matches that end in a row, and the best match so far. -/
structure Search where
  lengths : ℕ → ℕ
  best : Match

/-- The match that ends at `(i, j)`, by the lengths of the row before. -/
def matchCell (before : ℕ → ℕ) (i : ℕ) (search : Search) (j : ℕ) : Search :=
  let k := (if 0 < j then before (j - 1) else 0) + 1
  {
    lengths := Function.update search.lengths j k
    best := if search.best.size < k then ⟨i + 1 - k, j + 1 - k, k⟩ else search.best
  }

/-- One row: the places of the element in the range of `b`. -/
def matchRow (blo bhi : ℕ) (search : Search) (i : ℕ) : Search :=
  match a[i]? with
  | none => search
  | some element =>
      (((places b element).filter (blo ≤ ·)).takeWhile (· < bhi)).foldl
        (matchCell search.lengths i) { search with lengths := fun _ => 0 }

/-- The first loop after the table: the match taken further to the front. -/
def extendBack (alo blo : ℕ) : ℕ → ℕ → ℕ → Match
  | i + 1, j, size =>
      if alo < i + 1 ∧ blo < j ∧ a[i]? = b[j - 1]? then extendBack alo blo i (j - 1) (size + 1)
      else ⟨i + 1, j, size⟩
  | 0, j, size => ⟨0, j, size⟩

/-- The second loop: the match taken further to the end, at most to the end of the range. -/
def extendForth (bhi : ℕ) : ℕ → Match → Match
  | 0, found => found
  | left + 1, found =>
      if found.b + found.size < bhi ∧ a[found.a + found.size]? = b[found.b + found.size]? then
        extendForth bhi left { found with size := found.size + 1 }
      else found

def findLongestMatch (ranges : Ranges) : Match :=
  let search := (List.range' ranges.alo (ranges.ahi - ranges.alo)).foldl
    (matchRow a b ranges.blo ranges.bhi) ⟨fun _ => 0, ⟨ranges.alo, ranges.blo, 0⟩⟩
  let back := extendBack a b ranges.alo ranges.blo search.best.a search.best.b search.best.size
  extendForth a b ranges.bhi (ranges.ahi - (back.a + back.size)) back

/-- The loop of `matching_blocks`, the queue a stack. Nothing comes out if the rounds run out
before the queue does. -/
def collectBlocks : ℕ → List Ranges → List Match → Option (List Match)
  | _, [], blocks => some blocks
  | 0, _ :: _, _ => none
  | rounds + 1, ranges :: queue, blocks =>
      let found := findLongestMatch a b ranges
      if 0 < found.size then
        let queue :=
          if ranges.alo < found.a ∧ ranges.blo < found.b then
            ⟨ranges.alo, found.a, ranges.blo, found.b⟩ :: queue
          else queue
        let queue :=
          if found.a + found.size < ranges.ahi ∧ found.b + found.size < ranges.bhi then
            ⟨found.a + found.size, ranges.ahi, found.b + found.size, ranges.bhi⟩ :: queue
          else queue
        collectBlocks rounds queue (blocks ++ [found])
      else collectBlocks rounds queue blocks

/-- The order of `Match`: by `a`, `b` and `size`. -/
def matchOrder (left right : Match) : Prop :=
  left.a < right.a ∨ (left.a = right.a
    ∧ (left.b < right.b ∨ (left.b = right.b ∧ left.size ≤ right.size)))

instance : DecidableRel matchOrder :=
  fun _ _ => inferInstanceAs (Decidable (_ ∨ _))

/-- Blocks that adjoin become one. `found` is the block not yet put out. -/
def coalesce (found : Match) : List Match → List Match
  | [] => if 0 < found.size then [found] else []
  | next :: rest =>
      if found.a + found.size = next.a ∧ found.b + found.size = next.b then
        coalesce { found with size := found.size + next.size } rest
      else (if 0 < found.size then [found] else []) ++ coalesce next rest

def matchingBlocks (rounds : ℕ) : Option (List Match) := do
  let blocks ← collectBlocks a b rounds [⟨0, a.length, 0, b.length⟩] []
  some (coalesce ⟨0, 0, 0⟩ (blocks.insertionSort matchOrder) ++ [⟨a.length, b.length, 0⟩])

/-- What lies between two blocks. -/
def gap (i j : ℕ) (block : Match) : List Opcode :=
  if i < block.a ∧ j < block.b then [⟨.replace, i, block.a, j, block.b⟩]
  else if i < block.a then [⟨.delete, i, block.a, j, block.b⟩]
  else if j < block.b then [⟨.insert, i, block.a, j, block.b⟩]
  else []

/-- The opcodes from `(i, j)` on. -/
def opcodesFrom : ℕ → ℕ → List Match → List Opcode
  | _, _, [] => []
  | i, j, block :: rest =>
      gap i j block
        ++ (if 0 < block.size then
          [⟨.equal, block.a, block.a + block.size, block.b, block.b + block.size⟩] else [])
        ++ opcodesFrom (block.a + block.size) (block.b + block.size) rest

def opcodes (rounds : ℕ) : Option (List Opcode) :=
  (matchingBlocks a b rounds).map (opcodesFrom 0 0)

example : opcodes "qabxcd".toList "abycdf".toList 20 = some [
    ⟨.delete, 0, 1, 0, 0⟩, ⟨.equal, 1, 3, 0, 2⟩, ⟨.replace, 3, 4, 2, 3⟩, ⟨.equal, 4, 6, 3, 5⟩,
    ⟨.insert, 6, 6, 5, 6⟩] := by
  decide

end SequenceMatcher

end MokuroBunko.Layout

namespace MokuroBunko.Layout

/-- The stretches lie in the ranges. -/
structure Match.Within (found : Match) (ranges : Ranges) : Prop where
  alo : ranges.alo ≤ found.a
  ahi : found.a + found.size ≤ ranges.ahi
  blo : ranges.blo ≤ found.b
  bhi : found.b + found.size ≤ ranges.bhi

namespace SequenceMatcher

variable {α : Type*} [DecidableEq α] {a b : List α}

/-- The sequences have the same element at the places. -/
def SameAt (a b : List α) (i j : ℕ) : Prop := ∃ element, a[i]? = some element ∧ b[j]? = some element

instance (i j : ℕ) : Decidable (SameAt a b i j) :=
  decidable_of_iff (a[i]?.isSome ∧ a[i]? = b[j]?) (by
    unfold SameAt
    cases a[i]? <;> simp [eq_comm])

/-- Stretches of the sequences that are equal. -/
def Stretch (a b : List α) (found : Match) : Prop :=
  ∀ d < found.size, SameAt a b (found.a + d) (found.b + d)

-- The table

/-- The length of the longest stretch in the ranges that ends with the row before `i` and with
the column `j`. -/
def endLength (a b : List α) (alo blo : ℕ) : ℕ → ℕ → ℕ
  | 0, _ => 0
  | i + 1, j =>
      if alo ≤ i ∧ blo ≤ j ∧ SameAt a b i j then
        (if 0 < j then endLength a b alo blo i (j - 1) else 0) + 1
      else 0

theorem endLength_stretch {alo blo i j : ℕ} (positive : 0 < endLength a b alo blo i j)
    : ∃ found : Match, found.size = endLength a b alo blo i j ∧ found.a + found.size = i
      ∧ found.b + found.size = j + 1 ∧ alo ≤ found.a ∧ blo ≤ found.b ∧ Stretch a b found := by
  induction i generalizing j with
  | zero => cases positive
  | succ i ih =>
      rw [endLength] at positive ⊢
      split at positive
      · rename_i here
        rw [if_pos here]
        obtain ⟨above, right, same⟩ := here
        by_cases longer : 0 < j ∧ 0 < endLength a b alo blo i (j - 1)
        · obtain ⟨inside, before⟩ := longer
          obtain ⟨found, size, row, column, front, front', equal⟩ := ih before
          rw [if_pos inside, ← size]
          refine ⟨⟨found.a, found.b, found.size + 1⟩, rfl, ?_, ?_, front, front', ?_⟩
          · dsimp only
            omega
          · dsimp only
            omega
          · intro d small
            obtain less | last := Nat.lt_or_eq_of_le (Nat.lt_succ_iff.mp small)
            · exact equal d less
            · rw [last]
              have column' : found.b + found.size = j := by omega
              rw [row, column']
              exact same
        · have alone : (if 0 < j then endLength a b alo blo i (j - 1) else 0) = 0 := by
            split
            · rename_i inside
              exact Nat.eq_zero_of_not_pos (fun before => longer ⟨inside, before⟩)
            · rfl
          rw [alone]
          refine ⟨⟨i, j, 1⟩, rfl, rfl, rfl, above, right, ?_⟩
          intro d small
          rw [Nat.lt_one_iff.mp small]
          exact same
      · cases positive

theorem le_endLength {alo blo i j : ℕ} {found : Match} (row : found.a + found.size = i)
    (column : found.b + found.size = j + 1) (front : alo ≤ found.a) (front' : blo ≤ found.b)
    (equal : Stretch a b found)
    : found.size ≤ endLength a b alo blo i j := by
  induction i generalizing j found with
  | zero => omega
  | succ i ih =>
      cases sized : found.size with
      | zero => exact Nat.zero_le _
      | succ size =>
          have last := equal size (by omega)
          have row' : found.a + size = i := by omega
          have column' : found.b + size = j := by omega
          rw [row', column'] at last
          rw [endLength, if_pos ⟨by omega, by omega, last⟩]
          apply Nat.succ_le_succ
          by_cases alone : size = 0
          · rw [alone]
            exact Nat.zero_le _
          · rw [if_pos (by omega)]
            apply @ih (j - 1) ⟨found.a, found.b, size⟩ row' (by dsimp only; omega) front front'
            intro d small
            exact equal d (by dsimp only at small; omega)

-- The search

/-- The best match of the cells seen: longest, and of the longest the first by rows. -/
structure BestOf (a b : List α) (alo blo : ℕ) (seen : ℕ → ℕ → Prop) (best : Match) : Prop where
  nothing : best.size = 0 → best.a = alo ∧ best.b = blo
  reached : 0 < best.size → ∃ i j, seen i j ∧ best.a + best.size = i + 1
    ∧ best.b + best.size = j + 1 ∧ endLength a b alo blo (i + 1) j = best.size
  longest : ∀ i j, seen i j → endLength a b alo blo (i + 1) j ≤ best.size
  first : ∀ i j, seen i j → 0 < best.size → endLength a b alo blo (i + 1) j = best.size
    → best.a + best.size < i + 1 ∨ (best.a + best.size = i + 1 ∧ best.b + best.size ≤ j + 1)

variable {alo blo : ℕ} {seen : ℕ → ℕ → Prop} {best : Match}

theorem BestOf.skip {seen' : ℕ → ℕ → Prop} (found : BestOf a b alo blo seen best)
    (more : ∀ i j, seen i j → seen' i j)
    (empty : ∀ i j, seen' i j → seen i j ∨ endLength a b alo blo (i + 1) j = 0)
    : BestOf a b alo blo seen' best := by
  refine ⟨found.nothing, ?_, ?_, ?_⟩
  · intro positive
    obtain ⟨i, j, here, rest⟩ := found.reached positive
    exact ⟨i, j, more i j here, rest⟩
  · intro i j here
    obtain old | zero := empty i j here
    · exact found.longest i j old
    · rw [zero]
      exact Nat.zero_le _
  · intro i j here positive equal
    obtain old | zero := empty i j here
    · exact found.first i j old positive equal
    · omega

theorem BestOf.cell {i j : ℕ} (found : BestOf a b alo blo seen best)
    (later : ∀ i' j', seen i' j' → i' < i ∨ (i' = i ∧ j' < j))
    : BestOf a b alo blo (fun i' j' => seen i' j' ∨ (i' = i ∧ j' = j))
      (if best.size < endLength a b alo blo (i + 1) j then
        ⟨i + 1 - endLength a b alo blo (i + 1) j, j + 1 - endLength a b alo blo (i + 1) j,
          endLength a b alo blo (i + 1) j⟩
      else best) := by
  split
  · rename_i better
    obtain ⟨stretch, size, row, column, _⟩ := endLength_stretch (Nat.zero_lt_of_lt better)
    refine ⟨?_, ?_, ?_, ?_⟩
    · intro zero
      dsimp only at zero
      omega
    · intro _
      exact ⟨i, j, Or.inr ⟨rfl, rfl⟩, by dsimp only; omega, by dsimp only; omega, rfl⟩
    · intro i' j' here
      obtain old | ⟨rfl, rfl⟩ := here
      · exact (found.longest i' j' old).trans better.le
      · exact Nat.le_refl _
    · intro i' j' here _ equal
      obtain old | ⟨rfl, rfl⟩ := here
      · have shorter := found.longest i' j' old
        dsimp only at equal
        omega
      · dsimp only
        omega
  · rename_i worse
    refine ⟨found.nothing, ?_, ?_, ?_⟩
    · intro positive
      obtain ⟨i', j', here, rest⟩ := found.reached positive
      exact ⟨i', j', Or.inl here, rest⟩
    · intro i' j' here
      obtain old | ⟨rfl, rfl⟩ := here
      · exact found.longest i' j' old
      · exact Nat.not_lt.mp worse
    · intro i' j' here positive equal
      obtain old | ⟨rfl, rfl⟩ := here
      · exact found.first i' j' old positive equal
      · obtain ⟨i'', j'', before, row, column, _⟩ := found.reached positive
        have order := later i'' j'' before
        omega

/-- The cells before column `lo` of row `i`, and those of the rows before. -/
def SeenTo (bhi i lo i' j' : ℕ) : Prop := j' < bhi ∧ (i' < i ∨ (i' = i ∧ j' < lo))

/-- Within row `i`, up to column `lo`: the lengths of the row so far, and the best match. -/
structure RowTo (a b : List α) (alo blo bhi i lo : ℕ) (search : Search) : Prop where
  lengths : ∀ j < bhi, search.lengths j = if j < lo then endLength a b alo blo (i + 1) j else 0
  best : BestOf a b alo blo (SeenTo bhi i lo) search.best

theorem RowTo.skip {bhi i lo lo' : ℕ} {search : Search} (row : RowTo a b alo blo bhi i lo search)
    (further : lo ≤ lo')
    (empty : ∀ j, lo ≤ j → j < lo' → j < bhi → ¬ (blo ≤ j ∧ SameAt a b i j))
    : RowTo a b alo blo bhi i lo' search := by
  have zero : ∀ j, lo ≤ j → j < lo' → j < bhi → endLength a b alo blo (i + 1) j = 0 := by
    intro j above below inside
    exact if_neg (fun here => empty j above below inside here.2)
  refine ⟨?_, row.best.skip ?_ ?_⟩
  · intro j inside
    rw [row.lengths j inside]
    split
    · rename_i before
      rw [if_pos (by omega)]
    · rename_i beyond
      split
      · rename_i before
        exact (zero j (by omega) before inside).symm
      · rfl
  · intro i' j' here
    exact ⟨here.1, here.2.imp_right (fun same => ⟨same.1, by omega⟩)⟩
  · intro i' j' here
    obtain ⟨inside, before | ⟨rfl, below⟩⟩ := here
    · exact Or.inl ⟨inside, Or.inl before⟩
    · by_cases seen : j' < lo
      · exact Or.inl ⟨inside, Or.inr ⟨rfl, seen⟩⟩
      · exact Or.inr (zero j' (by omega) below inside)

theorem RowTo.cell {bhi i j : ℕ} {search : Search} {before : ℕ → ℕ}
    (row : RowTo a b alo blo bhi i j search)
    (rows : ∀ j < bhi, before j = endLength a b alo blo i j) (inside : j < bhi)
    (here : alo ≤ i ∧ blo ≤ j ∧ SameAt a b i j)
    : RowTo a b alo blo bhi i (j + 1) (matchCell before i search j) := by
  have length : (if 0 < j then before (j - 1) else 0) + 1 = endLength a b alo blo (i + 1) j := by
    rw [endLength, if_pos here]
    split
    · rw [rows (j - 1) (by omega)]
    · rfl
  have cells : BestOf a b alo blo (SeenTo bhi i (j + 1)) (matchCell before i search j).best := by
    simp only [matchCell, length]
    have added := row.best.cell (i := i) (j := j)
      (fun i' j' here => here.2.imp_right (fun same => same))
    apply added.skip
    · intro i' j' here
      obtain old | ⟨rfl, rfl⟩ := here
      · exact ⟨old.1, old.2.imp_right (fun same => ⟨same.1, by omega⟩)⟩
      · exact ⟨inside, Or.inr ⟨rfl, Nat.lt_succ_self _⟩⟩
    · intro i' j' here
      obtain ⟨bound, before | ⟨rfl, below⟩⟩ := here
      · exact Or.inl (Or.inl ⟨bound, Or.inl before⟩)
      · obtain less | last := Nat.lt_or_eq_of_le (Nat.lt_succ_iff.mp below)
        · exact Or.inl (Or.inl ⟨bound, Or.inr ⟨rfl, less⟩⟩)
        · exact Or.inl (Or.inr ⟨rfl, last⟩)
  refine ⟨?_, cells⟩
  intro j' bound
  simp only [matchCell, length, Function.update_apply]
  split
  · rename_i same
    rw [same, if_pos (Nat.lt_succ_self _)]
  · rename_i other
    rw [row.lengths j' bound]
    by_cases less : j' < j
    · rw [if_pos less, if_pos (by omega)]
    · rw [if_neg less, if_neg (by omega)]

theorem foldl_matchCell {bhi i lo : ℕ} {search : Search} {before : ℕ → ℕ} {columns : List ℕ}
    (row : RowTo a b alo blo bhi i lo search)
    (rows : ∀ j < bhi, before j = endLength a b alo blo i j) (above : alo ≤ i)
    (ascending : columns.Pairwise (· < ·))
    (all : ∀ j, j ∈ columns ↔ lo ≤ j ∧ blo ≤ j ∧ j < bhi ∧ SameAt a b i j)
    : RowTo a b alo blo bhi i (max lo bhi) (columns.foldl (matchCell before i) search) := by
  induction columns generalizing lo search with
  | nil =>
      apply row.skip (Nat.le_max_left _ _)
      intro j from_lo _ inside here
      have member := (all j).mpr ⟨from_lo, here.1, inside, here.2⟩
      cases member
  | cons j columns ih =>
      obtain ⟨least, rest⟩ := List.pairwise_cons.mp ascending
      obtain ⟨from_lo, right, inside, same⟩ := (all j).mp List.mem_cons_self
      have reached : RowTo a b alo blo bhi i j search := by
        apply row.skip from_lo
        intro j' from_lo' below inside' here
        have member := (all j').mpr ⟨from_lo', here.1, inside', here.2⟩
        obtain rfl | later := List.mem_cons.mp member
        · exact Nat.lt_irrefl _ below
        · exact absurd (least j' later) (by omega)
      have next := ih (reached.cell rows inside ⟨above, right, same⟩) rest (by
        intro j'
        constructor
        · intro later
          obtain ⟨_, right', inside', same'⟩ := (all j').mp (List.mem_cons_of_mem _ later)
          exact ⟨least j' later, right', inside', same'⟩
        · intro ⟨beyond, right', inside', same'⟩
          have member := (all j').mpr ⟨by omega, right', inside', same'⟩
          obtain rfl | later := List.mem_cons.mp member
          · omega
          · exact later)
      have ends : max (j + 1) bhi = max lo bhi := by omega
      rw [ends] at next
      exact next

theorem places_range {bhi i : ℕ} {element : α} (found : a[i]? = some element)
    : (((places b element).filter (blo ≤ ·)).takeWhile (· < bhi)).Pairwise (· < ·)
      ∧ ∀ j, j ∈ ((places b element).filter (blo ≤ ·)).takeWhile (· < bhi)
        ↔ 0 ≤ j ∧ blo ≤ j ∧ j < bhi ∧ SameAt a b i j := by
  have ascending : ((places b element).filter (blo ≤ ·)).Pairwise (· < ·) :=
    (List.pairwise_lt_range.filter _).filter _
  have member : ∀ j, j ∈ (places b element).filter (blo ≤ ·) ↔ blo ≤ j ∧ SameAt a b i j := by
    intro j
    simp only [places, List.mem_filter, List.mem_range, decide_eq_true_eq, SameAt, found,
      Option.some.injEq, exists_eq_left']
    constructor
    · intro ⟨⟨_, same⟩, right⟩
      exact ⟨right, same⟩
    · intro ⟨right, same⟩
      exact ⟨⟨(List.getElem?_eq_some_iff.mp same).1, same⟩, right⟩
  generalize (places b element).filter (blo ≤ ·) = columns at ascending member
  refine ⟨ascending.sublist (List.takeWhile_sublist _), ?_⟩
  intro j
  have taken : j ∈ columns.takeWhile (· < bhi) ↔ j ∈ columns ∧ j < bhi := by
    clear member
    induction columns with
    | nil => simp
    | cons first columns ih =>
        obtain ⟨least, rest⟩ := List.pairwise_cons.mp ascending
        rw [List.takeWhile_cons]
        split
        · rename_i small
          rw [List.mem_cons, List.mem_cons, ih rest]
          constructor
          · rintro (rfl | later)
            · exact ⟨Or.inl rfl, of_decide_eq_true small⟩
            · exact ⟨Or.inr later.1, later.2⟩
          · rintro ⟨rfl | later, below⟩
            · exact Or.inl rfl
            · exact Or.inr ⟨later, below⟩
        · rename_i large
          refine iff_of_false List.not_mem_nil ?_
          rintro ⟨member, below⟩
          have beyond : bhi ≤ first := by simpa using large
          obtain rfl | later := List.mem_cons.mp member
          · omega
          · have := least j later
            omega
  rw [taken, member]
  constructor
  · intro ⟨⟨right, same⟩, below⟩
    exact ⟨Nat.zero_le j, right, below, same⟩
  · intro ⟨_, right, below, same⟩
    exact ⟨⟨right, same⟩, below⟩

/-- Before row `i`: the lengths of the row before, and the best match. -/
structure RowsTo (a b : List α) (alo blo bhi i : ℕ) (search : Search) : Prop where
  lengths : ∀ j < bhi, search.lengths j = endLength a b alo blo i j
  best : BestOf a b alo blo (SeenTo bhi i 0) search.best

theorem RowsTo.matchRow {bhi i : ℕ} {search : Search} (rows : RowsTo a b alo blo bhi i search)
    (above : alo ≤ i) (inside : i < a.length)
    : RowsTo a b alo blo bhi (i + 1) (matchRow a b blo bhi search i) := by
  obtain ⟨element, found⟩ : ∃ element, a[i]? = some element :=
    ⟨a[i], List.getElem?_eq_getElem inside⟩
  obtain ⟨ascending, all⟩ := @places_range _ _ a b blo bhi i element found
  have started : RowTo a b alo blo bhi i 0 { search with lengths := fun _ => 0 } :=
    ⟨fun _ _ => rfl, rows.best⟩
  have row := foldl_matchCell started rows.lengths above ascending all
  rw [Nat.zero_max] at row
  unfold SequenceMatcher.matchRow
  rw [found]
  refine ⟨?_, row.best.skip ?_ ?_⟩
  · intro j below
    rw [row.lengths j below, if_pos below]
  · intro i' j' ⟨below, before⟩
    exact ⟨below, Or.inl (by omega)⟩
  · intro i' j' ⟨below, before⟩
    exact Or.inl ⟨below, by omega⟩

theorem RowsTo.foldl_matchRow {bhi i count : ℕ} {search : Search}
    (rows : RowsTo a b alo blo bhi i search) (above : alo ≤ i) (inside : i + count ≤ a.length)
    : RowsTo a b alo blo bhi (i + count)
      ((List.range' i count).foldl (SequenceMatcher.matchRow a b blo bhi) search) := by
  induction count generalizing i search with
  | zero => exact rows
  | succ count ih =>
      rw [List.range'_succ, List.foldl_cons]
      have next := ih (rows.matchRow above (by omega)) (by omega) (by omega)
      rw [Nat.add_right_comm] at next
      exact next

theorem endLength_zero {i j : ℕ} (before : i ≤ alo) : endLength a b alo blo i j = 0 := by
  cases i with
  | zero => rfl
  | succ i => exact if_neg (fun here => absurd here.1 (by omega))

/-- What a longest match is: a stretch in the ranges, no other is longer, and no other of its
length begins earlier. -/
structure IsLongest (a b : List α) (ranges : Ranges) (found : Match) : Prop where
  within : found.Within ranges
  equal : Stretch a b found
  longest : ∀ other : Match, other.Within ranges → Stretch a b other → other.size ≤ found.size
  first : ∀ other : Match, other.Within ranges → Stretch a b other → other.size = found.size
    → found.a < other.a ∨ (found.a = other.a ∧ found.b ≤ other.b)

theorem BestOf.isLongest {ranges : Ranges} {best : Match}
    (found : BestOf a b ranges.alo ranges.blo (SeenTo ranges.bhi ranges.ahi 0) best)
    (ordered : ranges.alo ≤ ranges.ahi ∧ ranges.blo ≤ ranges.bhi)
    : IsLongest a b ranges best := by
  -- a stretch that is not empty ends in a cell that was seen
  have ends : ∀ other : Match, other.Within ranges → Stretch a b other → 0 < other.size
      → ∃ i j, SeenTo ranges.bhi ranges.ahi 0 i j ∧ other.a + other.size = i + 1
        ∧ other.b + other.size = j + 1
        ∧ other.size ≤ endLength a b ranges.alo ranges.blo (i + 1) j := by
    intro other within equal positive
    have := within.ahi
    have := within.bhi
    refine ⟨other.a + other.size - 1, other.b + other.size - 1, ⟨by omega, Or.inl (by omega)⟩,
      by omega, by omega, ?_⟩
    exact le_endLength (by omega) (by omega) within.alo within.blo equal
  have longest : ∀ other : Match, other.Within ranges → Stretch a b other
      → other.size ≤ best.size := by
    intro other within equal
    obtain zero | positive := Nat.eq_zero_or_pos other.size
    · omega
    · obtain ⟨i, j, seen, _, _, length⟩ := ends other within equal positive
      exact length.trans (found.longest i j seen)
  obtain zero | positive := Nat.eq_zero_or_pos best.size
  · obtain ⟨front, front'⟩ := found.nothing zero
    refine ⟨⟨by omega, by omega, by omega, by omega⟩, ?_, longest, ?_⟩
    · intro d small
      omega
    · intro other within _ _
      have := within.alo
      have := within.blo
      omega
  · obtain ⟨i, j, ⟨below, before⟩, row, column, length⟩ := found.reached positive
    obtain ⟨stretch, size, row', column', front, front', equal⟩ :=
      endLength_stretch (length ▸ positive)
    have same : stretch = best := by
      have : stretch.size = best.size := size.trans length
      obtain ⟨x, y, k⟩ := stretch
      obtain ⟨x', y', k'⟩ := best
      dsimp only at *
      congr 1 <;> omega
    rw [same] at front front' equal
    refine ⟨⟨front, by omega, front', by omega⟩, equal, longest, ?_⟩
    intro other within equal' tie
    obtain ⟨i', j', seen', row', column', length'⟩ := ends other within equal' (by omega)
    have order := found.first i' j' seen' positive
      (Nat.le_antisymm (found.longest i' j' seen') (tie ▸ length'))
    omega

theorem IsLongest.extendBack {ranges : Ranges} {found : Match}
    (longest : IsLongest a b ranges found) (inside : ranges.ahi ≤ a.length)
    : extendBack a b ranges.alo ranges.blo found.a found.b found.size = found := by
  have within := longest.within
  have alo := within.alo
  have ahi := within.ahi
  have blo := within.blo
  have bhi := within.bhi
  obtain ⟨i, j, size⟩ := found
  cases i with
  | zero => rfl
  | succ i =>
      dsimp only at alo ahi blo bhi
      refine if_neg ?_
      intro ⟨front, front', same⟩
      dsimp only at front front' same
      have equal : SameAt a b i (j - 1) :=
        ⟨a[i], List.getElem?_eq_getElem (by omega), by
          rw [← same, List.getElem?_eq_getElem (by omega)]⟩
      have longer : Stretch a b ⟨i, j - 1, size + 1⟩ := by
        intro d small
        dsimp only at small
        cases d with
        | zero => exact equal
        | succ d =>
            have here := longest.equal d (by dsimp only; omega)
            have row : i + (d + 1) = i + 1 + d := by omega
            have column : j - 1 + (d + 1) = j + d := by omega
            dsimp only at here ⊢
            rw [row, column]
            exact here
      have bounded := longest.longest ⟨i, j - 1, size + 1⟩
        ⟨by dsimp only; omega, by dsimp only; omega, by dsimp only; omega, by dsimp only; omega⟩
        longer
      dsimp only at bounded
      omega

theorem IsLongest.extendForth {ranges : Ranges} {found : Match}
    (longest : IsLongest a b ranges found) (inside : ranges.ahi ≤ a.length) (left : ℕ)
    (room : found.a + found.size + left ≤ ranges.ahi)
    : extendForth a b ranges.bhi left found = found := by
  have within := longest.within
  have alo := within.alo
  have blo := within.blo
  cases left with
  | zero => rfl
  | succ left =>
      refine if_neg ?_
      intro ⟨below, same⟩
      have equal : SameAt a b (found.a + found.size) (found.b + found.size) :=
        ⟨a[found.a + found.size], List.getElem?_eq_getElem (by omega), by
          rw [← same, List.getElem?_eq_getElem (by omega)]⟩
      have longer : Stretch a b ⟨found.a, found.b, found.size + 1⟩ := by
        intro d small
        obtain less | last := Nat.lt_or_eq_of_le (Nat.lt_succ_iff.mp small)
        · exact longest.equal d less
        · rw [last]
          exact equal
      have bounded := longest.longest ⟨found.a, found.b, found.size + 1⟩
        ⟨alo, by dsimp only; omega, blo, by dsimp only; omega⟩ longer
      dsimp only at bounded
      omega

theorem findLongestMatch_spec (a b : List α) {ranges : Ranges}
    (ordered : ranges.alo ≤ ranges.ahi ∧ ranges.blo ≤ ranges.bhi)
    (inside : ranges.ahi ≤ a.length)
    : IsLongest a b ranges (findLongestMatch a b ranges) := by
  have started : RowsTo a b ranges.alo ranges.blo ranges.bhi ranges.alo
      ⟨fun _ => 0, ⟨ranges.alo, ranges.blo, 0⟩⟩ := by
    refine ⟨fun j _ => (endLength_zero (Nat.le_refl _)).symm, fun _ => ⟨rfl, rfl⟩, ?_, ?_, ?_⟩
    · intro positive
      cases positive
    · intro i j seen
      rw [endLength_zero (by have := seen.2; omega)]
    · intro i j _ positive
      cases positive
  have rows := started.foldl_matchRow (Nat.le_refl _)
    (by omega : ranges.alo + (ranges.ahi - ranges.alo) ≤ a.length)
  rw [Nat.add_sub_cancel' ordered.1] at rows
  have longest := rows.best.isLongest ordered
  have ahi := longest.within.ahi
  unfold findLongestMatch
  dsimp only
  rw [longest.extendBack inside, longest.extendForth inside _ (by omega)]
  exact longest

end SequenceMatcher

end MokuroBunko.Layout
