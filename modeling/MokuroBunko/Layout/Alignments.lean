import Mathlib.Data.List.GetD
import Mathlib.Data.List.Pairwise
import MokuroBunko.Layout.EditScript
import MokuroBunko.Layout.Reconcile

/-! Where the tokens of a text and the opcodes of two readings lie (`reconcile.rs`).
-/

namespace MokuroBunko.Layout.Reconcile

variable (nfkc : List Char → List Char)

-- Places of the tokens

/-- The second token comes after the first, or begins with it and is no shorter. -/
def Token.Before (a b : Token) : Prop :=
  a.stop ≤ b.start ∨ (a.start = b.start ∧ a.stop ≤ b.stop)

/-- The tokens follow each other and lie in the first characters. -/
structure Placed (tokens : List Token) (length : ℕ) : Prop where
  ordered : tokens.Pairwise Token.Before
  within : ∀ token ∈ tokens, token.start < token.stop ∧ token.stop ≤ length

theorem Placed.append {out added : List Token} {i : ℕ} (placed : Placed out i)
    (here : ∀ token ∈ added, token.start = i ∧ token.stop = i + 1)
    : Placed (out ++ added) (i + 1) where
  ordered := by
    apply List.pairwise_append.mpr
    refine ⟨placed.ordered, ?_, ?_⟩
    · apply List.pairwise_of_forall_mem_list
      intro a aMem b bMem
      have left := here a aMem
      have right := here b bMem
      exact Or.inr ⟨by omega, by omega⟩
    · intro a aMem b bMem
      have bounds := placed.within a aMem
      have starts := (here b bMem).1
      exact Or.inl (by omega)
  within := by
    intro token mem
    rcases List.mem_append.mp mem with before | new
    · have bounds := placed.within token before
      omega
    · have bounds := here token new
      omega

theorem Placed.replaceLast {out : List Token} {last : Token} {i : ℕ} (placed : Placed out i)
    (isLast : out.getLast? = some last) (value : List Char)
    : Placed (out.dropLast ++ [⟨value, last.start, i + 1⟩]) (i + 1) := by
  have split := List.dropLast_append_getLast? last isLast
  have placed : Placed (out.dropLast ++ [last]) i := split.symm ▸ placed
  rcases List.pairwise_append.mp placed.ordered with ⟨front, -, before⟩
  refine ⟨List.pairwise_append.mpr ⟨front, List.pairwise_singleton _ _, ?_⟩, ?_⟩
  · intro a aMem b bMem
    have bounds := placed.within last (by simp)
    rw [List.mem_singleton.mp bMem]
    rcases before a aMem last (List.mem_singleton_self last) with apart | ⟨start, stop⟩
    · exact Or.inl apart
    · exact Or.inr ⟨start, by dsimp only; omega⟩
  · intro token mem
    rcases List.mem_append.mp mem with inFront | new
    · have bounds := placed.within token (List.mem_append_left _ inFront)
      omega
    · have bounds := placed.within last (by simp)
      rw [List.mem_singleton.mp new]
      dsimp only
      omega

theorem Placed.addDots {out : List Token} {i : ℕ} (placed : Placed out i) (folded : List Char)
    : Placed (addDots out folded i) (i + 1) := by
  have appended : ∀ value, Placed (out ++ [⟨value, i, i + 1⟩]) (i + 1) :=
    fun value => placed.append (by simp)
  cases isLast : out.getLast? with
  | none =>
      simp only [Reconcile.addDots, isLast]
      exact appended _
  | some last =>
      simp only [Reconcile.addDots, isLast]
      by_cases joins : last.stop = i ∧ (last.value = ['.'] ∨ last.value = [ellipsis])
      · rw [if_pos joins]
        exact placed.replaceLast isLast _
      · rw [if_neg joins]
        exact appended _

theorem Placed.addTokens {out : List Token} {i : ℕ} (placed : Placed out i) (withBlanks : Bool)
    (char : Char)
    : Placed (addTokens nfkc withBlanks out (char, i)) (i + 1) := by
  unfold Reconcile.addTokens
  split
  · exact placed.append (by simp)
  · dsimp only
    split
    · exact placed.addDots _
    · apply placed.append
      intro token mem
      rcases List.mem_map.mp mem with ⟨part, -, rfl⟩
      exact ⟨rfl, rfl⟩

theorem foldl_addTokens_placed (withBlanks : Bool) (text : List Char) {out : List Token} {i : ℕ}
    (placed : Placed out i)
    : Placed ((text.zipIdx i).foldl (addTokens nfkc withBlanks) out) (i + text.length) := by
  induction text generalizing out i with
  | nil => exact placed
  | cons char text ih =>
      have next := ih (placed.addTokens nfkc withBlanks char)
      rw [List.zipIdx_cons, List.foldl_cons, List.length_cons]
      rw [Nat.add_right_comm] at next
      exact next

theorem tokens_placed (text : List Char) (withBlanks : Bool)
    : Placed (tokens nfkc text withBlanks) text.length := by
  have empty : Placed [] 0 := ⟨List.Pairwise.nil, by simp⟩
  have placed := foldl_addTokens_placed nfkc withBlanks text empty
  rw [Nat.zero_add] at placed
  exact placed

theorem Placed.bounds {tokens : List Token} {length i : ℕ} (placed : Placed tokens length)
    (inside : i < tokens.length)
    : (tokenAt tokens i).start < (tokenAt tokens i).stop
      ∧ (tokenAt tokens i).stop ≤ length := by
  rw [tokenAt, List.getD_eq_getElem _ _ inside]
  exact placed.within _ (List.getElem_mem inside)

theorem Placed.before {tokens : List Token} {length i j : ℕ} (placed : Placed tokens length)
    (lt : i < j) (inside : j < tokens.length)
    : (tokenAt tokens i).Before (tokenAt tokens j) := by
  rw [tokenAt, tokenAt, List.getD_eq_getElem _ _ inside,
    List.getD_eq_getElem _ _ (lt.trans inside)]
  exact List.pairwise_iff_getElem.mp placed.ordered i j _ inside lt

theorem Placed.start_le {tokens : List Token} {length i j : ℕ} (placed : Placed tokens length)
    (le : i ≤ j) (inside : j < tokens.length)
    : (tokenAt tokens i).start ≤ (tokenAt tokens j).start := by
  rcases Nat.eq_or_lt_of_le le with rfl | lt
  · exact le_rfl
  · have bounds := placed.bounds (lt.trans inside)
    rcases placed.before lt inside with apart | ⟨start, -⟩ <;> omega

-- Order of the opcodes

section Opcodes

open SequenceMatcher

variable {α : Type} [DecidableEq α] {a b : List α}

omit [DecidableEq α] in
theorem tiles_within {i j : ℕ} {ops : List Opcode} (tiles : Tiles a b i j ops)
    : (i ≤ a.length ∧ j ≤ b.length) ∧ ∀ op ∈ ops, i ≤ op.i1 ∧ op.i1 ≤ op.i2 ∧ op.i2 ≤ a.length
        ∧ op.j1 ≤ op.j2 ∧ op.j2 ≤ b.length := by
  induction ops generalizing i j with
  | nil => exact ⟨⟨tiles.1.le, tiles.2.le⟩, by simp⟩
  | cons op ops ih =>
      obtain ⟨rfl, rfl, row, column, tiles⟩ := tiles
      obtain ⟨bounded, later⟩ := ih tiles
      refine ⟨⟨row.trans bounded.1, column.trans bounded.2⟩, ?_⟩
      intro other mem
      rcases List.mem_cons.mp mem with rfl | mem
      · exact ⟨le_rfl, row, bounded.1, column, bounded.2⟩
      · obtain ⟨start, rest⟩ := later other mem
        exact ⟨row.trans start, rest⟩

omit [DecidableEq α] in
theorem opcodesFrom_apart {i j : ℕ} {blocks : List Match} (chained : Chained a b i j blocks)
    : (opcodesFrom i j (blocks ++ [⟨a.length, b.length, 0⟩])).Pairwise (fun x y =>
        x.tag ≠ .equal → y.tag ≠ .equal → x.i2 < y.i1) := by
  induction blocks generalizing i j with
  | nil =>
      rw [List.nil_append, opcodesFrom_end]
      have spec := @gap_spec _ a b i j ⟨a.length, b.length, 0⟩ chained.1 chained.2
      generalize gap i j ⟨a.length, b.length, 0⟩ = ops at spec
      cases spec with
      | empty _ _ => exact List.Pairwise.nil
      | between tag _ _ => exact List.pairwise_singleton _ _
  | cons found blocks ih =>
      obtain ⟨row, column, positive, equal, loose, chained⟩ := chained
      rw [List.cons_append, opcodesFrom_cons positive]
      have later := (tiles_within (opcodesFrom_tiles chained)).2
      have rest : (⟨.equal, found.a, found.a + found.size, found.b, found.b + found.size⟩
          :: opcodesFrom (found.a + found.size) (found.b + found.size)
            (blocks ++ [⟨a.length, b.length, 0⟩])).Pairwise (fun x y =>
              x.tag ≠ .equal → y.tag ≠ .equal → x.i2 < y.i1) :=
        List.pairwise_cons.mpr ⟨fun _ _ unequal => absurd rfl unequal, ih chained⟩
      have spec := gap_spec a b row column
      generalize gap i j found = ops at spec
      cases spec with
      | empty _ _ => exact rest
      | between tag _ _ =>
          refine List.pairwise_cons.mpr ⟨?_, rest⟩
          intro other mem _ unequal
          rcases List.mem_cons.mp mem with rfl | mem
          · exact absurd rfl unequal
          · have start := (later other mem).1
            dsimp only
            omega

end Opcodes

/-- The opcodes follow each other, and between two that are not `equal` there is one that is. -/
structure Aligned (rows columns : ℕ) (ops : List Opcode) : Prop where
  within : ∀ op ∈ ops, op.i1 ≤ op.i2 ∧ op.i2 ≤ rows ∧ op.j1 ≤ op.j2 ∧ op.j2 ≤ columns
  replaces : ∀ op ∈ ops, op.tag = .replace → op.i1 < op.i2
  equals : ∀ op ∈ ops, op.tag = .equal → op.i2 - op.i1 = op.j2 - op.j1
  apart : ops.Pairwise (fun x y => x.tag ≠ .equal → y.tag ≠ .equal → x.i2 < y.i1)

theorem opcodes_aligned (a b : List (List Char))
    : Aligned a.length b.length (opcodes a b) := by
  obtain ⟨blocks, found, chained⟩ := SequenceMatcher.matchingBlocks_spec a b
  have script : opcodes a b
      = SequenceMatcher.opcodesFrom 0 0 (blocks ++ [⟨a.length, b.length, 0⟩]) := by
    rw [opcodes, SequenceMatcher.opcodes, found _ le_rfl]
    rfl
  rw [script]
  have within := (tiles_within (SequenceMatcher.opcodesFrom_tiles chained)).2
  refine ⟨fun op mem => (within op mem).2, fun op mem isReplace => ?_, fun op mem isEqual => ?_,
    opcodesFrom_apart chained⟩
  · have sound := SequenceMatcher.opcodesFrom_sound chained op mem
    rw [SequenceMatcher.Sound, isReplace] at sound
    exact sound.1
  · have sound := SequenceMatcher.opcodesFrom_sound chained op mem
    rw [SequenceMatcher.Sound, isEqual] at sound
    have bounds := within op mem
    have same := congrArg List.length sound.2.2
    simp only [SequenceMatcher.slice, List.length_take, List.length_drop] at same
    omega

end MokuroBunko.Layout.Reconcile
