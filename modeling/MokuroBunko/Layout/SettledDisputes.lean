import Mathlib.Data.List.Sublists
import MokuroBunko.Layout.Alignments
import MokuroBunko.Layout.RubyBases

/-! A second reading settles what the two disagree on (`reconcile.rs`): the merged text, with some
of the disputed stretches taken from the CTC reading.
-/

namespace MokuroBunko.Layout.Reconcile

open MokuroBunko.Lib

variable {F : Type} [Floats F] (nfkc : List Char → List Char)

-- Disputes

/-- Tokens of the merged text and the CTC tokens that dispute them. -/
structure Dispute where
  i1 : ℕ
  i2 : ℕ
  j1 : ℕ
  j2 : ℕ
  deriving DecidableEq

/-- An opcode cut down to one glyph each. What is left over comes last, or first at the start. -/
def disputesOf (op : Opcode) : List Dispute :=
  if op.tag = .equal then []
  else
    let pairs := min (op.i2 - op.i1) (op.j2 - op.j1)
    if op.i1 = 0 ∧ 0 < pairs then
      ⟨op.i1, op.i2 - pairs, op.j1, op.j2 - pairs⟩
        :: (List.range' 1 pairs).reverse.map (fun n =>
          ⟨op.i2 - n, op.i2 - n + 1, op.j2 - n, op.j2 - n + 1⟩)
    else
      (List.range pairs).map (fun n => ⟨op.i1 + n, op.i1 + n + 1, op.j1 + n, op.j1 + n + 1⟩)
        ++ [⟨op.i1 + pairs, op.i2, op.j1 + pairs, op.j2⟩]

def singleDisputes (ops : List Opcode) : List Dispute :=
  (ops.flatMap disputesOf).filter (fun dispute => dispute.i1 < dispute.i2 ∨ dispute.j1 < dispute.j2)

/-- The CTC characters of a dispute. -/
def disputeSource (ctc : List Char) (theirs : List Token) (dispute : Dispute) : List Char :=
  if dispute.j1 < dispute.j2 then
    slice ctc (tokenAt theirs dispute.j1).start (tokenAt theirs (dispute.j2 - 1)).stop
  else []

/-- The tokens that are compared with the second reading. -/
def witnessTokens (text : List Char) : List (List Char) :=
  dashesFolded (tokenValues (tokens nfkc text false))

/-- How much of the text matches the second reading. -/
def agreeing (witness : List (List Char)) (text : List Char) : ℕ :=
  matchCount (witnessTokens nfkc text) witness

/-- The text with the dispute's characters swapped for the source. -/
def swapIn (mine : List Token) (text source : List Char) (dispute : Dispute) : List Char :=
  let start :=
    if dispute.i1 < mine.length then (tokenAt mine dispute.i1).start else text.length
  let stop := if dispute.i1 < dispute.i2 then (tokenAt mine (dispute.i2 - 1)).stop else start
  text.take start ++ source ++ text.drop (max stop (min start text.length))

/-- The body of the loop over the disputes: the text, and whether it has changed. -/
def settleDispute (mine theirs : List Token) (ctc : List Char) (witness : List (List Char))
    (settled : List Char × Bool) (dispute : Dispute) : List Char × Bool :=
  let source := disputeSource ctc theirs dispute
  if source ≠ [] ∧ source.all blanks.contains then settled
  else if source.contains missingGlyph then settled
  else
    let swapped := swapIn mine settled.1 source dispute
    if agreeing nfkc witness settled.1 < agreeing nfkc witness swapped then (swapped, true)
    else settled

/-- Whether a second reading says the first reading's line again. -/
def corroborates (F : Type) [Floats F] (vlm second : List Char) (cells : ℤ) : Bool :=
  let mine := values (tokens nfkc (fold nfkc vlm) false)
  let theirs := values (tokens nfkc (fold nfkc second) false)
  if mine = [] ∨ theirs = [] then false
  else
    let shared := matchCount mine theirs
    if (roomMinCells : ℤ) ≤ cells ∧ roomMinCells ≤ shared
        ∧ (confirmedMinAgreement : F) * ((min mine.length theirs.length : ℕ) : F) ≤ (shared : F)
    then true
    else decide ((confirmedMinAgreement : F) ≤ ratio mine theirs)

/-- A line the CTC reading stands for. -/
def settleCtc (line : Reconciled F) (second secondText : List Char) (cells : ℤ) : Reconciled F :=
  let retry := reconcileLine nfkc second line.ctc cells false none none
  if secondText ≠ [] ∧ retry.source = .merged ∧ "disagree" ∉ retry.notes then
    { retry with
      vlm := line.vlm
      second := some second
      notes := line.notes.filter (fun note => note == "empty" || note == "runaway")
        ++ retry.notes ++ ["retry"] }
  else { line with second := some second }

/-- The stretches of the merged text that the CTC reading disputes. -/
def disputes (line : Reconciled F) : List Dispute :=
  singleDisputes (opcodes (tokenValues (tokens nfkc line.text false))
    (tokenValues (tokens nfkc (strip line.ctc) true)))

/-- The disputed text, settled from the end to the start. -/
def settledText (line : Reconciled F) (secondText : List Char) : List Char × Bool :=
  let witness := witnessTokens nfkc secondText
  let ctc := strip line.ctc
  let theirs := tokens nfkc ctc true
  let mine := tokens nfkc line.text false
  (disputes nfkc line).reverse.foldl (settleDispute nfkc mine theirs ctc witness) (line.text, false)

/-- `settle_disputes`. -/
def settleDisputes (line : Reconciled F) (second : List Char) (cells : ℤ) : Reconciled F :=
  let secondText := second.filter (fun char => ! isSpace char)
  if line.source = .ctc then settleCtc nfkc line second secondText cells
  else if secondText = [] then { line with second := some second }
  else if line.engineOnly then
    if corroborates nfkc F line.vlm secondText cells then
      { line with second := some second, confirmed := true, notes := line.notes ++ ["confirmed"] }
    else { line with second := some second }
  else
    let (text, changed) := settledText nfkc line secondText
    if ! changed then { line with second := some second }
    else
      { Reconciled.new text line.vlm line.ctc
          (some (ratio (values (tokens nfkc text false))
            (values (tokens nfkc (strip line.ctc) true)))) .merged (line.notes ++ ["vote"]) with
        second := some second }

-- Order of the disputes

/-- The second dispute comes after the first, which is not at the end. -/
def Dispute.Before (length : ℕ) (x y : Dispute) : Prop :=
  x.i2 ≤ y.i1 ∧ x.i1 < length

theorem mem_disputesOf {op : Opcode} (ordered : op.i1 ≤ op.i2) {dispute : Dispute}
    (mem : dispute ∈ disputesOf op)
    : op.tag ≠ .equal ∧ op.i1 ≤ dispute.i1 ∧ dispute.i1 ≤ dispute.i2 ∧ dispute.i2 ≤ op.i2 := by
  unfold disputesOf at mem
  split at mem
  next => cases mem
  next unequal =>
    refine ⟨unequal, ?_⟩
    dsimp only at mem
    split at mem
    · rcases List.mem_cons.mp mem with rfl | mem
      · dsimp only
        omega
      · rcases List.mem_map.mp mem with ⟨n, range, rfl⟩
        rw [List.mem_reverse, List.mem_range'_1] at range
        dsimp only
        omega
    · rcases List.mem_append.mp mem with mem | mem
      · rcases List.mem_map.mp mem with ⟨n, range, rfl⟩
        rw [List.mem_range] at range
        dsimp only
        omega
      · rw [List.mem_singleton] at mem
        subst mem
        dsimp only
        omega

theorem disputesOf_before {op : Opcode} (ordered : op.i1 ≤ op.i2)
    : (disputesOf op).Pairwise (Dispute.Before op.i2) := by
  unfold disputesOf
  split
  next => exact List.Pairwise.nil
  next =>
    dsimp only
    split
    next start =>
      refine List.pairwise_cons.mpr ⟨?_, ?_⟩
      · intro dispute mem
        rcases List.mem_map.mp mem with ⟨n, range, rfl⟩
        rw [List.mem_reverse, List.mem_range'_1] at range
        constructor <;> dsimp only <;> omega
      · rw [List.map_reverse, List.pairwise_reverse, List.pairwise_map]
        refine (List.pairwise_lt_range' 1).imp_of_mem ?_
        intro m n mMem nMem lt
        rw [List.mem_range'_1] at mMem nMem
        constructor <;> dsimp only <;> omega
    next =>
      refine List.pairwise_append.mpr ⟨?_, List.pairwise_singleton _ _, ?_⟩
      · rw [List.pairwise_map]
        refine List.pairwise_lt_range.imp_of_mem ?_
        intro m n mMem nMem lt
        rw [List.mem_range] at mMem nMem
        constructor <;> dsimp only <;> omega
      · intro x xMem y yMem
        rcases List.mem_map.mp xMem with ⟨n, range, rfl⟩
        rw [List.mem_range] at range
        rw [List.mem_singleton.mp yMem]
        constructor <;> dsimp only <;> omega

theorem singleDisputes_before {length columns : ℕ} {ops : List Opcode}
    (aligned : Aligned length columns ops)
    : (singleDisputes ops).Pairwise (Dispute.Before length)
      ∧ ∀ dispute ∈ singleDisputes ops, dispute.i1 ≤ dispute.i2 ∧ dispute.i2 ≤ length := by
  constructor
  · apply List.Pairwise.filter
    rw [List.pairwise_flatMap]
    constructor
    · intro op mem
      have bounds := aligned.within op mem
      refine (disputesOf_before bounds.1).imp ?_
      intro x y before
      exact ⟨before.1, before.2.trans_le bounds.2.1⟩
    · refine aligned.apart.imp_of_mem ?_
      intro op later opMem laterMem apart x xMem y yMem
      have bounds := aligned.within later laterMem
      obtain ⟨unequal, -, xOrdered, xStop⟩ := mem_disputesOf (aligned.within op opMem).1 xMem
      obtain ⟨laterUnequal, yStart, -, -⟩ := mem_disputesOf bounds.1 yMem
      have gap := apart unequal laterUnequal
      exact ⟨by omega, by omega⟩
  · intro dispute mem
    rcases List.mem_flatMap.mp (List.mem_filter.mp mem).1 with ⟨op, opMem, found⟩
    have bounds := aligned.within op opMem
    obtain ⟨-, -, ordered, stop⟩ := mem_disputesOf bounds.1 found
    exact ⟨ordered, stop.trans bounds.2.1⟩

-- Swaps

/-- A stretch of a text and what is put in its place. -/
structure Swap where
  start : ℕ
  stop : ℕ
  source : List Char

/-- The text from the place on, with the stretches swapped. -/
def splice (text : List Char) : ℕ → List Swap → List Char
  | place, [] => text.drop place
  | place, swap :: swaps =>
      slice text place swap.start ++ swap.source ++ splice text swap.stop swaps

/-- The dispute as a swap of the text's characters. -/
def swapOf (mine theirs : List Token) (text ctc : List Char) (dispute : Dispute) : Swap :=
  let start :=
    if dispute.i1 < mine.length then (tokenAt mine dispute.i1).start else text.length
  {
    start
    stop := if dispute.i1 < dispute.i2 then (tokenAt mine (dispute.i2 - 1)).stop else start
    source := disputeSource ctc theirs dispute
  }

/-- The disputed stretches of the merged text, with what the CTC reading has there. -/
def disputedSwaps (line : Reconciled F) : List Swap :=
  (disputes nfkc line).map (swapOf (tokens nfkc line.text false) (tokens nfkc (strip line.ctc) true)
    line.text (strip line.ctc))

/-- No two disputes are about one character. -/
def DisputesApart (line : Reconciled F) : Prop :=
  (disputedSwaps nfkc line).Pairwise (fun a b => a.stop ≤ b.start)

example : splice "abcd".toList 0 [⟨1, 2, ['x']⟩, ⟨4, 4, ['y']⟩] = "axcdy".toList := by
  decide

theorem splice_eq_take_append (text : List Char) {swaps : List Swap} {place : ℕ}
    (later : ∀ swap ∈ swaps, place ≤ swap.start)
    : splice text 0 swaps = text.take place ++ splice text place swaps := by
  cases swaps with
  | nil => exact (List.take_append_drop place text).symm
  | cons swap swaps =>
      have le := later swap List.mem_cons_self
      have split : text.take swap.start = text.take place ++ (text.take swap.start).drop place := by
        calc text.take swap.start
          _ = (text.take swap.start).take place ++ (text.take swap.start).drop place :=
              (List.take_append_drop place _).symm
          _ = text.take place ++ (text.take swap.start).drop place := by
              rw [List.take_take, min_eq_left le]
      simp only [splice, slice, List.drop_zero]
      simp only [List.append_assoc]
      rw [← List.append_assoc (text.take place), ← split]

theorem swapOf_bounds {mine : List Token} (theirs : List Token) {text : List Char}
    (ctc : List Char) (placed : Placed mine text.length) {dispute : Dispute}
    (inside : dispute.i2 ≤ mine.length)
    : (swapOf mine theirs text ctc dispute).start ≤ (swapOf mine theirs text ctc dispute).stop
      ∧ (swapOf mine theirs text ctc dispute).stop ≤ text.length := by
  simp only [swapOf]
  by_cases atEnd : dispute.i1 < mine.length
  · rw [if_pos atEnd]
    by_cases taken : dispute.i1 < dispute.i2
    · rw [if_pos taken]
      have last : dispute.i2 - 1 < mine.length := by omega
      have order := placed.start_le (by omega : dispute.i1 ≤ dispute.i2 - 1) last
      have bounds := placed.bounds last
      omega
    · rw [if_neg taken]
      have bounds := placed.bounds atEnd
      omega
  · rw [if_neg atEnd, if_neg (by omega)]
    exact ⟨le_rfl, le_rfl⟩

theorem swapIn_splice {mine theirs : List Token} {text ctc : List Char} {dispute : Dispute}
    {chosen : List Swap} (placed : Placed mine text.length) (inside : dispute.i2 ≤ mine.length)
    (later : ∀ swap ∈ chosen, (swapOf mine theirs text ctc dispute).stop ≤ swap.start)
    (last : mine.length ≤ dispute.i1 → chosen = [])
    : swapIn mine (splice text 0 chosen) (disputeSource ctc theirs dispute) dispute
      = splice text 0 (swapOf mine theirs text ctc dispute :: chosen) := by
  obtain ⟨ordered, stops⟩ := swapOf_bounds theirs ctc placed inside
  have cut := splice_eq_take_append text later
  have starts : (if dispute.i1 < mine.length then (tokenAt mine dispute.i1).start
      else (splice text 0 chosen).length) = (swapOf mine theirs text ctc dispute).start := by
    simp only [swapOf]
    by_cases before : dispute.i1 < mine.length
    · rw [if_pos before, if_pos before]
    · rw [if_neg before, if_neg before, last (Nat.le_of_not_lt before)]
      rfl
  have taken : (text.take (swapOf mine theirs text ctc dispute).stop).length
      = (swapOf mine theirs text ctc dispute).stop := by
    rw [List.length_take, min_eq_left stops]
  have isStop : (if dispute.i1 < dispute.i2 then (tokenAt mine (dispute.i2 - 1)).stop
      else (swapOf mine theirs text ctc dispute).start)
        = (swapOf mine theirs text ctc dispute).stop := rfl
  rw [swapIn, starts, isStop, max_eq_left ((min_le_left _ _).trans ordered), cut, splice, slice,
    List.take_append_of_le_length (by omega), List.take_take, min_eq_left ordered,
    List.drop_left' taken, List.drop_zero]
  rfl

-- Settling

/-- The settled text: some of the swaps, and more of it agrees if it has changed. -/
structure Settled (witness : List (List Char)) (text : List Char) (swaps : List Swap)
    (settled : List Char × Bool) : Prop where
  spliced : ∃ chosen : List Swap, chosen.Sublist swaps ∧ settled.1 = splice text 0 chosen
  kept : settled.2 = false → settled.1 = text
  improved : settled.2 = true → agreeing nfkc witness text < agreeing nfkc witness settled.1

variable {nfkc}

theorem Settled.skip {witness : List (List Char)} {text : List Char} {swaps : List Swap}
    {settled : List Char × Bool} (old : Settled nfkc witness text swaps settled) (swap : Swap)
    : Settled nfkc witness text (swap :: swaps) settled where
  spliced := by
    obtain ⟨chosen, sub, same⟩ := old.spliced
    exact ⟨chosen, sub.cons swap, same⟩
  kept := old.kept
  improved := old.improved

theorem Settled.settleDispute {mine theirs : List Token} {text ctc : List Char}
    {witness : List (List Char)} {swaps : List Swap} {settled : List Char × Bool}
    {dispute : Dispute} (old : Settled nfkc witness text swaps settled)
    (placed : Placed mine text.length) (inside : dispute.i2 ≤ mine.length)
    (later : ∀ swap ∈ swaps, (swapOf mine theirs text ctc dispute).stop ≤ swap.start)
    (last : mine.length ≤ dispute.i1 → swaps = [])
    : Settled nfkc witness text (swapOf mine theirs text ctc dispute :: swaps)
        (settleDispute nfkc mine theirs ctc witness settled dispute) := by
  unfold Reconcile.settleDispute
  dsimp only
  split
  · exact old.skip _
  · split
    · exact old.skip _
    · split
      next more =>
        obtain ⟨chosen, sub, same⟩ := old.spliced
        have swapped := swapIn_splice placed inside
          (fun swap mem => later swap (sub.subset mem))
          (fun atEnd => List.sublist_nil.mp (last atEnd ▸ sub))
        refine ⟨⟨_, sub.cons_cons _, ?_⟩, ?_, fun _ => ?_⟩
        · rw [same]
          exact swapped
        · intro unchanged
          cases unchanged
        · cases changed : settled.2 with
          | true => exact (old.improved changed).trans more
          | false => exact old.kept changed ▸ more
      next => exact old.skip _

theorem foldl_settleDispute {mine theirs : List Token} {text ctc : List Char}
    {witness : List (List Char)} {disputes : List Dispute} (placed : Placed mine text.length)
    (inside : ∀ dispute ∈ disputes, dispute.i2 ≤ mine.length)
    (before : disputes.Pairwise (Dispute.Before mine.length))
    (apart : (disputes.map (swapOf mine theirs text ctc)).Pairwise (fun a b => a.stop ≤ b.start))
    : Settled nfkc witness text (disputes.map (swapOf mine theirs text ctc))
        (disputes.reverse.foldl (Reconcile.settleDispute nfkc mine theirs ctc witness)
          (text, false)) := by
  rw [List.foldl_reverse]
  induction disputes with
  | nil =>
      refine ⟨⟨[], List.Sublist.refl [], rfl⟩, fun _ => rfl, ?_⟩
      intro changed
      cases changed
  | cons dispute disputes ih =>
      rw [List.map_cons, List.pairwise_cons] at apart
      rw [List.pairwise_cons] at before
      have old := ih (fun other mem => inside other (List.mem_cons_of_mem _ mem)) before.2 apart.2
      refine old.settleDispute placed (inside dispute List.mem_cons_self) apart.1 ?_
      intro atEnd
      cases disputes with
      | nil => rfl
      | cons next disputes =>
          have notEnd := (before.1 next List.mem_cons_self).2
          omega

variable (nfkc)

omit [Floats F] in
theorem settledText_settled {line : Reconciled F} (apart : DisputesApart nfkc line)
    (secondText : List Char)
    : Settled nfkc (witnessTokens nfkc secondText) line.text (disputedSwaps nfkc line)
        (settledText nfkc line secondText) := by
  have aligned := opcodes_aligned (tokenValues (tokens nfkc line.text false))
    (tokenValues (tokens nfkc (strip line.ctc) true))
  rw [tokenValues, List.length_map] at aligned
  have order := singleDisputes_before aligned
  exact foldl_settleDispute (tokens_placed nfkc line.text false)
    (fun dispute mem => (order.2 dispute mem).2) order.1 apart

/-- A line that is settled: the two readings are a merge, the engine's alone, or the CTC's. -/
structure SettledLine (line settled : Reconciled F) (second : List Char) (cells : ℤ) : Prop where
  merged : line.source = .merged → line.engineOnly = false → DisputesApart nfkc line →
    (∃ chosen : List Swap, chosen.Sublist (disputedSwaps nfkc line)
      ∧ settled.text = splice line.text 0 chosen)
    ∧ (settled.text ≠ line.text →
      agreeing nfkc (witnessTokens nfkc (second.filter (fun char => ! isSpace char))) line.text
        < agreeing nfkc (witnessTokens nfkc (second.filter (fun char => ! isSpace char)))
          settled.text)
  engineOnly : line.source = .merged → line.engineOnly = true → settled.text = line.text
  ctc : line.source = .ctc → settled.text = line.text
    ∨ settled.text = (reconcileLine nfkc second line.ctc cells false none none : Reconciled F).text

theorem settle_disputes_improves (line : Reconciled F) (second : List Char) (cells : ℤ)
    : SettledLine nfkc line (settleDisputes nfkc line second cells) second cells where
  merged := by
    intro isMerged backed apart
    have settled := settledText_settled nfkc apart (second.filter (fun char => ! isSpace char))
    have unchanged : (∃ chosen : List Swap, chosen.Sublist (disputedSwaps nfkc line)
        ∧ line.text = splice line.text 0 chosen) :=
      ⟨[], List.nil_sublist _, rfl⟩
    simp only [settleDisputes, isMerged, backed, reduceCtorEq, if_false, Bool.false_eq_true]
    by_cases silent : second.filter (fun char => ! isSpace char) = []
    · rw [if_pos silent]
      exact ⟨unchanged, fun differs => absurd rfl differs⟩
    · rw [if_neg silent]
      generalize settledText nfkc line (second.filter (fun char => ! isSpace char)) = found
        at settled
      obtain ⟨text, changed⟩ := found
      cases changed with
      | false => exact ⟨unchanged, fun differs => absurd rfl differs⟩
      | true => exact ⟨settled.spliced, fun _ => settled.improved rfl⟩
  engineOnly := by
    intro isMerged alone
    simp only [settleDisputes, isMerged, alone, reduceCtorEq, if_false, if_true]
    split
    · rfl
    · split <;> rfl
  ctc := by
    intro isCtc
    simp only [settleDisputes, isCtc, if_true, settleCtc]
    split
    · exact Or.inr rfl
    · exact Or.inl rfl

-- A line the CTC reading stands for

def unread : Reconciled ℚ :=
  @reconcileLine ℚ uprightFloats id [] "あいうえか".toList 5 false none none

/-- Nothing of its text is disputed, and the second reading takes its place. -/
theorem not_spliced_unread
    : unread.source = .ctc ∧ disputedSwaps id unread = []
      ∧ (@settleDisputes ℚ uprightFloats id unread "あいうえお".toList 5).text
        = "あいうえお".toList
      ∧ ¬ ∃ chosen : List Swap, chosen.Sublist (disputedSwaps id unread)
        ∧ (@settleDisputes ℚ uprightFloats id unread "あいうえお".toList 5).text
          = splice unread.text 0 chosen := by
  have settled : (@settleDisputes ℚ uprightFloats id unread "あいうえお".toList 5).text
      = "あいうえお".toList := by
    decide +kernel
  have none : disputes id unread = [] := by
    decide +kernel
  have swaps : disputedSwaps id unread = [] := by
    rw [disputedSwaps, none]
    rfl
  refine ⟨rfl, swaps, settled, ?_⟩
  rintro ⟨chosen, sub, same⟩
  rw [swaps, List.sublist_nil] at sub
  rw [settled, sub] at same
  revert same
  decide +kernel

end MokuroBunko.Layout.Reconcile
