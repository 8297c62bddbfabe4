import MokuroBunko.Layout.Alignments
import MokuroBunko.Layout.RubyBases

/-! The merge of two readings (`reconcile.rs`) changes the engine's line in the accepted stretches
alone: what both readings agree on stays, in order.
-/

namespace MokuroBunko.Layout.Reconcile

variable {F : Type} [Floats F] (nfkc : List Char → List Char) (al : Alignment F)

-- Accepted stretches

/-- The stretch is accepted: something of it is put into the engine's line. -/
def Accepted (op : Opcode) (k : ℕ) : Prop :=
  op.tag ≠ .equal ∧ al.sameLine = true ∧ op.j2 ≠ op.j1 ∧ verdict nfkc al op k ≠ .refused

/-- The token is agreed on and the CTC reading has another printed form of it. -/
def Reprinted (op : Opcode) (t : ℕ) : Prop :=
  op.tag = .equal
    ∧ printedForm nfkc F al (tokenAt al.mine t) (tokenAt al.theirs (op.j1 + (t - op.i1))) ≠ none

/-- The engine's token is in an accepted stretch or has another printed form. -/
def Changed (t : ℕ) : Prop :=
  ∃ k op, al.ops[k]? = some op ∧ op.i1 ≤ t ∧ t < op.i2
    ∧ (Accepted nfkc al op k ∨ Reprinted nfkc al op t)

def Token.Covers (token : Token) (place : ℕ) : Prop :=
  token.start ≤ place ∧ place < token.stop

/-- The character has tokens, and all of them are in `equal` blocks, printed as they are, or in
stretches that were not accepted.
-/
def Free (place : ℕ) : Prop :=
  (∃ t < al.mine.length, (tokenAt al.mine t).Covers place)
    ∧ ∀ t < al.mine.length, (tokenAt al.mine t).Covers place → ¬ Changed nfkc al t

/-- An accepted stretch inserts at the place. -/
def Inserts (place : ℕ) : Prop :=
  ∃ k op, al.ops[k]? = some op ∧ Accepted nfkc al op k ∧ place = placeOf al op

/-- The characters are those of changed tokens. -/
def Replaces (start stop : ℕ) : Prop :=
  ∃ first last, first ≤ last ∧ last < al.mine.length ∧ start = (tokenAt al.mine first).start
    ∧ stop = (tokenAt al.mine last).stop
    ∧ ∀ t, first ≤ t → t ≤ last → Changed nfkc al t

-- The loop over the opcodes

/-- What the loop has written comes of accepted stretches and printed forms. -/
structure Traced (merge : Merge) : Prop where
  replaces : ∀ start stop text, merge.replace start = some (stop, text) →
    Replaces nfkc al start stop
  inserts : ∀ place text, merge.insertBefore place = some text → Inserts nfkc al place

/-- The alignment is that of the tokens of two texts. -/
structure WellPlaced : Prop where
  mine : Placed al.mine al.vlm.length
  aligned : Aligned al.mine.length al.theirs.length al.ops

variable {nfkc al}

theorem Traced.putReplace {merge : Merge} (traced : Traced nfkc al merge) {start stop : ℕ}
    (replaces : Replaces nfkc al start stop) (text : List Char) (note : String)
    : Traced nfkc al (merge.putReplace start stop text note) where
  inserts := traced.inserts
  replaces := by
    intro start' stop' text' found
    simp only [Merge.putReplace, Function.update_apply] at found
    split at found
    next same =>
      cases found
      exact same ▸ replaces
    next => exact traced.replaces _ _ _ found

theorem Traced.putInsert {merge : Merge} (traced : Traced nfkc al merge) {place : ℕ}
    (inserts : Inserts nfkc al place) (text : List Char) (note : String)
    : Traced nfkc al (merge.putInsert place text note) where
  replaces := traced.replaces
  inserts := by
    intro place' text' found
    simp only [Merge.putInsert, Function.update_apply] at found
    split at found
    next same => exact same ▸ inserts
    next => exact traced.inserts _ _ found

theorem verdict_swap {op : Opcode} {k : ℤ} {text : List Char} {note : String}
    (swapped : verdict nfkc al op k = .swap text note)
    : op.tag = .replace ∨ op.i1 < op.i2 := by
  unfold verdict at swapped
  dsimp only at swapped
  -- the branches in the order of the definition
  rcases ite_eq_iff.mp swapped with ⟨-, opens⟩ | ⟨-, swapped⟩
  · rcases ite_eq_iff.mp opens with ⟨-, same⟩ | ⟨-, same⟩ <;> cases same
  rcases ite_eq_iff.mp swapped with ⟨-, closes⟩ | ⟨-, swapped⟩
  · rcases ite_eq_iff.mp closes with ⟨-, same⟩ | ⟨-, same⟩ <;> cases same
  rcases ite_eq_iff.mp swapped with ⟨-, skipped⟩ | ⟨-, swapped⟩
  · rcases ite_eq_iff.mp skipped with ⟨-, same⟩ | ⟨-, same⟩ <;> cases same
  rcases ite_eq_iff.mp swapped with ⟨kana, -⟩ | ⟨-, swapped⟩
  · exact Or.inl kana.1
  rcases ite_eq_iff.mp swapped with ⟨-, space⟩ | ⟨-, swapped⟩
  · rcases ite_eq_iff.mp space with ⟨-, same⟩ | ⟨-, same⟩ <;> cases same
  rcases ite_eq_iff.mp swapped with ⟨-, same⟩ | ⟨-, swapped⟩
  · cases same
  rcases ite_eq_iff.mp swapped with ⟨-, same⟩ | ⟨-, swapped⟩
  · cases same
  rcases ite_eq_iff.mp swapped with ⟨nonempty, -⟩ | ⟨-, swapped⟩
  · exact Or.inr nonempty
  · rcases ite_eq_iff.mp swapped with ⟨-, same⟩ | ⟨-, same⟩ <;> cases same

theorem Traced.differ (sound : WellPlaced al) {merge : Merge} (traced : Traced nfkc al merge)
    {op : Opcode} {k : ℕ} (here : al.ops[k]? = some op) (unequal : op.tag ≠ .equal)
    (sameLine : al.sameLine = true) (some' : op.j2 ≠ op.j1)
    : Traced nfkc al (differ nfkc al merge op k) := by
  unfold Reconcile.differ
  cases found : verdict nfkc al op k with
  | refused => exact traced
  | put text note =>
      exact traced.putInsert
        ⟨k, op, here, ⟨unequal, sameLine, some', by rw [found]; exact nofun⟩, rfl⟩ text note
  | add text note =>
      exact traced.putInsert
        ⟨k, op, here, ⟨unequal, sameLine, some', by rw [found]; exact nofun⟩, rfl⟩ _ note
  | swap text note =>
      have bounds := sound.aligned.within op (List.mem_of_getElem? here)
      have nonempty : op.i1 < op.i2 := by
        rcases verdict_swap found with isReplace | nonempty
        · exact sound.aligned.replaces op (List.mem_of_getElem? here) isReplace
        · exact nonempty
      refine traced.putReplace ⟨op.i1, op.i2 - 1, by omega, by omega, rfl, rfl, ?_⟩ text note
      intro t start stop
      exact ⟨k, op, here, start, by omega,
        Or.inl ⟨unequal, sameLine, some', by rw [found]; exact nofun⟩⟩

theorem Traced.agree {merge : Merge} (traced : Traced nfkc al merge) {op : Opcode} {k t : ℕ}
    (here : al.ops[k]? = some op) (isEqual : op.tag = .equal) (start : op.i1 ≤ t)
    (stop : t < op.i2) (inside : t < al.mine.length)
    : Traced nfkc al (agree nfkc al merge
        (tokenAt al.mine t, tokenAt al.theirs (op.j1 + (t - op.i1)))) := by
  unfold Reconcile.agree
  dsimp only
  cases printed : printedForm nfkc F al (tokenAt al.mine t)
      (tokenAt al.theirs (op.j1 + (t - op.i1))) with
  | none => exact ⟨traced.replaces, traced.inserts⟩
  | some text =>
      have changed : Changed nfkc al t :=
        ⟨k, op, here, start, stop, Or.inr ⟨isEqual, by rw [printed]; exact nofun⟩⟩
      have replaces : Replaces nfkc al (tokenAt al.mine t).start (tokenAt al.mine t).stop := by
        refine ⟨t, t, le_rfl, inside, rfl, rfl, ?_⟩
        intro other low high
        exact le_antisymm high low ▸ changed
      have put := traced.putReplace replaces text "width"
      exact ⟨put.replaces, put.inserts⟩

theorem Traced.mergeOp (sound : WellPlaced al) {merge : Merge} (traced : Traced nfkc al merge)
    {op : Opcode} {k : ℕ} (here : al.ops[k]? = some op)
    : Traced nfkc al (mergeOp nfkc al merge (op, k)) := by
  unfold Reconcile.mergeOp
  dsimp only
  have bounds := sound.aligned.within op (List.mem_of_getElem? here)
  split
  next isEqual =>
    refine List.foldlRecOn _ _ traced ?_
    intro merge traced pair mem
    rcases List.mem_iff_getElem?.mp mem with ⟨n, found⟩
    rw [List.getElem?_zip_eq_some, List.getElem?_drop, List.getElem?_drop, List.getElem?_take,
      List.getElem?_take] at found
    obtain ⟨left, right⟩ := found
    split at left
    next inLeft =>
      split at right
      next inRight =>
        have inside : op.i1 + n < al.mine.length := by omega
        have agreed := traced.agree here isEqual (Nat.le_add_right _ n) inLeft inside
        rw [Nat.add_sub_cancel_left, tokenAt, tokenAt, List.getD_eq_getElem?_getD,
          List.getD_eq_getElem?_getD, left, right] at agreed
        exact agreed
      next => cases right
    next => cases left
  next unequal =>
    split
    next => exact traced
    next used =>
      rw [not_or, Bool.not_eq_false] at used
      exact traced.differ sound here unequal used.1 used.2

theorem mergeOf_traced (sound : WellPlaced al) (dashRuns : ℕ)
    : Traced nfkc al (mergeOf nfkc al dashRuns) := by
  refine List.foldlRecOn _ _ ⟨?_, ?_⟩ ?_
  · intro start stop text found
    cases found
  · intro place text found
    cases found
  · intro merge traced op mem
    exact traced.mergeOp sound (List.mem_zipIdx_iff_getElem?.mp mem)

-- The assembled line

variable (nfkc al)

/-- The characters from the place on, as the accepted stretches leave them, and the places of the
engine's characters that are kept.
-/
inductive Edited (vouched : ℕ → Bool) : ℕ → List ℕ → List (Char × Bool) → Prop where
  | done : Edited vouched al.vlm.length [] []
  | insert {place : ℕ} {kept : List ℕ} {rest : List (Char × Bool)} (text : List Char)
      (accepted : Inserts nfkc al place) (tail : Edited vouched place kept rest)
      : Edited vouched place kept (text.map (fun char => (char, true)) ++ rest)
  | keep {place : ℕ} {kept : List ℕ} {rest : List (Char × Bool)} {char : Char}
      (found : al.vlm[place]? = some char) (tail : Edited vouched (place + 1) kept rest)
      : Edited vouched place (place :: kept) ((char, vouched place) :: rest)
  | replace {place stop : ℕ} {kept : List ℕ} {rest : List (Char × Bool)} (text : List Char)
      (longer : place < stop) (accepted : Replaces nfkc al place stop)
      (tail : Edited vouched stop kept rest)
      : Edited vouched place kept (text.map (fun char => (char, true)) ++ rest)

variable {nfkc al}

theorem Edited.later {vouched : ℕ → Bool} {place : ℕ} {kept : List ℕ}
    {out : List (Char × Bool)} (edited : Edited nfkc al vouched place kept out)
    : kept.Pairwise (· < ·) ∧ ∀ p ∈ kept, place ≤ p := by
  induction edited with
  | done => exact ⟨List.Pairwise.nil, fun p mem => by cases mem⟩
  | insert _ _ _ ih => exact ih
  | keep _ _ ih =>
      refine ⟨List.pairwise_cons.mpr ⟨fun p mem => ih.2 p mem, ih.1⟩, ?_⟩
      intro p mem
      rcases List.mem_cons.mp mem with rfl | mem
      · exact le_rfl
      · exact (Nat.le_succ _).trans (ih.2 p mem)
  | replace _ longer _ _ ih => exact ⟨ih.1, fun p mem => longer.le.trans (ih.2 p mem)⟩

/-- The characters that are kept, in order. -/
def keptChars (vlm : List Char) (vouched : ℕ → Bool) (kept : List ℕ) : List (Char × Bool) :=
  kept.filterMap (fun place => vlm[place]?.map (fun char => (char, vouched place)))

theorem Edited.sublist {vouched : ℕ → Bool} {place : ℕ} {kept : List ℕ}
    {out : List (Char × Bool)} (edited : Edited nfkc al vouched place kept out)
    : (keptChars al.vlm vouched kept).Sublist out := by
  induction edited with
  | done => exact List.Sublist.slnil
  | insert text _ _ ih => exact ih.trans (List.sublist_append_right _ _)
  | keep found _ ih =>
      rw [keptChars, List.filterMap_cons, found]
      exact ih.cons_cons _
  | replace text _ _ _ ih => exact ih.trans (List.sublist_append_right _ _)

theorem Replaces.not_free (sound : WellPlaced al) {start stop place : ℕ}
    (replaces : Replaces nfkc al start stop) (low : start ≤ place) (high : place < stop)
    : ¬ Free nfkc al place := by
  rintro ⟨⟨t, inside, covers⟩, free⟩
  obtain ⟨first, last, ordered, lastInside, rfl, rfl, changed⟩ := replaces
  have firstInside : first < al.mine.length := ordered.trans_lt lastInside
  rcases Nat.lt_or_ge t first with before | after
  · -- a token before the first shares its characters
    have shared : (tokenAt al.mine first).Covers place := by
      rcases sound.mine.before before firstInside with apart | ⟨-, longer⟩
      · exact absurd (covers.2.trans_le apart) (Nat.not_lt_of_le low)
      · exact ⟨low, covers.2.trans_le longer⟩
    exact free first firstInside shared (changed first le_rfl ordered)
  · rcases Nat.lt_or_ge last t with later | within
    · have shared : (tokenAt al.mine last).Covers place := by
        rcases sound.mine.before later inside with apart | ⟨start, -⟩
        · exact absurd (high.trans_le apart) (Nat.not_lt_of_le covers.1)
        · exact ⟨start.trans_le covers.1, high⟩
      exact free last lastInside shared (changed last ordered le_rfl)
    · exact free t inside covers (changed t after within)

theorem Replaces.longer (sound : WellPlaced al) {start stop : ℕ}
    (replaces : Replaces nfkc al start stop)
    : start < stop ∧ stop ≤ al.vlm.length := by
  obtain ⟨first, last, ordered, inside, rfl, rfl, -⟩ := replaces
  have bounds := sound.mine.bounds inside
  exact ⟨(sound.mine.start_le ordered inside).trans_lt bounds.1, bounds.2⟩

theorem Free.inside (sound : WellPlaced al) {place : ℕ} (free : Free nfkc al place)
    : place < al.vlm.length := by
  obtain ⟨⟨t, inside, covers⟩, -⟩ := free
  exact covers.2.trans_le (sound.mine.bounds inside).2

theorem Edited.insertAt {merge : Merge} (traced : Traced nfkc al merge) {place : ℕ}
    {kept : List ℕ} {rest : List (Char × Bool)}
    (edited : Edited nfkc al merge.vouched place kept rest)
    : Edited nfkc al merge.vouched place kept
        (((merge.insertBefore place).getD []).map (fun char => (char, true)) ++ rest) := by
  cases found : merge.insertBefore place with
  | none => exact edited
  | some text => exact edited.insert text (traced.inserts place text found)

theorem assembleFrom_edited (sound : WellPlaced al) {merge : Merge} (traced : Traced nfkc al merge)
    {fuel place : ℕ} (within : place ≤ al.vlm.length) (enough : al.vlm.length < place + fuel)
    : ∃ kept, Edited nfkc al merge.vouched place kept (assembleFrom al.vlm merge fuel place)
      ∧ ∀ p, place ≤ p → Free nfkc al p → p ∈ kept := by
  induction fuel generalizing place with
  | zero => omega
  | succ fuel ih =>
      rw [assembleFrom]
      cases found : al.vlm[place]? with
      | none =>
          have atEnd : place = al.vlm.length := by
            have beyond := List.getElem?_eq_none_iff.mp found
            omega
          rw [if_pos atEnd]
          have ended := Edited.insertAt traced
            (atEnd ▸ .done : Edited nfkc al merge.vouched place [] [])
          rw [List.append_nil] at ended
          refine ⟨[], ended, ?_⟩
          intro p low free
          have inside := free.inside sound
          omega
      | some char =>
          have inside : place < al.vlm.length := (List.getElem?_eq_some_iff.mp found).1
          cases swapped : merge.replace place with
          | none =>
              obtain ⟨kept, edited, free⟩ := ih inside (by omega)
              refine ⟨place :: kept, ?_, ?_⟩
              · dsimp only
                rw [List.append_assoc]
                exact Edited.insertAt traced (edited.keep found)
              · intro p low isFree
                rcases Nat.eq_or_lt_of_le low with rfl | later
                · exact List.mem_cons_self
                · exact List.mem_cons_of_mem _ (free p later isFree)
          | some swap =>
              obtain ⟨stop, text⟩ := swap
              have replaces := traced.replaces place stop text swapped
              have longer := replaces.longer sound
              obtain ⟨kept, edited, free⟩ := ih longer.2 (by omega)
              refine ⟨kept, ?_, ?_⟩
              · dsimp only
                rw [List.append_assoc]
                exact Edited.insertAt traced (edited.replace text longer.1 replaces)
              · intro p low isFree
                rcases Nat.lt_or_ge p stop with before | later
                · exact absurd isFree (replaces.not_free sound low before)
                · exact free p later isFree

-- Marks

theorem foldl_agree_vouched (pairs : List (Token × Token)) (merge : Merge) (place : ℕ)
    : (pairs.foldl (agree nfkc al) merge).vouched place
      = (merge.vouched place
        || pairs.any (fun pair => decide (pair.1.start ≤ place ∧ place < pair.1.stop))) := by
  induction pairs generalizing merge with
  | nil => simp
  | cons pair pairs ih =>
      have here : (agree nfkc al merge pair).vouched place
          = (merge.vouched place || decide (pair.1.start ≤ place ∧ place < pair.1.stop)) := by
        unfold agree
        cases printedForm nfkc F al pair.1 pair.2 <;> rfl
      rw [List.foldl_cons, ih, here, List.any_cons, Bool.or_assoc]

theorem differ_vouched (merge : Merge) (op : Opcode) (k : ℤ)
    : (differ nfkc al merge op k).vouched = merge.vouched := by
  unfold differ
  cases verdict nfkc al op k <;> rfl

/-- The opcode agrees on the character. -/
def Agrees (al : Alignment F) (op : Opcode) (place : ℕ) : Prop :=
  op.tag = .equal ∧ ∃ t, op.i1 ≤ t ∧ t < op.i2 ∧ (tokenAt al.mine t).Covers place

theorem mergeOp_vouched (sound : WellPlaced al) {merge : Merge} {op : Opcode} {k place : ℕ}
    (mem : op ∈ al.ops) (vouched : merge.vouched place = true ∨ Agrees al op place)
    : (mergeOp nfkc al merge (op, k)).vouched place = true := by
  have bounds := sound.aligned.within op mem
  unfold mergeOp
  dsimp only
  split
  next isEqual =>
    rw [foldl_agree_vouched, Bool.or_eq_true]
    rcases vouched with before | ⟨-, t, start, stop, covers⟩
    · exact Or.inl before
    · right
      have same := sound.aligned.equals op mem isEqual
      rw [List.any_eq_true]
      refine ⟨(tokenAt al.mine t, tokenAt al.theirs (op.j1 + (t - op.i1))), ?_,
        decide_eq_true covers⟩
      have inLeft : t < al.mine.length := by omega
      have inRight : op.j1 + (t - op.i1) < al.theirs.length := by omega
      rw [List.mem_iff_getElem?]
      refine ⟨t - op.i1, ?_⟩
      rw [List.getElem?_zip_eq_some, List.getElem?_drop, List.getElem?_drop, List.getElem?_take,
        List.getElem?_take, if_pos (by omega), if_pos (by omega), Nat.add_sub_cancel' start,
        List.getElem?_eq_getElem inLeft, List.getElem?_eq_getElem inRight, tokenAt, tokenAt,
        List.getD_eq_getElem _ _ inLeft, List.getD_eq_getElem _ _ inRight]
      exact ⟨rfl, rfl⟩
  next unequal =>
    have before : merge.vouched place = true := by
      rcases vouched with before | ⟨isEqual, -⟩
      · exact before
      · exact absurd isEqual unequal
    split
    · exact before
    · rw [differ_vouched]
      exact before

theorem mergeOf_vouched (sound : WellPlaced al) (dashRuns : ℕ) {op : Opcode} {place : ℕ}
    (mem : op ∈ al.ops) (agrees : Agrees al op place)
    : (mergeOf nfkc al dashRuns).vouched place = true := by
  have run : ∀ (ops : List (Opcode × ℕ)) (merge : Merge), (∀ x ∈ ops, x.1 ∈ al.ops) →
      (merge.vouched place = true ∨ ∃ x ∈ ops, Agrees al x.1 place) →
      (ops.foldl (mergeOp nfkc al) merge).vouched place = true := by
    intro ops
    induction ops with
    | nil =>
        rintro merge - (before | ⟨x, none, -⟩)
        · exact before
        · cases none
    | cons first ops ih =>
        intro merge within vouched
        refine ih _ (fun x xMem => within x (List.mem_cons_of_mem _ xMem)) ?_
        have isIn := within first List.mem_cons_self
        rcases vouched with before | ⟨x, xMem, agrees⟩
        · exact Or.inl (mergeOp_vouched sound isIn (Or.inl before))
        · rcases List.mem_cons.mp xMem with rfl | later
          · exact Or.inl (mergeOp_vouched sound isIn (Or.inr agrees))
          · exact Or.inr ⟨x, later, agrees⟩
  rcases List.mem_iff_getElem?.mp mem with ⟨k, found⟩
  refine run al.ops.zipIdx _ ?_ (Or.inr ⟨(op, k), List.mem_zipIdx_iff_getElem?.mpr found, agrees⟩)
  intro x xMem
  exact List.mem_of_getElem? (List.mem_zipIdx_iff_getElem?.mp xMem)

/-- The characters that the width policy leaves alone. -/
def settledChars (text : List (Char × Bool)) : List Char :=
  (text.filter (fun char => ! isMark char.1 || char.2)).map Prod.fst

theorem widenFrom_keeps (F : Type) [Floats F] (before : Option Char) (text : List (Char × Bool))
    : (settledChars text).Sublist (widenFrom F before text) := by
  fun_induction widenFrom F before text with
  | case1 => exact List.Sublist.refl _
  | case2 before char kept rest plain ih =>
      simp only [settledChars, List.filter_cons, plain, if_true, List.map_cons]
      exact ih.cons_cons char
  | case3 before char kept rest marked same run ih =>
      have dropped : settledChars ((char, kept) :: rest) = settledChars (rest.dropWhile same) := by
        have none : (rest.takeWhile same).filter (fun char => ! isMark char.1 || char.2) = [] := by
          rw [List.filter_eq_nil_iff]
          intro x mem
          have isSame := List.mem_takeWhile_imp mem
          simp only [same, Bool.and_eq_true, Bool.not_eq_true'] at isSame
          simp [isSame.1.1, isSame.1.2]
        simp only [settledChars, List.filter_cons, marked, Bool.false_eq_true, if_false]
        conv_lhs => rw [← List.takeWhile_append_dropWhile (p := same) (l := rest)]
        rw [List.filter_append, none, List.nil_append]
      rw [dropped]
      exact ih.trans (List.sublist_append_right _ _)

theorem widenPunctuation_keeps (F : Type) [Floats F] (text : List (Char × Bool))
    : (settledChars text).Sublist
        (widenPunctuation F (text.map Prod.fst) (some (text.map Prod.snd))) := by
  unfold widenPunctuation
  split
  · exact List.filter_sublist.map _
  · have whole : (text.map Prod.fst).zip (text.map Prod.snd) = text := by
      rw [List.zip_map']
      exact List.map_id _
    rw [Option.getD_some, whole]
    exact widenFrom_keeps F none text

-- Indices

variable (nfkc)

/-- The tokens of the two texts and the opcodes between them are within what they index. -/
structure Indexed (vlm ctc : List Char) : Prop where
  mine : Placed (tokens nfkc vlm false) vlm.length
  theirs : Placed (tokens nfkc ctc true) ctc.length
  ops : Aligned (tokens nfkc vlm false).length (tokens nfkc ctc true).length
    (opcodes (tokenValues (tokens nfkc vlm false)) (tokenValues (tokens nfkc ctc true)))

theorem indexed (vlm ctc : List Char)
    : Indexed nfkc vlm ctc where
  mine := tokens_placed nfkc vlm false
  theirs := tokens_placed nfkc ctc true
  ops := by
    have aligned := opcodes_aligned (tokenValues (tokens nfkc vlm false))
      (tokenValues (tokens nfkc ctc true))
    rw [tokenValues, tokenValues, List.length_map, List.length_map] at aligned
    exact aligned

theorem repeatCount_le {text : List Char} {unit fuel count : ℕ} (positive : 0 < unit)
    (counted : 0 < count) (within : unit * count ≤ text.length)
    : unit * repeatCount text unit fuel count ≤ text.length := by
  induction fuel generalizing count with
  | zero => exact within
  | succ fuel ih =>
      rw [repeatCount]
      split
      next same =>
        refine ih (by omega : 0 < count + 1) ?_
        have lengths := congrArg List.length same
        simp only [slice, List.length_drop, List.length_take] at lengths
        have more : unit ≤ unit * count := Nat.le_mul_of_pos_right unit counted
        rw [Nat.mul_add, Nat.mul_one] at lengths ⊢
        omega
      next => exact within

theorem repeatedTail_le (text : List Char)
    : repeatedTail text ≤ text.length := by
  unfold repeatedTail
  refine List.foldlRecOn (motive := (· ≤ text.length)) _ _ (Nat.zero_le _) ?_
  intro best bounded unit mem
  rw [List.mem_range'_1] at mem
  split
  next => exact bounded
  next long =>
    dsimp only
    split
    next =>
      refine max_le bounded (repeatCount_le mem.1 Nat.one_pos ?_)
      rw [repeatMinCount] at long
      omega
    next => exact bounded

-- Lines

variable (al)

/-- A line merged of the engine's characters that are kept and of what is put between them. -/
structure MergedOf (vouched : ℕ → Bool) (kept : List ℕ) (out : List (Char × Bool))
    (text : List Char) : Prop where
  edited : Edited nfkc al vouched 0 kept out
  ordered : kept.Pairwise (· < ·)
  free : ∀ place, Free nfkc al place → place ∈ kept
  agreed : ∀ op ∈ al.ops, ∀ place, Agrees al op place → vouched place = true
  widened : text = widenPunctuation F (out.map Prod.fst) (some (out.map Prod.snd))
  unchanged : (settledChars (keptChars al.vlm vouched kept)).Sublist text

variable {al}

theorem mergeOf_mergedOf (sound : WellPlaced al) (dashRuns : ℕ)
    : ∃ kept out, MergedOf nfkc al (mergeOf nfkc al dashRuns).vouched kept out
        (assemble F al.vlm (mergeOf nfkc al dashRuns)) := by
  obtain ⟨kept, edited, free⟩ := assembleFrom_edited sound (mergeOf_traced sound dashRuns)
    (Nat.zero_le _) (by omega : al.vlm.length < 0 + (al.vlm.length + 1))
  refine ⟨kept, _, edited, edited.later.1, fun place isFree => free place (Nat.zero_le _) isFree,
    fun op mem place agrees => mergeOf_vouched sound dashRuns mem agrees, rfl, ?_⟩
  exact ((edited.sublist.filter _).map _).trans (widenPunctuation_keeps F _)

/-- The alignment of a line: the engine's text, its dash runs adopted, and the CTC reading. -/
def lineAlignment (vlm ctc : List Char) (thin : Bool) (ctcCharConfs : Option (List F))
    : Alignment F :=
  alignment nfkc (adoptDashRuns nfkc (vlm.filter (fun char => ! isSpace char)) (strip ctc)).1
    (strip ctc) thin (usedConfs ctc ctcCharConfs)

theorem alignment_vlm (vlmText ctcText : List Char) (thin : Bool) (confs : List F)
    : (alignment nfkc vlmText ctcText thin confs).vlm = vlmText :=
  rfl

theorem alignment_sound (vlmText ctcText : List Char) (thin : Bool) (confs : List F)
    : WellPlaced (alignment nfkc vlmText ctcText thin confs) :=
  ⟨(indexed nfkc vlmText ctcText).mine, (indexed nfkc vlmText ctcText).ops⟩

theorem concludeMerge_merged {vlm ctc : List Char} {cells : ℤ} {ctcConf : Option F}
    {merge : Merge}
    (merged : (concludeMerge nfkc vlm ctc cells ctcConf al merge).source = .merged)
    : (concludeMerge nfkc vlm ctc cells ctcConf al merge).text = assemble F al.vlm merge := by
  unfold concludeMerge at merged ⊢
  dsimp only at merged ⊢
  split at merged
  next => cases merged
  next sane =>
    rw [if_neg sane]
    split at merged
    next => cases merged
    next long =>
      rw [if_neg long]
      rfl

theorem concludeMerge_ctc {vlm ctc : List Char} {cells : ℤ} {ctcConf : Option F} {merge : Merge}
    (isCtc : (concludeMerge nfkc vlm ctc cells ctcConf al merge).source = .ctc)
    : (concludeMerge nfkc vlm ctc cells ctcConf al merge).text = al.ctc := by
  unfold concludeMerge at isCtc ⊢
  dsimp only at isCtc ⊢
  split at isCtc
  next runaway =>
    rw [if_pos runaway]
    rfl
  next sane =>
    rw [if_neg sane]
    split at isCtc
    next short =>
      rw [if_pos short]
      rfl
    next => cases isCtc

theorem engineAlone_prefix (vlm ctc vlmText : List Char) (cells : ℤ)
    : (engineAlone nfkc vlm ctc vlmText cells : Reconciled F).source = .merged
      ∧ (engineAlone nfkc vlm ctc vlmText cells : Reconciled F).text
        <+: widenPunctuation F vlmText none := by
  unfold engineAlone
  dsimp only
  split
  next =>
    refine ⟨rfl, ?_⟩
    dsimp only [Reconciled.new]
    split
    · exact List.take_prefix _ _
    · exact List.take_prefix _ _
  next => exact ⟨rfl, List.prefix_refl _⟩

/-- What becomes of a line, by what there is to read. -/
structure KeptLine (vlm ctc : List Char) (al : Alignment F) (line : Reconciled F) : Prop where
  fallback : line.source = .ctc → line.text = strip ctc
  alone : line.source = .merged → values (tokens nfkc (strip ctc) true) = [] →
    line.text <+: widenPunctuation F al.vlm none
  merged : line.source = .merged → values (tokens nfkc (strip ctc) true) ≠ [] →
    ∃ vouched kept out, MergedOf nfkc al vouched kept out line.text
  mine : Indexed nfkc (vlm.filter (fun char => ! isSpace char)) (strip ctc)
  adopted : Indexed nfkc al.vlm (strip ctc)
  repeated : ∀ text, repeatedTail text ≤ text.length

theorem reconcile_line_keeps (vlm ctc : List Char) (cells : ℤ) (thin : Bool) (ctcConf : Option F)
    (ctcCharConfs : Option (List F))
    : KeptLine nfkc vlm ctc (lineAlignment nfkc vlm ctc thin ctcCharConfs)
        (reconcileLine nfkc vlm ctc cells thin ctcConf ctcCharConfs) := by
  have mine := indexed nfkc (vlm.filter (fun char => ! isSpace char)) (strip ctc)
  have adopted :=
    indexed nfkc (lineAlignment nfkc vlm ctc thin ctcCharConfs).vlm (strip ctc)
  have sound : WellPlaced (lineAlignment nfkc vlm ctc thin ctcCharConfs) :=
    alignment_sound nfkc
      (adoptDashRuns nfkc (vlm.filter (fun char => ! isSpace char)) (strip ctc)).1 (strip ctc) thin
      (usedConfs ctc ctcCharConfs)
  by_cases silent : vlm.filter (fun char => ! isSpace char) = []
  · have same : (reconcileLine nfkc vlm ctc cells thin ctcConf ctcCharConfs).source = .ctc
        ∧ (reconcileLine nfkc vlm ctc cells thin ctcConf ctcCharConfs).text = strip ctc := by
      unfold reconcileLine
      dsimp only
      rw [if_pos silent]
      exact ⟨rfl, rfl⟩
    have notMerged : (reconcileLine nfkc vlm ctc cells thin ctcConf ctcCharConfs).source
        ≠ .merged := by
      rw [same.1]
      exact nofun
    exact ⟨fun _ => same.2, fun merged => absurd merged notMerged,
      fun merged => absurd merged notMerged, mine, adopted, repeatedTail_le⟩
  · by_cases blank : values (tokens nfkc (strip ctc) true) = []
    · have same : reconcileLine nfkc vlm ctc cells thin ctcConf ctcCharConfs
          = engineAlone nfkc vlm ctc (lineAlignment nfkc vlm ctc thin ctcCharConfs).vlm cells := by
        unfold reconcileLine lineAlignment
        dsimp only
        rw [if_neg silent, if_pos blank, alignment_vlm]
      obtain ⟨isMerged, cut⟩ := engineAlone_prefix (F := F) nfkc vlm ctc
        (lineAlignment nfkc vlm ctc thin ctcCharConfs).vlm cells
      rw [same]
      refine ⟨fun isCtc => ?_, fun _ _ => cut, fun _ read => absurd blank read, mine, adopted,
        repeatedTail_le⟩
      rw [isMerged] at isCtc
      cases isCtc
    · have same : reconcileLine nfkc vlm ctc cells thin ctcConf ctcCharConfs
          = concludeMerge nfkc vlm ctc cells ctcConf
            (lineAlignment nfkc vlm ctc thin ctcCharConfs)
            (mergeOf nfkc (lineAlignment nfkc vlm ctc thin ctcCharConfs)
              (adoptDashRuns nfkc (vlm.filter (fun char => ! isSpace char)) (strip ctc)).2) := by
        unfold reconcileLine lineAlignment
        dsimp only
        rw [if_neg silent, if_neg blank]
      rw [same]
      refine ⟨fun isCtc => concludeMerge_ctc nfkc isCtc, fun _ read => absurd read blank,
        fun merged _ => ?_, mine, adopted, repeatedTail_le⟩
      rw [concludeMerge_merged nfkc merged]
      exact ⟨_, mergeOf_mergedOf nfkc sound _⟩

-- A printed width

/-- The normal form of texts whose only wide character is the digit one. -/
def narrowOne (text : List Char) : List Char :=
  text.map (fun char => if char = '１' then '1' else char)

/-- Both readings agree on the digit, and the line gets its printed width. -/
theorem not_unchanged_printed
    : (@lineAlignment ℚ uprightFloats narrowOne "あ1".toList "あ１".toList false none).vlm
        = "あ1".toList
      ∧ (@lineAlignment ℚ uprightFloats narrowOne "あ1".toList "あ１".toList false none).ops
        = [⟨.equal, 0, 2, 0, 2⟩]
      ∧ (@reconcileLine ℚ uprightFloats narrowOne "あ1".toList "あ１".toList 2 false none none).text
        = "あ１".toList := by
  refine ⟨?_, ?_, ?_⟩ <;> decide +kernel

end MokuroBunko.Layout.Reconcile
