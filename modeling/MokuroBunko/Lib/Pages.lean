import Mathlib.Data.List.Sort
import Mathlib.Data.List.Nodup
import Mathlib.Data.Set.Lattice

/-! Rows read page by page from the greatest key down, each page below the last row of the one
before, while rows come and go between the pages.
-/

namespace MokuroBunko.Lib.Pages

variable {α κ : Type} [LinearOrder κ] (key : α → κ)

/-- From the greatest key down. -/
def descending (rows : List α) : List α :=
  rows.mergeSort (fun first second => key second ≤ key first)

/-- Whether the row is below the bound, if there is one. -/
def below (bound : Option κ) (row : α) : Bool := bound.all (key row < ·)

/-- The first rows, and whether there are more. -/
def page (size : ℕ) (rows : List α) : List α × Bool :=
  let found := (descending key rows).take (size + 1)
  (found.take size, size < found.length)

/-- The pages from the one of a number on, each of the rows that there are when it is read. There is
nothing if the fuel does not last.
-/
def follow (sizes : ℕ → ℕ) (logs : ℕ → List α) : ℕ → ℕ → Option κ → Option (List α)
  | 0, _, _ => none
  | fuel + 1, number, bound =>
      let (shown, more) := page key (sizes number) ((logs number).filter (below key bound))
      if more then
        match shown.getLast? with
        | some last =>
            (follow sizes logs fuel (number + 1) (some (key last))).map (shown ++ ·)
        | none => none
      else some shown

/-- What is new has a greater key than all that there was. -/
def Later (before after : List α) : Prop :=
  ∀ row ∈ after, row ∈ before ∨ ∀ other ∈ before, key other < key row

variable {key}

-- One page

theorem mem_descending {rows : List α} {row : α} : row ∈ descending key rows ↔ row ∈ rows :=
  List.mem_mergeSort

theorem pairwise_descending {rows : List α} (distinct : (rows.map key).Nodup)
    : (descending key rows).Pairwise (fun first second => key second < key first) := by
  have perm : (descending key rows).Perm rows := List.mergeSort_perm _ _
  have apart : (descending key rows).Pairwise (fun first second => key first ≠ key second) :=
    List.pairwise_map.mp ((perm.map key).nodup_iff.mpr distinct)
  have ordered : (descending key rows).Pairwise (fun first second => key second ≤ key first) := by
    have sorted := @List.pairwise_mergeSort α
      (fun first second => decide (key second ≤ key first))
      (fun _ _ _ first second =>
        decide_eq_true (le_trans (of_decide_eq_true second) (of_decide_eq_true first)))
      (fun first second => by
        simp only [Bool.or_eq_true, decide_eq_true_eq]
        exact le_total _ _)
      rows
    exact sorted.imp of_decide_eq_true
  exact (apart.and ordered).imp fun both => lt_of_le_of_ne both.2 (Ne.symm both.1)

theorem page_fst (size : ℕ) (rows : List α)
    : (page key size rows).1 = (descending key rows).take size := by
  simp [page, List.take_take]

theorem page_snd (size : ℕ) (rows : List α)
    : (page key size rows).2 = true ↔ size < rows.length := by
  simp [page, descending]

variable {size : ℕ} {rows : List α}

theorem mem_of_mem_page {row : α} (isIn : row ∈ (page key size rows).1) : row ∈ rows := by
  rw [page_fst] at isIn
  exact mem_descending.mp (List.mem_of_mem_take isIn)

theorem pairwise_page (distinct : (rows.map key).Nodup)
    : (page key size rows).1.Pairwise (fun first second => key second < key first) := by
  rw [page_fst]
  exact (pairwise_descending distinct).sublist (List.take_sublist _ _)

theorem mem_last_page {row : α} (no_more : (page key size rows).2 = false) (isIn : row ∈ rows)
    : row ∈ (page key size rows).1 := by
  have short : rows.length ≤ size := by
    by_contra long
    rw [(page_snd size rows).mpr (Nat.lt_of_not_le long)] at no_more
    cases no_more
  rw [page_fst, List.take_of_length_le (by simpa [descending] using short)]
  exact mem_descending.mpr isIn

theorem lt_of_not_mem_page {row last : α} (distinct : (rows.map key).Nodup) (isIn : row ∈ rows)
    (isLast : (page key size rows).1.getLast? = some last) (out : row ∉ (page key size rows).1)
    : key row < key last := by
  have ordered := pairwise_descending distinct
  have found : row ∈ descending key rows := mem_descending.mpr isIn
  have shown := List.mem_of_getLast? isLast
  rw [page_fst] at out shown
  rw [← List.take_append_drop size (descending key rows)] at ordered found
  obtain isShown | isBehind := List.mem_append.mp found
  · exact absurd isShown out
  · exact (List.pairwise_append.mp ordered).2.2 last shown row isBehind

theorem last_le {row last : α} (distinct : (rows.map key).Nodup)
    (isLast : (page key size rows).1.getLast? = some last) (shown : row ∈ (page key size rows).1)
    : key last ≤ key row := by
  have ordered : (page key size rows).1.Pairwise (fun first second => key second < key first) :=
    pairwise_page distinct
  obtain ⟨front, same⟩ := List.getLast?_eq_some_iff.mp isLast
  rw [same] at ordered shown
  obtain before | same := List.mem_append.mp shown
  · exact ((List.pairwise_append.mp ordered).2.2 row before last List.mem_cons_self).le
  · rw [List.mem_singleton.mp same]

theorem getLast_page (positive : 0 < size) (more : (page key size rows).2 = true)
    : ∃ last, (page key size rows).1.getLast? = some last := by
  have long := (page_snd size rows).mp more
  have nonempty : (page key size rows).1 ≠ [] := by
    rw [page_fst, ← List.length_pos_iff, List.length_take]
    simp only [descending, List.length_mergeSort]
    omega
  exact ⟨_, List.getLast?_eq_some_getLast nonempty⟩

-- Page after page

variable {sizes : ℕ → ℕ} {logs : ℕ → List α}

theorem mem_filter_below {bound : Option κ} {row : α}
    : row ∈ rows.filter (below key bound) ↔ row ∈ rows ∧ ∀ limit ∈ bound, key row < limit := by
  simp [below, Option.all_eq_true]

theorem Later.old {before after : List α} (later : Later key before after) {row last : α}
    (isIn : row ∈ after) (wasIn : last ∈ before) (smaller : key row < key last)
    : row ∈ before := by
  obtain old | greater := later row isIn
  · exact old
  · exact absurd (greater last wasIn) (not_lt_of_gt smaller)

theorem length_below_lt {before after : List α} {bound : Option κ} {last : α}
    (later : Later key before after) (distinct : (after.map key).Nodup)
    (isIn : last ∈ before.filter (below key bound))
    : (after.filter (below key (some (key last)))).length
      < (before.filter (below key bound)).length := by
  have wasIn := mem_filter_below.mp isIn
  have subset : after.filter (below key (some (key last)))
      ⊆ (before.filter (below key bound)).filter (fun row => key row < key last) := by
    intro row found
    obtain ⟨present, under⟩ := mem_filter_below.mp found
    have smaller := under _ rfl
    refine List.mem_filter.mpr ⟨mem_filter_below.mpr ⟨?_, ?_⟩, decide_eq_true smaller⟩
    · exact later.old present wasIn.1 smaller
    · exact fun limit is => smaller.trans (wasIn.2 limit is)
  have nodup : (after.filter (below key (some (key last)))).Nodup :=
    (List.Nodup.of_map key distinct).filter _
  calc (after.filter (below key (some (key last)))).length
      ≤ ((before.filter (below key bound)).filter (fun row => key row < key last)).length :=
        (List.subperm_of_subset nodup subset).length_le
    _ < (before.filter (below key bound)).length :=
        List.length_filter_lt_length_iff_exists.mpr ⟨last, isIn, by simp⟩

/-- What the pages from one of a number on show: rows in order that were there at that page, and all
that stayed.
-/
structure Shows (key : α → κ) (logs : ℕ → List α) (number : ℕ) (bound : Option κ)
    (shown : List α) : Prop where
  ordered : shown.Pairwise (fun first second => key second < key first)
  old : ∀ row ∈ shown, row ∈ logs number ∧ ∀ limit ∈ bound, key row < limit
  all : ∀ row, (∀ page, number ≤ page → row ∈ logs page) → (∀ limit ∈ bound, key row < limit)
    → row ∈ shown

/-- The pages come to an end, and show what they should. Induction on the fuel, which is more than
the rows that are left.
-/
theorem follow_shows (positive : ∀ number, 0 < sizes number)
    (distinct : ∀ number, ((logs number).map key).Nodup)
    (later : ∀ number, Later key (logs number) (logs (number + 1)))
    {fuel number : ℕ} {bound : Option κ}
    (enough : ((logs number).filter (below key bound)).length < fuel)
    : ∃ shown, follow key sizes logs fuel number bound = some shown
      ∧ Shows key logs number bound shown := by
  induction fuel generalizing number bound with
  | zero => exact absurd enough (Nat.not_lt_zero _)
  | succ fuel ih =>
      have apart : (((logs number).filter (below key bound)).map key).Nodup :=
        (distinct number).sublist (List.filter_sublist.map key)
      rw [follow]
      dsimp only
      generalize left : (logs number).filter (below key bound) = rows at *
      cases more : (page key (sizes number) rows).2 with
      | false =>
          refine ⟨(page key (sizes number) rows).1, by simp, pairwise_page apart, ?_, ?_⟩
          · intro row shown
            have isIn := mem_of_mem_page shown
            rw [← left] at isIn
            exact mem_filter_below.mp isIn
          · intro row stays under
            apply mem_last_page more
            rw [← left]
            exact mem_filter_below.mpr ⟨stays number le_rfl, under⟩
      | true =>
          obtain ⟨last, isLast⟩ := getLast_page (positive number) more
          have shownLast := mem_of_mem_page (List.mem_of_getLast? isLast)
          rw [← left] at shownLast
          have wasIn := mem_filter_below.mp shownLast
          have fewer := length_below_lt (later number) (distinct (number + 1)) shownLast
          rw [left] at fewer
          obtain ⟨rest, followed, shows⟩ := @ih (number + 1) (some (key last)) (by omega)
          have below_last (row : α) (isIn : row ∈ rest) : key row < key last :=
            (shows.old row isIn).2 _ rfl
          refine ⟨(page key (sizes number) rows).1 ++ rest, by simp [isLast, followed], ?_, ?_, ?_⟩
          · rw [List.pairwise_append]
            refine ⟨pairwise_page apart, shows.ordered, ?_⟩
            intro first isFirst second isSecond
            exact (below_last second isSecond).trans_le (last_le apart isLast isFirst)
          · intro row isIn
            obtain shown | behind := List.mem_append.mp isIn
            · have present := mem_of_mem_page shown
              rw [← left] at present
              exact mem_filter_below.mp present
            · have smaller := below_last row behind
              exact ⟨(later number).old (shows.old row behind).1 wasIn.1 smaller,
                fun limit is => smaller.trans (wasIn.2 limit is)⟩
          · intro row stays under
            by_cases shown : row ∈ (page key (sizes number) rows).1
            · exact List.mem_append_left _ shown
            · have isIn : row ∈ rows := by
                rw [← left]
                exact mem_filter_below.mpr ⟨stays number le_rfl, under⟩
              have smaller := lt_of_not_mem_page apart isIn isLast shown
              apply List.mem_append_right
              apply shows.all row
              · exact fun page after => stays page (Nat.le_of_succ_le after)
              · rintro limit ⟨⟩
                exact smaller

end MokuroBunko.Lib.Pages
