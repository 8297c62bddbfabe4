import MokuroBunko.Sched.JobOrder
import Mathlib.Data.List.MinMax
import Mathlib.Data.List.Perm.Subperm

/-! What `order_jobs` makes of a list in one shot: rows in rank order, and within a row the
series in turns from the one after the last served.
-/

namespace MokuroBunko.Sched

open MokuroBunko.Lib

variable {ι : Type} {unicode : UnicodeTables} {jobs : List ι}
  {generationRank : OrderedMap String ℕ} {key : ι → JobKey} {lastServed : OrderedMap String String}

/-- The jobs of one row. -/
def inRow (key : ι → JobKey) (row : String) (jobs : List ι) : List ι :=
  jobs.filter (fun job => (key job).generationId = row)

/-- The jobs of one series. -/
def inSeries (key : ι → JobKey) (series : String) (jobs : List ι) : List ι :=
  jobs.filter (fun job => (key job).series = series)

/-- The series comes first in the round after the one served last: next past it of those that
wait, or the smallest of them when none waits past it.
-/
def NextInRound (unicode : UnicodeTables) (cursor : Option NameKey) (waiting : List String)
    (series : String) : Prop :=
  (∃ last ∈ cursor, last < unicode.nameKey series
      ∧ ∀ other ∈ waiting, last < unicode.nameKey other
        → unicode.nameKey series ≤ unicode.nameKey other)
    ∨ (∀ last ∈ cursor, ∀ other ∈ waiting, unicode.nameKey other ≤ last)
      ∧ ∀ other ∈ waiting, unicode.nameKey series ≤ unicode.nameKey other

/-- An order of the jobs, by rows and within a row by turns. -/
structure Ordered (unicode : UnicodeTables) (jobs : List ι) (generationRank : OrderedMap String ℕ)
    (key : ι → JobKey) (lastServed : OrderedMap String String) (order : List ι) : Prop where
  permutation : order.Perm jobs
  ranked
    : order.Pairwise (fun before after =>
        ∀ rank ∈ generationRank.get? (key before).generationId,
        ∀ other ∈ generationRank.get? (key after).generationId, rank ≤ other)
  /-- A row's jobs stand together. -/
  together
    : ∀ before first between last after,
        order = before ++ first :: between ++ last :: after
        → (key first).generationId = (key last).generationId
        → ∀ job ∈ between, (key job).generationId = (key first).generationId
  natural
    : ∀ row series, (inSeries key series (inRow key row order)).Pairwise
        (fun before after =>
          unicode.nameKey (key before).volume < unicode.nameKey (key after).volume)
  balanced
    : ∀ row taken rest, inRow key row order = taken ++ rest
        → ∀ series other, inSeries key series rest ≠ [] → inSeries key other rest ≠ []
        → (inSeries key series taken).length ≤ (inSeries key other taken).length + 1
  first
    : ∀ row job rest, inRow key row order = job :: rest
        → NextInRound unicode ((lastServed.get? row).map unicode.nameKey)
            ((inRow key row jobs).map (fun job => (key job).series)) (key job).series

/-- The unranked rows come after all the ranked ones. -/
def UnrankedLast (generationRank : OrderedMap String ℕ) (key : ι → JobKey) (order : List ι) : Prop :=
  order.Pairwise (fun before after =>
    (generationRank.get? (key before).generationId).isNone
      → (generationRank.get? (key after).generationId).isNone)

instance (generationRank : OrderedMap String ℕ) (key : ι → JobKey) (order : List ι)
    : Decidable (UnrankedLast generationRank key order) :=
  inferInstanceAs (Decidable (List.Pairwise _ _))

/-- The ranks are positions among the ranked rows. -/
def Positions (generationRank : OrderedMap String ℕ) : Prop :=
  ∀ row rank, generationRank.get? row = some rank → rank < generationRank.entries.length

-- Positions within a series

theorem mem_waitingVolumes {keys : List JobKey} {row series volume : String}
    : volume ∈ waitingVolumes unicode keys row series
      ↔ ∃ key ∈ keys, key.generationId = row ∧ key.series = series ∧ key.volume = volume := by
  simp only [waitingVolumes, List.mem_insertionSort, List.mem_dedup, List.mem_map,
    List.mem_filter, decide_eq_true_eq]
  constructor
  · rintro ⟨key, ⟨member, sameRow, sameSeries⟩, same⟩
    exact ⟨key, member, sameRow, sameSeries, same⟩
  · rintro ⟨key, member, sameRow, sameSeries, same⟩
    exact ⟨key, ⟨member, sameRow, sameSeries⟩, same⟩

theorem nodup_waitingVolumes (keys : List JobKey) (row series : String)
    : (waitingVolumes unicode keys row series).Nodup :=
  (List.perm_insertionSort _ _).nodup_iff.mpr (List.nodup_dedup _)

theorem sorted_waitingVolumes (keys : List JobKey) (row series : String)
    : (waitingVolumes unicode keys row series).Pairwise
        (fun before after => unicode.nameKey before < unicode.nameKey after) := by
  let before : String → String → Prop := fun a b => unicode.nameKey a ≤ unicode.nameKey b
  have total : Std.Total before := ⟨fun a b => le_total (unicode.nameKey a) (unicode.nameKey b)⟩
  have transitive : IsTrans String before := ⟨fun _ _ _ => le_trans⟩
  have sorted : (waitingVolumes unicode keys row series).Pairwise before :=
    List.pairwise_insertionSort before _
  refine (sorted.and (nodup_waitingVolumes keys row series)).imp ?_
  rintro first second ⟨le, other⟩
  exact lt_of_le_of_ne le (fun same => other (unicode.nameKey_injective same))

variable {keys : List JobKey} {first second : JobKey}

theorem eq_of_position_eq (firstWaits : first ∈ keys) (secondWaits : second ∈ keys)
    (sameRow : first.generationId = second.generationId) (sameSeries : first.series = second.series)
    (same : position unicode keys first = position unicode keys second)
    : first = second := by
  have listed : first.volume ∈ waitingVolumes unicode keys first.generationId first.series :=
    mem_waitingVolumes.mpr ⟨first, firstWaits, rfl, rfl, rfl⟩
  rw [position, position, ← sameRow, ← sameSeries] at same
  have sameVolume := (List.idxOf_inj listed).mp same
  cases first
  cases second
  simp_all

theorem exists_position {place : ℕ} (waits : first ∈ keys)
    (below : place < position unicode keys first)
    : ∃ other ∈ keys, other.generationId = first.generationId ∧ other.series = first.series
        ∧ position unicode keys other = place := by
  have listed : first.volume ∈ waitingVolumes unicode keys first.generationId first.series :=
    mem_waitingVolumes.mpr ⟨first, waits, rfl, rfl, rfl⟩
  have inside : place < (waitingVolumes unicode keys first.generationId first.series).length :=
    below.trans (List.idxOf_lt_length_of_mem listed)
  obtain ⟨other, member, sameRow, sameSeries, volume⟩ :=
    mem_waitingVolumes.mp (List.getElem_mem inside)
  refine ⟨other, member, sameRow, sameSeries, ?_⟩
  rw [position, sameRow, sameSeries, volume]
  exact (nodup_waitingVolumes keys _ _).idxOf_getElem place inside

theorem nameKey_lt_of_position_lt (firstWaits : first ∈ keys) (secondWaits : second ∈ keys)
    (sameRow : first.generationId = second.generationId) (sameSeries : first.series = second.series)
    (before : position unicode keys first < position unicode keys second)
    : unicode.nameKey first.volume < unicode.nameKey second.volume := by
  have firstListed : first.volume ∈ waitingVolumes unicode keys first.generationId first.series :=
    mem_waitingVolumes.mpr ⟨first, firstWaits, rfl, rfl, rfl⟩
  have secondListed : second.volume ∈ waitingVolumes unicode keys first.generationId first.series :=
    mem_waitingVolumes.mpr ⟨second, secondWaits, sameRow.symm, sameSeries.symm, rfl⟩
  rw [position, position, ← sameRow, ← sameSeries] at before
  have ordered := List.pairwise_iff_getElem.mp
    (sorted_waitingVolumes keys first.generationId first.series) _ _
    (List.idxOf_lt_length_of_mem firstListed) (List.idxOf_lt_length_of_mem secondListed) before
  simpa only [List.getElem_idxOf] using ordered

-- The sorted queue

variable (unicode jobs generationRank key lastServed) in
theorem sorted_orderJobs
    : (orderJobs unicode jobs generationRank key lastServed).Pairwise (fun before after =>
        sortKey unicode (jobs.map key) generationRank lastServed (key before)
          ≤ sortKey unicode (jobs.map key) generationRank lastServed (key after)) := by
  let keyed := sortKey unicode (jobs.map key) generationRank lastServed
  let before : ι → ι → Prop := fun a b => keyed (key a) ≤ keyed (key b)
  have total : Std.Total before := ⟨fun a b => le_total (keyed (key a)) (keyed (key b))⟩
  have transitive : IsTrans ι before := ⟨fun _ _ _ => le_trans⟩
  exact List.pairwise_insertionSort before jobs

theorem perm_orderJobs : (orderJobs unicode jobs generationRank key lastServed).Perm jobs :=
  List.perm_insertionSort _ _

theorem mem_orderJobs {job : ι}
    : job ∈ orderJobs unicode jobs generationRank key lastServed ↔ job ∈ jobs :=
  perm_orderJobs.mem_iff

/-- The rank a row sorts by, the unranked ones after the positions. -/
def rowRank (generationRank : OrderedMap String ℕ) (row : String) : ℕ :=
  (generationRank.get? row).getD generationRank.entries.length

theorem rowRank_le_of_sortKey_le
    (ordered : sortKey unicode keys generationRank lastServed first
      ≤ sortKey unicode keys generationRank lastServed second)
    : toLex (rowRank generationRank first.generationId, first.generationId)
        ≤ toLex (rowRank generationRank second.generationId, second.generationId) := by
  rw [Prod.Lex.toLex_le_toLex]
  rw [sortKey, sortKey, Prod.Lex.toLex_le_toLex] at ordered
  rcases ordered with lower | ⟨sameRank, inRank⟩
  · exact .inl lower
  · rw [Prod.Lex.toLex_le_toLex] at inRank
    rcases inRank with earlier | ⟨sameRow, -⟩
    · exact .inr ⟨sameRank, earlier.le⟩
    · exact .inr ⟨sameRank, sameRow.le⟩

theorem position_le_of_sortKey_le
    (ordered : sortKey unicode keys generationRank lastServed first
      ≤ sortKey unicode keys generationRank lastServed second)
    (sameRow : first.generationId = second.generationId)
    : position unicode keys first ≤ position unicode keys second := by
  simp only [sortKey, sameRow, Prod.Lex.toLex_le_toLex, lt_irrefl, true_and, false_or] at ordered
  rcases ordered with earlier | ⟨same, -⟩
  · exact earlier.le
  · exact same.le

variable (unicode jobs generationRank key lastServed) in
theorem sorted_inRow (row : String)
    : (inRow key row (orderJobs unicode jobs generationRank key lastServed)).Pairwise
        (fun before after =>
          sortKey unicode (jobs.map key) generationRank lastServed (key before)
            ≤ sortKey unicode (jobs.map key) generationRank lastServed (key after)) :=
  (sorted_orderJobs unicode jobs generationRank key lastServed).sublist List.filter_sublist

theorem mem_inRow {row : String} {job : ι} {queue : List ι}
    : job ∈ inRow key row queue ↔ job ∈ queue ∧ (key job).generationId = row := by
  simp [inRow]

theorem mem_inSeries {series : String} {job : ι} {queue : List ι}
    : job ∈ inSeries key series queue ↔ job ∈ queue ∧ (key job).series = series := by
  simp [inSeries]

-- Turns

variable (unicode generationRank lastServed) in
theorem nodup_positions (distinct : (jobs.map key).Nodup) {row : String} (series : String)
    {part : List ι}
    (within : part.Sublist (inRow key row (orderJobs unicode jobs generationRank key lastServed)))
    : ((inSeries key series part).map
        (fun job => position unicode (jobs.map key) (key job))).Nodup := by
  have keysDistinct : ((inSeries key series part).map key).Nodup := by
    have whole : ((orderJobs unicode jobs generationRank key lastServed).map key).Nodup :=
      (perm_orderJobs.map key).nodup_iff.mpr distinct
    exact whole.sublist (((List.filter_sublist.trans within).trans List.filter_sublist).map key)
  rw [List.Nodup, List.pairwise_map] at keysDistinct ⊢
  refine List.Pairwise.imp_of_mem ?_ keysDistinct
  intro job other member otherMember differ same
  obtain ⟨inPart, series'⟩ := mem_inSeries.mp member
  obtain ⟨otherInPart, otherSeries⟩ := mem_inSeries.mp otherMember
  obtain ⟨waits, row'⟩ := mem_inRow.mp (within.subset inPart)
  obtain ⟨otherWaits, otherRow⟩ := mem_inRow.mp (within.subset otherInPart)
  exact differ (eq_of_position_eq (List.mem_map_of_mem (mem_orderJobs.mp waits))
    (List.mem_map_of_mem (mem_orderJobs.mp otherWaits)) (row'.trans otherRow.symm)
    (series'.trans otherSeries.symm) same)

theorem balanced_inRow (distinct : (jobs.map key).Nodup) {row : String} {taken rest : List ι}
    (split : inRow key row (orderJobs unicode jobs generationRank key lastServed) = taken ++ rest)
    {series other : String} (otherLeft : inSeries key other rest ≠ [])
    : (inSeries key series taken).length ≤ (inSeries key other taken).length + 1 := by
  let place : ι → ℕ := fun job => position unicode (jobs.map key) (key job)
  have sorted := sorted_inRow unicode jobs generationRank key lastServed row
  rw [split] at sorted
  have inside : ∀ job ∈ taken ++ rest, job ∈ jobs ∧ (key job).generationId = row := by
    intro job member
    rw [← split, mem_inRow, mem_orderJobs] at member
    exact member
  -- The next job of the other series: one of those left with the least position.
  obtain ⟨next, nextMember, least⟩ : ∃ next ∈ inSeries key other rest,
      ∀ job ∈ inSeries key other rest, place next ≤ place job := by
    cases found : (inSeries key other rest).argmin place with
    | none => exact absurd (List.argmin_eq_none.mp found) otherLeft
    | some next =>
        exact ⟨next, List.argmin_mem found, fun job member => List.le_of_mem_argmin member found⟩
  obtain ⟨nextLeft, nextSeries⟩ := mem_inSeries.mp nextMember
  obtain ⟨nextWaits, nextRow⟩ := inside next (List.mem_append_right _ nextLeft)
  have ahead : (inSeries key series taken).length ≤ place next + 1 := by
    have bounded : (inSeries key series taken).map place ⊆ List.range (place next + 1) := by
      intro at_place member
      obtain ⟨job, jobMember, rfl⟩ := List.mem_map.mp member
      obtain ⟨jobTaken, -⟩ := mem_inSeries.mp jobMember
      have before := (List.pairwise_append.mp sorted).2.2 job jobTaken next nextLeft
      have jobRow := (inside job (List.mem_append_left _ jobTaken)).2
      exact List.mem_range.mpr (Nat.lt_succ_of_le
        (position_le_of_sortKey_le before (jobRow.trans nextRow.symm)))
    have once := nodup_positions unicode generationRank lastServed distinct series
      (split ▸ List.sublist_append_left taken rest)
    simpa using (once.subperm bounded).length_le
  have behind : place next ≤ (inSeries key other taken).length := by
    have covered : List.range (place next) ⊆ (inSeries key other taken).map place := by
      intro at_place below
      obtain ⟨found, foundMember, foundRow, foundSeries, rfl⟩ := exists_position
        (List.mem_map_of_mem (f := key) nextWaits) (List.mem_range.mp below)
      obtain ⟨job, jobWaits, rfl⟩ := List.mem_map.mp foundMember
      have listed : job ∈ taken ++ rest := by
        rw [← split, mem_inRow, mem_orderJobs]
        exact ⟨jobWaits, foundRow.trans nextRow⟩
      rcases List.mem_append.mp listed with jobTaken | jobLeft
      · exact List.mem_map.mpr
          ⟨job, mem_inSeries.mpr ⟨jobTaken, foundSeries.trans nextSeries⟩, rfl⟩
      · have late := least job (mem_inSeries.mpr ⟨jobLeft, foundSeries.trans nextSeries⟩)
        exact absurd (List.mem_range.mp below) (not_lt.mpr late)
    simpa using ((List.nodup_range).subperm covered).length_le
  omega

theorem natural_inRow (distinct : (jobs.map key).Nodup) (row series : String)
    : (inSeries key series (inRow key row
          (orderJobs unicode jobs generationRank key lastServed))).Pairwise
        (fun before after =>
          unicode.nameKey (key before).volume < unicode.nameKey (key after).volume) := by
  have sorted : (inSeries key series (inRow key row
      (orderJobs unicode jobs generationRank key lastServed))).Pairwise _ :=
    (sorted_inRow unicode jobs generationRank key lastServed row).sublist List.filter_sublist
  have once := List.pairwise_map.mp (nodup_positions unicode generationRank lastServed distinct
    series (List.Sublist.refl (inRow key row
      (orderJobs unicode jobs generationRank key lastServed))))
  refine List.Pairwise.imp_of_mem ?_ (sorted.and once)
  rintro job other member otherMember ⟨le, differ⟩
  obtain ⟨inRow', series'⟩ := mem_inSeries.mp member
  obtain ⟨otherInRow, otherSeries⟩ := mem_inSeries.mp otherMember
  obtain ⟨waits, row'⟩ := mem_inRow.mp inRow'
  obtain ⟨otherWaits, otherRow⟩ := mem_inRow.mp otherInRow
  exact nameKey_lt_of_position_lt (List.mem_map_of_mem (mem_orderJobs.mp waits))
    (List.mem_map_of_mem (mem_orderJobs.mp otherWaits)) (row'.trans otherRow.symm)
    (series'.trans otherSeries.symm)
    (lt_of_le_of_ne (position_le_of_sortKey_le le (row'.trans otherRow.symm)) differ)

theorem nextInRound_of_rotated_le {cursor : Option NameKey} {waiting : List String}
    {series : String}
    (least : ∀ other ∈ waiting, rotated cursor (unicode.nameKey series)
      ≤ rotated cursor (unicode.nameKey other))
    : NextInRound unicode cursor waiting series := by
  cases cursor with
  | none =>
      refine .inr ⟨nofun, ?_⟩
      intro other member
      simpa [rotated, wrapped, Prod.Lex.toLex_le_toLex] using least other member
  | some last =>
      by_cases past : last < unicode.nameKey series
      · refine .inl ⟨last, rfl, past, ?_⟩
        intro other member otherPast
        simpa [rotated, wrapped, Prod.Lex.toLex_le_toLex, past, otherPast] using least other member
      · -- The series wraps, so every series does.
        have wraps : ∀ other ∈ waiting, ¬ last < unicode.nameKey other
            ∧ unicode.nameKey series ≤ unicode.nameKey other := by
          intro other member
          have le := least other member
          by_cases otherPast : last < unicode.nameKey other
          · simp [rotated, wrapped, Prod.Lex.toLex_le_toLex, past, otherPast] at le
          · exact ⟨otherPast, by
              simpa [rotated, wrapped, Prod.Lex.toLex_le_toLex, past, otherPast] using le⟩
        refine .inr ⟨?_, fun other member => (wraps other member).2⟩
        intro _ same other member
        obtain rfl := Option.some.inj same
        exact not_lt.mp (wraps other member).1

theorem first_inRow {row : String} {job : ι} {rest : List ι}
    (split : inRow key row (orderJobs unicode jobs generationRank key lastServed) = job :: rest)
    : NextInRound unicode ((lastServed.get? row).map unicode.nameKey)
        ((inRow key row jobs).map (fun job => (key job).series)) (key job).series := by
  have sorted := sorted_inRow unicode jobs generationRank key lastServed row
  rw [split] at sorted
  have least : ∀ other ∈ jobs, (key other).generationId = row
      → sortKey unicode (jobs.map key) generationRank lastServed (key job)
        ≤ sortKey unicode (jobs.map key) generationRank lastServed (key other) := by
    intro other waits sameRow
    have listed : other ∈ job :: rest := by
      rw [← split, mem_inRow, mem_orderJobs]
      exact ⟨waits, sameRow⟩
    rcases List.mem_cons.mp listed with rfl | later
    · exact le_rfl
    · exact List.rel_of_pairwise_cons sorted later
  have jobRow : (key job).generationId = row := by
    have listed : job ∈ job :: rest := List.mem_cons_self
    rw [← split, mem_inRow] at listed
    exact listed.2
  refine nextInRound_of_rotated_le ?_
  intro series member
  obtain ⟨waiting, waitingMember, rfl⟩ := List.mem_map.mp member
  obtain ⟨waits, sameRow⟩ := mem_inRow.mp waitingMember
  obtain ⟨other, otherMember, otherRow, otherSeries, leads⟩ :=
    exists_position_zero unicode (List.mem_map_of_mem (f := key) waits)
  obtain ⟨front, frontWaits, rfl⟩ := List.mem_map.mp otherMember
  have bounded := rotated_le_of_sortKey_le
    (least front frontWaits (otherRow.trans sameRow))
    (jobRow.trans (otherRow.trans sameRow).symm) leads
  rwa [jobRow, otherSeries] at bounded

/-- The order of jobs with distinct keys, whatever the ranks and the series served last: a
permutation by rows, in rank order, each row by turns; and a ranked row comes after an unranked
one only if its rank is no position among the ranked rows.
-/
theorem orderJobs_ordered (distinct : (jobs.map key).Nodup)
    : Ordered unicode jobs generationRank key lastServed
        (orderJobs unicode jobs generationRank key lastServed)
      ∧ (orderJobs unicode jobs generationRank key lastServed).Pairwise (fun before after =>
          generationRank.get? (key before).generationId = none
            → ∀ rank ∈ generationRank.get? (key after).generationId,
              generationRank.entries.length ≤ rank)
      ∧ (Positions generationRank → UnrankedLast generationRank key
          (orderJobs unicode jobs generationRank key lastServed)) := by
  have rows := (sorted_orderJobs unicode jobs generationRank key lastServed).imp
    rowRank_le_of_sortKey_le
  have late : (orderJobs unicode jobs generationRank key lastServed).Pairwise
      (fun before after => generationRank.get? (key before).generationId = none
        → ∀ rank ∈ generationRank.get? (key after).generationId,
          generationRank.entries.length ≤ rank) := by
    refine rows.imp ?_
    intro before after ordered unranked rank found
    have le := (Prod.Lex.toLex_le_toLex.mp ordered).elim le_of_lt (fun same => same.1.le)
    rw [Option.mem_def] at found
    simpa [rowRank, unranked, found] using le
  refine ⟨⟨perm_orderJobs, ?_, ?_, natural_inRow distinct, ?_, ?_⟩, late, ?_⟩
  · refine rows.imp ?_
    intro before after ordered rank found other otherFound
    have le := (Prod.Lex.toLex_le_toLex.mp ordered).elim le_of_lt (fun same => same.1.le)
    rw [Option.mem_def] at found otherFound
    simpa [rowRank, found, otherFound] using le
  · intro before first between last after split same job member
    have ordered := rows
    rw [split, List.append_assoc, List.pairwise_append] at ordered
    have fromFirst := List.pairwise_cons.mp ordered.2.1
    have low := fromFirst.1 job (List.mem_append_left _ member)
    have high := (List.pairwise_append.mp fromFirst.2).2.2 job member last List.mem_cons_self
    rw [← same] at high
    exact (congrArg (fun place => (ofLex place).2) (le_antisymm low high)).symm
  · intro row taken rest split series other _ otherLeft
    exact balanced_inRow distinct split otherLeft
  · intro row job rest split
    exact first_inRow split
  · intro positions
    refine late.imp ?_
    intro before after above unranked
    rw [Option.isNone_iff_eq_none] at unranked ⊢
    by_contra ranked
    obtain ⟨rank, found⟩ := Option.ne_none_iff_exists'.mp ranked
    exact absurd (positions _ _ found) (not_lt.mpr (above unranked rank found))

def farRank : OrderedMap String ℕ := OrderedMap.empty.insert "ranked" 5

/-- One volume that waits in each of two rows. -/
def oneVolume (row : String) : JobKey := ⟨"S", "V", row⟩

theorem orderJobs_farRank
    : orderJobs QueueRun.twoSeriesRun.unicode ["ranked", "new"] farRank oneVolume .empty
      = ["new", "ranked"] := by
  simp only [orderJobs, sortKey, position, waitingVolumes, QueueRun.nameKey_twoSeriesRun]
  decide

/-- A rank that is no position puts its row behind an unranked one. -/
theorem farRank_behind
    : (["ranked", "new"].map oneVolume).Nodup
      ∧ ¬ UnrankedLast farRank oneVolume
          (orderJobs QueueRun.twoSeriesRun.unicode ["ranked", "new"] farRank oneVolume .empty) := by
  rw [orderJobs_farRank]
  decide

/-- The same rows in order, under a rank that is a position. -/
theorem ordered_nearRank
    : UnrankedLast (OrderedMap.empty.insert "ranked" 0) oneVolume
        (orderJobs QueueRun.twoSeriesRun.unicode ["ranked", "new"]
          (OrderedMap.empty.insert "ranked" 0) oneVolume .empty) :=
  (orderJobs_ordered (by decide)).2.2 (by
    intro row rank found
    rw [OrderedMap.get?_insert] at found
    split_ifs at found
    · cases found
      decide
    · cases found)

end MokuroBunko.Sched
