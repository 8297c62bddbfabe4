import MokuroBunko.Data.Json
import Mathlib.Data.List.Sort
import Mathlib.MeasureTheory.Measure.Lebesgue.Basic

/-! The wall clock that the windows of finished volumes cover together (`throughput.rs`):
windows are sorted, then merged from the left, and what comes out is the measure of their
union.
-/

namespace MokuroBunko.Sched

open MokuroBunko.Data MeasureTheory

-- The sweep

/-- A stretch of the clock, from its start to its end. -/
abbrev Window := ℚ × ℚ

/-- By start, then by end. -/
def Window.le (first second : Window) : Prop :=
  first.1 < second.1 ∨ (first.1 = second.1 ∧ first.2 ≤ second.2)

instance : DecidableRel Window.le := fun _ _ => inferInstanceAs (Decidable (_ ∨ _))

instance : Std.Total Window.le where
  total first second := by
    unfold Window.le
    rcases lt_trichotomy first.1 second.1 with before | same | after
    · exact .inl (.inl before)
    · rcases le_total first.2 second.2 with shorter | longer
      · exact .inl (.inr ⟨same, shorter⟩)
      · exact .inr (.inr ⟨same.symm, longer⟩)
    · exact .inr (.inl after)

instance : IsTrans Window Window.le where
  trans first second third := by
    rintro (before | ⟨same, shorter⟩) (next | ⟨same', shorter'⟩)
    · exact .inl (before.trans next)
    · exact .inl (same' ▸ before)
    · exact .inl (same ▸ next)
    · exact .inr ⟨same.trans same', shorter.trans shorter'⟩

instance : Std.Antisymm Window.le where
  antisymm first second := by
    rintro (before | ⟨same, shorter⟩) (after | ⟨_, longer⟩)
    · exact absurd after before.asymm
    · exact absurd before (by simp_all)
    · exact absurd after (by simp_all)
    · exact Prod.ext same (shorter.antisymm longer)

/-- The loop of `covered_seconds`: what was closed so far, and the span still open. -/
def sweep (total : ℚ) (span : Window) : List Window → ℚ
  | [] => total + (span.2 - span.1)
  | (start, finish) :: rest =>
      if start ≤ span.2 then sweep total (span.1, max span.2 finish) rest
      else sweep (total + (span.2 - span.1)) (start, finish) rest

/-- `covered_seconds`: how much of the clock the windows cover together. -/
def coveredSeconds (windows : List Window) : ℚ :=
  match windows.insertionSort Window.le with
  | [] => 0
  | first :: rest => sweep 0 first rest

-- The union of the windows

/-- The moments within a window. -/
def Window.moments (window : Window) : Set ℝ := Set.Icc (window.1 : ℝ) (window.2 : ℝ)

/-- The moments within some window. -/
def covered (windows : List Window) : Set ℝ := ⋃ window ∈ windows, window.moments

/-- The windows do not end before they begin. -/
def Forward (windows : List Window) : Prop := ∀ window ∈ windows, window.1 ≤ window.2

@[simp] theorem covered_nil : covered [] = ∅ := by simp [covered]

@[simp] theorem covered_cons (window : Window) (rest : List Window)
    : covered (window :: rest) = window.moments ∪ covered rest := by
  simp [covered]

theorem covered_perm {first second : List Window} (perm : first.Perm second)
    : covered first = covered second := by
  simp [covered, perm.mem_iff]

theorem measurable_moments (window : Window) : MeasurableSet window.moments := measurableSet_Icc

theorem volume_moments (window : Window)
    : volume window.moments = ENNReal.ofReal ((window.2 - window.1 : ℚ) : ℝ) := by
  rw [Window.moments, Real.volume_Icc]
  push_cast
  rfl

theorem moments_union {span window : Window} (later : span.1 ≤ window.1)
    (within : window.1 ≤ span.2)
    : span.moments ∪ window.moments = Window.moments (span.1, max span.2 window.2) := by
  ext moment
  have laterReal : (span.1 : ℝ) ≤ (window.1 : ℝ) := by exact_mod_cast later
  have withinReal : (window.1 : ℝ) ≤ (span.2 : ℝ) := by exact_mod_cast within
  simp only [Window.moments, Set.mem_union, Set.mem_Icc, Rat.cast_max, le_max_iff]
  constructor
  · rintro (⟨after, before⟩ | ⟨after, before⟩)
    · exact ⟨after, .inl before⟩
    · exact ⟨laterReal.trans after, .inr before⟩
  · rintro ⟨after, before | before⟩
    · exact .inl ⟨after, before⟩
    · rcases le_total moment (span.2 : ℝ) with early | late
      · exact .inl ⟨after, early⟩
      · exact .inr ⟨withinReal.trans late, before⟩

theorem sweep_eq_add (total : ℚ) (span : Window) (rest : List Window)
    : sweep total span rest = total + sweep 0 span rest := by
  induction rest generalizing total span with
  | nil => simp [sweep]
  | cons window rest ih =>
      obtain ⟨start, finish⟩ := window
      unfold sweep
      split
      · exact ih total _
      · rw [ih (total + _), ih (0 + _)]
        ring

theorem volume_sweep {span : Window} {rest : List Window} (forward : span.1 ≤ span.2)
    (forwards : Forward rest) (later : ∀ window ∈ rest, span.1 ≤ window.1)
    (sorted : rest.Pairwise Window.le)
    : 0 ≤ sweep 0 span rest
      ∧ volume (span.moments ∪ covered rest) = ENNReal.ofReal (sweep 0 span rest : ℝ) := by
  induction rest generalizing span with
  | nil =>
      refine ⟨by simpa [sweep] using forward, ?_⟩
      simp [sweep, volume_moments]
  | cons window rest ih =>
      obtain ⟨start, finish⟩ := window
      obtain ⟨behind, sortedRest⟩ := List.pairwise_cons.mp sorted
      have begins : span.1 ≤ start := later _ List.mem_cons_self
      have ordered : start ≤ finish := forwards _ List.mem_cons_self
      have forwardsRest : Forward rest :=
        fun other member => forwards other (List.mem_cons_of_mem _ member)
      have laterRest : ∀ other ∈ rest, start ≤ other.1 := by
        intro other member
        rcases behind other member with before | ⟨same, _⟩
        · exact before.le
        · exact same.le
      unfold sweep
      rw [covered_cons, ← Set.union_assoc]
      split
      case isTrue within =>
        rw [moments_union begins within]
        exact ih (forward.trans (le_max_left _ _)) forwardsRest
          (fun other member => begins.trans (laterRest other member)) sortedRest
      case isFalse apart =>
        rw [not_le] at apart
        obtain ⟨nonneg, measured⟩ :=
          @ih (start, finish) ordered forwardsRest laterRest sortedRest
        rw [sweep_eq_add, zero_add]
        have length : 0 ≤ span.2 - span.1 := sub_nonneg.mpr forward
        refine ⟨add_nonneg length nonneg, ?_⟩
        have disjoint : Disjoint span.moments
            (Window.moments (start, finish) ∪ covered rest) := by
          rw [Set.disjoint_left]
          intro moment early
          have gap : moment < (start : ℝ) :=
            early.2.trans_lt (by exact_mod_cast apart)
          simp only [covered, Set.mem_union, Set.mem_iUnion, not_or, not_exists]
          refine ⟨fun inside => absurd inside.1 (not_le.mpr gap), ?_⟩
          intro other member inside
          have begun : (start : ℝ) ≤ (other.1 : ℝ) := by exact_mod_cast laterRest other member
          exact absurd (begun.trans inside.1) (not_le.mpr gap)
        rw [Set.union_assoc, measure_union' disjoint (measurable_moments span), measured,
          volume_moments, ← ENNReal.ofReal_add (by exact_mod_cast length)
            (by exact_mod_cast nonneg)]
        push_cast
        rfl

-- The covered seconds

theorem coveredSeconds_perm {first second : List Window} (perm : first.Perm second)
    : coveredSeconds first = coveredSeconds second := by
  have same : first.insertionSort Window.le = second.insertionSort Window.le :=
    ((List.perm_insertionSort _ first).trans
      (perm.trans (List.perm_insertionSort _ second).symm)).eq_of_pairwise'
      (List.pairwise_insertionSort _ first) (List.pairwise_insertionSort _ second)
  unfold coveredSeconds
  rw [same]

theorem coveredSeconds_volume {windows : List Window} (forward : Forward windows)
    : 0 ≤ coveredSeconds windows
      ∧ volume (covered windows) = ENNReal.ofReal (coveredSeconds windows : ℝ) := by
  have perm := List.perm_insertionSort Window.le windows
  have sorted := List.pairwise_insertionSort Window.le windows
  rw [← covered_perm perm]
  unfold coveredSeconds
  cases order : windows.insertionSort Window.le with
  | nil => simp
  | cons first rest =>
      rw [order] at perm sorted
      obtain ⟨behind, sortedRest⟩ := List.pairwise_cons.mp sorted
      have forwards : ∀ window ∈ first :: rest, window.1 ≤ window.2 :=
        fun window member => forward window (perm.mem_iff.mp member)
      have later : ∀ window ∈ rest, first.1 ≤ window.1 := by
        intro window member
        rcases behind window member with before | ⟨same, _⟩
        · exact before.le
        · exact same.le
      rw [covered_cons]
      exact volume_sweep (forwards first List.mem_cons_self)
        (fun window member => forwards window (List.mem_cons_of_mem _ member)) later sortedRest

theorem sweep_le_sum (span : Window) {rest : List Window} (forwards : Forward rest)
    : sweep 0 span rest
      ≤ (span.2 - span.1) + (rest.map (fun window => window.2 - window.1)).sum := by
  induction rest generalizing span with
  | nil => simp [sweep]
  | cons window rest ih =>
      obtain ⟨start, finish⟩ := window
      have forwardsRest : Forward rest :=
        fun other member => forwards other (List.mem_cons_of_mem _ member)
      have ordered : start ≤ finish := forwards _ List.mem_cons_self
      rw [List.map_cons, List.sum_cons]
      unfold sweep
      split
      case isTrue within =>
        have merged := ih (span.1, max span.2 finish) forwardsRest
        have longer : max span.2 finish ≤ span.2 + (finish - start) :=
          max_le (by linarith) (by linarith)
        dsimp only at merged
        linarith
      case isFalse apart =>
        have closed := ih (start, finish) forwardsRest
        rw [sweep_eq_add]
        dsimp only at closed
        linarith

theorem coveredSeconds_le_sum {windows : List Window} (forward : Forward windows)
    : coveredSeconds windows ≤ (windows.map (fun window => window.2 - window.1)).sum := by
  have perm := List.perm_insertionSort Window.le windows
  rw [← (perm.map (fun window => window.2 - window.1)).sum_eq]
  unfold coveredSeconds
  cases order : windows.insertionSort Window.le with
  | nil => simp
  | cons first rest =>
      rw [order] at perm
      rw [List.map_cons, List.sum_cons]
      exact sweep_le_sum first (fun window member =>
        forward window (perm.mem_iff.mp (List.mem_cons_of_mem _ member)))

theorem coveredSeconds_le_interval {windows : List Window} (forward : Forward windows)
    {start finish : ℚ} (ordered : start ≤ finish)
    (within : ∀ window ∈ windows, start ≤ window.1 ∧ window.2 ≤ finish)
    : coveredSeconds windows ≤ finish - start := by
  have inside : covered windows ⊆ Window.moments (start, finish) := by
    intro moment member
    simp only [covered, Set.mem_iUnion] at member
    obtain ⟨window, listed, after, before⟩ := member
    have left : (start : ℝ) ≤ (window.1 : ℝ) := by exact_mod_cast (within window listed).1
    have right : (window.2 : ℝ) ≤ (finish : ℝ) := by exact_mod_cast (within window listed).2
    exact ⟨left.trans after, before.trans right⟩
  have below : volume (covered windows) ≤ volume (Window.moments (start, finish)) :=
    measure_mono inside
  have length : (0 : ℝ) ≤ ((finish - start : ℚ) : ℝ) := by
    exact_mod_cast sub_nonneg.mpr ordered
  rw [(coveredSeconds_volume forward).2, volume_moments,
    ENNReal.ofReal_le_ofReal_iff length] at below
  exact_mod_cast below

/-- Of windows that end no earlier than they begin, `covered_seconds` is the measure of the
union; it is the same in every order, and bounded by the lengths together and by an interval
around them all. -/
theorem coveredSeconds_measures {windows : List Window} (forward : Forward windows)
    : volume (covered windows) = ENNReal.ofReal (coveredSeconds windows : ℝ)
      ∧ 0 ≤ coveredSeconds windows
      ∧ (∀ others, windows.Perm others → coveredSeconds others = coveredSeconds windows)
      ∧ coveredSeconds windows ≤ (windows.map (fun window => window.2 - window.1)).sum
      ∧ ∀ start finish : ℚ, start ≤ finish
          → (∀ window ∈ windows, start ≤ window.1 ∧ window.2 ≤ finish)
          → coveredSeconds windows ≤ finish - start := by
  obtain ⟨nonneg, measured⟩ := coveredSeconds_volume forward
  refine ⟨measured, nonneg, ?_, coveredSeconds_le_sum forward, ?_⟩
  · intro others perm
    exact coveredSeconds_perm perm.symm
  · intro start finish ordered within
    exact coveredSeconds_le_interval forward ordered within

/-- Nested, touching, empty and repeated windows, out of order. -/
theorem coveredSeconds_measures_mixed
    : volume (covered [(5, 7), (0, 4), (1, 2), (4, 5), (9, 9), (0, 4)])
      = ENNReal.ofReal
        (coveredSeconds [(5, 7), (0, 4), (1, 2), (4, 5), (9, 9), (0, 4)] : ℝ) :=
  (coveredSeconds_measures (by unfold Forward; norm_num)).1

/-- A reversed window covers nothing and takes its length away. -/
theorem coveredSeconds_reversed
    : coveredSeconds [(5, 3)] = -2 ∧ volume (covered [(5, 3)]) = 0 := by
  refine ⟨by decide +kernel, ?_⟩
  rw [covered_cons, covered_nil, Set.union_empty, volume_moments]
  norm_num

-- Throughput

/-- `Sample`: one finished volume; what is not a number is missing. -/
structure Sample where
  pages : Option ℚ
  seconds : Option ℚ
  finish : Option ℚ

/-- `Throughput`: pages over the seconds of the volumes, the newest at `lastAt`. -/
structure Throughput where
  pages : ℚ
  seconds : ℚ
  volumes : ℕ
  lastAt : Option ℚ

/-- The pages and seconds of a sample that counts. -/
def Sample.measured? (sample : Sample) : Option (ℚ × ℚ) :=
  match sample.pages, sample.seconds with
  | some pages, some seconds => if pages ≤ 0 ∨ seconds ≤ 0 then none else some (pages, seconds)
  | _, _ => none

/-- The window of a sample whose end is known. -/
def Sample.window? (sample : Sample) : Option Window :=
  match sample.measured?, sample.finish with
  | some (_, seconds), some finish => some (finish - seconds, finish)
  | _, _ => none

/-- The seconds of a sample whose end is not known. -/
def Sample.loose (sample : Sample) : ℚ :=
  match sample.measured?, sample.finish with
  | some (_, seconds), none => seconds
  | _, _ => 0

/-- `throughput_of`: the pages over the wall seconds. -/
def throughputOf (samples : List Sample) (lastAt : Option ℚ) : Option Throughput :=
  let counted := samples.filterMap Sample.measured?
  let seconds := (samples.map Sample.loose).sum
    + coveredSeconds (samples.filterMap Sample.window?)
  if counted.length = 0 ∨ seconds ≤ 0 then none
  else some {
    pages := (counted.map Prod.fst).sum
    seconds
    volumes := counted.length
    lastAt
  }

theorem forward_windows (samples : List Sample)
    : Forward (samples.filterMap Sample.window?) := by
  intro window member
  obtain ⟨sample, _, found⟩ := List.mem_filterMap.mp member
  unfold Sample.window? at found
  split at found
  case h_1 pages seconds finish measured _ =>
    cases found
    have positive : 0 < seconds := by
      unfold Sample.measured? at measured
      split at measured
      · split at measured
        · cases measured
        case isFalse counts =>
          cases measured
          exact not_le.mp (fun small => counts (.inr small))
      · cases measured
    exact sub_le_self _ positive.le
  case h_2 => cases found

def single : Sample := ⟨some 4, some 2, some 10⟩

theorem throughputOf_single : throughputOf [single] none = some ⟨4, 2, 1, none⟩ := by
  have covered : coveredSeconds ([single].filterMap Sample.window?) = 2 := by decide +kernel
  unfold throughputOf
  rw [covered]
  simp [single, Sample.measured?, Sample.loose]

end MokuroBunko.Sched
