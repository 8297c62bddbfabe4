import Mathlib.Algebra.Order.Ring.Rat
import Mathlib.Data.List.Induction

/-! Where two windows of a long line are put together (`ppocr/ctc.rs`). A cut is never inside a run
of one class; if both windows read the same runs, each is taken from one of them.
-/

namespace MokuroBunko.Ocr

-- Runs

structure Step where
  cls : ℕ
  blank : ℚ

/-- A run of one class with its first and its last step. -/
structure ClassRun where
  cls : ℕ
  first : ℕ
  last : ℕ
deriving DecidableEq

/-- One turn of the loop of `class_runs`. -/
def addStep (runs : List ClassRun) (step : Step × ℕ) : List ClassRun :=
  if step.1.cls = 0 then runs
  else
    match runs.getLast? with
    | some run =>
        if run.cls = step.1.cls ∧ run.last + 1 = step.2 then
          runs.dropLast ++ [{ run with last := step.2 }]
        else runs ++ [⟨step.1.cls, step.2, step.2⟩]
    | none => [⟨step.1.cls, step.2, step.2⟩]

def classRuns (steps : List Step) (offset : ℕ) : List ClassRun :=
  (steps.zipIdx offset).foldl addStep []

/-- Runs one after the other, from the offset on and before the end. -/
structure Ordered (offset stop : ℕ) (runs : List ClassRun) : Prop where
  apart : runs.Pairwise (fun run next => run.last < next.first)
  within : ∀ run ∈ runs, offset ≤ run.first ∧ run.first ≤ run.last ∧ run.last < stop

theorem Ordered.concat {offset stop : ℕ} {runs : List ClassRun} (run : ClassRun)
    (ordered : Ordered offset run.first runs) (forth : run.first ≤ run.last)
    (start : offset ≤ run.first) (ends : run.last < stop)
    : Ordered offset stop (runs ++ [run]) where
  apart := by
    refine List.pairwise_append.mpr ⟨ordered.apart, List.pairwise_singleton _ _, ?_⟩
    intro before isIn next isNext
    rw [List.mem_singleton.mp isNext]
    exact (ordered.within before isIn).2.2
  within := by
    intro member isIn
    rcases List.mem_append.mp isIn with isIn | isIn
    · have own := ordered.within member isIn
      exact ⟨own.1, own.2.1, by omega⟩
    · rw [List.mem_singleton.mp isIn]
      exact ⟨start, forth, ends⟩

theorem Ordered.addStep {offset stop : ℕ} {runs : List ClassRun} (ordered : Ordered offset stop runs)
    (start : offset ≤ stop) (step : Step) : Ordered offset (stop + 1) (addStep runs (step, stop)) := by
  have later : Ordered offset (stop + 1) runs :=
    ⟨ordered.apart, fun run isIn => by have own := ordered.within run isIn; omega⟩
  unfold Ocr.addStep
  split
  case isTrue => exact later
  case isFalse =>
    split
    case h_2 empty =>
      rw [List.getLast?_eq_none_iff.mp empty] at ordered
      exact ordered.concat ⟨step.cls, stop, stop⟩ le_rfl start (Nat.lt_succ_self stop)
    case h_1 run isLast =>
      split
      case isFalse => exact ordered.concat ⟨step.cls, stop, stop⟩ le_rfl start (Nat.lt_succ_self stop)
      case isTrue joins =>
        obtain ⟨before, rfl⟩ := List.getLast?_eq_some_iff.mp isLast
        have own := ordered.within run (by simp)
        rw [List.dropLast_concat]
        have parts := List.pairwise_append.mp ordered.apart
        have kept : Ordered offset run.first before :=
          ⟨parts.1, fun other isIn => by
            have bounds := ordered.within other (by simp [isIn])
            exact ⟨bounds.1, bounds.2.1, parts.2.2 other isIn run (by simp)⟩⟩
        exact kept.concat { run with last := stop } (by simp; omega) own.1
          (Nat.lt_succ_self stop)

/-- Induction on the steps. -/
theorem ordered_foldl {offset stop : ℕ} {runs : List ClassRun} (ordered : Ordered offset stop runs)
    (start : offset ≤ stop) (steps : List Step)
    : Ordered offset (stop + steps.length) ((steps.zipIdx stop).foldl addStep runs) := by
  induction steps generalizing stop runs with
  | nil => exact ordered
  | cons step steps ih =>
      have next := ih (ordered.addStep start step) (by omega)
      rw [List.length_cons, Nat.add_comm steps.length, ← Nat.add_assoc]
      exact next

theorem ordered_classRuns (steps : List Step) (offset : ℕ)
    : Ordered offset (offset + steps.length) (classRuns steps offset) :=
  ordered_foldl ⟨.nil, nofun⟩ le_rfl steps

-- Cuts

def splits (cut : ℕ) (run : ClassRun) : Bool := run.first < cut && cut ≤ run.last

def before (cut : ℕ) (runs : List ClassRun) : List ℕ :=
  (runs.filter (·.last < cut)).map ClassRun.cls

def after (cut : ℕ) (runs : List ClassRun) : List ℕ :=
  (runs.filter (cut ≤ ·.first)).map ClassRun.cls

def score (left right : List ClassRun) (cut : ℕ) : ℕ :=
  (if before cut left = before cut right then 1 else 0)
    + (if after cut left = after cut right then 1 else 0)

/-- Twice the distance from the centre, exact in the floats of the source. -/
def distance (lo hi cut : ℕ) : ℕ := (2 * (cut : ℤ) - (lo + hi)).natAbs

/-- One turn of the loop of `choose_cut`. -/
def better (left right : List ClassRun) (lo hi : ℕ) (best : Option ℕ) (cut : ℕ) : Option ℕ :=
  if (left ++ right).any (splits cut) then best
  else
    match best with
    | none => some cut
    | some old =>
        if score left right old < score left right cut
            ∨ score left right cut = score left right old
              ∧ distance lo hi cut < distance lo hi old then some cut
        else some old

/-- The first step at which both are surest of a blank. -/
def argBlank (left right : List Step) : ℕ :=
  (((left.zip right).zipIdx).foldl
    (fun best pair =>
      let value := min pair.1.1.blank pair.1.2.blank
      if best.2 < value then (pair.2, value) else best)
    (0, -(2 ^ 128 - 2 ^ 104))).1

/-- `choose_cut`. -/
def chooseCut (left right : List Step) (lo hi : ℕ) : ℕ :=
  let found := (List.range' lo (hi + 1 - lo)).foldl
    (better (classRuns left lo) (classRuns right lo) lo hi) none
  match found with
  | some cut => cut
  | none => lo + argBlank left right

/-- The best of the cuts so far that split no run. -/
structure Best (left right : List ClassRun) (cuts : List ℕ) (best : Option ℕ) : Prop where
  isCut : ∀ cut ∈ best, cut ∈ cuts ∧ (left ++ right).any (splits cut) = false
  most : ∀ cut ∈ cuts, (left ++ right).any (splits cut) = false →
    ∃ chosen ∈ best, score left right cut ≤ score left right chosen

variable {left right : List ClassRun} {cuts : List ℕ} {best : Option ℕ} {cut : ℕ}

theorem Best.keep (kept : Best left right cuts best)
    (loses : (left ++ right).any (splits cut) = false →
      ∃ chosen ∈ best, score left right cut ≤ score left right chosen)
    : Best left right (cuts ++ [cut]) best where
  isCut chosen isBest :=
    ⟨List.mem_append_left _ (kept.isCut chosen isBest).1, (kept.isCut chosen isBest).2⟩
  most other isIn whole := by
    rcases List.mem_append.mp isIn with isIn | isIn
    · exact kept.most other isIn whole
    · obtain rfl := List.mem_singleton.mp isIn
      exact loses whole

theorem Best.take (kept : Best left right cuts best) (whole : (left ++ right).any (splits cut) = false)
    (wins : ∀ chosen ∈ best, score left right chosen ≤ score left right cut)
    : Best left right (cuts ++ [cut]) (some cut) where
  isCut chosen isBest := by
    obtain rfl := Option.some.inj isBest
    exact ⟨by simp, whole⟩
  most other isIn whole := by
    refine ⟨cut, rfl, ?_⟩
    rcases List.mem_append.mp isIn with isIn | isIn
    · obtain ⟨chosen, isBest, less⟩ := kept.most other isIn whole
      exact less.trans (wins chosen isBest)
    · rw [List.mem_singleton.mp isIn]

/-- Induction from the last cut. -/
theorem best_foldl (left right : List ClassRun) (lo hi : ℕ) (cuts : List ℕ)
    : Best left right cuts (cuts.foldl (better left right lo hi) none) := by
  induction cuts using List.reverseRecOn with
  | nil => exact ⟨nofun, nofun⟩
  | append_singleton cuts cut ih =>
      rw [List.foldl_append, List.foldl_cons, List.foldl_nil]
      generalize cuts.foldl (better left right lo hi) none = best at ih ⊢
      unfold better
      split
      case isTrue inside => exact ih.keep (fun whole => absurd inside (by simp [whole]))
      case isFalse whole =>
        rw [Bool.not_eq_true] at whole
        cases best with
        | none => exact ih.take whole nofun
        | some chosen =>
            dsimp only
            split
            case isTrue wins =>
              refine ih.take whole ?_
              intro other isBest
              obtain rfl := Option.some.inj isBest
              omega
            case isFalse loses => exact ih.keep (fun _ => ⟨chosen, rfl, by omega⟩)

theorem whole_start (left right : List Step) (lo : ℕ)
    : (classRuns left lo ++ classRuns right lo).any (splits lo) = false := by
  rw [List.any_eq_false]
  intro run isIn inside
  simp only [splits, Bool.and_eq_true, decide_eq_true_eq] at inside
  rcases List.mem_append.mp isIn with isIn | isIn
  · exact absurd ((ordered_classRuns left lo).within run isIn).1 (by omega)
  · exact absurd ((ordered_classRuns right lo).within run isIn).1 (by omega)

/-- Runs that are not split are before the cut or after it, in this order. -/
theorem before_append_after {offset stop cut : ℕ} {runs : List ClassRun}
    (ordered : Ordered offset stop runs) (whole : ∀ run ∈ runs, splits cut run = false)
    : before cut runs ++ after cut runs = runs.map ClassRun.cls := by
  induction runs with
  | nil => rfl
  | cons run runs ih =>
      have next := List.pairwise_cons.mp ordered.apart
      have own := ordered.within run List.mem_cons_self
      have rest := ih ⟨next.2, fun other isIn => ordered.within other (List.mem_cons_of_mem _ isIn)⟩
        (fun other isIn => whole other (List.mem_cons_of_mem _ isIn))
      by_cases early : run.last < cut
      · have off : ¬ cut ≤ run.first := by omega
        simp only [before, after, List.filter_cons, early, off, decide_true, decide_false, if_true,
          Bool.false_eq_true, if_false, List.map_cons, List.cons_append, List.cons.injEq, true_and]
        exact rest
      · have late : ∀ other ∈ run :: runs, cut ≤ other.first ∧ ¬ other.last < cut := by
          have unsplit : cut ≤ run.first := by
            have own := whole run List.mem_cons_self
            simp only [splits, Bool.and_eq_false_iff, decide_eq_false_iff_not] at own
            omega
          intro other isIn
          rcases List.mem_cons.mp isIn with rfl | isIn
          · exact ⟨unsplit, early⟩
          · have bounds := ordered.within other (List.mem_cons_of_mem _ isIn)
            have apart := next.1 other isIn
            omega
        rw [before, after, List.filter_eq_nil_iff.mpr (fun other isIn => by simp [late other isIn]),
          List.filter_eq_self.mpr (fun other isIn => by simp [late other isIn])]
        rfl

/-- Nothing is before the start, and everything after it. -/
theorem score_start (left right : List Step) (lo : ℕ)
    (common : (classRuns left lo).map ClassRun.cls = (classRuns right lo).map ClassRun.cls)
    : score (classRuns left lo) (classRuns right lo) lo = 2 := by
  have start (steps : List Step) : before lo (classRuns steps lo) = []
      ∧ after lo (classRuns steps lo) = (classRuns steps lo).map ClassRun.cls := by
    have within := (ordered_classRuns steps lo).within
    constructor
    · rw [before, List.filter_eq_nil_iff.mpr]
      · rfl
      · intro run isIn
        have bounds := within run isIn
        simp only [decide_eq_true_eq]
        omega
    · rw [after, List.filter_eq_self.mpr (fun run isIn => by simp [(within run isIn).1])]
  rw [score, (start left).1, (start right).1, (start left).2, (start right).2, if_pos rfl,
    if_pos common]

/-- A cut is in the compared part and splits no glyph of either window; and if both read the same
sequence of glyphs, those of the left before the cut and those of the right after it are that
sequence.
-/
theorem chooseCut_whole (left right : List Step) {lo hi : ℕ} (forth : lo ≤ hi)
    : lo ≤ chooseCut left right lo hi ∧ chooseCut left right lo hi ≤ hi
      ∧ (∀ run ∈ classRuns left lo ++ classRuns right lo,
        ¬ (run.first < chooseCut left right lo hi ∧ chooseCut left right lo hi ≤ run.last))
      ∧ ((classRuns left lo).map ClassRun.cls = (classRuns right lo).map ClassRun.cls →
        before (chooseCut left right lo hi) (classRuns left lo)
          ++ after (chooseCut left right lo hi) (classRuns right lo)
          = (classRuns right lo).map ClassRun.cls) := by
  have best := best_foldl (classRuns left lo) (classRuns right lo) lo hi
    (List.range' lo (hi + 1 - lo))
  obtain ⟨cut, isBest, most⟩ := best.most lo (List.mem_range'_1.mpr ⟨le_rfl, by omega⟩)
    (whole_start left right lo)
  have chosen : chooseCut left right lo hi = cut := by
    unfold chooseCut
    rw [isBest]
  obtain ⟨isCut, whole⟩ := best.isCut cut isBest
  rw [List.any_eq_false] at whole
  have bounds := List.mem_range'_1.mp isCut
  rw [chosen]
  refine ⟨bounds.1, by omega, ?_, ?_⟩
  · intro run isIn
    simpa [splits] using whole run isIn
  · intro common
    rw [score_start left right lo common, score] at most
    have same : before cut (classRuns left lo) = before cut (classRuns right lo) := by
      by_contra other
      rw [if_neg other] at most
      split at most <;> omega
    rw [same]
    refine before_append_after (ordered_classRuns right lo) ?_
    intro run isIn
    simpa using whole run (List.mem_append_right _ isIn)

theorem chooseCut_whole_doubled
    : 4 ≤ chooseCut [⟨7, 0⟩, ⟨0, 1⟩, ⟨7, 0⟩] [⟨7, 0⟩, ⟨0, 1⟩, ⟨7, 0⟩] 4 7 :=
  (chooseCut_whole [⟨7, 0⟩, ⟨0, 1⟩, ⟨7, 0⟩] [⟨7, 0⟩, ⟨0, 1⟩, ⟨7, 0⟩] (by decide)).1

end MokuroBunko.Ocr
