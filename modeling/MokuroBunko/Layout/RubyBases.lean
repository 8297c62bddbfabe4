import Mathlib.Data.Rat.Floor
import MokuroBunko.Layout.PageLayout

/-! Whether the bases of a page's ruby runs are lines of its blocks (`layout/furigana.rs`). The bases
of a pass are chosen before it begins, so a base of the last pass can become ruby in it.
-/

namespace MokuroBunko.Layout

open MokuroBunko.Lib

variable {F Block : Type} [Floats F] (sorting : Sorting)

-- Passes

/-- The run that the candidate becomes over the bases, if it finds one. -/
def runOver (limits : Line F → Option F) (pitch : Option F) (bases : List (Line F))
    (cand : Line F) : Option (Ruby F) := do
  let limit ← limits cand
  let (_, base, span) ← bestBase cand bases pitch limit
  some (rubyRun cand base span)

section Passes

variable {limits : Line F → Option F} {pitch : Option F} {bases : List (Line F)}

theorem rubyNext_eq (ruby : List (Ruby F)) (cand : Line F)
    : rubyNext limits pitch bases ruby cand
      = if isTaken ruby cand.index then ruby
        else ruby ++ (runOver limits pitch bases cand).toList := by
  simp only [rubyNext, runOver]
  cases limits cand with
  | none => simp
  | some limit =>
      simp only [Option.bind_eq_bind, Option.bind_some]
      cases bestBase cand bases pitch limit with
      | none => simp
      | some best => rfl

theorem runOver_line {cand : Line F} {run : Ruby F}
    (found : runOver limits pitch bases cand = some run)
    : run.line = cand.index := by
  simp only [runOver, Option.bind_eq_bind, Option.bind_eq_some_iff, Option.some.injEq] at found
  obtain ⟨limit, -, best, -, rfl⟩ := found
  rfl

theorem bestBase_mem {cand base : Line F} {bases : List (Line F)} {limit dist : F} {span : F × F}
    (found : bestBase cand bases pitch limit = some (dist, base, span))
    : base ∈ bases := by
  have all : ∀ best ∈ bestBase cand bases pitch limit, best.2.1 ∈ bases := by
    apply List.foldlRecOn
      (motive := fun found => ∀ best ∈ found, (best : F × Line F × F × F).2.1 ∈ bases)
    · intro best isBest
      cases isBest
    · intro found before next isNext best isBest
      dsimp only at isBest
      split at isBest
      · exact before best isBest
      split at isBest
      · exact before best isBest
      split at isBest <;> split at isBest
      all_goals first
        | exact before best isBest
        | cases isBest; exact isNext
  exact all _ found

theorem runOver_base {cand : Line F} {run : Ruby F}
    (found : runOver limits pitch bases cand = some run)
    : ∃ base ∈ bases, run.base = base.index := by
  simp only [runOver, Option.bind_eq_bind, Option.bind_eq_some_iff, Option.some.injEq] at found
  obtain ⟨limit, -, ⟨dist, base, span⟩, isBest, rfl⟩ := found
  exact ⟨base, bestBase_mem isBest, rfl⟩

theorem mem_foldl_rubyNext {cands : List (Line F)} (nodup : (cands.map Line.index).Nodup)
    {ruby : List (Ruby F)} {run : Ruby F}
    : run ∈ cands.foldl (rubyNext limits pitch bases) ruby
      ↔ run ∈ ruby ∨ ∃ cand ∈ cands, isTaken ruby cand.index = false
        ∧ runOver limits pitch bases cand = some run := by
  induction cands generalizing ruby with
  | nil => simp
  | cons cand rest ih =>
      rw [List.map_cons, List.nodup_cons] at nodup
      obtain ⟨apart, nodup⟩ := nodup
      have kept {other : Line F} (later : other ∈ rest)
          : isTaken (rubyNext limits pitch bases ruby cand) other.index
            = isTaken ruby other.index := by
        rw [rubyNext_eq]
        split
        · rfl
        simp only [isTaken, List.any_append, Bool.or_eq_left_iff_imp]
        intro taken
        obtain ⟨new, isNew, same⟩ := List.any_eq_true.mp taken
        rw [Option.mem_toList] at isNew
        have line := runOver_line isNew
        have index : cand.index = other.index := by
          rw [← line]
          exact eq_of_beq same
        exact absurd (index ▸ List.mem_map_of_mem later) apart
      rw [List.foldl_cons, ih nodup]
      have step : run ∈ rubyNext limits pitch bases ruby cand
          ↔ run ∈ ruby ∨ isTaken ruby cand.index = false
            ∧ runOver limits pitch bases cand = some run := by
        rw [rubyNext_eq]
        split
        case isTrue taken => simp [taken]
        case isFalse free => simp [free, Option.mem_toList]
      have others : (∃ other ∈ rest, isTaken (rubyNext limits pitch bases ruby cand) other.index
            = false ∧ runOver limits pitch bases other = some run)
          ↔ ∃ other ∈ rest, isTaken ruby other.index = false
            ∧ runOver limits pitch bases other = some run := by
        constructor
        · rintro ⟨other, later, free, found⟩
          exact ⟨other, later, kept later ▸ free, found⟩
        · rintro ⟨other, later, free, found⟩
          exact ⟨other, later, (kept later).trans free, found⟩
      rw [step, others, or_assoc]
      simp only [List.exists_mem_cons_iff]

end Passes

-- Bases

section Bases

variable (limits : Line F → Option F) (pitch : Option F)

/-- The bases of the first pass: the lines that cannot be ruby. -/
def firstBases (lines : List (Line F)) : List (Line F) :=
  lines.filter (fun line => hasKanji line.text && (limits line).isNone)

/-- The line finds no base among the lines that cannot be ruby. -/
def Left (lines : List (Line F)) (line : Line F) : Prop :=
  runOver limits pitch (firstBases limits lines) line = none

instance (lines : List (Line F)) (line : Line F) : Decidable (Left limits pitch lines line) :=
  inferInstanceAs (Decidable (_ = none))

/-- The bases of the final pass: the lines that found none. -/
def lastBases (lines : List (Line F)) : List (Line F) :=
  lines.filter (fun line => hasKanji line.text ∧ Left limits pitch lines line)

/-- No line that found no base in the first pass finds one in the final pass that finds one itself. -/
def BasesStay (lines : List (Line F)) : Prop :=
  ∀ cand ∈ lines, Left limits pitch lines cand
    → ∀ run ∈ runOver limits pitch (lastBases limits pitch lines) cand,
      ∀ base ∈ lines, base.index = run.base
        → runOver limits pitch (lastBases limits pitch lines) base = none

variable {limits : Line F → Option F} {pitch : Option F} {lines : List (Line F)}

theorem mem_rubyPass_first (nodup : (lines.map Line.index).Nodup) {run : Ruby F}
    : run ∈ rubyPass limits pitch lines [] false
      ↔ ∃ cand ∈ lines, runOver limits pitch (firstBases limits lines) cand = some run := by
  have bases : lines.filter (fun line => hasKanji line.text && ! isTaken ([] : List (Ruby F)) line.index
      && ((limits line).isNone || false)) = firstBases limits lines := by
    simp [firstBases, isTaken]
  rw [rubyPass, bases, mem_foldl_rubyNext nodup]
  simp [isTaken]

theorem isTaken_first (nodup : (lines.map Line.index).Nodup) {line : Line F} (member : line ∈ lines)
    : isTaken (rubyPass limits pitch lines [] false) line.index = false
      ↔ Left limits pitch lines line := by
  rw [← Bool.not_eq_true, isTaken_iff, List.mem_map, Left, Option.eq_none_iff_forall_ne_some]
  constructor
  · intro free run found
    exact free ⟨run, (mem_rubyPass_first nodup).mpr ⟨line, member, found⟩, runOver_line found⟩
  · rintro free ⟨run, isRun, same⟩
    obtain ⟨cand, isCand, found⟩ := (mem_rubyPass_first nodup).mp isRun
    have line := runOver_line found
    have one : cand = _ := List.inj_on_of_nodup_map nodup isCand member (line ▸ same)
    exact free run (one ▸ found)

theorem mem_rubyPass_last (nodup : (lines.map Line.index).Nodup) {run : Ruby F}
    : run ∈ rubyPass limits pitch lines (rubyPass limits pitch lines [] false) true
      ↔ run ∈ rubyPass limits pitch lines [] false
        ∨ ∃ cand ∈ lines, Left limits pitch lines cand
          ∧ runOver limits pitch (lastBases limits pitch lines) cand = some run := by
  have bases : lines.filter (fun line => hasKanji line.text
      && ! isTaken (rubyPass limits pitch lines [] false) line.index
      && ((limits line).isNone || true)) = lastBases limits pitch lines := by
    apply List.filter_congr
    intro line member
    simp only [Bool.or_true, Bool.and_true, Bool.decide_and, Bool.decide_eq_true]
    congr 1
    rw [Bool.eq_iff_iff, decide_eq_true_eq, ← isTaken_first nodup member, Bool.not_eq_true']
  rw [rubyPass, bases, mem_foldl_rubyNext nodup]
  refine or_congr_right (exists_congr fun cand => and_congr_right fun member => ?_)
  rw [isTaken_first nodup member]

theorem isTaken_last (nodup : (lines.map Line.index).Nodup) {line : Line F} (member : line ∈ lines)
    : isTaken (rubyPass limits pitch lines (rubyPass limits pitch lines [] false) true) line.index
        = false
      ↔ Left limits pitch lines line
        ∧ runOver limits pitch (lastBases limits pitch lines) line = none := by
  rw [← isTaken_first nodup member, Option.eq_none_iff_forall_ne_some]
  simp only [← Bool.not_eq_true, isTaken_iff, List.mem_map, mem_rubyPass_last nodup]
  constructor
  · intro free
    have early : ¬ ∃ run, run ∈ rubyPass limits pitch lines [] false ∧ run.line = line.index := by
      rintro ⟨run, isRun, same⟩
      exact free ⟨run, .inl isRun, same⟩
    refine ⟨early, fun run found => ?_⟩
    have left : Left limits pitch lines line := by
      rwa [← isTaken_first nodup member, ← Bool.not_eq_true, isTaken_iff, List.mem_map]
    exact free ⟨run, .inr ⟨line, member, left, found⟩, runOver_line found⟩
  · rintro ⟨early, late⟩ ⟨run, isRun | ⟨cand, isCand, -, found⟩, same⟩
    · exact early ⟨run, isRun, same⟩
    · have line := runOver_line found
      have one : cand = _ := List.inj_on_of_nodup_map nodup isCand member (line ▸ same)
      exact late run (one ▸ found)

theorem bases_free_iff (nodup : (lines.map Line.index).Nodup)
    : (∀ run ∈ [false, true].foldl (rubyPass limits pitch lines) [],
        isTaken ([false, true].foldl (rubyPass limits pitch lines) []) run.base = false)
      ↔ BasesStay limits pitch lines := by
  simp only [List.foldl_cons, List.foldl_nil, mem_rubyPass_last nodup]
  constructor
  · intro free cand isCand left run found base isBase same
    have isFree := free run (.inr ⟨cand, isCand, left, found⟩)
    rw [← same, isTaken_last nodup isBase] at isFree
    exact isFree.2
  · rintro stays run (early | ⟨cand, isCand, left, found⟩)
    · -- a base of the first pass is no candidate
      obtain ⟨cand, -, found⟩ := (mem_rubyPass_first nodup).mp early
      obtain ⟨base, isBase, same⟩ := runOver_base found
      obtain ⟨isLine, text⟩ := List.mem_filter.mp isBase
      have never : limits base = none := by
        rw [Bool.and_eq_true, Option.isNone_iff_eq_none] at text
        exact text.2
      have nothing (bases : List (Line F)) : runOver limits pitch bases base = none := by
        simp [runOver, never]
      rw [same, isTaken_last nodup isLine]
      exact ⟨nothing _, nothing _⟩
    · obtain ⟨base, isBase, same⟩ := runOver_base found
      obtain ⟨isLine, text⟩ := List.mem_filter.mp isBase
      rw [same, isTaken_last nodup isLine]
      exact ⟨(decide_eq_true_eq.mp text).2, stays cand isCand left run found base isLine same.symm⟩

end Bases

-- Pages

/-- The measured lines of the page, with their orientations. -/
def pageLines (page : RawPage F) : List (Line F) :=
  decideOrientations (measureLines page.lines).1

def pageLimits (page : RawPage F) (line : Line F) : Option F :=
  rubyCandidacy line ((columnLattice sorting (pageLines page)).map Prod.snd)

def pagePitch (page : RawPage F) : Option F :=
  (columnLattice sorting (pageLines page)).map Prod.fst

/-- Every ruby run has its base in a block. -/
def BasesInBlocks (layout : PageLayout F Block) : Prop :=
  ∀ run ∈ layout.ruby, run.base ∈ layout.groups.flatten

/-- The runs that the two passes over the page find. -/
def pageRuby (page : RawPage F) : List (Ruby F) :=
  [false, true].foldl
    (rubyPass (pageLimits sorting page) (pagePitch sorting page) (pageLines page)) []

theorem pageLines_nodup (page : RawPage F)
    : ((pageLines page).map Line.index ++ (measureLines page.lines).2).Nodup := by
  rw [pageLines, decideOrientations_index, (measureLines_perm page.lines).nodup_iff]
  exact List.nodup_range

theorem pageRuby_base {page : RawPage F} {run : Ruby F} (isRun : run ∈ pageRuby sorting page)
    : run.base ∈ (pageLines page).map Line.index := by
  have nodup := (List.nodup_append.mp (pageLines_nodup page)).1
  simp only [pageRuby, List.foldl_cons, List.foldl_nil, mem_rubyPass_last nodup,
    mem_rubyPass_first nodup] at isRun
  rcases isRun with ⟨cand, -, found⟩ | ⟨cand, -, -, found⟩
  all_goals
    obtain ⟨base, isBase, same⟩ := runOver_base found
    rw [same]
    exact List.mem_map_of_mem (List.mem_of_mem_filter isBase)

theorem basesInBlocks_iff (parts : Parts F Block) (page : RawPage F)
    : BasesInBlocks (layoutPage sorting parts page)
      ↔ ∀ run ∈ pageRuby sorting page, isTaken (pageRuby sorting page) run.base = false := by
  have conserved := layoutPage_conserves sorting parts page
  have nodup := conserved.nodup_iff.mpr List.nodup_range
  have found : (layoutPage sorting parts page).ruby.Perm (pageRuby sorting page) :=
    List.mergeSort_perm _ _
  have dropped : (layoutPage sorting parts page).dropped = (measureLines page.lines).2 := rfl
  refine forall_congr' fun run => ?_
  rw [found.mem_iff]
  refine imp_congr_right fun isRun => ?_
  have isLine := pageRuby_base sorting isRun
  have apart := (List.nodup_append.mp (pageLines_nodup page)).2.2
  have free : isTaken (pageRuby sorting page) run.base = false
      ↔ run.base ∉ (layoutPage sorting parts page).ruby.map Ruby.line := by
    rw [← Bool.not_eq_true, isTaken_iff, (found.map Ruby.line).mem_iff]
  rw [free]
  constructor
  · intro grouped taken
    exact (List.nodup_append.mp (List.nodup_append.mp nodup).1).2.2 _ grouped _ taken rfl
  · intro free
    have listed : run.base ∈ List.range page.lines.length := by
      rw [← (measureLines_perm page.lines).mem_iff, List.mem_append, ← decideOrientations_index]
      exact .inl isLine
    rw [← conserved.mem_iff, List.mem_append, List.mem_append] at listed
    rcases listed with (grouped | taken) | isDropped
    · exact grouped
    · exact absurd taken free
    · exact absurd rfl (apart _ isLine _ (dropped ▸ isDropped))

/-- The bases of a page's ruby are in its blocks exactly if the bases of the final pass stay. -/
theorem bases_in_blocks_iff (parts : Parts F Block) (page : RawPage F)
    : BasesInBlocks (layoutPage sorting parts page)
      ↔ BasesStay (pageLimits sorting page) (pagePitch sorting page) (pageLines page) := by
  rw [basesInBlocks_iff, pageRuby, bases_free_iff]
  exact (List.nodup_append.mp (pageLines_nodup page)).1

-- A chain

/-- Numbers as floats, for pages whose boxes are upright: every angle is 0 and every distance runs
along an axis.
-/
@[reducible] def uprightFloats : Floats ℚ where
  decidableLT := inferInstance
  decidableLE := inferInstance
  infinity := 2 ^ 1024
  nan := 0
  abs := abs
  floor value := ⌊value⌋
  ceil value := ⌈value⌉
  toInt value := if 0 ≤ value then ⌊value⌋ else ⌈value⌉
  cos _ := 1
  sin _ := 0
  atan2 _ _ := 0
  radians _ := 0
  degrees _ := 0
  hypot x y := max |x| |y|
  roundDigits value _ := value
  sum := List.sum

def noParts : Parts ℚ Unit where
  findBodies _ := []
  classifyRoles _ _ _ _ _ := .text
  buildBlock _ _ _ _ := ()
  growBoxesOverRuby blocks _ _ _ _ _ := blocks

def column (left right : ℚ) (text : String) : RawLine ℚ where
  quad := [(left, 0), (right, 0), (right, 100), (left, 100)]
  score := 1
  text := text
  conf := 0.3

def chain : RawPage ℚ where
  width := 200
  height := 200
  lines := [column 0 40 "漢字", column 40 60 "漢字", column 60 70 "かな"]

/-- The second is ruby of the first, and the third is ruby of the second. -/
theorem not_bases_in_blocks_chain
    : ¬ BasesInBlocks (@layoutPage ℚ Unit uprightFloats default noParts chain) := by
  have taken : ¬ ∀ run ∈ @pageRuby ℚ uprightFloats default chain,
      isTaken (@pageRuby ℚ uprightFloats default chain) run.base = false := by
    decide +kernel
  intro kept
  exact taken ((@basesInBlocks_iff ℚ Unit uprightFloats default noParts chain).mp kept)

end MokuroBunko.Layout
