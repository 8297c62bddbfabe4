import MokuroBunko.Layout.Geometry

/-! Furigana taken out of a page (`layout/furigana.rs`): what is kept and what is ruby are the lines
of the page.
-/

namespace MokuroBunko.Layout

open MokuroBunko.Lib

-- Script

def bouten : List Char := "・･、，,.﹅﹆丶ヽ゛゜'`".toList

def isKanji (char : Char) : Bool :=
  let code := char.toNat
  (0x4E00 ≤ code && code ≤ 0x9FFF) || (0x3400 ≤ code && code ≤ 0x4DBF)
    || (0xF900 ≤ code && code ≤ 0xFAFF) || (0x20000 ≤ code && code ≤ 0x2FFFF)
    || "々〆〇".toList.contains char

def isKana (char : Char) : Bool :=
  let code := char.toNat
  (0x3041 ≤ code && code ≤ 0x309F) || (0x30A0 ≤ code && code ≤ 0x30FF)
    || (0xFF66 ≤ code && code ≤ 0xFF9F)

def hasKanji (text : String) : Bool := text.toList.any isKanji

/-- Whether the text could be a ruby run or a run of emphasis dots. -/
def isRubyScript (text : String) : Bool :=
  let stripped := text.toList.dropWhile ['。', '．'].contains
  let glyphs := stripped.filter (! Text.isSpace ·)
  ! glyphs.isEmpty && glyphs.all (fun char => isKana char || bouten.contains char)

-- Ruby lines

structure Ruby (F : Type) where
  line : ℕ
  base : ℕ
  text : String
  quad : Quad F
  span : F × F
  chars : ℤ × ℤ

variable {F : Type} [Floats F] (sorting : Sorting)

/-- The pitch and the em of the page's columns, if it has columns. -/
def columnLattice (lines : List (Line F)) : Option (F × F) :=
  let long := lines.filter (fun line => longLineEm * line.thickness ≤ line.length)
  if long.isEmpty then none
  else
    let vertical := dominantVertical long
    let long := long.filter (fun line => line.vertical == vertical)
    if long.length < bodyMinLongColumns then none
    else do
      let theta ← median sorting (long.map Line.angle)
      let em ← median sorting (long.map Line.thickness)
      let centres := lines.filterMap (fun line =>
        if line.vertical != vertical || isRubyScript line.text then none
        else
          let spans := line.mainCross theta vertical
          let size := spans.hi1 - spans.lo1
          if max2 size em / min2 size em ≤ bodySizeRatio then
            some ((spans.lo1 + spans.hi1) / 2.0)
          else none)
      let centres := sorting.sortBy fcmp centres
      let steps := (List.zipWith (fun a b => b - a) centres centres.tail).filter
        (fun step => 0.5 * em < step && step < 3.0 * em)
      if steps.length < bodyMinLongColumns then none
      else do
        let pitch ← median sorting steps
        some (pitch, em)

/-- The thickness ratio below which the line can be ruby, if it can at all. -/
def rubyCandidacy (line : Line F) (latticeEm : Option F) : Option F :=
  if isRubyScript line.text then some furiganaMaxThicknessRatio
  else if latticeEm.any (fun em => line.thickness ≤ furiganaLatticeMaxBodyRatio * em) then
    some furiganaMaxThicknessRatio
  else if furiganaUnreadableMaxGlyphs < glyphCount line.text then none
  else if line.conf < lowConfidence then some furiganaMaxThicknessRatio
  else
    some (if latticeEm.isSome then furiganaUnreadableMaxRatio else furiganaTinyMaxRatio)

/-- The stretch of the base that the candidate annotates, if it is furigana for it. -/
def rubyOf (cand base : Line F) (pitch : Option F) (maxRatio : F) : Option (F × F) :=
  let theta := if base.angleReliable then base.angle else 0.0
  let vertical := base.vertical
  let b := base.mainCross theta vertical
  let c := cand.mainCross theta vertical
  let baseT := b.hi1 - b.lo1
  let candT := c.hi1 - c.lo1
  if baseT ≤ 0.0 ∨ candT ≤ 0.0 then none
  else
    let ratio := candT / baseT
    let side : F := if vertical then 1.0 else -1.0
    let offset := side * ((c.lo1 + c.hi1) / 2.0 - (b.lo1 + b.hi1) / 2.0)
    let gap := if vertical then c.lo1 - b.hi1 else b.lo1 - c.hi1
    if offset < furiganaMinCentreOffsetEm * baseT then none
    else if furiganaMaxGapEm * baseT ≤ gap then none
    else if overlap b.lo0 b.hi0 c.lo0 c.hi0 < furiganaMinMainOverlap * (c.hi0 - c.lo0) then none
    else
      let thin : Bool := ratio ≤ maxRatio
      let readable := isRubyScript cand.text
      let generousBox := readable && ratio ≤ furiganaGenerousMaxThicknessRatio
      let glyphs := glyphCount cand.text
      let baseGlyphs := glyphCount base.text
      let smallGlyphs := generousBox && 2 ≤ glyphs && 1 ≤ baseGlyphs
        && (c.hi0 - c.lo0) / (glyphs : F)
          ≤ furiganaMaxGlyphPitchRatio * (b.hi0 - b.lo0) / (baseGlyphs : F)
      let onLatticeGap := generousBox
        && pitch.any (fun pitch => offset ≤ furiganaLatticeMaxPitchFraction * pitch)
      if !(thin || smallGlyphs || onLatticeGap) then none
      else
        let length := b.hi0 - b.lo0
        some (min2 (max2 ((c.lo0 - b.lo0) / length) 0.0) 1.0,
          min2 (max2 ((c.hi0 - b.lo0) / length) 0.0) 1.0)

/-- The nearest base that the candidate is furigana for, of equal distances the first by index. -/
def bestBase (cand : Line F) (bases : List (Line F)) (pitch : Option F) (limit : F)
    : Option (F × Line F × F × F) :=
  bases.foldl (fun best base =>
    if base.index = cand.index then best
    else
      match rubyOf cand base pitch limit with
      | none => best
      | some span =>
          let dist := boxDistance cand base
          let better : Bool := match best with
            | none => true
            | some (distance, nearest, _) =>
                dist < distance || (dist == distance && base.index < nearest.index)
          if better then some (dist, base, span) else best) none

def rubyRun (cand base : Line F) (span : F × F) : Ruby F :=
  let n : F := (base.text.toList.length : F)
  {
    line := cand.index
    base := base.index
    text := cand.text
    quad := cand.quad
    span := span
    chars := (Floats.toInt (min2 n (Floats.floor (span.1 * n + 1e-6))),
      Floats.toInt (min2 n (Floats.ceil (span.2 * n - 1e-6))))
  }

/-- Whether the line of the index was taken as ruby. -/
def isTaken (ruby : List (Ruby F)) (index : ℕ) : Bool := ruby.any (fun run => run.line == index)

/-- One candidate of a pass. -/
def rubyNext (limits : Line F → Option F) (pitch : Option F) (bases : List (Line F))
    (ruby : List (Ruby F)) (cand : Line F) : List (Ruby F) :=
  match limits cand with
  | none => ruby
  | some limit =>
      if isTaken ruby cand.index then ruby
      else
        match bestBase cand bases pitch limit with
        | none => ruby
        | some (_, base, span) => ruby ++ [rubyRun cand base span]

/-- One pass over the page. Lines that could be ruby themselves are bases in the final pass only. -/
def rubyPass (limits : Line F → Option F) (pitch : Option F) (lines : List (Line F))
    (ruby : List (Ruby F)) (finalPass : Bool) : List (Ruby F) :=
  let bases := lines.filter (fun line =>
    hasKanji line.text && ! isTaken ruby line.index && ((limits line).isNone || finalPass))
  lines.foldl (rubyNext limits pitch bases) ruby

/-- The places of the lines that are kept and the ruby runs by line index. -/
def filterFurigana (lines : List (Line F)) : List (Fin lines.length) × List (Ruby F) :=
  let lattice := columnLattice sorting lines
  let limits := fun line => rubyCandidacy line (lattice.map Prod.snd)
  let ruby := [false, true].foldl (rubyPass limits (lattice.map Prod.fst) lines) []
  ((List.finRange lines.length).filter (fun place => ! isTaken ruby (lines.get place).index),
    ruby.mergeSort (fun a b => a.line ≤ b.line))

-- Conservation

/-- Every run is of a line of the page, and no line has two. -/
structure RubyWithin (lines : List (Line F)) (ruby : List (Ruby F)) : Prop where
  nodup : (ruby.map Ruby.line).Nodup
  within : ∀ run ∈ ruby, run.line ∈ lines.map Line.index

omit [Floats F] in
theorem isTaken_iff {ruby : List (Ruby F)} {index : ℕ}
    : isTaken ruby index = true ↔ index ∈ ruby.map Ruby.line := by
  simp [isTaken]

theorem RubyWithin.next {lines : List (Line F)} {ruby : List (Ruby F)} {limits pitch bases}
    {cand : Line F} (within : RubyWithin lines ruby) (member : cand ∈ lines)
    : RubyWithin lines (rubyNext limits pitch bases ruby cand) := by
  simp only [rubyNext]
  split
  · exact within
  split
  · exact within
  rename_i free
  split
  · exact within
  constructor
  · rw [List.map_append, List.map_singleton, ← List.concat_eq_append]
    apply List.Nodup.concat _ within.nodup
    intro taken
    exact free (isTaken_iff.mpr taken)
  · intro run found
    rcases List.mem_append.mp found with earlier | new
    · exact within.within run earlier
    · rw [List.mem_singleton.mp new]
      exact List.mem_map_of_mem member

theorem RubyWithin.pass {lines : List (Line F)} {ruby : List (Ruby F)} {limits pitch finalPass}
    (within : RubyWithin lines ruby)
    : RubyWithin lines (rubyPass limits pitch lines ruby finalPass) := by
  simp only [rubyPass]
  apply List.foldlRecOn (motive := RubyWithin lines) lines _ within
  intro ruby within cand member
  exact within.next member

theorem filterFurigana_perm {lines : List (Line F)} (nodup : (lines.map Line.index).Nodup)
    : let (kept, ruby) := filterFurigana sorting lines
      (kept.map (fun place => (lines.get place).index) ++ ruby.map Ruby.line).Perm
        (lines.map Line.index) := by
  simp only [filterFurigana]
  generalize (fun line => rubyCandidacy line ((columnLattice sorting lines).map Prod.snd)) = limits
  generalize (columnLattice sorting lines).map Prod.fst = pitch
  have within : RubyWithin lines ([false, true].foldl (rubyPass limits pitch lines) []) := by
    have empty : RubyWithin lines ([] : List (Ruby F)) := ⟨List.nodup_nil, by simp⟩
    exact empty.pass.pass
  generalize [false, true].foldl (rubyPass limits pitch lines) [] = ruby at within
  have kept : ((List.finRange lines.length).filter
      (fun place => ! isTaken ruby (lines.get place).index)).map
        (fun place => (lines.get place).index)
      = (lines.map Line.index).filter (fun index => ! isTaken ruby index) := by
    rw [← map_places lines Line.index, List.filter_map]
    rfl
  have taken : ((ruby.mergeSort (fun a b => a.line ≤ b.line)).map Ruby.line).Perm
      ((lines.map Line.index).filter (isTaken ruby)) := by
    refine ((List.mergeSort_perm ruby _).map Ruby.line).trans ?_
    apply (List.perm_ext_iff_of_nodup within.nodup (nodup.filter _)).mpr
    intro index
    rw [List.mem_filter, isTaken_iff]
    refine ⟨fun member => ⟨?_, member⟩, fun both => both.2⟩
    obtain ⟨run, found, rfl⟩ := List.mem_map.mp member
    exact within.within run found
  rw [kept]
  refine (taken.append_left _).trans ?_
  exact List.perm_append_comm.trans (List.filter_append_perm _ _)

end MokuroBunko.Layout
