import Mathlib.Algebra.Order.Ring.Nat
import Mathlib.Data.Fin.Basic
import MokuroBunko.Lib.Regroup
import MokuroBunko.Lib.Text

/-! Measured lines of a page and their orientation (`layout/line.rs`, `py.rs`), over any numbers
with the operations of floats: no law of arithmetic or of the order is used.
-/

namespace MokuroBunko.Layout

open MokuroBunko.Lib

-- Numbers

/-- The operations of `f64` and of `py.rs`. -/
class Floats (F : Type) extends Add F, Sub F, Mul F, Div F, Neg F, LT F, LE F, BEq F, NatCast F,
    IntCast F, OfScientific F where
  decidableLT : DecidableLT F
  decidableLE : DecidableLE F
  infinity : F
  nan : F
  abs : F → F
  floor : F → F
  ceil : F → F
  toInt : F → ℤ
  cos : F → F
  sin : F → F
  atan2 : F → F → F
  radians : F → F
  degrees : F → F
  hypot : F → F → F
  roundDigits : F → ℕ → F
  sum : List F → F

section Numbers

variable {F : Type} [Floats F] (sorting : Sorting)

instance floatsDecidableLT : DecidableLT F := Floats.decidableLT

instance floatsDecidableLE : DecidableLE F := Floats.decidableLE

def fcmp (a b : F) : Ordering := if a < b then .lt else if b < a then .gt else .eq

def min2 (a b : F) : F := if b < a then b else a

def max2 (a b : F) : F := if a < b then b else a

/-- The least value by the first that nothing is below; of no values, not a number. -/
def minOf : List F → F
  | [] => Floats.nan
  | first :: rest => rest.foldl (fun best value => if value < best then value else best) first

def maxOf : List F → F
  | [] => Floats.nan
  | first :: rest => rest.foldl (fun best value => if best < value then value else best) first

def median (values : List F) : Option F :=
  let data := sorting.sortBy fcmp values
  let middle := data.length / 2
  if data.length % 2 = 1 then data[middle]?
  else do
    let below ← data[middle - 1]?
    let above ← data[middle]?
    some ((below + above) / 2.0)

end Numbers

-- Thresholds

section Thresholds

variable {F : Type} [Floats F]

def ambiguousAspect : F := 1.3
def voteAspect : F := 1.1
def neighbourReachEm : F := 3.0
def angleReliableAspect : F := 3.0
def angleToleranceDeg : F := 6.0

def furiganaMaxThicknessRatio : F := 0.75
def furiganaMaxGapEm : F := 0.30
def furiganaMinCentreOffsetEm : F := 0.35
def furiganaMinMainOverlap : F := 0.5
def furiganaGenerousMaxThicknessRatio : F := 1.35
def furiganaMaxGlyphPitchRatio : F := 0.85
def furiganaLatticeMaxPitchFraction : F := 0.70
def lowConfidence : F := 0.5
def furiganaUnreadableMaxGlyphs : ℕ := 2
def furiganaUnreadableMaxRatio : F := 0.6
def furiganaTinyMaxRatio : F := 0.45
def furiganaLatticeMaxBodyRatio : F := 0.65

def longLineEm : F := 12.0
def bodyMinLongColumns : ℕ := 3
def bodySizeRatio : F := 1.35
def bodyGapFactor : F := 1.6

def mergeMaxSizeRatio : F := 2.5
def mergeGapEm : F := 0.75
def mergeGapMixedSizeEm : F := 0.50
def mergeMixedSizeRatio : F := 1.8
def mergeAlignedGapEm : F := 1.25
def mergeAlignedSizeRatio : F := 1.35
def mergeAlignedStartEm : F := 0.3
def mergeLooseGapEm : F := 1.0
def mergeLooseStartEm : F := 0.5
def mergeMinMainOverlap : F := 0.5
def mergeStaggerEm : F := 2.0
def stitchMaxGapEm : F := 0.6
def stitchMinCrossOverlap : F := 0.7
def stitchMaxSizeRatio : F := 1.6
def bodyStitchMaxGapEm : F := 3.0

def paragraphIndentMinEm : F := 0.6
def bracketInkInsetEm : F := 0.45
def paragraphShortEndEm : F := 1.25
def paragraphSoftEndEm : F := 0.3
def paragraphDeepInsetEm : F := 1.6

def rowMinOverlap : F := 0.2
def rowChainOverlap : F := 0.5
def columnClusterEm : F := 0.5

end Thresholds

-- Lines

/-- The corners, from the first in the order of the line's frame. -/
abbrev Quad (F : Type) := Fin 4 → F × F

structure RawLine (F : Type) where
  quad : List (F × F)
  score : F
  text : String
  conf : F

/-- One detected line, measured in its own frame. -/
structure Line (F : Type) where
  /-- The place in the raw list. -/
  index : ℕ
  quad : Quad F
  text : String
  score : F
  conf : F
  width : F
  height : F
  angle : F
  vertical : Bool
  ambiguous : Bool

/-- `(x0, x1, y0, y1)` or `(main0, main1, cross0, cross1)`. -/
structure Spans (F : Type) where
  lo0 : F
  hi0 : F
  lo1 : F
  hi1 : F

variable {F : Type} [Floats F]

namespace Line

variable (line : Line F)

def thickness : F := if line.vertical then line.width else line.height

def length : F := if line.vertical then line.height else line.width

def aspect : F :=
  let short := min2 line.width line.height
  if (0.0 : F) < short then max2 line.width line.height / short else Floats.infinity

def angleReliable : Bool := angleReliableAspect ≤ line.aspect

/-- The quad's extents in a frame turned by the angle. -/
def spans (theta : F) : Spans F :=
  let key := Floats.roundDigits theta 3
  let c : F := Floats.cos (Floats.radians key)
  let s : F := Floats.sin (Floats.radians key)
  let xs := (List.finRange 4).map (fun i => (line.quad i).1 * c + (line.quad i).2 * s)
  let ys := (List.finRange 4).map (fun i => -(line.quad i).1 * s + (line.quad i).2 * c)
  ⟨minOf xs, maxOf xs, minOf ys, maxOf ys⟩

def mainCross (theta : F) (vertical : Bool) : Spans F :=
  let spans := line.spans theta
  if vertical then ⟨spans.lo1, spans.hi1, spans.lo0, spans.hi0⟩ else spans

end Line

/-- The quad from the corner whose edge runs most to the right; nothing if it has no area. -/
def canonicalQuad (quad : List (F × F)) : Option (Quad F) :=
  match quad with
  | first :: second :: third :: fourth :: _ =>
      let points : Quad F := fun i => [first, second, third, fourth].getD i first
      let area2 := Floats.sum ((List.finRange 4).map (fun i =>
        (points i).1 * (points (i + 1)).2 - (points (i + 1)).1 * (points i).2))
      if Floats.abs area2 < (1e-6 : F) then none
      else
        let points : Quad F :=
          if area2 < (0.0 : F) then fun i => [first, fourth, third, second].getD i first else points
        let best := (List.finRange 4).foldl (fun (best : Fin 4 × F) start =>
          let ex := (points (start + 1)).1 - (points start).1
          let ey := (points (start + 1)).2 - (points start).2
          let norm := Floats.hypot ex ey
          let dx := if (0.0 : F) < norm then ex / norm else -Floats.infinity
          if best.2 + (1e-6 : F) < dx then (start, dx) else best) (0, -Floats.infinity)
        some (fun i => points (best.1 + i))
  | _ => none

/-- Width, height and angle, between the middles of the edges. -/
def quadFrame (quad : Quad F) : F × F × F :=
  let mid := fun i : Fin 4 =>
    (((quad i).1 + (quad (i + 1)).1) / (2.0 : F), ((quad i).2 + (quad (i + 1)).2) / (2.0 : F))
  let across := ((mid 1).1 - (mid 3).1, (mid 1).2 - (mid 3).2)
  let down := ((mid 2).1 - (mid 0).1, (mid 2).2 - (mid 0).2)
  (Floats.hypot across.1 across.2, Floats.hypot down.1 down.2,
    Floats.degrees (Floats.atan2 across.2 across.1))

def measure (index : ℕ) (raw : RawLine F) : Option (Line F) := do
  let quad ← canonicalQuad raw.quad
  let (width, height, angle) := quadFrame quad
  if width ≤ (0.0 : F) ∨ height ≤ (0.0 : F) then none
  else
    some {
      index := index
      quad := quad
      text := Text.strip raw.text
      score := raw.score
      conf := raw.conf
      width := width
      height := height
      angle := angle
      vertical := width < height
      ambiguous := false
    }

/-- One raw line, measured or dropped. -/
def measureNext (found : List (Line F) × List ℕ) (entry : RawLine F × ℕ)
    : List (Line F) × List ℕ :=
  match measure entry.2 entry.1 with
  | some line =>
      if line.text ≠ "" then (found.1 ++ [line], found.2) else (found.1, found.2 ++ [entry.2])
  | none => (found.1, found.2 ++ [entry.2])

/-- The measured lines, and the places of those with no text or no area. -/
def measureLines (raw : List (RawLine F)) : List (Line F) × List ℕ :=
  raw.zipIdx.foldl measureNext ([], [])

-- Orientation

/-- The characters that are no space. -/
def glyphCount (text : String) : ℕ := (text.toList.filter (! Text.isSpace ·)).length

def isAmbiguous (line : Line F) : Bool := glyphCount line.text ≤ 1 || line.aspect < ambiguousAspect

/-- The orientation with more area; of equal areas the vertical. -/
def dominantVertical (lines : List (Line F)) : Bool :=
  let areas := lines.foldl (fun (areas : F × F) line =>
    let area := line.width * line.height
    if voteAspect * line.width < line.height then (areas.1 + area, areas.2)
    else if voteAspect * line.height < line.width then (areas.1, areas.2 + area)
    else areas) (0.0, 0.0)
  areas.2 ≤ areas.1

def boxDistance (a b : Line F) : F :=
  let sa := a.spans 0.0
  let sb := b.spans 0.0
  let dx := max2 0.0 (max2 sa.lo0 sb.lo0 - min2 sa.hi0 sb.hi0)
  let dy := max2 0.0 (max2 sa.lo1 sb.lo1 - min2 sa.hi1 sb.hi1)
  Floats.hypot dx dy

/-- The nearest clear line in reach, of equal distances the first: its distance, its index and its
orientation. -/
def nearestClear (line : Line F) (clear : List (Line F)) : Option (F × ℕ × Bool) :=
  let reach := neighbourReachEm * max2 line.width line.height
  clear.foldl (fun best other =>
    let dist := boxDistance line other
    let better : Bool := match best with
      | none => true
      | some (distance, index, _) => dist < distance || (dist == distance && other.index < index)
    if dist ≤ reach ∧ better = true then some (dist, other.index, other.vertical) else best) none

/-- Ambiguous lines take the orientation of the nearest clear one, or of the page. The clear ones
stay as they are, so every line can look at the lines before any change. -/
def decideOrientations (lines : List (Line F)) : List (Line F) :=
  let clear := lines.filter (! isAmbiguous ·)
  let pageVertical := dominantVertical clear
  lines.map (fun line =>
    if isAmbiguous line then
      let vertical := match nearestClear line clear with
        | none => pageVertical
        | some (_, _, vertical) => vertical
      { line with ambiguous := true, vertical := vertical }
    else { line with ambiguous := false })

/-- The angle of a frame for both lines, if they do not disagree. -/
def pairTheta (a b : Line F) : Option F :=
  if a.angleReliable && b.angleReliable then
    if angleToleranceDeg < Floats.abs (a.angle - b.angle) then none
    else
      some (if max2 b.width b.height ≤ max2 a.width a.height then a.angle else b.angle)
  else if a.angleReliable then some a.angle
  else if b.angleReliable then some b.angle
  else some 0.0

/-- How far two intervals overlap; a gap is negative. -/
def overlap (a0 a1 b0 b1 : F) : F := min2 a1 b1 - max2 a0 b0

-- Indices

theorem measure_index {index : ℕ} {raw : RawLine F} {line : Line F}
    (measured : measure index raw = some line)
    : line.index = index := by
  simp only [measure, Option.bind_eq_bind, Option.bind_eq_some_iff] at measured
  obtain ⟨quad, _, made⟩ := measured
  split at made
  · contradiction
  · rw [← Option.some.inj made]

theorem measureLines_foldl (raw : List (RawLine F × ℕ)) (found : List (Line F) × List ℕ)
    : let result := raw.foldl measureNext found
      (result.1.map Line.index ++ result.2).Perm
        (found.1.map Line.index ++ found.2 ++ raw.map Prod.snd) := by
  induction raw generalizing found with
  | nil => simp
  | cons entry rest ih =>
      have step : ((measureNext found entry).1.map Line.index
          ++ (measureNext found entry).2).Perm
            (found.1.map Line.index ++ found.2 ++ [entry.2]) := by
        simp only [measureNext]
        split
        · rename_i line measured
          split
          · simp only [List.map_append, List.map_cons, List.map_nil, measure_index measured,
              List.append_assoc]
            exact List.perm_append_comm.append_left _
          · simp
        · simp
      refine (ih (measureNext found entry)).trans ?_
      simpa using step.append_right (rest.map Prod.snd)

theorem measureLines_perm (raw : List (RawLine F))
    : ((measureLines raw).1.map Line.index ++ (measureLines raw).2).Perm
      (List.range raw.length) := by
  have all := measureLines_foldl raw.zipIdx ([], [])
  simpa [measureLines, List.range_eq_range'] using all

@[simp] theorem decideOrientations_index (lines : List (Line F))
    : (decideOrientations lines).map Line.index = lines.map Line.index := by
  rw [decideOrientations, List.map_map]
  apply List.map_congr_left
  intro line _
  simp only [Function.comp_apply]
  split <;> rfl

end MokuroBunko.Layout
