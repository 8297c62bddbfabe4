import Mathlib.Analysis.Convex.Hull
import Mathlib.Data.Fin.VecNotation
import Mathlib.Data.Rat.Floor
import Mathlib.Order.Interval.Set.UnorderedInterval
import Mathlib.Tactic.Linarith
import MokuroBunko.Layout.PageLayout

/-! Boxes grown over the furigana of their blocks (`layout/block.rs`), in exact arithmetic.
-/

namespace MokuroBunko.Layout

open MokuroBunko.Lib

-- Boxes

/-- `[x0, y0, x1, y1]`. -/
structure Box where
  x0 : ℤ
  y0 : ℤ
  x1 : ℤ
  y1 : ℤ
  deriving DecidableEq

/-- The sides of a box, in the order of its edges. -/
inductive Side where
  | left
  | top
  | right
  | bottom
  deriving DecidableEq

namespace Box

def edge (box : Box) : Side → ℤ
  | .left => box.x0
  | .top => box.y0
  | .right => box.x1
  | .bottom => box.y1

def setEdge (box : Box) (value : ℤ) : Side → Box
  | .left => { box with x0 := value }
  | .top => { box with y0 := value }
  | .right => { box with x1 := value }
  | .bottom => { box with y1 := value }

def corners (box : Box) : Quad ℤ :=
  ![(box.x0, box.y0), (box.x1, box.y0), (box.x1, box.y1), (box.x0, box.y1)]

/-- What is added when the side is moved to the value. -/
def strip (box : Box) (value : ℤ) : Side → Box
  | .left => ⟨value, box.y0, box.x0, box.y1⟩
  | .top => ⟨box.x0, value, box.x1, box.y0⟩
  | .right => ⟨box.x1, box.y0, value, box.y1⟩
  | .bottom => ⟨box.x0, box.y1, box.x1, value⟩

end Box

-- Meeting

/-- A quad has corners. -/
instance corners_ne_zero : NeZero 4 := ⟨by decide⟩

def project (axis : ℤ × ℤ) (quad : Quad ℤ) (i : Fin 4) : ℤ :=
  (quad i).1 * axis.1 + (quad i).2 * axis.2

def highest (axis : ℤ × ℤ) (quad : Quad ℤ) : ℤ :=
  max (max (project axis quad 0) (project axis quad 1))
    (max (project axis quad 2) (project axis quad 3))

def lowest (axis : ℤ × ℤ) (quad : Quad ℤ) : ℤ :=
  min (min (project axis quad 0) (project axis quad 1))
    (min (project axis quad 2) (project axis quad 3))

/-- The axis is at a right angle to the edge from the corner. -/
def edgeAxis (quad : Quad ℤ) (k : Fin 4) : ℤ × ℤ :=
  (-((quad (k + 1)).2 - (quad k).2), (quad (k + 1)).1 - (quad k).1)

/-- The axes that are tried: those of the page and of the quad's first two edges. -/
def triedAxes (quad : Quad ℤ) : List (ℤ × ℤ) :=
  [(1, 0), (0, 1), edgeAxis quad 0, edgeAxis quad 1]

def rectMeetsQuad (rect : Box) (quad : Quad ℤ) : Bool :=
  if rect.x1 ≤ rect.x0 ∨ rect.y1 ≤ rect.y0 then false
  else
    (triedAxes quad).all (fun axis =>
      ¬ (highest axis rect.corners ≤ lowest axis quad
        ∨ highest axis quad ≤ lowest axis rect.corners))

-- Reach

/-- The loop of `clear_reach`: halfway between what is clear and what is not. -/
def halve (clear : ℤ → Bool) (near far : ℤ) : ℤ :=
  if 1 < (far - near).natAbs then
    let mid := (near + far) / 2
    if clear mid then halve clear mid far else halve clear near mid
  else near
termination_by (far - near).natAbs
decreasing_by all_goals omega

def isClear (box : Box) (side : Side) (obstacles : List (Quad ℤ)) (value : ℤ) : Bool :=
  ! obstacles.any (rectMeetsQuad (box.strip value side))

/-- How far the side can move towards the goal. -/
def clearReach (box : Box) (side : Side) (goal : ℤ) (obstacles : List (Quad ℤ)) : ℤ :=
  if goal = box.edge side ∨ isClear box side obstacles goal then goal
  else halve (isClear box side obstacles) (box.edge side) goal

-- Growing

def quadSpans (quad : Quad ℚ) : Spans ℚ :=
  let xs := fun i => (quad i).1
  let ys := fun i => (quad i).2
  ⟨min (min (xs 0) (xs 1)) (min (xs 2) (xs 3)), max (max (xs 0) (xs 1)) (max (xs 2) (xs 3)),
    min (min (ys 0) (ys 1)) (min (ys 2) (ys 3)), max (max (ys 0) (ys 1)) (max (ys 2) (ys 3))⟩

/-- A page's size in whole pixels. -/
def pageLimit (size : ℚ) : ℤ :=
  max (if 0 ≤ size then ⌊size⌋ else ⌈size⌉) 0

/-- Without a size the page has no end. -/
def clampTo (limit value : ℤ) : ℤ :=
  if 0 < limit then min (max value 0) limit else max value 0

/-- `page_box`. -/
def pageBox (spans : Spans ℚ) (pageWidth pageHeight : ℚ) : Box :=
  let w := pageLimit pageWidth
  let h := pageLimit pageHeight
  ⟨clampTo w ⌊spans.lo0⌋, clampTo h ⌊spans.lo1⌋, clampTo w ⌈spans.hi0⌉, clampTo h ⌈spans.hi1⌉⟩

/-- How far the side is to be moved. -/
def sideTarget (box goal : Box) : Side → ℤ
  | .left => min box.x0 goal.x0
  | .top => min box.y0 goal.y0
  | .right => max box.x1 goal.x1
  | .bottom => max box.y1 goal.y1

def growSide (obstacles : List (Quad ℤ)) (goal box : Box) (side : Side) : Box :=
  box.setEdge (clearReach box side (sideTarget box goal side) obstacles) side

def growSides : List Side := [.top, .bottom, .left, .right]

def growRun (obstacles : List (Quad ℤ)) (box goal : Box) : Box :=
  growSides.foldl (growSide obstacles goal) box

/-- What the growing reads of a block. -/
structure BlockBox where
  bbox : Box
  linesCoords : List (Quad ℤ)

/-- The last group that lists the line. -/
def ownerOf (groups : List (List ℕ)) (index : ℕ) : Option ℕ :=
  (List.range groups.length).reverse.find? (fun k => index ∈ groups.getD k [])

/-- The lines of the other blocks that are no noise. -/
def obstaclesOf (blocks : List BlockBox) (kinds : List Kind) (k : ℕ) : List (Quad ℤ) :=
  ((blocks.map BlockBox.linesCoords).zipIdx.filter (fun lines =>
    lines.2 ≠ k ∧ kinds[lines.2]? ≠ some .noise)).flatMap Prod.fst

def compareRuns (a b : Ruby ℚ) : Ordering :=
  let sa := quadSpans a.quad
  let sb := quadSpans b.quad
  (compare sa.lo0 sb.lo0).then ((compare sa.hi0 sb.hi0).then ((compare sa.lo1 sb.lo1).then
    ((compare sa.hi1 sb.hi1).then (compare a.text b.text))))

/-- The goals of a block: the boxes of its ruby runs, in order. -/
def goalsOf (sorting : Sorting) (groups : List (List ℕ)) (ruby : List (Ruby ℚ))
    (pageWidth pageHeight : ℚ) (k : ℕ) : List Box :=
  (sorting.sortBy compareRuns (ruby.filter (fun run => ownerOf groups run.base = some k))).map
    (fun run => pageBox (quadSpans run.quad) pageWidth pageHeight)

/-- The blocks with runs, as they come. -/
def growOrder (groups : List (List ℕ)) (ruby : List (Ruby ℚ)) : List ℕ :=
  (ruby.filterMap (fun run => ownerOf groups run.base)).foldl (fun order k =>
    if k ∈ order then order else order ++ [k]) []

def growBlock (obstacles : List (Quad ℤ)) (goals : List Box) (block : BlockBox) : BlockBox :=
  { block with bbox := goals.foldl (growRun obstacles) block.bbox }

/-- `grow_boxes_over_ruby`. -/
def growBoxesOverRuby (sorting : Sorting) (blocks : List BlockBox) (groups : List (List ℕ))
    (kinds : List Kind) (ruby : List (Ruby ℚ)) (pageWidth pageHeight : ℚ) : List BlockBox :=
  (growOrder groups ruby).foldl (fun blocks k =>
    blocks.modify k (growBlock (obstaclesOf blocks kinds k)
      (goalsOf sorting groups ruby pageWidth pageHeight k))) blocks

-- Extents along an axis

section Extent

variable {R : Type} [CommRing R] [LinearOrder R] [IsStrictOrderedRing R] {lo hi x : R}

theorem mul_le_max_mul (a : R) (above : lo ≤ x) (below : x ≤ hi)
    : x * a ≤ max (lo * a) (hi * a) := by
  rcases le_total 0 a with nonneg | nonpos
  · exact le_max_of_le_right (mul_le_mul_of_nonneg_right below nonneg)
  · exact le_max_of_le_left (mul_le_mul_of_nonpos_right above nonpos)

theorem min_mul_le_mul (a : R) (above : lo ≤ x) (below : x ≤ hi)
    : min (lo * a) (hi * a) ≤ x * a := by
  rcases le_total 0 a with nonneg | nonpos
  · exact min_le_of_left_le (mul_le_mul_of_nonneg_right above nonneg)
  · exact min_le_of_right_le (mul_le_mul_of_nonpos_right below nonpos)

theorem mul_lt_max_mul {a : R} (proper : a ≠ 0) (above : lo < x) (below : x < hi)
    : x * a < max (lo * a) (hi * a) := by
  rcases lt_or_gt_of_ne proper with negative | positive
  · exact lt_max_of_lt_left (mul_lt_mul_of_neg_right above negative)
  · exact lt_max_of_lt_right (mul_lt_mul_of_pos_right below positive)

theorem min_mul_lt_mul {a : R} (proper : a ≠ 0) (above : lo < x) (below : x < hi)
    : min (lo * a) (hi * a) < x * a := by
  rcases lt_or_gt_of_ne proper with negative | positive
  · exact min_lt_of_right_lt (mul_lt_mul_of_neg_right below negative)
  · exact min_lt_of_left_lt (mul_lt_mul_of_pos_right above positive)

end Extent

theorem highest_corners (axis : ℤ × ℤ) (box : Box)
    : highest axis box.corners
      = max (box.x0 * axis.1) (box.x1 * axis.1) + max (box.y0 * axis.2) (box.y1 * axis.2) := by
  simp [highest, project, Box.corners]
  omega

theorem lowest_corners (axis : ℤ × ℤ) (box : Box)
    : lowest axis box.corners
      = min (box.x0 * axis.1) (box.x1 * axis.1) + min (box.y0 * axis.2) (box.y1 * axis.2) := by
  simp [lowest, project, Box.corners]
  omega

namespace Box

structure Within (inner outer : Box) : Prop where
  left : outer.x0 ≤ inner.x0
  top : outer.y0 ≤ inner.y0
  right : inner.x1 ≤ outer.x1
  bottom : inner.y1 ≤ outer.y1

structure Ordered (box : Box) : Prop where
  across : box.x0 ≤ box.x1
  down : box.y0 ≤ box.y1

/-- The point is in the box, its edges included. -/
structure Covers (box : Box) (p : ℚ × ℚ) : Prop where
  left : box.x0 ≤ p.1
  right : p.1 ≤ box.x1
  top : box.y0 ≤ p.2
  bottom : p.2 ≤ box.y1

/-- The point is in the box and on none of its edges. -/
structure Interior (box : Box) (p : ℚ × ℚ) : Prop where
  left : box.x0 < p.1
  right : p.1 < box.x1
  top : box.y0 < p.2
  bottom : p.2 < box.y1

theorem Within.refl (box : Box)
    : box.Within box :=
  ⟨le_rfl, le_rfl, le_rfl, le_rfl⟩

theorem Within.trans {a b c : Box} (ab : a.Within b) (bc : b.Within c)
    : a.Within c :=
  ⟨bc.left.trans ab.left, bc.top.trans ab.top, ab.right.trans bc.right, ab.bottom.trans bc.bottom⟩

theorem Covers.mono {inner outer : Box} {p : ℚ × ℚ} (within : inner.Within outer)
    (covers : inner.Covers p)
    : outer.Covers p where
  left := le_trans (by exact_mod_cast within.left) covers.left
  right := covers.right.trans (by exact_mod_cast within.right)
  top := le_trans (by exact_mod_cast within.top) covers.top
  bottom := covers.bottom.trans (by exact_mod_cast within.bottom)

theorem highest_mono (axis : ℤ × ℤ) {inner outer : Box} (ordered : inner.Ordered)
    (within : inner.Within outer)
    : highest axis inner.corners ≤ highest axis outer.corners := by
  rw [highest_corners, highest_corners]
  apply add_le_add
  · exact max_le (mul_le_max_mul _ within.left (ordered.across.trans within.right))
      (mul_le_max_mul _ (within.left.trans ordered.across) within.right)
  · exact max_le (mul_le_max_mul _ within.top (ordered.down.trans within.bottom))
      (mul_le_max_mul _ (within.top.trans ordered.down) within.bottom)

theorem lowest_anti (axis : ℤ × ℤ) {inner outer : Box} (ordered : inner.Ordered)
    (within : inner.Within outer)
    : lowest axis outer.corners ≤ lowest axis inner.corners := by
  rw [lowest_corners, lowest_corners]
  apply add_le_add
  · exact le_min (min_mul_le_mul _ within.left (ordered.across.trans within.right))
      (min_mul_le_mul _ (within.left.trans ordered.across) within.right)
  · exact le_min (min_mul_le_mul _ within.top (ordered.down.trans within.bottom))
      (min_mul_le_mul _ (within.top.trans ordered.down) within.bottom)

end Box

def along (axis : ℤ × ℤ) (p : ℚ × ℚ) : ℚ :=
  p.1 * axis.1 + p.2 * axis.2

theorem along_lt_highest {axis : ℤ × ℤ} {box : Box} {p : ℚ × ℚ} (proper : axis ≠ (0, 0))
    (interior : box.Interior p)
    : along axis p < highest axis box.corners := by
  rw [highest_corners]
  push_cast
  by_cases across : axis.1 = 0
  · have down : (axis.2 : ℚ) ≠ 0 := by
      intro zero
      exact proper (Prod.ext across (by exact_mod_cast zero))
    exact add_lt_add_of_le_of_lt (mul_le_max_mul _ interior.left.le interior.right.le)
      (mul_lt_max_mul down interior.top interior.bottom)
  · exact add_lt_add_of_lt_of_le
      (mul_lt_max_mul (by exact_mod_cast across) interior.left interior.right)
      (mul_le_max_mul _ interior.top.le interior.bottom.le)

theorem lowest_lt_along {axis : ℤ × ℤ} {box : Box} {p : ℚ × ℚ} (proper : axis ≠ (0, 0))
    (interior : box.Interior p)
    : lowest axis box.corners < along axis p := by
  rw [lowest_corners]
  push_cast
  by_cases across : axis.1 = 0
  · have down : (axis.2 : ℚ) ≠ 0 := by
      intro zero
      exact proper (Prod.ext across (by exact_mod_cast zero))
    exact add_lt_add_of_le_of_lt (min_mul_le_mul _ interior.left.le interior.right.le)
      (min_mul_lt_mul down interior.top interior.bottom)
  · exact add_lt_add_of_lt_of_le
      (min_mul_lt_mul (by exact_mod_cast across) interior.left interior.right)
      (min_mul_le_mul _ interior.top.le interior.bottom.le)

-- Separation

/-- Everything between the corners of the quad. -/
def area (quad : Quad ℤ) : Set (ℚ × ℚ) :=
  convexHull ℚ (Set.range (fun i => (((quad i).1 : ℚ), ((quad i).2 : ℚ))))

/-- The edges whose axes are tried have a length. -/
def Proper (quad : Quad ℤ) : Prop :=
  quad 0 ≠ quad 1 ∧ quad 1 ≠ quad 2

theorem isLinearMap_along (axis : ℤ × ℤ)
    : IsLinearMap ℚ (along axis) where
  map_add p q := by
    simp only [along, Prod.fst_add, Prod.snd_add]
    ring
  map_smul c p := by
    simp only [along, Prod.smul_fst, Prod.smul_snd, smul_eq_mul]
    ring

theorem project_le_highest (axis : ℤ × ℤ) (quad : Quad ℤ) (i : Fin 4)
    : project axis quad i ≤ highest axis quad := by
  fin_cases i <;> simp [highest]

theorem lowest_le_project (axis : ℤ × ℤ) (quad : Quad ℤ) (i : Fin 4)
    : lowest axis quad ≤ project axis quad i := by
  fin_cases i <;> simp [lowest]

theorem along_le_highest (axis : ℤ × ℤ) {quad : Quad ℤ} {p : ℚ × ℚ} (mem : p ∈ area quad)
    : along axis p ≤ highest axis quad := by
  refine convexHull_min ?_ (convex_halfSpace_le (isLinearMap_along axis) _) mem
  rintro _ ⟨i, rfl⟩
  have bound := project_le_highest axis quad i
  simp only [Set.mem_ofPred_eq, along]
  exact_mod_cast bound

theorem lowest_le_along (axis : ℤ × ℤ) {quad : Quad ℤ} {p : ℚ × ℚ} (mem : p ∈ area quad)
    : lowest axis quad ≤ along axis p := by
  refine convexHull_min ?_ (convex_halfSpace_ge (isLinearMap_along axis) _) mem
  rintro _ ⟨i, rfl⟩
  have bound := lowest_le_project axis quad i
  simp only [Set.mem_ofPred_eq, along]
  exact_mod_cast bound

theorem rectMeetsQuad_iff (rect : Box) (quad : Quad ℤ)
    : rectMeetsQuad rect quad = true
      ↔ rect.x0 < rect.x1 ∧ rect.y0 < rect.y1
        ∧ ∀ axis ∈ triedAxes quad,
          lowest axis quad < highest axis rect.corners
          ∧ lowest axis rect.corners < highest axis quad := by
  by_cases empty : rect.x1 ≤ rect.x0 ∨ rect.y1 ≤ rect.y0
  · simp only [rectMeetsQuad, empty, if_true, Bool.false_eq_true, false_iff]
    omega
  · simp only [rectMeetsQuad, empty, if_false, List.all_eq_true, decide_eq_true_eq, not_or, not_le]
    push Not at empty
    exact ⟨fun apart => ⟨empty.1, empty.2, apart⟩, fun apart => apart.2.2⟩

theorem rectMeetsQuad_mono {inner outer : Box} {quad : Quad ℤ} (within : inner.Within outer)
    (meets : rectMeetsQuad inner quad = true)
    : rectMeetsQuad outer quad = true := by
  rw [rectMeetsQuad_iff] at meets ⊢
  rcases meets with ⟨across, down, apart⟩
  have ordered : inner.Ordered := ⟨across.le, down.le⟩
  refine ⟨?_, ?_, fun axis tried => ⟨?_, ?_⟩⟩
  · exact within.left.trans_lt (across.trans_le within.right)
  · exact within.top.trans_lt (down.trans_le within.bottom)
  · exact (apart axis tried).1.trans_le (Box.highest_mono axis ordered within)
  · exact (Box.lowest_anti axis ordered within).trans_lt (apart axis tried).2

theorem edgeAxis_ne_zero {quad : Quad ℤ} {k : Fin 4} (proper : quad k ≠ quad (k + 1))
    : edgeAxis quad k ≠ (0, 0) := by
  intro zero
  apply proper
  simp only [edgeAxis, Prod.mk.injEq] at zero
  apply Prod.ext <;> omega

theorem triedAxes_ne_zero {quad : Quad ℤ} (proper : Proper quad) {axis : ℤ × ℤ}
    (tried : axis ∈ triedAxes quad)
    : axis ≠ (0, 0) := by
  simp only [triedAxes, List.mem_cons, List.not_mem_nil, or_false] at tried
  rcases tried with rfl | rfl | rfl | rfl
  · simp
  · simp
  · exact edgeAxis_ne_zero proper.1
  · exact edgeAxis_ne_zero proper.2

theorem rectMeetsQuad_of_interior {rect : Box} {quad : Quad ℤ} {p : ℚ × ℚ} (proper : Proper quad)
    (interior : rect.Interior p) (mem : p ∈ area quad)
    : rectMeetsQuad rect quad = true := by
  rw [rectMeetsQuad_iff]
  refine ⟨?_, ?_, fun axis tried => ⟨?_, ?_⟩⟩
  · exact_mod_cast interior.left.trans interior.right
  · exact_mod_cast interior.top.trans interior.bottom
  · have below := (lowest_le_along axis mem).trans_lt
      (along_lt_highest (triedAxes_ne_zero proper tried) interior)
    exact_mod_cast below
  · have below := (lowest_lt_along (triedAxes_ne_zero proper tried) interior).trans_le
      (along_le_highest axis mem)
    exact_mod_cast below

-- The search

theorem isClear_iff {box : Box} {side : Side} {obstacles : List (Quad ℤ)} {value : ℤ}
    : isClear box side obstacles value = true
      ↔ ∀ quad ∈ obstacles, rectMeetsQuad (box.strip value side) quad = false := by
  simp [isClear]

theorem strip_within {box : Box} {side : Side} {quad : Quad ℤ} {value further : ℤ}
    (between : value ∈ Set.uIcc (box.edge side) further)
    (meets : rectMeetsQuad (box.strip value side) quad = true)
    : (box.strip value side).Within (box.strip further side) := by
  rcases (rectMeetsQuad_iff _ _).mp meets with ⟨across, down, -⟩
  rw [Set.mem_uIcc] at between
  cases side <;> simp only [Box.strip, Box.edge] at * <;> constructor <;> simp only <;> omega

theorem isClear_nearer {box : Box} {side : Side} {obstacles : List (Quad ℤ)} {value further : ℤ}
    (between : value ∈ Set.uIcc (box.edge side) further)
    (clear : isClear box side obstacles further = true)
    : isClear box side obstacles value = true := by
  rw [isClear_iff] at clear ⊢
  intro quad mem
  by_contra met
  have meets : rectMeetsQuad (box.strip value side) quad = true := by simpa using met
  have further_meets := rectMeetsQuad_mono (strip_within between meets) meets
  rw [clear quad mem] at further_meets
  cases further_meets

theorem isClear_edge (box : Box) (side : Side) (obstacles : List (Quad ℤ))
    : isClear box side obstacles (box.edge side) = true := by
  rw [isClear_iff]
  intro quad _
  cases side <;> simp [rectMeetsQuad, Box.strip, Box.edge]

theorem halve_spec {clear : ℤ → Bool} {near far : ℤ} (start : clear near = true)
    (stop : clear far = false)
    : clear (halve clear near far) = true
      ∧ halve clear near far ∈ Set.uIcc near far
      ∧ ∃ next ∈ Set.uIcc (halve clear near far) far,
        clear next = false ∧ (next - halve clear near far).natAbs = 1 := by
  fun_induction halve clear near far with
  | case1 near far apart mid clearMid ih =>
      rcases ih clearMid stop with ⟨clear, between, next, beyond, blocked, adjacent⟩
      refine ⟨clear, ?_, next, beyond, blocked, adjacent⟩
      rw [Set.mem_uIcc] at between ⊢
      omega
  | case2 near far apart mid blockedMid ih =>
      have blockedMid : clear mid = false := by simpa using blockedMid
      rcases ih start blockedMid with ⟨clear, between, next, beyond, blocked, adjacent⟩
      refine ⟨clear, ?_, next, ?_, blocked, adjacent⟩
      · rw [Set.mem_uIcc] at between ⊢
        omega
      · rw [Set.mem_uIcc] at between beyond ⊢
        omega
  | case3 near far close =>
      have distinct : near ≠ far := by
        rintro rfl
        rw [start] at stop
        cases stop
      exact ⟨start, Set.left_mem_uIcc, far, Set.right_mem_uIcc, stop, by omega⟩

/-- The place is the farthest one towards the goal up to which the side moves freely. -/
structure Farthest (box : Box) (side : Side) (goal : ℤ) (obstacles : List (Quad ℤ)) (reach : ℤ)
    : Prop where
  between : reach ∈ Set.uIcc (box.edge side) goal
  clear : ∀ value ∈ Set.uIcc (box.edge side) reach, isClear box side obstacles value = true
  blocked : ∀ value ∈ Set.uIcc reach goal, value ≠ reach → isClear box side obstacles value = false

theorem clearReach_farthest (box : Box) (side : Side) (goal : ℤ) (obstacles : List (Quad ℤ))
    : Farthest box side goal obstacles (clearReach box side goal obstacles) := by
  by_cases free : goal = box.edge side ∨ isClear box side obstacles goal = true
  · have reached : clearReach box side goal obstacles = goal := by
      simp only [clearReach, free, if_true]
    have clear : isClear box side obstacles goal = true := by
      rcases free with rfl | clear
      · exact isClear_edge box side obstacles
      · exact clear
    rw [reached]
    refine ⟨Set.right_mem_uIcc, fun value between => isClear_nearer between clear, ?_⟩
    intro value between distinct
    rw [Set.uIcc_self, Set.mem_singleton_iff] at between
    exact absurd between distinct
  · have searched : clearReach box side goal obstacles
        = halve (isClear box side obstacles) (box.edge side) goal := by
      simp only [clearReach, free, if_false]
    have stop : isClear box side obstacles goal = false := by
      simpa using fun clear => free (Or.inr clear)
    rcases halve_spec (isClear_edge box side obstacles) stop
      with ⟨clear, between, next, beyond, blocked, adjacent⟩
    rw [searched]
    refine ⟨between, fun value nearer => isClear_nearer nearer clear, ?_⟩
    intro value further distinct
    by_contra met
    have clear_value : isClear box side obstacles value = true := by simpa using met
    have clear_next : isClear box side obstacles next = true := by
      apply isClear_nearer _ clear_value
      rw [Set.mem_uIcc] at between beyond further ⊢
      omega
    rw [blocked] at clear_next
    cases clear_next

-- Growing a side

/-- The point is on no line of the pixel grid. The other points have no area. -/
def OffGrid (p : ℚ × ℚ) : Prop :=
  ∀ n : ℤ, p.1 ≠ n ∧ p.2 ≠ n

/-- The box grew, and what was added shares no area with an obstacle. -/
structure Grown (obstacles : List (Quad ℤ)) (before after : Box) : Prop where
  within : before.Within after
  added : ∀ p, OffGrid p → after.Covers p → ¬ before.Covers p →
    ∀ quad ∈ obstacles, Proper quad → p ∉ area quad

/-- The box is on the page; a page without a size has no end. -/
structure OnPage (pageWidth pageHeight : ℚ) (box : Box) : Prop where
  left : 0 ≤ box.x0
  top : 0 ≤ box.y0
  right : 0 < pageLimit pageWidth → box.x1 ≤ pageLimit pageWidth
  bottom : 0 < pageLimit pageHeight → box.y1 ≤ pageLimit pageHeight

theorem Grown.refl (obstacles : List (Quad ℤ)) (box : Box)
    : Grown obstacles box box where
  within := Box.Within.refl box
  added := fun _ _ covered missing => absurd covered missing

theorem Grown.trans {obstacles : List (Quad ℤ)} {a b c : Box} (ab : Grown obstacles a b)
    (bc : Grown obstacles b c)
    : Grown obstacles a c where
  within := ab.within.trans bc.within
  added := by
    intro p off covered missing
    by_cases between : b.Covers p
    · exact ab.added p off between missing
    · exact bc.added p off covered between

theorem Box.within_setEdge {box goal : Box} {side : Side} {value : ℤ}
    (between : value ∈ Set.uIcc (box.edge side) (sideTarget box goal side))
    : box.Within (box.setEdge value side) := by
  rw [Set.mem_uIcc] at between
  cases side <;> simp only [Box.edge, sideTarget] at between
    <;> constructor <;> simp only [Box.setEdge] <;> omega

theorem Box.interior_strip {box : Box} {side : Side} {value : ℤ} {p : ℚ × ℚ} (off : OffGrid p)
    (covered : (box.setEdge value side).Covers p) (missing : ¬ box.Covers p)
    : (box.strip value side).Interior p := by
  have notGrid := fun n => And.intro (off n).1.symm (off n).2.symm
  rcases covered with ⟨left, right, top, bottom⟩
  cases side with
  | left =>
      have beyond : p.1 < box.x0 := by
        by_contra inside
        exact missing ⟨not_lt.mp inside, right, top, bottom⟩
      exact ⟨lt_of_le_of_ne left (notGrid _).1, beyond, lt_of_le_of_ne top (notGrid _).2,
        lt_of_le_of_ne bottom (off _).2⟩
  | top =>
      have beyond : p.2 < box.y0 := by
        by_contra inside
        exact missing ⟨left, right, not_lt.mp inside, bottom⟩
      exact ⟨lt_of_le_of_ne left (notGrid _).1, lt_of_le_of_ne right (off _).1,
        lt_of_le_of_ne top (notGrid _).2, beyond⟩
  | right =>
      have beyond : box.x1 < p.1 := by
        by_contra inside
        exact missing ⟨left, not_lt.mp inside, top, bottom⟩
      exact ⟨beyond, lt_of_le_of_ne right (off _).1, lt_of_le_of_ne top (notGrid _).2,
        lt_of_le_of_ne bottom (off _).2⟩
  | bottom =>
      have beyond : box.y1 < p.2 := by
        by_contra inside
        exact missing ⟨left, right, top, not_lt.mp inside⟩
      exact ⟨lt_of_le_of_ne left (notGrid _).1, lt_of_le_of_ne right (off _).1, beyond,
        lt_of_le_of_ne bottom (off _).2⟩

section Growing

variable (obstacles : List (Quad ℤ)) (goal box : Box)

theorem growSide_grown (side : Side)
    : Grown obstacles box (growSide obstacles goal box side) := by
  have far := clearReach_farthest box side (sideTarget box goal side) obstacles
  refine ⟨Box.within_setEdge far.between, ?_⟩
  intro p off covered missing quad mem proper inside
  have interior := Box.interior_strip off covered missing
  have meets := rectMeetsQuad_of_interior proper interior inside
  rw [isClear_iff.mp (far.clear _ Set.right_mem_uIcc) quad mem] at meets
  cases meets

theorem growSide_onPage {pageWidth pageHeight : ℚ} (onPage : OnPage pageWidth pageHeight box)
    (goalOnPage : OnPage pageWidth pageHeight goal) (side : Side)
    : OnPage pageWidth pageHeight (growSide obstacles goal box side) := by
  have between := (clearReach_farthest box side (sideTarget box goal side) obstacles).between
  rw [Set.mem_uIcc] at between
  rcases onPage with ⟨left, top, right, bottom⟩
  rcases goalOnPage with ⟨goalLeft, goalTop, goalRight, goalBottom⟩
  cases side <;> simp only [Box.edge, sideTarget] at between
    <;> constructor <;> simp only [growSide, Box.setEdge, sideTarget] <;> omega

theorem growRun_grown
    : Grown obstacles box (growRun obstacles box goal) := by
  rw [growRun]
  generalize growSides = sides
  induction sides generalizing box with
  | nil => exact Grown.refl obstacles box
  | cons side sides ih => exact (growSide_grown obstacles goal box side).trans (ih _)

theorem growRun_onPage {pageWidth pageHeight : ℚ} (onPage : OnPage pageWidth pageHeight box)
    (goalOnPage : OnPage pageWidth pageHeight goal)
    : OnPage pageWidth pageHeight (growRun obstacles box goal) := by
  rw [growRun]
  generalize growSides = sides
  induction sides generalizing box with
  | nil => exact onPage
  | cons side sides ih => exact ih _ (growSide_onPage obstacles goal box onPage goalOnPage side)

theorem foldl_growRun_grown (goals : List Box)
    : Grown obstacles box (goals.foldl (growRun obstacles) box) := by
  induction goals generalizing box with
  | nil => exact Grown.refl obstacles box
  | cons goal goals ih => exact (growRun_grown obstacles goal box).trans (ih _)

theorem foldl_growRun_onPage {pageWidth pageHeight : ℚ} {goals : List Box}
    (onPage : OnPage pageWidth pageHeight box)
    (goalsOnPage : ∀ goal ∈ goals, OnPage pageWidth pageHeight goal)
    : OnPage pageWidth pageHeight (goals.foldl (growRun obstacles) box) := by
  induction goals generalizing box with
  | nil => exact onPage
  | cons goal goals ih =>
      have grown := growRun_onPage obstacles goal box onPage (goalsOnPage goal (by simp))
      exact ih _ grown (fun other mem => goalsOnPage other (by simp [mem]))

end Growing

-- Nothing in the way

namespace Box

/-- The rectangle is beside the box: they share no area. -/
def Beside (rect box : Box) : Prop :=
  rect.x1 ≤ box.x0 ∨ box.x1 ≤ rect.x0 ∨ rect.y1 ≤ box.y0 ∨ box.y1 ≤ rect.y0

def join (a b : Box) : Box :=
  ⟨min a.x0 b.x0, min a.y0 b.y0, max a.x1 b.x1, max a.y1 b.y1⟩

/-- The box around the box and the others. -/
def span (box : Box) (others : List Box) : Box :=
  others.foldl join box

theorem within_join_left (a b : Box)
    : a.Within (a.join b) :=
  ⟨min_le_left _ _, min_le_left _ _, le_max_left _ _, le_max_left _ _⟩

theorem within_join_right (a b : Box)
    : b.Within (a.join b) :=
  ⟨min_le_right _ _, min_le_right _ _, le_max_right _ _, le_max_right _ _⟩

theorem within_span (box : Box) (others : List Box)
    : box.Within (box.span others) := by
  induction others generalizing box with
  | nil => exact Within.refl box
  | cons other others ih => exact (within_join_left box other).trans (ih _)

theorem mem_within_span {other : Box} {others : List Box} (box : Box) (mem : other ∈ others)
    : other.Within (box.span others) := by
  induction others generalizing box with
  | nil => cases mem
  | cons first others ih =>
      rcases List.mem_cons.mp mem with rfl | later
      · exact (within_join_right box other).trans (within_span _ others)
      · exact ih _ later

end Box

/-- No obstacle meets what the span has beside the box. -/
def Unobstructed (obstacles : List (Quad ℤ)) (box span : Box) : Prop :=
  ∀ quad ∈ obstacles, ∀ rect : Box, rect.Within span → rect.Beside box →
    rectMeetsQuad rect quad = false

/-- A box on its way from the block's box to the span. -/
structure Between (start span box : Box) : Prop where
  start : start.Within box
  span : box.Within span
  ordered : box.Ordered

theorem clearReach_of_clear {box : Box} {side : Side} {goal : ℤ} {obstacles : List (Quad ℤ)}
    (clear : isClear box side obstacles goal = true)
    : clearReach box side goal obstacles = goal := by
  simp [clearReach, clear]

theorem growSide_reaches {obstacles : List (Quad ℤ)} {start span goal box : Box}
    (unobstructed : Unobstructed obstacles start span) (between : Between start span box)
    (goalWithin : goal.Within span) (side : Side)
    : growSide obstacles goal box side = box.setEdge (sideTarget box goal side) side := by
  rcases between with ⟨⟨left, top, right, bottom⟩, ⟨left', top', right', bottom'⟩, ⟨across, down⟩⟩
  rcases goalWithin with ⟨goalLeft, goalTop, goalRight, goalBottom⟩
  rw [growSide, clearReach_of_clear]
  rw [isClear_iff]
  intro quad mem
  apply unobstructed quad mem
  · cases side <;> constructor <;> simp only [Box.strip, sideTarget] <;> omega
  · cases side <;> simp only [Box.Beside, Box.strip, sideTarget] <;> omega

theorem Between.setEdge {start span goal box : Box} (between : Between start span box)
    (goalWithin : goal.Within span) (side : Side)
    : Between start span (box.setEdge (sideTarget box goal side) side) := by
  have grown : box.Within (box.setEdge (sideTarget box goal side) side) :=
    Box.within_setEdge Set.right_mem_uIcc
  refine ⟨between.start.trans grown, ?_, ?_⟩
  · rcases between.span with ⟨left, top, right, bottom⟩
    rcases goalWithin with ⟨goalLeft, goalTop, goalRight, goalBottom⟩
    cases side <;> constructor <;> simp only [Box.setEdge, sideTarget] <;> omega
  · exact ⟨grown.left.trans (between.ordered.across.trans grown.right),
      grown.top.trans (between.ordered.down.trans grown.bottom)⟩

theorem growRun_eq_join {obstacles : List (Quad ℤ)} {start span goal box : Box}
    (unobstructed : Unobstructed obstacles start span) (between : Between start span box)
    (goalWithin : goal.Within span)
    : growRun obstacles box goal = box.join goal := by
  have top := between.setEdge goalWithin .top
  have bottom := top.setEdge goalWithin .bottom
  have left := bottom.setEdge goalWithin .left
  simp only [growRun, growSides, List.foldl_cons, List.foldl_nil]
  rw [growSide_reaches unobstructed between goalWithin .top,
    growSide_reaches unobstructed top goalWithin .bottom,
    growSide_reaches unobstructed bottom goalWithin .left,
    growSide_reaches unobstructed left goalWithin .right]
  rfl

theorem foldl_growRun_eq_span {obstacles : List (Quad ℤ)} {start span box : Box}
    {goals : List Box} (unobstructed : Unobstructed obstacles start span)
    (between : Between start span box) (goalsWithin : ∀ goal ∈ goals, goal.Within span)
    : goals.foldl (growRun obstacles) box = box.span goals := by
  induction goals generalizing box with
  | nil => rfl
  | cons goal goals ih =>
      have goalWithin := goalsWithin goal (by simp)
      have grown := growRun_grown obstacles goal box
      have joined := growRun_eq_join unobstructed between goalWithin
      rw [List.foldl_cons, joined, ih]
      · rfl
      · refine ⟨between.start.trans (Box.within_join_left _ _), ?_, ?_⟩
        · have within := between.span
          exact ⟨le_min within.left goalWithin.left, le_min within.top goalWithin.top,
            max_le within.right goalWithin.right, max_le within.bottom goalWithin.bottom⟩
        · have ordered := between.ordered
          exact ⟨min_le_of_left_le (le_max_of_le_left ordered.across),
            min_le_of_left_le (le_max_of_le_left ordered.down)⟩
      · exact fun other mem => goalsWithin other (by simp [mem])

-- Boxes of the page

/-- A point of the page. -/
structure InPage (pageWidth pageHeight : ℚ) (p : ℚ × ℚ) : Prop where
  left : 0 ≤ p.1
  top : 0 ≤ p.2
  right : 0 < pageLimit pageWidth → p.1 ≤ pageLimit pageWidth
  bottom : 0 < pageLimit pageHeight → p.2 ≤ pageLimit pageHeight

/-- The point is within the spans. -/
structure InSpans (spans : Spans ℚ) (p : ℚ × ℚ) : Prop where
  left : spans.lo0 ≤ p.1
  right : p.1 ≤ spans.hi0
  top : spans.lo1 ≤ p.2
  bottom : p.2 ≤ spans.hi1

/-- The boxes of the blocks are those `build_block` makes. -/
def BuiltFor (pageWidth pageHeight : ℚ) (blocks : List BlockBox) : Prop :=
  ∀ block ∈ blocks, ∃ spans : Spans ℚ, spans.lo0 ≤ spans.hi0 ∧ spans.lo1 ≤ spans.hi1
    ∧ block.bbox = pageBox spans pageWidth pageHeight

theorem clampTo_nonneg (limit value : ℤ)
    : 0 ≤ clampTo limit value := by
  rw [clampTo]
  split <;> omega

theorem clampTo_le {limit : ℤ} (value : ℤ) (positive : 0 < limit)
    : clampTo limit value ≤ limit := by
  simp only [clampTo, positive, if_true]
  exact min_le_right _ _

theorem clampTo_mono {limit a b : ℤ} (le : a ≤ b)
    : clampTo limit a ≤ clampTo limit b := by
  simp only [clampTo]
  split <;> omega

theorem clampTo_floor_le {limit : ℤ} {lo x : ℚ} (nonneg : 0 ≤ x) (above : lo ≤ x)
    : (clampTo limit ⌊lo⌋ : ℚ) ≤ x := by
  have clamped : clampTo limit ⌊lo⌋ ≤ max ⌊lo⌋ 0 := by
    rw [clampTo]
    split <;> omega
  calc (clampTo limit ⌊lo⌋ : ℚ)
    _ ≤ ((max ⌊lo⌋ 0 : ℤ) : ℚ) := by exact_mod_cast clamped
    _ = max (⌊lo⌋ : ℚ) 0 := by push_cast; rfl
    _ ≤ x := max_le ((Int.floor_le lo).trans above) nonneg

theorem le_clampTo_ceil {limit : ℤ} {hi x : ℚ} (inside : 0 < limit → x ≤ limit) (below : x ≤ hi)
    : x ≤ (clampTo limit ⌈hi⌉ : ℚ) := by
  have ceiled : x ≤ ((max ⌈hi⌉ 0 : ℤ) : ℚ) := by
    push_cast
    exact le_max_of_le_left (below.trans (Int.le_ceil hi))
  rw [clampTo]
  split
  next positive =>
    rw [Int.cast_min]
    exact le_min ceiled (inside positive)
  next => exact ceiled

theorem pageBox_onPage (spans : Spans ℚ) (pageWidth pageHeight : ℚ)
    : OnPage pageWidth pageHeight (pageBox spans pageWidth pageHeight) where
  left := clampTo_nonneg _ _
  top := clampTo_nonneg _ _
  right := clampTo_le _
  bottom := clampTo_le _

theorem pageBox_ordered {spans : Spans ℚ} (across : spans.lo0 ≤ spans.hi0)
    (down : spans.lo1 ≤ spans.hi1) (pageWidth pageHeight : ℚ)
    : (pageBox spans pageWidth pageHeight).Ordered where
  across := clampTo_mono ((Int.floor_le_floor across).trans (Int.floor_le_ceil _))
  down := clampTo_mono ((Int.floor_le_floor down).trans (Int.floor_le_ceil _))

theorem pageBox_covers {spans : Spans ℚ} {pageWidth pageHeight : ℚ} {p : ℚ × ℚ}
    (inPage : InPage pageWidth pageHeight p) (inSpans : InSpans spans p)
    : (pageBox spans pageWidth pageHeight).Covers p where
  left := clampTo_floor_le inPage.left inSpans.left
  right := le_clampTo_ceil inPage.right inSpans.right
  top := clampTo_floor_le inPage.top inSpans.top
  bottom := le_clampTo_ceil inPage.bottom inSpans.bottom

-- Blocks

theorem obstaclesOf_congr {blocks others : List BlockBox} (kinds : List Kind) (k : ℕ)
    (same : blocks.map BlockBox.linesCoords = others.map BlockBox.linesCoords)
    : obstaclesOf blocks kinds k = obstaclesOf others kinds k := by
  rw [obstaclesOf, obstaclesOf, same]

theorem map_linesCoords_modify (blocks : List BlockBox) (obstacles : List (Quad ℤ))
    (goals : List Box) (k : ℕ)
    : (blocks.modify k (growBlock obstacles goals)).map BlockBox.linesCoords
      = blocks.map BlockBox.linesCoords := by
  apply List.ext_getElem?
  intro i
  rw [List.getElem?_map, List.getElem?_map, List.getElem?_modify]
  by_cases here : k = i
  · subst here
    cases blocks[k]? <;> simp [growBlock]
  · cases blocks[i]? <;> simp [here]

theorem growOrder_fold (owners order : List ℕ) (distinct : order.Nodup)
    : (owners.foldl (fun order k => if k ∈ order then order else order ++ [k]) order).Nodup
      ∧ ∀ k, k ∈ owners.foldl (fun order k => if k ∈ order then order else order ++ [k]) order
        ↔ k ∈ order ∨ k ∈ owners := by
  induction owners generalizing order with
  | nil => simp [distinct]
  | cons owner owners ih =>
      by_cases known : owner ∈ order
      · rw [List.foldl_cons, if_pos known]
        refine ⟨(ih order distinct).1, fun k => ?_⟩
        rw [(ih order distinct).2, List.mem_cons]
        constructor
        · rintro (before | later)
          · exact Or.inl before
          · exact Or.inr (Or.inr later)
        · rintro (before | rfl | later)
          · exact Or.inl before
          · exact Or.inl known
          · exact Or.inr later
      · have extended : (order ++ [owner]).Nodup :=
          List.Nodup.append distinct (List.nodup_singleton _) (by simpa using known)
        rw [List.foldl_cons, if_neg known]
        refine ⟨(ih _ extended).1, fun k => ?_⟩
        rw [(ih _ extended).2, List.mem_append, List.mem_singleton, List.mem_cons, or_assoc]

section Pages

variable (sorting : Sorting) (groups : List (List ℕ)) (kinds : List Kind) (ruby : List (Ruby ℚ))
  (pageWidth pageHeight : ℚ)

theorem mem_goalsOf {k : ℕ} {goal : Box}
    : goal ∈ goalsOf sorting groups ruby pageWidth pageHeight k
      ↔ ∃ run ∈ ruby, ownerOf groups run.base = some k
        ∧ pageBox (quadSpans run.quad) pageWidth pageHeight = goal := by
  simp only [goalsOf, List.mem_map, (sorting.perm _ _).mem_iff, List.mem_filter, decide_eq_true_eq]
  constructor
  · rintro ⟨run, ⟨mem, owner⟩, same⟩
    exact ⟨run, mem, owner, same⟩
  · rintro ⟨run, mem, owner, same⟩
    exact ⟨run, ⟨mem, owner⟩, same⟩

theorem goalsOf_eq_nil {k : ℕ} (absent : k ∉ growOrder groups ruby)
    : goalsOf sorting groups ruby pageWidth pageHeight k = [] := by
  rw [List.eq_nil_iff_forall_not_mem]
  intro goal mem
  rcases (mem_goalsOf sorting groups ruby pageWidth pageHeight).mp mem with ⟨run, runMem, owner, -⟩
  apply absent
  rw [growOrder, (growOrder_fold _ [] List.nodup_nil).2]
  exact Or.inr (List.mem_filterMap.mpr ⟨run, runMem, owner⟩)

theorem growOrder_foldl (order : List ℕ) (distinct : order.Nodup) (blocks : List BlockBox) (k : ℕ)
    : (order.foldl (fun blocks k =>
        blocks.modify k (growBlock (obstaclesOf blocks kinds k)
          (goalsOf sorting groups ruby pageWidth pageHeight k))) blocks)[k]?
      = if k ∈ order then
          blocks[k]?.map (growBlock (obstaclesOf blocks kinds k)
            (goalsOf sorting groups ruby pageWidth pageHeight k))
        else blocks[k]? := by
  induction order generalizing blocks with
  | nil => rfl
  | cons first order ih =>
      rcases List.nodup_cons.mp distinct with ⟨notLater, distinct⟩
      rw [List.foldl_cons, ih distinct,
        obstaclesOf_congr kinds k (map_linesCoords_modify blocks _ _ first), List.getElem?_modify]
      by_cases here : first = k
      · subst here
        simp [notLater]
      · simp [here, Ne.symm here]

theorem growBoxesOverRuby_getElem? (blocks : List BlockBox) (k : ℕ)
    : (growBoxesOverRuby sorting blocks groups kinds ruby pageWidth pageHeight)[k]?
      = blocks[k]?.map (growBlock (obstaclesOf blocks kinds k)
          (goalsOf sorting groups ruby pageWidth pageHeight k)) := by
  have distinct : (growOrder groups ruby).Nodup := (growOrder_fold _ [] List.nodup_nil).1
  rw [growBoxesOverRuby,
    growOrder_foldl sorting groups kinds ruby pageWidth pageHeight _ distinct blocks k]
  split
  next => rfl
  next absent =>
    rw [goalsOf_eq_nil sorting groups ruby pageWidth pageHeight absent]
    cases blocks[k]? <;> rfl

/-- A block that grew, over the runs and around the obstacles. -/
structure GrownBlock (obstacles : List (Quad ℤ)) (goals : List Box) (runs : List (Ruby ℚ))
    (before after : BlockBox) : Prop where
  grown : Grown obstacles before.bbox after.bbox
  onPage : OnPage pageWidth pageHeight after.bbox
  covers : Unobstructed obstacles before.bbox (before.bbox.span goals) →
    ∀ run ∈ runs, ∀ p, InPage pageWidth pageHeight p → InSpans (quadSpans run.quad) p →
      after.bbox.Covers p

theorem growBlock_grown {block : BlockBox} {spans : Spans ℚ} (across : spans.lo0 ≤ spans.hi0)
    (down : spans.lo1 ≤ spans.hi1) (built : block.bbox = pageBox spans pageWidth pageHeight)
    (obstacles : List (Quad ℤ)) (k : ℕ)
    : GrownBlock pageWidth pageHeight obstacles
        (goalsOf sorting groups ruby pageWidth pageHeight k)
        (ruby.filter (fun run => ownerOf groups run.base = some k)) block
        (growBlock obstacles (goalsOf sorting groups ruby pageWidth pageHeight k) block) where
  grown := foldl_growRun_grown obstacles block.bbox _
  onPage := by
    apply foldl_growRun_onPage
    · rw [built]
      exact pageBox_onPage spans pageWidth pageHeight
    · intro goal mem
      rcases (mem_goalsOf sorting groups ruby pageWidth pageHeight).mp mem with ⟨run, -, -, rfl⟩
      exact pageBox_onPage _ pageWidth pageHeight
  covers := by
    intro unobstructed run mem p inPage inSpans
    have ordered : block.bbox.Ordered := by
      rw [built]
      exact pageBox_ordered across down pageWidth pageHeight
    have spanned := foldl_growRun_eq_span unobstructed
      ⟨Box.Within.refl _, Box.within_span _ _, ordered⟩
      (fun goal goalMem => Box.mem_within_span _ goalMem)
    have goalMem : pageBox (quadSpans run.quad) pageWidth pageHeight
        ∈ goalsOf sorting groups ruby pageWidth pageHeight k := by
      rw [List.mem_filter, decide_eq_true_eq] at mem
      exact (mem_goalsOf sorting groups ruby pageWidth pageHeight).mpr ⟨run, mem.1, mem.2, rfl⟩
    rw [growBlock, spanned]
    exact (pageBox_covers inPage inSpans).mono (Box.mem_within_span _ goalMem)

theorem grow_boxes_safe {blocks : List BlockBox} (built : BuiltFor pageWidth pageHeight blocks)
    : (growBoxesOverRuby sorting blocks groups kinds ruby pageWidth pageHeight).map
          BlockBox.linesCoords
        = blocks.map BlockBox.linesCoords
      ∧ (∀ k before after, blocks[k]? = some before →
          (growBoxesOverRuby sorting blocks groups kinds ruby pageWidth pageHeight)[k]?
            = some after →
          GrownBlock pageWidth pageHeight (obstaclesOf blocks kinds k)
            (goalsOf sorting groups ruby pageWidth pageHeight k)
            (ruby.filter (fun run => ownerOf groups run.base = some k)) before after)
      ∧ ∀ box side goal obstacles,
          Farthest box side goal obstacles (clearReach box side goal obstacles) := by
  refine ⟨?_, ?_, clearReach_farthest⟩
  · apply List.ext_getElem?
    intro k
    rw [List.getElem?_map, List.getElem?_map, growBoxesOverRuby_getElem?]
    cases blocks[k]? <;> rfl
  · intro k before after found grown
    rw [growBoxesOverRuby_getElem?, found, Option.map_some, Option.some.injEq] at grown
    subst grown
    rcases built before (List.mem_of_getElem? found) with ⟨spans, across, down, same⟩
    exact growBlock_grown sorting groups ruby pageWidth pageHeight across down same _ k

end Pages

-- A run over the edge of its page

def edgeBlock : BlockBox :=
  ⟨⟨0, 0, 10, 10⟩, []⟩

def edgeRun : Ruby ℚ where
  line := 1
  base := 0
  text := "ruby"
  quad := ![(10, 0), (25, 0), (25, 10), (10, 10)]
  span := (0, 10)
  chars := (0, 1)

theorem edgeBlock_built
    : BuiltFor 20 20 [edgeBlock] := by
  intro block mem
  rw [List.mem_singleton] at mem
  subst mem
  refine ⟨⟨0, 10, 0, 10⟩, by norm_num, by norm_num, ?_⟩
  simp only [edgeBlock, pageBox, clampTo, pageLimit]
  norm_num

theorem grow_boxes_safe_edgeBlock
    : ((growBoxesOverRuby default [edgeBlock] [[0]] [.text] [edgeRun] 20 20).map
          BlockBox.linesCoords
        = [edgeBlock].map BlockBox.linesCoords
      ∧ (∀ k before after, [edgeBlock][k]? = some before →
          (growBoxesOverRuby default [edgeBlock] [[0]] [.text] [edgeRun] 20 20)[k]? = some after →
          GrownBlock 20 20 (obstaclesOf [edgeBlock] [.text] k)
            (goalsOf default [[0]] [edgeRun] 20 20 k)
            ([edgeRun].filter (fun run => ownerOf [[0]] run.base = some k)) before after)
      ∧ ∀ box side goal obstacles,
          Farthest box side goal obstacles (clearReach box side goal obstacles)) :=
  grow_boxes_safe default [[0]] [.text] [edgeRun] 20 20 edgeBlock_built

/-- Nothing is in the way of the run, and the box still ends at the page. -/
theorem not_covered_edgeRun
    : ownerOf [[0]] edgeRun.base = some 0
      ∧ obstaclesOf [edgeBlock] [.text] 0 = []
      ∧ ∃ after, (growBoxesOverRuby default [edgeBlock] [[0]] [.text] [edgeRun] 20 20)[0]?
          = some after
        ∧ InSpans (quadSpans edgeRun.quad) (25, 5) ∧ ¬ after.bbox.Covers (25, 5) := by
  refine ⟨by decide, by decide, ?_⟩
  rcases edgeBlock_built edgeBlock (by simp) with ⟨spans, across, down, same⟩
  have grown := growBlock_grown default [[0]] [edgeRun] 20 20 across down same
    (obstaclesOf [edgeBlock] [.text] 0) 0
  refine ⟨_, growBoxesOverRuby_getElem? default [[0]] [.text] [edgeRun] 20 20 [edgeBlock] 0, ?_, ?_⟩
  · constructor <;> simp [quadSpans, edgeRun]
    norm_num
  · intro covers
    have limit : pageLimit 20 = 20 := by
      rw [pageLimit]
      norm_num
    have inside : _ ≤ (20 : ℤ) := limit ▸ grown.onPage.right (by rw [limit]; norm_num)
    have reached : (25 : ℚ) ≤ 20 := covers.right.trans (by exact_mod_cast inside)
    norm_num at reached

end MokuroBunko.Layout
