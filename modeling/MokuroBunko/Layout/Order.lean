import Mathlib.Algebra.Order.Ring.Int
import MokuroBunko.Layout.Merge

/-! The order of lines, paragraphs and blocks (`layout/order.rs`): every order is one of the same
lines.
-/

namespace MokuroBunko.Layout

open MokuroBunko.Lib

/-- The kind of a block. -/
inductive Kind where
  | body
  | text
  | header
  | footer
  | noise
  deriving DecidableEq

variable {F : Type} [Floats F] (sorting : Sorting)

-- Columns

/-- The frame of a block: the median angle of its lines that have one. -/
def blockTheta (group : List (Line F)) : F :=
  (median sorting ((group.filter Line.angleReliable).map Line.angle)).getD 0.0

/-- A line with its place across the columns and along them. -/
structure KeyedLine (F : Type) where
  across : F
  along : F
  line : Line F

def keyLine (theta : F) (vertical : Bool) (line : Line F) : KeyedLine F :=
  let flow : F := if vertical then -1.0 else 1.0
  let spans := line.mainCross theta vertical
  ⟨flow * (spans.lo1 + spans.hi1) / 2.0, spans.lo0, line⟩

/-- The next line, in the last column if it starts close to that column's first line. -/
def joinColumn (columns : List (List (KeyedLine F))) (item : KeyedLine F)
    : List (List (KeyedLine F)) :=
  match columns.getLast? with
  | some (first :: _) =>
      if Floats.abs (item.across - first.across) ≤ columnClusterEm * item.line.thickness then
        extendLast [item] columns
      else columns ++ [[item]]
  | _ => columns ++ [[item]]

/-- The lines as columns or rows in reading order. -/
def clusterColumns (group : List (Line F)) (theta : Option F) : List (List (Line F)) :=
  match group with
  | [] => []
  | first :: _ =>
      let theta := theta.getD (blockTheta sorting group)
      let keyed := sorting.sortBy (fun a b =>
        ((fcmp a.across b.across).then (fcmp a.along b.along)).then
          (compare a.line.index b.line.index)) (group.map (keyLine theta first.vertical))
      (keyed.foldl joinColumn []).map (fun column =>
        (sorting.sortBy (fun a b =>
          (fcmp a.along b.along).then (compare a.line.index b.line.index)) column).map
            KeyedLine.line)

/-- The lines of one block in reading order. -/
def orderLines (group : List (Line F)) : List (Line F) :=
  (clusterColumns sorting group none).flatten

-- Paragraphs

def openingBrackets : String := "「『（(〈《【〔［[｢"

def sentenceEndings : String := "。．.！？!?」』）)〉》】〕］]｣…‥―—"

def firstChar (text : String) : String := String.ofList (text.toList.take 1)

def lastChar (text : String) : String := String.ofList (text.toList.getLast?.toList)

/-- Where the first cell of the line starts, which for a bracket is before its ink. -/
def textStart (line : Line F) (theta : F) (vertical : Bool) : F :=
  let start := (line.mainCross theta vertical).lo0
  if Text.contains openingBrackets (firstChar line.text) then
    start - bracketInkInsetEm * line.thickness
  else start

/-- The paragraphs so far, and the last column's inset, shortness and text. -/
structure Paragraphs (F : Type) where
  paragraphs : List (List (Line F))
  prevInset : F
  prevShort : F
  prevText : String

/-- Whether a paragraph starts with the column, from how far it is set in. -/
def startsParagraph (state : Paragraphs F) (k : ℕ) (inset : F) (text : String) : Bool :=
  if k = 0 ∨ paragraphShortEndEm ≤ state.prevShort then true
  else if paragraphDeepInsetEm ≤ inset then
    paragraphIndentMinEm < Floats.abs (inset - state.prevInset)
  else if paragraphIndentMinEm ≤ inset then true
  else
    Text.contains openingBrackets (firstChar text) && paragraphSoftEndEm ≤ state.prevShort
      && Text.contains sentenceEndings (lastChar state.prevText)

/-- How far the column is set in from the top of the body. No column is empty. -/
def columnInset (body : Body F) (column : List (Line F)) : F :=
  match column with
  | [] => 0.0
  | line :: _ => (textStart line body.theta body.vertical - body.top) / body.em

/-- The next column, in a new paragraph if it starts one. -/
def nextColumn (body : Body F) (state : Paragraphs F) (entry : List (Line F) × ℕ)
    : Paragraphs F :=
  let (column, k) := entry
  let inset := columnInset body column
  let ends := column.map (fun line => (line.mainCross body.theta body.vertical).hi0)
  let short := (body.bottom - maxOf ends) / body.em
  let text := String.join (column.map Line.text)
  let paragraphs :=
    if startsParagraph state k inset text || state.paragraphs.isEmpty then
      state.paragraphs ++ [[]]
    else state.paragraphs
  ⟨extendLast column paragraphs, inset, short, text⟩

/-- A merged body block split where paragraphs start. -/
def splitParagraphs (group : List (Line F)) (body : Body F) : List (List (Line F)) :=
  let columns := clusterColumns sorting group (some body.theta)
  (columns.zipIdx.foldl (nextColumn body) ⟨[], 0.0, 0.0, ""⟩).paragraphs

-- Blocks

/-- A block's lines, its kind and how far its quads may grow. -/
structure Group (F : Type) where
  lines : List (Line F)
  kind : Kind
  cap : F

def groupBox (group : List (Line F)) : Spans F :=
  let spans := group.map (Line.spans · 0.0)
  ⟨minOf (spans.map Spans.lo0), maxOf (spans.map Spans.hi0), minOf (spans.map Spans.lo1),
    maxOf (spans.map Spans.hi1)⟩

/-- The vertical overlap of two blocks as a share of the shorter one. -/
def rowOverlap (a b : Spans F) : F :=
  overlap a.lo1 a.hi1 b.lo1 b.hi1 / max2 (min2 (a.hi1 - a.lo1) (b.hi1 - b.lo1)) 1e-6

section Rows

variable {n : ℕ} (groups : Fin n → List (Line F)) (boxes : Fin n → Spans F)

def joinsRow (seed : Fin n) (row : List (Fin n)) (i : Fin n) : Bool :=
  i == seed || rowMinOverlap ≤ rowOverlap (boxes seed) (boxes i)
    || row.any (fun m => rowChainOverlap ≤ rowOverlap (boxes m) (boxes i))

/-- The blocks that stand in one row with the first one. -/
def rowOf (seed : Fin n) (remaining : List (Fin n)) : List (Fin n) :=
  remaining.foldl (fun row i => if joinsRow boxes seed row i then row ++ [i] else row) []

/-- A row from right to left, or from left to right if most of its glyphs run across. -/
def sortRow (row : List (Fin n)) : List (Fin n) :=
  let glyphsVertical := ((row.flatMap groups).map (fun line =>
    (glyphCount line.text : ℤ) * if line.vertical then 1 else -1)).sum
  if 0 ≤ glyphsVertical then
    sorting.sortBy (fun a b => ((fcmp (-(boxes a).hi0) (-(boxes b).hi0)).then
      (fcmp (boxes a).lo1 (boxes b).lo1)).then (compare a b)) row
  else
    sorting.sortBy (fun a b => ((fcmp (boxes a).lo0 (boxes b).lo0).then
      (fcmp (boxes a).lo1 (boxes b).lo1)).then (compare a b)) row

theorem rowOf_cons (seed : Fin n) (rest : List (Fin n))
    : ∃ more, rowOf boxes seed (seed :: rest) = seed :: more ∧ more.Sublist rest := by
  have first : joinsRow boxes seed [] seed = true := by simp [joinsRow]
  rw [rowOf, List.foldl_cons, if_pos first]
  exact foldl_select_sublist [seed]

theorem sortRow_perm {row : List (Fin n)} : (sortRow sorting groups boxes row).Perm row := by
  simp only [sortRow]
  split <;> exact sorting.perm _ row

/-- The blocks row by row. -/
def orderRemaining : List (Fin n) → List (Fin n)
  | [] => []
  | seed :: rest =>
      let row := sortRow sorting groups boxes (rowOf boxes seed (seed :: rest))
      row ++ orderRemaining ((seed :: rest).filter (fun i => ! row.contains i))
termination_by remaining => remaining.length
decreasing_by
  apply List.length_filter_lt_length_iff_exists.mpr
  obtain ⟨more, row, _⟩ := rowOf_cons boxes seed rest
  have member : seed ∈ sortRow sorting groups boxes (rowOf boxes seed (seed :: rest)) := by
    rw [(sortRow_perm sorting groups boxes).mem_iff, row]
    exact List.mem_cons_self
  exact ⟨seed, List.mem_cons_self, by simpa using member⟩

def orderRows (indices : List (Fin n)) : List (Fin n) :=
  orderRemaining sorting groups boxes (sorting.sortBy (fun a b =>
    ((fcmp (boxes a).lo1 (boxes b).lo1).then (fcmp (-(boxes a).hi0) (-(boxes b).hi0))).then
      (compare a b)) indices)

end Rows

/-- Where one body ends and another begins below it. -/
def bodyCuts (bodies : List (Body F)) : List F :=
  let stacked := bodies.filter Body.vertical
  (stacked.zip stacked.tail).filterMap (fun (upper, lower) =>
    let shared := overlap upper.cross0 upper.cross1 lower.cross0 lower.cross1
    let narrower := min2 (upper.cross1 - upper.cross0) (lower.cross1 - lower.cross0)
    if upper.bottom < lower.top ∧ 0.5 * narrower ≤ shared then
      some ((upper.bottom + lower.top) / 2.0)
    else none)

/-- The reading order of the blocks. -/
def orderBlocks (groups : List (Group F)) (bodies : List (Body F)) : List (Fin groups.length) :=
  let boxes := fun i : Fin groups.length => groupBox (groups.get i).lines
  let rows := orderRows sorting (fun i => (groups.get i).lines) boxes
  let ofKind := fun kind => (List.finRange groups.length).filter (fun i => (groups.get i).kind = kind)
  let flow := (List.finRange groups.length).filter
    (fun i => (groups.get i).kind = .text ∨ (groups.get i).kind = .body)
  let cuts := bodyCuts bodies
  let tiers := flow.foldl (fun tiers i =>
    let centre := ((boxes i).lo1 + (boxes i).hi1) / 2.0
    pushAt tiers (cuts.countP (· < centre)) i) (fun _ => [])
  rows (ofKind .header) ++ (List.range (cuts.length + 1)).flatMap (fun tier => rows (tiers tier))
    ++ rows (ofKind .footer) ++ rows (ofKind .noise)

-- Conservation

omit [Floats F] in
theorem getLast_ne_nil {columns : List (List (KeyedLine F))} {column : List (KeyedLine F)}
    (last : columns.getLast? = some column)
    : columns ≠ [] := by
  intro empty
  simp [empty] at last

theorem flatten_joinColumn {columns : List (List (KeyedLine F))} {item : KeyedLine F}
    : (joinColumn columns item).flatten = columns.flatten ++ [item] := by
  rw [joinColumn]
  split
  · rename_i last
    split
    · exact flatten_extendLast (getLast_ne_nil last)
    · simp
  · simp

theorem flatten_foldl_joinColumn {items : List (KeyedLine F)} {columns : List (List (KeyedLine F))}
    : (items.foldl joinColumn columns).flatten = columns.flatten ++ items := by
  induction items generalizing columns with
  | nil => simp
  | cons item rest ih => simp [ih, flatten_joinColumn]

omit [Floats F] in
theorem flatten_map_perm {runs : List (List (KeyedLine F))}
    {sorted : List (KeyedLine F) → List (KeyedLine F)} (perm : ∀ run, (sorted run).Perm run)
    : ((runs.map (fun run => (sorted run).map KeyedLine.line)).flatten).Perm
      (runs.flatten.map KeyedLine.line) := by
  rw [List.map_flatten, ← List.flatMap_def, ← List.flatMap_def]
  exact List.Perm.flatMap_left _ (fun run _ => (perm run).map _)

theorem clusterColumns_perm {group : List (Line F)} {theta : Option F}
    : (clusterColumns sorting group theta).flatten.Perm group := by
  cases group with
  | nil => exact List.Perm.refl _
  | cons first rest =>
      simp only [clusterColumns]
      refine (flatten_map_perm (fun run => sorting.perm _ run)).trans ?_
      rw [flatten_foldl_joinColumn, List.flatten_nil, List.nil_append]
      refine ((sorting.perm _ _).map _).trans ?_
      rw [List.map_map]
      have same : KeyedLine.line ∘ keyLine (theta.getD (blockTheta sorting (first :: rest)))
          first.vertical = id := rfl
      rw [same, List.map_id]

theorem orderLines_perm {group : List (Line F)} : (orderLines sorting group).Perm group :=
  clusterColumns_perm sorting

theorem flatten_nextColumn {body : Body F} {state : Paragraphs F} {entry : List (Line F) × ℕ}
    : (nextColumn body state entry).paragraphs.flatten = state.paragraphs.flatten ++ entry.1 := by
  simp only [nextColumn]
  split
  · rw [flatten_extendLast (by simp)]
    simp
  · rename_i goesOn
    apply flatten_extendLast
    intro empty
    simp [empty] at goesOn

theorem flatten_foldl_nextColumn {body : Body F} {entries : List (List (Line F) × ℕ)}
    {state : Paragraphs F}
    : (entries.foldl (nextColumn body) state).paragraphs.flatten
      = state.paragraphs.flatten ++ (entries.map Prod.fst).flatten := by
  induction entries generalizing state with
  | nil => simp
  | cons entry rest ih => simp [ih, flatten_nextColumn]

theorem splitParagraphs_perm {group : List (Line F)} {body : Body F}
    : (splitParagraphs sorting group body).flatten.Perm group := by
  simp only [splitParagraphs]
  rw [flatten_foldl_nextColumn, List.zipIdx_map_fst, List.flatten_nil, List.nil_append]
  exact clusterColumns_perm sorting

theorem orderRemaining_perm {n : ℕ} {groups : Fin n → List (Line F)} {boxes : Fin n → Spans F}
    {remaining : List (Fin n)} (nodup : remaining.Nodup)
    : (orderRemaining sorting groups boxes remaining).Perm remaining := by
  fun_induction orderRemaining sorting groups boxes remaining with
  | case1 => exact List.Perm.refl _
  | case2 seed rest row ih =>
      obtain ⟨more, same, sub⟩ := rowOf_cons boxes seed rest
      have sorted : row.Perm (seed :: more) := by
        rw [← same]
        exact sortRow_perm sorting groups boxes
      have kept : (seed :: rest).filter (fun i => ! row.contains i)
          = (seed :: rest).filter (fun i => ! (seed :: more).contains i) := by
        apply List.filter_congr
        intro i _
        rw [List.contains_eq_mem, List.contains_eq_mem, decide_eq_decide.mpr sorted.mem_iff]
      refine ((ih (nodup.filter _)).append_left _).trans ?_
      rw [kept]
      refine (sorted.append_right _).trans ?_
      exact perm_append_filter_notMem nodup (sub.cons_cons seed)

theorem orderRows_perm {n : ℕ} (groups : Fin n → List (Line F)) (boxes : Fin n → Spans F)
    {indices : List (Fin n)} (nodup : indices.Nodup)
    : (orderRows sorting groups boxes indices).Perm indices := by
  have sorted := sorting.perm (fun a b : Fin n =>
    ((fcmp (boxes a).lo1 (boxes b).lo1).then (fcmp (-(boxes a).hi0) (-(boxes b).hi0))).then
      (compare a b)) indices
  exact (orderRemaining_perm sorting (sorted.nodup_iff.mpr nodup)).trans sorted

theorem flatMap_foldl_pushAt {n : ℕ} {keys : List ℕ} {key : Fin n → ℕ} (nodup : keys.Nodup)
    (within : ∀ i, key i ∈ keys) (items : List (Fin n))
    : (keys.flatMap (items.foldl (fun groups i => pushAt groups (key i) i)
        (fun _ => []))).Perm items := by
  induction items using List.reverseRecOn with
  | nil => simp
  | append_singleton items item ih =>
      rw [List.foldl_append]
      exact (flatMap_pushAt nodup (within item)).trans (ih.append_right [item])

theorem filter_kinds_perm {n : ℕ} (kind : Fin n → Kind) (all : List (Fin n))
    : (all.filter (fun i => kind i = .header)
        ++ all.filter (fun i => kind i = .text ∨ kind i = .body)
        ++ all.filter (fun i => kind i = .footer) ++ all.filter (fun i => kind i = .noise)).Perm
      all := by
  apply List.perm_iff_count.mpr
  intro i
  induction all with
  | nil => rfl
  | cons first rest ih =>
      simp only [List.count_append, Bool.decide_or] at ih ⊢
      cases holds : kind first <;> simp [holds, List.count_cons] <;> omega

theorem orderBlocks_perm (groups : List (Group F)) (bodies : List (Body F))
    : (orderBlocks sorting groups bodies).Perm (List.finRange groups.length) := by
  simp only [orderBlocks]
  have all := List.nodup_finRange groups.length
  generalize flowEq : (List.finRange groups.length).filter
    (fun i => (groups.get i).kind = .text ∨ (groups.get i).kind = .body) = flow
  generalize tiersEq : flow.foldl (fun tiers i =>
    pushAt tiers ((bodyCuts bodies).countP (· < ((groupBox (groups.get i).lines).lo1
      + (groupBox (groups.get i).lines).hi1) / 2.0)) i) (fun _ => []) = tiers
  have flowNodup : flow.Nodup := flowEq ▸ all.filter _
  have pushed : ((List.range ((bodyCuts bodies).length + 1)).flatMap tiers).Perm flow := by
    rw [← tiersEq]
    apply flatMap_foldl_pushAt List.nodup_range
    intro i
    rw [List.mem_range, Nat.lt_succ_iff]
    exact List.countP_le_length
  have tierNodup := (List.nodup_flatMap.mp (pushed.nodup_iff.mpr flowNodup)).1
  have rows : ∀ {kind}, (orderRows sorting (fun i => (groups.get i).lines)
      (fun i => groupBox (groups.get i).lines) ((List.finRange groups.length).filter
        (fun i => decide ((groups.get i).kind = kind)))).Perm ((List.finRange groups.length).filter
        (fun i => decide ((groups.get i).kind = kind))) :=
    orderRows_perm sorting _ _ (all.filter _)
  have middle := (List.Perm.flatMap_left _ (fun tier member =>
    orderRows_perm sorting (fun i => (groups.get i).lines) (fun i => groupBox (groups.get i).lines)
      (tierNodup tier member))).trans pushed
  refine (((rows.append middle).append rows).append rows).trans ?_
  rw [← flowEq]
  exact filter_kinds_perm (fun i => (groups.get i).kind) _

end MokuroBunko.Layout
