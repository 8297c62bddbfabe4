import MokuroBunko.Lib.Decimal
import Mathlib.Data.List.Forall2
import Mathlib.Data.List.TakeWhile
import Mathlib.Data.String.Basic

/-! The order of a volume's pages: `natsort_key`. The normalization and the tables of digits are
parameters.
-/

namespace MokuroBunko.Library

open MokuroBunko.Lib

-- Parts of a key

/-- `Part`: a number is the decimal digits of its value. -/
inductive Part where
  | text (content : String)
  | number (digits : String)
deriving DecidableEq

/-- `cmp_decimal_strings`. -/
def cmpDecimalStrings (first second : String) : Ordering :=
  (compare first.length second.length).then (compare first second)

namespace Part

/-- The order of parts. A text is never compared with a number; it would come after. -/
def cmp : Part → Part → Ordering
  | .text first, .text second => compare first second
  | .number first, .number second => cmpDecimalStrings first second
  | .text _, .number _ => .gt
  | .number _, .text _ => .lt

def isText : Part → Bool
  | .text _ => true
  | .number _ => false

/-- The part of a number's value. -/
def ofNat (value : ℕ) : Part := .number (toString value)

end Part

-- The key

/-- What the key rests on. -/
structure DigitTables where
  /-- Normalization form D. -/
  nfd : String → String
  /-- `decimal_value`: of a decimal digit of any script. -/
  decimalValue : Char → Option ℕ
  /-- `digit_not_decimal`: of a digit character that is no decimal one. -/
  digitNotDecimal : Char → Option ℕ

/-- What `natsort_key` has collected: the parts written, and a text or a run of digits that is not
written yet.
-/
structure Scan where
  components : List Part
  text : List Char
  digits : List Char

namespace DigitTables

variable (tables : DigitTables)

/-- `decimal_run_value`. -/
def decimalRunValue (run : List Char) : String :=
  String.ofList (Decimal.stripped
    ((run.filterMap tables.decimalValue).map fun value => Char.ofNat (48 + value)))

/-- `flush_text`. -/
def flushText (scan : Scan) : Scan :=
  if scan.text = [] then scan
  else { scan with components := scan.components ++ [.text (String.ofList scan.text)], text := [] }

/-- `flush_digits`. -/
def flushDigits (scan : Scan) : Scan :=
  if scan.digits = [] then scan
  else
    { scan with
      components := scan.components ++ [.number (tables.decimalRunValue scan.digits)]
      digits := [] }

/-- The loop's body. -/
def read (scan : Scan) (char : Char) : Scan :=
  if (tables.decimalValue char).isSome then
    let scan := flushText scan
    { scan with digits := scan.digits ++ [char] }
  else
    match tables.digitNotDecimal char with
    | some value =>
        let scan := tables.flushDigits (flushText scan)
        { scan with components := scan.components ++ [.number (toString value)] }
    | none =>
        let scan := tables.flushDigits scan
        { scan with text := scan.text ++ [char] }

/-- What is left once the text has ended is written too. -/
def finish (scan : Scan) : List Part := (tables.flushDigits (flushText scan)).components

/-- The parts before the separation. -/
def components (text : List Char) : List Part := tables.finish (text.foldl tables.read ⟨[], [], []⟩)

/-- `sep_inserter`: an empty text before a first number and between two numbers. -/
def sepInserter : (first previousNumber : Bool) → List Part → List Part
  | _, _, [] => []
  | first, previousNumber, part :: rest =>
      let number := !part.isText
      (if number && (first || previousNumber) then [.text ""] else [])
        ++ part :: sepInserter false number rest

/-- `natsort_key`. -/
def natsortKey (path : String) : List Part :=
  sepInserter true false (tables.components (tables.nfd path).toList)

/-- The order of keys: by the first part that differs. -/
def natsortCmp (first second : String) : Ordering :=
  List.compareLex Part.cmp (tables.natsortKey first) (tables.natsortKey second)

end DigitTables

example : DigitTables.sepInserter true false [.number "1", .number "2", .text "a", .number "3"]
    = [.text "", .number "1", .text "", .number "2", .text "a", .number "3"] := by
  decide

-- The order

instance : Std.TransCmp cmpDecimalStrings :=
  inferInstanceAs (Std.TransCmp (compareLex (compareOn String.length) compare))

instance : Std.LawfulEqCmp cmpDecimalStrings where
  compare_self := by simp [cmpDecimalStrings]
  eq_of_compare same := by
    rw [cmpDecimalStrings, Ordering.then_eq_eq] at same
    exact Std.LawfulEqCmp.eq_of_compare same.2

namespace Part

@[simp] theorem cmp_text (first second : String)
    : cmp (.text first) (.text second) = compare first second := rfl

@[simp] theorem cmp_number (first second : String)
    : cmp (.number first) (.number second) = cmpDecimalStrings first second := rfl

instance : Std.LawfulEqCmp cmp where
  compare_self := by
    intro part
    cases part <;> simp
  eq_of_compare := by
    intro first second same
    cases first with
    | text =>
        cases second with
        | text => simpa using same
        | number => cases same
    | number =>
        cases second with
        | text => cases same
        | number => simpa using same

instance : Std.TransCmp cmp where
  eq_swap := by
    intro first second
    cases first <;> cases second
    case text.text => exact Std.OrientedOrd.eq_swap
    case number.number first second =>
      exact (Std.OrientedCmp.eq_swap : cmpDecimalStrings first second = _)
    all_goals rfl
  isLE_trans := by
    intro first second third under above
    cases first <;> cases second <;> cases third
    case text.text.text => exact Std.TransOrd.isLE_trans under above
    case number.number.number first second third =>
      exact (Std.TransCmp.isLE_trans under above : (cmpDecimalStrings first third).isLE = true)
    all_goals first | rfl | (cases under; done) | cases above

theorem cmp_ofNat (first second : ℕ) : cmp (ofNat first) (ofNat second) = compare first second := by
  have less {first second : ℕ} (smaller : first < second)
      : cmp (ofNat first) (ofNat second) = .lt := by
    rw [← Decimal.toDigits_lt_iff] at smaller
    rw [ofNat, ofNat, cmp, cmpDecimalStrings, Ordering.then_eq_lt, compare_lt_iff_lt,
      compare_eq_iff_eq, compare_lt_iff_lt, Nat.toString_eq_ofList_toDigits,
      Nat.toString_eq_ofList_toDigits, String.length_ofList, String.length_ofList, String.lt_iff,
      String.toList_ofList, String.toList_ofList]
    exact smaller
  obtain smaller | rfl | greater := lt_trichotomy first second
  · rw [less smaller, compare_lt_iff_lt.mpr smaller]
  · simp
  · rw [(Std.OrientedCmp.eq_swap : cmp (ofNat first) (ofNat second) = _), less greater,
      compare_gt_iff_gt.mpr greater]
    rfl

end Part

-- Texts and numbers of a path

/-- A stretch of a path. -/
inductive Segment where
  | text (content : List Char)
  | decimals (run : List Char)
  | digit (char : Char) (value : ℕ)

namespace DigitTables

variable (tables : DigitTables)

/-- Neither a decimal digit nor another one. -/
def Plain (char : Char) : Prop :=
  tables.decimalValue char = none ∧ tables.digitNotDecimal char = none

/-- The text is the stretches in their order: texts and runs of decimal digits as long as they go,
other digits each for itself.
-/
inductive Reads : List Char → List Segment → Prop where
  | nil : Reads [] []
  | text {content rest : List Char} {segments : List Segment} (nonempty : content ≠ [])
      (plain : ∀ char ∈ content, tables.Plain char)
      (ends : ∀ char ∈ rest.head?, ¬ tables.Plain char) (reads : Reads rest segments)
      : Reads (content ++ rest) (.text content :: segments)
  | decimals {run rest : List Char} {segments : List Segment} (nonempty : run ≠ [])
      (digits : ∀ char ∈ run, (tables.decimalValue char).isSome = true)
      (ends : ∀ char ∈ rest.head?, tables.decimalValue char = none) (reads : Reads rest segments)
      : Reads (run ++ rest) (.decimals run :: segments)
  | digit {char : Char} {value : ℕ} {rest : List Char} {segments : List Segment}
      (other : tables.decimalValue char = none)
      (found : tables.digitNotDecimal char = some value) (reads : Reads rest segments)
      : Reads (char :: rest) (.digit char value :: segments)

/-- The number of a stretch, when it is one. -/
def value : Segment → Option ℕ
  | .text _ => none
  | .decimals run => some (Decimal.positional (run.filterMap tables.decimalValue))
  | .digit _ value => some value

/-- The same text, or numbers of one value however they are written. -/
inductive Alike : Segment → Segment → Prop where
  | text (content : List Char) : Alike (.text content) (.text content)
  | number {first second : Segment} {value : ℕ} (one : tables.value first = some value)
      (two : tables.value second = some value) : Alike first second

/-- A stretch's part: its text, or its number. -/
def part (segment : Segment) : Part :=
  match tables.value segment, segment with
  | some value, _ => .ofNat value
  | none, .text content => .text (String.ofList content)
  | none, _ => .text ""

variable {tables}

variable (tables) in
theorem reads_exists (text : List Char) : ∃ segments, tables.Reads text segments := by
  induction length : text.length using Nat.strong_induction_on generalizing text with
  | _ size ih =>
    cases text with
    | nil => exact ⟨[], .nil⟩
    | cons char rest =>
        rw [List.length_cons] at length
        have left (keep : Char → Bool)
            : ∃ segments, tables.Reads (rest.dropWhile keep) segments :=
          ih _ (by have := (List.dropWhile_sublist (l := rest) keep).length_le; omega) _ rfl
        have parted (keep : Char → Bool)
            : char :: rest = (char :: rest.takeWhile keep) ++ rest.dropWhile keep := by
          rw [List.cons_append, List.takeWhile_append_dropWhile]
        have ends (keep : Char → Bool) : ∀ other ∈ (rest.dropWhile keep).head?,
            keep other = false := by
          intro other isHead
          have stopped := List.head?_dropWhile_not keep rest
          rw [Option.mem_def.mp isHead] at stopped
          exact stopped
        cases decimal : tables.decimalValue char with
        | some value =>
            let keep := fun other => (tables.decimalValue other).isSome
            obtain ⟨segments, reads⟩ := left keep
            rw [parted keep]
            refine ⟨_, .decimals (List.cons_ne_nil _ _) ?_ ?_ reads⟩
            · rw [List.forall_mem_cons]
              refine ⟨by simp [decimal], fun other isIn => ?_⟩
              simpa [keep] using List.mem_takeWhile_imp isIn
            · intro other isHead
              simpa [keep] using ends keep other isHead
        | none =>
            cases digit : tables.digitNotDecimal char with
            | some value =>
                obtain ⟨segments, reads⟩ := ih rest.length (by omega) rest rfl
                exact ⟨_, .digit decimal digit reads⟩
            | none =>
                let keep := fun other =>
                  (tables.decimalValue other).isNone && (tables.digitNotDecimal other).isNone
                obtain ⟨segments, reads⟩ := left keep
                rw [parted keep]
                refine ⟨_, .text (List.cons_ne_nil _ _) ?_ ?_ reads⟩
                · rw [List.forall_mem_cons]
                  refine ⟨⟨decimal, digit⟩, fun other isIn => ?_⟩
                  simpa [keep, Plain] using List.mem_takeWhile_imp isIn
                · intro other isHead plain
                  have stopped := ends keep other isHead
                  simp [keep, plain.1, plain.2] at stopped

theorem decimalRunValue_eq
    (small : ∀ char value, tables.decimalValue char = some value → value < 10) (run : List Char)
    : tables.decimalRunValue run
      = toString (Decimal.positional (run.filterMap tables.decimalValue)) := by
  have values : ∀ value ∈ run.filterMap tables.decimalValue, value < 10 := by
    intro value isIn
    obtain ⟨char, _, found⟩ := List.mem_filterMap.mp isIn
    exact small char value found
  rw [decimalRunValue, Decimal.stripped_map values, Nat.toString_eq_ofList_toDigits]

theorem foldl_read_plain {content : List Char} (plain : ∀ char ∈ content, tables.Plain char)
    (written : List Part) (text : List Char)
    : content.foldl tables.read ⟨written, text, []⟩ = ⟨written, text ++ content, []⟩ := by
  induction content generalizing text with
  | nil => rw [List.append_nil]; rfl
  | cons char content ih =>
      rw [List.forall_mem_cons] at plain
      have step : tables.read ⟨written, text, []⟩ char = ⟨written, text ++ [char], []⟩ := by
        simp [read, plain.1.1, plain.1.2, flushDigits]
      rw [List.foldl_cons, step, ih plain.2, List.append_assoc, List.cons_append, List.nil_append]

theorem foldl_read_decimals {run : List Char}
    (decimals : ∀ char ∈ run, (tables.decimalValue char).isSome = true) (written : List Part)
    (digits : List Char)
    : run.foldl tables.read ⟨written, [], digits⟩ = ⟨written, [], digits ++ run⟩ := by
  induction run generalizing digits with
  | nil => rw [List.append_nil]; rfl
  | cons char run ih =>
      rw [List.forall_mem_cons] at decimals
      have step : tables.read ⟨written, [], digits⟩ char = ⟨written, [], digits ++ [char]⟩ := by
        simp [read, decimals.1, flushText]
      rw [List.foldl_cons, step, ih decimals.2, List.append_assoc, List.cons_append,
        List.nil_append]

theorem finish_text {text : List Char} (nonempty : text ≠ []) {rest : List Char}
    (ends : ∀ char ∈ rest.head?, ¬ tables.Plain char) (written : List Part)
    : tables.finish (rest.foldl tables.read ⟨written, text, []⟩)
      = tables.finish
        (rest.foldl tables.read ⟨written ++ [.text (String.ofList text)], [], []⟩) := by
  cases rest with
  | nil => simp [finish, flushText, flushDigits, nonempty]
  | cons char rest =>
      have step : tables.read ⟨written, text, []⟩ char
          = tables.read ⟨written ++ [.text (String.ofList text)], [], []⟩ char := by
        cases decimal : tables.decimalValue char with
        | some value => simp [read, decimal, flushText, nonempty]
        | none =>
            cases digit : tables.digitNotDecimal char with
            | some value => simp [read, decimal, digit, flushText, flushDigits, nonempty]
            | none => exact absurd ⟨decimal, digit⟩ (ends char rfl)
      rw [List.foldl_cons, List.foldl_cons, step]

theorem finish_decimals {run : List Char} (nonempty : run ≠ []) {rest : List Char}
    (ends : ∀ char ∈ rest.head?, tables.decimalValue char = none) (written : List Part)
    : tables.finish (rest.foldl tables.read ⟨written, [], run⟩)
      = tables.finish
        (rest.foldl tables.read ⟨written ++ [.number (tables.decimalRunValue run)], [], []⟩) := by
  cases rest with
  | nil => simp [finish, flushText, flushDigits, nonempty]
  | cons char rest =>
      have step : tables.read ⟨written, [], run⟩ char
          = tables.read ⟨written ++ [.number (tables.decimalRunValue run)], [], []⟩ char := by
        have decimal := ends char rfl
        cases digit : tables.digitNotDecimal char with
        | some value => simp [read, decimal, digit, flushText, flushDigits, nonempty]
        | none => simp [read, decimal, digit, flushDigits, nonempty]
      rw [List.foldl_cons, List.foldl_cons, step]

theorem components_eq
    (small : ∀ char value, tables.decimalValue char = some value → value < 10)
    {text : List Char} {segments : List Segment} (reads : tables.Reads text segments)
    : tables.components text = segments.map tables.part := by
  suffices from_written : ∀ written,
      tables.finish (text.foldl tables.read ⟨written, [], []⟩)
        = written ++ segments.map tables.part by
    exact from_written []
  induction reads with
  | nil =>
      intro written
      simp [finish, flushText, flushDigits]
  | text nonempty plain ends _ ih =>
      intro written
      rw [List.foldl_append, foldl_read_plain plain, List.nil_append, finish_text nonempty ends, ih,
        List.append_assoc]
      rfl
  | decimals nonempty digits ends _ ih =>
      intro written
      rw [List.foldl_append, foldl_read_decimals digits, List.nil_append,
        finish_decimals nonempty ends, ih, decimalRunValue_eq small, List.append_assoc]
      rfl
  | @digit char value rest segments other found _ ih =>
      intro written
      have step : tables.read ⟨written, [], []⟩ char = ⟨written ++ [.ofNat value], [], []⟩ := by
        simp [read, other, found, flushText, flushDigits, Part.ofNat]
      rw [List.foldl_cons, step, ih, List.append_assoc]
      rfl

-- Texts and numbers in turn

/-- Texts and numbers take turns; the flag tells whether a text is next. -/
inductive Alternates : Bool → List Part → Prop where
  | nil (next : Bool) : Alternates next []
  | text (content : String) {rest : List Part} (later : Alternates false rest)
      : Alternates true (.text content :: rest)
  | number (digits : String) {rest : List Part} (later : Alternates true rest)
      : Alternates false (.number digits :: rest)

theorem Alternates.same_kind {next : Bool} {first second : List Part}
    (one : Alternates next first) (two : Alternates next second) {index : ℕ} {part other : Part}
    (found : first[index]? = some part) (others : second[index]? = some other)
    : part.isText = other.isText := by
  induction one generalizing second index with
  | nil => cases found
  | text _ _ ih =>
      cases two with
      | nil => cases others
      | text _ later =>
          cases index with
          | zero => cases found; cases others; rfl
          | succ index => exact ih later found others
  | number _ _ ih =>
      cases two with
      | nil => cases others
      | number _ later =>
          cases index with
          | zero => cases found; cases others; rfl
          | succ index => exact ih later found others

theorem Alternates.sepInserter_number {rest : List Part}
    (later : Alternates true (sepInserter false true rest)) (value : ℕ)
    : (∀ first previousNumber, (first || previousNumber) = true →
        Alternates true (sepInserter first previousNumber (.ofNat value :: rest)))
      ∧ Alternates false (sepInserter false false (.ofNat value :: rest)) := by
  refine ⟨fun first previousNumber next => ?_, .number _ later⟩
  simp only [sepInserter, Part.ofNat, Part.isText, next, Bool.not_false, Bool.and_self, if_true]
  exact .text "" (.number _ later)

theorem alternates_of_reads {text : List Char} {segments : List Segment}
    (reads : tables.Reads text segments)
    : (∀ first previousNumber, (first || previousNumber) = true →
        Alternates true (sepInserter first previousNumber (segments.map tables.part)))
      ∧ ((∀ char ∈ text.head?, ¬ tables.Plain char) →
        Alternates false (sepInserter false false (segments.map tables.part))) := by
  induction reads with
  | nil => exact ⟨fun _ _ _ => .nil true, fun _ => .nil false⟩
  | @text content rest segments nonempty plain ends _ ih =>
      constructor
      · intro first previousNumber _
        exact .text _ (ih.2 ends)
      · intro other
        cases content with
        | nil => exact absurd rfl nonempty
        | cons char _ => exact absurd (plain char List.mem_cons_self) (other char rfl)
  | decimals _ _ _ _ ih =>
      have both := Alternates.sepInserter_number (ih.1 false true rfl)
      exact ⟨(both _).1, fun _ => (both _).2⟩
  | digit _ _ _ ih =>
      have both := Alternates.sepInserter_number (ih.1 false true rfl)
      exact ⟨(both _).1, fun _ => (both _).2⟩

-- Equal keys

theorem filter_sepInserter (first previousNumber : Bool) (parts : List Part)
    : (sepInserter first previousNumber parts).filter (· ≠ .text "")
      = parts.filter (· ≠ .text "") := by
  induction parts generalizing first previousNumber with
  | nil => rfl
  | cons part rest ih =>
      rw [sepInserter, List.filter_append, List.filter_cons, List.filter_cons, ih]
      have added : (if !part.isText && (first || previousNumber) then [Part.text ""] else []).filter
          (· ≠ .text "") = [] := by
        split <;> simp
      rw [added, List.nil_append]

theorem part_ne_empty {text : List Char} {segments : List Segment}
    (reads : tables.Reads text segments)
    : ∀ segment ∈ segments, tables.part segment ≠ .text "" := by
  induction reads with
  | nil => simp
  | @text content _ _ nonempty _ _ _ ih =>
      rw [List.forall_mem_cons]
      refine ⟨fun empty => nonempty ?_, ih⟩
      have same : String.ofList content = "" := Part.text.inj empty
      rw [← String.toList_inj, String.toList_ofList] at same
      exact same
  | decimals _ _ _ _ ih => simpa [part, value, Part.ofNat] using ih
  | digit _ _ _ ih => simpa [part, value, Part.ofNat] using ih

theorem natsortKey_filter
    (small : ∀ char value, tables.decimalValue char = some value → value < 10)
    {path : String} {segments : List Segment}
    (reads : tables.Reads (tables.nfd path).toList segments)
    : (tables.natsortKey path).filter (· ≠ .text "") = segments.map tables.part := by
  rw [natsortKey, components_eq small reads, filter_sepInserter, List.filter_eq_self]
  simpa using part_ne_empty reads

theorem part_eq_iff {first second : Segment}
    : tables.part first = tables.part second ↔ tables.Alike first second := by
  have ofNat_injective : Function.Injective Part.ofNat := by
    intro one two same
    have digits : toString one = toString two := Part.number.inj same
    rw [Nat.toString_eq_ofList_toDigits, Nat.toString_eq_ofList_toDigits, ← String.toList_inj,
      String.toList_ofList, String.toList_ofList] at digits
    exact Decimal.toDigits_injective digits
  constructor
  · intro same
    cases one : tables.value first with
    | some value =>
        cases two : tables.value second with
        | some other =>
            simp only [part, one, two] at same
            obtain rfl := ofNat_injective same
            exact .number one two
        | none =>
            cases second with
            | text => simp [part, one, two, Part.ofNat] at same
            | decimals => cases two
            | digit => cases two
    | none =>
        cases first with
        | decimals => cases one
        | digit => cases one
        | text content =>
            cases second with
            | decimals => simp [part, value, Part.ofNat] at same
            | digit => simp [part, value, Part.ofNat] at same
            | text other =>
                have own : String.ofList content = String.ofList other := Part.text.inj same
                rw [← String.toList_inj, String.toList_ofList, String.toList_ofList] at own
                obtain rfl := own
                exact .text content
  · intro alike
    cases alike with
    | text => rfl
    | number one two => simp only [part, one, two]

theorem map_part_iff {segments others : List Segment}
    : segments.map tables.part = others.map tables.part
      ↔ List.Forall₂ tables.Alike segments others := by
  rw [← List.forall₂_eq_eq_eq, List.forall₂_map_left_iff, List.forall₂_map_right_iff]
  simp only [part_eq_iff]

variable (tables)

/-- Keys are texts and numbers in turn, text first; numbers compare by value; keys compare in a
total preorder; and they are equal just for paths that differ in the writing of numbers only.
-/
theorem natsortKey_comparable
    (small : ∀ char value, tables.decimalValue char = some value → value < 10)
    : (∀ path, Alternates true (tables.natsortKey path))
      ∧ (∀ (first second : String) (index : ℕ) (part other : Part),
        (tables.natsortKey first)[index]? = some part →
        (tables.natsortKey second)[index]? = some other → part.isText = other.isText)
      ∧ (∀ path, ∃ segments, tables.Reads (tables.nfd path).toList segments
        ∧ (tables.natsortKey path).filter (· ≠ .text "") = segments.map tables.part)
      ∧ (∀ first second : ℕ,
        Part.cmp (.ofNat first) (.ofNat second) = compare first second)
      ∧ (∀ path, tables.natsortCmp path path = .eq)
      ∧ (∀ first second,
        tables.natsortCmp first second = (tables.natsortCmp second first).swap)
      ∧ (∀ first second third, tables.natsortCmp first second ≠ .gt →
        tables.natsortCmp second third ≠ .gt → tables.natsortCmp first third ≠ .gt)
      ∧ ∀ first second, tables.natsortCmp first second = .eq
        ↔ ∃ segments others, tables.Reads (tables.nfd first).toList segments
          ∧ tables.Reads (tables.nfd second).toList others
          ∧ List.Forall₂ tables.Alike segments others := by
  have alternates (path : String) : Alternates true (tables.natsortKey path) := by
    obtain ⟨segments, reads⟩ := reads_exists tables (tables.nfd path).toList
    rw [natsortKey, components_eq small reads]
    exact (alternates_of_reads reads).1 true false rfl
  refine ⟨alternates, ?_, ?_, Part.cmp_ofNat, ?_, ?_, ?_, ?_⟩
  · intro first second index part other found others
    exact (alternates first).same_kind (alternates second) found others
  · intro path
    obtain ⟨segments, reads⟩ := reads_exists tables (tables.nfd path).toList
    exact ⟨segments, reads, natsortKey_filter small reads⟩
  · intro path
    exact (Std.ReflCmp.compare_self : List.compareLex Part.cmp _ _ = .eq)
  · intro first second
    exact (Std.OrientedCmp.eq_swap : List.compareLex Part.cmp _ _ = _)
  · intro first second third under above
    rw [natsortCmp, ne_eq, ← Ordering.isLE_iff_ne_gt] at *
    exact Std.TransCmp.isLE_trans under above
  · intro first second
    rw [natsortCmp, Std.LawfulEqCmp.compare_eq_iff_eq]
    constructor
    · intro same
      obtain ⟨segments, reads⟩ := reads_exists tables (tables.nfd first).toList
      obtain ⟨others, otherReads⟩ := reads_exists tables (tables.nfd second).toList
      refine ⟨segments, others, reads, otherReads, map_part_iff.mp ?_⟩
      rw [← natsortKey_filter small reads, same, natsortKey_filter small otherReads]
    · rintro ⟨segments, others, reads, otherReads, alike⟩
      rw [natsortKey, natsortKey, components_eq small reads, components_eq small otherReads,
        map_part_iff.mpr alike]

/-- With the ASCII digits and one other digit. -/
theorem natsortKey_comparable_ascii
    : (⟨id, fun char => if char.isDigit then some (char.toNat - 48) else none,
        fun char => if char = '²' then some 2 else none⟩ : DigitTables).natsortCmp "p02" "p²"
      = .eq := by
  let ascii : DigitTables := ⟨id,
    fun char => if char.isDigit then some (char.toNat - 48) else none,
    fun char => if char = '²' then some 2 else none⟩
  have small : ∀ char value, ascii.decimalValue char = some value → value < 10 := by
    intro char value found
    simp only [ascii, Option.ite_none_right_eq_some, Option.some.injEq] at found
    have last := (Char.isDigit_iff_toNat.mp found.1).2
    have nine : '9'.toNat = 57 := rfl
    omega
  have letter : ∀ char ∈ ['p'], ascii.Plain char := by simp [Plain, ascii]
  have page {rest : List Char} {segments : List Segment} (ends : ∀ char ∈ rest.head?,
      ¬ ascii.Plain char) (reads : ascii.Reads rest segments)
      : ascii.Reads (['p'] ++ rest) (.text ['p'] :: segments) :=
    .text (by simp) letter ends reads
  have one : ascii.Reads (['0', '2'] ++ []) [.decimals ['0', '2']] :=
    .decimals (by simp) (by simp [ascii]) (by simp) .nil
  have other : ascii.Reads ['²'] [.digit '²' 2] :=
    .digit (by simp [ascii]) (by simp [ascii]) .nil
  have value : ascii.value (.decimals ['0', '2']) = some 2 := by decide
  have otherValue : ascii.value (.digit '²' 2) = some 2 := rfl
  refine ((natsortKey_comparable ascii small).2.2.2.2.2.2.2 "p02" "p²").mpr
    ⟨_, _, ?_, ?_, .cons (.text ['p']) (.cons (.number value otherValue) .nil)⟩
  · have reads := page (by simp [Plain, ascii]) one
    simpa [ascii] using reads
  · have reads := page (by simp [Plain, ascii]) other
    simpa [ascii] using reads

end DigitTables

end MokuroBunko.Library
