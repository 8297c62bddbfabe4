import MokuroBunko.Config.Generations
import Mathlib.Order.Interval.Set.Basic

/-! The `Range` header (`conditional.rs`): which of its ranges are read, and the one stretch of
the file that is served for all of them.
-/

namespace MokuroBunko.Dav

open MokuroBunko.Lib MokuroBunko.Data MokuroBunko.Config

-- Reading the header

/-- What to send of a file: `Partial` is an inclusive range of bytes. -/
inductive RangeOutcome where
  | full
  | part (start finish : ℕ)
deriving DecidableEq

/-- The refusal of a header without a satisfiable range. -/
structure RangeRefusal where
  status : ℕ := 416
  message : String := "No valid ranges present"
  context : String
deriving DecidableEq

/-- One turn of the loop of `parse_range`: the range an item adds. -/
def rangeOf (size : ℕ) (item : String) : Option (ℕ × ℕ) :=
  match Text.splitOnce (Text.trim item) '-' with
  | none => none
  | some (before, after) =>
      let first := Text.trim before
      let last := Text.trim after
      if first = "" then
        match parseUnsigned (2 ^ 64) last.toList with
        | none => none
        | some length =>
            if length = 0 ∨ size = 0 then none else some (size - length, size - 1)
      else
        match parseUnsigned (2 ^ 64) first.toList with
        | none => none
        | some start =>
            if size ≤ start then none
            else if last = "" then some (start, size - 1)
            else
              match parseUnsigned (2 ^ 64) last.toList with
              | none => none
              | some finish =>
                  if start ≤ finish then some (start, min finish (size - 1)) else none

/-- `parse_range`: the one range that spans all the ranges asked for. -/
def parseRange (value : String) (size : ℕ) : Except RangeRefusal RangeOutcome :=
  match Text.splitOnce value '=' with
  | none => .ok .full
  | some (unit, specs) =>
      if Text.asciiLower (Text.trim unit) ≠ "bytes" then .ok .full
      else
        let ranges := (Text.segments ',' specs).filterMap (rangeOf size)
        if ranges = [] then .error { context := "bytes */" ++ toString size }
        else
          .ok (.part ((ranges.map Prod.fst).min?.getD 0) ((ranges.map Prod.snd).max?.getD 0))

/-- Where a `get` starts to read and how much it sends. -/
def served (outcome : RangeOutcome) (size : ℕ) : ℕ × ℕ :=
  match outcome with
  | .full => (0, size)
  | .part start finish => (start, finish - start + 1)

-- What an item asks for

/-- An item of the header. -/
inductive RangeSpec where
  /-- From a position on, up to a last one if there is one. -/
  | int (first : ℕ) (last : Option ℕ)
  /-- So many bytes from the end. -/
  | suffix (length : ℕ)

/-- The positions of a file that the item asks for: none makes it not satisfiable. -/
def RangeSpec.selects (spec : RangeSpec) (size : ℕ) : Set ℕ :=
  match spec with
  | .int first last => {place | first ≤ place ∧ place < size ∧ ∀ limit ∈ last, place ≤ limit}
  | .suffix length => {place | size - length ≤ place ∧ place < size}

/-- Digits and their value. -/
def Digits (text : String) (value : ℕ) : Prop :=
  areDigits text.toList = true ∧ digitsValue text.toList = value

/-- The grammar of an item, with digits of any length. -/
inductive Rfc (item : String) : RangeSpec → Prop
  | bounded {before after : String} {first last : ℕ}
    (parts : item.toList = before.toList ++ '-' :: after.toList) (start : Digits before first)
    (finish : Digits after last)
    : Rfc item (.int first (some last))
  | opened {before : String} {first : ℕ} (parts : item.toList = before.toList ++ ['-'])
    (start : Digits before first)
    : Rfc item (.int first none)
  | suffix {after : String} {length : ℕ} (parts : item.toList = '-' :: after.toList)
    (count : Digits after length)
    : Rfc item (.suffix length)

/-- The numbers of the item fit in 64 bits. -/
def RangeSpec.Fits : RangeSpec → Prop
  | .int first last => first < 2 ^ 64 ∧ ∀ limit ∈ last, limit < 2 ^ 64
  | .suffix length => length < 2 ^ 64

/-- A number as `parse` reads it: a plus sign may stand before it, and it fits in 64 bits. -/
def Number (text : String) (value : ℕ) : Prop :=
  areDigits (withoutPlus text.toList) = true ∧ digitsValue (withoutPlus text.toList) = value
    ∧ value < 2 ^ 64

/-- What `parse_range` reads an item as: blanks may stand around its numbers. -/
inductive Reads (item : String) : RangeSpec → Prop
  | bounded {before after : String} {first last : ℕ}
    (parts : Text.splitOnce (Text.trim item) '-' = some (before, after))
    (start : Number (Text.trim before) first) (finish : Number (Text.trim after) last)
    : Reads item (.int first (some last))
  | opened {before after : String} {first : ℕ}
    (parts : Text.splitOnce (Text.trim item) '-' = some (before, after))
    (start : Number (Text.trim before) first) (finish : Text.trim after = "")
    : Reads item (.int first none)
  | suffix {before after : String} {length : ℕ}
    (parts : Text.splitOnce (Text.trim item) '-' = some (before, after))
    (start : Text.trim before = "") (count : Number (Text.trim after) length)
    : Reads item (.suffix length)

theorem parseUnsigned_eq_some_iff {text : String} {value : ℕ}
    : parseUnsigned (2 ^ 64) text.toList = some value ↔ Number text value := by
  unfold parseUnsigned Number
  dsimp only
  constructor
  · intro read
    split at read
    case isTrue small =>
      obtain rfl := Option.some.inj read
      exact ⟨small.1, rfl, small.2⟩
    case isFalse => cases read
  · rintro ⟨digits, rfl, small⟩
    rw [if_pos ⟨digits, small⟩]

theorem not_number_empty {value : ℕ} : ¬ Number "" value := by
  rintro ⟨digits, _⟩
  simp [withoutPlus, areDigits] at digits

/-- The range that an item adds, by what it asks for. -/
def RangeSpec.range? (spec : RangeSpec) (size : ℕ) : Option (ℕ × ℕ) :=
  match spec with
  | .int first none => if size ≤ first then none else some (first, size - 1)
  | .int first (some last) =>
      if size ≤ first then none
      else if first ≤ last then some (first, min last (size - 1))
      else none
  | .suffix length => if length = 0 ∨ size = 0 then none else some (size - length, size - 1)

theorem rangeOf_of_reads {size : ℕ} {item : String} {spec : RangeSpec} (reads : Reads item spec)
    : rangeOf size item = spec.range? size := by
  have filled : ∀ {text : String} {value : ℕ}, Number text value → text ≠ "" := by
    rintro text value number rfl
    exact not_number_empty number
  unfold rangeOf
  cases reads with
  | bounded parts start finish =>
      rw [parts]
      dsimp only
      rw [if_neg (filled start), parseUnsigned_eq_some_iff.mpr start]
      dsimp only
      rw [if_neg (filled finish), parseUnsigned_eq_some_iff.mpr finish]
      rfl
  | opened parts start finish =>
      rw [parts]
      dsimp only
      rw [if_neg (filled start), parseUnsigned_eq_some_iff.mpr start]
      dsimp only
      rw [if_pos finish]
      rfl
  | suffix parts start count =>
      rw [parts]
      dsimp only
      rw [if_pos start, parseUnsigned_eq_some_iff.mpr count]
      rfl

theorem RangeSpec.selects_eq (spec : RangeSpec) (size : ℕ)
    : (∀ range, spec.range? size = some range
        → range.1 ≤ range.2 ∧ range.2 < size ∧ spec.selects size = Set.Icc range.1 range.2)
      ∧ (spec.range? size = none → spec.selects size = ∅) := by
  unfold RangeSpec.range? RangeSpec.selects
  constructor
  · intro range adds
    split at adds
    case h_1 first =>
      split at adds
      · cases adds
      · obtain rfl := Option.some.inj adds
        refine ⟨by dsimp only; omega, by dsimp only; omega, ?_⟩
        ext place
        simp only [Set.mem_ofPred_eq, Set.mem_Icc, Option.mem_def, reduceCtorEq, false_implies,
          implies_true, and_true]
        omega
    case h_2 first last =>
      split at adds
      · cases adds
      · split at adds
        · obtain rfl := Option.some.inj adds
          refine ⟨by dsimp only; omega, by dsimp only; omega, ?_⟩
          ext place
          simp only [Set.mem_ofPred_eq, Set.mem_Icc, Option.mem_def, Option.some.injEq,
            forall_eq']
          omega
        · cases adds
    case h_3 length =>
      split at adds
      · cases adds
      · obtain rfl := Option.some.inj adds
        refine ⟨by dsimp only; omega, by dsimp only; omega, ?_⟩
        ext place
        simp only [Set.mem_ofPred_eq, Set.mem_Icc]
        omega
  · intro adds
    rw [Set.eq_empty_iff_forall_notMem]
    intro place
    split at adds
    case h_1 first =>
      split at adds
      · rintro ⟨after, within, _⟩
        omega
      · cases adds
    case h_2 first last =>
      rintro ⟨after, within, before⟩
      have limit := before last rfl
      split at adds
      · omega
      · split at adds
        · cases adds
        · omega
    case h_3 length =>
      split at adds
      · rintro ⟨after, within⟩
        omega
      · cases adds

theorem Digits.number {text : String} {value : ℕ} (digits : Digits text value)
    (small : value < 2 ^ 64)
    : Number (Text.trim text) value ∧ '-' ∉ text.toList := by
  obtain ⟨areDigits, rfl⟩ := digits
  have each : ∀ char ∈ text.toList, Text.isDigit char = true := by
    simp only [Data.areDigits, Bool.and_eq_true, List.all_eq_true] at areDigits
    exact areDigits.2
  have plain : Text.trim text = text :=
    Text.trim_eq_self (fun char member => Text.isWhitespace_of_isDigit (each char member))
  have unsigned : withoutPlus text.toList = text.toList := by
    unfold withoutPlus
    split
    case h_1 rest isPlus =>
      have digit := each '+' (by rw [isPlus]; exact List.mem_cons_self)
      exact absurd digit (by decide)
    case h_2 => rfl
  rw [plain]
  refine ⟨⟨by rw [unsigned]; exact areDigits, by rw [unsigned], small⟩, ?_⟩
  intro dash
  exact absurd (each '-' dash) (by decide)

theorem reads_of_rfc {item : String} {spec : RangeSpec} (rfc : Rfc (Text.trim item) spec)
    (fits : spec.Fits)
    : Reads item spec := by
  have split : ∀ before after : List Char,
      (Text.trim item).toList = before ++ '-' :: after → '-' ∉ before
      → Text.splitOnce (Text.trim item) '-' = some (String.ofList before, String.ofList after) := by
    intro before after parts apart
    rw [Text.splitOnce, Text.splitFirst_eq_some_iff.mpr ⟨parts, apart⟩]
    rfl
  cases rfc with
  | @bounded before after first last parts start finish =>
      obtain ⟨start, apart⟩ := start.number fits.1
      have parts := split _ _ parts apart
      rw [String.ofList_toList, String.ofList_toList] at parts
      exact .bounded parts start (finish.number (fits.2 last rfl)).1
  | @opened before first parts start =>
      obtain ⟨start, apart⟩ := start.number fits.1
      have parts := split _ _ parts apart
      rw [String.ofList_toList] at parts
      exact .opened parts start (by decide)
  | @suffix after length parts count =>
      have parts := split [] _ parts List.not_mem_nil
      rw [String.ofList_toList] at parts
      exact .suffix parts (by decide) (count.number fits).1

theorem reads_of_rangeOf {size : ℕ} {item : String} {range : ℕ × ℕ}
    (adds : rangeOf size item = some range)
    : ∃ spec, Reads item spec := by
  unfold rangeOf at adds
  split at adds
  case h_1 => cases adds
  case h_2 before after parts =>
    dsimp only at adds
    split at adds
    case isTrue empty =>
      split at adds
      case h_1 => cases adds
      case h_2 length read =>
        exact ⟨_, .suffix parts empty (parseUnsigned_eq_some_iff.mp read)⟩
    case isFalse =>
      split at adds
      case h_1 => cases adds
      case h_2 start read =>
        split at adds
        · cases adds
        · split at adds
          case isTrue empty =>
            exact ⟨_, .opened parts (parseUnsigned_eq_some_iff.mp read) empty⟩
          case isFalse =>
            split at adds
            case h_1 => cases adds
            case h_2 finish read' =>
              exact ⟨_, .bounded parts (parseUnsigned_eq_some_iff.mp read)
                (parseUnsigned_eq_some_iff.mp read')⟩

-- The range served

theorem span_spec {ranges : List (ℕ × ℕ)} (filled : ranges ≠ [])
    : (∃ range ∈ ranges, range.1 = (ranges.map Prod.fst).min?.getD 0)
      ∧ (∃ range ∈ ranges, range.2 = (ranges.map Prod.snd).max?.getD 0)
      ∧ ∀ range ∈ ranges, (ranges.map Prod.fst).min?.getD 0 ≤ range.1
          ∧ range.2 ≤ (ranges.map Prod.snd).max?.getD 0 := by
  obtain ⟨least, isLeast⟩ : ∃ least, (ranges.map Prod.fst).min? = some least :=
    Option.isSome_iff_exists.mp (by simpa using filled)
  obtain ⟨greatest, isGreatest⟩ : ∃ greatest, (ranges.map Prod.snd).max? = some greatest :=
    Option.isSome_iff_exists.mp (by simpa using filled)
  rw [isLeast, isGreatest, Option.getD_some, Option.getD_some]
  obtain ⟨found, below⟩ := List.min?_eq_some_iff.mp isLeast
  obtain ⟨found', above⟩ := List.max?_eq_some_iff.mp isGreatest
  refine ⟨?_, ?_, ?_⟩
  · simpa using found
  · simpa using found'
  · intro range member
    exact ⟨below _ (List.mem_map_of_mem member), above _ (List.mem_map_of_mem member)⟩

/-- The items of a header's list that are read. -/
def asked (specs : String) : Set RangeSpec :=
  {spec | ∃ item ∈ Text.segments ',' specs, Reads item spec}

/-- The header is of the unit `bytes`. -/
def OfBytes (value specs : String) : Prop :=
  ∃ unit, Text.splitOnce value '=' = some (unit, specs)
    ∧ Text.asciiLower (Text.trim unit) = "bytes"

/-- The outcome is the smallest interval around all that the items select. -/
def Spans (specs : String) (size start finish : ℕ) : Prop :=
  (∃ spec ∈ asked specs, start ∈ spec.selects size)
    ∧ (∃ spec ∈ asked specs, finish ∈ spec.selects size)
    ∧ ∀ spec ∈ asked specs, spec.selects size ⊆ Set.Icc start finish

theorem parseRange_ofBytes {value specs : String} (ofBytes : OfBytes value specs) (size : ℕ)
    : ((∃ spec ∈ asked specs, (spec.selects size).Nonempty)
        → ∃ start finish, parseRange value size = .ok (.part start finish)
          ∧ start ≤ finish ∧ finish < size ∧ Spans specs size start finish)
      ∧ ((∀ spec ∈ asked specs, spec.selects size = ∅)
        → ∃ refusal, parseRange value size = .error refusal ∧ refusal.status = 416) := by
  obtain ⟨unit, parts, isBytes⟩ := ofBytes
  have adds : ∀ range, range ∈ (Text.segments ',' specs).filterMap (rangeOf size)
      ↔ ∃ spec ∈ asked specs, spec.range? size = some range := by
    intro range
    rw [List.mem_filterMap]
    constructor
    · rintro ⟨item, listed, isRange⟩
      obtain ⟨spec, reads⟩ := reads_of_rangeOf isRange
      exact ⟨spec, ⟨item, listed, reads⟩, (rangeOf_of_reads reads).symm.trans isRange⟩
    · rintro ⟨spec, ⟨item, listed, reads⟩, isRange⟩
      exact ⟨item, listed, (rangeOf_of_reads reads).trans isRange⟩
  unfold parseRange
  rw [parts]
  dsimp only
  rw [if_neg (not_not.mpr isBytes)]
  generalize (Text.segments ',' specs).filterMap (rangeOf size) = ranges at *
  constructor
  · rintro ⟨spec, listed, place, selected⟩
    have filled : ranges ≠ [] := by
      rintro rfl
      cases isRange : spec.range? size with
      | none =>
          rw [(spec.selects_eq size).2 isRange] at selected
          exact selected
      | some range => exact absurd ((adds range).mpr ⟨spec, listed, isRange⟩) List.not_mem_nil
    obtain ⟨⟨first, member, least⟩, ⟨last, member', greatest⟩, between⟩ := span_spec filled
    rw [if_neg filled]
    obtain ⟨opening, listed', isFirst⟩ := (adds first).mp member
    obtain ⟨closing, listed'', isLast⟩ := (adds last).mp member'
    obtain ⟨ordered, _, selects⟩ := (opening.selects_eq size).1 first isFirst
    obtain ⟨ordered', within, selects'⟩ := (closing.selects_eq size).1 last isLast
    refine ⟨_, _, rfl, ?_, ?_, ⟨opening, listed', ?_⟩, ⟨closing, listed'', ?_⟩, ?_⟩
    · exact (between first member).1.trans (ordered.trans (between first member).2)
    · rw [← greatest]
      exact within
    · rw [← least, selects]
      exact ⟨le_rfl, ordered⟩
    · rw [← greatest, selects']
      exact ⟨ordered', le_rfl⟩
    · intro other isAsked
      cases isRange : other.range? size with
      | none =>
          rw [(other.selects_eq size).2 isRange]
          exact Set.empty_subset _
      | some range =>
          obtain ⟨_, _, selected'⟩ := (other.selects_eq size).1 range isRange
          have inside := between range ((adds range).mpr ⟨other, isAsked, isRange⟩)
          rw [selected']
          exact Set.Icc_subset_Icc inside.1 inside.2
  · intro none
    have empty : ranges = [] := by
      rw [List.eq_nil_iff_forall_not_mem]
      intro range member
      obtain ⟨spec, listed, isRange⟩ := (adds range).mp member
      obtain ⟨ordered, _, selects⟩ := (spec.selects_eq size).1 range isRange
      have inside : range.1 ∈ spec.selects size := by
        rw [selects]
        exact ⟨le_rfl, ordered⟩
      rw [none spec listed] at inside
      exact inside
    rw [if_pos empty]
    exact ⟨_, rfl, rfl⟩

theorem parseRange_whole {value : String} (other : ¬ ∃ specs, OfBytes value specs) (size : ℕ)
    : parseRange value size = .ok .full := by
  unfold parseRange
  split
  case h_1 => rfl
  case h_2 unit specs parts =>
    rw [if_pos]
    intro isBytes
    exact other ⟨specs, unit, parts, isBytes⟩

theorem served_within {value : String} {size : ℕ} {outcome : RangeOutcome}
    (parsed : parseRange value size = .ok outcome)
    : (served outcome size).1 + (served outcome size).2 ≤ size := by
  cases outcome with
  | full => exact (Nat.zero_add size).le
  | part start finish =>
      have specs : ∃ specs, OfBytes value specs := by
        by_contra other
        rw [parseRange_whole other] at parsed
        cases parsed
      obtain ⟨specs, ofBytes⟩ := specs
      obtain ⟨some, none⟩ := parseRange_ofBytes ofBytes size
      by_cases satisfiable : ∃ spec ∈ asked specs, (spec.selects size).Nonempty
      · obtain ⟨first, last, same, ordered, within, _⟩ := some satisfiable
        rw [same] at parsed
        cases parsed
        unfold served
        dsimp only
        omega
      · push Not at satisfiable
        obtain ⟨refusal, refused, _⟩ := none satisfiable
        rw [refused] at parsed
        cases parsed

/-- Of the unit `bytes`, the smallest interval around all that the items read can select is
served, or 416 answered when they select nothing; any other header is ignored. The items of
the grammar whose numbers fit are read, and nothing is served past the end. -/
theorem parseRange_serves (value : String) (size : ℕ)
    : (∀ specs, OfBytes value specs →
        ((∃ spec ∈ asked specs, (spec.selects size).Nonempty)
            → ∃ start finish, parseRange value size = .ok (.part start finish)
              ∧ start ≤ finish ∧ finish < size ∧ Spans specs size start finish)
          ∧ ((∀ spec ∈ asked specs, spec.selects size = ∅)
            → ∃ refusal, parseRange value size = .error refusal ∧ refusal.status = 416))
      ∧ ((¬ ∃ specs, OfBytes value specs) → parseRange value size = .ok .full)
      ∧ (∀ item spec, Rfc (Text.trim item) spec → spec.Fits → Reads item spec)
      ∧ ∀ outcome, parseRange value size = .ok outcome
        → (served outcome size).1 + (served outcome size).2 ≤ size := by
  refine ⟨?_, ?_, ?_, ?_⟩
  · exact fun specs ofBytes => parseRange_ofBytes ofBytes size
  · exact fun other => parseRange_whole other size
  · exact fun item spec => reads_of_rfc
  · exact fun outcome => served_within

/-- A range of the grammar that asks for the whole file is ignored, for its last position does
not fit in 64 bits; and a range with plus signs, which the grammar does not have, is served. -/
theorem parseRange_beyond_u64
    : Rfc "0-18446744073709551616" (.int 0 (some 18446744073709551616))
      ∧ ((RangeSpec.int 0 (some 18446744073709551616)).selects 10).Nonempty
      ∧ parseRange "bytes=0-18446744073709551616" 10 = .error { context := "bytes */10" }
      ∧ parseRange "bytes=+0-+3" 10 = .ok (.part 0 3) := by
  refine ⟨?_, ⟨0, le_rfl, by decide, ?_⟩, by decide +kernel, by decide +kernel⟩
  · exact @Rfc.bounded "0-18446744073709551616" "0" "18446744073709551616" _ _ (by decide)
      ⟨by decide, by decide⟩ ⟨by decide, by decide +kernel⟩
  · intro limit isLimit
    obtain rfl := Option.mem_some_iff.mp isLimit
    exact Nat.zero_le _

end MokuroBunko.Dav
