import MokuroBunko.Lib.Decimal
import MokuroBunko.Sched.NaturalKey

/-! `natural_cmp` orders names, and the numbers in them by their values: runs of decimal digits of
any length, and the two ways to write a number in Kanji.
-/

namespace MokuroBunko.Sched

open MokuroBunko.Lib

-- Numbers

namespace BigNum

theorem fromDigits_eq {values : List ℕ} (small : ∀ value ∈ values, value < 10)
    : fromDigits (values.map digitChar) = ofNat (Decimal.positional values) := by
  have text : fromDigits (values.map digitChar) = ⟨String.ofList
      (Decimal.stripped (values.map fun value => Char.ofNat (48 + value)))⟩ := rfl
  rw [text, Decimal.stripped_map small, ofNat, Nat.toString_eq_ofList_toDigits]

theorem sortKey_ofNat_lt_iff {first second : ℕ}
    : (ofNat first).sortKey < (ofNat second).sortKey ↔ first < second := by
  rw [← Decimal.toDigits_lt_iff, sortKey, sortKey, Prod.Lex.toLex_lt_toLex, ofNat, ofNat,
    Nat.toString_eq_ofList_toDigits, Nat.toString_eq_ofList_toDigits, String.lt_iff,
    String.length_ofList, String.length_ofList, String.toList_ofList, String.toList_ofList]

end BigNum

theorem Token.number_lt {first second : ℕ} (less : first < second) (fraction other : String)
    : Token.number (.ofNat first) fraction < .number (.ofNat second) other := by
  change Token.sortKey _ < Token.sortKey _
  rw [Token.sortKey, Token.sortKey, Prod.Lex.toLex_lt_toLex, Prod.Lex.toLex_lt_toLex]
  exact .inr ⟨rfl, .inl (BigNum.sortKey_ofNat_lt_iff.mpr less)⟩

-- Kanji numerals

/-- A run built from units below a limit, each below the one before it and with at most one digit
of its own, and the number it denotes.
-/
inductive UnitRun : ℕ → List Char → ℕ → Prop where
  | nil {limit : ℕ} : UnitRun limit [] 0
  | digit {limit digit : ℕ} {char : Char} (isDigit : kanjiDigit char = some digit)
      (nonzero : digit ≠ 0)
      : UnitRun limit [char] digit
  | unit {limit unit number : ℕ} {char : Char} {rest : List Char}
      (isUnit : kanjiUnit char = some unit) (less : unit < limit)
      (below : UnitRun unit rest number)
      : UnitRun limit (char :: rest) (unit + number)
  | times {limit digit unit number : ℕ} {char other : Char} {rest : List Char}
      (isDigit : kanjiDigit char = some digit) (nonzero : digit ≠ 0)
      (isUnit : kanjiUnit other = some unit) (less : unit < limit)
      (below : UnitRun unit rest number)
      : UnitRun limit (char :: other :: rest) (digit * unit + number)

/-- The run denotes the number: by its digits in their order, or else by units. -/
def Denotes (run : List Char) (number : ℕ) : Prop :=
  if run.all (fun char => (kanjiDigit char).isSome) then
    number = Decimal.positional (run.filterMap kanjiDigit)
  else UnitRun 10000 run number

theorem kanjiDigit_lt {char : Char} {digit : ℕ} (found : kanjiDigit char = some digit)
    : digit < 10 := by
  unfold kanjiDigit at found
  split at found
  case isFalse => cases found
  case isTrue known =>
    obtain rfl := Option.some.inj found
    exact List.idxOf_lt_length_of_mem known

theorem kanjiDigit_zero_iff {char : Char} {digit : ℕ} (found : kanjiDigit char = some digit)
    : char = '〇' ↔ digit = 0 := by
  unfold kanjiDigit at found
  split at found
  case isFalse => cases found
  case isTrue known =>
    obtain rfl := Option.some.inj found
    constructor
    · rintro rfl
      rfl
    · intro first
      have place := List.getElem_idxOf (List.idxOf_lt_length_of_mem known)
      simp only [first] at place
      exact place.symm

theorem kanjiDigit_of_unit {char : Char} {unit : ℕ} (isUnit : kanjiUnit char = some unit)
    : kanjiDigit char = none := by
  unfold kanjiUnit at isUnit
  split at isUnit <;> first | rfl | cases isUnit

/-- What is read after a digit: nothing more, or the unit that the digit belongs to. -/
def AfterDigit (limit digit : ℕ) (run : List Char) (number : ℕ) : Prop :=
  run = [] ∧ number = digit
    ∨ ∃ char rest unit below, run = char :: rest ∧ kanjiUnit char = some unit ∧ unit < limit
      ∧ UnitRun unit rest below ∧ number = digit * unit + below

theorem unitRun_cons_digit {limit digit number : ℕ} {char : Char} {rest : List Char}
    (isDigit : kanjiDigit char = some digit)
    : UnitRun limit (char :: rest) number ↔ digit ≠ 0 ∧ AfterDigit limit digit rest number := by
  have notUnit {unit : ℕ} (isUnit : kanjiUnit char = some unit) : False := by
    rw [kanjiDigit_of_unit isUnit] at isDigit
    cases isDigit
  constructor
  · intro denoted
    cases denoted with
    | digit found nonzero =>
        obtain rfl := Option.some.inj (isDigit.symm.trans found)
        exact ⟨nonzero, .inl ⟨rfl, rfl⟩⟩
    | unit isUnit => exact (notUnit isUnit).elim
    | times found nonzero isUnit less below =>
        obtain rfl := Option.some.inj (isDigit.symm.trans found)
        exact ⟨nonzero, .inr ⟨_, _, _, _, rfl, isUnit, less, below, rfl⟩⟩
  · rintro ⟨nonzero, ⟨rfl, rfl⟩ | ⟨other, more, unit, below, rfl, isUnit, less, denoted, rfl⟩⟩
    · exact .digit isDigit nonzero
    · exact .times isDigit nonzero isUnit less denoted

theorem unitRun_cons_unit {limit unit number : ℕ} {char : Char} {rest : List Char}
    (isUnit : kanjiUnit char = some unit)
    : UnitRun limit (char :: rest) number
      ↔ unit < limit ∧ ∃ below, UnitRun unit rest below ∧ number = unit + below := by
  have notDigit {digit : ℕ} (isDigit : kanjiDigit char = some digit) : False := by
    rw [kanjiDigit_of_unit isUnit] at isDigit
    cases isDigit
  constructor
  · intro denoted
    cases denoted with
    | digit found => exact (notDigit found).elim
    | unit found less below =>
        obtain rfl := Option.some.inj (isUnit.symm.trans found)
        exact ⟨less, _, below, rfl⟩
    | times found => exact (notDigit found).elim
  · rintro ⟨less, below, denoted, rfl⟩
    exact .unit isUnit less denoted

theorem not_unitRun_cons {limit number : ℕ} {char : Char} {rest : List Char}
    (notDigit : kanjiDigit char = none) (notUnit : kanjiUnit char = none)
    : ¬ UnitRun limit (char :: rest) number := by
  intro denoted
  cases denoted with
  | digit found => rw [notDigit] at found; cases found
  | unit found => rw [notUnit] at found; cases found
  | times found => rw [notDigit] at found; cases found

/-- The loop of `kanji_value`, before a digit and after one. Induction on the run. -/
theorem kanjiUnits_spec (run : List Char) (total limit result : ℕ)
    : (kanjiUnits run total none limit = some result
        ↔ ∃ number, UnitRun limit run number ∧ result = total + number)
      ∧ ∀ digit, kanjiUnits run total (some digit) limit = some result
        ↔ ∃ number, AfterDigit limit digit run number ∧ result = total + number := by
  induction run generalizing total limit with
  | nil =>
      constructor
      · simp only [kanjiUnits, Option.getD_none, Nat.add_zero, Option.some.injEq]
        constructor
        · rintro rfl
          exact ⟨0, .nil, rfl⟩
        · rintro ⟨number, denoted, rfl⟩
          cases denoted
          rfl
      · intro digit
        simp [kanjiUnits, AfterDigit, eq_comm]
  | cons char rest ih =>
      cases isDigit : kanjiDigit char with
      | some value =>
          constructor
          · simp only [kanjiUnits, isDigit, Option.isSome_none, Bool.false_or, decide_eq_true_eq,
              kanjiDigit_zero_iff isDigit, unitRun_cons_digit isDigit]
            split
            case isTrue zero => simp [zero]
            case isFalse nonzero => simp [nonzero, (ih total limit).2]
          · intro digit
            have stuck : ¬ ∃ number, AfterDigit limit digit (char :: rest) number
                ∧ result = total + number := by
              rintro ⟨number, ⟨none, _⟩ | ⟨_, _, _, _, same, isUnit, _⟩, _⟩
              · cases none
              · cases same
                rw [kanjiDigit_of_unit isUnit] at isDigit
                cases isDigit
            simp [kanjiUnits, isDigit, stuck]
      | none =>
          cases isUnit : kanjiUnit char with
          | none =>
              constructor
              · simp [kanjiUnits, isDigit, isUnit, not_unitRun_cons isDigit isUnit]
              · intro digit
                have stuck : ¬ ∃ number, AfterDigit limit digit (char :: rest) number
                    ∧ result = total + number := by
                  rintro ⟨number, ⟨none, _⟩ | ⟨_, _, _, _, same, found, _⟩, _⟩
                  · cases none
                  · cases same
                    rw [isUnit] at found
                    cases found
                simp [kanjiUnits, isDigit, isUnit, stuck]
          | some unit =>
              constructor
              · simp only [kanjiUnits, isDigit, isUnit, Option.bind_eq_bind, Option.bind_some,
                  unitRun_cons_unit isUnit, Option.getD_none, Nat.one_mul]
                split
                case isTrue above => simp [Nat.not_lt.mpr above]
                case isFalse under =>
                  rw [(ih _ _).1]
                  constructor
                  · rintro ⟨below, denoted, rfl⟩
                    exact ⟨_, ⟨Nat.lt_of_not_le under, below, denoted, rfl⟩, Nat.add_assoc ..⟩
                  · rintro ⟨_, ⟨_, below, denoted, rfl⟩, rfl⟩
                    exact ⟨below, denoted, (Nat.add_assoc ..).symm⟩
              · intro digit
                simp only [kanjiUnits, isDigit, isUnit, Option.bind_eq_bind, Option.bind_some,
                  Option.getD_some]
                split
                case isTrue above =>
                  have stuck : ¬ ∃ number, AfterDigit limit digit (char :: rest) number
                      ∧ result = total + number := by
                    rintro ⟨number, ⟨none, _⟩ | ⟨_, _, _, _, same, found, less, _⟩, _⟩
                    · cases none
                    · cases same
                      obtain rfl := Option.some.inj (isUnit.symm.trans found)
                      omega
                  simp [stuck]
                case isFalse under =>
                  rw [(ih _ _).1]
                  constructor
                  · rintro ⟨below, denoted, rfl⟩
                    exact ⟨_, .inr ⟨char, rest, unit, below, rfl, isUnit, Nat.lt_of_not_le under,
                      denoted, rfl⟩, Nat.add_assoc ..⟩
                  · rintro ⟨_, ⟨none, _⟩ | ⟨_, _, _, below, same, found, _, denoted, rfl⟩, rfl⟩
                    · cases none
                    · cases same
                      obtain rfl := Option.some.inj (isUnit.symm.trans found)
                      exact ⟨below, denoted, (Nat.add_assoc ..).symm⟩

theorem kanjiValue_iff (run : List Char) (number : BigNum)
    : kanjiValue run = some number ↔ ∃ value, Denotes run value ∧ number = .ofNat value := by
  unfold kanjiValue Denotes
  split
  case isTrue digits =>
    have small : ∀ value ∈ run.filterMap kanjiDigit, value < 10 := by
      intro value isIn
      obtain ⟨char, _, found⟩ := List.mem_filterMap.mp isIn
      exact kanjiDigit_lt found
    rw [BigNum.fromDigits_eq small]
    simp [eq_comm]
  case isFalse units =>
    constructor
    · intro found
      obtain ⟨value, read, rfl⟩ := Option.map_eq_some_iff.mp found
      obtain ⟨same, denoted, rfl⟩ := (kanjiUnits_spec run 0 10000 value).1.mp read
      exact ⟨same, denoted, by rw [Nat.zero_add]⟩
    · rintro ⟨value, denoted, rfl⟩
      have read := (kanjiUnits_spec run 0 10000 value).1.mpr
        ⟨value, denoted, (Nat.zero_add _).symm⟩
      rw [read]
      rfl

-- Names

namespace UnicodeTables

variable (unicode : UnicodeTables)

/-- `natural_cmp`. -/
def naturalCmp (first second : String) : Ordering :=
  cmp (unicode.nameKey first) (unicode.nameKey second)

/-- A run of decimal digits that the text after it does not go on. -/
structure DigitRun (run rest : List Char) : Prop where
  nonempty : run ≠ []
  digits : ∀ char ∈ run, (unicode.decimal char).isSome = true
  ends : ∀ char ∈ rest.head?, unicode.decimal char = none

/-- The number of a run of decimal digits. -/
def runValue (run : List Char) : ℕ := Decimal.positional (run.filterMap unicode.decimal)

variable {unicode}

theorem takeDigits_run {run rest : List Char}
    (digits : ∀ char ∈ run, (unicode.decimal char).isSome = true)
    (ends : ∀ char ∈ rest.head?, unicode.decimal char = none)
    : unicode.takeDigits (run ++ rest) = ((run.filterMap unicode.decimal).map digitChar, rest) := by
  induction run with
  | nil =>
      cases rest with
      | nil => rfl
      | cons char rest => simp [takeDigits, ends char rfl]
  | cons char run ih =>
      rw [List.forall_mem_cons] at digits
      obtain ⟨value, found⟩ := Option.isSome_iff_exists.mp digits.1
      simp [takeDigits, found, ih digits.2]

/-- The fraction written after a run of digits, from what follows the run. -/
def fractionAfter (unicode : UnicodeTables) (rest : List Char) : String :=
  String.ofList ((unicode.takeFraction rest).1.reverse.dropWhile (· = '0')).reverse

theorem runs_digits (small : ∀ char value, unicode.decimal char = some value → value < 10)
    {run rest : List Char} (isRun : unicode.DigitRun run rest) (before : Option Char)
    (pending : List Char)
    : ∃ after, unicode.runs before pending (run ++ rest)
      = textRun pending
        ++ .number (.ofNat (unicode.runValue run)) (unicode.fractionAfter rest) :: after := by
  obtain ⟨nonempty, digits, ends⟩ := isRun
  cases run with
  | nil => exact absurd rfl nonempty
  | cons char run =>
      have values : ∀ value ∈ (char :: run).filterMap unicode.decimal, value < 10 := by
        intro value isIn
        obtain ⟨digit, _, found⟩ := List.mem_filterMap.mp isIn
        exact small digit value found
      rw [List.forall_mem_cons] at digits
      obtain ⟨value, found⟩ := Option.isSome_iff_exists.mp digits.1
      rw [List.filterMap_cons_some found] at values
      have number := BigNum.fromDigits_eq values
      rw [List.map_cons] at number
      rw [List.cons_append, runs, if_pos digits.1]
      simp only [takeDigits_run digits.2 ends, found, Option.getD_some]
      rw [runValue, List.filterMap_cons_some found, ← number]
      exact ⟨_, rfl⟩

/-- A character that ends every number: no digit, no numeral and no point. -/
structure Settled (unicode : UnicodeTables) (char : Char) : Prop where
  decimal : unicode.decimal char = none
  kanji : isKanjiNumeral char = false
  point : char ≠ '.'

theorem takeDigits_settled {stop : Char} (settled : unicode.Settled stop) (text : List Char)
    : ∃ digits after, after.length ≤ text.length
      ∧ ∀ rest, unicode.takeDigits (text ++ stop :: rest) = (digits, after ++ stop :: rest) := by
  induction text with
  | nil => exact ⟨[], [], le_rfl, fun rest => by simp [takeDigits, settled.decimal]⟩
  | cons char text ih =>
      obtain ⟨digits, after, shorter, taken⟩ := ih
      cases found : unicode.decimal char with
      | some value =>
          refine ⟨digitChar value :: digits, after, shorter.trans (Nat.le_succ _), fun rest => ?_⟩
          simp [takeDigits, found, taken]
      | none => exact ⟨[], char :: text, le_rfl, fun rest => by simp [takeDigits, found]⟩

theorem takeFraction_settled {stop : Char} (settled : unicode.Settled stop) (text : List Char)
    : ∃ digits after, after.length ≤ text.length
      ∧ ∀ rest, unicode.takeFraction (text ++ stop :: rest)
        = (digits, after ++ stop :: rest) := by
  have whole (none : ∀ rest, unicode.takeFraction (text ++ stop :: rest)
      = ([], text ++ stop :: rest))
      : ∃ digits after, after.length ≤ text.length ∧ ∀ rest,
        unicode.takeFraction (text ++ stop :: rest) = (digits, after ++ stop :: rest) :=
    ⟨[], text, le_rfl, none⟩
  cases text with
  | nil =>
      refine whole fun rest => ?_
      unfold takeFraction
      split
      case h_1 same => exact absurd (List.cons.inj same).1 settled.point
      case h_2 => rfl
  | cons char text =>
      by_cases point : char = '.'
      · subst point
        obtain ⟨digits, after, shorter, taken⟩ := takeDigits_settled settled text
        by_cases none : digits = []
        · exact whole fun rest => by simp [takeFraction, taken, none]
        · refine ⟨digits, after, shorter.trans (Nat.le_succ _), fun rest => ?_⟩
          simp [takeFraction, taken, none]
      · refine whole fun rest => ?_
        unfold takeFraction
        split
        case h_1 same => exact absurd (List.cons.inj same).1 point
        case h_2 => rfl

theorem takeNumerals_settled {stop : Char} (settled : unicode.Settled stop) (text : List Char)
    : ∃ run after, after.length ≤ text.length
      ∧ (∀ rest, (text ++ stop :: rest).takeWhile isKanjiNumeral = run)
      ∧ ∀ rest, (text ++ stop :: rest).dropWhile isKanjiNumeral = after ++ stop :: rest := by
  induction text with
  | nil => exact ⟨[], [], le_rfl, by simp [settled.kanji], by simp [settled.kanji]⟩
  | cons char text ih =>
      obtain ⟨run, after, shorter, taken, left⟩ := ih
      cases kanji : isKanjiNumeral char with
      | true =>
          refine ⟨char :: run, after, shorter.trans (Nat.le_succ _), fun rest => ?_, fun rest => ?_⟩
          · simp [kanji, taken]
          · simp [kanji, left]
      | false => exact ⟨[], char :: text, le_rfl, by simp [kanji], by simp [kanji]⟩

/-- What is written before a settled character does not depend on what follows it. Induction on
the length of the text before it.
-/
theorem runs_settled {stop : Char} (settled : unicode.Settled stop) (text : List Char)
    (before : Option Char) (pending : List Char)
    : ∃ tokens later, ∀ rest, unicode.runs before pending (text ++ stop :: rest)
      = tokens ++ unicode.runs (some stop) later rest := by
  induction length : text.length using Nat.strong_induction_on generalizing text before pending with
  | _ size ih =>
    cases text with
    | nil =>
        refine ⟨[], pending ++ [stop], fun rest => ?_⟩
        rw [List.nil_append, runs, settled.decimal, settled.kanji]
        simp
    | cons char text =>
        rw [List.length_cons] at length
        by_cases digit : (unicode.decimal char).isSome = true
        · obtain ⟨digits, middle, shorter, taken⟩ := takeDigits_settled settled text
          obtain ⟨fraction, after, under, part⟩ := takeFraction_settled settled middle
          obtain ⟨tokens, later, found⟩ := ih after.length (by omega) after
            ((char :: text).take (text.length + 1 - after.length)).getLast? [] rfl
          refine ⟨textRun pending ++ .number
            (.fromDigits (digitChar ((unicode.decimal char).getD 0) :: digits))
            (String.ofList (fraction.reverse.dropWhile (· = '0')).reverse) :: tokens, later,
            fun rest => ?_⟩
          have consumed : (char :: (text ++ stop :: rest)).take
              ((text ++ stop :: rest).length + 1 - (after ++ stop :: rest).length)
              = (char :: text).take (text.length + 1 - after.length) := by
            rw [← List.cons_append, List.take_append_of_le_length]
            · congr 1
              simp only [List.length_append, List.length_cons]
              omega
            · simp only [List.length_append, List.length_cons]
              omega
          rw [List.cons_append, runs, if_pos digit]
          simp only [taken, part, consumed, found]
          rw [List.append_assoc, List.cons_append]
        · by_cases kanji : isKanjiNumeral char = true
          · obtain ⟨run, after, shorter, taken, left⟩ := takeNumerals_settled settled text
            obtain ⟨next, follows⟩ : ∃ next, ∀ rest, (after ++ stop :: rest).head? = some next := by
              cases after with
              | nil => exact ⟨stop, fun _ => rfl⟩
              | cons next _ => exact ⟨next, fun _ => rfl⟩
            have written (key : NaturalKey) (kept : List Char)
                (step : ∀ rest, unicode.runs before pending (char :: text ++ stop :: rest)
                  = key ++ unicode.runs (char :: run).getLast? kept (after ++ stop :: rest))
                : ∃ tokens later, ∀ rest,
                  unicode.runs before pending (char :: text ++ stop :: rest)
                    = tokens ++ unicode.runs (some stop) later rest := by
              obtain ⟨tokens, later, found⟩ := ih after.length (by omega) after
                (char :: run).getLast? kept rfl
              refine ⟨key ++ tokens, later, fun rest => ?_⟩
              rw [step, found, List.append_assoc]
            cases value : kanjiValue (char :: run) with
            | none =>
                refine written [] (pending ++ char :: run) fun rest => ?_
                rw [List.cons_append, runs, if_neg digit, if_pos kanji]
                simp only [taken, left, value, List.nil_append]
            | some number =>
                by_cases stands : unicode.standsAsNumber before (some next) = true
                · refine written (textRun pending ++ [.number number ""]) [] fun rest => ?_
                  rw [List.cons_append, runs, if_neg digit, if_pos kanji]
                  simp only [taken, left, value, follows, if_pos stands, List.append_assoc,
                    List.cons_append, List.nil_append]
                · refine written [] (pending ++ char :: run) fun rest => ?_
                  rw [List.cons_append, runs, if_neg digit, if_pos kanji]
                  simp only [taken, left, value, follows, if_neg stands, List.nil_append]
          · obtain ⟨tokens, later, found⟩ := ih text.length (by omega) text (some char)
              (pending ++ [char]) rfl
            refine ⟨tokens, later, fun rest => ?_⟩
            rw [List.cons_append, runs, if_neg digit, if_neg kanji, found]

/-- A text at whose end no number is being read: nothing, or one that ends every number. -/
inductive Ended (unicode : UnicodeTables) : List Char → Prop where
  | nil : Ended unicode []
  | stop {text : List Char} {stop : Char} (settled : unicode.Settled stop)
      : Ended unicode (text ++ [stop])

theorem naturalKey_run
    (small : ∀ char value, unicode.decimal char = some value → value < 10)
    {front : List Char} (ended : unicode.Ended front)
    : ∃ tokens, ∀ name run rest, unicode.folded name = front ++ (run ++ rest) →
      unicode.DigitRun run rest →
      ∃ after, unicode.naturalKey name = tokens
        ++ .number (.ofNat (unicode.runValue run)) (unicode.fractionAfter rest) :: after := by
  cases ended with
  | nil =>
      refine ⟨textRun [], fun name run rest text isRun => ?_⟩
      obtain ⟨after, found⟩ := runs_digits small isRun none []
      exact ⟨after, by rw [naturalKey, text, List.nil_append, found]⟩
  | @stop text stop settled =>
      obtain ⟨tokens, later, told⟩ := runs_settled settled text none []
      refine ⟨tokens ++ textRun later, fun name run rest same isRun => ?_⟩
      obtain ⟨after, found⟩ := runs_digits small isRun (some stop) later
      refine ⟨after, ?_⟩
      rw [naturalKey, same, List.append_assoc, List.cons_append, List.nil_append, told, found,
        List.append_assoc]

theorem naturalCmp_run
    (small : ∀ char value, unicode.decimal char = some value → value < 10)
    {front : List Char} (ended : unicode.Ended front) {first second : String}
    {run rest other others : List Char}
    (one : unicode.folded first = front ++ (run ++ rest)) (isRun : unicode.DigitRun run rest)
    (two : unicode.folded second = front ++ (other ++ others))
    (isOther : unicode.DigitRun other others)
    (less : unicode.runValue run < unicode.runValue other)
    : unicode.naturalCmp first second = .lt := by
  obtain ⟨tokens, told⟩ := naturalKey_run small ended
  obtain ⟨after, key⟩ := told first run rest one isRun
  obtain ⟨later, otherKey⟩ := told second other others two isOther
  have below : unicode.naturalKey first < unicode.naturalKey second := by
    rw [key, otherKey]
    exact List.append_left_lt (List.Lex.rel (Token.number_lt less _ _))
  rw [naturalCmp, cmp_eq_lt_iff, nameKey, nameKey, Prod.Lex.toLex_lt_toLex]
  exact .inl below

variable (unicode)

end UnicodeTables

end MokuroBunko.Sched
