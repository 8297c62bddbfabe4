import MokuroBunko.Lib.Text
import Mathlib.Data.List.Lex
import Mathlib.Data.Prod.Lex

/-! The natural order of names: runs of digits, Arabic and Kanji, compare as numbers and
sort before text. The Unicode tables and the normalization are parameters.
-/

namespace MokuroBunko.Sched

open MokuroBunko.Lib

-- Tokens

/-- `BigNum`: a number of any size, as its decimal digits without leading zeros. -/
structure BigNum where
  digits : String
deriving DecidableEq

namespace BigNum

/-- `BigNum::from_digits`. -/
def fromDigits (digits : List Char) : BigNum :=
  let trimmed := digits.dropWhile (· = '0')
  ⟨String.ofList (if trimmed = [] then ['0'] else trimmed)⟩

/-- `BigNum::from`. -/
def ofNat (value : ℕ) : BigNum := ⟨toString value⟩

/-- The longer number is the larger; of one length the digits compare as texts. -/
def sortKey (number : BigNum) : ℕ ×ₗ String := toLex (number.digits.length, number.digits)

theorem sortKey_injective : Function.Injective sortKey := by
  rintro ⟨left⟩ ⟨right⟩ same
  simp only [sortKey, toLex_inj, Prod.mk.injEq] at same
  rw [same.2]

end BigNum

/-- `Token`: one run of a name. -/
inductive Token where
  | number (value : BigNum) (fraction : String)
  | text (content : String)
deriving DecidableEq

namespace Token

/-- A number sorts before text, by its value and then its fraction. -/
def sortKey : Token → ℕ ×ₗ (ℕ ×ₗ String) ×ₗ String
  | .number value fraction => toLex (0, toLex (value.sortKey, fraction))
  | .text content => toLex (1, toLex (toLex (0, ""), content))

theorem sortKey_injective : Function.Injective sortKey := by
  intro left right same
  cases left <;> cases right <;>
    simp only [sortKey, toLex_inj, Prod.mk.injEq, zero_ne_one, one_ne_zero, false_and, true_and]
      at same
  · rw [BigNum.sortKey_injective same.1, same.2]
  · rw [same]

instance : LinearOrder Token := LinearOrder.lift' sortKey sortKey_injective

end Token

/-- `NaturalKey`: the runs of a name; comparison is by the first run that differs. -/
abbrev NaturalKey := List Token

-- Kanji numerals

def KANJI_DIGITS : List Char := ['〇', '一', '二', '三', '四', '五', '六', '七', '八', '九']

def COUNTERS : List Char := ['巻', '話', '章', '集']

/-- `kanji_digit`. -/
def kanjiDigit (char : Char) : Option ℕ :=
  if char ∈ KANJI_DIGITS then some (KANJI_DIGITS.idxOf char) else none

/-- `kanji_unit`. -/
def kanjiUnit (char : Char) : Option ℕ :=
  match char with
  | '十' => some 10
  | '百' => some 100
  | '千' => some 1000
  | _ => none

/-- `is_kanji_numeral`. -/
def isKanjiNumeral (char : Char) : Bool :=
  (kanjiDigit char).isSome || (kanjiUnit char).isSome

/-- The multiplicative reading: units strictly decreasing, at most one digit each. -/
def kanjiUnits : List Char → ℕ → Option ℕ → ℕ → Option ℕ
  | [], total, digit, _ => some (total + digit.getD 0)
  | char :: rest, total, digit, lastUnit =>
      match kanjiDigit char with
      | some value =>
          if digit.isSome || char = '〇' then none
          else kanjiUnits rest total (some value) lastUnit
      | none => do
          let unit ← kanjiUnit char
          if lastUnit ≤ unit then none
          else kanjiUnits rest (total + digit.getD 1 * unit) none unit

/-- The character of a decimal digit's value. -/
def digitChar (value : ℕ) : Char := Char.ofNat (48 + value)

/-- `kanji_value`: positional when all are digits, else multiplicative. -/
def kanjiValue (run : List Char) : Option BigNum :=
  if run.all (fun char => (kanjiDigit char).isSome) then
    some (.fromDigits ((run.filterMap kanjiDigit).map digitChar))
  else (kanjiUnits run 0 none 10000).map .ofNat

-- Names

/-- The Unicode data the order rests on. -/
structure UnicodeTables where
  /-- Normalization form KC. -/
  nfkc : String → String
  /-- The full case folding of a character. -/
  casefold : Char → List Char
  /-- `py_isalnum`. -/
  isAlnum : Char → Bool
  /-- `py_decimal`: the value of a decimal digit of any script. -/
  decimal : Char → Option ℕ

namespace UnicodeTables

/-- `py_casefold` after the normalization. -/
def folded (unicode : UnicodeTables) (text : String) : List Char :=
  (unicode.nfkc text).toList.flatMap unicode.casefold

/-- `stands_as_number`: after 第, before a counter, or a whole word of its own. -/
def standsAsNumber (unicode : UnicodeTables) (before after : Option Char) : Bool :=
  if before = some '第' || after.any (· ∈ COUNTERS) then true
  else !before.any unicode.isAlnum && !after.any unicode.isAlnum

/-- The digits at the head of a text, as ASCII, and what follows them. -/
def takeDigits (unicode : UnicodeTables) : List Char → List Char × List Char
  | [] => ([], [])
  | char :: rest =>
      match unicode.decimal char with
      | some value =>
          let (digits, after) := unicode.takeDigits rest
          (digitChar value :: digits, after)
      | none => ([], char :: rest)

/-- The fraction at the head of a text: a point and at least one digit. -/
def takeFraction (unicode : UnicodeTables) (text : List Char) : List Char × List Char :=
  match text with
  | '.' :: rest =>
      let (digits, after) := unicode.takeDigits rest
      if digits = [] then ([], text) else (digits, after)
  | _ => ([], text)

theorem takeDigits_length_le (unicode : UnicodeTables) (text : List Char)
    : (unicode.takeDigits text).2.length ≤ text.length := by
  induction text with
  | nil => simp [takeDigits]
  | cons char rest ih =>
      cases value : unicode.decimal char with
      | some _ => simpa [takeDigits, value] using ih.trans (Nat.le_succ _)
      | none => simp [takeDigits, value]

theorem takeFraction_length_le (unicode : UnicodeTables) (text : List Char)
    : (unicode.takeFraction text).2.length ≤ text.length := by
  unfold takeFraction
  split
  · dsimp only
    split_ifs
    · exact le_rfl
    · exact (unicode.takeDigits_length_le _).trans (Nat.le_succ _)
  · exact le_rfl

/-- The text run collected so far, when there is one. -/
def textRun (pending : List Char) : NaturalKey :=
  if pending = [] then [] else [.text (String.ofList pending)]

/-- The runs of a folded text: `before` is the last character read, `pending` the text run
not written yet.
-/
def runs (unicode : UnicodeTables) (before : Option Char) (pending : List Char)
    : List Char → NaturalKey
  | [] => textRun pending
  | char :: rest =>
      if (unicode.decimal char).isSome then
        let digits := unicode.takeDigits rest
        let fraction := unicode.takeFraction digits.2
        let own := digitChar ((unicode.decimal char).getD 0)
        let consumed := (char :: rest).take (rest.length + 1 - fraction.2.length)
        textRun pending
          ++ .number (.fromDigits (own :: digits.1))
              (String.ofList (fraction.1.reverse.dropWhile (· = '0')).reverse)
            :: unicode.runs consumed.getLast? [] fraction.2
      else if isKanjiNumeral char then
        let run := char :: rest.takeWhile isKanjiNumeral
        let after := rest.dropWhile isKanjiNumeral
        match kanjiValue run with
        | some value =>
            if unicode.standsAsNumber before after.head? then
              textRun pending ++ .number value "" :: unicode.runs run.getLast? [] after
            else unicode.runs run.getLast? (pending ++ run) after
        | none => unicode.runs run.getLast? (pending ++ run) after
      else unicode.runs (some char) (pending ++ [char]) rest
termination_by text => text.length
decreasing_by
  · have fractionLe := unicode.takeFraction_length_le (unicode.takeDigits rest).2
    have digitsLe := unicode.takeDigits_length_le rest
    simp only [List.length_cons]
    omega
  all_goals
    have afterLe := (List.dropWhile_sublist (l := rest) isKanjiNumeral).length_le
    simp only [List.length_cons]
    omega

/-- `natural_key`: the runs of the normalized, case-folded text. -/
def naturalKey (unicode : UnicodeTables) (text : String) : NaturalKey :=
  unicode.runs none [] (unicode.folded text)

/-- `name_key`: natural order, the raw name as the tie-break. -/
def nameKey (unicode : UnicodeTables) (name : String) : NaturalKey ×ₗ String :=
  toLex (unicode.naturalKey name, name)

theorem nameKey_injective (unicode : UnicodeTables) : Function.Injective unicode.nameKey := by
  intro left right same
  simp only [nameKey, toLex_inj, Prod.mk.injEq] at same
  exact same.2

end UnicodeTables

end MokuroBunko.Sched
