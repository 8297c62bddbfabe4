import Mathlib.Algebra.Order.Field.Rat
import Mathlib.Algebra.Field.Rat
import Mathlib.Algebra.GroupWithZero.Basic
import Mathlib.Data.List.TakeWhile
import Mathlib.Tactic.Ring

/-! JSON numbers: their texts, and what a text denotes. How a decimal is rounded to a float is a
parameter.
-/

namespace MokuroBunko.Lib.Json

-- Numbers

/-- The size of a float that is a number. The positive finite ones are any type. -/
inductive Magnitude (M : Type) where
  | zero
  | finite (value : M)
  | infinite
  deriving DecidableEq

inductive F64 (M : Type) where
  | nan
  | signed (negative : Bool) (magnitude : Magnitude M)
  deriving DecidableEq

/-- A signed integer of 64 bits. -/
abbrev I64 := { value : ℤ // -2 ^ 63 ≤ value ∧ value < 2 ^ 63 }

/-- A number as Python holds it: an `int` of any size or a `float`. -/
inductive JsonNum (M : Type) where
  | int (value : I64)
  /-- Outside `I64`, as its decimal text. -/
  | bigInt (text : String)
  | float (value : F64 M)
  deriving DecidableEq

/-- The digits of a positive number, the first of which is not zero, with a point after the first,
and the power of ten.
-/
structure Scientific where
  first : Char
  rest : List Char
  exponent : ℤ
  first_digit : first.isDigit
  first_ne_zero : first ≠ '0'
  rest_digits : ∀ char ∈ rest, char.isDigit

def Scientific.digits (sci : Scientific) : List Char := sci.first :: sci.rest

def Scientific.value (sci : Scientific) : ℚ :=
  (Nat.ofDigitChars 10 sci.digits 0 : ℚ) * 10 ^ (sci.exponent - sci.rest.length)

/-- The decimal texts of floats, as the standard library reads and writes them. -/
class FloatText (M : Type) where
  decidableEq : DecidableEq M
  /-- The nearest float, zero and infinity included. -/
  round : ℚ → Magnitude M
  /-- The fewest digits that read back (the format `{:e}`). -/
  shortest : M → Scientific
  /-- That many digits nearest to the value (the format `{:.*e}`). -/
  nearest : M → ℕ → Scientific

instance {M : Type} [FloatText M] : DecidableEq M := FloatText.decidableEq

/-- Reading undoes writing. -/
structure FloatText.Inverse (M : Type) [FloatText M] : Prop where
  zero : FloatText.round (M := M) 0 = .zero
  shortest : ∀ value : M, FloatText.round (FloatText.shortest value).value = .finite value

-- Texts

/-- The exponent of a number's text. -/
structure Exponent where
  letter : Char
  sign : Option Char
  digits : List Char
  deriving DecidableEq

/-- The parts of a number's text. -/
structure Numeral where
  negative : Bool
  whole : List Char
  /-- The digits after the point; without any there is no point. -/
  fraction : List Char
  exponent : Option Exponent
  deriving DecidableEq

namespace Exponent

variable (exponent : Exponent)

def text : List Char := exponent.letter :: exponent.sign.toList ++ exponent.digits

def value : ℤ :=
  if exponent.sign = some '-' then -(Nat.ofDigitChars 10 exponent.digits 0 : ℤ)
  else Nat.ofDigitChars 10 exponent.digits 0

structure WellFormed : Prop where
  letter : exponent.letter = 'e' ∨ exponent.letter = 'E'
  sign : exponent.sign = none ∨ exponent.sign = some '+' ∨ exponent.sign = some '-'
  nonempty : exponent.digits ≠ []
  digits : ∀ char ∈ exponent.digits, char.isDigit

end Exponent

namespace Numeral

variable (numeral : Numeral)

def signText : List Char := if numeral.negative then ['-'] else []

def fractionText : List Char := if numeral.fraction = [] then [] else '.' :: numeral.fraction

def exponentText : List Char := (numeral.exponent.map Exponent.text).getD []

def text : List Char :=
  numeral.signText ++ numeral.whole ++ numeral.fractionText ++ numeral.exponentText

def isFloat : Bool := numeral.fraction ≠ [] ∨ numeral.exponent.isSome

/-- Its value without the sign. -/
def magnitude : ℚ :=
  (Nat.ofDigitChars 10 (numeral.whole ++ numeral.fraction) 0 : ℚ)
    * 10 ^ ((numeral.exponent.map Exponent.value).getD 0 - numeral.fraction.length)

/-- The integer of a text with neither a fraction nor an exponent. -/
def integer : ℤ :=
  if numeral.negative then -(Nat.ofDigitChars 10 numeral.whole 0 : ℤ)
  else Nat.ofDigitChars 10 numeral.whole 0

/-- `str::parse::<i64>`. -/
def parseI64 : Option I64 :=
  if range : -2 ^ 63 ≤ numeral.integer ∧ numeral.integer < 2 ^ 63 then
    some ⟨numeral.integer, range⟩
  else none

/-- `str::parse::<f64>`, which takes every number's text. -/
def parseF64 {M : Type} [FloatText M] : F64 M :=
  .signed numeral.negative (FloatText.round numeral.magnitude)

/-- The number of the text. -/
def value {M : Type} [FloatText M] : JsonNum M :=
  if numeral.isFloat then .float numeral.parseF64
  else
    match numeral.parseI64 with
    | some value => .int value
    | none => .bigInt (String.ofList numeral.text)

/-- No zero in front of other digits, and a digit wherever one is asked for. -/
structure WellFormed : Prop where
  nonempty : numeral.whole ≠ []
  zero : ∀ rest, numeral.whole = '0' :: rest → rest = []
  whole : ∀ char ∈ numeral.whole, char.isDigit
  fraction : ∀ char ∈ numeral.fraction, char.isDigit
  exponent : ∀ exponent, numeral.exponent = some exponent → exponent.WellFormed

end Numeral

-- Scanning

def scanSign (text : List Char) : Bool × List Char :=
  match text with
  | '-' :: rest => (true, rest)
  | _ => (false, text)

/-- The digits before the point: a zero alone, or digits from another one. -/
def scanWhole (text : List Char) : Option (List Char × List Char) :=
  match text with
  | [] => none
  | first :: rest =>
      if first = '0' then some (['0'], rest)
      else if first.isDigit then some (text.takeWhile Char.isDigit, text.dropWhile Char.isDigit)
      else none

/-- The digits after a point, if a digit follows it. -/
def scanFraction (text : List Char) : List Char × List Char :=
  match text with
  | '.' :: first :: rest =>
      if first.isDigit then
        ((first :: rest).takeWhile Char.isDigit, (first :: rest).dropWhile Char.isDigit)
      else ([], text)
  | _ => ([], text)

def scanExponentSign (text : List Char) : Option Char × List Char :=
  match text with
  | '+' :: rest => (some '+', rest)
  | '-' :: rest => (some '-', rest)
  | _ => (none, text)

/-- The exponent, if a digit follows its letter and sign. -/
def scanExponent (text : List Char) : Option Exponent × List Char :=
  match text with
  | [] => (none, text)
  | letter :: rest =>
      if letter = 'e' ∨ letter = 'E' then
        let (sign, digits) := scanExponentSign rest
        if digits.head?.any Char.isDigit then
          (some ⟨letter, sign, digits.takeWhile Char.isDigit⟩, digits.dropWhile Char.isDigit)
        else (none, text)
      else (none, text)

/-- The longest number that the text begins with, and the rest. -/
def scanNumeral (text : List Char) : Option (Numeral × List Char) :=
  let (negative, rest) := scanSign text
  match scanWhole rest with
  | none => none
  | some (whole, rest) =>
      let (fraction, rest) := scanFraction rest
      let (exponent, rest) := scanExponent rest
      some (⟨negative, whole, fraction, exponent⟩, rest)

-- What is scanned

theorem digits_takeWhile {text : List Char}
    : ∀ char ∈ text.takeWhile Char.isDigit, char.isDigit :=
  fun _ => List.mem_takeWhile_imp

theorem scanSign_sound (text : List Char)
    : text = (if (scanSign text).1 then ['-'] else []) ++ (scanSign text).2 := by
  unfold scanSign
  split <;> simp

theorem scanWhole_sound {text whole rest : List Char}
    (scanned : scanWhole text = some (whole, rest))
    : text = whole ++ rest ∧ whole ≠ [] ∧ (∀ more, whole = '0' :: more → more = [])
      ∧ ∀ char ∈ whole, char.isDigit := by
  unfold scanWhole at scanned
  split at scanned
  · contradiction
  rename_i first after
  split at scanned
  · rename_i zero
    cases scanned
    subst zero
    refine ⟨rfl, by simp, ?_, by simp⟩
    intro more same
    exact (List.cons.inj same).2.symm
  split at scanned
  · rename_i nonzero digit
    cases scanned
    refine ⟨List.takeWhile_append_dropWhile.symm, ?_, ?_, digits_takeWhile⟩
    · simp [digit]
    · intro more same
      rw [List.takeWhile_cons_of_pos digit] at same
      exact absurd (List.cons.inj same).1 nonzero
  · contradiction

theorem scanFraction_sound (text : List Char)
    : text = (if (scanFraction text).1 = [] then [] else '.' :: (scanFraction text).1)
        ++ (scanFraction text).2
      ∧ ∀ char ∈ (scanFraction text).1, char.isDigit := by
  unfold scanFraction
  split
  · rename_i first rest
    split
    · rename_i digit
      refine ⟨?_, digits_takeWhile⟩
      rw [if_neg (by simp [digit]), List.cons_append, List.takeWhile_append_dropWhile]
    · simp
  · simp

theorem scanExponentSign_sound (text : List Char)
    : text = (scanExponentSign text).1.toList ++ (scanExponentSign text).2
      ∧ ((scanExponentSign text).1 = none ∨ (scanExponentSign text).1 = some '+'
        ∨ (scanExponentSign text).1 = some '-') := by
  unfold scanExponentSign
  split <;> simp

theorem scanExponent_sound (text : List Char)
    : text = ((scanExponent text).1.map Exponent.text).getD [] ++ (scanExponent text).2
      ∧ ∀ exponent, (scanExponent text).1 = some exponent → exponent.WellFormed := by
  unfold scanExponent
  split
  · simp
  rename_i letter rest
  split
  · rename_i isLetter
    have signed := scanExponentSign_sound rest
    simp only
    split
    · rename_i digit
      constructor
      · simp only [Option.map_some, Option.getD_some, Exponent.text, List.cons_append,
          List.append_assoc, List.takeWhile_append_dropWhile]
        rw [← signed.1]
      · intro exponent found
        cases found
        refine ⟨isLetter, signed.2, ?_, digits_takeWhile⟩
        cases after : (scanExponentSign rest).2 with
        | nil => simp [after] at digit
        | cons first more =>
            have isDigit : first.isDigit := by simpa [after] using digit
            simp [List.takeWhile_cons_of_pos isDigit]
    · simp
  · simp

theorem scanNumeral_sound {text rest : List Char} {numeral : Numeral}
    (scanned : scanNumeral text = some (numeral, rest))
    : numeral.WellFormed ∧ text = numeral.text ++ rest := by
  simp only [scanNumeral] at scanned
  split at scanned
  · contradiction
  rename_i whole after isWhole
  cases scanned
  obtain ⟨wholeText, nonempty, zero, digits⟩ := scanWhole_sound isWhole
  have sign := scanSign_sound text
  have fraction := scanFraction_sound after
  have exponent := scanExponent_sound (scanFraction after).2
  refine ⟨⟨nonempty, zero, digits, fraction.2, exponent.2⟩, ?_⟩
  simp only [Numeral.text, Numeral.signText, Numeral.fractionText, Numeral.exponentText,
    List.append_assoc]
  rw [← exponent.1, ← fraction.1, ← wholeText]
  exact sign

theorem scanNumeral_none {first : Char} {rest : List Char} (minus : first ≠ '-')
    (digit : ¬ first.isDigit)
    : scanNumeral (first :: rest) = none := by
  have unsigned : scanSign (first :: rest) = (false, first :: rest) := by
    unfold scanSign
    split
    · rename_i same
      exact absurd (List.cons.inj same).1 minus
    · rfl
  have zero : first ≠ '0' := by
    intro same
    subst same
    exact digit (by decide)
  simp only [scanNumeral, unsigned, scanWhole, if_neg zero, if_neg digit]

-- Every text is scanned

/-- The text does not go on with a digit. -/
def NoDigit (text : List Char) : Prop := ∀ char ∈ text.head?, ¬ char.isDigit

/-- The text does not go on with a part of a number. -/
def EndsNumber (text : List Char) : Prop :=
  ∀ char ∈ text.head?, ¬ char.isDigit ∧ char ≠ '.' ∧ char ≠ 'e' ∧ char ≠ 'E'

theorem EndsNumber.noDigit {text : List Char} (ends : EndsNumber text) : NoDigit text :=
  fun char first => (ends char first).1

theorem takeWhile_digits {digits rest : List Char} (all : ∀ char ∈ digits, char.isDigit)
    (ends : NoDigit rest)
    : (digits ++ rest).takeWhile Char.isDigit = digits
      ∧ (digits ++ rest).dropWhile Char.isDigit = rest := by
  rw [List.takeWhile_append_of_pos all, List.dropWhile_append_of_pos all]
  cases rest with
  | nil => simp
  | cons first more =>
      have stop : ¬ first.isDigit := ends first rfl
      simp [stop]

theorem scanWhole_complete {whole rest : List Char} (nonempty : whole ≠ [])
    (zero : ∀ more, whole = '0' :: more → more = []) (digits : ∀ char ∈ whole, char.isDigit)
    (ends : NoDigit rest)
    : scanWhole (whole ++ rest) = some (whole, rest) := by
  cases whole with
  | nil => contradiction
  | cons first more =>
      have taken := takeWhile_digits digits ends
      have digit := digits first List.mem_cons_self
      rw [List.cons_append] at taken ⊢
      unfold scanWhole
      dsimp only
      split
      · rename_i isZero
        subst isZero
        rw [zero more rfl, List.nil_append]
      · rw [taken.1, taken.2]

theorem scanFraction_complete {fraction rest : List Char}
    (digits : ∀ char ∈ fraction, char.isDigit) (ends : NoDigit rest)
    (noPoint : ∀ char ∈ rest.head?, char ≠ '.')
    : scanFraction ((if fraction = [] then [] else '.' :: fraction) ++ rest)
      = (fraction, rest) := by
  cases fraction with
  | nil =>
      rw [if_pos rfl, List.nil_append]
      unfold scanFraction
      split
      · exact absurd rfl (noPoint '.' rfl)
      · rfl
  | cons first more =>
      have taken := takeWhile_digits digits ends
      rw [List.cons_append] at taken
      rw [if_neg (by simp), List.cons_append, List.cons_append, scanFraction,
        if_pos (digits first List.mem_cons_self), taken.1, taken.2]

theorem scanExponentSign_complete {sign : Option Char} {digits : List Char}
    (isSign : sign = none ∨ sign = some '+' ∨ sign = some '-')
    (first : digits.head?.any Char.isDigit)
    : scanExponentSign (sign.toList ++ digits) = (sign, digits) := by
  rcases isSign with rfl | rfl | rfl
  · rw [Option.toList_none, List.nil_append]
    unfold scanExponentSign
    split
    · simp at first
    · simp at first
    · rfl
  · rfl
  · rfl

theorem scanExponent_complete {exponent : Option Exponent} {rest : List Char}
    (wellFormed : ∀ found, exponent = some found → found.WellFormed) (ends : EndsNumber rest)
    : scanExponent ((exponent.map Exponent.text).getD [] ++ rest) = (exponent, rest) := by
  cases exponent with
  | none =>
      rw [Option.map_none, Option.getD_none, List.nil_append]
      unfold scanExponent
      split
      · rfl
      · rename_i letter more
        rw [if_neg]
        have stops := ends letter rfl
        simp [stops]
  | some exponent =>
      obtain ⟨letter, sign, digits⟩ := exponent
      have parts := wellFormed _ rfl
      have first : (digits ++ rest).head?.any Char.isDigit := by
        cases digits with
        | nil => exact absurd rfl parts.nonempty
        | cons first more => simpa using parts.digits first List.mem_cons_self
      have taken := takeWhile_digits parts.digits ends.noDigit
      simp only [Option.map_some, Option.getD_some, Exponent.text, List.cons_append,
        List.append_assoc]
      rw [scanExponent, if_pos parts.letter, scanExponentSign_complete parts.sign first]
      simp only [first, if_true, taken.1, taken.2]

theorem scanSign_complete {negative : Bool} {rest : List Char}
    (unsigned : ∀ char ∈ rest.head?, char ≠ '-')
    : scanSign ((if negative then ['-'] else []) ++ rest) = (negative, rest) := by
  cases negative with
  | true => rfl
  | false =>
      rw [if_neg (by simp), List.nil_append]
      unfold scanSign
      split
      · exact absurd rfl (unsigned '-' rfl)
      · rfl

theorem exponentText_head {exponent : Option Exponent} {rest : List Char}
    (wellFormed : ∀ found, exponent = some found → found.WellFormed) (ends : EndsNumber rest)
    : ∀ char ∈ ((exponent.map Exponent.text).getD [] ++ rest).head?,
        ¬ char.isDigit ∧ char ≠ '.' := by
  cases exponent with
  | none => exact fun char first => ⟨(ends char first).1, (ends char first).2.1⟩
  | some exponent =>
      have letter := (wellFormed exponent rfl).letter
      simp only [Option.map_some, Option.getD_some, Exponent.text, List.cons_append,
        List.head?_cons, Option.mem_some_iff]
      intro char same
      rcases letter with letter | letter <;>
      · rw [letter] at same
        subst same
        decide

theorem fractionText_head {fraction rest : List Char} (ends : NoDigit rest)
    : NoDigit ((if fraction = [] then [] else '.' :: fraction) ++ rest) := by
  cases fraction with
  | nil => exact ends
  | cons first more =>
      intro char point
      cases point
      decide

theorem scanNumeral_complete {numeral : Numeral} {rest : List Char}
    (wellFormed : numeral.WellFormed) (ends : EndsNumber rest)
    : scanNumeral (numeral.text ++ rest) = some (numeral, rest) := by
  obtain ⟨nonempty, zero, whole, fraction, exponent⟩ := wellFormed
  have exponentHead := exponentText_head exponent ends
  have noDigit : NoDigit ((numeral.exponent.map Exponent.text).getD [] ++ rest) :=
    fun char first => (exponentHead char first).1
  have unsigned : ∀ more : List Char, ∀ char ∈ (numeral.whole ++ more).head?, char ≠ '-' := by
    intro more char first minus
    obtain ⟨digit, digits, same⟩ := List.exists_cons_of_ne_nil nonempty
    rw [same, List.cons_append, List.head?_cons, Option.mem_some_iff] at first
    subst minus
    have isDigit := whole digit (same ▸ List.mem_cons_self)
    rw [first] at isDigit
    exact absurd isDigit (by decide)
  simp only [Numeral.text, Numeral.signText, Numeral.fractionText, Numeral.exponentText,
    List.append_assoc, scanNumeral]
  rw [scanSign_complete (unsigned _)]
  simp only
  rw [scanWhole_complete nonempty zero whole (fractionText_head noDigit)]
  simp only
  rw [scanFraction_complete fraction noDigit (fun char first => (exponentHead char first).2),
    scanExponent_complete exponent ends]

end MokuroBunko.Lib.Json
