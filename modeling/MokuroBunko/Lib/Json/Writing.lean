import MokuroBunko.Lib.Json.Grammar
import MokuroBunko.Lib.Decimal

/-! Texts that denote a value: how numbers, characters and lists are written so that they read back.
-/

namespace MokuroBunko.Lib.Json

-- Integers

/-- The numeral of an integer. -/
def intNumeral (value : ℤ) : Numeral where
  negative := value < 0
  whole := Nat.toDigits 10 value.natAbs
  fraction := []
  exponent := none

/-- The decimal text of an integer. -/
def intText (value : ℤ) : List Char :=
  (if value < 0 then ['-'] else []) ++ Nat.toDigits 10 value.natAbs

theorem intNumeral_text (value : ℤ) : (intNumeral value).text = intText value := by
  simp [Numeral.text, Numeral.signText, Numeral.fractionText, Numeral.exponentText, intNumeral,
    intText]

theorem isDigit_toDigits {value : ℕ} : ∀ char ∈ Nat.toDigits 10 value, char.isDigit :=
  fun _ isIn => Nat.isDigit_of_mem_toDigits (by decide) (by decide) isIn

theorem toDigits_head {value : ℕ} {rest : List Char} (zero : Nat.toDigits 10 value = '0' :: rest)
    : rest = [] := by
  induction value using Nat.strongRecOn generalizing rest with
  | ind value ih =>
      obtain small | large := Nat.lt_or_ge value 10
      · rw [Nat.toDigits_of_lt_base small] at zero
        exact (List.cons.inj zero).2.symm
      · rw [Nat.toDigits_of_base_le (by decide) large] at zero
        cases digits : Nat.toDigits 10 (value / 10) with
        | nil => exact absurd digits Nat.toDigits_ne_nil
        | cons first more =>
            rw [digits, List.cons_append] at zero
            obtain ⟨rfl, _⟩ := List.cons.inj zero
            have single := ih (value / 10) (by omega) digits
            have isZero := Nat.ofDigitChars_ten_toDigits (n := value / 10)
            rw [digits, single] at isZero
            have : Nat.ofDigitChars 10 ['0'] 0 = 0 := rfl
            omega

theorem intNumeral_wellFormed (value : ℤ) : (intNumeral value).WellFormed where
  nonempty := Nat.toDigits_ne_nil
  zero _ := toDigits_head
  whole := isDigit_toDigits
  fraction _ isIn := absurd isIn List.not_mem_nil
  exponent _ isSome := by cases isSome

theorem intNumeral_integer (value : ℤ) : (intNumeral value).integer = value := by
  simp only [Numeral.integer, intNumeral, Nat.ofDigitChars_ten_toDigits, decide_eq_true_eq]
  split <;> omega

variable {M : Type} [FloatText M]

theorem intNumeral_value_int (value : I64) : (intNumeral value.1).value (M := M) = .int value := by
  simp only [Numeral.value, Numeral.parseI64, intNumeral_integer, dif_pos value.2]
  rfl

theorem intNumeral_value_bigInt {value : ℤ} (range : ¬ (-2 ^ 63 ≤ value ∧ value < 2 ^ 63))
    : (intNumeral value).value (M := M) = .bigInt (String.ofList (intText value)) := by
  simp only [Numeral.value, Numeral.parseI64, intNumeral_integer, dif_neg range, intNumeral_text]
  rfl

-- Floats

namespace Scientific

variable (sci : Scientific)

/-- Where the point is, counted from the first digit. -/
def point : ℤ := sci.exponent + 1

def exponentPart : Exponent where
  letter := 'e'
  sign := some (if sci.exponent < 0 then '-' else '+')
  digits := Decimal.padded 2 sci.exponent.natAbs

/-- The number's text as Python writes it: with an exponent if it is small or large, and else with a
digit on both sides of the point.
-/
def numeral (negative : Bool) : Numeral :=
  if -4 < sci.point ∧ sci.point ≤ 16 then
    if sci.point ≤ 0 then
      ⟨negative, ['0'], List.replicate (-sci.point).toNat '0' ++ sci.digits, none⟩
    else if sci.digits.length ≤ sci.point.toNat then
      ⟨
        negative,
        sci.digits ++ List.replicate (sci.point.toNat - sci.digits.length) '0',
        ['0'],
        none
      ⟩
    else ⟨negative, sci.digits.take sci.point.toNat, sci.digits.drop sci.point.toNat, none⟩
  else ⟨negative, [sci.first], sci.rest, some sci.exponentPart⟩

/-- The text that the parts make. -/
def plainText : List Char :=
  if -4 < sci.point ∧ sci.point ≤ 16 then
    if sci.point ≤ 0 then '0' :: '.' :: (List.replicate (-sci.point).toNat '0' ++ sci.digits)
    else if sci.digits.length ≤ sci.point.toNat then
      sci.digits ++ List.replicate (sci.point.toNat - sci.digits.length) '0' ++ ['.', '0']
    else sci.digits.take sci.point.toNat ++ '.' :: sci.digits.drop sci.point.toNat
  else
    sci.first :: ((if 1 < sci.digits.length then '.' :: sci.rest else [])
      ++ 'e' :: (if sci.exponent < 0 then '-' else '+') :: Decimal.padded 2 sci.exponent.natAbs)

theorem numeral_text (negative : Bool)
    : (sci.numeral negative).text = (if negative then ['-'] else []) ++ sci.plainText := by
  unfold numeral plainText
  have nonempty : sci.digits ≠ [] := by simp [digits]
  by_cases range : -4 < sci.point ∧ sci.point ≤ 16
  · rw [if_pos range, if_pos range]
    by_cases small : sci.point ≤ 0
    · rw [if_pos small, if_pos small]
      simp [Numeral.text, Numeral.signText, Numeral.fractionText, Numeral.exponentText, nonempty]
    rw [if_neg small, if_neg small]
    by_cases fits : sci.digits.length ≤ sci.point.toNat
    · rw [if_pos fits, if_pos fits]
      simp [Numeral.text, Numeral.signText, Numeral.fractionText, Numeral.exponentText]
    · have fraction : sci.digits.drop sci.point.toNat ≠ [] := by
        rw [ne_eq, List.drop_eq_nil_iff]
        exact fits
      rw [if_neg fits, if_neg fits]
      simp only [Numeral.text, Numeral.signText, Numeral.fractionText, Numeral.exponentText,
        if_neg fraction]
      simp
  · rw [if_neg range, if_neg range]
    by_cases more : sci.rest = [] <;>
      simp [Numeral.text, Numeral.signText, Numeral.fractionText, Numeral.exponentText,
        exponentPart, Exponent.text, digits, more, List.length_pos_iff]

theorem numeral_negative (negative : Bool) : (sci.numeral negative).negative = negative := by
  unfold numeral
  split_ifs <;> rfl

theorem numeral_isFloat (negative : Bool) : (sci.numeral negative).isFloat := by
  unfold numeral
  split_ifs with range small fits
  · simp [Numeral.isFloat, digits]
  · simp [Numeral.isFloat]
  · simp only [Numeral.isFloat, Option.isSome_none, Bool.false_eq_true, or_false,
      decide_eq_true_eq, ne_eq, List.drop_eq_nil_iff]
    exact fits
  · simp [Numeral.isFloat]

theorem isDigit_digits : ∀ char ∈ sci.digits, char.isDigit := by
  intro char isIn
  obtain rfl | isIn := List.mem_cons.mp isIn
  · exact sci.first_digit
  · exact sci.rest_digits char isIn

theorem isDigit_replicate {count : ℕ} : ∀ char ∈ List.replicate count '0', char.isDigit := by
  intro char isIn
  rw [List.eq_of_mem_replicate isIn]
  rfl

theorem ofDigitChars_padded (width value : ℕ)
    : Nat.ofDigitChars 10 (Decimal.padded width value) 0 = value := by
  simp [Decimal.padded, List.leftpad, Nat.ofDigitChars_append]

theorem exponentPart_wellFormed : sci.exponentPart.WellFormed where
  letter := .inl rfl
  sign := by
    simp only [exponentPart]
    split <;> simp
  nonempty := by simp [exponentPart, Decimal.padded, List.leftpad, Nat.toDigits_ne_nil]
  digits := by
    simp only [exponentPart, Decimal.padded, List.leftpad, List.forall_mem_append]
    exact ⟨isDigit_replicate, isDigit_toDigits⟩

theorem exponentPart_value : sci.exponentPart.value = sci.exponent := by
  simp only [Exponent.value, exponentPart, ofDigitChars_padded]
  by_cases negative : sci.exponent < 0
  · rw [if_pos negative, if_pos rfl, Int.ofNat_natAbs_of_nonpos negative.le, Int.neg_neg]
  · simp only [if_neg negative]
    simp
    omega

theorem numeral_wellFormed (negative : Bool) : (sci.numeral negative).WellFormed := by
  have head (text rest : List Char) (zero : sci.first :: text = '0' :: rest) : rest = [] :=
    absurd (List.cons.inj zero).1 sci.first_ne_zero
  unfold numeral
  split_ifs with range small fits
  · refine ⟨by simp, by simp, by simp, ?_, by simp⟩
    simp only [List.forall_mem_append]
    exact ⟨isDigit_replicate, sci.isDigit_digits⟩
  · refine ⟨by simp [digits], fun rest => head _ rest, ?_, by simp, by simp⟩
    simp only [List.forall_mem_append]
    exact ⟨sci.isDigit_digits, isDigit_replicate⟩
  · refine ⟨?_, ?_, ?_, ?_, by simp⟩
    · simp [digits]
      omega
    · intro rest
      obtain ⟨count, positive⟩ : ∃ count, sci.point.toNat = count + 1 :=
        ⟨sci.point.toNat - 1, by omega⟩
      simp only [positive, digits, List.take_succ_cons]
      exact head _ rest
    · exact fun char isIn => sci.isDigit_digits char (List.mem_of_mem_take isIn)
    · exact fun char isIn => sci.isDigit_digits char (List.mem_of_mem_drop isIn)
  · refine ⟨by simp, fun rest => head _ rest, ?_, sci.rest_digits, ?_⟩
    · simpa using sci.first_digit
    · intro exponent is
      cases is
      exact sci.exponentPart_wellFormed

theorem numeral_magnitude (negative : Bool) : (sci.numeral negative).magnitude = sci.value := by
  unfold numeral value
  have ten : (10 : ℚ) ≠ 0 := by norm_num
  have length : (sci.digits.length : ℤ) = sci.rest.length + 1 := by simp [digits]
  split_ifs with range small fits
  · simp only [Numeral.magnitude, Option.map_none, Option.getD_none, List.cons_append,
      List.nil_append, List.length_append, List.length_replicate]
    have zeros : Nat.ofDigitChars 10
        ('0' :: (List.replicate (-sci.point).toNat '0' ++ sci.digits)) 0
        = Nat.ofDigitChars 10 sci.digits 0 := by
      simp [Nat.ofDigitChars_cons, Nat.ofDigitChars_append]
    rw [zeros]
    congr 2
    simp only [point] at small ⊢
    push_cast
    omega
  · simp only [Numeral.magnitude, Option.map_none, Option.getD_none, List.length_singleton]
    have zeros : Nat.ofDigitChars 10
        (sci.digits ++ List.replicate (sci.point.toNat - sci.digits.length) '0' ++ ['0']) 0
        = 10 ^ (sci.point.toNat - sci.digits.length + 1) * Nat.ofDigitChars 10 sci.digits 0 := by
      rw [List.append_assoc, ← List.replicate_succ', Nat.ofDigitChars_append,
        Nat.ofDigitChars_replicate_zero]
    rw [zeros, Nat.cast_mul, mul_comm (Nat.cast (R := ℚ) (10 ^ _)), mul_assoc, Nat.cast_pow,
      Nat.cast_ofNat, ← zpow_natCast, ← zpow_add₀ ten]
    congr 2
    simp only [point] at fits small ⊢
    push_cast [fits]
    omega
  · simp only [Numeral.magnitude, Option.map_none, Option.getD_none, List.take_append_drop,
      List.length_drop]
    congr 2
    simp only [point] at fits small ⊢
    omega
  · simp only [Numeral.magnitude, Option.map_some, Option.getD_some, exponentPart_value]
    rfl

end Scientific

theorem Scientific.numeral_value {sci : Scientific} {negative : Bool} {magnitude : Magnitude M}
    (rounds : FloatText.round sci.value = magnitude)
    : (sci.numeral negative).value (M := M) = .float (.signed negative magnitude) := by
  simp only [Numeral.value, if_pos (sci.numeral_isFloat negative), Numeral.parseF64,
    sci.numeral_negative, sci.numeral_magnitude, rounds]

/-- The numeral `0.0`. -/
def zeroNumeral (negative : Bool) : Numeral := ⟨negative, ['0'], ['0'], none⟩

theorem zeroNumeral_wellFormed (negative : Bool) : (zeroNumeral negative).WellFormed := by
  refine ⟨by simp [zeroNumeral], by simp [zeroNumeral], ?_, ?_, by simp [zeroNumeral]⟩ <;>
    simp [zeroNumeral]

theorem zeroNumeral_value (inverse : FloatText.Inverse M) (negative : Bool)
    : (zeroNumeral negative).value (M := M) = .float (.signed negative .zero) := by
  have zero : (zeroNumeral negative).magnitude = 0 := by
    simp [Numeral.magnitude, zeroNumeral, Nat.ofDigitChars]
  have isFloat : (zeroNumeral negative).isFloat := by simp [zeroNumeral, Numeral.isFloat]
  rw [Numeral.value, if_pos isFloat, Numeral.parseF64, zero, inverse.zero]
  rfl

theorem reads_int (value : I64) (rest : List Char)
    : Reads .plain (.value (.num (.int value) : Value M)) (intText value.1 ++ rest) rest := by
  have reads := @Reads.number M _ _ rest (intNumeral_wellFormed value.1)
  rwa [intNumeral_text, intNumeral_value_int] at reads

theorem reads_bigInt {value : ℤ} (range : ¬ (-2 ^ 63 ≤ value ∧ value < 2 ^ 63)) (rest : List Char)
    : Reads .plain (.value (.num (.bigInt (String.ofList (intText value))) : Value M))
        (intText value ++ rest) rest := by
  have reads := @Reads.number M _ _ rest (intNumeral_wellFormed value)
  rwa [intNumeral_text, intNumeral_value_bigInt range] at reads

theorem reads_infinite (negative : Bool) (rest : List Char)
    : Reads .plain (.value (.num (.float (.signed negative .infinite)) : Value M))
        ((if negative then ['-'] else []) ++ ['I', 'n', 'f', 'i', 'n', 'i', 't', 'y'] ++ rest)
        rest := by
  cases negative <;> exact .word (by simp [words])

theorem reads_zero (inverse : FloatText.Inverse M) (negative : Bool) (rest : List Char)
    : Reads .plain (.value (.num (.float (.signed negative .zero)) : Value M))
        ((if negative then ['-'] else []) ++ ['0', '.', '0'] ++ rest) rest := by
  have reads := @Reads.number M _ _ rest (zeroNumeral_wellFormed negative)
  rw [zeroNumeral_value inverse] at reads
  cases negative <;> exact reads

theorem reads_finite {sci : Scientific} {value : M} (negative : Bool)
    (rounds : FloatText.round sci.value = .finite value) (rest : List Char)
    : Reads .plain (.value (.num (.float (.signed negative (.finite value)))))
        ((sci.numeral negative).text ++ rest) rest := by
  have reads := @Reads.number M _ _ rest (sci.numeral_wellFormed negative)
  rwa [Scientific.numeral_value rounds] at reads

-- Strings

/-- The text is one of the character inside of a string. -/
def Spells (text : List Char) (char : Char) : Prop :=
  ∀ more chars rest, Content .plain more chars rest
    → Content .plain (text ++ more) (char :: chars) rest

theorem spells_self {char : Char} (quote : char ≠ '"') (backslash : char ≠ '\\')
    (control : 0x20 ≤ char.toNat)
    : Spells [char] char :=
  fun _ _ _ content => .char quote backslash control content

theorem spells_short {letter char : Char} (escape : shortEscape letter = some char)
    : Spells ['\\', letter] char :=
  fun _ _ _ content => .short escape content

theorem content_flatMap {spell : Char → List Char} (spells : ∀ char, Spells (spell char) char)
    (chars rest : List Char)
    : Content .plain (chars.flatMap spell ++ '"' :: rest) chars rest := by
  induction chars with
  | nil => exact .close
  | cons char chars ih =>
      rw [List.flatMap_cons, List.append_assoc]
      exact spells char _ _ _ ih

/-- The format `{:04x}`. -/
def hexText (unit : ℕ) : List Char := (Nat.toDigits 16 unit).leftpad 4 '0'

theorem hexDigit_digitChar {digit : ℕ} (small : digit < 16)
    : hexDigit digit.digitChar = some digit := by
  revert digit
  decide

theorem hexValue_append (first second : List Char) (value : ℕ)
    : hexValue (first ++ second) value = (hexValue first value).bind (hexValue second) := by
  induction first generalizing value with
  | nil => rfl
  | cons char first ih => simp [hexValue, ih, Option.bind_assoc]

theorem hexValue_toDigits (value : ℕ) : hexValue (Nat.toDigits 16 value) 0 = some value := by
  induction value using Nat.strongRecOn with
  | ind value ih =>
      obtain small | large := Nat.lt_or_ge value 16
      · rw [Nat.toDigits_of_lt_base small]
        simp [hexValue, hexDigit_digitChar small]
      · rw [Nat.toDigits_of_base_le (by decide) large, hexValue_append, ih _ (by omega)]
        simp only [Option.bind_some, hexValue, hexDigit_digitChar (Nat.mod_lt value (by decide))]
        congr 1
        omega

theorem hexValue_replicate (count : ℕ) : hexValue (List.replicate count '0') 0 = some 0 := by
  induction count with
  | zero => rfl
  | succ count ih =>
      rw [List.replicate_succ]
      simp only [hexValue]
      exact ih

theorem hex4_hexText {unit : ℕ} (small : unit < 0x10000) (rest : List Char)
    : Hex4 0 (hexText unit ++ rest) unit rest := by
  have short : (Nat.toDigits 16 unit).length ≤ 4 :=
    (Nat.length_toDigits_le_iff (by decide) (by decide)).mpr small
  have length : (hexText unit).length = 4 := by
    simp only [hexText, List.leftpad, List.length_append, List.length_replicate]
    omega
  have value : hexValue (hexText unit) 0 = some unit := by
    simp only [hexText, List.leftpad, hexValue_append, hexValue_replicate, Option.bind_some,
      hexValue_toDigits]
  obtain ⟨a, b, c, d, same⟩ : ∃ a b c d, hexText unit = [a, b, c, d] := by
    match hexText unit, length with
    | [a, b, c, d], _ => exact ⟨a, b, c, d, rfl⟩
  rw [same] at value ⊢
  exact .plain value

/-- `char::encode_utf16`. -/
def utf16 (char : Char) : List ℕ :=
  if char.toNat < 0x10000 then [char.toNat]
  else [0xD800 + (char.toNat - 0x10000) / 1024, 0xDC00 + (char.toNat - 0x10000) % 1024]

/-- The `\u` escapes of code units. -/
def unitsText (units : List ℕ) : List Char :=
  units.flatMap (fun unit => '\\' :: 'u' :: hexText unit)

theorem fromU32_toNat (char : Char) : fromU32 char.toNat = some char := by
  have valid : char.toNat.isValidChar := char.valid
  rw [fromU32, if_pos valid, Char.ofNat_toNat]

theorem join_plain : Marks.join ⟨0, 0, 0⟩ .plain = .plain := rfl

theorem spells_unit {char : Char} (small : char.toNat < 0x10000)
    : Spells (unitsText [char.toNat]) char := by
  intro more chars rest content
  have hex := hex4_hexText small more
  have escape := Content.escape (.unit hex (fromU32_toNat char)) content
  rw [join_plain] at escape
  simpa [unitsText] using escape

theorem isHigh_iff {unit : ℕ} : isHigh unit ↔ 0xD800 ≤ unit ∧ unit < 0xDC00 := by
  simp [isHigh]

theorem isLow_iff {unit : ℕ} : isLow unit ↔ 0xDC00 ≤ unit ∧ unit < 0xE000 := by
  simp [isLow]

theorem spells_surrogates {high low : ℕ} {char : Char} (high_range : isHigh high)
    (low_range : isLow low) (code : Char.ofNat (pairCode high low) = char)
    : Spells (unitsText [high, low]) char := by
  intro more chars rest content
  have high_small := (isHigh_iff.mp high_range).2
  have low_small := (isLow_iff.mp low_range).2
  have hex := hex4_hexText (show high < 0x10000 by omega) ('\\' :: 'u' :: (hexText low ++ more))
  have hex' := hex4_hexText (show low < 0x10000 by omega) more
  have escape := Content.escape (.pair hex high_range hex' low_range) content
  rw [join_plain, code] at escape
  simpa [unitsText] using escape

theorem spells_pair {char : Char} (large : 0x10000 ≤ char.toNat)
    : Spells (unitsText [0xD800 + (char.toNat - 0x10000) / 1024,
        0xDC00 + (char.toNat - 0x10000) % 1024]) char := by
  have bound : char.toNat < 0x110000 := by
    have valid : char.toNat.isValidChar := char.valid
    unfold Nat.isValidChar at valid
    omega
  have code : pairCode (0xD800 + (char.toNat - 0x10000) / 1024)
      (0xDC00 + (char.toNat - 0x10000) % 1024) = char.toNat := by
    unfold pairCode
    omega
  apply spells_surrogates
  · exact isHigh_iff.mpr (by omega)
  · exact isLow_iff.mpr (by omega)
  · rw [code, Char.ofNat_toNat]

theorem spells_utf16 (char : Char) : Spells (unitsText (utf16 char)) char := by
  unfold utf16
  split
  · rename_i small
    exact spells_unit small
  · rename_i large
    exact spells_pair (Nat.le_of_not_lt large)

-- Values

/-- A number that a text gives back: not `NaN`, and a big integer is the text of one. -/
def JsonNum.Canonical : JsonNum M → Prop
  | .int _ => True
  | .bigInt text =>
      ∃ value : ℤ, ¬ (-2 ^ 63 ≤ value ∧ value < 2 ^ 63) ∧ text = String.ofList (intText value)
  | .float .nan => False
  | .float (.signed _ _) => True

theorem reads_number (inverse : FloatText.Inverse M) {write : JsonNum M → List Char}
    {digits : M → Scientific}
    (rounds : ∀ value, FloatText.round (digits value).value = .finite value)
    (int : ∀ value, write (.int value) = intText value.1)
    (bigInt : ∀ text, write (.bigInt text) = text.toList)
    (zero : ∀ negative, write (.float (.signed negative .zero)) = (zeroNumeral negative).text)
    (finite : ∀ negative value, write (.float (.signed negative (.finite value)))
      = ((digits value).numeral negative).text)
    (infinite : ∀ negative, write (.float (.signed negative .infinite))
      = (if negative then ['-'] else []) ++ ['I', 'n', 'f', 'i', 'n', 'i', 't', 'y'])
    (num : JsonNum M) (canonical : num.Canonical) (rest : List Char)
    : Reads .plain (.value (.num num)) (write num ++ rest) rest := by
  cases num with
  | int value =>
      rw [int]
      exact reads_int value rest
  | bigInt text =>
      obtain ⟨value, range, rfl⟩ := canonical
      rw [bigInt, String.toList_ofList]
      exact reads_bigInt range rest
  | float value =>
      cases value with
      | nan => exact absurd canonical id
      | signed negative magnitude =>
          cases magnitude with
          | zero =>
              have reads := reads_zero inverse negative rest
              rw [zero]
              cases negative <;> exact reads
          | finite value =>
              rw [finite]
              exact reads_finite negative (rounds value) rest
          | infinite =>
              rw [infinite]
              exact reads_infinite negative rest

mutual

/-- How deep arrays and objects nest. -/
def Value.nesting : Value M → ℕ
  | .array items => nestingItems items + 1
  | .object fields => nestingFields fields + 1
  | _ => 0

def nestingItems : List (Value M) → ℕ
  | [] => 0
  | value :: rest => max value.nesting (nestingItems rest)

def nestingFields : List (String × Value M) → ℕ
  | [] => 0
  | (_, value) :: rest => max value.nesting (nestingFields rest)

end

mutual

/-- The numbers are canonical and the keys of each object are unique. -/
def Value.Canonical : Value M → Prop
  | .num number => number.Canonical
  | .array items => CanonicalItems items
  | .object fields => (fields.map Prod.fst).Nodup ∧ CanonicalFields fields
  | _ => True

def CanonicalItems : List (Value M) → Prop
  | [] => True
  | value :: rest => value.Canonical ∧ CanonicalItems rest

def CanonicalFields : List (String × Value M) → Prop
  | [] => True
  | (_, value) :: rest => value.Canonical ∧ CanonicalFields rest

end

/-- How a writer writes what is not an array or an object, and what it puts between the items of
one.
-/
structure Printer (M : Type) where
  item : List Char
  key : List Char
  spell : Char → List Char
  number : JsonNum M → List Char

namespace Printer

variable (printer : Printer M)

def string (text : String) : List Char := '"' :: (text.toList.flatMap printer.spell ++ ['"'])

mutual

/-- The text of a value. -/
def text : Value M → List Char
  | .null => ['n', 'u', 'l', 'l']
  | .bool true => ['t', 'r', 'u', 'e']
  | .bool false => ['f', 'a', 'l', 's', 'e']
  | .num number => printer.number number
  | .str text => printer.string text
  | .array items => '[' :: (itemsText 0 items ++ [']'])
  | .object fields => '{' :: (fieldsText 0 fields ++ ['}'])

/-- The texts of the items from an index on. -/
def itemsText : ℕ → List (Value M) → List Char
  | _, [] => []
  | index, value :: rest =>
      (if 0 < index then printer.item else []) ++ text value ++ itemsText (index + 1) rest

def fieldsText : ℕ → List (String × Value M) → List Char
  | _, [] => []
  | index, (key, value) :: rest =>
      (if 0 < index then printer.item else []) ++ printer.string key ++ printer.key ++ text value
        ++ fieldsText (index + 1) rest

end

/-- The mark with white space around it. -/
def Separates (text : List Char) (mark : Char) : Prop :=
  ∃ before after, text = before ++ mark :: after ∧ (∀ char ∈ before, isBlank char)
    ∧ ∀ char ∈ after, isBlank char

/-- What is asked of the parts. -/
structure Sound : Prop where
  item : Separates printer.item ','
  key : Separates printer.key ':'
  spells : ∀ char, Spells (printer.spell char) char
  number : ∀ number : JsonNum M, number.Canonical
    → ∀ rest, Reads .plain (.value (.num number)) (printer.number number ++ rest) rest

variable {printer}

omit [FloatText M] in
theorem itemsText_succ (index : ℕ) (items : List (Value M))
    : printer.itemsText (index + 1) items = printer.itemsText 1 items := by
  induction items generalizing index with
  | nil => rfl
  | cons value rest ih => simp [itemsText, ih (index + 1), ih 1]

omit [FloatText M] in
theorem itemsText_one (value : Value M) (rest : List (Value M))
    : printer.itemsText 1 (value :: rest)
      = printer.item ++ printer.itemsText 0 (value :: rest) := by
  simp [itemsText, itemsText_succ 1]

omit [FloatText M] in
theorem fieldsText_succ (index : ℕ) (fields : List (String × Value M))
    : printer.fieldsText (index + 1) fields = printer.fieldsText 1 fields := by
  induction fields generalizing index with
  | nil => rfl
  | cons field rest ih => simp [fieldsText, ih (index + 1), ih 1]

omit [FloatText M] in
theorem fieldsText_one (field : String × Value M) (rest : List (String × Value M))
    : printer.fieldsText 1 (field :: rest)
      = printer.item ++ printer.fieldsText 0 (field :: rest) := by
  simp [fieldsText, fieldsText_succ 1]

theorem blank_append {gap : List Char} (blanks : ∀ char ∈ gap, isBlank char) (rest : List Char)
    : Blank (gap ++ rest) rest := by
  induction gap with
  | nil => exact .done
  | cons char gap ih =>
      rw [List.forall_mem_cons] at blanks
      exact .skip blanks.1 (ih blanks.2)

theorem string_content (sound : printer.Sound) (text : String) (rest : List Char)
    : ∃ inner, printer.string text ++ rest = '"' :: inner ∧ Content .plain inner text.toList rest := by
  refine ⟨text.toList.flatMap printer.spell ++ '"' :: rest, by simp [string], ?_⟩
  exact content_flatMap sound.spells text.toList rest

omit [FloatText M] in
theorem objectOf_nodup {fields : List (String × Value M)} (nodup : (fields.map Prod.fst).Nodup)
    : objectOf [] fields = fields := by
  have insert_fresh (key : String) (value : Value M) (others : List (String × Value M))
      (fresh : key ∉ others.map Prod.fst)
      : Entries.insert key value others = others ++ [(key, value)] := by
    induction others with
    | nil => rfl
    | cons other others ih =>
        rw [List.map_cons, List.mem_cons, not_or] at fresh
        rw [Entries.insert, if_neg (Ne.symm fresh.1), ih fresh.2, List.cons_append]
  induction fields using List.reverseRecOn with
  | nil => rfl
  | append_singleton fields field ih =>
      rw [List.map_append, List.nodup_append] at nodup
      have same := ih nodup.1
      unfold objectOf at same ⊢
      rw [List.foldl_append, same]
      apply insert_fresh
      intro isIn
      exact nodup.2.2 _ isIn _ (by simp) rfl

mutual

/-- The numbers are read back from their texts and the keys of each object are unique. -/
def Readable (printer : Printer M) : Value M → Prop
  | .num number => ∀ rest, Reads .plain (.value (.num number)) (printer.number number ++ rest) rest
  | .array items => printer.ReadableItems items
  | .object fields => (fields.map Prod.fst).Nodup ∧ printer.ReadableFields fields
  | _ => True

def ReadableItems (printer : Printer M) : List (Value M) → Prop
  | [] => True
  | value :: rest => printer.Readable value ∧ printer.ReadableItems rest

def ReadableFields (printer : Printer M) : List (String × Value M) → Prop
  | [] => True
  | (_, value) :: rest => printer.Readable value ∧ printer.ReadableFields rest

end

mutual

theorem readable_of_canonical (sound : printer.Sound) (value : Value M)
    (canonical : value.Canonical)
    : printer.Readable value := by
  cases value with
  | null => trivial
  | bool value => trivial
  | num number => exact sound.number number canonical
  | str text => trivial
  | array items => exact readableItems_of_canonical sound items canonical
  | object fields => exact ⟨canonical.1, readableFields_of_canonical sound fields canonical.2⟩

theorem readableItems_of_canonical (sound : printer.Sound) (items : List (Value M))
    (canonical : CanonicalItems items)
    : printer.ReadableItems items := by
  cases items with
  | nil => trivial
  | cons value rest =>
      exact ⟨readable_of_canonical sound value canonical.1,
        readableItems_of_canonical sound rest canonical.2⟩

theorem readableFields_of_canonical (sound : printer.Sound) (fields : List (String × Value M))
    (canonical : CanonicalFields fields)
    : printer.ReadableFields fields := by
  cases fields with
  | nil => trivial
  | cons field rest =>
      exact ⟨readable_of_canonical sound field.2 canonical.1,
        readableFields_of_canonical sound rest canonical.2⟩

end

mutual

theorem text_reads (sound : printer.Sound) (value : Value M) (readable : printer.Readable value)
    (rest : List Char)
    : Reads ⟨value.nesting, 0, 0⟩ (.value value) (printer.text value ++ rest) rest := by
  cases value with
  | null =>
      rw [Printer.text]
      exact .word (by simp [words])
  | bool value =>
      cases value with
      | false =>
          rw [Printer.text]
          exact .word (by simp [words])
      | true =>
          rw [Printer.text]
          exact .word (by simp [words])
  | num number => exact readable rest
  | str text =>
      obtain ⟨inner, same, content⟩ := string_content sound text rest
      have reads := Reads.string (M := M) content
      rw [String.ofList_toList] at reads
      rw [Printer.text, same]
      exact reads
  | array items =>
      cases items with
      | nil => exact .emptyArray .done
      | cons first more =>
          have reads := items_reads sound (first :: more) (by simp) readable rest
          have whole := Reads.array .done reads
          simpa [Printer.text, Value.nesting, Marks.nest] using whole
  | object fields =>
      cases fields with
      | nil => exact .emptyObject .done
      | cons first more =>
          have reads := fields_reads sound (first :: more) (by simp) readable.2 rest
          have whole := Reads.object .done reads
          rw [objectOf_nodup readable.1] at whole
          simpa [Printer.text, Value.nesting, Marks.nest] using whole

theorem items_reads (sound : printer.Sound) (items : List (Value M)) (nonempty : items ≠ [])
    (readable : printer.ReadableItems items) (rest : List Char)
    : Reads ⟨nestingItems items, 0, 0⟩ (.items items)
        (printer.itemsText 0 items ++ ']' :: rest) rest := by
  cases items with
  | nil => exact absurd rfl nonempty
  | cons value more =>
      cases more with
      | nil =>
          have reads := text_reads sound value readable.1 (']' :: rest)
          have whole := Reads.lastItem reads .done
          simpa [itemsText, nestingItems] using whole
      | cons next others =>
          obtain ⟨before, after, item, blankBefore, blankAfter⟩ := sound.item
          have later := items_reads sound (next :: others) (by simp) readable.2 rest
          have reads := text_reads sound value readable.1
            (printer.itemsText 1 (next :: others) ++ ']' :: rest)
          have comma := blank_append blankBefore
            (',' :: (after ++ (printer.itemsText 0 (next :: others) ++ ']' :: rest)))
          have same : printer.itemsText 1 (next :: others) ++ ']' :: rest
              = before ++ (',' :: (after ++ (printer.itemsText 0 (next :: others)
                ++ ']' :: rest))) := by
            simp [itemsText_one, item]
          rw [← same] at comma
          have whole := Reads.nextItem reads comma (blank_append blankAfter _) later
          simpa [itemsText, nestingItems, Marks.join] using whole

theorem fields_reads (sound : printer.Sound) (fields : List (String × Value M))
    (nonempty : fields ≠ []) (readable : printer.ReadableFields fields) (rest : List Char)
    : Reads ⟨nestingFields fields, 0, 0⟩ (.members fields)
        (printer.fieldsText 0 fields ++ '}' :: rest) rest := by
  cases fields with
  | nil => exact absurd rfl nonempty
  | cons field more =>
      obtain ⟨key, value⟩ := field
      obtain ⟨before, after, colonText, blankBefore, blankAfter⟩ := sound.key
      cases more with
      | nil =>
          have reads := text_reads sound value readable.1 ('}' :: rest)
          have colon := blank_append blankBefore
            (':' :: (after ++ (printer.text value ++ '}' :: rest)))
          obtain ⟨inner, same, content⟩ := string_content sound key
            (before ++ ':' :: (after ++ (printer.text value ++ '}' :: rest)))
          have whole := Reads.lastMember content colon (blank_append blankAfter _) reads .done
          rw [← same, String.ofList_toList] at whole
          simpa [fieldsText, nestingFields, colonText, Marks.join, Marks.plain] using whole
      | cons next others =>
          obtain ⟨before', after', item, blankBefore', blankAfter'⟩ := sound.item
          have later := fields_reads sound (next :: others) (by simp) readable.2 rest
          have reads := text_reads sound value readable.1
            (printer.fieldsText 1 (next :: others) ++ '}' :: rest)
          have comma := blank_append blankBefore'
            (',' :: (after' ++ (printer.fieldsText 0 (next :: others) ++ '}' :: rest)))
          have same : printer.fieldsText 1 (next :: others) ++ '}' :: rest
              = before' ++ (',' :: (after' ++ (printer.fieldsText 0 (next :: others)
                ++ '}' :: rest))) := by
            simp [fieldsText_one, item]
          rw [← same] at comma
          have colon := blank_append blankBefore
            (':' :: (after ++ (printer.text value ++ (printer.fieldsText 1 (next :: others)
              ++ '}' :: rest))))
          obtain ⟨inner, keyText, content⟩ := string_content sound key
            (before ++ ':' :: (after ++ (printer.text value
              ++ (printer.fieldsText 1 (next :: others) ++ '}' :: rest))))
          have whole := Reads.nextMember content colon (blank_append blankAfter _) reads comma
            (blank_append blankAfter' _) later
          rw [← keyText, String.ofList_toList] at whole
          simpa [fieldsText, nestingFields, colonText, Marks.join, Marks.plain] using whole

end

end Printer

end MokuroBunko.Lib.Json
