import MokuroBunko.Lib.Json.Writing

/-! Decimals with the same text, and printers that differ in how they write numbers: when they give
the same text.
-/

namespace MokuroBunko.Lib.Json

-- Decimals

theorem ofDigitChars_inj {first second : List Char} (length : first.length = second.length)
    (digits : ∀ char ∈ first, char.isDigit) (digitsToo : ∀ char ∈ second, char.isDigit)
    (same : Nat.ofDigitChars 10 first 0 = Nat.ofDigitChars 10 second 0)
    : first = second := by
  induction first using List.reverseRecOn generalizing second with
  | nil => exact (List.length_eq_zero_iff.mp length.symm).symm
  | append_singleton first last ih =>
      obtain rfl | ⟨others, final, rfl⟩ := List.eq_nil_or_concat' second
      · simp at length
      · rw [List.forall_mem_append] at digits digitsToo
        have bound := Char.isDigit_iff_toNat.mp (digits.2 last List.mem_cons_self)
        have boundToo := Char.isDigit_iff_toNat.mp (digitsToo.2 final List.mem_cons_self)
        simp only [Nat.ofDigitChars_append, Nat.ofDigitChars_cons, Nat.ofDigitChars_nil] at same
        simp only [List.length_append, List.length_singleton, Nat.add_right_cancel_iff] at length
        have zero : '0'.toNat = 48 := rfl
        have nine : '9'.toNat = 57 := rfl
        rw [zero] at same
        have heads := ih length digits.1 digitsToo.1 (by omega)
        have lasts : last.toNat = final.toNat := by omega
        rw [heads, Char.toNat_inj.mp lasts]

namespace Scientific

theorem ofDigitChars_lt {digits : List Char} (all : ∀ char ∈ digits, char.isDigit)
    : Nat.ofDigitChars 10 digits 0 < 10 ^ digits.length := by
  induction digits using List.reverseRecOn with
  | nil => simp
  | append_singleton first last ih =>
      rw [List.forall_mem_append] at all
      have bound := Char.isDigit_iff_toNat.mp (all.2 last List.mem_cons_self)
      have small := ih all.1
      simp only [Nat.ofDigitChars_append, Nat.ofDigitChars_cons, Nat.ofDigitChars_nil,
        List.length_append, List.length_singleton, Nat.pow_succ]
      have zero : '0'.toNat = 48 := rfl
      have nine : '9'.toNat = 57 := rfl
      omega

theorem le_ofDigitChars (sci : Scientific)
    : 10 ^ sci.rest.length ≤ Nat.ofDigitChars 10 sci.digits 0 := by
  have bound := Char.isDigit_iff_toNat.mp sci.first_digit
  have zero : '0'.toNat = 48 := rfl
  have other : sci.first.toNat ≠ 48 := fun same => sci.first_ne_zero (Char.toNat_inj.mp same)
  have positive : 1 ≤ sci.first.toNat - 48 := by omega
  rw [digits, Nat.ofDigitChars_cons, Nat.ofDigitChars_eq_ofDigitChars_zero, zero]
  calc 10 ^ sci.rest.length
      = 10 ^ sci.rest.length * 1 := (Nat.mul_one _).symm
    _ ≤ 10 ^ sci.rest.length * (10 * 0 + (sci.first.toNat - 48)) :=
        Nat.mul_le_mul_left _ (by omega)
    _ ≤ _ := Nat.le_add_right _ _

theorem exponent_le {first second : Scientific} (length : first.rest.length = second.rest.length)
    (same : first.value = second.value)
    : first.exponent ≤ second.exponent := by
  by_contra greater
  have ten : (10 : ℚ) ≠ 0 := by norm_num
  have apart : first.exponent - first.rest.length
      = (second.exponent - second.rest.length) + (first.exponent - second.exponent) := by
    rw [length]
    ring
  obtain ⟨more, isMore⟩ := Int.le.dest (show 1 ≤ first.exponent - second.exponent by omega)
  have scaled : (Nat.ofDigitChars 10 first.digits 0 : ℚ) * 10 ^ (1 + more)
      = Nat.ofDigitChars 10 second.digits 0 := by
    have positive : (10 : ℚ) ^ (second.exponent - second.rest.length) ≠ 0 := zpow_ne_zero _ ten
    rw [value, value, apart, zpow_add₀ ten, ← mul_assoc, mul_right_comm] at same
    have cancelled := mul_right_cancel₀ positive same
    rw [← isMore] at cancelled
    exact_mod_cast cancelled
  have natural : Nat.ofDigitChars 10 first.digits 0 * 10 ^ (1 + more)
      = Nat.ofDigitChars 10 second.digits 0 := by exact_mod_cast scaled
  have low := first.le_ofDigitChars
  have high := ofDigitChars_lt second.isDigit_digits
  have ten_le : 10 ^ 1 ≤ 10 ^ (1 + more) := Nat.pow_le_pow_right (by decide) (by omega)
  have large := Nat.mul_le_mul low ten_le
  rw [natural, length] at large
  have count : second.digits.length = second.rest.length + 1 := rfl
  rw [count, Nat.pow_succ] at high
  omega

theorem eq_of_value {first second : Scientific} (length : first.rest.length = second.rest.length)
    (same : first.value = second.value)
    : first = second := by
  have exponent : first.exponent = second.exponent :=
    le_antisymm (exponent_le length same) (exponent_le length.symm same.symm)
  have positive : (10 : ℚ) ^ (second.exponent - second.rest.length) ≠ 0 :=
    zpow_ne_zero _ (by norm_num)
  rw [value, value, length, exponent] at same
  have number : Nat.ofDigitChars 10 first.digits 0 = Nat.ofDigitChars 10 second.digits 0 := by
    exact_mod_cast mul_right_cancel₀ positive same
  have digits := ofDigitChars_inj (by simp [digits, length]) first.isDigit_digits
    second.isDigit_digits number
  obtain ⟨head, tail⟩ := List.cons.inj digits
  cases first
  cases second
  cases head
  cases tail
  cases exponent
  rfl

theorem eq_of_plainText {first second : Scientific}
    (length : first.rest.length = second.rest.length) (same : first.plainText = second.plainText)
    : first = second := by
  have text : (first.numeral false).text = (second.numeral false).text := by
    rw [numeral_text, numeral_text, same]
  have ends : EndsNumber [] := by simp [EndsNumber]
  have scanned := scanNumeral_complete (first.numeral_wellFormed false) ends
  rw [text, scanNumeral_complete (second.numeral_wellFormed false) ends] at scanned
  have numeral := (Prod.mk.inj (Option.some.inj scanned)).1
  apply eq_of_value length
  rw [← numeral_magnitude first false, ← numeral_magnitude second false, numeral]

end Scientific
-- Printers

variable {M : Type}

mutual

/-- Every number of the value is as asked. -/
def Value.EachNumber (ask : JsonNum M → Prop) : Value M → Prop
  | .num number => ask number
  | .array items => EachNumberOfItems ask items
  | .object fields => EachNumberOfFields ask fields
  | _ => True

def EachNumberOfItems (ask : JsonNum M → Prop) : List (Value M) → Prop
  | [] => True
  | value :: rest => value.EachNumber ask ∧ EachNumberOfItems ask rest

def EachNumberOfFields (ask : JsonNum M → Prop) : List (String × Value M) → Prop
  | [] => True
  | (_, value) :: rest => value.EachNumber ask ∧ EachNumberOfFields ask rest

end

mutual

theorem Value.EachNumber.mono {ask weaker : JsonNum M → Prop} {value : Value M}
    (each : value.EachNumber ask) (implies : ∀ number, ask number → weaker number)
    : value.EachNumber weaker := by
  cases value with
  | num number => exact implies number each
  | array items => exact eachItem_mono each implies
  | object fields => exact eachField_mono each implies
  | null => trivial
  | bool => trivial
  | str => trivial

theorem eachItem_mono {ask weaker : JsonNum M → Prop} {items : List (Value M)}
    (each : EachNumberOfItems ask items) (implies : ∀ number, ask number → weaker number)
    : EachNumberOfItems weaker items := by
  cases items with
  | nil => trivial
  | cons value rest =>
      exact ⟨Value.EachNumber.mono each.1 implies, eachItem_mono each.2 implies⟩

theorem eachField_mono {ask weaker : JsonNum M → Prop} {fields : List (String × Value M)}
    (each : EachNumberOfFields ask fields) (implies : ∀ number, ask number → weaker number)
    : EachNumberOfFields weaker fields := by
  cases fields with
  | nil => trivial
  | cons field rest =>
      obtain ⟨key, value⟩ := field
      exact ⟨Value.EachNumber.mono each.1 implies, eachField_mono each.2 implies⟩

end

mutual

theorem Value.eachNumber {ask : JsonNum M → Prop} (all : ∀ number, ask number) (value : Value M)
    : value.EachNumber ask := by
  cases value with
  | num number => exact all number
  | array items => exact eachItem all items
  | object fields => exact eachField all fields
  | null => trivial
  | bool => trivial
  | str => trivial

theorem eachItem {ask : JsonNum M → Prop} (all : ∀ number, ask number) (items : List (Value M))
    : EachNumberOfItems ask items := by
  cases items with
  | nil => trivial
  | cons value rest => exact ⟨Value.eachNumber all value, eachItem all rest⟩

theorem eachField {ask : JsonNum M → Prop} (all : ∀ number, ask number)
    (fields : List (String × Value M))
    : EachNumberOfFields ask fields := by
  cases fields with
  | nil => trivial
  | cons field rest => exact ⟨Value.eachNumber all field.2, eachField all rest⟩

end

namespace Printer

/-- Printers that differ in nothing but how they write numbers. -/
structure Alike (first second : Printer M) : Prop where
  item : first.item = second.item
  key : first.key = second.key
  spell : first.spell = second.spell

variable {first second : Printer M}

theorem Alike.string (alike : Alike first second) (text : String)
    : first.string text = second.string text := by
  rw [Printer.string, Printer.string, alike.spell]

mutual

theorem Alike.text {value : Value M} (alike : Alike first second)
    (each : value.EachNumber fun number => first.number number = second.number number)
    : first.text value = second.text value := by
  cases value with
  | null => simp [Printer.text]
  | bool value => cases value <;> simp [Printer.text]
  | num number =>
      rw [Printer.text, Printer.text]
      exact each
  | str text => rw [Printer.text, Printer.text, alike.string]
  | array items => rw [Printer.text, Printer.text, alike.itemsText each 0]
  | object fields => rw [Printer.text, Printer.text, alike.fieldsText each 0]

theorem Alike.itemsText {items : List (Value M)} (alike : Alike first second)
    (each : EachNumberOfItems (fun number => first.number number = second.number number) items)
    (index : ℕ)
    : first.itemsText index items = second.itemsText index items := by
  cases items with
  | nil => rw [Printer.itemsText, Printer.itemsText]
  | cons value rest =>
      rw [Printer.itemsText, Printer.itemsText, alike.item, alike.text each.1,
        alike.itemsText each.2 (index + 1)]

theorem Alike.fieldsText {fields : List (String × Value M)} (alike : Alike first second)
    (each : EachNumberOfFields (fun number => first.number number = second.number number) fields)
    (index : ℕ)
    : first.fieldsText index fields = second.fieldsText index fields := by
  cases fields with
  | nil => rw [Printer.fieldsText, Printer.fieldsText]
  | cons field rest =>
      obtain ⟨key, value⟩ := field
      rw [Printer.fieldsText, Printer.fieldsText, alike.item, alike.key, alike.string,
        alike.text each.1, alike.fieldsText each.2 (index + 1)]

end

-- Numbers told apart by their texts

/-- The characters of a number's text. -/
def isNumeric (char : Char) : Bool :=
  char.isDigit || char = '.' || char = 'e' || char = 'E' || char = '+' || char = '-'

theorem isNumeric_digits {digits : List Char} (all : ∀ char ∈ digits, char.isDigit)
    : ∀ char ∈ digits, isNumeric char := by
  intro char isIn
  simp [isNumeric, all char isIn]

theorem isNumeric_exponent {exponent : Exponent} (wellFormed : exponent.WellFormed)
    : ∀ char ∈ exponent.text, isNumeric char := by
  have digits := isNumeric_digits wellFormed.digits
  simp only [Exponent.text, List.cons_append, List.forall_mem_cons, List.forall_mem_append]
  refine ⟨?_, ?_, digits⟩
  · rcases wellFormed.letter with letter | letter <;> simp [letter, isNumeric]
  · rcases wellFormed.sign with sign | sign | sign <;> simp [sign, isNumeric]

theorem isNumeric_text {numeral : Numeral} (wellFormed : numeral.WellFormed)
    : ∀ char ∈ numeral.text, isNumeric char := by
  have whole := isNumeric_digits wellFormed.whole
  have fraction := isNumeric_digits wellFormed.fraction
  simp only [Numeral.text, Numeral.signText, Numeral.fractionText, Numeral.exponentText,
    List.forall_mem_append]
  refine ⟨⟨⟨?_, whole⟩, ?_⟩, ?_⟩
  · split <;> simp [isNumeric]
  · split
    · simp
    · rw [List.forall_mem_cons]
      exact ⟨rfl, fraction⟩
  · cases shown : numeral.exponent with
    | none => simp
    | some exponent => exact isNumeric_exponent (wellFormed.exponent exponent shown)

/-- A text that does not go on as a number. -/
def Stops (text : List Char) : Prop := ∀ char ∈ text.head?, isNumeric char = false

/-- The printers write the number alike, or both in the characters of numbers. -/
def Told (first second : Printer M) (number : JsonNum M) : Prop :=
  first.number number = second.number number
    ∨ (∀ char ∈ first.number number, isNumeric char)
      ∧ ∀ char ∈ second.number number, isNumeric char

theorem stops_cons {char : Char} (other : isNumeric char = false) (rest : List Char)
    : Stops (char :: rest) := by
  rintro head ⟨⟩
  exact other

theorem takeWhile_numeric {text rest : List Char} (all : ∀ char ∈ text, isNumeric char)
    (stops : Stops rest)
    : (text ++ rest).takeWhile isNumeric = text := by
  have none : rest.takeWhile isNumeric = [] := by
    cases rest with
    | nil => rfl
    | cons head rest => exact List.takeWhile_cons_of_neg (by simp [stops head rfl])
  rw [List.takeWhile_append_of_pos all, none, List.append_nil]

theorem Told.cancel {number : JsonNum M} (told : Told first second number) {rest more : List Char}
    (stops : Stops rest) (stopsToo : Stops more)
    (same : first.number number ++ rest = second.number number ++ more)
    : first.number number = second.number number ∧ rest = more := by
  rcases told with alike | ⟨all, allToo⟩
  · rw [alike] at same
    exact ⟨alike, List.append_cancel_left same⟩
  · have alike : first.number number = second.number number := by
      rw [← takeWhile_numeric all stops, same, takeWhile_numeric allToo stopsToo]
    rw [alike] at same
    exact ⟨alike, List.append_cancel_left same⟩

mutual

theorem Alike.text_cancel {value : Value M} (alike : Alike first second)
    (item : first.item = [',']) (told : value.EachNumber (Told first second))
    {rest more : List Char} (stops : Stops rest) (stopsToo : Stops more)
    (same : first.text value ++ rest = second.text value ++ more)
    : (value.EachNumber fun number => first.number number = second.number number) ∧ rest = more := by
  cases value with
  | null =>
      rw [Printer.text, Printer.text] at same
      exact ⟨trivial, List.append_cancel_left same⟩
  | bool value =>
      refine ⟨trivial, ?_⟩
      cases value <;>
      · rw [Printer.text, Printer.text] at same
        exact List.append_cancel_left same
  | num number =>
      rw [Printer.text, Printer.text] at same
      exact Told.cancel told stops stopsToo same
  | str text =>
      rw [Printer.text, Printer.text, alike.string] at same
      exact ⟨trivial, List.append_cancel_left same⟩
  | array items =>
      rw [Printer.text, Printer.text, List.cons_append, List.cons_append, List.cons.injEq,
        List.append_assoc, List.append_assoc] at same
      obtain ⟨each, closed⟩ := alike.items_cancel item told 0 (stops_cons (by decide) _)
        (stops_cons (by decide) _) same.2
      exact ⟨each, (List.cons.inj closed).2⟩
  | object fields =>
      rw [Printer.text, Printer.text, List.cons_append, List.cons_append, List.cons.injEq,
        List.append_assoc, List.append_assoc] at same
      obtain ⟨each, closed⟩ := alike.fields_cancel item told 0 (stops_cons (by decide) _)
        (stops_cons (by decide) _) same.2
      exact ⟨each, (List.cons.inj closed).2⟩

theorem Alike.items_cancel {items : List (Value M)} (alike : Alike first second)
    (item : first.item = [',']) (told : EachNumberOfItems (Told first second) items) (index : ℕ)
    {rest more : List Char} (stops : Stops rest) (stopsToo : Stops more)
    (same : first.itemsText index items ++ rest = second.itemsText index items ++ more)
    : EachNumberOfItems (fun number => first.number number = second.number number) items
      ∧ rest = more := by
  cases items with
  | nil =>
      rw [Printer.itemsText, Printer.itemsText] at same
      exact ⟨trivial, same⟩
  | cons value later =>
      have stop (printer : Printer M) (separated : printer.item = [',']) (after : List Char)
          (stopped : Stops after)
          : Stops (printer.itemsText (index + 1) later ++ after) := by
        cases later with
        | nil => rwa [Printer.itemsText]
        | cons next more =>
            rw [Printer.itemsText, if_pos (Nat.succ_pos index), separated]
            exact stops_cons (by decide) _
      rw [Printer.itemsText, Printer.itemsText, alike.item] at same
      simp only [List.append_assoc] at same
      obtain ⟨head, tail⟩ := alike.text_cancel item told.1 (stop first item rest stops)
        (stop second (alike.item ▸ item) more stopsToo) (List.append_cancel_left same)
      obtain ⟨others, closed⟩ := alike.items_cancel item told.2 (index + 1) stops stopsToo tail
      exact ⟨⟨head, others⟩, closed⟩

theorem Alike.fields_cancel {fields : List (String × Value M)} (alike : Alike first second)
    (item : first.item = [',']) (told : EachNumberOfFields (Told first second) fields) (index : ℕ)
    {rest more : List Char} (stops : Stops rest) (stopsToo : Stops more)
    (same : first.fieldsText index fields ++ rest = second.fieldsText index fields ++ more)
    : EachNumberOfFields (fun number => first.number number = second.number number) fields
      ∧ rest = more := by
  cases fields with
  | nil =>
      rw [Printer.fieldsText, Printer.fieldsText] at same
      exact ⟨trivial, same⟩
  | cons field later =>
      obtain ⟨key, value⟩ := field
      have stop (printer : Printer M) (separated : printer.item = [',']) (after : List Char)
          (stopped : Stops after)
          : Stops (printer.fieldsText (index + 1) later ++ after) := by
        cases later with
        | nil => rwa [Printer.fieldsText]
        | cons next more =>
            obtain ⟨nextKey, next⟩ := next
            rw [Printer.fieldsText, if_pos (Nat.succ_pos index), separated]
            exact stops_cons (by decide) _
      rw [Printer.fieldsText, Printer.fieldsText, alike.item, alike.key, alike.string] at same
      simp only [List.append_assoc] at same
      obtain ⟨head, tail⟩ := alike.text_cancel item told.1 (stop first item rest stops)
        (stop second (alike.item ▸ item) more stopsToo)
        (List.append_cancel_left (List.append_cancel_left (List.append_cancel_left same)))
      obtain ⟨others, closed⟩ := alike.fields_cancel item told.2 (index + 1) stops stopsToo tail
      exact ⟨⟨head, others⟩, closed⟩

end

end Printer

end MokuroBunko.Lib.Json
