import MokuroBunko.Db.PyFmt
import MokuroBunko.Layout.JsonWriter
import MokuroBunko.Library.PyJsonWriter

/-! The three JSON writers of the program beside Python's: on which values their texts are the same.
-/

namespace MokuroBunko.Library

open MokuroBunko.Lib MokuroBunko.Lib.Json
open Db.PyFmt (SerdeValue JsonStyle)

variable {M : Type} [FloatText M]

-- Python's writer

namespace Python

/-- The letters of the short escapes. -/
def named : Char → Option Char
  | '"' => some '"'
  | '\\' => some '\\'
  | '\n' => some 'n'
  | '\r' => some 'r'
  | '\t' => some 't'
  | '\x08' => some 'b'
  | '\x0c' => some 'f'
  | _ => none

def spell (ensureAscii : Bool) (char : Char) : List Char :=
  match named char with
  | some letter => ['\\', letter]
  | none =>
      if char.toNat < 0x20 ∨ ensureAscii ∧ 0x7e < char.toNat then unitsText (utf16 char)
      else [char]

/-- The digits of `float.__repr__`: as few as read back, and of these the nearest to the value. -/
def digits (value : M) : Scientific :=
  let shortest := FloatText.shortest value
  let nearest := FloatText.nearest value shortest.rest.length
  if FloatText.round nearest.value = Magnitude.finite value then nearest else shortest

def number : JsonNum M → List Char
  | .int value => intText value
  | .bigInt text => text.toList
  | .float .nan => ['N', 'a', 'N']
  | .float (.signed negative .infinite) =>
      (if negative then ['-'] else []) ++ ['I', 'n', 'f', 'i', 'n', 'i', 't', 'y']
  | .float (.signed negative .zero) => (zeroNumeral negative).text
  | .float (.signed negative (.finite value)) => ((digits value).numeral negative).text

def printer (ensureAscii : Bool) (item key : List Char) : Printer M where
  item := item
  key := key
  spell := spell ensureAscii
  number := number

/-- `json.dumps(value, ensure_ascii=..., separators=(item, key))`. -/
def dumps (value : Value M) (ensureAscii : Bool) (item key : List Char) : String :=
  String.ofList ((printer ensureAscii item key).text value)

end Python

def JsonNum.Finite : JsonNum M → Prop
  | .float .nan => False
  | .float (.signed _ .infinite) => False
  | _ => True

/-- Each writer that can hold the value writes what Python does, with any of its options. -/
structure Agree (value : Value M) : Prop where
  layout : ∀ sep, Layout.Json.dumps value sep = Python.dumps value false sep.item sep.key
  library : ∀ options, PyJson.dumps value options
    = .ok (Python.dumps value options.ensureAscii options.itemSeparator options.keySeparator)
  db : ∀ row : SerdeValue M, row.toValue = value → ∀ style, Db.PyFmt.dumps row style
    = Python.dumps value style.ensureAscii style.itemSeparator style.keySeparator

/-- Where the nearest of the decimals as long as the shortest reads back, it is the shortest. -/
def PicksNearest (number : JsonNum M) : Prop :=
  match number with
  | .float (.signed _ (.finite value)) =>
      let shortest := FloatText.shortest value
      let nearest := FloatText.nearest value shortest.rest.length
      FloatText.round nearest.value = Magnitude.finite value → nearest = shortest
  | _ => True

-- Characters

namespace Python

theorem unitsText_control {char : Char} (control : char.toNat < 0x20)
    : unitsText (utf16 char) = '\\' :: 'u' :: hexText char.toNat := by
  have small : char.toNat < 0x10000 := by omega
  rw [utf16, if_pos small]
  simp [unitsText]

theorem db_writeChar (ensureAscii : Bool) : Db.PyFmt.writeChar ensureAscii = spell ensureAscii := by
  funext char
  unfold Db.PyFmt.writeChar spell named
  split
  case h_8 =>
    by_cases control : char.toNat < 0x20
    · simp only [if_pos control, if_pos (Or.inl control), unitsText_control control]
    · simp only [control, false_or, if_false]
  all_goals rfl

theorem printable_iff (char : Char)
    : (' ' ≤ char ∧ char ≤ '~') ↔ 0x20 ≤ char.toNat ∧ char.toNat ≤ 0x7e :=
  Iff.rfl

theorem library_writeChar (ensureAscii : Bool)
    : PyJson.writeChar ensureAscii = spell ensureAscii := by
  funext char
  unfold PyJson.writeChar spell named
  split
  case h_8 =>
    by_cases control : char.toNat < 0x20
    · simp only [if_pos control, if_pos (Or.inl control), unitsText_control control]
    · have outside : ¬ (' ' ≤ char ∧ char ≤ '~') ↔ 0x7e < char.toNat := by
        rw [printable_iff]
        omega
      simp only [control, false_or, if_false, outside]
  all_goals rfl

theorem layout_writeChar : Layout.Json.writeChar = spell false := by
  funext char
  unfold Layout.Json.writeChar spell named
  split
  case h_8 =>
    by_cases control : char.toNat < 0x20
    · simp only [if_pos control, if_pos (Or.inl control), unitsText_control control]
    · simp [control]
  all_goals rfl

-- Numbers

theorem layout_number (num : JsonNum M) : Layout.Json.numberText num = number num := by
  cases num with
  | int value => rfl
  | bigInt text => rfl
  | float value =>
      cases value with
      | nan => rfl
      | signed negative magnitude =>
          cases magnitude with
          | zero => cases negative <;> rfl
          | finite value =>
              have finite := Layout.Json.floatRepr_finite negative value
              cases negative <;> exact finite
          | infinite => cases negative <;> rfl

theorem library_number (num : JsonNum M) : PyJson.numberText num = number num := by
  cases num with
  | int value => rfl
  | bigInt text => rfl
  | float value =>
      cases value with
      | nan => rfl
      | signed negative magnitude =>
          cases magnitude with
          | zero => cases negative <;> rfl
          | finite value => exact PyJson.floatRepr_finite negative value
          | infinite => cases negative <;> rfl

theorem db_number {num : JsonNum M} (picks : PicksNearest num)
    : Db.PyFmt.numberText num = number num := by
  cases num with
  | int value => rfl
  | bigInt text => rfl
  | float value =>
      cases value with
      | nan => rfl
      | signed negative magnitude =>
          cases magnitude with
          | zero => exact Db.PyFmt.floatRepr_zero negative
          | finite value =>
              have same : digits value = FloatText.shortest value := by
                unfold digits
                dsimp only
                split
                · rename_i reads
                  exact picks reads
                · rfl
              rw [Db.PyFmt.numberText, Db.PyFmt.floatRepr_finite, number, same]
          | infinite => cases negative <;> rfl

theorem picksNearest_of_eq (counts : ∀ (value : M) (count : ℕ),
      (FloatText.nearest value count).rest.length = count)
    {num : JsonNum M} (same : Db.PyFmt.numberText num = number num)
    : PicksNearest num := by
  cases num with
  | int value => trivial
  | bigInt text => trivial
  | float value =>
      cases value with
      | nan => trivial
      | signed negative magnitude =>
          cases magnitude with
          | zero => trivial
          | finite value =>
              intro reads
              rw [Db.PyFmt.numberText, Db.PyFmt.floatRepr_finite, number, digits] at same
              rw [if_pos reads, Scientific.numeral_text, Scientific.numeral_text] at same
              exact (Scientific.eq_of_plainText (counts value _).symm
                (List.append_cancel_left same)).symm
          | infinite => trivial

theorem told (num : JsonNum M) (ensureAscii : Bool) (item key : List Char) (style : JsonStyle)
    : Printer.Told (Db.PyFmt.printer style) (printer ensureAscii item key) num := by
  cases num with
  | int value => exact .inl rfl
  | bigInt text => exact .inl rfl
  | float value =>
      cases value with
      | nan => exact .inl rfl
      | signed negative magnitude =>
          cases magnitude with
          | zero => exact .inl (Db.PyFmt.floatRepr_zero negative)
          | finite value =>
              have text := Db.PyFmt.floatRepr_finite negative value
              refine .inr ⟨?_, Printer.isNumeric_text ((digits value).numeral_wellFormed negative)⟩
              have numeric := Printer.isNumeric_text
                ((FloatText.shortest value).numeral_wellFormed negative)
              rw [← text] at numeric
              exact numeric
          | infinite => exact .inl (by cases negative <;> rfl)

end Python

-- Values

theorem writeNum_finite {num : JsonNum M} (finite : JsonNum.Finite num) (allowNan : Bool)
    : PyJson.writeNum num allowNan = .ok (PyJson.numberText num) := by
  cases num with
  | int value => rfl
  | bigInt text => rfl
  | float value =>
      cases value with
      | nan => exact absurd finite id
      | signed negative magnitude =>
          cases magnitude with
          | zero => rfl
          | finite value => rfl
          | infinite => exact absurd finite id

mutual

theorem writeValue_finite (options : PyJson.DumpOptions) {value : Value M}
    (finite : value.EachNumber JsonNum.Finite)
    : PyJson.writeValue options value = .ok ((PyJson.printer options).text value) := by
  cases value with
  | null => simp only [PyJson.writeValue, Printer.text]
  | bool value => cases value <;> simp only [PyJson.writeValue, Printer.text]
  | num number =>
      rw [PyJson.writeValue, Printer.text]
      exact writeNum_finite finite _
  | str text =>
      rw [PyJson.writeValue, Printer.text]
      rfl
  | array items =>
      rw [PyJson.writeValue, Printer.text, writeItems_finite options 0 finite]
      rfl
  | object fields =>
      rw [PyJson.writeValue, Printer.text, writeFields_finite options 0 finite]
      rfl

theorem writeItems_finite (options : PyJson.DumpOptions) (index : ℕ) {items : List (Value M)}
    (finite : EachNumberOfItems JsonNum.Finite items)
    : PyJson.writeItems options index items
      = .ok ((PyJson.printer options).itemsText index items) := by
  cases items with
  | nil => simp only [PyJson.writeItems, Printer.itemsText]
  | cons item rest =>
      rw [PyJson.writeItems, Printer.itemsText, writeValue_finite options finite.1,
        writeItems_finite options (index + 1) finite.2]
      rfl

theorem writeFields_finite (options : PyJson.DumpOptions) (index : ℕ)
    {fields : List (String × Value M)} (finite : EachNumberOfFields JsonNum.Finite fields)
    : PyJson.writeFields options index fields
      = .ok ((PyJson.printer options).fieldsText index fields) := by
  cases fields with
  | nil => simp only [PyJson.writeFields, Printer.fieldsText]
  | cons field rest =>
      obtain ⟨key, value⟩ := field
      rw [PyJson.writeFields, Printer.fieldsText, writeValue_finite options finite.1,
        writeFields_finite options (index + 1) finite.2]
      rfl

end

theorem layout_dumps (value : Value M) (sep : Layout.Json.Separators)
    : Layout.Json.dumps value sep = Python.dumps value false sep.item sep.key := by
  have alike : Printer.Alike (Layout.Json.printer (M := M) sep)
      (Python.printer false sep.item sep.key) :=
    ⟨rfl, rfl, Python.layout_writeChar⟩
  rw [Layout.Json.dumps, Layout.Json.writeTo_eq, Python.dumps,
    alike.text (Value.eachNumber Python.layout_number value)]

theorem library_dumps {value : Value M} (finite : value.EachNumber JsonNum.Finite)
    (options : PyJson.DumpOptions)
    : PyJson.dumps value options = .ok
        (Python.dumps value options.ensureAscii options.itemSeparator options.keySeparator) := by
  have alike : Printer.Alike (PyJson.printer (M := M) options)
      (Python.printer options.ensureAscii options.itemSeparator options.keySeparator) :=
    ⟨rfl, rfl, Python.library_writeChar options.ensureAscii⟩
  rw [PyJson.dumps, writeValue_finite options finite,
    alike.text (Value.eachNumber Python.library_number value)]
  rfl

theorem db_alike (style : JsonStyle)
    : Printer.Alike (Db.PyFmt.printer (M := M) style)
        (Python.printer style.ensureAscii style.itemSeparator style.keySeparator) :=
  ⟨rfl, rfl, Python.db_writeChar style.ensureAscii⟩

theorem db_dumps {row : SerdeValue M} (picks : row.toValue.EachNumber PicksNearest)
    (style : JsonStyle)
    : Db.PyFmt.dumps row style
      = Python.dumps row.toValue style.ensureAscii style.itemSeparator style.keySeparator := by
  have numbers := picks.mono fun _ => Python.db_number
  rw [Db.PyFmt.dumps, Db.PyFmt.writeValue_eq, Python.dumps, (db_alike style).text numbers]

theorem picksNearest_of_dumps (counts : ∀ (value : M) (count : ℕ),
      (FloatText.nearest value count).rest.length = count)
    {row : SerdeValue M}
    (same : Db.PyFmt.dumps row .compactAscii = Python.dumps row.toValue true [','] [':'])
    : row.toValue.EachNumber PicksNearest := by
  rw [Db.PyFmt.dumps, Db.PyFmt.writeValue_eq, Python.dumps, String.ofList_inj] at same
  have stops : Printer.Stops [] := by simp [Printer.Stops]
  have cancelled := (db_alike (M := M) .compactAscii).text_cancel rfl
    (Value.eachNumber (fun number => Python.told number _ _ _ _) row.toValue) stops stops
    (congrArg (· ++ []) same)
  exact cancelled.1.mono fun _ => Python.picksNearest_of_eq counts

/-- The writers agree on a value of finite numbers unless the rows can hold it and one of its floats
has two shortest decimals, of which the farther one is picked.
-/
theorem agree_iff (counts : ∀ (value : M) (count : ℕ),
      (FloatText.nearest value count).rest.length = count)
    {value : Value M} (finite : value.EachNumber JsonNum.Finite)
    : Agree value
      ↔ ((∃ row : SerdeValue M, row.toValue = value) → value.EachNumber PicksNearest) := by
  constructor
  · rintro agree ⟨row, rfl⟩
    exact picksNearest_of_dumps counts (agree.db row rfl .compactAscii)
  · intro picks
    refine ⟨layout_dumps value, library_dumps finite, ?_⟩
    rintro row rfl style
    exact db_dumps (picks ⟨row, rfl⟩) style

/-- The float `1/2` alone. -/
inductive Half where
  | value
  deriving DecidableEq

namespace Half

theorem five_digit : '5'.isDigit = true := rfl

theorem five_ne_zero : '5' ≠ '0' := by decide

theorem digits_nil : ∀ char ∈ ([] : List Char), char.isDigit = true := List.forall_mem_nil _

instance : FloatText Half where
  decidableEq := inferInstance
  round decimal := if decimal = 1 / 2 then .finite .value else .zero
  shortest _ := ⟨'5', [], -1, five_digit, five_ne_zero, digits_nil⟩
  nearest _ count :=
    ⟨'5', List.replicate count '0', -1, five_digit, five_ne_zero, Scientific.isDigit_replicate⟩

end Half

theorem agree_iff_half
    : let value : Value Half := .array [.num (.float (.signed true (.finite .value))), .str "1/2"]
      value.EachNumber JsonNum.Finite
      ∧ (Agree value
        ↔ ((∃ row : SerdeValue Half, row.toValue = value) → value.EachNumber PicksNearest)) :=
  ⟨⟨trivial, trivial, trivial⟩,
    agree_iff (fun _ _ => List.length_replicate) ⟨trivial, trivial, trivial⟩⟩

-- A tie

/-- The float `2^50 + 1/4` alone, which is as far from two tenths as from three. -/
inductive Quarter where
  | value
  deriving DecidableEq

namespace Quarter

/-- A number of units, ties to even. -/
def halfEven (number unit : ℕ) : ℕ :=
  let whole := number / unit
  let part := number % unit
  if unit < 2 * part ∨ 2 * part = unit ∧ whole % 2 = 1 then whole + 1 else whole

def nearest (count : ℕ) : Scientific where
  first := '1'
  rest := (Nat.toDigits 10 (halfEven 112589990684262425 (10 ^ (17 - count)))).drop 1
    ++ List.replicate (count - 17) '0'
  exponent := 15
  first_digit := rfl
  first_ne_zero := by decide
  rest_digits := by
    simp only [List.forall_mem_append]
    exact ⟨fun char isIn => isDigit_toDigits char (List.mem_of_mem_drop isIn),
      Scientific.isDigit_replicate⟩

def shortest : Scientific where
  first := '1'
  rest := ['1', '2', '5', '8', '9', '9', '9', '0', '6', '8', '4', '2', '6', '2', '4', '3']
  exponent := 15
  first_digit := rfl
  first_ne_zero := by decide
  rest_digits := List.all_eq_true.mp rfl

instance : FloatText Quarter where
  decidableEq := inferInstance
  round decimal :=
    if 1125899906842624 + 1 / 8 < decimal ∧ decimal < 1125899906842624 + 3 / 8 then .finite .value
    else .zero
  shortest _ := shortest
  nearest _ count := nearest count

theorem nearest_rest
    : (nearest 16).rest
      = ['1', '2', '5', '8', '9', '9', '9', '0', '6', '8', '4', '2', '6', '2', '4', '2'] := by
  decide +kernel

theorem digits_value : Python.digits Quarter.value = nearest 16 := by
  have reads : FloatText.round (nearest 16).value = Magnitude.finite Quarter.value := by
    have number : Nat.ofDigitChars 10 (nearest 16).digits 0 = 11258999068426242 := by
      rw [Scientific.digits, nearest_rest]
      decide +kernel
    have exponent : (nearest 16).exponent - (nearest 16).rest.length = -1 := by
      rw [nearest_rest]
      rfl
    have between : 1125899906842624 + 1 / 8 < (nearest 16).value
        ∧ (nearest 16).value < 1125899906842624 + 3 / 8 := by
      rw [Scientific.value, number, exponent]
      norm_num
    exact if_pos between
  exact if_pos reads

end Quarter

theorem not_agree_quarter
    : ¬ Agree (.num (.float (.signed false (.finite Quarter.value)))) := by
  intro agree
  have same := agree.db (.number (.float false (some .value))) rfl .compactAscii
  rw [Db.PyFmt.dumps, Db.PyFmt.writeValue_eq, Python.dumps, String.ofList_inj] at same
  change Db.PyFmt.numberText (.float (.signed false (.finite Quarter.value)))
    = Python.number (.float (.signed false (.finite Quarter.value))) at same
  rw [Db.PyFmt.numberText, Db.PyFmt.floatRepr_finite, Python.number, Quarter.digits_value,
    Scientific.numeral_text, Scientific.numeral_text] at same
  have digits := Scientific.eq_of_plainText (by rw [Quarter.nearest_rest]; rfl)
    (List.append_cancel_left same)
  have rest := congrArg Scientific.rest digits
  rw [Quarter.nearest_rest] at rest
  exact absurd rest (by decide)

end MokuroBunko.Library
