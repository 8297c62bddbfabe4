import MokuroBunko.Lib.Json.Spelling

/-! The JSON writer of the database crate (`pyfmt.rs`), as a printer of values.
-/

namespace MokuroBunko.Db.PyFmt

open MokuroBunko.Lib MokuroBunko.Lib.Json

structure JsonStyle where
  ensureAscii : Bool
  itemSeparator : List Char
  keySeparator : List Char

namespace JsonStyle

def compactAscii : JsonStyle := ⟨true, [','], [':']⟩

def defaultAscii : JsonStyle := ⟨true, [',', ' '], [':', ' ']⟩

def defaultUnicode : JsonStyle := ⟨false, [',', ' '], [':', ' ']⟩

end JsonStyle

variable {M : Type}

/-- `serde_json::Number`: integers of 64 bits and finite floats. -/
inductive Number (M : Type) where
  | posInt (value : { value : ℕ // value < 2 ^ 64 })
  | negInt (value : { value : ℤ // -2 ^ 63 ≤ value ∧ value < 0 })
  /-- Zero if there is nothing of a size. -/
  | float (negative : Bool) (size : Option M)

/-- `serde_json::Value`, whose objects keep the order of their fields. -/
inductive SerdeValue (M : Type) where
  | null
  | bool (value : Bool)
  | number (number : Number M)
  | string (text : String)
  | array (items : List (SerdeValue M))
  | object (map : List (String × SerdeValue M))

def Number.asI64 : Number M → Option I64
  | .posInt value =>
      if small : value.1 < 2 ^ 63 then some ⟨value.1, by have := value.2; omega⟩ else none
  | .negInt value => some ⟨value.1, by have := value.2; omega⟩
  | .float _ _ => none

def Number.asU64 : Number M → Option ℕ
  | .posInt value => some value.1
  | .negInt _ => none
  | .float _ _ => none

variable [FloatText M]

/-- `as_f64`, which is never `None` for these numbers. -/
def Number.asF64 : Number M → F64 M
  | .posInt value => .signed false (FloatText.round value.1)
  | .negInt value => .signed true (FloatText.round (-value.1))
  | .float negative none => .signed negative .zero
  | .float negative (some value) => .signed negative (.finite value)

/-- Python's layout of the digits and the power of ten that `{:e}` gives. -/
def layOut (negative : Bool) (digits : List Char) (exp : ℤ) : List Char :=
  let decpt := exp + 1
  (if negative then ['-'] else []) ++
  if -4 < decpt ∧ decpt ≤ 16 then
    if decpt ≤ 0 then '0' :: '.' :: (List.replicate (-decpt).toNat '0' ++ digits)
    else if digits.length ≤ decpt.toNat then
      digits ++ List.replicate (decpt.toNat - digits.length) '0' ++ ['.', '0']
    else digits.take decpt.toNat ++ '.' :: digits.drop decpt.toNat
  else
    let e := decpt - 1
    digits.take 1 ++ (if 1 < digits.length then '.' :: digits.drop 1 else [])
      ++ 'e' :: (if e < 0 then '-' else '+') :: Decimal.padded 2 e.natAbs

def floatRepr (f : F64 M) : List Char :=
  match f with
  | .nan => ['N', 'a', 'N']
  | .signed false .infinite => ['I', 'n', 'f', 'i', 'n', 'i', 't', 'y']
  | .signed true .infinite => ['-', 'I', 'n', 'f', 'i', 'n', 'i', 't', 'y']
  -- `{:e}` writes `0e0`.
  | .signed negative .zero => layOut negative ['0'] 0
  | .signed negative (.finite value) =>
      let sci := FloatText.shortest value
      layOut negative sci.digits sci.exponent

def writeNumber (n : Number M) : List Char :=
  match n.asI64 with
  | some i => intText i
  | none =>
      match n.asU64 with
      | some u => Nat.toDigits 10 u
      | none => floatRepr n.asF64

def writeChar (ensureAscii : Bool) (char : Char) : List Char :=
  match char with
  | '"' => ['\\', '"']
  | '\\' => ['\\', '\\']
  | '\n' => ['\\', 'n']
  | '\r' => ['\\', 'r']
  | '\t' => ['\\', 't']
  | '\x08' => ['\\', 'b']
  | '\x0c' => ['\\', 'f']
  | char =>
      if char.toNat < 0x20 then '\\' :: 'u' :: hexText char.toNat
      else if ensureAscii ∧ 0x7e < char.toNat then unitsText (utf16 char)
      else [char]

def writeStr (text : String) (ensureAscii : Bool) : List Char :=
  '"' :: (text.toList.flatMap (writeChar ensureAscii) ++ ['"'])

mutual

def writeValue (style : JsonStyle) : SerdeValue M → List Char
  | .null => ['n', 'u', 'l', 'l']
  | .bool true => ['t', 'r', 'u', 'e']
  | .bool false => ['f', 'a', 'l', 's', 'e']
  | .number n => writeNumber n
  | .string s => writeStr s style.ensureAscii
  | .array items => '[' :: (writeItems style 0 items ++ [']'])
  | .object map => '{' :: (writeFields style 0 map ++ ['}'])

def writeItems (style : JsonStyle) : ℕ → List (SerdeValue M) → List Char
  | _, [] => []
  | i, item :: rest =>
      (if 0 < i then style.itemSeparator else []) ++ writeValue style item
        ++ writeItems style (i + 1) rest

def writeFields (style : JsonStyle) : ℕ → List (String × SerdeValue M) → List Char
  | _, [] => []
  | i, (key, item) :: rest =>
      (if 0 < i then style.itemSeparator else []) ++ writeStr key style.ensureAscii
        ++ style.keySeparator ++ writeValue style item ++ writeFields style (i + 1) rest

end

def dumps (value : SerdeValue M) (style : JsonStyle) : String :=
  String.ofList (writeValue style value)

-- As a printer

omit [FloatText M] in
/-- The number as Python holds it. -/
def Number.toNum : Number M → JsonNum M
  | .posInt value =>
      if small : value.1 < 2 ^ 63 then .int ⟨value.1, by have := value.2; omega⟩
      else .bigInt (String.ofList (Nat.toDigits 10 value.1))
  | .negInt value => .int ⟨value.1, by have := value.2; omega⟩
  | .float negative none => .float (.signed negative .zero)
  | .float negative (some value) => .float (.signed negative (.finite value))

mutual

/-- The JSON value that it is. -/
def SerdeValue.toValue : SerdeValue M → Value M
  | .null => .null
  | .bool value => .bool value
  | .number number => .num number.toNum
  | .string text => .str text
  | .array items => .array (toItems items)
  | .object map => .object (toFields map)

def toItems : List (SerdeValue M) → List (Value M)
  | [] => []
  | item :: rest => item.toValue :: toItems rest

def toFields : List (String × SerdeValue M) → List (String × Value M)
  | [] => []
  | (key, item) :: rest => (key, item.toValue) :: toFields rest

end

def numberText : JsonNum M → List Char
  | .int i => intText i
  | .bigInt text => text.toList
  | .float value => floatRepr value

/-- The writer's parts. -/
def printer (style : JsonStyle) : Printer M where
  item := style.itemSeparator
  key := style.keySeparator
  spell := writeChar style.ensureAscii
  number := numberText

theorem writeNumber_eq (number : Number M) : writeNumber number = numberText number.toNum := by
  cases number with
  | posInt value =>
      by_cases small : value.1 < 2 ^ 63
      · simp only [writeNumber, Number.asI64, Number.toNum, dif_pos small, numberText]
      · simp only [writeNumber, Number.asI64, Number.asU64, Number.toNum, dif_neg small, numberText,
          String.toList_ofList]
  | negInt value => rfl
  | float negative size => cases size <;> rfl

mutual

theorem writeValue_eq (style : JsonStyle) (value : SerdeValue M)
    : writeValue style value = (printer style).text value.toValue := by
  cases value with
  | null => simp [writeValue, SerdeValue.toValue, Printer.text]
  | bool value => cases value <;> simp [writeValue, SerdeValue.toValue, Printer.text]
  | number number =>
      simp only [writeValue, SerdeValue.toValue, Printer.text, writeNumber_eq]
      rfl
  | string text =>
      simp [writeValue, SerdeValue.toValue, Printer.text, Printer.string, printer, writeStr]
  | array items =>
      simp [writeValue, SerdeValue.toValue, Printer.text, writeItems_eq style 0 items]
  | object map =>
      simp [writeValue, SerdeValue.toValue, Printer.text, writeFields_eq style 0 map]

theorem writeItems_eq (style : JsonStyle) (i : ℕ) (items : List (SerdeValue M))
    : writeItems style i items = (printer style).itemsText i (toItems items) := by
  cases items with
  | nil => simp [writeItems, toItems, Printer.itemsText]
  | cons item rest =>
      simp only [writeItems, toItems, Printer.itemsText, writeValue_eq style item,
        writeItems_eq style (i + 1) rest]
      rfl

theorem writeFields_eq (style : JsonStyle) (i : ℕ) (map : List (String × SerdeValue M))
    : writeFields style i map = (printer style).fieldsText i (toFields map) := by
  cases map with
  | nil => simp [writeFields, toFields, Printer.fieldsText]
  | cons field rest =>
      obtain ⟨key, value⟩ := field
      simp only [writeFields, toFields, Printer.fieldsText, writeValue_eq style value,
        writeFields_eq style (i + 1) rest]
      rfl

end

theorem layOut_eq (negative : Bool) (sci : Scientific)
    : layOut negative sci.digits sci.exponent = (sci.numeral negative).text := by
  simp only [layOut, Scientific.numeral_text]
  congr 1
  unfold Scientific.plainText
  have isPoint : sci.exponent + 1 = sci.point := rfl
  have exponent : sci.point - 1 = sci.exponent := Int.add_sub_cancel _ _
  rw [isPoint, exponent]
  simp [Scientific.digits]

theorem floatRepr_finite (negative : Bool) (value : M)
    : floatRepr (.signed negative (.finite value))
      = ((FloatText.shortest value).numeral negative).text := by
  rw [← layOut_eq]
  cases negative <;> rfl

theorem floatRepr_zero (negative : Bool)
    : floatRepr (M := M) (.signed negative .zero) = (zeroNumeral negative).text := by
  cases negative <;> rfl

-- Read back

theorem spells_writeChar (ensureAscii : Bool) (char : Char)
    : Spells (writeChar ensureAscii char) char := by
  unfold writeChar
  split
  case h_8 quote backslash _ _ _ _ _ =>
    split
    · rename_i control
      have small : char.toNat < 0x10000 := by omega
      have spells := spells_unit small
      simpa [unitsText] using spells
    rename_i control
    split
    · exact spells_utf16 char
    · exact spells_self quote backslash (Nat.le_of_not_lt control)
  all_goals exact spells_short rfl

theorem numberText_reads (inverse : FloatText.Inverse M) (num : JsonNum M)
    (canonical : num.Canonical) (rest : List Char)
    : Reads .plain (.value (.num num)) (numberText num ++ rest) rest := by
  refine reads_number inverse inverse.shortest (fun _ => rfl) (fun _ => rfl) floatRepr_zero
    floatRepr_finite ?_ num canonical rest
  intro negative
  cases negative <;> rfl

theorem compactAscii_sound (inverse : FloatText.Inverse M)
    : (printer (M := M) .compactAscii).Sound where
  item := ⟨[], [], rfl, by simp, by simp⟩
  key := ⟨[], [], rfl, by simp, by simp⟩
  spells := spells_writeChar true
  number := numberText_reads inverse

end MokuroBunko.Db.PyFmt
