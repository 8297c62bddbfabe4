import MokuroBunko.Lib.Json.Writing

/-! The JSON writer of the library crate (`pyjson.rs`), as a printer of values.
-/

namespace MokuroBunko.Library.PyJson

open MokuroBunko.Lib MokuroBunko.Lib.Json

structure DumpOptions where
  ensureAscii : Bool
  itemSeparator : List Char
  keySeparator : List Char
  allowNan : Bool

namespace DumpOptions

def compactUtf8 : DumpOptions := ⟨false, [','], [':'], false⟩

def defaultUtf8 : DumpOptions := ⟨false, [',', ' '], [':', ' '], true⟩

def default : DumpOptions := ⟨true, [',', ' '], [':', ' '], true⟩

/-- The separators are a comma and a colon, with white space around them. -/
def Separate (options : DumpOptions) : Prop :=
  Printer.Separates options.itemSeparator ',' ∧ Printer.Separates options.keySeparator ':'

end DumpOptions

/-- `allow_nan=False` met a non-finite float. -/
structure NonFiniteError where
  deriving DecidableEq

variable {M : Type} [FloatText M]

/-- The digits of a finite float that is not zero. -/
def scientific (value : M) : Scientific :=
  let shortest := FloatText.shortest value
  let nearest := FloatText.nearest value (shortest.digits.length - 1)
  if FloatText.round nearest.value = Magnitude.finite value then nearest else shortest

/-- Python's `repr(float)` of a finite value, which is zero if there is none of a size. -/
def floatRepr (negative : Bool) : Option M → List Char
  | none => if negative then ['-', '0', '.', '0'] else ['0', '.', '0']
  | some value =>
      let sci := scientific value
      let digits := sci.digits
      let decpt := sci.exponent + 1
      (if negative then ['-'] else []) ++
      if -4 < decpt ∧ decpt ≤ 16 then
        if decpt ≤ 0 then '0' :: '.' :: (List.replicate (-decpt).toNat '0' ++ digits)
        else
          let point := decpt.toNat
          if digits.length ≤ point then
            digits ++ List.replicate (point - digits.length) '0' ++ ['.', '0']
          else digits.take point ++ '.' :: digits.drop point
      else
        let shown := decpt - 1
        digits.take 1 ++ (if 1 < digits.length then '.' :: digits.drop 1 else [])
          ++ 'e' :: (if shown < 0 then '-' else '+') :: Decimal.padded 2 shown.natAbs

def writeNum (number : JsonNum M) (allowNan : Bool) : Except NonFiniteError (List Char) :=
  match number with
  | .int value => .ok (intText value)
  | .bigInt text => .ok text.toList
  | .float (.signed negative .zero) => .ok (floatRepr (M := M) negative none)
  | .float (.signed negative (.finite value)) => .ok (floatRepr negative (some value))
  | .float value =>
      if ¬ allowNan then .error {}
      else
        match value with
        | .nan => .ok ['N', 'a', 'N']
        | .signed false _ => .ok ['I', 'n', 'f', 'i', 'n', 'i', 't', 'y']
        | .signed true _ => .ok ['-', 'I', 'n', 'f', 'i', 'n', 'i', 't', 'y']

def writeChar (ensureAscii : Bool) (char : Char) : List Char :=
  match char with
  | '"' => ['\\', '"']
  | '\\' => ['\\', '\\']
  | '\n' => ['\\', 'n']
  | '\r' => ['\\', 'r']
  | '\t' => ['\\', 't']
  | '\x08' => ['\\', 'b']
  | '\x0c' => ['\\', 'f']
  | char =>
      if char.toNat < 0x20 then '\\' :: 'u' :: hexText char.toNat
      else if ensureAscii ∧ ¬ (' ' ≤ char ∧ char ≤ '~') then unitsText (utf16 char)
      else [char]

/-- A JSON string literal. -/
def writeStr (text : String) (ensureAscii : Bool) : List Char :=
  '"' :: (text.toList.flatMap (writeChar ensureAscii) ++ ['"'])

mutual

def writeValue (options : DumpOptions) : Value M → Except NonFiniteError (List Char)
  | .null => .ok ['n', 'u', 'l', 'l']
  | .bool true => .ok ['t', 'r', 'u', 'e']
  | .bool false => .ok ['f', 'a', 'l', 's', 'e']
  | .num number => writeNum number options.allowNan
  | .str text => .ok (writeStr text options.ensureAscii)
  | .array items => do
      let out ← writeItems options 0 items
      .ok ('[' :: (out ++ [']']))
  | .object fields => do
      let out ← writeFields options 0 fields
      .ok ('{' :: (out ++ ['}']))

def writeItems (options : DumpOptions) : ℕ → List (Value M) → Except NonFiniteError (List Char)
  | _, [] => .ok []
  | index, item :: rest => do
      let text ← writeValue options item
      let more ← writeItems options (index + 1) rest
      .ok ((if 0 < index then options.itemSeparator else []) ++ text ++ more)

def writeFields (options : DumpOptions)
    : ℕ → List (String × Value M) → Except NonFiniteError (List Char)
  | _, [] => .ok []
  | index, (key, item) :: rest => do
      let text ← writeValue options item
      let more ← writeFields options (index + 1) rest
      .ok ((if 0 < index then options.itemSeparator else []) ++ writeStr key options.ensureAscii
        ++ options.keySeparator ++ text ++ more)

end

def dumps (value : Value M) (options : DumpOptions) : Except NonFiniteError String :=
  (writeValue options value).map String.ofList

-- As a printer

theorem scientific_rounds (inverse : FloatText.Inverse M) (value : M)
    : FloatText.round (scientific value).value = .finite value := by
  unfold scientific
  dsimp only
  split
  · assumption
  · exact inverse.shortest value

theorem floatRepr_finite (negative : Bool) (value : M)
    : floatRepr negative (some value) = ((scientific value).numeral negative).text := by
  simp only [floatRepr, Scientific.numeral_text]
  congr 1
  generalize scientific value = sci
  unfold Scientific.plainText
  have isPoint : sci.exponent + 1 = sci.point := rfl
  have exponent : sci.point - 1 = sci.exponent := Int.add_sub_cancel _ _
  rw [isPoint, exponent]
  simp [Scientific.digits]

theorem spells_writeChar (ensureAscii : Bool) (char : Char)
    : Spells (writeChar ensureAscii char) char := by
  unfold writeChar
  split
  case h_8 quote backslash _ _ _ _ _ =>
    split
    · rename_i control
      have small : char.toNat < 0x10000 := by omega
      have spells := spells_unit small
      simpa [unitsText] using spells
    rename_i control
    split
    · exact spells_utf16 char
    · exact spells_self quote backslash (Nat.le_of_not_lt control)
  all_goals exact spells_short rfl

/-- A number's text when every float is allowed. -/
def numberText (num : JsonNum M) : List Char :=
  match num with
  | .int value => intText value
  | .bigInt text => text.toList
  | .float .nan => ['N', 'a', 'N']
  | .float (.signed negative .zero) => floatRepr (M := M) negative none
  | .float (.signed negative (.finite value)) => floatRepr negative (some value)
  | .float (.signed false .infinite) => ['I', 'n', 'f', 'i', 'n', 'i', 't', 'y']
  | .float (.signed true .infinite) => ['-', 'I', 'n', 'f', 'i', 'n', 'i', 't', 'y']

theorem numberText_reads (inverse : FloatText.Inverse M) (num : JsonNum M) (canonical : num.Canonical)
    (rest : List Char)
    : Reads .plain (.value (.num num)) (numberText num ++ rest) rest := by
  refine reads_number inverse (scientific_rounds inverse) (fun _ => rfl) (fun _ => rfl) ?_
    floatRepr_finite ?_ num canonical rest <;>
  · intro negative
    cases negative <;> rfl

/-- The writer's parts. -/
def printer (options : DumpOptions) : Printer M where
  item := options.itemSeparator
  key := options.keySeparator
  spell := writeChar options.ensureAscii
  number := numberText

theorem printer_sound (inverse : FloatText.Inverse M) {options : DumpOptions}
    (separate : options.Separate)
    : (printer (M := M) options).Sound where
  item := separate.1
  key := separate.2
  spells := spells_writeChar options.ensureAscii
  number := numberText_reads inverse

/-- Where every float is allowed the writer gives the text; else it gives the same one or none. -/
def Gives (options : DumpOptions) (written : Except NonFiniteError (List Char))
    (text : List Char) : Prop :=
  (options.allowNan → written = .ok text) ∧ ∀ out, written = .ok out → out = text

section Gives

variable {options : DumpOptions}

omit [FloatText M] in
theorem gives_ok (text : List Char) : Gives options (.ok text) text :=
  ⟨fun _ => rfl, fun _ same => (Except.ok.inj same).symm⟩

theorem gives_writeNum (num : JsonNum M)
    : Gives options (writeNum num options.allowNan) (numberText num) := by
  have gives_float (text : List Char)
      : Gives options (if ¬ options.allowNan then .error {} else .ok text) text := by
    cases allowed : options.allowNan with
    | true => simpa using gives_ok text
    | false =>
        refine ⟨?_, by simp⟩
        intro isTrue
        rw [allowed] at isTrue
        cases isTrue
  cases num with
  | int value => exact gives_ok _
  | bigInt text => exact gives_ok _
  | float value =>
      cases value with
      | nan => exact gives_float _
      | signed negative magnitude =>
          cases magnitude with
          | zero => exact gives_ok _
          | finite value => exact gives_ok _
          | infinite => cases negative <;> exact gives_float _

theorem Gives.bind {written : Except NonFiniteError (List Char)}
    {next : List Char → Except NonFiniteError (List Char)} {text whole : List Char}
    (gives : Gives options written text) (then_ : Gives options (next text) whole)
    : Gives options (written >>= next) whole := by
  constructor
  · intro allowed
    rw [gives.1 allowed]
    exact then_.1 allowed
  · intro out same
    cases written with
    | error failure => cases same
    | ok first =>
        rw [gives.2 first rfl] at same
        exact then_.2 out same

end Gives

mutual

theorem gives_writeValue (options : DumpOptions) (value : Value M)
    : Gives options (writeValue options value) ((printer options).text value) := by
  cases value with
  | null =>
      rw [writeValue, Printer.text]
      exact gives_ok _
  | bool value =>
      cases value <;>
        rw [writeValue, Printer.text] <;>
        exact gives_ok _
  | num number =>
      rw [writeValue, Printer.text]
      exact gives_writeNum number
  | str text =>
      rw [writeValue, Printer.text]
      exact gives_ok _
  | array items =>
      rw [writeValue, Printer.text]
      exact (gives_writeItems options 0 items).bind (gives_ok _)
  | object fields =>
      rw [writeValue, Printer.text]
      exact (gives_writeFields options 0 fields).bind (gives_ok _)

theorem gives_writeItems (options : DumpOptions) (index : ℕ) (items : List (Value M))
    : Gives options (writeItems options index items) ((printer options).itemsText index items) := by
  cases items with
  | nil =>
      rw [writeItems, Printer.itemsText]
      exact gives_ok _
  | cons item rest =>
      rw [writeItems, Printer.itemsText]
      exact (gives_writeValue options item).bind
        ((gives_writeItems options (index + 1) rest).bind (gives_ok _))

theorem gives_writeFields (options : DumpOptions) (index : ℕ) (fields : List (String × Value M))
    : Gives options (writeFields options index fields)
        ((printer options).fieldsText index fields) := by
  cases fields with
  | nil =>
      rw [writeFields, Printer.fieldsText]
      exact gives_ok _
  | cons field rest =>
      obtain ⟨key, value⟩ := field
      rw [writeFields, Printer.fieldsText]
      exact (gives_writeValue options value).bind
        ((gives_writeFields options (index + 1) rest).bind (gives_ok _))

end

end MokuroBunko.Library.PyJson
