import MokuroBunko.Lib.Json.Writing

/-! The JSON writer of the layout crate (`json.rs`, `float_repr` of `py.rs`), as a printer of values.
-/

namespace MokuroBunko.Layout.Json

open MokuroBunko.Lib MokuroBunko.Lib.Json

/-- The two separator styles. -/
inductive Separators where
  | default
  | compact
  deriving DecidableEq

def Separators.item : Separators → List Char
  | .default => [',', ' ']
  | .compact => [',']

def Separators.key : Separators → List Char
  | .default => [':', ' ']
  | .compact => [':']

variable {M : Type} [FloatText M]

/-- The digits of a finite float: as many as the shortest text has, and nearest to the value if they
read back.
-/
def scientific (value : M) : Scientific :=
  let shortest := FloatText.shortest value
  let exact := FloatText.nearest value (shortest.digits.length - 1)
  if FloatText.round exact.value = Magnitude.finite value then exact else shortest

/-- Python's `repr(float)` (`py.rs`). -/
def floatRepr (value : F64 M) : List Char :=
  match value with
  | .nan => ['n', 'a', 'n']
  | .signed false .infinite => ['i', 'n', 'f']
  | .signed true .infinite => ['-', 'i', 'n', 'f']
  | .signed true .zero => ['-', '0', '.', '0']
  | .signed false .zero => ['0', '.', '0']
  | .signed negative (.finite x) =>
      let sci := scientific x
      let digits := sci.digits
      let n : ℤ := digits.length
      let decpt := sci.exponent + 1
      (if negative then ['-'] else []) ++
      if decpt ≤ -4 ∨ 16 < decpt then
        let e := decpt - 1
        digits.take 1 ++ (if 1 < n then '.' :: digits.drop 1 else [])
          ++ 'e' :: (if e < 0 then '-' else '+') :: Decimal.padded 2 e.natAbs
      else if decpt ≤ 0 then
        '0' :: '.' :: (List.replicate (-decpt).toNat '0' ++ digits)
      else if n ≤ decpt then
        digits ++ List.replicate (decpt - n).toNat '0' ++ ['.', '0']
      else digits.take decpt.toNat ++ '.' :: digits.drop decpt.toNat

def floatJson (value : F64 M) : List Char :=
  match value with
  | .nan => ['N', 'a', 'N']
  | .signed false .infinite => ['I', 'n', 'f', 'i', 'n', 'i', 't', 'y']
  | .signed true .infinite => ['-', 'I', 'n', 'f', 'i', 'n', 'i', 't', 'y']
  | value => floatRepr value

def writeChar (char : Char) : List Char :=
  match char with
  | '"' => ['\\', '"']
  | '\\' => ['\\', '\\']
  | '\n' => ['\\', 'n']
  | '\r' => ['\\', 'r']
  | '\t' => ['\\', 't']
  | '\x08' => ['\\', 'b']
  | '\x0c' => ['\\', 'f']
  | char => if char.toNat < 0x20 then '\\' :: 'u' :: hexText char.toNat else [char]

def writeString (text : String) : List Char := '"' :: (text.toList.flatMap writeChar ++ ['"'])

mutual

def writeTo (sep : Separators) : Value M → List Char
  | .null => ['n', 'u', 'l', 'l']
  | .bool true => ['t', 'r', 'u', 'e']
  | .bool false => ['f', 'a', 'l', 's', 'e']
  | .num (.int i) => intText i
  | .num (.bigInt text) => text.toList
  | .num (.float value) => floatJson value
  | .str text => writeString text
  | .array items => '[' :: (writeItems sep 0 items ++ [']'])
  | .object items => '{' :: (writeFields sep 0 items ++ ['}'])

def writeItems (sep : Separators) : ℕ → List (Value M) → List Char
  | _, [] => []
  | i, item :: rest =>
      (if 0 < i then sep.item else []) ++ writeTo sep item ++ writeItems sep (i + 1) rest

def writeFields (sep : Separators) : ℕ → List (String × Value M) → List Char
  | _, [] => []
  | i, (k, v) :: rest =>
      (if 0 < i then sep.item else []) ++ writeString k ++ sep.key ++ writeTo sep v
        ++ writeFields sep (i + 1) rest

end

def dumps (value : Value M) (sep : Separators) : String := String.ofList (writeTo sep value)

-- As a printer

theorem scientific_rounds (inverse : FloatText.Inverse M) (value : M)
    : FloatText.round (scientific value).value = .finite value := by
  unfold scientific
  dsimp only
  split
  · assumption
  · exact inverse.shortest value

theorem floatRepr_finite (negative : Bool) (x : M)
    : floatRepr (.signed negative (.finite x)) = ((scientific x).numeral negative).text := by
  simp only [floatRepr, Scientific.numeral_text]
  congr 1
  generalize scientific x = sci
  unfold Scientific.plainText
  have isPoint : sci.exponent + 1 = sci.point := rfl
  have exponent : sci.point - 1 = sci.exponent := Int.add_sub_cancel _ _
  rw [isPoint, exponent]
  by_cases large : sci.point ≤ -4 ∨ 16 < sci.point
  · have out : ¬ (-4 < sci.point ∧ sci.point ≤ 16) := by omega
    rw [if_pos large, if_neg out]
    simp [Scientific.digits]
  have inside : -4 < sci.point ∧ sci.point ≤ 16 := by omega
  rw [if_neg large, if_pos inside]
  by_cases small : sci.point ≤ 0
  · rw [if_pos small, if_pos small]
  rw [if_neg small, if_neg small]
  by_cases fits : (sci.digits.length : ℤ) ≤ sci.point
  · have fits' : sci.digits.length ≤ sci.point.toNat := by omega
    have zeros : (sci.point - sci.digits.length).toNat = sci.point.toNat - sci.digits.length := by
      omega
    rw [if_pos fits, if_pos fits', zeros]
  · have long : ¬ sci.digits.length ≤ sci.point.toNat := by omega
    rw [if_neg fits, if_neg long]

theorem spells_writeChar (char : Char) : Spells (writeChar char) char := by
  unfold writeChar
  split
  case h_8 quote backslash _ _ _ _ _ =>
    split
    · rename_i control
      have small : char.toNat < 0x10000 := by omega
      have spells := spells_unit small
      simpa [unitsText] using spells
    · rename_i control
      exact spells_self quote backslash (Nat.le_of_not_lt control)
  all_goals exact spells_short rfl

def numberText : JsonNum M → List Char
  | .int i => intText i
  | .bigInt text => text.toList
  | .float value => floatJson value

theorem numberText_reads (inverse : FloatText.Inverse M) (num : JsonNum M) (canonical : num.Canonical)
    (rest : List Char)
    : Reads .plain (.value (.num num)) (numberText num ++ rest) rest := by
  refine reads_number inverse (scientific_rounds inverse) (fun _ => rfl) (fun _ => rfl) ?_ ?_ ?_
    num canonical rest
  · intro negative
    cases negative <;> rfl
  · intro negative value
    rw [← floatRepr_finite]
    cases negative <;> rfl
  · intro negative
    cases negative <;> rfl

/-- The writer's parts. -/
def printer (sep : Separators) : Printer M where
  item := sep.item
  key := sep.key
  spell := writeChar
  number := numberText

theorem printer_sound (inverse : FloatText.Inverse M) (sep : Separators)
    : (printer (M := M) sep).Sound where
  item := by
    cases sep
    · exact ⟨[], [' '], rfl, by simp, by simp [isBlank]⟩
    · exact ⟨[], [], rfl, by simp, by simp⟩
  key := by
    cases sep
    · exact ⟨[], [' '], rfl, by simp, by simp [isBlank]⟩
    · exact ⟨[], [], rfl, by simp, by simp⟩
  spells := spells_writeChar
  number := numberText_reads inverse

mutual

theorem writeTo_eq (sep : Separators) (value : Value M)
    : writeTo sep value = (printer sep).text value := by
  cases value with
  | null => simp [writeTo, Printer.text]
  | bool value => cases value <;> simp [writeTo, Printer.text]
  | num number => cases number <;> simp [writeTo, Printer.text, printer, numberText]
  | str text => simp [writeTo, Printer.text, Printer.string, printer, writeString]
  | array items => simp [writeTo, Printer.text, writeItems_eq sep 0 items]
  | object fields => simp [writeTo, Printer.text, writeFields_eq sep 0 fields]

theorem writeItems_eq (sep : Separators) (i : ℕ) (items : List (Value M))
    : writeItems sep i items = (printer sep).itemsText i items := by
  cases items with
  | nil => simp [writeItems, Printer.itemsText]
  | cons item rest =>
      simp only [writeItems, Printer.itemsText, writeTo_eq sep item,
        writeItems_eq sep (i + 1) rest]
      rfl

theorem writeFields_eq (sep : Separators) (i : ℕ) (fields : List (String × Value M))
    : writeFields sep i fields = (printer sep).fieldsText i fields := by
  cases fields with
  | nil => simp [writeFields, Printer.fieldsText]
  | cons field rest =>
      obtain ⟨key, value⟩ := field
      simp only [writeFields, Printer.fieldsText, writeTo_eq sep value,
        writeFields_eq sep (i + 1) rest]
      rfl

end

end MokuroBunko.Layout.Json
