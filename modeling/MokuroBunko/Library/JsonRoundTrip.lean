import MokuroBunko.Layout.Json
import MokuroBunko.Layout.JsonWriter
import MokuroBunko.Library.PyJson
import MokuroBunko.Library.PyJsonWriter

/-! Whether the layout crate and the library crate take the same texts for JSON, and that what either
writes, both read back. The layout crate reads the four digits of a `\u` escape with
`u32::from_str_radix`, which lets the first of them be a plus sign; the library crate does not.
-/

namespace MokuroBunko.Library.JsonAgreement

open MokuroBunko.Lib.Json

variable {M : Type} [FloatText M]

/-- The text is JSON, with Python's constants: every escape has four digits. -/
def IsJson (value : Value M) (text : String) : Prop :=
  ∃ marks, IsText marks value text.toList ∧ marks.signs = 0

/-- The text has no escape of a lone surrogate and nests no deeper than the library's limit. -/
def InScope (M : Type) [FloatText M] (text : String) : Prop :=
  ∀ marks (value : Value M), IsText marks value text.toList
    → marks.lones = 0 ∧ marks.depth ≤ PyJson.maxDepth

/-- Both parsers accept the text, with the same value, or none does, and what they accept is JSON. -/
structure SameLanguage (M : Type) [FloatText M] (text : String) : Prop where
  agree : ∀ value : Value M, Layout.Json.parse text = .ok value ↔ PyJson.parse text = .ok value
  layout : ∀ value : Value M, Layout.Json.parse text = .ok value ↔ IsJson value text
  library : ∀ value : Value M, PyJson.parse text = .ok value ↔ IsJson value text

/-- No escape of the text has a plus sign for its first digit. -/
def Unsigned (M : Type) [FloatText M] (text : String) : Prop :=
  ∀ marks (value : Value M), IsText marks value text.toList → marks.signs = 0

theorem library_iff {text : String} (scope : InScope M text) (value : Value M)
    : PyJson.parse text = .ok value ↔ IsJson value text := by
  rw [PyJson.parse_iff]
  constructor
  · intro facts
    obtain ⟨marks, isText, signs, _⟩ := facts
    exact ⟨marks, isText, signs⟩
  · intro facts
    obtain ⟨marks, isText, signs⟩ := facts
    exact ⟨marks, isText, signs, (scope marks value isText).2⟩

theorem layout_iff {text : String} (scope : InScope M text) (value : Value M)
    : Layout.Json.parse text = .ok value ↔ ∃ marks, IsText marks value text.toList := by
  rw [Layout.Json.parse_iff]
  constructor
  · intro facts
    obtain ⟨marks, isText, _⟩ := facts
    exact ⟨marks, isText⟩
  · intro facts
    obtain ⟨marks, isText⟩ := facts
    exact ⟨marks, isText, (scope marks value isText).1⟩

theorem sameLanguage_of_unsigned {text : String} (scope : InScope M text)
    (unsigned : Unsigned M text)
    : SameLanguage M text := by
  have layout (value : Value M) : Layout.Json.parse text = .ok value ↔ IsJson value text := by
    rw [layout_iff scope]
    constructor
    · intro facts
      obtain ⟨marks, isText⟩ := facts
      exact ⟨marks, isText, unsigned marks value isText⟩
    · intro facts
      obtain ⟨marks, isText, _⟩ := facts
      exact ⟨marks, isText⟩
  exact
    {
      agree := fun value => (layout value).trans (library_iff scope value).symm
      layout := layout
      library := library_iff scope
    }

/-- The crates accept the same language but for the texts with a signed escape. -/
theorem sameLanguage_iff {text : String} (scope : InScope M text)
    : SameLanguage M text ↔ Unsigned M text := by
  constructor
  · intro same marks value isText
    have accepted := (layout_iff scope value).mpr ⟨marks, isText⟩
    obtain ⟨marks', isText', signs⟩ := (same.layout value).mp accepted
    obtain ⟨rfl, _⟩ := isText.unique isText'
    exact signs
  · intro unsigned
    exact sameLanguage_of_unsigned scope unsigned

-- Two texts

/-- The decimal 5e-1. -/
def half : Scientific where
  first := '5'
  rest := []
  exponent := -1
  first_digit := by decide
  first_ne_zero := by decide
  rest_digits _ isIn := absurd isIn List.not_mem_nil

/-- Floats of which the only finite positive one is 1/2. -/
@[reducible]
def halves : FloatText Unit where
  decidableEq := inferInstance
  round value := if value = 0 then .zero else .finite ()
  shortest _ := half
  nearest _ _ := half

def plainText : List Char := ['[', '"', '\\', 'u', '0', '0', '4', '1', '"', ']']

theorem plainText_isText
    : IsText ⟨1, 0, 0⟩ (Value.array [.str (String.ofList ['A'])] : Value M) plainText := by
  have hex : Hex4 0 ['0', '0', '4', '1', '"', ']'] 65 ['"', ']'] := .plain rfl
  have content : Content ⟨0, 0, 0⟩ ['\\', 'u', '0', '0', '4', '1', '"', ']'] ['A'] [']'] :=
    .escape (.unit hex (by decide)) .close
  exact ⟨_, [], .done, .array .done (.lastItem (.string content) .done), .done⟩

theorem sameLanguage_plainText : @SameLanguage Unit halves (String.ofList plainText) := by
  let _ := halves
  have isText := plainText_isText (M := Unit)
  refine (sameLanguage_iff ?_).mpr ?_
  · intro marks value isText'
    rw [String.toList_ofList] at isText'
    obtain ⟨rfl, _⟩ := isText.unique isText'
    decide
  · intro marks value isText'
    rw [String.toList_ofList] at isText'
    obtain ⟨rfl, _⟩ := isText.unique isText'
    rfl

def signedText : List Char := ['"', '\\', 'u', '+', '0', '4', '1', '"']

theorem signedText_isText
    : IsText ⟨0, 1, 0⟩ (Value.str (String.ofList ['A']) : Value M) signedText := by
  have hex : Hex4 1 ['+', '0', '4', '1', '"'] 65 ['"'] := .signed rfl
  have content : Content ⟨0, 1, 0⟩ ['\\', 'u', '+', '0', '4', '1', '"'] ['A'] [] :=
    .escape (.unit hex (by decide)) .close
  exact ⟨_, [], .done, .string content, .done⟩

theorem not_sameLanguage_signedText
    : @InScope Unit halves (String.ofList signedText)
      ∧ ¬ @SameLanguage Unit halves (String.ofList signedText) := by
  let _ := halves
  have isText := signedText_isText (M := Unit)
  have scope : InScope Unit (String.ofList signedText) := by
    intro marks value isText'
    rw [String.toList_ofList] at isText'
    obtain ⟨rfl, _⟩ := isText.unique isText'
    decide
  refine ⟨scope, ?_⟩
  intro same
  have accepted : Layout.Json.parse (M := Unit) (String.ofList signedText)
      = .ok (.str (String.ofList ['A'])) := by
    refine (layout_iff scope _).mpr ⟨⟨0, 1, 0⟩, ?_⟩
    rw [String.toList_ofList]
    exact isText
  obtain ⟨marks, isText', signs⟩ := (same.layout _).mp accepted
  rw [String.toList_ofList] at isText'
  obtain ⟨rfl, _⟩ := isText.unique isText'
  exact absurd signs (by decide)

end MokuroBunko.Library.JsonAgreement

namespace MokuroBunko.Library.JsonRoundTrip

open MokuroBunko.Lib MokuroBunko.Lib.Json

variable {M : Type} [FloatText M]

/-- Both parsers give the value for the text. -/
structure ReadBack (value : Value M) (text : String) : Prop where
  layout : Layout.Json.parse text = .ok value
  library : PyJson.parse text = .ok value

theorem readBack_text {printer : Printer M} (sound : printer.Sound) {value : Value M}
    (canonical : value.Canonical) (nesting : value.nesting ≤ PyJson.maxDepth)
    : ReadBack value (String.ofList (printer.text value)) := by
  have reads := Printer.text_reads sound value (Printer.readable_of_canonical sound value canonical) []
  rw [List.append_nil] at reads
  have isText : IsText ⟨value.nesting, 0, 0⟩ value (String.ofList (printer.text value)).toList := by
    rw [String.toList_ofList]
    exact ⟨_, [], .done, reads, .done⟩
  exact
    {
      layout := Layout.Json.parse_iff.mpr ⟨_, isText, rfl⟩
      library := PyJson.parse_iff.mpr ⟨_, isText, rfl, nesting⟩
    }

/-- Of a canonical value that nests no deeper than the library's limit, both parsers read back the
layout crate's text with either separators, and the library crate's, which is refused only for an
infinite float where those are not allowed.
-/
theorem dumps_readBack (inverse : FloatText.Inverse M) {value : Value M}
    (canonical : value.Canonical) (nesting : value.nesting ≤ PyJson.maxDepth)
    : (∀ sep, ReadBack value (Layout.Json.dumps value sep))
      ∧ ∀ options : PyJson.DumpOptions, options.Separate
        → (options.allowNan → ∃ text, PyJson.dumps value options = .ok text)
          ∧ ∀ text, PyJson.dumps value options = .ok text → ReadBack value text := by
  constructor
  · intro sep
    rw [Layout.Json.dumps, Layout.Json.writeTo_eq]
    exact readBack_text (Layout.Json.printer_sound inverse sep) canonical nesting
  · intro options separate
    have gives := PyJson.gives_writeValue options value
    constructor
    · intro allowed
      exact ⟨_, by rw [PyJson.dumps, gives.1 allowed]; rfl⟩
    · intro text written
      cases out : PyJson.writeValue options value with
      | error failure =>
          rw [PyJson.dumps, out] at written
          cases written
      | ok chars =>
          rw [PyJson.dumps, out] at written
          cases written
          rw [gives.2 chars out]
          exact readBack_text (PyJson.printer_sound inverse separate) canonical nesting

theorem halves_inverse : @FloatText.Inverse Unit JsonAgreement.halves := by
  let _ := JsonAgreement.halves
  refine ⟨rfl, fun value => if_neg ?_⟩
  have value : JsonAgreement.half.value = 5 * 10 ^ (-1 : ℤ) := by
    simp [JsonAgreement.half, Scientific.value, Scientific.digits, Nat.ofDigitChars]
  have nonzero : JsonAgreement.half.value ≠ 0 := by
    rw [value]
    norm_num
  exact nonzero

def sample : Value Unit :=
  .object
    [
      ("a", .array [.num (.float (.signed true (.finite ()))), .num (.float (.signed true .zero))]),
      ("b", .num (.bigInt (String.ofList (intText (10 ^ 20))))),
      ("c", .str (String.ofList ['\x07', Char.ofNat 0x1F600, '"']))
    ]

theorem dumps_readBack_sample
    : let _ := JsonAgreement.halves
      (∀ sep, ReadBack sample (Layout.Json.dumps sample sep))
        ∧ ∀ options : PyJson.DumpOptions, options.Separate
          → (options.allowNan → ∃ text, PyJson.dumps sample options = .ok text)
            ∧ ∀ text, PyJson.dumps sample options = .ok text → ReadBack sample text := by
  intro floats
  have canonical : sample.Canonical := by
    refine ⟨by decide, ?_, ?_, ?_, trivial⟩
    · exact ⟨trivial, trivial, trivial⟩
    · exact ⟨10 ^ 20, by decide, rfl⟩
    · trivial
  exact dumps_readBack halves_inverse canonical (by decide)

end MokuroBunko.Library.JsonRoundTrip
