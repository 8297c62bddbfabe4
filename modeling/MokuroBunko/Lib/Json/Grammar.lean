import MokuroBunko.Lib.Json.Numerals
import MokuroBunko.Lib.OrderedMap

/-! JSON texts and the values they denote, with Python's `NaN` and infinities. The grammar is a
little wide: it also has escapes with a plus sign and escapes of lone surrogates, and counts them.
-/

namespace MokuroBunko.Lib.Json

-- Values

/-- A JSON value. An object keeps its fields in order. -/
inductive Value (M : Type) where
  | null
  | bool (value : Bool)
  | num (value : JsonNum M)
  | str (text : String)
  | array (items : List (Value M))
  | object (fields : List (String × Value M))

/-- The object of the members: of equal keys the first has the place and the last the value. -/
def objectOf {M : Type} (fields members : List (String × Value M)) : List (String × Value M) :=
  members.foldl (fun fields member => Entries.insert member.1 member.2 fields) fields

/-- The values that are written as a word. -/
def words {M : Type} : List (List Char × Value M) :=
  [
    (['n', 'u', 'l', 'l'], .null),
    (['t', 'r', 'u', 'e'], .bool true),
    (['f', 'a', 'l', 's', 'e'], .bool false),
    (['N', 'a', 'N'], .num (.float .nan)),
    (['I', 'n', 'f', 'i', 'n', 'i', 't', 'y'], .num (.float (.signed false .infinite))),
    (['-', 'I', 'n', 'f', 'i', 'n', 'i', 't', 'y'], .num (.float (.signed true .infinite)))
  ]

-- Marks

/-- How deep a text nests arrays and objects, and how many of its escapes have a sign for the first
digit or are of a lone surrogate.
-/
structure Marks where
  depth : ℕ
  signs : ℕ
  lones : ℕ
  deriving DecidableEq

namespace Marks

def plain : Marks := ⟨0, 0, 0⟩

def join (first second : Marks) : Marks :=
  ⟨max first.depth second.depth, first.signs + second.signs, first.lones + second.lones⟩

def nest (marks : Marks) : Marks := { marks with depth := marks.depth + 1 }

end Marks

-- White space

def isBlank (char : Char) : Bool := char = ' ' || char = '\t' || char = '\n' || char = '\r'

/-- White space, and the rest. -/
inductive Blank : List Char → List Char → Prop where
  | done {rest} : Blank rest rest
  | skip {char text rest} (blank : isBlank char) (more : Blank text rest) : Blank (char :: text) rest

-- Strings

/-- The value of a hexadecimal digit. -/
def hexDigit (char : Char) : Option ℕ :=
  if '0' ≤ char ∧ char ≤ '9' then some (char.toNat - 48)
  else if 'a' ≤ char ∧ char ≤ 'f' then some (char.toNat - 87)
  else if 'A' ≤ char ∧ char ≤ 'F' then some (char.toNat - 55)
  else none

def hexValue : List Char → ℕ → Option ℕ
  | [], value => some value
  | char :: rest, value => (hexDigit char).bind (fun digit => hexValue rest (value * 16 + digit))

/-- The four digits of a `\u` escape and their value. The first may be a plus sign. -/
inductive Hex4 : ℕ → List Char → ℕ → List Char → Prop where
  | plain {a b c d rest unit} (hex : hexValue [a, b, c, d] 0 = some unit)
    : Hex4 0 (a :: b :: c :: d :: rest) unit rest
  | signed {b c d rest unit} (hex : hexValue [b, c, d] 0 = some unit)
    : Hex4 1 ('+' :: b :: c :: d :: rest) unit rest

def isHigh (unit : ℕ) : Bool := 0xD800 ≤ unit && unit < 0xDC00

def isLow (unit : ℕ) : Bool := 0xDC00 ≤ unit && unit < 0xE000

/-- `char::from_u32`. -/
def fromU32 (code : ℕ) : Option Char := if code.isValidChar then some (Char.ofNat code) else none

/-- The code point of a surrogate pair. -/
def pairCode (high low : ℕ) : ℕ := 0x10000 + (high - 0xD800) * 1024 + (low - 0xDC00)

theorem fromU32_pairCode {high low : ℕ} (high_range : isHigh high) (low_range : isLow low)
    : fromU32 (pairCode high low) = some (Char.ofNat (pairCode high low)) := by
  simp only [isHigh, isLow, Bool.and_eq_true, decide_eq_true_eq] at high_range low_range
  have valid : (pairCode high low).isValidChar := by
    unfold pairCode Nat.isValidChar
    omega
  rw [fromU32, if_pos valid]

/-- The character of a `\u` escape, from its digits on. A lone surrogate has none of its own. -/
inductive Escape : Marks → List Char → Char → List Char → Prop where
  | unit {signs text code char rest} (hex : Hex4 signs text code rest)
      (isChar : fromU32 code = some char)
    : Escape ⟨0, signs, 0⟩ text char rest
  | pair {signs signs' text high more low rest} (hex : Hex4 signs text high ('\\' :: 'u' :: more))
      (high_range : isHigh high) (hex' : Hex4 signs' more low rest) (low_range : isLow low)
    : Escape ⟨0, signs + signs', 0⟩ text (Char.ofNat (pairCode high low)) rest
  | lone {signs text code rest} (hex : Hex4 signs text code rest) (noChar : fromU32 code = none)
      (alone : isHigh code → ∀ more, rest = '\\' :: 'u' :: more →
        ∀ signs' low after, Hex4 signs' more low after → ¬ isLow low)
    : Escape ⟨0, signs, 1⟩ text '\uFFFD' rest

/-- The characters that have an escape of one letter. -/
def shortEscape (letter : Char) : Option Char :=
  [
    ('"', '"'), ('\\', '\\'), ('/', '/'), ('b', '\x08'), ('f', '\x0c'), ('n', '\n'), ('r', '\r'),
    ('t', '\t')
  ].lookup letter

/-- What a string has between its quotes, from after the first to after the second. -/
inductive Content : Marks → List Char → List Char → List Char → Prop where
  | close {rest} : Content .plain ('"' :: rest) [] rest
  | char {marks char text chars rest} (quote : char ≠ '"') (backslash : char ≠ '\\')
      (control : 0x20 ≤ char.toNat) (more : Content marks text chars rest)
    : Content marks (char :: text) (char :: chars) rest
  | short {marks letter char text chars rest} (escape : shortEscape letter = some char)
      (more : Content marks text chars rest)
    : Content marks ('\\' :: letter :: text) (char :: chars) rest
  | escape {marks marks' digits char text chars rest} (escape : Escape marks digits char text)
      (more : Content marks' text chars rest)
    : Content (marks.join marks') ('\\' :: 'u' :: digits) (char :: chars) rest

-- Texts

/-- A value, or the values or members of an open array or object that is not empty. -/
inductive Piece (M : Type) where
  | value (value : Value M)
  | items (values : List (Value M))
  | members (members : List (String × Value M))

variable {M : Type} [FloatText M]

/-- The piece that the text begins with, and the rest of the text. -/
inductive Reads : Marks → Piece M → List Char → List Char → Prop where
  | word {name value rest} (listed : (name, value) ∈ words)
    : Reads .plain (.value value) (name ++ rest) rest
  | number {numeral : Numeral} {rest} (wellFormed : numeral.WellFormed)
    : Reads .plain (.value (.num numeral.value)) (numeral.text ++ rest) rest
  | string {marks text chars rest} (content : Content marks text chars rest)
    : Reads marks (.value (.str (String.ofList chars))) ('"' :: text) rest
  | emptyArray {text rest} (close : Blank text (']' :: rest))
    : Reads Marks.plain.nest (.value (.array [])) ('[' :: text) rest
  | array {marks text inner values rest} (gap : Blank text inner)
      (items : Reads marks (.items values) inner rest)
    : Reads marks.nest (.value (.array values)) ('[' :: text) rest
  | emptyObject {text rest} (close : Blank text ('}' :: rest))
    : Reads Marks.plain.nest (.value (.object [])) ('{' :: text) rest
  | object {marks text inner members rest} (gap : Blank text inner)
      (fields : Reads marks (.members members) inner rest)
    : Reads marks.nest (.value (.object (objectOf [] members))) ('{' :: text) rest
  | lastItem {marks value text after rest} (item : Reads marks (.value value) text after)
      (close : Blank after (']' :: rest))
    : Reads marks (.items [value]) text rest
  | nextItem {marks marks' value values text after next inner rest}
      (item : Reads marks (.value value) text after) (comma : Blank after (',' :: next))
      (gap : Blank next inner) (items : Reads marks' (.items values) inner rest)
    : Reads (marks.join marks') (.items (value :: values)) text rest
  | lastMember {marks marks' key text after next inner value end_ rest}
      (content : Content marks text key after) (colon : Blank after (':' :: next))
      (gap : Blank next inner) (field : Reads marks' (.value value) inner end_)
      (close : Blank end_ ('}' :: rest))
    : Reads (marks.join marks') (.members [(String.ofList key, value)]) ('"' :: text) rest
  | nextMember {marks marks' marks'' key text after next inner value end_ next' inner' members
      rest}
      (content : Content marks text key after) (colon : Blank after (':' :: next))
      (gap : Blank next inner) (field : Reads marks' (.value value) inner end_)
      (comma : Blank end_ (',' :: next')) (gap' : Blank next' inner')
      (fields : Reads marks'' (.members members) inner' rest)
    : Reads ((marks.join marks').join marks'') (.members ((String.ofList key, value) :: members))
        ('"' :: text) rest

/-- The text is that of a value, with white space around it. -/
def IsText (marks : Marks) (value : Value M) (text : List Char) : Prop :=
  ∃ inner after, Blank text inner ∧ Reads marks (.value value) inner after ∧ Blank after []

end MokuroBunko.Lib.Json
