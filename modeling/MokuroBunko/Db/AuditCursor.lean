import MokuroBunko.Db.PyFmt
import MokuroBunko.Lib.Base64
import MokuroBunko.Lib.Json.ReaderComplete

/-! The cursors of the audit log (`audit.rs`): a time and an id as one text, and back.
-/

namespace MokuroBunko.Db

open MokuroBunko.Lib MokuroBunko.Lib.Json

/-- `DbError::AuditQuery`. -/
structure AuditQueryError where
  message : String
  deriving DecidableEq

def badCursor : AuditQueryError := ⟨"cursor is not one this server gave out"⟩

-- The codec

/-- The text that is encoded: an array of both. -/
def cursorText (createdAt : String) (id : I64) : List Char :=
  '[' :: (PyFmt.writeStr createdAt true ++ ',' :: intText id.1 ++ [']'])

def auditCursor (createdAt : String) (id : I64) : String :=
  String.ofList (Base64.encode ((cursorText createdAt id).flatMap String.utf8EncodeChar))

/-- The symbols of either alphabet, in that for URLs. Others are dropped. -/
def cleanSymbol (char : Char) : Option Char :=
  if char = '-' ∨ char = '+' then some '-'
  else if char = '_' ∨ char = '/' then some '_'
  else if char.isAlphanum then some char
  else none

/-- No float is of any size: a cursor has none, so that how they are read is all the same. -/
instance : FloatText Empty where
  decidableEq := inferInstance
  round _ := .zero
  shortest value := value.elim
  nearest value _ := value.elim

/-- What `serde_json` takes: no signs in escapes, no lone surrogates, less than 128 levels. -/
def serde : Dialect where
  signed := false
  lone := false
  limit := some 127

/-- Whether the last item of the array is `-0`, a float to `serde_json`. -/
def endsMinusZero (text : List Char) : Bool :=
  let closed := text.reverse.dropWhile isBlank
  let inner := (closed.drop 1).dropWhile isBlank
  ['0', '-'].isPrefixOf inner

/-- `serde_json::from_slice`, for a text and an integer or a boolean, which is one as well. -/
def readCursor (bytes : List UInt8) : Option (String × I64) := do
  let chars ← (ByteArray.mk bytes.toArray).utf8Decode?
  match readText (M := Empty) serde chars.toList with
  | some (_, .array [.str createdAt, .num (.int id)]) =>
      if endsMinusZero chars.toList then none else some (createdAt, id)
  | some (_, .array [.str createdAt, .bool id]) =>
      some (createdAt, if id then ⟨1, by decide⟩ else ⟨0, by decide⟩)
  | _ => none

def auditUncursor (cursor : String) : Except AuditQueryError (String × I64) :=
  if ¬ cursor.toList.all (·.toNat < 128) then .error badCursor
  else
    match (Base64.decode (cursor.toList.filterMap cleanSymbol)).bind readCursor with
    | some key => .ok key
    | none => .error badCursor

-- Round trip

theorem cleanSymbol_alphabet
    : (Base64.alphabet.all fun char => cleanSymbol char = some char ∧ char.toNat < 128) = true := by
  decide +kernel

theorem mem_encode {bytes : List UInt8} {char : Char} (isIn : char ∈ Base64.encode bytes)
    : cleanSymbol char = some char ∧ char.toNat < 128 := by
  have isSymbol := Base64.mem_alphabet_of_encode char isIn
  have all := List.all_eq_true.mp cleanSymbol_alphabet char isSymbol
  exact of_decide_eq_true all

theorem filterMap_encode (bytes : List UInt8)
    : (Base64.encode bytes).filterMap cleanSymbol = Base64.encode bytes := by
  have same : (Base64.encode bytes).filterMap cleanSymbol
      = (Base64.encode bytes).filterMap some :=
    List.filterMap_congr fun _ isIn => (mem_encode isIn).1
  rw [same, List.filterMap_some]

theorem utf8Decode_bytes (chars : List Char)
    : (ByteArray.mk (chars.flatMap String.utf8EncodeChar).toArray).utf8Decode?
      = some chars.toArray := by
  have same : ByteArray.mk (chars.flatMap String.utf8EncodeChar).toArray = chars.utf8Encode := by
    rw [← List.data_toByteArray]
    rfl
  rw [same, List.utf8Decode?_utf8Encode]

theorem empty_inverse : FloatText.Inverse Empty where
  zero := rfl
  shortest value := value.elim

theorem readText_cursorText (createdAt : String) (id : I64)
    : readText (M := Empty) serde (cursorText createdAt id)
      = some (⟨1, 0, 0⟩, .array [.str createdAt, .num (.int id)]) := by
  rw [readText_iff]
  have sound := PyFmt.compactAscii_sound empty_inverse
  have canonical : (Value.array [.str createdAt, .num (.int id)] : Value Empty).Canonical :=
    ⟨trivial, trivial, trivial⟩
  have reads := Printer.text_reads sound _ (Printer.readable_of_canonical sound _ canonical) []
  have text : (PyFmt.printer (M := Empty) .compactAscii).text
      (.array [.str createdAt, .num (.int id)]) = cursorText createdAt id := by
    simp [Printer.text, Printer.itemsText, cursorText, PyFmt.printer, PyFmt.JsonStyle.compactAscii,
      Printer.string, PyFmt.writeStr, PyFmt.numberText]
  rw [List.append_nil, text] at reads
  refine ⟨⟨_, [], .done, reads, .done⟩, ⟨⟨fun some => absurd rfl some, ?_⟩, ?_⟩⟩
  · exact fun some => absurd rfl some
  · rintro limit ⟨⟩
    decide

theorem endsMinusZero_cursorText (createdAt : String) (id : I64)
    : endsMinusZero (cursorText createdAt id) = false := by
  have digits := @isDigit_toDigits id.1.natAbs
  have number := Nat.ofDigitChars_ten_toDigits (n := id.1.natAbs)
  have nonempty := Nat.toDigits_ne_nil (n := id.1.natAbs) (b := 10)
  obtain ⟨front, last, shown⟩ : ∃ front last, Nat.toDigits 10 id.1.natAbs = front ++ [last] :=
    ⟨_, _, (List.dropLast_append_getLast nonempty).symm⟩
  rw [shown] at digits number
  rw [List.forall_mem_append] at digits
  have notBlank : isBlank last = false := by
    have isDigit := digits.2 last List.mem_cons_self
    by_contra blank
    simp only [isBlank, Bool.not_eq_false, Bool.or_eq_true, decide_eq_true_eq] at blank
    obtain ((rfl | rfl) | rfl) | rfl := blank <;> exact absurd isDigit (by decide)
  obtain ⟨before, after⟩ : ∃ before, (cursorText createdAt id).reverse
      = ']' :: last :: (front.reverse ++ (if id.1 < 0 then ['-'] else []) ++ ',' :: before) := by
    refine ⟨(PyFmt.writeStr createdAt true).reverse ++ ['['], ?_⟩
    simp only [cursorText, intText, shown]
    split <;> simp
  have closed : (List.dropWhile isBlank (cursorText createdAt id).reverse).drop 1
      = last :: (front.reverse ++ (if id.1 < 0 then ['-'] else []) ++ ',' :: before) := by
    rw [after, List.dropWhile_cons_of_neg (by decide)]
    rfl
  simp only [endsMinusZero, closed]
  rw [List.dropWhile_cons_of_neg (by simp [notBlank])]
  rcases List.eq_nil_or_concat' front with rfl | ⟨more, digit, rfl⟩
  · split
    · rename_i negative
      have nonzero : last ≠ '0' := by
        rintro rfl
        have zero : Nat.ofDigitChars 10 ([] ++ ['0']) 0 = 0 := rfl
        omega
      simp [List.isPrefixOf, Ne.symm nonzero]
    · simp [List.isPrefixOf]
  · have isDigit := digits.1 digit (by simp)
    have other : '-' ≠ digit := by
      rintro rfl
      exact absurd isDigit (by decide)
    simp [List.isPrefixOf, other]

theorem auditUncursor_auditCursor (createdAt : String) (id : I64)
    : auditUncursor (auditCursor createdAt id) = .ok (createdAt, id) := by
  have ascii : (Base64.encode ((cursorText createdAt id).flatMap String.utf8EncodeChar)).all
      (·.toNat < 128) = true := by
    rw [List.all_eq_true]
    exact fun char isIn => decide_eq_true (mem_encode isIn).2
  simp only [auditUncursor, auditCursor, String.toList_ofList, ascii, not_true, if_false,
    filterMap_encode, Base64.decode_encode, Option.bind_some, readCursor, utf8Decode_bytes,
    Option.bind_eq_bind, readText_cursorText, endsMinusZero_cursorText]
  rfl

end MokuroBunko.Db
