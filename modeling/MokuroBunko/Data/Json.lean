import MokuroBunko.Lib.OrderedMap
import MokuroBunko.Lib.Text
import Mathlib.Data.Rat.Floor
import Mathlib.Algebra.Order.Ring.Rat

/-! JSON values as the records and status trees carry them, and the lenient readings of
`py.rs`: a bool is never a number, and what is not of the asked kind reads as nothing.
Floats are exact rationals.
-/

namespace MokuroBunko.Data

open MokuroBunko.Lib

-- Values

/-- A JSON number: whole numbers and floats are told apart. -/
inductive Number where
  | int (value : ℤ)
  | float (value : ℚ)
deriving DecidableEq

/-- A JSON value. An object keeps its fields in order. -/
inductive Json where
  | null
  | bool (value : Bool)
  | num (value : Number)
  | str (value : String)
  | arr (items : List Json)
  | obj (fields : List (String × Json))

/-- A JSON object, as the loosely typed cards and records are. -/
abbrev Object := List (String × Json)

instance : Inhabited Json := ⟨.null⟩

mutual
/-- Equality of values is decidable, field by field in order. -/
def Json.decEq : (left right : Json) → Decidable (left = right)
  | .null, .null => isTrue rfl
  | .bool a, .bool b => decidable_of_iff (a = b) (by simp)
  | .num a, .num b => decidable_of_iff (a = b) (by simp)
  | .str a, .str b => decidable_of_iff (a = b) (by simp)
  | .arr a, .arr b =>
      match Json.decEqItems a b with
      | isTrue same => isTrue (by rw [same])
      | isFalse differ => isFalse (by simpa using differ)
  | .obj a, .obj b =>
      match Json.decEqFields a b with
      | isTrue same => isTrue (by rw [same])
      | isFalse differ => isFalse (by simpa using differ)
  | .null, .bool _ | .null, .num _ | .null, .str _ | .null, .arr _ | .null, .obj _
  | .bool _, .null | .bool _, .num _ | .bool _, .str _ | .bool _, .arr _ | .bool _, .obj _
  | .num _, .null | .num _, .bool _ | .num _, .str _ | .num _, .arr _ | .num _, .obj _
  | .str _, .null | .str _, .bool _ | .str _, .num _ | .str _, .arr _ | .str _, .obj _
  | .arr _, .null | .arr _, .bool _ | .arr _, .num _ | .arr _, .str _ | .arr _, .obj _
  | .obj _, .null | .obj _, .bool _ | .obj _, .num _ | .obj _, .str _ | .obj _, .arr _ =>
      isFalse (by simp)

/-- Equality of item lists is decidable. -/
def Json.decEqItems : (left right : List Json) → Decidable (left = right)
  | [], [] => isTrue rfl
  | [], _ :: _ => isFalse (by simp)
  | _ :: _, [] => isFalse (by simp)
  | a :: as, b :: bs =>
      match Json.decEq a b, Json.decEqItems as bs with
      | isTrue same, isTrue rest => isTrue (by rw [same, rest])
      | isFalse differ, _ => isFalse (by simp [differ])
      | _, isFalse differ => isFalse (by simp [differ])

/-- Equality of field lists is decidable. -/
def Json.decEqFields : (left right : List (String × Json)) → Decidable (left = right)
  | [], [] => isTrue rfl
  | [], _ :: _ => isFalse (by simp)
  | _ :: _, [] => isFalse (by simp)
  | (k, a) :: as, (l, b) :: bs =>
      match instDecidableEqString k l, Json.decEq a b, Json.decEqFields as bs with
      | isTrue key, isTrue same, isTrue rest => isTrue (by rw [key, same, rest])
      | isFalse differ, _, _ => isFalse (by simp [differ])
      | _, isFalse differ, _ => isFalse (by simp [differ])
      | _, _, isFalse differ => isFalse (by simp [differ])
end

instance : DecidableEq Json := Json.decEq

-- Fields of an object

namespace Object

/-- `Map::get`. -/
def get? (object : Object) (key : String) : Option Json := Entries.get? key object

/-- `Map::insert`: a known key keeps its place. -/
def insert (object : Object) (key : String) (value : Json) : Object :=
  Entries.insert key value object

/-- `Map::shift_remove`. -/
def remove (object : Object) (key : String) : Object := Entries.erase key object

@[simp] theorem get?_nil (key : String) : get? ([] : Object) key = none := rfl

@[simp] theorem get?_cons (field : String × Json) (rest : Object) (key : String)
    : get? (field :: rest) key = if field.1 = key then some field.2 else get? rest key := rfl

@[simp] theorem get?_insert (object : Object) (key asked : String) (value : Json)
    : get? (insert object key value) asked
      = if asked = key then some value else get? object asked :=
  Entries.get?_insert key asked value object

@[simp] theorem get?_remove (object : Object) (key asked : String)
    : get? (remove object key) asked = if asked = key then none else get? object asked :=
  Entries.get?_erase key asked object

end Object

namespace Json

/-- `Value::as_str`. -/
def asStr? : Json → Option String
  | .str value => some value
  | _ => none

/-- `Value::as_bool`. -/
def asBool? : Json → Option Bool
  | .bool value => some value
  | _ => none

/-- `Value::as_array`. -/
def asArray? : Json → Option (List Json)
  | .arr items => some items
  | _ => none

/-- `Value::as_object`. -/
def asObject? : Json → Option Object
  | .obj fields => some fields
  | _ => none

@[simp] theorem asStr?_str (value : String) : (Json.str value).asStr? = some value := rfl
@[simp] theorem asBool?_bool (value : Bool) : (Json.bool value).asBool? = some value := rfl
@[simp] theorem asArray?_arr (items : List Json) : (Json.arr items).asArray? = some items := rfl
@[simp] theorem asObject?_obj (fields : Object) : (Json.obj fields).asObject? = some fields := rfl

end Json

-- Numbers

/-- The largest `i64`. -/
def i64Max : ℤ := 9223372036854775807

/-- The smallest `i64`. -/
def i64Min : ℤ := -9223372036854775808

/-- `x.trunc() as i64`: towards zero, saturating. -/
def truncToI64 (value : ℚ) : ℤ :=
  max i64Min (min i64Max (if 0 ≤ value then ⌊value⌋ else ⌈value⌉))

/-- `Number::as_f64`. -/
def Number.asF64 : Number → ℚ
  | .int value => value
  | .float value => value

/-- `as_float`: a JSON number, nothing for a bool or anything else. -/
def asFloat (value : Option Json) : Option ℚ :=
  match value with
  | some (.num number) => some number.asF64
  | _ => none

/-- `as_int`: a JSON number truncated towards zero, nothing for a bool or anything else. -/
def asInt (value : Option Json) : Option ℤ :=
  match value with
  | some (.num (.int number)) => some (min i64Max number)
  | some (.num (.float number)) => some (truncToI64 number)
  | _ => none

/-- `number_or_zero`. -/
def numberOrZero (value : Option Json) : ℚ := (asFloat value).getD 0

/-- `truthy`: Python truthiness of a JSON value. -/
def truthy (value : Option Json) : Bool :=
  match value with
  | none | some .null => false
  | some (.bool flag) => flag
  | some (.num number) => number.asF64 ≠ 0
  | some (.str text) => text ≠ ""
  | some (.arr items) => !items.isEmpty
  | some (.obj fields) => !fields.isEmpty

/-- `opt_str_value`: a text or null. -/
def optStrValue (value : Option String) : Json := value.elim .null .str

-- Numbers in texts

/-- The number the decimal digits write. -/
def digitsValue (digits : List Char) : ℕ :=
  digits.foldl (fun total digit => total * 10 + (digit.toNat - 48)) 0

/-- Whether the characters are one or more decimal digits. -/
def areDigits (chars : List Char) : Bool := !chars.isEmpty && chars.all Text.isDigit

/-- A leading sign and what follows it. -/
def splitSign : List Char → Bool × List Char
  | '-' :: rest => (true, rest)
  | '+' :: rest => (false, rest)
  | chars => (false, chars)

/-- `str::parse::<i64>`. -/
def parseI64 (text : List Char) : Option ℤ :=
  let (negative, digits) := splitSign text
  if areDigits digits then
    let value : ℤ := if negative then -(digitsValue digits : ℤ) else digitsValue digits
    if i64Min ≤ value ∧ value ≤ i64Max then some value else none
  else none

/-- `py_int`: `int(value)` of a number, a bool or a numeric text. -/
def pyInt (value : Option Json) : Option ℤ :=
  match value with
  | some (.bool flag) => some (if flag then 1 else 0)
  | some (.num _) => asInt value
  | some (.str text) => parseI64 ((Text.trim text).toList.filter (· ≠ '_'))
  | _ => none

/-- What a float read from a text may be. -/
inductive PyFloat where
  | finite (value : ℚ)
  | infinite (negative : Bool)
  | nan
deriving DecidableEq

namespace PyFloat

/-- The sum with a finite number. -/
def add (float : PyFloat) (more : ℚ) : PyFloat :=
  match float with
  | .finite value => .finite (value + more)
  | other => other

/-- Whether the float is below a finite number: nothing is below or above `nan`. -/
def lt (float : PyFloat) (limit : ℚ) : Bool :=
  match float with
  | .finite value => value < limit
  | .infinite negative => negative
  | .nan => false

/-- Whether the float is at most a finite number. -/
def le (float : PyFloat) (limit : ℚ) : Bool :=
  match float with
  | .finite value => value ≤ limit
  | .infinite negative => negative
  | .nan => false

end PyFloat

/-- An exponent: a sign and one or more digits. -/
def parseExponent (text : List Char) : Option ℤ :=
  let (negative, digits) := splitSign text
  if areDigits digits then
    some (if negative then -(digitsValue digits : ℤ) else digitsValue digits)
  else none

/-- A mantissa: digits with at most one point, at least one digit. -/
def parseMantissa (text : List Char) : Option ℚ :=
  let (whole, fraction) := (Text.splitFirst '.' text).getD (text, [])
  if areDigits (whole ++ fraction) then
    some (digitsValue (whole ++ fraction) / 10 ^ fraction.length)
  else none

/-- `str::parse::<f64>` of a text in lower case. -/
def parseF64 (text : List Char) : Option PyFloat :=
  let (negative, magnitude) := splitSign text
  if magnitude = "inf".toList ∨ magnitude = "infinity".toList then some (.infinite negative)
  else if magnitude = "nan".toList then some .nan
  else do
    let (mantissa, exponent) ←
      match Text.splitFirst 'e' magnitude with
      | some (front, back) => do some (← parseMantissa front, ← parseExponent back)
      | none => do some (← parseMantissa magnitude, (0 : ℤ))
    let value := mantissa * (10 : ℚ) ^ exponent
    some (.finite (if negative then -value else value))

/-- `py_float`: `float(value)` of a number, a bool or a numeric text. -/
def pyFloat (value : Option Json) : Option PyFloat :=
  match value with
  | some (.bool flag) => some (.finite (if flag then 1 else 0))
  | some (.num number) => some (.finite number.asF64)
  | some (.str text) =>
      let lower := Text.asciiLower (Text.trim text)
      if lower ∈ ["inf", "+inf", "infinity", "+infinity"] then some (.infinite false)
      else if lower ∈ ["-inf", "-infinity"] then some (.infinite true)
      else if lower ∈ ["nan", "+nan", "-nan"] then some .nan
      else parseF64 (lower.toList.filter (· ≠ '_'))
  | _ => none

end MokuroBunko.Data
