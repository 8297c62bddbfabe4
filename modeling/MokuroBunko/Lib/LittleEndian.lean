import Mathlib.Data.List.Basic
import Mathlib.Algebra.Order.Ring.Nat
import Mathlib.Tactic.Ring

/-! Little-endian numbers in lists of bytes, and where a run of bytes occurs for the last time.
-/

namespace MokuroBunko.Lib.LittleEndian

/-- The lowest bytes of a number, the lowest first. -/
def bytes : ℕ → ℕ → List UInt8
  | 0, _ => []
  | width + 1, number => UInt8.ofNat number :: bytes width (number / 256)

/-- The number the bytes stand for. -/
def value : List UInt8 → ℕ
  | [] => 0
  | byte :: rest => byte.toNat + 256 * value rest

@[simp] theorem length_bytes (width number : ℕ) : (bytes width number).length = width := by
  induction width generalizing number with
  | zero => rfl
  | succ width ih => rw [bytes, List.length_cons, ih]

theorem value_bytes {width number : ℕ} (small : number < 256 ^ width)
    : value (bytes width number) = number := by
  induction width generalizing number with
  | zero =>
      rw [Nat.pow_zero] at small
      rw [bytes, value]
      omega
  | succ width ih =>
      rw [Nat.pow_succ] at small
      rw [bytes, value, ih (by omega), UInt8.toNat_ofNat']
      omega

/-- Numbers one after another, each of its width. -/
def record (fields : List (ℕ × ℕ)) : List UInt8 :=
  fields.flatMap (fun field => bytes field.1 field.2)

@[simp] theorem length_record (fields : List (ℕ × ℕ))
    : (record fields).length = (fields.map Prod.fst).sum := by
  simp [record, List.length_flatMap]

theorem slice_record (index : ℕ) {fields : List (ℕ × ℕ)} {width number place : ℕ}
    {rest : List UInt8} (found : fields[index]? = some (width, number))
    (start : ((fields.take index).map Prod.fst).sum = place)
    : ((record fields ++ rest).drop place).take width = bytes width number := by
  obtain ⟨inside, read⟩ := List.getElem?_eq_some_iff.mp found
  have split : record fields = record (fields.take index)
      ++ (bytes width number ++ record (fields.drop (index + 1))) := by
    calc record fields
      _ = record (fields.take index ++ fields.drop index) := by rw [List.take_append_drop]
      _ = record (fields.take index) ++ record (fields.drop index) := List.flatMap_append
      _ = _ := by
          rw [List.drop_eq_getElem_cons inside, read]
          rfl
  rw [split, List.append_assoc, List.append_assoc, List.drop_left' (by rw [length_record, start]),
    List.take_left' (length_bytes width number)]

theorem value_record (index : ℕ) {fields : List (ℕ × ℕ)} {width number place : ℕ}
    {rest : List UInt8} (found : fields[index]? = some (width, number))
    (start : ((fields.take index).map Prod.fst).sum = place) (small : number < 256 ^ width)
    : value (((record fields ++ rest).drop place).take width) = number := by
  rw [slice_record index found start, value_bytes small]

/-- The last place where the pattern stands. -/
def lastPlace (pattern data : List UInt8) : Option ℕ :=
  (List.range (data.length + 1 - pattern.length)).reverse.find? (fun place =>
    pattern.isPrefixOf (data.drop place))

theorem lastPlace_eq {pattern data : List UInt8} {place : ℕ} (here : pattern <+: data.drop place)
    (inside : place + pattern.length ≤ data.length)
    (later : ∀ other, place < other → ¬ pattern <+: data.drop other)
    : lastPlace pattern data = some place := by
  have bound : place < data.length + 1 - pattern.length := by omega
  unfold lastPlace
  generalize data.length + 1 - pattern.length = count at bound
  induction count with
  | zero => cases bound
  | succ count ih =>
      rw [List.range_succ, List.reverse_append, List.reverse_singleton, List.singleton_append,
        List.find?_cons]
      obtain before | same := Nat.lt_or_eq_of_le (Nat.lt_succ_iff.mp bound)
      · have unmatched : pattern.isPrefixOf (data.drop count) = false := by
          apply Bool.eq_false_of_not_eq_true
          intro found
          exact later count before (List.isPrefixOf_iff_prefix.mp found)
        rw [unmatched]
        exact ih before
      · rw [← same, List.isPrefixOf_iff_prefix.mpr here]

end MokuroBunko.Lib.LittleEndian
