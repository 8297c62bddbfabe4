import Mathlib.Data.List.Basic
import Mathlib.Tactic.Common

/-! The base 64 of bytes, with the alphabet for URLs and no padding.
-/

namespace MokuroBunko.Lib.Base64

def alphabet : List Char :=
  "ABCDEFGHIJKLMNOPQRSTUVWXYZabcdefghijklmnopqrstuvwxyz0123456789-_".toList

def symbol (sextet : ℕ) : Char := alphabet.getD sextet 'A'

def sextet (char : Char) : Option ℕ := alphabet.idxOf? char

/-- Three bytes give four symbols, and fewer at the end one more than they are. -/
def encode : List UInt8 → List Char
  | [] => []
  | [first] => [symbol (first.toNat / 4), symbol (first.toNat % 4 * 16)]
  | [first, second] =>
      [
        symbol (first.toNat / 4),
        symbol (first.toNat % 4 * 16 + second.toNat / 16),
        symbol (second.toNat % 16 * 4)
      ]
  | first :: second :: third :: rest =>
      symbol (first.toNat / 4)
        :: symbol (first.toNat % 4 * 16 + second.toNat / 16)
        :: symbol (second.toNat % 16 * 4 + third.toNat / 64)
        :: symbol (third.toNat % 64)
        :: encode rest

/-- The bytes of symbols. The bits that are over at the end are any, and a single symbol is none.
-/
def decode : List Char → Option (List UInt8)
  | [] => some []
  | [_] => none
  | [first, second] => do
      let a ← sextet first
      let b ← sextet second
      some [UInt8.ofNat (a * 4 + b / 16)]
  | [first, second, third] => do
      let a ← sextet first
      let b ← sextet second
      let c ← sextet third
      some [UInt8.ofNat (a * 4 + b / 16), UInt8.ofNat (b % 16 * 16 + c / 4)]
  | first :: second :: third :: fourth :: rest => do
      let a ← sextet first
      let b ← sextet second
      let c ← sextet third
      let d ← sextet fourth
      let more ← decode rest
      some (UInt8.ofNat (a * 4 + b / 16) :: UInt8.ofNat (b % 16 * 16 + c / 4)
        :: UInt8.ofNat (c % 4 * 64 + d) :: more)

theorem sextet_symbol : ∀ value < 64, sextet (symbol value) = some value := by
  decide +kernel

theorem symbol_mem : ∀ value < 64, symbol value ∈ alphabet := by
  decide +kernel

theorem toNat_lt (byte : UInt8) : byte.toNat < 256 := byte.toNat_lt

theorem ofNat_of_eq {value : ℕ} (byte : UInt8) (same : value = byte.toNat)
    : UInt8.ofNat value = byte := by
  rw [same, UInt8.ofNat_toNat]

theorem decode_encode (bytes : List UInt8) : decode (encode bytes) = some bytes := by
  induction bytes using encode.induct with
  | case1 => rfl
  | case2 first =>
      have bound := toNat_lt first
      rw [encode, decode, sextet_symbol _ (by omega), sextet_symbol _ (by omega)]
      simp only [Option.bind_eq_bind, Option.bind_some]
      rw [ofNat_of_eq first (by omega)]
  | case3 first second =>
      have bound := toNat_lt first
      have bound' := toNat_lt second
      rw [encode, decode, sextet_symbol _ (by omega), sextet_symbol _ (by omega),
        sextet_symbol _ (by omega)]
      simp only [Option.bind_eq_bind, Option.bind_some]
      rw [ofNat_of_eq first (by omega), ofNat_of_eq second (by omega)]
  | case4 first second third rest ih =>
      have bound := toNat_lt first
      have bound' := toNat_lt second
      have bound'' := toNat_lt third
      rw [encode, decode, sextet_symbol _ (by omega), sextet_symbol _ (by omega),
        sextet_symbol _ (by omega), sextet_symbol _ (by omega), ih]
      simp only [Option.bind_eq_bind, Option.bind_some]
      rw [ofNat_of_eq first (by omega), ofNat_of_eq second (by omega),
        ofNat_of_eq third (by omega)]

theorem mem_alphabet_of_encode {bytes : List UInt8} : ∀ char ∈ encode bytes, char ∈ alphabet := by
  induction bytes using encode.induct with
  | case1 => simp [encode]
  | case2 first =>
      have bound := toNat_lt first
      simp only [encode, List.forall_mem_cons]
      exact ⟨symbol_mem _ (by omega), symbol_mem _ (by omega), List.forall_mem_nil _⟩
  | case3 first second =>
      have bound := toNat_lt first
      have bound' := toNat_lt second
      simp only [encode, List.forall_mem_cons]
      exact ⟨symbol_mem _ (by omega), symbol_mem _ (by omega), symbol_mem _ (by omega),
        List.forall_mem_nil _⟩
  | case4 first second third rest ih =>
      have bound := toNat_lt first
      have bound' := toNat_lt second
      have bound'' := toNat_lt third
      simp only [encode, List.forall_mem_cons]
      exact ⟨symbol_mem _ (by omega), symbol_mem _ (by omega), symbol_mem _ (by omega),
        symbol_mem _ (by omega), ih⟩

end MokuroBunko.Lib.Base64
