import MokuroBunko.Lib.Slices

/-! Texts as their UTF-8 bytes: a slice stops inside a character.
-/

namespace MokuroBunko.Lib.Utf8

/-- The bytes, if they are those of a text. -/
def fromBytes (bytes : List UInt8) : Option (List UInt8) :=
  if (ByteArray.mk bytes.toArray).validateUTF8 then some bytes else none

/-- A byte at which a character may begin. -/
def beginsChar (byte : UInt8) : Bool := byte < 128 || 192 ≤ byte

/-- A place where a character begins, or one of the ends. -/
def isCharBoundary (text : List UInt8) (place : ℕ) : Bool :=
  place = 0 || place = text.length || text[place]?.elim false beginsChar

/-- A slice of a text, which must begin and end between characters. -/
def slice (text : List UInt8) (start finish : ℕ) : Sliced (List UInt8) :=
  if isCharBoundary text start ∧ isCharBoundary text finish then Sliced.slice text start finish
  else Sliced.stop

-- Where characters begin

theorem utf8EncodeChar_shape (char : Char)
    : ∃ lead tail, String.utf8EncodeChar char = lead :: tail
      ∧ ((lead < 128 ∧ tail = []) ∨ 192 ≤ lead) ∧ ∀ byte ∈ tail, 128 ≤ byte := by
  unfold String.utf8EncodeChar
  dsimp only
  generalize char.val.toNat = code
  have small {value : ℕ} (less : value < 128) : UInt8.ofNat value < 128 := by
    rw [UInt8.lt_iff_toNat_lt, UInt8.toNat_ofNat']
    change value % 256 < 128
    omega
  have large {value : ℕ} (notLess : 192 ≤ value) (isByte : value < 256)
      : 192 ≤ UInt8.ofNat value := by
    rw [UInt8.le_iff_toNat_le, UInt8.toNat_ofNat']
    change 192 ≤ value % 256
    omega
  have other {value : ℕ} (notLess : 128 ≤ value) (isByte : value < 256)
      : 128 ≤ UInt8.ofNat value := by
    rw [UInt8.le_iff_toNat_le, UInt8.toNat_ofNat']
    change 128 ≤ value % 256
    omega
  split
  · exact ⟨_, [], rfl, .inl ⟨small (by omega), rfl⟩, by simp⟩
  split
  · refine ⟨_, [_], rfl, .inr (large (by omega) (by omega)), ?_⟩
    simp only [List.mem_singleton, forall_eq]
    exact other (by omega) (by omega)
  split
  · refine ⟨_, [_, _], rfl, .inr (large (by omega) (by omega)), ?_⟩
    simp only [List.mem_cons, List.not_mem_nil, or_false, forall_eq_or_imp, forall_eq]
    exact ⟨other (by omega) (by omega), other (by omega) (by omega)⟩
  · refine ⟨_, [_, _, _], rfl, .inr (large (by omega) (by omega)), ?_⟩
    simp only [List.mem_cons, List.not_mem_nil, or_false, forall_eq_or_imp, forall_eq]
    exact ⟨other (by omega) (by omega), other (by omega) (by omega),
      other (by omega) (by omega)⟩

theorem beginsChar_head (chars : List Char)
    : ∀ byte ∈ (chars.flatMap String.utf8EncodeChar).head?, beginsChar byte = true := by
  cases chars with
  | nil => simp
  | cons char rest =>
      obtain ⟨lead, tail, encoded, begins, -⟩ := utf8EncodeChar_shape char
      rw [List.flatMap_cons, encoded, List.cons_append]
      rintro _ ⟨⟩
      unfold beginsChar
      rcases begins with ⟨ascii, -⟩ | large
      · simp [ascii]
      · simp [large]

theorem beginsChar_after {chars : List Char} {before after : List UInt8} {byte : UInt8}
    (spelled : chars.flatMap String.utf8EncodeChar = before ++ byte :: after)
    (small : byte < 128)
    : ∀ next ∈ after.head?, beginsChar next = true := by
  induction chars generalizing before with
  | nil => simp at spelled
  | cons char rest ih =>
      obtain ⟨lead, tail, encoded, begins, others⟩ := utf8EncodeChar_shape char
      rw [List.flatMap_cons, encoded] at spelled
      rcases List.append_eq_append_iff.mp spelled with ⟨more, rfl, later⟩ | ⟨more, first, later⟩
      · exact ih later
      · cases more with
        | nil =>
            rw [List.nil_append] at later
            exact @ih [] later.symm
        | cons same more =>
            obtain ⟨rfl, rfl⟩ := List.cons.inj later
            rcases before with _ | ⟨first', before⟩
            · obtain ⟨rfl, rfl⟩ := List.cons.inj first
              rcases begins with ⟨-, rfl⟩ | large
              · exact beginsChar_head rest
              · exact absurd small (UInt8.not_lt.mpr (UInt8.le_trans (by decide) large))
            · obtain ⟨-, rfl⟩ := List.cons.inj first
              exact absurd small (UInt8.not_lt.mpr (others byte (by simp)))

theorem slice_means {text : List UInt8} {start finish : ℕ} (begins : isCharBoundary text start)
    (ends : isCharBoundary text finish) (ordered : start ≤ finish)
    (within : finish ≤ text.length)
    : Sliced.Means (slice text start finish)
        (fun part => part = (text.take finish).drop start) := by
  unfold slice
  rw [if_pos ⟨begins, ends⟩]
  exact .slice ordered within

@[simp] theorem isCharBoundary_zero (text : List UInt8) : isCharBoundary text 0 = true := by
  simp [isCharBoundary]

@[simp] theorem isCharBoundary_length (text : List UInt8)
    : isCharBoundary text text.length = true := by
  simp [isCharBoundary]

theorem isCharBoundary_small {before after : List UInt8} {byte : UInt8} (small : byte < 128)
    : isCharBoundary (before ++ byte :: after) before.length = true := by
  simp [isCharBoundary, beginsChar, small]

theorem isCharBoundary_one {chars : List Char} {before after : List UInt8} {byte : UInt8}
    (spelled : chars.flatMap String.utf8EncodeChar = before ++ byte :: after)
    (small : byte < 128)
    : isCharBoundary (byte :: after) 1 = true := by
  have begins := beginsChar_after spelled small
  cases after with
  | nil => simp [isCharBoundary]
  | cons next after => simp [isCharBoundary, begins next rfl]

theorem fromBytes_eq_some_iff {bytes text : List UInt8}
    : fromBytes bytes = some text
      ↔ bytes = text ∧ ∃ chars : List Char, text = chars.flatMap String.utf8EncodeChar := by
  have isValid : (ByteArray.mk bytes.toArray).validateUTF8 = true
      ↔ ∃ chars : List Char, bytes = chars.flatMap String.utf8EncodeChar := by
    have same : ByteArray.mk bytes.toArray = bytes.toByteArray := by
      rw [← List.data_toByteArray]
    rw [ByteArray.validateUTF8_eq_true_iff, same]
    constructor
    · rintro ⟨chars, spelled⟩
      exact ⟨chars, List.toByteArray_inj.mp spelled⟩
    · rintro ⟨chars, rfl⟩
      exact ⟨chars, rfl⟩
  unfold fromBytes
  split
  case isTrue valid =>
    constructor
    · rintro ⟨⟩
      exact ⟨rfl, isValid.mp valid⟩
    · rintro ⟨rfl, -⟩
      rfl
  case isFalse invalid =>
    constructor
    · rintro ⟨⟩
    · rintro ⟨rfl, spelled⟩
      exact absurd (isValid.mpr spelled) invalid

end MokuroBunko.Lib.Utf8
