import MokuroBunko.Lib.Text

/-! Full case mappings of texts: what a character becomes may depend on those around it, and
ASCII endings are kept.
-/

namespace MokuroBunko.Lib

-- Bytes

/-- The bytes of a text in UTF-8. -/
def utf8Length : List Char → ℕ
  | [] => 0
  | char :: rest => char.utf8Size + utf8Length rest

theorem utf8Length_append (left right : List Char)
    : utf8Length (left ++ right) = utf8Length left + utf8Length right := by
  induction left with
  | nil => exact (Nat.zero_add _).symm
  | cons char left ih =>
      rw [List.cons_append, utf8Length, utf8Length, ih, Nat.add_assoc]

/-- The text up to a byte. Nothing comes out where no character ends. -/
def takeBytes : ℕ → List Char → Option (List Char)
  | 0, _ => some []
  | _ + 1, [] => none
  | bytes + 1, char :: rest =>
      if char.utf8Size ≤ bytes + 1 then
        (takeBytes (bytes + 1 - char.utf8Size) rest).map (char :: ·)
      else none

theorem takeBytes_append (front back : List Char)
    : takeBytes (utf8Length front) (front ++ back) = some front := by
  induction front with
  | nil =>
      cases back with
      | nil => rfl
      | cons char back => rfl
  | cons char front ih =>
      have positive := char.utf8Size_pos
      obtain ⟨bytes, sized⟩ : ∃ bytes, utf8Length (char :: front) = bytes + 1 :=
        ⟨utf8Length (char :: front) - 1, by rw [utf8Length]; omega⟩
      have left : bytes + 1 - char.utf8Size = utf8Length front := by
        rw [← sized, utf8Length, Nat.add_sub_cancel_left]
      have fits : char.utf8Size ≤ bytes + 1 := by
        rw [← sized, utf8Length]
        exact Nat.le_add_right _ _
      rw [sized, List.cons_append, takeBytes, if_pos fits, left, ih]
      rfl

-- Spellings

section Spelling

variable (piece : List Char → Char → List Char → List Char)

/-- The text written with what each character becomes between those before it, the nearest
first, and those after it. -/
def spell (before : List Char) : List Char → List Char → List Char
  | [], _ => []
  | char :: rest, after => piece before char (rest ++ after) ++ spell (char :: before) rest after

/-- ASCII letters are put in lower case, and nothing else becomes a text with one of the
endings. -/
structure KeepsEndings (endings : List Char) : Prop where
  ascii : ∀ before char after, char.toNat < 128
    → piece before char after = [Text.asciiLowerChar char]
  wide : ∀ before char after, 128 ≤ char.toNat
    → ∃ front last, piece before char after = front ++ [last] ∧ last ∉ endings

variable {piece}

theorem spell_append (before left right after : List Char)
    : spell piece before (left ++ right) after
      = spell piece before left (right ++ after)
        ++ spell piece (left.reverse ++ before) right after := by
  induction left generalizing before with
  | nil => rfl
  | cons char left ih =>
      rw [List.cons_append, spell, spell, ih, List.append_assoc, List.append_assoc,
        List.reverse_cons, List.append_assoc]
      rfl

theorem spell_singleton (before after : List Char) (char : Char)
    : spell piece before [char] after = piece before char after := by
  rw [spell, spell, List.append_nil, List.nil_append]

variable {endings : List Char}

theorem KeepsEndings.spell_ascii (keeps : KeepsEndings piece endings) {text : List Char}
    (ascii : ∀ char ∈ text, char.toNat < 128) (before after : List Char)
    : spell piece before text after = text.map Text.asciiLowerChar := by
  induction text generalizing before with
  | nil => rfl
  | cons char rest ih =>
      rw [spell, keeps.ascii _ _ _ (ascii char List.mem_cons_self),
        ih (fun other member => ascii other (List.mem_cons_of_mem _ member))]
      rfl

theorem asciiLowerChar_lt {char : Char}
    : (Text.asciiLowerChar char).toNat < 128 ↔ char.toNat < 128 := by
  unfold Text.asciiLowerChar
  split
  · rename_i upper
    have valid : (char.toNat + 32).isValidChar := Or.inl (by omega)
    have code : (Char.ofNat (char.toNat + 32)).toNat = char.toNat + 32 := by
      unfold Char.ofNat
      rw [dif_pos valid]
      rfl
    rw [code]
    omega
  · rfl

theorem KeepsEndings.endsWith_iff (keeps : KeepsEndings piece endings) {ending : List Char}
    (known : ∀ char ∈ ending, char ∈ endings) (ascii : ∀ char ∈ ending, char.toNat < 128)
    (before text after : List Char)
    : ending <:+ spell piece before text after
      ↔ ∃ stem tail, text = stem ++ tail ∧ tail.map Text.asciiLowerChar = ending := by
  constructor
  · intro ends
    induction ending using List.reverseRecOn generalizing text after with
    | nil => exact ⟨text, [], (List.append_nil text).symm, rfl⟩
    | append_singleton ending last ih =>
        obtain ⟨front, spelled⟩ := ends
        induction text using List.reverseRecOn with
        | nil => simp [spell] at spelled
        | append_singleton init char =>
            rw [spell_append, spell_singleton, ← List.append_assoc] at spelled
            obtain narrow | wide := Nat.lt_or_ge char.toNat 128
            · rw [keeps.ascii _ _ _ narrow] at spelled
              obtain ⟨front', same⟩ := List.append_inj' spelled rfl
              obtain ⟨stem, tail, rfl, lowered⟩ := ih
                (fun other member => known other (List.mem_append_left _ member))
                (fun other member => ascii other (List.mem_append_left _ member))
                init ([char] ++ after) ⟨front, front'⟩
              refine ⟨stem, tail ++ [char], List.append_assoc _ _ _, ?_⟩
              rw [List.map_append, lowered, same]
              rfl
            -- the last character would have to come from a wide one
            · obtain ⟨wide_front, other, became, absent⟩ := keeps.wide _ _ after wide
              rw [became, ← List.append_assoc] at spelled
              obtain ⟨_, same⟩ := List.append_inj' spelled rfl
              have same' : last = other := List.singleton_inj.mp same
              exact absurd (same' ▸ known last (List.mem_append_right _ List.mem_cons_self)) absent
  · intro ⟨stem, tail, split, lowered⟩
    have narrow : ∀ char ∈ tail, char.toNat < 128 := by
      intro char member
      apply asciiLowerChar_lt.mp
      exact ascii _ (lowered ▸ List.mem_map_of_mem member)
    rw [split, spell_append, keeps.spell_ascii narrow, lowered]
    exact List.suffix_append _ _

theorem KeepsEndings.map_of_spell_eq (keeps : KeepsEndings piece endings) {ending : List Char}
    (known : ∀ char ∈ ending, char ∈ endings) (ascii : ∀ char ∈ ending, char.toNat < 128)
    {before text after : List Char} (spelled : spell piece before text after = ending)
    : text.map Text.asciiLowerChar = ending := by
  have ends : ending <:+ spell piece before text after := spelled ▸ List.suffix_refl _
  obtain ⟨stem, tail, rfl, lowered⟩ := (keeps.endsWith_iff known ascii before text after).mp ends
  have narrow : ∀ char ∈ tail, char.toNat < 128 := by
    intro char member
    apply asciiLowerChar_lt.mp
    exact ascii _ (lowered ▸ List.mem_map_of_mem member)
  rw [spell_append, keeps.spell_ascii narrow, lowered] at spelled
  have empty : spell piece before stem (tail ++ after) = [] := by
    apply List.eq_nil_of_length_eq_zero
    have sizes := congrArg List.length spelled
    rw [List.length_append] at sizes
    omega
  cases stem with
  | nil => exact lowered
  | cons char rest =>
      rw [spell, List.append_eq_nil_iff] at empty
      obtain narrow | wide := Nat.lt_or_ge char.toNat 128
      · rw [keeps.ascii _ _ _ narrow] at empty
        exact absurd empty.1 (List.cons_ne_nil _ _)
      · obtain ⟨front, last, became, _⟩ := keeps.wide before char (rest ++ (tail ++ after)) wide
        rw [became] at empty
        exact absurd empty.1 (by simp)

end Spelling

-- Lower case

/-- The tables of a lower-case mapping: what a character becomes, and what the rule of the final
sigma asks. -/
structure LowerTables where
  lower : Char → List Char
  isCased : Char → Bool
  isCaseIgnorable : Char → Bool

namespace LowerTables

variable (tables : LowerTables)

def sigmaIsFinal (before after : List Char) : Bool :=
  (before.find? (fun char => ! tables.isCaseIgnorable char)).any tables.isCased
    && (after.find? (fun char => ! tables.isCaseIgnorable char)).all
      (fun char => ! tables.isCased char)

def piece (before : List Char) (char : Char) (after : List Char) : List Char :=
  if char = 'Σ' then [if tables.sigmaIsFinal before after then 'ς' else 'σ'] else tables.lower char

/-- `to_lowercase`, and `str.lower()`. -/
def toLowercase (text : List Char) : List Char := spell tables.piece [] text []

theorem utf8Length_spell (before before' text after after' : List Char)
    : utf8Length (spell tables.piece before text after)
      = utf8Length (spell tables.piece before' text after') := by
  induction text generalizing before before' with
  | nil => rfl
  | cons char rest ih =>
      rw [spell, spell, utf8Length_append, utf8Length_append, ih (char :: before)]
      congr 1
      unfold piece
      split
      · split <;> split <;> rfl
      · rfl

end LowerTables

theorem utf8Length_ascii {text : List Char} (ascii : ∀ char ∈ text, char.toNat < 128)
    : utf8Length text = text.length := by
  induction text with
  | nil => rfl
  | cons char rest ih =>
      have one : char.utf8Size = 1 := by
        have small := ascii char List.mem_cons_self
        exact Char.utf8Size_eq_one_iff.mpr (by
          rw [UInt32.le_iff_toNat_le]
          exact Nat.le_of_lt_succ small)
      rw [utf8Length, one, ih (fun other member => ascii other (List.mem_cons_of_mem _ member)),
        List.length_cons, Nat.add_comm]

theorem LowerTables.utf8Length_toLowercase_append {tables : LowerTables} {endings : List Char}
    (keeps : KeepsEndings tables.piece endings) (stem : List Char) {tail : List Char}
    (ascii : ∀ char ∈ tail, char.toNat < 128)
    : utf8Length (tables.toLowercase (stem ++ tail))
      = utf8Length (tables.toLowercase stem) + utf8Length tail := by
  have lowered : ∀ char ∈ tail.map Text.asciiLowerChar, char.toNat < 128 := by
    intro char member
    obtain ⟨other, listed, rfl⟩ := List.mem_map.mp member
    exact asciiLowerChar_lt.mpr (ascii other listed)
  unfold toLowercase
  rw [spell_append, utf8Length_append, keeps.spell_ascii ascii,
    tables.utf8Length_spell [] [] stem (tail ++ []) [], utf8Length_ascii ascii,
    utf8Length_ascii lowered, List.length_map]

/-- Lower case of ASCII letters, and of the dotted capital I, which becomes two characters. -/
def letterTables : LowerTables where
  lower := fun char =>
    if char = 'İ' then ['i', Char.ofNat 0x307] else [Text.asciiLowerChar char]
  isCased := fun char => char.isAlpha
  isCaseIgnorable := fun char => char == '.'

theorem forall_char {chars : List Char} {holds : Char → Prop} [DecidablePred holds]
    (all : chars.all (holds ·) = true)
    : ∀ char ∈ chars, holds char := by
  simpa using all

theorem letterTables_keep {endings : List Char} (narrow : ∀ char ∈ endings, char.toNat < 128)
    : KeepsEndings letterTables.piece endings where
  ascii before char after small := by
    have sigma : char ≠ 'Σ' := by
      intro same
      rw [same] at small
      exact absurd small (by decide)
    have dotted : char ≠ 'İ' := by
      intro same
      rw [same] at small
      exact absurd small (by decide)
    unfold LowerTables.piece
    rw [if_neg sigma]
    exact if_neg dotted
  wide before char after wide := by
    have outside : ∀ last : Char, 128 ≤ last.toNat → last ∉ endings := by
      intro last large member
      have small := narrow last member
      omega
    unfold LowerTables.piece
    split
    · refine ⟨[], _, rfl, outside _ ?_⟩
      split <;> decide
    · by_cases dotted : char = 'İ'
      · rw [dotted]
        exact ⟨['i'], Char.ofNat 0x307, rfl, outside _ (by decide)⟩
      · refine ⟨[], Text.asciiLowerChar char, if_neg dotted, outside _ ?_⟩
        by_contra small
        have small' := asciiLowerChar_lt.mp (Nat.lt_of_not_le small)
        omega

end MokuroBunko.Lib
