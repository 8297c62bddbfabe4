import Mathlib.Data.List.Basic
import Mathlib.Data.List.DropRight
import Mathlib.Data.List.Induction
import Mathlib.Data.String.Basic

/-! Text operations on the characters of a string, in a form that evaluates, and texts trimmed of a
separator, piece by piece.
-/

namespace MokuroBunko.Lib.Text

-- Characters

/-- The characters with the Unicode property `White_Space`. -/
def isWhitespace (char : Char) : Bool :=
  let code := char.toNat
  (9 ≤ code && code ≤ 13) || code == 0x20 || code == 0x85 || code == 0xA0
    || code == 0x1680 || (0x2000 ≤ code && code ≤ 0x200A) || code == 0x2028
    || code == 0x2029 || code == 0x202F || code == 0x205F || code == 0x3000

/-- Lower case of an ASCII letter, any other character as it is. -/
def asciiLowerChar (char : Char) : Char :=
  if 65 ≤ char.toNat ∧ char.toNat ≤ 90 then Char.ofNat (char.toNat + 32) else char

/-- Whether the character is an ASCII digit. -/
def isDigit (char : Char) : Bool := 48 ≤ char.toNat && char.toNat ≤ 57

theorem isWhitespace_of_range {char : Char} (low : 33 ≤ char.toNat) (high : char.toNat ≤ 126)
    : isWhitespace char = false := by
  unfold isWhitespace
  simp only [Bool.or_eq_false_iff, Bool.and_eq_false_iff, decide_eq_false_iff_not, beq_eq_false_iff_ne]
  omega

theorem isWhitespace_of_isDigit {char : Char} (digit : isDigit char) : isWhitespace char = false := by
  simp only [isDigit, Bool.and_eq_true, decide_eq_true_eq] at digit
  exact isWhitespace_of_range (by omega) (by omega)

theorem isDigit_of_toDigits {value : ℕ} {char : Char} (isIn : char ∈ Nat.toDigits 10 value)
    : isDigit char := by
  have digit := Nat.isDigit_of_mem_toDigits (by decide) (by decide) isIn
  simp only [Char.isDigit, Bool.and_eq_true, decide_eq_true_eq] at digit
  simp only [isDigit, Bool.and_eq_true, decide_eq_true_eq]
  exact ⟨digit.1, digit.2⟩

-- Strings

/-- The text without its leading and trailing whitespace. -/
def trim (text : String) : String :=
  String.ofList (((text.toList.dropWhile isWhitespace).reverse.dropWhile isWhitespace).reverse)

theorem trim_eq_self {text : String} (plain : ∀ char ∈ text.toList, isWhitespace char = false)
    : trim text = text := by
  have kept {chars : List Char} (none : ∀ char ∈ chars, isWhitespace char = false)
      : chars.dropWhile isWhitespace = chars := by
    cases chars with
    | nil => rfl
    | cons char rest =>
        apply List.dropWhile_cons_of_neg
        simp [none char List.mem_cons_self]
  rw [trim, kept plain, kept, List.reverse_reverse, String.ofList_toList]
  intro char isChar
  exact plain char (List.mem_reverse.mp isChar)

/-- What `str.isspace()` takes for a space: whitespace and the four separator controls. -/
def isSpace (char : Char) : Bool :=
  isWhitespace char || (0x1C ≤ char.toNat && char.toNat ≤ 0x1F)

/-- `str.strip()`. -/
def strip (text : String) : String :=
  String.ofList (((text.toList.dropWhile isSpace).reverse.dropWhile isSpace).reverse)

/-- The text with its ASCII letters in lower case. -/
def asciiLower (text : String) : String := String.ofList (text.toList.map asciiLowerChar)

/-- The text without the leading copies of the character. -/
def trimStartMatches (char : Char) (text : String) : String :=
  String.ofList (text.toList.dropWhile (· == char))

/-- The text without the leading and trailing copies of the character. -/
def trimMatches (char : Char) (text : String) : String :=
  String.ofList (((text.toList.dropWhile (· == char)).reverse.dropWhile (· == char)).reverse)

/-- What follows `opening`, if the text begins with it. -/
def stripPrefix (text opening : String) : Option String :=
  (opening.toList.isPrefixOf? text.toList).map String.ofList

/-- Whether the text begins with `opening`. -/
def startsWith (text opening : String) : Bool := opening.toList.isPrefixOf text.toList

/-- Whether `part` occurs somewhere in the text. -/
def contains (text part : String) : Bool :=
  text.toList.tails.any (fun tail => part.toList.isPrefixOf tail)

/-- The characters before and after the first `separator`, if it occurs. -/
def splitFirst (separator : Char) : List Char → Option (List Char × List Char)
  | [] => none
  | char :: rest =>
      if char = separator then some ([], rest)
      else (splitFirst separator rest).map (fun parts => (char :: parts.1, parts.2))

/-- The texts before and after the first `separator`, if it occurs. -/
def splitOnce (text : String) (separator : Char) : Option (String × String) :=
  (splitFirst separator text.toList).map
    (fun parts => (String.ofList parts.1, String.ofList parts.2))

theorem splitFirst_eq_some_iff {separator : Char} {chars before after : List Char}
    : splitFirst separator chars = some (before, after)
      ↔ chars = before ++ separator :: after ∧ separator ∉ before := by
  induction chars generalizing before with
  | nil => simp [splitFirst]
  | cons char rest ih =>
      by_cases same : char = separator
      · subst same
        cases before with
        | nil => simp [splitFirst, eq_comm]
        | cons first others =>
            simp only [splitFirst, if_true, List.cons_append, List.cons.injEq, List.mem_cons]
            constructor
            · intro split
              simp at split
            · rintro ⟨⟨rfl, -⟩, absent⟩
              exact absurd (Or.inl rfl) absent
      · cases before with
        | nil => simp [splitFirst, same]
        | cons first others =>
            have distinct : separator ≠ char := fun h => same h.symm
            simp only [splitFirst, same, if_false, Option.map_eq_some_iff, Prod.exists,
              Prod.mk.injEq, List.cons_append, List.cons.injEq, List.mem_cons, not_or]
            constructor
            · rintro ⟨front, back, split, ⟨rfl, rfl⟩, rfl⟩
              obtain ⟨rfl, absent⟩ := ih.mp split
              exact ⟨⟨rfl, rfl⟩, distinct, absent⟩
            · rintro ⟨⟨rfl, rfl⟩, -, absent⟩
              exact ⟨others, after, ih.mpr ⟨rfl, absent⟩, ⟨rfl, rfl⟩, rfl⟩

theorem splitFirst_isSome_iff {separator : Char} {chars : List Char}
    : (splitFirst separator chars).isSome ↔ separator ∈ chars := by
  induction chars with
  | nil => simp [splitFirst]
  | cons char rest ih =>
      by_cases same : char = separator
      · simp [splitFirst, same]
      · have distinct : ¬ separator = char := fun h => same h.symm
        simp [splitFirst, same, distinct, ih]

-- Segments

/-- The pieces of the text between the separators. -/
def segments (separator : Char) (text : String) : List String :=
  (text.toList.splitOn separator).map String.ofList

/-- The pieces with a separator between any two. -/
def join (separator : Char) (pieces : List String) : String :=
  String.ofList ([separator].intercalate (pieces.map String.toList))

@[simp] theorem join_segments (separator : Char) (text : String)
    : join separator (segments separator text) = text := by
  have read : ((text.toList.splitOn separator).map String.ofList).map String.toList
      = text.toList.splitOn separator := by
    rw [List.map_map]
    exact (List.map_congr_left (fun chars _ => String.toList_ofList)).trans (List.map_id _)
  rw [join, segments, read, List.intercalate_splitOn, String.ofList_toList]

theorem segments_join {separator : Char} {pieces : List String} (filled : pieces ≠ [])
    (plain : ∀ piece ∈ pieces, separator ∉ piece.toList)
    : segments separator (join separator pieces) = pieces := by
  rw [segments, join, String.toList_ofList, List.splitOn_intercalate separator]
  · rw [List.map_map]
    exact (List.map_congr_left (fun piece _ => String.ofList_toList)).trans (List.map_id _)
  · intro chars member
    obtain ⟨piece, listed, rfl⟩ := List.mem_map.mp member
    exact plain piece listed
  · simpa using filled

theorem not_mem_splitOn (separator : Char) (chars : List Char)
    : ∀ piece ∈ chars.splitOn separator, separator ∉ piece := by
  induction chars with
  | nil => simp
  | cons char rest ih =>
      rw [List.splitOn_cons_eq_if_modifyHead]
      split
      case isTrue => simpa using ih
      case isFalse other =>
        cases pieces : rest.splitOn separator with
        | nil => simp
        | cons first others =>
            rw [pieces] at ih
            intro piece member
            rcases List.mem_cons.mp member with same | later
            · have distinct : ¬ separator = char := fun eq => other (by simp [eq])
              rw [same, List.mem_cons, not_or]
              exact ⟨distinct, ih first (by simp)⟩
            · exact ih piece (by simp [later])

theorem not_mem_segment {separator : Char} {text piece : String}
    (member : piece ∈ segments separator text)
    : separator ∉ piece.toList := by
  obtain ⟨chars, listed, rfl⟩ := List.mem_map.mp member
  rw [String.toList_ofList]
  exact not_mem_splitOn separator text.toList chars listed

theorem segments_ne_nil (separator : Char) (text : String) : segments separator text ≠ [] := by
  simp [segments]

theorem trimMatches_trimmed (separator : Char) (text : String)
    : trimMatches separator (String.ofList [separator] ++ trimMatches separator text)
      = trimMatches separator text := by
  have inner : ((text.toList.dropWhile (· == separator)).rdropWhile (· == separator)).dropWhile
        (· == separator)
      = (text.toList.dropWhile (· == separator)).rdropWhile (· == separator) := by
    obtain ⟨rest, whole⟩ := List.rdropWhile_prefix (· == separator)
      (l := text.toList.dropWhile (· == separator))
    cases kept : (text.toList.dropWhile (· == separator)).rdropWhile (· == separator) with
    | nil => rfl
    | cons first others =>
        refine List.dropWhile_cons_of_neg ?_
        have head := List.head?_dropWhile_not (· == separator) text.toList
        rw [← whole, kept] at head
        simpa using head
  have trimmed : trimMatches separator text
      = String.ofList ((text.toList.dropWhile (· == separator)).rdropWhile (· == separator)) := rfl
  rw [trimmed, trimMatches]
  simp only [String.toList_append, String.toList_ofList, List.singleton_append, BEq.rfl,
    List.dropWhile_cons_of_pos]
  rw [inner]
  exact congrArg String.ofList (List.rdropWhile_idempotent _ _)

theorem splitOn_dropWhile {separator : Char} {chars : List Char}
    (filled : ∃ char ∈ chars, char ≠ separator)
    : (chars.dropWhile (· == separator)).splitOn separator
      = (chars.splitOn separator).dropWhile (· = []) := by
  induction chars with
  | nil => obtain ⟨char, member, -⟩ := filled; cases member
  | cons char rest ih =>
      rw [List.splitOn_cons_eq_if_modifyHead]
      by_cases same : char = separator
      · have later : ∃ char ∈ rest, char ≠ separator := by
          obtain ⟨other, member, differs⟩ := filled
          rcases List.mem_cons.mp member with rfl | member
          · exact absurd same differs
          · exact ⟨other, member, differs⟩
        simp [same, ih later]
      · cases pieces : rest.splitOn separator with
        | nil => exact absurd pieces (List.splitOn_ne_nil _ _)
        | cons first others =>
            simp [same, pieces, List.splitOn_cons_eq_if_modifyHead]

theorem getLast_splitOn_ne_nil {separator last : Char} {chars : List Char}
    (other : last ≠ separator)
    : ((chars ++ [last]).splitOn separator).getLast? ≠ some [] := by
  induction chars with
  | nil => simp [List.splitOn_cons_eq_if_modifyHead, other]
  | cons char rest ih =>
      rw [List.cons_append, List.splitOn_cons_eq_if_modifyHead]
      match pieces : (rest ++ [last]).splitOn separator with
      | [] => exact absurd pieces (List.splitOn_ne_nil _ _)
      | [only] =>
          split
          · rw [pieces] at ih
            simpa using ih
          · simp
      | first :: second :: others =>
          rw [pieces] at ih
          split <;> simpa using ih

theorem splitOn_rdropWhile {separator : Char} {chars : List Char}
    (filled : ∃ char ∈ chars, char ≠ separator)
    : (chars.rdropWhile (· == separator)).splitOn separator
      = (chars.splitOn separator).rdropWhile (· = []) := by
  induction chars using List.reverseRecOn with
  | nil => obtain ⟨char, member, -⟩ := filled; cases member
  | append_singleton body char ih =>
      by_cases same : char = separator
      · subst same
        have before : ∃ other ∈ body, other ≠ char := by
          obtain ⟨other, member, differs⟩ := filled
          rcases List.mem_append.mp member with member | member
          · exact ⟨other, member, differs⟩
          · exact absurd (List.mem_singleton.mp member) differs
        rw [List.rdropWhile_concat_pos _ _ _ (by simp), ih before, List.splitOn_append_cons_self,
          List.splitOn_nil, List.rdropWhile_concat_pos _ _ _ (by simp)]
      · rw [List.rdropWhile_concat_neg _ _ _ (by simpa using same), eq_comm,
          List.rdropWhile_eq_self_iff]
        intro some_piece empty
        refine @getLast_splitOn_ne_nil separator char body same ?_
        rw [List.getLast?_eq_getLast_of_ne_nil some_piece]
        simpa using empty

theorem segments_trimMatches {separator : Char} {text : String}
    (filled : trimMatches separator text ≠ "")
    : segments separator (trimMatches separator text)
      = ((segments separator text).dropWhile (· = "")).rdropWhile (· = "") := by
  have some_other : ∃ char ∈ text.toList, char ≠ separator := by
    by_contra all
    simp only [not_exists, not_and, not_not] at all
    refine filled ?_
    have gone : text.toList.dropWhile (· == separator) = [] :=
      List.dropWhile_eq_nil_iff.mpr fun char member => by simpa using all char member
    simp [trimMatches, gone]
  have rest_other : ∃ char ∈ text.toList.dropWhile (· == separator), char ≠ separator := by
    by_contra all
    simp only [not_exists, not_and, not_not] at all
    refine filled ?_
    have gone : (text.toList.dropWhile (· == separator)).reverse.dropWhile (· == separator) = [] :=
      List.dropWhile_eq_nil_iff.mpr fun char member => by
        simpa using all char (List.mem_reverse.mp member)
    simp [trimMatches, gone]
  have trimmed : trimMatches separator text
      = String.ofList ((text.toList.dropWhile (· == separator)).rdropWhile (· == separator)) := rfl
  rw [trimmed, segments, String.toList_ofList, splitOn_rdropWhile rest_other,
    splitOn_dropWhile some_other, segments]
  have empties : (fun piece : String => decide (piece = "")) ∘ String.ofList
      = fun piece : List Char => decide (piece = []) := by
    funext piece
    simp
  rw [List.dropWhile_map, empties, List.rdropWhile, List.rdropWhile, ← List.map_reverse,
    List.dropWhile_map, empties, List.map_reverse]

end MokuroBunko.Lib.Text
