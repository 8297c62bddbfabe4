import Mathlib.Data.List.DropRight
import MokuroBunko.Lib.Json.Grammar

/-! A reader of JSON texts by recursive descent, for any choice of what it lets pass of the wide
grammar. It reads exactly the texts of the grammar whose marks it lets pass.
-/

namespace MokuroBunko.Lib.Json

theorem toOption_bind {ε α β : Type} (first : Except ε α) (next : α → Except ε β)
    : (first >>= next).toOption = first.toOption.bind (fun result => (next result).toOption) := by
  cases first <;> rfl

/-- What a reader lets pass: signs in escapes, lone surrogates (as U+FFFD), and how deep a
nesting.
-/
structure Dialect where
  signed : Bool
  lone : Bool
  limit : Option ℕ

namespace Dialect

/-- Whether the escapes with the marks are let pass. -/
structure Passes (dialect : Dialect) (marks : Marks) : Prop where
  signs : marks.signs ≠ 0 → dialect.signed
  lones : marks.lones ≠ 0 → dialect.lone

/-- Whether the nesting is let pass, inside of so many arrays and objects. -/
def Within (dialect : Dialect) (depth : ℕ) : Prop := ∀ limit ∈ dialect.limit, depth ≤ limit

/-- Whether a text with the marks is let pass, inside of so many arrays and objects. -/
structure Allows (dialect : Dialect) (depth : ℕ) (marks : Marks) : Prop
    extends dialect.Passes marks where
  within : dialect.Within (depth + marks.depth)

variable {dialect : Dialect} {depth : ℕ} {marks first second : Marks}

theorem passes_join : dialect.Passes (first.join second) ↔ dialect.Passes first ∧ dialect.Passes second := by
  constructor
  · intro passes
    have signs := passes.signs
    have lones := passes.lones
    simp only [Marks.join] at signs lones
    exact ⟨⟨fun some => signs (by omega), fun some => lones (by omega)⟩,
      ⟨fun some => signs (by omega), fun some => lones (by omega)⟩⟩
  · intro both
    constructor
    · intro some
      simp only [Marks.join] at some
      by_cases zero : first.signs = 0
      · exact both.2.signs (by omega)
      · exact both.1.signs zero
    · intro some
      simp only [Marks.join] at some
      by_cases zero : first.lones = 0
      · exact both.2.lones (by omega)
      · exact both.1.lones zero

theorem allows_join
    : dialect.Allows depth (first.join second)
      ↔ dialect.Allows depth first ∧ dialect.Allows depth second := by
  constructor
  · intro allows
    have passes := passes_join.mp allows.toPasses
    have within := allows.within
    simp only [Within, Marks.join] at within
    exact ⟨⟨passes.1, fun limit is => by have := within limit is; omega⟩,
      ⟨passes.2, fun limit is => by have := within limit is; omega⟩⟩
  · intro both
    refine ⟨passes_join.mpr ⟨both.1.toPasses, both.2.toPasses⟩, ?_⟩
    intro limit is
    have left := both.1.within limit is
    have right := both.2.within limit is
    simp only [Marks.join]
    omega

theorem allows_nest : dialect.Allows depth marks.nest ↔ dialect.Allows (depth + 1) marks := by
  constructor <;>
  · intro allows
    refine ⟨⟨allows.signs, allows.lones⟩, ?_⟩
    intro limit is
    have bound := allows.within limit is
    simp only [Marks.nest] at bound ⊢
    omega

theorem allows_plain (within : dialect.Within depth) : dialect.Allows depth .plain :=
  ⟨⟨by simp [Marks.plain], by simp [Marks.plain]⟩, within⟩

theorem Passes.allows (passes : dialect.Passes marks) (flat : marks.depth = 0)
    (within : dialect.Within depth)
    : dialect.Allows depth marks :=
  ⟨passes, by rw [flat]; exact within⟩

end Dialect

-- Reading

def skipBlank (text : List Char) : List Char := text.dropWhile isBlank

theorem skipBlank_skipBlank (text : List Char) : skipBlank (skipBlank text) = skipBlank text :=
  List.dropWhile_idempotent _ _

variable (dialect : Dialect)

def readHex4 (text : List Char) : Option (ℕ × ℕ × List Char) :=
  match text with
  | a :: b :: c :: d :: rest =>
      if a = '+' then
        if dialect.signed then (hexValue [b, c, d] 0).map (fun unit => (1, unit, rest)) else none
      else (hexValue [a, b, c, d] 0).map (fun unit => (0, unit, rest))
  | _ => none

/-- One code unit by itself. -/
def readUnit (signs code : ℕ) (rest : List Char) : Option (Marks × Char × List Char) :=
  match fromU32 code with
  | some char => some (⟨0, signs, 0⟩, char, rest)
  | none => if dialect.lone then some (⟨0, signs, 1⟩, '\uFFFD', rest) else none

/-- What follows a `\u`, if the text begins with one. -/
def escapeAfter (text : List Char) : Option (List Char) := ['\\', 'u'].isPrefixOf? text

theorem escapeAfter_eq_some {text more : List Char}
    : escapeAfter text = some more ↔ text = '\\' :: 'u' :: more := by
  rw [escapeAfter, List.isPrefixOf?_eq_some_iff_append_eq]
  exact eq_comm

/-- The character of a `\u` escape, of two escapes if they are a surrogate pair. -/
def readEscape (text : List Char) : Option (Marks × Char × List Char) := do
  let (signs, code, rest) ← readHex4 dialect text
  match escapeAfter rest with
  | some more =>
      if isHigh code then
        let (signs', low, after) ← readHex4 dialect more
        if isLow low then
          some (⟨0, signs + signs', 0⟩, Char.ofNat (pairCode code low), after)
        else readUnit dialect signs code rest
      else readUnit dialect signs code rest
  | none => readUnit dialect signs code rest

def readContent : ℕ → List Char → Option (Marks × List Char × List Char)
  | 0, _ => none
  | fuel + 1, text =>
      match text with
      | [] => none
      | char :: text =>
          if char = '"' then some (.plain, [], text)
          else if char = '\\' then
            match text with
            | [] => none
            | letter :: text =>
                if letter = 'u' then do
                  let (marks, char, text) ← readEscape dialect text
                  let (marks', chars, rest) ← readContent fuel text
                  some (marks.join marks', char :: chars, rest)
                else do
                  let char ← shortEscape letter
                  let (marks, chars, rest) ← readContent fuel text
                  some (marks, char :: chars, rest)
          else if char.toNat < 0x20 then none
          else do
            let (marks, chars, rest) ← readContent fuel text
            some (marks, char :: chars, rest)

variable {M : Type} [FloatText M]

def readWord (text : List Char) : Option (Value M × List Char) :=
  words.findSome? (fun word => (word.1.isPrefixOf? text).map (fun rest => (word.2, rest)))

/-- Whether an array or object may open there. -/
def mayEnter (depth : ℕ) : Bool := dialect.limit.all (fun limit => depth + 1 ≤ limit)

theorem mayEnter_iff {depth : ℕ} : mayEnter dialect depth = true ↔ dialect.Within (depth + 1) := by
  unfold mayEnter Dialect.Within
  cases dialect.limit <;> simp

mutual

def readValue : ℕ → ℕ → List Char → Option (Marks × Value M × List Char)
  | 0, _, _ => none
  | fuel + 1, depth, text =>
      match text with
      | [] => none
      | first :: rest =>
          if first = '"' then do
            let (marks, chars, rest) ← readContent dialect fuel rest
            some (marks, .str (String.ofList chars), rest)
          else if first = '{' then
            if mayEnter dialect depth then
              match skipBlank rest with
              | '}' :: after => some (Marks.plain.nest, .object [], after)
              | inner => do
                  let (marks, members, rest) ← readMembers fuel (depth + 1) inner
                  some (marks.nest, .object (objectOf [] members), rest)
            else none
          else if first = '[' then
            if mayEnter dialect depth then
              match skipBlank rest with
              | ']' :: after => some (Marks.plain.nest, .array [], after)
              | inner => do
                  let (marks, values, rest) ← readItems fuel (depth + 1) inner
                  some (marks.nest, .array values, rest)
            else none
          else
            match readWord text with
            | some (value, rest) => some (.plain, value, rest)
            | none => do
                let (numeral, rest) ← scanNumeral text
                some (.plain, .num numeral.value, rest)

def readItems : ℕ → ℕ → List Char → Option (Marks × List (Value M) × List Char)
  | 0, _, _ => none
  | fuel + 1, depth, text => do
      let (marks, value, after) ← readValue fuel depth text
      match skipBlank after with
      | ',' :: next =>
          let (marks', values, rest) ← readItems fuel depth (skipBlank next)
          some (marks.join marks', value :: values, rest)
      | ']' :: rest => some (marks, [value], rest)
      | _ => none

def readMembers : ℕ → ℕ → List Char → Option (Marks × List (String × Value M) × List Char)
  | 0, _, _ => none
  | fuel + 1, depth, text =>
      match text with
      | '"' :: text => do
          let (marks, key, after) ← readContent dialect fuel text
          match skipBlank after with
          | ':' :: next =>
              let (marks', value, close) ← readValue fuel depth (skipBlank next)
              match skipBlank close with
              | ',' :: next =>
                  let (marks'', members, rest) ← readMembers fuel depth (skipBlank next)
                  some ((marks.join marks').join marks'', (String.ofList key, value) :: members, rest)
              | '}' :: rest => some (marks.join marks', [(String.ofList key, value)], rest)
              | _ => none
          | _ => none
      | _ => none

end

/-- The value of the whole text. The fuel is more than its calls can take. -/
def readText (text : List Char) : Option (Marks × Value M) := do
  let (marks, value, after) ← readValue dialect (2 * text.length + 2) 0 (skipBlank text)
  match skipBlank after with
  | [] => some (marks, value)
  | _ => none

-- What is read is in the grammar

variable {dialect}

theorem blank_skipBlank (text : List Char) : Blank text (skipBlank text) := by
  induction text with
  | nil => exact .done
  | cons char text ih =>
      rw [skipBlank]
      by_cases blank : isBlank char
      · rw [List.dropWhile_cons_of_pos blank]
        exact .skip blank ih
      · rw [List.dropWhile_cons_of_neg blank]
        exact .done

theorem readHex4_sound {text rest : List Char} {signs code : ℕ}
    (read : readHex4 dialect text = some (signs, code, rest))
    : Hex4 signs text code rest ∧ (signs ≠ 0 → dialect.signed) := by
  unfold readHex4 at read
  split at read
  · rename_i a b c d after
    split at read
    · rename_i plus
      split at read
      · rename_i signed
        simp only [Option.map_eq_some_iff, Prod.mk.injEq] at read
        obtain ⟨code', hex, rfl, rfl, rfl⟩ := read
        subst plus
        exact ⟨.signed hex, fun _ => signed⟩
      · contradiction
    · simp only [Option.map_eq_some_iff, Prod.mk.injEq] at read
      obtain ⟨code', hex, rfl, rfl, rfl⟩ := read
      exact ⟨.plain hex, fun some => absurd rfl some⟩
  · contradiction

theorem Hex4.unique {text rest rest' : List Char} {signs signs' code code' : ℕ}
    (first : Hex4 signs text code rest) (second : Hex4 signs' text code' rest')
    : signs = signs' ∧ code = code' ∧ rest = rest' := by
  cases first with
  | plain hex =>
      cases second with
      | plain hex' => exact ⟨rfl, Option.some.inj (hex.symm.trans hex'), rfl⟩
      | signed hex' => cases hex
  | signed hex =>
      cases second with
      | plain hex' => cases hex'
      | signed hex' => exact ⟨rfl, Option.some.inj (hex.symm.trans hex'), rfl⟩

theorem readUnit_sound {text rest after : List Char} {signs code : ℕ} {marks : Marks} {char : Char}
    (hex : Hex4 signs text code rest) (signed : signs ≠ 0 → dialect.signed)
    (alone : isHigh code → ∀ more, rest = '\\' :: 'u' :: more →
      ∀ signs' low after, Hex4 signs' more low after → ¬ isLow low)
    (read : readUnit dialect signs code rest = some (marks, char, after))
    : Escape marks text char after ∧ dialect.Passes marks ∧ marks.depth = 0 := by
  unfold readUnit at read
  split at read
  · rename_i isChar
    cases read
    exact ⟨.unit hex isChar, ⟨signed, by simp⟩, rfl⟩
  · rename_i noChar
    split at read
    · rename_i lone
      cases read
      exact ⟨.lone hex noChar alone, ⟨signed, fun _ => lone⟩, rfl⟩
    · contradiction

theorem readEscape_sound {text rest : List Char} {marks : Marks} {char : Char}
    (read : readEscape dialect text = some (marks, char, rest))
    : Escape marks text char rest ∧ dialect.Passes marks ∧ marks.depth = 0 := by
  simp only [readEscape, Option.bind_eq_bind, Option.bind_eq_some_iff, Prod.exists] at read
  obtain ⟨signs, code, after, hexRead, read⟩ := read
  obtain ⟨hex, signed⟩ := readHex4_sound hexRead
  split at read
  · rename_i more isEscape
    rw [escapeAfter_eq_some] at isEscape
    subst isEscape
    split at read
    · rename_i high
      simp only [Option.bind_eq_some_iff, Prod.exists] at read
      obtain ⟨signs', low, after', hexRead', read⟩ := read
      obtain ⟨hex', signed'⟩ := readHex4_sound hexRead'
      split at read
      · rename_i isLow
        simp only [Option.some.injEq, Prod.mk.injEq] at read
        obtain ⟨rfl, rfl, rfl⟩ := read
        refine ⟨.pair hex high hex' isLow, ⟨?_, by simp⟩, rfl⟩
        intro some
        by_cases zero : signs = 0
        · exact signed' (fun none => some (by rw [zero, none]))
        · exact signed zero
      · rename_i notLow
        apply readUnit_sound hex signed _ read
        intro _ more' same signs'' low' after'' hex''
        cases same
        rw [← (hex'.unique hex'').2.1]
        exact notLow
    · rename_i notHigh
      exact readUnit_sound hex signed (fun high => absurd high notHigh) read
  · rename_i notPair
    apply readUnit_sound hex signed _ read
    intro _ more same
    rw [escapeAfter_eq_some.mpr same] at notPair
    contradiction

theorem passes_plain : dialect.Passes .plain := ⟨by simp [Marks.plain], by simp [Marks.plain]⟩

theorem readContent_sound {fuel : ℕ} {text chars rest : List Char} {marks : Marks}
    (read : readContent dialect fuel text = some (marks, chars, rest))
    : Content marks text chars rest ∧ dialect.Passes marks ∧ marks.depth = 0 := by
  induction fuel generalizing text chars rest marks with
  | zero => cases read
  | succ fuel ih =>
      unfold readContent at read
      split at read
      · contradiction
      rename_i char text
      split at read
      · rename_i quote
        cases read
        subst quote
        exact ⟨.close, passes_plain, rfl⟩
      rename_i quote
      split at read
      · rename_i backslash
        subst backslash
        split at read
        · contradiction
        rename_i letter text
        split at read
        · rename_i isU
          subst isU
          simp only [Option.bind_eq_bind, Option.bind_eq_some_iff, Prod.exists, Option.some.injEq,
            Prod.mk.injEq] at read
          obtain ⟨first, char, text', escapeRead, more, chars', rest', moreRead, rfl, rfl, rfl⟩ := read
          obtain ⟨escape, passes, flat⟩ := readEscape_sound escapeRead
          obtain ⟨content, passes', flat'⟩ := ih moreRead
          exact ⟨.escape escape content, Dialect.passes_join.mpr ⟨passes, passes'⟩,
            by simp [Marks.join, flat, flat']⟩
        · simp only [Option.bind_eq_bind, Option.bind_eq_some_iff, Prod.exists, Option.some.injEq,
            Prod.mk.injEq] at read
          obtain ⟨char, escape, more, chars', rest', moreRead, rfl, rfl, rfl⟩ := read
          obtain ⟨content, passes, flat⟩ := ih moreRead
          exact ⟨.short escape content, passes, flat⟩
      rename_i backslash
      split at read
      · contradiction
      rename_i control
      simp only [Option.bind_eq_bind, Option.bind_eq_some_iff, Prod.exists, Option.some.injEq,
        Prod.mk.injEq] at read
      obtain ⟨more, chars', rest', moreRead, rfl, rfl, rfl⟩ := read
      obtain ⟨content, passes, flat⟩ := ih moreRead
      exact ⟨.char quote backslash (Nat.le_of_not_lt control) content, passes, flat⟩

variable {M : Type} [FloatText M]

omit [FloatText M] in
theorem readWord_sound {text rest : List Char} {value : Value M}
    (read : readWord text = some (value, rest))
    : ∃ name, (name, value) ∈ words ∧ text = name ++ rest := by
  obtain ⟨word, listed, found⟩ := List.exists_of_findSome?_eq_some read
  obtain ⟨after, isPrefix, same⟩ := Option.map_eq_some_iff.mp found
  cases same
  exact ⟨word.1, listed, (List.isPrefixOf?_eq_some_iff_append_eq.mp isPrefix).symm⟩

/-- What is read is a piece of the grammar that is let pass. -/
structure Sound (dialect : Dialect) (depth : ℕ) (marks : Marks) (piece : Piece M)
    (text rest : List Char) : Prop where
  reads : Reads marks piece text rest
  allows : dialect.Allows depth marks

/-- What the three readers read with the fuel is sound. -/
structure SoundWith (M : Type) [FloatText M] (dialect : Dialect) (fuel : ℕ) : Prop where
  value : ∀ {depth text marks rest} {value : Value M}, dialect.Within depth →
    readValue dialect fuel depth text = some (marks, value, rest) →
    Sound dialect depth marks (.value value) text rest
  items : ∀ {depth text marks rest} {values : List (Value M)}, dialect.Within depth →
    readItems dialect fuel depth text = some (marks, values, rest) →
    Sound dialect depth marks (.items values) text rest
  members : ∀ {depth text marks rest} {members : List (String × Value M)}, dialect.Within depth →
    readMembers dialect fuel depth text = some (marks, members, rest) →
    Sound dialect depth marks (.members members) text rest

section Step

variable {fuel depth : ℕ} {text rest : List Char} {marks : Marks}

theorem readObject_sound {value : Value M} (ih : SoundWith M dialect fuel)
    (within : dialect.Within (depth + 1))
    (read : (match skipBlank text with
      | '}' :: after => some (Marks.plain.nest, Value.object [], after)
      | inner => do
          let (marks, members, rest) ← readMembers dialect fuel (depth + 1) inner
          some (marks.nest, .object (objectOf [] members), rest)) = some (marks, value, rest))
    : Sound dialect depth marks (.value value) ('{' :: text) rest := by
  have blank := blank_skipBlank text
  split at read
  · rename_i after isClose
    rw [isClose] at blank
    cases read
    exact ⟨.emptyObject blank, Dialect.allows_nest.mpr (Dialect.allows_plain within)⟩
  · simp only [Option.bind_eq_bind, Option.bind_eq_some_iff, Prod.exists, Option.some.injEq,
      Prod.mk.injEq] at read
    obtain ⟨marks', members, rest', membersRead, rfl, rfl, rfl⟩ := read
    have fields := ih.members within membersRead
    exact ⟨.object blank fields.reads, Dialect.allows_nest.mpr fields.allows⟩

theorem readArray_sound {value : Value M} (ih : SoundWith M dialect fuel)
    (within : dialect.Within (depth + 1))
    (read : (match skipBlank text with
      | ']' :: after => some (Marks.plain.nest, Value.array [], after)
      | inner => do
          let (marks, values, rest) ← readItems dialect fuel (depth + 1) inner
          some (marks.nest, .array values, rest)) = some (marks, value, rest))
    : Sound dialect depth marks (.value value) ('[' :: text) rest := by
  have blank := blank_skipBlank text
  split at read
  · rename_i after isClose
    rw [isClose] at blank
    cases read
    exact ⟨.emptyArray blank, Dialect.allows_nest.mpr (Dialect.allows_plain within)⟩
  · simp only [Option.bind_eq_bind, Option.bind_eq_some_iff, Prod.exists, Option.some.injEq,
      Prod.mk.injEq] at read
    obtain ⟨marks', values, rest', itemsRead, rfl, rfl, rfl⟩ := read
    have items := ih.items within itemsRead
    exact ⟨.array blank items.reads, Dialect.allows_nest.mpr items.allows⟩

theorem readValue_sound {value : Value M} (ih : SoundWith M dialect fuel)
    (within : dialect.Within depth)
    (read : readValue dialect (fuel + 1) depth text = some (marks, value, rest))
    : Sound dialect depth marks (.value value) text rest := by
  unfold readValue at read
  split at read
  · contradiction
  rename_i first text
  split at read
  · rename_i quote
    subst quote
    simp only [Option.bind_eq_bind, Option.bind_eq_some_iff, Prod.exists, Option.some.injEq,
      Prod.mk.injEq] at read
    obtain ⟨marks', chars, rest', contentRead, rfl, rfl, rfl⟩ := read
    obtain ⟨content, passes, flat⟩ := readContent_sound contentRead
    exact ⟨.string content, passes.allows flat within⟩
  split at read
  · rename_i brace
    subst brace
    split at read
    · rename_i enter
      exact readObject_sound ih ((mayEnter_iff dialect).mp enter) read
    · contradiction
  split at read
  · rename_i bracket
    subst bracket
    split at read
    · rename_i enter
      exact readArray_sound ih ((mayEnter_iff dialect).mp enter) read
    · contradiction
  split at read
  · rename_i value' rest' wordRead
    cases read
    obtain ⟨name, listed, same⟩ := readWord_sound wordRead
    rw [same]
    exact ⟨.word listed, Dialect.allows_plain within⟩
  · simp only [Option.bind_eq_bind, Option.bind_eq_some_iff, Prod.exists, Option.some.injEq,
      Prod.mk.injEq] at read
    obtain ⟨numeral, rest', scanned, rfl, rfl, rfl⟩ := read
    obtain ⟨wellFormed, same⟩ := scanNumeral_sound scanned
    rw [same]
    exact ⟨.number wellFormed, Dialect.allows_plain within⟩

theorem readItems_sound {values : List (Value M)} (ih : SoundWith M dialect fuel)
    (within : dialect.Within depth)
    (read : readItems dialect (fuel + 1) depth text = some (marks, values, rest))
    : Sound dialect depth marks (.items values) text rest := by
  simp only [readItems, Option.bind_eq_bind, Option.bind_eq_some_iff, Prod.exists] at read
  obtain ⟨first, value, after, valueRead, read⟩ := read
  have item := ih.value within valueRead
  have blank := blank_skipBlank after
  split at read
  · rename_i next isComma
    rw [isComma] at blank
    simp only [Option.bind_eq_some_iff, Prod.exists, Option.some.injEq, Prod.mk.injEq] at read
    obtain ⟨more, values', rest', moreRead, rfl, rfl, rfl⟩ := read
    have items := ih.items within moreRead
    exact ⟨.nextItem item.reads blank (blank_skipBlank next) items.reads,
      Dialect.allows_join.mpr ⟨item.allows, items.allows⟩⟩
  · rename_i after' isClose
    rw [isClose] at blank
    cases read
    exact ⟨.lastItem item.reads blank, item.allows⟩
  · contradiction

theorem readMembers_sound {members : List (String × Value M)} (ih : SoundWith M dialect fuel)
    (within : dialect.Within depth)
    (read : readMembers dialect (fuel + 1) depth text = some (marks, members, rest))
    : Sound dialect depth marks (.members members) text rest := by
  unfold readMembers at read
  split at read
  rotate_left
  · contradiction
  rename_i text
  simp only [Option.bind_eq_bind, Option.bind_eq_some_iff, Prod.exists] at read
  obtain ⟨first, key, after, contentRead, read⟩ := read
  obtain ⟨content, passes, flat⟩ := readContent_sound contentRead
  have keyAllows := passes.allows flat within
  have toColon := blank_skipBlank after
  split at read
  rotate_left
  · contradiction
  rename_i next isColon
  rw [isColon] at toColon
  simp only [Option.bind_eq_some_iff, Prod.exists] at read
  obtain ⟨second, value, close, valueRead, read⟩ := read
  have field := ih.value within valueRead
  have toClose := blank_skipBlank close
  split at read
  · rename_i next' isComma
    rw [isComma] at toClose
    simp only [Option.bind_eq_some_iff, Prod.exists, Option.some.injEq, Prod.mk.injEq] at read
    obtain ⟨more, members', rest', moreRead, rfl, rfl, rfl⟩ := read
    have fields := ih.members within moreRead
    exact ⟨.nextMember content toColon (blank_skipBlank next) field.reads toClose
        (blank_skipBlank next') fields.reads,
      Dialect.allows_join.mpr
        ⟨Dialect.allows_join.mpr ⟨keyAllows, field.allows⟩, fields.allows⟩⟩
  · rename_i after' isClose
    rw [isClose] at toClose
    cases read
    exact ⟨.lastMember content toColon (blank_skipBlank next) field.reads toClose,
      Dialect.allows_join.mpr ⟨keyAllows, field.allows⟩⟩
  · contradiction

end Step

theorem soundWith (dialect : Dialect) (fuel : ℕ) : SoundWith M dialect fuel := by
  induction fuel with
  | zero =>
      constructor <;>
      · intro depth text marks rest found within read
        cases read
  | succ fuel ih => exact ⟨readValue_sound ih, readItems_sound ih, readMembers_sound ih⟩

end MokuroBunko.Lib.Json
