import MokuroBunko.Lib.Json.ReaderComplete

/-! The JSON parser of the library crate (`pyjson.rs`), as a reader of the grammar: it takes lone
surrogates as U+FFFD, and nests no deeper than 512.
-/

namespace MokuroBunko.Library.PyJson

open MokuroBunko.Lib MokuroBunko.Lib.Json

-- Parser

/-- Where the parser stopped, as the text that was left, and why. -/
structure Stop where
  rest : List Char
  message : String

structure JsonError where
  /-- In bytes. -/
  position : ℕ
  message : String
  deriving DecidableEq

structure ParseOptions where
  allowConstants : Bool

def ParseOptions.standard : ParseOptions := ⟨true⟩

def maxDepth : ℕ := 512

def hex4 (text : List Char) : Except Stop (ℕ × List Char) :=
  match text with
  | a :: b :: c :: d :: rest =>
      match hexValue [a, b, c, d] 0 with
      | some value => .ok (value, rest)
      | none => .error ⟨text, "Invalid \\uXXXX escape"⟩
  | _ => .error ⟨text, "Invalid \\uXXXX escape"⟩

/-- The character of a `\u` escape, of two escapes if they are a surrogate pair. -/
def escape (text : List Char) : Except Stop (Char × List Char) := do
  let (unit, rest) ← hex4 text
  let single := ((fromU32 unit).getD '\uFFFD', rest)
  match escapeAfter rest with
  | some more =>
      if isHigh unit then do
        let (low, after) ← hex4 more
        if isLow low then .ok ((fromU32 (pairCode unit low)).getD '\uFFFD', after) else .ok single
      else .ok single
  | none => .ok single

/-- The characters of a string, from after its opening quote. -/
def string : ℕ → List Char → Except Stop (List Char × List Char)
  | 0, text => .error ⟨text, "out of fuel"⟩
  | fuel + 1, text =>
      match text with
      | [] => .error ⟨text, "Unterminated string starting at"⟩
      | char :: after =>
          if char = '"' then .ok ([], after)
          else if char = '\\' then
            match after with
            | [] => .error ⟨after, "Unterminated string starting at"⟩
            | letter :: after' =>
                if letter = 'u' then do
                  let (char, rest) ← escape after'
                  let (out, rest) ← string fuel rest
                  .ok (char :: out, rest)
                else
                  match shortEscape letter with
                  | some char => do
                      let (out, rest) ← string fuel after'
                      .ok (char :: out, rest)
                  | none => .error ⟨after, "Invalid \\escape"⟩
          else if char.toNat < 0x20 then .error ⟨text, "Invalid control character at"⟩
          else do
            let (out, rest) ← string fuel after
            .ok (char :: out, rest)

variable {M : Type} [FloatText M]

def number (text : List Char) : Except Stop (JsonNum M × List Char) :=
  match scanNumeral text with
  | some (numeral, rest) => .ok (numeral.value, rest)
  | none => .error ⟨text, "Expecting value"⟩

/-- One of the words; those that are numbers only if constants are allowed. -/
def word (options : ParseOptions) (text : List Char) : Option (Except Stop (Value M × List Char)) :=
  match readWord text with
  | some (.num number, rest) =>
      some (if options.allowConstants then .ok (.num number, rest)
        else .error ⟨text, "unsupported JSON constant"⟩)
  | some (value, rest) => some (.ok (value, rest))
  | none => none

/-- How many arrays and objects are open once one more is. -/
def enter (depth : ℕ) (text : List Char) : Except Stop ℕ :=
  if maxDepth < depth + 1 then .error ⟨text, "nesting too deep"⟩ else .ok (depth + 1)

mutual

def value (options : ParseOptions) : ℕ → ℕ → List Char → Except Stop (Value M × List Char)
  | 0, _, text => .error ⟨text, "out of fuel"⟩
  | fuel + 1, depth, text =>
      match text with
      | [] => .error ⟨text, "Expecting value"⟩
      | byte :: after =>
          if byte = '"' then do
            let (out, rest) ← string fuel after
            .ok (.str (String.ofList out), rest)
          else if byte = '{' then do
            let depth ← enter depth text
            match skipBlank after with
            | '}' :: rest => .ok (.object [], rest)
            | inner => do
                let (fields, rest) ← object options fuel depth [] inner
                .ok (.object fields, rest)
          else if byte = '[' then do
            let depth ← enter depth text
            match skipBlank after with
            | ']' :: rest => .ok (.array [], rest)
            | inner => do
                let (items, rest) ← array options fuel depth [] inner
                .ok (.array items, rest)
          else
            match word options text with
            | some result => result
            | none =>
                if byte = '-' ∨ byte.isDigit then do
                  let (number, rest) ← number text
                  .ok (.num number, rest)
                else .error ⟨text, "Expecting value"⟩

/-- The loop over the members, from the next key. -/
def object (options : ParseOptions) : ℕ → ℕ → List (String × Value M) → List Char →
    Except Stop (List (String × Value M) × List Char)
  | 0, _, _, text => .error ⟨text, "out of fuel"⟩
  | fuel + 1, depth, fields, text =>
      match text with
      | '"' :: after => do
          let (key, rest) ← string fuel after
          match skipBlank rest with
          | ':' :: rest => do
              let (value, rest) ← value options fuel depth (skipBlank rest)
              let fields := Entries.insert (String.ofList key) value fields
              match skipBlank rest with
              | ',' :: rest => object options fuel depth fields (skipBlank rest)
              | '}' :: rest => .ok (fields, rest)
              | rest => .error ⟨rest, "Expecting ',' delimiter"⟩
          | rest => .error ⟨rest, "Expecting ':' delimiter"⟩
      | rest => .error ⟨rest, "Expecting property name enclosed in double quotes"⟩

/-- The loop over the items, from the next one. -/
def array (options : ParseOptions) : ℕ → ℕ → List (Value M) → List Char →
    Except Stop (List (Value M) × List Char)
  | 0, _, _, text => .error ⟨text, "out of fuel"⟩
  | fuel + 1, depth, items, text => do
      let (value, rest) ← value options fuel depth text
      let items := items ++ [value]
      match skipBlank rest with
      | ',' :: rest => array options fuel depth items (skipBlank rest)
      | ']' :: rest => .ok (items, rest)
      | rest => .error ⟨rest, "Expecting ',' delimiter"⟩

end

def Stop.error (text : List Char) (stop : Stop) : JsonError where
  position := (String.ofList text).utf8ByteSize - (String.ofList stop.rest).utf8ByteSize
  message := stop.message

def parseWith (text : String) (options : ParseOptions) : Except JsonError (Value M) :=
  let chars := text.toList
  match value options (2 * chars.length + 2) 0 (skipBlank chars) with
  | .error stop => .error (stop.error chars)
  | .ok (value, rest) =>
      match skipBlank rest with
      | [] => .ok value
      | rest => .error (Stop.error chars ⟨rest, "Extra data"⟩)

/-- The value of a text. -/
def parse (text : String) : Except JsonError (Value M) := parseWith text .standard

-- As a reader

def dialect : Dialect := ⟨false, true, some maxDepth⟩

theorem hex4_toOption (text : List Char)
    : (hex4 text).toOption = (readHex4 dialect text).map (fun read => read.2) := by
  unfold hex4 readHex4
  split
  · rename_i a b c d rest
    by_cases plus : a = '+'
    · subst plus
      have noDigit : hexValue ['+', b, c, d] 0 = none := rfl
      simp [noDigit, dialect, Except.toOption]
    · simp only [plus, if_false]
      cases hexValue [a, b, c, d] 0 <;> simp [Except.toOption]
  · simp [Except.toOption]

theorem unit_toOption (signs code : ℕ) (rest : List Char)
    : (Except.ok (ε := Stop) ((fromU32 code).getD '\uFFFD', rest)).toOption
      = (readUnit dialect signs code rest).map (fun read => read.2) := by
  simp only [Except.toOption, readUnit]
  cases fromU32 code <;> simp [dialect]

theorem pair_toOption (signs : ℕ) {code : ℕ} (rest : List Char)
    (isChar : fromU32 code = some (Char.ofNat code))
    : (Except.ok (ε := Stop) ((fromU32 code).getD '\uFFFD', rest)).toOption
      = (some ((⟨0, signs, 0⟩ : Marks), Char.ofNat code, rest)).map (fun read => read.2) := by
  simp only [Except.toOption, isChar, Option.getD_some, Option.map_some]

theorem escape_toOption (text : List Char)
    : (escape text).toOption = (readEscape dialect text).map (fun read => read.2) := by
  simp only [escape, readEscape, toOption_bind, hex4_toOption, Option.bind_eq_bind]
  cases readHex4 dialect text with
  | none => rfl
  | some found =>
      obtain ⟨signs, code, rest⟩ := found
      simp only [Option.map_some, Option.bind_some]
      cases escapeAfter rest with
      | none => exact unit_toOption signs code rest
      | some more =>
          simp only
          split
          · rename_i high
            simp only [toOption_bind, hex4_toOption]
            cases readHex4 dialect more with
            | none => rfl
            | some next =>
                obtain ⟨signs', low, after⟩ := next
                simp only [Option.map_some, Option.bind_some]
                split
                · rename_i isLow
                  exact pair_toOption (signs + signs') after (fromU32_pairCode high isLow)
                · exact unit_toOption signs code rest
          · exact unit_toOption signs code rest

theorem string_toOption (fuel : ℕ) (text : List Char)
    : (string fuel text).toOption = (readContent dialect fuel text).map (fun read => read.2) := by
  induction fuel generalizing text with
  | zero => rfl
  | succ fuel ih =>
      cases text with
      | nil => rfl
      | cons char after =>
          simp only [string, readContent]
          by_cases quote : char = '"'
          · simp [quote, Except.toOption]
          by_cases backslash : char = '\\'
          · simp only [if_neg quote, if_pos backslash]
            cases after with
            | nil => rfl
            | cons letter after =>
                by_cases isU : letter = 'u'
                · simp only [if_pos isU, toOption_bind, escape_toOption, ih, Option.bind_eq_bind]
                  cases readEscape dialect after with
                  | none => rfl
                  | some first =>
                      simp only [Option.map_some, Option.bind_some]
                      cases readContent dialect fuel first.2.2 <;> rfl
                · simp only [if_neg isU]
                  cases shortEscape letter with
                  | none => rfl
                  | some char =>
                      simp only [toOption_bind, ih, Option.bind_eq_bind, Option.bind_some]
                      cases readContent dialect fuel after <;> rfl
          by_cases control : char.toNat < 0x20
          · simp [quote, backslash, control, Except.toOption]
          · simp only [if_neg quote, if_neg backslash, if_neg control, toOption_bind, ih]
            cases readContent dialect fuel after <;> rfl

/-- What the three loops give with the fuel is what is read, put behind what was there before. -/
structure ReadsWith (M : Type) [FloatText M] (fuel : ℕ) : Prop where
  value : ∀ depth text,
    (value (M := M) .standard fuel depth text).toOption
      = (readValue dialect fuel depth text).map (fun read => read.2)
  object : ∀ depth fields text,
    (object (M := M) .standard fuel depth fields text).toOption
      = (readMembers dialect fuel depth text).map
          (fun read => (objectOf fields read.2.1, read.2.2))
  array : ∀ depth items text,
    (array (M := M) .standard fuel depth items text).toOption
      = (readItems dialect fuel depth text).map (fun read => (items ++ read.2.1, read.2.2))

theorem enter_eq (depth : ℕ) (text : List Char)
    : enter depth text
      = if mayEnter dialect depth then .ok (depth + 1)
        else .error ⟨text, "nesting too deep"⟩ := by
  simp only [enter, mayEnter, dialect, Option.all_some, decide_eq_true_eq]
  split
  · rename_i deep
    rw [if_neg (Nat.not_le_of_lt deep)]
  · rename_i shallow
    rw [if_pos (Nat.le_of_not_lt shallow)]

theorem entered {α : Type} (depth : ℕ) (next : ℕ → Except Stop α)
    : (Except.ok depth >>= next) = next depth :=
  rfl

omit [FloatText M] in
theorem word_eq (text : List Char)
    : word (M := M) .standard text = (readWord text).map .ok := by
  unfold word
  cases readWord (M := M) text with
  | none => rfl
  | some found =>
      obtain ⟨value, rest⟩ := found
      cases value <;> rfl

section Step

variable {fuel : ℕ}

theorem value_step (ih : ReadsWith M fuel) (depth : ℕ) (text : List Char)
    : (value (M := M) .standard (fuel + 1) depth text).toOption
      = (readValue dialect (fuel + 1) depth text).map (fun read => read.2) := by
  cases text with
  | nil => rfl
  | cons first after =>
      simp only [value, readValue, enter_eq, word_eq]
      split
      · simp only [toOption_bind, string_toOption, Option.bind_eq_bind]
        cases readContent dialect fuel after <;> rfl
      split
      · have object := ih.object (depth + 1) []
        generalize skipBlank after = inner
        cases mayEnter dialect depth with
        | false => rfl
        | true =>
            simp only [if_true, entered]
            split
            · rfl
            · rename_i notClose
              simp only [toOption_bind, object, Option.bind_eq_bind, notClose]
              cases readMembers (M := M) dialect fuel (depth + 1) inner <;> rfl
      split
      · have array := ih.array (depth + 1) []
        generalize skipBlank after = inner
        cases mayEnter dialect depth with
        | false => rfl
        | true =>
            simp only [if_true, entered]
            split
            · rfl
            · rename_i notClose
              simp only [toOption_bind, array, Option.bind_eq_bind, notClose]
              cases readItems (M := M) dialect fuel (depth + 1) inner <;> rfl
      cases readWord (M := M) (first :: after) with
      | some word => rfl
      | none =>
          simp only [Option.map_none]
          split
          · simp only [toOption_bind, number, Option.bind_eq_bind]
            cases scanNumeral (first :: after) <;> rfl
          · rename_i other
            rw [not_or] at other
            rw [scanNumeral_none other.1 other.2]
            rfl

theorem array_step (ih : ReadsWith M fuel) (depth : ℕ) (items : List (Value M)) (text : List Char)
    : (array .standard (fuel + 1) depth items text).toOption
      = (readItems dialect (fuel + 1) depth text).map
          (fun read => (items ++ read.2.1, read.2.2)) := by
  simp only [array, readItems, toOption_bind, ih.value depth, Option.bind_eq_bind]
  cases readValue (M := M) dialect fuel depth text with
  | none => rfl
  | some found =>
      obtain ⟨marks, value, rest⟩ := found
      simp only [Option.map_some, Option.bind_some]
      generalize skipBlank rest = inner
      split
      · rename_i next
        simp only [ih.array depth]
        cases readItems (M := M) dialect fuel depth (skipBlank next) with
        | none => rfl
        | some more => simp
      · simp [Except.toOption]
      · rename_i notComma notClose
        simp [Except.toOption, notComma, notClose]

theorem object_step (ih : ReadsWith M fuel) (depth : ℕ) (fields : List (String × Value M))
    (text : List Char)
    : (object .standard (fuel + 1) depth fields text).toOption
      = (readMembers dialect (fuel + 1) depth text).map
          (fun read => (objectOf fields read.2.1, read.2.2)) := by
  simp only [object, readMembers]
  split
  · rename_i after
    simp only [toOption_bind, string_toOption, Option.bind_eq_bind]
    cases readContent dialect fuel after with
    | none => rfl
    | some found =>
        obtain ⟨marks, key, rest⟩ := found
        simp only [Option.map_some, Option.bind_some]
        generalize skipBlank rest = inner
        split
        · rename_i next
          simp only [toOption_bind, ih.value depth]
          cases readValue (M := M) dialect fuel depth (skipBlank next) with
          | none => rfl
          | some found =>
              obtain ⟨marks', value, rest⟩ := found
              simp only [Option.map_some, Option.bind_some]
              generalize skipBlank rest = inner
              split
              · rename_i next
                simp only [ih.object depth]
                cases readMembers (M := M) dialect fuel depth (skipBlank next) <;> rfl
              · rfl
              · rename_i notComma notClose
                simp [Except.toOption, notComma, notClose]
        · rename_i notColon
          simp [Except.toOption, notColon]
  · rename_i notQuote
    simp [Except.toOption, notQuote]

end Step

theorem readsWith (fuel : ℕ) : ReadsWith M fuel := by
  induction fuel with
  | zero => exact ⟨fun _ _ => rfl, fun _ _ _ => rfl, fun _ _ _ => rfl⟩
  | succ fuel ih => exact ⟨value_step ih, object_step ih, array_step ih⟩

theorem parse_toOption (text : String)
    : (parse (M := M) text).toOption = (readText dialect text.toList).map Prod.snd := by
  simp only [parse, parseWith, readText, Option.bind_eq_bind]
  have same := (readsWith (M := M) (2 * text.toList.length + 2)).value 0 (skipBlank text.toList)
  generalize value (M := M) .standard (2 * text.toList.length + 2) 0 (skipBlank text.toList)
    = result at same ⊢
  generalize readValue (M := M) dialect (2 * text.toList.length + 2) 0 (skipBlank text.toList)
    = read at same ⊢
  cases result with
  | error stop =>
      have none := Option.map_eq_none_iff.mp same.symm
      subst none
      rfl
  | ok found =>
      obtain ⟨⟨marks, value, rest⟩, rfl, parts⟩ := Option.map_eq_some_iff.mp same.symm
      cases parts
      simp only [Option.bind_some]
      cases skipBlank rest <;> rfl

theorem parse_iff {text : String} {value : Value M}
    : parse text = .ok value
      ↔ ∃ marks, IsText marks value text.toList ∧ marks.signs = 0 ∧ marks.depth ≤ maxDepth := by
  have same := parse_toOption (M := M) text
  constructor
  · intro parsed
    rw [parsed] at same
    obtain ⟨⟨marks, value'⟩, read, rfl⟩ := Option.map_eq_some_iff.mp same.symm
    obtain ⟨isText, allows⟩ := readText_iff.mp read
    refine ⟨marks, isText, ?_, ?_⟩
    · by_contra some
      exact absurd (allows.signs some) (by decide)
    · have fits := allows.within maxDepth rfl
      rwa [Nat.zero_add] at fits
  · intro facts
    obtain ⟨marks, isText, signs, depth⟩ := facts
    have allows : dialect.Allows 0 marks := by
      refine ⟨⟨fun some => absurd signs some, fun _ => rfl⟩, ?_⟩
      intro limit is
      cases is
      rwa [Nat.zero_add]
    rw [readText_iff.mpr ⟨isText, allows⟩] at same
    cases parsed : parse (M := M) text with
    | error failure =>
        rw [parsed] at same
        cases same
    | ok found =>
        rw [parsed] at same
        cases same
        rfl

end MokuroBunko.Library.PyJson
