import MokuroBunko.Lib.Json.ReaderComplete

/-! The JSON parser of the layout crate (`json.rs`), as a reader of the grammar: it takes a sign in
a `\u` escape, and no lone surrogate.
-/

namespace MokuroBunko.Layout.Json

open MokuroBunko.Lib MokuroBunko.Lib.Json

-- Parser

/-- Where the parser stopped, as the text that was left, and why. -/
structure Failure where
  rest : List Char
  message : String

structure ParseError where
  /-- In bytes. -/
  offset : ℕ
  message : String
  deriving DecidableEq

/-- `u32::from_str_radix(_, 16)` of a text with no more than four digits. -/
def fromStrRadix16 (digits : List Char) : Option ℕ :=
  match digits with
  | [] => none
  | first :: rest =>
      if first = '+' then if rest = [] then none else hexValue rest 0
      else hexValue digits 0

def hex4 (text : List Char) : Except Failure (ℕ × List Char) :=
  match text with
  | a :: b :: c :: d :: rest =>
      match fromStrRadix16 [a, b, c, d] with
      | some code => .ok (code, rest)
      | none => .error ⟨text, "invalid \\uXXXX escape"⟩
  | _ => .error ⟨text, "invalid \\uXXXX escape"⟩

/-- The code point of a `\u` escape, of two escapes if they are a surrogate pair. -/
def codePoint (text : List Char) : Except Failure (ℕ × List Char) := do
  let (cp, rest) ← hex4 text
  match escapeAfter rest with
  | some more =>
      if isHigh cp then do
        let (lo, after) ← hex4 more
        if isLow lo then .ok (pairCode cp lo, after) else .ok (cp, rest)
      else .ok (cp, rest)
  | none => .ok (cp, rest)

/-- The characters of a string, from after its opening quote. -/
def string : ℕ → List Char → Except Failure (List Char × List Char)
  | 0, text => .error ⟨text, "out of fuel"⟩
  | fuel + 1, text =>
      match text with
      | [] => .error ⟨text, "unterminated string"⟩
      | char :: after =>
          if char = '"' then .ok ([], after)
          else if char = '\\' then
            match after with
            | [] => .error ⟨after, "unterminated string"⟩
            | letter :: after =>
                if letter = 'u' then do
                  let (cp, rest) ← codePoint after
                  match fromU32 cp with
                  | some char => do
                      let (out, rest) ← string fuel rest
                      .ok (char :: out, rest)
                  | none => .error ⟨rest, "lone surrogate in \\u escape"⟩
                else
                  match shortEscape letter with
                  | some char => do
                      let (out, rest) ← string fuel after
                      .ok (char :: out, rest)
                  | none => .error ⟨after, "invalid escape"⟩
          else if char.toNat < 0x20 then .error ⟨text, "invalid control character"⟩
          else do
            let (out, rest) ← string fuel after
            .ok (char :: out, rest)

variable {M : Type} [FloatText M]

def number (text : List Char) : Except Failure (JsonNum M × List Char) :=
  match scanNumeral text with
  | some (numeral, rest) => .ok (numeral.value, rest)
  | none => .error ⟨(scanSign text).2, "expecting value"⟩

mutual

def value : ℕ → List Char → Except Failure (Value M × List Char)
  | 0, text => .error ⟨text, "out of fuel"⟩
  | fuel + 1, text =>
      match text with
      | [] => .error ⟨text, "expecting value"⟩
      | first :: after =>
          if first = '"' then do
            let (out, rest) ← string fuel after
            .ok (.str (String.ofList out), rest)
          else if first = '{' then
            match skipBlank after with
            | '}' :: rest => .ok (.object [], rest)
            | inner => do
                let (items, rest) ← object fuel [] inner
                .ok (.object items, rest)
          else if first = '[' then
            match skipBlank after with
            | ']' :: rest => .ok (.array [], rest)
            | inner => do
                let (items, rest) ← array fuel [] inner
                .ok (.array items, rest)
          else
            match readWord text with
            | some (value, rest) => .ok (value, rest)
            | none =>
                if first = '-' ∨ first.isDigit then do
                  let (number, rest) ← number text
                  .ok (.num number, rest)
                else .error ⟨text, "expecting value"⟩

/-- The loop over the members, from before the next key. -/
def object : ℕ → List (String × Value M) → List Char →
    Except Failure (List (String × Value M) × List Char)
  | 0, _, text => .error ⟨text, "out of fuel"⟩
  | fuel + 1, items, text =>
      match skipBlank text with
      | '"' :: after => do
          let (key, rest) ← string fuel after
          match skipBlank rest with
          | ':' :: rest => do
              let (value, rest) ← value fuel (skipBlank rest)
              let items := Entries.insert (String.ofList key) value items
              match skipBlank rest with
              | ',' :: rest => object fuel items rest
              | '}' :: rest => .ok (items, rest)
              | rest => .error ⟨rest, "expecting ',' delimiter"⟩
          | rest => .error ⟨rest, "expecting ':' delimiter"⟩
      | rest => .error ⟨rest, "expecting property name enclosed in double quotes"⟩

/-- The loop over the items, from before the next one. -/
def array : ℕ → List (Value M) → List Char → Except Failure (List (Value M) × List Char)
  | 0, _, text => .error ⟨text, "out of fuel"⟩
  | fuel + 1, items, text => do
      let (value, rest) ← value fuel (skipBlank text)
      let items := items ++ [value]
      match skipBlank rest with
      | ',' :: rest => array fuel items rest
      | ']' :: rest => .ok (items, rest)
      | rest => .error ⟨rest, "expecting ',' delimiter"⟩

end

def Failure.error (text : List Char) (failure : Failure) : ParseError where
  offset := (String.ofList text).utf8ByteSize - (String.ofList failure.rest).utf8ByteSize
  message := failure.message

/-- The value of a text. -/
def parse (text : String) : Except ParseError (Value M) :=
  let chars := text.toList
  match value (2 * chars.length + 2) (skipBlank chars) with
  | .error failure => .error (failure.error chars)
  | .ok (value, rest) =>
      match skipBlank rest with
      | [] => .ok value
      | rest => .error (Failure.error chars ⟨rest, "extra data"⟩)

-- As a reader

def dialect : Dialect := ⟨true, false, none⟩

theorem hex4_toOption (text : List Char)
    : (hex4 text).toOption = (readHex4 dialect text).map (fun read => read.2) := by
  unfold hex4 readHex4
  split
  · rename_i a b c d rest
    by_cases plus : a = '+'
    · simp only [fromStrRadix16, plus, if_true, dialect]
      cases hexValue [b, c, d] 0 <;> simp [Except.toOption]
    · simp only [fromStrRadix16, plus, if_false]
      cases hexValue [a, b, c, d] 0 <;> simp [Except.toOption]
  · simp [Except.toOption]

theorem unit_toOption (signs code : ℕ) (rest : List Char)
    : (Except.ok (ε := Failure) (code, rest)).toOption.bind (fun found =>
        (fromU32 found.1).map (fun char => (char, found.2)))
      = (readUnit dialect signs code rest).map (fun read => read.2) := by
  simp only [Except.toOption, Option.bind_some, readUnit]
  cases fromU32 code <;> simp [dialect]

theorem pair_toOption (signs : ℕ) {code : ℕ} (rest : List Char)
    (isChar : fromU32 code = some (Char.ofNat code))
    : (Except.ok (ε := Failure) (code, rest)).toOption.bind (fun found =>
        (fromU32 found.1).map (fun char => (char, found.2)))
      = (some ((⟨0, signs, 0⟩ : Marks), Char.ofNat code, rest)).map (fun read => read.2) := by
  simp only [Except.toOption, Option.bind_some, isChar, Option.map_some]

theorem codePoint_toOption (text : List Char)
    : (codePoint text).toOption.bind (fun found =>
        (fromU32 found.1).map (fun char => (char, found.2)))
      = (readEscape dialect text).map (fun read => read.2) := by
  simp only [codePoint, readEscape, toOption_bind, hex4_toOption, Option.bind_eq_bind]
  cases readHex4 dialect text with
  | none => rfl
  | some found =>
      obtain ⟨signs, code, rest⟩ := found
      simp only [Option.map_some, Option.bind_some]
      cases escapeAfter rest with
      | none => exact unit_toOption signs code rest
      | some more =>
          simp only
          split
          · rename_i high
            simp only [toOption_bind, hex4_toOption]
            cases readHex4 dialect more with
            | none => rfl
            | some next =>
                obtain ⟨signs', low, after⟩ := next
                simp only [Option.map_some, Option.bind_some]
                split
                · rename_i isLow
                  exact pair_toOption (signs + signs') after (fromU32_pairCode high isLow)
                · exact unit_toOption signs code rest
          · exact unit_toOption signs code rest

theorem escape_toOption {next : List Char → Except Failure (List Char × List Char)}
    {read : List Char → Option (Marks × List Char × List Char)}
    (same : ∀ text, (next text).toOption = (read text).map (fun read => read.2))
    (text : List Char)
    : (do
        let (cp, rest) ← codePoint text
        match fromU32 cp with
        | some char => do
            let (out, rest) ← next rest
            .ok (char :: out, rest)
        | none => .error ⟨rest, "lone surrogate in \\u escape"⟩ :
          Except Failure (List Char × List Char)).toOption
      = Option.map (fun read => read.2) (do
        let (marks, char, text) ← readEscape dialect text
        let (marks', chars, rest) ← read text
        some (marks.join marks', char :: chars, rest)) := by
  have escape := codePoint_toOption text
  rw [toOption_bind, Option.bind_eq_bind, Option.map_bind]
  cases found : (codePoint text).toOption with
  | none =>
      rw [found, Option.bind_none] at escape
      rw [Option.map_eq_none_iff.mp escape.symm]
      rfl
  | some found' =>
      obtain ⟨cp, rest⟩ := found'
      rw [found, Option.bind_some] at escape
      simp only [Option.bind_some]
      cases isChar : fromU32 cp with
      | none =>
          rw [isChar] at escape
          rw [Option.map_eq_none_iff.mp escape.symm]
          rfl
      | some char =>
          rw [isChar] at escape
          obtain ⟨⟨marks, char', rest'⟩, readFirst, parts⟩ := Option.map_eq_some_iff.mp escape.symm
          cases parts
          simp only [readFirst, Option.bind_some, toOption_bind, same, Option.bind_eq_bind,
            Function.comp_apply]
          cases read rest <;> rfl

theorem string_toOption (fuel : ℕ) (text : List Char)
    : (string fuel text).toOption = (readContent dialect fuel text).map (fun read => read.2) := by
  induction fuel generalizing text with
  | zero => rfl
  | succ fuel ih =>
      cases text with
      | nil => rfl
      | cons char after =>
          simp only [string, readContent]
          by_cases quote : char = '"'
          · simp [quote, Except.toOption]
          by_cases backslash : char = '\\'
          · simp only [if_neg quote, if_pos backslash]
            cases after with
            | nil => rfl
            | cons letter after =>
                by_cases isU : letter = 'u'
                · simp only [if_pos isU]
                  exact escape_toOption ih after
                · simp only [if_neg isU]
                  cases shortEscape letter with
                  | none => rfl
                  | some char =>
                      simp only [toOption_bind, ih, Option.bind_eq_bind, Option.bind_some]
                      cases readContent dialect fuel after <;> rfl
          by_cases control : char.toNat < 0x20
          · simp [quote, backslash, control, Except.toOption]
          · simp only [if_neg quote, if_neg backslash, if_neg control, toOption_bind, ih]
            cases readContent dialect fuel after <;> rfl

/-- What the three loops give with the fuel is what is read, put behind what was there before. -/
structure ReadsWith (M : Type) [FloatText M] (fuel : ℕ) : Prop where
  value : ∀ depth text,
    (value (M := M) fuel text).toOption
      = (readValue dialect fuel depth text).map (fun read => read.2)
  object : ∀ depth items text,
    (object (M := M) fuel items text).toOption
      = (readMembers dialect fuel depth (skipBlank text)).map
          (fun read => (objectOf items read.2.1, read.2.2))
  array : ∀ depth items text,
    (array (M := M) fuel items text).toOption
      = (readItems dialect fuel depth (skipBlank text)).map (fun read => (items ++ read.2.1, read.2.2))

section Step

variable {fuel : ℕ}

theorem value_step (ih : ReadsWith M fuel) (depth : ℕ) (text : List Char)
    : (value (M := M) (fuel + 1) text).toOption
      = (readValue dialect (fuel + 1) depth text).map (fun read => read.2) := by
  have enter : mayEnter dialect depth = true := rfl
  cases text with
  | nil => rfl
  | cons first after =>
      simp only [value, readValue, enter, if_true]
      split
      · simp only [toOption_bind, string_toOption, Option.bind_eq_bind]
        cases readContent dialect fuel after <;> rfl
      split
      · have object := ih.object (depth + 1) []
        have again := skipBlank_skipBlank after
        generalize skipBlank after = inner at again ⊢
        split
        · rfl
        · rename_i notClose
          simp only [toOption_bind, object, again, Option.bind_eq_bind, notClose]
          cases readMembers (M := M) dialect fuel (depth + 1) inner <;> rfl
      split
      · have array := ih.array (depth + 1) []
        have again := skipBlank_skipBlank after
        generalize skipBlank after = inner at again ⊢
        split
        · rfl
        · rename_i notClose
          simp only [toOption_bind, array, again, Option.bind_eq_bind, notClose]
          cases readItems (M := M) dialect fuel (depth + 1) inner <;> rfl
      cases readWord (M := M) (first :: after) with
      | some word => rfl
      | none =>
          simp only
          split
          · simp only [toOption_bind, number, Option.bind_eq_bind]
            cases scanNumeral (first :: after) <;> rfl
          · rename_i other
            rw [not_or] at other
            rw [scanNumeral_none other.1 other.2]
            rfl

theorem array_step (ih : ReadsWith M fuel) (depth : ℕ) (items : List (Value M)) (text : List Char)
    : (array (fuel + 1) items text).toOption
      = (readItems dialect (fuel + 1) depth (skipBlank text)).map
          (fun read => (items ++ read.2.1, read.2.2)) := by
  simp only [array, readItems, toOption_bind, ih.value depth, Option.bind_eq_bind]
  cases readValue (M := M) dialect fuel depth (skipBlank text) with
  | none => rfl
  | some found =>
      obtain ⟨marks, value, rest⟩ := found
      simp only [Option.map_some, Option.bind_some]
      generalize skipBlank rest = inner
      split
      · rename_i next
        simp only [ih.array depth]
        cases readItems (M := M) dialect fuel depth (skipBlank next) with
        | none => rfl
        | some more => simp
      · simp [Except.toOption]
      · rename_i notComma notClose
        simp [Except.toOption, notComma, notClose]

theorem object_step (ih : ReadsWith M fuel) (depth : ℕ) (items : List (String × Value M))
    (text : List Char)
    : (object (fuel + 1) items text).toOption
      = (readMembers dialect (fuel + 1) depth (skipBlank text)).map
          (fun read => (objectOf items read.2.1, read.2.2)) := by
  simp only [object, readMembers]
  generalize skipBlank text = inner
  split
  · rename_i after
    simp only [toOption_bind, string_toOption, Option.bind_eq_bind]
    cases readContent dialect fuel after with
    | none => rfl
    | some found =>
        obtain ⟨marks, key, rest⟩ := found
        simp only [Option.map_some, Option.bind_some]
        generalize skipBlank rest = inner
        split
        · rename_i next
          simp only [toOption_bind, ih.value depth]
          cases readValue (M := M) dialect fuel depth (skipBlank next) with
          | none => rfl
          | some found =>
              obtain ⟨marks', value, rest⟩ := found
              simp only [Option.map_some, Option.bind_some]
              generalize skipBlank rest = inner
              split
              · rename_i next
                simp only [ih.object depth]
                cases readMembers (M := M) dialect fuel depth (skipBlank next) <;> rfl
              · rfl
              · rename_i notComma notClose
                simp [Except.toOption, notComma, notClose]
        · rename_i notColon
          simp [Except.toOption, notColon]
  · rename_i notQuote
    simp [Except.toOption, notQuote]

end Step

theorem readsWith (fuel : ℕ) : ReadsWith M fuel := by
  induction fuel with
  | zero => exact ⟨fun _ _ => rfl, fun _ _ _ => rfl, fun _ _ _ => rfl⟩
  | succ fuel ih => exact ⟨value_step ih, object_step ih, array_step ih⟩

theorem parse_toOption (text : String)
    : (parse (M := M) text).toOption = (readText dialect text.toList).map Prod.snd := by
  simp only [parse, readText, Option.bind_eq_bind]
  have same := (readsWith (M := M) (2 * text.toList.length + 2)).value 0 (skipBlank text.toList)
  generalize value (M := M) (2 * text.toList.length + 2) (skipBlank text.toList) = result at same ⊢
  generalize readValue (M := M) dialect (2 * text.toList.length + 2) 0 (skipBlank text.toList)
    = read at same ⊢
  cases result with
  | error failure =>
      have none := Option.map_eq_none_iff.mp same.symm
      subst none
      rfl
  | ok found =>
      obtain ⟨⟨marks, value, rest⟩, rfl, parts⟩ := Option.map_eq_some_iff.mp same.symm
      cases parts
      simp only [Option.bind_some]
      cases skipBlank rest <;> rfl

theorem parse_iff {text : String} {value : Value M}
    : parse text = .ok value ↔ ∃ marks, IsText marks value text.toList ∧ marks.lones = 0 := by
  have same := parse_toOption (M := M) text
  constructor
  · intro parsed
    rw [parsed] at same
    obtain ⟨⟨marks, value'⟩, read, rfl⟩ := Option.map_eq_some_iff.mp same.symm
    obtain ⟨isText, allows⟩ := readText_iff.mp read
    refine ⟨marks, isText, ?_⟩
    by_contra some
    exact absurd (allows.lones some) (by decide)
  · intro facts
    obtain ⟨marks, isText, lones⟩ := facts
    have allows : dialect.Allows 0 marks :=
      ⟨⟨fun _ => rfl, fun some => absurd lones some⟩, fun limit is => by cases is⟩
    rw [readText_iff.mpr ⟨isText, allows⟩] at same
    cases parsed : parse (M := M) text with
    | error failure =>
        rw [parsed] at same
        cases same
    | ok found =>
        rw [parsed] at same
        cases same
        rfl

end MokuroBunko.Layout.Json
