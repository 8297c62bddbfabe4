import MokuroBunko.Lib.Json.Reader

/-! Every text of the grammar that a reader lets pass is read, as the value it denotes.
-/

namespace MokuroBunko.Lib.Json

variable {dialect : Dialect}

-- White space

theorem skipBlank_of_blank {text rest : List Char} (blank : Blank text rest)
    (stop : ∀ char ∈ rest.head?, ¬ isBlank char)
    : skipBlank text = rest := by
  induction blank with
  | @done rest =>
      cases rest with
      | nil => rfl
      | cons first more => exact List.dropWhile_cons_of_neg (stop first rfl)
  | skip blank _ ih =>
      rw [skipBlank, List.dropWhile_cons_of_pos blank]
      exact ih stop

theorem skipBlank_cons {text rest : List Char} {char : Char} (blank : Blank text (char :: rest))
    (stop : ¬ isBlank char)
    : skipBlank text = char :: rest := by
  apply skipBlank_of_blank blank
  intro first same
  cases same
  exact stop

theorem Blank.length_le {text rest : List Char} (blank : Blank text rest)
    : rest.length ≤ text.length := by
  induction blank with
  | done => exact Nat.le_refl _
  | skip _ _ ih => exact Nat.le_succ_of_le ih

theorem Blank.endsNumber {text rest : List Char} (blank : Blank text rest) (ends : EndsNumber rest)
    : EndsNumber text := by
  cases blank with
  | done => exact ends
  | skip blank _ =>
      intro char same
      cases same
      simp only [isBlank, Bool.or_eq_true, decide_eq_true_eq] at blank
      rcases blank with ((rfl | rfl) | rfl) | rfl <;> decide

theorem endsNumber_cons {char : Char} {rest : List Char}
    (mark : char = ',' ∨ char = ']' ∨ char = '}')
    : EndsNumber (char :: rest) := by
  intro first same
  cases same
  rcases mark with rfl | rfl | rfl <;> decide

-- Strings

theorem readHex4_complete {text rest : List Char} {signs code : ℕ} (hex : Hex4 signs text code rest)
    (signed : signs ≠ 0 → dialect.signed)
    : readHex4 dialect text = some (signs, code, rest) := by
  cases hex with
  | @plain a b c d rest code hex =>
      have notPlus : a ≠ '+' := by
        intro plus
        subst plus
        cases hex
      simp only [readHex4, if_neg notPlus, hex, Option.map_some]
  | signed hex =>
      simp only [readHex4, if_true, signed (by decide), hex, Option.map_some]

theorem Hex4.length {text rest : List Char} {signs code : ℕ} (hex : Hex4 signs text code rest)
    : rest.length + 4 = text.length := by
  cases hex <;> rfl

theorem Escape.length_lt {text rest : List Char} {marks : Marks} {char : Char}
    (escape : Escape marks text char rest)
    : rest.length < text.length := by
  cases escape with
  | unit hex _ | lone hex _ _ =>
      have length := hex.length
      omega
  | pair hex _ hex' _ =>
      have length := hex.length
      have length' := hex'.length
      simp only [List.length_cons] at length
      omega

theorem Content.length_lt {text chars rest : List Char} {marks : Marks}
    (content : Content marks text chars rest)
    : rest.length < text.length := by
  induction content with
  | close => exact Nat.lt_succ_self _
  | char _ _ _ _ ih => exact Nat.lt_succ_of_lt ih
  | short _ _ ih => exact Nat.lt_succ_of_lt (Nat.lt_succ_of_lt ih)
  | escape escape _ ih =>
      have shorter := escape.length_lt
      simp only [List.length_cons]
      omega

theorem Escape.hex4 {text rest : List Char} {marks : Marks} {char : Char}
    (escape : Escape marks text char rest) (passes : dialect.Passes marks)
    : ∃ result, readHex4 dialect text = some result := by
  cases escape with
  | unit hex _ | lone hex _ _ => exact ⟨_, readHex4_complete hex passes.signs⟩
  | pair hex _ _ _ =>
      refine ⟨_, readHex4_complete hex (fun some => passes.signs ?_)⟩
      simp only
      omega

theorem Content.hex4 {more chars rest : List Char} {marks : Marks}
    (content : Content marks ('\\' :: 'u' :: more) chars rest) (passes : dialect.Passes marks)
    : ∃ result, readHex4 dialect more = some result := by
  cases content with
  | char _ backslash _ _ => exact absurd rfl backslash
  | short escape _ => cases escape
  | escape escape _ => exact escape.hex4 (Dialect.passes_join.mp passes).1

theorem not_isHigh_of_fromU32 {code : ℕ} {char : Char} (isChar : fromU32 code = some char)
    : ¬ isHigh code := by
  unfold fromU32 at isChar
  split at isChar
  · rename_i valid
    simp only [isHigh, Bool.and_eq_true, decide_eq_true_eq]
    simp only [Nat.isValidChar] at valid
    omega
  · contradiction

theorem readEscape_complete {text rest chars after : List Char} {marks marks' : Marks}
    {char : Char} (escape : Escape marks text char rest) (passes : dialect.Passes marks)
    (content : Content marks' rest chars after) (passes' : dialect.Passes marks')
    : readEscape dialect text = some (marks, char, rest) := by
  cases escape with
  | @unit signs _ code _ _ hex isChar =>
      have notHigh := not_isHigh_of_fromU32 isChar
      have single : readUnit dialect signs code rest = some (⟨0, signs, 0⟩, char, rest) := by
        simp only [readUnit, isChar]
      simp only [readEscape, readHex4_complete hex passes.signs, Option.bind_eq_bind,
        Option.bind_some]
      split
      · rw [if_neg notHigh, single]
      · exact single
  | pair hex high hex' low =>
      simp only [readEscape, Option.bind_eq_bind, Option.bind_some, escapeAfter_eq_some.mpr rfl,
        readHex4_complete hex (fun some => passes.signs (by simp only; omega)),
        readHex4_complete hex' (fun some => passes.signs (by simp only; omega)), high, low, if_true]
  | @lone signs _ code _ hex noChar alone =>
      have single : readUnit dialect signs code rest = some (⟨0, signs, 1⟩, '\uFFFD', rest) := by
        simp only [readUnit, noChar, passes.lones Nat.one_ne_zero, if_true]
      simp only [readEscape, readHex4_complete hex passes.signs, Option.bind_eq_bind,
        Option.bind_some]
      split
      · rename_i more isEscape
        rw [escapeAfter_eq_some] at isEscape
        subst isEscape
        split
        · rename_i high
          obtain ⟨⟨signs', low, after'⟩, nextRead⟩ := content.hex4 passes'
          have notLow := alone high more rfl _ _ _ (readHex4_sound nextRead).1
          simp only [nextRead, Option.bind_some, if_neg notLow, single]
        · exact single
      · exact single

theorem readContent_complete {text chars rest : List Char} {marks : Marks} {fuel : ℕ}
    (content : Content marks text chars rest) (passes : dialect.Passes marks)
    (enough : text.length ≤ fuel)
    : readContent dialect fuel text = some (marks, chars, rest) := by
  induction content generalizing fuel with
  | close =>
      cases fuel with
      | zero => simp at enough
      | succ fuel => simp [readContent]
  | char quote backslash control more ih =>
      cases fuel with
      | zero => simp at enough
      | succ fuel =>
          have readMore := @ih fuel passes (Nat.le_of_succ_le_succ enough)
          simp only [readContent, if_neg quote, if_neg backslash,
            if_neg (Nat.not_lt_of_le control), readMore, Option.bind_eq_bind, Option.bind_some]
  | @short _ letter _ _ _ _ escape more ih =>
      cases fuel with
      | zero => simp at enough
      | succ fuel =>
          have notU : letter ≠ 'u' := by
            intro isU
            subst isU
            cases escape
          simp only [List.length_cons] at enough
          have readMore := @ih fuel passes (by omega)
          simp [readContent, notU, escape, readMore]
  | escape escape more ih =>
      obtain ⟨passes, passes'⟩ := Dialect.passes_join.mp passes
      cases fuel with
      | zero => simp at enough
      | succ fuel =>
          have shorter := escape.length_lt
          simp only [List.length_cons] at enough
          have readMore := @ih fuel passes' (by omega)
          have readFirst := readEscape_complete escape passes more passes'
          simp [readContent, readFirst, readMore]

-- Values

variable {M : Type} [FloatText M]

/-- The character can begin a piece: it is no white space and closes nothing. -/
def Opens (char : Char) : Prop := ¬ isBlank char ∧ char ≠ ']' ∧ char ≠ '}'

instance {char : Char} : Decidable (Opens char) :=
  inferInstanceAs (Decidable (¬ isBlank char ∧ char ≠ ']' ∧ char ≠ '}'))

/-- The character begins a word or a number, as it begins neither a string, an object nor an
array.
-/
def IsBare (char : Char) : Prop := char ≠ '"' ∧ char ≠ '{' ∧ char ≠ '['

instance {char : Char} : Decidable (IsBare char) :=
  inferInstanceAs (Decidable (char ≠ '"' ∧ char ≠ '{' ∧ char ≠ '['))

omit [FloatText M] in
theorem words_head {name : List Char} {value : Value M} (listed : (name, value) ∈ words)
    : ∃ first more, name = first :: more ∧ Opens first ∧ IsBare first := by
  simp only [words, List.mem_cons, List.not_mem_nil, or_false, Prod.mk.injEq] at listed
  rcases listed with ⟨rfl, _⟩ | ⟨rfl, _⟩ | ⟨rfl, _⟩ | ⟨rfl, _⟩ | ⟨rfl, _⟩ | ⟨rfl, _⟩ <;>
    exact ⟨_, _, rfl, by decide⟩

omit [FloatText M] in
theorem readWord_complete {name rest : List Char} {value : Value M} (listed : (name, value) ∈ words)
    : readWord (name ++ rest) = some (value, rest) := by
  simp only [words, List.mem_cons, List.not_mem_nil, or_false, Prod.mk.injEq] at listed
  rcases listed with ⟨rfl, rfl⟩ | ⟨rfl, rfl⟩ | ⟨rfl, rfl⟩ | ⟨rfl, rfl⟩ | ⟨rfl, rfl⟩ | ⟨rfl, rfl⟩ <;>
    rfl

theorem Numeral.WellFormed.head {numeral : Numeral} (wellFormed : numeral.WellFormed)
    : ∃ digit more, digit.isDigit
      ∧ numeral.text = (if numeral.negative then ['-'] else []) ++ digit :: more := by
  obtain ⟨digit, more, same⟩ := List.exists_cons_of_ne_nil wellFormed.nonempty
  refine ⟨digit, more ++ numeral.fractionText ++ numeral.exponentText,
    wellFormed.whole digit (same ▸ List.mem_cons_self), ?_⟩
  simp [Numeral.text, Numeral.signText, same]

theorem ne_of_isDigit {digit char : Char} (isDigit : digit.isDigit) (other : ¬ char.isDigit)
    : digit ≠ char := by
  intro same
  subst same
  exact other isDigit

theorem Numeral.WellFormed.opens {numeral : Numeral} (wellFormed : numeral.WellFormed)
    : ∃ first more, numeral.text = first :: more ∧ Opens first ∧ IsBare first := by
  obtain ⟨digit, more, isDigit, same⟩ := wellFormed.head
  cases negative : numeral.negative with
  | true =>
      rw [negative] at same
      exact ⟨'-', _, same, by decide⟩
  | false =>
      rw [negative] at same
      refine ⟨digit, more, same, ⟨?_, ?_, ?_⟩, ?_, ?_, ?_⟩
      · simp only [isBlank, Bool.or_eq_true, decide_eq_true_eq]
        intro blank
        rcases blank with ((rfl | rfl) | rfl) | rfl <;> exact absurd isDigit (by decide)
      all_goals exact ne_of_isDigit isDigit (by decide)

omit [FloatText M] in
theorem readWord_numeral {numeral : Numeral} (wellFormed : numeral.WellFormed) (rest : List Char)
    : readWord (M := M) (numeral.text ++ rest) = none := by
  obtain ⟨digit, more, isDigit, same⟩ := wellFormed.head
  have apart : ∀ char : Char, ¬ char.isDigit → (char == digit) = false :=
    fun char other => beq_false_of_ne (ne_of_isDigit isDigit other).symm
  have n := apart 'n' (by decide)
  have t := apart 't' (by decide)
  have f := apart 'f' (by decide)
  have N := apart 'N' (by decide)
  have I := apart 'I' (by decide)
  have minus := apart '-' (by decide)
  rw [same]
  cases numeral.negative <;>
    simp [readWord, words, List.findSome?, List.isPrefixOf?, n, t, f, N, I, minus]

theorem Reads.opens {marks : Marks} {piece : Piece M} {text rest : List Char}
    (reads : Reads marks piece text rest)
    : ∃ first more, text = first :: more ∧ Opens first := by
  induction reads with
  | word listed =>
      obtain ⟨first, more, same, opens, _⟩ := words_head listed
      exact ⟨first, _, by rw [same, List.cons_append], opens⟩
  | number wellFormed =>
      obtain ⟨first, more, same, opens, _⟩ := wellFormed.opens
      exact ⟨first, _, by rw [same, List.cons_append], opens⟩
  | lastItem _ _ ih => exact ih
  | nextItem _ _ _ _ ih _ => exact ih
  | _ => exact ⟨_, _, rfl, by decide⟩

theorem Reads.length_lt {marks : Marks} {piece : Piece M} {text rest : List Char}
    (reads : Reads marks piece text rest)
    : rest.length < text.length := by
  induction reads with
  | word listed =>
      obtain ⟨first, more, same, _⟩ := words_head listed
      simp only [same, List.length_append, List.length_cons]
      omega
  | number wellFormed =>
      obtain ⟨first, more, same, _⟩ := wellFormed.opens
      simp only [same, List.length_append, List.length_cons]
      omega
  | string content => exact Nat.lt_succ_of_lt content.length_lt
  | emptyArray close | emptyObject close =>
      have shorter := close.length_le
      simp only [List.length_cons] at shorter ⊢
      omega
  | array gap _ ih | object gap _ ih =>
      have shorter := gap.length_le
      simp only [List.length_cons]
      omega
  | lastItem _ close ih =>
      have shorter := close.length_le
      simp only [List.length_cons] at shorter
      omega
  | nextItem _ comma gap _ ih ih' =>
      have shorter := comma.length_le
      have shorter' := gap.length_le
      simp only [List.length_cons] at shorter
      omega
  | lastMember content colon gap _ close ih =>
      have first := content.length_lt
      have shorter := colon.length_le
      have shorter' := gap.length_le
      have last := close.length_le
      simp only [List.length_cons] at shorter last ⊢
      omega
  | nextMember content colon gap _ comma gap' _ ih ih' =>
      have first := content.length_lt
      have shorter := colon.length_le
      have shorter' := gap.length_le
      have next := comma.length_le
      have next' := gap'.length_le
      simp only [List.length_cons] at shorter next ⊢
      omega

/-- With enough fuel the reader of a piece's kind reads it. -/
def Piece.ReadBy (dialect : Dialect) (fuel depth : ℕ) (marks : Marks) (text rest : List Char)
    : Piece M → Prop
  | .value found =>
      2 * text.length + 1 ≤ fuel → EndsNumber rest →
        readValue dialect fuel depth text = some (marks, found, rest)
  | .items values =>
      2 * text.length + 2 ≤ fuel → readItems dialect fuel depth text = some (marks, values, rest)
  | .members fields =>
      2 * text.length + 2 ≤ fuel →
        readMembers dialect fuel depth text = some (marks, fields, rest)

theorem readValue_bare {fuel depth : ℕ} {text : List Char}
    (bare : ∃ first more, text = first :: more ∧ IsBare first)
    : readValue (M := M) dialect (fuel + 1) depth text
      = (match readWord text with
        | some (value, rest) => some (.plain, value, rest)
        | none => do
            let (numeral, rest) ← scanNumeral text
            some (.plain, .num numeral.value, rest)) := by
  obtain ⟨first, more, rfl, quote, brace, bracket⟩ := bare
  unfold readValue
  exact (if_neg quote).trans ((if_neg brace).trans (if_neg bracket))

theorem Opens.skipBlank {text rest : List Char} {char : Char} (opens : Opens char)
    (gap : Blank text (char :: rest))
    : skipBlank text = char :: rest :=
  skipBlank_cons gap opens.1

section Step

variable {fuel depth : ℕ} {text rest : List Char} {marks : Marks}

theorem readValue_array {inner : List Char} {values : List (Value M)} (gap : Blank text inner)
    (opens : ∃ first more, inner = first :: more ∧ Opens first)
    (enter : dialect.Within (depth + 1))
    (items : readItems dialect fuel (depth + 1) inner = some (marks, values, rest))
    : readValue dialect (fuel + 1) depth ('[' :: text)
      = some (marks.nest, .array values, rest) := by
  obtain ⟨first, more, rfl, opens⟩ := opens
  have notQuote : '[' ≠ '"' := by decide
  have notBrace : '[' ≠ '{' := by decide
  simp only [readValue, if_neg notQuote, if_neg notBrace, if_true,
    (mayEnter_iff dialect).mpr enter, opens.skipBlank gap]
  split
  · rename_i same
    exact absurd (List.cons.inj same).1 opens.2.1
  · simp only [items, Option.bind_eq_bind, Option.bind_some]

theorem readItems_last {after : List Char} {value : Value M}
    (item : readValue dialect fuel depth text = some (marks, value, after))
    (close : Blank after (']' :: rest))
    : readItems dialect (fuel + 1) depth text = some (marks, [value], rest) := by
  simp only [readItems, item, Option.bind_eq_bind, Option.bind_some,
    skipBlank_cons close (by decide)]

theorem readItems_next {after next inner : List Char} {value : Value M} {values : List (Value M)}
    {marks' : Marks} (item : readValue dialect fuel depth text = some (marks, value, after))
    (comma : Blank after (',' :: next)) (gap : Blank next inner)
    (opens : ∃ first more, inner = first :: more ∧ Opens first)
    (items : readItems dialect fuel depth inner = some (marks', values, rest))
    : readItems dialect (fuel + 1) depth text
      = some (marks.join marks', value :: values, rest) := by
  obtain ⟨first, more, rfl, opens⟩ := opens
  simp only [readItems, item, Option.bind_eq_bind, Option.bind_some,
    skipBlank_cons comma (by decide), opens.skipBlank gap, items]

theorem readMembers_last {after next inner bracket key : List Char} {value : Value M}
    {marks' : Marks} (content : readContent dialect fuel text = some (marks, key, after))
    (colon : Blank after (':' :: next)) (gap : Blank next inner)
    (opens : ∃ first more, inner = first :: more ∧ Opens first)
    (field : readValue dialect fuel depth inner = some (marks', value, bracket))
    (close : Blank bracket ('}' :: rest))
    : readMembers dialect (fuel + 1) depth ('"' :: text)
      = some (marks.join marks', [(String.ofList key, value)], rest) := by
  obtain ⟨first, more, rfl, opens⟩ := opens
  simp only [readMembers, content, Option.bind_eq_bind, Option.bind_some,
    skipBlank_cons colon (by decide), opens.skipBlank gap, field, skipBlank_cons close (by decide)]

theorem readMembers_next {after next inner mark next' inner' key : List Char} {value : Value M}
    {marks' marks'' : Marks} {members : List (String × Value M)}
    (content : readContent dialect fuel text = some (marks, key, after))
    (colon : Blank after (':' :: next)) (gap : Blank next inner)
    (opens : ∃ first more, inner = first :: more ∧ Opens first)
    (field : readValue dialect fuel depth inner = some (marks', value, mark))
    (comma : Blank mark (',' :: next')) (gap' : Blank next' inner')
    (opens' : ∃ first more, inner' = first :: more ∧ Opens first)
    (fields : readMembers dialect fuel depth inner' = some (marks'', members, rest))
    : readMembers dialect (fuel + 1) depth ('"' :: text)
      = some ((marks.join marks').join marks'', (String.ofList key, value) :: members, rest) := by
  obtain ⟨first, more, rfl, opens⟩ := opens
  obtain ⟨first', more', rfl, opens'⟩ := opens'
  simp only [readMembers, content, Option.bind_eq_bind, Option.bind_some,
    skipBlank_cons colon (by decide), opens.skipBlank gap, field, skipBlank_cons comma (by decide),
    opens'.skipBlank gap', fields]

theorem readValue_object {inner : List Char} {members : List (String × Value M)}
    (gap : Blank text inner) (opens : ∃ first more, inner = first :: more ∧ Opens first)
    (enter : dialect.Within (depth + 1))
    (fields : readMembers dialect fuel (depth + 1) inner = some (marks, members, rest))
    : readValue dialect (fuel + 1) depth ('{' :: text)
      = some (marks.nest, .object (objectOf [] members), rest) := by
  obtain ⟨first, more, rfl, opens⟩ := opens
  have notQuote : '{' ≠ '"' := by decide
  simp only [readValue, if_neg notQuote, if_true, (mayEnter_iff dialect).mpr enter,
    opens.skipBlank gap]
  split
  · rename_i same
    exact absurd (List.cons.inj same).1 opens.2.2
  · simp only [fields, Option.bind_eq_bind, Option.bind_some]

end Step

theorem Dialect.Allows.enter {depth : ℕ} {marks : Marks}
    (allows : dialect.Allows depth marks.nest)
    : dialect.Within (depth + 1) := by
  intro limit is
  have bound := allows.within limit is
  simp only [Marks.nest] at bound
  omega

theorem fuel_succ {least fuel : ℕ} (enough : least + 1 ≤ fuel) : ∃ less, fuel = less + 1 :=
  ⟨fuel - 1, by omega⟩

/-- The text of every piece that is let pass is read, by induction on its reading. -/
theorem Reads.complete {piece : Piece M} {text rest : List Char} {marks : Marks}
    (reads : Reads marks piece text rest)
    : ∀ {fuel depth}, dialect.Allows depth marks →
        piece.ReadBy dialect fuel depth marks text rest := by
  induction reads with
  | @word name value rest listed =>
      intro fuel depth _
      simp only [Piece.ReadBy]
      intro enough _
      obtain ⟨fuel, rfl⟩ := fuel_succ enough
      obtain ⟨first, more, same, _, bare⟩ := words_head listed
      rw [readValue_bare ⟨first, more ++ rest, by rw [same, List.cons_append], bare⟩,
        readWord_complete listed]
  | @number numeral rest wellFormed =>
      intro fuel depth _
      simp only [Piece.ReadBy]
      intro enough ends
      obtain ⟨fuel, rfl⟩ := fuel_succ enough
      obtain ⟨first, more, same, _, bare⟩ := wellFormed.opens
      rw [readValue_bare ⟨first, more ++ rest, by rw [same, List.cons_append], bare⟩,
        readWord_numeral wellFormed, scanNumeral_complete wellFormed ends]
      rfl
  | @string marks text chars rest content =>
      intro fuel depth allows
      simp only [Piece.ReadBy, List.length_cons]
      intro enough _
      obtain ⟨fuel, rfl⟩ := fuel_succ enough
      have read := @readContent_complete dialect _ _ _ _ fuel content allows.toPasses (by omega)
      simp only [readValue, if_true, read, Option.bind_eq_bind, Option.bind_some]
  | @emptyArray text rest close =>
      intro fuel depth allows
      simp only [Piece.ReadBy]
      intro enough _
      obtain ⟨fuel, rfl⟩ := fuel_succ enough
      have notQuote : '[' ≠ '"' := by decide
      have notBrace : '[' ≠ '{' := by decide
      simp only [readValue, if_neg notQuote, if_neg notBrace, if_true,
        (mayEnter_iff dialect).mpr allows.enter, skipBlank_cons close (by decide)]
  | array gap items ih =>
      intro fuel depth allows
      simp only [Piece.ReadBy, List.length_cons]
      intro enough _
      obtain ⟨fuel, rfl⟩ := fuel_succ enough
      have shorter := gap.length_le
      exact readValue_array gap items.opens allows.enter
        (ih (Dialect.allows_nest.mp allows) (by omega))
  | @emptyObject text rest close =>
      intro fuel depth allows
      simp only [Piece.ReadBy]
      intro enough _
      obtain ⟨fuel, rfl⟩ := fuel_succ enough
      have notQuote : '{' ≠ '"' := by decide
      simp only [readValue, if_neg notQuote, if_true, (mayEnter_iff dialect).mpr allows.enter,
        skipBlank_cons close (by decide)]
  | object gap fields ih =>
      intro fuel depth allows
      simp only [Piece.ReadBy, List.length_cons]
      intro enough _
      obtain ⟨fuel, rfl⟩ := fuel_succ enough
      have shorter := gap.length_le
      exact readValue_object gap fields.opens allows.enter
        (ih (Dialect.allows_nest.mp allows) (by omega))
  | lastItem item close ih =>
      intro fuel depth allows
      simp only [Piece.ReadBy]
      intro enough
      obtain ⟨fuel, rfl⟩ := fuel_succ enough
      have ends := close.endsNumber (endsNumber_cons (by decide))
      exact readItems_last (ih allows (by omega) ends) close
  | nextItem item comma gap items ih ih' =>
      intro fuel depth allows
      obtain ⟨allows, allows'⟩ := Dialect.allows_join.mp allows
      simp only [Piece.ReadBy]
      intro enough
      obtain ⟨fuel, rfl⟩ := fuel_succ enough
      have ends := comma.endsNumber (endsNumber_cons (by decide))
      have shorter := item.length_lt
      have shorter' := comma.length_le
      have shorter'' := gap.length_le
      simp only [List.length_cons] at shorter'
      exact readItems_next (ih allows (by omega) ends) comma gap items.opens
        (ih' allows' (by omega))
  | lastMember content colon gap field close ih =>
      intro fuel depth allows
      obtain ⟨allows, allows'⟩ := Dialect.allows_join.mp allows
      simp only [Piece.ReadBy, List.length_cons]
      intro enough
      obtain ⟨fuel, rfl⟩ := fuel_succ enough
      have ends := close.endsNumber (endsNumber_cons (by decide))
      have shorter := content.length_lt
      have shorter' := colon.length_le
      have shorter'' := gap.length_le
      simp only [List.length_cons] at shorter'
      exact readMembers_last (readContent_complete content allows.toPasses (by omega)) colon gap
        field.opens (ih allows' (by omega) ends) close
  | nextMember content colon gap field comma gap' fields ih ih' =>
      intro fuel depth allows
      obtain ⟨allows, allows''⟩ := Dialect.allows_join.mp allows
      obtain ⟨allows, allows'⟩ := Dialect.allows_join.mp allows
      simp only [Piece.ReadBy, List.length_cons]
      intro enough
      obtain ⟨fuel, rfl⟩ := fuel_succ enough
      have ends := comma.endsNumber (endsNumber_cons (by decide))
      have shorter := content.length_lt
      have shorter' := colon.length_le
      have shorter'' := gap.length_le
      have shorterField := field.length_lt
      have next := comma.length_le
      have next' := gap'.length_le
      simp only [List.length_cons] at shorter' next
      exact readMembers_next (readContent_complete content allows.toPasses (by omega)) colon gap
        field.opens (ih allows' (by omega) ends) comma gap' fields.opens (ih' allows'' (by omega))

-- Whole texts

theorem within_zero : dialect.Within 0 := fun _ _ => Nat.zero_le _

theorem readText_iff {marks : Marks} {value : Value M} {text : List Char}
    : readText dialect text = some (marks, value)
      ↔ IsText marks value text ∧ dialect.Allows 0 marks := by
  constructor
  · intro read
    simp only [readText, Option.bind_eq_bind, Option.bind_eq_some_iff, Prod.exists] at read
    obtain ⟨marks', value', after, valueRead, read⟩ := read
    have sound := (soundWith dialect _).value within_zero valueRead
    have blank := blank_skipBlank after
    split at read
    · rename_i isEnd
      rw [isEnd] at blank
      cases read
      exact ⟨⟨_, after, blank_skipBlank text, sound.reads, blank⟩, sound.allows⟩
    · contradiction
  · intro facts
    obtain ⟨⟨inner, after, gap, reads, blank⟩, allows⟩ := facts
    obtain ⟨first, more, same, opens⟩ := reads.opens
    subst same
    have shorter := gap.length_le
    have ends := blank.endsNumber (fun char first => by cases first)
    have atEnd := skipBlank_of_blank blank (fun char first => by cases first)
    have read : (Piece.value value).ReadBy dialect (2 * text.length + 2) 0 marks (first :: more)
        after :=
      reads.complete allows
    simp only [Piece.ReadBy] at read
    simp only [readText, opens.skipBlank gap, read (by omega) ends, Option.bind_eq_bind,
      Option.bind_some, atEnd]

theorem IsText.unique {first second : Marks} {value value' : Value M} {text : List Char}
    (isText : IsText first value text) (isText' : IsText second value' text)
    : first = second ∧ value = value' := by
  have all : ∀ marks, (⟨true, true, none⟩ : Dialect).Allows 0 marks := by
    intro marks
    exact ⟨⟨fun _ => rfl, fun _ => rfl⟩, fun limit is => by cases is⟩
  have read := readText_iff.mpr ⟨isText, all first⟩
  rw [readText_iff.mpr ⟨isText', all second⟩] at read
  cases read
  exact ⟨rfl, rfl⟩

end MokuroBunko.Lib.Json
