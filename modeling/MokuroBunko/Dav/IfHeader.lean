import MokuroBunko.Dav.Resource

/-! The `If` header (`conditional.rs`), read and put to a resource, beside the headers of RFC 4918
and what they mean. It is read by brackets and blanks, which is right only for some of these.
-/

namespace MokuroBunko.Dav.Conditional

open MokuroBunko.Lib

-- Reading

/-- One condition of a list. -/
inductive Cond where
  | token (negated : Bool) (token : List Char)
  | etag (negated : Bool) (etag : List Char)
deriving DecidableEq

structure IfHeader where
  /-- The lists of each resource, or of `*`. -/
  entries : List (String × List (List Cond))
  tokens : List (List Char)
deriving DecidableEq

def afterScheme : List Char → Option (List Char)
  | [] => none
  | char :: rest =>
      match char, rest with
      | ':', '/' :: '/' :: after => some after
      | _, _ => afterScheme rest

/-- The resource of a tagged list as a normalised path. -/
def normalizeTag (tag : List Char) : String :=
  if tag = ['*'] then "*"
  else
    let path :=
      match afterScheme tag with
      | some rest =>
          match Text.splitFirst '/' rest with
          | some (_, after) => '/' :: after
          | none => ['/']
      | none => tag
    normalize ((decodeRequestPath (String.ofList path)).getD (String.ofList path))

def splitWhitespace (text : List Char) : List (List Char) :=
  (text.splitOnP Text.isWhitespace).filter (· ≠ [])

def trimMatches (dropped : Char → Bool) (text : List Char) : List Char :=
  (text.dropWhile dropped).rdropWhile dropped

/-- `trim_start_matches("W/")`. -/
def trimWeak : List Char → List Char
  | 'W' :: '/' :: rest => trimWeak rest
  | text => text

def isNot (item : List Char) : Bool := item.map Text.asciiLowerChar = ['n', 'o', 't']

def condOf (negated : Bool) (item : List Char) : Cond :=
  if item.head? = some '[' then
    .etag negated (trimMatches (· = '"')
      (trimWeak (trimMatches (fun char => char = '"' || char = '[' || char = ']') item)))
  else .token negated (trimMatches (fun char => char = '<' || char = '>') item)

/-- The conditions of the items of a list. -/
def conds : Bool → List (List Char) → List Cond
  | _, [] => []
  | negated, item :: rest =>
      if isNot item then conds true rest else condOf negated item :: conds false rest

def Cond.named : Cond → Option (List Char)
  | .token _ url => some url
  | .etag _ _ => none

def IfHeader.add (header : IfHeader) (resource : String) (list : List Cond) : IfHeader where
  entries := Entries.insert resource
    ((Entries.get? resource header.entries).getD [] ++ [list]) header.entries
  tokens := header.tokens ++ list.filterMap Cond.named

/-- The loop of `IfHeader::parse`, with how many characters it has yet to pass over. -/
def scan : ℕ → String → IfHeader → List Char → IfHeader
  | _, _, out, [] => out
  | skip + 1, resource, out, _ :: rest => scan skip resource out rest
  | 0, resource, out, char :: rest =>
      if char = '<' then
        match Text.splitFirst '>' rest with
        | some (tag, _) => scan (tag.length + 1) (normalizeTag tag) out rest
        | none => scan 0 resource out rest
      else if char = '(' then
        match Text.splitFirst ')' rest with
        | none => out
        | some (content, _) =>
            scan (content.length + 1) resource
              (out.add resource (conds false (splitWhitespace content))) rest
      else scan 0 resource out rest

/-- `IfHeader::parse` of the header's text, which is ASCII. -/
def parse (value : String) : IfHeader :=
  let raw := (Text.trim value).toList
  scan 0 "*" ⟨[], []⟩ (if raw.head? = some '<' then raw else '<' :: '*' :: '>' :: raw)

def Cond.test (etag : Option (List Char)) (locks : List (List Char)) : Cond → Bool
  | .etag negated want => (etag == some want) != negated
  | .token negated url => locks.contains url != negated

/-- `IfHeader::test`. -/
def IfHeader.test (header : IfHeader) (path : String) (etag : Option (List Char))
    (locks : List (List Char)) : Bool :=
  match (Entries.get? (normalize path) header.entries).or (Entries.get? "*" header.entries) with
  | some lists => lists.any (fun list => list.all (Cond.test etag locks))
  | none => true

-- The headers of RFC 4918

inductive Subject where
  | token (url : List Char)
  | entity (weak : Bool) (text : List Char)
deriving DecidableEq

/-- A condition, with the blanks before it, and with the word `Not` and the blanks after it. -/
structure Condition where
  before : List Char
  negation : Option (List Char × List Char)
  subject : Subject
deriving DecidableEq

/-- A list, with the blanks before it and before its end. -/
structure Group where
  before : List Char
  items : List Condition
  close : List Char
deriving DecidableEq

structure Tag where
  before : List Char
  ref : List Char
deriving DecidableEq

inductive Header where
  | untagged (lists : List Group)
  | tagged (resources : List (Tag × List Group))
deriving DecidableEq

def Subject.text : Subject → List Char
  | .token url => '<' :: (url ++ ['>'])
  | .entity true text => '[' :: 'W' :: '/' :: '"' :: (text ++ ['"', ']'])
  | .entity false text => '[' :: '"' :: (text ++ ['"', ']'])

def Condition.words (condition : Condition) : List (List Char) :=
  (condition.negation.map Prod.fst).toList ++ [condition.subject.text]

def Condition.text (condition : Condition) : List Char :=
  condition.before ++ (condition.negation.elim [] (fun word => word.1 ++ word.2)
    ++ condition.subject.text)

def Group.content (group : Group) : List Char :=
  group.items.flatMap Condition.text ++ group.close

def Group.text (group : Group) : List Char :=
  group.before ++ '(' :: (group.content ++ [')'])

def Tag.text (tag : Tag) : List Char := tag.before ++ '<' :: (tag.ref ++ ['>'])

def Header.text : Header → List Char
  | .untagged lists => lists.flatMap Group.text
  | .tagged resources =>
      resources.flatMap (fun resource => resource.1.text ++ resource.2.flatMap Group.text)

/-- Each list with the resource it is for. -/
def Header.lists : Header → List (Option (List Char) × Group)
  | .untagged lists => lists.map (fun list => (none, list))
  | .tagged resources =>
      resources.flatMap (fun resource => resource.2.map (fun list => (some resource.1.ref, list)))

def Blanks (text : List Char) : Prop := ∀ char ∈ text, char = ' ' ∨ char = '\t'

/-- A URL has no blanks and angle brackets, a quoted text no quotes. -/
def Subject.Legal : Subject → Prop
  | .token url => ∀ char ∈ url, Text.isWhitespace char = false ∧ char ≠ '<' ∧ char ≠ '>'
  | .entity _ text => '"' ∉ text

structure Condition.Legal (condition : Condition) : Prop where
  before : Blanks condition.before
  negation : ∀ word ∈ condition.negation, isNot word.1 ∧ Blanks word.2
  subject : condition.subject.Legal

structure Group.Legal (group : Group) : Prop where
  before : Blanks group.before
  filled : group.items ≠ []
  items : ∀ item ∈ group.items, item.Legal
  close : Blanks group.close

structure Tag.Legal (tag : Tag) : Prop where
  before : Blanks tag.before
  ref : '>' ∉ tag.ref
  single : tag.ref ≠ ['*']

def Header.Shape : Header → Prop
  | .untagged lists => lists ≠ [] ∧ ∀ list ∈ lists, list.Legal
  | .tagged resources =>
      resources ≠ [] ∧ ∀ resource ∈ resources,
        resource.1.Legal ∧ resource.2 ≠ [] ∧ ∀ list ∈ resource.2, list.Legal

/-- A header of the grammar, without blanks at its ends. -/
structure Header.Legal (header : Header) : Prop where
  shape : header.Shape
  ends : Text.trim (String.ofList header.text) = String.ofList header.text

def Subject.Holds (etag : Option (List Char)) (locks : List (List Char)) : Subject → Prop
  | .token url => url ∈ locks
  | .entity _ text => etag = some text

def Condition.Holds (etag : Option (List Char)) (locks : List (List Char))
    (condition : Condition) : Prop :=
  condition.subject.Holds etag locks ↔ condition.negation = none

def Group.Holds (etag : Option (List Char)) (locks : List (List Char)) (group : Group) : Prop :=
  ∀ item ∈ group.items, item.Holds etag locks

/-- A list without a tag is for every resource. -/
def applies (path : String) : Option (List Char) → Bool
  | none => true
  | some ref => normalizeTag ref = normalize path

/-- What the header says of a resource. -/
def Header.Allows (header : Header) (path : String) (etag : Option (List Char))
    (locks : List (List Char)) : Prop :=
  (∃ list ∈ header.lists, applies path list.1 ∧ list.2.Holds etag locks)
    ∨ ∀ list ∈ header.lists, ¬ applies path list.1

def Subject.named : Subject → Option (List Char)
  | .token url => some url
  | .entity _ _ => none

def Header.tokens (header : Header) : List (List Char) :=
  header.lists.flatMap (fun list => list.2.items.filterMap (·.subject.named))

/-- The header is read as it is meant. -/
def Header.Understood (header : Header) : Prop :=
  (∀ path etag locks, (parse (String.ofList header.text)).test path etag locks = true
    ↔ header.Allows path etag locks)
  ∧ (parse (String.ofList header.text)).tokens = header.tokens

-- Headers that are read right

/-- Neither blanks nor a closing parenthesis stand in it, and brackets and the mark of a weak tag
only where they are not trimmed.
-/
def Subject.Plain : Subject → Prop
  | .token url => ')' ∉ url
  | .entity weak text =>
      (∀ char ∈ text, Text.isWhitespace char = false ∧ char ≠ ')')
        ∧ (∀ last ∈ text.getLast?, last ≠ '[' ∧ last ≠ ']')
        ∧ (weak = false → (∀ first ∈ text.head?, first ≠ '[' ∧ first ≠ ']')
          ∧ ¬ ['W', '/'] <+: text)

/-- Blanks part the word `Not` from what follows. -/
structure Condition.Plain (condition : Condition) : Prop where
  subject : condition.subject.Plain
  parted : ∀ word ∈ condition.negation, word.2 ≠ []

/-- Blanks part the conditions. -/
structure Group.Plain (group : Group) : Prop where
  items : ∀ item ∈ group.items, item.Plain
  parted : ∀ item ∈ group.items.tail, item.before ≠ []

def Header.Plain (header : Header) : Prop := ∀ list ∈ header.lists, list.2.Plain

-- Words

theorem isWhitespace_of_blanks {gap : List Char} (blanks : Blanks gap)
    : ∀ char ∈ gap, Text.isWhitespace char = true := by
  intro char isIn
  obtain rfl | rfl := blanks char isIn <;> rfl

theorem splitWhitespace_gap {gap : List Char} (blanks : Blanks gap) (text : List Char)
    : splitWhitespace (gap ++ text) = splitWhitespace text := by
  have white := isWhitespace_of_blanks blanks
  induction gap with
  | nil => rfl
  | cons char gap ih =>
      have rest := ih (fun other isIn => blanks other (List.mem_cons_of_mem _ isIn))
        (fun other isIn => white other (List.mem_cons_of_mem _ isIn))
      rw [← rest]
      simp [splitWhitespace, List.splitOnP_cons_eq_if_modifyHead, white char List.mem_cons_self]

/-- The text ends or goes on with a blank. -/
def Parted (text : List Char) : Prop := ∀ char ∈ text.head?, Text.isWhitespace char = true

theorem splitWhitespace_word {word text : List Char} (filled : word ≠ [])
    (solid : ∀ char ∈ word, Text.isWhitespace char = false) (parted : Parted text)
    : splitWhitespace (word ++ text) = word :: splitWhitespace text := by
  cases text with
  | nil => simp [splitWhitespace, List.splitOnP_eq_singleton solid, filled]
  | cons char text =>
      have white := parted char rfl
      have split := List.splitOnP_append_cons_of_forall_mem solid char white text
      simp [splitWhitespace, split, filled, List.splitOnP_cons_eq_if_modifyHead, white]

theorem solid_text {subject : Subject} (legal : subject.Legal) (plain : subject.Plain)
    : (∀ char ∈ subject.text, Text.isWhitespace char = false ∧ char ≠ ')') := by
  cases subject with
  | token url =>
      simp only [Subject.text, List.mem_cons, List.mem_append, List.not_mem_nil, or_false]
      rintro char (rfl | isIn | rfl)
      · decide
      · exact ⟨(legal char isIn).1, fun same => plain (same ▸ isIn)⟩
      · decide
  | entity weak text =>
      cases weak <;>
        simp only [Subject.text, List.mem_cons, List.mem_append, List.not_mem_nil, or_false]
      · rintro char (rfl | rfl | isIn | rfl | rfl)
        case inr.inr.inl => exact plain.1 char isIn
        all_goals decide
      · rintro char (rfl | rfl | rfl | rfl | isIn | rfl | rfl)
        case inr.inr.inr.inr.inl => exact plain.1 char isIn
        all_goals decide

theorem text_ne_nil (subject : Subject) : subject.text ≠ [] := by
  cases subject with
  | token url => exact nofun
  | entity weak text => cases weak <;> exact nofun

theorem solid_not {word : List Char} (isWord : isNot word)
    : word ≠ [] ∧ ∀ char ∈ word, Text.isWhitespace char = false ∧ char ≠ ')' := by
  have lower := of_decide_eq_true isWord
  constructor
  · rintro rfl
    exact absurd lower (by decide)
  · intro char isIn
    have isLetter : Text.asciiLowerChar char ∈ ['n', 'o', 't'] :=
      lower ▸ List.mem_map_of_mem isIn
    have range : 33 ≤ char.toNat ∧ char.toNat ≤ 126 ∧ char ≠ ')' := by
      unfold Text.asciiLowerChar at isLetter
      split at isLetter
      case isTrue upper => exact ⟨by omega, by omega, by rintro rfl; exact absurd upper (by decide)⟩
      case isFalse =>
        simp only [List.mem_cons, List.not_mem_nil, or_false] at isLetter
        obtain rfl | rfl | rfl := isLetter <;> decide
    exact ⟨Text.isWhitespace_of_range range.1 range.2.1, range.2.2⟩

theorem splitWhitespace_condition {condition : Condition} {text : List Char}
    (legal : condition.Legal) (plain : condition.Plain) (parted : Parted text)
    : splitWhitespace (condition.text ++ text) = condition.words ++ splitWhitespace text := by
  have solid := fun char isIn => (solid_text legal.subject plain.subject char isIn).1
  have subject := splitWhitespace_word (text_ne_nil condition.subject) solid parted
  obtain ⟨before, negation, subject'⟩ := condition
  cases negation with
  | none =>
      simp only [Condition.text, Condition.words, Option.elim_none, List.nil_append,
        List.append_assoc]
      rw [splitWhitespace_gap legal.before]
      exact subject
  | some word =>
      obtain ⟨word, gap⟩ := word
      have isWord := solid_not (legal.negation _ rfl).1
      have blanks := (legal.negation _ rfl).2
      have next : Parted (gap ++ (subject'.text ++ text)) := by
        cases gap with
        | nil => exact absurd rfl (plain.parted _ rfl)
        | cons char gap =>
            intro first isFirst
            cases isFirst
            exact isWhitespace_of_blanks blanks _ List.mem_cons_self
      simp only [Condition.text, Condition.words, Option.elim_some, List.append_assoc]
      rw [splitWhitespace_gap legal.before,
        splitWhitespace_word isWord.1 (fun char isIn => (isWord.2 char isIn).1) next,
        splitWhitespace_gap blanks, subject]
      rfl

theorem parted_condition {condition : Condition} {text : List Char} (legal : condition.Legal)
    (apart : condition.before ≠ []) : Parted (condition.text ++ text) := by
  unfold Condition.text
  cases isBefore : condition.before with
  | nil => exact absurd isBefore apart
  | cons char gap =>
      intro first isFirst
      cases isFirst
      exact isWhitespace_of_blanks legal.before _ (isBefore ▸ List.mem_cons_self)

theorem splitWhitespace_content {items : List Condition} {close : List Char}
    (legal : ∀ item ∈ items, item.Legal) (plain : ∀ item ∈ items, item.Plain)
    (apart : ∀ item ∈ items.tail, item.before ≠ []) (blanks : Blanks close)
    : splitWhitespace (items.flatMap Condition.text ++ close)
      = items.flatMap Condition.words := by
  induction items with
  | nil =>
      have none := splitWhitespace_gap blanks []
      rw [List.append_nil] at none
      exact none
  | cons item items ih =>
      rw [List.tail_cons] at apart
      have parted : Parted (items.flatMap Condition.text ++ close) := by
        cases items with
        | nil =>
            intro first isFirst
            exact isWhitespace_of_blanks blanks _ (List.mem_of_mem_head? isFirst)
        | cons next others =>
            rw [List.flatMap_cons, List.append_assoc]
            exact parted_condition (legal _ (by simp)) (apart _ List.mem_cons_self)
      rw [List.flatMap_cons, List.flatMap_cons, List.append_assoc,
        splitWhitespace_condition (legal _ List.mem_cons_self) (plain _ List.mem_cons_self) parted,
        ih (fun other isIn => legal other (List.mem_cons_of_mem _ isIn))
          (fun other isIn => plain other (List.mem_cons_of_mem _ isIn))
          (fun other isIn => apart other (List.mem_of_mem_tail isIn))]

-- Conditions

/-- What a condition is to be read as. -/
def Condition.cond (condition : Condition) : Cond :=
  match condition.subject with
  | .token url => .token condition.negation.isSome url
  | .entity _ text => .etag condition.negation.isSome text

theorem trimMatches_middle {dropped : Char → Bool} {before text after : List Char}
    (isBefore : ∀ char ∈ before, dropped char = true)
    (isAfter : ∀ char ∈ after, dropped char = true)
    (first : ∀ char ∈ text.head?, dropped char = false)
    (last : ∀ char ∈ text.getLast?, dropped char = false)
    : trimMatches dropped (before ++ (text ++ after)) = text := by
  unfold trimMatches
  rw [List.dropWhile_append_of_pos isBefore]
  cases text with
  | nil =>
      rw [List.nil_append, List.dropWhile_eq_nil_iff.mpr isAfter]
      rfl
  | cons char text =>
      rw [List.cons_append, List.dropWhile_cons_of_neg (by simp [first char rfl]),
        ← List.cons_append]
      unfold List.rdropWhile
      rw [List.reverse_append, List.dropWhile_append_of_pos (by simpa using isAfter)]
      refine List.rdropWhile_eq_self_iff.mpr ?_
      intro filled
      simp [last _ (List.getLast?_eq_some_getLast filled)]

theorem trimWeak_self {text : List Char} (unmarked : ¬ ['W', '/'] <+: text)
    : trimWeak text = text := by
  unfold trimWeak
  split
  · exact absurd ⟨_, rfl⟩ unmarked
  · rfl

theorem condOf_token {url : List Char} (legal : (Subject.token url).Legal) (negated : Bool)
    : condOf negated (Subject.token url).text = .token negated url := by
  have trimmed : trimMatches (fun char => char = '<' || char = '>') (['<'] ++ (url ++ ['>']))
      = url := by
    refine trimMatches_middle (by simp) (by simp) ?_ ?_
    · intro char isFirst
      simpa using (legal char (List.mem_of_mem_head? isFirst)).2
    · intro char isLast
      simpa using (legal char (List.mem_of_getLast? isLast)).2
  exact congrArg (Cond.token negated) trimmed

theorem condOf_entity {weak : Bool} {text : List Char} (legal : (Subject.entity weak text).Legal)
    (plain : (Subject.entity weak text).Plain) (negated : Bool)
    : condOf negated (Subject.entity weak text).text = .etag negated text := by
  obtain ⟨-, ends, starts⟩ := plain
  have noQuote (char : Char) (isIn : char ∈ text) : char ≠ '"' := fun same => legal (same ▸ isIn)
  have isLast (char : Char) (last : char ∈ text.getLast?)
      : (char = '"' || char = '[' || char = ']') = false := by
    simpa using ⟨⟨noQuote char (List.mem_of_getLast? last), (ends char last).1⟩,
      (ends char last).2⟩
  have bare (char : Char) (isIn : char ∈ text) : decide (char = '"') = false := by
    simpa using noQuote char isIn
  have start : condOf negated (Subject.entity weak text).text
      = .etag negated (trimMatches (· = '"') (trimWeak (trimMatches
        (fun char => char = '"' || char = '[' || char = ']') (Subject.entity weak text).text))) := by
    cases weak <;> rfl
  rw [start, Cond.etag.injEq]
  refine ⟨rfl, ?_⟩
  cases weak with
  | true =>
      have trimmed : trimMatches (fun char => char = '"' || char = '[' || char = ']')
          (['['] ++ ('W' :: '/' :: (if text = [] then [] else '"' :: text)
            ++ (if text = [] then ['"', '"', ']'] else ['"', ']'])))
          = 'W' :: '/' :: (if text = [] then [] else '"' :: text) := by
        refine trimMatches_middle (by simp) (by split <;> simp) (by simp) ?_
        intro char last
        split at last
        case isTrue =>
          obtain rfl : '/' = char := by simpa using last
          rfl
        case isFalse filled =>
          refine isLast char ?_
          rwa [List.getLast?_cons_cons, List.getLast?_cons_cons,
            List.getLast?_cons_of_ne_nil filled] at last
      have same : (['['] ++ ('W' :: '/' :: (if text = [] then [] else '"' :: text)
            ++ (if text = [] then ['"', '"', ']'] else ['"', ']'])))
          = (Subject.entity true text).text := by
        split
        · subst text
          rfl
        · rfl
      rw [same] at trimmed
      rw [trimmed]
      split
      case isTrue empty =>
        subst empty
        rfl
      case isFalse filled =>
        have unmarked : trimWeak ('"' :: text) = '"' :: text := trimWeak_self (by simp)
        have quoted : trimMatches (· = '"') (['"'] ++ (text ++ [])) = text :=
          trimMatches_middle (by simp) (by simp)
            (fun char first => bare char (List.mem_of_mem_head? first))
            (fun char last => bare char (List.mem_of_getLast? last))
        rw [List.append_nil] at quoted
        rw [trimWeak, unmarked]
        exact quoted
  | false =>
      obtain ⟨starts, unmarked⟩ := starts rfl
      have trimmed : trimMatches (fun char => char = '"' || char = '[' || char = ']')
          (['[', '"'] ++ (text ++ ['"', ']'])) = text := by
        refine trimMatches_middle (by simp) (by simp) ?_ isLast
        intro char first
        simpa using ⟨⟨noQuote char (List.mem_of_mem_head? first), (starts char first).1⟩,
          (starts char first).2⟩
      have quoted : trimMatches (· = '"') ([] ++ (text ++ [])) = text :=
        trimMatches_middle (by simp) (by simp)
          (fun char first => bare char (List.mem_of_mem_head? first))
          (fun char last => bare char (List.mem_of_getLast? last))
      rw [List.append_nil] at quoted
      exact (congrArg (fun text => trimMatches (· = '"') (trimWeak text)) trimmed).trans
        ((congrArg _ (trimWeak_self unmarked)).trans quoted)

theorem isNot_subject (subject : Subject) : isNot subject.text = false := by
  cases subject with
  | token url => simp [isNot, Subject.text, Text.asciiLowerChar]
  | entity weak text => cases weak <;> simp [isNot, Subject.text, Text.asciiLowerChar]

theorem condOf_condition {condition : Condition} (legal : condition.Legal)
    (plain : condition.Plain)
    : condOf condition.negation.isSome condition.subject.text = condition.cond := by
  obtain ⟨before, negation, subject⟩ := condition
  cases subject with
  | token url => exact condOf_token legal.subject _
  | entity weak text => exact condOf_entity legal.subject plain.subject _

theorem conds_words {items : List Condition} (legal : ∀ item ∈ items, item.Legal)
    (plain : ∀ item ∈ items, item.Plain)
    : conds false (items.flatMap Condition.words) = items.map Condition.cond := by
  induction items with
  | nil => rfl
  | cons item items ih =>
      have rest := ih (fun other isIn => legal other (List.mem_cons_of_mem _ isIn))
        (fun other isIn => plain other (List.mem_cons_of_mem _ isIn))
      have own := condOf_condition (legal item List.mem_cons_self) (plain item List.mem_cons_self)
      have negation := (legal item List.mem_cons_self).negation
      rw [List.flatMap_cons, List.map_cons, ← rest, ← own, Condition.words]
      cases isNegated : item.negation with
      | none => simp [conds, isNot_subject]
      | some word => simp [conds, isNot_subject, (negation word isNegated).1]

-- The loop

theorem scan_skip (skipped rest : List Char) (resource : String) (out : IfHeader)
    : scan skipped.length resource out (skipped ++ rest) = scan 0 resource out rest := by
  induction skipped with
  | nil => rfl
  | cons char skipped ih => exact ih

theorem scan_blanks {gap : List Char} (blanks : Blanks gap) (rest : List Char) (resource : String)
    (out : IfHeader) : scan 0 resource out (gap ++ rest) = scan 0 resource out rest := by
  induction gap with
  | nil => rfl
  | cons char gap ih =>
      rw [← ih (fun other isIn => blanks other (List.mem_cons_of_mem _ isIn))]
      obtain rfl | rfl := blanks char List.mem_cons_self <;> rfl

theorem scan_tag {ref : List Char} (closed : '>' ∉ ref) (rest : List Char) (resource : String)
    (out : IfHeader)
    : scan 0 resource out ('<' :: (ref ++ '>' :: rest)) = scan 0 (normalizeTag ref) out rest := by
  have split : Text.splitFirst '>' (ref ++ '>' :: rest) = some (ref, rest) :=
    Text.splitFirst_eq_some_iff.mpr ⟨rfl, closed⟩
  have skip := scan_skip (ref ++ ['>']) rest (normalizeTag ref) out
  rw [List.length_append, List.append_assoc] at skip
  simp only [scan, if_true, split]
  exact skip

/-- What a list adds. -/
def IfHeader.addGroup (out : IfHeader) (list : Option (List Char) × Group) : IfHeader :=
  out.add (list.1.elim "*" normalizeTag) (list.2.items.map Condition.cond)

theorem closed_content {group : Group} (legal : group.Legal) (plain : group.Plain)
    : ')' ∉ group.content := by
  have gap {text : List Char} (blanks : Blanks text) : ')' ∉ text := by
    intro isIn
    obtain same | same := blanks ')' isIn <;> exact absurd same (by decide)
  rw [Group.content, List.mem_append, List.mem_flatMap]
  rintro (⟨item, isIn, inside⟩ | inside)
  · have own := legal.items item isIn
    rw [Condition.text, List.mem_append, List.mem_append] at inside
    obtain inside | inside | inside := inside
    · exact gap own.before inside
    · cases isNegated : item.negation with
      | none =>
          rw [isNegated] at inside
          cases inside
      | some word =>
          rw [isNegated] at inside
          obtain inside | inside := List.mem_append.mp inside
          · exact ((solid_not (own.negation word isNegated).1).2 _ inside).2 rfl
          · exact gap (own.negation word isNegated).2 inside
    · exact (solid_text own.subject (plain.items item isIn).subject _ inside).2 rfl
  · exact gap legal.close inside

theorem scan_group {group : Group} (legal : group.Legal) (plain : group.Plain)
    (tag : Option (List Char)) (rest : List Char) (out : IfHeader)
    : scan 0 (tag.elim "*" normalizeTag) out (group.text ++ rest)
      = scan 0 (tag.elim "*" normalizeTag) (out.addGroup (tag, group)) rest := by
  have split : Text.splitFirst ')' (group.content ++ ')' :: rest) = some (group.content, rest) :=
    Text.splitFirst_eq_some_iff.mpr ⟨rfl, closed_content legal plain⟩
  have items : conds false (splitWhitespace group.content) = group.items.map Condition.cond := by
    rw [Group.content, splitWhitespace_content legal.items plain.items plain.parted legal.close,
      conds_words legal.items plain.items]
  have skip := scan_skip (group.content ++ [')']) rest (tag.elim "*" normalizeTag)
    (out.addGroup (tag, group))
  have other : ¬ '(' = '<' := by decide
  rw [List.length_append, List.append_assoc] at skip
  rw [Group.text, List.append_assoc, scan_blanks legal.before, List.cons_append,
    List.append_assoc]
  simp only [List.singleton_append, scan, if_neg other, if_true, split, items]
  exact skip

theorem scan_groups {lists : List Group} (legal : ∀ list ∈ lists, list.Legal)
    (plain : ∀ list ∈ lists, list.Plain) (tag : Option (List Char)) (rest : List Char)
    (out : IfHeader)
    : scan 0 (tag.elim "*" normalizeTag) out (lists.flatMap Group.text ++ rest)
      = scan 0 (tag.elim "*" normalizeTag)
        ((lists.map (fun list => (tag, list))).foldl IfHeader.addGroup out) rest := by
  induction lists generalizing out with
  | nil => rfl
  | cons list lists ih =>
      rw [List.flatMap_cons, List.append_assoc,
        scan_group (legal _ List.mem_cons_self) (plain _ List.mem_cons_self)]
      exact ih (fun other isIn => legal other (List.mem_cons_of_mem _ isIn))
        (fun other isIn => plain other (List.mem_cons_of_mem _ isIn)) _

theorem scan_resources {resources : List (Tag × List Group)}
    (legal : ∀ resource ∈ resources,
      resource.1.Legal ∧ resource.2 ≠ [] ∧ ∀ list ∈ resource.2, list.Legal)
    (plain : (Header.tagged resources).Plain) (resource : String) (out : IfHeader)
    : scan 0 resource out (Header.tagged resources).text
      = (Header.tagged resources).lists.foldl IfHeader.addGroup out := by
  induction resources generalizing resource out with
  | nil => rfl
  | cons first resources ih =>
      obtain ⟨tag, lists⟩ := first
      obtain ⟨isTag, -, isLists⟩ := legal _ List.mem_cons_self
      have members (list : Group) (isIn : list ∈ lists) : list.Plain :=
        plain (some tag.ref, list)
          (List.mem_append_left _ (List.mem_map_of_mem isIn))
      have groups := scan_groups isLists members (some tag.ref) (Header.tagged resources).text out
      have rest := ih (fun other isIn => legal other (List.mem_cons_of_mem _ isIn))
        (fun list isIn => plain list (List.mem_append_right _ isIn))
      have parts : (Header.tagged ((tag, lists) :: resources)).text
          = tag.before ++ '<' :: (tag.ref ++ '>' :: (lists.flatMap Group.text
            ++ (Header.tagged resources).text)) := by
        simp [Header.text, Tag.text]
      rw [parts, scan_blanks isTag.before, scan_tag isTag.ref]
      refine groups.trans ((rest _ _).trans ?_)
      rw [← List.foldl_append]
      rfl

theorem parse_text {header : Header} (legal : header.Legal) (plain : header.Plain)
    : parse (String.ofList header.text) = header.lists.foldl IfHeader.addGroup ⟨[], []⟩ := by
  have raw : (Text.trim (String.ofList header.text)).toList = header.text := by
    rw [legal.ends, String.toList_ofList]
  have start : parse (String.ofList header.text) = scan 0 "*" ⟨[], []⟩ header.text := by
    simp only [parse, raw]
    split
    · rfl
    · exact scan_tag (show '>' ∉ ['*'] by decide) header.text "*" ⟨[], []⟩
  rw [start]
  cases header with
  | untagged lists =>
      have scanned := scan_groups legal.shape.2
        (fun list isIn => plain (none, list) (List.mem_map_of_mem isIn)) none [] ⟨[], []⟩
      rw [List.append_nil] at scanned
      exact scanned
  | tagged resources => exact scan_resources legal.shape.2 plain _ _

-- What comes of a header

theorem get?_lists (lists : List (Option (List Char) × Group)) (key : String)
    : Entries.get? key (lists.foldl IfHeader.addGroup ⟨[], []⟩).entries
      = if lists.filter (fun list => list.1.elim "*" normalizeTag = key) = [] then none
        else some ((lists.filter (fun list => list.1.elim "*" normalizeTag = key)).map
          (fun list => list.2.items.map Condition.cond)) := by
  induction lists using List.reverseRecOn with
  | nil => rfl
  | append_singleton lists list ih =>
      rw [List.foldl_append, List.foldl_cons, List.foldl_nil, List.filter_append]
      simp only [IfHeader.addGroup, IfHeader.add, Entries.get?_insert]
      by_cases same : list.1.elim "*" normalizeTag = key
      · subst same
        rw [if_pos rfl, ih]
        by_cases none : lists.filter
            (fun other => other.1.elim "*" normalizeTag = list.1.elim "*" normalizeTag) = []
        · simp [none]
        · simp [none]
      · rw [if_neg (Ne.symm same), ih, List.filter_cons_of_neg (by simpa using same),
          List.filter_nil, List.append_nil]

theorem normalize_ne_star (path : String) : normalize path ≠ "*" := by
  intro same
  have chars := congrArg String.toList same
  rw [normalize, String.toList_append] at chars
  have first : some '/' = some '*' := congrArg List.head? chars
  exact absurd first (by decide)

theorem normalizeTag_ne_star {ref : List Char} (single : ref ≠ ['*']) : normalizeTag ref ≠ "*" := by
  rw [normalizeTag, if_neg single]
  exact normalize_ne_star _

theorem lookup_lists {header : Header} (shape : header.Shape) (path : String)
    : (Entries.get? (normalize path) (header.lists.foldl IfHeader.addGroup ⟨[], []⟩).entries).or
        (Entries.get? "*" (header.lists.foldl IfHeader.addGroup ⟨[], []⟩).entries)
      = if header.lists.filter (fun list => applies path list.1) = [] then none
        else some ((header.lists.filter (fun list => applies path list.1)).map
          (fun list => list.2.items.map Condition.cond)) := by
  rw [get?_lists, get?_lists]
  cases header with
  | untagged lists =>
      have noKey : (Header.untagged lists).lists.filter
          (fun list => list.1.elim "*" normalizeTag = normalize path) = [] := by
        simp [Header.lists, (normalize_ne_star path).symm]
      have all : (Header.untagged lists).lists.filter (fun list => applies path list.1)
          = (Header.untagged lists).lists.filter
            (fun list => list.1.elim "*" normalizeTag = "*") := by
        refine List.filter_congr ?_
        intro list isIn
        obtain ⟨group, -, rfl⟩ := List.mem_map.mp isIn
        rfl
      rw [noKey, all, if_pos rfl, Option.none_or]
  | tagged resources =>
      have tags : ∀ list ∈ (Header.tagged resources).lists, ∃ ref, list.1 = some ref
          ∧ normalizeTag ref ≠ "*" := by
        intro list isIn
        obtain ⟨resource, isResource, inside⟩ := List.mem_flatMap.mp isIn
        obtain ⟨group, -, rfl⟩ := List.mem_map.mp inside
        exact ⟨_, rfl, normalizeTag_ne_star (shape.2 resource isResource).1.single⟩
      have noStar : (Header.tagged resources).lists.filter
          (fun list => list.1.elim "*" normalizeTag = "*") = [] := by
        rw [List.filter_eq_nil_iff]
        intro list isIn
        obtain ⟨ref, isRef, other⟩ := tags list isIn
        simpa [isRef] using other
      have same : (Header.tagged resources).lists.filter (fun list => applies path list.1)
          = (Header.tagged resources).lists.filter
            (fun list => list.1.elim "*" normalizeTag = normalize path) := by
        refine List.filter_congr ?_
        intro list isIn
        obtain ⟨ref, isRef, -⟩ := tags list isIn
        simp [isRef, applies]
      rw [noStar, same, if_pos rfl, Option.or_none]

theorem tokens_lists (lists : List (Option (List Char) × Group)) (out : IfHeader)
    : (lists.foldl IfHeader.addGroup out).tokens
      = out.tokens ++ lists.flatMap (fun list => list.2.items.filterMap (·.subject.named)) := by
  have named (condition : Condition) : condition.cond.named = condition.subject.named := by
    obtain ⟨before, negation, subject⟩ := condition
    cases subject <;> rfl
  induction lists generalizing out with
  | nil => simp
  | cons list lists ih =>
      rw [List.foldl_cons, ih, List.flatMap_cons, ← List.append_assoc]
      simp [IfHeader.addGroup, IfHeader.add, List.filterMap_map, named]

theorem test_cond (etag : Option (List Char)) (locks : List (List Char)) (condition : Condition)
    : Cond.test etag locks condition.cond = true ↔ condition.Holds etag locks := by
  obtain ⟨before, negation, subject⟩ := condition
  cases subject <;> cases negation <;>
    simp [Condition.cond, Cond.test, Condition.Holds, Subject.Holds]

/-- `(Not <a>)`. -/
def negated : Header := .untagged [⟨[], [⟨[], some (['N', 'o', 't'], [' ']), .token ['a']⟩], []⟩]

/-- `(<a>["e"])`. -/
def adjacent : Header :=
  .untagged [⟨[], [⟨[], none, .token ['a']⟩, ⟨[], none, .entity false ['e']⟩], []⟩]

end MokuroBunko.Dav.Conditional
