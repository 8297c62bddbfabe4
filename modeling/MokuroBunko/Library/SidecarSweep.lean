import Mathlib.Data.List.Infix
import MokuroBunko.Layout.SidecarIdentity

/-! The sweep that removes corrupt sidecars at the start (`thumbs`): which files it deletes. A text
is kept if either of two parsers takes it, or if the second stops at a lone surrogate. What the
disk gives, and serde's parser, are parameters.
-/

namespace MokuroBunko.Library.SidecarSweep

open MokuroBunko.Lib.Json MokuroBunko.Layout MokuroBunko.Layout.Json

-- The sweep

/-- What comes of reading with the cap. -/
inductive Reading where
  | failed
  | large
  | bytes (text : ByteArray)

inductive Contents where
  /-- The file cannot be opened. -/
  | unopened
  /-- The stream that serde reads, of a gzip file its first member, and the file read whole. -/
  | opened (stream whole : Reading)

structure Sidecar where
  path : String
  isFile : Bool
  contents : Contents
  /-- Whether `remove_file` succeeds. -/
  removable : Bool

inductive SidecarCheck where
  | valid
  | invalid
  | tooLarge
deriving DecidableEq

/-- The message of a `ParseError`. -/
def display (error : ParseError) : String :=
  "invalid JSON at byte " ++ toString error.offset ++ ": " ++ error.message

def mentions (text part : String) : Bool := part.toList <:+: text.toList

variable (M : Type) [FloatText M] (serde : ByteArray → Bool)

/-- The second look at a text. -/
def secondLook (text : String) : SidecarCheck :=
  match parse (M := M) text with
  | .ok _ => .valid
  | .error error => if mentions (display error) "surrogate" then .valid else .invalid

def accepts : Reading → Bool
  | .bytes text => serde text
  | _ => false

/-- `check_sidecar_capped`. -/
def checkSidecar : Contents → SidecarCheck
  | .unopened => .invalid
  | .opened .large _ => .tooLarge
  | .opened stream whole =>
      if accepts serde stream then .valid
      else
        match whole with
        | .failed => .invalid
        | .large => .tooLarge
        | .bytes text =>
            match String.fromUTF8? text with
            | none => .invalid
            | some text => secondLook M text

def isNamed (path : String) : Bool :=
  ".mokuro".toList.isSuffixOf path.toList || ".mokuro.gz".toList.isSuffixOf path.toList

/-- `remove_corrupt_sidecars`: the files that it removes. -/
def removeCorruptSidecars (library : List Sidecar) : List Sidecar :=
  (library.filter (isNamed ·.path)).filter fun sidecar =>
    sidecar.isFile && checkSidecar M serde sidecar.contents = .invalid && sidecar.removable

-- Texts of Python

/-- `json.load` takes the text: JSON, with Python's constants, lone surrogates and any nesting. -/
def PythonAccepts (text : String) : Prop :=
  ∃ marks, ∃ value : Value M, IsText marks value text.toList ∧ marks.signs = 0

/-- The failure at a lone surrogate. -/
def Alone (failure : Failure) : Prop := failure.message = "lone surrogate in \\u escape"

/-- The parser gives the result, or stops at a lone surrogate. -/
def GivesOrAlone {α : Type} (result : Except Failure α) (expected : α) : Prop :=
  result = .ok expected ∨ ∃ failure, result = .error failure ∧ Alone failure

theorem GivesOrAlone.bind {α β : Type} {result : Except Failure α} {expected : α}
    {next : α → Except Failure β} {after : β} (first : GivesOrAlone result expected)
    (second : GivesOrAlone (next expected) after)
    : GivesOrAlone (result >>= next) after := by
  obtain rfl | ⟨failure, rfl, alone⟩ := first
  · exact second
  · exact .inr ⟨failure, rfl, alone⟩

def lenient : Dialect := ⟨true, true, none⟩

theorem hex4_of_read {text rest : List Char} {signs code : ℕ}
    (read : readHex4 lenient text = some (signs, code, rest)) : hex4 text = .ok (code, rest) := by
  unfold readHex4 at read
  unfold hex4
  split at read
  · rename_i a b c d rest
    by_cases plus : a = '+'
    · simp only [plus, lenient, if_true, Option.map_eq_some_iff, Prod.mk.injEq] at read
      obtain ⟨unit, found, rfl, rfl, rfl⟩ := read
      simp [fromStrRadix16, plus, found]
    · simp only [plus, if_false, Option.map_eq_some_iff, Prod.mk.injEq] at read
      obtain ⟨unit, found, rfl, rfl, rfl⟩ := read
      simp [fromStrRadix16, plus, found]
  · cases read

theorem codePoint_of_read {text rest : List Char} {marks : Marks} {char : Char}
    (read : readEscape lenient text = some (marks, char, rest))
    : ∃ code left, codePoint text = .ok (code, left)
      ∧ ((fromU32 code = some char ∧ left = rest) ∨ fromU32 code = none) := by
  simp only [readEscape, Option.bind_eq_bind, Option.bind_eq_some_iff, Prod.exists] at read
  obtain ⟨signs, code, after, first, read⟩ := read
  have single (own : readUnit lenient signs code after = some (marks, char, rest))
      : (fromU32 code = some char ∧ after = rest) ∨ fromU32 code = none := by
    unfold readUnit at own
    cases isChar : fromU32 code with
    | none => exact .inr rfl
    | some found =>
        rw [isChar] at own
        cases own
        exact .inl ⟨rfl, rfl⟩
  simp only [codePoint, hex4_of_read first, bind, Except.bind]
  cases escape : escapeAfter after with
  | none =>
      rw [escape] at read
      exact ⟨code, after, rfl, single read⟩
  | some more =>
      rw [escape] at read
      dsimp only at read ⊢
      split at read
      case isFalse low => exact ⟨code, after, by rw [if_neg low], single read⟩
      case isTrue high =>
        rw [if_pos high]
        obtain ⟨⟨signs', low, final⟩, second, read⟩ := Option.bind_eq_some_iff.mp read
        rw [hex4_of_read second]
        dsimp only at read ⊢
        split at read
        case isFalse single' =>
          exact ⟨code, after, by rw [if_neg single'], single read⟩
        case isTrue pair =>
          rw [if_pos pair]
          simp only [Option.some.injEq, Prod.mk.injEq] at read
          obtain ⟨-, rfl, rfl⟩ := read
          exact ⟨pairCode code low, final, rfl, .inl ⟨fromU32_pairCode high pair, rfl⟩⟩

theorem string_of_read {fuel : ℕ} {text chars rest : List Char} {marks : Marks}
    (read : readContent lenient fuel text = some (marks, chars, rest))
    : GivesOrAlone (string fuel text) (chars, rest) := by
  induction fuel generalizing text chars marks with
  | zero => cases read
  | succ fuel ih =>
      unfold readContent at read
      unfold string
      cases text with
      | nil => cases read
      | cons char text =>
          dsimp only at read ⊢
          split at read
          case isTrue quote =>
            cases read
            exact .inl (by rw [if_pos quote])
          case isFalse quote =>
            rw [if_neg quote]
            split at read
            case isTrue backslash =>
              rw [if_pos backslash]
              cases text with
              | nil => cases read
              | cons letter text =>
                  dsimp only at read ⊢
                  split at read
                  case isTrue isU =>
                    rw [if_pos isU]
                    obtain ⟨⟨_, char, after⟩, escape, read⟩ := Option.bind_eq_some_iff.mp read
                    obtain ⟨⟨_, chars, rest⟩, more, read⟩ := Option.bind_eq_some_iff.mp read
                    cases read
                    obtain ⟨code, left, point, ⟨isChar, rfl⟩ | alone⟩ := codePoint_of_read escape
                    · simp only [point, bind, Except.bind, isChar]
                      exact (ih more).bind (.inl rfl)
                    · simp only [point, bind, Except.bind, alone]
                      exact .inr ⟨_, rfl, rfl⟩
                  case isFalse isU =>
                    rw [if_neg isU]
                    obtain ⟨char, short, read⟩ := Option.bind_eq_some_iff.mp read
                    obtain ⟨⟨_, chars, rest⟩, more, read⟩ := Option.bind_eq_some_iff.mp read
                    cases read
                    rw [short]
                    exact (ih more).bind (.inl rfl)
            case isFalse backslash =>
              rw [if_neg backslash]
              split at read
              case isTrue => cases read
              case isFalse control =>
                rw [if_neg control]
                obtain ⟨⟨_, chars, rest⟩, more, read⟩ := Option.bind_eq_some_iff.mp read
                cases read
                exact (ih more).bind (.inl rfl)

/-- What the three loops give with the fuel. -/
structure ReadsOrAlone (M : Type) [FloatText M] (fuel : ℕ) : Prop where
  value : ∀ depth text marks (read : Value M) rest,
    readValue lenient fuel depth text = some (marks, read, rest) →
    GivesOrAlone (value fuel text) (read, rest)
  object : ∀ depth items text marks (members : List (String × Value M)) rest,
    readMembers lenient fuel depth (skipBlank text) = some (marks, members, rest) →
    GivesOrAlone (object fuel items text) (objectOf items members, rest)
  array : ∀ depth items text marks (values : List (Value M)) rest,
    readItems lenient fuel depth (skipBlank text) = some (marks, values, rest) →
    GivesOrAlone (array fuel items text) (items ++ values, rest)

section Step

variable {M} {fuel : ℕ}

theorem value_of_read (ih : ReadsOrAlone M fuel) {depth : ℕ} {text rest : List Char} {marks : Marks}
    {given : Value M} (read : readValue lenient (fuel + 1) depth text = some (marks, given, rest))
    : GivesOrAlone (value (fuel + 1) text) (given, rest) := by
  have enter : mayEnter lenient depth = true := rfl
  cases text with
  | nil => cases read
  | cons first after =>
      simp only [readValue, enter, if_true] at read
      simp only [value]
      split at read
      case isTrue quote =>
        rw [if_pos quote]
        obtain ⟨⟨_, chars, rest⟩, content, read⟩ := Option.bind_eq_some_iff.mp read
        cases read
        exact (string_of_read content).bind (.inl rfl)
      case isFalse quote =>
        rw [if_neg quote]
        split at read
        case isTrue brace =>
          rw [if_pos brace]
          have again := skipBlank_skipBlank after
          generalize skipBlank after = inner at again read ⊢
          split at read
          case h_1 =>
            cases read
            exact .inl rfl
          case h_2 other =>
            obtain ⟨⟨_, members, rest⟩, more, read⟩ := Option.bind_eq_some_iff.mp read
            cases read
            rw [← again] at more
            try simp only
            exact (ih.object _ [] _ _ _ _ more).bind (.inl rfl)
        case isFalse brace =>
          rw [if_neg brace]
          split at read
          case isTrue bracket =>
            rw [if_pos bracket]
            have again := skipBlank_skipBlank after
            generalize skipBlank after = inner at again read ⊢
            split at read
            case h_1 =>
              cases read
              exact .inl rfl
            case h_2 other =>
              obtain ⟨⟨_, values, rest⟩, more, read⟩ := Option.bind_eq_some_iff.mp read
              cases read
              rw [← again] at more
              try simp only
              exact (ih.array _ [] _ _ _ _ more).bind (.inl rfl)
          case isFalse bracket =>
            rw [if_neg bracket]
            cases word : readWord (M := M) (first :: after) with
            | some found =>
                rw [word] at read
                cases read
                exact .inl rfl
            | none =>
                rw [word] at read
                obtain ⟨⟨numeral, rest⟩, scanned, read⟩ := Option.bind_eq_some_iff.mp read
                cases read
                have digit : first = '-' ∨ first.isDigit := by
                  by_contra other
                  rw [not_or] at other
                  rw [scanNumeral_none other.1 other.2] at scanned
                  cases scanned
                rw [if_pos digit]
                simp only [number, scanned]
                exact .inl rfl

theorem array_of_read (ih : ReadsOrAlone M fuel) {depth : ℕ} {items values : List (Value M)}
    {text rest : List Char} {marks : Marks}
    (read : readItems lenient (fuel + 1) depth (skipBlank text) = some (marks, values, rest))
    : GivesOrAlone (array (fuel + 1) items text) (items ++ values, rest) := by
  simp only [readItems] at read
  simp only [array]
  obtain ⟨⟨_, item, after⟩, first, read⟩ := Option.bind_eq_some_iff.mp read
  refine (ih.value _ _ _ _ _ first).bind ?_
  dsimp only at read ⊢
  generalize skipBlank after = inner at read ⊢
  split at read
  case h_1 next =>
    obtain ⟨⟨_, values, rest⟩, more, read⟩ := Option.bind_eq_some_iff.mp read
    cases read
    simpa using ih.array depth (items ++ [item]) _ _ _ _ more
  case h_2 =>
    cases read
    exact .inl rfl
  case h_3 => cases read

theorem object_of_read (ih : ReadsOrAlone M fuel) {depth : ℕ}
    {items members : List (String × Value M)} {text rest : List Char} {marks : Marks}
    (read : readMembers lenient (fuel + 1) depth (skipBlank text) = some (marks, members, rest))
    : GivesOrAlone (object (fuel + 1) items text) (objectOf items members, rest) := by
  simp only [readMembers] at read
  simp only [object]
  generalize skipBlank text = inner at read ⊢
  split at read
  case h_2 => cases read
  case h_1 after =>
    obtain ⟨⟨_, key, left⟩, content, read⟩ := Option.bind_eq_some_iff.mp read
    refine (string_of_read content).bind ?_
    dsimp only at read ⊢
    generalize skipBlank left = inner at read ⊢
    split at read
    case h_2 => cases read
    case h_1 next =>
      obtain ⟨⟨_, field, close⟩, first, read⟩ := Option.bind_eq_some_iff.mp read
      refine (ih.value _ _ _ _ _ first).bind ?_
      dsimp only at read ⊢
      generalize skipBlank close = inner at read ⊢
      split at read
      case h_1 next =>
        obtain ⟨⟨_, more, rest⟩, later, read⟩ := Option.bind_eq_some_iff.mp read
        cases read
        exact ih.object depth _ _ _ _ _ later
      case h_2 =>
        cases read
        exact .inl rfl
      case h_3 => cases read

end Step

theorem readsOrAlone (fuel : ℕ) : ReadsOrAlone M fuel := by
  induction fuel with
  | zero => exact ⟨nofun, nofun, nofun⟩
  | succ fuel ih =>
      exact ⟨fun _ _ _ _ _ => value_of_read ih, fun _ _ _ _ _ _ => object_of_read ih,
        fun _ _ _ _ _ _ => array_of_read ih⟩

variable {M}

theorem parse_of_python {text : String} (python : PythonAccepts M text)
    : (∃ value, parse (M := M) text = .ok value)
      ∨ ∃ error, parse (M := M) text = .error error
        ∧ error.message = "lone surrogate in \\u escape" := by
  obtain ⟨marks, given, isText, -⟩ := python
  have allows : lenient.Allows 0 marks :=
    ⟨⟨fun _ => rfl, fun _ => rfl⟩, fun limit is => by cases is⟩
  have read := readText_iff.mpr ⟨isText, allows⟩
  simp only [readText, Option.bind_eq_bind, Option.bind_eq_some_iff, Prod.exists] at read
  obtain ⟨marks', value', after, first, read⟩ := read
  split at read
  case h_2 => cases read
  case h_1 isEnd =>
    simp only [parse]
    obtain given | ⟨failure, stopped, alone⟩ := (readsOrAlone M _).value _ _ _ _ _ first
    · rw [given]
      exact .inl ⟨value', by simp only [isEnd]⟩
    · rw [stopped]
      exact .inr ⟨_, rfl, alone⟩

theorem mentions_middle (start before part after : String)
    : mentions (start ++ (before ++ part ++ after)) part = true :=
  decide_eq_true ⟨(start ++ before).toList, after.toList, by simp [String.toList_append]⟩

theorem mentions_surrogate {error : ParseError}
    (alone : error.message = "lone surrogate in \\u escape")
    : mentions (display error) "surrogate" = true := by
  have parts : "lone surrogate in \\u escape" = "lone " ++ "surrogate" ++ " in \\u escape" := by
    decide +kernel
  unfold display
  rw [alone, parts]
  exact mentions_middle _ _ _ _

theorem secondLook_of_python {text : String} (python : PythonAccepts M text)
    : secondLook M text = .valid := by
  obtain ⟨value, parsed⟩ | ⟨error, stopped, alone⟩ := parse_of_python python
  · simp only [secondLook, parsed]
  · simp only [secondLook, stopped, mentions_surrogate alone, if_true]

-- What is swept away

/-- The layout parser stops at a lone surrogate. -/
def StopsAlone (M : Type) [FloatText M] (text : String) : Prop :=
  ∃ error, parse (M := M) text = .error error ∧ mentions (display error) "surrogate"

/-- No JSON, signs in escapes or not, and not given up for a lone surrogate. -/
structure Damaged (M : Type) [FloatText M] (text : String) : Prop where
  refused : ∀ marks (value : Value M), ¬ IsText marks value text.toList
  early : ¬ StopsAlone M text

theorem secondLook_of_damaged {text : String} (damaged : Damaged M text)
    : secondLook M text = .invalid := by
  unfold secondLook
  cases parsed : parse (M := M) text with
  | ok value =>
      obtain ⟨marks, isText, -⟩ := parse_iff.mp parsed
      exact absurd isText (damaged.refused marks value)
  | error error =>
      have silent : ¬ mentions (display error) "surrogate" :=
        fun mentioned => damaged.early ⟨error, parsed, mentioned⟩
      simp only [silent, Bool.false_eq_true, if_false]

/-- When a sidecar with the contents goes. -/
structure Judged (M : Type) [FloatText M] (serde : ByteArray → Bool) (contents : Contents)
    (removed : Prop) : Prop where
  unopened : contents = .unopened → removed
  unread : ∀ stream, stream ≠ .large → accepts serde stream = false →
    contents = .opened stream .failed → removed
  large : ∀ stream whole, contents = .opened stream whole → stream = .large ∨ whole = .large →
    ¬ removed
  python : ∀ stream bytes text, contents = .opened stream (.bytes bytes) →
    String.fromUTF8? bytes = some text → PythonAccepts M text → ¬ removed
  undecoded : ∀ stream bytes, stream ≠ .large → accepts serde stream = false →
    contents = .opened stream (.bytes bytes) → String.fromUTF8? bytes = none → removed
  damaged : ∀ stream bytes text, stream ≠ .large → accepts serde stream = false →
    contents = .opened stream (.bytes bytes) → String.fromUTF8? bytes = some text →
    Damaged M text → removed

variable {serde : ByteArray → Bool}

theorem checkSidecar_opened {stream : Reading} (whole : Reading) (small : stream ≠ .large)
    (refused : accepts serde stream = false)
    : checkSidecar M serde (.opened stream whole)
      = match whole with
        | .failed => .invalid
        | .large => .tooLarge
        | .bytes text =>
            match String.fromUTF8? text with
            | none => .invalid
            | some text => secondLook M text := by
  cases stream with
  | large => exact absurd rfl small
  | failed => rfl
  | bytes text => simp only [checkSidecar, refused, Bool.false_eq_true, if_false]

theorem checkSidecar_kept {stream whole : Reading}
    (kept : ∀ text, whole = .bytes text →
      ∃ chars, String.fromUTF8? text = some chars ∧ secondLook M chars ≠ .invalid)
    (opened : whole ≠ .failed) : checkSidecar M serde (.opened stream whole) ≠ .invalid := by
  by_cases large : stream = .large
  · subst large
    exact nofun
  cases accepted : accepts serde stream with
  | true => cases stream <;> simp_all [checkSidecar]
  | false =>
      rw [checkSidecar_opened whole large accepted]
      cases whole with
      | failed => exact absurd rfl opened
      | large => exact nofun
      | bytes text =>
          obtain ⟨chars, decoded, valid⟩ := kept text rfl
          simpa only [decoded] using valid

theorem judged (contents : Contents)
    : Judged M serde contents (checkSidecar M serde contents = .invalid) where
  unopened is := by rw [is]; rfl
  unread stream small refused is := by rw [is, checkSidecar_opened _ small refused]
  large stream whole is either := by
    subst is
    rcases either with rfl | rfl
    · exact nofun
    · exact checkSidecar_kept nofun nofun
  python stream bytes text is decoded python := by
    subst is
    refine checkSidecar_kept ?_ nofun
    intro found same
    cases same
    exact ⟨text, decoded, by simp only [secondLook_of_python python]; exact nofun⟩
  undecoded stream bytes small refused is decoded := by
    rw [is, checkSidecar_opened _ small refused]
    simp only [decoded]
  damaged stream bytes text small refused is decoded damaged := by
    rw [is, checkSidecar_opened _ small refused]
    simp only [decoded, secondLook_of_damaged damaged]

theorem removeCorruptSidecars_judged (M : Type) [FloatText M] (serde : ByteArray → Bool)
    (library : List Sidecar)
    : (∀ sidecar ∈ removeCorruptSidecars M serde library,
        sidecar ∈ library ∧ isNamed sidecar.path ∧ sidecar.isFile ∧ sidecar.removable)
      ∧ ∀ sidecar ∈ library, isNamed sidecar.path → sidecar.isFile → sidecar.removable →
        Judged M serde sidecar.contents (sidecar ∈ removeCorruptSidecars M serde library) := by
  constructor
  · intro sidecar isIn
    simp only [removeCorruptSidecars, List.mem_filter, Bool.and_eq_true] at isIn
    exact ⟨isIn.1.1, isIn.1.2, isIn.2.1.1, isIn.2.2⟩
  · intro sidecar isIn named isFile removable
    have removed : sidecar ∈ removeCorruptSidecars M serde library
        ↔ checkSidecar M serde sidecar.contents = .invalid := by
      simp [removeCorruptSidecars, isIn, named, isFile, removable]
    rw [removed]
    exact judged sidecar.contents

def locked : Sidecar := ⟨"a.mokuro", true, .unopened, true⟩

theorem removeCorruptSidecars_locked
    : ¬ ∀ (M : Type) [FloatText M] (serde : ByteArray → Bool) (library : List Sidecar),
      ∀ sidecar ∈ removeCorruptSidecars M serde library, sidecar.contents ≠ .unopened := by
  intro kept
  let _ := JsonAgreement.halves
  refine kept Unit (fun _ => false) [locked] locked ?_ rfl
  have named : isNamed locked.path = true := by decide +kernel
  simpa [removeCorruptSidecars, locked, checkSidecar] using named

/-- What `normalize_sidecar_file` writes is never swept away. -/
theorem normalized_kept (inverse : FloatText.Inverse M) (titleUuid : String → String)
    (norm : Normalization) {text : String} {before : List (String × Value M)}
    (parsed : parse text = .ok (.object before))
    : ∃ written, normalizeSidecarFile (M := M) titleUuid norm text = .ok (some written)
      ∧ ∀ (serde : ByteArray → Bool) (library : List Sidecar) (sidecar : Sidecar) (stream : Reading)
        (bytes : ByteArray), sidecar.contents = .opened stream (.bytes bytes) →
        String.fromUTF8? bytes = some written →
        sidecar ∉ removeCorruptSidecars M serde library := by
  have readable := readable_written titleUuid norm (readable_of_parse inverse parsed)
  refine ⟨_, normalizeSidecarFile_object titleUuid norm parsed, ?_⟩
  intro serde library sidecar stream bytes contents decoded isIn
  have kept : checkSidecar M serde (.opened stream (.bytes bytes)) ≠ .invalid := by
    refine checkSidecar_kept ?_ nofun
    intro found same
    cases same
    exact ⟨_, decoded, by simp only [secondLook, parse_dumps inverse readable]; exact nofun⟩
  simp only [removeCorruptSidecars, List.mem_filter, Bool.and_eq_true, decide_eq_true_eq,
    contents] at isIn
  exact kept isIn.2.1.2

theorem normalized_kept_numberedEngine
    : let _ := JsonAgreement.halves
      ∃ written, normalizeSidecarFile (M := Unit) seriesUuid layerIdentity
          (dumps (.object numberedEngine) .compact) = .ok (some written)
        ∧ ∀ (serde : ByteArray → Bool) (library : List Sidecar) (sidecar : Sidecar)
          (stream : Reading) (bytes : ByteArray),
          sidecar.contents = .opened stream (.bytes bytes) →
          String.fromUTF8? bytes = some written →
          sidecar ∉ removeCorruptSidecars Unit serde library := by
  intro floats
  exact normalized_kept JsonRoundTrip.halves_inverse seriesUuid layerIdentity
    (parse_dumps JsonRoundTrip.halves_inverse readable_numberedEngine)

end MokuroBunko.Library.SidecarSweep
