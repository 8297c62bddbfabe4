import MokuroBunko.Dav.Conditionals
import Mathlib.Data.Fintype.Option
import Mathlib.Data.Fintype.Prod

/-! The conditions of a request beside the order in which RFC 9110 evaluates them: `If-Match`
before `If-Unmodified-Since`, which counts only without it, then `If-None-Match` before
`If-Modified-Since`.
-/

namespace MokuroBunko.Dav

open MokuroBunko.Lib

-- The order of the standard

/-- The current state of the resource: a folder has no tag. -/
structure Current where
  etag : Option String
  lastModified : ℤ

inductive Outcome where
  | goesAhead
  | notModified
  | failed
deriving DecidableEq, Repr

/-- The header's list names the tag of the resource, or is `*`. -/
def lists (value : String) (etag : Option String) : Bool :=
  (parseEtagList value).any (fun tag => some tag = etag || tag = "*")

/-- The evaluation order of RFC 9110, section 13.2.2. Without a current state the dates have
nothing to be compared with. -/
def rfcOutcome (conditions : Conditions) (read : Bool) (current : Option Current) : Outcome :=
  match current with
  | none => if conditions.ifMatch.isSome then .failed else .goesAhead
  | some current =>
      let passes :=
        match conditions.ifMatch with
        | some header => header.any (lists · current.etag)
        | none => !conditions.ifUnmodifiedSince.any (· < current.lastModified)
      if !passes then .failed
      else
        match conditions.ifNoneMatch with
        | some header =>
            if header.any (lists · current.etag) then (if read then .notModified else .failed)
            else .goesAhead
        | none =>
            if read && conditions.ifModifiedSince.any (current.lastModified ≤ ·) then .notModified
            else .goesAhead

-- What the server does

/-- The outcome that a refusal's status stands for: 304, or 412. -/
def Outcome.of : Except ConditionRefusal Unit → Outcome
  | .ok () => .goesAhead
  | .error .notModified => .notModified
  | .error _ => .failed

/-- The conditions as `put_inner` and every other method check them: a path without a
resource is asked for `If-Match` only. -/
def checkConditions (conditions : Conditions) (read : Bool) (current : Option Current)
    : Except ConditionRefusal Unit :=
  match current with
  | none => if conditions.ifMatch.isSome then .error .ifMatch else .ok ()
  | some current => evaluateHttp conditions read current.etag current.lastModified

/-- `If-Unmodified-Since` has a date before the last modification. -/
def stale (conditions : Conditions) (current : Current) : Bool :=
  conditions.ifUnmodifiedSince.any (· < current.lastModified)

/-- `If-Modified-Since` has a date from the last modification on. -/
def unchanged (conditions : Conditions) (current : Current) : Bool :=
  conditions.ifModifiedSince.any (current.lastModified ≤ ·)

/-- What a header says of the resource, if it can be read: whether it names it by the
standard, and to the server. -/
abbrev Verdict := Option (Option (Bool × Bool))

def verdict (header : Option HeaderValue) (etag : Option String) : Verdict :=
  header.map (·.map (fun value => (lists value etag, namesTag value (etag.getD "[]"))))

namespace Verdict

/-- The header is there and names the resource by the standard. -/
def names (verdict : Verdict) : Bool := verdict.any (·.any Prod.fst)

/-- The header can be read and names the resource to the server. -/
def taken (verdict : Verdict) : Bool := verdict.any (·.any Prod.snd)

/-- The header is there and does not name the resource by the standard, and the server takes
it for none, or for one that does. -/
def overlooked (verdict : Verdict) : Bool :=
  verdict.any (fun read => read.all (fun parts => parts.2 && !parts.1))

/-- What names the resource by the standard names it to the server. -/
def Sound (verdict : Verdict) : Prop := verdict.names = true → verdict.taken = true

instance (verdict : Verdict) : Decidable verdict.Sound := inferInstanceAs (Decidable (_ → _))

end Verdict

/-- The order of the standard, from the verdicts. -/
def rfcTable (onMatch onNone : Verdict) (stale unchanged read : Bool) : Outcome :=
  if !(if onMatch.isSome then onMatch.names else !stale) then .failed
  else if onNone.isSome then
    if onNone.names then (if read then .notModified else .failed) else .goesAhead
  else if read && unchanged then .notModified
  else .goesAhead

/-- The order of the server, from the verdicts. -/
def serverTable (onMatch onNone : Verdict) (stale unchanged read : Bool) : Outcome :=
  if onMatch.join.isSome && !onMatch.taken then .failed
  else if stale then .failed
  else if onNone.join.isSome then
    if onNone.taken then (if read then .notModified else .failed) else .goesAhead
  else if read && unchanged then .notModified
  else .goesAhead

/-- The inputs on which the server leaves the order of the standard. -/
def Strays (onMatch onNone : Verdict) (stale unchanged read : Bool) : Prop :=
  -- a date is looked at beside an `If-Match` that names the resource
  (onMatch.names = true ∧ stale = true ∧ (read = true ∨ onNone.names = false))
  -- an `If-Match` is overlooked, and nothing else refuses the request
  ∨ (onMatch.overlooked = true ∧ stale = false ∧ (read = true ∨ onNone.taken = false))
  -- the request comes as far as an `If-None-Match` that is overlooked
  ∨ ((onMatch.isSome = true → onMatch.names = true) ∧ stale = false
    ∧ onNone.overlooked = true ∧ (onNone.join.isSome = true ∨ (read = true ∧ unchanged = true)))

instance (onMatch onNone : Verdict) (stale unchanged read : Bool)
    : Decidable (Strays onMatch onNone stale unchanged read) :=
  inferInstanceAs (Decidable (_ ∨ _))

theorem tables_agree_iff
    : ∀ (onMatch onNone : Verdict) (stale unchanged read : Bool),
        onMatch.Sound → onNone.Sound
        → (serverTable onMatch onNone stale unchanged read
              = rfcTable onMatch onNone stale unchanged read
            ↔ ¬ Strays onMatch onNone stale unchanged read) := by
  decide +kernel

-- The functions and their tables

variable {conditions : Conditions} {read : Bool} {current : Current}

theorem sound_verdict (header : Option HeaderValue) (etag : Option String)
    : (verdict header etag).Sound := by
  unfold Verdict.Sound Verdict.names Verdict.taken verdict
  rcases header with none | none | value
  · exact id
  · exact id
  · simp only [Option.map_some, Option.any_some]
    intro named
    obtain ⟨tag, listed, same⟩ := List.any_eq_true.mp named
    refine List.any_eq_true.mpr ⟨tag, listed, ?_⟩
    simp only [Bool.or_eq_true, decide_eq_true_eq] at same ⊢
    rcases same with rfl | star
    · exact .inl rfl
    · exact .inr star

theorem names_verdict (header : Option HeaderValue) (etag : Option String)
    : (verdict header etag).names = header.any (·.any (lists · etag)) := by
  rcases header with none | none | value <;> rfl

theorem taken_verdict (header : Option HeaderValue) (etag : Option String)
    : (verdict header etag).taken
      = header.join.any (fun value => namesTag value (etag.getD "[]")) := by
  rcases header with none | none | value <;> rfl

theorem rfcOutcome_eq_table
    : rfcOutcome conditions read (some current)
      = rfcTable (verdict conditions.ifMatch current.etag)
          (verdict conditions.ifNoneMatch current.etag) (stale conditions current)
          (unchanged conditions current) read := by
  unfold rfcOutcome rfcTable
  rw [names_verdict, names_verdict]
  cases conditions.ifMatch <;> cases conditions.ifNoneMatch <;> rfl

theorem evaluateHttp_eq_table
    : Outcome.of (evaluateHttp conditions read current.etag current.lastModified)
      = serverTable (verdict conditions.ifMatch current.etag)
          (verdict conditions.ifNoneMatch current.etag) (stale conditions current)
          (unchanged conditions current) read := by
  have matching : conditions.ifMatch.join.any
        (fun value => !namesTag value (current.etag.getD "[]"))
      = ((verdict conditions.ifMatch current.etag).join.isSome
          && !(verdict conditions.ifMatch current.etag).taken) := by
    rw [taken_verdict]
    rcases conditions.ifMatch with none | none | value <;> rfl
  unfold evaluateHttp serverTable
  dsimp only
  rw [matching, taken_verdict conditions.ifNoneMatch]
  cases (verdict conditions.ifMatch current.etag).join.isSome
      && !(verdict conditions.ifMatch current.etag).taken with
  | true => rfl
  | false =>
      unfold stale
      cases conditions.ifUnmodifiedSince.any (· < current.lastModified) with
      | true => rfl
      | false =>
          rcases conditions.ifNoneMatch with none | none | value
          · unfold unchanged
            cases read && conditions.ifModifiedSince.any (current.lastModified ≤ ·) <;> rfl
          · unfold unchanged
            cases read && conditions.ifModifiedSince.any (current.lastModified ≤ ·) <;> rfl
          · cases read <;> cases named : namesTag value (current.etag.getD "[]") <;>
              simp [verdict, named, Outcome.of]

theorem notModified_read {current : Option Current}
    (refused : Outcome.of (checkConditions conditions read current) = .notModified)
    : read = true := by
  have table : ∀ (onMatch onNone : Verdict) (stale unchanged read : Bool),
      serverTable onMatch onNone stale unchanged read = .notModified → read = true := by
    decide +kernel
  cases current with
  | none =>
      unfold checkConditions at refused
      dsimp only at refused
      split at refused <;> cases refused
  | some current =>
      exact table _ _ _ _ _ (evaluateHttp_eq_table.symm.trans refused)

/-- The conditions' answer is that of the standard's order; a 304 answers a read alone; and a
write with an `If-Match` goes ahead only on a resource that the header names. -/
def FollowsRfc (conditions : Conditions) (read : Bool) (current : Option Current) : Prop :=
  Outcome.of (checkConditions conditions read current) = rfcOutcome conditions read current
    ∧ (Outcome.of (checkConditions conditions read current) = .notModified → read = true)
    ∧ (read = false → ∀ header, conditions.ifMatch = some header
        → Outcome.of (checkConditions conditions read current) = .goesAhead
        → ∃ state value, current = some state ∧ header = some value
          ∧ lists value state.etag = true)

theorem match_of_rfcOutcome {header : HeaderValue} {current : Option Current}
    (given : conditions.ifMatch = some header)
    (goesAhead : rfcOutcome conditions read current = .goesAhead)
    : ∃ state value, current = some state ∧ header = some value
        ∧ lists value state.etag = true := by
  cases current with
  | none =>
      unfold rfcOutcome at goesAhead
      dsimp only at goesAhead
      rw [given, if_pos Option.isSome_some] at goesAhead
      cases goesAhead
  | some state =>
      unfold rfcOutcome at goesAhead
      dsimp only at goesAhead
      rw [given] at goesAhead
      dsimp only at goesAhead
      split at goesAhead
      case isTrue => cases goesAhead
      case isFalse passed =>
        rcases header with none | value
        · simp at passed
        · exact ⟨state, value, rfl, rfl, by simpa using passed⟩

def datedWrite : Conditions where
  ifMatch := some (some "\"x\"")
  ifUnmodifiedSince := some 10

end MokuroBunko.Dav
