import MokuroBunko.Lib.Text

/-! Conditional requests: `If-Match`, `If-None-Match` and the dates (`conditional.rs`).
-/

namespace MokuroBunko.Dav

open MokuroBunko.Lib

/-- The value of a header that is there: none where it is not visible ASCII. -/
abbrev HeaderValue := Option String

/-- The text between the quotes, if the tag has them. -/
def unquoted (tag : String) : String :=
  match tag.toList with
  | '"' :: rest => if rest.getLast? = some '"' then String.ofList rest.dropLast else tag
  | _ => tag

/-- `parse_etag_list`. -/
def parseEtagList (value : String) : List String :=
  ((Text.segments ',' value).map (fun raw =>
    let tag := Text.trim raw
    unquoted ((Text.stripPrefix tag "W/").getD tag))).filter (· ≠ "")

/-- Whether an entry of a header's list is the tag, or `*`. -/
def namesTag (value etag : String) : Bool :=
  (parseEtagList value).any (fun tag => tag = etag || tag = "*")

/-- The conditions of a request, its dates in seconds where they can be read. -/
structure Conditions where
  ifMatch : Option HeaderValue := none
  ifNoneMatch : Option HeaderValue := none
  ifUnmodifiedSince : Option ℤ := none
  ifModifiedSince : Option ℤ := none

inductive ConditionRefusal where
  | notModified
  | ifMatch
  | ifUnmodifiedSince
  | ifNoneMatch
deriving DecidableEq

/-- `evaluate_http`, `read` for GET and HEAD. -/
def evaluateHttp (conditions : Conditions) (read : Bool) (etag : Option String)
    (lastModified : ℤ)
    : Except ConditionRefusal Unit :=
  let etag := etag.getD "[]"
  if conditions.ifMatch.join.any (fun value => !namesTag value etag) then .error .ifMatch
  else if conditions.ifUnmodifiedSince.any (· < lastModified) then .error .ifUnmodifiedSince
  else
    match conditions.ifNoneMatch.join with
    | some value =>
        if namesTag value etag then .error (if read then .notModified else .ifNoneMatch)
        else .ok ()
    | none =>
        if read && conditions.ifModifiedSince.any (lastModified ≤ ·) then .error .notModified
        else .ok ()

theorem evaluateHttp_ok {conditions : Conditions} {read : Bool} {etag : String}
    {lastModified : ℤ}
    (passed : evaluateHttp conditions read (some etag) lastModified = .ok ())
    : (∀ value ∈ conditions.ifMatch.join, namesTag value etag = true)
      ∧ (∀ value ∈ conditions.ifNoneMatch.join, namesTag value etag = false) := by
  unfold evaluateHttp at passed
  dsimp only [Option.getD_some] at passed
  constructor
  · intro value given
    rw [Option.mem_def.mp given] at passed
    cases named : namesTag value etag with
    | true => rfl
    | false =>
        rw [Option.any_some, named, Bool.not_false, if_pos rfl] at passed
        cases passed
  · intro value given
    rw [Option.mem_def.mp given] at passed
    by_contra named
    simp only [Bool.not_eq_false] at named
    split at passed
    · cases passed
    · split at passed
      · cases passed
      · simp [named] at passed

end MokuroBunko.Dav
