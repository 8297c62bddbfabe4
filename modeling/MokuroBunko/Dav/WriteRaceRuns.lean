import MokuroBunko.Dav.WriteRace
import MokuroBunko.Lib.Runs

/-! A request that deletes or commits while the path holds what it has read there acts on the state
it was judged on.
-/

namespace MokuroBunko.Dav

open MokuroBunko.Auth MokuroBunko.Lib

/-- Whether a value of `If-Match` names the tag. -/
def HeaderValue.names (value : HeaderValue) (etag : String) : Prop :=
  ∃ text ∈ value, namesTag text etag = true

/-- The request asks that nothing be there: `If-None-Match: *`, or `Overwrite: F`. -/
def WriteRequest.excludes (request : WriteRequest) : Prop :=
  (∃ value ∈ request.conditions.ifNoneMatch.join, "*" ∈ parseEtagList value)
    ∨ (request.method ≠ .put ∧ request.overwrites = some false)

/-- A request asked for what it may act on. -/
structure WriteRequest.Allows (request : WriteRequest) (stored : Option Representation) : Prop where
  matched : ∀ value ∈ request.conditions.ifMatch, ∀ old ∈ stored, value.names old.etag
  present : request.method = .put → request.conditions.ifMatch.isSome → stored ≠ none
  absent : request.excludes → stored = none

namespace WriteRace

/-- A request that succeeded acted on the state it was judged on. -/
structure Kept (race : WriteRace) : Prop where
  /-- With `If-Match` it replaced a file that this names, a PUT has replaced one. -/
  matched
    : ∀ index,
        (race.writers index).stage = .succeeded
        → ∀ value ∈ (race.requests index).conditions.ifMatch,
            (∀ old ∈ (race.writers index).removed, value.names old.etag)
            ∧ (∀ old ∈ (race.writers index).replaced, value.names old.etag)
            ∧ ((race.requests index).method = .put → (race.writers index).replaced ≠ none)
  /-- With `If-None-Match: *` or `Overwrite: F` it replaced nothing. -/
  absent
    : ∀ index,
        (race.writers index).stage = .succeeded
        → (race.requests index).excludes
        → (race.writers index).removed = none ∧ (race.writers index).replaced = none
  /-- A PUT whose account may only create replaced no file of another account. -/
  created
    : ∀ index,
        (race.writers index).stage = .succeeded
        → (race.requests index).method = .put
        → (race.writers index).mayReplace = false
        → ∀ old ∈ (race.writers index).replaced, old.writer = (race.requests index).id.username

/-- The path still holds what the request has read there. -/
def current (race : WriteRace) (index : ℕ) : Prop :=
  ∀ look ∈ (race.writers index).looks, look = race.stored

/-- A judged request has a readable `If-Match`, and deletes or commits while the path is as it
has read it.
-/
def Meets (race : WriteRace) : RaceStep → Prop
  | .judge index _ => (race.requests index).conditions.ifMatch ≠ some none
  | .clear index false => race.current index
  | .commit index (.published ..) => race.current index
  | .commit index .identical => race.current index
  | _ => True

instance (race : WriteRace) (index : ℕ) : Decidable (race.current index) :=
  inferInstanceAs (Decidable (∀ _ ∈ _, _))

instance : ∀ (race : WriteRace) (step : RaceStep), Decidable (Meets race step)
  | _, .authorize .. | _, .lock .. | _, .clear _ true | _, .commit _ .failed =>
      isTrue trivial
  | race, .judge index _ =>
      inferInstanceAs (Decidable ((race.requests index).conditions.ifMatch ≠ some none))
  | race, .clear index false => inferInstanceAs (Decidable (race.current index))
  | race, .commit index (.published ..) => inferInstanceAs (Decidable (race.current index))
  | race, .commit index .identical => inferInstanceAs (Decidable (race.current index))

-- What a judged request has read

theorem conditionsHold_iff {request : WriteRequest} {existing : Representation}
    (holds : request.conditionsHold existing = true)
    : evaluateHttp request.conditions false (some existing.etag) existing.modified = .ok () := by
  unfold WriteRequest.conditionsHold at holds
  cases passed : evaluateHttp request.conditions false (some existing.etag) existing.modified with
  | error _ =>
      rw [passed] at holds
      cases holds
  | ok _ => rfl

theorem namesTag_star {value etag : String} (star : "*" ∈ parseEtagList value)
    : namesTag value etag = true := by
  unfold namesTag
  exact List.any_eq_true.mpr ⟨"*", star, by simp⟩

theorem matched_of_conditionsHold {request : WriteRequest} {existing : Representation}
    (readable : request.conditions.ifMatch ≠ some none)
    (holds : request.conditionsHold existing = true)
    : (∀ value ∈ request.conditions.ifMatch, value.names existing.etag)
      ∧ ¬ ∃ value ∈ request.conditions.ifNoneMatch.join, "*" ∈ parseEtagList value := by
  obtain ⟨named, unnamed⟩ := evaluateHttp_ok (conditionsHold_iff holds)
  constructor
  · intro value given
    cases value with
    | none => exact absurd given readable
    | some text =>
        have isText : request.conditions.ifMatch.join = some text := by
          rw [Option.mem_def.mp given]
          rfl
        exact ⟨text, rfl, named text isText⟩
  · rintro ⟨value, given, star⟩
    have hidden := unnamed value given
    rw [namesTag_star star] at hidden
    cases hidden

theorem allows_of_putAccepts {request : WriteRequest} {stored : Option Representation}
    (put : request.method = .put) (readable : request.conditions.ifMatch ≠ some none)
    (accepts : request.putAccepts stored = true)
    : request.Allows stored := by
  cases stored with
  | none =>
      simp only [WriteRequest.putAccepts, Option.isNone_iff_eq_none] at accepts
      constructor
      · intro value _ old isOld
        cases isOld
      · intro _ given
        simp [accepts] at given
      · exact fun _ => rfl
  | some existing =>
      simp only [WriteRequest.putAccepts, Bool.and_eq_true] at accepts
      obtain ⟨named, unstarred⟩ := matched_of_conditionsHold readable accepts.2
      constructor
      · rintro value given old ⟨rfl⟩
        exact named value given
      · exact fun _ _ => Option.some_ne_none existing
      · rintro (star | ⟨other, -⟩)
        · exact absurd star unstarred
        · exact absurd put other

theorem allows_of_copyMoveAccepts {request : WriteRequest} {stored : Option Representation}
    (notPut : request.method ≠ .put) (readable : request.conditions.ifMatch ≠ some none)
    (accepts : request.copyMoveAccepts stored = true)
    : request.Allows stored := by
  unfold WriteRequest.copyMoveAccepts at accepts
  split at accepts
  case h_2 => cases accepts
  case h_1 source overwrite _ read =>
      simp only [Bool.and_eq_true, Bool.or_eq_true, Option.isNone_iff_eq_none] at accepts
      obtain ⟨⟨⟨sourceHolds, destHolds⟩, free⟩, -⟩ := accepts
      constructor
      · rintro value given old isOld
        rw [Option.mem_def.mp isOld] at destHolds
        exact (matched_of_conditionsHold readable destHolds).1 value given
      · exact fun put => absurd put notPut
      · rintro (star | ⟨-, kept⟩)
        · -- the source is there, so `*` names it
          exact absurd star (matched_of_conditionsHold readable sourceHolds).2
        · rw [read, Option.some.injEq] at kept
          rcases free with overwrites | free
          · rw [kept] at overwrites
            cases overwrites
          · exact free

theorem allows_of_accepts {request : WriteRequest} {stored : Option Representation}
    (readable : request.conditions.ifMatch ≠ some none)
    (accepts : request.accepts stored = true)
    : request.Allows stored := by
  unfold WriteRequest.accepts at accepts
  cases method : request.method with
  | put =>
      rw [method] at accepts
      exact allows_of_putAccepts method readable accepts
  | copy | move =>
      rw [method] at accepts
      exact allows_of_copyMoveAccepts (by simp [method]) readable accepts

-- The invariant

/-- Stages after the conditions were judged and before the commit. -/
def judgedStages : List Stage := [.judged, .clearing, .cleared, .locked]

structure WriterSound (request : WriteRequest) (writer : Writer) : Prop where
  judged : writer.stage ∈ judgedStages → ∃ look ∈ writer.looks, request.Allows look
  granted
    : writer.stage ∈ Stage.authorized :: judgedStages
      → request.method = .put
      → writer.mayReplace = false
      → none ∈ writer.looks
  clearing : writer.stage = .clearing → request.method ≠ .put
  removed : ∀ value ∈ request.conditions.ifMatch, ∀ old ∈ writer.removed, value.names old.etag
  unremoved : request.excludes → writer.removed = none
  succeeded : writer.stage = .succeeded → request.Allows writer.replaced
  created
    : writer.stage = .succeeded
      → request.method = .put
      → writer.mayReplace = false
      → writer.replaced = none

def Invariant (race : WriteRace) : Prop :=
  ∀ index, WriterSound (race.requests index) (race.writers index)

theorem Invariant.kept {race : WriteRace} (holds : race.Invariant) : race.Kept where
  matched index succeeded value given :=
    have allows := (holds index).succeeded succeeded
    ⟨(holds index).removed value given, allows.matched value given,
      fun put => allows.present put (Option.isSome_of_mem given)⟩
  absent index succeeded excludes :=
    ⟨(holds index).unremoved excludes, ((holds index).succeeded succeeded).absent excludes⟩
  created index succeeded put onlyCreates old isOld := by
    rw [(holds index).created succeeded put onlyCreates] at isOld
    cases isOld

theorem Invariant.update {race after : WriteRace} {index : ℕ} {writer : Writer}
    (holds : race.Invariant) (sound : WriterSound (race.requests index) writer)
    (requests : after.requests = race.requests)
    (writers : after.writers = Function.update race.writers index writer)
    : after.Invariant := by
  intro other
  rw [requests, writers, Function.update_apply]
  split
  case isTrue same =>
      rw [same]
      exact sound
  case isFalse => exact holds other

theorem WriterSound.refused {request : WriteRequest} {writer : Writer}
    (sound : WriterSound request writer)
    : WriterSound request { writer with stage := .refused } where
  judged stage := by simp [judgedStages] at stage
  granted stage := by simp [judgedStages] at stage
  clearing stage := by cases stage
  removed := sound.removed
  unremoved := sound.unremoved
  succeeded stage := by cases stage
  created stage := by cases stage

theorem free_of_onlyCreates {race : WriteRace} {index : ℕ} {canUserDelete canUserEdit : Bool}
    (authorized : race.authorizes index canUserDelete canUserEdit = true)
    (restricted : race.onlyCreates index canUserDelete = true)
    : race.stored = none := by
  simp only [onlyCreates, Bool.and_eq_true, decide_eq_true_eq, Bool.not_eq_true'] at restricted
  obtain ⟨⟨⟨put, library⟩, unable⟩, stranger⟩ := restricted
  have notOwner : (race.requests index).id.username.any (fun _ => canUserDelete) = false := by
    cases user : (race.requests index).id.username with
    | none => rfl
    | some name => simpa [user] using stranger
  cases stored : race.stored with
  | none => rfl
  | some old =>
      simp only [authorizes, put, authorizePut, library, unable, notOwner, stored, bind,
        Except.bind] at authorized
      split at authorized <;> simp [Except.isOk, Except.toBool] at authorized

theorem Invariant.authorize {race : WriteRace} (holds : race.Invariant) (index : ℕ)
    (canUserDelete canUserEdit : Bool)
    : (race.authorize index canUserDelete canUserEdit).Invariant := by
  unfold WriteRace.authorize
  dsimp only
  split
  · exact holds
  · split
    case isTrue authorizes =>
        refine holds.update ?_ rfl rfl
        refine { holds index with
          judged := ?_
          granted := ?_
          clearing := ?_
          succeeded := ?_
          created := ?_
        }
        · intro stage
          simp [judgedStages] at stage
        · intro _ _ onlyCreates
          simp only [Bool.not_eq_false'] at onlyCreates
          simp [onlyCreates, free_of_onlyCreates authorizes onlyCreates]
        · intro stage
          cases stage
        · intro stage
          cases stage
        · intro stage
          cases stage
    case isFalse => exact holds.update (holds index).refused rfl rfl

theorem Invariant.judge {race : WriteRace} (holds : race.Invariant) (index : ℕ) (refused : Bool)
    (readable : (race.requests index).conditions.ifMatch ≠ some none)
    : (race.judge index refused).Invariant := by
  unfold WriteRace.judge
  dsimp only
  split
  · exact holds
  case isFalse isAuthorized =>
      split
      case isTrue accepts =>
          simp only [Bool.and_eq_true] at accepts
          simp only [ne_eq, Decidable.not_not] at isAuthorized
          refine holds.update ?_ rfl rfl
          refine { holds index with
          judged := ?_
          granted := ?_
          clearing := ?_
          succeeded := ?_
          created := ?_
        }
          · intro _
            exact ⟨race.stored, by simp, allows_of_accepts readable accepts.2⟩
          · intro _ put onlyCreates
            have granted := (holds index).granted (by simp [isAuthorized]) put onlyCreates
            exact List.mem_cons_of_mem _ granted
          · intro stage
            cases stage
          · intro stage
            cases stage
          · intro stage
            cases stage
      case isFalse => exact holds.update (holds index).refused rfl rfl

theorem WriterSound.goesOn {request : WriteRequest} {writer : Writer}
    (sound : WriterSound request writer) (before : writer.stage ∈ judgedStages) {stage : Stage}
    (after : stage ∈ judgedStages) (clearing : stage = .clearing → request.method ≠ .put)
    : WriterSound request { writer with stage := stage } where
  judged _ := sound.judged before
  granted _ := sound.granted (List.mem_cons_of_mem _ before)
  clearing := clearing
  removed := sound.removed
  unremoved := sound.unremoved
  succeeded done := by simp [show stage = .succeeded from done, judgedStages] at after
  created done := by simp [show stage = .succeeded from done, judgedStages] at after

theorem WriterSound.cleared {request : WriteRequest} (writer : Writer)
    (notPut : request.method ≠ .put)
    {removed : Option Representation}
    (matched : ∀ value ∈ request.conditions.ifMatch, ∀ old ∈ removed, value.names old.etag)
    (unremoved : request.excludes → removed = none)
    : WriterSound request { writer with
        stage := .cleared
        looks := [none]
        removed := removed
      } where
  judged _ := by
    refine ⟨none, by simp, ?_⟩
    constructor
    · intro _ _ old isOld
      cases isOld
    · exact fun put => absurd put notPut
    · exact fun _ => rfl
  granted _ put := absurd put notPut
  clearing stage := by cases stage
  removed := matched
  unremoved := unremoved
  succeeded stage := by cases stage
  created stage := by cases stage

theorem Invariant.lock {race : WriteRace} (holds : race.Invariant) (index : ℕ) (busy : Bool)
    : (race.lock index busy).Invariant := by
  have sound := holds index
  unfold WriteRace.lock
  dsimp only
  generalize clearing_def : (decide ((race.writers index).stage = .judged)
    && (race.requests index).clears && (race.writers index).found.isSome) = clearing
  have notPut (clears : clearing = true) : (race.requests index).method ≠ .put := by
    intro put
    rw [clears, Bool.and_eq_true, Bool.and_eq_true] at clearing_def
    simp [WriteRequest.clears, put] at clearing_def
  split
  · exact holds
  case isFalse waiting =>
      have before : (race.writers index).stage ∈ judgedStages := by
        simp only [judgedStages, List.mem_cons]
        cases stage : (race.writers index).stage <;> simp_all
      split
      case isTrue clears =>
          simp only [Bool.and_eq_true] at clears
          exact holds.update
            (WriterSound.cleared _ (notPut clears.1) sound.removed sound.unremoved) rfl rfl
      case isFalse =>
          split
          · have locked : Stage.locked = .clearing → (race.requests index).method ≠ .put := nofun
            exact holds.update (sound.goesOn before (by simp [judgedStages]) locked) rfl rfl
          · split
            · exact holds.update sound.refused rfl rfl
            · refine holds.update (sound.goesOn before ?_ ?_) rfl rfl
              · cases clearing <;> simp [judgedStages]
              · intro stage
                apply notPut
                cases clearing with
                | true => rfl
                | false => cases stage

theorem WriterSound.allows {race : WriteRace} {index : ℕ}
    (sound : WriterSound (race.requests index) (race.writers index))
    (judged : (race.writers index).stage ∈ judgedStages) (current : race.current index)
    : (race.requests index).Allows race.stored := by
  obtain ⟨look, member, allows⟩ := sound.judged judged
  exact current look member ▸ allows

theorem Invariant.clear {race : WriteRace} (holds : race.Invariant) (index : ℕ) (failed : Bool)
    (meets : race.Meets (.clear index failed))
    : (race.clear index failed).Invariant := by
  have sound := holds index
  unfold WriteRace.clear
  dsimp only
  split
  · exact holds
  case isFalse clears =>
      simp only [ne_eq, Decidable.not_not] at clears
      cases failed with
      | true => exact holds.update sound.refused rfl rfl
      | false =>
          have allows := sound.allows (by simp [clears, judgedStages]) meets
          exact holds.update
            (WriterSound.cleared _ (sound.clearing clears) allows.matched allows.absent) rfl rfl

theorem WriterSound.succeeds {race : WriteRace} {index : ℕ}
    (sound : WriterSound (race.requests index) (race.writers index))
    (locked : (race.writers index).stage = .locked) (current : race.current index)
    : WriterSound (race.requests index)
        { race.writers index with stage := .succeeded, replaced := race.stored } where
  judged stage := by simp [judgedStages] at stage
  granted stage := by simp [judgedStages] at stage
  clearing stage := by cases stage
  removed := sound.removed
  unremoved := sound.unremoved
  succeeded _ := sound.allows (by simp [locked, judgedStages]) current
  created _ put onlyCreates :=
    (current none (sound.granted (by simp [locked, judgedStages]) put onlyCreates)).symm

theorem Invariant.commit {race : WriteRace} (holds : race.Invariant) (index : ℕ)
    (publication : Publication) (meets : race.Meets (.commit index publication))
    : (race.commit index publication).Invariant := by
  have sound := holds index
  have fails : ((race.set index { race.writers index with stage := .refused }).unlock
      index).Invariant :=
    holds.update sound.refused rfl rfl
  unfold WriteRace.commit
  dsimp only
  split
  · exact holds
  case isFalse locked =>
      simp only [ne_eq, Decidable.not_not] at locked
      cases publication with
      | failed => exact fails
      | published etag modified =>
          dsimp only
          split
          · exact holds.update (sound.succeeds locked meets) rfl rfl
          · exact fails
      | identical =>
          dsimp only
          split
          · exact holds.update (sound.succeeds locked meets) rfl rfl
          · exact fails

theorem step_invariant (race : WriteRace) (step : RaceStep) (holds : race.Invariant)
    (meets : race.Meets step)
    : (race.step step).Invariant := by
  cases step with
  | authorize index canUserDelete canUserEdit => exact holds.authorize index _ _
  | judge index refused => exact holds.judge index refused meets
  | lock index busy => exact holds.lock index busy
  | clear index failed => exact holds.clear index failed meets
  | commit index publication => exact holds.commit index publication meets

theorem start_invariant (area : PathArea) (requests : ℕ → WriteRequest)
    (stored : Option Representation)
    : ({ area, requests, stored } : WriteRace).Invariant := by
  intro index
  constructor
  · intro stage
    simp [judgedStages] at stage
  · intro stage
    simp [judgedStages] at stage
  · intro stage
    cases stage
  · intro _ _ _ isOld
    cases isOld
  · exact fun _ => rfl
  · intro stage
    cases stage
  · intro stage
    cases stage

/-- In every run whose deletions and commits find the path as it was read, every request that
succeeds acted on the state it was judged on.
-/
theorem run_kept (area : PathArea) (requests : ℕ → WriteRequest)
    (stored : Option Representation)
    (taken : List RaceStep)
    (orderly : Runs.Orderly step Meets { area, requests, stored } taken)
    : (taken.foldl step { area, requests, stored }).Kept :=
  Invariant.kept (orderly.invariant step_invariant (start_invariant area requests stored))

-- Runs

def editor : Identity := ⟨some ("ed", .editor)⟩

def oldFile : Representation where
  etag := "1"
  modified := 10
  writer := some "ann"

def updating : WriteRequest where
  method := .put
  id := editor
  conditions := { ifMatch := some (some "\"1\"") }

/-- A COPY onto the path, which replaces what is there or nothing. -/
def copying (overwrite : String) : WriteRequest where
  method := .copy
  id := editor
  overwrite := some overwrite
  source := some { etag := "7", modified := 20, writer := none }

/-- An uploader's PUT of a new file. -/
def uploading (name : String) : WriteRequest where
  method := .put
  id := ⟨some (name, .uploader)⟩

/-- A request goes all its way. -/
def alone (index : ℕ) (etag : String) : List RaceStep :=
  [.authorize index false false, .judge index false, .lock index false,
    .commit index (.published etag 30)]

def together : List RaceStep :=
  [.authorize 0 false false, .authorize 1 false false, .judge 0 false, .judge 1 false,
    .lock 0 false, .commit 0 (.published "2" 30), .lock 1 false, .commit 1 (.published "3" 31)]

/-- The request `first`, and after it `second`. -/
def pair (first second : WriteRequest) : ℕ → WriteRequest
  | 0 => first
  | _ => second

/-- A race of two requests in the library. -/
def race (first second : WriteRequest) (stored : Option Representation) : WriteRace where
  area := .library
  requests := pair first second
  stored := stored

def updateThenCopy : List RaceStep :=
  alone 0 "2"
    ++ [.authorize 1 false false, .judge 1 false, .lock 1 false, .clear 1 false, .lock 1 false,
      .commit 1 (.published "7" 20)]

theorem run_kept_update_then_copy
    : (updateThenCopy.foldl step (race updating (copying "t") oldFile)).Kept :=
  run_kept _ _ _ _ (by decide +kernel)

/-- Two updates of one version both succeed, a COPY with `Overwrite: F` replaces a file, and so
does an uploader's PUT.
-/
theorem not_run_kept
    : ¬ (together.foldl step (race updating updating oldFile)).Kept
      ∧ ¬ (together.foldl step (race (uploading "bo") (copying "F") none)).Kept
      ∧ ¬ (together.foldl step (race (uploading "bo") (uploading "cy") none)).Kept := by
  refine ⟨?_, ?_, ?_⟩
  · intro kept
    have replaced : ((together.foldl step (race updating updating oldFile)).writers 1).replaced
        = some { etag := "2", modified := 30, writer := some "ed" } := by
      decide +kernel
    obtain ⟨-, matched, -⟩ := kept.matched 1 (by decide +kernel) (some "\"1\"") rfl
    obtain ⟨text, isText, named⟩ := matched _ replaced
    obtain rfl : "\"1\"" = text := Option.some.inj isText
    have unnamed : namesTag "\"1\"" "2" = false := by decide +kernel
    exact Bool.false_ne_true (unnamed.symm.trans named)
  · intro kept
    have replaced
        : ((together.foldl step (race (uploading "bo") (copying "F") none)).writers 1).replaced
          ≠ none := by
      decide +kernel
    exact replaced (kept.absent 1 (by decide +kernel) (Or.inr (by decide +kernel))).2
  · intro kept
    have replaced
        : ((together.foldl step (race (uploading "bo") (uploading "cy") none)).writers 1).replaced
          = some { etag := "2", modified := 30, writer := some "bo" } := by
      decide +kernel
    have own := kept.created 1 (by decide +kernel) rfl (by decide +kernel) _ replaced
    exact absurd own (by decide +kernel)

end WriteRace

end MokuroBunko.Dav
