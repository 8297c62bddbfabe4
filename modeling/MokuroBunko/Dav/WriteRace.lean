import MokuroBunko.Auth.Authorize
import MokuroBunko.Dav.Conditionals
import Mathlib.Logic.Function.Basic

/-! PUT, COPY and MOVE requests to one path (`put.rs`, `write.rs`): each asks for its right, looks the
path up and judges its conditions, takes the write lock of the path, and commits. A COPY of a file
and a MOVE of a folder first delete what they found.
-/

namespace MokuroBunko.Dav

open MokuroBunko.Auth MokuroBunko.Lib

/-- What the path holds: its tag, its second, and the account that put it there. -/
structure Representation where
  etag : String
  modified : ℤ
  collection : Bool := false
  writer : Option String
deriving DecidableEq

inductive WriteMethod where
  | put
  | copy
  | move
deriving DecidableEq

structure WriteRequest where
  method : WriteMethod
  id : Identity
  conditions : Conditions := {}
  /-- The `Overwrite` header. -/
  overwrite : Option String := none
  /-- What a COPY or MOVE found at its source. -/
  source : Option Representation := none

/-- Where a request is. -/
inductive Stage where
  | asked
  | authorized
  | judged
  /-- It holds the lock and deletes what it found. -/
  | clearing
  | cleared
  /-- It commits next. -/
  | locked
  | succeeded
  | refused
deriving DecidableEq

structure Writer where
  stage : Stage := .asked
  /-- Whether its account may replace a file of this path. -/
  mayReplace : Bool := true
  /-- What it has read of the path and still acts on. -/
  looks : List (Option Representation) := []
  found : Option Representation := none
  /-- What it deleted before its commit. -/
  removed : Option Representation := none
  /-- What the path held when it committed. -/
  replaced : Option Representation := none

/-- What a commit comes to. -/
inductive Publication where
  | failed
  /-- The rename, or a created folder: the path's new tag and second. -/
  | published (etag : String) (modified : ℤ)
  /-- `keep_if_identical`: the path already holds the body. -/
  | identical

structure WriteRace where
  area : PathArea
  requests : ℕ → WriteRequest
  writers : ℕ → Writer := fun _ => {}
  stored : Option Representation := none
  lockedBy : Option ℕ := none

inductive RaceStep where
  /-- With what the backend says of the account's rights to the volume and the series. -/
  | authorize (index : ℕ) (canUserDelete canUserEditSeries : Bool)
  /-- `refused` by anything else that is checked. -/
  | judge (index : ℕ) (refused : Bool)
  /-- `busy` where another path it locks is held. -/
  | lock (index : ℕ) (busy : Bool)
  | clear (index : ℕ) (failed : Bool)
  | commit (index : ℕ) (publication : Publication)

namespace WriteRequest

variable (request : WriteRequest)

/-- `overwrite`: none where the header is invalid. -/
def overwrites : Option Bool :=
  match request.overwrite.map (fun value => String.ofList (value.toList.map Char.toUpper)) with
  | none | some "T" => some true
  | some "F" => some false
  | some _ => none

/-- Whether the source is a folder. -/
def ofFolder : Bool := request.source.any Representation.collection

/-- Whether what the request found is deleted before its commit. -/
def clears : Bool :=
  match request.method with
  | .put => false
  | .copy => !request.ofFolder
  | .move => request.ofFolder

def locks : Bool := !(request.method = .copy && request.ofFolder)

/-- `eval_if` of the HTTP conditions. -/
def conditionsHold (resource : Representation) : Bool :=
  (evaluateHttp request.conditions false (some resource.etag) resource.modified).isOk

/-- What `put_inner` checks of the path it looked up. -/
def putAccepts : Option Representation → Bool
  | some existing => !existing.collection && request.conditionsHold existing
  | none => request.conditions.ifMatch.isNone

/-- What `copy_move` checks of its source and of the path it looked up. -/
def copyMoveAccepts (dest : Option Representation) : Bool :=
  match request.source, request.overwrites with
  | some source, some overwrite =>
      request.conditionsHold source
        && dest.all request.conditionsHold
        && (overwrite || dest.isNone)
        && dest.all (fun existing => existing.collection == source.collection)
  | _, _ => false

def accepts (found : Option Representation) : Bool :=
  match request.method with
  | .put => request.putAccepts found
  | _ => request.copyMoveAccepts found

end WriteRequest

namespace WriteRace

variable (race : WriteRace)

def set (index : ℕ) (writer : Writer) : WriteRace :=
  { race with writers := Function.update race.writers index writer }

/-- The guard of a request is dropped. -/
def unlock (index : ℕ) : WriteRace :=
  { race with lockedBy := race.lockedBy.filter (· ≠ index) }

/-- The right of a request: PUT's depends on whether the path exists. -/
def authorizes (index : ℕ) (canUserDelete canUserEditSeries : Bool) : Bool :=
  let request := race.requests index
  match request.method with
  | .put =>
      (authorizePut race.area request.id {
        physicalExists := race.stored.isSome
        canUserDelete := fun _ => canUserDelete
        canUserEditSeries := fun _ => canUserEditSeries
      }).isOk
  | _ => (authorizeCopyMove race.area request.id).isOk

/-- Whether the right of a PUT holds only while the path is free. -/
def onlyCreates (index : ℕ) (canUserDelete : Bool) : Bool :=
  let request := race.requests index
  request.method = .put && race.area = .library && !hasPerm request.id.role .modifyDelete
    && !(request.id.username.isSome && canUserDelete)

def authorize (index : ℕ) (canUserDelete canUserEditSeries : Bool) : WriteRace :=
  let writer := race.writers index
  if writer.stage ≠ .asked then race
  else if race.authorizes index canUserDelete canUserEditSeries then
    race.set index { writer with
      stage := .authorized
      mayReplace := !race.onlyCreates index canUserDelete
      looks := if race.onlyCreates index canUserDelete then [race.stored] else []
    }
  else race.set index { writer with stage := .refused }

def judge (index : ℕ) (refused : Bool) : WriteRace :=
  let writer := race.writers index
  if writer.stage ≠ .authorized then race
  else if !refused && (race.requests index).accepts race.stored then
    race.set index { writer with
      stage := .judged
      found := race.stored
      looks := race.stored :: writer.looks
    }
  else race.set index { writer with stage := .refused }

/-- The lock is taken for the deletion of what was found, if there is one, or for the commit. -/
def lock (index : ℕ) (busy : Bool) : WriteRace :=
  let writer := race.writers index
  let request := race.requests index
  let clearing := writer.stage = .judged && request.clears && writer.found.isSome
  if writer.stage ≠ .judged && writer.stage ≠ .cleared then race
  else if clearing && race.stored.isNone then
    -- `delete_file` finds nothing to delete
    race.set index { writer with stage := .cleared, looks := [none] }
  else if !request.locks then race.set index { writer with stage := .locked }
  else if busy || race.lockedBy.isSome then race.set index { writer with stage := .refused }
  else
    { race.set index { writer with stage := if clearing then .clearing else .locked } with
      lockedBy := some index
    }

def clear (index : ℕ) (failed : Bool) : WriteRace :=
  let writer := race.writers index
  if writer.stage ≠ .clearing then race
  else if failed then (race.set index { writer with stage := .refused }).unlock index
  else
    { race.set index { writer with
        stage := .cleared
        looks := [none]
        removed := race.stored
      } with
      stored := none
    }.unlock index

/-- The path after a publication: a copied folder is merged into one that is there. -/
def published (request : WriteRequest) (stored : Option Representation) (etag : String)
    (modified : ℤ)
    : Representation where
  etag := etag
  modified := modified
  collection := request.ofFolder
  writer :=
    if request.method = .copy && request.ofFolder && stored.isSome then
      stored.bind Representation.writer
    else request.id.username

def commit (index : ℕ) (publication : Publication) : WriteRace :=
  let writer := race.writers index
  let request := race.requests index
  let fails := (race.set index { writer with stage := .refused }).unlock index
  let succeeds := race.set index { writer with stage := .succeeded, replaced := race.stored }
  if writer.stage ≠ .locked then race
  else
    match publication with
    | .failed => fails
    | .published etag modified =>
        -- a file is never renamed over a folder, nor a folder over a file
        if race.stored.all (fun existing => existing.collection == request.ofFolder) then
          { succeeds with
            stored := some (published request race.stored etag modified)
          }.unlock index
        else fails
    | .identical =>
        if request.method = .put && race.stored.isSome then succeeds.unlock index else fails

def step (race : WriteRace) : RaceStep → WriteRace
  | .authorize index canUserDelete canUserEditSeries =>
      race.authorize index canUserDelete canUserEditSeries
  | .judge index refused => race.judge index refused
  | .lock index busy => race.lock index busy
  | .clear index failed => race.clear index failed
  | .commit index publication => race.commit index publication

end WriteRace

end MokuroBunko.Dav
