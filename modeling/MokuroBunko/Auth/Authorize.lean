import MokuroBunko.Db.Tables

/-! What the roles permit, and the decisions about writes of files (`auth/mod.rs`). Which area a path
lies in and what the backend says of it are given.
-/

namespace MokuroBunko.Auth

open MokuroBunko.Db

inductive Perm where
  | read
  | writeProgress
  | addFiles
  | modifyDelete
  | manageInvites
  | admin
  | process

/-- `has_perm`. -/
def hasPerm (role : Role) : Perm → Bool
  | .read => true
  | .writeProgress => role ∈ [.registered, .uploader, .inviter, .editor, .admin]
  | .addFiles => role ∈ [.uploader, .inviter, .editor, .admin]
  | .modifyDelete => role ∈ [.inviter, .editor, .admin]
  | .manageInvites => role ∈ [.inviter, .admin]
  | .admin => role = .admin
  | .process => role = .processor

/-- `Identity`: the account that was recognised, if any. -/
structure Identity where
  user : Option (String × Role)
deriving DecidableEq

namespace Identity

def authenticated (id : Identity) : Bool := id.user.isSome

def username (id : Identity) : Option String := id.user.map Prod.fst

def role (id : Identity) : Role := (id.user.map Prod.snd).getD .anonymous

end Identity

structure Denied where
  status : ℕ
  message : String
deriving DecidableEq

def need (id : Identity) (perm : Perm) (forbidden : String) : Except Denied Unit :=
  if hasPerm id.role perm then .ok ()
  else if !id.authenticated then .error ⟨401, "Authentication required"⟩
  else .error ⟨403, forbidden⟩

/-- `compiled_denied`. -/
def compiledDenied (id : Identity) : Denied :=
  if id.authenticated then ⟨403, "Permission denied: this file is compiled by the server"⟩
  else ⟨401, "Authentication required"⟩

/-- `progress_write`. -/
def progressWrite (id : Identity) : Except Denied Unit :=
  if !id.authenticated then .error ⟨401, "Authentication required to save progress"⟩
  else if !hasPerm id.role .writeProgress then
    .error ⟨403, "Permission denied: cannot save progress"⟩
  else if id.username.isSome then .ok ()
  else .error ⟨403, "Cannot write to other users' progress"⟩

/-- The area a path lies in, by the first test of `authorize_put` that takes it. -/
inductive PathArea where
  | progress
  | series
  | compiled
  | library
  | unsupported
deriving DecidableEq

/-- What the backend says of the path. -/
structure BackendAnswers where
  physicalExists : Bool
  canUserDelete : String → Bool
  canUserEditSeries : String → Bool

/-- `authorize_put`. -/
def authorizePut (area : PathArea) (id : Identity) (backend : BackendAnswers)
    : Except Denied Unit :=
  match area with
  | .progress => progressWrite id
  | .series =>
      if !id.authenticated then .error ⟨401, "Authentication required"⟩
      else if hasPerm id.role .modifyDelete then .ok ()
      else if id.role = .uploader && id.username.any backend.canUserEditSeries then .ok ()
      else
        .error ⟨403, "Permission denied: cannot submit metadata updates for this series"⟩
  | .compiled => .error (compiledDenied id)
  | .library => do
      need id .addFiles "Permission denied: cannot add files"
      if !hasPerm id.role .modifyDelete && backend.physicalExists
          && !id.username.any backend.canUserDelete then
        .error ⟨403, "Permission denied: cannot replace a file another account uploaded"⟩
      else .ok ()
  | .unsupported => .error ⟨403, "Permission denied: unsupported target path"⟩

/-- The decision about COPY and MOVE. -/
def authorizeCopyMove (area : PathArea) (id : Identity) : Except Denied Unit :=
  match area with
  | .progress => progressWrite id
  | .compiled => .error (compiledDenied id)
  | _ => need id .modifyDelete "Permission denied: cannot modify or delete files"

end MokuroBunko.Auth
