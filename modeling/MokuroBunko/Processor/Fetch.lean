import MokuroBunko.Config.Generations
import MokuroBunko.Lib.Calls

/-! The download of one archive: requests, restarts, the body into a placement of the spool, and the
second copy that tells damage at the library from a bad transfer. What is around the download answers
its calls: the server, the spool, the check of the zip, the clock and the session that may cancel.
-/

namespace MokuroBunko.Processor

open MokuroBunko.Config MokuroBunko.Lib

inductive PlacementKind where
  | memory
  | disk
  deriving DecidableEq

/-- What the download keeps of a `Placement`. -/
structure Handle where
  id : ℕ
  kind : PlacementKind
  size : ℕ
  deriving DecidableEq

/-- Why nothing is placed. -/
inductive SpoolError where
  | noRoom
  | io

inductive WriteError where
  | full
  | io

/-- An answer's status and the headers that are read. -/
structure Answer where
  status : ℕ
  accelRedirect : Bool
  etag : Option String
  contentLength : Option String
  contentRange : Option String

/-- What becomes of a request before a body is read. -/
inductive Sent where
  | cancelled
  | timedOut
  | failed
  | answered (answer : Answer)

inductive Ending where
  | clean
  | failed
  | timedOut
  | cancelled
  deriving DecidableEq

/-- The body that arrives, piece by piece, and how it ends. -/
structure Body where
  chunks : List (List UInt8)
  ending : Ending

structure TransferFault where
  kind : String
  status : Option ℕ
  received : ℕ
  total : Option ℕ
  requests : ℕ
  deriving DecidableEq

inductive FetchError where
  | cancelled
  | lostLibrary (status : ℕ)
  | fault (fault : TransferFault)
  deriving DecidableEq

structure Verified where
  members : ℕ
  damaged : List String
  structural : Option String

def Verified.ok (verified : Verified) : Bool :=
  verified.structural.isNone && verified.damaged.isEmpty

/-- One full copy of the file, as far as it has arrived. `crc` are the bytes that the checksum has been
given.
-/
structure Copy where
  placement : Option Handle
  received : ℕ
  total : Option ℕ
  etag : Option String
  crc : List UInt8

def Copy.empty : Copy := ⟨none, 0, none, none, []⟩

/-- One fetch's counters. -/
structure Download where
  requests : ℕ
  restarts : ℕ
  noRangeRestarts : ℕ
  repairs : ℕ

inductive Waited where
  | stalled
  | cancelled
  | elapsed

inductive FetchCall where
  | isCancelled
  | request (received : ℕ) (etag : Option String)
  | body (answer : Answer) (copy : Copy)
  | place (size : ℕ) (memory : Bool)
  | write (id : ℕ) (data : List UInt8)
  | reset (id : ℕ)
  | drop (id : ℕ)
  | verify (id : ℕ)
  | wait

/-- What answers a call. A `reset` answers whether it worked, a `verify` nothing when cancelled. -/
def FetchCall.Reply : FetchCall → Type
  | .isCancelled => Bool
  | .request _ _ => Sent
  | .body _ _ => Body
  | .place _ _ => Except SpoolError Handle
  | .write _ _ => Except WriteError Unit
  | .reset _ => Bool
  | .drop _ => Unit
  | .verify _ => Option Verified
  | .wait => Waited

abbrev FetchProg (α : Type) := Prog FetchCall FetchCall.Reply α

def ask (asked : FetchCall) : FetchProg asked.Reply := Prog.ask asked

def isCancelled : FetchProg Bool := ask .isCancelled

def emptied (id : ℕ) : FetchProg Bool := ask (.reset id)

/-- How an attempt ends that does not complete the copy. -/
inductive Attempt where
  | transport (serverError : Bool)
  | restart
  | replaced
  | fail (error : FetchError)
  deriving DecidableEq

-- Headers

/-- The ETag exactly as sent, when it is a strong one. -/
def strongEtag (value : Option String) : Option String :=
  (value.map Text.trim).filter fun text =>
    !Text.startsWith text "W/"
      && (2 ≤ text.toUTF8.size && text.toList.head? = some '"' && text.toList.getLast? = some '"')

def parseU64 (text : String) : Option ℕ := parseUnsigned (2 ^ 64) (Text.trim text).toList

/-- The total of a `Content-Range`: nothing, a star or a number. -/
def rangeTotal (text : String) : Option (Option ℕ) :=
  let text := Text.trim text
  if text = "" ∨ text = "*" then some none else (parseUnsigned (2 ^ 64) text.toList).map some

/-- `bytes START-END/TOTAL`. -/
def contentRange (value : Option String) : Option (ℕ × ℕ × Option ℕ) := do
  let rest ← Text.stripPrefix (← value) "bytes "
  let (span, total) := (Text.splitOnce rest '/').getD (rest, "")
  let (first, last) ← Text.splitOnce span '-'
  let total ← rangeTotal total
  some (← parseU64 first, ← parseU64 last, total)

def Answer.length (answer : Answer) : Option ℕ := answer.contentLength.bind parseU64

-- One request

def Download.fault (download : Download) (kind : String) (copy : Copy) : FetchError :=
  .fault ⟨kind, none, copy.received, copy.total, download.requests⟩

/-- A fault of the answer itself. -/
def Answer.fault (answer : Answer) (download : Download) (kind : String) : FetchError :=
  .fault ⟨kind, some answer.status, 0, none, download.requests⟩

def localFault : FetchError := .fault ⟨"local", none, 0, none, 0⟩

/-- Counts one restart, and gives the claim back past the last. -/
def Download.restart (download : Download) (maxRestarts : ℕ) (noRange : Bool) (copy : Copy)
    : Except FetchError Download :=
  let counted := {
    download with
    restarts := download.restarts + 1
    noRangeRestarts := download.noRangeRestarts + if noRange then 1 else 0
  }
  if maxRestarts < counted.restarts then
    if counted.noRangeRestarts = counted.restarts then .error (counted.fault "no_range" copy)
    else .error (counted.fault "changed" copy)
  else .ok counted

/-- An answer that is not read any further. -/
def Answer.refused (answer : Answer) (download : Download) : Option Attempt :=
  if answer.accelRedirect then some (.fail (answer.fault download "mismatch"))
  else if answer.status ∈ [401, 403, 407] then some (.fail (.lostLibrary answer.status))
  else if answer.status ∈ [404, 410] then some (.fail (answer.fault download "missing"))
  else if answer.status ∈ [412, 416] then some .restart
  else if answer.status ∈ [408, 429] ∨ 500 ≤ answer.status then
    some (.transport (500 ≤ answer.status && !(502 ≤ answer.status && answer.status ≤ 504)))
  else if answer.status ≠ 200 ∧ answer.status ≠ 206 then
    some (.fail (answer.fault download "rejected"))
  else none

/-- Two values that are both there and differ. -/
def differs {α : Type} [DecidableEq α] (first second : Option α) : Bool :=
  first.any fun first => second.any fun second => first ≠ second

/-- The total that a partial answer leaves the copy with, unless the copy starts over. -/
def partialTotal (copy : Copy) (answer : Answer) : Except Attempt (Option ℕ) :=
  match contentRange answer.contentRange with
  | none => .error .restart
  | some (start, _, total) =>
      if copy.received = 0 then .error .restart
      else if start ≠ copy.received ∨ differs total copy.total ∨ differs (strongEtag answer.etag) copy.etag
      then .error .restart
      else .ok (total.or copy.total)

/-- `Copy::reset`; without a placement there is nothing to empty. -/
def resetCopy (copy : Copy) : FetchProg (Except FetchError Copy) :=
  match copy.placement with
  | none => pure (.ok { copy with received := 0, crc := [] })
  | some placement => do
      if ← emptied placement.id then pure (.ok { copy with received := 0, crc := [] })
      else do
        ask (.drop placement.id)
        pure (.error localFault)

def dropCopy (copy : Copy) : FetchProg Unit :=
  match copy.placement with
  | none => pure ()
  | some placement => ask (.drop placement.id)

/-- The error of a placement that the spool did not give. -/
def SpoolError.fault (error : SpoolError) (download : Download) (copy : Copy) : FetchError :=
  match error with
  | .noRoom => download.fault "no_room" copy
  | .io => download.fault "local" copy

/-- `flush`: the buffer into the copy's placement. -/
def flush (download : Download) (copy : Copy) (data : List UInt8)
    : FetchProg (Except Attempt Unit × Copy) :=
  if data = [] then pure (.ok (), copy)
  else
    match copy.placement with
    | none => pure (.error (.fail localFault), copy)
    | some placement => do
        match ← ask (.write placement.id data) with
        | .ok _ =>
            pure (.ok (), {
              copy with
              crc := copy.crc ++ data
              received := copy.received + data.length
            })
        | .error .full =>
            ask (.drop placement.id)
            let taken := { copy with placement := none }
            if placement.kind = .memory then
              match ← ask (.place placement.size false) with
              | .error error => pure (.error (.fail (error.fault download taken)), taken)
              | .ok moved =>
                  pure (.error .replaced, {
                    copy with
                    placement := some moved
                    received := 0
                    crc := []
                  })
            else pure (.error (.fail (download.fault "no_room" taken)), taken)
        | .error .io =>
            ask (.drop placement.id)
            let taken := { copy with placement := none }
            pure (.error (.fail (download.fault "local" taken)), taken)

def mib : ℕ := 2 ^ 20

/-- The end of a body, with the buffer flushed unless the fetch is cancelled. -/
def endBody (download : Download) (copy : Copy) (ending : Ending) (buffer : List UInt8)
    : FetchProg (Except Attempt Unit × Copy) :=
  match ending with
  | .cancelled => pure (.error (.fail .cancelled), copy)
  | .clean => flush download copy buffer
  | .timedOut => do
      match ← flush download copy buffer with
      | (.error error, copy) => pure (.error error, copy)
      | (.ok _, copy) => pure (.error (.transport false), copy)
  | .failed => do
      match ← flush download copy buffer with
      | (.error error, copy) => pure (.error error, copy)
      | (.ok _, copy) =>
          if ← isCancelled then pure (.error (.fail .cancelled), copy)
          else pure (.error (.transport false), copy)

/-- `read_body`: the pieces go into a buffer of a mebibyte, and from there into the copy. -/
def readBody (download : Download) (ending : Ending)
    : List (List UInt8) → Copy → List UInt8 → FetchProg (Except Attempt Unit × Copy)
  | [], copy, buffer => endBody download copy ending buffer
  | chunk :: rest, copy, buffer =>
      if mib ≤ (buffer ++ chunk).length then do
        match ← flush download copy (buffer ++ chunk) with
        | (.error error, copy) => pure (.error error, copy)
        | (.ok _, copy) => readBody download ending rest copy []
      else readBody download ending rest copy (buffer ++ chunk)

/-- A copy whose body has ended is complete if it has all that was promised. -/
def complete (expected : Option ℕ) (copy : Copy) : Except Attempt Unit × Copy :=
  match expected with
  | none => (.ok (), { copy with total := some copy.received })
  | some expected =>
      if copy.received = expected then (.ok (), { copy with total := some copy.received })
      else if expected < copy.received then (.error .restart, copy)
      else (.error (.transport false), copy)

/-- The placement and the body, once the answer's headers are in order. -/
def takeBody (size : Option ℕ) (download : Download) (answer : Answer) (expected : Option ℕ)
    (copy : Copy)
    : FetchProg (Except Attempt Unit × Copy) := do
  let placed ← match copy.placement with
    | some _ => pure (.ok copy)
    | none => do
        match ← ask (.place ((expected.or size).getD 0) (expected.or size).isSome) with
        | .error error => pure (.error (error.fault download copy))
        | .ok placement => pure (Except.ok { copy with placement := some placement })
  match placed with
  | .error error => pure (.error (.fail error), copy)
  | .ok copy => do
      let body ← ask (.body answer copy)
      match ← readBody download body.ending body.chunks copy [] with
      | (.error error, copy) => pure (.error error, copy)
      | (.ok _, copy) => pure (complete expected copy)

/-- The size that the claim came with is not the answer's. -/
def takeAnswer (size : Option ℕ) (download : Download) (answer : Answer) (expected : Option ℕ)
    (copy : Copy)
    : FetchProg (Except Attempt Unit × Copy) :=
  if differs size expected then
    pure (.error (.fail (.fault
      ⟨"mismatch", some answer.status, 0, expected, download.requests⟩)), copy)
  else takeBody size download answer expected copy

/-- A whole answer's total; a placement of another size is given back. -/
def takeWhole (size : Option ℕ) (download : Download) (answer : Answer) (copy : Copy)
    : FetchProg (Except Attempt Unit × Copy) := do
  let total := answer.length.or size
  let copy ← match copy.placement with
    | none => pure copy
    | some placement =>
        if differs (some placement.size) total then do
          ask (.drop placement.id)
          pure { copy with placement := none }
        else pure copy
  takeAnswer size download answer total { copy with total, etag := strongEtag answer.etag }

/-- `attempt`: one request, read to its end. -/
def attempt (maxRestarts : ℕ) (size : Option ℕ) (copy : Copy) (download : Download)
    : FetchProg (Except Attempt Unit × Copy × Download) := do
  let download := { download with requests := download.requests + 1 }
  match ← ask (.request copy.received copy.etag) with
  | .cancelled => pure (.error (.fail .cancelled), copy, download)
  | .timedOut => pure (.error (.transport false), copy, download)
  | .failed =>
      if ← isCancelled then pure (.error (.fail .cancelled), copy, download)
      else pure (.error (.transport false), copy, download)
  | .answered answer =>
      match answer.refused download with
      | some error => pure (.error error, copy, download)
      | none =>
          if answer.status = 206 then
            match partialTotal copy answer with
            | .error error => pure (.error error, copy, download)
            | .ok expected =>
                let (result, copy) ← takeAnswer size download answer expected copy
                pure (result, copy, download)
          else if copy.received = 0 then do
            let (result, copy) ← takeWhole size download answer copy
            pure (result, copy, download)
          else
            let changed := differs (strongEtag answer.etag) copy.etag
            match download.restart maxRestarts (!changed) copy with
            | .error error => pure (.error (.fail error), copy, download)
            | .ok download => do
                match ← resetCopy copy with
                | .error error =>
                    pure (.error (.fail error), { copy with placement := none }, download)
                | .ok copy =>
                    let (result, copy) ← takeWhole size download answer copy
                    pure (result, copy, download)

-- Copies and the fetch

/-- `download`, for so many turns of its loop: one full copy, across as many requests as it takes. -/
def downloadCopy (maxRestarts : ℕ) (size : Option ℕ)
    : ℕ → Copy → ℕ → Download → FetchProg (Option (Except FetchError Copy) × Download)
  | 0, _, _, download => pure (none, download)
  | fuel + 1, copy, serverErrors, download => do
      if ← isCancelled then
        dropCopy copy
        pure (some (.error .cancelled), download)
      else
        let (result, copy, download) ← attempt maxRestarts size copy download
        match result with
        | .ok _ => pure (some (.ok copy), download)
        | .error .replaced => downloadCopy maxRestarts size fuel copy serverErrors download
        | .error .restart =>
            match download.restart maxRestarts false copy with
            | .error error => do
                dropCopy copy
                pure (some (.error error), download)
            | .ok download => do
                match ← resetCopy copy with
                | .error error => pure (some (.error error), download)
                | .ok copy =>
                    downloadCopy maxRestarts size fuel { copy with etag := none, total := none }
                      serverErrors download
        | .error (.fail error) => do
            dropCopy copy
            pure (some (.error error), download)
        | .error (.transport serverError) =>
            let serverErrors := if serverError then serverErrors + 1 else 0
            if 2 ≤ serverErrors then do
              dropCopy copy
              pure (some (.error (.fault
                ⟨"stalled", some 500, copy.received, copy.total, download.requests⟩)), download)
            else
              match ← ask .wait with
              | .stalled => do
                  dropCopy copy
                  pure (some (.error (download.fault "stalled" copy)), download)
              | .cancelled => do
                  dropCopy copy
                  pure (some (.error .cancelled), download)
              | .elapsed => downloadCopy maxRestarts size fuel copy serverErrors download

/-- A verified archive, or one proven damaged at the library. -/
structure FetchedArchive where
  placement : Handle
  size : ℕ
  crc32 : UInt32
  requests : ℕ
  restarts : ℕ
  repairs : ℕ
  members : ℕ
  damaged : List String
  structural : Option String
  verdict : Option String

def held (crc32 : List UInt8 → UInt32) (copy : Copy) (download : Download) (verified : Verified)
    (verdict : Option String)
    : Except FetchError FetchedArchive :=
  match copy.placement with
  | none => .error localFault
  | some placement => .ok {
      placement
      size := copy.received
      crc32 := crc32 copy.crc
      requests := download.requests
      restarts := download.restarts
      repairs := download.repairs
      members := verified.members
      damaged := if verdict.isSome then verified.damaged else []
      structural := if verdict.isSome then verified.structural else none
      verdict
    }

def verifyCopy (copy : Copy) : FetchProg (Except FetchError Verified) :=
  match copy.placement with
  | none => pure (.error localFault)
  | some placement => do
      match ← ask (.verify placement.id) with
      | none => pure (.error .cancelled)
      | some verified => pure (.ok verified)

/-- The loop of `fetch` over copies that fail their check, for so many turns. -/
def diagnose (crc32 : List UInt8 → UInt32) (maxRestarts : ℕ) (size : Option ℕ) (patience : ℕ)
    : ℕ → Copy → Verified → Download → FetchProg (Option (Except FetchError FetchedArchive))
  | 0, _, _, _ => pure none
  | fuel + 1, copy, verified, download => do
      if verified.ok then pure (some (held crc32 copy download verified none))
      else
        match ← downloadCopy maxRestarts size patience .empty 0 download with
        | (none, _) => pure none
        | (some (.error error), _) => do
            dropCopy copy
            pure (some (.error error))
        | (some (.ok second), download) =>
            if second.etag ≠ copy.etag ∨ second.total ≠ copy.total then do
              dropCopy copy
              match download.restart maxRestarts false second with
              | .error error => do
                  dropCopy second
                  pure (some (.error error))
              | .ok download =>
                  match ← verifyCopy second with
                  | .error error => do
                      dropCopy second
                      pure (some (.error error))
                  | .ok verified =>
                      diagnose crc32 maxRestarts size patience fuel second verified download
            else
              match ← verifyCopy second with
              | .error error => do
                  dropCopy second
                  dropCopy copy
                  pure (some (.error error))
              | .ok again =>
                  if again.ok then do
                    dropCopy copy
                    pure (some (held crc32 second
                      { download with repairs := download.repairs + 1 } again none))
                  else if second.received = copy.received ∧ crc32 second.crc = crc32 copy.crc then do
                    dropCopy second
                    pure (some (held crc32 copy download verified (some "damaged at the library")))
                  else do
                    dropCopy second
                    dropCopy copy
                    pure (some (.error (.fault
                      ⟨"differs", none, second.received, second.total, download.requests⟩)))

/-- `fetch`, for so many requests of each copy and so many copies. -/
def fetch (crc32 : List UInt8 → UInt32) (maxRestarts : ℕ) (size : Option ℕ) (patience : ℕ)
    : FetchProg (Option (Except FetchError FetchedArchive)) := do
  match ← downloadCopy maxRestarts size patience .empty 0 ⟨0, 0, 0, 0⟩ with
  | (none, _) => pure none
  | (some (.error error), _) => pure (some (.error error))
  | (some (.ok copy), download) =>
      match ← verifyCopy copy with
      | .error error => do
          dropCopy copy
          pure (some (.error error))
      | .ok verified =>
          diagnose crc32 maxRestarts size patience patience copy verified download

end MokuroBunko.Processor
