import MokuroBunko.Sched.Failures

/-! Counting state machines of the remote path: the download breaker of a machine, the
counted returns of a job, and the backoff of a runner that will not start.
-/

namespace MokuroBunko.Sched

/-- Returned claims in a row that open a processor's breaker. -/
def DOWNLOAD_BREAKER_RETURNS : ℕ := 3
def DOWNLOAD_BREAKER_HOLD : ℚ := 600
def DOWNLOAD_BREAKER_MAX_HOLD : ℚ := 3600

/-- Counted returns of one job that record it as failed. -/
def DOWNLOAD_RETURN_LIMIT : ℕ := 3
def RETURN_CLASS_CHANGED : String := "changed"
def RETURN_CLASS_NO_ROOM : String := "no_room"

/-- `truncate_chars`. -/
def truncateChars (text : String) (limit : ℕ) : String :=
  String.ofList (text.toList.take limit)

/-- `DownloadBreaker`: one registration's run of archive downloads it gave back. -/
structure DownloadBreaker where
  consecutive : ℕ := 0
  /-- Whether this registration has delivered an archive at all. -/
  proven : Bool := false
  hold : ℚ := DOWNLOAD_BREAKER_HOLD
  openUntil : ℚ := 0
  lastError : String := ""
deriving DecidableEq

/-- `BreakerOpened`. -/
structure BreakerOpened where
  hold : ℚ
  until_ : ℚ
  lastError : String
  consecutive : ℕ

/-- `ReturnNoted`: whether the job counts too, and the hold the return opened. -/
structure ReturnNoted where
  jobCounted : Bool
  opened : Option BreakerOpened

namespace DownloadBreaker

/-- `is_open`. -/
def isOpen (breaker : DownloadBreaker) (now : ℚ) : Bool := now < breaker.openUntil

/-- `note_return`: the third return in a row opens the breaker, the next hold doubles. -/
def noteReturn (breaker : DownloadBreaker) (klass error : String) (now : ℚ)
    : DownloadBreaker × ReturnNoted :=
  let jobCounted := breaker.proven && breaker.consecutive == 0
  if klass = RETURN_CLASS_CHANGED then (breaker, ⟨jobCounted, none⟩)
  else
    let counted := { breaker with
      consecutive := breaker.consecutive + 1
      lastError := truncateChars (klass ++ ": " ++ error) 300
    }
    if DOWNLOAD_BREAKER_RETURNS ≤ counted.consecutive ∧ !counted.isOpen now then
      let opened := { counted with
        openUntil := now + counted.hold
        hold := min (counted.hold * 2) DOWNLOAD_BREAKER_MAX_HOLD
      }
      (opened, ⟨jobCounted, some {
        hold := counted.hold
        until_ := opened.openUntil
        lastError := opened.lastError
        consecutive := opened.consecutive
      }⟩)
    else (counted, ⟨jobCounted, none⟩)

/-- `note_delivered`: the path works. Whether the breaker had been opened. -/
def noteDelivered (breaker : DownloadBreaker) : DownloadBreaker × Bool :=
  ({ proven := true }, 0 < breaker.openUntil)

end DownloadBreaker

/-- `JobReturns`: a job's counted download returns, across scans. -/
structure JobReturns where
  count : ℕ := 0
  machines : List String := []
  klass : String := ""
  error : String := ""
  machine : String := ""
  noted : ℚ := 0
  /-- The archive when counted. -/
  stamp : Option (ℕ × ℤ) := none

namespace JobReturns

/-- `JobReturns::note`: a different file under the same name starts the count again. -/
def note (existing : Option JobReturns) (stamp : Option (ℕ × ℤ))
    (klass error machine : String) (counted : Bool) (now : ℚ) : JobReturns :=
  let returns :=
    match existing with
    | some known => if stamp = none ∨ known.stamp = stamp then known else { stamp := stamp }
    | none => { stamp := stamp }
  let returns :=
    if counted then
      { returns with count := returns.count + 1, machines := returns.machines ++ [machine] }
    else returns
  { returns with klass := klass, error := error, machine := machine, noted := now }

/-- `failure_summary`. -/
def failureSummary (returns : JobReturns) (klass error : String) : String :=
  "download failed on " ++ toString returns.count ++ " tries ("
    ++ String.intercalate ", " returns.machines ++ "): " ++ klass ++ ": " ++ error

end JobReturns

/-- `return_counts_for_job`. -/
def returnCountsForJob (jobCounted : Bool) (klass : String) : Bool :=
  jobCounted && klass ≠ RETURN_CLASS_NO_ROOM

/-- `StartBackoff`: a row whose runner keeps failing to start on one machine. -/
structure StartBackoff where
  failures : ℕ
  until_ : ℚ
  error : String
  /-- The row as that machine would run it. -/
  signature : String
  name : String
deriving DecidableEq

/-- `StartBackoff::note_failure`: count on while the signature stays. -/
def StartBackoff.noteFailure (previous : Option StartBackoff) (signature error name : String)
    (pollInterval now : ℚ) : StartBackoff :=
  let failures :=
    match previous with
    | some known => if known.signature = signature then known.failures + 1 else 1
    | none => 1
  {
    failures := failures
    until_ := now + retryDelaySeconds pollInterval failures
    error := truncateChars error 300
    signature := signature
    name := name
  }

/-- `BackoffState`. -/
inductive BackoffState where
  /-- The row as that machine runs it changed: drop the entry, try now. -/
  | void
  | waiting
  | expired
deriving DecidableEq

/-- `backoff_state`. -/
def backoffState (backoff : StartBackoff) (signature : String) (now : ℚ) : BackoffState :=
  if signature ≠ backoff.signature then .void
  else if now < backoff.until_ then .waiting
  else .expired

end MokuroBunko.Sched
