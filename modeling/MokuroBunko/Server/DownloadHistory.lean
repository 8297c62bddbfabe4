import MokuroBunko.Server.Events

/-! What deliveries and returned downloads do over a whole history: to the breaker of each
registration and to the counted returns of each job.
-/

namespace MokuroBunko.Server

open MokuroBunko.Lib MokuroBunko.Data MokuroBunko.Sched

-- Events and their log

/-- An archive arrives at a processor, or a claim comes back from it. -/
inductive DownloadEvent where
  | delivered (pid : Pid) (job : Job)
  | returned (job : Job) (context : ReturnContext) (now : ℚ)

/-- What the event did: the hold it opened, whether it counted for the job, and the failure
it recorded. -/
structure DownloadNote where
  opened : Option BreakerOpened := none
  counted : Bool := false
  failed : Option String := none

/-- The part of the scheduler's books that downloads move. -/
structure Downloads where
  breaker : Pid → DownloadBreaker
  returns : Job → Option JobReturns

/-- `breakers` and `download_returns`. -/
def Scheduler.downloads (s : Scheduler) : Downloads where
  breaker pid := (s.breakers.get? pid).getD {}
  returns := s.downloadReturns.get?

namespace Downloads

/-- The books of `count_return` and `_download_delivered`, and what they note. -/
def step (downloads : Downloads) : DownloadEvent → Downloads × DownloadNote
  | .delivered pid job =>
      ({
        breaker := Function.update downloads.breaker pid
          (downloads.breaker pid).noteDelivered.1
        returns := Function.update downloads.returns job none
      }, {})
  | .returned job context now =>
      let (breaker, noted) := (downloads.breaker context.pid).noteReturn context.klass
        context.error now
      let counted := returnCountsForJob noted.jobCounted context.klass
      let returns := JobReturns.note (downloads.returns job) context.stamp context.klass
        context.error context.machine counted now
      let failed := counted ∧ DOWNLOAD_RETURN_LIMIT ≤ returns.count
      ({
        breaker := Function.update downloads.breaker context.pid breaker
        returns := Function.update downloads.returns job (if failed then none else some returns)
      }, {
        opened := noted.opened
        counted
        failed := if failed then some (returns.failureSummary context.klass context.error)
          else none
      })

/-- An event with what it did. -/
abbrev Entry := DownloadEvent × DownloadNote

/-- The books after the events, from fresh ones, and the log of what each event did. -/
def history (events : List DownloadEvent) : Downloads × List Entry :=
  events.foldl
    (fun past event =>
      let (next, note) := past.1.step event
      (next, past.2 ++ [(event, note)]))
    (⟨fun _ => {}, fun _ => none⟩, [])

/-- What the event does after the past ones. -/
def noted (past : List DownloadEvent) (event : DownloadEvent) : DownloadNote :=
  ((history past).1.step event).2

theorem history_concat (past : List DownloadEvent) (event : DownloadEvent)
    : history (past ++ [event])
      = (((history past).1.step event).1, (history past).2 ++ [(event, noted past event)]) := by
  rw [history, List.foldl_append]
  rfl

end Downloads

-- The scheduler's own steps

namespace Scheduler

variable (s : Scheduler) (env : Env)

theorem downloads_finish {job : Job} (erased : s.downloadReturns.get? job = none)
    (error : String)
    : (s.finish env job (some error)).downloads = s.downloads := by
  unfold finish
  split
  case h_1 => rfl
  case h_2 claim _ =>
    have recorded : ∀ (settled : Scheduler) (unblamed : Bool),
        (settled.recordOutcome env claim job unblamed (some error)).downloads
          = settled.downloads := by
      intro settled unblamed
      unfold recordOutcome
      dsimp only
      split
      · rfl
      · split <;> rfl
    refine (recorded _ _).trans ?_
    unfold downloads
    simp only [Downloads.mk.injEq, true_and]
    funext asked
    split
    · rfl
    · rw [OrderedMap.get?_erase]
      split
      case isTrue same => rw [same, erased]
      case isFalse => rfl

theorem downloads_release (job : Job) (retryThisScan : Bool)
    : (s.release job retryThisScan).downloads = s.downloads := by
  unfold release
  split <;> rfl

theorem downloads_enter (pid : Pid) (breaker : DownloadBreaker) (job : Job)
    {returns : OrderedMap Job JobReturns} {noted : Option JobReturns}
    (entered : ∀ asked,
      returns.get? asked = if asked = job then noted else s.downloadReturns.get? asked)
    : ({ s with
        breakers := s.breakers.insert pid breaker
        downloadReturns := returns
      } : Scheduler).downloads
      = {
        breaker := Function.update s.downloads.breaker pid breaker
        returns := Function.update s.downloads.returns job noted
      } := by
  unfold downloads
  rw [Downloads.mk.injEq]
  constructor
  · funext asked
    rw [OrderedMap.get?_insert, Function.update_apply]
    split <;> rfl
  · funext asked
    rw [entered, Function.update_apply]

theorem downloads_countReturn (job : Job) (context : ReturnContext)
    : (s.countReturn env job context).downloads
      = (s.downloads.step (.returned job context env.now)).1 := by
  have bumped : ∀ (opened : Bool) (broken : Scheduler),
      (if opened then broken.bump else broken).downloads = broken.downloads
        ∧ (if opened then broken.bump else broken).downloadReturns = broken.downloadReturns := by
    intro opened broken
    cases opened <;> exact ⟨rfl, rfl⟩
  have held : s.downloads.breaker context.pid = (s.breakers.get? context.pid).getD {} := rfl
  have returned : s.downloads.returns job = s.downloadReturns.get? job := rfl
  unfold countReturn Downloads.step
  dsimp only
  rw [held, returned]
  generalize ((s.breakers.get? context.pid).getD {}).noteReturn context.klass context.error
    env.now = noting
  obtain ⟨breaker, noted⟩ := noting
  dsimp only
  generalize JobReturns.note (s.downloadReturns.get? job) context.stamp context.klass
    context.error context.machine (returnCountsForJob noted.jobCounted context.klass) env.now
    = returns
  split
  case isTrue failed =>
    rw [downloads_finish, (bumped _ _).1]
    · refine s.downloads_enter context.pid breaker job ?_
      intro asked
      rw [OrderedMap.get?_erase]
    · rw [(bumped _ _).2, OrderedMap.get?_erase, if_pos rfl]
  case isFalse =>
    have entered : ∀ asked, ((s.downloadReturns.erase job).insert job returns).get? asked
        = if asked = job then some returns else s.downloadReturns.get? asked := by
      intro asked
      rw [OrderedMap.get?_insert, OrderedMap.get?_erase]
      split <;> rfl
    rw [downloads_release]
    refine Eq.trans ?_ (s.downloads_enter context.pid breaker job entered)
    cases noted.opened.isSome <;> rfl

theorem downloads_downloadDelivered (pid : Pid) (job : Job)
    : (s.downloadDelivered env pid job).downloads
      = (s.downloads.step (.delivered pid job)).1 := by
  have entered := s.downloads_enter pid ((s.breakers.get? pid).getD {}).noteDelivered.1 job
    (fun asked => s.downloadReturns.get?_erase job asked)
  unfold downloadDelivered
  dsimp only
  refine Eq.trans ?_ entered
  split <;> rfl

/-- The scheduler's part of an event, at its time. -/
def download (s : Scheduler) : Env × DownloadEvent → Scheduler
  | (env, .delivered pid job) => s.downloadDelivered env pid job
  | (env, .returned job context now) => s.countReturn { env with now } job context

end Scheduler

-- What the log says

namespace DownloadEvent

/-- The registration delivers. -/
def deliversAt (pid : Pid) : DownloadEvent → Bool
  | .delivered other _ => other = pid
  | .returned .. => false

/-- The job's archive arrives somewhere. -/
def delivers (job : Job) : DownloadEvent → Bool
  | .delivered _ other => other = job
  | .returned .. => false

/-- A return that counts against the registration. -/
def failsAt (pid : Pid) : DownloadEvent → Bool
  | .delivered .. => false
  | .returned _ context _ => context.pid = pid && context.klass ≠ RETURN_CLASS_CHANGED

/-- The stamp read when the job came back, if it did. -/
def stampRead (job : Job) : DownloadEvent → Option (Option Stamp)
  | .delivered .. => none
  | .returned other context _ => if other = job then some context.stamp else none

/-- The registration the job came back from. -/
def returnsAt (pid : Pid) : DownloadEvent → Bool
  | .delivered .. => false
  | .returned _ context _ => context.pid = pid

end DownloadEvent

namespace Downloads

/-- What the log holds since the registration last delivered. -/
def recent (pid : Pid) (log : List Entry) : List Entry :=
  log.rtakeWhile (fun entry => !entry.1.deliversAt pid)

/-- The returns that count against the registration. -/
def failures (pid : Pid) (log : List Entry) : ℕ := log.countP (fun entry => entry.1.failsAt pid)

/-- The holds opened for the registration. -/
def openings (pid : Pid) (log : List Entry) : List BreakerOpened :=
  log.filterMap (fun entry => if entry.1.returnsAt pid then entry.2.opened else none)

/-- How long the hold lasts that opens after so many others. -/
def holdAfter (openings : ℕ) : ℚ :=
  min (DOWNLOAD_BREAKER_HOLD * 2 ^ openings) DOWNLOAD_BREAKER_MAX_HOLD

/-- The log ends with at least three counted returns of the job, its archive delivered to
nobody in between, and every stamp read there agrees with one. -/
def ThriceReturned (agrees : Option Stamp → Option Stamp → Prop) (job : Job)
    (log : List Entry) : Prop :=
  ∃ apart since stamp, log = apart ++ since
    ∧ (∀ entry ∈ since, entry.1.delivers job = false)
    ∧ (∀ entry ∈ since, ∀ read, entry.1.stampRead job = some read → agrees stamp read)
    ∧ DOWNLOAD_RETURN_LIMIT
      ≤ since.countP (fun entry => (entry.1.stampRead job).isSome && entry.2.counted)

/-- What could be read is the one stamp. -/
def SameWhereRead (stamp read : Option Stamp) : Prop := read = none ∨ read = stamp

-- The breaker along the log

/-- The breaker keeps what happened since the last delivery. -/
structure Keeps (breaker : DownloadBreaker) (pid : Pid) (since : List Entry) : Prop where
  consecutive : breaker.consecutive = failures pid since
  hold : breaker.hold = holdAfter (openings pid since).length
  lasting : ∀ opened ∈ openings pid since, opened.until_ ≤ breaker.openUntil

theorem keeps_fresh (pid : Pid) (proven : Bool) : Keeps { proven } pid [] where
  consecutive := rfl
  hold := by norm_num [openings, holdAfter, DOWNLOAD_BREAKER_HOLD, DOWNLOAD_BREAKER_MAX_HOLD]
  lasting := by simp [openings]

theorem holdAfter_succ (openings : ℕ)
    : holdAfter (openings + 1) = min (holdAfter openings * 2) DOWNLOAD_BREAKER_MAX_HOLD := by
  unfold holdAfter DOWNLOAD_BREAKER_HOLD DOWNLOAD_BREAKER_MAX_HOLD
  rw [pow_succ, ← mul_assoc]
  rcases le_total ((600 : ℚ) * 2 ^ openings) 3600 with small | large
  · rw [min_eq_left small]
  · have larger : (3600 : ℚ) ≤ 600 * 2 ^ openings * 2 := by linarith
    rw [min_eq_right large, min_eq_right larger]
    norm_num

theorem failures_concat (pid : Pid) (log : List Entry) (entry : Entry)
    : failures pid (log ++ [entry])
      = failures pid log + if entry.1.failsAt pid then 1 else 0 := by
  rw [failures, List.countP_append, List.countP_singleton]
  rfl

theorem openings_concat (pid : Pid) (log : List Entry) (entry : Entry)
    : openings pid (log ++ [entry])
      = openings pid log
        ++ (if entry.1.returnsAt pid then entry.2.opened else none).toList := by
  rw [openings, List.filterMap_append]
  congr 1

theorem Keeps.other {breaker : DownloadBreaker} {pid : Pid} {since : List Entry}
    (keeps : Keeps breaker pid since) {entry : Entry} (apart : entry.1.returnsAt pid = false)
    (harmless : entry.1.failsAt pid = false)
    : Keeps breaker pid (since ++ [entry]) where
  consecutive := by
    rw [failures_concat, harmless]
    exact keeps.consecutive
  hold := by
    rw [openings_concat, apart]
    simpa using keeps.hold
  lasting := by
    rw [openings_concat, apart]
    simpa using keeps.lasting

theorem holdAfter_nonneg (openings : ℕ) : 0 ≤ holdAfter openings := by
  unfold holdAfter DOWNLOAD_BREAKER_HOLD DOWNLOAD_BREAKER_MAX_HOLD
  positivity

/-- What is said of an opening: enough returns brought it, no earlier hold was still
running, and it doubles with every opening. -/
structure OpensDuly (pid : Pid) (since : List Entry) (entry : Entry) (now : ℚ)
    (opened : BreakerOpened) : Prop where
  enough : DOWNLOAD_BREAKER_RETURNS ≤ failures pid (since ++ [entry])
  closed : ∀ earlier ∈ openings pid since, earlier.until_ ≤ now
  hold : opened.hold = holdAfter (openings pid since).length
  until_ : opened.until_ = now + opened.hold

/-- The registration's own return, by what `note_return` does with it. -/
theorem Keeps.returned {breaker : DownloadBreaker} {since : List Entry} {job : Job}
    {context : ReturnContext} {now : ℚ} {note : DownloadNote}
    (keeps : Keeps breaker context.pid since)
    (noted : note.opened = (breaker.noteReturn context.klass context.error now).2.opened)
    : Keeps (breaker.noteReturn context.klass context.error now).1 context.pid
        (since ++ [(.returned job context now, note)])
      ∧ ∀ opened, note.opened = some opened
        → OpensDuly context.pid since (.returned job context now, note) now opened := by
  have returns : (DownloadEvent.returned job context now).returnsAt context.pid = true := by
    simp [DownloadEvent.returnsAt]
  have opens := openings_concat context.pid since (.returned job context now, note)
  rw [returns, if_pos rfl] at opens
  unfold DownloadBreaker.noteReturn at noted ⊢
  dsimp only at noted opens ⊢
  by_cases changed : context.klass = RETURN_CLASS_CHANGED
  · have harmless : (DownloadEvent.returned job context now).failsAt context.pid = false := by
      simp [DownloadEvent.failsAt, changed]
    rw [if_pos changed] at noted ⊢
    rw [noted, Option.toList_none, List.append_nil] at opens
    refine ⟨⟨?_, ?_, ?_⟩, ?_⟩
    · rw [failures_concat, harmless]
      exact keeps.consecutive
    · rw [opens]
      exact keeps.hold
    · rw [opens]
      exact keeps.lasting
    · rw [noted]
      rintro _ ⟨⟩
  · have fails : (DownloadEvent.returned job context now).failsAt context.pid = true := by
      simp [DownloadEvent.failsAt, changed]
    have counted := failures_concat context.pid since (.returned job context now, note)
    rw [fails, if_pos rfl, ← keeps.consecutive] at counted
    rw [if_neg changed] at noted ⊢
    split at noted
    case isTrue opening =>
      rw [if_pos opening]
      obtain ⟨enough, closed⟩ := opening
      have reached : breaker.openUntil ≤ now := by
        simpa [DownloadBreaker.isOpen] using closed
      rw [noted, Option.toList_some] at opens
      refine ⟨⟨counted.symm, ?_, ?_⟩, ?_⟩
      · rw [opens, List.length_append, List.length_singleton, holdAfter_succ, ← keeps.hold]
      · rw [opens]
        have longer : now ≤ now + breaker.hold :=
          le_add_of_nonneg_right (keeps.hold ▸ holdAfter_nonneg _)
        intro earlier member
        rcases List.mem_append.mp member with before | last
        · exact ((keeps.lasting earlier before).trans reached).trans longer
        · rw [List.mem_singleton.mp last]
      · intro opened isOpened
        obtain rfl := Option.some.inj (noted.symm.trans isOpened)
        exact ⟨counted ▸ enough,
          fun earlier member => (keeps.lasting earlier member).trans reached, keeps.hold, rfl⟩
    case isFalse shut =>
      rw [if_neg shut]
      rw [noted, Option.toList_none, List.append_nil] at opens
      refine ⟨⟨counted.symm, ?_, ?_⟩, ?_⟩
      · rw [opens]
        exact keeps.hold
      · rw [opens]
        exact keeps.lasting
      · rw [noted]
        rintro _ ⟨⟩

theorem recent_concat (pid : Pid) (log : List Entry) (entry : Entry)
    : recent pid (log ++ [entry])
      = if entry.1.deliversAt pid then [] else recent pid log ++ [entry] := by
  rw [recent, List.rtakeWhile_concat]
  cases entry.1.deliversAt pid <;> rfl

theorem keeps_recent (past : List DownloadEvent) (pid : Pid)
    : Keeps ((history past).1.breaker pid) pid (recent pid (history past).2) := by
  induction past using List.reverseRecOn with
  | nil => exact keeps_fresh pid false
  | append_singleton past event ih =>
      rw [history_concat, recent_concat]
      cases event with
      | delivered other job =>
          dsimp only [step]
          by_cases same : other = pid
          · subst same
            simp only [DownloadEvent.deliversAt, decide_true, if_true, Function.update_self]
            exact keeps_fresh other true
          · rw [Function.update_of_ne (Ne.symm same)]
            simp only [DownloadEvent.deliversAt, same, decide_false, Bool.false_eq_true, if_false]
            exact ih.other rfl rfl
      | returned job context now =>
          dsimp only [step]
          simp only [DownloadEvent.deliversAt, Bool.false_eq_true, if_false]
          by_cases same : context.pid = pid
          · subst same
            rw [Function.update_self]
            exact (ih.returned rfl).1
          · rw [Function.update_of_ne (Ne.symm same)]
            exact ih.other (by simp [DownloadEvent.returnsAt, same])
              (by simp [DownloadEvent.failsAt, same])

-- The job along the log

/-- The entry is a counted return of the job. -/
def countsFor (job : Job) (entry : Entry) : Bool :=
  (entry.1.stampRead job).isSome && entry.2.counted

/-- The returns kept for a job count those since the last delivery, or the last change of
its archive, under the stamp first read. -/
def Counts (returns : JobReturns) (job : Job) (log : List Entry) : Prop :=
  ∃ apart since, log = apart ++ since
    ∧ (∀ entry ∈ since, entry.1.delivers job = false)
    ∧ (∀ entry ∈ since, ∀ read, entry.1.stampRead job = some read
        → SameWhereRead returns.stamp read)
    ∧ returns.count = since.countP (countsFor job)

theorem Counts.other {returns : JobReturns} {job : Job} {log : List Entry}
    (counts : Counts returns job log) {entry : Entry} (apart : entry.1.delivers job = false)
    (unread : entry.1.stampRead job = none)
    : Counts returns job (log ++ [entry]) := by
  obtain ⟨front, since, rfl, undelivered, same, count⟩ := counts
  refine ⟨front, since ++ [entry], List.append_assoc .., ?_, ?_, ?_⟩
  · intro other member
    rcases List.mem_append.mp member with before | last
    · exact undelivered other before
    · rw [List.mem_singleton.mp last]
      exact apart
  · intro other member read reads
    rcases List.mem_append.mp member with before | last
    · exact same other before read reads
    · rw [List.mem_singleton.mp last, unread] at reads
      cases reads
  · rw [List.countP_append, List.countP_singleton, countsFor, unread, count]
    rfl

theorem note_cases (existing : Option JobReturns) (stamp : Option Stamp)
    (klass error machine : String) (counted : Bool) (now : ℚ)
    : ∃ before : JobReturns,
        ((existing = some before ∧ SameWhereRead before.stamp stamp)
          ∨ (before.count = 0 ∧ before.stamp = stamp))
        ∧ (JobReturns.note existing stamp klass error machine counted now).stamp = before.stamp
        ∧ (JobReturns.note existing stamp klass error machine counted now).count
          = before.count + if counted then 1 else 0 := by
  have goesOn : ∀ before : JobReturns,
      (if counted then { before with
          count := before.count + 1
          machines := before.machines ++ [machine]
        } else before).stamp = before.stamp
        ∧ (if counted then { before with
          count := before.count + 1
          machines := before.machines ++ [machine]
        } else before).count = before.count + if counted then 1 else 0 := by
    intro before
    cases counted <;> exact ⟨rfl, rfl⟩
  cases existing with
  | none => exact ⟨{ stamp := stamp }, .inr ⟨rfl, rfl⟩, goesOn _⟩
  | some known =>
      by_cases same : stamp = none ∨ known.stamp = stamp
      · refine ⟨known, .inl ⟨rfl, same.imp_right Eq.symm⟩, ?_⟩
        unfold JobReturns.note
        dsimp only
        rw [if_pos same]
        exact goesOn known
      · refine ⟨{ stamp := stamp }, .inr ⟨rfl, rfl⟩, ?_⟩
        unfold JobReturns.note
        dsimp only
        rw [if_neg same]
        exact goesOn _

theorem Counts.returned {existing : Option JobReturns} {job : Job} {log : List Entry}
    (counts : ∀ known, existing = some known → Counts known job log) (context : ReturnContext)
    (now : ℚ) (note : DownloadNote)
    : Counts
        (JobReturns.note existing context.stamp context.klass context.error context.machine
          note.counted now)
        job (log ++ [(.returned job context now, note)]) := by
  have reads : (DownloadEvent.returned job context now).stampRead job = some context.stamp := by
    simp [DownloadEvent.stampRead]
  have here : [(DownloadEvent.returned job context now, note)].countP (countsFor job)
      = if note.counted then 1 else 0 := by
    rw [List.countP_singleton, countsFor, reads]
    rfl
  obtain ⟨before, goesOn, stamp, count⟩ := note_cases existing context.stamp context.klass
    context.error context.machine note.counted now
  rcases goesOn with ⟨kept, agrees⟩ | ⟨zero, first⟩
  · obtain ⟨apart, since, rfl, undelivered, same, counted⟩ := counts before kept
    refine
      ⟨apart, since ++ [(.returned job context now, note)], List.append_assoc .., ?_, ?_, ?_⟩
    · intro other member
      rcases List.mem_append.mp member with earlier | last
      · exact undelivered other earlier
      · rw [List.mem_singleton.mp last]
        rfl
    · intro other member read isRead
      rw [stamp]
      rcases List.mem_append.mp member with earlier | last
      · exact same other earlier read isRead
      · rw [List.mem_singleton.mp last, reads] at isRead
        exact Option.some.inj isRead ▸ agrees
    · rw [count, counted, List.countP_append, here]
  · refine ⟨log, [(.returned job context now, note)], rfl, ?_, ?_, ?_⟩
    · intro other member
      rw [List.mem_singleton.mp member]
      rfl
    · intro other member read isRead
      rw [List.mem_singleton.mp member, reads] at isRead
      exact .inr (by rw [stamp, first, Option.some.inj isRead])
    · rw [count, zero, here, Nat.zero_add]

theorem counts_kept (past : List DownloadEvent) (job : Job)
    : ∀ returns, (history past).1.returns job = some returns
      → Counts returns job (history past).2 := by
  induction past using List.reverseRecOn with
  | nil => rintro _ ⟨⟩
  | append_singleton past event ih =>
      intro returns kept
      rw [history_concat] at kept ⊢
      cases event with
      | delivered pid other =>
          dsimp only [step] at kept
          by_cases same : other = job
          · rw [same, Function.update_self] at kept
            cases kept
          · rw [Function.update_of_ne (Ne.symm same)] at kept
            exact (ih returns kept).other (by simp [DownloadEvent.delivers, same]) rfl
      | returned other context now =>
          dsimp only [step] at kept
          by_cases same : other = job
          · subst same
            rw [Function.update_self] at kept
            split at kept
            · cases kept
            · obtain rfl := Option.some.inj kept
              exact Counts.returned ih context now (noted past (.returned other context now))
          · rw [Function.update_of_ne (Ne.symm same)] at kept
            exact (ih returns kept).other rfl (by simp [DownloadEvent.stampRead, same])

-- Whole histories

/-- After any deliveries and returns: a return opens the breaker duly, and it records the job
as failed only as the last of three counted returns whose stamps agree where read. -/
theorem downloads_over_runs (past : List DownloadEvent) (job : Job) (context : ReturnContext)
    (now : ℚ)
    : (∀ opened, (noted past (.returned job context now)).opened = some opened
        → OpensDuly context.pid (recent context.pid (history past).2)
            (.returned job context now, noted past (.returned job context now)) now opened)
      ∧ ((noted past (.returned job context now)).failed.isSome = true
        → ThriceReturned SameWhereRead job
            (history (past ++ [.returned job context now])).2) := by
  constructor
  · exact ((keeps_recent past context.pid).returned rfl).2
  · intro failed
    obtain ⟨apart, since, parts, undelivered, same, counted⟩ :=
      Counts.returned (counts_kept past job) context now (noted past (.returned job context now))
    rw [history_concat]
    refine ⟨apart, since, _, parts, undelivered, same, ?_⟩
    unfold noted step at failed
    dsimp only at failed
    split at failed
    case isTrue enough => exact counted ▸ enough.2
    case isFalse => cases failed

/-- The job that comes back below, and another that its processor delivers. -/
def returnedVolume : Job := { rel := "S/V.cbz", gid := "g" }

def deliveredVolume : Job := { rel := "S/W.cbz", gid := "g" }

/-- The circumstances of its return. -/
def returnContext (stamp : Option Stamp) : ReturnContext where
  pid := .remote 0
  machine := "m"
  isLocal := false
  klass := "local"
  error := "no route"
  stamp := stamp

/-- The job comes back twice, each time from a processor that just delivered another, and
then the processor delivers once more: the archive can be read at the first return only. -/
def unreadableReturns : List DownloadEvent := [
  .delivered (.remote 0) deliveredVolume,
  .returned returnedVolume (returnContext (some (1, 1))) 1000,
  .delivered (.remote 0) deliveredVolume,
  .returned returnedVolume (returnContext none) 1000,
  .delivered (.remote 0) deliveredVolume
]

/-- A stamp that cannot be read keeps the count: the third return records the failure though
the stamps of the three are not the same. -/
theorem unreadable_stamp_keeps_count
    : ¬ ∀ past job context now,
        (noted past (.returned job context now)).failed.isSome = true
        → ThriceReturned (· = ·) job (history (past ++ [.returned job context now])).2 := by
  intro steady
  obtain ⟨apart, since, stamp, parts, _, same, enough⟩ :=
    steady unreadableReturns returnedVolume (returnContext none) 1000 (by decide +kernel)
  have three : (history (unreadableReturns
      ++ [.returned returnedVolume (returnContext none) 1000])).2.countP
        (countsFor returnedVolume) = 3 := by
    decide +kernel
  have within : ∀ entry ∈ (history (unreadableReturns
      ++ [.returned returnedVolume (returnContext none) 1000])).2,
      countsFor returnedVolume entry = true → entry ∈ since := by
    intro entry member counts
    rw [parts] at member three
    rcases List.mem_append.mp member with early | late
    · have one := List.countP_pos_iff.mpr ⟨entry, early, counts⟩
      rw [List.countP_append] at three
      have three' : 3 ≤ since.countP (countsFor returnedVolume) := enough
      omega
    · exact late
  have read : ∀ read : Option Stamp, (history (unreadableReturns
      ++ [.returned returnedVolume (returnContext none) 1000])).2.any (fun entry =>
        countsFor returnedVolume entry && entry.1.stampRead returnedVolume == some read) = true
      → stamp = read := by
    intro read found
    obtain ⟨entry, member, isIt⟩ := List.any_eq_true.mp found
    obtain ⟨counts, reads⟩ := Bool.and_eq_true_iff.mp isIt
    exact same entry (within entry member counts) read (beq_iff_eq.mp reads)
  have first := read (some (1, 1)) (by decide +kernel)
  have last := read none (by decide +kernel)
  rw [first] at last
  cases last

end Downloads

end MokuroBunko.Server
