import Mathlib.Data.Prod.Lex
import MokuroBunko.Db.AuditCursor
import MokuroBunko.Lib.Pages
import MokuroBunko.Lib.Text

/-! The paged reader of the audit log (`query_audit_events`): page after page each event is read once.
-/

namespace MokuroBunko.Db

open MokuroBunko.Lib MokuroBunko.Lib.Json

/-- An event as it is read; the details are a text. -/
structure AuditEvent where
  id : I64
  actorUsername : Option String
  action : String
  targetType : Option String
  targetPath : Option String
  targetUsername : Option String
  details : Option String
  createdAt : String
  deriving DecidableEq

/-- The rows of `audit_logs`, whose ids are a primary key. -/
structure AuditLog where
  rows : List AuditEvent
  unique : (rows.map AuditEvent.id).Nodup

structure AuditQuery where
  actor : Option String
  actions : List String
  targetTypes : List String
  since : Option String
  /-- The source's `until`. -/
  untilTime : Option String
  search : Option String
  includeProgress : Bool
  cursor : Option String
  limit : ℤ

structure AuditPage where
  events : List AuditEvent
  nextCursor : Option String
  total : Option ℕ

def auditPageMax : ℤ := 200

/-- `limit.clamp(1, AUDIT_PAGE_MAX)`. -/
def pageSize (limit : ℤ) : ℕ :=
  if limit < 1 then 1 else if auditPageMax < limit then auditPageMax.toNat else limit.toNat

theorem pageSize_pos (limit : ℤ) : 0 < pageSize limit := by
  rw [pageSize]
  split_ifs
  · decide
  · decide
  · omega

def auditProgressType : String := "progress"

-- Clauses

/-- A text pattern that finds the term anywhere. -/
def likePattern (term : List Char) : List Char :=
  '%' :: (term.flatMap fun char =>
    if char = '\\' ∨ char = '%' ∨ char = '_' then ['\\', char] else [char]) ++ ['%']

/-- `LIKE ? ESCAPE '\'`, which takes the letters of ASCII for the same in either case. -/
def like : List Char → List Char → Bool
  | [], text => text.isEmpty
  | ['\\'], _ => false
  | '\\' :: char :: pattern, text =>
      match text with
      | [] => false
      | first :: rest =>
          Text.asciiLowerChar char = Text.asciiLowerChar first && like pattern rest
  | '%' :: pattern, text => text.tails.any (like pattern)
  | '_' :: pattern, text =>
      match text with
      | [] => false
      | _ :: rest => like pattern rest
  | char :: pattern, text =>
      match text with
      | [] => false
      | first :: rest =>
          Text.asciiLowerChar char = Text.asciiLowerChar first && like pattern rest

/-- A column with nothing in it is like no pattern. -/
def columnLike (pattern : List Char) (column : Option String) : Bool :=
  column.any (like pattern ·.toList)

/-- The patterns of a term: as it is, and as details spell it if that is another text. -/
def searchPatterns (term : String) : List (List Char) :=
  let quoted := PyFmt.writeStr term true
  let asciiForm := (quoted.drop 1).dropLast
  likePattern term.toList :: if asciiForm ≠ term.toList then [likePattern asciiForm] else []

def searchClause (term : String) (event : AuditEvent) : Bool :=
  let patterns := searchPatterns term
  columnLike (likePattern term.toList) event.actorUsername
    || columnLike (likePattern term.toList) (some event.action)
    || columnLike (likePattern term.toList) event.targetPath
    || patterns.any (columnLike · event.details)

/-- `(created_at, id) < (?, ?)`. -/
def olderThan (createdAt : String) (id : I64) (event : AuditEvent) : Bool :=
  event.createdAt < createdAt || (event.createdAt = createdAt && event.id.1 < id.1)

/-- Texts that are empty are no filters. -/
def given (text : Option String) : Option String := text.filter (· ≠ "")

def actorClauses (actor : Option String) : List (AuditEvent → Bool) :=
  actor.toList.map fun actor event => event.actorUsername = some actor

def actionClauses (actions : List String) : List (AuditEvent → Bool) :=
  if actions ≠ [] then [fun event => event.action ∈ actions] else []

/-- Without a type asked for, reading progress is left out unless it is asked for. -/
def typeClauses (types : List String) (includeProgress : Bool) : List (AuditEvent → Bool) :=
  if types ≠ [] then [fun event => event.targetType.any (· ∈ types)]
  else if ¬ includeProgress then [fun event => event.targetType.all (· ≠ auditProgressType)]
  else []

def sinceClauses (since : Option String) : List (AuditEvent → Bool) :=
  since.toList.map fun since event => since ≤ event.createdAt

def untilClauses (untilTime : Option String) : List (AuditEvent → Bool) :=
  untilTime.toList.map fun untilTime event => event.createdAt < untilTime

section Query

-- How `audit_instant` reads a date under a name.
variable (auditInstant : String → String → Except AuditQueryError String)

/-- The clauses of the filters. -/
def clauses (q : AuditQuery) : Except AuditQueryError (List (AuditEvent → Bool)) := do
  let actions := q.actions.filter (· ≠ "")
  let types := q.targetTypes.filter (· ≠ "")
  let since ← (given q.since).mapM (auditInstant · "since")
  let untilTime ← (given q.untilTime).mapM (auditInstant · "until")
  let term := Text.strip (q.search.getD "")
  .ok (actorClauses (given q.actor) ++ actionClauses actions ++ typeClauses types q.includeProgress
    ++ sinceClauses since ++ untilClauses untilTime
    ++ if term ≠ "" then [searchClause term] else [])

/-- Whether the event is in every clause. -/
def meets (clauses : List (AuditEvent → Bool)) (event : AuditEvent) : Bool := clauses.all (· event)

/-- `ORDER BY created_at DESC, id DESC`. -/
def notOlder (first second : AuditEvent) : Bool :=
  second.createdAt < first.createdAt
    || (second.createdAt = first.createdAt && second.id.1 ≤ first.id.1)

def queryAuditEvents (log : AuditLog) (q : AuditQuery) : Except AuditQueryError AuditPage := do
  let size := pageSize q.limit
  let filters ← clauses auditInstant q
  let cursor ← (given q.cursor).mapM auditUncursor
  let clauses := filters ++ cursor.toList.map (fun key => olderThan key.1 key.2)
  let rows := ((log.rows.filter (meets clauses)).mergeSort notOlder).take (size + 1)
  let total := if cursor.isSome then none else some (log.rows.countP (meets filters))
  let events := rows.take size
  let nextCursor :=
    if size < rows.length then events.getLast?.map (fun last => auditCursor last.createdAt last.id)
    else none
  .ok ⟨events, nextCursor, total⟩

/-- The events of the pages from a cursor on, each page with a limit of its own and of the log that
there is when it is loaded. There is nothing if the fuel does not last.
-/
def readPages (q : AuditQuery) (limits : ℕ → ℤ) (logs : ℕ → AuditLog)
    : ℕ → ℕ → Option String → Except AuditQueryError (Option (List AuditEvent))
  | 0, _, _ => .ok none
  | fuel + 1, number, cursor => do
      let page ← queryAuditEvents auditInstant (logs number)
        { q with cursor := cursor, limit := limits number }
      match page.nextCursor with
      | none => .ok (some page.events)
      | some next =>
          let rest ← readPages q limits logs fuel (number + 1) (some next)
          .ok (rest.map (page.events ++ ·))

end Query

-- Pages of keys

/-- By the time, and by the id at the same time. -/
def eventKey (event : AuditEvent) : String ×ₗ I64 := toLex (event.createdAt, event.id)

theorem notOlder_eq (first second : AuditEvent)
    : notOlder first second = decide (eventKey second ≤ eventKey first) := by
  simp only [notOlder, eventKey, Prod.Lex.toLex_le_toLex, Bool.decide_or, Bool.decide_and,
    Subtype.coe_le_coe]

theorem mergeSort_notOlder (events : List AuditEvent)
    : events.mergeSort notOlder = Pages.descending eventKey events := by
  have same : notOlder = fun first second => decide (eventKey second ≤ eventKey first) := by
    funext first second
    exact notOlder_eq first second
  rw [same]
  rfl

theorem olderThan_eq (key : String ×ₗ I64)
    : olderThan (ofLex key).1 (ofLex key).2 = Pages.below eventKey (some key) := by
  funext event
  have ordered : eventKey event < key
      ↔ event.createdAt < (ofLex key).1
        ∨ event.createdAt = (ofLex key).1 ∧ event.id < (ofLex key).2 := by
    rw [eventKey, ← toLex_ofLex key, Prod.Lex.toLex_lt_toLex]
    rfl
  simp only [olderThan, Pages.below, Option.all_some, ordered, Bool.decide_or, Bool.decide_and,
    Subtype.coe_lt_coe]

/-- The cursor of a key. -/
def cursorOf (key : String ×ₗ I64) : String := auditCursor (ofLex key).1 (ofLex key).2

theorem given_cursorOf (bound : Option (String ×ₗ I64))
    : given (bound.map cursorOf) = bound.map cursorOf := by
  cases bound with
  | none => rfl
  | some key =>
      have nonempty : cursorOf key ≠ "" := by
        intro empty
        have noSymbols : Base64.encode ((cursorText (ofLex key).1 (ofLex key).2).flatMap
            String.utf8EncodeChar) = [] := by
          rw [cursorOf, auditCursor] at empty
          exact String.ofList_eq_empty_iff.mp empty
        have decoded := Base64.decode_encode
          ((cursorText (ofLex key).1 (ofLex key).2).flatMap String.utf8EncodeChar)
        rw [noSymbols] at decoded
        have bytes := Option.some.inj decoded
        have first : String.utf8EncodeChar '[' = [91] := by decide
        rw [cursorText, List.flatMap_cons, first] at bytes
        cases bytes
      simp [given, nonempty]

theorem mapM_auditUncursor (bound : Option (String ×ₗ I64))
    : (bound.map cursorOf).mapM auditUncursor = .ok (bound.map ofLex) := by
  cases bound with
  | none => rfl
  | some key =>
      simp only [Option.map_some, Option.mapM_some, cursorOf, auditUncursor_auditCursor]
      rfl

variable {auditInstant : String → String → Except AuditQueryError String} {q : AuditQuery}
  {filters : List (AuditEvent → Bool)}

theorem filter_bound (bound : Option (String ×ₗ I64)) (events : List AuditEvent)
    : events.filter (meets (filters
        ++ (bound.map ofLex).toList.map (fun key => olderThan key.1 key.2)))
      = (events.filter (meets filters)).filter (Pages.below eventKey bound) := by
  rw [List.filter_filter]
  congr 1
  funext event
  cases bound with
  | none => simp [meets, Pages.below]
  | some key =>
      have older := congrFun (olderThan_eq key) event
      simp only [meets, Option.map_some, Option.toList_some, List.map_cons, List.map_nil,
        List.all_append, List.all_cons, List.all_nil, Bool.and_true, older]
      exact Bool.and_comm _ _

theorem queryAuditEvents_eq (filtered : clauses auditInstant q = .ok filters) (log : AuditLog)
    (bound : Option (String ×ₗ I64)) (limit : ℤ)
    : queryAuditEvents auditInstant log { q with cursor := bound.map cursorOf, limit := limit }
      = .ok
        (let page := Pages.page eventKey (pageSize limit)
          ((log.rows.filter (meets filters)).filter (Pages.below eventKey bound))
        ⟨
          page.1,
          if page.2 then page.1.getLast?.map (cursorOf ∘ eventKey) else none,
          if bound.isSome then none else some (log.rows.countP (meets filters))
        ⟩) := by
  have same : clauses auditInstant { q with cursor := bound.map cursorOf, limit := limit }
      = .ok filters := filtered
  simp only [queryAuditEvents, same, given_cursorOf, mapM_auditUncursor, bind, Except.bind,
    filter_bound, mergeSort_notOlder]
  simp [Pages.page, cursorOf, eventKey, Function.comp_def]

theorem readPages_eq (filtered : clauses auditInstant q = .ok filters) (limits : ℕ → ℤ)
    (logs : ℕ → AuditLog) (fuel number : ℕ) (bound : Option (String ×ₗ I64))
    : readPages auditInstant q limits logs fuel number (bound.map cursorOf)
      = .ok (Pages.follow eventKey (pageSize ∘ limits)
        (fun number => (logs number).rows.filter (meets filters)) fuel number bound) := by
  induction fuel generalizing number bound with
  | zero => rfl
  | succ fuel ih =>
      have loaded := queryAuditEvents_eq filtered (logs number) bound (limits number)
      rw [readPages, loaded, Pages.follow]
      simp only [bind, Except.bind, Function.comp_apply]
      have ends := @Pages.getLast_page _ _ _ eventKey _
        (((logs number).rows.filter (meets filters)).filter (Pages.below eventKey bound))
        (pageSize_pos (limits number))
      generalize Pages.page eventKey (pageSize (limits number))
        (((logs number).rows.filter (meets filters)).filter (Pages.below eventKey bound)) = page
        at ends
      obtain ⟨shown, more⟩ := page
      cases more with
      | false => rfl
      | true =>
          obtain ⟨last, isLast⟩ := ends rfl
          have rest := ih (number + 1) (some (eventKey last))
          simp only [Option.map_some] at rest
          simp only at isLast
          simp [isLast, rest]

-- Every event once

/-- What is new has a greater key than all that there was. Rows may have been pruned. -/
def AuditLog.Later (before after : AuditLog) : Prop :=
  ∀ event ∈ after.rows, event ∈ before.rows ∨ ∀ other ∈ before.rows, eventKey other < eventKey event

theorem AuditLog.distinct (log : AuditLog) (filters : List (AuditEvent → Bool))
    : ((log.rows.filter (meets filters)).map eventKey).Nodup := by
  have ids := log.unique
  have keys : (log.rows.map eventKey).Nodup := by
    apply List.Nodup.of_map fun key : String ×ₗ I64 => (ofLex key).2
    rw [List.map_map]
    exact ids
  exact keys.sublist (List.filter_sublist.map eventKey)

theorem later_filter {before after : AuditLog} (later : before.Later after)
    (filters : List (AuditEvent → Bool))
    : Pages.Later eventKey (before.rows.filter (meets filters))
        (after.rows.filter (meets filters)) := by
  intro event isIn
  obtain ⟨present, met⟩ := List.mem_filter.mp isIn
  obtain old | greater := later event present
  · exact .inl (List.mem_filter.mpr ⟨old, met⟩)
  · exact .inr fun other wasIn => greater other (List.mem_filter.mp wasIn).1

theorem eq_of_ordered {first second : List AuditEvent}
    (ordered : first.Pairwise fun earlier later => eventKey later < eventKey earlier)
    (orderedToo : second.Pairwise fun earlier later => eventKey later < eventKey earlier)
    (same : ∀ event, event ∈ first ↔ event ∈ second)
    : first = second := by
  have nodup {events : List AuditEvent}
      (ordered : events.Pairwise fun earlier later => eventKey later < eventKey earlier)
      : events.Nodup :=
    ordered.imp fun smaller same => absurd (same ▸ smaller) (lt_irrefl _)
  have perm := (List.perm_ext_iff_of_nodup (nodup ordered) (nodup orderedToo)).mpr same
  exact perm.eq_of_pairwise (fun _ _ _ _ smaller greater => absurd smaller (not_lt_of_gt greater))
    ordered orderedToo

/-- Cursors give back what they are made of. From the first page to the last, with any sizes of
pages and any later events in between, the pages give events of the first load's log in the order of
their keys, each once, and all of them that the filters let pass and that were not pruned: if none
was, the matching events of the first load, sorted.
-/
theorem readPages_once
    : (∀ createdAt id, auditUncursor (auditCursor createdAt id) = .ok (createdAt, id))
      ∧ ∀ auditInstant q filters, clauses auditInstant q = .ok filters
        → ∀ (limits : ℕ → ℤ) (logs : ℕ → AuditLog),
          (∀ number, (logs number).Later (logs (number + 1)))
          → ∀ fuel, (logs 0).rows.countP (meets filters) < fuel
          → ∃ events, readPages auditInstant q limits logs fuel 0 none = .ok (some events)
            ∧ events.Pairwise (fun first second => eventKey second < eventKey first)
            ∧ (∀ event ∈ events, event ∈ (logs 0).rows ∧ meets filters event)
            ∧ (∀ event, (∀ number, event ∈ (logs number).rows) → meets filters event
              → event ∈ events)
            ∧ ((∀ number, (logs number).rows ⊆ (logs (number + 1)).rows)
              → events = ((logs 0).rows.filter (meets filters)).mergeSort notOlder) := by
  refine ⟨auditUncursor_auditCursor, ?_⟩
  intro auditInstant q filters filtered limits logs later fuel enough
  have count : (((logs 0).rows.filter (meets filters)).filter
      (Pages.below eventKey none)).length < fuel := by
    rw [List.countP_eq_length_filter] at enough
    exact (List.length_filter_le _ _).trans_lt enough
  obtain ⟨shown, followed, shows⟩ := Pages.follow_shows
    (fun number => pageSize_pos (limits number)) (fun number => (logs number).distinct filters)
    (fun number => later_filter (later number) filters) count
  have every (event : AuditEvent) (stays : ∀ number, event ∈ (logs number).rows)
      (met : meets filters event)
      : event ∈ shown := by
    apply shows.all event
    · exact fun number _ => List.mem_filter.mpr ⟨stays number, met⟩
    · exact fun limit is => absurd is (by simp)
  refine ⟨shown, ?_, shows.ordered, ?_, every, ?_⟩
  · have read := readPages_eq filtered limits logs fuel 0 none
    rw [Option.map_none] at read
    rw [read]
    exact congrArg Except.ok followed
  · exact fun event isIn => List.mem_filter.mp (shows.old event isIn).1
  · intro kept
    rw [mergeSort_notOlder]
    apply eq_of_ordered shows.ordered (Pages.pairwise_descending ((logs 0).distinct filters))
    intro event
    rw [Pages.mem_descending]
    constructor
    · exact fun isIn => (shows.old event isIn).1
    · intro isIn
      obtain ⟨present, met⟩ := List.mem_filter.mp isIn
      apply every event _ met
      intro number
      induction number with
      | zero => exact present
      | succ number ih => exact kept number ih

def loginAt (createdAt : String) (id : Fin 5) : AuditEvent :=
  ⟨⟨id.val, by omega⟩, some "mia", "login", none, none, none, none, createdAt⟩

/-- Two events of one second, and after the first load another one. -/
def tiedLog (number : ℕ) : AuditLog where
  rows :=
    (if number = 0 then [] else [loginAt "2026-05-01 10:00:01" 3])
      ++ [
        loginAt "2026-05-01 10:00:00" 2,
        loginAt "2026-05-01 10:00:00" 1
      ]
  unique := by split <;> decide

def anyEvent : AuditQuery := ⟨none, [], [], none, none, none, true, none, 1⟩

theorem tiedLog_later (number : ℕ) : (tiedLog number).Later (tiedLog (number + 1)) := by
  intro event isIn
  cases number with
  | zero =>
      obtain rfl | old : event = loginAt "2026-05-01 10:00:01" 3
          ∨ event ∈ (tiedLog 0).rows := List.mem_cons.mp isIn
      · right
        intro other wasIn
        have earlier : other.createdAt < "2026-05-01 10:00:01" := by
          simp only [tiedLog, if_true, List.nil_append, List.mem_cons, List.not_mem_nil, or_false]
            at wasIn
          obtain rfl | rfl := wasIn <;> decide
        exact Prod.Lex.toLex_lt_toLex.mpr (.inl earlier)
      · exact .inl old
  | succ number => exact .inl isIn

theorem readPages_once_tied
    : ∃ events, readPages (fun text _ => .ok text) anyEvent (fun _ => 1) tiedLog 3 0 none
        = .ok (some events)
      ∧ events = ((tiedLog 0).rows.filter (meets [])).mergeSort notOlder := by
  obtain ⟨events, isRead, _, _, _, same⟩ :=
    readPages_once.2 (fun text _ => .ok text) anyEvent [] rfl (fun _ => 1) tiedLog tiedLog_later 3
      (by decide)
  refine ⟨events, isRead, same ?_⟩
  intro number event isIn
  cases number with
  | zero => exact List.mem_cons_of_mem _ isIn
  | succ number => exact isIn

end MokuroBunko.Db
