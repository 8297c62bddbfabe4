import MokuroBunko.Lib.Runs
import MokuroBunko.Library.Community

/-! The loop that keeps the community's details: updates that change a series' ids, nudges, runs and
their requests, in any order. A series whose id changed is owed a fetch until one is answered.
-/

namespace MokuroBunko.Library.Community

open MokuroBunko.Lib

variable {Media Data Normalized : Type}

-- The loop

structure State (Normalized : Type) where
  facts : OrderedMap String ExternalIds
  details : OrderedMap String (CommunityDetails Normalized)
  nudged : List String
  work : Option Work

inductive Event (Media Data : Type) where
  /-- An update that changes the external ids of a series. -/
  | change (key : String) (ids : ExternalIds)
  /-- The loop wakes for the nudges. -/
  | wake (order : MapOrder)
  /-- The sweep of all series is due. -/
  | sweep (order : MapOrder) (now : ℤ)
  /-- The next request of the run in progress comes to its reply. -/
  | reply (reply : Reply Media Data) (stamp : Option ℤ)

/-- A run is over once no request is left. -/
def inProgress (work : Work) : Option Work := if work.requests = [] then none else some work

/-- `request_fetch`. -/
def requestFetch (nudged : List String) (key : String) : List String :=
  if key ∈ nudged then nudged else key :: nudged

namespace Formats

variable (formats : Formats Media Data Normalized)

def step (state : State Normalized) : Event Media Data → State Normalized
  | .change key ids =>
      { state with
        facts := state.facts.insert key ids
        nudged := if ids.isEmpty then state.nudged else requestFetch state.nudged key }
  | .wake order =>
      match state.work with
      | some _ => state
      | none =>
          let taken := candidates state.facts state.details (some state.nudged) true 0
          { state with nudged := [], work := inProgress (begin order taken true) }
  | .sweep order now =>
      match state.work with
      | some _ => state
      | none =>
          let taken := candidates state.facts state.details none false now
          { state with work := inProgress (begin order taken false) }
  | .reply reply stamp =>
      match state.work with
      | none => state
      | some work =>
          match work.requests with
          | [] => { state with work := none }
          | request :: rest =>
              if reply.isStopped then { state with work := none }
              else
                { state with
                  details := upsertAll state.details
                    (formats.stores work.keysById stamp request reply)
                  work := inProgress { work with requests := rest } }

end Formats

-- What the series are owed

/-- The id that the series is fetched by. -/
def State.link (state : State Normalized) (key : String) : Option Link :=
  (state.facts.get? key).bind Community.link

/-- The request asks for the series by this id. -/
def Request.asks (key : String) : Link → Request → Prop
  | .anilist id, .anilist ids => id ∈ ids
  | .mal id, .mal other asked => other = key ∧ asked = id
  | _, _ => False

instance (key : String) (link : Link) (request : Request) : Decidable (request.asks key link) := by
  cases link <;> cases request <;> unfold Request.asks <;> infer_instance

/-- The reply answers the request. -/
def Reply.answers : Request → Reply Media Data → Bool
  | .anilist _, .media _ => true
  | .mal _ _, .data _ => true
  | _, _ => false

/-- The loop, and the series that are owed a fetch. -/
structure Watched (Normalized : Type) where
  state : State Normalized
  owed : List String

namespace Formats

variable (formats : Formats Media Data Normalized)

/-- The reply has no entry for the id. -/
def Silent : Link → Reply Media Data → Prop
  | .anilist id, .media items => ∀ item ∈ items, formats.id item ≠ some id
  | _, _ => False

instance (link : Link) (reply : Reply Media Data) : Decidable (formats.Silent link reply) := by
  cases link <;> cases reply <;> unfold Silent <;> infer_instance

/-- The reply answers a fetch of the series by its present id: it has nothing for the id, or else
the series has got details of it.
-/
def Settles (state : State Normalized) (reply : Reply Media Data) (key : String) : Prop :=
  ∃ work ∈ state.work, ∃ request ∈ work.requests.head?, ∃ link ∈ state.link key,
    request.asks key link ∧ reply.answers request = true
      ∧ (formats.Silent link reply
        ∨ ∃ row ∈ formats.stores work.keysById none request reply, row.1 = key)

instance (state : State Normalized) (reply : Reply Media Data) (key : String)
    : Decidable (formats.Settles state reply key) :=
  inferInstanceAs (Decidable (∃ work ∈ state.work, _))

/-- A series is owed a fetch from a change of its id until a reply settles it. -/
def watch (watched : Watched Normalized) (event : Event Media Data) : Watched Normalized where
  state := formats.step watched.state event
  owed :=
    match event with
    | .change key ids =>
        if (link ids).isSome then requestFetch watched.owed key
        else watched.owed.filter (· ≠ key)
    | .reply reply _ => watched.owed.filter fun key => ¬ formats.Settles watched.state reply key
    | _ => watched.owed

end Formats

/-- The series is fetched by its present id whatever its freshness: it is nudged, or a request for
it is still to be made.
-/
def State.Promised (state : State Normalized) (key : String) : Prop :=
  key ∈ state.nudged
    ∨ ∃ work ∈ state.work, work.forced = true ∧ ∃ request ∈ work.requests,
      ∃ link ∈ state.link key, request.asks key link

instance (state : State Normalized) (key : String) : Decidable (state.Promised key) :=
  inferInstanceAs (Decidable (_ ∨ ∃ work ∈ state.work, _))

-- What a step keeps

/-- Nothing owed is lost in the step: no two nudged series are fetched by one id of AniList, and a
request for nudged series is answered.
-/
def NothingLost (watched : Watched Normalized) : Event Media Data → Prop
  | .wake _ =>
      let taken := candidates watched.state.facts watched.state.details
        (some watched.state.nudged) true 0
      watched.state.work = none →
        ∀ first second id, (first, .anilist id) ∈ taken → (second, .anilist id) ∈ taken →
          first = second
  | .reply reply _ =>
      ∀ work ∈ watched.state.work, work.forced = true →
        ∀ request ∈ work.requests.head?, reply.answers request = true
  | _ => True

/-- The run in progress fetches the series by its present id, and stores what comes for it. -/
def State.Pending (state : State Normalized) (key : String) (work : Work) (request : Request)
    : Prop :=
  ∃ link ∈ state.link key, request.asks key link
    ∧ ∀ id, link = .anilist id → work.keysById.get? id = some key

structure Kept (watched : Watched Normalized) : Prop where
  linked : ∀ key ∈ watched.owed, ∃ link, watched.state.link key = some link
  promised : ∀ key ∈ watched.owed, key ∈ watched.state.nudged
    ∨ ∃ work ∈ watched.state.work, work.forced = true
      ∧ ∃ request ∈ work.requests, watched.state.Pending key work request

theorem Kept.Promised {watched : Watched Normalized} (kept : Kept watched) {key : String}
    (owed : key ∈ watched.owed) : watched.state.Promised key := by
  obtain nudged | ⟨work, isWork, forced, request, isRequest, link, isLink, asks, _⟩ :=
    kept.promised key owed
  · exact .inl nudged
  · exact .inr ⟨work, isWork, forced, request, isRequest, link, isLink, asks⟩

theorem mem_requestFetch {nudged : List String} {key other : String}
    : other ∈ requestFetch nudged key ↔ other = key ∨ other ∈ nudged := by
  unfold requestFetch
  split
  case isTrue isIn =>
    constructor
    · exact .inr
    · rintro (rfl | isOther)
      · exact isIn
      · exact isOther
  case isFalse => exact List.mem_cons

theorem mem_inProgress {work : Work} {request : Request} (isIn : request ∈ work.requests)
    : inProgress work = some work := by
  rw [inProgress, if_neg (List.ne_nil_of_mem isIn)]

variable {formats : Formats Media Data Normalized}

theorem mem_candidates_forced {facts : OrderedMap String ExternalIds}
    {details : OrderedMap String (CommunityDetails Normalized)} {nudged : List String} {now : ℤ}
    {key : String} {link : Link} (isNudged : key ∈ nudged)
    (linked : (facts.get? key).bind Community.link = some link)
    : (key, link) ∈ candidates facts details (some nudged) true now := by
  obtain ⟨ids, found, own⟩ := Option.bind_eq_some_iff.mp linked
  refine List.mem_filterMap.mpr ⟨(key, ids), OrderedMap.mem_entries_iff.mpr found, ?_⟩
  simp [isNudged, own]

theorem settles_of_pending {state : State Normalized} {work : Work} {request : Request}
    {rest : List Request} {reply : Reply Media Data} {key : String}
    (running : state.work = some work) (next : work.requests = request :: rest)
    (pending : state.Pending key work request) (answers : reply.answers request = true)
    : formats.Settles state reply key := by
  obtain ⟨link, isLink, asks, leads⟩ := pending
  refine ⟨work, running, request, by rw [next]; rfl, link, isLink, asks, answers, ?_⟩
  cases request with
  | anilist ids =>
      cases link with
      | mal => exact asks.elim
      | anilist id =>
          cases reply with
          | media items =>
              by_cases silent : formats.Silent (.anilist id) (.media items : Reply Media Data)
              · exact .inl silent
              · obtain ⟨item, isItem, own⟩ : ∃ item ∈ items, formats.id item = some id := by
                  simpa [Formats.Silent] using silent
                refine .inr ⟨(key, ⟨formats.normalizeAnilist item, .anilist, none⟩),
                  List.mem_filterMap.mpr ⟨item, isItem, ?_⟩, rfl⟩
                simp [own, leads id rfl]
          | _ => cases answers
  | mal other asked =>
      cases link with
      | anilist => exact asks.elim
      | mal id =>
          cases reply with
          | data data => exact .inr ⟨_, List.mem_singleton.mpr rfl, asks.1⟩
          | _ => cases answers

theorem link_change (state : State Normalized) (key other : String) (ids : ExternalIds)
    : (formats.step state (.change key ids : Event Media Data)).link other
      = if other = key then link ids else state.link other := by
  rw [State.link, Formats.step, OrderedMap.get?_insert]
  split <;> rfl

theorem kept_change {watched : Watched Normalized} (kept : Kept watched) (key : String)
    (ids : ExternalIds)
    : Kept (formats.watch watched (.change key ids : Event Media Data)) := by
  obtain ⟨state, owed⟩ := watched
  have nudges {other : String} (nudged : other ∈ state.nudged)
      : other ∈ (formats.step state (.change key ids : Event Media Data)).nudged := by
    simp only [Formats.step]
    split
    · exact nudged
    · exact mem_requestFetch.mpr (.inr nudged)
  have other_linked {other : String} (different : other ≠ key) (isOwed : other ∈ owed)
      : ∃ link, (formats.step state (.change key ids : Event Media Data)).link other
        = some link := by
    rw [link_change, if_neg different]
    exact kept.linked other isOwed
  have other_promised {other : String} (different : other ≠ key) (isOwed : other ∈ owed)
      : other ∈ (formats.step state (.change key ids : Event Media Data)).nudged
        ∨ ∃ work ∈ state.work, work.forced = true ∧ ∃ request ∈ work.requests,
          (formats.step state (.change key ids : Event Media Data)).Pending other work request := by
    obtain nudged | promised := kept.promised other isOwed
    · exact .inl (nudges nudged)
    · right
      simp only [State.Pending, link_change, if_neg different]
      exact promised
  by_cases linked : (link ids).isSome
  · obtain ⟨own, isOwn⟩ := Option.isSome_iff_exists.mp linked
    have some_left : ids.isEmpty = false := by
      rw [Bool.eq_false_iff]
      intro empty
      have none : ids.entries = [] := List.isEmpty_iff.mp empty
      simp [link, OrderedMap.get?, none] at isOwn
    have owed_eq : (formats.watch ⟨state, owed⟩ (.change key ids : Event Media Data)).owed
        = requestFetch owed key := if_pos linked
    constructor
    · rw [owed_eq]
      intro other isOwed
      by_cases same : other = key
      · exact ⟨own, by rw [Formats.watch, link_change, if_pos same, isOwn]⟩
      · exact other_linked same ((mem_requestFetch.mp isOwed).resolve_left same)
    · rw [owed_eq]
      intro other isOwed
      by_cases same : other = key
      · left
        simp only [Formats.watch, Formats.step, some_left]
        exact mem_requestFetch.mpr (.inl same)
      · exact other_promised same ((mem_requestFetch.mp isOwed).resolve_left same)
  · have owed_eq : (formats.watch ⟨state, owed⟩ (.change key ids : Event Media Data)).owed
        = owed.filter (· ≠ key) := if_neg linked
    constructor
    · rw [owed_eq]
      intro other isOwed
      obtain ⟨isIn, different⟩ := List.mem_filter.mp isOwed
      exact other_linked (of_decide_eq_true different) isIn
    · rw [owed_eq]
      intro other isOwed
      obtain ⟨isIn, different⟩ := List.mem_filter.mp isOwed
      exact other_promised (of_decide_eq_true different) isIn

theorem kept_wake {watched : Watched Normalized} (kept : Kept watched) (order : MapOrder)
    (apart : NothingLost watched (.wake order : Event Media Data))
    : Kept (formats.watch watched (.wake order : Event Media Data)) := by
  obtain ⟨state, owed⟩ := watched
  cases running : state.work with
  | some work =>
      have same : formats.step state (.wake order : Event Media Data) = state := by
        simp only [Formats.step, running]
      simpa only [Formats.watch, same] using kept
  | none =>
      obtain ⟨taken, isTaken⟩
        : ∃ taken, candidates state.facts state.details (some state.nudged) true 0 = taken :=
        ⟨_, rfl⟩
      have after : formats.step state (.wake order : Event Media Data)
          = { state with nudged := [], work := inProgress (begin order taken true) } := by
        simp only [Formats.step, running, isTaken]
      constructor
      · intro key isOwed
        simpa only [Formats.watch, after, State.link] using kept.linked key isOwed
      · intro key isOwed
        obtain ⟨own, linked⟩ := kept.linked key isOwed
        have nudged : key ∈ state.nudged := by
          obtain nudged | ⟨work, isWork, _⟩ := kept.promised key isOwed
          · exact nudged
          · rw [running] at isWork
            cases isWork
        have isCandidate : (key, own) ∈ taken := isTaken ▸ mem_candidates_forced nudged linked
        have pending {request : Request} (isRequest : request ∈ (begin order taken true).requests)
            (asks : request.asks key own)
            (leads : ∀ id, own = .anilist id →
              (begin order taken true).keysById.get? id = some key)
            : key ∈ (formats.step state (.wake order : Event Media Data)).nudged
              ∨ ∃ work ∈ (formats.step state (.wake order : Event Media Data)).work,
                work.forced = true ∧ ∃ request ∈ work.requests,
                  (formats.step state (.wake order : Event Media Data)).Pending key work
                    request := by
          rw [after]
          exact .inr ⟨begin order taken true, mem_inProgress isRequest, rfl, request, isRequest,
            own, linked, asks, leads⟩
        cases own with
        | anilist id =>
            obtain ⟨ids, isRequest, asked⟩ := anilist_requested order true isCandidate
            refine pending isRequest asked ?_
            rintro _ ⟨⟩
            obtain ⟨other, leads⟩ := keysById_of_mem order true isCandidate
            have both : other = key := by
              subst isTaken
              exact apart running other key id (mem_of_keysById leads) isCandidate
            rw [leads, both]
        | mal id =>
            exact pending (mal_requested.mpr isCandidate) ⟨rfl, rfl⟩ nofun

theorem kept_sweep {watched : Watched Normalized} (kept : Kept watched) (order : MapOrder)
    (now : ℤ)
    : Kept (formats.watch watched (.sweep order now : Event Media Data)) := by
  obtain ⟨state, owed⟩ := watched
  cases running : state.work with
  | some work =>
      have same : formats.step state (.sweep order now : Event Media Data) = state := by
        simp only [Formats.step, running]
      simpa only [Formats.watch, same] using kept
  | none =>
      obtain ⟨taken, isTaken⟩
        : ∃ taken, candidates state.facts state.details none false now = taken := ⟨_, rfl⟩
      have after : formats.step state (.sweep order now : Event Media Data)
          = { state with work := inProgress (begin order taken false) } := by
        simp only [Formats.step, running, isTaken]
      constructor
      · intro key isOwed
        simpa only [Formats.watch, after, State.link] using kept.linked key isOwed
      · intro key isOwed
        obtain nudged | ⟨work, isWork, _⟩ := kept.promised key isOwed
        · exact .inl (by simpa only [Formats.watch, after] using nudged)
        · rw [running] at isWork
          cases isWork

theorem kept_reply {watched : Watched Normalized} (kept : Kept watched) (reply : Reply Media Data)
    (stamp : Option ℤ) (answered : NothingLost watched (.reply reply stamp))
    : Kept (formats.watch watched (.reply reply stamp)) := by
  obtain ⟨state, owed⟩ := watched
  have facts : (formats.step state (.reply reply stamp)).facts = state.facts := by
    simp only [Formats.step]
    split
    · rfl
    · split
      · rfl
      · split <;> rfl
  have nudged : (formats.step state (.reply reply stamp)).nudged = state.nudged := by
    simp only [Formats.step]
    split
    · rfl
    · split
      · rfl
      · split <;> rfl
  constructor
  · intro key isOwed
    simpa only [Formats.watch, State.link, facts] using
      kept.linked key (List.mem_filter.mp isOwed).1
  · intro key isOwed
    obtain ⟨isIn, unsettled⟩ := List.mem_filter.mp isOwed
    obtain isNudged | ⟨work, running, forced, request, isRequest, pending⟩ :=
      kept.promised key isIn
    · exact .inl (by simpa only [Formats.watch, nudged] using isNudged)
    · cases next : work.requests with
      | nil =>
          rw [next] at isRequest
          cases isRequest
      | cons first rest =>
          have answers : reply.answers first = true :=
            answered work running forced first (by rw [next]; rfl)
          rw [next, List.mem_cons] at isRequest
          obtain rfl | later := isRequest
          · exact absurd (settles_of_pending running next pending answers)
              (of_decide_eq_true unsettled)
          · have going : reply.isStopped = false := by
              cases reply <;> first | rfl | (cases first <;> cases answers)
            right
            refine ⟨{ work with requests := rest }, ?_, forced, request, later, ?_⟩
            · have some_work : state.work = some work := running
              simp only [Formats.watch, Formats.step, some_work, next, going]
              exact mem_inProgress later
            · simpa only [Formats.watch, State.Pending, State.link, facts] using pending

theorem kept_watch {watched : Watched Normalized} {event : Event Media Data} (kept : Kept watched)
    (nothingLost : NothingLost watched event)
    : Kept (formats.watch watched event) := by
  cases event with
  | change key ids => exact kept_change kept key ids
  | wake order => exact kept_wake kept order nothingLost
  | sweep order now => exact kept_sweep kept order now
  | reply reply stamp => exact kept_reply kept reply stamp nothingLost

-- What every run reaches

/-- The loop as it starts, with what the database has. -/
def Watched.initial (facts : OrderedMap String ExternalIds)
    (details : OrderedMap String (CommunityDetails Normalized)) : Watched Normalized :=
  ⟨⟨facts, details, [], none⟩, []⟩

/-- A run reaches each answered candidate exactly if no two share an answered id; and while nothing
owed is lost in a step, every series whose id changed is promised a fetch until one is answered.
-/
theorem communityDetails_reach (formats : Formats Media Data Normalized)
    : (∀ (facts : OrderedMap String ExternalIds)
        (details : OrderedMap String (CommunityDetails Normalized)) (only : Option (List String))
        (force forced : Bool) (now : ℤ) (order : MapOrder) (replies : Request → Reply Media Data)
        (stamps : Request → Option ℤ),
        let taken := candidates facts details only force now
        formats.Reaches taken (begin order taken forced) replies stamps details
          ↔ ∀ first second id item, (first, .anilist id) ∈ taken → (second, .anilist id) ∈ taken →
            formats.Answered (begin order taken forced) replies id item → first = second)
      ∧ ∀ (facts : OrderedMap String ExternalIds)
        (details : OrderedMap String (CommunityDetails Normalized))
        (run : List (Event Media Data)),
        Runs.Orderly formats.watch NothingLost (Watched.initial facts details) run →
        ∀ key ∈ (run.foldl formats.watch (Watched.initial facts details)).owed,
          (run.foldl formats.watch (Watched.initial facts details)).state.Promised key := by
  constructor
  · intro facts details only force forced now order replies stamps
    exact Formats.reaches_iff
  · intro facts details run orderly key owed
    have start : Kept (Watched.initial facts details) := ⟨nofun, nofun⟩
    have kept := orderly.invariant (fun _ _ => kept_watch) start
    exact kept.Promised owed

/-- One series, whose id changes while a sweep is in progress. -/
theorem communityDetails_reach_change
    : let formats : Formats ℤ ℤ ℤ := ⟨some, id, id⟩
      let order : MapOrder := ⟨id, fun _ => .refl _⟩
      let run : List (Event ℤ ℤ) := [.change "a" (.insert .empty "anilist" 1), .sweep order 0,
        .change "a" (.insert .empty "anilist" 2), .reply (.media [1]) (some 0)]
      (run.foldl formats.watch (.initial .empty .empty)).state.Promised "a" := by
  intro formats order run
  refine (communityDetails_reach formats).2 .empty .empty run
    ⟨trivial, trivial, trivial, ?_, trivial⟩ "a" (by decide)
  rintro _ ⟨⟩ forced
  cases forced

/-- Two series with one id of AniList: the answer is stored for one of them. And a series whose id
changes, for which the request fails: it has details of the former id, fetched an hour ago, and no
sweep asks for it.
-/
theorem communityDetails_lost
    : let formats : Formats ℤ ℤ ℤ := ⟨some, id, id⟩
      let order : MapOrder := ⟨id, fun _ => .refl _⟩
      let one : ExternalIds := .insert .empty "anilist" 1
      let shared := candidates (.insert (.insert .empty "a" one) "b" one)
        (.empty : OrderedMap String (CommunityDetails ℤ)) none false 0
      let run : List (Event ℤ ℤ) := [.change "a" (.insert .empty "anilist" 2), .wake order,
        .reply .failed none, .sweep order 3600]
      let after := run.foldl formats.watch
        (.initial (.insert .empty "a" one) (.insert .empty "a" ⟨1, .anilist, some 0⟩))
      ¬ formats.Reaches shared (begin order shared true) (fun _ => .media [1]) (fun _ => some 0)
          .empty
        ∧ "a" ∈ after.owed ∧ ¬ after.state.Promised "a" ∧ after.state.work.isNone := by
  intro formats order one shared run after
  refine ⟨fun reaches => ?_, by decide, by decide, by decide⟩
  have answered : formats.Answered (begin order shared true) (fun _ => .media [1]) 1 1 :=
    ⟨[1], [1], by decide, rfl, by decide, rfl⟩
  have same := Formats.reaches_iff.mp reaches "a" "b" 1 1 (by decide) (by decide) answered
  exact absurd same (by decide)

end MokuroBunko.Library.Community
