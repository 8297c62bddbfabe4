import MokuroBunko.Lib.OrderedMap
import Mathlib.Data.List.Induction
import Mathlib.Data.List.Sort
import Mathlib.Data.Prod.Lex
import Mathlib.Data.String.Basic

/-! The details that the community's services have for the series: which series are fetched, with
which requests, and what one run stores. How an entry of an answer is read is a parameter.
-/

namespace MokuroBunko.Library.Community

open MokuroBunko.Lib

-- Series and their details

/-- The external ids of a series that are integers, by the name of the service. -/
abbrev ExternalIds := OrderedMap String ℤ

/-- The id a series is fetched by: AniList's, or MAL's when it is linked only there. -/
inductive Link where
  | anilist (id : ℤ)
  | mal (id : ℤ)
deriving DecidableEq

def link (ids : ExternalIds) : Option Link :=
  match ids.get? "anilist" with
  | some id => some (.anilist id)
  | none => (ids.get? "mal").map .mal

inductive Source where
  | anilist
  | mal
deriving DecidableEq

/-- `CommunityDetails`. The stamp is in seconds; it is `none` when it cannot be read. -/
structure CommunityDetails (Normalized : Type) where
  normalized : Normalized
  source : Source
  fetchedAt : Option ℤ
deriving DecidableEq

def REFRESH_AGE : ℤ := 7 * 24 * 3600

def ANILIST_BATCH_SIZE : ℕ := 50

/-- `is_fresh`. -/
def isFresh (fetchedAt : Option ℤ) (now : ℤ) : Bool :=
  fetchedAt.any (fun stamp => now - stamp < REFRESH_AGE)

variable {Media Data Normalized : Type}

/-- `candidates`: the linked series that are not fresh, in the order of the table. -/
def candidates (facts : OrderedMap String ExternalIds)
    (details : OrderedMap String (CommunityDetails Normalized)) (only : Option (List String))
    (force : Bool) (now : ℤ) : List (String × Link) :=
  let fresh (key : String) : Bool :=
    !force && (details.get? key).any (fun row => isFresh row.fetchedAt now)
  facts.entries.filterMap fun entry =>
    if fresh entry.1 || only.any (fun only => entry.1 ∉ only) then none
    else (link entry.2).map fun link => (entry.1, link)

/-- The candidates of AniList. -/
def anilistOf (candidates : List (String × Link)) : List (String × ℤ) :=
  candidates.filterMap fun candidate =>
    match candidate.2 with
    | .anilist id => some (candidate.1, id)
    | .mal _ => none

/-- The candidates linked only to MAL. -/
def malOf (candidates : List (String × Link)) : List (String × ℤ) :=
  candidates.filterMap fun candidate =>
    match candidate.2 with
    | .anilist _ => none
    | .mal id => some (candidate.1, id)

-- One run

/-- The order in which a `HashMap` gives its entries. -/
structure MapOrder where
  arrange : List (String × ℤ) → List (String × ℤ)
  perm : ∀ entries, (arrange entries).Perm entries

inductive Request where
  | anilist (ids : List ℤ)
  | mal (key : String) (id : ℤ)
deriving DecidableEq

/-- What comes back from a request. That the run is cancelled anywhere between two requests counts
as the next one being stopped.
-/
inductive Reply (Media Data : Type) where
  | stopped
  | failed
  | media (items : List Media)
  | data (data : Data)

def Reply.isStopped : Reply Media Data → Bool
  | .stopped => true
  | _ => false

/-- The map from ids to series, and the requests that are still to be made. -/
structure Work where
  keysById : OrderedMap ℤ String
  requests : List Request
  forced : Bool

/-- `keys_by_id`: the map from series to ids turned around, one entry after another. -/
def invert (entries : List (String × ℤ)) : OrderedMap ℤ String :=
  entries.foldl (fun map entry => map.insert entry.2 entry.1) .empty

/-- `chunks`, with the chunk that is being filled. -/
def chunksFrom (size : ℕ) (current : List ℤ) : List ℤ → List (List ℤ)
  | [] => if current = [] then [] else [current]
  | item :: rest =>
      if current.length = size then current :: chunksFrom size [item] rest
      else chunksFrom size (current ++ [item]) rest

/-- The part of `run_once` before the first request. -/
def begin (order : MapOrder) (candidates : List (String × Link)) (forced : Bool) : Work :=
  let keysById := invert (order.arrange (anilistOf candidates))
  let ids := keysById.keys.insertionSort (· ≤ ·)
  let mal := ((malOf candidates).map toLex).insertionSort (· ≤ ·)
  {
    keysById
    requests := (chunksFrom ANILIST_BATCH_SIZE [] ids).map .anilist
      ++ mal.map (fun entry => .mal (ofLex entry).1 (ofLex entry).2)
    forced
  }

/-- How the answers are read. -/
structure Formats (Media Data Normalized : Type) where
  /-- The `id` of an entry of AniList's answer, when it is an integer. -/
  id : Media → Option ℤ
  normalizeAnilist : Media → Normalized
  normalizeJikan : Data → Normalized

namespace Formats

variable (formats : Formats Media Data Normalized)

/-- What a reply has stored, in its order. -/
def stores (keysById : OrderedMap ℤ String) (stamp : Option ℤ)
    : Request → Reply Media Data → List (String × CommunityDetails Normalized)
  | .anilist _, .media items => items.filterMap fun item => do
      let id ← formats.id item
      let key ← keysById.get? id
      some (key, ⟨formats.normalizeAnilist item, .anilist, stamp⟩)
  | .mal key _, .data data => [(key, ⟨formats.normalizeJikan data, .mal, stamp⟩)]
  | _, _ => []

/-- The requests of a run that come to a reply: those before the first that is stopped. -/
def made (work : Work) (replies : Request → Reply Media Data) : List Request :=
  work.requests.takeWhile fun request => !(replies request).isStopped

/-- `run_once`: all that is stored. Its length is the number of updated series. -/
def runOnce (work : Work) (replies : Request → Reply Media Data) (stamps : Request → Option ℤ)
    : List (String × CommunityDetails Normalized) :=
  (made work replies).flatMap fun request =>
    formats.stores work.keysById (stamps request) request (replies request)

end Formats

/-- `upsert_community_details`, for one row after another. -/
def upsertAll (details : OrderedMap String (CommunityDetails Normalized))
    (rows : List (String × CommunityDetails Normalized))
    : OrderedMap String (CommunityDetails Normalized) :=
  rows.foldl (fun details row => details.insert row.1 row.2) details

-- Lemmas

theorem chunksFrom_flatten (size : ℕ) (current items : List ℤ)
    : (chunksFrom size current items).flatten = current ++ items := by
  induction items generalizing current with
  | nil =>
      rw [chunksFrom, List.append_nil]
      split
      case isTrue none => rw [none, List.flatten_nil]
      case isFalse => rw [List.flatten_singleton]
  | cons item items ih =>
      rw [chunksFrom]
      split
      · rw [List.flatten_cons, ih, List.cons_append, List.nil_append]
      · rw [ih, List.append_assoc, List.cons_append, List.nil_append]

theorem invert_append (entries : List (String × ℤ)) (entry : String × ℤ)
    : invert (entries ++ [entry]) = (invert entries).insert entry.2 entry.1 := by
  rw [invert, List.foldl_append]
  rfl

theorem mem_of_invert {entries : List (String × ℤ)} {id : ℤ} {key : String}
    (found : (invert entries).get? id = some key)
    : (key, id) ∈ entries := by
  induction entries using List.reverseRecOn with
  | nil => cases found
  | append_singleton entries entry ih =>
      rw [invert_append, OrderedMap.get?_insert] at found
      rw [List.mem_append, List.mem_singleton]
      split at found
      case isTrue same =>
        right
        rw [← Option.some.inj found, same]
      case isFalse => exact .inl (ih found)

theorem invert_of_mem {entries : List (String × ℤ)} {id : ℤ} {key : String}
    (isIn : (key, id) ∈ entries)
    : ∃ other, (invert entries).get? id = some other := by
  induction entries using List.reverseRecOn with
  | nil => cases isIn
  | append_singleton entries entry ih =>
      rw [invert_append, OrderedMap.get?_insert]
      rw [List.mem_append, List.mem_singleton] at isIn
      split
      case isTrue => exact ⟨_, rfl⟩
      case isFalse other =>
        obtain earlier | rfl := isIn
        · exact ih earlier
        · exact absurd rfl other

theorem get?_upsertAll (details : OrderedMap String (CommunityDetails Normalized))
    {rows : List (String × CommunityDetails Normalized)} {key : String}
    (stored : ∃ row, (key, row) ∈ rows)
    : ∃ row, (key, row) ∈ rows ∧ (upsertAll details rows).get? key = some row := by
  induction rows using List.reverseRecOn with
  | nil =>
      obtain ⟨_, isIn⟩ := stored
      cases isIn
  | append_singleton rows last ih =>
      have step : upsertAll details (rows ++ [last])
          = (upsertAll details rows).insert last.1 last.2 := by
        rw [upsertAll, List.foldl_append]
        rfl
      rw [step, OrderedMap.get?_insert]
      by_cases own : key = last.1
      · exact ⟨last.2, by simp [own], by simp [own]⟩
      · obtain ⟨row, isIn⟩ := stored
        rw [List.mem_append, List.mem_singleton] at isIn
        obtain earlier | rfl := isIn
        · obtain ⟨kept, isIn, found⟩ := ih ⟨row, earlier⟩
          exact ⟨kept, List.mem_append_left _ isIn, by rw [if_neg own, found]⟩
        · exact absurd rfl own

section Candidates

variable {facts : OrderedMap String ExternalIds}
  {details : OrderedMap String (CommunityDetails Normalized)} {only : Option (List String)}
  {force : Bool} {now : ℤ} {key : String}

theorem mem_candidates {link : Link} (isIn : (key, link) ∈ candidates facts details only force now)
    : (facts.get? key).bind Community.link = some link := by
  obtain ⟨⟨other, ids⟩, isEntry, kept⟩ := List.mem_filterMap.mp isIn
  split at kept
  · cases kept
  · obtain ⟨found, linked, same⟩ := Option.map_eq_some_iff.mp kept
    cases same
    rw [OrderedMap.mem_entries_iff.mp isEntry]
    exact linked

theorem candidates_unique {link other : Link}
    (one : (key, link) ∈ candidates facts details only force now)
    (two : (key, other) ∈ candidates facts details only force now)
    : link = other :=
  Option.some.inj ((mem_candidates one).symm.trans (mem_candidates two))

end Candidates

@[simp] theorem mem_anilistOf {candidates : List (String × Link)} {key : String} {id : ℤ}
    : (key, id) ∈ anilistOf candidates ↔ (key, .anilist id) ∈ candidates := by
  rw [anilistOf, List.mem_filterMap]
  constructor
  · rintro ⟨⟨other, link⟩, isIn, kept⟩
    cases link <;> cases kept
    exact isIn
  · intro isIn
    exact ⟨_, isIn, rfl⟩

@[simp] theorem mem_malOf {candidates : List (String × Link)} {key : String} {id : ℤ}
    : (key, id) ∈ malOf candidates ↔ (key, .mal id) ∈ candidates := by
  rw [malOf, List.mem_filterMap]
  constructor
  · rintro ⟨⟨other, link⟩, isIn, kept⟩
    cases link <;> cases kept
    exact isIn
  · intro isIn
    exact ⟨_, isIn, rfl⟩

section Begin

variable {order : MapOrder} {candidates : List (String × Link)} {forced : Bool} {key : String}
  {id : ℤ}

theorem mem_of_keysById (found : (begin order candidates forced).keysById.get? id = some key)
    : (key, .anilist id) ∈ candidates :=
  mem_anilistOf.mp ((order.perm _).mem_iff.mp (mem_of_invert found))

variable (order forced) in
theorem keysById_of_mem (isIn : (key, .anilist id) ∈ candidates)
    : ∃ other, (begin order candidates forced).keysById.get? id = some other :=
  invert_of_mem ((order.perm _).mem_iff.mpr (mem_anilistOf.mpr isIn))

variable (order forced) in
theorem anilist_requested (isIn : (key, .anilist id) ∈ candidates)
    : ∃ ids, .anilist ids ∈ (begin order candidates forced).requests ∧ id ∈ ids := by
  obtain ⟨other, found⟩ := keysById_of_mem order forced isIn
  have isKey : id ∈ (begin order candidates forced).keysById.keys :=
    OrderedMap.mem_keys_iff.mpr ⟨other, found⟩
  have sorted := (List.mem_insertionSort (· ≤ ·)).mpr isKey
  rw [← List.nil_append (List.insertionSort _ _), ← chunksFrom_flatten ANILIST_BATCH_SIZE,
    List.mem_flatten] at sorted
  obtain ⟨ids, isChunk, asked⟩ := sorted
  exact ⟨ids, List.mem_append_left _ (List.mem_map_of_mem isChunk), asked⟩

theorem mal_requested
    : .mal key id ∈ (begin order candidates forced).requests ↔ (key, .mal id) ∈ candidates := by
  simp only [begin, List.mem_append, List.mem_map, List.mem_insertionSort, reduceCtorEq, and_false,
    exists_false, false_or, Request.mal.injEq]
  constructor
  · rintro ⟨_, ⟨entry, isIn, rfl⟩, rfl, rfl⟩
    exact mem_malOf.mp isIn
  · intro isIn
    exact ⟨toLex (key, id), ⟨(key, id), mem_malOf.mpr isIn, rfl⟩, rfl, rfl⟩

end Begin

-- What a run reaches

namespace Formats

variable (formats : Formats Media Data Normalized)

/-- AniList's answers in this run have this entry for the id. -/
def Answered (work : Work) (replies : Request → Reply Media Data) (id : ℤ) (item : Media) : Prop :=
  ∃ ids items, .anilist ids ∈ made work replies ∧ replies (.anilist ids) = .media items
    ∧ item ∈ items ∧ formats.id item = some id

/-- Each candidate that a service has answered for has details of that answer, of this run. -/
structure Reaches (candidates : List (String × Link)) (work : Work)
    (replies : Request → Reply Media Data) (stamps : Request → Option ℤ)
    (details : OrderedMap String (CommunityDetails Normalized)) : Prop where
  anilist : ∀ key id, (key, .anilist id) ∈ candidates →
    (∃ item, formats.Answered work replies id item) →
    ∃ item stamp, formats.Answered work replies id item
      ∧ (key, ⟨formats.normalizeAnilist item, .anilist, stamp⟩)
        ∈ formats.runOnce work replies stamps
      ∧ (upsertAll details (formats.runOnce work replies stamps)).get? key
        = some ⟨formats.normalizeAnilist item, .anilist, stamp⟩
  mal : ∀ key id data, (key, .mal id) ∈ candidates → .mal key id ∈ made work replies →
    replies (.mal key id) = .data data →
    ∃ stamp, (upsertAll details (formats.runOnce work replies stamps)).get? key
      = some ⟨formats.normalizeJikan data, .mal, stamp⟩

variable {formats} {work : Work} {replies : Request → Reply Media Data}
  {stamps : Request → Option ℤ} {key : String} {row : CommunityDetails Normalized}

theorem mem_runOnce (isIn : (key, row) ∈ formats.runOnce work replies stamps)
    : (∃ id item stamp, formats.Answered work replies id item
        ∧ work.keysById.get? id = some key ∧ row = ⟨formats.normalizeAnilist item, .anilist, stamp⟩)
      ∨ ∃ id data stamp, .mal key id ∈ made work replies ∧ replies (.mal key id) = .data data
        ∧ row = ⟨formats.normalizeJikan data, .mal, stamp⟩ := by
  obtain ⟨request, isMade, stored⟩ := List.mem_flatMap.mp isIn
  cases request with
  | anilist ids =>
      cases reply : replies (.anilist ids) with
      | media items =>
          rw [reply] at stored
          obtain ⟨item, isItem, kept⟩ := List.mem_filterMap.mp stored
          obtain ⟨id, own, rest⟩ := Option.bind_eq_some_iff.mp kept
          obtain ⟨other, leads, same⟩ := Option.bind_eq_some_iff.mp rest
          cases same
          exact .inl ⟨id, item, _, ⟨ids, items, isMade, reply, isItem, own⟩, leads, rfl⟩
      | _ =>
          rw [reply] at stored
          cases stored
  | mal other id =>
      cases reply : replies (.mal other id) with
      | data data =>
          rw [reply] at stored
          cases List.mem_singleton.mp stored
          exact .inr ⟨id, data, _, isMade, reply, rfl⟩
      | _ =>
          rw [reply] at stored
          cases stored

variable (stamps) in
theorem runOnce_of_answered {id : ℤ} {item : Media}
    (answered : formats.Answered work replies id item)
    (leads : work.keysById.get? id = some key)
    : ∃ row, (key, row) ∈ formats.runOnce work replies stamps := by
  obtain ⟨ids, items, isMade, reply, isItem, own⟩ := answered
  refine ⟨⟨formats.normalizeAnilist item, .anilist, stamps (.anilist ids)⟩,
    List.mem_flatMap.mpr ⟨_, isMade, ?_⟩⟩
  rw [reply]
  refine List.mem_filterMap.mpr ⟨item, isItem, ?_⟩
  simp [own, leads]

theorem reaches_iff {facts : OrderedMap String ExternalIds}
    {details : OrderedMap String (CommunityDetails Normalized)} {only : Option (List String)}
    {force forced : Bool} {now : ℤ} {order : MapOrder}
    : formats.Reaches (candidates facts details only force now)
        (begin order (candidates facts details only force now) forced) replies stamps details
      ↔ ∀ first second id item,
        (first, .anilist id) ∈ candidates facts details only force now →
        (second, .anilist id) ∈ candidates facts details only force now →
        formats.Answered (begin order (candidates facts details only force now) forced) replies id
          item → first = second := by
  obtain ⟨listed, isListed⟩ : ∃ listed, candidates facts details only force now = listed := ⟨_, rfl⟩
  have unique {key : String} {link other : Link} (one : (key, link) ∈ listed)
      (two : (key, other) ∈ listed) : link = other := by
    subst isListed
    exact candidates_unique one two
  rw [isListed]
  constructor
  · intro reaches first second id item one two answered
    -- Whoever has a row of the answer is the one that the id leads to.
    have leads (key : String) (isCandidate : (key, .anilist id) ∈ listed)
        : (begin order listed forced).keysById.get? id = some key := by
      obtain ⟨_, _, _, stored, _⟩ := reaches.anilist key id isCandidate ⟨item, answered⟩
      obtain ⟨other, _, _, _, leads, _⟩ | ⟨_, _, _, _, _, same⟩ := mem_runOnce stored
      · cases unique isCandidate (mem_of_keysById leads)
        exact leads
      · exact absurd (congrArg CommunityDetails.source same) nofun
    exact Option.some.inj ((leads first one).symm.trans (leads second two))
  · intro apart
    constructor
    · rintro key id isCandidate ⟨item, answered⟩
      obtain ⟨other, leads⟩ := keysById_of_mem order forced isCandidate
      obtain rfl := apart other key id item (mem_of_keysById leads) isCandidate answered
      obtain ⟨row, stored, found⟩ :=
        get?_upsertAll details (runOnce_of_answered stamps answered leads)
      obtain ⟨_, item, stamp, answer, leadsTo, rfl⟩ | ⟨_, _, _, isMade, _, rfl⟩ :=
        mem_runOnce stored
      · cases unique isCandidate (mem_of_keysById leadsTo)
        exact ⟨item, stamp, answer, stored, found⟩
      · have isMal := mal_requested.mp ((List.takeWhile_sublist _).mem isMade)
        cases unique isCandidate isMal
    · intro key id data isCandidate isMade reply
      have stored : ∃ row, (key, row) ∈ formats.runOnce (begin order listed forced) replies
          stamps := by
        refine ⟨⟨formats.normalizeJikan data, .mal, stamps (.mal key id)⟩,
          List.mem_flatMap.mpr ⟨_, isMade, ?_⟩⟩
        rw [reply]
        exact List.mem_singleton.mpr rfl
      obtain ⟨row, isIn, found⟩ := get?_upsertAll details stored
      obtain ⟨_, _, _, _, leadsTo, rfl⟩ | ⟨_, other, stamp, isOther, same, rfl⟩ :=
        mem_runOnce isIn
      · cases unique isCandidate (mem_of_keysById leadsTo)
      · have isMal := mal_requested.mp ((List.takeWhile_sublist _).mem isOther)
        cases unique isCandidate isMal
        cases reply.symm.trans same
        exact ⟨stamp, found⟩

end Formats

end MokuroBunko.Library.Community
