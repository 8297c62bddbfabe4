import MokuroBunko.Dav.LockTable
import Mathlib.Algebra.BigOperators.Group.List.Basic
import Mathlib.Data.List.MinMax

/-! The cache of `Depth: infinity` listings (`cache.rs`). A listing is generated outside the
mutex and stored afterwards, unless an invalidation came in between.
-/

namespace MokuroBunko.Dav

open MokuroBunko.Lib

structure CacheConfig where
  budgetBytes : ℕ
  ttl : ℕ
  staleTtl : ℕ
  maxEntries : ℕ

/-- One compressed listing. `began` is no field of the code's: it records the moment of the run
at which the generation of the listing began. -/
structure Entry where
  gzPrefix : List UInt8
  crc : UInt32
  rawLen : ℕ
  generated : Instant
  lastUsed : ℕ
  began : ℕ
deriving DecidableEq

def Entry.size (entry : Entry) : ℕ := entry.gzPrefix.length

structure CacheState where
  entries : OrderedMap String Entry
  bytes : ℕ
  tick : ℕ
  epoch : ℕ
  refreshing : List String
  stopped : Bool

/-- `trim_end_matches('/')`. -/
def trimSlashes (path : String) : List Char :=
  (path.toList.reverse.dropWhile (· == '/')).reverse

def isEqualOrChild (parent child : String) : Bool :=
  (trimSlashes parent ++ ['/']).isPrefixOf (trimSlashes child ++ ['/'])

namespace CacheState

variable (state : CacheState)

def empty : CacheState where
  entries := .empty
  bytes := 0
  tick := 0
  epoch := 0
  refreshing := []
  stopped := false

/-- Take an entry out and its size off the total. -/
def remove (key : String) : CacheState :=
  match state.entries.get? key with
  | none => state
  | some old => {
      state with
      entries := state.entries.erase key
      bytes := state.bytes - old.size
    }

/-- The eviction loop of `insert`: every round takes the least recently used entry out, so
there are no more rounds than entries. -/
def evict (cfg : CacheConfig) (size : ℕ) : ℕ → CacheState → CacheState
  | 0, state => state
  | rounds + 1, state =>
      if (cfg.budgetBytes < state.bytes + size || cfg.maxEntries ≤ state.entries.entries.length)
          && !state.entries.isEmpty then
        match state.entries.entries.argmin (fun entry => entry.2.lastUsed) with
        | none => state
        | some victim => evict cfg size rounds (state.remove victim.1)
      else state

def insert (cfg : CacheConfig) (key : String) (entry : Entry) (epoch : ℕ) : CacheState :=
  if state.stopped || state.epoch != epoch then state
  else if cfg.budgetBytes < entry.size then state
  else
    let cleared := state.remove key
    let roomy := evict cfg entry.size cleared.entries.entries.length cleared
    {
      roomy with
      tick := roomy.tick + 1
      bytes := roomy.bytes + entry.size
      entries := roomy.entries.insert key { entry with lastUsed := roomy.tick + 1 }
    }

/-- The entry found, and whether a background refresh of it is to be spawned. -/
def lookupFresh (cfg : CacheConfig) (now : Instant) (key : String)
    : CacheState × Option Entry × Bool :=
  let ticked := { state with tick := state.tick + 1 }
  match ticked.entries.get? key with
  | none => (ticked, none, false)
  | some entry =>
      let age := now - entry.generated
      if cfg.staleTtl ≤ age then (ticked, none, false)
      else
        let touch := fun (entry : Entry) => { entry with lastUsed := ticked.tick }
        let used := { ticked with entries := ticked.entries.modify key touch }
        if cfg.ttl ≤ age && !used.refreshing.contains key then
          ({ used with refreshing := key :: used.refreshing }, some (touch entry), true)
        else (used, some (touch entry), false)

def invalidatePaths (paths : List String) : CacheState :=
  let doomed := state.entries.keys.filter (fun key =>
    paths.any (fun path => isEqualOrChild key path || isEqualOrChild path key))
  doomed.foldl remove { state with epoch := state.epoch + 1 }

def invalidate : CacheState where
  entries := .empty
  bytes := 0
  tick := state.tick
  epoch := state.epoch + 1
  refreshing := state.refreshing
  stopped := state.stopped

/-- The end of a background refresh. -/
def refreshed (key : String) : CacheState where
  entries := state.entries
  bytes := state.bytes
  tick := state.tick
  epoch := state.epoch
  refreshing := state.refreshing.filter (· ≠ key)
  stopped := state.stopped

end CacheState

-- Requests and refreshes side by side

/-- A `get` or a background refresh between two of its steps. `called` is when the `get` was
called, and nothing for a refresh. -/
inductive Thread where
  | asking (key : String) (called : ℕ)
  | waiting (key : String) (called : ℕ)
  | starting (key : String) (called : Option ℕ)
  | reading (key : String) (called : Option ℕ) (epoch : ℕ)
  | generating (key : String) (called : Option ℕ) (epoch began : ℕ)

/-- What a `get` returned. -/
structure Answer where
  key : String
  called : ℕ
  entry : Entry

structure CacheWorld where
  cache : CacheState
  threads : OrderedMap ℕ Thread
  nextThread : ℕ
  /-- How many events have happened. -/
  moment : ℕ
  /-- The paths of every `invalidate_paths` and the moment it ran. -/
  invalidations : List (List String × ℕ)
  answers : List Answer

/-- What can happen next. A thread goes on with the clock it reads and the listing its
generation made; the flight mutexes and the generation slots only make a thread wait, so the
events come in any order. A request that is given up drops its thread. -/
inductive CacheEvent where
  | call (key : String)
  | go (id : ℕ) (now : Instant) (made : Option Entry)
  | giveUp (id : ℕ)
  | invalidatePaths (paths : List String)
  | invalidate
  | refreshAll
  | stop

namespace CacheWorld

variable (world : CacheWorld)

def start : CacheWorld where
  cache := .empty
  threads := .empty
  nextThread := 0
  moment := 0
  invalidations := []
  answers := []

def setThread (id : ℕ) (thread : Thread) : CacheWorld :=
  { world with threads := world.threads.insert id thread }

def endThread (id : ℕ) : CacheWorld :=
  { world with threads := world.threads.erase id }

def spawn (thread : Thread) : CacheWorld :=
  { world.setThread world.nextThread thread with nextThread := world.nextThread + 1 }

/-- `spawn_refresh`. -/
def spawnRefresh (runtime : Bool) (key : String) : CacheWorld :=
  if runtime then world.spawn (.starting key none)
  else { world with cache := world.cache.refreshed key }

/-- A `get` looks its key up, and on a miss goes on as `next`. -/
def look (cfg : CacheConfig) (runtime : Bool) (id : ℕ) (now : Instant) (key : String)
    (called : ℕ) (next : Thread) : CacheWorld :=
  match world.cache.lookupFresh cfg now key with
  | (cache, none, _) => { world with cache }.setThread id next
  | (cache, some entry, stale) =>
      let answered := {
        world.endThread id with
        cache
        answers := { key, called, entry } :: world.answers
      }
      if stale then answered.spawnRefresh runtime key else answered

/-- The generation of a listing ended with `made`. -/
def finish (cfg : CacheConfig) (id : ℕ) (key : String) (called : Option ℕ) (epoch began : ℕ)
    (made : Option Entry) : CacheWorld :=
  let made := made.map (fun entry => { entry with began })
  let cache := match made with
    | none => world.cache
    | some entry => world.cache.insert cfg key entry epoch
  let left := { world.endThread id with cache }
  match called, made with
  | none, _ => { left with cache := cache.refreshed key }
  | some _, none => left
  | some called, some entry =>
      { left with answers := { key, called, entry } :: world.answers }

/-- The next step of a thread. -/
def go (cfg : CacheConfig) (runtime : Bool) (id : ℕ) (now : Instant) (made : Option Entry)
    : CacheWorld :=
  match world.threads.get? id with
  | none => world
  | some (.asking key called) => world.look cfg runtime id now key called (.waiting key called)
  | some (.waiting key called) =>
      world.look cfg runtime id now key called (.starting key (some called))
  | some (.starting key called) => world.setThread id (.reading key called world.cache.epoch)
  | some (.reading key called epoch) =>
      world.setThread id (.generating key called epoch world.moment)
  | some (.generating key called epoch began) => world.finish cfg id key called epoch began made

def refreshAll (runtime : Bool) : CacheWorld :=
  let keys := world.cache.entries.keys.filter (fun key => !world.cache.refreshing.contains key)
  keys.foldl (fun (world : CacheWorld) key => world.spawnRefresh runtime key)
    { world with cache := {
        world.cache with refreshing := keys ++ world.cache.refreshing
      } }

/-- The world after the event, apart from the count of moments. -/
def happened (cfg : CacheConfig) (runtime : Bool) : CacheEvent → CacheWorld
  | .call key => world.spawn (.asking key world.moment)
  | .go id now made => world.go cfg runtime id now made
  | .giveUp id => world.endThread id
  | .invalidatePaths paths => {
      world with
      cache := world.cache.invalidatePaths paths
      invalidations := (paths, world.moment) :: world.invalidations
    }
  | .invalidate => { world with cache := world.cache.invalidate }
  | .refreshAll => world.refreshAll runtime
  | .stop => { world with cache := { world.cache with stopped := true } }

def run (cfg : CacheConfig) (runtime : Bool) (event : CacheEvent) : CacheWorld :=
  let next := world.happened cfg runtime event
  { next with moment := next.moment + 1 }

/-- The world after the events. -/
def ran (cfg : CacheConfig) (runtime : Bool) (events : List CacheEvent) : CacheWorld :=
  events.foldl (fun (world : CacheWorld) event => world.run cfg runtime event) start

end CacheWorld

-- The rule of invalidation

/-- The path `child` is the path `parent` or below it, slashes at their ends aside. -/
def AtOrBelow (parent child : String) : Prop :=
  trimSlashes child = trimSlashes parent
    ∨ ∃ rest, trimSlashes child = trimSlashes parent ++ '/' :: rest

theorem isEqualOrChild_iff {parent child : String}
    : isEqualOrChild parent child = true ↔ AtOrBelow parent child := by
  unfold isEqualOrChild AtOrBelow
  rw [List.isPrefixOf_iff_prefix, List.prefix_concat_iff, List.append_left_inj, eq_comm]
  apply or_congr_right
  constructor
  · intro continued
    obtain ⟨rest, whole⟩ := continued
    exact ⟨rest, by simp [← whole]⟩
  · intro continued
    obtain ⟨rest, whole⟩ := continued
    exact ⟨rest, by simp [whole]⟩

/-- A listing and a path concern each other when one is at or below the other. -/
def Related (key path : String) : Prop := AtOrBelow key path ∨ AtOrBelow path key

-- Accounting

namespace CacheState

variable {state : CacheState} {cfg : CacheConfig}

/-- The sizes of the entries held, summed. -/
def total (entries : OrderedMap String Entry) : ℕ := (entries.values.map Entry.size).sum

/-- The recorded total is the real one and both bounds hold. -/
structure Accounted (cfg : CacheConfig) (state : CacheState) : Prop where
  exact : state.bytes = total state.entries
  budget : state.bytes ≤ cfg.budgetBytes
  count : state.entries.entries.length ≤ max cfg.maxEntries 1

theorem total_erase {entries : OrderedMap String Entry} {key : String} {entry : Entry}
    (found : entries.get? key = some entry)
    : total entries = entry.size + total (entries.erase key) := by
  have split := (OrderedMap.values_perm_erase found).map Entry.size
  exact split.sum_eq.trans List.sum_cons

theorem total_insert {entries : OrderedMap String Entry} {key : String} {entry : Entry}
    (fresh : entries.get? key = none)
    : total (entries.insert key entry) = total entries + entry.size := by
  simp [total, OrderedMap.values_insert_fresh fresh]

/-- What taking entries out may change: fewer entries, and a total that stays right. -/
structure Shrunk (before after : CacheState) : Prop where
  exact : before.bytes = total before.entries → after.bytes = total after.entries
  bytes : after.bytes ≤ before.bytes
  count : after.entries.entries.length ≤ before.entries.entries.length
  among
    : ∀ key entry, after.entries.get? key = some entry → before.entries.get? key = some entry
  epoch : after.epoch = before.epoch

theorem Shrunk.refl (state : CacheState) : Shrunk state state :=
  ⟨id, le_rfl, le_rfl, fun _ _ => id, rfl⟩

theorem Shrunk.trans {first second third : CacheState} (early : Shrunk first second)
    (late : Shrunk second third)
    : Shrunk first third where
  exact right := late.exact (early.exact right)
  bytes := late.bytes.trans early.bytes
  count := late.count.trans early.count
  among key entry found := early.among key entry (late.among key entry found)
  epoch := late.epoch.trans early.epoch

theorem get?_remove (state : CacheState) (key asked : String)
    : (state.remove key).entries.get? asked
      = if asked = key then none else state.entries.get? asked := by
  unfold remove
  cases found : state.entries.get? key with
  | none =>
      dsimp only
      split
      case isTrue same => rw [same, found]
      case isFalse => rfl
  | some old => exact OrderedMap.get?_erase ..

theorem Shrunk.remove (state : CacheState) (key : String) : Shrunk state (state.remove key) where
  exact right := by
    unfold CacheState.remove
    cases found : state.entries.get? key with
    | none => exact right
    | some old =>
        dsimp only
        rw [right, total_erase found, Nat.add_sub_cancel_left]
  bytes := by
    unfold CacheState.remove
    split
    · exact le_rfl
    · exact Nat.sub_le ..
  count := by
    unfold CacheState.remove
    split
    · exact le_rfl
    · exact List.length_filter_le ..
  among asked entry found := by
    rw [get?_remove] at found
    split at found
    · cases found
    · exact found
  epoch := by
    unfold CacheState.remove
    split <;> rfl

theorem length_remove {key : String} {entry : Entry}
    (found : state.entries.get? key = some entry)
    : state.entries.entries.length = (state.remove key).entries.entries.length + 1 := by
  have split := (OrderedMap.values_perm_erase found).length_eq
  unfold remove
  rw [found]
  simpa only [OrderedMap.values, List.length_map, List.length_cons] using split

theorem evict_spec (cfg : CacheConfig) (size rounds : ℕ) (state : CacheState)
    (enough : state.entries.entries.length ≤ rounds)
    : Shrunk state (evict cfg size rounds state)
      ∧ ((evict cfg size rounds state).entries.entries = []
        ∨ ((evict cfg size rounds state).bytes + size ≤ cfg.budgetBytes
          ∧ (evict cfg size rounds state).entries.entries.length < cfg.maxEntries)) := by
  induction rounds generalizing state with
  | zero =>
      refine ⟨.refl state, .inl ?_⟩
      exact List.length_eq_zero_iff.mp (Nat.le_zero.mp enough)
  | succ rounds ih =>
      rw [evict]
      split
      case isFalse roomy =>
        refine ⟨.refl state, ?_⟩
        simp only [Bool.and_eq_true, Bool.or_eq_true, decide_eq_true_eq, Bool.not_eq_true',
          OrderedMap.isEmpty, List.isEmpty_eq_false_iff, not_and_or, not_or, not_lt, not_le,
          not_not] at roomy
        exact roomy.symm
      case isTrue crowded =>
        cases oldest : state.entries.entries.argmin (fun entry => entry.2.lastUsed) with
        | none =>
            refine ⟨.refl state, .inl ?_⟩
            exact List.argmin_eq_none.mp oldest
        | some victim =>
            dsimp only
            have found := OrderedMap.mem_entries_iff.mp (List.argmin_mem oldest)
            have fewer := length_remove found
            obtain ⟨shrunk, ended⟩ := ih (state.remove victim.1) (by omega)
            exact ⟨(Shrunk.remove state victim.1).trans shrunk, ended⟩

theorem insert_cases (cfg : CacheConfig) (key : String) (entry : Entry) (epoch : ℕ)
    : state.insert cfg key entry epoch = state
      ∨ (state.epoch = epoch ∧ entry.size ≤ cfg.budgetBytes
        ∧ ∃ roomy, Shrunk state roomy ∧ roomy.entries.get? key = none
          ∧ (roomy.entries.entries = []
            ∨ (roomy.bytes + entry.size ≤ cfg.budgetBytes
              ∧ roomy.entries.entries.length < cfg.maxEntries))
          ∧ state.insert cfg key entry epoch = {
            roomy with
            tick := roomy.tick + 1
            bytes := roomy.bytes + entry.size
            entries := roomy.entries.insert key { entry with lastUsed := roomy.tick + 1 }
          }) := by
  unfold CacheState.insert
  split
  case isTrue => exact .inl rfl
  case isFalse current =>
    split
    case isTrue => exact .inl rfl
    case isFalse fits =>
      obtain ⟨shrunk, ended⟩ := evict_spec cfg entry.size _ (state.remove key) le_rfl
      refine .inr ⟨?_, not_lt.mp fits, _, (Shrunk.remove state key).trans shrunk, ?_, ended, rfl⟩
      · simp only [Bool.or_eq_true, bne_iff_ne, not_or, not_not] at current
        exact current.2
      · rw [Option.eq_none_iff_forall_not_mem]
        intro kept found
        have old := shrunk.among key kept found
        rw [get?_remove, if_pos rfl] at old
        cases old

theorem Accounted.insert (accounted : Accounted cfg state) (key : String) (entry : Entry)
    (epoch : ℕ)
    : Accounted cfg (state.insert cfg key entry epoch) := by
  obtain same | ⟨_, fits, roomy, shrunk, absent, ended, same⟩ := insert_cases cfg key entry epoch
  · rw [same]
    exact accounted
  · have right := shrunk.exact accounted.exact
    rw [same]
    constructor
    · dsimp only
      rw [total_insert absent, right]
      rfl
    · obtain empty | ⟨room, _⟩ := ended
      · have nothing : roomy.bytes = 0 := by
          rw [right, total, OrderedMap.values, empty]
          rfl
        dsimp only
        omega
      · exact room
    · have grown := roomy.entries.length_insert_le key { entry with lastUsed := roomy.tick + 1 }
      obtain empty | ⟨_, room⟩ := ended
      · rw [empty] at grown
        exact grown.trans (le_max_right _ _)
      · exact (grown.trans room).trans (le_max_left _ _)

theorem lookupFresh_cases (state : CacheState) (cfg : CacheConfig) (now : Instant) (key : String)
    : ∃ used : CacheState, (state.lookupFresh cfg now key).1 = used
      ∧ used.bytes = state.bytes ∧ used.epoch = state.epoch
      ∧ (used.entries = state.entries
        ∨ ∃ tick, used.entries
          = state.entries.modify key (fun entry => { entry with lastUsed := tick }))
      ∧ ∀ entry, (state.lookupFresh cfg now key).2.1 = some entry
        → ∃ held, state.entries.get? key = some held ∧ held.began = entry.began := by
  refine ⟨_, rfl, ?_⟩
  unfold lookupFresh
  dsimp only
  cases found : state.entries.get? key with
  | none => exact ⟨rfl, rfl, .inl rfl, nofun⟩
  | some held =>
      dsimp only
      split
      · exact ⟨rfl, rfl, .inl rfl, nofun⟩
      · have answers : ∀ entry, some { held with lastUsed := state.tick + 1 } = some entry
            → ∃ old, some held = some old ∧ old.began = entry.began := by
          intro entry same
          obtain rfl := Option.some.inj same
          exact ⟨held, rfl, rfl⟩
        split
        · exact ⟨rfl, rfl, .inr ⟨_, rfl⟩, answers⟩
        · exact ⟨rfl, rfl, .inr ⟨_, rfl⟩, answers⟩

theorem total_touched (entries : OrderedMap String Entry) (key : String) (tick : ℕ)
    : total (entries.modify key (fun entry => { entry with lastUsed := tick }))
      = total entries := by
  unfold total OrderedMap.values OrderedMap.modify
  simp only [List.map_map]
  congr 1
  apply List.map_congr_left
  intro entry _
  by_cases same : entry.1 = key <;> simp [same, Entry.size]

theorem Accounted.lookupFresh (accounted : Accounted cfg state) (now : Instant) (key : String)
    : Accounted cfg (state.lookupFresh cfg now key).1 := by
  obtain ⟨used, same, bytes, _, entries, _⟩ := lookupFresh_cases state cfg now key
  rw [same]
  obtain alike | ⟨tick, touched⟩ := entries
  · exact ⟨bytes ▸ alike ▸ accounted.exact, bytes ▸ accounted.budget, alike ▸ accounted.count⟩
  · constructor
    · rw [bytes, touched, total_touched]
      exact accounted.exact
    · exact bytes ▸ accounted.budget
    · rw [touched]
      simpa only [OrderedMap.modify, List.length_map] using accounted.count

theorem foldl_remove (keys : List String) (state : CacheState)
    : Shrunk state (keys.foldl remove state)
      ∧ ∀ key ∈ keys, (keys.foldl remove state).entries.get? key = none := by
  induction keys generalizing state with
  | nil => exact ⟨.refl state, nofun⟩
  | cons key rest ih =>
      obtain ⟨shrunk, gone⟩ := ih (state.remove key)
      refine ⟨(Shrunk.remove state key).trans shrunk, ?_⟩
      intro asked member
      rcases List.mem_cons.mp member with same | later
      · rw [same, Option.eq_none_iff_forall_not_mem]
        intro entry found
        have old := shrunk.among key entry found
        rw [get?_remove, if_pos rfl] at old
        cases old
      · exact gone asked later

theorem invalidatePaths_spec (state : CacheState) (paths : List String)
    : Shrunk { state with epoch := state.epoch + 1 } (state.invalidatePaths paths)
      ∧ ∀ key entry, (state.invalidatePaths paths).entries.get? key = some entry
        → ¬ ∃ path ∈ paths, Related key path := by
  obtain ⟨shrunk, gone⟩ := foldl_remove (state.entries.keys.filter (fun key =>
    paths.any (fun path => isEqualOrChild key path || isEqualOrChild path key)))
    { state with epoch := state.epoch + 1 }
  refine ⟨shrunk, ?_⟩
  intro key entry found concerned
  obtain ⟨path, member, related⟩ := concerned
  have held := shrunk.among key entry found
  have doomed : key ∈ state.entries.keys.filter (fun key =>
      paths.any (fun path => isEqualOrChild key path || isEqualOrChild path key)) := by
    refine List.mem_filter.mpr ⟨OrderedMap.mem_keys_iff.mpr ⟨entry, held⟩, ?_⟩
    rw [List.any_eq_true]
    refine ⟨path, member, ?_⟩
    rw [Bool.or_eq_true, isEqualOrChild_iff, isEqualOrChild_iff]
    exact related
  rw [invalidatePaths, gone key doomed] at found
  cases found

theorem Accounted.shrunk (accounted : Accounted cfg state) {after : CacheState}
    (shrunk : Shrunk state after)
    : Accounted cfg after :=
  ⟨shrunk.exact accounted.exact, shrunk.bytes.trans accounted.budget,
    shrunk.count.trans accounted.count⟩

theorem Accounted.invalidatePaths (accounted : Accounted cfg state) (paths : List String)
    : Accounted cfg (state.invalidatePaths paths) := by
  have counted : Accounted cfg { state with epoch := state.epoch + 1 } :=
    ⟨accounted.exact, accounted.budget, accounted.count⟩
  exact counted.shrunk (invalidatePaths_spec state paths).1

theorem accounted_nothing {state : CacheState} (bytes : state.bytes = 0)
    (entries : state.entries = .empty)
    : Accounted cfg state := by
  constructor
  · rw [bytes, entries]
    rfl
  · rw [bytes]
    exact Nat.zero_le _
  · rw [entries]
    exact Nat.zero_le _

end CacheState

-- What holds of every run

namespace CacheWorld

variable {world : CacheWorld} {cfg : CacheConfig}

/-- The entry was begun after every invalidation that concerns its key. -/
def Newer (invalidations : List (List String × ℕ)) (key : String) (began : ℕ) : Prop :=
  ∀ invalidation ∈ invalidations, (∃ path ∈ invalidation.1, Related key path)
    → invalidation.2 < began

/-- A thread's epoch is no later than the cache's; while it is the same, no invalidation has
come since the thread's generation began. -/
def Fits (moment epoch : ℕ) (invalidations : List (List String × ℕ)) : Thread → Prop
  | .asking _ called => called ≤ moment
  | .waiting _ called => called ≤ moment
  | .starting _ called => ∀ asked ∈ called, asked ≤ moment
  | .reading _ called drawn => drawn ≤ epoch ∧ ∀ asked ∈ called, asked ≤ moment
  | .generating _ called drawn began =>
      drawn ≤ epoch ∧ (drawn = epoch → ∀ invalidation ∈ invalidations, invalidation.2 < began)
        ∧ ∀ asked ∈ called, asked ≤ began ∧ asked ≤ moment

/-- What holds between two events. -/
structure Coherent (cfg : CacheConfig) (world : CacheWorld) : Prop where
  accounted : world.cache.Accounted cfg
  past : ∀ invalidation ∈ world.invalidations, invalidation.2 < world.moment
  current
    : ∀ key entry, world.cache.entries.get? key = some entry
        → Newer world.invalidations key entry.began
  threads
    : ∀ id thread, world.threads.get? id = some thread
        → Fits world.moment world.cache.epoch world.invalidations thread
  answered
    : ∀ answer ∈ world.answers, answer.called ≤ world.moment
        ∧ ∀ invalidation ∈ world.invalidations, invalidation.2 < answer.called
          → (∃ path ∈ invalidation.1, Related answer.key path)
          → invalidation.2 < answer.entry.began

theorem Coherent.setThread (coherent : Coherent cfg world) (id : ℕ) {thread : Thread}
    (fits : Fits world.moment world.cache.epoch world.invalidations thread)
    : Coherent cfg (world.setThread id thread) where
  accounted := coherent.accounted
  past := coherent.past
  current := coherent.current
  threads other found held := by
    unfold CacheWorld.setThread at held
    dsimp only at held
    rw [OrderedMap.get?_insert] at held
    split at held
    · obtain rfl := Option.some.inj held
      exact fits
    · exact coherent.threads other found held
  answered := coherent.answered

theorem Coherent.endThread (coherent : Coherent cfg world) (id : ℕ)
    : Coherent cfg (world.endThread id) where
  accounted := coherent.accounted
  past := coherent.past
  current := coherent.current
  threads other found held := by
    unfold CacheWorld.endThread at held
    dsimp only at held
    rw [OrderedMap.get?_erase] at held
    split at held
    · cases held
    · exact coherent.threads other found held
  answered := coherent.answered

theorem Coherent.spawn (coherent : Coherent cfg world) {thread : Thread}
    (fits : Fits world.moment world.cache.epoch world.invalidations thread)
    : Coherent cfg (world.spawn thread) := by
  have grown := coherent.setThread world.nextThread fits
  exact ⟨grown.accounted, grown.past, grown.current, grown.threads, grown.answered⟩

theorem Coherent.withCache (coherent : Coherent cfg world) {cache : CacheState}
    (accounted : cache.Accounted cfg) (epoch : world.cache.epoch ≤ cache.epoch)
    (current : ∀ key entry, cache.entries.get? key = some entry
      → Newer world.invalidations key entry.began)
    : Coherent cfg { world with cache } where
  accounted := accounted
  past := coherent.past
  current := current
  threads id thread held := by
    have fits := coherent.threads id thread held
    cases thread with
    | asking key called => exact fits
    | waiting key called => exact fits
    | starting key called => exact fits
    | reading key called drawn => exact ⟨fits.1.trans epoch, fits.2⟩
    | generating key called drawn began =>
        refine ⟨fits.1.trans epoch, ?_, fits.2.2⟩
        intro same
        apply fits.2.1
        exact Nat.le_antisymm fits.1 (same ▸ epoch)
  answered := coherent.answered

theorem Coherent.answer (coherent : Coherent cfg world) {answer : Answer}
    (called : answer.called ≤ world.moment)
    (newer : ∀ invalidation ∈ world.invalidations, invalidation.2 < answer.called
      → (∃ path ∈ invalidation.1, Related answer.key path)
      → invalidation.2 < answer.entry.began)
    : Coherent cfg { world with answers := answer :: world.answers } where
  accounted := coherent.accounted
  past := coherent.past
  current := coherent.current
  threads := coherent.threads
  answered other member := by
    rcases List.mem_cons.mp member with same | old
    · rw [same]
      exact ⟨called, newer⟩
    · exact coherent.answered other old

theorem Coherent.spawnRefresh (coherent : Coherent cfg world) (runtime : Bool) (key : String)
    : Coherent cfg (world.spawnRefresh runtime key) := by
  unfold CacheWorld.spawnRefresh
  split
  · exact coherent.spawn nofun
  · apply coherent.withCache
    · exact ⟨coherent.accounted.exact, coherent.accounted.budget, coherent.accounted.count⟩
    · exact le_rfl
    · exact coherent.current

theorem Coherent.look (coherent : Coherent cfg world) (runtime : Bool) (id : ℕ) (now : Instant)
    (key : String) {called : ℕ} (asked : called ≤ world.moment) {next : Thread}
    (fits : Fits world.moment world.cache.epoch world.invalidations next)
    : Coherent cfg (world.look cfg runtime id now key called next) := by
  obtain ⟨used, same, _, epoch, entries, answers⟩ :=
    CacheState.lookupFresh_cases world.cache cfg now key
  have newer : ∀ other entry, used.entries.get? other = some entry
      → Newer world.invalidations other entry.began := by
    intro other entry found
    obtain alike | ⟨tick, touched⟩ := entries
    · exact coherent.current other entry (alike ▸ found)
    · rw [touched, OrderedMap.get?_modify] at found
      split at found
      · obtain ⟨old, held, rfl⟩ := Option.map_eq_some_iff.mp found
        exact coherent.current other old held
      · exact coherent.current other entry found
  have accounted := coherent.accounted.lookupFresh now key
  unfold CacheWorld.look
  split
  case h_1 cache stale found =>
    rw [found] at same accounted
    obtain rfl : cache = used := same
    have changed := coherent.withCache accounted epoch.symm.le newer
    exact changed.setThread id (epoch ▸ fits)
  case h_2 cache entry stale found =>
    rw [found] at same accounted answers
    obtain rfl : cache = used := same
    obtain ⟨held, stored, began⟩ := answers entry rfl
    have changed := (coherent.withCache accounted epoch.symm.le newer).endThread id
    have newEnough : Newer world.invalidations key entry.began :=
      began ▸ coherent.current key held stored
    have replied : Coherent cfg {
        world.endThread id with
        cache
        answers := { key, called, entry } :: world.answers
      } := changed.answer asked (fun invalidation member _ => newEnough invalidation member)
    dsimp only
    split
    · exact replied.spawnRefresh runtime key
    · exact replied

theorem Coherent.store (coherent : Coherent cfg world) (key : String) {drawn : ℕ}
    (entry : Entry)
    (fits : drawn = world.cache.epoch
      → ∀ invalidation ∈ world.invalidations, invalidation.2 < entry.began)
    : Coherent cfg { world with cache := world.cache.insert cfg key entry drawn } := by
  have accounted := coherent.accounted.insert key entry drawn
  obtain same | ⟨sameEpoch, _, roomy, shrunk, _, _, same⟩ :=
    @CacheState.insert_cases world.cache cfg key entry drawn
  · rw [same]
    exact coherent
  · apply coherent.withCache accounted
    · rw [same]
      exact shrunk.epoch.symm.le
    · intro other kept found
      rw [same] at found
      dsimp only at found
      rw [OrderedMap.get?_insert] at found
      split at found
      · obtain rfl := Option.some.inj found
        exact fun invalidation member _ => fits sameEpoch.symm invalidation member
      · exact coherent.current other kept (shrunk.among other kept found)

theorem Coherent.finish (coherent : Coherent cfg world) (id : ℕ) (key : String)
    {called : Option ℕ} {drawn began : ℕ} (made : Option Entry)
    (fits : Fits world.moment world.cache.epoch world.invalidations
      (.generating key called drawn began))
    : Coherent cfg (world.finish cfg id key called drawn began made) := by
  have refreshed : ∀ {world : CacheWorld}, Coherent cfg world
      → Coherent cfg { world with cache := world.cache.refreshed key } := by
    intro world coherent
    apply coherent.withCache
    · exact ⟨coherent.accounted.exact, coherent.accounted.budget, coherent.accounted.count⟩
    · exact le_rfl
    · exact coherent.current
  unfold CacheWorld.finish
  cases made with
  | none =>
      cases called with
      | none => exact refreshed (coherent.endThread id)
      | some called => exact coherent.endThread id
  | some entry =>
      have stored := (coherent.store key { entry with began } fits.2.1).endThread id
      cases called with
      | none => exact refreshed stored
      | some called =>
          apply stored.answer
          · exact (fits.2.2 called rfl).2
          · intro invalidation _ before _
            exact before.trans_le (fits.2.2 called rfl).1

theorem Coherent.go (coherent : Coherent cfg world) (runtime : Bool) (id : ℕ) (now : Instant)
    (made : Option Entry)
    : Coherent cfg (world.go cfg runtime id now made) := by
  unfold CacheWorld.go
  cases held : world.threads.get? id with
  | none => exact coherent
  | some thread =>
      have fits := coherent.threads id thread held
      cases thread with
      | asking key called => exact coherent.look runtime id now key fits fits
      | waiting key called =>
          apply coherent.look runtime id now key fits
          intro asked same
          obtain rfl := Option.some.inj same
          exact fits
      | starting key called => exact coherent.setThread id ⟨le_rfl, fits⟩
      | reading key called drawn =>
          refine coherent.setThread id ⟨fits.1, fun _ => coherent.past, ?_⟩
          intro asked same
          exact ⟨fits.2 asked same, fits.2 asked same⟩
      | generating key called drawn began => exact coherent.finish id key made fits

theorem Coherent.refreshAll (coherent : Coherent cfg world) (runtime : Bool)
    : Coherent cfg (world.refreshAll runtime) := by
  have spawned : ∀ (keys : List String) {world : CacheWorld}, Coherent cfg world
      → Coherent cfg (keys.foldl
        (fun (world : CacheWorld) key => world.spawnRefresh runtime key) world) := by
    intro keys
    induction keys with
    | nil => exact fun coherent => coherent
    | cons key rest ih => exact fun coherent => ih (coherent.spawnRefresh runtime key)
  apply spawned
  apply coherent.withCache
  · exact ⟨coherent.accounted.exact, coherent.accounted.budget, coherent.accounted.count⟩
  · exact le_rfl
  · exact coherent.current

theorem Coherent.tick (coherent : Coherent cfg world)
    : Coherent cfg { world with moment := world.moment + 1 } where
  accounted := coherent.accounted
  past invalidation member := (coherent.past invalidation member).trans (Nat.lt_succ_self _)
  current := coherent.current
  threads id thread held := by
    have fits := coherent.threads id thread held
    have later : ∀ {called : ℕ}, called ≤ world.moment → called ≤ world.moment + 1 :=
      fun early => early.trans (Nat.le_succ _)
    cases thread with
    | asking key called => exact later fits
    | waiting key called => exact later fits
    | starting key called => exact fun asked same => later (fits asked same)
    | reading key called drawn => exact ⟨fits.1, fun asked same => later (fits.2 asked same)⟩
    | generating key called drawn began =>
        refine ⟨fits.1, fits.2.1, ?_⟩
        intro asked same
        exact ⟨(fits.2.2 asked same).1, later (fits.2.2 asked same).2⟩
  answered answer member := by
    obtain ⟨called, newer⟩ := coherent.answered answer member
    exact ⟨called.trans (Nat.le_succ _), newer⟩

theorem Coherent.invalidatePaths (coherent : Coherent cfg world) (paths : List String)
    : Coherent cfg {
        world with
        cache := world.cache.invalidatePaths paths
        invalidations := (paths, world.moment) :: world.invalidations
        moment := world.moment + 1
      } where
  accounted := coherent.accounted.invalidatePaths paths
  past invalidation member := by
    rcases List.mem_cons.mp member with same | old
    · rw [same]
      exact Nat.lt_succ_self _
    · exact (coherent.past invalidation old).trans (Nat.lt_succ_self _)
  current key entry found := by
    obtain ⟨shrunk, gone⟩ := CacheState.invalidatePaths_spec world.cache paths
    intro invalidation member concerned
    rcases List.mem_cons.mp member with same | old
    · subst same
      exact absurd concerned (gone key entry found)
    · exact coherent.current key entry (shrunk.among key entry found) invalidation old concerned
  threads id thread held := by
    have fits := coherent.tick.threads id thread held
    have epoch : (world.cache.invalidatePaths paths).epoch = world.cache.epoch + 1 :=
      (CacheState.invalidatePaths_spec world.cache paths).1.epoch
    cases thread with
    | asking key called => exact fits
    | waiting key called => exact fits
    | starting key called => exact fits
    | reading key called drawn => exact ⟨epoch ▸ fits.1.trans (Nat.le_succ _), fits.2⟩
    | generating key called drawn began =>
        refine ⟨epoch ▸ fits.1.trans (Nat.le_succ _), ?_, fits.2.2⟩
        intro same
        have earlier : drawn ≤ world.cache.epoch := fits.1
        dsimp only at same
        omega
  answered answer member := by
    obtain ⟨called, newer⟩ := coherent.answered answer member
    refine ⟨called.trans (Nat.le_succ _), ?_⟩
    intro invalidation among before concerned
    rcases List.mem_cons.mp among with same | old
    · rw [same] at before
      exact absurd before (Nat.not_lt_of_le called)
    · exact newer invalidation old before concerned

theorem Coherent.run (coherent : Coherent cfg world) (runtime : Bool) (event : CacheEvent)
    : Coherent cfg (world.run cfg runtime event) := by
  unfold CacheWorld.run
  cases event with
  | call key => exact (coherent.spawn le_rfl).tick
  | go id now made => exact (coherent.go runtime id now made).tick
  | giveUp id => exact (coherent.endThread id).tick
  | invalidatePaths paths => exact coherent.invalidatePaths paths
  | invalidate =>
      have emptied : Coherent cfg { world with cache := world.cache.invalidate } := by
        apply coherent.withCache
        · exact CacheState.accounted_nothing rfl rfl
        · exact Nat.le_succ _
        · exact nofun
      exact emptied.tick
  | refreshAll => exact (coherent.refreshAll runtime).tick
  | stop =>
      have stopped : Coherent cfg
          { world with cache := { world.cache with stopped := true } } := by
        apply coherent.withCache
        · exact ⟨coherent.accounted.exact, coherent.accounted.budget, coherent.accounted.count⟩
        · exact le_rfl
        · exact coherent.current
      exact stopped.tick

theorem coherent_ran (cfg : CacheConfig) (runtime : Bool) (events : List CacheEvent)
    : Coherent cfg (ran cfg runtime events) := by
  have later : ∀ world, Coherent cfg world → Coherent cfg
      (events.foldl (fun (world : CacheWorld) event => world.run cfg runtime event) world) := by
    induction events with
    | nil => exact fun world coherent => coherent
    | cons event rest ih => exact fun world coherent => ih _ (coherent.run runtime event)
  apply later
  exact ⟨CacheState.accounted_nothing rfl rfl, nofun, nofun, nofun, nofun⟩

/-- After any events: the recorded bytes are those of the entries held and within the budget,
there are no more entries than allowed, one being always allowed, and a `get` called after an
invalidation returns no listing it concerns that was begun before it. -/
theorem listing_cache_coherent (cfg : CacheConfig) (runtime : Bool) (events : List CacheEvent)
    : (ran cfg runtime events).cache.bytes
        = ((ran cfg runtime events).cache.entries.values.map Entry.size).sum
      ∧ (ran cfg runtime events).cache.bytes ≤ cfg.budgetBytes
      ∧ (ran cfg runtime events).cache.entries.entries.length ≤ max cfg.maxEntries 1
      ∧ ∀ answer ∈ (ran cfg runtime events).answers,
          ∀ invalidation ∈ (ran cfg runtime events).invalidations,
          invalidation.2 < answer.called
          → (∃ path ∈ invalidation.1, Related answer.key path)
          → invalidation.2 < answer.entry.began := by
  have coherent := coherent_ran cfg runtime events
  exact ⟨coherent.accounted.exact, coherent.accounted.budget, coherent.accounted.count,
    fun answer member => (coherent.answered answer member).2⟩

/-- A cache allowed no entry keeps the listing it made: the loop stops at an empty cache. -/
theorem one_entry_kept_of_none_allowed
    : ∃ (cfg : CacheConfig) (events : List CacheEvent),
        cfg.maxEntries < (ran cfg true events).cache.entries.entries.length := by
  refine ⟨⟨100, 120, 86_400, 0⟩, [.call "/", .go 0 0 none, .go 0 0 none, .go 0 0 none,
    .go 0 0 none, .go 0 0 (some {
      gzPrefix := [0x1f, 0x8b]
      crc := 0
      rawLen := 0
      generated := 0
      lastUsed := 0
      began := 0
    })], ?_⟩
  decide

end CacheWorld

end MokuroBunko.Dav
