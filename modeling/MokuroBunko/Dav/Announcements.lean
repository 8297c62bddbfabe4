import MokuroBunko.Dav.CopyComplete
import MokuroBunko.Dav.Effects

/-! When a request that fails has told the rest of the server all that it has changed. It fires
nothing, so there must be nothing to tell.
-/

namespace MokuroBunko.Dav.Effects

open MokuroBunko.Lib
open MokuroBunko.Library

variable (around : Surroundings) {namesUuid : List UInt8 → Bool} {trouble : Trouble}

-- What there is to tell

/-- The folder of the library that a cached listing is of. -/
def listedFolder (key : String) : Option Place :=
  match classify key with
  | .root | .readerRoot => some around.library
  | .library rel =>
      some (around.library ++ ((Text.segments '/' rel).filter (· ≠ "")).map String.toList)
  | _ => none

/-- A listing shows what is in its folder and below, without what is being staged. -/
def Shows (key : String) (place : Place) : Prop :=
  (∃ folder, listedFolder around key = some folder ∧ folder <+: place)
    ∧ (libraryRel around place).isSome = true
    ∧ ∀ name ∈ place.drop around.library.length, isStagingName name = false

def Changes (step : Stock × Stock) (place : Place) : Prop :=
  step.1.tree.get? place ≠ step.2.tree.get? place

/-- The place of an archive of the library. -/
def HasArchive (tree : Tree) (place : Place) : Prop :=
  tree.isFile place = true ∧ isCbz place = true ∧ (libraryRel around place).isSome = true

/-- The file of a row is there. -/
def Stands (tree : Tree) (row : FileRow) : Prop :=
  tree.get? (around.library ++ row.file) ≠ none

/-- Every change is announced. -/
structure Announced (server : Server) (answer : Answer) : Prop where
  listings : ∀ step ∈ answer.steps, ∀ place, Changes step place
    → ∀ key, server.cache.entries.get? key ≠ none → Shows around key place
    → answer.server.cache.entries.get? key = none
  removed : ∀ step ∈ answer.steps, ∀ place, HasArchive around step.1.tree place
    → ¬ HasArchive around step.2.tree place → ∃ told ∈ answer.removed, told <+: place
  arrived : ∀ step ∈ answer.steps, ∀ place, Changes step place
    → HasArchive around step.2.tree place → place ∈ answer.arrived
  rows : ∀ row ∈ answer.server.stock.rows, Stands around server.stock.tree row
    → Stands around answer.server.stock.tree row

/-- No cached listing shows what the step changes, and no archive comes, goes or is replaced. -/
def Unseen (cache : CacheState) (step : Stock × Stock) : Prop :=
  ∀ place, Changes step place
    → (∀ key, cache.entries.get? key ≠ none → ¬ Shows around key place)
      ∧ ¬ HasArchive around step.1.tree place ∧ ¬ HasArchive around step.2.tree place

/-- The step leaves no row of a file that it has taken away, and adds none of one that is not
there. -/
def KeepsFiles (step : Stock × Stock) : Prop :=
  ∀ row ∈ step.2.rows, (row ∈ step.1.rows → Stands around step.1.tree row)
    → Stands around step.2.tree row

-- The steps of a request

/-- The steps lead from one stock to the other. -/
def Leads : Stock → List (Stock × Stock) → Stock → Prop
  | start, [], stock => start = stock
  | start, step :: rest, stock => step.1 = start ∧ Leads step.2 rest stock

theorem Leads.append {start middle stock : Stock} {first second : List (Stock × Stock)}
    (before : Leads start first middle) (after : Leads middle second stock)
    : Leads start (first ++ second) stock := by
  induction first generalizing start with
  | nil =>
      obtain rfl : start = middle := before
      exact after
  | cons step rest ih => exact ⟨before.1, ih before.2⟩

/-- One site comes of the other by steps of the request. -/
def Follows (site later : Site) : Prop :=
  ∃ more, later.steps = site.steps ++ more ∧ Leads site.stock more later.stock

theorem Follows.refl (site : Site) : Follows site site :=
  ⟨[], (List.append_nil _).symm, rfl⟩

theorem Follows.trans {site middle later : Site} (before : Follows site middle)
    (after : Follows middle later)
    : Follows site later := by
  obtain ⟨first, recorded, leads⟩ := before
  obtain ⟨second, recorded', leads'⟩ := after
  refine ⟨first ++ second, ?_, leads.append leads'⟩
  rw [recorded', recorded, List.append_assoc]

theorem follows_stepped (site : Site) (tries : ℕ) (after : Stock) (collected : Collected)
    : Follows site { site.stepped tries after with collected := collected } :=
  ⟨[(site.stock, after)], rfl, rfl, rfl⟩

variable {around}

theorem deleteFile_follows (site : Site) (vpath : String) (phys : Place)
    : Follows site (deleteFile around namesUuid trouble site vpath phys).1 := by
  unfold deleteFile
  split
  · exact .refl site
  split
  · exact .refl site
  dsimp only
  generalize (if ((libraryRel around phys).isSome && isCbz phys) = true then
    siblingPlaces around site.stock.tree phys else []) = beside
  split
  · exact follows_stepped ..
  split
  · exact follows_stepped ..
  · exact follows_stepped site _ _ site.collected

theorem deleteFolder_follows (site : Site) (vpath : String) (phys : Place)
    : Follows site (deleteFolder around trouble site vpath phys).1 := by
  unfold deleteFolder
  split
  · exact .refl site
  split
  · exact .refl site
  split
  · exact follows_stepped site _ _ site.collected
  · exact follows_stepped ..

theorem deleteResource_follows (site : Site) (vpath : String) (phys : Place) (folder : Bool)
    : Follows site (deleteResource around namesUuid trouble site vpath phys folder).1 := by
  unfold deleteResource
  split
  · exact deleteFolder_follows ..
  · exact deleteFile_follows ..

theorem copyFile_follows (site : Site) (src : Place) (destV : String) (dest : Place)
    : Follows site (copyFile around trouble site src destV dest).1 := by
  unfold copyFile
  split
  · exact .refl site
  split
  · exact follows_stepped site _ _ site.collected
  · exact follows_stepped ..

theorem makeFolder_follows (site : Site) (folder : Place)
    : Follows site (makeFolder trouble site folder).1 := by
  unfold makeFolder
  split <;> exact follows_stepped site _ _ site.collected

theorem moveFile_follows (site : Site) (srcV : String) (src : Place) (destV : String)
    (dest : Place)
    : Follows site (moveFile around namesUuid trouble site srcV src destV dest).1 := by
  unfold moveFile
  split
  · exact .refl site
  dsimp only
  split
  · exact follows_stepped site _ _ site.collected
  split
  · exact follows_stepped site _ _ site.collected
  · exact follows_stepped ..

theorem moveFolder_follows (site : Site) (srcV : String) (src : Place) (destV : String)
    (dest : Place)
    : Follows site (moveFolder around trouble site srcV src destV dest).1 := by
  unfold moveFolder
  split
  · exact .refl site
  dsimp only
  split
  · exact follows_stepped site _ _ site.collected
  split
  · exact follows_stepped site _ _ site.collected
  · exact follows_stepped ..

theorem pruneEntries_follows (s d : Place) (v : String) (names : List FileName) (site : Site)
    (stack : Pending)
    : Follows site (pruneEntries around namesUuid trouble s d v names site stack).1.1 := by
  induction names generalizing site stack with
  | nil => exact .refl site
  | cons name rest ih =>
      rw [pruneEntries]
      split
      · exact ih ..
      split
      · exact ih ..
      have deleted := @deleteResource_follows around namesUuid trouble site (memberPath v name)
        (d ++ [name]) (site.stock.tree.isFolder (d ++ [name]))
      split
      case h_1 pruned same =>
        rw [same] at deleted
        exact deleted.trans (ih pruned stack)
      case h_2 => exact deleted

theorem pruneUnmatched_follows {turns : ℕ} {site : Site} {stack : Pending} {outcome : Outcome}
    (ended : pruneUnmatched around namesUuid trouble turns site stack = some outcome)
    : Follows site outcome.1 := by
  induction turns generalizing site stack with
  | zero =>
      cases stack with
      | nil => exact Option.some.inj ended ▸ .refl site
      | cons pair rest => cases ended
  | succ turns ih =>
      cases stack with
      | nil => exact Option.some.inj ended ▸ .refl site
      | cons pair rest =>
          rw [pruneUnmatched] at ended
          split at ended
          case h_1 => exact ih ended
          case h_2 names _ =>
            have pruned := @pruneEntries_follows around namesUuid trouble pair.1 pair.2.1 pair.2.2
              names site rest
            split at ended
            case h_1 same =>
              rw [same] at pruned
              exact pruned.trans (ih ended)
            case h_2 same =>
              rw [same] at pruned
              exact Option.some.inj ended ▸ pruned

theorem copyMember_follows (destRoot src dest : Place) (destV : String) (site : Site)
    (stack : Pending)
    : Follows site
        (copyMember around namesUuid trouble destRoot src dest destV site stack).1.1 := by
  unfold copyMember
  split
  · split
    · have made := @makeFolder_follows trouble site dest
      split
      case h_1 same =>
        rw [same] at made
        exact made
      case h_2 => exact made
    · exact .refl site
  · dsimp only
    have cleared : Follows site
        (if (site.stock.tree.get? dest).isSome = true then
          deleteFile around namesUuid trouble site destV dest else (site, none)).1 := by
      split
      · exact deleteFile_follows ..
      · exact .refl site
    split
    case h_1 same =>
      rw [same] at cleared
      exact cleared.trans (copyFile_follows ..)
    case h_2 => exact cleared
  · exact .refl site

theorem copyEntries_follows (destRoot src dest : Place) (destV : String) (names : List FileName)
    (site : Site) (stack : Pending)
    : Follows site (copyEntries around namesUuid trouble destRoot src dest destV names site
        stack).1.1 := by
  induction names generalizing site stack with
  | nil => exact .refl site
  | cons name rest ih =>
      rw [copyEntries]
      split
      · exact ih ..
      have copied := @copyMember_follows around namesUuid trouble destRoot (src ++ [name])
        (dest ++ [name]) (memberPath destV name) site stack
      split
      case h_1 same =>
        rw [same] at copied
        exact copied.trans (ih ..)
      case h_2 => exact copied

theorem copyFolders_follows {destRoot : Place} {turns : ℕ} {site : Site} {stack : Pending}
    {outcome : Outcome}
    (ended : copyFolders around namesUuid trouble destRoot turns site stack = some outcome)
    : Follows site outcome.1 := by
  induction turns generalizing site stack with
  | zero =>
      cases stack with
      | nil => exact Option.some.inj ended ▸ .refl site
      | cons pair rest => cases ended
  | succ turns ih =>
      cases stack with
      | nil => exact Option.some.inj ended ▸ .refl site
      | cons pair rest =>
          rw [copyFolders] at ended
          split at ended
          case h_1 => exact ih ended
          case h_2 names _ =>
            have copied := @copyEntries_follows around namesUuid trouble destRoot pair.1 pair.2.1
              pair.2.2 (names.insertionSort (· ≤ ·)) site rest
            split at ended
            case h_1 same =>
              rw [same] at copied
              exact copied.trans (ih ended)
            case h_2 same =>
              rw [same] at copied
              exact Option.some.inj ended ▸ copied

theorem pruneExisting_follows {turns : ℕ} {site : Site} {src dest : Place}
    {existing : Option String} {infinity : Bool} {outcome : Outcome}
    (ended : pruneExisting around namesUuid trouble turns site src dest existing infinity
      = some outcome)
    : Follows site outcome.1 := by
  unfold pruneExisting at ended
  split at ended
  · exact pruneUnmatched_follows ended
  · exact Option.some.inj ended ▸ .refl site

theorem copyFolder_follows {turns : ℕ} {site : Site} {src dest : Place} {destV : String}
    {existing : Option String} {infinity : Bool} {outcome : Outcome}
    (ended : copyFolder around namesUuid trouble turns site src dest destV existing infinity
      = some outcome)
    : Follows site outcome.1 := by
  unfold copyFolder at ended
  split at ended
  case h_1 => cases ended
  case h_2 same => exact Option.some.inj ended ▸ pruneExisting_follows same
  case h_3 pruned same =>
    have before := pruneExisting_follows same
    have made := @makeFolder_follows trouble pruned dest
    split at ended
    case h_1 same =>
      rw [same] at made
      exact Option.some.inj ended ▸ before.trans made
    case h_2 founded same =>
      rw [same] at made
      have touched : Follows site
          { founded with collected := founded.collected.touch destV dest } := before.trans made
      dsimp only at ended
      split at ended
      · exact touched.trans (copyFolders_follows ended)
      · exact Option.some.inj ended ▸ touched

theorem clearDest_follows (site : Site) (existing : Option String) (dest : Place) (folder : Bool)
    : Follows site (clearDest around namesUuid trouble site existing dest folder).1 := by
  unfold clearDest
  split
  · exact deleteResource_follows ..
  · exact .refl site

theorem work_follows {turns : ℕ} {site : Site} {request : Accepted} {outcome : Outcome}
    (worked : work around namesUuid trouble turns site request = some outcome)
    : Follows site outcome.1 := by
  cases request with
  | delete vpath phys folder => exact Option.some.inj worked ▸ deleteResource_follows ..
  | copyMove isMove srcV src folder destV dest existing renamesSource infinity =>
      rw [work] at worked
      split at worked
      · exact Option.some.inj worked ▸ .refl site
      split at worked
      · exact Option.some.inj worked ▸ .refl site
      split at worked
      · split at worked
        · exact Option.some.inj worked ▸ moveFile_follows ..
        · have cleared := @clearDest_follows around namesUuid trouble site existing dest false
          split at worked
          case h_1 same =>
            rw [same] at cleared
            exact Option.some.inj worked ▸ cleared.trans (copyFile_follows ..)
          case h_2 => exact Option.some.inj worked ▸ cleared
      split at worked
      · have cleared := @clearDest_follows around namesUuid trouble site existing dest true
        split at worked
        case h_1 same =>
          rw [same] at cleared
          exact Option.some.inj worked ▸ cleared.trans (moveFolder_follows ..)
        case h_2 => exact Option.some.inj worked ▸ cleared
      · exact copyFolder_follows worked

-- Requests that fail

theorem handle_failed {turns : ℕ} {server : Server} {request : Accepted} {answer : Answer}
    (handled : handle around namesUuid trouble turns server request = some answer)
    (failed : answer.error ≠ none)
    : answer.server.cache = server.cache ∧ answer.removed = [] ∧ answer.arrived = []
      ∧ Leads server.stock answer.steps answer.server.stock := by
  obtain ⟨⟨site, error⟩, worked, rfl⟩ := Option.map_eq_some_iff.mp handled
  obtain ⟨more, recorded, leads⟩ := work_follows worked
  cases error with
  | none => exact absurd rfl failed
  | some code =>
      obtain rfl : site.steps = more := recorded
      exact ⟨rfl, rfl, rfl, leads⟩

theorem Leads.keepsFiles {start stock : Stock} {steps : List (Stock × Stock)}
    (leads : Leads start steps stock) (keeps : ∀ step ∈ steps, KeepsFiles around step)
    {stood : FileRow → Prop}
    (standing : ∀ row ∈ start.rows, stood row → Stands around start.tree row)
    : ∀ row ∈ stock.rows, stood row → Stands around stock.tree row := by
  induction steps generalizing start with
  | nil =>
      obtain rfl : start = stock := leads
      exact standing
  | cons step rest ih =>
      obtain ⟨rfl, leads⟩ := leads
      refine ih leads (fun other member => keeps other (List.mem_cons_of_mem _ member)) ?_
      intro row left before
      exact keeps step List.mem_cons_self row left (fun listed => standing row listed before)

/-- The disk fails from one operation on, and a folder's removal has come so far by then. -/
def failingFrom (first : ℕ) (gone : List Place) : Trouble where
  fails tried := first ≤ tried
  busy _ _ := false
  removed _ := gone
  made _ := 0
  torn _ := []

/-- A deletion for which the disk fails from one operation on. -/
def stopped (first : ℕ) (gone : List Place) (server : Server) (name : FileName) (folder : Bool)
    : Option Answer :=
  handle (aloneAt ["l".toList]) (fun _ => false) (failingFrom first gone) 0 server
    (.delete (memberPath "/mokuro-reader" name) ["l".toList, name] folder)

theorem unseen_empty {step : Stock × Stock}
    (plain : ∀ place ∈ step.1.tree.entries.keys ++ step.2.tree.entries.keys,
      step.1.tree.get? place = step.2.tree.get? place ∨ isCbz place = false)
    : Unseen around .empty step := by
  intro place changed
  have listed : place ∈ step.1.tree.entries.keys ++ step.2.tree.entries.keys := by
    rw [List.mem_append, OrderedMap.mem_keys_iff, OrderedMap.mem_keys_iff]
    by_contra neither
    simp only [not_or, not_exists, ← Option.eq_none_iff_forall_ne_some] at neither
    exact changed (neither.1.trans neither.2.symm)
  have other := (plain place listed).resolve_left changed
  refine ⟨fun key cached => absurd rfl cached, ?_, ?_⟩
  all_goals
    rintro ⟨-, archive, -⟩
    rw [other] at archive
    cases archive

/-- The cache holds the listing of the library. -/
def libraryListed : CacheState where
  entries := OrderedMap.empty.insert "/mokuro-reader" {
    gzPrefix := []
    crc := 0
    rawLen := 0
    generated := 0
    lastUsed := 0
    began := 0
  }
  bytes := 0
  tick := 0
  epoch := 0
  refreshing := []
  stopped := false

end MokuroBunko.Dav.Effects
