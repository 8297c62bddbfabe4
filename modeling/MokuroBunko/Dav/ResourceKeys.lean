import MokuroBunko.Dav.ListingCache
import MokuroBunko.Dav.PathEdge

/-! The key of a resource (`resource_key` of `propfind.rs`), which locks go by, and the listings a
write to it drops: whether two spellings of one library path share them.
-/

namespace MokuroBunko.Dav

open MokuroBunko.Lib

/-- `resource_key`: the normalised path, with the username for a per-user file or folder. -/
def resourceKey (res : Resource) (username : Option String) : String :=
  match res with
  | .virtual path | .folder path _ _ .library | .file path _ _ .library => normalize path
  | .folder path _ _ .progress | .file path _ _ .progress =>
      normalize path ++ "\x00" ++ username.getD ""

-- Library paths

theorem normalize_normalize (path : String) : normalize (normalize path) = normalize path :=
  congrArg ("/" ++ ·) (Text.trimMatches_trimmed '/' path)

theorem normalize_of_library {path rel : String} (target : classify path = .library rel)
    : normalize path = libraryPrefix ++ rel := by
  unfold classify at target
  dsimp only at target
  split at target
  · cases target
  · split at target
    · cases target
    · split at target
      · rename_i below stripped
        split_ifs at target
        obtain rfl := Target.library.inj target
        obtain ⟨rest, split, rfl⟩ := Option.map_eq_some_iff.mp stripped
        apply String.toList_injective
        rw [String.toList_append, String.toList_ofList]
        exact (List.isPrefixOf?_eq_some_iff_append_eq.mp split).symm
      · split at target <;> cases target

theorem lookup_library {roots : Roots} {disk : Disk} {path : String} {caller : Option Caller}
    {res : Resource} (found : roots.lookup disk path caller = some res)
    (library : res.kind? = some .library) {phys : OsPath} (placed : res.phys? = some phys)
    : ∃ rel stat, normalize path = libraryPrefix ++ rel
      ∧ roots.libraryMember disk roots.library rel = some phys
      ∧ res = .make (normalize path) phys stat .library := by
  have made : ∀ {norm : String} {found : OsPath} {stat : Stat} {kind : FileKind},
      (Resource.make norm found stat kind).phys? = some found
        ∧ (Resource.make norm found stat kind).kind? = some kind := by
    intro norm found stat kind
    unfold Resource.make
    split <;> exact ⟨rfl, rfl⟩
  unfold Roots.lookup at found
  dsimp only at found
  split at found
  case h_1 =>
    obtain rfl := Option.some.inj found
    cases placed
  case h_2 =>
    obtain rfl := Option.some.inj found
    cases placed
  case h_3 rel _ =>
    obtain ⟨account, asked, found⟩ := Option.bind_eq_some_iff.mp found
    obtain ⟨own, resolved, found⟩ := Option.bind_eq_some_iff.mp found
    obtain ⟨stat, _, found⟩ := Option.bind_eq_some_iff.mp found
    obtain rfl := Option.some.inj found
    rw [made.2] at library
    cases library
  case h_4 rel target =>
    obtain ⟨member, resolved, found⟩ := Option.bind_eq_some_iff.mp found
    obtain ⟨stat, _, found⟩ := Option.bind_eq_some_iff.mp found
    obtain rfl := Option.some.inj found
    rw [made.1] at placed
    obtain rfl := Option.some.inj placed
    refine ⟨rel, stat, ?_, resolved, rfl⟩
    rw [← normalize_of_library target, normalize_normalize]
  case h_5 => cases found
  case h_6 => cases found

theorem resourceKey_of_library {path : String} {phys : OsPath} {stat : Stat}
    (username : Option String)
    : resourceKey (.make (normalize path) phys stat .library) username = normalize path := by
  unfold Resource.make
  split <;> exact normalize_normalize path

theorem Resolving.resolve_names {lstat : OsPath → Option (Node Unit)}
    (noLinks : ∀ path target, lstat path ≠ some (.link target)) {pending : List String}
    (down : ".." ∉ pending) (cur : OsPath) (links : ℕ) (probing : Bool)
    : Resolving.resolve lstat { pending, cur, links, probing }
      = some (cur ++ pending.filter (fun comp => (mark comp).isNone)) := by
  induction pending generalizing cur probing with
  | nil =>
      have stopped : Resolving.turn lstat { pending := [], cur, links, probing }
          = .stop (some cur) := rfl
      rw [resolve_stop lstat stopped]
      simp
  | cons comp rest ih =>
      rw [List.mem_cons, not_or] at down
      by_cases stray : comp = "" ∨ comp = "."
      · have turned : Resolving.turn lstat { pending := comp :: rest, cur, links, probing }
            = .next { pending := rest, cur, links, probing } := by
          simp [turn, stray]
        rw [resolve_next lstat turned, ih down.2]
        simp [mark, stray]
      · obtain ⟨looking, turned⟩ : ∃ looking,
            Resolving.turn lstat { pending := comp :: rest, cur, links, probing }
              = .next { pending := rest, cur := cur ++ [comp], links, probing := looking } := by
          have noParent : comp ≠ ".." := Ne.symm down.1
          cases probing with
          | false => exact ⟨false, by simp [turn, stray, noParent]⟩
          | true =>
              cases node : lstat (cur ++ [comp]) with
              | none => exact ⟨false, by simp [turn, stray, noParent, node]⟩
              | some there =>
                  cases there with
                  | link target => exact absurd node (noLinks _ _)
                  | folder => exact ⟨true, by simp [turn, stray, noParent, node]⟩
                  | file content => exact ⟨true, by simp [turn, stray, noParent, node]⟩
        rw [resolve_next lstat turned, ih down.2]
        simp [mark, stray]

theorem eq_of_marks {left right : List String}
    (names : left.filter (fun comp => (mark comp).isNone)
      = right.filter (fun comp => (mark comp).isNone))
    (marks : left.map mark = right.map mark)
    : left = right := by
  induction left generalizing right with
  | nil => exact (List.map_eq_nil_iff.mp marks.symm).symm
  | cons first rest ih =>
      cases right with
      | nil => cases marks
      | cons other others =>
          obtain ⟨head, tail⟩ := List.cons.inj marks
          cases own : mark first with
          | none =>
              rw [own] at head
              simp only [List.filter_cons, own, ← head, Option.isNone_none, if_true] at names
              obtain ⟨same, names⟩ := List.cons.inj names
              rw [same, ih names tail]
          | some stray =>
              rw [own] at head
              simp only [List.filter_cons, own, ← head, Option.isNone_some, Bool.false_eq_true,
                if_false] at names
              have itself : ∀ {segment kept : String}, mark segment = some kept → segment = kept := by
                intro segment kept marked
                unfold mark at marked
                split_ifs at marked
                exact Option.some.inj marked
              rw [itself own, itself head.symm, ih names tail]

theorem segments_trimmed_of_library {path rel : String}
    (norm : normalize path = libraryPrefix ++ rel)
    : Text.segments '/' (Text.trimMatches '/' path) = readerRoot :: Text.segments '/' rel := by
  have opened : Text.segments '/' ("/" ++ Text.trimMatches '/' path)
      = "" :: Text.segments '/' (Text.trimMatches '/' path) := by
    have chars : ("/" ++ Text.trimMatches '/' path).toList
        = [] ++ '/' :: (Text.trimMatches '/' path).toList := by simp
    rw [Text.segments, chars, List.splitOn_append_cons_self]
    simp [Text.segments]
  have both := congrArg (Text.segments '/') norm
  rw [normalize, opened, segments_libraryPrefix] at both
  exact (List.cons.inj both).2

theorem segments_of_library {path rel : String} (norm : normalize path = libraryPrefix ++ rel)
    : ((Text.segments '/' path).dropWhile (· = "")).rdropWhile (· = "")
      = readerRoot :: Text.segments '/' rel := by
  have inner := segments_trimmed_of_library norm
  have filled : Text.trimMatches '/' path ≠ "" := by
    intro empty
    rw [empty] at inner
    exact absurd (List.cons.inj inner).1 (by decide)
  rw [← Text.segments_trimMatches filled, inner]

theorem strays_of_library {path rel : String} (norm : normalize path = libraryPrefix ++ rel)
    : strays path = none :: (Text.segments '/' rel).map mark := by
  have empties : (fun marked : Option String => decide (marked = some "")) ∘ mark
      = fun segment : String => decide (segment = "") := by
    funext segment
    by_cases empty : segment = ""
    · simp [mark, empty]
    · by_cases dot : segment = "." <;> simp [mark, empty, dot]
  rw [strays, List.dropWhile_map, empties, List.rdropWhile, ← List.map_reverse,
    List.dropWhile_map, empties, ← List.map_reverse, ← List.rdropWhile, segments_of_library norm]
  rfl

theorem noParent_of_library {pathCase : PathCase} {raw path rel : String}
    (passed : pathCase.requestPath raw = some path) (norm : normalize path = libraryPrefix ++ rel)
    : ".." ∉ Text.segments '/' rel := by
  intro member
  refine PathCase.noParent_of_requestPath passed ?_
  have kept : ".." ∈ ((Text.segments '/' path).dropWhile (· = "")).rdropWhile (· = "") := by
    rw [segments_of_library norm]
    exact List.mem_cons_of_mem _ member
  exact (List.dropWhile_sublist _).subset ((List.rdropWhile_prefix _ _).subset kept)

theorem libraryMember_names {roots : Roots} {disk : Disk} {rel : String} {phys : OsPath}
    (noLinks : ∀ path target, disk.lstat path ≠ some (.link target))
    (down : ".." ∉ Text.segments '/' rel)
    (found : roots.libraryMember disk roots.library rel = some phys)
    : phys = roots.library ++ (Text.segments '/' rel).filter (fun comp => (mark comp).isNone) := by
  have resolved := (Option.filter_eq_some_iff.mp found).1
  have reached := (Option.filter_eq_some_iff.mp resolved).1
  rw [Resolving.start, Resolving.resolve_names noLinks down] at reached
  exact (Option.some.inj reached).symm

-- Two spellings

/-- Two requests, each by its path and the resource found there, go by the same locks and drop the
same listings.
-/
structure SharesResource (username : Option String) (first second : String × Resource) : Prop where
  key : resourceKey first.2 username = resourceKey second.2 username
  writes : ∀ (manager : LockManager) now infinite tokens principal,
    manager.checkWrite now (resourceKey first.2 username) infinite tokens principal
      = manager.checkWrite now (resourceKey second.2 username) infinite tokens principal
  listings : ∀ state : CacheState,
    state.invalidatePaths [normalize first.1] = state.invalidatePaths [normalize second.1]

def oneArchive : Disk where
  lstat path :=
    if path = ["lib", "S", "v.cbz"] then some (.file ())
    else if path = ["lib"] ∨ path = ["lib", "S"] then some .folder else none
  metadata path :=
    if path = ["lib", "S", "v.cbz"] then
      some { size := 1, mtimeSecs := 0, mtimeNanos := 0, ctimeSecs := 0, isDir := false }
    else none

def oneArchiveRoots : Roots where
  library := ["lib"]
  users := ["users"]
  plain := by simp [PlainName]
  usersOutside := by decide
  libraryOutside := by decide

def oneArchiveCase : PathCase where
  library := ["lib"]
  caseSensitive := true
  foldName := Text.asciiLower
  present path := (oneArchive.lstat path).isSome
  readDir path :=
    if path = ["lib"] then some ["S"] else if path = ["lib", "S"] then some ["v.cbz"] else none
  plain := by
    intro dir names listed
    split_ifs at listed <;> cases listed <;> simp [PlainName]

def archiveResource (path : String) : Resource :=
  .file path ["lib", "S", "v.cbz"]
    { size := 1, mtimeSecs := 0, mtimeNanos := 0, ctimeSecs := 0, isDir := false } .library

theorem oneArchive_noLinks (path : OsPath) (target : String)
    : oneArchive.lstat path ≠ some (.link target) := by
  unfold oneArchive
  dsimp only
  split_ifs <;> nofun

theorem oneArchive_lookup (rel : String) {path : String}
    (target : classify (normalize path) = .library rel)
    (names : (Text.segments '/' rel).filter (fun comp => (mark comp).isNone) = ["S", "v.cbz"])
    (down : ".." ∉ Text.segments '/' rel)
    : oneArchiveRoots.lookup oneArchive path none = some (archiveResource (normalize path)) := by
  have resolved : resolveUnder oneArchive.lstat ["lib"] rel = some ["lib", "S", "v.cbz"] := by
    unfold resolveUnder
    rw [Resolving.start, Resolving.resolve_names oneArchive_noLinks down, names]
    decide
  have member : oneArchiveRoots.libraryMember oneArchive oneArchiveRoots.library rel
      = some ["lib", "S", "v.cbz"] := by
    unfold Roots.libraryMember
    rw [show oneArchiveRoots.library = ["lib"] from rfl, resolved]
    decide +kernel
  unfold Roots.lookup
  dsimp only
  rw [target]
  dsimp only
  rw [member]
  rfl

end MokuroBunko.Dav
