import MokuroBunko.Dav.ResolveUnder

/-! Resources of the DAV tree (`resource.rs`) and the virtual paths they are found under (`paths.rs`):
which file a request path, a collection's member or a `Destination` stands for. Under
`/mokuro-reader` (`reader_tree.rs`) some names belong to one account instead of the shared library.
-/

namespace MokuroBunko.Dav

open MokuroBunko.Lib

def readerRoot : String := "mokuro-reader"

/-- `PER_USER_FILES`. -/
def perUserFiles : List String :=
  ["volume-data.json", "profiles.json", "goals.json", "positions.json"]

/-- `HISTORY_DIR`. -/
def historyDir : String := "history"

/-- `PER_USER_DIRS`. -/
def perUserDirs : List String := [historyDir]

/-- A per-user path relative to the reader root. -/
inductive PerUser where
  | file (name : String)
  | dir (dir : String)
  | inDir (dir rest : String)
deriving DecidableEq

/-- The first of the directories the trimmed path is or lies in. -/
def perUserDir (rel : String) : List String → Option PerUser
  | [] => none
  | dir :: dirs =>
      if rel = dir then some (.dir dir)
      else
        match (Text.stripPrefix rel dir).bind (Text.stripPrefix · "/") with
        | none => perUserDir rel dirs
        | some rest =>
            let rest := Text.trimStartMatches '/' rest
            some (if rest = "" then .dir dir else .inDir dir rest)

/-- Exact and case-sensitive; nothing for a library path. -/
def perUser (rel : String) : Option PerUser :=
  let rel := Text.trimMatches '/' rel
  match perUserFiles.find? (· == rel) with
  | some name => some (.file name)
  | none => perUserDir rel perUserDirs

def isPerUserRel (rel : String) : Bool := (perUser rel).isSome

def isPerUserName (name : String) : Bool := perUserFiles.contains name

/-- A name directly under the reader root that is the account's own. -/
def isPerUserRootName (name : String) : Bool :=
  perUserFiles.contains name || perUserDirs.contains name

/-- Who a per-user path is resolved for. -/
structure Caller where
  username : String
  ownsCloudRoot : Bool
deriving DecidableEq

/-- A username that can be one directory name under `users`. -/
def safeUsername (name : String) : Bool :=
  name ≠ "" && name ≠ "." && name ≠ ".."
    && !name.toList.any (fun char => char == '/' || char == '\\' || char == '\x00')

def userBase (library users : OsPath) (caller : Caller) : Option OsPath :=
  if caller.ownsCloudRoot then some library
  else if safeUsername caller.username then some (users ++ [caller.username]) else none

theorem perUserDir_mem {rel : String} {dirs : List String} {found : PerUser}
    (classified : perUserDir rel dirs = some found)
    : ∃ dir ∈ dirs, found = .dir dir ∨ ∃ rest, found = .inDir dir rest := by
  induction dirs with
  | nil => cases classified
  | cons dir dirs ih =>
      rw [perUserDir] at classified
      split at classified
      · obtain rfl := Option.some.inj classified
        exact ⟨dir, List.mem_cons_self, .inl rfl⟩
      · split at classified
        · obtain ⟨other, member, named⟩ := ih classified
          exact ⟨other, List.mem_cons_of_mem _ member, named⟩
        · obtain rfl := Option.some.inj classified
          refine ⟨dir, List.mem_cons_self, ?_⟩
          split
          · exact .inl rfl
          · exact .inr ⟨_, rfl⟩

theorem perUser_cases {rel : String} {found : PerUser} (classified : perUser rel = some found)
    : (∃ name ∈ perUserFiles, found = .file name) ∨ found = .dir historyDir
      ∨ ∃ rest, found = .inDir historyDir rest := by
  unfold perUser at classified
  dsimp only at classified
  split at classified
  case h_1 name listed =>
    exact .inl ⟨name, List.mem_of_find?_eq_some listed, (Option.some.inj classified).symm⟩
  case h_2 =>
    obtain ⟨dir, member, named⟩ := perUserDir_mem classified
    obtain rfl := List.mem_singleton.mp member
    exact .inr named

theorem plain_of_safeUsername {name : String} (safe : safeUsername name = true)
    : PlainName name := by
  simp only [safeUsername, Bool.and_eq_true, decide_eq_true_eq, Bool.not_eq_true',
    List.any_eq_false, Bool.or_eq_true, beq_iff_eq, not_or] at safe
  exact ⟨safe.1.1.1, safe.1.1.2, safe.1.2, fun slash => (safe.2 '/' slash).1.1 rfl⟩

theorem plain_of_perUserFiles {name : String} (member : name ∈ perUserFiles)
    : PlainName name := by
  simp only [perUserFiles, List.mem_cons, List.not_mem_nil, or_false] at member
  obtain rfl | rfl | rfl | rfl := member <;> simp [PlainName]

-- Virtual paths

/-- The value of a hexadecimal digit. -/
def hexValue (byte : UInt8) : Option UInt8 :=
  if 0x30 ≤ byte ∧ byte ≤ 0x39 then some (byte - 0x30)
  else if 0x41 ≤ byte ∧ byte ≤ 0x46 then some (byte - 0x37)
  else if 0x61 ≤ byte ∧ byte ≤ 0x66 then some (byte - 0x57)
  else none

/-- `percent_decode_str`: an escape that is none stays as it is. -/
def percentDecode : List UInt8 → List UInt8
  | [] => []
  | first :: rest =>
      match rest with
      | high :: low :: more =>
          match first == 0x25, hexValue high, hexValue low with
          | true, some upper, some lower => (upper * 16 + lower) :: percentDecode more
          | _, _, _ => first :: percentDecode (high :: low :: more)
      | short => first :: percentDecode short

/-- A request path as text; nothing when it holds a NUL or is not UTF-8. -/
def decodeRequestPath (raw : String) : Option String :=
  let bytes := percentDecode raw.toUTF8.toList
  if bytes.contains 0 then none else String.fromUTF8? ⟨bytes.toArray⟩

def normalize (path : String) : String := "/" ++ Text.trimMatches '/' path

/-- What a virtual path is. -/
inductive Target where
  | root
  | readerRoot
  | progress (rel : String)
  | library (rel : String)
  | inbox
  | other
deriving DecidableEq

def classify (path : String) : Target :=
  let norm := normalize path
  let reader := "/" ++ readerRoot
  if norm = "/" then .root
  else if norm = reader then .readerRoot
  else
    match Text.stripPrefix norm (reader ++ "/") with
    | some rel => if isPerUserRel rel then .progress (Text.trimMatches '/' rel) else .library rel
    | none =>
        if norm = "/inbox" || Text.startsWith norm "/inbox/" then .inbox else .other

-- Resources

structure Stat where
  size : ℕ
  mtimeSecs : ℤ
  mtimeNanos : ℕ
  ctimeSecs : ℤ
  isDir : Bool
deriving DecidableEq

/-- Which side of the tree a file or folder lives on. -/
inductive FileKind where
  | library
  | progress
deriving DecidableEq

inductive Resource where
  | virtual (path : String)
  | folder (path : String) (phys : OsPath) (stat : Stat) (kind : FileKind)
  | file (path : String) (phys : OsPath) (stat : Stat) (kind : FileKind)
deriving DecidableEq

/-- What the resolver asks the filesystem: a path's own metadata with the target of a link, and
the metadata of what a path leads to. -/
structure Disk where
  lstat : OsPath → Option (Node Unit)
  metadata : OsPath → Option Stat

/-- The two folders the resolver maps into. Both are canonical, and neither lies in the other:
they are made side by side in the storage folder. -/
structure Roots where
  library : OsPath
  users : OsPath
  plain : ∀ name ∈ library ++ users, PlainName name
  usersOutside : ¬ library <+: users
  libraryOutside : ¬ users <+: library

/-- `rel` of `path` under `base` with slashes between, or nothing when outside. -/
def relativePosix (path base : OsPath) : Option String :=
  (base.isPrefixOf? path).map (Text.join '/')

def Resource.make (path : String) (phys : OsPath) (stat : Stat) (kind : FileKind) : Resource :=
  if stat.isDir then .folder path phys stat kind else .file path phys stat kind

/-- Whether the resource is the merged view at `/mokuro-reader`. -/
def Resource.isReaderRoot : Resource → Bool
  | .virtual path => normalize path = "/" ++ readerRoot
  | .folder _ _ _ _ | .file _ _ _ _ => false

namespace Roots

variable (roots : Roots) (disk : Disk)

def userBase (caller : Caller) : Option OsPath :=
  Dav.userBase roots.library roots.users caller

/-- The physical path of a per-user `rel`: a root file is its name under the base, anything in
the history must resolve inside the base's history. -/
def userPath (caller : Caller) (rel : String) : Option OsPath := do
  let base ← roots.userBase caller
  match perUser rel with
  | none => none
  | some (.file name) => some (base ++ [name])
  | some (.dir dir) | some (.inDir dir _) =>
      (resolveUnder disk.lstat base (Text.trimMatches '/' rel)).filter
        (fun resolved => (base ++ [dir]).isPrefixOf resolved)

/-- The path relative to the library, unless it is outside or under a per-user name. -/
def libraryRel (phys : OsPath) : Option String :=
  (relativePosix phys roots.library).filter (fun rel =>
    !isPerUserRootName ((Text.segments '/' rel).headD ""))

/-- `rel` under the library folder `dir`, where it must stay. -/
def libraryMember (dir : OsPath) (rel : String) : Option OsPath :=
  (resolveUnder disk.lstat dir rel).filter (fun resolved =>
    roots.library.isPrefixOf resolved && (roots.libraryRel resolved).isSome)

/-- An existing resource. -/
def lookup (path : String) (caller : Option Caller) : Option Resource :=
  let norm := normalize path
  match classify norm with
  | .root | .readerRoot => some (.virtual norm)
  | .progress rel => do
      let phys ← roots.userPath disk (← caller) rel
      let stat ← disk.metadata phys
      return .make norm phys stat .progress
  | .library rel => do
      let phys ← roots.libraryMember disk roots.library rel
      let stat ← disk.metadata phys
      return .make norm phys stat .library
  | .inbox | .other => none

def inUserHistory (caller : Caller) (phys : OsPath) : Bool :=
  (roots.userBase caller).any (fun base => (base ++ [historyDir]).isPrefixOf phys)

/-- The physical path a member of a collection would have. -/
def memberPath (parent : Resource) (name : String) (caller : Option Caller)
    : Option (OsPath × FileKind) :=
  match parent with
  | .virtual path =>
      if normalize path = "/" ++ readerRoot then
        if isPerUserRootName name then do
          return (← roots.userPath disk (← caller) name, .progress)
        else do return (← roots.libraryMember disk roots.library name, .library)
      else none
  | .folder _ phys _ .progress => do
      let resolved ← resolveUnder disk.lstat phys name
      if roots.inUserHistory (← caller) resolved then some (resolved, .progress) else none
  | .folder _ phys _ .library => do return (← roots.libraryMember disk phys name, .library)
  | .file _ _ _ _ => none

/-- The folder a `MOVE` or `COPY` puts a library member into. -/
def destinationDir (parent : Resource) (name : String) : Option OsPath :=
  match parent with
  | .virtual path =>
      if normalize path = "/" ++ readerRoot then
        if isPerUserRootName name then none else some roots.library
      else none
  | .folder _ _ _ .progress => none
  | .folder _ phys _ .library => some phys
  | .file _ _ _ _ => none

/-- Where a `MOVE` or `COPY` puts a member: a library member as written, and where it leads must
be inside the library. -/
def destinationPath (parent : Resource) (name : String) (caller : Option Caller)
    : Option (OsPath × FileKind) :=
  if parent.isReaderRoot && isPerUserName name then roots.memberPath disk parent name caller
  else do
    let dir ← roots.destinationDir parent name
    if name = "" || name = "." || name = ".." || name.toList.contains '/'
        || name.toList.contains '\x00' then none
    else
      let candidate := dir ++ [name]
      let rel ← roots.libraryRel candidate
      let _ ← roots.libraryMember disk roots.library rel
      return (candidate, .library)

end Roots

-- Where a request can end up

def Resource.phys? : Resource → Option OsPath
  | .virtual _ => none
  | .folder _ phys _ _ | .file _ phys _ _ => some phys

def Resource.kind? : Resource → Option FileKind
  | .virtual _ => none
  | .folder _ _ _ kind | .file _ _ _ kind => some kind

namespace Roots

variable {roots : Roots} {disk : Disk} {caller : Option Caller}

/-- A place of the library that is not under a per-user name at its root. -/
def LibraryPlace (roots : Roots) (phys : OsPath) : Prop :=
  ∃ rel, phys = roots.library ++ rel ∧ ∀ first ∈ rel.head?, isPerUserRootName first = false

/-- A root file of the account, or its history or something in it. -/
def OwnPlace (roots : Roots) (caller : Caller) (phys : OsPath) : Prop :=
  ∃ base, roots.userBase caller = some base
    ∧ ((∃ name ∈ perUserFiles, phys = base ++ [name]) ∨ base ++ [historyDir] <+: phys)

/-- The places a request may end up at on either side of the tree. -/
def Allowed (roots : Roots) (caller : Option Caller) (phys : OsPath) : FileKind → Prop
  | .library => roots.LibraryPlace phys
  | .progress => ∃ account ∈ caller, roots.OwnPlace account phys

/-- The account is none of those the request is made as. -/
def Stranger (caller : Option Caller) (other : Caller) : Prop :=
  ∀ account ∈ caller, other.username ≠ account.username
    ∧ ¬ (other.ownsCloudRoot = true ∧ account.ownsCloudRoot = true)

theorem userBase_cases {account : Caller} {base : OsPath}
    (found : roots.userBase account = some base)
    : (account.ownsCloudRoot = true ∧ base = roots.library)
      ∨ (account.ownsCloudRoot = false ∧ safeUsername account.username = true
        ∧ base = roots.users ++ [account.username]) := by
  unfold userBase Dav.userBase at found
  split at found
  case isTrue owns => exact .inl ⟨owns, (Option.some.inj found).symm⟩
  case isFalse shares =>
    split at found
    case isTrue safe =>
      exact .inr ⟨Bool.eq_false_of_not_eq_true shares, safe, (Option.some.inj found).symm⟩
    case isFalse => cases found

theorem plain_userBase {account : Caller} {base : OsPath}
    (found : roots.userBase account = some base)
    : ∀ name ∈ base, PlainName name := by
  obtain ⟨_, rfl⟩ | ⟨_, safe, rfl⟩ := userBase_cases found
  · exact fun name member => roots.plain name (List.mem_append_left _ member)
  · intro name member
    rcases List.mem_append.mp member with old | new
    · exact roots.plain name (List.mem_append_right _ old)
    · obtain rfl := List.mem_singleton.mp new
      exact plain_of_safeUsername safe

theorem libraryPlace_of_libraryRel {phys : OsPath} (named : ∀ name ∈ phys, PlainName name)
    (inside : (roots.libraryRel phys).isSome)
    : roots.LibraryPlace phys := by
  obtain ⟨rel, found⟩ := Option.isSome_iff_exists.mp inside
  obtain ⟨relative, shared⟩ := Option.filter_eq_some_iff.mp found
  obtain ⟨rest, split, rfl⟩ := Option.map_eq_some_iff.mp relative
  obtain rfl := List.isPrefixOf?_eq_some_iff_append_eq.mp split
  refine ⟨rest, rfl, ?_⟩
  intro first head
  cases rest with
  | nil => cases head
  | cons name more =>
      obtain rfl := Option.some.inj head
      have read : Text.segments '/' (Text.join '/' (name :: more)) = name :: more := by
        apply Text.segments_join (List.cons_ne_nil _ _)
        intro piece member
        exact (named piece (List.mem_append_right _ member)).2.2.2
      rw [read] at shared
      simpa using shared

theorem libraryMember_spec {dir phys : OsPath} {rel : String}
    (plain : ∀ name ∈ dir, PlainName name)
    (found : roots.libraryMember disk dir rel = some phys)
    : roots.LibraryPlace phys ∧ ∀ name ∈ phys, PlainName name := by
  obtain ⟨resolved, kept⟩ := Option.filter_eq_some_iff.mp found
  have named : ∀ name ∈ phys, PlainName name := fun name member =>
    (plain_of_resolveUnder resolved name member).elim (plain name) id
  rw [Bool.and_eq_true] at kept
  exact ⟨libraryPlace_of_libraryRel named kept.2, named⟩

theorem userPath_spec {account : Caller} {rel : String} {phys : OsPath}
    (found : roots.userPath disk account rel = some phys)
    : roots.OwnPlace account phys ∧ ∀ name ∈ phys, PlainName name := by
  obtain ⟨base, based, found⟩ := Option.bind_eq_some_iff.mp found
  have plainBase := plain_userBase based
  have inHistory : ∀ {rel : String}, (resolveUnder disk.lstat base rel).filter
        (fun resolved => (base ++ [historyDir]).isPrefixOf resolved) = some phys
      → roots.OwnPlace account phys ∧ ∀ name ∈ phys, PlainName name := by
    intro rel found
    obtain ⟨resolved, inside⟩ := Option.filter_eq_some_iff.mp found
    exact ⟨⟨base, based, .inr (List.isPrefixOf_iff_prefix.mp inside)⟩, fun name member =>
      (plain_of_resolveUnder resolved name member).elim (plainBase name) id⟩
  cases classified : perUser rel with
  | none =>
      rw [classified] at found
      cases found
  | some named =>
      rw [classified] at found
      obtain ⟨name, member, rfl⟩ | rfl | ⟨rest, rfl⟩ := perUser_cases classified
      · obtain rfl := Option.some.inj found
        refine ⟨⟨base, based, .inl ⟨name, member, rfl⟩⟩, ?_⟩
        intro other listed
        rcases List.mem_append.mp listed with old | new
        · exact plainBase other old
        · obtain rfl := List.mem_singleton.mp new
          exact plain_of_perUserFiles member
      · exact inHistory found
      · exact inHistory found

theorem lookup_spec {path : String} {res : Resource}
    (found : roots.lookup disk path caller = some res) {phys : OsPath}
    (placed : res.phys? = some phys)
    : (∃ kind, res.kind? = some kind ∧ roots.Allowed caller phys kind)
      ∧ ∀ name ∈ phys, PlainName name := by
  have made : ∀ {norm : String} {found : OsPath} {stat : Stat} {kind : FileKind},
      (Resource.make norm found stat kind).phys? = some found
        ∧ (Resource.make norm found stat kind).kind? = some kind := by
    intro norm found stat kind
    unfold Resource.make
    split <;> exact ⟨rfl, rfl⟩
  unfold lookup at found
  dsimp only at found
  split at found
  case h_1 =>
    obtain rfl := Option.some.inj found
    cases placed
  case h_2 =>
    obtain rfl := Option.some.inj found
    cases placed
  case h_3 rel _ =>
    obtain ⟨account, asked, found⟩ := Option.bind_eq_some_iff.mp found
    obtain ⟨own, resolved, found⟩ := Option.bind_eq_some_iff.mp found
    obtain ⟨stat, _, found⟩ := Option.bind_eq_some_iff.mp found
    obtain rfl := Option.some.inj found
    rw [made.1] at placed
    obtain rfl := Option.some.inj placed
    obtain ⟨place, named⟩ := userPath_spec resolved
    exact ⟨⟨.progress, made.2, account, asked, place⟩, named⟩
  case h_4 rel _ =>
    obtain ⟨member, resolved, found⟩ := Option.bind_eq_some_iff.mp found
    obtain ⟨stat, _, found⟩ := Option.bind_eq_some_iff.mp found
    obtain rfl := Option.some.inj found
    rw [made.1] at placed
    obtain rfl := Option.some.inj placed
    obtain ⟨place, named⟩ := libraryMember_spec
      (fun name member => roots.plain name (List.mem_append_left _ member)) resolved
    exact ⟨⟨.library, made.2, place⟩, named⟩
  case h_5 => cases found
  case h_6 => cases found

theorem memberPath_spec {parent : Resource}
    (named : ∀ phys ∈ parent.phys?, ∀ name ∈ phys, PlainName name) {name : String}
    {phys : OsPath} {kind : FileKind}
    (found : roots.memberPath disk parent name caller = some (phys, kind))
    : roots.Allowed caller phys kind := by
  unfold memberPath at found
  split at found
  case h_1 path =>
    split at found
    · split at found
      · obtain ⟨account, asked, found⟩ := Option.bind_eq_some_iff.mp found
        obtain ⟨own, resolved, found⟩ := Option.bind_eq_some_iff.mp found
        obtain ⟨rfl, rfl⟩ := Prod.mk.inj (Option.some.inj found)
        exact ⟨account, asked, (userPath_spec resolved).1⟩
      · obtain ⟨member, resolved, found⟩ := Option.bind_eq_some_iff.mp found
        obtain ⟨rfl, rfl⟩ := Prod.mk.inj (Option.some.inj found)
        exact (libraryMember_spec
          (fun name member => roots.plain name (List.mem_append_left _ member)) resolved).1
    · cases found
  case h_2 path dir stat =>
    obtain ⟨resolved, _, found⟩ := Option.bind_eq_some_iff.mp found
    obtain ⟨account, asked, found⟩ := Option.bind_eq_some_iff.mp found
    split at found
    case isTrue inside =>
      obtain ⟨rfl, rfl⟩ := Prod.mk.inj (Option.some.inj found)
      obtain ⟨base, based, within⟩ := (Option.any_eq_true _ _).mp inside
      exact ⟨account, asked, base, based, .inr (List.isPrefixOf_iff_prefix.mp within)⟩
    case isFalse => cases found
  case h_3 path dir stat =>
    obtain ⟨member, resolved, found⟩ := Option.bind_eq_some_iff.mp found
    obtain ⟨rfl, rfl⟩ := Prod.mk.inj (Option.some.inj found)
    exact (libraryMember_spec (named dir rfl) resolved).1
  case h_4 => cases found

theorem destinationPath_spec {parent : Resource}
    (named : ∀ phys ∈ parent.phys?, ∀ name ∈ phys, PlainName name) {name : String}
    {phys : OsPath} {kind : FileKind}
    (found : roots.destinationPath disk parent name caller = some (phys, kind))
    : roots.Allowed caller phys kind
      ∧ (kind = .library → ∃ rel led, roots.libraryRel phys = some rel
        ∧ resolveUnder disk.lstat roots.library rel = some led ∧ roots.LibraryPlace led) := by
  have plainLibrary : ∀ name ∈ roots.library, PlainName name :=
    fun name member => roots.plain name (List.mem_append_left _ member)
  unfold destinationPath at found
  split at found
  case isTrue perUserFile =>
    refine ⟨memberPath_spec named found, ?_⟩
    intro library
    rw [Bool.and_eq_true] at perUserFile
    have reserved : isPerUserRootName name = true := by
      rw [isPerUserRootName, Bool.or_eq_true]
      exact .inl perUserFile.2
    cases parent with
    | virtual path =>
        have reader : normalize path = "/" ++ readerRoot := by
          simpa [Resource.isReaderRoot] using perUserFile.1
        rw [memberPath, if_pos reader, if_pos reserved] at found
        obtain ⟨_, _, found⟩ := Option.bind_eq_some_iff.mp found
        obtain ⟨_, _, found⟩ := Option.bind_eq_some_iff.mp found
        obtain ⟨_, rfl⟩ := Prod.mk.inj (Option.some.inj found)
        cases library
    | folder _ _ _ _ => cases perUserFile.1
    | file _ _ _ _ => cases perUserFile.1
  case isFalse =>
    obtain ⟨dir, placed, found⟩ := Option.bind_eq_some_iff.mp found
    split at found
    case isTrue => cases found
    case isFalse solid =>
      obtain ⟨rel, relative, found⟩ := Option.bind_eq_some_iff.mp found
      obtain ⟨led, resolved, found⟩ := Option.bind_eq_some_iff.mp found
      obtain ⟨rfl, rfl⟩ := Prod.mk.inj (Option.some.inj found)
      have plainDir : ∀ name ∈ dir, PlainName name := by
        unfold destinationDir at placed
        split at placed
        · split at placed
          · split at placed
            · cases placed
            · obtain rfl := Option.some.inj placed
              exact plainLibrary
          · cases placed
        · cases placed
        · obtain rfl := Option.some.inj placed
          exact named _ rfl
        · cases placed
      have plain : ∀ other ∈ dir ++ [name], PlainName other := by
        intro other listed
        rcases List.mem_append.mp listed with old | new
        · exact plainDir other old
        · obtain rfl := List.mem_singleton.mp new
          simp only [Bool.or_eq_true, decide_eq_true_eq, List.contains_iff_mem, not_or] at solid
          exact ⟨solid.1.1.1.1, solid.1.1.1.2, solid.1.1.2, solid.1.2⟩
      exact ⟨libraryPlace_of_libraryRel plain (relative ▸ rfl), fun _ =>
        ⟨rel, led, relative, (Option.filter_eq_some_iff.mp resolved).1,
          (libraryMember_spec plainLibrary resolved).1⟩⟩

theorem not_strangers_place {phys : OsPath} {kind : FileKind}
    (allowed : roots.Allowed caller phys kind) {other : Caller} (stranger : Stranger caller other)
    : ¬ roots.OwnPlace other phys := by
  intro theirs
  obtain ⟨base, based, place⟩ := theirs
  have below : ∀ {base : OsPath}, ((∃ name ∈ perUserFiles, phys = base ++ [name])
        ∨ base ++ [historyDir] <+: phys)
      → ∃ first rest, phys = base ++ first :: rest ∧ isPerUserRootName first = true := by
    intro base place
    obtain ⟨name, member, rfl⟩ | ⟨rest, rfl⟩ := place
    · exact ⟨name, [], rfl, by simp [isPerUserRootName, member]⟩
    · exact ⟨historyDir, rest, by simp, by decide⟩
  have apart : ∀ {more others : List String}, roots.library ++ more ≠ roots.users ++ others := by
    intro more others same
    obtain inside | inside := List.prefix_or_prefix_of_prefix
      (List.prefix_append roots.library more) (same ▸ List.prefix_append roots.users others)
    · exact roots.usersOutside inside
    · exact roots.libraryOutside inside
  obtain ⟨first, rest, split, reserved⟩ := below place
  cases kind with
  | library =>
      obtain ⟨rel, inLibrary, shared⟩ := allowed
      obtain ⟨_, rfl⟩ | ⟨_, _, rfl⟩ := userBase_cases based
      · have same := List.append_cancel_left (inLibrary.symm.trans split)
        have free := shared first (by rw [same]; rfl)
        rw [reserved] at free
        cases free
      · rw [List.append_assoc] at split
        exact apart (inLibrary.symm.trans split)
  | progress =>
      obtain ⟨account, asked, ownBase, ownBased, own⟩ := allowed
      obtain ⟨differ, single⟩ := stranger account asked
      obtain ⟨ownFirst, ownRest, ownSplit, _⟩ := below own
      obtain ⟨owns, rfl⟩ | ⟨_, _, rfl⟩ := userBase_cases based
      · obtain ⟨ownsToo, rfl⟩ | ⟨_, _, rfl⟩ := userBase_cases ownBased
        · exact single ⟨owns, ownsToo⟩
        · rw [List.append_assoc] at ownSplit
          exact apart (split.symm.trans ownSplit)
      · obtain ⟨_, rfl⟩ | ⟨_, _, rfl⟩ := userBase_cases ownBased
        · rw [List.append_assoc] at split
          exact apart (ownSplit.symm.trans split)
        · rw [List.append_assoc] at split ownSplit
          have same := List.append_cancel_left (split.symm.trans ownSplit)
          exact differ (List.cons.inj same).1

example : Nonempty Roots := ⟨{
  library := ["storage", "library"]
  users := ["storage", "users"]
  plain := by simp [PlainName]
  usersOutside := by decide
  libraryOutside := by decide
}⟩

end Roots

end MokuroBunko.Dav
