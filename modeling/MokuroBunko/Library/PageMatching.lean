import Mathlib.Data.List.Dedup
import Mathlib.Logic.Function.Basic
import MokuroBunko.Library.SidecarNames

/-! The pages of an archive for the OCR and for the reader (`archive/mod.rs`), and how many pages of
a sidecar have an image (`compat.rs`).
-/

namespace MokuroBunko.Library

open MokuroBunko.Lib

-- The pages of the OCR

def PAGE_EXTENSIONS : List FileName :=
  [".jpg".toList, ".jpeg".toList, ".png".toList, ".webp".toList, ".avif".toList, ".jxl".toList]

/-- What follows the last separator, or all of it: `rsplit(..).next()`. -/
def afterLast (separator : Char) (path : FileName) : FileName :=
  (path.reverse.takeWhile (· ≠ separator)).reverse

/-- `PurePath.suffix` of the last component. -/
def pathSuffix (path : FileName) : FileName := pySuffix (afterLast '/' path)

variable (py : LowerTables)

def isPageName (path : FileName) : Bool := PAGE_EXTENSIONS.contains (py.toLowercase (pathSuffix path))

/-- Where extraction puts a member. -/
def extractedName (member : FileName) : FileName :=
  ['/'].intercalate ((member.splitOn '/').filter (fun part =>
    ! part.isEmpty && part ≠ ".".toList && part ≠ "..".toList))

structure Page where
  path : FileName
  /-- The member it is read from. -/
  source : ℕ

/-- One member. A path that is there keeps its place and takes the later member. -/
def addPage (stem : FileName) (pages : List Page) (entry : FileName × ℕ) : List Page :=
  if ['/'].isSuffixOf entry.1 then pages
  else
    let landed := extractedName entry.1
    if landed.isEmpty || ! isPageName py landed || landed = stem ++ ".webp".toList then pages
    else if pages.any (·.path = landed) then
      pages.map (fun page => if page.path = landed then { page with source := entry.2 } else page)
    else pages ++ [⟨landed, entry.2⟩]

/-- The pages of a zip by its members' names. `naturalLe` is the order of the natural sort. -/
def zipPages (naturalLe : FileName → FileName → Bool) (entries : List FileName) (stem : FileName)
    : List Page :=
  (entries.zipIdx.foldl (addPage py stem) []).insertionSort
    (fun left right => naturalLe left.path right.path)

-- The images of the reader

def IMAGE_EXTENSIONS : List FileName :=
  ["jpg".toList, "jpeg".toList, "png".toList, "webp".toList, "gif".toList, "bmp".toList,
    "avif".toList, "tif".toList, "tiff".toList, "jxl".toList]

def EXCLUDED_SYSTEM_PATTERNS : List FileName :=
  ["__MACOSX".toList, ".DS_Store".toList, ".Trashes".toList, ".Spotlight-V100".toList,
    ".fseventsd".toList, ".TemporaryItems".toList, ".Trash".toList,
    "System Volume Information".toList, "$RECYCLE.BIN".toList, "Thumbs.db".toList,
    "desktop.ini".toList, "Desktop.ini".toList, "RECYCLER".toList, "RECYCLED".toList,
    ".Trash-1000".toList, ".thumbnails".toList, ".directory".toList, ".dropbox".toList,
    ".dropbox.cache".toList, ".git".toList, ".svn".toList]

def EXCLUDED_EXTENSIONS : List FileName := ["bak".toList, "tmp".toList, "temp".toList]

/-- Backslashes are taken for slashes. -/
def slashes (path : FileName) : FileName := path.map (fun char => if char = '\\' then '/' else char)

def isSystemFile (path : FileName) : Bool :=
  let segments := (slashes path).splitOn '/'
  let filename := segments.getLast?.getD []
  segments.any (fun segment => ! segment.isEmpty
    && ("._".toList.isPrefixOf segment || ['~'].isSuffixOf segment
      || EXCLUDED_SYSTEM_PATTERNS.contains segment))
  || match splitLastDot filename with
    | some (_, extension) => EXCLUDED_EXTENSIONS.contains (py.toLowercase extension)
    | none => false

def isImageExtension (extension : FileName) : Bool :=
  IMAGE_EXTENSIONS.contains (py.toLowercase extension)

/-- What follows the last dot of the whole path, in lower case. -/
def trailingExtension (path : FileName) : FileName := py.toLowercase (afterLast '.' path)

/-- The last component, or the name if that is empty. -/
def basename (path : FileName) : FileName :=
  if afterLast '/' path = [] then path else afterLast '/' path

/-- Whether the reader takes a member for a page of the archive of the stem. -/
def isReaderImage (stem name : FileName) : Bool :=
  ! (['/'].isSuffixOf name || isSystemFile py name)
    && isImageExtension py (trailingExtension py name)
    && py.toLowercase (basename name) ≠ py.toLowercase stem ++ ".webp".toList

/-- The images of an archive that can be read. -/
def readerImageNames (entries : List FileName) (stem : FileName) : List FileName :=
  entries.filter (isReaderImage py stem)

-- Pages with an image

def normalizePagePath (path : FileName) : FileName := slashes (py.toLowercase path)

/-- The basename without its last extension. -/
def pageStem (path : FileName) : FileName :=
  match splitLastDot (basename path) with
  | some (before, _) => if before ≠ [] then before else basename path
  | none => basename path

/-- A map from what is read off each file to the last such file. -/
def fileMap (key : FileName → FileName) (files : List FileName) : FileName → Option FileName :=
  files.foldl (fun map file => Function.update map (key file) (some file)) (fun _ => none)

structure Matching where
  used : List FileName
  matched : ℕ
  missing : ℕ

/-- One page: its normalized path, or else its stem if the file is not used yet. -/
def matchPage (normalizedFiles stemFiles : FileName → Option FileName) (state : Matching)
    (page : Option FileName) : Matching :=
  match page with
  | none => { state with missing := state.missing + 1 }
  | some page =>
      match normalizedFiles (normalizePagePath py page) with
      | some actual => { state with used := actual :: state.used, matched := state.matched + 1 }
      | none =>
          match (stemFiles (py.toLowercase (pageStem page))).filter
              (fun actual => ! state.used.contains actual) with
          | some actual =>
              { state with used := actual :: state.used, matched := state.matched + 1 }
          | none => { state with missing := state.missing + 1 }

/-- The pages that have a file: by path, by stem, and by place if none fits half of them. -/
def countMatchedPages (pagePaths : List (Option FileName)) (filePaths : List FileName) : ℕ :=
  let uniqueFiles := filePaths.reverse.dedup.reverse
  let normalizedFiles := fileMap (normalizePagePath py) uniqueFiles
  let stemFiles := fileMap (fun file => py.toLowercase (pageStem file)) uniqueFiles
  let state := pagePaths.foldl (matchPage py normalizedFiles stemFiles) ⟨[], 0, 0⟩
  let extra := (uniqueFiles.filter (fun file => ! state.used.contains file)).length
  if 0 < state.missing ∧ state.missing = extra ∧ state.matched * 2 < pagePaths.length then
    state.matched + state.missing
  else state.matched

variable {py}

-- Counting

theorem matchPage_count (normalizedFiles stemFiles : FileName → Option FileName)
    (state : Matching) (page : Option FileName)
    : (matchPage py normalizedFiles stemFiles state page).matched
        + (matchPage py normalizedFiles stemFiles state page).missing
      = state.matched + state.missing + 1 := by
  unfold matchPage
  split
  · rfl
  · split
    · dsimp only
      omega
    · split
      · dsimp only
        omega
      · rfl

theorem foldl_matchPage_count (normalizedFiles stemFiles : FileName → Option FileName)
    (state : Matching) (pages : List (Option FileName))
    : (pages.foldl (matchPage py normalizedFiles stemFiles) state).matched
        + (pages.foldl (matchPage py normalizedFiles stemFiles) state).missing
      = state.matched + state.missing + pages.length := by
  induction pages generalizing state with
  | nil => rfl
  | cons page pages ih =>
      rw [List.foldl_cons, ih, matchPage_count, List.length_cons]
      omega

theorem countMatchedPages_le (pagePaths : List (Option FileName)) (filePaths : List FileName)
    : countMatchedPages py pagePaths filePaths ≤ pagePaths.length := by
  unfold countMatchedPages
  extract_lets uniqueFiles normalizedFiles stemFiles state extra
  have counted := @foldl_matchPage_count py normalizedFiles stemFiles ⟨[], 0, 0⟩ pagePaths
  have total : state.matched + state.missing = pagePaths.length := by
    rw [counted, Nat.zero_add, Nat.zero_add]
  split
  · exact total.le
  · omega

theorem filter_length_le_matched (normalizedFiles stemFiles : FileName → Option FileName)
    (state : Matching) (pages : List FileName)
    : state.matched
        + (pages.filter (fun page => (normalizedFiles (normalizePagePath py page)).isSome)).length
      ≤ ((pages.map some).foldl (matchPage py normalizedFiles stemFiles) state).matched := by
  induction pages generalizing state with
  | nil => exact Nat.le_refl _
  | cons page pages ih =>
      rw [List.map_cons, List.foldl_cons]
      have later := ih (matchPage py normalizedFiles stemFiles state (some page))
      have here : state.matched
          + (if (normalizedFiles (normalizePagePath py page)).isSome then 1 else 0)
          ≤ (matchPage py normalizedFiles stemFiles state (some page)).matched := by
        unfold matchPage
        dsimp only
        cases normalizedFiles (normalizePagePath py page) with
        | some actual => exact Nat.le_refl _
        | none =>
            rw [Option.isSome_none, if_neg Bool.false_ne_true, Nat.add_zero]
            dsimp only
            split
            · exact Nat.le_succ _
            · exact Nat.le_refl _
      rw [List.filter_cons]
      split
      · rename_i listed
        rw [if_pos listed] at here
        rw [List.length_cons]
        omega
      · rename_i unlisted
        rw [if_neg unlisted] at here
        omega

theorem fileMap_isSome {key : FileName → FileName} {files : List FileName} {file : FileName}
    (member : file ∈ files)
    : (fileMap key files (key file)).isSome := by
  have kept : ∀ (files : List FileName) (map : FileName → Option FileName) (wanted : FileName),
      ((map wanted).isSome ∨ ∃ file ∈ files, key file = wanted)
      → (files.foldl (fun map file => Function.update map (key file) (some file)) map
        wanted).isSome := by
    intro files
    induction files with
    | nil =>
        intro map wanted found
        obtain old | ⟨file, absent, _⟩ := found
        · exact old
        · cases absent
    | cons first files ih =>
        intro map wanted found
        rw [List.foldl_cons]
        apply ih
        by_cases same : wanted = key first
        · left
          rw [same, Function.update_self]
          rfl
        · obtain old | ⟨file, member, keyed⟩ := found
          · left
            rw [Function.update_of_ne same]
            exact old
          · obtain rfl | later := List.mem_cons.mp member
            · exact absurd keyed.symm same
            · exact Or.inr ⟨file, later, keyed⟩
  exact kept files _ _ (Or.inr ⟨file, member, rfl⟩)

theorem filter_length_le_countMatchedPages (pages files : List FileName)
    : (pages.filter (fun page => files.contains page)).length
      ≤ countMatchedPages py (pages.map some) files := by
  unfold countMatchedPages
  extract_lets uniqueFiles normalizedFiles stemFiles state extra
  have bound := @filter_length_le_matched py normalizedFiles stemFiles ⟨[], 0, 0⟩ pages
  have fewer : (pages.filter (fun page => files.contains page)).length
      ≤ (pages.filter (fun page =>
        (normalizedFiles (normalizePagePath py page)).isSome)).length := by
    apply List.Sublist.length_le
    apply List.monotone_filter_right
    intro page listed
    have member : page ∈ uniqueFiles :=
      List.mem_reverse.mpr (List.mem_dedup.mpr (List.mem_reverse.mpr
        (List.contains_iff_mem.mp listed)))
    exact fileMap_isSome member
  have matched : (pages.filter (fun page => files.contains page)).length ≤ state.matched := by
    rw [Nat.zero_add] at bound
    exact fewer.trans bound
  split
  · omega
  · exact matched

-- Pages of both

theorem addPage_spec {stem : FileName} {pages : List Page} {entry : FileName × ℕ}
    (good : ∀ page ∈ pages, isPageName py page.path = true)
    : ∀ page ∈ addPage py stem pages entry, isPageName py page.path = true := by
  unfold addPage
  split
  · exact good
  · dsimp only
    split
    · exact good
    · rename_i taken
      rw [Bool.or_eq_true, Bool.or_eq_true, not_or, not_or, Bool.not_eq_true', Bool.not_eq_false]
        at taken
      split
      · intro page member
        obtain ⟨old, there, rfl⟩ := List.mem_map.mp member
        split
        · exact good old there
        · exact good old there
      · intro page member
        obtain there | last := List.mem_append.mp member
        · exact good page there
        · rw [List.mem_singleton.mp last]
          exact taken.1.2

theorem zipPages_pageName {naturalLe : FileName → FileName → Bool} {entries : List FileName}
    {stem : FileName} {page : Page} (member : page ∈ zipPages py naturalLe entries stem)
    : isPageName py page.path = true := by
  have kept : ∀ (entries : List (FileName × ℕ)) (pages : List Page),
      (∀ page ∈ pages, isPageName py page.path = true)
      → ∀ page ∈ entries.foldl (addPage py stem) pages, isPageName py page.path = true := by
    intro entries
    induction entries with
    | nil => exact fun pages good => good
    | cons entry entries ih => exact fun pages good => ih _ (addPage_spec good)
  unfold zipPages at member
  rw [List.mem_insertionSort] at member
  exact kept _ [] (fun page absent => absurd absent List.not_mem_nil) page member

theorem afterLast_append {separator : Char} {front back : FileName} (absent : separator ∉ back)
    : afterLast separator (front ++ separator :: back) = back := by
  unfold afterLast
  rw [List.reverse_append, List.reverse_cons, List.append_assoc, List.takeWhile_append_of_pos]
  · simp
  · intro char member
    apply decide_eq_true
    intro same
    exact absent (same ▸ List.mem_reverse.mp member)

theorem afterLast_suffix (separator : Char) (path : FileName)
    : afterLast separator path <:+ path := by
  unfold afterLast
  rw [← List.reverse_prefix, List.reverse_reverse]
  exact List.takeWhile_prefix _

/-- The characters of the page extensions. -/
def PAGE_CHARS : List Char := ".jpgenwbavifxl".toList

theorem page_extension {extension : FileName} (known : extension ∈ PAGE_EXTENSIONS)
    : (∀ char ∈ extension, char ∈ PAGE_CHARS) ∧ (∀ char ∈ extension, char.toNat < 128)
      ∧ ∃ rest, extension = '.' :: rest ∧ rest.map Text.asciiLowerChar = rest
        ∧ rest ∈ IMAGE_EXTENSIONS := by
  unfold PAGE_EXTENSIONS at known
  simp only [List.mem_cons, List.not_mem_nil, or_false] at known
  obtain rfl | rfl | rfl | rfl | rfl | rfl := known
  all_goals exact ⟨forall_char (by decide), forall_char (by decide), _, rfl, by decide, by decide⟩

theorem isPageName_reads (keeps : KeepsEndings py.piece PAGE_CHARS) {path : FileName}
    (page : isPageName py path = true)
    : ['/'].isSuffixOf path = false ∧ isImageExtension py (trailingExtension py path) = true := by
  unfold isPageName at page
  rw [List.contains_iff_mem] at page
  obtain ⟨chars, ascii, rest, dotted, low, image⟩ := page_extension page
  have lowered : (pathSuffix path).map Text.asciiLowerChar = '.' :: rest := by
    rw [← dotted]
    exact keeps.map_of_spell_eq chars ascii rfl
  have narrow : ∀ char ∈ rest, char.toNat < 128 :=
    fun char member => ascii char (dotted ▸ List.mem_cons_of_mem _ member)
  -- the suffix is the part of the last component from its last dot on
  obtain ⟨before, extension, component, plain, spelled⟩ : ∃ before extension,
      afterLast '/' path = before ++ '.' :: extension ∧ '.' ∉ extension
        ∧ extension.map Text.asciiLowerChar = rest := by
    unfold pathSuffix pySuffix at lowered
    cases split : splitLastDot (afterLast '/' path) with
    | none =>
        rw [split] at lowered
        cases lowered
    | some parts =>
        obtain ⟨before, after⟩ := parts
        rw [split] at lowered
        dsimp only at lowered
        obtain ⟨component, plain⟩ := splitLastDot_eq_some_iff.mp split
        split at lowered
        · exact ⟨before, after, component, plain, List.tail_eq_of_cons_eq lowered⟩
        · cases lowered
  constructor
  · rw [← Bool.not_eq_true, List.isSuffixOf_iff_suffix]
    intro ⟨front, same⟩
    have empty := @afterLast_append '/' front [] List.not_mem_nil
    rw [same, component] at empty
    exact absurd empty (by simp)
  · obtain ⟨front, joined⟩ := afterLast_suffix '/' path
    have last : afterLast '.' path = extension := by
      rw [← joined, component, ← List.append_assoc]
      exact afterLast_append plain
    have narrow' : ∀ char ∈ extension, char.toNat < 128 := by
      intro char member
      apply asciiLowerChar_lt.mp
      exact narrow _ (spelled ▸ List.mem_map_of_mem member)
    unfold isImageExtension trailingExtension LowerTables.toLowercase
    rw [last, keeps.spell_ascii narrow', spelled, keeps.spell_ascii narrow, low,
      List.contains_iff_mem]
    exact image

/-- A page that the reader has under another name or not at all: no member has its path, or it is
a system file, or it is named like the cover. -/
def unread (py : LowerTables) (entries : List FileName) (stem page : FileName) : Bool :=
  ! entries.contains page || isSystemFile py page
    || py.toLowercase (basename page) = py.toLowercase stem ++ ".webp".toList

theorem mem_readerImageNames (keeps : KeepsEndings py.piece PAGE_CHARS) {entries : List FileName}
    {stem page : FileName} (named : isPageName py page = true)
    (read : unread py entries stem page = false)
    : page ∈ readerImageNames py entries stem := by
  obtain ⟨no_folder, image⟩ := isPageName_reads keeps named
  unfold unread at read
  rw [Bool.or_eq_false_iff, Bool.or_eq_false_iff, Bool.not_eq_false', List.contains_iff_mem] at read
  obtain ⟨⟨member, plain⟩, other⟩ := read
  refine List.mem_filter.mpr ⟨member, ?_⟩
  unfold isReaderImage
  rw [no_folder, plain, image]
  simpa using other

/-- Of the OCR's own pages at most those are missing that the reader does not have as they are; and
never more pages are matched than there are. -/
theorem own_pages_matched (keeps : KeepsEndings py.piece PAGE_CHARS)
    (naturalLe : FileName → FileName → Bool) (entries : List FileName) (stem : FileName)
    : ((zipPages py naturalLe entries stem).map Page.path).length
        ≤ countMatchedPages py (((zipPages py naturalLe entries stem).map Page.path).map some)
            (readerImageNames py entries stem)
          + (((zipPages py naturalLe entries stem).map Page.path).filter
            (unread py entries stem)).length
      ∧ ∀ pagePaths filePaths, countMatchedPages py pagePaths filePaths ≤ pagePaths.length := by
  refine ⟨?_, countMatchedPages_le⟩
  have named : ∀ page ∈ (zipPages py naturalLe entries stem).map Page.path,
      isPageName py page = true := by
    intro path member
    obtain ⟨page, there, rfl⟩ := List.mem_map.mp member
    exact zipPages_pageName there
  generalize (zipPages py naturalLe entries stem).map Page.path = pages at named
  have matched := @filter_length_le_countMatchedPages py pages (readerImageNames py entries stem)
  have rest : (pages.filter (fun page =>
      ! (readerImageNames py entries stem).contains page)).length
      ≤ (pages.filter (unread py entries stem)).length := by
    rw [← List.countP_eq_length_filter, ← List.countP_eq_length_filter]
    apply List.countP_mono_left
    intro page member absent
    by_contra read
    have listed := mem_readerImageNames keeps (named page member) (Bool.eq_false_iff.mpr read)
    rw [List.contains_iff_mem.mpr listed] at absent
    cases absent
  have all := List.length_eq_length_filter_add
    (fun page => (readerImageNames py entries stem).contains page) (l := pages)
  omega

theorem own_pages_matched_folder
    : ((zipPages letterTables (· ≤ ·) ["a/p.jpg".toList] "V".toList).map Page.path).length ≤ 1
      ∧ countMatchedPages letterTables [some "p.jpg".toList] ["p.png".toList] ≤ 1 :=
  have spec := own_pages_matched (letterTables_keep (forall_char (by decide))) (fun a b => decide (a ≤ b))
    ["a/p.jpg".toList] "V".toList
  ⟨spec.1.trans (by decide), spec.2 _ _⟩

/-- The resource fork of a page is a page of the OCR, and no image for the reader. -/
theorem resource_fork_missing
    : countMatchedPages letterTables
        (((zipPages letterTables (fun a b => decide (a ≤ b))
          ["__MACOSX/._p.jpg".toList, "p.jpg".toList] "V".toList).map Page.path).map some)
        (readerImageNames letterTables ["__MACOSX/._p.jpg".toList, "p.jpg".toList] "V".toList) = 1
      ∧ ((zipPages letterTables (fun a b => decide (a ≤ b))
          ["__MACOSX/._p.jpg".toList, "p.jpg".toList] "V".toList).map Page.path).length = 2 := by
  decide +kernel

end MokuroBunko.Library
