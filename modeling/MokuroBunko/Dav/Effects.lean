import MokuroBunko.Dav.CopyTree
import MokuroBunko.Dav.ListingCache
import MokuroBunko.Dav.Resource

/-! What DELETE, COPY and MOVE tell the rest of the server (`methods/write.rs`, and `Effects` in
`methods/mod.rs`): the rows they forget on the way, the listings they drop and the archives they
report at the end. The disk may fail at any step, and another write may hold a place at any time.
-/

namespace MokuroBunko.Dav.Effects

open MokuroBunko.Lib
open MokuroBunko.Library

/-- A row of the database about a file, with places below the library. -/
inductive FileRow where
  /-- `volume_uploads`. -/
  | owner (volume : Place)
  /-- `volume_identities`. -/
  | uuid (volume : Place)
  /-- `ocr_sidecars`. -/
  | ocr (sidecar volume : Place)
deriving DecidableEq

def FileRow.file : FileRow → Place
  | .owner volume => volume
  | .uuid volume => volume
  | .ocr sidecar _ => sidecar

/-- What a request meets, by how many disk operations it has tried before. -/
structure Trouble where
  /-- Whether the disk fails the operation. -/
  fails : ℕ → Bool
  /-- Whether another write holds the place, something above it or something below. -/
  busy : ℕ → Place → Bool
  /-- What a `remove_dir_all` that fails has removed by then. -/
  removed : ℕ → List Place
  /-- How many folders a `create_dir_all` that fails has seen to. -/
  made : ℕ → ℕ
  /-- What a `copy` that fails has written. -/
  torn : ℕ → List UInt8

/-- `Effects`. -/
structure Collected where
  removed : List Place
  arrived : List Place
  listings : List String
  changed : List Place

/-- The disk and the rows about its files. -/
structure Stock where
  tree : Tree
  rows : List FileRow

/-- A request under way. The steps are no data of the code's: they record the stock before and
after each operation that came to the disk. -/
structure Site where
  stock : Stock
  collected : Collected
  tried : ℕ
  steps : List (Stock × Stock)

/-- A request under way, and the status of its error if it has failed. -/
abbrev Outcome := Site × Option ℕ

variable (around : Surroundings) (namesUuid : List UInt8 → Bool) (trouble : Trouble)

-- Rows

/-- `strip_suffix_ci`. -/
def stripSuffixCi (suffix name : FileName) : Option FileName :=
  let cut := name.length - suffix.length
  if suffix.length ≤ name.length
      && (name.drop cut).map around.std.lower = suffix.map (fun char => [char]) then
    some (name.take cut)
  else none

/-- `normalize_volume_key`. -/
def normalizeVolumeKey (rel : Place) : Option Place :=
  if rel = [] then none
  else if (stripSuffixCi around ".cbz".toList (fileName rel)).isSome then some rel
  else
    [".mokuro.gz", ".mokuro", ".webp", ".nocover"].findSome? (fun suffix =>
      (stripSuffixCi around suffix.toList (fileName rel)).map (fun stem =>
        rel.dropLast ++ [stem ++ ".cbz".toList]))

def forgetVolumeUpload (rel : Place) (rows : List FileRow) : List FileRow :=
  match normalizeVolumeKey around rel with
  | none => rows
  | some key => rows.filter (· ≠ .owner key)

def forgetVolumeUuid (rel : Place) (rows : List FileRow) : List FileRow :=
  match normalizeVolumeKey around rel with
  | none => rows
  | some key => rows.filter (· ≠ .uuid key)

def rememberVolumeUuid (rel : Place) (rows : List FileRow) : List FileRow :=
  match normalizeVolumeKey around rel with
  | none => rows
  | some key => if rows.contains (.uuid key) then rows else rows ++ [.uuid key]

def renameVolumeUpload (old new : Place) (rows : List FileRow) : List FileRow :=
  match normalizeVolumeKey around old, normalizeVolumeKey around new with
  | some oldKey, some newKey =>
      if oldKey = newKey || ! rows.contains (.owner oldKey) then rows
      else
        rows.filter (fun row => row ≠ .owner oldKey && row ≠ .owner newKey) ++ [.owner newKey]
  | _, _ => rows

def forgetOcrSidecar (rel : Place) (rows : List FileRow) : List FileRow :=
  rows.filter (fun row =>
    match row with
    | .ocr sidecar _ => sidecar ≠ rel
    | _ => true)

def forgetOcrSidecarsOfVolume (rel : Place) (rows : List FileRow) : List FileRow :=
  rows.filter (fun row =>
    match row with
    | .ocr _ volume => volume ≠ rel
    | _ => true)

/-- `forget_ocr_records`. -/
def forgetOcrRecords (rel : Option Place) (archiveToo : Bool) (rows : List FileRow)
    : List FileRow :=
  match rel with
  | none => rows
  | some rel =>
      let lower := around.std.toLowercase (fileName rel)
      if ".cbz".toList.isSuffixOf lower then
        if archiveToo then forgetOcrSidecarsOfVolume rel rows else rows
      else if ".mokuro".toList.isSuffixOf lower || ".mokuro.gz".toList.isSuffixOf lower then
        forgetOcrSidecar rel rows
      else rows

def isBelow (folder place : Place) : Bool :=
  folder.isPrefixOf place && folder.length < place.length

/-- The three `forget_*_under_prefix`. -/
def forgetUnderPrefix (rel : Place) (rows : List FileRow) : List FileRow :=
  if rel = [] then rows else rows.filter (fun row => ! isBelow rel row.file)

/-- A place below one folder, below the other. -/
def movedPlace (old new place : Place) : Place :=
  if isBelow old place then new ++ place.drop old.length else place

/-- `rename_ocr_sidecars_under_prefix` and `rename_volume_uuids_under_prefix`: a row in the way of
one that moves is replaced. -/
def renameUnderPrefix (old new : Place) (rows : List FileRow) : List FileRow :=
  let moves := fun row : FileRow =>
    match row with
    | .owner _ => none
    | .uuid volume =>
        if movedPlace old new volume = volume then none
        else some (FileRow.uuid (movedPlace old new volume))
    | .ocr sidecar volume =>
        if movedPlace old new sidecar = sidecar then none
        else some (.ocr (movedPlace old new sidecar) (movedPlace old new volume))
  let moved := rows.filterMap moves
  let inTheWay := fun row : FileRow =>
    match row with
    | .owner _ => false
    | .uuid _ => moved.contains row
    | .ocr sidecar _ =>
        moved.any (fun other =>
          match other with
          | .ocr target _ => target = sidecar
          | _ => false)
  rows.filter (fun row => (moves row).isNone && ! inTheWay row) ++ moved

/-- `primary_sidecar_stem`. -/
def primarySidecarStem (name : FileName) : Option FileName :=
  let lower := around.std.toLowercase name
  if utf8Length lower ≠ utf8Length name then none
  else
    [".mokuro.gz", ".mokuro"].findSome? (fun ending =>
      if ending.toList.isSuffixOf lower then
        takeBytes (utf8Length name - utf8Length ending.toList) name
      else none)

/-- `primary_leaving`: the volume of a primary sidecar that goes keeps its id. -/
def primaryLeaving (phys : Place) (stock : Stock) : Stock :=
  match libraryRel around phys, primarySidecarStem around (fileName phys),
      stock.tree.get? phys with
  | some rel, some stem, some (.file bytes) =>
      if stock.tree.isFile (phys.dropLast ++ [stem ++ ".cbz".toList]) && namesUuid bytes then
        { stock with rows := rememberVolumeUuid around rel stock.rows }
      else stock
  | _, _, _ => stock

-- What is collected

namespace Collected

def empty : Collected where
  removed := []
  arrived := []
  listings := []
  changed := []

variable (collected : Collected)

def noteRemoved (phys : Place) : Collected :=
  if (libraryRel around phys).isSome then
    { collected with removed := collected.removed ++ [phys] }
  else collected

def noteArrived (phys : Place) : Collected :=
  if isCbz phys && (libraryRel around phys).isSome then
    { collected with arrived := collected.arrived ++ [phys] }
  else collected

/-- `touch`: the caller's own tree is in no shared listing. -/
def touch (vpath : String) (phys : Place) : Collected :=
  match classify vpath with
  | .progress _ => collected
  | _ => {
      collected with
      listings := collected.listings ++ [normalize vpath]
      changed := collected.changed ++ [phys]
    }

end Collected

/-- An operation that came to the disk, with what it left there and of the rows. -/
def Site.stepped (site : Site) (tries : ℕ) (after : Stock) : Site where
  stock := after
  collected := site.collected
  tried := site.tried + tries
  steps := site.steps ++ [(site.stock, after)]

-- Deleting

/-- `remove_file` of several files, whose errors are ignored. -/
def discardAll : ℕ → Tree → List Place → Tree
  | _, tree, [] => tree
  | tried, tree, phys :: rest =>
      discardAll (tried + 1) (if trouble.fails tried then tree else discard tree phys) rest

/-- The end of `delete_file`, once the file is gone. -/
def fileDeleted (site : Site) (vpath : String) (phys : Place) (tries : ℕ) (tree : Tree)
    (rows : List FileRow)
    : Site :=
  let rel := libraryRel around phys
  let volume := rel.filter (fun _ => isCbz phys)
  let freed :=
    match volume with
    | some rel => forgetVolumeUuid around rel (forgetVolumeUpload around rel rows)
    | none => rows
  let noted :=
    if volume.isSome then site.collected.noteRemoved around phys else site.collected
  {
    site.stepped tries { tree := tree, rows := forgetOcrRecords around rel true freed } with
    collected := noted.touch vpath phys
  }

def deleteFile (site : Site) (vpath : String) (phys : Place) : Outcome :=
  if (site.stock.tree.get? phys).isNone then (site, none)
  else if trouble.busy site.tried phys then (site, some 423)
  else
    let rows := (primaryLeaving around namesUuid phys site.stock).rows
    let beside :=
      if (libraryRel around phys).isSome && isCbz phys then
        siblingPlaces around site.stock.tree phys
      else []
    let cleared := discardAll trouble site.tried site.stock.tree beside
    let tries := beside.length + 1
    match if trouble.fails (site.tried + beside.length) then none else cleared.removeFile phys with
    | some removed => (fileDeleted around site vpath phys tries removed rows, none)
    | none =>
        if (cleared.get? phys).isNone then
          (fileDeleted around site vpath phys tries cleared rows, none)
        else (site.stepped tries { tree := cleared, rows := rows }, some 500)

/-- What a `remove_dir_all` that fails leaves. -/
def partlyRemoved (tree : Tree) (phys : Place) (gone : List Place) : Tree :=
  (gone.filter (isBelow phys)).foldl
    (fun tree place => (tree.removeDirAll place).getD (discard tree place)) tree

/-- `delete_resource` of a folder. -/
def deleteFolder (site : Site) (vpath : String) (phys : Place) : Outcome :=
  if (site.stock.tree.get? phys).isNone then (site, none)
  else if trouble.busy site.tried phys then (site, some 423)
  else
    match if trouble.fails site.tried then none else site.stock.tree.removeDirAll phys with
    | none =>
        let left := partlyRemoved site.stock.tree phys (trouble.removed site.tried)
        (site.stepped 1 { site.stock with tree := left }, some 500)
    | some removed =>
        let rows :=
          match (libraryRel around phys).filter (· ≠ []) with
          | some rel => forgetUnderPrefix rel site.stock.rows
          | none => site.stock.rows
        ({
          site.stepped 1 { tree := removed, rows := rows } with
          collected := (site.collected.noteRemoved around phys).touch vpath phys
        }, none)

/-- `delete_resource` of a folder or of a file. -/
def deleteResource (site : Site) (vpath : String) (phys : Place) (folder : Bool) : Outcome :=
  if folder then deleteFolder around trouble site vpath phys
  else deleteFile around namesUuid trouble site vpath phys

-- Copying

/-- `create_dir_all`, and whether it succeeded. -/
def createDirAll (tried : ℕ) (tree : Tree) (folder : Place) : Tree × Bool :=
  if trouble.fails tried then
    ((tree.createDirAll (folder.take (trouble.made tried))).getD tree, false)
  else
    match tree.createDirAll folder with
    | some made => (made, true)
    | none => (tree, false)

/-- The `copy` of `copy_one`, to where the copy is staged. -/
def stage (tried : ℕ) (tree : Tree) (src temp : Place) : Tree × Bool :=
  match tree.get? src with
  | some (.file bytes) =>
      if trouble.fails tried then ((tree.writeFile temp (trouble.torn tried)).getD tree, false)
      else
        match tree.writeFile temp (if src = temp then [] else bytes) with
        | some staged => (staged, true)
        | none => (tree, false)
  | _ => (tree, false)

/-- `copy_one`, and whether it succeeded: a folder is made, a copy staged and its times set, and
it is renamed. -/
def copyOne (tried : ℕ) (tree : Tree) (src dest : Place) : Tree × Bool :=
  let temp := stagingPlace around dest
  match createDirAll trouble tried tree dest.dropLast with
  | (made, false) => (made, false)
  | (made, true) =>
      match stage trouble (tried + 1) made src temp with
      | (staged, false) => (discardAll trouble (tried + 4) staged [temp], false)
      | (staged, true) =>
          let copied :=
            if trouble.fails (tried + 2) || trouble.fails (tried + 3) then none
            else staged.renameFile temp dest
          match copied with
          | some copied => (copied, true)
          | none => (discardAll trouble (tried + 4) staged [temp], false)

def copyFile (site : Site) (src : Place) (destV : String) (dest : Place) : Outcome :=
  if trouble.busy site.tried dest then (site, some 423)
  else
    match copyOne around trouble site.tried site.stock.tree src dest with
    | (left, false) => (site.stepped 5 { site.stock with tree := left }, some 500)
    | (copied, true) =>
        let rows := forgetOcrRecords around (libraryRel around dest) false site.stock.rows
        ({
          site.stepped 5 { tree := copied, rows := rows } with
          collected := (site.collected.noteArrived around dest).touch destV dest
        }, none)

/-- The virtual path of a member. -/
def memberPath (vpath : String) (name : FileName) : String := vpath ++ "/" ++ String.ofList name

/-- What a loop over folders still has to visit: source, destination and its virtual path. -/
abbrev Pending := List (Place × Place × String)

/-- The inner loop of `prune_unmatched`. -/
def pruneEntries (s d : Place) (v : String)
    : List FileName → Site → Pending → Outcome × Pending
  | [], site, stack => ((site, none), stack)
  | name :: rest, site, stack =>
      let sp := s ++ [name]
      let dp := d ++ [name]
      let vp := memberPath v name
      let tree := site.stock.tree
      let isDir := tree.isFolder dp
      if (tree.get? sp).any (fun _ => tree.isFolder sp == isDir) then
        pruneEntries s d v rest site (if isDir then (sp, dp, vp) :: stack else stack)
      else if (tree.get? dp).isNone then pruneEntries s d v rest site stack
      else
        match deleteResource around namesUuid trouble site vp dp isDir with
        | (site, none) => pruneEntries s d v rest site stack
        | failed => (failed, stack)

/-- `prune_unmatched`, with a bound on the turns of its loop. -/
def pruneUnmatched : ℕ → Site → Pending → Option Outcome
  | _, site, [] => some (site, none)
  | 0, _, _ :: _ => none
  | turns + 1, site, (s, d, v) :: stack =>
      match site.stock.tree.readDir d with
      | none => pruneUnmatched turns site stack
      | some names =>
          match pruneEntries around namesUuid trouble s d v names site stack with
          | ((site, none), stack) => pruneUnmatched turns site stack
          | (failed, _) => some failed

/-- The folder that a folder is copied to. -/
def makeFolder (site : Site) (folder : Place) : Outcome :=
  match createDirAll trouble site.tried site.stock.tree folder with
  | (made, true) => (site.stepped 1 { site.stock with tree := made }, none)
  | (made, false) => (site.stepped 1 { site.stock with tree := made }, some 500)

/-- One member of a folder that is copied. -/
def copyMember (destRoot src dest : Place) (destV : String) (site : Site) (stack : Pending)
    : Outcome × Pending :=
  match site.stock.tree.get? src with
  | some .folder =>
      if around.library.isPrefixOf src && ! src.isPrefixOf destRoot then
        match makeFolder trouble site dest with
        | (site, none) => ((site, none), (src, dest, destV) :: stack)
        | failed => (failed, stack)
      else ((site, none), stack)
  | some (.file _) =>
      let cleared :=
        if (site.stock.tree.get? dest).isSome then
          deleteFile around namesUuid trouble site destV dest
        else (site, none)
      match cleared with
      | (site, none) => (copyFile around trouble site src destV dest, stack)
      | failed => (failed, stack)
  | none => ((site, none), stack)

/-- The inner loop of `copy_folder`, over the names in their order. -/
def copyEntries (destRoot src dest : Place) (destV : String)
    : List FileName → Site → Pending → Outcome × Pending
  | [], site, stack => ((site, none), stack)
  | name :: rest, site, stack =>
      if isStagingName name then copyEntries destRoot src dest destV rest site stack
      else
        match copyMember around namesUuid trouble destRoot (src ++ [name]) (dest ++ [name])
            (memberPath destV name) site stack with
        | ((site, none), stack) => copyEntries destRoot src dest destV rest site stack
        | failed => failed

/-- The loop of `copy_folder`, with a bound on its turns. -/
def copyFolders (destRoot : Place) : ℕ → Site → Pending → Option Outcome
  | _, site, [] => some (site, none)
  | 0, _, _ :: _ => none
  | turns + 1, site, (src, dest, destV) :: stack =>
      match site.stock.tree.readDir src with
      | none => copyFolders destRoot turns site stack
      | some names =>
          match copyEntries around namesUuid trouble destRoot src dest destV
              (names.insertionSort (· ≤ ·)) site stack with
          | ((site, none), stack) => copyFolders destRoot turns site stack
          | (failed, _) => some failed

/-- `trim_end_matches('/')`. -/
def trimmed (vpath : String) : String := String.ofList (trimSlashes vpath)

/-- What an existing destination has and the source does not is deleted first. -/
def pruneExisting (turns : ℕ) (site : Site) (src dest : Place) (existing : Option String)
    (infinity : Bool)
    : Option Outcome :=
  match existing, infinity with
  | some vpath, true =>
      pruneUnmatched around namesUuid trouble turns site [(src, dest, trimmed vpath)]
  | _, _ => some (site, none)

def copyFolder (turns : ℕ) (site : Site) (src dest : Place) (destV : String)
    (existing : Option String) (infinity : Bool)
    : Option Outcome :=
  match pruneExisting around namesUuid trouble turns site src dest existing infinity with
  | none => none
  | some (site, some code) => some (site, some code)
  | some (site, none) =>
      match makeFolder trouble site dest with
      | (site, some code) => some (site, some code)
      | (site, none) =>
          let site := { site with collected := site.collected.touch destV dest }
          if infinity then
            copyFolders around namesUuid trouble dest turns site [(src, dest, trimmed destV)]
          else some (site, none)

-- Moving

def moveFile (site : Site) (srcV : String) (src : Place) (destV : String) (dest : Place)
    : Outcome :=
  if trouble.busy site.tried src || trouble.busy site.tried dest then (site, some 423)
  else
    let rows := (primaryLeaving around namesUuid src site.stock).rows
    match createDirAll trouble site.tried site.stock.tree dest.dropLast with
    | (made, false) => (site.stepped 2 { tree := made, rows := rows }, some 500)
    | (made, true) =>
        match if trouble.fails (site.tried + 1) then none else made.renameFile src dest with
        | none => (site.stepped 2 { tree := made, rows := rows }, some 500)
        | some moved =>
            let old := libraryRel around src
            let new := libraryRel around dest
            let renamed :=
              match old, new with
              | some old, some new => renameVolumeUpload around old new rows
              | _, _ => rows
            let forgotten :=
              forgetOcrRecords around new false (forgetOcrRecords around old true renamed)
            let noted :=
              if isCbz src then site.collected.noteRemoved around src else site.collected
            ({
              site.stepped 2 { tree := moved, rows := forgotten } with
              collected := ((noted.noteArrived around dest).touch srcV src).touch destV dest
            }, none)

/-- The archives below a folder, by `cbz_under`. -/
def cbzUnder (tree : Tree) (folder : Place) : List Place :=
  tree.entries.keys.filter (fun place =>
    folder.isPrefixOf place && tree.isFile place && isCbz place)

/-- The `rename` of a folder, over an empty one. -/
def renameFolder (tree : Tree) (src dest : Place) : Option Tree := do
  let entries := tree.entries.entries.filter (fun entry => src.isPrefixOf entry.1)
  let free ←
    match tree.get? dest with
    | none => some tree
    | some _ => if tree.readDir dest = some [] then tree.removeDirAll dest else none
  let removed ← free.removeDirAll src
  entries.foldlM (fun made entry =>
    let target := dest ++ entry.1.drop src.length
    match entry.2 with
    | .folder => made.createDirAll target
    | .file bytes => (made.createDirAll target.dropLast).bind (·.writeFile target bytes))
    removed

/-- The rows of a folder that has moved. -/
def rowsMoved (old new : Option Place) (volumes : List Place) (rows : List FileRow)
    : List FileRow :=
  match old, new with
  | some old, some new =>
      let owned := (volumes.filterMap (libraryRel around)).foldl (fun rows volume =>
        renameVolumeUpload around volume (new ++ volume.drop old.length) rows) rows
      renameUnderPrefix old new owned
  | some old, none =>
      rows.filter (fun row =>
        match row with
        | .owner _ => true
        | .uuid file | .ocr file _ => ! isBelow old file)
  | none, _ => rows

def moveFolder (site : Site) (srcV : String) (src : Place) (destV : String) (dest : Place)
    : Outcome :=
  if trouble.busy site.tried src || trouble.busy site.tried dest then (site, some 423)
  else
    let volumes := cbzUnder site.stock.tree src
    match createDirAll trouble site.tried site.stock.tree dest.dropLast with
    | (made, false) => (site.stepped 2 { site.stock with tree := made }, some 500)
    | (made, true) =>
        match if trouble.fails (site.tried + 1) then none else renameFolder made src dest with
        | none => (site.stepped 2 { site.stock with tree := made }, some 500)
        | some moved =>
            let rows := rowsMoved around (libraryRel around src) (libraryRel around dest) volumes
              site.stock.rows
            let noted := (cbzUnder moved dest).foldl (fun noted cbz => noted.noteArrived around cbz)
              (site.collected.noteRemoved around src)
            ({
              site.stepped 2 { tree := moved, rows := rows } with
              collected := (noted.touch srcV src).touch destV dest
            }, none)

-- Requests

/-- A request that its checks have let through. -/
inductive Accepted where
  | delete (vpath : String) (phys : Place) (folder : Bool)
  /-- COPY and MOVE: a member of the destination's folder that is there already has its virtual
  path with it. -/
  | copyMove (isMove : Bool) (srcV : String) (src : Place) (folder : Bool) (destV : String)
      (dest : Place) (existing : Option String) (renamesSource infinity : Bool)

/-- What a request finds and leaves, beside the locks. -/
structure Server where
  stock : Stock
  cache : CacheState

/-- How a request ends. -/
structure Answer where
  server : Server
  /-- The status of its error. -/
  error : Option ℕ
  /-- What it has told the hooks: `archives_removed`, `archive_arrived` and `library_changed`. -/
  removed : List Place
  arrived : List Place
  changed : List Place
  steps : List (Stock × Stock)

/-- The deletion that makes room. -/
def clearDest (site : Site) (existing : Option String) (dest : Place) (folder : Bool)
    : Outcome :=
  match existing with
  | some vpath => deleteResource around namesUuid trouble site vpath dest folder
  | none => (site, none)

/-- What a request does before it tells the rest of the server. -/
def work (turns : ℕ) (site : Site) : Accepted → Option Outcome
  | .delete vpath phys folder =>
      some (deleteResource around namesUuid trouble site vpath phys folder)
  | .copyMove isMove srcV src folder destV dest existing renamesSource infinity =>
      if ! around.canBePlaced dest then some (site, some 403)
      else if ! renamesSource && (src = dest || (folder && src.isPrefixOf dest)) then
        some (site, some 403)
      else if ! folder then
        if isMove then some (moveFile around namesUuid trouble site srcV src destV dest)
        else
          match clearDest around namesUuid trouble site existing dest false with
          | (site, none) => some (copyFile around trouble site src destV dest)
          | failed => some failed
      else if isMove then
        match clearDest around namesUuid trouble site existing dest true with
        | (site, none) => some (moveFolder around trouble site srcV src destV dest)
        | failed => some failed
      else copyFolder around namesUuid trouble turns site src dest destV existing infinity

/-- `fire`: the affected listings are dropped and the hooks are told. -/
def fire (cache : CacheState) (site : Site) : Answer where
  server := {
    stock := site.stock
    cache :=
      if site.collected.listings = [] then cache
      else cache.invalidatePaths site.collected.listings
  }
  error := none
  removed := site.collected.removed
  arrived := site.collected.arrived
  changed := site.collected.changed.filter (fun phys => (libraryRel around phys).isSome)
  steps := site.steps

/-- A request, once its loops have ended. An error leaves it before `fire`. -/
def handle (turns : ℕ) (server : Server) (request : Accepted) : Option Answer :=
  let start : Site := {
    stock := server.stock
    collected := .empty
    tried := 0
    steps := []
  }
  (work around namesUuid trouble turns start request).map (fun outcome =>
    match outcome with
    | (site, none) => fire around server.cache site
    | (site, some code) => {
        server := { server with stock := site.stock }
        error := some code
        removed := []
        arrived := []
        changed := []
        steps := site.steps
      })

end MokuroBunko.Dav.Effects
