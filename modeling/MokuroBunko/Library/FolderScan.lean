import MokuroBunko.Library.SidecarNames

/-! What the library reads out of the file names of one series folder: the siblings of an archive
(`sidecar.rs`), the volumes of the index (`index.rs`) and a volume's manifest (`manifest.rs`).
-/

namespace MokuroBunko.Library

open MokuroBunko.Lib

/-- The tables of `pyunicode`. -/
structure PyUnicode where
  lowers : LowerTables
  casefold : Char → List Char

namespace PyUnicode

variable (py : PyUnicode)

def lower (text : FileName) : FileName := py.lowers.toLowercase text

def foldPiece (_ : List Char) (char : Char) (_ : List Char) : List Char := py.casefold char

/-- `casefold`. -/
def folded (text : FileName) : FileName := spell py.foldPiece [] text []

end PyUnicode

-- Siblings

variable (py : PyUnicode)

/-- Cut by characters, as Python slices. -/
def pyVolumeStem (name : FileName) : Option FileName :=
  (VOLUME_ARCHIVE_EXTENSIONS.find? (·.isSuffixOf (py.lower name))).map
    (fun extension => name.take (name.length - extension.length))

def pyVolumeStems (names : List FileName) : List FileName := names.filterMap (pyVolumeStem py)

def sidecarSiblings (listing : Option (List FileName)) (cbz : FileName) : List FileName :=
  siblingsBy (pyVolumeStems py) listing cbz

-- The index

structure VolumeSnapshot where
  name : FileName
  hasCbz : Bool
  hasMokuro : Bool
  hasMokuroGz : Bool
  cover : Option FileName
  sidecars : List FileName

structure SeriesSnapshot where
  name : FileName
  cover : Option FileName
  volumes : List VolumeSnapshot

structure LibrarySnapshot where
  series : List SeriesSnapshot
  pendingOcr : List (FileName × FileName)
  pendingThumbnails : ℕ

/-- A `BTreeSet`: sorted, each once. -/
def sortedSet (names : List FileName) : List FileName := (names.insertionSort (· ≤ ·)).dedup

def volumeNames (filenames : List FileName) : List FileName :=
  sortedSet ((filenames.filter (fun name => ".cbz".toList.isSuffixOf (py.lower name))).map
    (fun name => name.take (name.length - 4)))

/-- The layers beside the archives of a stem, but for the primary sidecars of other volumes. -/
def layersOf (filenames : List FileName) (stem : FileName) : List FileName :=
  sortedSet (filenames.filterMap (fun name =>
    match splitLayerSidecar name with
    | some (owner, layer) =>
        if (volumeNames py filenames).contains (owner ++ '.' :: layer) then none
        else if owner = stem then some layer
        else none
    | none => none))

def volumeSnapshot (filenames : List FileName) (series volume : FileName) : VolumeSnapshot :=
  let archiveStems := (filenames.filter isCbzName).map (fun name => name.take (name.length - 4))
  let has := fun ending => filenames.contains (volume ++ ending)
  {
    name := volume
    hasCbz := archiveStems.contains volume
    hasMokuro := has ".mokuro".toList
    hasMokuroGz := has ".mokuro.gz".toList
    cover := if has ".webp".toList then some (series ++ '/' :: volume ++ ".webp".toList) else none
    sidecars := layersOf py filenames volume
  }

/-- What `scan_dir` makes of a folder's files. A hidden folder, and the root, is no series. -/
def scanDir (filenames : List FileName) (series : FileName) (snapshot : LibrarySnapshot)
    : LibrarySnapshot :=
  if ['.'].isPrefixOf series then snapshot
  else
    let volumes := (volumeNames py filenames).map (volumeSnapshot py filenames series)
    let pending := volumes.filter (fun volume =>
      volume.hasCbz && ! volume.hasMokuro && ! volume.hasMokuroGz)
    let coverless := volumes.filter (fun volume =>
      volume.hasCbz && volume.cover.isNone
        && ! filenames.contains (volume.name ++ ".nocover".toList))
    {
      series :=
        if volumes.isEmpty then snapshot.series
        else snapshot.series ++ [⟨series, volumes.findSome? VolumeSnapshot.cover, volumes⟩]
      pendingOcr := snapshot.pendingOcr ++ pending.map (fun volume => (series, volume.name))
      pendingThumbnails := snapshot.pendingThumbnails + coverless.length
    }

-- The manifest

/-- What `stat` says of a regular file, its time as the stamp it is written with. -/
structure FileMeta where
  size : ℤ
  modified : String

structure FileEntry where
  url : FileName
  size : ℤ
  modified : String

structure Manifest where
  series : FileName
  volume : FileName
  archive : FileEntry
  ocr : Option FileEntry
  layers : List (FileName × FileEntry)
  cover : Option FileEntry
  seriesFile : Option FileEntry

def hexDigit (value : ℕ) : Char := Char.ofNat (if value < 10 then 48 + value else 55 + value)

/-- `encodeURIComponent`. -/
def encodeComponent (text : FileName) : FileName :=
  (text.flatMap String.utf8EncodeChar).flatMap (fun byte =>
    let char := Char.ofNat byte.toNat
    if char.isAlphanum || "_.-~!*'()".toList.contains char then [char]
    else ['%', hexDigit (byte.toNat / 16), hexDigit (byte.toNat % 16)])

def readerFileUrl (series name : FileName) : FileName :=
  "/mokuro-reader/".toList ++ encodeComponent series ++ '/' :: encodeComponent name

def fileEntry (series name : FileName) (stat : FileMeta) : FileEntry :=
  ⟨readerFileUrl series name, stat.size, stat.modified⟩

/-- A folder's entries; what is not a regular file has no `FileMeta`. -/
abbrev FolderEntries := List (FileName × Option FileMeta)

def fileMeta (entries : FolderEntries) (name : FileName) : Option FileMeta :=
  (entries.lookup name).bind id

/-- The files of the volume found so far. -/
structure Found where
  plainOcr : Option FileName
  gzOcr : Option FileName
  cover : Option FileName
  layers : List (FileName × FileName)

/-- `layers.insert`. -/
def Found.insertLayer (found : Found) (layer name : FileName) : Found :=
  { found with layers := (layer, name) :: found.layers.filter (·.1 ≠ layer) }

/-- One file: a name after `opening` is the primary sidecar, the cover or a layer, unless it
belongs to a longer stem. -/
def sortFile (volume archiveName : FileName) (longer : List FileName) (found : Found)
    (name : FileName) : Found :=
  let opening := volume ++ ['.']
  if ! opening.isPrefixOf name || name = archiveName then found
  else if longer.any (fun stem => (stem ++ ['.']).isPrefixOf name) then found
  else
    let rest := name.drop opening.length
    if rest = "mokuro".toList then { found with plainOcr := some name }
    else if rest = "mokuro.gz".toList then { found with gzOcr := some name }
    else if rest = "webp".toList then { found with cover := some name }
    else
      match splitLayerSidecar name with
      | none => found
      | some (owner, layer) =>
          if owner ≠ volume then found
          else if (found.layers.lookup layer).isNone || ".mokuro".toList.isSuffixOf name then
            found.insertLayer layer name
          else found

/-- The stems of the archives that `volume.` begins, as far as they are cut at a character. -/
def longerStems (volume archiveName : FileName) (names : List FileName) : List FileName :=
  (names.filter (fun name => ".cbz".toList.isSuffixOf (py.folded name)
      && (volume ++ ['.']).isPrefixOf name && name ≠ archiveName)).filterMap
    (fun name => takeBytes (utf8Length name - 4) name)

/-- The configured order first, the rest by name. -/
def orderLayers (layerOrder ids : List FileName) : List FileName :=
  let ordered := layerOrder.foldl (fun ordered id =>
    if ids.contains id && ! ordered.contains id then ordered ++ [id] else ordered) []
  ordered ++ (ids.filter (! ordered.contains ·)).insertionSort (· ≤ ·)

def SERIES_FILE_NAME : FileName := "series.json".toList

def buildVolumeManifest (entries : FolderEntries) (series volume : FileName)
    (layerOrder : List FileName) : Option Manifest := do
  let archiveName := volume ++ ".cbz".toList
  let archiveMeta ← fileMeta entries archiveName
  let names := entries.map Prod.fst
  let longer := longerStems py volume archiveName names
  let found := names.foldl (sortFile volume archiveName longer) ⟨none, none, none, []⟩
  let withMeta := fun name : Option FileName => do
    let name ← name
    let stat ← fileMeta entries name
    some (fileEntry series name stat)
  let layerFiles := found.layers.filterMap (fun layer =>
    (fileMeta entries layer.2).map (fun stat => (layer.1, fileEntry series layer.2 stat)))
  let ordered := orderLayers layerOrder (layerFiles.map Prod.fst)
  some {
    series := series
    volume := volume
    archive := fileEntry series archiveName archiveMeta
    ocr := (withMeta found.plainOcr).orElse (fun _ => withMeta found.gzOcr)
    layers := ordered.filterMap (fun id => (layerFiles.lookup id).map (fun entry => (id, entry)))
    cover := withMeta found.cover
    seriesFile := withMeta (some SERIES_FILE_NAME)
  }

end MokuroBunko.Library
