import Mathlib.Data.List.Dedup
import MokuroBunko.Dav.Sidecars
import MokuroBunko.Library.ManifestFiles

/-! Which volume a layer sidecar belongs to: the siblings of the DAV tree and of the library, the
index and the manifest, and when they agree.
-/

namespace MokuroBunko.Library

open MokuroBunko.Lib

/-- What the mappings do with the archive extensions. -/
structure PyUnicode.Keeps (py : PyUnicode) : Prop where
  lower : KeepsEndings py.lowers.piece ARCHIVE_CHARS
  fold : KeepsEndings py.foldPiece ".cbz".toList

variable {py : PyUnicode} {names : List FileName}

-- The library's stems

theorem mem_pyVolumeStems (keeps : py.Keeps) {stem : FileName}
    : stem ∈ pyVolumeStems py names ↔ HasArchive names VOLUME_ARCHIVE_EXTENSIONS stem := by
  unfold pyVolumeStems
  rw [List.mem_filterMap]
  constructor
  · intro ⟨name, member, found⟩
    obtain ⟨extension, chosen, cut⟩ := Option.map_eq_some_iff.mp found
    have known := List.mem_of_find?_eq_some chosen
    have holds := List.find?_some chosen
    have ends := List.isSuffixOf_iff_suffix.mp holds
    obtain ⟨stem', named⟩ := (endsWith_iff_named keeps.lower known name).mp ends
    rw [named.take_eq] at cut
    exact ⟨name, member, extension, known, cut ▸ named⟩
  · intro ⟨name, member, extension, known, named⟩
    refine ⟨name, member, Option.map_eq_some_iff.mpr ⟨extension, ?_, named.take_eq⟩⟩
    exact find_extension keeps.lower named known

theorem HasCbz.hasArchive {stem : FileName} (has : HasCbz names stem)
    : HasArchive names VOLUME_ARCHIVE_EXTENSIONS stem := by
  obtain ⟨name, member, named⟩ := has
  exact ⟨name, member, ".cbz".toList, cbz_known, named⟩

-- The index

theorem mem_sortedSet {name : FileName} : name ∈ sortedSet names ↔ name ∈ names := by
  unfold sortedSet
  rw [List.mem_dedup, List.mem_insertionSort]

theorem mem_volumeNames (keeps : py.Keeps) {stem : FileName}
    : stem ∈ volumeNames py names ↔ HasCbz names stem := by
  unfold volumeNames
  rw [mem_sortedSet, List.mem_map]
  simp only [List.mem_filter, List.isSuffixOf_iff_suffix]
  constructor
  · intro ⟨name, ⟨member, ends⟩, cut⟩
    obtain ⟨stem', named⟩ := (endsWith_iff_named keeps.lower cbz_known name).mp ends
    have cut' := named.take_eq
    have same : stem' = stem := cut'.symm.trans cut
    exact ⟨name, member, same ▸ named⟩
  · intro ⟨name, member, named⟩
    exact ⟨name, ⟨member, (endsWith_iff_named keeps.lower cbz_known name).mpr ⟨stem, named⟩⟩,
      named.take_eq⟩

theorem mem_layersOf (keeps : py.Keeps) {stem layer : FileName}
    : layer ∈ layersOf py names stem
      ↔ (∃ file ∈ names, splitLayerSidecar file = some (stem, layer))
        ∧ ¬ HasCbz names (stem ++ '.' :: layer) := by
  unfold layersOf
  rw [mem_sortedSet, List.mem_filterMap]
  constructor
  · intro ⟨file, member, kept⟩
    cases split : splitLayerSidecar file with
    | none =>
        rw [split] at kept
        cases kept
    | some parts =>
        obtain ⟨owner, id⟩ := parts
        rw [split] at kept
        dsimp only at kept
        split at kept
        · cases kept
        · rename_i absent
          split at kept
          · rename_i own
            obtain rfl := own
            obtain rfl := Option.some.inj kept
            refine ⟨⟨file, member, split⟩, ?_⟩
            intro has
            exact absent (List.contains_iff_mem.mpr ((mem_volumeNames keeps).mpr has))
          · cases kept
  · intro ⟨⟨file, member, split⟩, absent⟩
    refine ⟨file, member, ?_⟩
    rw [split]
    dsimp only
    rw [if_neg (fun there =>
      absent ((mem_volumeNames keeps).mp (List.contains_iff_mem.mp there))), if_pos rfl]

/-- The volumes the index lists of a folder. -/
def Listed (py : PyUnicode) (names : List FileName) (series : FileName)
    (volume : VolumeSnapshot) : Prop :=
  ∃ folder ∈ (scanDir py names series ⟨[], [], 0⟩).series, volume ∈ folder.volumes

theorem listed_iff {series : FileName} (shown : ¬ ['.'] <+: series) {volume : VolumeSnapshot}
    : Listed py names series volume
      ↔ ∃ stem ∈ volumeNames py names, volume = volumeSnapshot py names series stem := by
  have shown' : ¬ ['.'].isPrefixOf series = true :=
    fun hidden => shown (List.isPrefixOf_iff_prefix.mp hidden)
  unfold Listed scanDir
  rw [if_neg shown']
  dsimp only
  rw [List.nil_append]
  constructor
  · intro ⟨folder, there, member⟩
    split at there
    · cases there
    · rw [List.mem_singleton.mp there] at member
      obtain ⟨stem, known, rfl⟩ := List.mem_map.mp member
      exact ⟨stem, known, rfl⟩
  · intro ⟨stem, known, same⟩
    have member := List.mem_map_of_mem (f := volumeSnapshot py names series) known
    rw [if_neg (fun empty => by
      rw [List.isEmpty_iff.mp empty] at member
      cases member)]
    exact ⟨_, List.mem_cons_self, same ▸ member⟩

theorem volumeSnapshot_hasCbz {series stem : FileName}
    : (volumeSnapshot py names series stem).hasCbz = true ↔ HasCbz names stem := by
  have cbz_iff : ∀ name : FileName, isCbzName name = true ↔ ∃ stem, Named stem ".cbz".toList name := by
    intro name
    unfold isCbzName
    rw [List.isSuffixOf_iff_suffix]
    constructor
    · intro ⟨front, joined⟩
      obtain ⟨stem, tail, rfl, _, lowered⟩ := List.map_eq_append_iff.mp joined.symm
      exact ⟨stem, tail, rfl, lowered⟩
    · intro ⟨stem, tail, split, lowered⟩
      rw [split, List.map_append, lowered]
      exact List.suffix_append _ _
  unfold volumeSnapshot
  dsimp only
  rw [List.contains_iff_mem, List.mem_map]
  simp only [List.mem_filter, cbz_iff]
  constructor
  · intro ⟨name, ⟨member, stem', named⟩, cut⟩
    have cut' := named.take_eq
    have same : stem' = stem := cut'.symm.trans cut
    exact ⟨name, member, same ▸ named⟩
  · intro ⟨name, member, named⟩
    exact ⟨name, ⟨member, stem, named⟩, named.take_eq⟩

-- The four notions

/-- An archive whose deletion takes its siblings along. -/
def IsCbz (name : FileName) : Prop := (pySuffix name).map Text.asciiLowerChar = ".cbz".toList

instance (name : FileName) : Decidable (IsCbz name) := inferInstanceAs (Decidable (_ = _))

/-- The file is a sibling of an archive of the stem. -/
def SiblingOf (siblings : FileName → List FileName) (names : List FileName)
    (stem file : FileName) : Prop :=
  ∃ cbz ∈ names, IsCbz cbz ∧ pyStem cbz = stem ∧ file ∈ siblings cbz

def IndexLayer (py : PyUnicode) (names : List FileName) (series stem layer : FileName) : Prop :=
  ∃ volume, Listed py names series volume ∧ volume.name = stem ∧ layer ∈ volume.sidecars

def ManifestLayer (py : PyUnicode) (entries : FolderEntries) (series : FileName)
    (layerOrder : List FileName) (stem layer : FileName) : Prop :=
  ∃ manifest, buildVolumeManifest py entries series stem layerOrder = some manifest
    ∧ layer ∈ manifest.layers.map Prod.fst

/-- Every file is a sibling of the same volumes for the DAV tree and the library, every layer
sidecar is one of the same volume for the index and the manifest too, and what the index lists
with an archive has a manifest. -/
structure OneNotion (std : LowerTables) (py : PyUnicode) (names : List FileName)
    (stat : FileName → FileMeta) (series : FileName) (layerOrder : List FileName) : Prop where
  siblings : ∀ stem file, SiblingOf (Dav.siblings std (some names)) names stem file
    ↔ SiblingOf (sidecarSiblings py (some names)) names stem file
  index : ∀ file ∈ names, ∀ stem layer, splitLayerSidecar file = some (stem, layer)
    → (SiblingOf (sidecarSiblings py (some names)) names stem file
      ↔ IndexLayer py names series stem layer)
  manifest : ∀ file ∈ names, ∀ stem layer, splitLayerSidecar file = some (stem, layer)
    → (IndexLayer py names series stem layer
      ↔ ManifestLayer py (entriesOf names stat) series layerOrder stem layer)
  archives : ∀ volume, Listed py names series volume → volume.hasCbz = true
    → (buildVolumeManifest py (entriesOf names stat) series volume.name layerOrder).isSome

/-- Whether a layer sidecar is the volume's layer or another volume's sidecar is clear. If
`<stem>.<layer>` is an archive's stem, it is a `.cbz`'s and keeps its bytes in lower case. If it
is none, the volume's own archive has one spelling, and `<stem>.<layer>.mokuro` is in the folder
or no archive's stem. -/
structure ClearLayer (std : LowerTables) (names : List FileName) (stem layer : FileName)
    : Prop where
  archive : HasArchive names VOLUME_ARCHIVE_EXTENSIONS (stem ++ '.' :: layer)
    → HasCbz names (stem ++ '.' :: layer)
      ∧ utf8Length (std.toLowercase (stem ++ '.' :: layer)) = utf8Length (stem ++ '.' :: layer)
  spelling : ¬ HasArchive names VOLUME_ARCHIVE_EXTENSIONS (stem ++ '.' :: layer)
    → ∀ name ∈ names, Named stem ".cbz".toList name → name = stem ++ ".cbz".toList
  zipped : ¬ HasArchive names VOLUME_ARCHIVE_EXTENSIONS (stem ++ '.' :: layer)
    → stem ++ '.' :: layer ++ ".mokuro".toList ∈ names
      ∨ ¬ HasCbz names (stem ++ '.' :: layer ++ ".mokuro".toList)

/-- Every `.cbz` has its extension in lower case, beside others or alone, and every layer sidecar
of a volume is clear. -/
structure ClearNames (std : LowerTables) (names : List FileName) : Prop where
  lower : ∀ stem, HasCbz names stem → stem ++ ".cbz".toList ∈ names
  layers : ∀ file ∈ names, ∀ stem layer, splitLayerSidecar file = some (stem, layer)
    → HasCbz names stem → ClearLayer std names stem layer

-- When the notions agree

theorem exists_isCbz_iff {stem : FileName}
    : (∃ cbz ∈ names, IsCbz cbz ∧ pyStem cbz = stem) ↔ stem ≠ [] ∧ HasCbz names stem := by
  constructor
  · intro ⟨cbz, member, extended, cut⟩
    have archive : IsArchive cbz := by
      unfold IsArchive
      rw [extended]
      exact cbz_known
    refine ⟨cut ▸ archive.named.1, cbz, member, pySuffix cbz, ?_, extended⟩
    rw [← cut, pyStem_append_pySuffix]
  · intro ⟨filled, name, member, named⟩
    refine ⟨name, member, ?_, named.pyStem_eq filled cbz_known⟩
    obtain ⟨tail, rfl, lowered⟩ := named
    unfold IsCbz
    rw [Named.pySuffix_eq filled lowered cbz_known, lowered]

theorem siblingOf_layer_iff {volumeStems : List FileName → List FileName}
    {file stem layer : FileName} (member : file ∈ names)
    (split : splitLayerSidecar file = some (stem, layer))
    : SiblingOf (siblingsBy volumeStems (some names)) names stem file
      ↔ HasCbz names stem
        ∧ stem ++ '.' :: layer ∉ volumeStems (names.insertionSort (· ≤ ·)) := by
  obtain ⟨filled, valid, spelled⟩ := splitLayerSidecar_eq_some_iff.mp split
  constructor
  · intro ⟨cbz, there, extended, cut, sibling⟩
    refine ⟨(exists_isCbz_iff.mp ⟨cbz, there, extended, cut⟩).2, ?_⟩
    obtain ⟨ending, known, same⟩ | ⟨_, layer', split', absent⟩ := mem_siblingsBy.mp sibling
    · rw [cut] at same
      obtain spelled | spelled := spelled
      · have stems := side_suffix_inj List.mem_cons_self known (spelled.symm.trans same)
        exact absurd (congrArg List.length stems.1) (by simp)
      · have stems := side_suffix_inj (List.mem_cons_of_mem _ List.mem_cons_self) known
          (spelled.symm.trans same)
        exact absurd (congrArg List.length stems.1) (by simp)
    · rw [split, cut] at split'
      rw [cut] at absent
      rw [(Prod.mk.inj (Option.some.inj split')).2]
      exact absent
  · intro ⟨has, absent⟩
    obtain ⟨cbz, there, extended, cut⟩ := exists_isCbz_iff.mpr ⟨filled, has⟩
    refine ⟨cbz, there, extended, cut, mem_siblingsBy.mpr (Or.inr ⟨member, layer, ?_, ?_⟩)⟩
    · rw [cut]
      exact split
    · rw [cut]
      exact absent

theorem indexLayer_iff (keeps : py.Keeps) {series stem layer : FileName}
    (shown : ¬ ['.'] <+: series)
    : IndexLayer py names series stem layer
      ↔ HasCbz names stem ∧ (∃ file ∈ names, splitLayerSidecar file = some (stem, layer))
        ∧ ¬ HasCbz names (stem ++ '.' :: layer) := by
  rw [← mem_layersOf keeps, ← mem_volumeNames keeps]
  constructor
  · intro ⟨volume, listed, named, member⟩
    obtain ⟨stem', known, rfl⟩ := (listed_iff shown).mp listed
    obtain rfl : stem' = stem := named
    exact ⟨known, member⟩
  · intro ⟨known, member⟩
    exact ⟨_, (listed_iff shown).mpr ⟨stem, known, rfl⟩, rfl, member⟩

theorem sibling_iff (keeps : py.Keeps) {file stem layer : FileName} (member : file ∈ names)
    (split : splitLayerSidecar file = some (stem, layer))
    : SiblingOf (sidecarSiblings py (some names)) names stem file
      ↔ HasCbz names stem
        ∧ ¬ HasArchive names VOLUME_ARCHIVE_EXTENSIONS (stem ++ '.' :: layer) := by
  have layers := @siblingOf_layer_iff names (pyVolumeStems py) file stem layer member split
  rw [mem_pyVolumeStems keeps, hasArchive_sorted] at layers
  exact layers

theorem dav_sibling_iff {std : LowerTables} (keeps : KeepsEndings std.piece ARCHIVE_CHARS)
    {file stem layer : FileName} (member : file ∈ names)
    (split : splitLayerSidecar file = some (stem, layer))
    : SiblingOf (Dav.siblings std (some names)) names stem file
      ↔ HasCbz names stem
        ∧ ¬ (HasArchive names VOLUME_ARCHIVE_EXTENSIONS (stem ++ '.' :: layer)
          ∧ utf8Length (std.toLowercase (stem ++ '.' :: layer))
            = utf8Length (stem ++ '.' :: layer)) := by
  have layers := @siblingOf_layer_iff names (Dav.volumeStems std) file stem layer member split
  rw [Dav.mem_volumeStems keeps, Dav.VOLUME_EXTENSIONS, hasArchive_sorted] at layers
  exact layers

theorem manifestLayer_iff (keeps : py.Keeps) {stat : FileName → FileMeta}
    {series stem layer : FileName} {layerOrder : List FileName}
    : ManifestLayer py (entriesOf names stat) series layerOrder stem layer
      ↔ stem ++ ".cbz".toList ∈ names
        ∧ (∃ file ∈ names, splitLayerSidecar file = some (stem, layer)
          ∧ (file = stem ++ '.' :: layer ++ ".mokuro".toList
            ∨ ¬ HasCbz names (stem ++ '.' :: layer ++ ".mokuro".toList)))
        ∧ (∀ name ∈ names, Named stem ".cbz".toList name → name = stem ++ ".cbz".toList)
        ∧ ¬ HasCbz names (stem ++ '.' :: layer) := by
  unfold ManifestLayer
  rw [mem_manifest_layers]
  apply and_congr_right
  intro _
  have file_iff : ∀ file, splitLayerSidecar file = some (stem, layer)
      → (¬ OfLonger (longerStems py stem (stem ++ ".cbz".toList) names) file
        ↔ (file = stem ++ '.' :: layer ++ ".mokuro".toList
            ∨ ¬ HasCbz names (stem ++ '.' :: layer ++ ".mokuro".toList))
          ∧ (∀ name ∈ names, Named stem ".cbz".toList name → name = stem ++ ".cbz".toList)
          ∧ ¬ HasCbz names (stem ++ '.' :: layer)) := by
    intro file split
    obtain ⟨_, valid, spelled⟩ := splitLayerSidecar_eq_some_iff.mp split
    have one_spelling : (¬ ∃ name ∈ names, Named stem ".cbz".toList name
        ∧ name ≠ stem ++ ".cbz".toList)
        ↔ ∀ name ∈ names, Named stem ".cbz".toList name → name = stem ++ ".cbz".toList := by
      simp only [not_exists, not_and, not_not]
    obtain rfl | rfl := spelled
    · rw [ofLonger_layer_iff keeps.fold valid (Or.inl rfl), not_or, not_or, one_spelling]
      simp
    · have other : stem ++ '.' :: layer ++ ".mokuro.gz".toList
          ≠ stem ++ '.' :: layer ++ ".mokuro".toList :=
        fun same => absurd (List.append_cancel_left same) (by decide)
      rw [ofLonger_layer_iff keeps.fold valid (Or.inr rfl), not_or, not_or, one_spelling]
      simp only [true_and, other, false_or]
      tauto
  constructor
  · intro ⟨file, member, split, kept⟩
    obtain ⟨ending, spelling, absent⟩ := (file_iff file split).mp kept
    exact ⟨⟨file, member, split, ending⟩, spelling, absent⟩
  · intro ⟨⟨file, member, split, ending⟩, spelling, absent⟩
    exact ⟨file, member, split, (file_iff file split).mpr ⟨ending, spelling, absent⟩⟩

theorem ClearNames.oneNotion {std : LowerTables} (clear : ClearNames std names)
    (keepsStd : KeepsEndings std.piece ARCHIVE_CHARS) (keeps : py.Keeps)
    {stat : FileName → FileMeta} {series : FileName} {layerOrder : List FileName}
    (shown : ¬ ['.'] <+: series)
    : OneNotion std py names stat series layerOrder := by
  have layer_sibling : ∀ file ∈ names, ∀ stem layer,
      splitLayerSidecar file = some (stem, layer)
      → (SiblingOf (Dav.siblings std (some names)) names stem file
        ↔ SiblingOf (sidecarSiblings py (some names)) names stem file) := by
    intro file member stem layer split
    rw [dav_sibling_iff keepsStd member split, sibling_iff keeps member split]
    apply and_congr_right
    intro has
    apply not_congr
    exact ⟨And.left, fun archive =>
      ⟨archive, ((clear.layers file member stem layer split has).archive archive).2⟩⟩
  refine ⟨?_, ?_, ?_, ?_⟩
  · intro stem file
    constructor
    · intro ⟨cbz, there, extended, cut, sibling⟩
      obtain side | ⟨member, layer, split, _⟩ := mem_siblingsBy.mp sibling
      · exact ⟨cbz, there, extended, cut, mem_siblingsBy.mpr (Or.inl side)⟩
      · rw [cut] at split
        exact (layer_sibling file member stem layer split).mp ⟨cbz, there, extended, cut, sibling⟩
    · intro ⟨cbz, there, extended, cut, sibling⟩
      obtain side | ⟨member, layer, split, _⟩ := mem_siblingsBy.mp sibling
      · exact ⟨cbz, there, extended, cut, mem_siblingsBy.mpr (Or.inl side)⟩
      · rw [cut] at split
        exact (layer_sibling file member stem layer split).mpr
          ⟨cbz, there, extended, cut, sibling⟩
  · intro file member stem layer split
    rw [sibling_iff keeps member split, indexLayer_iff keeps shown]
    apply and_congr_right
    intro has
    have layer_clear := clear.layers file member stem layer split has
    constructor
    · intro absent
      exact ⟨⟨file, member, split⟩, fun cbz => absent cbz.hasArchive⟩
    · intro ⟨_, absent⟩ archive
      exact absent (layer_clear.archive archive).1
  · intro file member stem layer split
    rw [indexLayer_iff keeps shown, manifestLayer_iff keeps]
    constructor
    · intro ⟨has, _, absent⟩
      have layer_clear := clear.layers file member stem layer split has
      have no_archive : ¬ HasArchive names VOLUME_ARCHIVE_EXTENSIONS (stem ++ '.' :: layer) :=
        fun archive => absent (layer_clear.archive archive).1
      refine ⟨clear.lower stem has, ?_, layer_clear.spelling no_archive, absent⟩
      obtain plain | alone := layer_clear.zipped no_archive
      · obtain ⟨filled, valid, _⟩ := splitLayerSidecar_eq_some_iff.mp split
        exact ⟨_, plain, splitLayerSidecar_eq_some_iff.mpr ⟨filled, valid, Or.inl rfl⟩,
          Or.inl rfl⟩
      · exact ⟨file, member, split, Or.inr alone⟩
    · intro ⟨there, ⟨_, _, _, _⟩, _, absent⟩
      exact ⟨⟨_, there, ".cbz".toList, rfl, rfl⟩, ⟨file, member, split⟩, absent⟩
  · intro volume listed has
    obtain ⟨stem, known, rfl⟩ := (listed_iff shown).mp listed
    exact buildVolumeManifest_isSome.mpr (clear.lower stem ((mem_volumeNames keeps).mp known))

theorem OneNotion.clearNames {std : LowerTables} {stat : FileName → FileMeta}
    {series : FileName} {layerOrder : List FileName}
    (notion : OneNotion std py names stat series layerOrder)
    (keepsStd : KeepsEndings std.piece ARCHIVE_CHARS) (keeps : py.Keeps)
    (shown : ¬ ['.'] <+: series)
    : ClearNames std names := by
  refine ⟨?_, ?_⟩
  · intro stem has
    have listed := (listed_iff shown).mpr ⟨stem, (mem_volumeNames keeps).mpr has, rfl⟩
    exact buildVolumeManifest_isSome.mp
      (notion.archives _ listed (volumeSnapshot_hasCbz.mpr has))
  · intro file member stem layer split has
    have siblings := notion.siblings stem file
    have index := notion.index file member stem layer split
    have manifest := notion.manifest file member stem layer split
    rw [dav_sibling_iff keepsStd member split, sibling_iff keeps member split] at siblings
    rw [sibling_iff keeps member split, indexLayer_iff keeps shown] at index
    rw [indexLayer_iff keeps shown, manifestLayer_iff keeps] at manifest
    have of_none : ¬ HasArchive names VOLUME_ARCHIVE_EXTENSIONS (stem ++ '.' :: layer)
        → _ := fun absent => manifest.mp (index.mp ⟨has, absent⟩)
    refine ⟨?_, ?_, ?_⟩
    · intro archive
      constructor
      · by_contra absent
        exact (index.mpr ⟨has, ⟨file, member, split⟩, absent⟩).2 archive
      · by_contra bytes
        exact (siblings.mp ⟨has, fun both => bytes both.2⟩).2 archive
    · intro absent
      exact (of_none absent).2.2.1
    · intro absent
      obtain ⟨other, there, split', plain | alone⟩ := (of_none absent).2.1
      · exact Or.inl (plain ▸ there)
      · exact Or.inr alone

/-- The four notions are one, and every listed archive has a manifest, exactly if the names are
clear. -/
theorem one_notion_iff {std : LowerTables} (keepsStd : KeepsEndings std.piece ARCHIVE_CHARS)
    (keeps : py.Keeps) (names : List FileName) (stat : FileName → FileMeta) {series : FileName}
    (layerOrder : List FileName) (shown : ¬ ['.'] <+: series)
    : OneNotion std py names stat series layerOrder ↔ ClearNames std names :=
  ⟨fun notion => notion.clearNames keepsStd keeps shown,
    fun clear => clear.oneNotion keepsStd keeps shown⟩

/-- The tables of `pyunicode` for the characters below. -/
def pyLetters : PyUnicode where
  lowers := letterTables
  casefold := fun char =>
    if char = 'İ' then ['i', Char.ofNat 0x307] else [Text.asciiLowerChar char]

theorem pyLetters_keep : pyLetters.Keeps where
  lower := letterTables_keep (forall_char (by decide))
  fold := by
    constructor
    · intro before char after narrow
      refine if_neg ?_
      intro same
      rw [same] at narrow
      exact absurd narrow (by decide)
    · intro before char after wide
      by_cases dotted : char = 'İ'
      · rw [dotted]
        exact ⟨['i'], Char.ofNat 0x307, rfl, by decide⟩
      · refine ⟨[], Text.asciiLowerChar char, if_neg dotted, ?_⟩
        have narrow : ∀ other ∈ ".cbz".toList, other.toNat < 128 := forall_char (by decide)
        intro member
        have small := asciiLowerChar_lt.mp (narrow _ member)
        omega

theorem one_notion_iff_volume
    : OneNotion letterTables pyLetters ["V.cbz".toList, "V.n.mokuro".toList]
        (fun _ => ⟨0, ""⟩) "S".toList []
      ↔ ClearNames letterTables ["V.cbz".toList, "V.n.mokuro".toList] :=
  one_notion_iff (letterTables_keep (forall_char (by decide))) pyLetters_keep _ _ _ (by decide)

/-- `Vol 1.CBZ` is listed with an archive and has no manifest. -/
theorem upper_case_archive_without_manifest
    : ¬ OneNotion letterTables pyLetters ["Vol 1.CBZ".toList] (fun _ => ⟨0, ""⟩) "S".toList
      [] := by
  intro notion
  have listed : Listed pyLetters ["Vol 1.CBZ".toList] "S".toList
      (volumeSnapshot pyLetters ["Vol 1.CBZ".toList] "S".toList "Vol 1".toList) :=
    (listed_iff (by decide)).mpr ⟨"Vol 1".toList, by decide, rfl⟩
  have found := notion.archives _ listed (by decide)
  exact absurd found (by decide)

end MokuroBunko.Library
