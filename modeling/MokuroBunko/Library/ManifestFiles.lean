import MokuroBunko.Library.FolderScan

/-! The layers of a volume's manifest: those of the files that are not of a longer stem.
-/

namespace MokuroBunko.Library

open MokuroBunko.Lib

/-- There is an archive `<stem>.cbz`, its extension in any case. -/
def HasCbz (names : List FileName) (stem : FileName) : Prop :=
  ∃ name ∈ names, Named stem ".cbz".toList name

theorem cbz_known : ".cbz".toList ∈ VOLUME_ARCHIVE_EXTENSIONS := List.mem_cons_self

-- Longer stems

theorem mem_longerStems {py : PyUnicode} (keeps : KeepsEndings py.foldPiece ".cbz".toList)
    {volume archiveName stem : FileName} {names : List FileName}
    : stem ∈ longerStems py volume archiveName names
      ↔ ∃ name ∈ names, Named stem ".cbz".toList name ∧ (volume ++ ['.']) <+: name
        ∧ name ≠ archiveName := by
  have ascii : ∀ char ∈ ".cbz".toList, char.toNat < 128 := (archive_extension cbz_known).2.2
  unfold longerStems
  rw [List.mem_filterMap]
  simp only [List.mem_filter, Bool.and_eq_true, List.isSuffixOf_iff_suffix,
    List.isPrefixOf_iff_prefix, decide_eq_true_eq]
  constructor
  · intro ⟨name, ⟨member, ⟨ends, begins⟩, other⟩, sliced⟩
    obtain ⟨stem', tail, split, lowered⟩ :=
      (keeps.endsWith_iff (fun char member => member) ascii [] name []).mp ends
    have named : Named stem' ".cbz".toList name := ⟨tail, split, lowered⟩
    have slice := named.takeBytes_eq cbz_known
    obtain rfl : stem' = stem := Option.some.inj (slice.symm.trans sliced)
    exact ⟨name, member, named, begins, other⟩
  · intro ⟨name, member, named, begins, other⟩
    have ends := (keeps.endsWith_iff (fun char member => member) ascii [] name []).mpr
      ⟨stem, named⟩
    exact ⟨name, ⟨member, ⟨ends, begins⟩, other⟩, named.takeBytes_eq cbz_known⟩

theorem append_dot_cases {a b r s : FileName} (same : a ++ '.' :: r = b ++ '.' :: s)
    : (a = b ∧ r = s) ∨ (∃ m, b = a ++ '.' :: m ∧ r = m ++ '.' :: s)
      ∨ ∃ m, a = b ++ '.' :: m ∧ s = m ++ '.' :: r := by
  obtain ⟨more, rfl, rest⟩ | ⟨more, rfl, rest⟩ := List.append_eq_append_iff.mp same
  · cases more with
    | nil =>
        rw [List.append_nil]
        exact Or.inl ⟨rfl, List.tail_eq_of_cons_eq rest⟩
    | cons dot more =>
        obtain ⟨rfl, tails⟩ := List.cons.inj rest
        exact Or.inr (Or.inl ⟨more, rfl, tails⟩)
  · cases more with
    | nil =>
        rw [List.append_nil]
        exact Or.inl ⟨rfl, (List.tail_eq_of_cons_eq rest).symm⟩
    | cons dot more =>
        obtain ⟨rfl, tails⟩ := List.cons.inj rest
        exact Or.inr (Or.inr ⟨more, rfl, tails⟩)

/-- The file is of a longer stem. -/
def OfLonger (longer : List FileName) (file : FileName) : Prop :=
  ∃ stem ∈ longer, (stem ++ ['.']) <+: file

theorem layer_ending_cases {layer ending more rest : FileName} (plain : '.' ∉ layer)
    (known : ending = ".mokuro".toList ∨ ending = ".mokuro.gz".toList)
    (same : layer ++ ending = more ++ '.' :: rest)
    : more = layer ∨ (ending = ".mokuro.gz".toList ∧ more = layer ++ ".mokuro".toList) := by
  have dot_mem : ∀ front back : FileName, '.' ∈ front ++ '.' :: back :=
    fun front back => List.mem_append_right _ List.mem_cons_self
  obtain rfl | rfl := known
  · have split : layer ++ '.' :: "mokuro".toList = more ++ '.' :: rest := same
    obtain ⟨rfl, _⟩ | ⟨m, _, letters⟩ | ⟨m, rfl, _⟩ := append_dot_cases split
    · exact Or.inl rfl
    · exact absurd (letters ▸ dot_mem m rest) (by decide)
    · exact absurd (dot_mem more m) plain
  · have split : layer ++ '.' :: "mokuro.gz".toList = more ++ '.' :: rest := same
    obtain ⟨rfl, _⟩ | ⟨m, rfl, letters⟩ | ⟨m, rfl, _⟩ := append_dot_cases split
    · exact Or.inl rfl
    · have zipped : "mokuro".toList ++ '.' :: "gz".toList = m ++ '.' :: rest := letters
      obtain ⟨rfl, _⟩ | ⟨k, _, back⟩ | ⟨k, front, _⟩ := append_dot_cases zipped
      · exact Or.inr ⟨rfl, rfl⟩
      · exact absurd (back ▸ dot_mem k rest) (by decide)
      · exact absurd (front ▸ dot_mem m k) (by decide)
    · exact absurd (dot_mem more m) plain

/-- A layer sidecar is of a longer stem if the volume has an archive of another spelling, if the
layer is a volume, or if it is zipped and `<volume>.<layer>.mokuro` is one. -/
theorem ofLonger_layer_iff {py : PyUnicode} (keeps : KeepsEndings py.foldPiece ".cbz".toList)
    {volume layer ending : FileName} {names : List FileName} (valid : isLayerId layer = true)
    (known : ending = ".mokuro".toList ∨ ending = ".mokuro.gz".toList)
    : OfLonger (longerStems py volume (volume ++ ".cbz".toList) names)
        (volume ++ '.' :: layer ++ ending)
      ↔ (∃ name ∈ names, Named volume ".cbz".toList name ∧ name ≠ volume ++ ".cbz".toList)
        ∨ HasCbz names (volume ++ '.' :: layer)
        ∨ (ending = ".mokuro.gz".toList
          ∧ HasCbz names (volume ++ '.' :: layer ++ ".mokuro".toList)) := by
  have filled : layer ≠ [] := by
    intro empty
    rw [empty] at valid
    exact absurd valid (by decide)
  constructor
  · intro ⟨stem, listed, rest, begins⟩
    obtain ⟨name, member, named, opening, other⟩ := (mem_longerStems keeps).mp listed
    have split : stem ++ '.' :: rest = volume ++ '.' :: (layer ++ ending) := by
      rw [List.append_assoc, List.append_assoc] at begins
      exact begins
    obtain ⟨rfl, _⟩ | ⟨m, rfl, _⟩ | ⟨m, rfl, after⟩ := append_dot_cases split
    · exact Or.inl ⟨name, member, named, other⟩
    -- the name has one dot after the stem, the volume another
    · obtain ⟨tail, rfl, lowered⟩ := named
      obtain ⟨back, rfl, single, _⟩ := Named.tail_dot lowered cbz_known
      obtain ⟨more, joined⟩ := opening
      rw [List.append_assoc, List.append_assoc] at joined
      obtain rfl := List.tail_eq_of_cons_eq (List.append_cancel_left joined)
      exact absurd (List.mem_append_right _ List.mem_cons_self) single
    · have named' : HasCbz names (volume ++ '.' :: m) := ⟨name, member, named⟩
      obtain rfl | ⟨zipped, rfl⟩ := layer_ending_cases (isLayerId_plain valid) known after
      · exact Or.inr (Or.inl named')
      · refine Or.inr (Or.inr ⟨zipped, ?_⟩)
        rw [List.append_assoc]
        exact named'
  · have longer : ∀ more : FileName, more ≠ [] → HasCbz names (volume ++ '.' :: more)
        → volume ++ '.' :: more ∈ longerStems py volume (volume ++ ".cbz".toList) names := by
      intro more filled ⟨name, member, named⟩
      refine (mem_longerStems keeps).mpr ⟨name, member, named, ?_, ?_⟩
      · obtain ⟨tail, rfl, _⟩ := named
        refine ⟨more ++ tail, ?_⟩
        rw [List.append_assoc, List.append_assoc]
        rfl
      · obtain ⟨tail, rfl, lowered⟩ := named
        intro same
        have sizes := congrArg List.length same
        have size := congrArg List.length lowered
        have four : ".cbz".toList.length = 4 := rfl
        have positive := List.length_pos_of_ne_nil filled
        rw [List.length_map] at size
        rw [List.length_append, List.length_append, List.length_append, List.length_cons] at sizes
        omega
    intro cases
    obtain ⟨name, member, named, other⟩ | volume' | ⟨rfl, volume'⟩ := cases
    · refine ⟨volume, (mem_longerStems keeps).mpr ⟨name, member, named, ?_, other⟩,
        layer ++ ending, ?_⟩
      · obtain ⟨tail, rfl, lowered⟩ := named
        obtain ⟨back, rfl, _, _⟩ := Named.tail_dot lowered cbz_known
        refine ⟨back, ?_⟩
        rw [List.append_assoc]
        rfl
      · rw [List.append_assoc, List.append_assoc]
        rfl
    · refine ⟨_, longer layer filled volume', ?_⟩
      obtain rfl | rfl := known
      · refine ⟨"mokuro".toList, ?_⟩
        rw [List.append_assoc]
        rfl
      · refine ⟨"mokuro.gz".toList, ?_⟩
        rw [List.append_assoc]
        rfl
    · rw [List.append_assoc] at volume'
      refine ⟨_, longer (layer ++ ".mokuro".toList) (by simp [filled]) volume', "gz".toList, ?_⟩
      rw [List.append_assoc, List.append_assoc, List.append_assoc]
      congr 1
      rw [List.cons_append, List.append_assoc]
      rfl

-- The layers

/-- The ids of the layers found. -/
def Found.ids (found : Found) : List FileName := found.layers.map Prod.fst

theorem Found.mem_ids_insertLayer {found : Found} {layer id name : FileName}
    : id ∈ (found.insertLayer layer name).ids ↔ id = layer ∨ id ∈ found.ids := by
  unfold Found.ids Found.insertLayer
  rw [List.map_cons, List.mem_cons]
  constructor
  · intro either
    obtain same | member := either
    · exact Or.inl same
    · obtain ⟨entry, kept, rfl⟩ := List.mem_map.mp member
      exact Or.inr (List.mem_map_of_mem (List.mem_filter.mp kept).1)
  · intro either
    obtain same | member := either
    · exact Or.inl same
    · obtain ⟨entry, there, rfl⟩ := List.mem_map.mp member
      by_cases same : entry.1 = layer
      · exact Or.inl same
      · exact Or.inr (List.mem_map_of_mem (List.mem_filter.mpr ⟨there, decide_eq_true same⟩))

theorem layer_rest {volume layer name : FileName}
    (split : splitLayerSidecar name = some (volume, layer))
    : (volume ++ ['.']).isPrefixOf name = true ∧ name ≠ volume ++ ".cbz".toList
      ∧ name.drop (volume ++ ['.']).length ∉ ["mokuro".toList, "mokuro.gz".toList, "webp".toList] := by
  obtain ⟨_, valid, spelled⟩ := splitLayerSidecar_eq_some_iff.mp split
  obtain ⟨ending, known, rfl⟩ : ∃ ending, (ending = ".mokuro".toList ∨ ending = ".mokuro.gz".toList)
      ∧ name = volume ++ ['.'] ++ (layer ++ ending) := by
    obtain rfl | rfl := spelled
    · refine ⟨_, Or.inl rfl, ?_⟩
      rw [List.append_assoc, List.append_assoc]
      rfl
    · refine ⟨_, Or.inr rfl, ?_⟩
      rw [List.append_assoc, List.append_assoc]
      rfl
  have filled : layer ≠ [] := by
    intro empty
    rw [empty] at valid
    exact absurd valid (by decide)
  have positive := List.length_pos_of_ne_nil filled
  have dotted : layer ++ ending ≠ "cbz".toList ∧ layer ++ ending ≠ "mokuro".toList
      ∧ layer ++ ending ≠ "webp".toList ∧ layer ++ ending ≠ "mokuro.gz".toList := by
    have dot : '.' ∈ layer ++ ending := by
      obtain rfl | rfl := known
      · exact List.mem_append_right _ List.mem_cons_self
      · exact List.mem_append_right _ List.mem_cons_self
    refine ⟨?_, ?_, ?_, ?_⟩
    · exact fun same => absurd (same ▸ dot) (by decide)
    · exact fun same => absurd (same ▸ dot) (by decide)
    · exact fun same => absurd (same ▸ dot) (by decide)
    · intro same
      obtain rfl | rfl := known
      · have last := congrArg List.getLast? same
        rw [List.getLast?_append] at last
        have letters : some 'o' = some 'z' := last
        exact absurd letters (by decide)
      · have sizes := congrArg List.length same
        have size : ".mokuro.gz".toList.length = 10 := rfl
        have size' : "mokuro.gz".toList.length = 9 := rfl
        rw [List.length_append] at sizes
        omega
  refine ⟨List.isPrefixOf_iff_prefix.mpr (List.prefix_append _ _), ?_, ?_⟩
  · intro same
    rw [List.append_assoc] at same
    exact dotted.1 (List.tail_eq_of_cons_eq (List.append_cancel_left same))
  · rw [List.drop_left]
    simp only [List.mem_cons, List.not_mem_nil, or_false, not_or]
    exact ⟨dotted.2.1, dotted.2.2.2, dotted.2.2.1⟩

/-- A file adds its layer, if it is one of the volume and of no longer stem. -/
theorem mem_ids_sortFile {volume layer name : FileName} {longer : List FileName} {found : Found}
    : layer ∈ (sortFile volume (volume ++ ".cbz".toList) longer found name).ids
      ↔ layer ∈ found.ids
        ∨ (splitLayerSidecar name = some (volume, layer) ∧ ¬ OfLonger longer name) := by
  have any_iff : longer.any (fun stem => (stem ++ ['.']).isPrefixOf name) = true
      ↔ OfLonger longer name := by
    rw [List.any_eq_true]
    simp only [List.isPrefixOf_iff_prefix]
    rfl
  unfold sortFile
  dsimp only
  split
  · rename_i skipped
    refine (or_iff_left ?_).symm
    intro ⟨split, _⟩
    obtain ⟨begins, other, _⟩ := layer_rest split
    rw [begins] at skipped
    simp only [Bool.not_true, Bool.false_or, decide_eq_true_eq] at skipped
    exact other skipped
  · split
    · rename_i longer_one
      exact (or_iff_left (fun here => here.2 (any_iff.mp longer_one))).symm
    · rename_i shorter
      have kept : ¬ OfLonger longer name := fun of_longer => shorter (any_iff.mpr of_longer)
      have files : ∀ other, other ∈ ["mokuro".toList, "mokuro.gz".toList, "webp".toList]
          → name.drop (volume ++ ['.']).length = other
          → ¬ (splitLayerSidecar name = some (volume, layer) ∧ ¬ OfLonger longer name) := by
        intro other known same ⟨split, _⟩
        exact (layer_rest split).2.2 (same ▸ known)
      split
      · rename_i plain
        exact (or_iff_left (files _ List.mem_cons_self plain)).symm
      · split
        · rename_i zipped
          exact (or_iff_left
            (files _ (List.mem_cons_of_mem _ List.mem_cons_self) zipped)).symm
        · split
          · rename_i cover
            exact (or_iff_left (files _
              (List.mem_cons_of_mem _ (List.mem_cons_of_mem _ List.mem_cons_self)) cover)).symm
          · cases split : splitLayerSidecar name with
            | none => simp
            | some parts =>
                obtain ⟨owner, id⟩ := parts
                dsimp only
                by_cases own : owner = volume
                · rw [if_neg (fun other => other own), own]
                  have same_iff : (some (volume, id) = some (volume, layer)
                      ∧ ¬ OfLonger longer name) ↔ layer = id := by
                    constructor
                    · intro ⟨same, _⟩
                      exact (Prod.mk.inj (Option.some.inj same)).2.symm
                    · intro same
                      exact ⟨by rw [same], kept⟩
                  rw [same_iff]
                  split
                  · rw [Found.mem_ids_insertLayer, or_comm]
                  · rename_i there
                    refine (or_iff_left_of_imp ?_).symm
                    intro same
                    rw [same]
                    rw [Bool.or_eq_true, not_or, Option.isNone_iff_eq_none] at there
                    by_contra absent
                    apply there.1
                    apply List.lookup_eq_none_iff.mpr
                    intro entry member
                    rw [bne_iff_ne]
                    intro equal
                    exact absent (equal ▸ List.mem_map_of_mem member)
                · rw [if_pos own]
                  refine (or_iff_left ?_).symm
                  intro ⟨same, _⟩
                  exact own (Prod.mk.inj (Option.some.inj same)).1

theorem mem_ids_foldl {volume layer : FileName} {longer names : List FileName} {found : Found}
    : layer ∈ (names.foldl (sortFile volume (volume ++ ".cbz".toList) longer) found).ids
      ↔ layer ∈ found.ids ∨ ∃ name ∈ names, splitLayerSidecar name = some (volume, layer)
        ∧ ¬ OfLonger longer name := by
  induction names generalizing found with
  | nil => simp
  | cons name names ih =>
      rw [List.foldl_cons, ih, mem_ids_sortFile, or_assoc]
      simp only [List.mem_cons, exists_eq_or_imp]

theorem sortFile_layers_from {volume archiveName name : FileName} {longer : List FileName}
    {found : Found} {entry : FileName × FileName}
    (member : entry ∈ (sortFile volume archiveName longer found name).layers)
    : entry ∈ found.layers ∨ entry.2 = name := by
  unfold sortFile at member
  dsimp only at member
  split at member
  · exact Or.inl member
  · split at member
    · exact Or.inl member
    · split at member
      · exact Or.inl member
      · split at member
        · exact Or.inl member
        · split at member
          · exact Or.inl member
          · split at member
            · exact Or.inl member
            · split at member
              · exact Or.inl member
              · split at member
                · obtain rfl | kept := List.mem_cons.mp member
                  · exact Or.inr rfl
                  · exact Or.inl (List.mem_filter.mp kept).1
                · exact Or.inl member

theorem foldl_layers_from {volume archiveName : FileName} {longer names : List FileName}
    {found : Found} {entry : FileName × FileName}
    (member : entry ∈ (names.foldl (sortFile volume archiveName longer) found).layers)
    : entry ∈ found.layers ∨ entry.2 ∈ names := by
  induction names generalizing found with
  | nil => exact Or.inl member
  | cons name names ih =>
      obtain sorted | later := ih member
      · obtain old | same := sortFile_layers_from sorted
        · exact Or.inl old
        · exact Or.inr (same ▸ List.mem_cons_self)
      · exact Or.inr (List.mem_cons_of_mem _ later)

-- The manifest

/-- A folder of files. -/
def entriesOf (names : List FileName) (stat : FileName → FileMeta) : FolderEntries :=
  names.map (fun name => (name, some (stat name)))

theorem fileMeta_entriesOf {names : List FileName} {stat : FileName → FileMeta} {name : FileName}
    : (fileMeta (entriesOf names stat) name).isSome ↔ name ∈ names := by
  induction names with
  | nil => simp [fileMeta, entriesOf]
  | cons first names ih =>
      unfold fileMeta entriesOf at ih ⊢
      rw [List.map_cons, List.lookup_cons, List.mem_cons]
      by_cases same : name = first
      · simp [same]
      · have other : (name == first) = false := beq_eq_false_iff_ne.mpr same
        rw [other]
        simp only [same, false_or]
        exact ih

theorem mem_orderLayers {layerOrder ids : List FileName} {id : FileName}
    : id ∈ orderLayers layerOrder ids ↔ id ∈ ids := by
  have known : ∀ ordered : List FileName, (∀ id ∈ ordered, id ∈ ids)
      → ∀ id ∈ layerOrder.foldl (fun ordered id =>
        if ids.contains id && ! ordered.contains id then ordered ++ [id] else ordered) ordered,
        id ∈ ids := by
    induction layerOrder with
    | nil => exact fun ordered all => all
    | cons first layerOrder ih =>
        intro ordered all
        rw [List.foldl_cons]
        apply ih
        split
        · rename_i added
          rw [Bool.and_eq_true, List.contains_iff_mem] at added
          intro other member
          obtain old | last := List.mem_append.mp member
          · exact all other old
          · rw [List.mem_singleton.mp last]
            exact added.1
        · exact all
  have inside := known [] (fun id member => absurd member List.not_mem_nil)
  unfold orderLayers
  dsimp only
  rw [List.mem_append, List.mem_insertionSort, List.mem_filter, Bool.not_eq_true',
    ← Bool.not_eq_true, List.contains_iff_mem]
  constructor
  · intro either
    obtain first | rest := either
    · exact inside id first
    · exact rest.1
  · intro member
    by_cases first : id ∈ layerOrder.foldl (fun ordered id =>
        if ids.contains id && ! ordered.contains id then ordered ++ [id] else ordered) []
    · exact Or.inl first
    · exact Or.inr ⟨member, first⟩

theorem buildVolumeManifest_isSome {py : PyUnicode} {names : List FileName}
    {stat : FileName → FileMeta} {series volume : FileName} {layerOrder : List FileName}
    : (buildVolumeManifest py (entriesOf names stat) series volume layerOrder).isSome
      ↔ volume ++ ".cbz".toList ∈ names := by
  rw [← @fileMeta_entriesOf names stat, buildVolumeManifest]
  cases fileMeta (entriesOf names stat) (volume ++ ".cbz".toList) with
  | none => rfl
  | some archiveMeta => rfl

/-- The layers of a manifest are the volume's that are of no longer stem. -/
theorem mem_manifest_layers {py : PyUnicode} {names : List FileName} {stat : FileName → FileMeta}
    {series volume layer : FileName} {layerOrder : List FileName}
    : (∃ manifest,
        buildVolumeManifest py (entriesOf names stat) series volume layerOrder = some manifest
          ∧ layer ∈ manifest.layers.map Prod.fst)
      ↔ volume ++ ".cbz".toList ∈ names
        ∧ ∃ file ∈ names, splitLayerSidecar file = some (volume, layer)
          ∧ ¬ OfLonger (longerStems py volume (volume ++ ".cbz".toList) names) file := by
  rw [← @fileMeta_entriesOf names stat (volume ++ ".cbz".toList), buildVolumeManifest]
  have same : (entriesOf names stat).map Prod.fst = names := by
    unfold entriesOf
    rw [List.map_map]
    exact List.map_id names
  simp only [same]
  generalize scanned : names.foldl (sortFile volume (volume ++ ".cbz".toList)
    (longerStems py volume (volume ++ ".cbz".toList) names)) ⟨none, none, none, []⟩ = found
  have ids : layer ∈ found.ids ↔ ∃ file ∈ names, splitLayerSidecar file = some (volume, layer)
      ∧ ¬ OfLonger (longerStems py volume (volume ++ ".cbz".toList) names) file := by
    rw [← scanned, mem_ids_foldl]
    exact or_iff_right List.not_mem_nil
  have regular : ∀ entry ∈ found.layers,
      (fileMeta (entriesOf names stat) entry.2).isSome := by
    intro entry member
    rw [← scanned] at member
    obtain none_yet | listed := foldl_layers_from member
    · cases none_yet
    · exact fileMeta_entriesOf.mpr listed
  rw [← ids]
  cases fileMeta (entriesOf names stat) (volume ++ ".cbz".toList) with
  | none => simp
  | some archiveMeta =>
      -- every layer found is a regular file, so its id is put in order and looked up
      generalize files : found.layers.filterMap (fun entry =>
        (fileMeta (entriesOf names stat) entry.2).map
          (fun stat => (entry.1, fileEntry series entry.2 stat))) = layerFiles
      have listed : layer ∈ layerFiles.map Prod.fst ↔ layer ∈ found.ids := by
        rw [← files]
        constructor
        · intro member
          obtain ⟨file, kept, rfl⟩ := List.mem_map.mp member
          obtain ⟨entry, there, read⟩ := List.mem_filterMap.mp kept
          obtain ⟨stat', _, rfl⟩ := Option.map_eq_some_iff.mp read
          exact List.mem_map_of_mem there
        · intro member
          obtain ⟨entry, there, rfl⟩ := List.mem_map.mp member
          obtain ⟨stat', read⟩ := Option.isSome_iff_exists.mp (regular entry there)
          refine List.mem_map.mpr ⟨(entry.1, fileEntry series entry.2 stat'), ?_, rfl⟩
          exact List.mem_filterMap.mpr ⟨entry, there, by rw [read]; rfl⟩
      have looked : layer ∈ ((orderLayers layerOrder (layerFiles.map Prod.fst)).filterMap
          (fun id => (layerFiles.lookup id).map (fun entry => (id, entry)))).map Prod.fst
          ↔ layer ∈ layerFiles.map Prod.fst := by
        constructor
        · intro member
          obtain ⟨file, kept, rfl⟩ := List.mem_map.mp member
          obtain ⟨id, ordered, read⟩ := List.mem_filterMap.mp kept
          obtain ⟨entry, _, rfl⟩ := Option.map_eq_some_iff.mp read
          exact mem_orderLayers.mp ordered
        · intro member
          obtain ⟨file, there, rfl⟩ := List.mem_map.mp member
          cases read : layerFiles.lookup file.1 with
          | none =>
              have absent := List.lookup_eq_none_iff.mp read file there
              exact absurd rfl (bne_iff_ne.mp absent)
          | some entry =>
              refine List.mem_map.mpr ⟨(file.1, entry), List.mem_filterMap.mpr
                ⟨file.1, mem_orderLayers.mpr member, by rw [read]; rfl⟩, rfl⟩
      rw [← listed, ← looked]
      simp

end MokuroBunko.Library
