import MokuroBunko.Library.NewestWins
import MokuroBunko.Lib.Newest

/-! Updates of one series in any order: the facts of the newest are stored in the end, the index
follows the volumes named, and an update applied twice in a row changes nothing the second time.
-/

namespace MokuroBunko.Library

open MokuroBunko.Lib MokuroBunko.Data

-- Facts

theorem mergeFacts_eq (stored : Option SeriesFacts) (incoming : SeriesFacts)
    : mergeFacts stored incoming
      = Newest.merge SeriesFacts.updatedAt SeriesFacts.hasFacts stored incoming := by
  cases stored with
  | none => rfl
  | some stored =>
      simp only [mergeFacts, Newest.merge, le_iff_lt_or_eq]
      by_cases gives : incoming.hasFacts
      · simp [gives]
      · simp [gives]

/-- What the row says is what the facts say: as the database has them, or equal to what was there
already. -/
def Holds (facts : SeriesFacts) (row : SeriesFactsRow) : Prop :=
  factsOf row = facts.held ∨ facts.pyEq (factsOf row)

theorem Holds.stamp {facts : SeriesFacts} {row : SeriesFactsRow} (holds : Holds facts row)
    : (factsOf row).updatedAt = facts.updatedAt := by
  obtain same | equal := holds
  · rw [same]
    rfl
  · simp only [SeriesFacts.pyEq, Bool.and_eq_true, decide_eq_true_eq] at equal
    exact equal.2.symm

/-- Facts the database holds as they are. -/
structure SeriesFacts.IsHeld (facts : SeriesFacts) : Prop where
  ids : fieldsHeld facts.externalIds
  titles : fieldsHeld facts.titles
  synonyms : itemsHeld facts.synonyms

theorem SeriesFacts.IsHeld.held_eq {facts : SeriesFacts} (sound : facts.IsHeld)
    : facts.held = facts := by
  rw [SeriesFacts.held, heldFields_of_fieldsHeld sound.ids, heldFields_of_fieldsHeld sound.titles,
    heldItems_of_itemsHeld facts.synonyms sound.synonyms]

theorem SeriesFacts.IsHeld.pyEq_self {facts : SeriesFacts} (sound : facts.IsHeld)
    : facts.pyEq facts := by
  have ids := pyEq_refl (.obj facts.externalIds) sound.ids
  have titles := pyEq_refl (.obj facts.titles) sound.titles
  have synonyms := itemsPyEq_refl facts.synonyms sound.synonyms
  simp [SeriesFacts.pyEq, objectPyEq, ids, titles, synonyms]

theorem factsOf_isHeld (row : SeriesFactsRow) : (factsOf row).IsHeld :=
  ⟨row.idsHeld, row.titlesHeld, row.synonymsHeld⟩

theorem factsOf_put {facts : SeriesFacts} (stamped : facts.updatedAt ≠ "") (title : String)
    (index : SeriesIndexData) (actor : Option String)
    : factsOf (putSeriesFacts title facts index actor) = facts.held := by
  simp [factsOf, putSeriesFacts, SeriesFacts.held, stamped]

theorem stamp_factsOf (row : SeriesFactsRow) : (factsOf row).updatedAt ≠ "" := by
  simp only [factsOf]
  split
  · exact (by decide)
  · assumption

theorem AcceptedUpdate.stamped (accepted : AcceptedUpdate)
    : accepted.update.facts.updatedAt ≠ "" := by
  obtain ⟨payload, now, parsed⟩ := accepted.parsed
  obtain ⟨_, _, normalized⟩ := parseSeriesUpdate_spec parsed
  obtain ⟨_, _, made⟩ := normalizeUpdatedAt_spec normalized
  obtain ⟨civil, _, written⟩ := Option.map_eq_some_iff.mp made
  intro empty
  rw [empty] at written
  have chars := congrArg String.toList written
  simp [Civil.stamp] at chars

theorem apply_facts (row : Option SeriesFactsRow) (accepted : AcceptedUpdate)
    : Holds (mergeFacts (row.map factsOf) accepted.update.facts)
      (applySeriesUpdate row accepted).row := by
  cases row with
  | none => exact Or.inl (factsOf_put accepted.stamped _ _ _)
  | some row =>
      have stamped : (mergeFacts (some (factsOf row)) accepted.update.facts).updatedAt ≠ "" := by
        rw [mergeFacts_eq]
        obtain won | lost := Newest.merge_eq_or SeriesFacts.updatedAt SeriesFacts.hasFacts
          (some (factsOf row)) accepted.update.facts
        · rw [won]
          exact accepted.stamped
        · rw [Option.some.inj lost]
          exact stamp_factsOf row
      simp only [applySeriesUpdate, Option.map_some]
      split
      · exact Or.inl (factsOf_put stamped _ _ _)
      · rename_i unchanged
        rw [MergeResult.changed, Bool.or_eq_true, not_or] at unchanged
        right
        simpa [mergeSeriesUpdate, storedSeries] using unchanged.1

theorem Holds.apply {facts : SeriesFacts} {row : SeriesFactsRow} (holds : Holds facts row)
    (accepted : AcceptedUpdate)
    : Holds (mergeFacts (some facts) accepted.update.facts)
      (applySeriesUpdate (some row) accepted).row := by
  have stamp := holds.stamp
  have after := apply_facts (some row) accepted
  rw [Option.map_some] at after
  rw [mergeFacts_eq] at after ⊢
  by_cases wins : facts.updatedAt < accepted.update.facts.updatedAt
      ∨ (accepted.update.facts.hasFacts ∧ facts.updatedAt = accepted.update.facts.updatedAt)
  · rw [Newest.merge, if_pos wins]
    rw [Newest.merge, if_pos (by rw [stamp]; exact wins)] at after
    exact after
  · rw [Newest.merge, if_neg wins]
    rw [Newest.merge, if_neg (by rw [stamp]; exact wins)] at after
    -- the facts of the row are written back as they are, or not written
    have kept : factsOf (applySeriesUpdate (some row) accepted).row = factsOf row := by
      have lost : mergeFacts (some (factsOf row)) accepted.update.facts = factsOf row := by
        rw [mergeFacts_eq, Newest.merge, if_neg (by rw [stamp]; exact wins)]
      simp only [applySeriesUpdate]
      split
      · rw [factsOf_put]
        · simp only [mergeSeriesUpdate, Option.map_some, storedSeries, lost]
          exact (factsOf_isHeld row).held_eq
        · simp only [mergeSeriesUpdate, Option.map_some, storedSeries, lost]
          exact stamp_factsOf row
      · rfl
    obtain same | equal := holds
    · left
      rw [kept, same]
    · right
      rw [kept]
      exact equal

/-- The row after some updates. -/
def applyAll (row : Option SeriesFactsRow) (updates : List AcceptedUpdate)
    : Option SeriesFactsRow :=
  updates.foldl (fun row accepted => some (applySeriesUpdate row accepted).row) row

theorem applyAll_facts {facts : SeriesFacts} {row : SeriesFactsRow} (holds : Holds facts row)
    (updates : List AcceptedUpdate)
    : ∃ final last, applyAll (some row) updates = some last
      ∧ Newest.run SeriesFacts.updatedAt SeriesFacts.hasFacts (some facts)
        (updates.map (fun accepted => accepted.update.facts)) = some final
      ∧ Holds final last := by
  induction updates generalizing facts row with
  | nil => exact ⟨facts, row, rfl, rfl, holds⟩
  | cons accepted updates ih =>
      have next := holds.apply accepted
      rw [mergeFacts_eq] at next
      exact ih next

theorem apply_stamp_le (row : SeriesFactsRow) (accepted : AcceptedUpdate)
    : (factsOf row).updatedAt ≤ (factsOf (applySeriesUpdate (some row) accepted).row).updatedAt := by
  rw [(apply_facts (some row) accepted).stamp, mergeFacts_eq]
  exact (Newest.le_merge SeriesFacts.updatedAt SeriesFacts.hasFacts (some (factsOf row)) _).1 _ rfl

theorem applyAll_stamp_le {row last : SeriesFactsRow} {updates : List AcceptedUpdate}
    (run : applyAll (some row) updates = some last)
    : (factsOf row).updatedAt ≤ (factsOf last).updatedAt := by
  induction updates generalizing row with
  | nil =>
      obtain rfl := Option.some.inj run
      exact le_refl _
  | cons accepted updates ih => exact le_trans (apply_stamp_le row accepted) (ih run)

-- Index

theorem get?_heldFields {fields : Object} (distinct : (fields.map Prod.fst).Nodup) (key : String)
    : Object.get? (heldFields fields []) key = (fields.get? key).map held := by
  rw [heldFields_eq_map distinct (by simp), List.nil_append]
  clear distinct
  induction fields with
  | nil => rfl
  | cons field rest ih =>
      rw [List.map_cons, Object.get?_cons, Object.get?_cons, ih]
      split <;> rfl

theorem get?_mergeOffset (incoming offsets : Object) (uuid asked : String)
    : (mergeOffset incoming offsets uuid).get? asked
      = if asked = uuid then incoming.get? uuid else offsets.get? asked := by
  unfold mergeOffset
  cases found : incoming.get? uuid with
  | none => exact Object.get?_remove offsets uuid asked
  | some offset => exact Object.get?_insert offsets uuid asked offset

theorem get?_mergeOffsets (incoming offsets : Object) (uuids : List String) (asked : String)
    : Object.get? (uuids.foldl (mergeOffset incoming) offsets) asked
      = if asked ∈ uuids then incoming.get? asked else offsets.get? asked := by
  induction uuids generalizing offsets with
  | nil => simp
  | cons uuid uuids ih =>
      rw [List.foldl_cons, ih, get?_mergeOffset]
      by_cases later : asked ∈ uuids
      · simp [later]
      · by_cases same : asked = uuid
        · simp [same]
        · simp [later, same]

theorem nodup_mergeOffset {incoming offsets : Object} (uuid : String)
    (distinct : (offsets.map Prod.fst).Nodup)
    : ((mergeOffset incoming offsets uuid).map Prod.fst).Nodup := by
  unfold mergeOffset
  cases incoming.get? uuid with
  | none => exact (OrderedMap.erase ⟨offsets, distinct⟩ uuid).keysNodup
  | some offset => exact (OrderedMap.insert ⟨offsets, distinct⟩ uuid offset).keysNodup

theorem nodup_mergeOffsets {incoming offsets : Object} (uuids : List String)
    (distinct : (offsets.map Prod.fst).Nodup)
    : ((uuids.foldl (mergeOffset incoming) offsets).map Prod.fst).Nodup := by
  induction uuids generalizing offsets with
  | nil => exact distinct
  | cons uuid uuids ih => exact ih (nodup_mergeOffset uuid distinct)

theorem keys_mergeOffsets {incoming offsets : Object} {uuids : List String}
    (merged : ∀ uuid ∈ uuids, (incoming.get? uuid).isSome = (offsets.get? uuid).isSome)
    : (uuids.foldl (mergeOffset incoming) offsets).map Prod.fst = offsets.map Prod.fst := by
  induction uuids generalizing offsets with
  | nil => rfl
  | cons uuid uuids ih =>
      have here := merged uuid List.mem_cons_self
      have keys : (mergeOffset incoming offsets uuid).map Prod.fst = offsets.map Prod.fst := by
        unfold mergeOffset
        cases found : incoming.get? uuid with
        | none =>
            rw [found, Option.isSome_none] at here
            have absent := Entries.get?_eq_none_iff.mp (Option.not_isSome_iff_eq_none.mp
              (Bool.eq_false_iff.mp here.symm))
            rw [Object.remove, Entries.erase, List.filter_eq_self.mpr]
            intro field member
            have other : field.1 ≠ uuid := by
              intro same
              exact absent (List.mem_map.mpr ⟨field, member, same⟩)
            exact decide_eq_true other
        | some offset =>
            rw [found, Option.isSome_some] at here
            have present : uuid ∈ offsets.map Prod.fst := by
              apply Classical.not_not.mp
              intro absent
              rw [Object.get?, Entries.get?_eq_none_iff.mpr absent] at here
              cases here
            exact (Entries.keys_insert uuid offset offsets).trans (if_pos present)
      rw [List.foldl_cons, ih, keys]
      intro other later
      rw [get?_mergeOffset, merged other (List.mem_cons_of_mem _ later)]
      split
      · rename_i same
        rw [same, ← here]
      · rfl

theorem apply_index (row : Option SeriesFactsRow) (accepted : AcceptedUpdate) {uuid : String}
    (unnamed : uuid ∉ accepted.update.listedUuids)
    : Object.get? (applySeriesUpdate row accepted).row.volumeOffsets uuid
      = row.bind (fun row => Object.get? row.volumeOffsets uuid) := by
  cases row with
  | none =>
      simp only [applySeriesUpdate, putSeriesFacts, mergeSeriesUpdate, mergeIndex, Option.map_none,
        Option.getD_none, Option.bind_none]
      rw [get?_heldFields (nodup_mergeOffsets _ (by simp)), get?_mergeOffsets,
        if_neg unnamed]
      rfl
  | some row =>
      obtain ⟨distinct, sound⟩ := fieldsHeld_iff.mp row.offsetsHeld
      simp only [applySeriesUpdate]
      split
      · simp only [putSeriesFacts, mergeSeriesUpdate, mergeIndex, Option.map_some, storedSeries,
          indexOf, Option.getD_some, Option.bind_some]
        rw [get?_heldFields (nodup_mergeOffsets _ distinct), get?_mergeOffsets, if_neg unnamed]
        cases found : Object.get? row.volumeOffsets uuid with
        | none => rfl
        | some offset =>
            have member := Entries.mem_of_get? found
            exact congrArg some (held_of_isHeld offset (sound _ member))
      · rfl

-- What a body gives

theorem pickFields_spec (raw : Option Json) (keys : List String) (passes : Json → Bool)
    : ((pickFields raw keys passes).map Prod.fst).Nodup
      ∧ ∀ field ∈ pickFields raw keys passes, passes field.2 := by
  unfold pickFields
  split
  case h_2 => simp
  case h_1 fields =>
    refine @List.foldlRecOn _ _ (fun picked : Object =>
      (picked.map Prod.fst).Nodup ∧ ∀ field ∈ picked, passes field.2) keys _ _ (by simp) ?_
    rintro object ⟨distinct, pass⟩ key -
    cases found : Object.get? fields key with
    | none => exact ⟨distinct, pass⟩
    | some value =>
        dsimp only
        by_cases good : passes value
        · rw [if_pos good]
          have nodup := (OrderedMap.insert ⟨object, distinct⟩ key value).keysNodup
          refine ⟨nodup, fun field member => ?_⟩
          have read := Entries.get?_of_mem nodup member
          rw [OrderedMap.insert, Entries.get?_insert] at read
          split at read
          · cases read
            exact good
          · exact pass field (Entries.mem_of_get? read)
        · rw [if_neg good]
          exact ⟨distinct, pass⟩

/-- What is taken of the volumes: offsets are numbers of volumes that were listed. -/
structure ListedSoundly (listed : List String × Object) : Prop where
  distinct : (listed.2.map Prod.fst).Nodup
  named : ∀ field ∈ listed.2, field.1 ∈ listed.1
  numbers : ∀ field ∈ listed.2, ∃ number, field.2 = .num number

theorem ListedSoundly.listVolume {listed : List String × Object} (sound : ListedSoundly listed)
    (entry : Json)
    : ListedSoundly (Library.listVolume listed entry) := by
  unfold Library.listVolume
  split
  · exact sound
  · split
    · exact sound
    · rename_i uuid _ _
      have named : ∀ field ∈ listed.2, field.1 ∈ listed.1 ++ [uuid] :=
        fun field member => List.mem_append_left _ (sound.named field member)
      split
      · rename_i offset _
        have nodup := (OrderedMap.insert ⟨listed.2, sound.distinct⟩ uuid (.num offset)).keysNodup
        have split : ∀ field ∈ Object.insert listed.2 uuid (.num offset),
            field = (uuid, .num offset) ∨ field ∈ listed.2 := by
          intro field member
          have read := Entries.get?_of_mem nodup member
          rw [OrderedMap.insert, Entries.get?_insert] at read
          split at read
          · rename_i same
            exact Or.inl (Prod.ext same (Option.some.inj read).symm)
          · exact Or.inr (Entries.mem_of_get? read)
        refine ⟨nodup, ?_, ?_⟩
        · intro field member
          obtain rfl | old := split field member
          · simp
          · exact named field old
        · intro field member
          obtain rfl | old := split field member
          · exact ⟨offset, rfl⟩
          · exact sound.numbers field old
      · exact ⟨sound.distinct, named, sound.numbers⟩

theorem ListedSoundly.listVolumes {listed : List String × Object} (sound : ListedSoundly listed)
    (entries : List Json)
    : ListedSoundly (entries.foldl Library.listVolume listed) := by
  induction entries generalizing listed with
  | nil => exact sound
  | cons entry entries ih => exact ih (sound.listVolume entry)

theorem AcceptedUpdate.parts (accepted : AcceptedUpdate)
    : ∃ decoded stamp, accepted.update.facts = factsFrom decoded stamp
      ∧ ListedSoundly (accepted.update.listedUuids, accepted.update.volumeOffsets) := by
  obtain ⟨payload, now, parsed⟩ := accepted.parsed
  obtain ⟨decoded, _, rest⟩ := Option.bind_eq_some_iff.mp parsed
  split at rest
  · cases rest
  · obtain ⟨stamp, _, built⟩ := Option.bind_eq_some_iff.mp rest
    refine ⟨decoded, stamp, ?_, ?_⟩
    · rw [← Option.some.inj built]
    · rw [← Option.some.inj built]
      dsimp only
      split
      · exact ListedSoundly.listVolumes ⟨by simp, by simp, by simp⟩ _
      · exact ⟨by simp, by simp, by simp⟩

/-- The whole numbers of an update fit the database: ids and offsets have 64 bits, the offset of
the series is an `i64`. -/
structure SeriesUpdate.Fits (update : SeriesUpdate) : Prop where
  ids : ∀ field ∈ update.facts.externalIds, ∀ value, field.2 = .num (.int value)
    → value ≤ u64Max
  offsets : ∀ field ∈ update.volumeOffsets, ∀ value, field.2 = .num (.int value)
    → i64Min ≤ value ∧ value ≤ u64Max
  spine : ∀ value, update.spineOffset = some (.int value) → i64Min ≤ value ∧ value ≤ i64Max

theorem AcceptedUpdate.facts_isHeld (accepted : AcceptedUpdate) (fits : accepted.update.Fits)
    : accepted.update.facts.IsHeld := by
  obtain ⟨decoded, stamp, same, _⟩ := accepted.parts
  have ids := pickFields_spec (decoded.get? "external_ids") idKeys positiveInt
  have titles := pickFields_spec (decoded.get? "titles") titleKeys filledText
  have idsFit := fits.ids
  rw [same] at idsFit ⊢
  refine ⟨fieldsHeld_iff.mpr ⟨ids.1, ?_⟩, fieldsHeld_iff.mpr ⟨titles.1, ?_⟩, ?_⟩
  · intro field member
    have positive := ids.2 field member
    cases value : field.2 with
    | num number =>
        cases number with
        | int number =>
            rw [value] at positive
            have above : 0 < number := by simpa [positiveInt] using positive
            have below := idsFit field member number value
            have lower : i64Min ≤ number := (by decide : i64Min ≤ 0).trans above.le
            simp [isHeld, lower, below]
        | float _ => rfl
    | _ => rw [value] at positive; cases positive
  · intro field member
    have filled := titles.2 field member
    cases value : field.2 with
    | str _ => rfl
    | _ => rw [value] at filled; cases filled
  · have texts : ∀ items : List Json, itemsHeld (items.filter filledText) := by
      intro items
      induction items with
      | nil => rfl
      | cons item items ih =>
          rw [List.filter_cons]
          split
          · rename_i filled
            cases item with
            | str _ => exact ih
            | _ => cases filled
          · exact ih
    simp only [factsFrom]
    split
    · exact texts _
    · rfl

theorem AcceptedUpdate.offsets_isHeld (accepted : AcceptedUpdate) (fits : accepted.update.Fits)
    : fieldsHeld accepted.update.volumeOffsets := by
  obtain ⟨_, _, _, listed⟩ := accepted.parts
  refine fieldsHeld_iff.mpr ⟨listed.distinct, ?_⟩
  intro field member
  obtain ⟨number, value⟩ := listed.numbers field member
  cases number with
  | int number =>
      have fit := fits.offsets field member number value
      rw [value]
      simpa [isHeld] using fit
  | float _ =>
      rw [value]
      rfl

-- Applying an update twice

theorem numberPyEq_heldSpine {spine : Option Number}
    (fits : ∀ value, spine = some (.int value) → i64Min ≤ value ∧ value ≤ i64Max)
    : ∀ number ∈ spine, ∃ kept, heldSpine spine = some kept ∧ Number.pyEq number kept := by
  intro number found
  obtain rfl := Option.mem_def.mp found
  cases number with
  | int value => exact ⟨.int value, if_pos (fits value rfl), by simp [Number.pyEq]⟩
  | float value =>
      by_cases whole : value.den = 1 ∧ i64Min < value.num ∧ value.num < i64Max
      · refine ⟨.int value.num, congrArg some (if_pos whole), ?_⟩
        exact decide_eq_true ((Rat.den_eq_one_iff value).mp whole.1).symm
      · exact ⟨.float value, congrArg some (if_neg whole), by simp [Number.pyEq]⟩

theorem indexPyEq_iff {left right : SeriesIndexData}
    (spine : (left.spineOffset = none ∧ right.spineOffset = none)
      ∨ ∃ number kept, left.spineOffset = some number ∧ right.spineOffset = some kept
        ∧ Number.pyEq number kept)
    (keys : left.volumeOffsets.map Prod.fst = right.volumeOffsets.map Prod.fst)
    (fields : fieldsPyEq left.volumeOffsets right.volumeOffsets)
    : left.pyEq right := by
  have lengths := congrArg List.length keys
  rw [List.length_map, List.length_map] at lengths
  have offsets : objectPyEq left.volumeOffsets right.volumeOffsets := by
    simp [objectPyEq, pyEq, lengths, fields]
  obtain ⟨none, none'⟩ | ⟨number, kept, found, found', equal⟩ := spine
  · simp [SeriesIndexData.pyEq, none, none', offsets]
  · simp [SeriesIndexData.pyEq, found, found', equal, offsets]

theorem fieldsPyEq_of {fields : List (String × Json)} {other : Object}
    (read : ∀ field ∈ fields, other.get? field.1 = some field.2 ∧ isHeld field.2)
    : fieldsPyEq fields other := by
  induction fields with
  | nil => rfl
  | cons field rest ih =>
      obtain ⟨found, sound⟩ := read field List.mem_cons_self
      rw [fieldsPyEq, found]
      simp only [pyEq_refl field.2 sound, Bool.true_and]
      exact ih (fun later member => read later (List.mem_cons_of_mem _ member))

theorem fieldsHeld_mergeOffsets {incoming offsets : Object} (uuids : List String)
    (taken : fieldsHeld incoming) (sound : fieldsHeld offsets)
    : fieldsHeld (uuids.foldl (mergeOffset incoming) offsets) := by
  induction uuids generalizing offsets with
  | nil => exact sound
  | cons uuid uuids ih =>
      apply ih
      obtain ⟨distinct, all⟩ := fieldsHeld_iff.mp sound
      unfold mergeOffset
      cases found : incoming.get? uuid with
      | none =>
          apply fieldsHeld_iff.mpr
          refine ⟨(OrderedMap.erase ⟨offsets, distinct⟩ uuid).keysNodup, ?_⟩
          intro field member
          exact all field (List.mem_of_mem_filter member)
      | some offset =>
          have value := (fieldsHeld_iff.mp taken).2 _ (Entries.mem_of_get? found)
          exact fieldsHeld_insert sound value

theorem mergeIndex_twice (stored : Option SeriesIndexData) (accepted : AcceptedUpdate)
    (fits : accepted.update.Fits)
    (sound : ∀ index ∈ stored, fieldsHeld index.volumeOffsets
      ∧ heldSpine index.spineOffset = index.spineOffset)
    : (mergeIndex (some (mergeIndex stored accepted.update).held) accepted.update).pyEq
      (mergeIndex stored accepted.update).held := by
  have taken := accepted.offsets_isHeld fits
  have base : fieldsHeld (stored.getD ⟨none, []⟩).volumeOffsets
      ∧ heldSpine (stored.getD ⟨none, []⟩).spineOffset
        = (stored.getD ⟨none, []⟩).spineOffset := by
    cases stored with
    | none => exact ⟨rfl, rfl⟩
    | some index => exact sound index rfl
  unfold mergeIndex SeriesIndexData.held
  dsimp only [Option.getD_some]
  generalize (stored.getD ⟨none, []⟩).volumeOffsets = offsets at base
  generalize (stored.getD ⟨none, []⟩).spineOffset = spine at base
  have merged := fieldsHeld_mergeOffsets accepted.update.listedUuids taken base.1
  rw [heldFields_of_fieldsHeld merged]
  have again := fieldsHeld_mergeOffsets accepted.update.listedUuids taken merged
  apply indexPyEq_iff
  · dsimp only
    split
    · cases found : accepted.update.spineOffset with
      | none => exact Or.inl ⟨rfl, rfl⟩
      | some number =>
          obtain ⟨kept, stored, equal⟩ := numberPyEq_heldSpine
            (fun value same => fits.spine value (found.trans same)) number rfl
          exact Or.inr ⟨number, kept, rfl, stored, equal⟩
    · rw [base.2]
      cases spine with
      | none => exact Or.inl ⟨rfl, rfl⟩
      | some number => exact Or.inr ⟨number, number, rfl, rfl, by simp [Number.pyEq]⟩
  · apply keys_mergeOffsets
    intro uuid named
    rw [get?_mergeOffsets, if_pos named]
  · apply fieldsPyEq_of
    intro field member
    obtain ⟨distinct, all⟩ := fieldsHeld_iff.mp again
    have read : Object.get? _ field.1 = some field.2 := Entries.get?_of_mem distinct member
    refine ⟨?_, all field member⟩
    rw [← read]
    by_cases named : field.1 ∈ accepted.update.listedUuids
    · simp only [get?_mergeOffsets, if_pos named]
    · simp only [get?_mergeOffsets, if_neg named]

theorem mergeFacts_put (row : Option SeriesFactsRow) (accepted : AcceptedUpdate)
    (fits : accepted.update.Fits) {last : SeriesFactsRow} {title : String}
    {index : SeriesIndexData} {actor : Option String}
    (written : last = putSeriesFacts title
      (mergeFacts (row.map factsOf) accepted.update.facts) index actor)
    : (mergeFacts (some (factsOf last)) accepted.update.facts).pyEq (factsOf last) := by
  have sound : (mergeFacts (row.map factsOf) accepted.update.facts).IsHeld
      ∧ (mergeFacts (row.map factsOf) accepted.update.facts).updatedAt ≠ "" := by
    rw [mergeFacts_eq]
    obtain won | lost := Newest.merge_eq_or SeriesFacts.updatedAt SeriesFacts.hasFacts
      (row.map factsOf) accepted.update.facts
    · rw [won]
      exact ⟨accepted.facts_isHeld fits, accepted.stamped⟩
    · obtain ⟨old, _, same⟩ := Option.map_eq_some_iff.mp lost.symm
      rw [← same]
      exact ⟨factsOf_isHeld old, stamp_factsOf old⟩
  rw [written, factsOf_put sound.2, sound.1.held_eq]
  have again : mergeFacts (some (mergeFacts (row.map factsOf) accepted.update.facts))
      accepted.update.facts = mergeFacts (row.map factsOf) accepted.update.facts := by
    simp only [mergeFacts_eq]
    exact Newest.merge_twice _ _
  rw [again]
  exact sound.1.pyEq_self

theorem apply_twice (row : Option SeriesFactsRow) (accepted : AcceptedUpdate)
    (fits : accepted.update.Fits)
    : (applySeriesUpdate (some (applySeriesUpdate row accepted).row) accepted).result.changed
      = false := by
  have rows : ∀ stored ∈ (row.map storedSeries).map StoredSeries.index,
      fieldsHeld stored.volumeOffsets ∧ heldSpine stored.spineOffset = stored.spineOffset := by
    cases row with
    | none => simp
    | some row => simpa [storedSeries, indexOf] using ⟨row.offsetsHeld, row.spineHeld⟩
  have index := mergeIndex_twice _ accepted fits rows
  have same : (row.map storedSeries).map StoredSeries.facts = row.map factsOf := by
    cases row <;> rfl
  -- what was put takes the update without a change
  have put : ∀ last, last = putSeriesFacts accepted.resolvedTitle
        (mergeSeriesUpdate (row.map storedSeries) accepted.update).facts
        (mergeSeriesUpdate (row.map storedSeries) accepted.update).index accepted.actor
      → (applySeriesUpdate (some last) accepted).result.changed = false := by
    intro last written
    simp only [mergeSeriesUpdate, same] at written
    have facts := mergeFacts_put row accepted fits written
    have stored : indexOf last
        = (mergeIndex ((row.map storedSeries).map StoredSeries.index) accepted.update).held := by
      rw [written]
      rfl
    rw [← stored] at index
    simp [applySeriesUpdate, MergeResult.changed, mergeSeriesUpdate, storedSeries, facts, index]
  cases row with
  | none => exact put _ rfl
  | some row =>
      cases changed : (applySeriesUpdate (some row) accepted).result.changed with
      | true => exact put _ (if_pos changed)
      | false =>
          have kept : (applySeriesUpdate (some row) accepted).row = row :=
            if_neg (Bool.eq_false_iff.mp changed)
          rw [kept, changed]

-- Any order

theorem applyAll_newest (row : Option SeriesFactsRow) (updates : List AcceptedUpdate)
    (any : (row.map factsOf).toList ++ updates.map (fun accepted => accepted.update.facts) ≠ [])
    : ∃ newest last, applyAll row updates = some last
      ∧ Newest.run SeriesFacts.updatedAt SeriesFacts.hasFacts (row.map factsOf)
        (updates.map (fun accepted => accepted.update.facts)) = some newest
      ∧ Holds newest last := by
  cases row with
  | some row => exact applyAll_facts (Or.inl (factsOf_isHeld row).held_eq.symm) updates
  | none =>
      cases updates with
      | nil => exact absurd rfl any
      | cons accepted updates => exact applyAll_facts (apply_facts none accepted) updates

/-- Updates with different stamps lead to the facts of the newest copy in any order, and the
stamp never gets less on the way. An update changes the offsets of the volumes it names only, and
what it does to the facts depends on its facts alone. The second time it changes nothing, if the
database holds its whole numbers. -/
theorem series_updates_converge (row : Option SeriesFactsRow) (updates : List AcceptedUpdate)
    (distinct : (updates.map (fun accepted => accepted.update.facts.updatedAt)).Nodup)
    : let copies := (row.map factsOf).toList
        ++ updates.map (fun accepted => accepted.update.facts)
      (copies ≠ [] → ∃ newest ∈ copies, (∀ other ∈ copies, other.updatedAt ≤ newest.updatedAt)
        ∧ ∀ order, order.Perm updates
          → ∃ last, applyAll row order = some last ∧ Holds newest last)
      ∧ (∀ before after first last, (before ++ after).Perm updates
        → applyAll row before = some first → applyAll row (before ++ after) = some last
        → (factsOf first).updatedAt ≤ (factsOf last).updatedAt)
      ∧ ∀ row accepted,
        (∀ uuid ∉ accepted.update.listedUuids,
          Object.get? (applySeriesUpdate row accepted).row.volumeOffsets uuid
            = row.bind (fun row => Object.get? row.volumeOffsets uuid))
        ∧ Holds (mergeFacts (row.map factsOf) accepted.update.facts)
          (applySeriesUpdate row accepted).row
        ∧ (accepted.update.Fits
          → (applySeriesUpdate (some (applySeriesUpdate row accepted).row) accepted).result.changed
            = false) := by
  dsimp only
  refine ⟨?_, ?_, ?_⟩
  · intro any
    obtain ⟨newest, _, _, run, _⟩ := applyAll_newest row updates any
    obtain ⟨member, greatest⟩ := Newest.run_newest run
    refine ⟨newest, member, greatest, ?_⟩
    intro order same
    have facts := same.map (fun accepted => accepted.update.facts)
    have nonempty : (row.map factsOf).toList
        ++ order.map (fun accepted => accepted.update.facts) ≠ [] := by
      intro empty
      have length := (facts.append_left (row.map factsOf).toList).length_eq
      rw [empty] at length
      exact any (List.length_eq_zero_iff.mp length.symm)
    obtain ⟨winner, last, applied, orderRun, holds⟩ := applyAll_newest row order nonempty
    have alike : winner = newest := by
      apply Option.some.inj
      rw [← orderRun, ← run]
      apply Newest.run_perm _ facts
      rw [List.map_map]
      exact (same.map _).nodup_iff.mpr distinct
    exact ⟨last, applied, alike ▸ holds⟩
  · intro before after first last _ reached ended
    rw [applyAll, List.foldl_append] at ended
    rw [applyAll] at reached
    rw [reached] at ended
    exact applyAll_stamp_le ended
  · exact fun row accepted => ⟨fun _ unnamed => apply_index row accepted unnamed,
      apply_facts row accepted, apply_twice row accepted⟩

/-- An update that sets the offset of the series. -/
def shift (offset : ℤ) (stamp : String) : Json :=
  .obj [("version", .num (.int 2)), ("spine_offset", .num (.int offset)),
    ("updated_at", .str stamp)]

/-- The update as it is accepted in 2027. -/
def accept (payload : Json) (reads : (parseSeriesUpdate payload 1800000000).isSome)
    : AcceptedUpdate where
  update := (parseSeriesUpdate payload 1800000000).get reads
  resolvedTitle := "Series"
  actor := none
  parsed := ⟨payload, 1800000000, (Option.some_get reads).symm⟩

theorem series_updates_converge_edits
    : ∃ early late : AcceptedUpdate,
        early.update.facts.updatedAt < late.update.facts.updatedAt
        ∧ (∃ newest, ∀ order, order.Perm [early, late]
          → ∃ last, applyAll none order = some last ∧ Holds newest last)
        ∧ (applySeriesUpdate (some (applySeriesUpdate none early).row) early).result.changed
          = false := by
  let early := accept (edit "2026-06-01T00:00:00Z") (by decide +kernel)
  let late := accept (edit "2026-06-02T00:00:00Z") (by decide +kernel)
  have order : early.update.facts.updatedAt < late.update.facts.updatedAt := by decide +kernel
  have distinct : ([early, late].map (fun accepted => accepted.update.facts.updatedAt)).Nodup := by
    simpa using order.ne
  obtain ⟨converge, _, each⟩ := series_updates_converge none [early, late] distinct
  obtain ⟨newest, _, _, reached⟩ := converge (by simp)
  have fits : early.update.Fits := by
    refine ⟨?_, ?_, ?_⟩
    · have empty : early.update.facts.externalIds = [] := by decide +kernel
      simp [empty]
    · have empty : early.update.volumeOffsets = [] := by decide +kernel
      simp [empty]
    · have empty : early.update.spineOffset = none := by decide +kernel
      simp [empty]
  exact ⟨early, late, order, ⟨newest, reached⟩, (each none early).2.2 fits⟩

/-- An offset beyond `i64` is not stored, so the same update changes something every time. -/
theorem wide_offset_changes_again
    : let wide := accept (shift (2 ^ 63) "2026-06-01T00:00:00Z") (by decide +kernel)
      (applySeriesUpdate (some (applySeriesUpdate none wide).row) wide).result.changed
        = true := by
  decide +kernel

end MokuroBunko.Library
