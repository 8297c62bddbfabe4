import MokuroBunko.Data.Json
import MokuroBunko.Library.IsoDate

/-! Series facts sent by a client (`update.rs`, `normalize_updated_at` of `compat.rs`): what is taken
from a body, and which of two copies of the facts is kept; and the stored state of a series
(`schema.rs`, `store.rs`, `service.rs`): what the database can hold of it, equality as Python has
it, and how an update is merged into it.
-/

namespace MokuroBunko.Library

open MokuroBunko.Lib MokuroBunko.Data

/-- `FUTURE_TOLERANCE_SECONDS`. -/
def futureToleranceSeconds : ℚ := 300

/-- The text `fromisoformat` is asked to read: a final `Z` is written out. -/
def isoText (raw : String) : String :=
  let text := (Text.strip raw).toList
  if text.getLast? = some 'Z' then String.ofList (text.dropLast ++ "+00:00".toList)
  else String.ofList text

/-- The instant a value denotes, in microseconds. -/
def statedMicros : Option Json → Option ℤ
  | some (.str raw) =>
      if Text.strip raw = "" then none else fromIsoFormatUtcMicros (isoText raw)
  | _ => none

/-- `normalize_updated_at`: a stamp more than five minutes ahead is set to `now`. -/
def normalizeUpdatedAt (value : Option Json) (now : ℚ) : Option String := do
  let micros ← statedMicros value
  let seconds := microsToSeconds micros
  isoStamp (if now + futureToleranceSeconds < seconds then now else seconds)

def idKeys : List String := ["anilist", "mal"]

def titleKeys : List String := ["native", "romaji", "english"]

def trackingUnits : List String := ["volumes", "chapters"]

structure SeriesFacts where
  externalIds : Object
  titles : Object
  synonyms : List Json
  tag : Option String
  unit : Option String
  updatedAt : String
deriving DecidableEq

def blank (text : String) : Bool := Text.strip text = ""

def SeriesFacts.hasFacts (facts : SeriesFacts) : Bool :=
  !facts.externalIds.isEmpty || !facts.titles.isEmpty
    || facts.synonyms.any (fun item => item.asStr?.any (fun text => !blank text))
    || facts.tag.any (fun tag => !blank tag)
    || facts.unit.any (· ≠ "")

/-- The fields under the keys that pass, as an object. -/
def pickFields (raw : Option Json) (keys : List String) (passes : Json → Bool) : Object :=
  match raw with
  | some (.obj fields) =>
      keys.foldl (fun object key =>
        match Object.get? fields key with
        | some value => if passes value then Object.insert object key value else object
        | none => object) []
  | _ => []

def positiveInt : Json → Bool
  | .num (.int value) => 0 < value
  | _ => false

def filledText : Json → Bool
  | .str text => !blank text
  | _ => false

def factsFrom (raw : Object) (updatedAt : String) : SeriesFacts where
  externalIds := pickFields (raw.get? "external_ids") idKeys positiveInt
  titles := pickFields (raw.get? "titles") titleKeys filledText
  synonyms :=
    match raw.get? "synonyms" with
    | some (.arr items) => items.filter filledText
    | _ => []
  tag := (((raw.get? "tag").bind Json.asStr?).map Text.strip).filter (· ≠ "")
  unit := ((raw.get? "unit").bind Json.asStr?).filter (trackingUnits.contains ·)
  updatedAt := updatedAt

structure SeriesUpdate where
  facts : SeriesFacts
  spineOffset : Option Number
  spineOffsetPresent : Bool
  volumeOffsets : Object
  listedUuids : List String
deriving DecidableEq

/-- The whole numbers from which on `float(value)` overflows. -/
def floatOverflow : ℤ := 2 ^ 1024 - 2 ^ 970

/-- `as_offset`: a finite number that is not zero. -/
def asOffset : Option Json → Option Number
  | some (.num (.int value)) =>
      if |value| < floatOverflow ∧ value ≠ 0 then some (.int value) else none
  | some (.num (.float value)) => if value ≠ 0 then some (.float value) else none
  | _ => none

/-- One entry of `volumes`: the first that names a volume lists it, and its offset is taken. -/
def listVolume (listed : List String × Object) (entry : Json) : List String × Object :=
  match (entry.asObject?.bind (Object.get? · "volume_uuid")).bind Json.asStr? with
  | none => listed
  | some uuid =>
      if blank uuid ∨ uuid ∈ listed.1 then listed
      else
        (listed.1 ++ [uuid],
          match asOffset (entry.asObject?.bind (Object.get? · "offset")) with
          | some offset => Object.insert listed.2 uuid (.num offset)
          | none => listed.2)

def versionOk : Option Json → Bool
  | some (.num number) => number.asF64 = 1 ∨ number.asF64 = 2
  | _ => false

/-- `parse_series_update` of a body that was read as JSON. -/
def parseSeriesUpdate (payload : Json) (now : ℚ) : Option SeriesUpdate := do
  let decoded ← payload.asObject?
  if ¬ versionOk (decoded.get? "version") then none
  else
    let updatedAt ← normalizeUpdatedAt (decoded.get? "updated_at") now
    let spineOffset := asOffset (decoded.get? "spine_offset")
    let (listed, offsets) :=
      match decoded.get? "volumes" with
      | some (.arr volumes) => volumes.foldl listVolume ([], [])
      | _ => ([], [])
    some {
      facts := factsFrom decoded updatedAt
      spineOffset
      spineOffsetPresent := spineOffset.isSome
      volumeOffsets := offsets
      listedUuids := listed
    }

/-- `merge_facts`: the newest copy wins, the incoming one also when it is as new, unless it has
no facts. -/
def mergeFacts (stored : Option SeriesFacts) (incoming : SeriesFacts) : SeriesFacts :=
  match stored with
  | none => incoming
  | some stored =>
      let incomingWins :=
        if incoming.hasFacts then stored.updatedAt ≤ incoming.updatedAt
        else stored.updatedAt < incoming.updatedAt
      if incomingWins then incoming else stored

-- Equality as Python has it

/-- `JsonNum::py_eq`. -/
def Number.pyEq (left right : Number) : Bool := left.asF64 = right.asF64

mutual
/-- `JsonValue::py_eq`: `True == 1`, `1 == 1.0`, the order of fields does not matter. -/
def pyEq : Json → Json → Bool
  | .null, .null => true
  | .bool left, .bool right => left = right
  | .bool flag, .num number => Number.pyEq number (.int (if flag then 1 else 0))
  | .num number, .bool flag => Number.pyEq number (.int (if flag then 1 else 0))
  | .num left, .num right => Number.pyEq left right
  | .str left, .str right => left = right
  | .arr left, .arr right => itemsPyEq left right
  | .obj left, .obj right => left.length = right.length && fieldsPyEq left right
  | _, _ => false

def itemsPyEq : List Json → List Json → Bool
  | [], [] => true
  | left :: lefts, right :: rights => pyEq left right && itemsPyEq lefts rights
  | _, _ => false

/-- Each field has an equal one in the other object. -/
def fieldsPyEq : List (String × Json) → Object → Bool
  | [], _ => true
  | (key, value) :: rest, other =>
      (match Object.get? other key with
        | some theirs => pyEq value theirs
        | none => false)
      && fieldsPyEq rest other
end

/-- `JsonObject::py_eq`. -/
def objectPyEq (left right : Object) : Bool := pyEq (.obj left) (.obj right)

def SeriesFacts.pyEq (left right : SeriesFacts) : Bool :=
  objectPyEq left.externalIds right.externalIds && objectPyEq left.titles right.titles
    && itemsPyEq left.synonyms right.synonyms && left.tag = right.tag
    && left.unit = right.unit && left.updatedAt = right.updatedAt

structure SeriesIndexData where
  spineOffset : Option Number
  volumeOffsets : Object
deriving DecidableEq

def SeriesIndexData.pyEq (left right : SeriesIndexData) : Bool :=
  (match left.spineOffset, right.spineOffset with
    | none, none => true
    | some left, some right => Number.pyEq left right
    | _, _ => false)
  && objectPyEq left.volumeOffsets right.volumeOffsets

-- What the database holds

def u64Max : ℤ := 18446744073709551615

/-- `str::parse::<f64>` of a whole number: the nearest with 53 bits, of two the even one. -/
def nearestDouble (value : ℤ) : ℚ :=
  let unit : ℚ := 2 ^ (value.natAbs.log2 - 52)
  roundHalfEven (value / unit) * unit

/-- `py_num_to_serde` and `num_to_py`: a whole number beyond 64 bits becomes a float. -/
def heldNumber : Number → Json
  | .int value =>
      if i64Min ≤ value ∧ value ≤ u64Max then .num (.int value)
      else if |value| < floatOverflow then .num (.float (nearestDouble value))
      else .null
  | .float value => .num (.float value)

mutual
/-- `from_py` and `to_py`. -/
def held : Json → Json
  | .num number => heldNumber number
  | .arr items => .arr (heldItems items)
  | .obj fields => .obj (heldFields fields [])
  | .null => .null
  | .bool flag => .bool flag
  | .str text => .str text

def heldItems : List Json → List Json
  | [] => []
  | item :: rest => held item :: heldItems rest

/-- The fields after those that are there already. -/
def heldFields : List (String × Json) → Object → Object
  | [], object => object
  | (key, value) :: rest, object => heldFields rest (object.insert key (held value))
end

/-- `_bindable_offset` and the NUMERIC column: a whole number beyond `i64` becomes nothing, a
whole float a whole number. -/
def heldSpine : Option Number → Option Number
  | some (.int value) => if i64Min ≤ value ∧ value ≤ i64Max then some (.int value) else none
  | some (.float value) =>
      some (if value.den = 1 ∧ i64Min < value.num ∧ value.num < i64Max then .int value.num
        else .float value)
  | none => none

mutual
/-- A value of the database: whole numbers have 64 bits, no object has a key twice. -/
def isHeld : Json → Bool
  | .num (.int value) => i64Min ≤ value ∧ value ≤ u64Max
  | .arr items => itemsHeld items
  | .obj fields => fieldsHeld fields
  | _ => true

def itemsHeld : List Json → Bool
  | [] => true
  | item :: rest => isHeld item && itemsHeld rest

def fieldsHeld : List (String × Json) → Bool
  | [] => true
  | (key, value) :: rest => isHeld value && (key ∉ rest.map Prod.fst) && fieldsHeld rest
end

/-- Facts as the database has them. -/
def SeriesFacts.held (facts : SeriesFacts) : SeriesFacts where
  externalIds := heldFields facts.externalIds []
  titles := heldFields facts.titles []
  synonyms := heldItems facts.synonyms
  tag := facts.tag
  unit := facts.unit
  updatedAt := facts.updatedAt

def SeriesIndexData.held (index : SeriesIndexData) : SeriesIndexData where
  spineOffset := heldSpine index.spineOffset
  volumeOffsets := heldFields index.volumeOffsets []

-- Values the database holds are kept and equal themselves

theorem fieldsHeld_iff {fields : Object}
    : fieldsHeld fields ↔ (fields.map Prod.fst).Nodup ∧ ∀ field ∈ fields, isHeld field.2 := by
  induction fields with
  | nil => simp [fieldsHeld]
  | cons field rest ih =>
      simp only [fieldsHeld, Bool.and_eq_true, decide_eq_true_eq, ih, List.map_cons,
        List.nodup_cons, List.forall_mem_cons]
      tauto

theorem fieldsHeld_insert {object : Object} {key : String} {value : Json}
    (fields : fieldsHeld object) (sound : isHeld value)
    : fieldsHeld (object.insert key value) := by
  obtain ⟨distinct, all⟩ := fieldsHeld_iff.mp fields
  have same : object.insert key value
      = (OrderedMap.insert ⟨object, distinct⟩ key value).entries := rfl
  have nodup := (OrderedMap.insert ⟨object, distinct⟩ key value).keysNodup
  apply fieldsHeld_iff.mpr
  rw [same]
  refine ⟨nodup, ?_⟩
  intro field member
  have read := Entries.get?_of_mem nodup member
  rw [← same, Object.insert, Entries.get?_insert] at read
  split at read
  · cases read
    exact sound
  · exact all field (Entries.mem_of_get? read)

mutual
theorem isHeld_held : (value : Json) → isHeld (held value)
  | .null => rfl
  | .bool _ => rfl
  | .str _ => rfl
  | .num (.float _) => rfl
  | .num (.int value) => by
      simp only [held, heldNumber]
      split
      · rename_i fits
        simpa [isHeld] using fits
      · split <;> rfl
  | .arr items => itemsHeld_heldItems items
  | .obj fields => fieldsHeld_heldFields fields [] rfl

theorem itemsHeld_heldItems : (items : List Json) → itemsHeld (heldItems items)
  | [] => rfl
  | item :: rest => by
      simp only [heldItems, itemsHeld, isHeld_held item, itemsHeld_heldItems rest, Bool.and_self]

theorem fieldsHeld_heldFields
    : (fields : List (String × Json)) → (object : Object) → fieldsHeld object
      → fieldsHeld (heldFields fields object)
  | [], _, sound => sound
  | (key, value) :: rest, object, sound => by
      rw [heldFields]
      exact fieldsHeld_heldFields rest _ (fieldsHeld_insert sound (isHeld_held value))
end

theorem insert_fresh {object : Object} {key : String} (value : Json)
    (fresh : key ∉ object.map Prod.fst)
    : object.insert key value = object ++ [(key, value)] := by
  induction object with
  | nil => rfl
  | cons field rest ih =>
      rw [List.map_cons, List.mem_cons, not_or] at fresh
      have later := ih fresh.2
      rw [Object.insert] at later ⊢
      rw [Entries.insert, if_neg (Ne.symm fresh.1), later, List.cons_append]

theorem heldFields_eq_map {fields : List (String × Json)} {object : Object}
    (distinct : (fields.map Prod.fst).Nodup)
    (fresh : ∀ key ∈ fields.map Prod.fst, key ∉ object.map Prod.fst)
    : heldFields fields object = object ++ fields.map (fun field => (field.1, held field.2)) := by
  induction fields generalizing object with
  | nil => exact (List.append_nil object).symm
  | cons field rest ih =>
      obtain ⟨unique, restDistinct⟩ := List.nodup_cons.mp distinct
      rw [heldFields, insert_fresh _ (fresh field.1 (by simp)), ih restDistinct,
        List.append_assoc, List.singleton_append, List.map_cons]
      intro other member
      rw [List.map_append, List.mem_append, not_or]
      refine ⟨fresh other (by simp [member]), ?_⟩
      intro same
      rw [List.mem_singleton.mp same] at member
      exact unique member

mutual
theorem held_of_isHeld : (value : Json) → isHeld value → held value = value
  | .null, _ => rfl
  | .bool _, _ => rfl
  | .str _, _ => rfl
  | .num (.float _), _ => rfl
  | .num (.int value), sound => if_pos (by simpa [isHeld] using sound)
  | .arr items, sound => by rw [held, heldItems_of_itemsHeld items sound]
  | .obj fields, sound => by
      rw [held, heldFields_eq_map (fieldsHeld_iff.mp sound).1 (by simp),
        map_held_of_fieldsHeld fields sound, List.nil_append]

theorem heldItems_of_itemsHeld : (items : List Json) → itemsHeld items → heldItems items = items
  | [], _ => rfl
  | item :: rest, sound => by
      rw [itemsHeld, Bool.and_eq_true] at sound
      rw [heldItems, held_of_isHeld item sound.1, heldItems_of_itemsHeld rest sound.2]

theorem map_held_of_fieldsHeld
    : (fields : List (String × Json)) → fieldsHeld fields
      → fields.map (fun field => (field.1, held field.2)) = fields
  | [], _ => rfl
  | (key, value) :: rest, sound => by
      simp only [fieldsHeld, Bool.and_eq_true, decide_eq_true_eq] at sound
      obtain ⟨⟨valueSound, _⟩, restSound⟩ := sound
      rw [List.map_cons, held_of_isHeld value valueSound, map_held_of_fieldsHeld rest restSound]
end

theorem heldFields_of_fieldsHeld {fields : Object} (sound : fieldsHeld fields)
    : heldFields fields [] = fields := by
  rw [heldFields_eq_map (fieldsHeld_iff.mp sound).1 (by simp), map_held_of_fieldsHeld fields sound,
    List.nil_append]

mutual
theorem pyEq_refl : (value : Json) → isHeld value → pyEq value value
  | .null, _ => rfl
  | .bool _, _ => by simp [pyEq]
  | .str _, _ => by simp [pyEq]
  | .num _, _ => by simp [pyEq, Number.pyEq]
  | .arr items, sound => itemsPyEq_refl items sound
  | .obj fields, sound => by
      have distinct := (fieldsHeld_iff.mp sound).1
      simp only [pyEq, decide_true, Bool.true_and]
      exact fieldsPyEq_refl fields fields sound
        (fun field member => Entries.get?_of_mem distinct member)

theorem itemsPyEq_refl : (items : List Json) → itemsHeld items → itemsPyEq items items
  | [], _ => rfl
  | item :: rest, sound => by
      rw [itemsHeld, Bool.and_eq_true] at sound
      rw [itemsPyEq, pyEq_refl item sound.1, itemsPyEq_refl rest sound.2, Bool.and_self]

theorem fieldsPyEq_refl
    : (fields : List (String × Json)) → (other : Object) → fieldsHeld fields
      → (∀ field ∈ fields, other.get? field.1 = some field.2) → fieldsPyEq fields other
  | [], _, _, _ => rfl
  | (key, value) :: rest, other, sound, read => by
      simp only [fieldsHeld, Bool.and_eq_true, decide_eq_true_eq] at sound
      obtain ⟨⟨valueSound, _⟩, restSound⟩ := sound
      rw [fieldsPyEq, read (key, value) List.mem_cons_self]
      simp only [pyEq_refl value valueSound, Bool.true_and]
      exact fieldsPyEq_refl rest other restSound
        (fun field member => read field (List.mem_cons_of_mem _ member))
end

theorem heldSpine_heldSpine (spine : Option Number)
    : heldSpine (heldSpine spine) = heldSpine spine := by
  cases spine with
  | none => rfl
  | some number =>
      cases number with
      | int value =>
          by_cases fits : i64Min ≤ value ∧ value ≤ i64Max
          · have kept : heldSpine (some (.int value)) = some (.int value) := if_pos fits
            rw [kept, kept]
          · have cleared : heldSpine (some (.int value)) = none := if_neg fits
            rw [cleared]
            rfl
      | float value =>
          by_cases whole : value.den = 1 ∧ i64Min < value.num ∧ value.num < i64Max
          · have narrowed : heldSpine (some (.float value)) = some (.int value.num) :=
              congrArg some (if_pos whole)
            rw [narrowed]
            exact if_pos ⟨whole.2.1.le, whole.2.2.le⟩
          · have kept : heldSpine (some (.float value)) = some (.float value) :=
              congrArg some (if_neg whole)
            rw [kept, kept]

-- Rows

/-- The stamp of facts that come from nowhere. -/
def factlessUpdatedAt : String := "1970-01-01T00:00:00.000Z"

/-- A row of `series_facts`: its values are such that the database can hold them. -/
structure SeriesFactsRow where
  seriesTitle : String
  externalIds : Object
  titles : Object
  synonyms : List Json
  tag : Option String
  unit : Option String
  factsUpdatedAt : String
  spineOffset : Option Number
  volumeOffsets : Object
  updatedBy : Option String
  idsHeld : fieldsHeld externalIds
  titlesHeld : fieldsHeld titles
  synonymsHeld : itemsHeld synonyms
  offsetsHeld : fieldsHeld volumeOffsets
  spineHeld : heldSpine spineOffset = spineOffset

def factsOf (row : SeriesFactsRow) : SeriesFacts where
  externalIds := row.externalIds
  titles := row.titles
  synonyms := row.synonyms
  tag := row.tag
  unit := row.unit
  updatedAt := if row.factsUpdatedAt = "" then factlessUpdatedAt else row.factsUpdatedAt

def indexOf (row : SeriesFactsRow) : SeriesIndexData where
  spineOffset := row.spineOffset
  volumeOffsets := row.volumeOffsets

/-- `put_series_facts`. -/
def putSeriesFacts (title : String) (facts : SeriesFacts) (index : SeriesIndexData)
    (actor : Option String)
    : SeriesFactsRow where
  seriesTitle := title
  externalIds := heldFields facts.externalIds []
  titles := heldFields facts.titles []
  synonyms := heldItems facts.synonyms
  tag := facts.tag
  unit := facts.unit
  factsUpdatedAt := facts.updatedAt
  spineOffset := heldSpine index.spineOffset
  volumeOffsets := heldFields index.volumeOffsets []
  updatedBy := actor
  idsHeld := fieldsHeld_heldFields _ _ rfl
  titlesHeld := fieldsHeld_heldFields _ _ rfl
  synonymsHeld := itemsHeld_heldItems _
  offsetsHeld := fieldsHeld_heldFields _ _ rfl
  spineHeld := heldSpine_heldSpine _

-- Updates

structure StoredSeries where
  facts : SeriesFacts
  index : SeriesIndexData

structure MergeResult where
  facts : SeriesFacts
  index : SeriesIndexData
  factsChanged : Bool
  indexChanged : Bool

def MergeResult.changed (result : MergeResult) : Bool :=
  result.factsChanged || result.indexChanged

/-- One named volume: its offset is taken over, or cleared. -/
def mergeOffset (incoming : Object) (offsets : Object) (uuid : String) : Object :=
  match incoming.get? uuid with
  | some offset => offsets.insert uuid offset
  | none => offsets.remove uuid

def mergeIndex (stored : Option SeriesIndexData) (update : SeriesUpdate) : SeriesIndexData :=
  let base := stored.getD ⟨none, []⟩
  {
    spineOffset := if update.spineOffsetPresent then update.spineOffset else base.spineOffset
    volumeOffsets := update.listedUuids.foldl (mergeOffset update.volumeOffsets)
      base.volumeOffsets
  }

def mergeSeriesUpdate (stored : Option StoredSeries) (update : SeriesUpdate) : MergeResult :=
  let facts := mergeFacts (stored.map StoredSeries.facts) update.facts
  let index := mergeIndex (stored.map StoredSeries.index) update
  {
    facts
    index
    factsChanged := stored.all (fun stored => !facts.pyEq stored.facts)
    indexChanged := stored.all (fun stored => !index.pyEq stored.index)
  }

/-- An update that was accepted: its body was read, and the folder it is for was found. -/
structure AcceptedUpdate where
  update : SeriesUpdate
  resolvedTitle : String
  actor : Option String
  parsed : ∃ payload now, parseSeriesUpdate payload now = some update

/-- What `apply_series_update` does to the stored row, and whether it asks for the community
details of new ids. -/
structure UpdateOutcome where
  row : SeriesFactsRow
  result : MergeResult
  idsChanged : Bool

def storedSeries (row : SeriesFactsRow) : StoredSeries := ⟨factsOf row, indexOf row⟩

def applySeriesUpdate (row : Option SeriesFactsRow) (accepted : AcceptedUpdate)
    : UpdateOutcome :=
  let stored := row.map storedSeries
  let result := mergeSeriesUpdate stored accepted.update
  let idsAfter := result.facts.externalIds
  let put := putSeriesFacts accepted.resolvedTitle result.facts result.index accepted.actor
  {
    row :=
      match row with
      | none => put
      | some row => if result.changed then put else row
    result
    idsChanged := !idsAfter.isEmpty
      && stored.all (fun stored => !objectPyEq idsAfter stored.facts.externalIds)
  }

end MokuroBunko.Library
