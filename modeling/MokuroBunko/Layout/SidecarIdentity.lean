import MokuroBunko.Library.JsonRoundTrip

/-! Writing a volume's identity into its sidecar (`sidecar.rs`): the sidecar's other members are what
they were.
-/

namespace MokuroBunko.Layout

open MokuroBunko.Lib MokuroBunko.Lib.Json

variable {M : Type} [FloatText M]

-- Normalization

/-- The stamp of a sidecar that is not of the primary row. -/
structure LayerStamp where
  engine : String
  generator : String
  generation : String

structure Normalization where
  seriesName : String
  volume : String
  volumeUuid : String
  stamp : Option LayerStamp

namespace Json

def get (key : String) : Value M → Option (Value M)
  | .object fields => Entries.get? key fields
  | _ => none

def set (key : String) (value : Value M) : Value M → Value M
  | .object fields => .object (Entries.insert key value fields)
  | other => other

def setDefault (key : String) (value : Value M) (data : Value M) : Value M :=
  if (get key data).isNone then set key value data else data

def isObject : Value M → Bool
  | .object _ => true
  | _ => false

end Json

open Json

/-- The stamped `ocr_engine`, of the one there is if it is an object. -/
def stampEngine (stamp : LayerStamp) (data : Value M) : Value M :=
  let stamped := match get "ocr_engine" data with
    | some (.object fields) => .object fields
    | _ => .object []
  let stamped := setDefault "id" (.str stamp.engine) stamped
  let stamped := setDefault "generator" (.str stamp.generator) stamped
  let stamped := set "generation" (.str stamp.generation) stamped
  set "ocr_engine" stamped data

/-- `normalize_sidecar`: nothing for a root that is no object. `titleUuid` is the name's UUID. -/
def normalizeSidecar (titleUuid : String → String) (norm : Normalization) (data : Value M)
    : Option (Value M) :=
  if ! isObject data then none
  else
    let data := set "title" (.str norm.seriesName) data
    let data := set "volume" (.str norm.volume) data
    let data := set "title_uuid" (.str (titleUuid norm.seriesName)) data
    let data := set "volume_uuid" (.str norm.volumeUuid) data
    match norm.stamp with
    | some stamp => some (stampEngine stamp data)
    | none => some data

/-- `normalize_sidecar_file`: what is written, if anything is. -/
def normalizeSidecarFile (titleUuid : String → String) (norm : Normalization) (text : String)
    : Except Json.ParseError (Option String) := do
  let data ← Json.parse (M := M) text
  return (normalizeSidecar titleUuid norm data).map (fun data => dumps data .compact)

-- What is written is read back

/-- A value that the writer's text gives back. -/
abbrev Readable (value : Value M) : Prop := (printer (M := M) .compact).Readable value

theorem readable_signed (inverse : FloatText.Inverse M) (negative : Bool)
    (magnitude : Magnitude M)
    : Readable (.num (.float (.signed negative magnitude))) :=
  numberText_reads inverse (.float (.signed negative magnitude)) trivial

theorem readable_numeral (inverse : FloatText.Inverse M) {numeral : Numeral}
    (wellFormed : numeral.WellFormed)
    : Readable (.num (M := M) numeral.value) := by
  have reads (rest : List Char)
      : Reads (M := M) .plain (.value (.num numeral.value)) (numeral.text ++ rest) rest :=
    .number wellFormed
  simp only [Numeral.value] at reads ⊢
  split
  case isTrue => exact readable_signed inverse numeral.negative _
  case isFalse whole =>
    simp only [if_neg whole] at reads
    cases wide : numeral.parseI64 with
    | some value => exact reads_int value
    | none =>
        intro rest
        have read := reads rest
        rw [wide] at read
        simpa [printer, numberText] using read

theorem readable_word (inverse : FloatText.Inverse M) {name : List Char} {value : Value M}
    (listed : (name, value) ∈ words)
    : Readable value := by
  simp only [words, List.mem_cons, Prod.mk.injEq, List.not_mem_nil, or_false] at listed
  rcases listed with ⟨-, rfl⟩ | ⟨-, rfl⟩ | ⟨-, rfl⟩ | ⟨-, rfl⟩ | ⟨-, rfl⟩ | ⟨-, rfl⟩
  · trivial
  · trivial
  · trivial
  · exact fun rest => Reads.word (List.mem_of_getElem? (i := 3) rfl)
  · exact readable_signed inverse false .infinite
  · exact readable_signed inverse true .infinite

theorem readableFields_iff {printer : Printer M} {fields : List (String × Value M)}
    : printer.ReadableFields fields ↔ ∀ field ∈ fields, printer.Readable field.2 := by
  induction fields with
  | nil => simp [Printer.ReadableFields]
  | cons field rest ih => simp [Printer.ReadableFields, ih]

theorem readableItems_iff {printer : Printer M} {items : List (Value M)}
    : printer.ReadableItems items ↔ ∀ item ∈ items, printer.Readable item := by
  induction items with
  | nil => simp [Printer.ReadableItems]
  | cons item rest ih => simp [Printer.ReadableItems, ih]

theorem readable_insert {printer : Printer M} {fields : List (String × Value M)}
    {key : String} {value : Value M} (readable : printer.Readable (.object fields))
    (new : printer.Readable value)
    : printer.Readable (.object (Entries.insert key value fields)) := by
  obtain ⟨nodup, all⟩ := readable
  rw [readableFields_iff] at all
  have distinct : ((Entries.insert key value fields).map Prod.fst).Nodup := by
    rw [Entries.keys_insert]
    split
    case isTrue => exact nodup
    case isFalse fresh =>
      rw [← List.concat_eq_append]
      exact nodup.concat fresh
  refine ⟨distinct, readableFields_iff.mpr fun field isIn => ?_⟩
  have found := Entries.get?_of_mem distinct isIn
  rw [Entries.get?_insert] at found
  split at found
  case isTrue =>
    rw [← Option.some.inj found]
    exact new
  case isFalse => exact all _ (Entries.mem_of_get? found)

theorem readable_objectOf {printer : Printer M} {members fields : List (String × Value M)}
    (all : ∀ member ∈ members, printer.Readable member.2)
    (readable : printer.Readable (.object fields))
    : printer.Readable (.object (objectOf fields members)) := by
  induction members generalizing fields with
  | nil => exact readable
  | cons member rest ih =>
      rw [List.forall_mem_cons] at all
      exact ih all.2 (readable_insert readable all.1)

def ReadablePiece : Piece M → Prop
  | .value value => Readable value
  | .items values => ∀ value ∈ values, Readable value
  | .members members => ∀ member ∈ members, Readable member.2

theorem readable_of_reads (inverse : FloatText.Inverse M) {marks : Marks} {piece : Piece M}
    {text rest : List Char} (reads : Reads marks piece text rest)
    : ReadablePiece piece := by
  induction reads with
  | word listed => exact readable_word inverse listed
  | number wellFormed => exact readable_numeral inverse wellFormed
  | string content => trivial
  | emptyArray close => trivial
  | array gap items ih => exact readableItems_iff.mpr ih
  | emptyObject close => exact ⟨List.nodup_nil, trivial⟩
  | object gap fields ih => exact readable_objectOf ih ⟨List.nodup_nil, trivial⟩
  | lastItem item close ih => exact List.forall_mem_singleton.mpr ih
  | nextItem item comma gap items first later => exact List.forall_mem_cons.mpr ⟨first, later⟩
  | lastMember content colon gap field close ih => exact List.forall_mem_singleton.mpr ih
  | nextMember content colon gap field comma gap' fields first later =>
      exact List.forall_mem_cons.mpr ⟨first, later⟩

theorem readable_of_parse (inverse : FloatText.Inverse M) {text : String} {value : Value M}
    (parsed : Json.parse text = .ok value)
    : Readable value := by
  obtain ⟨marks, ⟨inner, after, -, reads, -⟩, -⟩ := parse_iff.mp parsed
  exact readable_of_reads inverse reads

theorem parse_dumps (inverse : FloatText.Inverse M) {value : Value M} (readable : Readable value)
    : Json.parse (dumps value .compact) = .ok value := by
  have reads := Printer.text_reads (printer_sound inverse .compact) value readable []
  rw [List.append_nil, ← writeTo_eq] at reads
  rw [parse_iff, dumps, String.toList_ofList]
  exact ⟨_, ⟨_, [], .done, reads, .done⟩, rfl⟩

-- What is kept

/-- The members are set, at the end those that were missing, and the others are as they were. -/
structure Rewritten (members before after : List (String × Value M)) : Prop where
  keys
    : after.map Prod.fst
      = before.map Prod.fst
        ++ (members.map Prod.fst).filter (fun key => key ∉ before.map Prod.fst)
  given : ∀ member ∈ members, Entries.get? member.1 after = some member.2
  others
    : ∀ key, key ∉ members.map Prod.fst → Entries.get? key after = Entries.get? key before

def setAll (members fields : List (String × Value M)) : List (String × Value M) :=
  members.foldl (fun fields member => Entries.insert member.1 member.2 fields) fields

omit [FloatText M] in
theorem rewritten_setAll {members : List (String × Value M)}
    (nodup : (members.map Prod.fst).Nodup) (before : List (String × Value M))
    : Rewritten members before (setAll members before) := by
  induction members using List.reverseRecOn with
  | nil => exact ⟨by simp [setAll], by simp, fun _ _ => rfl⟩
  | append_singleton members member ih =>
      rw [List.map_append, List.nodup_append] at nodup
      have rewritten := ih nodup.1
      have apart : member.1 ∉ members.map Prod.fst := by
        intro isIn
        exact nodup.2.2 _ isIn _ (by simp) rfl
      have step : setAll (members ++ [member]) before
          = Entries.insert member.1 member.2 (setAll members before) := by
        rw [setAll, List.foldl_append]
        rfl
      refine ⟨?_, ?_, ?_⟩
      · rw [step, Entries.keys_insert, rewritten.keys, List.map_append, List.filter_append]
        by_cases old : member.1 ∈ before.map Prod.fst
        · simp [old]
        · have fresh : member.1 ∉ before.map Prod.fst
              ++ (members.map Prod.fst).filter (fun key => key ∉ before.map Prod.fst) := by
            rw [List.mem_append, not_or]
            exact ⟨old, fun isIn => apart (List.mem_of_mem_filter isIn)⟩
          rw [if_neg fresh]
          simp [old]
      · intro other isOther
        rw [step, Entries.get?_insert]
        rcases List.mem_append.mp isOther with earlier | last
        · have different : other.1 ≠ member.1 := by
            intro same
            exact apart (same ▸ List.mem_map_of_mem earlier)
          rw [if_neg different]
          exact rewritten.given other earlier
        · rw [List.mem_singleton.mp last, if_pos rfl]
      · intro key unset
        rw [List.map_append, List.mem_append, not_or] at unset
        have different : key ≠ member.1 := fun same => unset.2 (by simp [same])
        rw [step, Entries.get?_insert, if_neg different]
        exact rewritten.others key unset.1

omit [FloatText M] in
theorem insert_same {key : String} {value : Value M} {fields : List (String × Value M)}
    (found : Entries.get? key fields = some value)
    : Entries.insert key value fields = fields := by
  induction fields with
  | nil => cases found
  | cons field rest ih =>
      obtain ⟨name, old⟩ := field
      rw [Entries.get?_cons] at found
      rw [Entries.insert]
      split at found
      case isTrue same =>
        cases found
        rw [if_pos same]
      case isFalse apart =>
        rw [if_neg apart, ih found]

omit [FloatText M] in
theorem setAll_same {members fields : List (String × Value M)}
    (given : ∀ member ∈ members, Entries.get? member.1 fields = some member.2)
    : setAll members fields = fields := by
  induction members with
  | nil => rfl
  | cons member rest ih =>
      rw [List.forall_mem_cons] at given
      rw [setAll, List.foldl_cons, insert_same given.1]
      exact ih given.2

-- Identity

def identity (titleUuid : String → String) (norm : Normalization) : List (String × Value M) :=
  [
    ("title", .str norm.seriesName),
    ("volume", .str norm.volume),
    ("title_uuid", .str (titleUuid norm.seriesName)),
    ("volume_uuid", .str norm.volumeUuid)
  ]

/-- The members of the `ocr_engine` there is. One that is no object has none. -/
def engineFields (fields : List (String × Value M)) : List (String × Value M) :=
  match Entries.get? "ocr_engine" fields with
  | some (.object engine) => engine
  | _ => []

/-- The members that are stamped: the engine and the generator only where there are none. -/
def stampMembers (stamp : LayerStamp) (engine : List (String × Value M))
    : List (String × Value M) :=
  [("id", .str stamp.engine), ("generator", .str stamp.generator)].filter
      (fun member => (Entries.get? member.1 engine).isNone)
    ++ [("generation", .str stamp.generation)]

/-- The members that are written into a sidecar. -/
def writtenMembers (titleUuid : String → String) (norm : Normalization)
    (before : List (String × Value M)) : List (String × Value M) :=
  identity titleUuid norm
    ++ (norm.stamp.map (fun stamp =>
      ("ocr_engine", .object (setAll (stampMembers stamp (engineFields before))
        (engineFields before))))).toList

omit [FloatText M] in
theorem stampEngine_object (stamp : LayerStamp) (fields : List (String × Value M))
    : stampEngine stamp (.object fields)
      = .object (Entries.insert "ocr_engine"
        (.object (setAll (stampMembers stamp (engineFields fields)) (engineFields fields)))
          fields) := by
  have start : (match get "ocr_engine" (.object fields) with
      | some (.object fields) => .object fields
      | _ => .object []) = Value.object (engineFields fields) := by
    simp only [Json.get, engineFields]
    cases Entries.get? "ocr_engine" fields with
    | none => rfl
    | some value => cases value <;> rfl
  simp only [stampEngine, start, Json.set]
  generalize engineFields fields = engine
  have others (value : Value M)
      : Entries.get? "generator" (Entries.insert "id" value engine)
        = Entries.get? "generator" engine := by
    rw [Entries.get?_insert, if_neg (by decide)]
  by_cases noId : (Entries.get? "id" engine).isNone
  · by_cases noGenerator : (Entries.get? "generator" engine).isNone
    · simp [setDefault, Json.get, Json.set, noId, others, noGenerator, stampMembers, setAll]
    · simp [setDefault, Json.get, Json.set, noId, others, noGenerator, stampMembers, setAll]
  · by_cases noGenerator : (Entries.get? "generator" engine).isNone
    · simp [setDefault, Json.get, Json.set, noId, noGenerator, stampMembers, setAll]
    · simp [setDefault, Json.get, noId, noGenerator, stampMembers, setAll]

omit [FloatText M] in
theorem normalizeSidecar_object (titleUuid : String → String) (norm : Normalization)
    (before : List (String × Value M))
    : normalizeSidecar titleUuid norm (.object before)
      = some (.object (setAll (writtenMembers titleUuid norm before) before)) := by
  cases isStamp : norm.stamp with
  | none =>
      simp only [normalizeSidecar, writtenMembers, isStamp]
      rfl
  | some stamp =>
      simp only [normalizeSidecar, writtenMembers, isStamp, Json.set, stampEngine_object]
      have same : engineFields (Entries.insert "volume_uuid" (Value.str norm.volumeUuid)
          (Entries.insert "title_uuid" (Value.str (titleUuid norm.seriesName))
            (Entries.insert "volume" (Value.str norm.volume)
              (Entries.insert "title" (Value.str norm.seriesName) before))))
          = engineFields before := by
        simp [engineFields]
      rw [same]
      rfl

omit [FloatText M] in
theorem stampMembers_nodup (stamp : LayerStamp) (engine : List (String × Value M))
    : ((stampMembers stamp engine).map Prod.fst).Nodup := by
  by_cases noId : (Entries.get? "id" engine).isNone
  · by_cases noGenerator : (Entries.get? "generator" engine).isNone
    · simp [stampMembers, noId, noGenerator]
    · simp [stampMembers, noId, noGenerator]
  · by_cases noGenerator : (Entries.get? "generator" engine).isNone
    · simp [stampMembers, noId, noGenerator]
    · simp [stampMembers, noId, noGenerator]

omit [FloatText M] in
theorem setAll_stamped (stamp : LayerStamp) (engine : List (String × Value M))
    : setAll (stampMembers stamp (setAll (stampMembers stamp engine) engine))
        (setAll (stampMembers stamp engine) engine)
      = setAll (stampMembers stamp engine) engine := by
  have rewritten := rewritten_setAll (stampMembers_nodup stamp engine) engine
  generalize setAll (stampMembers stamp engine) engine = stamped at rewritten
  apply setAll_same
  intro member isIn
  rcases List.mem_append.mp isIn with missing | generation
  · -- a missing engine or generator was set
    obtain ⟨listed, isNone⟩ := List.mem_filter.mp missing
    rw [Option.isNone_iff_eq_none] at isNone
    have unset : member.1 ∉ (stampMembers stamp engine).map Prod.fst := by
      intro isSet
      obtain ⟨other, isOther, same⟩ := List.mem_map.mp isSet
      have given := rewritten.given other isOther
      rw [same, isNone] at given
      cases given
    have before := rewritten.others member.1 unset
    rw [isNone] at before
    have set : member ∈ stampMembers stamp engine :=
      List.mem_append_left _ (List.mem_filter.mpr ⟨listed, by rw [← before]; rfl⟩)
    exact absurd (List.mem_map_of_mem set) unset
  · exact rewritten.given member (List.mem_append_right _ generation)

omit [FloatText M] in
theorem writtenMembers_nodup (titleUuid : String → String) (norm : Normalization)
    (before : List (String × Value M))
    : ((writtenMembers titleUuid norm before).map Prod.fst).Nodup := by
  cases isStamp : norm.stamp with
  | none => simp [writtenMembers, identity, isStamp]
  | some stamp => simp [writtenMembers, identity, isStamp]

/-- The sidecar has its identity, and all else is as it was. -/
structure Identified (titleUuid : String → String) (norm : Normalization)
    (before after : List (String × Value M)) : Prop where
  unstamped : norm.stamp = none → Rewritten (identity titleUuid norm) before after
  stamped
    : ∀ stamp ∈ norm.stamp, ∃ engine,
        Rewritten (identity titleUuid norm ++ [("ocr_engine", .object engine)]) before after
          ∧ Rewritten (stampMembers stamp (engineFields before)) (engineFields before) engine

omit [FloatText M] in
theorem identified_written (titleUuid : String → String) (norm : Normalization)
    (before : List (String × Value M))
    : Identified titleUuid norm before (setAll (writtenMembers titleUuid norm before) before) := by
  have rewritten := rewritten_setAll (writtenMembers_nodup titleUuid norm before) before
  constructor
  · intro unstamped
    simpa [writtenMembers, unstamped] using rewritten
  · intro stamp isStamp
    refine ⟨_, ?_, rewritten_setAll (stampMembers_nodup stamp _) _⟩
    rw [Option.mem_def] at isStamp
    simpa [writtenMembers, isStamp] using rewritten

omit [FloatText M] in
theorem setAll_written (titleUuid : String → String) (norm : Normalization)
    (before : List (String × Value M))
    : setAll (writtenMembers titleUuid norm (setAll (writtenMembers titleUuid norm before) before))
        (setAll (writtenMembers titleUuid norm before) before)
      = setAll (writtenMembers titleUuid norm before) before := by
  have rewritten := rewritten_setAll (writtenMembers_nodup titleUuid norm before) before
  generalize written : setAll (writtenMembers titleUuid norm before) before = after
    at rewritten
  apply setAll_same
  intro member isIn
  rcases List.mem_append.mp isIn with isIdentity | isEngine
  · exact rewritten.given member (List.mem_append_left _ isIdentity)
  · obtain ⟨stamp, isStamp, rfl⟩ := Option.map_eq_some_iff.mp (Option.mem_toList.mp isEngine)
    have given := rewritten.given ("ocr_engine", .object (setAll (stampMembers stamp
      (engineFields before)) (engineFields before)))
        (List.mem_append_right _ (by simp [isStamp]))
    have engine : engineFields after
        = setAll (stampMembers stamp (engineFields before)) (engineFields before) := by
      rw [engineFields, given]
    rw [engine, setAll_stamped]
    exact given

theorem readable_written (titleUuid : String → String) (norm : Normalization)
    {before : List (String × Value M)} (readable : Readable (.object before))
    : Readable (.object (setAll (writtenMembers titleUuid norm before) before)) := by
  have engine : Readable (.object (engineFields before)) := by
    rw [engineFields]
    split
    case h_1 engine found =>
      exact readableFields_iff.mp readable.2 _ (Entries.mem_of_get? found)
    case h_2 => exact ⟨List.nodup_nil, trivial⟩
  apply readable_objectOf _ readable
  intro member isIn
  rcases List.mem_append.mp isIn with isIdentity | isEngine
  · simp only [identity, List.mem_cons, List.not_mem_nil, or_false] at isIdentity
    rcases isIdentity with rfl | rfl | rfl | rfl
    all_goals trivial
  · obtain ⟨stamp, -, rfl⟩ := Option.map_eq_some_iff.mp (Option.mem_toList.mp isEngine)
    apply readable_objectOf _ engine
    intro member isStamped
    rcases List.mem_append.mp isStamped with missing | generation
    · have listed := List.mem_of_mem_filter missing
      simp only [List.mem_cons, List.not_mem_nil, or_false] at listed
      rcases listed with rfl | rfl
      all_goals trivial
    · rw [List.mem_singleton.mp generation]
      trivial

theorem normalizeSidecarFile_object (titleUuid : String → String) (norm : Normalization)
    {text : String} {fields : List (String × Value M)}
    (parsed : Json.parse text = .ok (.object fields))
    : normalizeSidecarFile (M := M) titleUuid norm text
      = .ok (some (dumps (.object (setAll (writtenMembers titleUuid norm fields) fields))
        .compact)) := by
  rw [normalizeSidecarFile, parsed]
  simp only [bind, Except.bind, pure, Except.pure, normalizeSidecar_object, Option.map_some]

/-- Of a sidecar that is an object, what is written is read back as the sidecar with its identity, and
is written again as it is.
-/
theorem normalize_sidecar_identity (inverse : FloatText.Inverse M) (titleUuid : String → String)
    (norm : Normalization) {text : String} {before : List (String × Value M)}
    (parsed : Json.parse text = .ok (.object before))
    : ∃ written after, normalizeSidecarFile (M := M) titleUuid norm text = .ok (some written)
      ∧ Json.parse written = .ok (.object after)
      ∧ Identified titleUuid norm before after
      ∧ normalizeSidecarFile (M := M) titleUuid norm written = .ok (some written) := by
  have readable := readable_written titleUuid norm (readable_of_parse inverse parsed)
  have reread := parse_dumps inverse readable
  refine ⟨_, _, normalizeSidecarFile_object titleUuid norm parsed, reread,
    identified_written titleUuid norm before, ?_⟩
  rw [normalizeSidecarFile_object titleUuid norm reread, setAll_written]

-- An engine that is no object

/-- The value is as it was, but for the stamped members if it is an object. -/
def StampedOnly (old new : Value M) : Prop :=
  old = new ∨ ∃ before after, old = .object before ∧ new = .object after
    ∧ ∀ key ∉ ["id", "generator", "generation"],
      Entries.get? key after = Entries.get? key before

/-- The identity of a volume of a layer. -/
def layerIdentity : Normalization where
  seriesName := "S"
  volume := "v01"
  volumeUuid := "3d0b1f0e-6f3c-5b5e-9d0c-2f1a7f3f7a11"
  stamp := some ⟨"manga-ocr", "mokuro-bunko 1.0", "alt"⟩

/-- The UUID of the series `S`. -/
def seriesUuid (_ : String) : String := "a0667493-411b-5102-9175-f002478dcdca"

def numberedEngine : List (String × Value Unit) :=
  [("ocr_engine", .num (.int ⟨5, by decide⟩))]

theorem dumps_numberedEngine
    : @dumps Unit Library.JsonAgreement.halves (.object numberedEngine) .compact
      = "\x7b\"ocr_engine\":5\x7d" := by
  decide +kernel

theorem readable_numberedEngine
    : @Readable Unit Library.JsonAgreement.halves (.object numberedEngine) := by
  let _ := Library.JsonAgreement.halves
  exact ⟨by decide, fun rest => reads_int _ rest, trivial⟩

/-- The number gives way to an object. -/
theorem not_stampedOnly_numberedEngine
    : let _ := Library.JsonAgreement.halves
      ¬ ∀ (text written : String) (before after : List (String × Value Unit)),
        Json.parse text = .ok (.object before)
          → normalizeSidecarFile (M := Unit) seriesUuid layerIdentity text = .ok (some written)
          → Json.parse written = .ok (.object after)
          → ∀ old ∈ Entries.get? "ocr_engine" before,
            ∃ new ∈ Entries.get? "ocr_engine" after, StampedOnly old new := by
  intro floats kept
  have inverse := Library.JsonRoundTrip.halves_inverse
  have readable := readable_numberedEngine
  have parsed := parse_dumps inverse readable
  have written := normalizeSidecarFile_object seriesUuid layerIdentity parsed
  have reread := parse_dumps inverse (readable_written seriesUuid layerIdentity readable)
  obtain ⟨new, isNew, same⟩ := kept _ _ _ _ parsed written reread (.num (.int ⟨5, by decide⟩)) rfl
  have isObject
      : Entries.get? "ocr_engine"
          (setAll (writtenMembers seriesUuid layerIdentity numberedEngine) numberedEngine)
        = some (.object (setAll
          (stampMembers ⟨"manga-ocr", "mokuro-bunko 1.0", "alt"⟩ []) [])) := rfl
  rw [Option.mem_def, isObject] at isNew
  cases isNew
  rcases same with same | ⟨before, after, isOld, -⟩
  · cases same
  · cases isOld

/-- The sidecar gets its identity and an engine, and keeps both when it is written again. -/
theorem normalize_sidecar_identity_numberedEngine
    : let _ := Library.JsonAgreement.halves
      ∃ written after,
        normalizeSidecarFile (M := Unit) seriesUuid layerIdentity "\x7b\"ocr_engine\":5\x7d"
          = .ok (some written)
        ∧ Json.parse written = .ok (.object after)
        ∧ Identified seriesUuid layerIdentity numberedEngine after
        ∧ normalizeSidecarFile (M := Unit) seriesUuid layerIdentity written = .ok (some written) := by
  intro floats
  have parsed := parse_dumps Library.JsonRoundTrip.halves_inverse readable_numberedEngine
  rw [dumps_numberedEngine] at parsed
  exact normalize_sidecar_identity Library.JsonRoundTrip.halves_inverse seriesUuid layerIdentity parsed

end MokuroBunko.Layout
