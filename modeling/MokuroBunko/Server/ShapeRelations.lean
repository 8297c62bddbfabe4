import MokuroBunko.Lib.TwoRuns
import MokuroBunko.Server.Shape

/-! When two raw statuses differ only in what is an administrator's and in how machines are
named, and how related fields and names read.
-/

namespace MokuroBunko.Server

open MokuroBunko.Lib MokuroBunko.Data MokuroBunko.Sched

-- Relations of fields

/-- A renaming of machines that tells them apart; this server keeps its name. -/
structure Renaming where
  rename : String → String
  injective : Function.Injective rename
  rename_empty : rename "" = ""
  rename_local : rename LOCAL = LOCAL

theorem Renaming.rename_own (relabel : Renaming) {name : String} (own : name = "" ∨ name = LOCAL)
    : relabel.rename name = name := by
  rcases own with rfl | rfl
  · exact relabel.rename_empty
  · exact relabel.rename_local

theorem Renaming.own_of_rename (relabel : Renaming) {name : String}
    (own : relabel.rename name = "" ∨ relabel.rename name = LOCAL)
    : name = "" ∨ name = LOCAL := by
  rcases own with empty | here
  · exact .inl (relabel.injective (empty.trans relabel.rename_empty.symm))
  · exact .inr (relabel.injective (here.trans relabel.rename_local.symm))

/-- How a field of one status relates to the same field of the other. -/
abbrev FieldRelation := Option Json → Option Json → Prop

/-- How an object of one status relates to its counterpart. -/
abbrev ObjectRelation := Object → Object → Prop

/-- The objects' fields relate key by key. -/
def Agree (fields : String → FieldRelation) : ObjectRelation := fun left right =>
  ∀ key, fields key (Object.get? left key) (Object.get? right key)

def Hidden : FieldRelation := fun _ _ => True

/-- A machine's name, renamed. -/
def Renamed (relabel : Renaming) : FieldRelation := fun left right =>
  match left.bind Json.asStr? with
  | some name => right = some (.str (relabel.rename name))
  | none => right = left

/-- An object whose fields relate. -/
def Nested (object : ObjectRelation) : FieldRelation := fun left right =>
  (∃ a b, left = some (.obj a) ∧ right = some (.obj b) ∧ object a b)
  ∨ (left = right ∧ left.bind Json.asObject? = none)

/-- A list whose objects relate. -/
def Listed (object : ObjectRelation) : FieldRelation := fun left right =>
  (∃ xs ys, left = some (.arr xs) ∧ right = some (.arr ys)
    ∧ List.Forall₂ (fun x y => Nested object (some x) (some y)) xs ys)
  ∨ (left = right ∧ left.bind Json.asArray? = none)

-- Relations of the status

section Statuses

variable (texts : TextTables) (relabel : Renaming)

/-- Cards: the machine is renamed, its label hidden. -/
def CardRelated : ObjectRelation :=
  Agree fun key =>
    if key = "machine" then Renamed relabel
    else if key = "processor" then Hidden
    else Eq

/-- Rows a machine could not start: the error is hidden. -/
def CannotStartRelated : ObjectRelation :=
  Agree fun key => if key = "error" then Hidden else Eq

/-- Benchmark lines: the machine is renamed; the key and the row's name agree unless both
keys are drafts'.
-/
def BenchLineRelated : ObjectRelation := fun left right =>
  Agree (fun key =>
    if key = "processor" then Renamed relabel
    else if key = "key" ∨ key = "generation" then Hidden
    else Eq) left right
  ∧ ((Object.get? left "key" = Object.get? right "key"
      ∧ Object.get? left "generation" = Object.get? right "generation")
    ∨ (isDraft (Object.get? left "key") = true ∧ isDraft (Object.get? right "key") = true))

/-- Connected machines: renamed, with their errors and labels hidden. -/
def ConnectedRelated : ObjectRelation :=
  Agree fun key =>
    if key = "machine" then Renamed relabel
    else if key ∈ ["held_error", "label", "processor", "backend"] then Hidden
    else if key = "cannot_start" then Listed CannotStartRelated
    else if key = "configuring" then Nested (BenchLineRelated relabel)
    else Eq

/-- The hold of the queue: the machine that left last is renamed. -/
def HoldRelated : ObjectRelation :=
  Agree fun key =>
    if key = "last" then Nested (Agree fun key => if key = "name" then Renamed relabel else Eq)
    else Eq

def ReturnedRelated : ObjectRelation :=
  Agree fun key =>
    if key = "machine" then Renamed relabel
    else if key ∈ ["class", "error", "count"] then Hidden
    else Eq

/-- Waiting volumes. -/
def PendingRelated : ObjectRelation :=
  Agree fun key =>
    if key = "returned" then Nested (ReturnedRelated relabel) else Eq

/-- Failed volumes: the errors have one reason, the log file and the time are hidden. -/
def FailedRelated : ObjectRelation :=
  Agree fun key =>
    if key = "error" then fun left right =>
      failureReason texts (left.getD .null) = failureReason texts (right.getD .null)
    else if key ∈ ["log_file", "last_attempt_at"] then Hidden
    else Eq

/-- Speeds: the machines are renamed. -/
def SpeedRelated : ObjectRelation :=
  Agree fun key =>
    if key = "machines" then
      Listed (Agree fun key => if key = "machine" then Renamed relabel else Eq)
    else Eq

def StatusRelated : ObjectRelation :=
  Agree fun key =>
    if key = "current_jobs" then Listed (CardRelated relabel)
    else if key = "current" then Nested (CardRelated relabel)
    else if key = "connected_machines" then Listed (ConnectedRelated relabel)
    else if key = "processing_hold" then Nested (HoldRelated relabel)
    else if key = "paused_for_benchmark" then Nested (BenchLineRelated relabel)
    else if key = "pending_ocr" then Listed (PendingRelated relabel)
    else if key = "failed" then Listed (FailedRelated texts)
    else if key = "speed" then Listed (SpeedRelated relabel)
    else if key ∈ ["backend", "held_rows"] then Hidden
    else Eq

/-- The aliases given so far, up to the renaming. -/
structure NamesRelated (left right : PublicNames) : Prop where
  aliases : ∀ machine, right.aliases.get? (relabel.rename machine) = left.aliases.get? machine
  explicit : ∀ machine, relabel.rename machine ∈ right.explicit ↔ machine ∈ left.explicit
  count : right.count = left.count

end Statuses

variable {texts : TextTables} {relabel : Renaming}

-- Reading related fields

theorem Listed.objects {object : ObjectRelation} {left right : Option Json}
    (related : Listed object left right)
    : List.Forall₂ object (objects left) (objects right) := by
  rcases related with ⟨xs, ys, rfl, rfl, items⟩ | ⟨rfl, absent⟩
  · refine forall₂_filterMap ?_ items
    rintro x y (⟨a, b, same, same', pair⟩ | ⟨same, plain⟩)
    · cases same
      cases same'
      exact .some pair
    · cases same
      have absent : x.asObject? = none := by simpa using plain
      rw [absent]
      exact .none
  · cases left with
    | none => exact .nil
    | some value => cases value <;> first | exact .nil | simp at absent

theorem Renamed.asStr? {left right : Option Json} (related : Renamed relabel left right)
    : right.bind Json.asStr? = (left.bind Json.asStr?).map relabel.rename := by
  unfold Renamed at related
  cases name : left.bind Json.asStr? with
  | none =>
      simp only [name] at related
      simpa [related] using name
  | some text =>
      simp only [name] at related
      simp [related]

theorem asStr?_getD (value : Option Json) : (value.getD .null).asStr? = value.bind Json.asStr? := by
  cases value <;> rfl

theorem Renamed.field {left right : Object} {key : String}
    (related : Renamed relabel (Object.get? left key) (Object.get? right key))
    : (∃ name, field left key = .str name ∧ field right key = .str (relabel.rename name))
      ∨ ((field left key).asStr? = none ∧ field right key = field left key) := by
  unfold Renamed at related
  unfold Server.field
  rw [asStr?_getD]
  cases name : (Object.get? left key).bind Json.asStr? with
  | none =>
      simp only [name] at related
      exact .inr ⟨rfl, by rw [related]⟩
  | some text =>
      simp only [name] at related
      refine .inl ⟨text, ?_, by rw [related]; rfl⟩
      cases value : Object.get? left key with
      | none => simp [value] at name
      | some found =>
          cases found <;> simp_all [Json.asStr?]

theorem field_eq {left right : Object} {key : String}
    (same : Object.get? left key = Object.get? right key)
    : field left key = field right key := by
  rw [field, field, same]

theorem pick_eq {left right : Object} {keys : List String}
    (same : ∀ key ∈ keys, Object.get? left key = Object.get? right key)
    : pick left keys = pick right keys := by
  apply List.map_congr_left
  intro key member
  simp [field, same key member]

theorem namedText_renamed {left right : Object} {key : String}
    (related : Renamed relabel (Object.get? left key) (Object.get? right key))
    : namedText right key = (namedText left key).map relabel.rename := by
  unfold namedText
  rw [related.asStr?]
  cases (Object.get? left key).bind Json.asStr? with
  | none => rfl
  | some name =>
      by_cases empty : name = ""
      · simp [Option.filter_some, empty, relabel.rename_empty]
      · have named : relabel.rename name ≠ "" := by
          intro same
          exact empty (relabel.injective (same.trans relabel.rename_empty.symm))
        simp [Option.filter_some, empty, named]

-- Naming machines

/-- Two visitors' namers that give a machine and its renaming one alias. -/
def NamerRelated (relabel : Renaming) (left right : Namer) : Prop :=
  ∃ names others, left = .visitor names ∧ right = .visitor others
    ∧ NamesRelated relabel names others

/-- A step's results agree and leave the namers related. -/
def StepRelated {β : Type} (relabel : Renaming) (left right : β × Namer) : Prop :=
  left.1 = right.1 ∧ NamerRelated relabel left.2 right.2

theorem NamesRelated.assign {names others : PublicNames}
    (related : NamesRelated relabel names others) {machine : String}
    (fresh : names.aliases.get? machine = none)
    : (names.assign machine none).1 = (others.assign (relabel.rename machine) none).1
      ∧ NamesRelated relabel (names.assign machine none).2
          (others.assign (relabel.rename machine) none).2 := by
  have freshToo : others.aliases.get? (relabel.rename machine) = none := by
    rw [related.aliases, fresh]
  simp only [PublicNames.assign, Option.filter_none, OrderedMap.contains, fresh, freshToo,
    Option.isSome_none, Bool.not_false, Bool.true_or, if_true, related.count,
    OrderedMap.get?_insert, Option.getD_some, true_and]
  refine ⟨?_, ?_, rfl⟩
  · intro other
    by_cases same : other = machine
    · simp [same]
    · have apart : relabel.rename other ≠ relabel.rename machine :=
        fun h => same (relabel.injective h)
      simp [same, apart, related.aliases]
  · intro other
    simp only [Finset.mem_erase, related.explicit]
    exact and_congr_left' (not_congr relabel.injective.eq_iff)

theorem NamerRelated.name {left right : Namer} (related : NamerRelated relabel left right)
    {machine other : Json}
    (renamed : other.asStr? = machine.asStr?.map relabel.rename)
    : StepRelated relabel (left.name machine) (right.name other) := by
  obtain ⟨names, others, rfl, rfl, aliases⟩ := related
  unfold Namer.name
  dsimp only
  cases text : machine.asStr? with
  | none =>
      rw [text] at renamed
      simp only [renamed, Option.map_none]
      exact ⟨rfl, names, others, rfl, rfl, aliases⟩
  | some name =>
      rw [text] at renamed
      simp only [renamed, Option.map_some, PublicNames.name]
      by_cases own : name = "" ∨ name = LOCAL
      · simp only [relabel.rename_own own, own, if_true]
        exact ⟨rfl, names, others, rfl, rfl, aliases⟩
      · have ownNot : ¬ (relabel.rename name = "" ∨ relabel.rename name = LOCAL) :=
          fun h => own (relabel.own_of_rename h)
        simp only [own, ownNot, if_false, aliases.aliases]
        cases given : names.aliases.get? name with
        | some chosen => exact ⟨rfl, names, others, rfl, rfl, aliases⟩
        | none =>
            obtain ⟨same, assigned⟩ := aliases.assign given
            exact ⟨same, _, _, rfl, rfl, assigned⟩

theorem mapNamed_related {α γ β : Type} {rel : α → γ → Prop} {left : α → Namer → β × Namer}
    {right : γ → Namer → β × Namer}
    (step : ∀ x y namer other, rel x y → NamerRelated relabel namer other →
      StepRelated relabel (left x namer) (right y other))
    {xs : List α} {ys : List γ} (items : List.Forall₂ rel xs ys) {namer other : Namer}
    (related : NamerRelated relabel namer other)
    : StepRelated relabel (Namer.mapNamed left xs namer) (Namer.mapNamed right ys other) := by
  induction items generalizing namer other with
  | nil => exact ⟨rfl, related⟩
  | cons head _ ih =>
      obtain ⟨same, next⟩ := step _ _ _ _ head related
      obtain ⟨others, last⟩ := ih next
      exact ⟨by simp only [Namer.mapNamed, same, others], last⟩

end MokuroBunko.Server
