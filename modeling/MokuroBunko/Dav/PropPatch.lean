import MokuroBunko.Lib.OrderedMap
import Mathlib.Data.Set.Lattice
import Mathlib.Logic.Function.Basic

/-! Dead properties and PROPPATCH (`DeadProps` of `propfind.rs`, `proppatch` of `methods/lock.rs`): a
dry run decides on the whole request, then its instructions are carried out one by one.
-/

namespace MokuroBunko.Dav.PropPatch

open MokuroBunko.Lib

-- The store

/-- `xml::Element`. -/
inductive Element where
  | mk (ns : Option String) (localName : String) (children : List Element) (text : String)

namespace Element

def ns : Element → Option String
  | mk ns _ _ _ => ns

def localName : Element → String
  | mk _ localName _ _ => localName

def children : Element → List Element
  | mk _ _ children _ => children

/-- A property's namespace and local name. -/
abbrev Name := Option String × String

def name (element : Element) : Name := (element.ns, element.localName)

/-- `DAV_NS`. -/
def davNs : String := "DAV:"

/-- `is_dav`. -/
def isDav (element : Element) (localName : String) : Bool :=
  element.ns == some davNs && element.localName == localName

end Element

open Element (Name)

/-- `DeadProps`: the properties of each resource that has some, under its key. -/
structure DeadProps where
  map : OrderedMap String (List Element)

/-- `MAX_DEAD_RESOURCES`. -/
def maxDeadResources : ℕ := 10000

/-- `MAX_DEAD_PER_RESOURCE`. -/
def maxDeadPerResource : ℕ := 64

namespace DeadProps

def get (dead : DeadProps) (key : String) (name : Name) : Option Element :=
  (dead.map.get? key).bind (·.find? (·.name == name))

/-- `set`: one property is set, or removed where there is no value, and whether there was room. -/
def set (dead : DeadProps) (key : String) (name : Name) (value : Option Element)
    : DeadProps × Bool :=
  if value.isSome && !dead.map.contains key && maxDeadResources ≤ dead.map.entries.length then
    (dead, false)
  else
    let list := ((dead.map.get? key).getD []).filter (·.name != name)
    match value with
    | some value =>
        if maxDeadPerResource ≤ list.length then (⟨dead.map.insert key list⟩, false)
        else (⟨dead.map.insert key (list ++ [value])⟩, true)
    | none =>
        if list.isEmpty then (⟨dead.map.erase key⟩, true)
        else (⟨dead.map.insert key list⟩, true)

def canHold (dead : DeadProps) (key : String) : Bool :=
  dead.map.contains key || dead.map.entries.length < maxDeadResources

end DeadProps

-- The request

/-- An instruction: the property's element, and whether it is set. -/
structure Update where
  element : Element
  isSet : Bool

namespace Update

def name (update : Update) : Name := update.element.name

def value (update : Update) : Option Element := if update.isSet then some update.element else none

end Update

/-- A request refused as a whole. -/
structure Refusal where
  status : ℕ
  message : Option String
  deriving DecidableEq

/-- The properties of one `prop` of an instruction. -/
def readProp (isSet : Bool) : List Element → Except Refusal (List Update)
  | [] => .ok []
  | element :: rest =>
      if !isSet && !element.children.isEmpty then
        .error ⟨400, some "prop element must be empty for 'remove'."⟩
      else return ⟨element, isSet⟩ :: (← readProp isSet rest)

/-- The children of a `set` or a `remove`. -/
def readProps (isSet : Bool) : List Element → Except Refusal (List Update)
  | [] => .ok []
  | prop :: rest =>
      if !prop.isDav "prop" then .error ⟨400, some "Unknown tag (expected 'prop')."⟩
      else return (← readProp isSet prop.children) ++ (← readProps isSet rest)

/-- The children of the root. -/
def readOps : List Element → Except Refusal (List Update)
  | [] => .ok []
  | op :: rest =>
      if op.isDav "set" then return (← readProps true op.children) ++ (← readOps rest)
      else if op.isDav "remove" then return (← readProps false op.children) ++ (← readOps rest)
      else .error ⟨400, some "Unknown tag (expected 'set' or 'remove')."⟩

/-- The instructions of a body in document order; none stands for one that is no XML. -/
def readUpdates : Option Element → Except Refusal (List Update)
  | none => .error ⟨400, none⟩
  | some root =>
      if !root.isDav "propertyupdate" then .error ⟨400, none⟩
      else readOps root.children

/-- What the dry run says of an instruction. -/
def verdict (dead : DeadProps) (key : String) (update : Update) : Option ℕ :=
  if update.element.ns == some Element.davNs then some 403
  else if update.isSet && !dead.canHold key then some 507
  else none

/-- The loop over the instructions: the store that they leave, and the status of each. -/
def carryOut (key : String) (failed : Bool) (dead : DeadProps)
    : List (Update × Option ℕ) → DeadProps × List ℕ
  | [] => (dead, [])
  | (update, verdict) :: rest =>
      match verdict with
      | some status =>
          let others := carryOut key failed dead rest
          (others.1, status :: others.2)
      | none =>
          if failed then
            let others := carryOut key failed dead rest
            (others.1, 424 :: others.2)
          else
            let taken := dead.set key update.name update.value
            let others := carryOut key failed taken.1 rest
            (others.1, (if taken.2 then 200 else 507) :: others.2)

/-- The properties by status, each status where it first occurs. -/
def group (groups : List (ℕ × List Name)) (answer : ℕ × Name) : List (ℕ × List Name) :=
  if groups.any (·.1 == answer.1) then
    groups.map fun entry => if entry.1 = answer.1 then (entry.1, entry.2 ++ [answer.2]) else entry
  else groups ++ [(answer.1, [answer.2])]

/-- What a request leaves and answers. -/
structure Outcome where
  store : DeadProps
  answer : Except Refusal (List ℕ × List (ℕ × List Name))

/-- `proppatch`, from the body on. -/
def proppatch (dead : DeadProps) (key : String) (body : Option Element) : Outcome :=
  match readUpdates body with
  | .error refusal => ⟨dead, .error refusal⟩
  | .ok updates =>
      let verdicts := updates.map (verdict dead key)
      let failed := verdicts.any Option.isSome
      let (store, statuses) := carryOut key failed dead (updates.zip verdicts)
      ⟨store, .ok (statuses, (statuses.zip (updates.map Update.name)).foldl group [])⟩

-- One instruction

namespace DeadProps

/-- The properties of a resource, in the order they were set. -/
def held (dead : DeadProps) (key : String) : List Element := (dead.map.get? key).getD []

theorem get_eq (dead : DeadProps) (key : String) (name : Name)
    : dead.get key name = (dead.held key).find? (·.name == name) := by
  rw [get, held]
  cases dead.map.get? key <;> rfl

/-- Stores from which the same is read. -/
def Same (dead other : DeadProps) : Prop := ∀ key name, dead.get key name = other.get key name

/-- The store is within its limits: no resource is filed without properties, or with one twice. -/
structure WellFormed (dead : DeadProps) : Prop where
  filled : ∀ key list, dead.map.get? key = some list → list ≠ []
  bounded : ∀ key, (dead.held key).length ≤ maxDeadPerResource
  distinct : ∀ key, ((dead.held key).map Element.name).Nodup
  count : dead.map.entries.length ≤ maxDeadResources

/-- The instruction finds room among the properties of the names. -/
def Fits (names : List Name) (name : Name) (value : Option Element) : Prop :=
  value = none ∨ name ∈ names ∨ names.length < maxDeadPerResource

variable {dead : DeadProps} {key : String} {name : Name} {value : Option Element}

/-- The other properties of a resource. -/
def others (dead : DeadProps) (key : String) (name : Name) : List Element :=
  (dead.held key).filter (·.name != name)

theorem others_of_not_mem (unknown : name ∉ (dead.held key).map Element.name)
    : dead.others key name = dead.held key := by
  refine List.filter_eq_self.mpr fun element isIn => ?_
  have other : element.name ≠ name := by
    rintro rfl
    exact unknown (List.mem_map_of_mem isIn)
  simpa using other

theorem others_full_iff (name : Name) (bounded : (dead.held key).length ≤ maxDeadPerResource)
    : maxDeadPerResource ≤ (dead.others key name).length
      ↔ name ∉ (dead.held key).map Element.name
        ∧ maxDeadPerResource ≤ ((dead.held key).map Element.name).length := by
  rw [List.length_map]
  constructor
  · intro full
    refine ⟨fun known => ?_, full.trans (List.length_filter_le ..)⟩
    obtain ⟨element, isIn, same⟩ := List.mem_map.mp known
    have fewer : (dead.others key name).length < (dead.held key).length :=
      List.length_filter_lt_length_iff_exists.mpr ⟨element, isIn, by simp [same]⟩
    omega
  · rintro ⟨unknown, full⟩
    rwa [others_of_not_mem unknown]

theorem canHold_iff
    : dead.canHold key = true
      ↔ dead.map.contains key = true ∨ dead.map.entries.length < maxDeadResources := by
  simp [canHold]

theorem set_some (room : dead.canHold key) (element : Element)
    : dead.set key name (some element)
      = if maxDeadPerResource ≤ (dead.others key name).length then
          (⟨dead.map.insert key (dead.others key name)⟩, false)
        else (⟨dead.map.insert key (dead.others key name ++ [element])⟩, true) := by
  have allowed : ((some element).isSome && !dead.map.contains key
      && decide (maxDeadResources ≤ dead.map.entries.length)) = false := by
    rcases canHold_iff.mp room with known | less
    · simp [known]
    · simp [less]
  rw [set, allowed]
  rfl

theorem set_none
    : dead.set key name none
      = if (dead.others key name).isEmpty then (⟨dead.map.erase key⟩, true)
        else (⟨dead.map.insert key (dead.others key name)⟩, true) := rfl

/-- What an instruction leaves: the resource's properties with the new one last, where it fits. -/
structure Takes (dead : DeadProps) (key : String) (name : Name) (value : Option Element)
    (after : DeadProps × Bool)
    : Prop where
  wellFormed : after.1.WellFormed
  room : dead.canHold key → after.1.canHold key
  done : after.2 = true ↔ Fits ((dead.held key).map Element.name) name value
  fitting : Fits ((dead.held key).map Element.name) name value →
    after.1.held key = dead.others key name ++ value.toList
  refused : ¬Fits ((dead.held key).map Element.name) name value → after.1.held key = dead.held key
  elsewhere : ∀ other, other ≠ key → after.1.held other = dead.held other

theorem held_insert (list : List Element) (other : String)
    : (⟨dead.map.insert key list⟩ : DeadProps).held other
      = if other = key then list else dead.held other := by
  rw [held, OrderedMap.get?_insert]
  split_ifs <;> rfl

theorem held_erase (other : String)
    : (⟨dead.map.erase key⟩ : DeadProps).held other
      = if other = key then [] else dead.held other := by
  rw [held, OrderedMap.get?_erase]
  split_ifs <;> rfl

theorem WellFormed.insert (ok : dead.WellFormed) (room : dead.canHold key) {list : List Element}
    (filled : list ≠ []) (bounded : list.length ≤ maxDeadPerResource)
    (distinct : (list.map Element.name).Nodup)
    : (⟨dead.map.insert key list⟩ : DeadProps).WellFormed where
  filled other found is := by
    rw [OrderedMap.get?_insert] at is
    split_ifs at is
    · exact Option.some.inj is ▸ filled
    · exact ok.filled other found is
  bounded other := by
    rw [held_insert]
    split_ifs
    · exact bounded
    · exact ok.bounded other
  distinct other := by
    rw [held_insert]
    split_ifs
    · exact distinct
    · exact ok.distinct other
  count := by
    have keys := congrArg List.length (Entries.keys_insert key list dead.map.entries)
    rw [List.length_map] at keys
    change (Entries.insert key list dead.map.entries).length ≤ maxDeadResources
    rw [keys]
    have count := ok.count
    split_ifs with known
    · rwa [List.length_map]
    · rcases canHold_iff.mp room with isIn | less
      · obtain ⟨value, found⟩ := Option.isSome_iff_exists.mp isIn
        exact absurd (OrderedMap.mem_keys_iff.mpr ⟨value, found⟩) known
      · rw [List.length_append, List.length_map]
        exact less

theorem length_erase_le : (dead.map.erase key).entries.length ≤ dead.map.entries.length :=
  List.length_filter_le ..

theorem WellFormed.erase (ok : dead.WellFormed) : (⟨dead.map.erase key⟩ : DeadProps).WellFormed where
  filled other found is := by
    rw [OrderedMap.get?_erase] at is
    split_ifs at is
    exact ok.filled other found is
  bounded other := by
    rw [held_erase]
    split_ifs
    · exact Nat.zero_le _
    · exact ok.bounded other
  distinct other := by
    rw [held_erase]
    split_ifs
    · exact List.nodup_nil
    · exact ok.distinct other
  count := length_erase_le.trans ok.count

theorem canHold_insert (list : List Element)
    : (⟨dead.map.insert key list⟩ : DeadProps).canHold key = true :=
  canHold_iff.mpr (.inl (by simp [OrderedMap.contains]))

theorem WellFormed.canHold_erase (ok : dead.WellFormed) (room : dead.canHold key)
    : (⟨dead.map.erase key⟩ : DeadProps).canHold key = true := by
  rw [canHold_iff] at room ⊢
  right
  rcases room with known | less
  · obtain ⟨list, found⟩ := Option.isSome_iff_exists.mp known
    have all := (OrderedMap.values_perm_erase found).length_eq
    have count := ok.count
    simp only [OrderedMap.values, List.length_map, List.length_cons] at all
    change (dead.map.erase key).entries.length < maxDeadResources
    omega
  · exact length_erase_le.trans_lt less

theorem distinct_others (ok : dead.WellFormed)
    : ((dead.others key name).map Element.name).Nodup :=
  (ok.distinct key).sublist (List.filter_sublist.map _)

theorem WellFormed.takes_some (ok : dead.WellFormed) (room : dead.canHold key) {element : Element}
    (named : element.name = name)
    : Takes dead key name (some element) (dead.set key name (some element)) := by
  have full := others_full_iff name (ok.bounded key)
  have fits : Fits ((dead.held key).map Element.name) name (some element)
      ↔ ¬maxDeadPerResource ≤ (dead.others key name).length := by
    rw [full, Fits]
    simp only [reduceCtorEq, false_or, not_and_or, not_not, not_le]
  rw [set_some room]
  split_ifs with isFull
  · have unchanged := others_of_not_mem (full.mp isFull).1
    have filled : dead.others key name ≠ [] := by
      intro none
      rw [none] at isFull
      exact absurd isFull (by decide)
    refine ⟨?_, fun _ => canHold_insert _, ?_, ?_, ?_, ?_⟩
    · exact ok.insert room filled (by rw [unchanged]; exact ok.bounded key) (distinct_others ok)
    · simp [fits, isFull]
    · exact fun has => absurd isFull (fits.mp has)
    · intro _
      rw [held_insert, if_pos rfl, unchanged]
    · intro other apart
      rw [held_insert, if_neg apart]
  · have isNew : element.name ∉ (dead.others key name).map Element.name := by
      rw [named]
      intro known
      obtain ⟨old, isIn, same⟩ := List.mem_map.mp known
      simpa [same] using (List.mem_filter.mp isIn).2
    refine ⟨?_, fun _ => canHold_insert _, ?_, ?_, ?_, ?_⟩
    · refine ok.insert room (by simp) ?_ ?_
      · rw [List.length_append, List.length_singleton]
        omega
      · rw [List.map_append, List.nodup_append]
        refine ⟨distinct_others ok, List.nodup_singleton _, ?_⟩
        intro first isFirst second isSecond same
        rw [List.map_singleton, List.mem_singleton] at isSecond
        exact isNew (isSecond ▸ same ▸ isFirst)
    · simp [fits, isFull]
    · intro _
      rw [held_insert, if_pos rfl]
      rfl
    · exact fun misfit => absurd (fits.mpr isFull) misfit
    · intro other apart
      rw [held_insert, if_neg apart]

theorem WellFormed.takes_none (ok : dead.WellFormed)
    : Takes dead key name none (dead.set key name none) := by
  rw [set_none]
  split_ifs with empty
  · have noOthers : dead.others key name = [] := List.isEmpty_iff.mp empty
    refine ⟨ok.erase, ok.canHold_erase, by simp [Fits], ?_, fun misfit => absurd (.inl rfl) misfit, ?_⟩
    · intro _
      rw [held_erase, if_pos rfl, noOthers]
      rfl
    · intro other apart
      rw [held_erase, if_neg apart]
  · have filled : dead.others key name ≠ [] := fun none => empty (by rw [none]; rfl)
    have known : dead.canHold key = true := by
      rw [canHold_iff, OrderedMap.contains]
      left
      rcases found : dead.map.get? key with _ | list
      · simp [others, held, found] at filled
      · rfl
    refine ⟨?_, fun _ => canHold_insert _, by simp [Fits], ?_,
      fun misfit => absurd (.inl rfl) misfit, ?_⟩
    · exact ok.insert known filled ((List.length_filter_le ..).trans (ok.bounded key))
        (distinct_others ok)
    · intro _
      rw [held_insert, if_pos rfl]
      simp
    · intro other apart
      rw [held_insert, if_neg apart]

/-- What is read of the store, with the instruction done. -/
def written (key : String) (view : String → Name → Option Element) (update : Update)
    : String → Name → Option Element :=
  fun other name => if other = key ∧ name = update.name then update.value else view other name

theorem WellFormed.takes (ok : dead.WellFormed) (update : Update)
    (room : update.isSet → dead.canHold key)
    : Takes dead key update.name update.value (dead.set key update.name update.value) := by
  rcases isSet : update.isSet with _ | _
  · rw [Update.value, isSet]
    exact ok.takes_none
  · rw [Update.value, isSet]
    exact ok.takes_some (room isSet) rfl

theorem Takes.get {after : DeadProps × Bool} {update : Update}
    (takes : Takes dead key update.name update.value after)
    (fits : Fits ((dead.held key).map Element.name) update.name update.value)
    : after.1.get = written key dead.get update := by
  funext other name
  rw [written, get_eq]
  by_cases here : other = key
  · subst here
    rw [takes.fitting fits, List.find?_append, others, List.find?_filter]
    by_cases same : name = update.name
    · subst same
      have none : (dead.held other).find? (fun element =>
          decide ((element.name != update.name) = true ∧ (element.name == update.name) = true))
            = none := by
        simp
      rw [none, if_pos ⟨rfl, rfl⟩, Update.value]
      rcases update.isSet with _ | _
      · rfl
      · simp [Update.name]
    · have kept : (fun element : Element =>
          decide ((element.name != update.name) = true ∧ (element.name == name) = true))
            = fun element => element.name == name := by
        funext element
        by_cases isIt : element.name = name
        · simp [isIt, same]
        · simp [isIt]
      rw [kept, if_neg (fun both => same both.2), get_eq]
      have notNew : update.value.toList.find? (·.name == name) = none := by
        rw [Update.value]
        split
        · simpa [Update.name] using fun isIt => same isIt.symm
        · rfl
      rw [notNew, Option.or_none]
  · rw [takes.elsewhere other here, if_neg (fun both => here both.1), get_eq]

theorem Takes.get_refused {after : DeadProps × Bool} {update : Update}
    (takes : Takes dead key update.name update.value after)
    (misfit : ¬Fits ((dead.held key).map Element.name) update.name update.value)
    : after.1.get = dead.get := by
  funext other name
  rw [get_eq, get_eq]
  by_cases here : other = key
  · rw [here, takes.refused misfit]
  · rw [takes.elsewhere other here]

end DeadProps

open DeadProps

-- The instructions of a request

/-- Whether the instruction finds room, by the names of the properties that are there. -/
def Update.fits (update : Update) (names : List Name) : Bool :=
  !update.isSet || names.contains update.name || names.length < maxDeadPerResource

/-- The names after an instruction that finds room. -/
def Update.names (update : Update) (names : List Name) : List Name :=
  names.filter (· != update.name) ++ if update.isSet then [update.name] else []

/-- The instructions that find room, of those taken in order. -/
def fitting : List Name → List Update → List Update
  | _, [] => []
  | names, update :: rest =>
      if update.fits names then update :: fitting (update.names names) rest else fitting names rest

theorem fits_iff {update : Update} {names : List Name}
    : update.fits names = true ↔ Fits names update.name update.value := by
  rcases isSet : update.isSet with _ | _ <;> simp [Update.fits, Fits, Update.value, isSet]

theorem DeadProps.Takes.names {dead : DeadProps} {key : String} {update : Update} {after : DeadProps × Bool}
    (takes : Takes dead key update.name update.value after)
    (fits : Fits ((dead.held key).map Element.name) update.name update.value)
    : (after.1.held key).map Element.name = update.names ((dead.held key).map Element.name) := by
  rw [takes.fitting fits, List.map_append, Update.names, others, List.filter_map]
  congr 1
  rw [Update.value]
  split <;> rfl

theorem fitting_sublist (names : List Name) (updates : List Update)
    : (fitting names updates).Sublist updates := by
  induction updates generalizing names with
  | nil => exact .slnil
  | cons update rest ih =>
      rw [fitting]
      split
      · exact (ih _).cons_cons update
      · exact (ih _).cons update

theorem carryOut_fitting {key : String} {updates : List Update} {dead : DeadProps}
    (ok : dead.WellFormed) (room : ∀ update ∈ updates, update.isSet → dead.canHold key)
    : (carryOut key false dead (updates.map (·, none))).1.get
        = (fitting ((dead.held key).map Element.name) updates).foldl (written key) dead.get
      ∧ ((∀ status ∈ (carryOut key false dead (updates.map (·, none))).2, status = 200)
        ↔ fitting ((dead.held key).map Element.name) updates = updates) := by
  induction updates generalizing dead with
  | nil => exact ⟨rfl, by simp [carryOut, fitting]⟩
  | cons update rest ih =>
      have takes := ok.takes update (room update (.head _))
      have roomLater : ∀ later ∈ rest, later.isSet →
          (dead.set key update.name update.value).1.canHold key :=
        fun later isIn isSet => takes.room (room later (.tail _ isIn) isSet)
      obtain ⟨store, statuses⟩ := ih takes.wellFormed roomLater
      simp only [List.map_cons, carryOut, if_false, Bool.false_eq_true, List.forall_mem_cons]
      by_cases fits : Fits ((dead.held key).map Element.name) update.name update.value
      · rw [takes.names fits] at store statuses
        rw [fitting, if_pos (fits_iff.mpr fits), List.foldl_cons, store, takes.get fits,
          if_pos (takes.done.mpr fits), statuses]
        simp
      · have same : (dead.set key update.name update.value).1.held key = dead.held key :=
          takes.refused fits
        rw [same] at store statuses
        have notDone : ¬(dead.set key update.name update.value).2 = true := fun done =>
          fits (takes.done.mp done)
        rw [fitting, if_neg (fun has => fits (fits_iff.mp has)), store, takes.get_refused fits,
          if_neg notDone]
        refine ⟨rfl, ?_⟩
        constructor
        · rintro ⟨other, -⟩
          cases other
        · intro all
          have shorter := (fitting_sublist ((dead.held key).map Element.name) rest).length_le
          rw [all, List.length_cons] at shorter
          omega

theorem carryOut_failed (key : String) (dead : DeadProps) (updates : List (Update × Option ℕ))
    : (carryOut key true dead updates).1 = dead := by
  induction updates with
  | nil => rfl
  | cons entry rest ih =>
      obtain ⟨update, verdict⟩ := entry
      cases verdict <;> exact ih

theorem carryOut_failed_mem {key : String} {dead : DeadProps} {updates : List (Update × Option ℕ)}
    (update : Update) {status : ℕ} (isIn : (update, some status) ∈ updates)
    : status ∈ (carryOut key true dead updates).2 := by
  induction updates with
  | nil => cases isIn
  | cons entry rest ih =>
      rcases List.mem_cons.mp isIn with rfl | later
      · exact List.mem_cons_self ..
      · obtain ⟨first, verdict⟩ := entry
        cases verdict <;> exact List.mem_cons_of_mem _ (ih later)

/-- Of each property that the instructions name, the last one that names it sets what was there, or
removes what was not.
-/
def PutBack (key : String) (view : String → Name → Option Element) (updates : List Update) : Prop :=
  ∀ before update after, updates = before ++ update :: after →
    (∀ later ∈ after, later.name ≠ update.name) → update.value = view key update.name

theorem foldl_written_other {key other : String} {view : String → Name → Option Element}
    {updates : List Update} {name : Name}
    (apart : other ≠ key ∨ ∀ update ∈ updates, update.name ≠ name)
    : updates.foldl (written key) view other name = view other name := by
  induction updates generalizing view with
  | nil => rfl
  | cons update rest ih =>
      have later : other ≠ key ∨ ∀ update ∈ rest, update.name ≠ name :=
        apart.imp_right fun all update isIn => all update (.tail _ isIn)
      rw [List.foldl_cons, ih later, written, if_neg]
      rintro ⟨here, same⟩
      rcases apart with away | all
      · exact away here
      · exact all update (.head _) same.symm

theorem foldl_written_last {key : String} (view : String → Name → Option Element)
    {before after : List Update} {update : Update} (last : ∀ later ∈ after, later.name ≠ update.name)
    : (before ++ update :: after).foldl (written key) view key update.name = update.value := by
  rw [List.foldl_append, List.foldl_cons, foldl_written_other (.inr last), written, if_pos ⟨rfl, rfl⟩]

theorem last_named (updates : List Update) (name : Name)
    : (∃ before update after, updates = before ++ update :: after ∧ update.name = name
        ∧ ∀ later ∈ after, later.name ≠ update.name)
      ∨ ∀ update ∈ updates, update.name ≠ name := by
  induction updates with
  | nil => exact .inr nofun
  | cons update rest ih =>
      rcases ih with ⟨before, last, after, rfl, same, others⟩ | none
      · exact .inl ⟨update :: before, last, after, rfl, same, others⟩
      · by_cases same : update.name = name
        · exact .inl ⟨[], update, rest, rfl, same, fun later isIn => same ▸ none later isIn⟩
        · exact .inr (by simpa [same] using none)

theorem foldl_written_eq_iff {key : String} {view : String → Name → Option Element}
    {updates : List Update}
    : updates.foldl (written key) view = view ↔ PutBack key view updates := by
  constructor
  · rintro same before update after rfl last
    rw [← foldl_written_last view last, same]
  · intro back
    funext other name
    by_cases here : other = key
    · subst here
      rcases last_named updates name with ⟨before, update, after, rfl, rfl, last⟩ | none
      · rw [foldl_written_last view last]
        exact back before update after rfl last
      · exact foldl_written_other (.inr none)
    · exact foldl_written_other (.inl here)

-- All or nothing

/-- A request that is refused, or answers an instruction otherwise than with 200, leaves the store as
it was; one that answers all with 200 leaves it as the instructions in document order do.
-/
structure AllOrNothing (dead : DeadProps) (key : String) (body : Option Element) : Prop where
  refused : ∀ refusal, (proppatch dead key body).answer = .error refusal →
    (proppatch dead key body).store = dead
  undone : ∀ statuses groups, (proppatch dead key body).answer = .ok (statuses, groups) →
    (∃ status ∈ statuses, status ≠ 200) → (proppatch dead key body).store.Same dead
  done : ∀ statuses groups updates, (proppatch dead key body).answer = .ok (statuses, groups) →
    readUpdates body = .ok updates → (∀ status ∈ statuses, status = 200) →
    (proppatch dead key body).store.get = updates.foldl (written key) dead.get

/-- The dry run refuses an instruction, or each finds room, or those that do put back what was there. -/
def Undoable (dead : DeadProps) (key : String) (updates : List Update) : Prop :=
  (∃ update ∈ updates, (verdict dead key update).isSome)
  ∨ fitting ((dead.held key).map Element.name) updates = updates
  ∨ PutBack key dead.get (fitting ((dead.held key).map Element.name) updates)

theorem proppatch_error (dead : DeadProps) (key : String) {body : Option Element} {refusal : Refusal}
    (read : readUpdates body = .error refusal)
    : proppatch dead key body = ⟨dead, .error refusal⟩ := by
  simp only [proppatch, read]

theorem proppatch_ok (dead : DeadProps) (key : String) {body : Option Element}
    {updates : List Update} (read : readUpdates body = .ok updates)
    : ∃ groups, proppatch dead key body
        = ⟨(carryOut key ((updates.map (verdict dead key)).any Option.isSome) dead
              (updates.zip (updates.map (verdict dead key)))).1,
            .ok ((carryOut key ((updates.map (verdict dead key)).any Option.isSome) dead
              (updates.zip (updates.map (verdict dead key)))).2, groups)⟩ := by
  simp only [proppatch, read]
  exact ⟨_, rfl⟩

theorem verdict_ne_ok {dead : DeadProps} {key : String} {update : Update} {status : ℕ}
    (refuses : verdict dead key update = some status)
    : status ≠ 200 := by
  rw [verdict] at refuses
  split_ifs at refuses
  · obtain rfl := Option.some.inj refuses
    decide
  · obtain rfl := Option.some.inj refuses
    decide

theorem verdict_room {dead : DeadProps} {key : String} {update : Update}
    (allows : verdict dead key update = none) (isSet : update.isSet)
    : dead.canHold key := by
  rw [verdict] at allows
  split_ifs at allows with _ full
  simpa [isSet] using full

theorem proppatch_refused {dead : DeadProps} {key : String} {body : Option Element}
    {updates : List Update} (read : readUpdates body = .ok updates)
    (refused : ∃ update ∈ updates, (verdict dead key update).isSome)
    : ∃ statuses groups, proppatch dead key body = ⟨dead, .ok (statuses, groups)⟩
      ∧ ∃ status ∈ statuses, status ≠ 200 := by
  obtain ⟨groups, whole⟩ := proppatch_ok dead key read
  obtain ⟨update, isIn, some⟩ := refused
  obtain ⟨status, refuses⟩ := Option.isSome_iff_exists.mp some
  have failed : (updates.map (verdict dead key)).any Option.isSome = true := by
    rw [List.any_map, List.any_eq_true]
    exact ⟨update, isIn, some⟩
  rw [failed, carryOut_failed] at whole
  refine ⟨_, groups, whole, status, ?_, verdict_ne_ok refuses⟩
  apply carryOut_failed_mem update
  rw [← List.map_prod_left_eq_zip, List.mem_map]
  exact ⟨update, isIn, by rw [refuses]⟩

theorem proppatch_carried {dead : DeadProps} (ok : dead.WellFormed) {key : String}
    {body : Option Element} {updates : List Update} (read : readUpdates body = .ok updates)
    (allowed : ∀ update ∈ updates, verdict dead key update = none)
    : ∃ after statuses groups, proppatch dead key body = ⟨after, .ok (statuses, groups)⟩
      ∧ after.get = (fitting ((dead.held key).map Element.name) updates).foldl (written key) dead.get
      ∧ ((∀ status ∈ statuses, status = 200)
        ↔ fitting ((dead.held key).map Element.name) updates = updates) := by
  obtain ⟨groups, whole⟩ := proppatch_ok dead key read
  have passed : (updates.map (verdict dead key)).any Option.isSome = false := by
    rw [List.any_map, List.any_eq_false]
    exact fun update isIn => by simp [allowed update isIn]
  have zipped : updates.zip (updates.map (verdict dead key)) = updates.map (·, none) := by
    rw [← List.map_prod_left_eq_zip]
    exact List.map_congr_left fun update isIn => by rw [allowed update isIn]
  rw [passed, zipped] at whole
  have carried := carryOut_fitting ok
    (fun update isIn isSet => verdict_room (allowed update isIn) isSet)
  exact ⟨_, _, groups, whole, carried⟩

/-- A request is all or nothing exactly when the dry run refuses an instruction, all its instructions
find room, or those that do put back what was there.
-/
theorem allOrNothing_iff {dead : DeadProps} (ok : dead.WellFormed) (key : String)
    (body : Option Element)
    : AllOrNothing dead key body
      ↔ ∀ updates, readUpdates body = .ok updates → Undoable dead key updates := by
  rcases read : readUpdates body with refusal | updates
  · have whole := proppatch_error dead key read
    constructor
    · intro _ updates other
      cases other
    · intro _
      refine ⟨fun _ _ => by rw [whole], ?_, ?_⟩
      · intro statuses groups answer
        rw [whole] at answer
        cases answer
      · intro statuses groups updates answer
        rw [whole] at answer
        cases answer
  by_cases refused : ∃ update ∈ updates, (verdict dead key update).isSome
  · obtain ⟨statuses, groups, whole, bad⟩ := proppatch_refused read refused
    constructor
    · rintro - others ⟨⟩
      exact .inl refused
    · intro _
      refine ⟨fun _ _ => by rw [whole], fun _ _ _ _ => by rw [whole]; exact fun _ _ => rfl, ?_⟩
      intro others _ _ answer _ all
      rw [whole] at answer
      obtain ⟨rfl, -⟩ := Prod.mk.inj (Except.ok.inj answer)
      obtain ⟨status, isIn, other⟩ := bad
      exact absurd (all status isIn) other
  · have allowed : ∀ update ∈ updates, verdict dead key update = none := by
      intro update isIn
      by_contra some
      exact refused ⟨update, isIn, Option.ne_none_iff_isSome.mp some⟩
    obtain ⟨after, statuses, groups, whole, store, all⟩ := proppatch_carried ok read allowed
    constructor
    · rintro ⟨-, undone, -⟩ others ⟨⟩
      by_cases fits : fitting ((dead.held key).map Element.name) updates = updates
      · exact .inr (.inl fits)
      · right
        right
        have bad : ∃ status ∈ statuses, status ≠ 200 := by
          by_contra none
          push Not at none
          exact fits (all.mp none)
        have same := undone statuses groups (by rw [whole]) bad
        rw [whole] at same
        rw [← foldl_written_eq_iff, ← store]
        funext other name
        exact same other name
    · intro undoable
      refine ⟨?_, ?_, ?_⟩
      · intro refusal answer
        rw [whole] at answer
        cases answer
      · intro others _ answer bad
        rw [whole] at answer ⊢
        obtain ⟨rfl, -⟩ := Prod.mk.inj (Except.ok.inj answer)
        rcases undoable updates rfl with some | fits | back
        · exact absurd some refused
        · obtain ⟨status, isIn, other⟩ := bad
          exact absurd (all.mpr fits status isIn) other
        · intro other name
          rw [store, foldl_written_eq_iff.mpr back]
      · intro others _ same answer isSame good
        rw [whole] at answer ⊢
        obtain ⟨rfl, -⟩ := Prod.mk.inj (Except.ok.inj answer)
        obtain rfl := Except.ok.inj (read.symm.trans isSame)
        rw [store, all.mp good]

-- A resource that is full

/-- A property of a namespace of its own, named by a length. -/
def sampleProp (length : ℕ) : Element :=
  .mk (some "urn:x") (String.ofList (List.replicate length 'p')) [] ""

def fullStore : DeadProps := ⟨OrderedMap.empty.insert "/a" ((List.range 64).map sampleProp)⟩

def sampleBody : Element :=
  .mk (some "DAV:") "propertyupdate"
    [.mk (some "DAV:") "remove" [.mk (some "DAV:") "prop" [sampleProp 0] ""] "",
      .mk (some "DAV:") "set" [.mk (some "DAV:") "prop" [sampleProp 64, sampleProp 65] ""] ""] ""

theorem fullStore_wellFormed : fullStore.WellFormed := by
  have held (key : String) : fullStore.held key
      = if key = "/a" then (List.range 64).map sampleProp else [] := by
    rw [fullStore, DeadProps.held, OrderedMap.get?_insert]
    split_ifs <;> rfl
  refine ⟨?_, ?_, ?_, by decide⟩
  · intro key list isAt
    rw [fullStore, OrderedMap.get?_insert] at isAt
    split_ifs at isAt
    · rw [← Option.some.inj isAt]
      simp
    · cases isAt
  · intro key
    rw [held]
    split_ifs
    · simp [maxDeadPerResource]
    · exact Nat.zero_le _
  · intro key
    rw [held]
    split_ifs
    · decide +kernel
    · exact List.nodup_nil

/-- The second new property finds no room: the removal and the first stay. -/
theorem proppatch_full
    : fullStore.WellFormed ∧ ¬AllOrNothing fullStore "/a" (some sampleBody) := by
  refine ⟨fullStore_wellFormed, fun whole => ?_⟩
  have statuses : (proppatch fullStore "/a" (some sampleBody)).answer.toOption.map Prod.fst
      = some [200, 200, 507] := by decide +kernel
  have gone : ((proppatch fullStore "/a" (some sampleBody)).store.get "/a"
      (sampleProp 0).name).isSome = false := by decide +kernel
  have there : (fullStore.get "/a" (sampleProp 0).name).isSome = true := by decide +kernel
  rcases answer : (proppatch fullStore "/a" (some sampleBody)).answer with refusal | ⟨answers, groups⟩
  · rw [answer] at statuses
    cases statuses
  · rw [answer] at statuses
    obtain rfl : answers = [200, 200, 507] := Option.some.inj statuses
    have same := whole.undone _ groups answer ⟨507, by decide, by decide⟩
    rw [same, there] at gone
    cases gone

theorem allOrNothing_full
    : AllOrNothing fullStore "/a" (some sampleBody)
      ↔ ∀ updates, readUpdates (some sampleBody) = .ok updates → Undoable fullStore "/a" updates :=
  allOrNothing_iff fullStore_wellFormed "/a" (some sampleBody)

end MokuroBunko.Dav.PropPatch
