import MokuroBunko.Config.GenerationRows
import Mathlib.Order.MinMax

/-! The list of generations survives saving: the rows that are read have their own ids and names and one
primary, what is saved of them is read as the same rows, and a new id can be minted unless an id
already has the greatest number there is.
-/

namespace MokuroBunko.Config

open MokuroBunko.Data MokuroBunko.Lib

-- Minted ids

section Minting

variable {used : List String} {id : String} {overflowed : Bool}

theorem mintFrom_eq_some {fuel highest : ℕ} {before : Bool}
    (minted : mintFrom used fuel highest before = some (id, overflowed))
    : id ∉ used ∧ (∃ number < 2 ^ 64, id = "g-" ++ toString number)
      ∧ (before = true ∨ highest + 1 = 2 ^ 64 → overflowed = true) := by
  induction fuel generalizing highest before with
  | zero => cases minted
  | succ fuel ih =>
      rw [mintFrom] at minted
      split at minted
      · obtain ⟨absent, isId, stays⟩ := ih minted
        refine ⟨absent, isId, fun past => stays (.inl ?_)⟩
        simpa using past
      · rename_i absent
        cases minted
        refine ⟨absent, ⟨_, Nat.mod_lt _ (by decide), rfl⟩, fun past => ?_⟩
        simpa using past

theorem mintGenerationId_eq_some (minted : mintGenerationId used = some (id, overflowed))
    : id ∉ used ∧ ∃ number < 2 ^ 64, id = "g-" ++ toString number := by
  obtain ⟨absent, isId, _⟩ := mintFrom_eq_some minted
  exact ⟨absent, isId⟩

theorem toList_minted (number : ℕ) : ("g-" ++ toString number).toList = 'g' :: '-' :: Nat.toDigits 10 number := by
  rw [String.toList_append, toList_toString]
  rfl

theorem isValidId_minted {number : ℕ} (small : number < 2 ^ 64) : isValidId ("g-" ++ toString number) := by
  have digits : (Nat.toDigits 10 number).length ≤ 20 := 
    (Nat.length_toDigits_le_iff (by decide) (by decide)).mpr (Nat.lt_of_lt_of_le small (by decide))
  have plain : ∀ char ∈ 'g' :: '-' :: Nat.toDigits 10 number,
      (isAlphanumeric char || char = '_' || char = '-') = true := by
    intro char isIn
    obtain isG | isIn := List.mem_cons.mp isIn
    · rw [isG]
      decide
    obtain isHyphen | isIn := List.mem_cons.mp isIn
    · rw [isHyphen]
      decide
    · simp only [isAlphanumeric, Text.isDigit_of_toDigits isIn, Bool.or_true, Bool.true_or]
  simp only [isValidId, Bool.and_eq_true, decide_eq_true_eq]
  refine ⟨⟨?_, ?_⟩, ?_⟩
  · rw [toList_minted, List.head?_cons, Option.any_some]
    decide
  · rw [← String.length_toList, toList_minted, List.length_cons, List.length_cons]
    omega
  · rw [toList_minted]
    exact List.all_eq_true.mpr plain

theorem numberOf_minted {number : ℕ} (small : number < 2 ^ 64)
    : numberOf ("g-" ++ toString number) = some number := by
  have stripped : Text.stripPrefix ("g-" ++ toString number) "g-"
      = some (String.ofList (Nat.toDigits 10 number)) := by
    unfold Text.stripPrefix
    rw [toList_minted]
    simp [List.isPrefixOf?]
  unfold numberOf
  rw [stripped, Option.bind_some, String.toList_ofList, parseUnsigned_toDigits small]

theorem numberOf_lt {number : ℕ} (isNumber : numberOf id = some number) : number < 2 ^ 64 := by
  obtain ⟨text, _, parsed⟩ := Option.bind_eq_some_iff.mp isNumber
  unfold parseUnsigned at parsed
  dsimp only at parsed
  split at parsed
  · rename_i facts
    cases parsed
    exact facts.2
  · cases parsed

theorem le_foldl_max (numbers : List ℕ) (start : ℕ)
    : start ≤ numbers.foldl max start ∧ ∀ number ∈ numbers, number ≤ numbers.foldl max start := by
  induction numbers generalizing start with
  | nil => exact ⟨Nat.le_refl start, nofun⟩
  | cons number numbers ih =>
      obtain ⟨above, all⟩ := ih (max start number)
      rw [List.foldl_cons]
      refine ⟨Nat.le_trans (Nat.le_max_left _ _) above, ?_⟩
      intro other isIn
      obtain isFirst | isLater := List.mem_cons.mp isIn
      · rw [isFirst]
        exact Nat.le_trans (Nat.le_max_right _ _) above
      · exact all other isLater

theorem foldl_max_mem (numbers : List ℕ) (start : ℕ)
    : numbers.foldl max start = start ∨ numbers.foldl max start ∈ numbers := by
  induction numbers generalizing start with
  | nil => exact .inl rfl
  | cons number numbers ih =>
      rw [List.foldl_cons]
      obtain isStart | isIn := ih (max start number)
      · obtain isLeft | isRight := max_choice start number
        · exact .inl (isStart.trans isLeft)
        · exact .inr (by rw [isStart, isRight]; exact List.mem_cons_self)
      · exact .inr (List.mem_cons_of_mem _ isIn)

theorem mintGenerationId_fresh_iff
    : (∃ id, mintGenerationId used = some (id, false) ∧ id ∉ used)
      ↔ ∀ id ∈ used, numberOf id ≠ some (2 ^ 64 - 1) := by
  set highest := (used.filterMap numberOf).foldl max 0 with isHighest
  obtain ⟨-, above⟩ := le_foldl_max (used.filterMap numberOf) 0
  constructor
  · rintro ⟨id, minted, _⟩ other isUsed isGreatest
    have isIn : 2 ^ 64 - 1 ∈ used.filterMap numberOf := List.mem_filterMap.mpr ⟨other, isUsed, isGreatest⟩
    have atLeast := above _ isIn
    have atMost : highest < 2 ^ 64 := by
      obtain isZero | isNumber := foldl_max_mem (used.filterMap numberOf) 0
      · rw [isHighest, isZero]
        decide
      · obtain ⟨_, _, isNumber⟩ := List.mem_filterMap.mp isNumber
        exact numberOf_lt isNumber
    have wraps : highest + 1 = 2 ^ 64 := by omega
    cases (mintFrom_eq_some minted).2.2 (.inr wraps)
  · intro none
    have small : highest + 1 < 2 ^ 64 := by
      obtain isZero | isNumber := foldl_max_mem (used.filterMap numberOf) 0
      · rw [isHighest, isZero]
        decide
      · obtain ⟨id, isUsed, isNumber⟩ := List.mem_filterMap.mp isNumber
        have below := numberOf_lt isNumber
        have notGreatest : highest ≠ 2 ^ 64 - 1 := by
          intro same
          exact none id isUsed (by rw [isNumber, ← same])
        omega
    have free : "g-" ++ toString (highest + 1) ∉ used := by
      intro isUsed
      have atMost := above (highest + 1)
        (List.mem_filterMap.mpr ⟨_, isUsed, numberOf_minted small⟩)
      omega
    refine ⟨"g-" ++ toString (highest + 1), ?_, free⟩
    unfold mintGenerationId
    rw [← isHighest]
    have unfolded (fuel : ℕ) : mintFrom used (fuel + 1) highest false
        = some ("g-" ++ toString (highest + 1), false) := by
      rw [mintFrom]
      rw [Nat.mod_eq_of_lt small, if_neg free]
      simp only [Bool.false_or, decide_eq_false (Nat.ne_of_lt small)]
    exact unfolded (2 ^ 64 - 1)

end Minting

-- Assigned ids

section Ids

variable {serde : Serde}

/-- The ids that the rows give themselves. -/
def ownIds (serde : Serde) (rows : List Object) : List String :=
  (rows.map (fun row => valueStr serde (row.get? "id"))).filter (· ≠ "")

theorem ownIds_cons (row : Object) (rows : List Object)
    : ownIds serde (row :: rows)
      = if valueStr serde (row.get? "id") = "" then ownIds serde rows
        else valueStr serde (row.get? "id") :: ownIds serde rows := by
  unfold ownIds
  rw [List.map_cons, List.filter_cons]
  by_cases empty : valueStr serde (row.get? "id") = "" <;> simp [empty]

theorem explicitIds_ok {index : ℕ} {taken all : List String} {rows : List Object}
    (parsed : explicitIds serde index taken rows = .ok all)
    : all = taken ++ ownIds serde rows ∧ (taken.Nodup → all.Nodup)
      ∧ ∀ id ∈ ownIds serde rows, isValidId id := by
  induction rows generalizing index taken with
  | nil =>
      cases parsed
      exact ⟨(List.append_nil _).symm, fun distinct => distinct, nofun⟩
  | cons row rows ih =>
      rw [explicitIds] at parsed
      rw [ownIds_cons]
      split at parsed
      · rename_i empty
        rw [if_pos empty]
        exact ih parsed
      rename_i given
      rw [if_neg given]
      split at parsed
      · exact absurd parsed rowErr_ne_ok
      rename_i valid
      split at parsed
      · exact absurd parsed rowErr_ne_ok
      rename_i free
      obtain ⟨same, distinct, allValid⟩ := ih parsed
      refine ⟨by rw [same, List.append_assoc, List.singleton_append], ?_, ?_⟩
      · intro takenDistinct
        refine distinct (List.nodup_append.mpr ⟨takenDistinct, List.nodup_singleton _, ?_⟩)
        intro id isTaken other isOther
        rw [List.mem_singleton.mp isOther]
        rintro rfl
        exact free isTaken
      · intro id isIn
        obtain isFirst | isLater := List.mem_cons.mp isIn
        · rw [isFirst]
          exact not_not.mp valid
        · exact allValid id isLater

theorem mintIds_ok {taken ids : List String} {rows : List Object}
    (parsed : mintIds serde taken rows = .ok ids) (included : ownIds serde rows ⊆ taken)
    (distinct : (ownIds serde rows).Nodup)
    : ids.length = rows.length ∧ ids.Nodup
      ∧ (∀ id ∈ ids, id ∈ ownIds serde rows ∨ id ∉ taken)
      ∧ ((∀ id ∈ ownIds serde rows, isValidId id) → ∀ id ∈ ids, isValidId id) := by
  induction rows generalizing taken ids with
  | nil =>
      cases parsed
      exact ⟨rfl, List.nodup_nil, nofun, fun _ => nofun⟩
  | cons row rows ih =>
      rw [mintIds] at parsed
      rw [ownIds_cons] at included distinct ⊢
      split at parsed
      · rename_i empty
        rw [if_pos empty] at included distinct ⊢
        split at parsed
        · cases parsed
        rename_i minted _ isMinted
        obtain ⟨absent, number, small, isId⟩ := mintGenerationId_eq_some isMinted
        obtain ⟨others, rest, same⟩ := bind_eq_ok.mp parsed
        cases same
        obtain ⟨length, restDistinct, known, valid⟩ :=
          ih rest (fun id isIn => List.mem_append_left _ (included isIn)) distinct
        have other : ∀ id ∈ others, id ∈ ownIds serde rows ∨ id ∉ taken ∧ id ≠ minted := by
          intro id isIn
          obtain isOwn | free := known id isIn
          · exact .inl isOwn
          · rw [List.mem_append, List.mem_singleton, not_or] at free
            exact .inr free
        refine ⟨by rw [List.length_cons, List.length_cons, length], ?_, ?_, ?_⟩
        · refine List.nodup_cons.mpr ⟨?_, restDistinct⟩
          intro isIn
          obtain isOwn | ⟨_, different⟩ := other minted isIn
          · exact absent (included isOwn)
          · exact different rfl
        · intro id isIn
          obtain isFirst | isLater := List.mem_cons.mp isIn
          · rw [isFirst]
            exact .inr absent
          · exact (other id isLater).imp_right And.left
        · intro ownValid id isIn
          obtain isFirst | isLater := List.mem_cons.mp isIn
          · rw [isFirst, isId]
            exact isValidId_minted small
          · exact valid ownValid id isLater
      · rename_i given
        rw [if_neg given] at included distinct ⊢
        obtain ⟨others, rest, same⟩ := bind_eq_ok.mp parsed
        cases same
        obtain ⟨own, ownDistinct⟩ := List.nodup_cons.mp distinct
        obtain ⟨length, restDistinct, known, valid⟩ :=
          ih rest (fun id isIn => included (List.mem_cons_of_mem _ isIn)) ownDistinct
        refine ⟨by rw [List.length_cons, List.length_cons, length], ?_, ?_, ?_⟩
        · refine List.nodup_cons.mpr ⟨?_, restDistinct⟩
          intro isIn
          obtain isOwn | free := known _ isIn
          · exact own isOwn
          · exact free (included List.mem_cons_self)
        · intro id isIn
          obtain isFirst | isLater := List.mem_cons.mp isIn
          · rw [isFirst]
            exact .inl List.mem_cons_self
          · exact (known id isLater).imp_left (List.mem_cons_of_mem _)
        · intro ownValid id isIn
          obtain isFirst | isLater := List.mem_cons.mp isIn
          · rw [isFirst]
            exact ownValid _ List.mem_cons_self
          · exact valid (fun id isOwn => ownValid id (List.mem_cons_of_mem _ isOwn)) id isLater

theorem assignIds_ok {ids : List String} {rows : List Object} (parsed : assignIds serde rows = .ok ids)
    : ids.length = rows.length ∧ ids.Nodup ∧ ∀ id ∈ ids, isValidId id := by
  obtain ⟨taken, explicit, minted⟩ := bind_eq_ok.mp parsed
  obtain ⟨same, distinct, valid⟩ := explicitIds_ok explicit
  rw [List.nil_append] at same
  subst same
  obtain ⟨length, idsDistinct, _, idsValid⟩ :=
    mintIds_ok minted (List.Subset.refl _) (distinct List.nodup_nil)
  exact ⟨length, idsDistinct, idsValid valid⟩

end Ids

-- Rows that are read

section Reading

variable {serde : Serde}

/-- The rows have their own ids and names. -/
structure Distinct (serde : Serde) (rows : List GenerationRow) : Prop where
  good : ∀ row ∈ rows, GoodRow serde row
  ids : (rows.map (fun row => row.id)).Nodup
  names : (rows.map (fun row => row.name)).Nodup

theorem parseRows_ok {index : ℕ} {names : List (String × ℕ)} {given : List (Object × String)}
    {rows : List GenerationRow} {warnings : List String} (valid : ∀ entry ∈ given, isValidId entry.2)
    (parsed : parseRows serde index names given = .ok (rows, warnings))
    : (∀ row ∈ rows, GoodRow serde row) ∧ rows.map (fun row => row.id) = given.map Prod.snd
      ∧ (rows.map (fun row => row.name)).Nodup ∧ ∀ row ∈ rows, row.name ∉ names.map Prod.fst := by
  induction given generalizing index names rows warnings with
  | nil =>
      cases parsed
      exact ⟨nofun, rfl, List.nodup_nil, nofun⟩
  | cons entry given ih =>
      obtain ⟨fields, rowId⟩ := entry
      rw [parseRows] at parsed
      obtain ⟨⟨row, warned⟩, rowParsed, parsed⟩ := bind_eq_ok.mp parsed
      obtain ⟨⟨others, more⟩, othersParsed, parsed⟩ := bind_eq_ok.mp parsed
      cases parsed
      obtain ⟨good, sameId, free⟩ := parseRow_good (valid _ List.mem_cons_self) rowParsed
      obtain ⟨othersGood, ids, distinct, othersFree⟩ :=
        ih (fun entry isIn => valid entry (List.mem_cons_of_mem _ isIn)) othersParsed
      have notLater : ∀ other ∈ others, other.name ∉ names.map Prod.fst ∧ other.name ≠ row.name := by
        intro other isOther
        have absent := othersFree other isOther
        rw [List.map_append, List.mem_append, not_or] at absent
        exact ⟨absent.1, fun same => absent.2 (List.mem_singleton.mpr same)⟩
      refine ⟨?_, ?_, ?_, ?_⟩
      · intro other isIn
        obtain isFirst | isLater := List.mem_cons.mp isIn
        · rw [isFirst]
          exact good
        · exact othersGood other isLater
      · rw [List.map_cons, List.map_cons, ids, sameId]
      · refine List.nodup_cons.mpr ⟨?_, distinct⟩
        intro isIn
        obtain ⟨other, isOther, same⟩ := List.mem_map.mp isIn
        exact (notLater other isOther).2 same
      · intro other isIn
        obtain isFirst | isLater := List.mem_cons.mp isIn
        · rw [isFirst]
          exact Entries.get?_eq_none_iff.mp free
        · exact (notLater other isLater).1

theorem seedFrom_eq_some {stem : List Char} {taken : List String} {fuel counter : ℕ}
    {candidate name : String} (seeded : seedFrom stem taken fuel counter candidate = some name)
    : name ∉ taken ∧ nameRejection name = none := by
  induction fuel generalizing counter candidate with
  | zero => cases seeded
  | succ fuel ih =>
      rw [seedFrom] at seeded
      split at seeded
      · exact ih seeded
      · rename_i free
        cases seeded
        obtain ⟨absent, accepted⟩ := not_or.mp free
        exact ⟨absent, Option.not_isSome_iff_eq_none.mp accepted⟩

theorem split_find? {α : Type} {entries : List α} {holds : α → Bool} {found : α}
    (isFound : entries.find? holds = some found)
    : entries = entries.takeWhile (fun entry => !holds entry)
      ++ found :: (entries.dropWhile (fun entry => !holds entry)).tail := by
  induction entries with
  | nil => cases isFound
  | cons entry entries ih =>
      by_cases isIt : holds entry
      · rw [List.find?_cons_of_pos isIt] at isFound
        cases isFound
        rw [List.takeWhile_cons_of_neg (by simp [isIt]), List.dropWhile_cons_of_neg (by simp [isIt])]
        rfl
      · rw [List.find?_cons_of_neg isIt] at isFound
        rw [List.takeWhile_cons_of_pos (by simp [isIt]), List.dropWhile_cons_of_pos (by simp [isIt]),
          List.cons_append, ← ih isFound]

theorem default_good {id name : String} (valid : isValidId id) (accepted : nameRejection name = none)
    : GoodRow serde { defaultGeneration id with name } := by
  refine .inl ⟨⟨"hayai-nova", none, true, true⟩, ?_⟩
  constructor
  case retired => rfl
  case raw => rfl
  case engine => rfl
  case detector => exact ⟨"ppocr-manga", by decide, rfl⟩
  case id => exact valid
  case name => exact accepted
  case patchBudget => exact (by decide : DEFAULT_PATCH_BUDGET ∈ PATCH_BUDGETS)
  case precision => exact (by decide : DEFAULT_PRECISION_MODE ∈ PRECISION_MODES)
  case noPrecision => exact nofun
  case pick => exact .inl ⟨rfl, rfl⟩
  case pools => exact ⟨goodWidths_nil _ _ _, goodWidths_nil _ _ _, ⟨.nil, nofun⟩⟩

theorem heir_good {heir : GenerationRow} (good : GoodRow serde heir) (runs : heir.runnable)
    : GoodRow serde { heir with primary := true } := by
  obtain ⟨spec, good⟩ | ⟨why, raw, good⟩ := good
  · exact .inl ⟨spec, good.retired, good.raw, good.engine, good.detector, good.id, good.name,
      good.patchBudget, good.precision, good.noPrecision, good.pick, good.pools⟩
  · rw [good.same] at runs
    cases runs

theorem ensureRunnablePrimary_ok {rows after : List GenerationRow} {warnings : List String}
    (distinct : Distinct serde rows)
    (ensured : ensureRunnablePrimary rows = .ok (after, warnings))
    : Distinct serde after ∧ (rows ≠ [] → after ≠ []) := by
  unfold ensureRunnablePrimary at ensured
  split at ensured
  · cases ensured
    exact ⟨distinct, fun filled => filled⟩
  split at ensured
  · cases ensured
    exact ⟨distinct, fun filled => filled⟩
  split at ensured
  · rename_i id _ name isMinted isSeeded
    obtain ⟨absent, number, small, isId⟩ := mintGenerationId_eq_some isMinted
    obtain ⟨free, accepted⟩ := seedFrom_eq_some isSeeded
    dsimp only at ensured
    split at ensured
    · rename_i heir isHeir
      cases ensured
      have parts := split_find? isHeir
      have isRow := List.mem_of_find?_eq_some isHeir
      have holds := List.find?_some isHeir
      have runs := (Bool.and_eq_true_iff.mp holds).1
      refine ⟨⟨?_, ?_, ?_⟩, fun _ => by simp⟩
      · intro row isIn
        obtain isBefore | isIn := List.mem_append.mp isIn
        · exact distinct.good row ((List.takeWhile_prefix _).subset isBefore)
        obtain isFirst | isAfter := List.mem_cons.mp isIn
        · rw [isFirst]
          exact heir_good (distinct.good heir isRow) runs
        · exact distinct.good row ((List.dropWhile_suffix _).subset (List.mem_of_mem_tail isAfter))
      · have ids := distinct.ids
        rw [parts] at ids
        simpa only [List.map_append, List.map_cons] using ids
      · have names := distinct.names
        rw [parts] at names
        simpa only [List.map_append, List.map_cons] using names
    · cases ensured
      refine ⟨⟨?_, ?_, ?_⟩, fun _ => by simp⟩
      · intro row isIn
        obtain isNew | isOld := List.mem_cons.mp isIn
        · rw [isNew]
          exact default_good (isId ▸ isValidId_minted small) accepted
        · exact distinct.good row isOld
      · exact List.nodup_cons.mpr ⟨absent, distinct.ids⟩
      · exact List.nodup_cons.mpr ⟨free, distinct.names⟩
  · cases ensured

def runsPrimary (row : GenerationRow) : Bool := row.runnable && row.primary

theorem validatePrimary_eq_ok_iff {rows : List GenerationRow}
    : validatePrimary rows = .ok ()
      ↔ rows.countP (fun row => row.runnable) = 0 ∨ rows.countP runsPrimary = 1 := by
  have primaries : rows.countP runsPrimary
      = ((rows.filter (fun row => row.runnable)).filter (fun row => row.primary)).length := by
    rw [List.filter_filter, List.countP_eq_length_filter]
    congr 1
    apply List.filter_congr
    intro row _
    exact Bool.and_comm _ _
  rw [primaries, List.countP_eq_length_filter, List.length_eq_zero_iff]
  unfold validatePrimary
  dsimp only
  split
  · rename_i none
    simp only [List.isEmpty_iff.mp none, true_or]
  · rename_i some
    have notNone : rows.filter (fun row => row.runnable) ≠ [] := by
      intro none
      rw [none] at some
      exact some rfl
    split
    · rename_i noPrimary
      simp [noPrimary, notNone, listErr]
    · rename_i row onePrimary
      simp [onePrimary]
    · rename_i first second others morePrimaries
      simp [morePrimaries, notNone]

structure GoodRows (serde : Serde) (rows : List GenerationRow) : Prop extends Distinct serde rows where
  filled : rows ≠ []
  primary : rows.countP (fun row => row.runnable) = 0 ∨ rows.countP runsPrimary = 1

theorem rowMaps_length {index : ℕ} {values : List Json} {maps : List Object}
    (parsed : rowMaps index values = .ok maps)
    : maps.length = values.length := by
  induction values generalizing index maps with
  | nil =>
      cases parsed
      rfl
  | cons value values ih =>
      cases value with
      | obj fields =>
          obtain ⟨others, othersParsed, same⟩ := bind_eq_ok.mp parsed
          cases same
          rw [List.length_cons, List.length_cons, ih othersParsed]
      | _ => cases parsed

theorem parseGenerationList_good {value : Json} {parsed : ParsedGenerations}
    (isParsed : parseGenerationList serde value = .ok parsed)
    : GoodRows serde parsed.rows := by
  obtain ⟨raw, _, isParsed⟩ := bind_eq_ok.mp isParsed
  split at isParsed
  · cases isParsed
    have good : GoodRow serde { defaultGeneration "g-1" with name := DEFAULT_ENGINE } :=
      default_good (by decide +kernel) (by decide +kernel)
    refine ⟨⟨?_, List.nodup_singleton _, List.nodup_singleton _⟩, List.cons_ne_nil _ _, .inr rfl⟩
    intro row isIn
    rw [List.mem_singleton.mp isIn]
    exact good
  rename_i filled
  obtain ⟨maps, isMaps, isParsed⟩ := bind_eq_ok.mp isParsed
  obtain ⟨ids, isIds, isParsed⟩ := bind_eq_ok.mp isParsed
  obtain ⟨⟨rows, warned⟩, isRows, isParsed⟩ := bind_eq_ok.mp isParsed
  obtain ⟨⟨after, more⟩, isEnsured, isParsed⟩ := bind_eq_ok.mp isParsed
  obtain ⟨_, isValid, isParsed⟩ := bind_eq_ok.mp isParsed
  cases isParsed
  obtain ⟨length, idsDistinct, valid⟩ := assignIds_ok isIds
  have zipped : (maps.zip ids).map Prod.snd = ids := List.map_snd_zip (by omega)
  have zipValid : ∀ entry ∈ maps.zip ids, isValidId entry.2 := by
    intro entry isIn
    exact valid _ (List.of_mem_zip isIn).2
  obtain ⟨good, sameIds, names, _⟩ := parseRows_ok zipValid isRows
  rw [zipped] at sameIds
  have rowsFilled : rows ≠ [] := by
    rintro rfl
    have noIds : ids = [] := sameIds.symm
    rw [noIds, rowMaps_length isMaps] at length
    exact filled (List.isEmpty_iff.mpr (List.length_eq_zero_iff.mp length.symm))
  have distinct : Distinct serde rows := ⟨good, sameIds ▸ idsDistinct, names⟩
  obtain ⟨afterDistinct, afterFilled⟩ := ensureRunnablePrimary_ok distinct isEnsured
  exact ⟨afterDistinct, afterFilled rowsFilled, validatePrimary_eq_ok_iff.mp isValid⟩

-- Rows that are read again

theorem valueStr_savedId {row : GenerationRow} (good : GoodRow serde row)
    : valueStr serde (row.fields.get? "id") = row.id ∧ row.id ≠ "" ∧ isValidId row.id := by
  obtain ⟨spec, good⟩ | ⟨why, raw, good⟩ := good
  · have isActive : row.fields = row.activeFields := by
      unfold GenerationRow.fields
      rw [good.retired]
    obtain ⟨filled, trimmed⟩ := validId_facts good.id
    rw [isActive, activeFields_get?.1]
    exact ⟨trimmed, filled, good.id⟩
  · obtain ⟨filled, trimmed⟩ := validId_facts good.id
    rw [retiredFields_get? (by rw [good.same]; rfl) (by rw [good.same]; rfl)]
    exact ⟨trimmed, filled, good.id⟩

theorem explicitIds_saved {index : ℕ} {taken : List String} {rows : List GenerationRow}
    (good : ∀ row ∈ rows, GoodRow serde row)
    (distinct : (taken ++ rows.map (fun row => row.id)).Nodup)
    : explicitIds serde index taken (rows.map GenerationRow.fields)
      = .ok (taken ++ rows.map (fun row => row.id)) := by
  induction rows generalizing index taken with
  | nil =>
      rw [List.map_nil, List.map_nil, List.append_nil]
      rfl
  | cons row rows ih =>
      obtain ⟨isId, filled, valid⟩ := valueStr_savedId (good row List.mem_cons_self)
      have regrouped : taken ++ (row :: rows).map (fun row => row.id)
          = (taken ++ [row.id]) ++ rows.map (fun row => row.id) := by
        rw [List.map_cons, List.append_assoc, List.singleton_append]
      have free : row.id ∉ taken := by
        intro isTaken
        exact (List.nodup_append.mp distinct).2.2 _ isTaken _ List.mem_cons_self rfl
      rw [List.map_cons, explicitIds, isId, if_neg filled, if_neg (not_not.mpr valid), if_neg free]
      rw [regrouped] at distinct ⊢
      exact ih (fun row isIn => good row (List.mem_cons_of_mem _ isIn)) distinct

theorem mintIds_saved {taken : List String} {rows : List GenerationRow}
    (good : ∀ row ∈ rows, GoodRow serde row)
    : mintIds serde taken (rows.map GenerationRow.fields) = .ok (rows.map (fun row => row.id)) := by
  induction rows with
  | nil => rfl
  | cons row rows ih =>
      obtain ⟨isId, filled, _⟩ := valueStr_savedId (good row List.mem_cons_self)
      rw [List.map_cons, mintIds, isId, if_neg filled]
      exact bind_eq_ok.mpr
        ⟨_, ih (fun row isIn => good row (List.mem_cons_of_mem _ isIn)), rfl⟩

theorem rowMaps_saved {index : ℕ} {rows : List GenerationRow}
    : rowMaps index (rows.map GenerationRow.toValue) = .ok (rows.map GenerationRow.fields) := by
  induction rows generalizing index with
  | nil => rfl
  | cons row rows ih => exact bind_eq_ok.mpr ⟨_, ih, rfl⟩

theorem parseRows_saved (shown : ∀ value : ℕ, serde.display (numberJson value) = toString value)
    (index : ℕ) (names : List (String × ℕ)) {rows : List GenerationRow}
    (good : ∀ row ∈ rows, GoodRow serde row) (distinct : (rows.map (fun row => row.name)).Nodup)
    (free : ∀ row ∈ rows, row.name ∉ names.map Prod.fst)
    : ∃ again warnings,
      parseRows serde index names (rows.map (fun row => (row.fields, row.id))) = .ok (again, warnings)
        ∧ List.Forall₂ SameRow rows again
        ∧ again.map GenerationRow.fields = rows.map GenerationRow.fields
        ∧ ∀ row ∈ again, row.raw.any isEnabledPrimary = false := by
  induction rows generalizing index names with
  | nil => exact ⟨[], [], rfl, .nil, rfl, nofun⟩
  | cons row rows ih =>
      obtain ⟨notLater, laterDistinct⟩ := List.nodup_cons.mp distinct
      obtain ⟨again, warned, parsed, same, sameFields, notPrimary⟩ :=
        parseRow_saved index shown (good row List.mem_cons_self)
          (Entries.get?_eq_none_iff.mpr (free row List.mem_cons_self))
      have sameName : again.name = row.name := by
        have equal := congrArg (fun row : GenerationRow => row.name) same.fields
        exact equal
      obtain ⟨others, more, othersParsed, othersSame, othersFields, othersNotPrimary⟩ :=
        ih (index + 1) (names ++ [(again.name, index)])
          (fun row isIn => good row (List.mem_cons_of_mem _ isIn)) laterDistinct (by
            intro other isIn
            rw [List.map_append, List.mem_append, not_or]
            refine ⟨free other (List.mem_cons_of_mem _ isIn), ?_⟩
            intro isName
            rw [List.map_singleton, List.mem_singleton, sameName] at isName
            exact notLater (List.mem_map.mpr ⟨other, isIn, isName⟩))
      refine ⟨again :: others, warned ++ more, ?_, .cons same othersSame, ?_, ?_⟩
      · exact bind_eq_ok.mpr ⟨_, parsed, bind_eq_ok.mpr ⟨_, othersParsed, rfl⟩⟩
      · rw [List.map_cons, List.map_cons, sameFields, othersFields]
      · intro other isIn
        obtain isFirst | isLater := List.mem_cons.mp isIn
        · rw [isFirst]
          exact notPrimary
        · exact othersNotPrimary other isLater

theorem countP_same {rows again : List GenerationRow} (same : List.Forall₂ SameRow rows again)
    {holds : GenerationRow → Bool} (blind : ∀ row, holds { row with raw := none } = holds row)
    : again.countP holds = rows.countP holds := by
  induction same with
  | nil => rfl
  | @cons row other rows others first _ ih =>
      have sameHolds : holds other = holds row := by
        rw [← blind other, first.fields, blind row]
      rw [List.countP_cons, List.countP_cons, ih, sameHolds]

theorem parseGenerationList_saved
    (shown : ∀ value : ℕ, serde.display (numberJson value) = toString value)
    {rows : List GenerationRow} (good : GoodRows serde rows)
    : ∃ again, parseGenerationList serde (savedRows rows) = .ok again
      ∧ List.Forall₂ SameRow rows again.rows ∧ savedRows again.rows = savedRows rows := by
  obtain ⟨again, warnings, parsed, same, sameFields, notPrimary⟩ :=
    parseRows_saved shown 0 [] good.good good.names (fun _ _ => nofun)
  have notEmpty : (rows.map GenerationRow.toValue).isEmpty = false := by
    rw [List.isEmpty_eq_false_iff]
    exact fun none => good.filled (List.map_eq_nil_iff.mp none)
  have ids : assignIds serde (rows.map GenerationRow.fields) = .ok (rows.map (fun row => row.id)) :=
    bind_eq_ok.mpr ⟨_, explicitIds_saved good.good good.ids, mintIds_saved good.good⟩
  have zipped : (rows.map GenerationRow.fields).zip (rows.map (fun row => row.id))
      = rows.map (fun row => (row.fields, row.id)) :=
    List.zip_map' ..
  have ensured : ensureRunnablePrimary again = .ok (again, []) := by
    unfold ensureRunnablePrimary
    split
    · rfl
    · refine if_pos ?_
      rw [List.any_eq_true]
      rintro ⟨row, isRow, lost⟩
      rw [Bool.and_eq_true_iff, notPrimary row isRow] at lost
      cases lost.2
  have valid : validatePrimary again = .ok () := by
    rw [validatePrimary_eq_ok_iff, countP_same same (fun _ => rfl), countP_same same (fun _ => rfl)]
    exact good.primary
  refine ⟨⟨again, warnings ++ []⟩, ?_, same, ?_⟩
  · refine bind_eq_ok.mpr ⟨rows.map GenerationRow.toValue, rfl, ?_⟩
    rw [notEmpty]
    refine bind_eq_ok.mpr ⟨_, rowMaps_saved, ?_⟩
    refine bind_eq_ok.mpr ⟨_, ids, ?_⟩
    rw [zipped]
    refine bind_eq_ok.mpr ⟨_, parsed, ?_⟩
    refine bind_eq_ok.mpr ⟨_, ensured, ?_⟩
    exact bind_eq_ok.mpr ⟨_, valid, rfl⟩
  · have values (rows : List GenerationRow)
        : rows.map GenerationRow.toValue = (rows.map GenerationRow.fields).map Json.obj := by
      rw [List.map_map]
      rfl
    rw [savedRows, savedRows, values, values, sameFields]

end Reading

-- What survives

/-- What is asked of rows that were read. -/
structure Survives (serde : Serde) (rows : List GenerationRow) : Prop where
  ids : (rows.map (fun row => row.id)).Nodup
  names : (rows.map (fun row => row.name)).Nodup
  primary : (∃ row ∈ rows, row.runnable) → rows.countP runsPrimary = 1
  saved
    : ∃ again, parseGenerationList serde (savedRows rows) = .ok again
        ∧ List.Forall₂ SameRow rows again.rows ∧ savedRows again.rows = savedRows rows
  minted : ∃ id, mintGenerationId (rows.map (fun row => row.id)) = some (id, false)
    ∧ id ∉ rows.map (fun row => row.id)

/-- Rows that are read survive being saved exactly if none of their ids has the greatest number. -/
theorem generations_survive_iff {serde : Serde}
    (shown : ∀ value : ℕ, serde.display (numberJson value) = toString value) {value : Json}
    {parsed : ParsedGenerations} (isParsed : parseGenerationList serde value = .ok parsed)
    : Survives serde parsed.rows ↔ ∀ row ∈ parsed.rows, numberOf row.id ≠ some (2 ^ 64 - 1) := by
  have good := parseGenerationList_good isParsed
  have fresh := @mintGenerationId_fresh_iff (parsed.rows.map (fun row => row.id))
  rw [List.forall_mem_map] at fresh
  constructor
  · intro survives
    exact fresh.mp survives.minted
  · intro small
    refine ⟨good.ids, good.names, ?_, parseGenerationList_saved shown good, fresh.mpr small⟩
    rintro ⟨row, isRow, runs⟩
    obtain none | one := good.primary
    · exact absurd runs (List.countP_eq_zero.mp none row isRow)
    · exact one

/-- Numbers show their digits; nothing else is shown or read here. -/
def digitsOnly : Serde where
  display
    | .num (.int value) => toString value
    | _ => ""
  fromStr _ := .error "not read"

theorem generations_survive_iff_default
    : Survives digitsOnly [defaultGeneration "g-1"]
      ↔ ∀ row ∈ [defaultGeneration "g-1"], numberOf row.id ≠ some (2 ^ 64 - 1) := by
  have isParsed : parseGenerationList digitsOnly .null = .ok ⟨[defaultGeneration "g-1"], []⟩ := rfl
  exact generations_survive_iff (fun _ => rfl) isParsed

def greatestId : Json :=
  .arr [.obj [
    ("id", .str "g-18446744073709551615"),
    ("name", .str "nova"),
    ("engine", .str "hayai-nova"),
    ("primary", .bool true)
  ]]

/-- The row is read, and then no id can be minted without an overflow. -/
theorem not_survives_greatestId
    : ∃ parsed, parseGenerationList digitsOnly greatestId = .ok parsed
      ∧ ¬ Survives digitsOnly parsed.rows := by
  have ids : (parseGenerationList digitsOnly greatestId).toOption.map
      (fun parsed => parsed.rows.map (fun row => row.id))
      = some ["g-18446744073709551615"] := by
    decide +kernel
  cases isParsed : parseGenerationList digitsOnly greatestId with
  | error failure =>
      rw [isParsed] at ids
      cases ids
  | ok parsed =>
      refine ⟨parsed, rfl, fun survives => ?_⟩
      rw [isParsed] at ids
      have fresh := mintGenerationId_fresh_iff.mp survives.minted
      have same : parsed.rows.map (fun row => row.id) = ["g-18446744073709551615"] := Option.some.inj ids
      rw [same] at fresh
      exact fresh _ List.mem_cons_self (by decide +kernel)

end MokuroBunko.Config
