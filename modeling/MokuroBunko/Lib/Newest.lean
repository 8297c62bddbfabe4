import Mathlib.Order.Lattice
import Mathlib.Data.List.Perm.Basic
import Mathlib.Data.List.Nodup

/-! A register that keeps the newest of the copies written to it. A copy that gives nothing has to
be strictly newer than what is there; any other also wins a tie.
-/

namespace MokuroBunko.Lib.Newest

variable {α σ : Type*} [LinearOrder σ] (stamp : α → σ) (gives : α → Bool)

/-- The copy kept of what is stored and what comes in. -/
def merge (stored : Option α) (incoming : α) : α :=
  match stored with
  | none => incoming
  | some stored =>
      if stamp stored < stamp incoming ∨ (gives incoming ∧ stamp stored = stamp incoming) then
        incoming
      else stored

/-- The register after some writes. -/
def run (stored : Option α) (writes : List α) : Option α :=
  writes.foldl (fun stored incoming => some (merge stamp gives stored incoming)) stored

theorem merge_eq_or (stored : Option α) (incoming : α)
    : merge stamp gives stored incoming = incoming
      ∨ some (merge stamp gives stored incoming) = stored := by
  cases stored with
  | none => exact Or.inl rfl
  | some stored =>
      simp only [merge]
      split
      · exact Or.inl rfl
      · exact Or.inr rfl

theorem le_merge (stored : Option α) (incoming : α)
    : (∀ old ∈ stored, stamp old ≤ stamp (merge stamp gives stored incoming))
      ∧ stamp incoming ≤ stamp (merge stamp gives stored incoming) := by
  cases stored with
  | none =>
      refine ⟨?_, le_refl _⟩
      intro old absent
      cases absent
  | some old =>
      simp only [merge, Option.mem_some_iff, forall_eq']
      split
      · rename_i wins
        exact ⟨wins.elim le_of_lt (fun tie => le_of_eq tie.2), le_refl _⟩
      · rename_i loses
        exact ⟨le_refl _, le_of_not_gt (fun newer => loses (Or.inl newer))⟩

variable {stamp gives}

theorem merge_twice (stored : Option α) (incoming : α)
    : merge stamp gives (some (merge stamp gives stored incoming)) incoming
      = merge stamp gives stored incoming := by
  cases stored with
  | none => simp [merge]
  | some stored =>
      simp only [merge]
      split_ifs <;> grind

theorem merge_comm (stored : Option α) {first second : α}
    (different : stamp first ≠ stamp second)
    : merge stamp gives (some (merge stamp gives stored first)) second
      = merge stamp gives (some (merge stamp gives stored second)) first := by
  cases stored with
  | none =>
      simp only [merge]
      split_ifs <;> grind
  | some stored =>
      simp only [merge]
      split_ifs <;> grind

theorem run_newest {stored : Option α} {writes : List α} {kept : α}
    (found : run stamp gives stored writes = some kept)
    : kept ∈ stored.toList ++ writes
      ∧ ∀ other ∈ stored.toList ++ writes, stamp other ≤ stamp kept := by
  induction writes generalizing stored with
  | nil =>
      rw [run, List.foldl_nil] at found
      simp [found]
  | cons incoming writes ih =>
      obtain ⟨member, newest⟩ := ih found
      obtain ⟨older, newer⟩ := le_merge stamp gives stored incoming
      rw [Option.toList_some, List.singleton_append] at member newest
      have merged := newest _ List.mem_cons_self
      refine ⟨?_, ?_⟩
      · obtain same | later := List.mem_cons.mp member
        · obtain won | lost := merge_eq_or stamp gives stored incoming
          · rw [same, won]
            simp
          · rw [← lost, same]
            simp
        · simp [later]
      · intro other present
        obtain old | rest := List.mem_append.mp present
        · exact le_trans (older other (Option.mem_toList.mp old)) merged
        · obtain rfl | later := List.mem_cons.mp rest
          · exact le_trans newer merged
          · exact newest other (List.mem_cons_of_mem _ later)

theorem run_perm (stored : Option α) {first second : List α} (same : first.Perm second)
    (distinct : (first.map stamp).Nodup)
    : run stamp gives stored first = run stamp gives stored second := by
  apply same.foldl_eq'
  intro left leftIn right rightIn stored
  by_cases twice : left = right
  · rw [twice]
  · have different : stamp left ≠ stamp right :=
      fun tie => twice (List.inj_on_of_nodup_map distinct leftIn rightIn tie)
    exact congrArg some (merge_comm stored different)

end MokuroBunko.Lib.Newest
