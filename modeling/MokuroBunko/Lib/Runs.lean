import Mathlib.Data.List.Basic
import Mathlib.Order.Nat

/-! Runs of a system that takes one step after another: what a step keeps in the states that meet its
condition, a run of such steps keeps; and leads-to along an infinite run, over predicates on the
run's positions.
-/

namespace MokuroBunko.Lib.Runs

variable {State Step : Type} {step : State → Step → State} {meets : State → Step → Prop}

/-- Every step of the run meets the condition, in the state it is taken in. -/
def Orderly (step : State → Step → State) (meets : State → Step → Prop) : State → List Step → Prop
  | _, [] => True
  | state, taken :: rest => meets state taken ∧ Orderly step meets (step state taken) rest

instance decidableOrderly [∀ state taken, Decidable (meets state taken)]
    : ∀ (state : State) (run : List Step), Decidable (Orderly step meets state run)
  | _, [] => isTrue trivial
  | state, taken :: rest =>
      have := decidableOrderly (step state taken) rest
      inferInstanceAs (Decidable (meets state taken ∧ Orderly step meets (step state taken) rest))

theorem orderly_append {state : State} {run later : List Step}
    : Orderly step meets state (run ++ later)
      ↔ Orderly step meets state run ∧ Orderly step meets (run.foldl step state) later := by
  induction run generalizing state with
  | nil => simp [Orderly]
  | cons taken rest ih => simp [Orderly, ih, and_assoc]

theorem Orderly.invariant {Holds : State → Prop}
    (keeps : ∀ state taken, Holds state → meets state taken → Holds (step state taken))
    {state : State} {run : List Step} (orderly : Orderly step meets state run)
    (holds : Holds state)
    : Holds (run.foldl step state) := by
  induction run generalizing state with
  | nil => exact holds
  | cons taken rest ih => exact ih orderly.2 (keeps state taken holds orderly.1)

end MokuroBunko.Lib.Runs

namespace MokuroBunko.Lib

/-- Whenever the first holds, the second holds then or later. -/
def LeadsTo (p q : ℕ → Prop) : Prop := ∀ n, p n → ∃ m, n ≤ m ∧ q m

/-- It holds again and again. -/
def Recurs (p : ℕ → Prop) : Prop := ∀ n, ∃ m, n ≤ m ∧ p m

namespace LeadsTo

variable {p q r turn : ℕ → Prop}

theorem ensures (kept : ∀ n, p n → q n ∨ p (n + 1)) (recurs : Recurs turn)
    (helps : ∀ n, p n → turn n → q n)
    : LeadsTo p q := by
  intro n now
  obtain ⟨m, after, isTurn⟩ := recurs n
  have goesOn : ∀ d, p (n + d) ∨ ∃ k, n ≤ k ∧ q k := by
    intro d
    induction d with
    | zero => exact .inl now
    | succ d ih =>
        rcases ih with still | done
        · rcases kept (n + d) still with done | still
          · exact .inr ⟨n + d, Nat.le_add_right n d, done⟩
          · exact .inl still
        · exact .inr done
  obtain ⟨d, rfl⟩ := Nat.exists_eq_add_of_le after
  rcases goesOn d with still | done
  · exact ⟨n + d, after, helps (n + d) still isTurn⟩
  · exact done

theorem stage (next : LeadsTo q r) (kept : ∀ n, p n → (r n ∨ q (n + 1)) ∨ p (n + 1))
    (recurs : Recurs turn) (helps : ∀ n, p n → turn n → r n ∨ q (n + 1))
    : LeadsTo p r := by
  intro n now
  obtain ⟨m, after, done | there⟩ := ensures kept recurs helps n now
  · exact ⟨m, after, done⟩
  · obtain ⟨k, later, done⟩ := next (m + 1) there
    exact ⟨k, after.trans (Nat.le_of_succ_le later), done⟩

end LeadsTo

end MokuroBunko.Lib
