import Mathlib.Logic.Function.Basic

/-! Programs that call on what is around them, and what such a program brings about when every call
keeps to a contract. The contract speaks of what the program owns, which its calls alone change.
-/

namespace MokuroBunko.Lib

inductive Prog (Call : Type) (Reply : Call → Type) (α : Type) where
  | done (result : α)
  | call (asked : Call) (next : Reply asked → Prog Call Reply α)

/-- What a call asks of the owned state, and what it may answer and leave of it. -/
structure Contract (Call : Type) (Reply : Call → Type) (Owned : Type) where
  requires : Call → Owned → Prop
  gives : (asked : Call) → Owned → Reply asked → Owned → Prop

namespace Prog

variable {Call : Type} {Reply : Call → Type} {Owned α β : Type}

def bind : Prog Call Reply α → (α → Prog Call Reply β) → Prog Call Reply β
  | .done result, rest => rest result
  | .call asked next, rest => .call asked (fun reply => (next reply).bind rest)

instance : Monad (Prog Call Reply) where
  pure := .done
  bind := bind

def ask (asked : Call) : Prog Call Reply (Reply asked) := .call asked .done

/-- The program's result, if it is done. -/
def result? : Prog Call Reply α → Option α
  | .done result => some result
  | .call _ _ => none

/-- Every call finds what it requires, and every way in which the program ends leaves the post. -/
def Ensures (contract : Contract Call Reply Owned)
    : Prog Call Reply α → (α → Owned → Prop) → Owned → Prop
  | .done result, post, owned => post result owned
  | .call asked next, post, owned =>
      contract.requires asked owned
        ∧ ∀ reply after, contract.gives asked owned reply after
          → (next reply).Ensures contract post after

section Rules

variable {contract : Contract Call Reply Owned} {post weaker : α → Owned → Prop} {owned : Owned}

@[simp] theorem ensures_pure (result : α)
    : (pure result : Prog Call Reply α).Ensures contract post owned ↔ post result owned :=
  Iff.rfl

theorem ensures_bind {first : Prog Call Reply α} {rest : α → Prog Call Reply β}
    {post : β → Owned → Prop}
    : (first >>= rest).Ensures contract post owned
      ↔ first.Ensures contract (fun result after => (rest result).Ensures contract post after)
          owned := by
  change (first.bind rest).Ensures contract post owned ↔ _
  induction first generalizing owned with
  | done result => rfl
  | call asked next ih =>
      simp only [bind, Ensures]
      exact and_congr_right fun _ => forall_congr' fun reply => forall_congr' fun after =>
        imp_congr_right fun _ => ih reply

theorem Ensures.mono {program : Prog Call Reply α} (ensures : program.Ensures contract post owned)
    (implies : ∀ result after, post result after → weaker result after)
    : program.Ensures contract weaker owned := by
  induction program generalizing owned with
  | done result => exact implies result owned ensures
  | call asked next ih =>
      refine ⟨ensures.1, ?_⟩
      intro reply after given
      exact ih reply (ensures.2 reply after given)

theorem Ensures.bind {first : Prog Call Reply α} {rest : α → Prog Call Reply β}
    {post : β → Owned → Prop} (ensures : first.Ensures contract weaker owned)
    (continues : ∀ result after, weaker result after → (rest result).Ensures contract post after)
    : (first >>= rest).Ensures contract post owned :=
  ensures_bind.mpr (ensures.mono continues)

theorem Ensures.call {asked : Call} {rest : Reply asked → Prog Call Reply β}
    {post : β → Owned → Prop} (requires : contract.requires asked owned)
    (continues
      : ∀ reply after, contract.gives asked owned reply after
          → (rest reply).Ensures contract post after)
    : (ask asked >>= rest : Prog Call Reply β).Ensures contract post owned :=
  ensures_bind.mpr ⟨requires, continues⟩

end Rules

-- Runs

/-- A program's calls with their answers, in order, and its result. -/
inductive Run : Prog Call Reply α → List (Sigma Reply) → α → Prop where
  | done (result : α) : Run (.done result) [] result
  | call (asked : Call) (next : Reply asked → Prog Call Reply α) (reply : Reply asked)
      (trace : List (Sigma Reply)) (result : α)
      (rest : Run (next reply) trace result)
      : Run (.call asked next) (⟨asked, reply⟩ :: trace) result

/-- Calls of which nothing is asked, and which may answer anything. -/
def anything (Call : Type) (Reply : Call → Type) : Contract Call Reply Unit where
  requires _ _ := True
  gives _ _ _ _ := True

theorem run_pure_iff {result given : α} {trace : List (Sigma Reply)}
    : (pure given : Prog Call Reply α).Run trace result ↔ trace = [] ∧ result = given := by
  constructor
  · intro run
    change (Prog.done given).Run trace result at run
    cases run
    exact ⟨rfl, rfl⟩
  · rintro ⟨rfl, rfl⟩
    exact .done result

theorem run_bind_iff {first : Prog Call Reply α} {rest : α → Prog Call Reply β}
    {trace : List (Sigma Reply)} {result : β}
    : (first >>= rest).Run trace result
      ↔ ∃ before after middle, trace = before ++ after ∧ first.Run before middle
        ∧ (rest middle).Run after result := by
  change (first.bind rest).Run trace result ↔ _
  induction first generalizing trace with
  | done given =>
      constructor
      · intro run
        exact ⟨[], trace, given, rfl, .done given, run⟩
      · rintro ⟨before, after, middle, rfl, start, run⟩
        cases start
        exact run
  | call asked next ih =>
      constructor
      · intro run
        cases run with
        | call _ _ reply later _ run =>
            obtain ⟨before, after, middle, rfl, start, run⟩ := (ih reply).mp run
            exact ⟨⟨asked, reply⟩ :: before, after, middle, rfl, .call asked next reply _ _ start, run⟩
      · rintro ⟨before, after, middle, rfl, start, run⟩
        cases start with
        | call _ _ reply later _ start =>
            exact .call asked _ reply _ _ ((ih reply).mpr ⟨_, _, _, rfl, start, run⟩)

theorem run_ask_iff {asked : Call} {rest : Reply asked → Prog Call Reply β}
    {trace : List (Sigma Reply)} {result : β}
    : (ask asked >>= rest : Prog Call Reply β).Run trace result
      ↔ ∃ reply after, trace = ⟨asked, reply⟩ :: after ∧ (rest reply).Run after result := by
  constructor
  · intro run
    change (Prog.call asked rest).Run trace result at run
    cases run with
    | call _ _ reply later _ run => exact ⟨reply, later, rfl, run⟩
  · rintro ⟨reply, after, rfl, run⟩
    exact Run.call asked rest reply after result run

theorem Ensures.run {program : Prog Call Reply α} {post : α → Unit → Prop}
    (ensures : program.Ensures (anything Call Reply) post ()) {trace : List (Sigma Reply)}
    {result : α} (run : program.Run trace result)
    : post result () := by
  induction run with
  | done result => exact ensures
  | call asked next reply trace result rest ih => exact ih (ensures.2 reply () trivial)

end Prog

end MokuroBunko.Lib
