import MokuroBunko.Data.Json
import Mathlib.Data.Finset.Erase
import Mathlib.Data.Finset.Insert

/-! What a queue-page visitor calls each machine, and how a viewer's namer names them.
-/

namespace MokuroBunko.Server

open MokuroBunko.Lib MokuroBunko.Data

/-- The hardware key of this server. -/
def LOCAL : String := "local"

/-- What this server is called. -/
def LOCAL_DISPLAY : String := "this server"

/-- `PublicNames`: the aliases given so far. -/
structure PublicNames where
  aliases : OrderedMap String String := .empty
  /-- The machines whose alias an operator chose. -/
  explicit : Finset String := ∅
  count : ℕ := 0

namespace PublicNames

/-- `PublicNames::assign`: a chosen alias, or the next numbered one for a machine without. -/
def assign (names : PublicNames) (name : String) (publicName : Option String)
    : String × PublicNames :=
  let assigned :=
    match publicName.filter (· ≠ "") with
    | some chosen => { names with
        aliases := names.aliases.insert name chosen
        explicit := insert name names.explicit
      }
    | none =>
        if !names.aliases.contains name || name ∈ names.explicit then { names with
          explicit := names.explicit.erase name
          count := names.count + 1
          aliases := names.aliases.insert name ("machine " ++ toString (names.count + 1))
        }
        else names
  ((assigned.aliases.get? name).getD "", assigned)

/-- `PublicNames::name`: this server by its own name, any other machine by its alias. -/
def name (names : PublicNames) (machine : String) : String × PublicNames :=
  if machine = "" ∨ machine = LOCAL then (LOCAL_DISPLAY, names)
  else
    match names.aliases.get? machine with
    | some given => (given, names)
    | none => names.assign machine none

end PublicNames

/-- `Namer`: how a machine is named to this viewer. -/
inductive Namer where
  | admin
  | visitor (names : PublicNames)

namespace Namer

/-- `display_name`: a machine's own name, for administrators. -/
def displayName (machine : Json) : String :=
  match machine.asStr? with
  | some name => if name ≠ "" ∧ name ≠ LOCAL then name else LOCAL_DISPLAY
  | none => LOCAL_DISPLAY

/-- `Namer::name`. -/
def name (namer : Namer) (machine : Json) : String × Namer :=
  match namer with
  | .admin => (displayName machine, .admin)
  | .visitor names =>
      match machine.asStr? with
      | some machine =>
          let (given, names) := names.name machine
          (given, .visitor names)
      | none => (LOCAL_DISPLAY, .visitor names)

/-- A step that names machines, taken over a list in order. -/
def mapNamed {α β : Type} (step : α → Namer → β × Namer) : List α → Namer → List β × Namer
  | [], namer => ([], namer)
  | item :: rest, namer =>
      let (shaped, namer) := step item namer
      let (others, namer) := mapNamed step rest namer
      (shaped :: others, namer)

end Namer

end MokuroBunko.Server
