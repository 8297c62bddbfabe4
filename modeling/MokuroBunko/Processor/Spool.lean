import MokuroBunko.Processor.FetchRules
import MokuroBunko.Lib.Runs
import Mathlib.Algebra.BigOperators.Group.List.Basic
import Mathlib.Data.List.GetD

/-! The archive spool and everything that uses it: any number of fetches, each at one of its calls, and
other holders of placements. Sizes are added in 64 bits.
-/

namespace MokuroBunko.Processor

open MokuroBunko.Lib

/-- A placement of the spool. `owner` is the fetch that it was placed for. -/
structure Placement where
  owner : Option ℕ
  kind : PlacementKind
  size : ℕ
  bytes : List UInt8
  released : Bool

def memoryMargin : ℕ := 2 ^ 30

def diskMargin : ℕ := 256 * 2 ^ 20

/-- What `place` finds out about the machine: the free memory if that is known, whether a memory file
opens, the free space of the disk if its directory is usable, and whether the file on it opens.
-/
structure Probes where
  headroom : Option ℕ
  memfd : Bool
  free : Option ℕ
  opens : Bool

abbrev FetchTask := FetchProg (Option (Except FetchError FetchedArchive))

structure World where
  budget : ℕ
  memoryEnabled : Bool
  inMemory : ℕ
  placements : List Placement
  fetches : List FetchTask

/-- What answers a fetch's call. A write that fails has written so many bytes. -/
inductive Input where
  | cancelled (isCancelled : Bool)
  | sent (sent : Sent)
  | body (body : Body)
  | placed (probes : Probes)
  | written
  | notWritten (error : WriteError) (count : ℕ)
  | reset (worked : Bool)
  | dropped
  | verified (verified : Option Verified)
  | waited (waited : Waited)

inductive SpoolStep where
  | begin (size : Option ℕ) (patience : ℕ)
  | advance (index : ℕ) (input : Input)
  /-- The fetch's task is dropped, and all that it holds with it. -/
  | abandon (index : ℕ)
  | place (size : ℕ) (memory : Bool) (probes : Probes)
  | write (id : ℕ) (data : List UInt8) (failed : Option ℕ)
  | reset (id : ℕ) (worked : Bool)
  | release (id : ℕ)

def wrapAdd (first second : ℕ) : ℕ := (first + second) % 2 ^ 64

namespace World

def start (budget : ℕ) (memoryEnabled : Bool) : World := ⟨budget, memoryEnabled, 0, [], []⟩

def fitsMemory (world : World) (size : ℕ) (memory : Bool) (probes : Probes) : Bool :=
  memory && world.memoryEnabled && 0 < world.budget
    && (wrapAdd world.inMemory size ≤ world.budget
      && probes.headroom.all (wrapAdd size memoryMargin ≤ ·))
    && probes.memfd

/-- Another placement for the owner. -/
def added (world : World) (owner : Option ℕ) (kind : PlacementKind) (size : ℕ) : World :=
  { world with placements := world.placements ++ [⟨owner, kind, size, [], false⟩] }

def placeOnDisk (world : World) (owner : Option ℕ) (size : ℕ) (probes : Probes)
    : Except SpoolError Handle × World :=
  match probes.free with
  | none => (.error .noRoom, world)
  | some free =>
      if free < wrapAdd size diskMargin then (.error .noRoom, world)
      else if probes.opens then
        (.ok ⟨world.placements.length, .disk, size⟩, world.added owner .disk size)
      else (.error .io, world)

def place (world : World) (owner : Option ℕ) (size : ℕ) (memory : Bool) (probes : Probes)
    : Except SpoolError Handle × World :=
  if world.fitsMemory size memory probes then
    (.ok ⟨world.placements.length, .memory, size⟩,
      { world.added owner .memory size with inMemory := wrapAdd world.inMemory size })
  else world.placeOnDisk owner size probes

/-- `release`, and the drop of a placement: once, and with saturation. -/
def release (world : World) (id : ℕ) : World :=
  match world.placements[id]? with
  | none => world
  | some placement =>
      if placement.released then world
      else
        {
          world with
          placements := world.placements.set id { placement with released := true }
          inMemory :=
            if placement.kind = .memory then world.inMemory - placement.size else world.inMemory
        }

/-- The owner's placement, while it is held. -/
def heldBy (world : World) (owner : Option ℕ) (id : ℕ) : Option Placement :=
  (world.placements[id]?).filter fun placement =>
    placement.owner = owner && !placement.released

/-- The owner's file with other bytes. -/
def rewrite (world : World) (owner : Option ℕ) (id : ℕ) (change : List UInt8 → List UInt8)
    : World :=
  match world.heldBy owner id with
  | none => world
  | some placement =>
      {
        world with
        placements := world.placements.set id { placement with bytes := change placement.bytes }
      }

/-- What a fetch's call does, if the input is one for it. -/
def perform (world : World) (owner : ℕ)
    : (asked : FetchCall) → Input → Option (asked.Reply × World)
  | .isCancelled, .cancelled isCancelled => some (isCancelled, world)
  | .request _ _, .sent sent => some (sent, world)
  | .body _ _, .body body => some (body, world)
  | .place size memory, .placed probes => some (world.place (some owner) size memory probes)
  | .write id data, .written =>
      match world.heldBy (some owner) id with
      | none => some (.error .io, world)
      | some _ => some (.ok (), world.rewrite (some owner) id (· ++ data))
  | .write id data, .notWritten error count =>
      some (.error error, world.rewrite (some owner) id (· ++ data.take count))
  | .reset id, .reset worked =>
      match worked, world.heldBy (some owner) id with
      | true, some _ => some (true, world.rewrite (some owner) id (fun _ => []))
      | _, _ => some (false, world)
  | .drop id, .dropped => some ((), world.release id)
  | .verify _, .verified verified => some (verified, world)
  | .wait, .waited waited => some (waited, world)
  | _, _ => none

/-- The fetch takes its next step. -/
def advance (world : World) (index : ℕ) (input : Input) : World :=
  match world.fetches[index]? with
  | some (.call asked next) =>
      match world.perform index asked input with
      | some (reply, after) => { after with fetches := world.fetches.set index (next reply) }
      | none => world
  | _ => world

/-- Whoever holds the placement now is not a fetch under way. -/
def isFree (world : World) (placement : Placement) : Bool :=
  placement.owner.all fun owner =>
    (world.fetches[owner]?).all fun program => program.result?.isSome

def releaseOwned (world : World) (owner : ℕ) : World :=
  (List.range world.placements.length).foldl
    (fun world id => if (world.heldBy (some owner) id).isSome then world.release id else world) world

/-- The task has ended without a result. -/
def stopped (world : World) (index : ℕ) : World :=
  { world with fetches := world.fetches.set index (.done none) }

def step (crc32 : List UInt8 → UInt32) (maxRestarts : ℕ) (world : World) : SpoolStep → World
  | .begin size patience =>
      { world with fetches := world.fetches ++ [fetch crc32 maxRestarts size patience] }
  | .advance index input => world.advance index input
  | .abandon index => (world.releaseOwned index).stopped index
  | .place size memory probes => (world.place none size memory probes).2
  | .write id data failed =>
      match failed with
      | none => world.rewrite none id (· ++ data)
      | some count => world.rewrite none id (· ++ data.take count)
  | .reset id worked => if worked then world.rewrite none id (fun _ => []) else world
  | .release id =>
      match world.placements[id]? with
      | none => world
      | some placement => if world.isFree placement then world.release id else world

-- Accounts

/-- What a placement reserves. -/
def reservation (placement : Placement) : ℕ :=
  if placement.kind = .memory ∧ placement.released = false then placement.size else 0

/-- The sizes of the memory placements that are held. -/
def reserved (world : World) : ℕ := (world.placements.map reservation).sum

/-- What is promised of the spool. -/
structure Kept (world : World) : Prop where
  reserved : world.inMemory = world.reserved
  budget : world.inMemory ≤ world.budget
  written
    : ∀ placement ∈ world.placements, placement.kind = .memory
        → placement.bytes.length ≤ placement.size
  empty : (∀ placement ∈ world.placements, placement.released) → world.inMemory = 0

end World

end MokuroBunko.Processor
