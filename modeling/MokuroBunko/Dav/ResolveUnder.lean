import MokuroBunko.Lib.FileTree
import MokuroBunko.Dav.WriteLocks

/-! Resolving a request path under a folder (`resolve_under` of `paths.rs`). The loop takes the
components one by one and puts the components of a link's target in front of the rest.
-/

namespace MokuroBunko.Dav

open MokuroBunko.Lib

/-- The variables of the loop. -/
structure Resolving where
  pending : List String
  cur : OsPath
  links : ℕ
  probing : Bool
deriving DecidableEq

/-- What one round of the loop does: go on, or end with the path reached or with nothing. -/
inductive Turn where
  | next (state : Resolving)
  | stop (result : Option OsPath)
deriving DecidableEq

/-- The most links the loop follows. -/
def linkBudget : ℕ := 40

section

variable {α : Type} (lstat : OsPath → Option (Node α))

/-- The state after a link was met at `cur`, whose target is read. -/
def Resolving.follow (state : Resolving) (target : String) (rest : List String) : Resolving where
  pending := (components target).filterMap (fun component =>
    match component with
    | .rootDir | .curDir => none
    | .parentDir => some ".."
    | .normal name => some name) ++ rest
  cur := if target.toList.head? = some '/' then [] else state.cur
  links := state.links + 1
  probing := state.probing

/-- One round of the loop. `lstat` is `symlink_metadata` together with `read_link`. -/
def Resolving.turn (state : Resolving) : Turn :=
  match state.pending with
  | [] => .stop (some state.cur)
  | comp :: rest =>
      if comp = "" ∨ comp = "." then .next { state with pending := rest }
      else if comp = ".." then
        if !state.probing then .stop none
        else .next { state with pending := rest, cur := state.cur.dropLast }
      else
        let cur := state.cur ++ [comp]
        if !state.probing then .next { state with pending := rest, cur }
        else
          match lstat cur with
          | some (.link target) =>
              if linkBudget < state.links + 1 then .stop none
              else .next (state.follow target rest)
          | some _ => .next { state with pending := rest, cur }
          | none => .next { state with pending := rest, cur, probing := false }

/-- What a round that goes on may have done. -/
inductive Resolving.Goes (state : Resolving) (comp : String) (rest : List String)
    : Resolving → Prop
  | skip : Goes state comp rest { state with pending := rest }
  | up (looking : state.probing = true)
    : Goes state comp rest { state with pending := rest, cur := state.cur.dropLast }
  | blind (solid : comp ≠ "" ∧ comp ≠ "." ∧ comp ≠ "..") (missing : state.probing = false)
    : Goes state comp rest { state with pending := rest, cur := state.cur ++ [comp] }
  | link (target : String) (looking : state.probing = true)
    (found : lstat (state.cur ++ [comp]) = some (.link target))
    (room : state.links + 1 ≤ linkBudget)
    : Goes state comp rest (state.follow target rest)
  | there (solid : comp ≠ "" ∧ comp ≠ "." ∧ comp ≠ "..") (looking : state.probing = true)
    (node : Node α) (found : lstat (state.cur ++ [comp]) = some node)
    (noLink : ∀ target, node ≠ .link target)
    : Goes state comp rest { state with pending := rest, cur := state.cur ++ [comp] }
  | gone (solid : comp ≠ "" ∧ comp ≠ "." ∧ comp ≠ "..") (looking : state.probing = true)
    (found : lstat (state.cur ++ [comp]) = none)
    : Goes state comp rest
        { state with pending := rest, cur := state.cur ++ [comp], probing := false }

theorem Resolving.turn_cases (state : Resolving)
    : (state.pending = [] ∧ state.turn lstat = .stop (some state.cur))
      ∨ ∃ comp rest, state.pending = comp :: rest
        ∧ (state.turn lstat = .stop none
          ∨ ∃ after, state.turn lstat = .next after ∧ state.Goes lstat comp rest after) := by
  unfold Resolving.turn
  cases pending : state.pending with
  | nil => exact .inl ⟨rfl, rfl⟩
  | cons comp rest =>
      refine .inr ⟨comp, rest, rfl, ?_⟩
      dsimp only
      split
      case isTrue => exact .inr ⟨_, rfl, .skip⟩
      case isFalse filled =>
        rw [not_or] at filled
        split
        case isTrue =>
          cases looking : state.probing with
          | false => exact .inl rfl
          | true => exact .inr ⟨_, rfl, looking ▸ .up looking⟩
        case isFalse inside =>
          have solid : comp ≠ "" ∧ comp ≠ "." ∧ comp ≠ ".." := ⟨filled.1, filled.2, inside⟩
          cases looking : state.probing with
          | false => exact .inr ⟨_, rfl, looking ▸ .blind solid looking⟩
          | true =>
              cases found : lstat (state.cur ++ [comp]) with
              | none => exact .inr ⟨_, rfl, .gone solid looking found⟩
              | some node =>
                  cases node with
                  | folder => exact .inr ⟨_, rfl, looking ▸ .there solid looking _ found nofun⟩
                  | file content =>
                      exact .inr ⟨_, rfl, looking ▸ .there solid looking _ found nofun⟩
                  | link target =>
                      by_cases spent : linkBudget < state.links + 1
                      · exact .inl (if_pos spent)
                      · exact .inr ⟨_, if_neg spent, .link target looking found (by omega)⟩

theorem Resolving.turn_decreases {state after : Resolving}
    (turned : state.turn lstat = .next after)
    : Prod.Lex (· < ·) (· < ·) (linkBudget - after.links, after.pending.length)
        (linkBudget - state.links, state.pending.length) := by
  obtain ⟨_, ended⟩ | ⟨comp, rest, pending, ended | ⟨other, found, goes⟩⟩ :=
    state.turn_cases lstat
  · cases ended.symm.trans turned
  · cases ended.symm.trans turned
  · obtain rfl := Turn.next.inj (found.symm.trans turned)
    have shorter : rest.length < state.pending.length := by simp [pending]
    cases goes with
    | link target _ _ room =>
        apply Prod.Lex.left
        unfold Resolving.follow
        dsimp only
        omega
    | _ => exact .right _ shorter

/-- The loop, round after round. -/
def Resolving.resolve (state : Resolving) : Option OsPath :=
  match _turned : state.turn lstat with
  | .stop result => result
  | .next after => after.resolve
termination_by (linkBudget - state.links, state.pending.length)
decreasing_by exact Resolving.turn_decreases lstat _turned

theorem Resolving.resolve_stop {state : Resolving} {result : Option OsPath}
    (turned : state.turn lstat = .stop result)
    : state.resolve lstat = result := by
  rw [Resolving.resolve]
  split
  case h_1 other found => exact (Turn.stop.inj (found.symm.trans turned))
  case h_2 after found => cases found.symm.trans turned

theorem Resolving.resolve_next {state after : Resolving}
    (turned : state.turn lstat = .next after)
    : state.resolve lstat = after.resolve lstat := by
  rw [Resolving.resolve]
  split
  case h_1 other found => cases found.symm.trans turned
  case h_2 other found => rw [Turn.next.inj (found.symm.trans turned)]

/-- The first so many rounds after a turn. -/
def Resolving.rounds : ℕ → Turn → Turn
  | 0, turn => turn
  | _, .stop result => .stop result
  | count + 1, .next state => rounds count (state.turn lstat)

/-- The state the loop starts in. -/
def Resolving.start (base : OsPath) (rel : String) : Resolving where
  pending := Text.segments '/' rel
  cur := base
  links := 0
  probing := true

/-- `rel` under the canonical folder `base`. -/
def resolveUnder (base : OsPath) (rel : String) : Option OsPath :=
  ((Resolving.start base rel).resolve lstat).filter (fun path => base.isPrefixOf path)

theorem Resolving.rounds_stop (state : Resolving)
    : ∃ count, rounds lstat count (.next state) = .stop (state.resolve lstat) := by
  induction state using Resolving.resolve.induct lstat with
  | case1 state result turned =>
      refine ⟨1, ?_⟩
      rw [rounds, turned, resolve_stop lstat turned]
      rfl
  | case2 state after turned ih =>
      obtain ⟨count, ended⟩ := ih
      refine ⟨count + 1, ?_⟩
      rw [rounds, turned, ended, resolve_next lstat turned]

theorem Resolving.resolve_of_rounds {count : ℕ} {state : Resolving} {result : Option OsPath}
    (ended : rounds lstat count (.next state) = .stop result)
    : state.resolve lstat = result := by
  induction count generalizing state with
  | zero => cases ended
  | succ count ih =>
      rw [rounds] at ended
      cases turned : state.turn lstat with
      | next after =>
          rw [turned] at ended
          rw [resolve_next lstat turned]
          exact ih ended
      | stop out =>
          have same : rounds lstat count (.stop out) = .stop out := by
            cases count <;> rfl
          rw [turned, same] at ended
          rw [resolve_stop lstat turned]
          exact Turn.stop.inj ended

end

-- What every round keeps

variable {α : Type}

theorem Resolving.resolve_induction {lstat : OsPath → Option (Node α)}
    {holds : Resolving → Prop}
    (step : ∀ state comp rest after, holds state → state.pending = comp :: rest
      → state.Goes lstat comp rest after → holds after)
    {state : Resolving} (start : holds state) {path : OsPath}
    (reached : state.resolve lstat = some path)
    : ∃ last, holds last ∧ last.cur = path := by
  induction state using Resolving.resolve.induct lstat with
  | case1 state result turned =>
      rw [resolve_stop lstat turned] at reached
      obtain ⟨_, ended⟩ | ⟨_, _, _, ended | ⟨_, found, _⟩⟩ := state.turn_cases lstat
      · have same := Turn.stop.inj (turned.symm.trans ended)
        exact ⟨state, start, Option.some.inj (same.symm.trans reached)⟩
      · have same := Turn.stop.inj (turned.symm.trans ended)
        cases same.symm.trans reached
      · cases turned.symm.trans found
  | case2 state after turned ih =>
      rw [resolve_next lstat turned] at reached
      obtain ⟨_, ended⟩ | ⟨comp, rest, pending, ended | ⟨other, found, goes⟩⟩ :=
        state.turn_cases lstat
      · cases turned.symm.trans ended
      · cases turned.symm.trans ended
      · obtain rfl := Turn.next.inj (turned.symm.trans found)
        exact ih (step state comp rest after start pending goes) reached

theorem Resolving.solid_follow {state : Resolving} {target comp : String} {rest : List String}
    (solid : ∀ comp ∈ rest, '/' ∉ comp.toList)
    (member : comp ∈ (state.follow target rest).pending)
    : '/' ∉ comp.toList := by
  rcases List.mem_append.mp member with ofTarget | old
  · obtain ⟨component, listed, named⟩ := List.mem_filterMap.mp ofTarget
    cases component with
    | rootDir => cases named
    | curDir => cases named
    | parentDir =>
        obtain rfl := Option.some.inj named
        decide
    | normal name =>
        obtain rfl := Option.some.inj named
        exact (plain_of_components listed).2.2.2
  · exact solid comp old

/-- What is reached has only plain names beyond the names of `base`. -/
structure Resolving.Named (known : String → Prop) (state : Resolving) : Prop where
  names : ∀ name ∈ state.cur, known name ∨ PlainName name
  solid : ∀ comp ∈ state.pending, '/' ∉ comp.toList

theorem Resolving.Named.goes {lstat : OsPath → Option (Node α)} {known : String → Prop}
    {state after : Resolving} {comp : String} {rest : List String} (named : state.Named known)
    (pending : state.pending = comp :: rest) (goes : state.Goes lstat comp rest after)
    : after.Named known := by
  have slashless : '/' ∉ comp.toList := named.solid comp (pending ▸ List.mem_cons_self)
  have later : ∀ comp ∈ rest, '/' ∉ comp.toList := fun other member =>
    named.solid other (pending ▸ List.mem_cons_of_mem _ member)
  have extended : (comp ≠ "" ∧ comp ≠ "." ∧ comp ≠ "..")
      → ∀ name ∈ state.cur ++ [comp], known name ∨ PlainName name := by
    intro solid name member
    rcases List.mem_append.mp member with old | new
    · exact named.names name old
    · obtain rfl := List.mem_singleton.mp new
      exact .inr ⟨solid.1, solid.2.1, solid.2.2, slashless⟩
  cases goes with
  | skip => exact ⟨named.names, later⟩
  | up looking =>
      exact ⟨fun name member => named.names name ((List.dropLast_prefix _).subset member), later⟩
  | blind solid missing => exact ⟨extended solid, later⟩
  | there solid looking node found noLink => exact ⟨extended solid, later⟩
  | gone solid looking found => exact ⟨extended solid, later⟩
  | link target looking found room =>
      refine ⟨?_, fun comp member => solid_follow later member⟩
      unfold Resolving.follow
      dsimp only
      split
      · exact nofun
      · exact named.names

theorem plain_of_resolveUnder {lstat : OsPath → Option (Node α)} {base path : OsPath}
    {rel : String} (found : resolveUnder lstat base rel = some path)
    : ∀ name ∈ path, name ∈ base ∨ PlainName name := by
  obtain ⟨reached, inside⟩ := Option.filter_eq_some_iff.mp found
  have start : (Resolving.start base rel).Named (· ∈ base) :=
    ⟨fun name member => .inl member, fun comp member => Text.not_mem_segment member⟩
  obtain ⟨last, named, rfl⟩ := Resolving.resolve_induction
    (fun _ _ _ _ named pending goes => Resolving.Named.goes named pending goes) start reached
  exact named.names

variable {tree : FileTree α}

/-- What is reached has no link on its way; past a missing component there is nothing, so
nothing needs to be looked at any more. -/
structure Resolving.Sound (tree : FileTree α) (state : Resolving) : Prop where
  free : tree.LinkFree state.cur
  missing : state.probing = false → tree.node state.cur = none

theorem Resolving.Sound.goes {state after : Resolving} {comp : String} {rest : List String}
    (sound : state.Sound tree) (goes : state.Goes tree.lstat comp rest after)
    : after.Sound tree := by
  have here : tree.lstat (state.cur ++ [comp]) = tree.node (state.cur ++ [comp]) :=
    FileTree.lstat_linkFree (by rw [List.dropLast_concat]; exact sound.free)
  have extended : (∀ target, tree.node (state.cur ++ [comp]) ≠ some (.link target))
      → tree.LinkFree (state.cur ++ [comp]) := by
    intro noLink place within target link
    rcases List.prefix_concat_iff.mp within with same | above
    · exact noLink target (same ▸ link)
    · exact sound.free place above target link
  have seen : state.probing = true → ¬ state.probing = false := by
    intro looking blind
    cases looking.symm.trans blind
  cases goes with
  | skip => exact ⟨sound.free, sound.missing⟩
  | up looking =>
      exact ⟨sound.free.above (List.dropLast_prefix _), fun blind => absurd blind (seen looking)⟩
  | blind solid missing =>
      have nothing := sound.missing missing
      exact ⟨sound.free.below_none nothing [comp],
        fun _ => FileTree.node_below_none (by simp [nothing]) (by simp)⟩
  | link target looking found room =>
      refine ⟨?_, fun blind => absurd blind (seen looking)⟩
      unfold Resolving.follow
      dsimp only
      split
      · exact sound.free.above List.nil_prefix
      · exact sound.free
  | there solid looking node found noLink =>
      rw [here] at found
      refine ⟨extended ?_, fun blind => absurd blind (seen looking)⟩
      intro target link
      exact noLink target (Option.some.inj (found.symm.trans link))
  | gone solid looking found =>
      rw [here] at found
      refine ⟨extended ?_, fun _ => found⟩
      intro target link
      cases found.symm.trans link

/-- The loop ends after some number of rounds. A path it returns lies in the folder, has no link
on its way, and where opening it leads anywhere it leads to that very place. -/
theorem resolve_under_contained (tree : FileTree α) {base : OsPath}
    (canonical : tree.LinkFree base) (plain : ∀ name ∈ base, PlainName name) (rel : String)
    : (∃ count, Resolving.rounds tree.lstat count (.next (.start base rel))
        = .stop ((Resolving.start base rel).resolve tree.lstat))
      ∧ ∀ path, resolveUnder tree.lstat base rel = some path
        → base <+: path
          ∧ (∀ place, base <+: place → place <+: path
            → ∀ target, tree.node place ≠ some (.link target))
          ∧ (∀ name ∈ path, PlainName name)
          ∧ (tree.opens path = some path ∨ tree.opens path = none) := by
  refine ⟨Resolving.rounds_stop tree.lstat _, ?_⟩
  intro path found
  obtain ⟨reached, inside⟩ := Option.filter_eq_some_iff.mp found
  have start : (Resolving.start base rel).Sound tree := ⟨canonical, nofun⟩
  obtain ⟨last, sound, rfl⟩ := Resolving.resolve_induction
    (fun _ _ _ _ sound _ goes => Resolving.Sound.goes sound goes) start reached
  refine ⟨List.isPrefixOf_iff_prefix.mp inside, fun place _ within => sound.free place within,
    ?_, FileTree.opens_linkFree sound.free⟩
  intro name member
  exact (plain_of_resolveUnder found name member).elim (plain name) id

def linkedLibrary : FileTree Unit where
  node
    | [] => some .folder
    | ["lib"] => some .folder
    | ["lib", "Series"] => some .folder
    | ["lib", "renamed"] => some (.link "./Series")
    | ["lib", "out"] => some (.link "/etc")
    | ["lib", "loop"] => some (.link "../lib/loop")
    | _ => none
  root := rfl
  nested path name present := by
    rcases path with _ | ⟨first, _ | ⟨second, rest⟩⟩
    · rfl
    · dsimp only [List.cons_append, List.nil_append] at present
      split at present <;> simp_all
    · simp at present

theorem resolve_under_contained_linked
    : resolveUnder linkedLibrary.lstat ["lib"] "renamed//new.cbz"
        = some ["lib", "Series", "new.cbz"]
      ∧ ["lib"] <+: ["lib", "Series", "new.cbz"]
      ∧ resolveUnder linkedLibrary.lstat ["lib"] "out/passwd" = none
      ∧ resolveUnder linkedLibrary.lstat ["lib"] "loop/new.cbz" = none := by
  have ends : ∀ (count : ℕ) {rel : String} {result : Option OsPath},
      Resolving.rounds linkedLibrary.lstat count (.next (.start ["lib"] rel)) = .stop result
      → resolveUnder linkedLibrary.lstat ["lib"] rel
        = result.filter (fun path => ["lib"].isPrefixOf path) := by
    intro count rel result ended
    rw [resolveUnder, Resolving.resolve_of_rounds _ ended]
  have renamed : resolveUnder linkedLibrary.lstat ["lib"] "renamed//new.cbz"
      = some ["lib", "Series", "new.cbz"] :=
    ends 6 (show _ = Turn.stop (some ["lib", "Series", "new.cbz"]) by decide +kernel)
  have canonical : linkedLibrary.LinkFree ["lib"] := by
    intro place within target
    obtain rfl | rfl : place = [] ∨ place = ["lib"] := by
      simpa [List.prefix_cons_iff] using within
    · simp [linkedLibrary]
    · simp [linkedLibrary]
  have plain : ∀ name ∈ ["lib"], PlainName name := by simp [PlainName]
  have facts := (resolve_under_contained linkedLibrary canonical plain "renamed//new.cbz").2
  exact ⟨renamed, (facts _ renamed).1,
    ends 5 (show _ = Turn.stop (some ["etc", "passwd"]) by decide +kernel),
    ends 200 (show _ = Turn.stop none by decide +kernel)⟩

end MokuroBunko.Dav
