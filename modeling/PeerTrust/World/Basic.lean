import PeerTrust.Tls.Mode
import PeerTrust.Trust.Pool

/-!
# The world of validators

The files, the environment, and the contents of all pools, slots, collectors and mode flags, with
the log of what happened. An action can fail, and it keeps what it did until then. Slots can come to
hold themselves. Such validators have no snapshot, and an action that goes round in circles through
them does not return.
-/

namespace PeerTrust

/-- Everything that can change. -/
structure World where
  files : Files
  environment : List (String × String)
  pools : List Pool
  slots : List Validator
  collectors : List (List Certificate)
  /-- Flags that say whether mutual authentication is on, once they are set. -/
  modes : List Mode
  /-- What was told to the log, in order. -/
  log : List Event

namespace World

/-- A world in which nothing was made yet. -/
def start (files : Files) (environment : List (String × String)) : World :=
  ⟨files, environment, [], [], [], [], []⟩

/-- The snapshot of a pool. -/
def poolSnapshot? (world : World) (number : Nat) : Option Snapshot :=
  world.pools[number]?.map (·.snapshot number)

/-- The snapshot of a validator that passes through at most as many slots as given. -/
def snapshotWithin (world : World) : Nat → Validator → Option Snapshot
  | 0, validator => validator.snapshotWith world.poolSnapshot? fun _ => none
  | depth + 1, validator =>
      validator.snapshotWith world.poolSnapshot? fun slot =>
        world.slots[slot]?.bind (world.snapshotWithin depth)

/-- The snapshot of a validator. No way through the slots is longer than their number, unless it
comes back to a slot. -/
def snapshot? (world : World) (validator : Validator) : Option Snapshot :=
  world.snapshotWithin world.slots.length validator

/-- Adds to the log. -/
def tell (world : World) (events : List Event) : World := { world with log := world.log ++ events }

/-- The world after an effect of a validation. -/
def apply (world : World) : Effect → World
  | .tell event => world.tell [event]
  | .record collector chain =>
      { world with
        collectors := world.collectors.modify collector fun recorded => recorded ++ chain }

/-- The world after effects one after the other. -/
def applyAll (world : World) (effects : List Effect) : World := effects.foldl apply world

end World

/-- Something that is done to the world. It may fail with an error, or not return at all. -/
abbrev Action := ExceptT TrustError (StateT World Option)

namespace Action

/-- Does an action. -/
def perform {α : Type} (action : Action α) (world : World) :
    Option (Except TrustError α × World) := action.run.run world

/-- The action that does not return. -/
def diverge {α : Type} : Action α := ExceptT.mk fun _ => none

/-- Adds to the log. -/
def tell (events : List Event) : Action Unit := modify (·.tell events)

/-- A value, or the error in its place. -/
def ofExcept {α : Type} : Except TrustError α → Action α
  | .ok value => return value
  | .error error => throw error

/-- A value, or no return where there is none. -/
def ofOption {α : Type} : Option α → Action α
  | some value => return value
  | none => diverge

/-- The snapshot of a validator. -/
def snapshot (validator : Validator) : Action Snapshot := do
  ofOption ((← get).snapshot? validator)

end Action

end PeerTrust
