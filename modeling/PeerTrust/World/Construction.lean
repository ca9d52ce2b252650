import PeerTrust.Trust.Builder
import PeerTrust.Trust.Loading
import PeerTrust.World.Basic

/-!
# Making validators

The actions that make validators: with fixed anchors, with a pool, in a slot, of several others, and
by a builder.
-/

namespace PeerTrust.World

/-- Loads a trust store. -/
def loadStore (path : String) (encoding : Encoding) : Action Store := do
  let store ← Action.ofExcept (Store.load (← get).files path encoding)
  Action.tell [.storeLoaded path store.certificates.length]
  return store

/-- Loads the anchors of the platform. -/
def loadPlatform (engine : Engine) : Action Store := do
  let world ← get
  let (events, outcome) := Platform.load engine world.files world.environment
  Action.tell events
  Action.ofExcept outcome

/-- Makes a validator that trusts a store. -/
def makeBase (engine : Engine) (store : Store) (algorithm : Algorithm) : Action Validator := do
  Action.ofExcept algorithm.check
  let base ← Action.ofExcept (Base.ofStore engine store)
  Action.tell base.events
  return .base base

/-- Makes a pool and its validator. -/
def makePool (engine : Engine) (options : Pool.Options) : Action Validator := do
  let pool ← Action.ofExcept (Pool.create engine (← get).files options)
  Action.tell pool.creationEvents
  let world ← get
  set { world with pools := world.pools ++ [pool] }
  return .inflatable world.pools.length

/-- Puts a validator into a new slot. -/
def makeSlot (validator : Validator) : Action Validator := do
  let world ← get
  set { world with slots := world.slots ++ [validator] }
  return .hotSwappable world.slots.length

/-- Makes an empty collector. -/
def makeCollector : Action Nat := do
  let world ← get
  set { world with collectors := world.collectors ++ [[]] }
  return world.collectors.length

/-- Makes one validator of several. -/
def combine (validators : List Validator) : Action Validator := do
  let combined ← Action.ofExcept (Validator.combine validators)
  Action.tell (Validator.promotionEvents validators)
  return combined

/-- The validator of a source. -/
def materialize (engine : Engine) : Source → Action Validator
  | .validator validator => return validator
  | .store store algorithm => makeBase engine store algorithm
  | .platform => do makeBase engine (← loadPlatform engine) .default

/-- Builds a validator. -/
def build (engine : Engine) (builder : Builder) : Action Validator := do
  if builder.sources.isEmpty then throw .noSources
  let validators ← builder.sources.mapM (materialize engine)
  Action.tell (Validator.promotionEvents validators)
  let inner := builder.log (builder.decide validators)
  let result ← if builder.swappable then makeSlot inner else pure inner
  Action.tell [.built result.kind builder.logging builder.swappable]
  return result

end PeerTrust.World
