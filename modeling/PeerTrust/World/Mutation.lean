import PeerTrust.World.Construction
import PeerTrust.World.Judgement

/-!
# Using and changing validators

Validating chains, adding certificates to pools, swapping the validators in slots, and folding in
the trust roots of freshly issued material.
-/

namespace PeerTrust

namespace World

/-- Validates a chain, and does what that brings about. -/
def validate (engine : Engine) (now : Nat) (validator : Validator) (context : Context) :
    Action Verdict := do
  let (verdict, effects) ← Action.ofOption ((← get).judge engine now validator context)
  modify (·.applyAll effects)
  return verdict

/-- Adds certificates to the pool of a given number. -/
def addToPool (engine : Engine) (number : Nat) (batch : List Certificate) : Action Nat := do
  let world ← get
  match world.pools[number]? with
  | none => Action.diverge
  | some pool =>
      let added := pool.add Files.append engine world.files batch
      set ({ world with
        pools := world.pools.set number added.pool
        files := added.storage
        log := world.log ++ added.events } : World)
      Action.ofExcept added.outcome

/-- Adds certificates to the first pool that a validator reaches. -/
def add (engine : Engine) (validator : Validator) (batch : List Certificate) : Action Nat := do
  match ← Action.ofOption ((← get).findPool validator) with
  | some number => addToPool engine number batch
  | none => throw (.unsupported (.addition validator.kind))

/-- Whether a validator can stand in a slot on its own. -/
def canBeSwappedIn (validator : Validator) : Bool :=
  validator.kind != .hotSwappable && validator.kind != .inflatable

/-- The validator that stands in a slot after a swap: logging is kept. -/
def successor (previous new : Validator) : Validator :=
  if previous.kind = .logging then .logging new else new

/-- Swaps the validator in a slot of a given number. -/
def swapSlot (number : Nat) (new : Validator) : Action Unit := do
  if canBeSwappedIn new then
    let world ← get
    match world.slots[number]? with
    | none => Action.diverge
    | some previous =>
        set { world with slots := world.slots.set number (successor previous new) }
        Action.tell [.swapped previous.kind (successor previous new).kind]
  else
    Action.tell [.swapRefused new.kind]
    throw (.invalidSwapTarget new.kind)

/-- Swaps the validator in the slot that a validator is. -/
def swap (validator new : Validator) : Action Unit :=
  match validator with
  | .hotSwappable number => swapSlot number new
  | other => throw (.unsupported (.swap other.kind))

/-- Forgets what a collector recorded. -/
def clearCollector (number : Nat) : Action Unit :=
  modify fun world => { world with collectors := world.collectors.set number [] }

end World

/-- A key, its chain and the roots of the peers, as an issuer hands them out. -/
structure IssuedMaterial where
  key : Bytes
  chain : List Certificate
  roots : List Certificate
  deriving DecidableEq, Repr

/-- What issued material shows of itself, which is nothing of its key. -/
def IssuedMaterial.debugText (material : IssuedMaterial) : String :=
  s!"IssuedMaterial \x7b private_key: \"<redacted>\", chain: {material.chain.length}, " ++
    s!"trust_roots: {material.roots.length} \x7d"

/-- How the roots of issued material were taken up. -/
inductive Renewal where
  | inflated (added : Nat)
  | swapped
  deriving DecidableEq, Repr

namespace World

/-- Takes up roots: a given pool grows by them, or else a slot is given a validator that trusts
nothing but them. -/
def takeUp (engine : Engine) (validator : Validator) (roots : List Certificate) :
    Option Nat → Action Renewal
  | some number => do
      let added ← addToPool engine number roots
      Action.tell [.rootsAdded added]
      return .inflated added
  | none =>
      match validator with
      | .hotSwappable number => do
          let store := Store.ofList roots
          swapSlot number (← makeBase engine store .default)
          Action.tell [.rootsSwapped store.certificates.length]
          return .swapped
      | other => throw (.unsupported (.renewal other.kind))

/-- Takes up the roots of issued material by the first pool that a validator reaches, if there is
one. -/
def renew (engine : Engine) (validator : Validator) (material : IssuedMaterial) :
    Action Renewal := do
  if material.roots.isEmpty then throw (.configuration .noRoots)
  takeUp engine validator material.roots (← Action.ofOption ((← get).findPool validator))

/-- Takes up what an issuer hands out, unless the issuer fails. -/
def refresh (engine : Engine) (validator : Validator)
    (issued : Except TrustError IssuedMaterial) : Action Renewal := do
  renew engine validator (← Action.ofExcept issued)

end World

end PeerTrust
