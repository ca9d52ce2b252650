import PeerTrust.Hostname.Verifier
import PeerTrust.Settings.Basic
import PeerTrust.Tls.Identity
import PeerTrust.World.Construction

/-!
# Making what is set

The validator, the policy about host names and the identity that settings describe.
-/

namespace PeerTrust

namespace World

/-- Loads the settings. -/
def loadSettings (path : Option String) : Action Settings := do
  let world ← get
  Action.ofExcept (Settings.load world.files world.environment path)

/-- The engine of a name, or the default one. -/
def parseAlgorithm (name : Option String) : Action Algorithm :=
  match name with
  | none => return .default
  | some name => Action.ofExcept (Algorithm.parse name)

/-- Loads the store in a file that is named in the settings. -/
def loadSource (file : Settings.StoreFile) : Action Source := do
  let store ← loadStore file.path file.encoding
  return .store store (← parseAlgorithm file.algorithm)

/-- Makes the pool that is described in the settings. -/
def makeSetPool (engine : Engine) (settings : Settings.PoolSettings) : Action Source := do
  let algorithm ← parseAlgorithm settings.algorithm
  return .validator (← makePool engine ⟨settings.path, none, algorithm⟩)

/-- Builds the validator that is described in the settings. -/
def buildSet (engine : Engine) (settings : Settings.TrustSettings) : Action Validator := do
  if settings.trustAll then Action.tell [.validationDisabled]
  let accepting := if settings.trustAll then [Source.validator .trustAll] else []
  let stores ← settings.stores.mapM loadSource
  let platform := if settings.platform then [Source.platform] else []
  let pool ← match settings.pool with
    | some pool => do pure [← makeSetPool engine pool]
    | none => pure []
  build engine ⟨accepting ++ stores ++ platform ++ pool, settings.logging, settings.swappable, none⟩

end World

namespace Settings

/-- The policy about host names, and what is told to the log. -/
def HostnamePolicy.verifier : HostnamePolicy → Hostname.Verifier × List Event
  | .names => (.names, [])
  | .basic => (.basic, [])
  | .acceptAll => (.acceptAll, [.hostnamesDisabled])

/-- The identity in the files that are set; either both of them are, or none. -/
def IdentityFiles.load (named : IdentityFiles) (files : Files) :
    Except TrustError (Option Identity) :=
  match named.certificates, named.key with
  | some certificates, some key => do
      return some ⟨← files.certificates certificates, ← files.privateKey key⟩
  | none, none => .ok none
  | _, _ => .error (.configuration .halfIdentity)

end Settings

end PeerTrust
