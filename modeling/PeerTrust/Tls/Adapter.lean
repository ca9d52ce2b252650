import PeerTrust.Hostname.Verifier
import PeerTrust.Tls.Identity
import PeerTrust.Tls.Mode
import PeerTrust.Tls.Scheme
import PeerTrust.World.Mutation

/-!
# Verifiers for handshakes

How a handshake consults a policy. A server asks its policy about the chain of a client; a client
asks its policy about the chain of a server, and then its host name policy about the name that it
meant.
-/

namespace PeerTrust

/-- The side of a server: how it decides about clients. -/
structure ClientVerifier where
  validator : Validator
  /-- Names of anchors that a client is told. They are left out where what is trusted can change. -/
  hints : List Bytes
  /-- Whether a client has to present a certificate while no mode is set. -/
  isMandatory : Bool
  /-- The mode flag that decides whether a client has to present a certificate. -/
  mode : Option Nat

namespace ClientVerifier

/-- The names of the anchors among certificates. -/
def hintsOf (engine : Engine) (issuers : List Certificate) : List Bytes :=
  issuers.filterMap fun issuer => (engine.anchor issuer).toOption.map Path.Anchor.name

/-- Makes a verifier. -/
def make (engine : Engine) (validator : Validator) (isMandatory : Bool) (mode : Option Nat) :
    Action ClientVerifier := do
  if validator.isDynamic then return ⟨validator, [], isMandatory, mode⟩
  else
    let issuers := (← Action.snapshot validator).issuers
    return ⟨validator, hintsOf engine issuers, isMandatory, mode⟩

/-- Whether a client has to present a certificate now. -/
def demandsCertificate (verifier : ClientVerifier) (world : World) : Bool :=
  ((verifier.mode.bind fun number => world.modes[number]?).getD none).getD verifier.isMandatory

/-- The context in which the chain of a client is validated. -/
def context (leaf : Certificate) (intermediates : List Certificate) : Context :=
  Context.ofChain .client (leaf :: intermediates)

/-- Decides about the chain of a client. -/
def verify (engine : Engine) (now : Nat) (verifier : ClientVerifier) (leaf : Certificate)
    (intermediates : List Certificate) : Action (Except TlsFault Unit) := do
  let verdict ← World.validate engine now verifier.validator (context leaf intermediates)
  return verdict.mapError Rejection.tlsFault

end ClientVerifier

/-- The side of a client: how it decides about servers. -/
structure ServerVerifier where
  validator : Validator
  hostname : Hostname.Verifier
  peerAddress : Option SocketAddress
  /-- The host that the connection is opened to. -/
  peerHost : Option String

namespace ServerVerifier

/-- The context in which the chain of a server is validated. -/
def context (verifier : ServerVerifier) (name : ServerName) (leaf : Certificate)
    (intermediates : List Certificate) : Context :=
  { Context.ofChain .server (leaf :: intermediates) with
    transport := some ⟨some name.toText, verifier.peerAddress⟩ }

/-- The request that the host name policy decides about. -/
def request (verifier : ServerVerifier) (name : ServerName) (leaf : Certificate)
    (intermediates : List Certificate) : Hostname.Request :=
  ⟨name.toText, verifier.peerHost, leaf :: intermediates⟩

/-- Decides about the chain of a server. -/
def verify (engine : Engine) (now : Nat) (verifier : ServerVerifier) (name : ServerName)
    (leaf : Certificate) (intermediates : List Certificate) :
    Action (Except TlsFault Unit) := do
  match ← World.validate engine now verifier.validator
      (verifier.context name leaf intermediates) with
  | .error rejection => return .error rejection.tlsFault
  | .ok () =>
      let (isVerified, events) :=
        verifier.hostname.verify (verifier.request name leaf intermediates)
      Action.tell events
      if isVerified then return .ok ()
      else
        Action.tell [.nameMismatch name.toText]
        return .error .notValidForName

end ServerVerifier

namespace World

/-- Makes a mode flag that is not set. -/
def makeMode : Action Nat := do
  let world ← get
  set { world with modes := world.modes ++ [none] }
  return world.modes.length

/-- Changes a mode flag. -/
def changeMode (number : Nat) (change : Mode → Mode × List Event) : Action Mode := do
  let world ← get
  let (mode, events) := change (world.modes[number]?.getD none)
  set ({ world with modes := world.modes.set number mode, log := world.log ++ events } : World)
  return mode

/-- Waits for a mode flag. -/
def waitForMode (number : Nat) (patience : Mode.Patience) (arrival : Option Mode.Arrival) :
    Action Bool := do
  let world ← get
  let mode := world.modes[number]?.getD none
  match Mode.wait mode patience arrival with
  | none => Action.diverge
  | some (isOn, events) =>
      set ({ world with
        modes := world.modes.set number (Mode.afterwards mode arrival)
        log := world.log ++ events } : World)
      return isOn

/-- Waits for a mode flag as long as a listener does that does not say how long it waits. -/
def waitInitialized (number : Nat) (arrival : Option Mode.Arrival) : Action Bool :=
  waitForMode number .standard arrival

end World

/-- How a handshake ends for one side. -/
inductive SideOutcome where
  | done
  /-- The other side broke off. -/
  | alerted
  | failed (fault : TlsFault)
  deriving DecidableEq, Repr

/-- How a handshake ends. -/
structure HandshakeOutcome where
  client : SideOutcome
  server : SideOutcome
  /-- The number of certificates that the server holds of the client. -/
  clientCertificates : Option Nat
  deriving DecidableEq, Repr

/-- A handshake between a server and a client with identities that they can present. The client
decides first, and the server about the certificates of the client after it. -/
def handshake (engine : Engine) (now : Nat)
    (server : ClientVerifier) (serverChain : List Certificate)
    (client : ServerVerifier) (clientChain : List Certificate) (name : ServerName) :
    Action HandshakeOutcome := do
  match serverChain with
  | [] => return ⟨.failed .noCertificates, .alerted, none⟩
  | leaf :: intermediates =>
      match ← client.verify engine now name leaf intermediates with
      | .error fault => return ⟨.failed fault, .alerted, none⟩
      | .ok () =>
          match clientChain with
          | [] =>
              if server.demandsCertificate (← get) then
                return ⟨.alerted, .failed .noCertificates, none⟩
              else return ⟨.done, .done, some 0⟩
          | leaf :: intermediates =>
              match ← server.verify engine now leaf intermediates with
              | .error fault => return ⟨.alerted, .failed fault, none⟩
              | .ok () => return ⟨.done, .done, some clientChain.length⟩

end PeerTrust
