import PeerTrust.Text.Quoted
import PeerTrust.Trust.Context
import PeerTrust.Trust.Rejection

/-!
# Events

What is told to the log. Every event has a level, a message and fields with values as text.
-/

namespace PeerTrust

/-- The kinds of validator. -/
inductive Kind where
  | base
  | composite
  | inflatable
  | hotSwappable
  | enhanceable
  | logging
  | capturing
  | trustAll
  | dummy
  deriving DecidableEq, Repr

/-- The name of a kind. -/
def Kind.text : Kind → String
  | .base => "base"
  | .composite => "composite"
  | .inflatable => "inflatable"
  | .hotSwappable => "hot-swappable"
  | .enhanceable => "enhanceable"
  | .logging => "logging"
  | .capturing => "capturing"
  | .trustAll => "unsafe"
  | .dummy => "dummy"

/-- How much an event matters. -/
inductive Level where
  | debug
  | info
  | warn
  | error
  deriving DecidableEq, Repr

/-- The name of a level. -/
def Level.text : Level → String
  | .debug => "debug"
  | .info => "info"
  | .warn => "warn"
  | .error => "error"

/-- Something that happened. -/
inductive Event where
  /-- A validator decided about a chain, and its decisions are logged. -/
  | decided (context : Context) (validator : Kind) (verdict : Verdict)
  /-- A chain was accepted without a look at it. -/
  | acceptedUnseen (context : Context)
  /-- A validator without anchors was made. -/
  | noAnchors
  | storeLoaded (path : String) (anchors : Nat)
  | platformAnchorFailed (problem : String)
  | platformLoaded (anchors : Nat)
  | poolCreated (seeded : Nat) (path : Option String)
  | poolInflated (added total : Nat)
  | poolPersisted (path : String) (written : Nat)
  | persistFailed (path : String) (pending : Nat) (problem : String)
  | swapped (previous current : Kind)
  | swapRefused (rejected : Kind)
  /-- A source that accepts everything takes the place of the others. -/
  | promoted (kind : Kind) (discarded : Nat)
  | built (kind : Kind) (logging swappable : Bool)
  | rootsAdded (added : Nat)
  | rootsSwapped (roots : Nat)
  | modeUnchanged (isOn : Bool)
  | modeSet (isOn : Bool) (previous : Option Bool)
  | modeReset
  | modeTimeout (milliseconds : Nat)
  | hostnameFailed (hostname verifier : String)
  | nameMismatch (serverName : String)
  /-- The configuration turns validation off. -/
  | validationDisabled
  /-- The configuration turns hostname verification off. -/
  | hostnamesDisabled

namespace Event

/-- The level of an event. -/
def level : Event → Level
  | .decided _ _ (.ok ()) => .info
  | .decided _ _ (.error _) => .warn
  | .platformAnchorFailed _ => .warn
  | .persistFailed _ _ _ => .warn
  | .swapRefused _ => .warn
  | .modeTimeout _ => .warn
  | .validationDisabled => .warn
  | .hostnamesDisabled => .warn
  | .poolInflated _ _ => .info
  | .swapped _ _ => .info
  | .rootsAdded _ => .info
  | .rootsSwapped _ => .info
  | .modeSet _ _ => .info
  | _ => .debug

/-- The message of an event. -/
def message : Event → String
  | .decided _ _ (.ok ()) => "Peer certificate trusted"
  | .decided _ _ (.error _) => "Peer certificate rejected"
  | .acceptedUnseen _ => "Accepting certificate without validation"
  | .noAnchors => "Empty trust anchor set; every chain will be rejected"
  | .storeLoaded _ _ => "Trust store loaded"
  | .platformAnchorFailed _ => "Failed to load platform trust anchor"
  | .platformLoaded _ => "Platform trust anchors loaded"
  | .poolCreated _ _ => "Inflatable trust pool created"
  | .poolInflated _ _ => "Trust pool inflated"
  | .poolPersisted _ _ => "Persisted trust pool updated"
  | .persistFailed _ _ _ => "Failed to persist trust pool; will retry on next addition"
  | .swapped _ _ => "Trust validator swapped"
  | .swapRefused _ => "Refusing to swap in a non-terminal trust validator"
  | .promoted _ _ => "Accept-all trust validator present; other sources are ignored"
  | .built _ _ _ => "Trust validator built"
  | .rootsAdded _ => "Renewed trust roots added to inflatable pool"
  | .rootsSwapped _ => "Renewed trust roots swapped in"
  | .modeUnchanged _ => "TLS mode unchanged"
  | .modeSet _ _ => "TLS mode set"
  | .modeReset => "TLS mode reset"
  | .modeTimeout _ => "TLS mode not initialised before timeout; assuming plaintext"
  | .hostnameFailed _ _ => "Hostname verification failed"
  | .nameMismatch _ => "Server certificate does not match the requested name"
  | .validationDisabled => "unsafe_trust_all is enabled: peer certificates are NOT validated"
  | .hostnamesDisabled => "Hostname verification is disabled"

/-- The text of a truth value. -/
def flagText (value : Bool) : String := if value then "true" else "false"

/-- The text of an optional truth value. -/
def flagOptionText : Option Bool → String
  | none => "None"
  | some value => "Some(" ++ flagText value ++ ")"

/-- What all events about the validation of a chain tell. -/
def chainFields (context : Context) : List (String × String) :=
  [("role", context.role.text), ("subject", context.leafSubject)]

/-- What an event about a logged decision tells, apart from the reason of a rejection. -/
def decisionFields (context : Context) (validator : Kind) : List (String × String) :=
  chainFields context ++ [("auth_type", context.authType), ("validator", validator.text)]

/-- The fields of an event. -/
def fields : Event → List (String × String)
  | .decided context validator (.ok ()) => decisionFields context validator
  | .decided context validator (.error rejection) =>
      decisionFields context validator ++ [("reason", rejection.message)]
  | .acceptedUnseen context => chainFields context
  | .storeLoaded path anchors => [("path", path), ("anchors", toString anchors)]
  | .platformAnchorFailed problem => [("error", problem)]
  | .platformLoaded anchors => [("anchors", toString anchors)]
  | .poolCreated seeded path =>
      [("seeded", toString seeded), ("persisted", Quoted.quoteOption path)]
  | .poolInflated added total => [("added", toString added), ("total", toString total)]
  | .poolPersisted path written => [("path", path), ("written", toString written)]
  | .persistFailed path pending problem =>
      [("path", path), ("pending", toString pending), ("error", problem)]
  | .swapped previous current => [("previous", previous.text), ("current", current.text)]
  | .swapRefused rejected => [("rejected", rejected.text)]
  | .promoted kind discarded => [("promoted", kind.text), ("discarded", toString discarded)]
  | .built kind logging swappable =>
      [("kind", kind.text), ("logging", flagText logging), ("swappable", flagText swappable)]
  | .rootsAdded added => [("added", toString added)]
  | .rootsSwapped roots => [("roots", toString roots)]
  | .modeUnchanged isOn => [("enabled", flagText isOn)]
  | .modeSet isOn previous =>
      [("enabled", flagText isOn), ("previous", flagOptionText previous)]
  | .modeTimeout milliseconds => [("timeout_ms", toString milliseconds)]
  | .hostnameFailed hostname verifier => [("hostname", hostname), ("verifier", verifier)]
  | .nameMismatch serverName => [("server_name", serverName)]
  | .noAnchors => []
  | .modeReset => []
  | .validationDisabled => []
  | .hostnamesDisabled => []

end Event

/-- Something that a validation does. -/
inductive Effect where
  | tell (event : Event)
  | record (collector : Nat) (chain : List Certificate)

end PeerTrust
