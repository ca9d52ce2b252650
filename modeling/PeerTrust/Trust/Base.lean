import PeerTrust.Path.Search
import PeerTrust.Trust.Platform

/-!
# Chain validation against fixed anchors

The engine that reads anchors, verifies chains and finds the anchors of the platform is a parameter:
everything above it holds for any engine. The one in use looks for certification paths, and it finds
the platform's anchors where the environment says that they are.
-/

namespace PeerTrust

/-- What is left to libraries. -/
structure Engine where
  /-- The anchor in a certificate, if it can be used as one. -/
  anchor : Certificate → Except TlsFault Path.Anchor
  /-- Verifies a leaf with its intermediates at a time, given in seconds. -/
  verify : List Path.Anchor → Role → Certificate → List Certificate → Nat → Except TlsFault Unit
  /-- Finds the anchors of the platform, with the files and the environment of the program. -/
  platform : Files → List (String × String) → Platform.Findings

/-- The engine that looks for certification paths, and for the platform's anchors where the
environment says that they are. -/
def Engine.paths : Engine where
  anchor certificate := (Path.Anchor.parse certificate.der).mapError .untrustedPath
  verify anchors role leaf intermediates now :=
    (Path.search { anchors, intermediates, purpose := role.purpose, now } leaf).mapError
      .untrustedPath
  platform := Platform.named

/-- A validator with a fixed set of anchors: the certificates, and what was read from them. -/
structure Base where
  issuers : List Certificate
  roots : List Path.Anchor
  deriving DecidableEq, Repr

namespace Base

/-- The anchor in a certificate; a certificate without one is a fault of the configuration. -/
def root (engine : Engine) (certificate : Certificate) : Except TrustError Path.Anchor :=
  (engine.anchor certificate).mapError fun fault => .configuration (.unusableAnchor fault)

/-- The validator that trusts the certificates of a store, all of which have to be anchors. -/
def ofStore (engine : Engine) (store : Store) : Except TrustError Base := do
  return ⟨store.certificates, ← store.certificates.mapM (root engine)⟩

/-- What is told to the log when a validator is made. -/
def events (base : Base) : List Event := if base.roots.isEmpty then [.noAnchors] else []

/-- Validates a chain. Without anchors no chain is trusted. -/
def validate (engine : Engine) (now : Nat) (base : Base) (context : Context) : Verdict :=
  match context.leaf? with
  | none => .error .emptyChain
  | some leaf =>
      if base.roots.isEmpty then .error (.untrusted .unknownIssuer)
      else
        (engine.verify base.roots context.role leaf context.intermediates now).mapError .untrusted

end Base

end PeerTrust
