import PeerTrust.Pem
import PeerTrust.Settings.Fault
import PeerTrust.Storage.Files
import PeerTrust.Trust.Event

/-!
# Errors

What can go wrong while trust material is loaded, built or changed. A rejected chain is not an
error.
-/

namespace PeerTrust

/-- What is wrong with the configuration or with material that it names. -/
inductive ConfigurationFault where
  /-- A certificate cannot be shown. -/
  | unreadableCertificate
  /-- A file of certificates is not in PEM form. -/
  | malformedCertificates (path : String) (fault : Pem.Fault)
  | noCertificates (path : String)
  /-- A file that should be one certificate is empty. -/
  | emptyCertificate (path : String)
  | malformedKey (path : String) (fault : Pem.Fault)
  | noKey (path : String)
  | malformedPool (path : String) (fault : Pem.Fault)
  | noPlatformAnchors
  | unusableAnchor (fault : TlsFault)
  | unknownAlgorithm (name : String)
  | noRoots
  | halfIdentity
  | noSettings (path : String)
  /-- The settings do not have the form they should have. -/
  | settings (fault : Settings.Fault)
  /-- An issuer failed for a reason of its own. -/
  | issuer (problem : String)
  deriving DecidableEq, Repr

/-- The wording of a configuration fault. -/
def ConfigurationFault.message : ConfigurationFault → String
  | .unreadableCertificate => "Failed to parse certificate"
  | .malformedCertificates path fault => s!"Failed to parse certs from '{path}': {fault.message}"
  | .noCertificates path => s!"No certificates found in '{path}'"
  | .emptyCertificate path => s!"No certificate found in '{path}'"
  | .malformedKey path fault => s!"Failed to parse private key from '{path}': {fault.message}"
  | .noKey path => s!"No private key found in '{path}'"
  | .malformedPool path fault =>
      s!"Failed to parse persisted trust store '{path}': {fault.message}"
  | .noPlatformAnchors => "No platform trust anchors could be loaded"
  | .unusableAnchor fault => s!"Failed to add trust anchor: {fault.message}"
  | .unknownAlgorithm name => s!"Unknown validation algorithm '{name}' (supported: aws-lc-rs)"
  | .noRoots => "Issued material contains no trust roots"
  | .halfIdentity => "tls.client_cert and tls.client_key must be set together"
  | .noSettings path => s!"Config file not found: {path}"
  | .settings fault => fault.message
  | .issuer problem => problem

/-- A change that a validator of its kind does not support. -/
inductive Unsupported where
  | addition (kind : Kind)
  | swap (kind : Kind)
  | renewal (kind : Kind)
  deriving DecidableEq, Repr

/-- The wording of an unsupported change. -/
def Unsupported.message : Unsupported → String
  | .addition kind => s!"a {kind.text} validator has no inflatable pool to add certificates to"
  | .swap kind =>
      s!"a {kind.text} validator cannot be swapped; wrap it in a hot-swappable validator"
  | .renewal kind => s!"a {kind.text} validator can neither be inflated nor swapped"

/-- Why an operation failed. -/
inductive TrustError where
  | configuration (fault : ConfigurationFault)
  /-- There is nothing to build a validator from. -/
  | noSources
  /-- A validator of this kind cannot stand in a slot. -/
  | invalidSwapTarget (kind : Kind)
  | unsupported (change : Unsupported)
  /-- A file that was to be read could not be read. -/
  | unreadable (path : String) (fault : FileFault)
  /-- A file could not be written. -/
  | unwritable (fault : FileFault)
  | tls (fault : TlsFault)
  deriving DecidableEq, Repr

namespace TrustError

/-- What an error tells, without its category. -/
def detail : TrustError → String
  | .configuration fault => fault.message
  | .noSources => "Input does not contain any trust validator or trust store"
  | .invalidSwapTarget kind =>
      s!"a {kind.text} validator cannot be swapped into a hot-swappable slot"
  | .unsupported change => change.message
  | .unreadable path fault => s!"Cannot read '{path}': {fault.message}"
  | .unwritable fault => fault.message
  | .tls fault => fault.message

/-- The wording of an error. -/
def message (error : TrustError) : String :=
  match error with
  | .configuration _ => "Configuration error: " ++ error.detail
  | .noSources => error.detail
  | .invalidSwapTarget _ => "Invalid swap target: " ++ error.detail
  | .unsupported _ => "Unsupported operation: " ++ error.detail
  | .unreadable _ _ => "IO error: " ++ error.detail
  | .unwritable _ => "IO error: " ++ error.detail
  | .tls _ => "TLS error: " ++ error.detail

/-- Whether an error is due to the caller and not to the environment. -/
def isConfiguration : TrustError → Bool
  | .configuration _ => true
  | .noSources => true
  | .invalidSwapTarget _ => true
  | .unsupported _ => true
  | _ => false

end TrustError

end PeerTrust
