import PeerTrust.Path.Fault

/-!
# Faults of a handshake

Why a peer, an identity or a signature was refused, in the words of the protocol library that
carries out handshakes.
-/

namespace PeerTrust

/-- Why a handshake, or its preparation, failed. -/
inductive TlsFault where
  /-- No path leads from the certificate to an anchor. -/
  | untrustedPath (fault : Path.Fault)
  /-- The certificate does not name the host. -/
  | notValidForName
  /-- A policy refused the certificate. -/
  | refusedByPolicy
  | noCertificates
  /-- A signature of a scheme that was not offered. -/
  | schemeNotOffered
  | keyMismatch
  | unusableKey
  deriving DecidableEq, Repr

/-- The wording of a fault. -/
def TlsFault.message : TlsFault → String
  | .untrustedPath fault => "invalid peer certificate: " ++ fault.message
  | .notValidForName => "invalid peer certificate: NotValidForName"
  | .refusedByPolicy => "invalid peer certificate: ApplicationVerificationFailure"
  | .noCertificates => "peer sent no certificates"
  | .schemeNotOffered => "peer misbehaved: SignedHandshakeWithUnadvertisedSigScheme"
  | .keyMismatch => "keys may not be consistent: KeyMismatch"
  | .unusableKey => "unexpected error: failed to parse private key as RSA, ECDSA, or EdDSA"

/-- The fault of a chain that leads to no anchor. -/
def TlsFault.unknownIssuer : TlsFault := .untrustedPath .unknownIssuer

end PeerTrust
