import PeerTrust.Path.Search
import PeerTrust.Tls.Fault

/-!
# Signature schemes of handshakes

In a handshake the peer signs with a scheme that was offered to it. The newer version of the
protocol binds a scheme to one method and drops the padded ones; the older one leaves the curve
open.
-/

namespace PeerTrust

/-- The versions of the protocol. -/
inductive TlsVersion where
  | v12
  | v13
  deriving DecidableEq, Repr

/-- A scheme: its number, and its methods with the preferred one first. -/
structure Scheme where
  code : Nat
  methods : List SignatureMethod
  deriving DecidableEq, Repr

namespace Scheme

/-- The schemes that are offered, in the order of preference. -/
def offered : List Scheme := [
  ⟨0x0503, [.curve .p384 .sha384, .curve .p256 .sha384, .curve .p521 .sha384]⟩,
  ⟨0x0403, [.curve .p256 .sha256, .curve .p384 .sha256, .curve .p521 .sha256]⟩,
  ⟨0x0603, [.curve .p521 .sha512, .curve .p384 .sha512, .curve .p256 .sha512]⟩,
  ⟨0x0807, [.edwards]⟩,
  ⟨0x0806, [.masked .sha512]⟩, ⟨0x0805, [.masked .sha384]⟩, ⟨0x0804, [.masked .sha256]⟩,
  ⟨0x0601, [.padded .sha512]⟩, ⟨0x0501, [.padded .sha384]⟩, ⟨0x0401, [.padded .sha256]⟩,
  ⟨0x0904, [.lattice .low]⟩, ⟨0x0905, [.lattice .middle]⟩, ⟨0x0906, [.lattice .high]⟩]

/-- Whether a method is in use in the newer version of the protocol. -/
def isModern : SignatureMethod → Bool
  | .padded _ => false
  | _ => true

/-- The methods that a peer may sign with, given a scheme and a version. -/
def methodsIn (scheme : Scheme) : TlsVersion → List SignatureMethod
  | .v12 => scheme.methods
  | .v13 => (scheme.methods.take 1).filter isModern

/-- The methods of the scheme with a given number. -/
def methodsOf (version : TlsVersion) (code : Nat) : List SignatureMethod :=
  match offered.find? (·.code == code) with
  | some scheme => scheme.methodsIn version
  | none => []

end Scheme

/-- Verifies the signature of a handshake message under the key of a certificate. -/
def verifyHandshake (version : TlsVersion) (code : Nat) (certificate : Certificate)
    (message signature : Bytes) : Except TlsFault Unit :=
  match Scheme.methodsOf version code with
  | [] => .error .schemeNotOffered
  | methods =>
      let outcome := do
        let node ← Path.Node.parse certificate.der
        Path.verifyByFirst .unsupportedAlgorithmForKey node.key message signature methods
      outcome.mapError .untrustedPath

end PeerTrust
