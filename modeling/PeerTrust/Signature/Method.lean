import PeerTrust.Asn1.Der
import PeerTrust.Signature.Edwards
import PeerTrust.Signature.Rsa
import PeerTrust.Signature.Weierstrass

/-!
# Signature methods

The ways to sign that are in use, with the algorithm identifiers that stand for them in certificates
and the identifiers of the keys that they go with. Identifiers are compared as bytes.
-/

namespace PeerTrust

open Asn1

/-- The curves with names. -/
inductive NamedCurve where
  | p256
  | p384
  | p521
  deriving DecidableEq, Repr

/-- The curve of a name. -/
def NamedCurve.curve : NamedCurve → Curve
  | .p256 => .p256
  | .p384 => .p384
  | .p521 => .p521

/-- The identifier of a curve, as an element. -/
def NamedCurve.identifier : NamedCurve → Bytes
  | .p256 => [0x06, 0x08, 0x2A, 0x86, 0x48, 0xCE, 0x3D, 0x03, 0x01, 0x07]
  | .p384 => [0x06, 0x05, 0x2B, 0x81, 0x04, 0x00, 0x22]
  | .p521 => [0x06, 0x05, 0x2B, 0x81, 0x04, 0x00, 0x23]

/-- The strengths of lattice signatures. -/
inductive LatticeStrength where
  | low
  | middle
  | high
  deriving DecidableEq, Repr

/-- The last octet of the identifier of a strength. -/
def LatticeStrength.number : LatticeStrength → UInt8
  | .low => 17
  | .middle => 18
  | .high => 19

/-- A way to sign. -/
inductive SignatureMethod where
  | curve (name : NamedCurve) (hash : Digest.Algorithm)
  | edwards
  | padded (hash : Digest.Algorithm)
  | masked (hash : Digest.Algorithm)
  /-- Lattice signatures of three strengths are offered, but no key of theirs is accepted. -/
  | lattice (strength : LatticeStrength)
  deriving DecidableEq, Repr

namespace SignatureMethod

/-- The identifier of all keys on named curves, as an element. -/
def curveKey : Bytes := [0x06, 0x07, 0x2A, 0x86, 0x48, 0xCE, 0x3D, 0x02, 0x01]

/-- The identifier of the Edwards curve. -/
def edwardsKey : Bytes := [0x06, 0x03, 0x2B, 0x65, 0x70]

/-- The beginning that identifiers for composite moduli share. -/
def compositeStem : Bytes := [0x06, 0x09, 0x2A, 0x86, 0x48, 0x86, 0xF7, 0x0D, 0x01, 0x01]

/-- The empty element that stands for no parameters. -/
def noParameters : Bytes := [0x05, 0x00]

/-- The last octet of the identifier of a digest. -/
def digestNumber : Digest.Algorithm → UInt8
  | .sha256 => 1
  | .sha384 => 2
  | .sha512 => 3

/-- The algorithm identifier of a digest, as an element. -/
def digestIdentifier (hash : Digest.Algorithm) : Bytes :=
  Der.encode Der.sequence
    ([0x06, 0x09, 0x60, 0x86, 0x48, 0x01, 0x65, 0x03, 0x04, 0x02, digestNumber hash] ++
      noParameters)

/-- The parameters of the masked form: the digest, the mask and the length of the salt. -/
def maskedParameters (hash : Digest.Algorithm) : Bytes :=
  Der.encode Der.sequence (
    Der.encode (Der.context 0) (digestIdentifier hash) ++
    Der.encode (Der.context 1)
      (Der.encode Der.sequence (compositeStem ++ [0x08] ++ digestIdentifier hash)) ++
    Der.encode (Der.context 2) (Der.encode Der.integer [UInt8.ofNat hash.size]))

/-- The contents of the key identifiers that a method goes with. -/
def keyIdentifier : SignatureMethod → Bytes
  | curve name _ => curveKey ++ name.identifier
  | edwards => edwardsKey
  | padded _ => compositeStem ++ [0x01] ++ noParameters
  | masked _ => compositeStem ++ [0x01] ++ noParameters
  | lattice strength =>
      [0x06, 0x09, 0x60, 0x86, 0x48, 0x01, 0x65, 0x03, 0x04, 0x03, strength.number]

/-- The contents of the algorithm identifiers that a method has in certificates. -/
def signatureIdentifiers : SignatureMethod → List Bytes
  | curve _ hash =>
      [[0x06, 0x08, 0x2A, 0x86, 0x48, 0xCE, 0x3D, 0x04, 0x03, 1 + digestNumber hash]]
  | edwards => [edwardsKey]
  | padded hash =>
      [compositeStem ++ [10 + digestNumber hash] ++ noParameters,
        compositeStem ++ [10 + digestNumber hash]]
  | masked hash => [compositeStem ++ [0x0A] ++ maskedParameters hash]
  | lattice strength => [keyIdentifier (lattice strength)]

/-- All methods, in the order in which they are tried. -/
def all : List SignatureMethod := [
  .curve .p256 .sha256, .curve .p256 .sha384, .curve .p256 .sha512,
  .curve .p384 .sha256, .curve .p384 .sha384, .curve .p384 .sha512,
  .curve .p521 .sha256, .curve .p521 .sha384, .curve .p521 .sha512,
  .edwards,
  .masked .sha256, .masked .sha384, .masked .sha512,
  .padded .sha256, .padded .sha384, .padded .sha512,
  .lattice .low, .lattice .middle, .lattice .high]

/-- The methods that an algorithm identifier stands for. -/
def withIdentifier (identifier : Bytes) : List SignatureMethod :=
  all.filter fun method => method.signatureIdentifiers.contains identifier

/-- A key with a composite modulus. -/
def compositeKey? (key : Bytes) : Option Rsa.Key :=
  (Der.naturalPair? key).map fun pair => ⟨pair.1, pair.2⟩

/-- Whether a signature of a message is right under a key, given by the octets of its bit string. -/
def verify (method : SignatureMethod) (key message signature : Bytes) : Bool :=
  match method with
  | curve name hash =>
      match name.curve.point? key, Der.naturalPair? signature with
      | some point, some (r, s) => name.curve.verify point (hash.hash message) r s
      | _, _ => false
  | edwards => Edwards.verify key message signature
  | padded hash =>
      match compositeKey? key with
      | some key => Rsa.verifyPadded key hash message signature
      | none => false
  | masked hash =>
      match compositeKey? key with
      | some key => Rsa.verifyMasked key hash message signature
      | none => false
  | lattice _ => false

end SignatureMethod

end PeerTrust
