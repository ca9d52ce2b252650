import PeerTrust.Path.Node
import PeerTrust.Signature.Method
import PeerTrust.Tls.Fault
import PeerTrust.Trust.Loading

/-!
# Identities

A private key in one of three forms, and the identity that it makes together with a chain. An
identity can be presented if the key can be read and belongs to the leaf.
-/

namespace PeerTrust

open Asn1

/-- The forms in which a private key is written. -/
inductive KeyForm where
  | rsa
  | curve
  | general
  deriving DecidableEq, Repr

/-- The name of a form. -/
def KeyForm.text : KeyForm → String
  | .rsa => "pkcs1"
  | .curve => "sec1"
  | .general => "pkcs8"

/-- A private key. -/
structure PrivateKey where
  form : KeyForm
  der : Bytes
  deriving DecidableEq, Repr

/-- A chain with the key of its leaf. -/
structure Identity where
  chain : List Certificate
  key : PrivateKey
  deriving DecidableEq, Repr

/-- The form of the key in a section of a file. -/
def KeyForm.ofKind : Pem.Kind → KeyForm
  | .rsaPrivateKey => .rsa
  | .ecPrivateKey => .curve
  | _ => .general

/-- The first private key in a file. -/
def Files.privateKey (files : Files) (path : String) : Except TrustError PrivateKey := do
  match Pem.privateKey? (← files.contents path) with
  | .error fault => throw (.configuration (.malformedKey path fault))
  | .ok none => throw (.configuration (.noKey path))
  | .ok (some found) => return ⟨.ofKind found.kind, found.contents⟩

namespace PrivateKey

/-- The contents of the public key that consists of an identifier and octets. -/
def publicParts (identifier octets : Bytes) : Bytes :=
  Der.encode Der.sequence identifier ++ Der.encode Der.bitString (0 :: octets)

/-- The public key to a number on a curve. -/
def onCurve? (name : NamedCurve) (secret : Bytes) : Option Bytes := do
  let curve := name.curve
  let number := Bytes.toNat secret
  if secret.length ≠ curve.size ∨ number = 0 ∨ curve.order ≤ number then none
  else
    let (x, y) ← curve.affine? (curve.multiply number curve.base 0 curve.base)
    return publicParts (SignatureMethod.curveKey ++ name.identifier)
      (0x04 :: Bytes.ofNat curve.size x ++ Bytes.ofNat curve.size y)

/-- The secret number in a key on a curve. -/
def secret? (der : Bytes) : Option Bytes := do
  let (contents, rest) ← Der.take? Der.sequence der
  let (version, contents) ← Der.takeNatural? contents
  let (secret, _) ← Der.take? Der.octetString contents
  if version = 1 ∧ rest.isEmpty then return secret else none

/-- The public key to a key on a curve of a size that fits. -/
def ofCurve? (der : Bytes) : Option Bytes := do
  let secret ← secret? der
  [NamedCurve.p256, .p384, .p521].findSome? (onCurve? · secret)

/-- The digits of the number at the head of a byte string, as they are written. -/
def digits? (bytes : Bytes) : Option (Bytes × Bytes) := do
  let (contents, rest) ← Der.take? Der.integer bytes
  let _ ← Der.natural? contents
  return (contents, rest)

/-- The public key to a key with a composite modulus. -/
def ofComposite? (der : Bytes) : Option Bytes := do
  let (contents, rest) ← Der.take? Der.sequence der
  let (version, contents) ← Der.takeNatural? contents
  let (modulus, contents) ← digits? contents
  let (exponent, _) ← digits? contents
  let key : Rsa.Key := ⟨Bytes.toNat modulus, Bytes.toNat exponent⟩
  if version = 0 ∧ rest.isEmpty ∧ key.isUsable then
    return publicParts (SignatureMethod.keyIdentifier (.padded .sha256))
      (Der.encode Der.sequence
        (Der.encode Der.integer modulus ++ Der.encode Der.integer exponent))
  else none

/-- The public key to a key in general form, which names its kind. -/
def ofGeneral? (der : Bytes) : Option Bytes := do
  let (contents, rest) ← Der.take? Der.sequence der
  let (version, contents) ← Der.takeNatural? contents
  let (identifier, contents) ← Der.take? Der.sequence contents
  let (key, _) ← Der.take? Der.octetString contents
  if ¬rest.isEmpty ∨ 1 < version then none
  else if identifier = SignatureMethod.keyIdentifier (.padded .sha256) then ofComposite? key
  else if identifier = SignatureMethod.edwardsKey then
    let (secret, rest) ← Der.take? Der.octetString key
    if secret.length = 32 ∧ rest.isEmpty then
      return publicParts SignatureMethod.edwardsKey (Edwards.publicKey secret)
    else none
  else
    [NamedCurve.p256, .p384, .p521].findSome? fun name =>
      if identifier = SignatureMethod.curveKey ++ name.identifier then
        (secret? key).bind (onCurve? name)
      else none

/-- The contents of the public key that belongs to a private one. -/
def public? (key : PrivateKey) : Option Bytes :=
  match key.form with
  | .rsa => ofComposite? key.der
  | .curve => ofCurve? key.der
  | .general => ofGeneral? key.der

end PrivateKey

/-- Whether an identity can be presented: the key can be used, there is a leaf that can be read, and
the key is that of the leaf. -/
def Identity.check (identity : Identity) : Except TlsFault Unit :=
  match identity.key.public?, identity.chain with
  | none, _ => .error .unusableKey
  | some _, [] => .error .noCertificates
  | some expected, leaf :: _ =>
      match Path.Node.parse leaf.der with
      | .error fault => .error (.untrustedPath fault)
      | .ok node => if node.key = expected then .ok () else .error .keyMismatch

end PeerTrust
