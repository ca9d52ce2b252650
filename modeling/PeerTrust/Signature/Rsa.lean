import PeerTrust.Signature.Digest

/-!
# Signatures with a composite modulus

Keys have moduli of 2048 to 8192 bits and an odd exponent of at least three. A signature is either
the padded name and digest of the message, or the masked form with a salt as long as the digest.
-/

namespace PeerTrust.Rsa

/-- A public key. -/
structure Key where
  modulus : Nat
  exponent : Nat
  deriving DecidableEq, Repr

/-- The number of bits of a number. -/
def bitLength (n : Nat) : Nat := if n = 0 then 0 else n.log2 + 1

/-- Whether a key is of a size that is in use. -/
def Key.isUsable (key : Key) : Bool :=
  2048 ≤ bitLength key.modulus && bitLength key.modulus ≤ 8192 && key.modulus % 2 == 1 &&
    3 ≤ key.exponent && key.exponent % 2 == 1 && bitLength key.exponent ≤ 33

/-- The number of bytes of a modulus. -/
def Key.size (key : Key) : Nat := (bitLength key.modulus + 7) / 8

/-- The encoded beginning of a named digest, up to the digest. -/
def digestName : Digest.Algorithm → Bytes
  | .sha256 => [0x30, 0x31, 0x30, 0x0D, 0x06, 0x09, 0x60, 0x86, 0x48, 0x01, 0x65, 0x03, 0x04, 0x02,
      0x01, 0x05, 0x00, 0x04, 0x20]
  | .sha384 => [0x30, 0x41, 0x30, 0x0D, 0x06, 0x09, 0x60, 0x86, 0x48, 0x01, 0x65, 0x03, 0x04, 0x02,
      0x02, 0x05, 0x00, 0x04, 0x30]
  | .sha512 => [0x30, 0x51, 0x30, 0x0D, 0x06, 0x09, 0x60, 0x86, 0x48, 0x01, 0x65, 0x03, 0x04, 0x02,
      0x03, 0x05, 0x00, 0x04, 0x40]

/-- The block that a signature opens to, as long as the modulus. -/
def opened? (key : Key) (signature : Bytes) : Option Bytes :=
  let number := Bytes.toNat signature
  if signature.length = key.size ∧ number < key.modulus then
    some (Bytes.ofNat key.size (Modular.pow key.modulus number key.exponent))
  else none

/-- The padded block of a message. -/
def paddedBlock (size : Nat) (hash : Digest.Algorithm) (message : Bytes) : Bytes :=
  let named := digestName hash ++ hash.hash message
  [0x00, 0x01] ++ List.replicate (size - named.length - 3) 0xFF ++ [0x00] ++ named

/-- Whether a signature opens to the padded block of a message. -/
def verifyPadded (key : Key) (hash : Digest.Algorithm) (message signature : Bytes) : Bool :=
  key.isUsable && opened? key signature == some (paddedBlock key.size hash message)

/-- A mask of a given length, made from digests of a seed and a counter. -/
def mask (hash : Digest.Algorithm) (seed : Bytes) (length : Nat) : Bytes :=
  ((List.range (length / hash.size + 1)).flatMap fun counter =>
    hash.hash (seed ++ Bytes.ofNat 4 counter)).take length

/-- Whether an opened block is the masked form of a message for a modulus of `bits` bits. -/
def isMaskedBlock (hash : Digest.Algorithm) (bits : Nat) (message block : Bytes) : Bool :=
  let size := hash.size
  let length := (bits - 1 + 7) / 8
  let unused := 8 * length - (bits - 1)
  let block := block.drop (block.length - length)
  let masked := block.take (length - size - 1)
  let digest := (block.drop (length - size - 1)).take size
  let content := (masked.zip (mask hash digest masked.length)).map fun pair => pair.1 ^^^ pair.2
  let content := match content with
    | [] => []
    | first :: rest => UInt8.ofNat (first.toNat % Nat.pow 2 (8 - unused)) :: rest
  let zeros := masked.length - size - 1
  let salt := content.drop (zeros + 1)
  2 * size + 2 ≤ length && block.getLast? == some 0xBC &&
    (block.headD 0).toNat < Nat.pow 2 (8 - unused) &&
    (content.take zeros).all (· == 0) && content[zeros]? == some 0x01 &&
    hash.hash (List.replicate 8 0 ++ hash.hash message ++ salt) == digest

/-- Whether a signature opens to a masked form of a message. -/
def verifyMasked (key : Key) (hash : Digest.Algorithm) (message signature : Bytes) : Bool :=
  key.isUsable &&
    match opened? key signature with
    | none => false
    | some block =>
        let bits := bitLength key.modulus
        (bits % 8 ≠ 1 || block.head? == some 0) && isMaskedBlock hash bits message block

end PeerTrust.Rsa
