import PeerTrust.Asn1.Der
import PeerTrust.Path.Fault

/-!
# Certificates of a path

A certificate that is to be trusted is read strictly: nothing may follow where nothing is expected,
only version 3 is taken, and a critical extension has to be known. An anchor is trusted already, so
its critical extensions are let pass and it may be of version 1.
-/

namespace PeerTrust.Path

open Asn1

/-- The contents of an element that has to be there. -/
def expect (tag : UInt8) (bytes : Bytes) : Except Fault (Bytes × Bytes) :=
  match Der.take? tag bytes with
  | some found => .ok found
  | none => .error .malformed

/-- Reads all of a byte string; `fault` says that something is left. -/
def toEnd {α : Type} (fault : Fault) (read : Bytes → Except Fault (α × Bytes)) (bytes : Bytes) :
    Except Fault α := do
  let (value, rest) ← read bytes
  if rest.isEmpty then return value else throw fault

/-- Reads all contents of an element; `fault` says that the element is not there or that something
is left in it. -/
def within {α : Type} (tag : UInt8) (fault : Fault) (read : Bytes → Except Fault (α × Bytes))
    (bytes : Bytes) : Except Fault (α × Bytes) :=
  match Der.take? tag bytes with
  | none => .error fault
  | some (contents, rest) => do return (← toEnd fault read contents, rest)

/-- A number of one octet. -/
def octet (bytes : Bytes) : Except Fault (Nat × Bytes) := do
  let (contents, rest) ← expect Der.integer bytes
  match Der.natural? contents with
  | some [value] => return (value.toNat, rest)
  | _ => throw .malformed

/-- A truth value, which is false when it is left out. -/
def flag (bytes : Bytes) : Except Fault (Bool × Bytes) :=
  if bytes.head? = some Der.boolean then
    within Der.boolean .trailingData
      (fun
        | 0xFF :: rest => .ok (true, rest)
        | 0x00 :: rest => .ok (false, rest)
        | _ => .error .malformed)
      bytes
  else .ok (false, bytes)

/-- A bit string of whole octets. -/
def octets (bytes : Bytes) : Except Fault (Bytes × Bytes) :=
  within Der.bitString .trailingData
    (fun
      | 0x00 :: rest => .ok (rest, [])
      | _ => .error .malformed)
    bytes

/-- The extensions that a reader knows, by the last octet of their identifiers: use of the key,
names of hosts, basic constraints, name constraints, places of revocation lists, purposes. -/
def knownExtensions : List UInt8 := [15, 17, 19, 30, 31, 37]

/-- Values of known extensions. -/
abbrev Extensions := List (UInt8 × Bytes)

/-- The value of a known extension. -/
def Extensions.value? (extensions : Extensions) (number : UInt8) : Option Bytes :=
  (extensions.find? (·.1 == number)).map (·.2)

/-- The number of a known extension, given its identifier. -/
def knownNumber? : Bytes → Option UInt8
  | [0x55, 0x1D, number] => if knownExtensions.contains number then some number else none
  | _ => none

/-- Takes up one extension. A known one must not be there already, and its value is a sequence, but
for the use of the key. `isAnchor` lets unknown critical extensions pass. -/
def remember (isAnchor : Bool) (known : Extensions) (bytes : Bytes) :
    Except Fault (Extensions × Bytes) := do
  let (identifier, rest) ← expect Der.objectId bytes
  let (isCritical, rest) ← flag rest
  let (value, rest) ← expect Der.octetString rest
  match knownNumber? identifier with
  | none => if isCritical && !isAnchor then throw .unsupportedExtension else return (known, rest)
  | some number =>
      if (known.value? number).isSome then throw .extensionRepeated
      else if number = 15 then return ((number, value) :: known, rest)
      else return ((number, ← toEnd .malformed (expect Der.sequence) value) :: known, rest)

/-- Takes up extensions one after the other; `fuel` bounds their number. -/
def rememberAll (isAnchor : Bool) : Nat → Extensions → Bytes → Except Fault (Extensions × Bytes)
  | 0, known, bytes => .ok (known, bytes)
  | fuel + 1, known, bytes =>
      if bytes.isEmpty then .ok (known, bytes)
      else do
        let (known, rest) ← within Der.sequence .trailingData (remember isAnchor known) bytes
        rememberAll isAnchor fuel known rest

/-- The extensions at the end of a certificate body. -/
def extensions (isAnchor : Bool) (bytes : Bytes) : Except Fault (Extensions × Bytes) :=
  if bytes.isEmpty then .ok ([], bytes)
  else
    within (Der.context 3) .trailingData
      (within Der.sequence .trailingData fun contents =>
        rememberAll isAnchor contents.length [] contents)
      bytes

/-- A certificate as far as a path depends on it. Names, keys and algorithms are the contents of
their sequences. -/
structure Node where
  /-- The bytes that are signed. -/
  signed : Bytes
  algorithm : Bytes
  signature : Bytes
  issuer : Bytes
  validity : Bytes
  subject : Bytes
  key : Bytes
  constraints : Option Bytes
  purposes : Option Bytes
  deriving DecidableEq, Repr

/-- A certificate in its three parts: the body, the algorithm and the signature. `signed` is the
body with its header. -/
structure Envelope where
  signed : Bytes
  body : Bytes
  algorithm : Bytes
  signature : Bytes
  deriving DecidableEq, Repr

/-- The three parts of a certificate. -/
def envelope (bytes : Bytes) : Except Fault (Envelope × Bytes) := do
  let (body, rest) ← expect Der.sequence bytes
  let signed := bytes.take (bytes.length - rest.length)
  let (algorithm, rest) ← expect Der.sequence rest
  let (signature, rest) ← octets rest
  return (⟨signed, body, algorithm, signature⟩, rest)

/-- The version, which has to be the third. -/
def version (bytes : Bytes) : Except Fault (Unit × Bytes) :=
  within (Der.context 0) .unsupportedVersion
    (fun contents => do
      let (number, rest) ← octet contents
      if number = 2 then return ((), rest) else throw .unsupportedVersion)
    bytes

/-- Reads the body of a certificate. -/
def body (isAnchor : Bool) (parts : Envelope) (bytes : Bytes) : Except Fault (Node × Bytes) := do
  let (_, rest) ← version bytes
  let (_, rest) ← expect Der.integer rest
  let (algorithm, rest) ← expect Der.sequence rest
  if algorithm ≠ parts.algorithm then throw .algorithmMismatch
  let (issuer, rest) ← expect Der.sequence rest
  let (validity, rest) ← expect Der.sequence rest
  let (subject, rest) ← expect Der.sequence rest
  let (key, rest) ← expect Der.sequence rest
  let (known, rest) ← extensions isAnchor rest
  let node : Node := {
    signed := parts.signed, algorithm := parts.algorithm, signature := parts.signature
    issuer, validity, subject, key
    constraints := known.value? 19, purposes := known.value? 37 }
  return (node, rest)

/-- Reads a certificate. -/
def Node.read (isAnchor : Bool) (der : Bytes) : Except Fault Node := do
  let parts ← toEnd .trailingData (within Der.sequence .trailingData envelope) der
  toEnd .trailingData (body isAnchor parts) parts.body

/-- A certificate that is to be trusted. -/
def Node.parse (der : Bytes) : Except Fault Node := Node.read false der

/-- What is trusted without a path: a name and a key, each being the contents of its sequence. -/
structure Anchor where
  subject : Bytes
  key : Bytes
  deriving DecidableEq, Repr

/-- The body of a certificate of version 1, which has neither a version nor extensions. -/
def firstVersionBody (bytes : Bytes) : Except Fault (Anchor × Bytes) := do
  let (_, rest) ← expect Der.integer bytes
  let (_, rest) ← expect Der.sequence rest
  let (_, rest) ← expect Der.sequence rest
  let (_, rest) ← expect Der.sequence rest
  let (subject, rest) ← expect Der.sequence rest
  let (key, rest) ← expect Der.sequence rest
  return (⟨subject, key⟩, rest)

/-- The anchor in a certificate of version 1. -/
def firstVersion (bytes : Bytes) : Except Fault (Anchor × Bytes) :=
  within Der.sequence .malformed
    (fun contents => do
      let (anchor, rest) ← within Der.sequence .malformed firstVersionBody contents
      let (_, rest) ← expect Der.sequence rest
      let (_, rest) ← expect Der.bitString rest
      return (anchor, rest))
    bytes

/-- The anchor in a certificate of version 3, and else the one in a certificate of version 1. -/
def Anchor.parse (der : Bytes) : Except Fault Anchor :=
  match Node.read true der with
  | .ok node => .ok ⟨node.subject, node.key⟩
  | .error .unsupportedVersion =>
      match toEnd .malformed firstVersion der with
      | .ok anchor => .ok anchor
      | .error _ => .error .malformed
  | .error fault => .error fault

/-- The name of an anchor as an element of its own. -/
def Anchor.name (anchor : Anchor) : Bytes := Der.encode Der.sequence anchor.subject

end PeerTrust.Path
