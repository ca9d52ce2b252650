import PeerTrust.Text.Bytes

/-!
# Distinguished encoding

The strict reader, which decides about trust. An identifier takes one octet, a length is written in
the only form that distinguished encoding allows, and no element is longer than two octets can say.
-/

namespace PeerTrust.Asn1.Der

/-- Identifier octets. -/
def boolean : UInt8 := 0x01
def integer : UInt8 := 0x02
def bitString : UInt8 := 0x03
def octetString : UInt8 := 0x04
def objectId : UInt8 := 0x06
def utcTime : UInt8 := 0x17
def generalizedTime : UInt8 := 0x18
def sequence : UInt8 := 0x30

/-- The identifier octet of a constructed element with a context-specific number. -/
def context (number : UInt8) : UInt8 := 0xA0 + number

/-- Every element is shorter than this. -/
def sizeLimit : Nat := 0xFFFF

/-- A length below 128 is one octet; a greater one is an octet that counts the others, which are as
few as possible and at most four. -/
def length? : Bytes → Option (Nat × Bytes)
  | [] => none
  | octet :: rest =>
      if octet < 0x80 then some (octet.toNat, rest)
      else
        let width := octet.toNat - 128
        let value := Bytes.toNat (rest.take width)
        let least := max 128 (Nat.pow 256 (width - 1))
        if 1 ≤ width ∧ width ≤ 4 ∧ width ≤ rest.length ∧ least ≤ value then
          some (value, rest.drop width)
        else none

/-- The identifier octet and the contents of the element at the head of a byte string, and what
follows it. -/
def next? : Bytes → Option (UInt8 × Bytes × Bytes)
  | [] => none
  | tag :: rest =>
      if tag.toNat % 32 = 31 then none
      else do
        let (length, rest) ← length? rest
        if length < sizeLimit ∧ length ≤ rest.length then
          return (tag, rest.take length, rest.drop length)
        else none

/-- The contents of the element at the head of a byte string, if it has the given identifier, and
what follows it. -/
def take? (tag : UInt8) (bytes : Bytes) : Option (Bytes × Bytes) := do
  let (found, contents, rest) ← next? bytes
  if found = tag then return (contents, rest) else none

/-- The octets of a length. -/
def encodeLength (length : Nat) : Bytes :=
  if length < 128 then [UInt8.ofNat length]
  else
    let width := length.log2 / 8 + 1
    UInt8.ofNat (128 + width) :: Bytes.ofNat width length

/-- An element with the given identifier. -/
def encode (tag : UInt8) (contents : Bytes) : Bytes :=
  tag :: encodeLength contents.length ++ contents

/-- The digits of a number that is not negative and has no needless octet in front. -/
def natural? (contents : Bytes) : Option Bytes :=
  match contents with
  | [] => none
  | [0] => some [0]
  | 0 :: next :: rest => if 0x80 ≤ next then some (next :: rest) else none
  | first :: rest => if 0x80 ≤ first then none else some (first :: rest)

/-- The natural number at the head of a byte string, and what follows it. -/
def takeNatural? (bytes : Bytes) : Option (Nat × Bytes) := do
  let (contents, rest) ← take? integer bytes
  return (Bytes.toNat (← natural? contents), rest)

/-- The two numbers of a sequence that holds nothing else and takes up the whole byte string. -/
def naturalPair? (bytes : Bytes) : Option (Nat × Nat) := do
  let (contents, rest) ← take? sequence bytes
  let (first, contents) ← takeNatural? contents
  let (second, contents) ← takeNatural? contents
  if rest.isEmpty ∧ contents.isEmpty then return (first, second) else none

end PeerTrust.Asn1.Der
