import PeerTrust.Text.Bytes

/-!
# Elements of an encoded value

An element is an identifier, a length and that many bytes of contents. This reader is the tolerant
one that shows certificates: it takes any length form but the indefinite one. Nothing here looks at
what comes after the elements that are asked for.
-/

namespace PeerTrust.Asn1

/-- The class of an identifier. -/
inductive TagClass where
  | universal
  | application
  | contextSpecific
  | privateUse
  deriving DecidableEq, Repr

/-- The class written in the two highest bits of an identifier octet. -/
def TagClass.ofOctet (octet : UInt8) : TagClass :=
  if octet < 0x40 then .universal
  else if octet < 0x80 then .application
  else if octet < 0xC0 then .contextSpecific
  else .privateUse

/-- An identifier with its contents. -/
structure Element where
  tagClass : TagClass
  isConstructed : Bool
  number : Nat
  contents : Bytes
  deriving DecidableEq, Repr

/-- The base-128 digits of a number, the last of which is below 128. -/
def base128? : Nat → Bytes → Option (Nat × Bytes)
  | _, [] => none
  | value, octet :: rest =>
      if octet < 0x80 then some (value * 128 + octet.toNat, rest)
      else base128? (value * 128 + (octet.toNat - 128)) rest

/-- A length in short form, or in long form with any number of octets. -/
def length? : Bytes → Option (Nat × Bytes)
  | [] => none
  | octet :: rest =>
      if octet < 0x80 then some (octet.toNat, rest)
      else
        let width := octet.toNat - 128
        if width = 0 ∨ width = 127 ∨ rest.length < width then none
        else some (Bytes.toNat (rest.take width), rest.drop width)

/-- The element at the head of a byte string, and what follows it. -/
def Element.next? : Bytes → Option (Element × Bytes)
  | [] => none
  | octet :: rest => do
      let (number, rest) ←
        if octet.toNat % 32 = 31 then base128? 0 rest else some (octet.toNat % 32, rest)
      let (length, rest) ← length? rest
      if rest.length < length then none
      else return (⟨TagClass.ofOctet octet, octet.toNat / 32 % 2 = 1, number, rest.take length⟩,
        rest.drop length)

/-- The element at the head of a byte string, if its universal tag number is the given one. -/
def universal? (number : Nat) (bytes : Bytes) : Option (Bytes × Bytes) := do
  let (element, rest) ← Element.next? bytes
  if element.tagClass = .universal ∧ element.number = number then return (element.contents, rest)
  else none

/-- The element at the head of a byte string, if its context-specific tag number is the given
one. -/
def context? (number : Nat) (bytes : Bytes) : Option (Bytes × Bytes) := do
  let (element, rest) ← Element.next? bytes
  if element.tagClass = .contextSpecific ∧ element.number = number then
    return (element.contents, rest)
  else none

/-- Reads items one after the other until one cannot be read; `fuel` bounds their number. -/
def itemsUpTo {α : Type} (item? : Bytes → Option (α × Bytes)) : Nat → Bytes → List α × Bytes
  | 0, bytes => ([], bytes)
  | fuel + 1, bytes =>
      match item? bytes with
      | none => ([], bytes)
      | some (item, rest) =>
          let (items, rest) := itemsUpTo item? fuel rest
          (item :: items, rest)

/-- All items at the head of a byte string, and what could not be read. Every item takes at least
one byte. -/
def items {α : Type} (item? : Bytes → Option (α × Bytes)) (bytes : Bytes) : List α × Bytes :=
  itemsUpTo item? bytes.length bytes

/-- Universal tag numbers. -/
def booleanTag : Nat := 1
def integerTag : Nat := 2
def bitStringTag : Nat := 3
def octetStringTag : Nat := 4
def objectIdTag : Nat := 6
def sequenceTag : Nat := 16
def setTag : Nat := 17
def utcTimeTag : Nat := 23
def generalizedTimeTag : Nat := 24

/-- The contents of a bit string without the octet that counts the unused bits, which are zero. -/
def bitString? (bytes : Bytes) : Option (Bytes × Bytes) := do
  let (contents, rest) ← universal? bitStringTag bytes
  match contents with
  | [] => none
  | unused :: bits =>
      let last := (bits.getLast?.getD 0).toNat
      if unused ≤ 7 ∧ (bits = [] → unused = 0) ∧ last % Nat.pow 2 unused.toNat = 0 then
        return (bits, rest)
      else none

/-- The numbers of an object identifier; the first octet holds the first two. -/
def arcs (bytes : Bytes) : List Nat :=
  let (numbers, _) := items (base128? 0) bytes
  match numbers with
  | [] => []
  | first :: others =>
      if first < 80 then first / 40 :: first % 40 :: others else 2 :: (first - 80) :: others

/-- The numbers of an object identifier joined by dots. -/
def dotted (bytes : Bytes) : String := ".".intercalate ((arcs bytes).map toString)

end PeerTrust.Asn1
