import PeerTrust.Asn1.Element
import PeerTrust.Certificate.Calendar
import PeerTrust.Net.Address
import PeerTrust.Text.Utf8

/-!
# Certificates on display

What is shown of a certificate: its subject as text, its common name, the hosts it names and the
family of its key. The reader is tolerant; bytes after a certificate are ignored, and an unreadable
extension counts as an extension that is not there.
-/

namespace PeerTrust

/-- A certificate as it was presented or stored. -/
structure Certificate where
  der : Bytes
  deriving DecidableEq, Repr

namespace Certificate

open Asn1

/-- One attribute of a name: its type and its value. -/
structure Attribute where
  kind : Bytes
  value : Element
  deriving DecidableEq, Repr

/-- An attribute at the head of a byte string. -/
def attribute? (bytes : Bytes) : Option (Attribute × Bytes) := do
  let (contents, rest) ← universal? sequenceTag bytes
  let (kind, contents) ← universal? objectIdTag contents
  let (value, _) ← Element.next? contents
  return (⟨kind, value⟩, rest)

/-- A set of attributes, which is not empty. -/
def attributeSet? (bytes : Bytes) : Option (List Attribute × Bytes) := do
  let (contents, rest) ← universal? setTag bytes
  let (attributes, _) := items attribute? contents
  if attributes.isEmpty then none else return (attributes, rest)

/-- A name is a sequence of attribute sets; it ends at the first one that cannot be read. -/
def name? (bytes : Bytes) : Option (List (List Attribute) × Bytes) := do
  let (contents, rest) ← universal? sequenceTag bytes
  return ((items attributeSet? contents).1, rest)

/-- The number of seconds given in a time of day, if they are given. -/
private def seconds (bytes : Bytes) : Nat × Bytes :=
  match bytes with
  | high :: low :: rest =>
      match Calendar.twoDigits? high low with
      | some value => (value, rest)
      | none => (0, bytes)
  | _ => (0, bytes)

/-- Whether a text is a time zone: `Z`, or an offset in hours and minutes. -/
def isZone : Bytes → Bool
  | [0x5A] => true
  | [sign, a, b, c, d] =>
      (sign == 0x2B || sign == 0x2D) && (Calendar.twoDigits? a b).isSome &&
        (Calendar.twoDigits? c d).isSome
  | _ => false

/-- Whether a text is a time with a year of two digits, optional seconds and a zone. -/
def isShortTime : Bytes → Bool
  | y1 :: y2 :: o1 :: o2 :: d1 :: d2 :: h1 :: h2 :: m1 :: m2 :: rest =>
      match Calendar.twoDigits? y1 y2, Calendar.twoDigits? o1 o2, Calendar.twoDigits? d1 d2,
          Calendar.twoDigits? h1 h2, Calendar.twoDigits? m1 m2 with
      | some year, some month, some day, some hour, some minute =>
          let (second, zone) := seconds rest
          let century := if year < 50 then 2000 else 1900
          (Calendar.Instant.mk (century + year) month day hour minute second).isValid && isZone zone
      | _, _, _, _, _ => false
  | _ => false

/-- Whether a text is the fraction of a second, of one to three digits, and the letter `Z`. -/
def isFraction : Bytes → Bool
  | [0x5A] => true
  | 0x2E :: rest =>
      let digits := rest.takeWhile fun byte => 0x30 ≤ byte && byte ≤ 0x39
      1 ≤ digits.length && digits.length ≤ 3 && rest.drop digits.length == [0x5A]
  | _ => false

/-- Whether a text is a time with a year of four digits, with seconds, ending in `Z`. -/
def isLongTime : Bytes → Bool
  | c1 :: c2 :: y1 :: y2 :: o1 :: o2 :: d1 :: d2 :: h1 :: h2 :: m1 :: m2 :: s1 :: s2 :: rest =>
      match Calendar.twoDigits? c1 c2, Calendar.twoDigits? y1 y2, Calendar.twoDigits? o1 o2,
          Calendar.twoDigits? d1 d2, Calendar.twoDigits? h1 h2, Calendar.twoDigits? m1 m2,
          Calendar.twoDigits? s1 s2 with
      | some century, some year, some month, some day, some hour, some minute, some second =>
          (Calendar.Instant.mk (century * 100 + year) month day hour minute second).isValid &&
            isFraction rest
      | _, _, _, _, _, _, _ => false
  | _ => false

/-- A readable time at the head of a byte string, and what follows it. -/
def time? (bytes : Bytes) : Option (Unit × Bytes) := do
  let (element, rest) ← Element.next? bytes
  if element.tagClass = .universal ∧
      ((element.number = utcTimeTag ∧ isShortTime element.contents) ∨
        (element.number = generalizedTimeTag ∧ isLongTime element.contents)) then
    return ((), rest)
  else none

/-- An algorithm identifier: the object identifier of the algorithm. -/
def algorithm? (bytes : Bytes) : Option (Bytes × Bytes) := do
  let (contents, rest) ← universal? sequenceTag bytes
  let (kind, _) ← universal? objectIdTag contents
  return (kind, rest)

/-- An extension: its identifier and its value. -/
structure Extension where
  kind : Bytes
  value : Bytes
  deriving DecidableEq, Repr

/-- An extension at the head of a byte string. -/
def extension? (bytes : Bytes) : Option (Extension × Bytes) := do
  let (contents, rest) ← universal? sequenceTag bytes
  let (kind, contents) ← universal? objectIdTag contents
  let contents := match universal? booleanTag contents with
    | some ([_], after) => after
    | _ => contents
  let (value, _) ← universal? octetStringTag contents
  return (⟨kind, value⟩, rest)

/-- The extensions at the end of a certificate body; every one of them has to be readable. -/
def extensions? (bytes : Bytes) : Option (List Extension) :=
  if bytes.isEmpty then some []
  else do
    let (contents, _) ← context? 3 bytes
    let (contents, _) ← universal? sequenceTag contents
    match items extension? contents with
    | (extensions, []) => return extensions
    | _ => none

/-- The parts of a certificate that are shown. -/
structure Fields where
  subject : List (List Attribute)
  keyAlgorithm : Bytes
  extensions : List Extension
  deriving DecidableEq, Repr

/-- Skips an optional context-specific element. -/
private def skipContext (number : Nat) (bytes : Bytes) : Bytes :=
  match context? number bytes with
  | some (_, rest) => rest
  | none => bytes

/-- Skips the version, which is optional and a small number. -/
private def skipVersion (bytes : Bytes) : Option Bytes :=
  match context? 0 bytes with
  | none => some bytes
  | some (contents, rest) => do
      let (version, _) ← universal? integerTag contents
      if version.isEmpty ∨ version.length > 5 then none else return rest

/-- Reads the parts of a certificate that are shown. -/
def fields? (certificate : Certificate) : Option Fields := do
  let (contents, _) ← universal? sequenceTag certificate.der
  let (body, contents) ← universal? sequenceTag contents
  let body ← skipVersion body
  let (_, body) ← universal? integerTag body
  let (_, body) ← algorithm? body
  let (_, body) ← name? body
  let (validity, body) ← universal? sequenceTag body
  let (_, validity) ← time? validity
  let (_, _) ← time? validity
  let (subject, body) ← name? body
  let (key, body) ← universal? sequenceTag body
  let (keyAlgorithm, key) ← algorithm? key
  let (_, _) ← bitString? key
  let extensions ← extensions? (skipContext 2 (skipContext 1 body))
  let (_, contents) ← algorithm? contents
  let (_, _) ← bitString? contents
  return ⟨subject, keyAlgorithm, extensions⟩

/-- The short names of attribute types. -/
def attributeNames : List (String × String) := [
  ("2.5.4.3", "CN"), ("2.5.4.6", "C"), ("2.5.4.7", "L"), ("2.5.4.8", "ST"), ("2.5.4.10", "O"),
  ("2.5.4.11", "OU"), ("0.9.2342.19200300.100.1.25", "DC"), ("1.2.840.113549.1.9.1", "Email"),
  ("0.9.2342.19200300.100.1.1", "uid"), ("1.2.840.113549.1.9.2", "unstructuredName"),
  ("1.2.840.113549.1.9.7", "challengePassword"), ("1.2.840.113549.1.9.8", "unstructuredAddress"),
  ("2.5.4.4", "surname"), ("2.5.4.5", "serialNumber"), ("2.5.4.9", "streetAddress"),
  ("2.5.4.12", "title"), ("2.5.4.13", "description"), ("2.5.4.14", "searchGuide"),
  ("2.5.4.15", "businessCategory"), ("2.5.4.16", "postalAddress"), ("2.5.4.17", "postalCode"),
  ("2.5.4.41", "name"), ("2.5.4.42", "givenName"), ("2.5.4.43", "initials"),
  ("2.5.4.44", "generationQualifier"), ("2.5.4.45", "uniqueIdentifier"),
  ("2.5.4.46", "dnQualifier"), ("2.5.4.65", "pseudonym"), ("2.5.4.97", "organizationIdentifier"),
  ("1.3.6.1.4.1.311.60.2.1.1", "jurisdictionLocalityName"),
  ("1.3.6.1.4.1.311.60.2.1.2", "jurisdictionStateOrProvinceName"),
  ("1.3.6.1.4.1.311.60.2.1.3", "jurisdictionCountryName")]

/-- The name that stands for an attribute type; its number where it has no name. -/
def attributeName (kind : Bytes) : String :=
  match attributeNames.find? fun entry => entry.1 == dotted kind with
  | some (_, name) => name
  | none => s!"OID({dotted kind})"

/-- Numbers of the string types whose bytes are shown as UTF-8 text. -/
def textTags : List Nat := [7, 12, 18, 19, 20, 21, 22, 25, 26, 27]

/-- The number of the string type with two bytes per unit. -/
def twoByteTag : Nat := 30

/-- The characters of a text of two-byte units, which come in pairs beyond the first plane. -/
def decodeUnits? : Bytes → Option (List Char)
  | [] => some []
  | [_] => none
  | high :: low :: rest =>
      let unit := high.toNat * 256 + low.toNat
      if unit < 0xD800 ∨ 0xDFFF < unit then do
        return Char.ofNat unit :: (← decodeUnits? rest)
      else match rest with
        | high' :: low' :: rest' =>
            let next := high'.toNat * 256 + low'.toNat
            if unit < 0xDC00 ∧ 0xDC00 ≤ next ∧ next ≤ 0xDFFF then do
              let code := 0x10000 + (unit - 0xD800) * 0x400 + (next - 0xDC00)
              return Char.ofNat code :: (← decodeUnits? rest')
            else none
        | _ => none

/-- The text of an attribute value; a value that is not a string is shown in hexadecimal. -/
def valueText? (value : Element) : Option String :=
  if textTags.contains value.number then Utf8.decode? value.contents
  else if value.number = twoByteTag then (decodeUnits? value.contents).map String.ofList
  else some (Bytes.hex value.contents)

/-- The text of an attribute. -/
def Attribute.text? (entry : Attribute) : Option String :=
  (valueText? entry.value).map fun text => s!"{attributeName entry.kind}={text}"

/-- The text of a name: sets are joined by commas and the attributes in a set by plus signs. -/
def nameText? (name : List (List Attribute)) : Option String := do
  let sets ← name.mapM fun set => do
    return " + ".intercalate (← set.mapM Attribute.text?)
  return ", ".intercalate sets

/-- The text of a name, or a note that it has none. -/
def nameText (name : List (List Attribute)) : String :=
  (nameText? name).getD "<X509Error: Invalid X.509 name>"

/-- Numbers of the string types that a common name may have. -/
def commonNameTags : List Nat := [12, 18, 19, 22]

/-- The common name is the first one in the subject, if it is text of a common type. -/
def commonName? (name : List (List Attribute)) : Option String := do
  let first ← name.flatten.find? fun entry => dotted entry.kind == "2.5.4.3"
  if commonNameTags.contains first.value.number then Utf8.decode? first.value.contents else none

/-- A host that a certificate names. -/
inductive AlternativeName where
  | dns (name : String)
  | ip (address : IpAddress)
  | other
  deriving DecidableEq, Repr

/-- A name at the head of a byte string; it has to be context-specific. -/
def alternativeName? (bytes : Bytes) : Option (AlternativeName × Bytes) := do
  let (element, rest) ← Element.next? bytes
  if element.tagClass ≠ .contextSpecific then none
  else if element.number = 2 then
    return (((Utf8.decode? element.contents).map AlternativeName.dns).getD .other, rest)
  else if element.number = 7 then
    return (((IpAddress.ofOctets? element.contents).map AlternativeName.ip).getD .other, rest)
  else return (.other, rest)

/-- The names in the value of an extension, every one of which has to be readable. -/
def alternativeNames? (value : Bytes) : Option (List AlternativeName) := do
  let (contents, _) ← universal? sequenceTag value
  match items alternativeName? contents with
  | (names, []) => return names
  | _ => none

/-- The hosts a certificate names; the extension must be there once. -/
def alternativeNames (extensions : List Extension) : List AlternativeName :=
  match extensions.filter fun extension => dotted extension.kind == "2.5.29.17" with
  | [extension] => (alternativeNames? extension.value).getD []
  | _ => []

/-- The family of a key when its algorithm is not known. -/
def unknownFamily : String := "UNKNOWN"

/-- The family of a key. -/
def keyFamily (algorithm : Bytes) : String :=
  match dotted algorithm with
  | "1.2.840.113549.1.1.1" => "RSA"
  | "1.2.840.113549.1.1.10" => "RSA"
  | "1.2.840.10045.2.1" => "EC"
  | "1.3.101.112" => "Ed25519"
  | "1.3.101.113" => "Ed448"
  | _ => unknownFamily

/-- What is shown of a certificate. -/
structure Info where
  subject : String
  commonName : Option String
  dnsNames : List String
  addresses : List IpAddress
  keyFamily : String
  deriving DecidableEq, Repr

/-- What is shown of a certificate that can be read. -/
def info? (certificate : Certificate) : Option Info := do
  let fields ← certificate.fields?
  let names := alternativeNames fields.extensions
  return {
    subject := nameText fields.subject
    commonName := commonName? fields.subject
    dnsNames := names.filterMap fun | .dns name => some name | _ => none
    addresses := names.filterMap fun | .ip address => some address | _ => none
    keyFamily := keyFamily fields.keyAlgorithm }

/-- The subject for a line of a log. -/
def subjectText (certificate : Certificate) : String :=
  match certificate.fields? with
  | some fields => nameText fields.subject
  | none => "<unparseable>"

/-- The kind of authentication that the key of a certificate stands for. -/
def authType (certificate : Certificate) : String :=
  match certificate.fields? with
  | some fields => keyFamily fields.keyAlgorithm
  | none => unknownFamily

end Certificate

end PeerTrust
