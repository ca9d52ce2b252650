import PeerTrust.Asn1.Element
import PeerTrust.Certificate.Calendar
import PeerTrust.Path.Node

/-!
# Requirements on one certificate

What a certificate of a path has to fulfil by itself, whoever issued it: it is valid at the time in
question, it is an authority exactly if it issued the certificate below it, not too many authorities
are below it, and its purposes, if it names any, include the one that is asked for.
-/

namespace PeerTrust.Path

open Asn1

/-- Two decimal digits within bounds. -/
def twoDigits (low high : Nat) (bytes : Bytes) : Except Fault (Nat × Bytes) :=
  match bytes with
  | a :: b :: rest =>
      match Calendar.twoDigits? a b with
      | some value =>
          if low ≤ value ∧ value ≤ high then .ok (value, rest) else .error .malformedTime
      | none => .error .malformedTime
  | _ => .error .malformedTime

/-- The year of a time, with two digits from 1950 on or with four digits. -/
def year (isShort : Bool) (bytes : Bytes) : Except Fault (Nat × Bytes) := do
  if isShort then
    let (low, rest) ← twoDigits 0 99 bytes
    return ((if 50 ≤ low then 1900 else 2000) + low, rest)
  else
    let (high, rest) ← twoDigits 0 99 bytes
    let (low, rest) ← twoDigits 0 99 rest
    return (high * 100 + low, rest)

/-- The contents of a time: a year, a month, a day, a time of day with seconds and the letter
`Z`. -/
def timeContents (isShort : Bool) (bytes : Bytes) : Except Fault (Nat × Bytes) := do
  let (year, rest) ← year isShort bytes
  let (month, rest) ← twoDigits 1 12 rest
  let (day, rest) ← twoDigits 1 (Calendar.daysInMonth year month) rest
  let (hour, rest) ← twoDigits 0 23 rest
  let (minute, rest) ← twoDigits 0 59 rest
  let (second, rest) ← twoDigits 0 59 rest
  match rest with
  | 0x5A :: rest =>
      if year < 1970 then throw .malformedTime
      else return (Calendar.Instant.toSeconds ⟨year, month, day, hour, minute, second⟩, rest)
  | _ => throw .malformedTime

/-- The seconds from the start of 1970 to a time. -/
def time (bytes : Bytes) : Except Fault (Nat × Bytes) :=
  if bytes.head? = some Der.utcTime then
    within Der.utcTime .malformedTime (timeContents true) bytes
  else within Der.generalizedTime .malformedTime (timeContents false) bytes

/-- The present time has to lie within the validity. -/
def checkValidity (now : Nat) (validity : Bytes) : Except Fault Unit :=
  toEnd .malformed
    (fun bytes => do
      let (notBefore, rest) ← time bytes
      let (notAfter, rest) ← time rest
      if notAfter < notBefore then throw .validityReversed
      else if now < notBefore then throw (.notYetValid now notBefore)
      else if notAfter < now then throw (.expired now notAfter)
      else return ((), rest))
    validity

/-- Basic constraints: whether the certificate is an authority, and the greatest number of
authorities below it. -/
def basicConstraints (bytes : Bytes) : Except Fault ((Bool × Option Nat) × Bytes) := do
  let (isAuthority, rest) ← flag bytes
  if rest.isEmpty then return ((isAuthority, none), rest)
  else
    let (limit, rest) ← octet rest
    return ((isAuthority, some limit), rest)

/-- A leaf is no authority, an issuer is one, and no more authorities are below an issuer than it
allows. The place of the certificate in the path is looked at before what is left of the bytes. -/
def checkConstraints (isLeaf : Bool) (authoritiesBelow : Nat) (constraints : Option Bytes) :
    Except Fault Unit := do
  let check : Bool × Option Nat → Except Fault Unit := fun
    | (isAuthority, limit) =>
        if isLeaf then if isAuthority then .error .authorityAsLeaf else .ok ()
        else if !isAuthority then .error .leafAsAuthority
        else match limit with
          | some limit => if limit < authoritiesBelow then .error .pathLengthExceeded else .ok ()
          | none => .ok ()
  match constraints with
  | none => check (false, none)
  | some bytes =>
      toEnd .malformed
        (fun bytes => do
          let (constraints, rest) ← basicConstraints bytes
          check constraints
          return ((), rest))
        bytes

/-- The identifier of a purpose. -/
def purposeIdentifier : Purpose → Option Bytes
  | .serverAuthentication => some [0x2B, 0x06, 0x01, 0x05, 0x05, 0x07, 0x03, 0x01]
  | .clientAuthentication => some [0x2B, 0x06, 0x01, 0x05, 0x05, 0x07, 0x03, 0x02]
  | .other _ => none

/-- The purpose with a given identifier. -/
def purposeOf (identifier : Bytes) : Purpose :=
  if some identifier = purposeIdentifier .clientAuthentication then .clientAuthentication
  else if some identifier = purposeIdentifier .serverAuthentication then .serverAuthentication
  else .other (arcs identifier)

/-- Looks for a purpose in a list of identifiers, `seen` being the purposes before them in reverse;
`fuel` bounds their number. -/
def findPurpose (required : Purpose) : Nat → List Purpose → Bytes → Except Fault Unit
  | 0, _, _ => .error .malformed
  | fuel + 1, seen, bytes => do
      let (identifier, rest) ← expect Der.objectId bytes
      let found := purposeOf identifier
      if found = required then return ()
      else if rest.isEmpty then throw (.purposeNotAllowed required (found :: seen).reverse)
      else findPurpose required fuel (found :: seen) rest

/-- A certificate that names its purposes names the required one. -/
def checkPurpose (required : Purpose) (purposes : Option Bytes) : Except Fault Unit :=
  match purposes with
  | none => .ok ()
  | some [] => .error .noPurposeAllowed
  | some bytes => findPurpose required bytes.length [] bytes

/-- All requirements on one certificate. -/
def Node.check (node : Node) (now : Nat) (required : Purpose) (isLeaf : Bool)
    (authoritiesBelow : Nat) : Except Fault Unit := do
  checkValidity now node.validity
  checkConstraints isLeaf authoritiesBelow node.constraints
  checkPurpose required node.purposes

end PeerTrust.Path
