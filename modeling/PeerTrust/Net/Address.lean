/-!
# Internet addresses

Version 4 addresses are four decimal numbers without leading zeros. Version 6 addresses are eight
groups of hexadecimal digits, where `::` stands for one or more zero groups and the last two groups
may be written as a version 4 address. The written form is canonical: the first longest run of at
least two zero groups is shortened, and addresses that embed a version 4 address end in its form.
-/

namespace PeerTrust

/-- An address of version 4 (four octets) or version 6 (eight groups). -/
inductive IpAddress where
  | v4 (octets : Vector UInt8 4)
  | v6 (groups : Vector UInt16 8)
  deriving DecidableEq, Repr

namespace IpAddress

/-- The value of a hexadecimal digit. -/
def hexValue? (c : Char) : Option Nat :=
  if '0' ≤ c ∧ c ≤ '9' then some (c.toNat - '0'.toNat)
  else if 'a' ≤ c ∧ c ≤ 'f' then some (c.toNat - 'a'.toNat + 10)
  else if 'A' ≤ c ∧ c ≤ 'F' then some (c.toNat - 'A'.toNat + 10)
  else none

/-- The value of a digit below the base. -/
def digit? (base : Nat) (c : Char) : Option Nat :=
  (hexValue? c).filter (· < base)

/-- The longest run of digits at the head of a text, and what follows it. -/
def digits (base : Nat) (text : List Char) : List Nat × List Char :=
  ((text.takeWhile fun c => (digit? base c).isSome).filterMap (digit? base),
    text.dropWhile fun c => (digit? base c).isSome)

/-- The number that digits write. -/
def ofDigits (base : Nat) (ds : List Nat) : Nat := ds.foldl (fun n d => n * base + d) 0

/-- A decimal octet of one to three digits without a leading zero. -/
def octet? (text : List Char) : Option (UInt8 × List Char) :=
  match digits 10 text with
  | ([], _) => none
  | (ds, rest) =>
      if ds.length ≤ 3 ∧ (ds.head? = some 0 → ds.length = 1) ∧ ofDigits 10 ds ≤ 255 then
        some (UInt8.ofNat (ofDigits 10 ds), rest)
      else none

/-- A group of one to four hexadecimal digits. -/
def group? (text : List Char) : Option (UInt16 × List Char) :=
  match digits 16 text with
  | ([], _) => none
  | (ds, rest) =>
      if ds.length ≤ 4 then some (UInt16.ofNat (ofDigits 16 ds), rest) else none

/-- What follows a given character at the head of a text. -/
def after? (c : Char) : List Char → Option (List Char)
  | [] => none
  | d :: rest => if d = c then some rest else none

/-- A version 4 address at the head of a text. -/
def octets? (text : List Char) : Option (Vector UInt8 4 × List Char) := do
  let (a, text) ← octet? text
  let (b, text) ← octet? (← after? '.' text)
  let (c, text) ← octet? (← after? '.' text)
  let (d, text) ← octet? (← after? '.' text)
  return (#v[a, b, c, d], text)

/-- The group that two octets make. -/
def groupOfOctets (high low : UInt8) : UInt16 := high.toUInt16 * 256 + low.toUInt16

/-- The two groups that four octets make. -/
def groupsOfOctets (octets : Vector UInt8 4) : List UInt16 :=
  match octets.toList with
  | [a, b, c, d] => [groupOfOctets a b, groupOfOctets c d]
  | _ => []

/-- A run of groups read from the head of a text. -/
structure GroupRun where
  groups : List UInt16
  /-- Whether the run ends in a version 4 address, after which no group can follow. -/
  endsInOctets : Bool
  rest : List Char

/-- Reads up to `limit` groups separated by colons, the last two of which may be written as a
version 4 address. `first` says that no colon stands before the next group. -/
def groupRun (first : Bool) : Nat → List Char → GroupRun
  | 0, text => ⟨[], false, text⟩
  | limit + 1, text =>
      match (if first then some text else after? ':' text) with
      | none => ⟨[], false, text⟩
      | some start =>
          match (if limit = 0 then none else octets? start) with
          | some (octets, rest) => ⟨groupsOfOctets octets, true, rest⟩
          | none =>
              match group? start with
              | none => ⟨[], false, text⟩
              | some (group, rest) =>
                  let run := groupRun false limit rest
                  ⟨group :: run.groups, run.endsInOctets, run.rest⟩

/-- A version 6 address at the head of a text. -/
def groups? (text : List Char) : Option (Vector UInt16 8 × List Char) := do
  let front := groupRun true 8 text
  if h : front.groups.length = 8 then
    return (⟨front.groups.toArray, by simpa using h⟩, front.rest)
  else if front.endsInOctets then none
  else
    let start ← after? ':' (← after? ':' front.rest)
    let back := groupRun true (7 - front.groups.length) start
    let gap := 8 - front.groups.length - back.groups.length
    let all := front.groups ++ List.replicate gap 0 ++ back.groups
    if h : all.length = 8 then return (⟨all.toArray, by simpa using h⟩, back.rest) else none

/-- Reads an address that takes up the whole text. -/
def parse? (text : String) : Option IpAddress :=
  match octets? text.toList with
  | some (octets, []) => some (.v4 octets)
  | some _ => none
  | none => match groups? text.toList with
    | some (groups, []) => some (.v6 groups)
    | _ => none

/-- Lower-case hexadecimal digits of a group. -/
def groupText (group : UInt16) : String := String.ofList (Nat.toDigits 16 group.toNat)

/-- Groups separated by colons. -/
def groupsText (groups : List UInt16) : String := ":".intercalate (groups.map groupText)

/-- Octets separated by dots. -/
def octetsText (octets : List UInt8) : String :=
  ".".intercalate (octets.map fun octet => toString octet.toNat)

/-- The start and length of the first longest run of zero groups. -/
def longestZeroRun (groups : List UInt16) : Nat × Nat :=
  let runs := (List.range groups.length).map fun start =>
    (start, ((groups.drop start).takeWhile (· == 0)).length)
  runs.foldl (fun best run => if best.2 < run.2 then run else best) (0, 0)

/-- The canonical text of an address. -/
def toText : IpAddress → String
  | .v4 octets => octetsText octets.toList
  | .v6 groups =>
      match groups.toList with
      | [0, 0, 0, 0, 0, 0xFFFF, high, low] =>
          "::ffff:" ++ octetsText [UInt8.ofNat (high.toNat / 256), UInt8.ofNat high.toNat,
            UInt8.ofNat (low.toNat / 256), UInt8.ofNat low.toNat]
      | list =>
          let (start, length) := longestZeroRun list
          if 1 < length then
            groupsText (list.take start) ++ "::" ++ groupsText (list.drop (start + length))
          else groupsText list

/-- The address whose octets are given, if there are four or sixteen of them. -/
def ofOctets? (octets : List UInt8) : Option IpAddress :=
  match octets with
  | [a, b, c, d] => some (.v4 #v[a, b, c, d])
  | [a, b, c, d, e, f, g, h, i, j, k, l, m, n, o, p] =>
      some (.v6 #v[groupOfOctets a b, groupOfOctets c d, groupOfOctets e f, groupOfOctets g h,
        groupOfOctets i j, groupOfOctets k l, groupOfOctets m n, groupOfOctets o p])
  | _ => none

end IpAddress

/-- An address with a port, and the scope of a version 6 address. -/
structure SocketAddress where
  ip : IpAddress
  port : UInt16
  scope : Nat
  deriving DecidableEq, Repr

namespace SocketAddress

/-- A decimal number of at least one digit below a bound. -/
private def number? (bound : Nat) (text : List Char) : Option (Nat × List Char) :=
  match IpAddress.digits 10 text with
  | ([], _) => none
  | (ds, rest) =>
      if IpAddress.ofDigits 10 ds < bound then some (IpAddress.ofDigits 10 ds, rest) else none

/-- Reads `a.b.c.d:port`, `[address]:port` or `[address%scope]:port`. -/
def parse? (text : String) : Option SocketAddress :=
  match text.toList with
  | '[' :: rest => do
      let (groups, rest) ← IpAddress.groups? rest
      let (scope, rest) ← match rest with
        | '%' :: rest => number? (Nat.pow 2 32) rest
        | _ => some (0, rest)
      let rest ← IpAddress.after? ':' (← IpAddress.after? ']' rest)
      let (port, rest) ← number? (Nat.pow 2 16) rest
      if rest.isEmpty then return ⟨.v6 groups, UInt16.ofNat port, scope⟩ else none
  | chars => do
      let (octets, rest) ← IpAddress.octets? chars
      let (port, rest) ← number? (Nat.pow 2 16) (← IpAddress.after? ':' rest)
      if rest.isEmpty then return ⟨.v4 octets, UInt16.ofNat port, 0⟩ else none

/-- The canonical text of a socket address. -/
def toText (address : SocketAddress) : String :=
  match address.ip with
  | .v4 _ => s!"{address.ip.toText}:{address.port.toNat}"
  | .v6 _ =>
      if address.scope = 0 then s!"[{address.ip.toText}]:{address.port.toNat}"
      else s!"[{address.ip.toText}%{address.scope}]:{address.port.toNat}"

end SocketAddress

end PeerTrust
