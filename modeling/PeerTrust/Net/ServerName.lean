import PeerTrust.Net.Address

/-!
# Server names

The name that a connection is opened to is a DNS name or an address literal without brackets.
-/

namespace PeerTrust

/-- A DNS name as it was given, or an address. -/
inductive ServerName where
  | dns (name : String)
  | address (ip : IpAddress)
  deriving DecidableEq, Repr

namespace ServerName

/-- Letters, digits and the underscore may stand anywhere in a label. -/
def isLabelChar (c : Char) : Bool :=
  ('a' ≤ c && c ≤ 'z') || ('A' ≤ c && c ≤ 'Z') || ('0' ≤ c && c ≤ '9') || c == '_'

/-- Whether a character is a decimal digit. -/
def isDigit (c : Char) : Bool := '0' ≤ c && c ≤ '9'

/-- A label has one to sixty-three characters, and no hyphen at either end. -/
def isLabel (label : List Char) : Bool :=
  1 ≤ label.length && label.length ≤ 63 &&
    label.all (fun c => isLabelChar c || c == '-') &&
    label.head? != some '-' && label.getLast? != some '-'

/-- The parts of a text between dots. -/
def labels : List Char → List (List Char)
  | [] => [[]]
  | c :: rest =>
      if c = '.' then [] :: labels rest
      else match labels rest with
        | [] => [[c]]
        | first :: others => (c :: first) :: others

/-- A DNS name has at most 253 characters, labels throughout with one optional dot at the end, and a
last label that is not a number. -/
def isDnsName (name : List Char) : Bool :=
  let body := if name.getLast? = some '.' then name.dropLast else name
  name.length ≤ 253 && (labels body).all isLabel &&
    !((labels body).getLast?.getD []).all isDigit

/-- Reads a server name. -/
def parse? (text : String) : Option ServerName :=
  if isDnsName text.toList then some (.dns text)
  else (IpAddress.parse? text).map .address

/-- The name as text; an address is written canonically. -/
def toText : ServerName → String
  | .dns name => name
  | .address ip => ip.toText

end ServerName

/-- The part of a text before the last colon, or the whole text if there is no colon. -/
def beforeLastColon (text : List Char) : List Char :=
  match text.reverse.dropWhile (· ≠ ':') with
  | [] => text
  | _ :: before => before.reverse

/-- A text without the square brackets around it, if it has both. -/
def withoutBrackets (text : List Char) : List Char :=
  match text with
  | '[' :: inner => if inner.getLast? = some ']' then inner.dropLast else text
  | _ => text

/-- The host in `host:port`, without the brackets around an address of version 6. -/
def hostOf (endpoint : String) : String :=
  String.ofList (withoutBrackets (beforeLastColon endpoint.toList))

end PeerTrust
