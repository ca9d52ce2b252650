import PeerTrust.Text.Letters

/-!
# Host name patterns

A certificate names hosts by patterns. A pattern without `*` names itself; a pattern whose first
label is `*` names every host with exactly one label in its place, provided at least two labels
follow. Letter case and one trailing dot make no difference, and a name with an empty label never
matches.
-/

namespace PeerTrust.Hostname

/-- A name without one trailing dot. -/
def dropDot (name : List Char) : List Char :=
  if name.getLast? = some '.' then name.dropLast else name

/-- Whether two dots stand side by side. -/
def hasEmptyLabel : List Char → Bool
  | '.' :: '.' :: _ => true
  | _ :: rest => hasEmptyLabel rest
  | [] => false

/-- A name in lower case without one trailing dot, unless a label of it is empty. -/
def normalize? (name : List Char) : Option (List Char) :=
  let name := dropDot name
  if name.isEmpty || name.head? = some '.' || hasEmptyLabel name then none
  else some (name.map Letters.lower)

/-- The text that a given ending follows. -/
def stripSuffix? (suffix text : List Char) : Option (List Char) :=
  if suffix.isSuffixOf text then some (text.take (text.length - suffix.length)) else none

/-- Whether one non-empty label stands in front of a suffix, with a dot between them. -/
def isLabelBefore (host suffix : List Char) : Bool :=
  match stripSuffix? ('.' :: suffix) host with
  | none => false
  | some label => !label.isEmpty && !label.contains '.'

/-- Whether a normalized name is covered by a normalized pattern. -/
def covers (pattern host : List Char) : Bool :=
  if host.contains '*' then false
  else if !pattern.contains '*' then host == pattern
  else match pattern with
    | '*' :: '.' :: suffix =>
        !suffix.contains '*' && suffix.contains '.' && isLabelBefore host suffix
    | _ => false

/-- Whether a host name is covered by a pattern. -/
def matchesPattern (host pattern : String) : Bool :=
  match normalize? host.toList, normalize? pattern.toList with
  | some host, some pattern => covers pattern host
  | _, _ => false

end PeerTrust.Hostname
