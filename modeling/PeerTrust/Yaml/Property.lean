import PeerTrust.Text.Utf8
import PeerTrust.Yaml.Scalar

/-!
# Anchors, tags and directives

The parts of a document that begin with a sign and name something.
-/

namespace PeerTrust.Yaml

/-- Reads the name of an anchor or of a reference to one. -/
def readAnchor (cursor : Cursor) : Except Fault (String × Cursor) :=
  let (name, behind) := (cursor.skip 1).takeWhile isNameChar
  let isEnd : Bool := endsWord behind.head? ||
    behind.head?.any ['?', ':', ',', ']', '}', '%', '@', '`'].contains
  if name = [] ∨ ¬isEnd then .error ⟨.anchorName, behind.mark⟩
  else .ok (String.ofList name, behind)

/-- The signs that may stand in every tag. -/
def tagSigns : List Char :=
  [';', '/', '?', ':', '@', '&', '=', '+', '$', '.', '%', '!', '~', '*', '\'', '(', ')']

/-- Whether a character may stand in a tag. Commas and square brackets may only do so in a tag that
is written in full. -/
def isTagChar (inFull : Bool) (c : Char) : Bool :=
  isNameChar c || tagSigns.contains c || (inFull && [',', '[', ']'].contains c)

/-- The bytes of a part of a tag, in which a percent sign stands before two hexadecimal digits. -/
def tagBytes? : List Char → Option Bytes
  | '%' :: high :: low :: rest => do
      return UInt8.ofNat (16 * (← hexDigit? high) + (← hexDigit? low)) :: (← tagBytes? rest)
  | '%' :: _ => none
  | c :: rest => do return Bytes.ofString (String.singleton c) ++ (← tagBytes? rest)
  | [] => some []

/-- Reads a part of a tag that was begun with other characters. One character is needed in all. -/
def readTagPart (inFull : Bool) (begun : List Char) (cursor : Cursor) :
    Except Fault (String × Cursor) :=
  let (part, behind) := cursor.takeWhile (isTagChar inFull)
  if begun = [] ∧ part = [] then .error ⟨.tagSuffix, behind.mark⟩
  else
    match (tagBytes? part).bind Utf8.decode? with
    | none => .error ⟨.tagEscape, cursor.mark⟩
    | some text => .ok (String.ofList (begun.drop 1) ++ text, behind)

/-- Reads a handle: an exclamation mark, a name, and perhaps another exclamation mark. -/
def readHandle (cursor : Cursor) : Except Fault (List Char × Cursor) :=
  if ¬cursor.sees '!' then .error ⟨.tagStart, cursor.mark⟩
  else
    let (name, behind) := (cursor.skip 1).takeWhile isNameChar
    if behind.sees '!' then .ok ('!' :: name ++ ['!'], behind.skip 1) else .ok ('!' :: name, behind)

/-- Whether a handle is a name between exclamation marks. -/
def isNamedHandle (handle : List Char) : Bool :=
  2 ≤ handle.length && handle.getLast? == some '!'

/-- Reads a tag: its handle, which is empty for a tag written in full, and the rest. -/
def readTag (inFlow : Bool) (cursor : Cursor) : Except Fault (String × String × Cursor) := do
  let (handle, suffix, behind) ←
    if cursor.ahead? 1 = some '<' then do
      let (suffix, behind) ← readTagPart true [] (cursor.skip 2)
      if behind.sees '>' then pure ("", suffix, behind.skip 1)
      else throw ⟨.tagBracket, behind.mark⟩
    else do
      let (handle, behind) ← readHandle cursor
      if isNamedHandle handle then do
        let (suffix, behind) ← readTagPart false [] behind
        pure (String.ofList handle, suffix, behind)
      else do
        let (suffix, behind) ← readTagPart false handle behind
        pure (if suffix = "" then ("", "!", behind) else ("!", suffix, behind))
  if endsWord behind.head? ∨ (inFlow ∧ behind.sees ',') then return (handle, suffix, behind)
  else throw ⟨.tagEnd, behind.mark⟩

/-- Reads a part of a version number. -/
def readVersionPart (cursor : Cursor) : Except Fault (Nat × Cursor) :=
  let (digits, behind) := cursor.takeWhile Char.isDigit
  if 9 < digits.length then .error ⟨.longVersion, behind.mark⟩
  else if digits = [] then .error ⟨.versionNumber, behind.mark⟩
  else .ok (digits.foldl (fun number digit => 10 * number + (digit.toNat - '0'.toNat)) 0, behind)

/-- Reads what stands behind the name of a directive. -/
def readDirectiveValue (name : String) (cursor : Cursor) (atName : Mark) :
    Except Fault (Token.Kind × Cursor) := do
  if name = "YAML" then
    let (major, behind) ← readVersionPart (cursor.skipWhile isBlank)
    if ¬behind.sees '.' then throw ⟨.versionPoint, behind.mark⟩
    let (minor, behind) ← readVersionPart (behind.skip 1)
    return (.version major minor, behind)
  else if name = "TAG" then
    let (handle, behind) ← readHandle (cursor.skipWhile isBlank)
    if handle ≠ ['!'] ∧ ¬isNamedHandle handle then throw ⟨.tagHandle, behind.mark⟩
    if ¬behind.head?.any isBlank then throw ⟨.directiveSpace, behind.mark⟩
    let (expansion, behind) ← readTagPart true [] (behind.skipWhile isBlank)
    if ¬endsWord behind.head? then throw ⟨.prefixSpace, behind.mark⟩
    return (.handle (String.ofList handle) expansion, behind)
  else throw ⟨.unknownDirective, atName⟩

/-- Reads a directive with its line. -/
def readDirective (cursor : Cursor) : Except Fault (Token.Kind × Cursor) := do
  let (name, behind) := (cursor.skip 1).takeWhile isNameChar
  if name = [] then throw ⟨.directiveName, behind.mark⟩
  if ¬endsWord behind.head? then throw ⟨.directiveCharacter, behind.mark⟩
  let (kind, behind) ← readDirectiveValue (String.ofList name) behind behind.mark
  let behind := (behind.skipWhile isBlank).skipComment
  if endsLine behind.head? then return (kind, behind.skipBreak)
  else throw ⟨.directiveEnd, behind.mark⟩

end PeerTrust.Yaml
