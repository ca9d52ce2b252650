/-!
# Places in a document

A cursor is the rest of a text together with the place where it begins. Lines end at carriage
returns, line feeds and both together, and at the separators of lines and paragraphs.
-/

namespace PeerTrust.Yaml

/-- A place in a text. All three count from zero. -/
structure Mark where
  index : Nat
  line : Nat
  column : Nat
  deriving DecidableEq, Repr, Inhabited

namespace Mark

/-- The beginning of a text. -/
def start : Mark := ⟨0, 0, 0⟩

/-- The place a number of characters further on the same line. -/
def right (mark : Mark) (count : Nat) : Mark :=
  { mark with index := mark.index + count, column := mark.column + count }

/-- The beginning of the next line, a number of characters further. -/
def down (mark : Mark) (count : Nat) : Mark := ⟨mark.index + count, mark.line + 1, 0⟩

/-- Whether a place is the beginning of the first line. -/
def isStart (mark : Mark) : Bool := mark.line == 0 && mark.column == 0

/-- A place as it is named in messages, where lines and columns count from one. -/
def text (mark : Mark) : String := s!"line {mark.line + 1} column {mark.column + 1}"

end Mark

/-- Whether a character is a space or a tab. -/
def isBlank (c : Char) : Bool := c == ' ' || c == '\t'

/-- The separator of lines. -/
def lineSeparator : Char := Char.ofNat 0x2028

/-- The separator of paragraphs. -/
def paragraphSeparator : Char := Char.ofNat 0x2029

/-- The control character that goes to the next line. -/
def nextLine : Char := Char.ofNat 0x85

/-- Whether a character ends a line. -/
def isBreak (c : Char) : Bool :=
  c == '\n' || c == '\r' || c == nextLine || c == lineSeparator || c == paragraphSeparator

/-- Whether a word ends before what comes next: a blank, a line break, or nothing. -/
def endsWord : Option Char → Bool
  | none => true
  | some c => isBlank c || isBreak c

/-- Whether a line ends before what comes next. -/
def endsLine : Option Char → Bool
  | none => true
  | some c => isBreak c

/-- Whether a character can stand in a name: a letter, a digit, a hyphen or an underscore. -/
def isNameChar (c : Char) : Bool :=
  ('a' ≤ c && c ≤ 'z') || ('A' ≤ c && c ≤ 'Z') || ('0' ≤ c && c ≤ '9') || c == '-' || c == '_'

/-- The rest of a text, and where it begins. -/
structure Cursor where
  rest : List Char
  mark : Mark
  deriving Repr, Inhabited

namespace Cursor

/-- The cursor at the beginning of a text. -/
def ofText (text : String) : Cursor := ⟨text.toList, .start⟩

/-- The next character. -/
def head? (cursor : Cursor) : Option Char := cursor.rest.head?

/-- A character further on. -/
def ahead? (cursor : Cursor) (count : Nat) : Option Char := cursor.rest[count]?

/-- Whether a character comes next. -/
def sees (cursor : Cursor) (c : Char) : Bool := cursor.head? == some c

/-- The cursor a number of characters further on the same line. -/
def skip (cursor : Cursor) (count : Nat) : Cursor :=
  ⟨cursor.rest.drop count, cursor.mark.right count⟩

/-- The characters that come next and have a property, and the cursor behind them. None of them may
end a line. -/
def takeWhile (cursor : Cursor) (property : Char → Bool) : List Char × Cursor :=
  let taken := cursor.rest.takeWhile property
  (taken, cursor.skip taken.length)

/-- The cursor behind the characters that come next and have a property. -/
def skipWhile (cursor : Cursor) (property : Char → Bool) : Cursor := (cursor.takeWhile property).2

/-- The line break that comes next, as it counts in a text, and the cursor behind it. The separators
stand for themselves, all other breaks for a line feed. -/
def takeBreak (cursor : Cursor) : List Char × Cursor :=
  match cursor.rest with
  | '\r' :: '\n' :: rest => (['\n'], ⟨rest, cursor.mark.down 2⟩)
  | c :: rest =>
      if isBreak c then
        (if c = lineSeparator ∨ c = paragraphSeparator then [c] else ['\n'],
          ⟨rest, cursor.mark.down 1⟩)
      else ([], cursor)
  | [] => ([], cursor)

/-- The cursor behind the line break that comes next, if one does. -/
def skipBreak (cursor : Cursor) : Cursor := cursor.takeBreak.2

/-- The cursor behind the rest of a line with a comment in it. -/
def skipComment (cursor : Cursor) : Cursor :=
  if cursor.sees '#' then cursor.skipWhile fun c => !isBreak c else cursor

/-- Whether three characters at the beginning of a line separate documents. -/
def hasIndicator (cursor : Cursor) (c : Char) : Bool :=
  cursor.mark.column == 0 && cursor.rest.take 3 == [c, c, c] && endsWord (cursor.ahead? 3)

/-- Whether a document begins or ends here. -/
def isBetweenDocuments (cursor : Cursor) : Bool :=
  cursor.hasIndicator '-' || cursor.hasIndicator '.'

end Cursor

/-- What stands between two words: blanks, or line breaks with blanks around them. -/
structure Gap where
  /-- The blanks before the first line break. -/
  blanks : List Char
  isBroken : Bool
  /-- The first line break, as it counts in a text; nothing if it was escaped. -/
  first : List Char
  /-- The other line breaks. -/
  others : List Char
  deriving Repr

namespace Gap

/-- No gap at all. -/
def none : Gap := ⟨[], false, [], []⟩

/-- The gap that an escaped line break makes. -/
def escaped : Gap := ⟨[], true, [], []⟩

/-- A gap with another blank in it. Blanks behind a line break do not count. -/
def withBlank (gap : Gap) (c : Char) : Gap :=
  if gap.isBroken then gap else { gap with blanks := gap.blanks ++ [c] }

/-- A gap with another line break in it. -/
def withBreak (gap : Gap) (ending : List Char) : Gap :=
  if gap.isBroken then { gap with others := gap.others ++ ending }
  else ⟨[], true, ending, []⟩

/-- What a gap counts as: its blanks, a space for a single line break, or one line break less. -/
def fold (gap : Gap) : List Char :=
  if ¬gap.isBroken then gap.blanks
  else if gap.first = ['\n'] then (if gap.others = [] then [' '] else gap.others)
  else gap.first ++ gap.others

end Gap

end PeerTrust.Yaml
