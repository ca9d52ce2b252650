import PeerTrust.Yaml.Token

/-!
# Scalars

Texts in a document: plain, in quotes, and as blocks. Every reader ends because each of its steps
takes a character; the number of steps that it may take is one more than there are characters.
-/

namespace PeerTrust.Yaml

/-- A scalar that was read, and what is behind it. -/
structure ScalarReading where
  text : String
  cursor : Cursor
  /-- Whether lines were left behind, so that a key may come next. -/
  endsLine : Bool

/-! ## Quotes -/

/-- The two ways to quote a text. -/
inductive Quote where
  | single
  | double
  deriving DecidableEq, Repr

/-- The sign of a way to quote. -/
def Quote.sign : Quote → Char
  | .single => '\''
  | .double => '"'

/-- What a character means behind a backslash. -/
inductive Escape where
  | character (c : Char)
  /-- A code point with a number of hexadecimal digits follows. -/
  | code (digits : Nat)

/-- The escapes. -/
def Escape.ofChar? : Char → Option Escape
  | '0' => some (.character (Char.ofNat 0))
  | 'a' => some (.character (Char.ofNat 7))
  | 'b' => some (.character (Char.ofNat 8))
  | 't' => some (.character '\t')
  | '\t' => some (.character '\t')
  | 'n' => some (.character '\n')
  | 'v' => some (.character (Char.ofNat 11))
  | 'f' => some (.character (Char.ofNat 12))
  | 'r' => some (.character '\r')
  | 'e' => some (.character (Char.ofNat 27))
  | ' ' => some (.character ' ')
  | '"' => some (.character '"')
  | '/' => some (.character '/')
  | '\\' => some (.character '\\')
  | 'N' => some (.character nextLine)
  | '_' => some (.character (Char.ofNat 0xA0))
  | 'L' => some (.character lineSeparator)
  | 'P' => some (.character paragraphSeparator)
  | 'x' => some (.code 2)
  | 'u' => some (.code 4)
  | 'U' => some (.code 8)
  | _ => none

/-- The value of a hexadecimal digit. -/
def hexDigit? (c : Char) : Option Nat :=
  if '0' ≤ c ∧ c ≤ '9' then some (c.toNat - '0'.toNat)
  else if 'a' ≤ c ∧ c ≤ 'f' then some (c.toNat - 'a'.toNat + 10)
  else if 'A' ≤ c ∧ c ≤ 'F' then some (c.toNat - 'A'.toNat + 10)
  else none

/-- The number that exactly so many hexadecimal digits at the head of a text make. -/
def hexNumber? (count : Nat) (text : List Char) : Option Nat :=
  let digits := text.take count
  if digits.length < count then none
  else digits.foldlM (fun number c => (hexDigit? c).map (16 * number + ·)) 0

/-- The character of a code point, if there is one. -/
def charOfCode? (code : Nat) : Option Char :=
  if h : code.isValidChar then some (Char.ofNatAux code h) else none

/-- Reads an escape, which begins with a backslash. -/
def readEscape (cursor : Cursor) : Except Fault (Char × Cursor) :=
  match (cursor.ahead? 1).bind Escape.ofChar? with
  | none => .error ⟨.unknownEscape, cursor.mark⟩
  | some (.character c) => .ok (c, cursor.skip 2)
  | some (.code digits) =>
      let behind := cursor.skip 2
      match hexNumber? digits behind.rest with
      | none => .error ⟨.escapeDigits, behind.mark⟩
      | some code =>
          match charOfCode? code with
          | none => .error ⟨.escapeCode, behind.mark⟩
          | some c => .ok (c, behind.skip digits)

/-- Reads on in a quoted text, behind a gap; `text` is what was read, the last character first. -/
def quotedFrom (quote : Quote) : Nat → Cursor → Gap → List Char → Except Fault ScalarReading
  | 0, cursor, _, _ => .error ⟨.unclosedQuote, cursor.mark⟩
  | steps + 1, cursor, gap, text =>
      if cursor.isBetweenDocuments then .error ⟨.documentInQuotes, cursor.mark⟩
      else match cursor.head? with
        | none => .error ⟨.unclosedQuote, cursor.mark⟩
        | some c =>
            if isBlank c then quotedFrom quote steps (cursor.skip 1) (gap.withBlank c) text
            else if isBreak c then
              let (ending, behind) := cursor.takeBreak
              quotedFrom quote steps behind (gap.withBreak ending) text
            else
              let text := gap.fold.reverse ++ text
              if c = quote.sign then
                if quote = .single ∧ cursor.ahead? 1 = some c then
                  quotedFrom quote steps (cursor.skip 2) .none (c :: text)
                else .ok ⟨String.ofList text.reverse, cursor.skip 1, false⟩
              else if quote = .double ∧ c = '\\' then
                if (cursor.ahead? 1).any isBreak then
                  quotedFrom quote steps (cursor.skip 1).skipBreak .escaped text
                else
                  match readEscape cursor with
                  | .error fault => .error fault
                  | .ok (escaped, behind) =>
                      quotedFrom quote steps behind .none (escaped :: text)
              else quotedFrom quote steps (cursor.skip 1) .none (c :: text)

/-- Reads a text in quotes. -/
def readQuoted (quote : Quote) (cursor : Cursor) : Except Fault ScalarReading :=
  quotedFrom quote (cursor.rest.length + 1) (cursor.skip 1) .none []

/-! ## Plain text -/

/-- Whether a character delimits the parts of a flow collection. -/
def isFlowIndicator (c : Char) : Bool :=
  c == ',' || c == '[' || c == ']' || c == '{' || c == '}'

/-- Whether a colon stands where it has no meaning inside a flow collection. -/
def isLooseColon (inFlow : Bool) (cursor : Cursor) : Bool :=
  inFlow && cursor.sees ':' && (cursor.ahead? 1).any fun c => isFlowIndicator c || c == '?'

/-- Whether a plain text ends before its next word character. -/
def endsPlain (inFlow : Bool) (cursor : Cursor) : Bool :=
  (cursor.sees ':' && endsWord (cursor.ahead? 1)) ||
    (inFlow && cursor.head?.any isFlowIndicator)

/-- Whether a plain text ends behind a gap. Lines that go on must be indented, except inside a flow
collection. -/
def endsBehind (inFlow : Bool) (indentation : Nat) (gap : Gap) (cursor : Cursor) : Bool :=
  cursor.isBetweenDocuments || cursor.sees '#' ||
    (!inFlow && gap.isBroken && cursor.mark.column < indentation)

/-- Reads on in a plain text, behind a gap; `text` is what was read, the last character first. -/
def plainFrom (inFlow : Bool) (indentation : Nat) :
    Nat → Cursor → Gap → List Char → Except Fault ScalarReading
  | 0, cursor, gap, text => .ok ⟨String.ofList text.reverse, cursor, gap.isBroken⟩
  | steps + 1, cursor, gap, text =>
      let reading : ScalarReading := ⟨String.ofList text.reverse, cursor, gap.isBroken⟩
      match cursor.head? with
      | none => .ok reading
      | some c =>
          if isBlank c then
            if gap.isBroken ∧ c = '\t' ∧ cursor.mark.column < indentation then
              .error ⟨.tabInPlain, cursor.mark⟩
            else plainFrom inFlow indentation steps (cursor.skip 1) (gap.withBlank c) text
          else if isBreak c then
            let (ending, behind) := cursor.takeBreak
            plainFrom inFlow indentation steps behind (gap.withBreak ending) text
          else if (gap.isBroken ∨ gap.blanks ≠ []) ∧ endsBehind inFlow indentation gap cursor then
            .ok reading
          else if isLooseColon inFlow cursor then .error ⟨.colonInFlow, cursor.mark⟩
          else if endsPlain inFlow cursor then .ok reading
          else
            plainFrom inFlow indentation steps (cursor.skip 1) .none
              (c :: (gap.fold.reverse ++ text))

/-- Reads a plain text inside a collection of the given indentation. -/
def readPlain (inFlow : Bool) (indentation : Nat) (cursor : Cursor) : Except Fault ScalarReading :=
  plainFrom inFlow indentation (cursor.rest.length + 1) cursor .none []

/-! ## Blocks -/

/-- What happens to the line breaks at the end of a block. -/
inductive Chomping where
  | strip
  | clip
  | keep
  deriving DecidableEq, Repr

/-- What the first line of a block says. -/
structure BlockHeader where
  isLiteral : Bool
  chomping : Chomping
  /-- How far the block is indented in its collection, if that is given. -/
  indentation : Option Nat
  deriving Repr

/-- Reads a sign that says what happens at the end of a block. -/
def takeChomping? (cursor : Cursor) : Option (Chomping × Cursor) :=
  if cursor.sees '+' then some (.keep, cursor.skip 1)
  else if cursor.sees '-' then some (.strip, cursor.skip 1)
  else none

/-- Reads a digit that says how far a block is indented. -/
def takeIndentation (cursor : Cursor) : Except Fault (Option Nat × Cursor) :=
  match cursor.head? with
  | none => .ok (none, cursor)
  | some c =>
      if c = '0' then .error ⟨.zeroIndentation, cursor.mark⟩
      else if '1' ≤ c ∧ c ≤ '9' then .ok (some (c.toNat - '0'.toNat), cursor.skip 1)
      else .ok (none, cursor)

/-- Reads the first line of a block behind its sign, without the line break. -/
def readHeader (isLiteral : Bool) (cursor : Cursor) : Except Fault (BlockHeader × Cursor) := do
  let (header, cursor) ← match takeChomping? cursor with
    | some (chomping, behind) => do
        let (indentation, behind) ← takeIndentation behind
        pure ((⟨isLiteral, chomping, indentation⟩ : BlockHeader), behind)
    | none => do
        let (indentation, behind) ← takeIndentation cursor
        match indentation, takeChomping? behind with
        | some _, some (chomping, behind) => pure (⟨isLiteral, chomping, indentation⟩, behind)
        | _, _ => pure (⟨isLiteral, .clip, indentation⟩, behind)
  let behind := (cursor.skipWhile isBlank).skipComment
  if endsLine behind.head? then return (header, behind)
  else throw ⟨.headerEnd, behind.mark⟩

/-- Reads empty lines and the indentation of the line behind them. Spaces count as indentation up to
the limit, if there is one. The result has the line breaks and the widest indentation. -/
def blockBreaks (limit : Option Nat) :
    Nat → Cursor → List Char → Nat → Except Fault (List Char × Nat × Cursor)
  | 0, cursor, breaks, widest => .ok (breaks, widest, cursor)
  | steps + 1, cursor, breaks, widest =>
      let isInside (column : Nat) : Bool := limit.all (column < ·)
      if cursor.sees ' ' ∧ isInside cursor.mark.column then
        blockBreaks limit steps (cursor.skip 1) breaks widest
      else
        let widest := max widest cursor.mark.column
        if cursor.sees '\t' ∧ isInside cursor.mark.column then .error ⟨.tabInBlock, cursor.mark⟩
        else if cursor.head?.any isBreak then
          let (ending, behind) := cursor.takeBreak
          blockBreaks limit steps behind (breaks ++ ending) widest
        else .ok (breaks, widest, cursor)

/-- Line breaks between the lines of a block: what ends the last line, and the empty lines. -/
structure BlockGap where
  ending : List Char
  empties : List Char
  /-- Whether the last line began with a blank. -/
  isBehindBlank : Bool

/-- What a gap counts as before a line. In a folded block a single line break between lines that do
not begin with blanks counts as a space. -/
def BlockGap.fold (gap : BlockGap) (isLiteral isBeforeBlank : Bool) : List Char :=
  if ¬isLiteral ∧ gap.ending = ['\n'] ∧ ¬gap.isBehindBlank ∧ ¬isBeforeBlank then
    (if gap.empties = [] then [' '] else gap.empties)
  else gap.ending ++ gap.empties

/-- What a gap counts as at the end of a block. -/
def BlockGap.chomp (gap : BlockGap) : Chomping → List Char
  | .strip => []
  | .clip => gap.ending
  | .keep => gap.ending ++ gap.empties

/-- Reads on in a block, at the beginning of a line and behind a gap. -/
def blockFrom (header : BlockHeader) (indentation : Nat) :
    Nat → Cursor → BlockGap → List Char → Except Fault ScalarReading
  | 0, cursor, gap, text => .ok ⟨String.ofList (text ++ gap.chomp header.chomping), cursor, true⟩
  | steps + 1, cursor, gap, text =>
      if cursor.mark.column = indentation ∧ cursor.head?.isSome then
        let startsBlank := cursor.head?.any isBlank
        let text := text ++ gap.fold header.isLiteral startsBlank
        let (line, cursor) := cursor.takeWhile fun c => !isBreak c
        let (ending, cursor) := cursor.takeBreak
        match blockBreaks (some indentation) (cursor.rest.length + 1) cursor [] 0 with
        | .error fault => .error fault
        | .ok (empties, _, cursor) =>
            blockFrom header indentation steps cursor ⟨ending, empties, startsBlank⟩ (text ++ line)
      else .ok ⟨String.ofList (text ++ gap.chomp header.chomping), cursor, true⟩

/-- Reads a block inside a collection that is indented as given, if there is one. A block that does
not say how far it is indented is indented like the first line with something in it. -/
def readBlock (isLiteral : Bool) (outer : Option Nat) (cursor : Cursor) :
    Except Fault ScalarReading := do
  let (header, cursor) ← readHeader isLiteral (cursor.skip 1)
  let cursor := cursor.skipBreak
  let stated := header.indentation.map (outer.getD 0 + ·)
  let (empties, widest, cursor) ← blockBreaks stated (cursor.rest.length + 1) cursor [] 0
  let least := match outer with
    | some outer => outer + 1
    | none => 1
  let indentation := stated.getD (max widest least)
  blockFrom header indentation (cursor.rest.length + 1) cursor ⟨[], empties, false⟩ []

end PeerTrust.Yaml
