import PeerTrust.Yaml.Property

/-!
# From text to tokens

A word may turn out to be a key only when the colon behind it is found. So the tokens behind a
possible key are held back until it is clear whether the key and the collection that it opens have
to stand before them. A fault that is found meanwhile comes before the tokens that are held back.
-/

namespace PeerTrust.Yaml

/-- A word that may be a key. -/
structure PossibleKey where
  /-- The number of its first token. -/
  number : Nat
  mark : Mark
  /-- Whether nothing but a key can stand there. -/
  isRequired : Bool
  deriving Repr

/-- What is known in the middle of a text. -/
structure Lexer where
  cursor : Cursor
  /-- The columns of the open block collections, the innermost first. -/
  columns : List Nat
  /-- The possible key at the end of the text outside of flow collections. -/
  key : Option PossibleKey
  /-- The possible keys of the enclosing collections, one for each open flow collection. -/
  outerKeys : List (Option PossibleKey)
  /-- Whether a key may come next. -/
  allowsKey : Bool
  tokens : Array Token

namespace Lexer

/-- The state at the beginning of a text. -/
def start (text : String) : Lexer := ⟨.ofText text, [], none, [], true, #[]⟩

/-- Whether a flow collection is open. -/
def inFlow (lexer : Lexer) : Bool := !lexer.outerKeys.isEmpty

/-- Whether a column is to the right of all open block collections. -/
def isDeeper (lexer : Lexer) (column : Nat) : Bool := lexer.columns.head?.all (· < column)

/-- Adds a token. -/
def push (lexer : Lexer) (kind : Token.Kind) (mark : Mark) : Lexer :=
  { lexer with tokens := lexer.tokens.push ⟨kind, mark⟩ }

/-- Adds a token that is a number of characters long. -/
def pushSign (lexer : Lexer) (kind : Token.Kind) (length : Nat) : Lexer :=
  { lexer.push kind lexer.cursor.mark with cursor := lexer.cursor.skip length }

/-- Whether a possible key is too far back to be one. Keys stand on one line and are short. -/
def isStale (lexer : Lexer) (key : PossibleKey) : Bool :=
  key.mark.line < lexer.cursor.mark.line || key.mark.index + 1024 < lexer.cursor.mark.index

/-- Forgets a possible key that is too far back. -/
def refresh (lexer : Lexer) (key : Option PossibleKey) : Except Fault (Option PossibleKey) :=
  match key with
  | none => .ok none
  | some key =>
      if ¬lexer.isStale key then .ok (some key)
      else if key.isRequired then .error ⟨.missingColon, lexer.cursor.mark⟩
      else .ok none

/-- Forgets all possible keys that are too far back. -/
def refreshAll (lexer : Lexer) : Except Fault Lexer := do
  let outerKeys ← lexer.outerKeys.mapM lexer.refresh
  let key ← lexer.refresh lexer.key
  return { lexer with key, outerKeys }

/-- Forgets the innermost possible key. -/
def dropKey (lexer : Lexer) : Except Fault Lexer :=
  if lexer.key.any (·.isRequired) then .error ⟨.missingColon, lexer.cursor.mark⟩
  else .ok { lexer with key := none }

/-- Notes that a key may begin here. -/
def noteKey (lexer : Lexer) : Except Fault Lexer := do
  if ¬lexer.allowsKey then return lexer
  let isRequired := !lexer.inFlow && lexer.columns.head? == some lexer.cursor.mark.column
  let lexer ← lexer.dropKey
  return { lexer with key := some ⟨lexer.tokens.size, lexer.cursor.mark, isRequired⟩ }

/-- Closes the block collections to the right of a column; all of them if there is no column. -/
def closeBlocks (lexer : Lexer) (column : Option Nat) : Lexer :=
  if lexer.inFlow then lexer
  else
    let closed := lexer.columns.takeWhile fun opened => column.all (· < opened)
    let ends := closed.map fun _ => (⟨.blockEnd, lexer.cursor.mark⟩ : Token)
    { lexer with
      columns := lexer.columns.drop closed.length
      tokens := lexer.tokens ++ ends.toArray }

/-- Opens a block collection at a place, with its token before the one of the given number, unless a
collection is open at its column. -/
def openBlock (lexer : Lexer) (kind : Token.Kind) (mark : Mark) (number : Nat) : Lexer :=
  if lexer.inFlow ∨ ¬lexer.isDeeper mark.column then lexer
  else
    { lexer with
      columns := mark.column :: lexer.columns
      tokens := lexer.tokens.insertIdxIfInBounds number ⟨kind, mark⟩ }

/-- The mark with which a text may begin. -/
def byteOrderMark : Char := Char.ofNat 0xFEFF

/-- Goes to the next token over blanks, comments and line breaks. Tabs may not stand where a key may
begin. -/
def skipToToken (lexer : Lexer) : Nat → Lexer
  | 0 => lexer
  | steps + 1 =>
      let cursor := if lexer.cursor.mark.index = 0 ∧ lexer.cursor.sees byteOrderMark
        then lexer.cursor.skip 1 else lexer.cursor
      let allowsTabs := lexer.inFlow || !lexer.allowsKey
      let cursor := cursor.skipWhile fun c => c == ' ' || (allowsTabs && c == '\t')
      let cursor := cursor.skipComment
      if cursor.head?.any isBreak then
        skipToToken
          { lexer with
            cursor := cursor.skipBreak, allowsKey := lexer.allowsKey || !lexer.inFlow } steps
      else { lexer with cursor }

/-- The end of the text. -/
def lexEnd (lexer : Lexer) : Except Fault Lexer := do
  let mark := lexer.cursor.mark
  let mark := if mark.column = 0 then mark else mark.down 0
  let lexer := { lexer with cursor := { lexer.cursor with mark } }
  let lexer ← (lexer.closeBlocks none).dropKey
  return { lexer with allowsKey := false }.push .streamEnd mark

/-- A directive. -/
def lexDirective (lexer : Lexer) : Except Fault Lexer := do
  let lexer ← (lexer.closeBlocks none).dropKey
  let mark := lexer.cursor.mark
  let (kind, cursor) ← readDirective lexer.cursor
  return { lexer with allowsKey := false, cursor }.push kind mark

/-- A line that begins or ends a document. -/
def lexIndicator (lexer : Lexer) (kind : Token.Kind) : Except Fault Lexer := do
  let lexer ← (lexer.closeBlocks none).dropKey
  return { lexer with allowsKey := false }.pushSign kind 3

/-- The beginning of a flow collection. -/
def lexFlowStart (lexer : Lexer) (kind : Token.Kind) : Except Fault Lexer := do
  let lexer ← lexer.noteKey
  let lexer := lexer.pushSign kind 1
  return { lexer with allowsKey := true, key := none, outerKeys := lexer.key :: lexer.outerKeys }

/-- The end of a flow collection. -/
def lexFlowEnd (lexer : Lexer) (kind : Token.Kind) : Except Fault Lexer := do
  let lexer ← lexer.dropKey
  let lexer := { lexer.pushSign kind 1 with allowsKey := false }
  match lexer.outerKeys with
  | key :: outerKeys => return { lexer with key, outerKeys }
  | [] => return lexer

/-- A comma. -/
def lexFlowEntry (lexer : Lexer) : Except Fault Lexer := do
  let lexer ← lexer.dropKey
  return { lexer with allowsKey := true }.pushSign .flowEntry 1

/-- The sign before an item of a block sequence. -/
def lexBlockEntry (lexer : Lexer) : Except Fault Lexer := do
  if ¬lexer.inFlow ∧ ¬lexer.allowsKey then throw ⟨.sequenceNotAllowed, lexer.cursor.mark⟩
  let lexer := lexer.openBlock .blockSequenceStart lexer.cursor.mark lexer.tokens.size
  let lexer ← lexer.dropKey
  return { lexer with allowsKey := true }.pushSign .blockEntry 1

/-- The sign before a key. -/
def lexKey (lexer : Lexer) : Except Fault Lexer := do
  if ¬lexer.inFlow ∧ ¬lexer.allowsKey then throw ⟨.keyNotAllowed, lexer.cursor.mark⟩
  let lexer := lexer.openBlock .blockMappingStart lexer.cursor.mark lexer.tokens.size
  let lexer ← lexer.dropKey
  return { lexer with allowsKey := !lexer.inFlow }.pushSign .key 1

/-- A colon. If a possible key stands before it, it is a key. -/
def lexValue (lexer : Lexer) : Except Fault Lexer :=
  match lexer.key with
  | some key =>
      let tokens := lexer.tokens.insertIdxIfInBounds key.number ⟨.key, key.mark⟩
      let lexer := { lexer with tokens }.openBlock .blockMappingStart key.mark key.number
      .ok ({ lexer with key := none, allowsKey := false }.pushSign .value 1)
  | none =>
      if ¬lexer.inFlow ∧ ¬lexer.allowsKey then .error ⟨.valueNotAllowed, lexer.cursor.mark⟩
      else
        let lexer := lexer.openBlock .blockMappingStart lexer.cursor.mark lexer.tokens.size
        .ok ({ lexer with allowsKey := !lexer.inFlow }.pushSign .value 1)

/-- An anchor, or a reference to one. -/
def lexAnchor (lexer : Lexer) (kind : String → Token.Kind) : Except Fault Lexer := do
  let lexer ← lexer.noteKey
  let (name, cursor) ← readAnchor lexer.cursor
  return { lexer with allowsKey := false, cursor }.push (kind name) lexer.cursor.mark

/-- A tag. -/
def lexTag (lexer : Lexer) : Except Fault Lexer := do
  let lexer ← lexer.noteKey
  let (handle, suffix, cursor) ← readTag lexer.inFlow lexer.cursor
  return { lexer with allowsKey := false, cursor }.push (.tag handle suffix) lexer.cursor.mark

/-- A block. -/
def lexBlock (lexer : Lexer) (isLiteral : Bool) : Except Fault Lexer := do
  let lexer ← lexer.dropKey
  let reading ← readBlock isLiteral lexer.columns.head? lexer.cursor
  return { lexer with allowsKey := true, cursor := reading.cursor }.push
    (.scalar reading.text false) lexer.cursor.mark

/-- A text in quotes. -/
def lexQuoted (lexer : Lexer) (quote : Quote) : Except Fault Lexer := do
  let lexer ← lexer.noteKey
  let reading ← readQuoted quote lexer.cursor
  return { lexer with allowsKey := false, cursor := reading.cursor }.push
    (.scalar reading.text false) lexer.cursor.mark

/-- A plain text. -/
def lexPlain (lexer : Lexer) : Except Fault Lexer := do
  let lexer ← lexer.noteKey
  let indentation := (lexer.columns.head?.map (· + 1)).getD 0
  let reading ← readPlain lexer.inFlow indentation lexer.cursor
  return { lexer with allowsKey := reading.endsLine, cursor := reading.cursor }.push
    (.scalar reading.text true) lexer.cursor.mark

/-- The characters with which a plain text cannot begin. -/
def signs : List Char :=
  [',', '[', ']', '{', '}', '#', '&', '*', '!', '|', '>', '\'', '"', '%', '@', '`']

/-- Whether a plain text can begin with a character, given the one behind it. -/
def startsPlain (inFlow : Bool) (c : Char) (next : Option Char) : Bool :=
  if c = '-' then !(next.any isBlank)
  else if c = '?' ∨ c = ':' then !inFlow && !endsWord next
  else !isBlank c && !signs.contains c

/-- The token that begins with a character. -/
def lexChar (lexer : Lexer) (c : Char) : Except Fault Lexer :=
  let next := lexer.cursor.ahead? 1
  if lexer.cursor.mark.column = 0 ∧ c = '%' then lexer.lexDirective
  else if lexer.cursor.hasIndicator '-' then lexer.lexIndicator .documentStart
  else if lexer.cursor.hasIndicator '.' then lexer.lexIndicator .documentEnd
  else if c = '[' then lexer.lexFlowStart .flowSequenceStart
  else if c = '{' then lexer.lexFlowStart .flowMappingStart
  else if c = ']' then lexer.lexFlowEnd .flowSequenceEnd
  else if c = '}' then lexer.lexFlowEnd .flowMappingEnd
  else if c = ',' then lexer.lexFlowEntry
  else if c = '-' ∧ endsWord next then lexer.lexBlockEntry
  else if c = '?' ∧ (lexer.inFlow ∨ endsWord next) then lexer.lexKey
  else if c = ':' ∧ (lexer.inFlow ∨ endsWord next) then lexer.lexValue
  else if c = '*' then lexer.lexAnchor .alias
  else if c = '&' then lexer.lexAnchor .anchor
  else if c = '!' then lexer.lexTag
  else if c = '|' ∧ ¬lexer.inFlow then lexer.lexBlock true
  else if c = '>' ∧ ¬lexer.inFlow then lexer.lexBlock false
  else if c = '\'' then lexer.lexQuoted .single
  else if c = '"' then lexer.lexQuoted .double
  else if startsPlain lexer.inFlow c next then lexer.lexPlain
  else .error ⟨.strayCharacter, lexer.cursor.mark⟩

/-- Reads the next token, with the tokens that come before it. -/
def lex (lexer : Lexer) : Except Fault Lexer := do
  let lexer ← (lexer.skipToToken (lexer.cursor.rest.length + 1)).refreshAll
  let lexer := lexer.closeBlocks (some lexer.cursor.mark.column)
  match lexer.cursor.head? with
  | none => lexer.lexEnd
  | some c => lexer.lexChar c

/-- Whether the token of a number is held back because it may be a key. -/
def isHeldBack (lexer : Lexer) (number : Nat) : Bool :=
  (lexer.key :: lexer.outerKeys).any fun key => key.any (·.number == number)

/-- The tokens from a number on, and the fault at which they end, if they do. -/
def tokensFrom (lexer : Lexer) (number : Nat) : Nat → List Token × Option Fault
  | 0 => ([], none)
  | steps + 1 =>
      match lexer.tokens[number]? with
      | none =>
          match lexer.lex with
          | .error fault => ([], some fault)
          | .ok lexer => tokensFrom lexer number steps
      | some token =>
          match lexer.refreshAll with
          | .error fault => ([], some fault)
          | .ok lexer =>
              if lexer.isHeldBack number then
                match lexer.lex with
                | .error fault => ([], some fault)
                | .ok lexer => tokensFrom lexer number steps
              else if token.kind = .streamEnd then ([token], none)
              else
                let (rest, fault) := tokensFrom lexer (number + 1) steps
                (token :: rest, fault)

end Lexer

/-- The tokens of a text up to the first fault. Every character makes at most a few tokens. -/
def tokens (text : String) : List Token × Option Fault :=
  (Lexer.start text).tokensFrom 0 (8 * text.length + 16)

end PeerTrust.Yaml
