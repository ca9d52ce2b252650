import PeerTrust.Settings.Document

/-!
# Settings in the environment

Variables whose names begin with a prefix, in letters of either case, are settings; two underscores
in the rest of the name stand between keys. A value is written in a short notation for scalars,
lists and maps; what is not in that notation is a text.
-/

namespace PeerTrust.Settings

/-! ## Notation of values -/

namespace Notation

/-- Whether a character is white space. -/
def isSpace (c : Char) : Bool :=
  c == ' ' || c == '\t' || c == '\n' || c == '\r' || c == Char.ofNat 12

/-- Whether a character may be in a value without quotes. -/
def isLoose (c : Char) : Bool := !([',', '{', '}', '[', ']'].contains c)

/-- Whether a character may be in a key without quotes. -/
def isKeyChar (c : Char) : Bool := Yaml.isNameChar c

/-- Whether a character is white space of any script. -/
def isWideSpace (c : Char) : Bool :=
  let code := c.toNat
  (0x09 ≤ code && code ≤ 0x0D) || code == 0x20 || code == 0x85 || code == 0xA0 || code == 0x1680 ||
    (0x2000 ≤ code && code ≤ 0x200A) || code == 0x2028 || code == 0x2029 || code == 0x202F ||
    code == 0x205F || code == 0x3000

/-- A text without the white space around it. -/
def trim (text : List Char) : List Char :=
  ((text.dropWhile isWideSpace).reverse.dropWhile isWideSpace).reverse

/-- What a single character means behind a backslash. -/
def escaped? : Char → Option Char
  | '"' => some '"'
  | '\\' => some '\\'
  | 'b' => some (Char.ofNat 8)
  | 'f' => some (Char.ofNat 12)
  | 'n' => some '\n'
  | 'r' => some '\r'
  | 't' => some '\t'
  | _ => none

/-- Whether a character may be in quotes as it is. -/
def isQuotable (c : Char) : Bool := c == '\t' || (0x20 ≤ c.toNat && c.toNat != 0x7F)

/-- Reads a text behind its first quote, up to the second; `read` is what was read, the last
character first. -/
def quotedFrom : Nat → List Char → List Char → Option (String × List Char)
  | 0, _, _ => none
  | steps + 1, text, read =>
      match text with
      | [] => none
      | '"' :: rest => some (String.ofList read.reverse, rest)
      | '\\' :: c :: rest =>
          match escaped? c with
          | some c => quotedFrom steps rest (c :: read)
          | none => do
              let digits ← if c = 'u' then some 4 else if c = 'U' then some 8 else none
              let c ← (Yaml.hexNumber? digits rest).bind Yaml.charOfCode?
              quotedFrom steps (rest.drop digits) (c :: read)
      | '\\' :: [] => none
      | c :: rest => if isQuotable c then quotedFrom steps rest (c :: read) else none

/-- Reads a text behind its first quote. -/
def quoted? (text : List Char) : Option (String × List Char) :=
  quotedFrom (text.length + 1) text []

/-- Reads a key. -/
def key? (text : List Char) : Option (String × List Char) :=
  match text with
  | '"' :: rest => quoted? rest
  | _ =>
      let key := text.takeWhile isKeyChar
      if key = [] then none else some (String.ofList key, text.dropWhile isKeyChar)

/-- A number of at most sixty-four bits with an optional sign. -/
def integer? (text : List Char) : Option Scalar := do
  match text with
  | '-' :: digits =>
      let size ← digitsIn? 10 digits
      if size ≤ Nat.pow 2 63 then some (.signed (-size)) else none
  | _ =>
      let size ← digitsIn? 10 (if text.head? = some '+' then text.drop 1 else text)
      if size < Nat.pow 2 64 then some (.unsigned size) else none

/-- What a text without quotes is. -/
def loose (text : List Char) : Scalar :=
  match if text.contains '.' then Decimal.read? text else none with
  | some number => .float number
  | none => (integer? text).getD (.text (String.ofList text))

/-- The text behind a word, if it begins with the word. -/
def behind? (word : String) (text : List Char) : Option (List Char) :=
  if word.toList.isPrefixOf text then some (text.drop word.length) else none

mutual

/-- Reads a value with the white space around it. -/
def value? (origin : Origin) : Nat → List Char → Option (Value × List Char)
  | 0, _ => none
  | steps + 1, text => do
      let text := text.dropWhile isSpace
      let (value, rest) ← match behind? "true" text, behind? "false" text, text with
        | some rest, _, _ => some (.scalar origin (.flag true), rest)
        | none, some rest, _ => some (.scalar origin (.flag false), rest)
        | none, none, '{' :: rest => do
            let (entries, rest) ← entries? origin steps rest
            some (.map origin (Value.ofEntries entries), rest)
        | none, none, '[' :: rest => do
            let (items, rest) ← items? origin steps rest
            some (.list origin items, rest)
        | none, none, '"' :: rest => do
            let (text, rest) ← quoted? rest
            some (.scalar origin (.text text), rest)
        | none, none, '\'' :: c :: '\'' :: rest => some (.scalar origin (.character c), rest)
        | none, none, '\'' :: _ => none
        | none, none, _ =>
            some (.scalar origin (loose (trim (text.takeWhile isLoose))), text.dropWhile isLoose)
      return (value, rest.dropWhile isSpace)

/-- Reads the items of a list behind its opening bracket. -/
def items? (origin : Origin) : Nat → List Char → Option (List Value × List Char)
  | 0, _ => none
  | steps + 1, text =>
      match text with
      | ']' :: rest => some ([], rest)
      | _ => do
          let (item, rest) ← value? origin steps text
          match rest with
          | ',' :: rest =>
              let (items, rest) ← items? origin steps rest
              return (item :: items, rest)
          | ']' :: rest => return ([item], rest)
          | _ => none

/-- Reads the entries of a map behind its opening brace. -/
def entries? (origin : Origin) : Nat → List Char → Option (List (String × Value) × List Char)
  | 0, _ => none
  | steps + 1, text =>
      match text with
      | '}' :: rest => some ([], rest)
      | _ => do
          let (key, rest) ← key? (text.dropWhile isSpace)
          match rest.dropWhile isSpace with
          | '=' :: rest =>
              let (value, rest) ← value? origin steps rest
              match rest with
              | ',' :: rest =>
                  let (entries, rest) ← entries? origin steps rest
                  return ((key, value) :: entries, rest)
              | '}' :: rest => return ([(key, value)], rest)
              | _ => none
          | _ => none

end

end Notation

/-- The value that a text stands for. Every value within another one takes a character of its
own. -/
def Value.ofNotation (origin : Origin) (text : String) : Value :=
  match Notation.value? origin (2 * text.length + 2) text.toList with
  | some (value, []) => value
  | _ => .scalar origin (.text text)

/-! ## Variables -/

/-- What the names of variables with settings begin with. -/
def variablePrefix : String := "mtls_trust_"

/-- The parts of a text between double underscores, which are looked for from the left. -/
def betweenUnderscores : List Char → List (List Char)
  | '_' :: '_' :: rest => [] :: betweenUnderscores rest
  | c :: rest => (betweenUnderscores rest).modifyHead (c :: ·)
  | [] => [[]]

/-- The keys in the name of a variable, if it holds settings. No key may be empty. -/
def keysOf? (name : String) : Option (List String) :=
  let name := (Letters.lowerCase name).toList
  if ¬variablePrefix.toList.isPrefixOf name then none
  else
    let parts := betweenUnderscores (name.drop variablePrefix.length)
    let keys := (parts.flatMap (·.splitOn '.')).map String.ofList
    if keys.contains "" then none else some keys

/-- The settings in an environment. Variables count in the order of their names, later ones over
earlier ones. -/
def Value.ofEnvironment (environment : List (String × String)) : Value :=
  (environment.mergeSort fun a b => a.1 ≤ b.1).foldl
    (fun settings setting =>
      match keysOf? setting.1 with
      | some keys =>
          settings.merge (.nest .environment (.ofNotation .environment setting.2) keys)
      | none => settings)
    (.map .environment [])

end PeerTrust.Settings
