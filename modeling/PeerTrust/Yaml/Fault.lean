import PeerTrust.Yaml.Cursor

/-!
# Faults in a document

What keeps a text from being a document. A fault has a place, and some faults say what was being
read.
-/

namespace PeerTrust.Yaml

/-- What is wrong with a text. -/
inductive Problem where
  /-- A character that may not occur at all, with the number of bytes before it. -/
  | controlCharacter (offset : Nat)
  | strayCharacter
  | missingColon
  | sequenceNotAllowed
  | keyNotAllowed
  | valueNotAllowed
  | directiveName
  | directiveCharacter
  | unknownDirective
  | longVersion
  | versionNumber
  | versionPoint
  | directiveEnd
  | directiveSpace
  | prefixSpace
  | anchorName
  | tagStart
  | tagHandle
  | tagSuffix
  | tagEscape
  | tagBracket
  | tagEnd
  | zeroIndentation
  | headerEnd
  | tabInBlock
  | documentInQuotes
  | unclosedQuote
  | unknownEscape
  | escapeDigits
  | escapeCode
  | colonInFlow
  | tabInPlain
  | documentStart
  | repeatedVersion
  | wrongVersion
  | repeatedHandle
  | undefinedHandle
  | blockNode
  | flowNode
  | sequenceItem
  | mappingKey
  | flowSequenceEnd
  | flowMappingEnd
  | unknownAnchor
  /-- Nodes within nodes to a depth that is too large. -/
  | depth
  /-- Too many references to other nodes. -/
  | repetition
  | severalDocuments
  deriving DecidableEq, Repr

namespace Problem

/-- The wording of a problem. -/
def message : Problem → String
  | .controlCharacter _ => "control characters are not allowed"
  | .strayCharacter => "found character that cannot start any token"
  | .missingColon => "could not find expected ':'"
  | .sequenceNotAllowed => "block sequence entries are not allowed in this context"
  | .keyNotAllowed => "mapping keys are not allowed in this context"
  | .valueNotAllowed => "mapping values are not allowed in this context"
  | .directiveName => "could not find expected directive name"
  | .directiveCharacter => "found unexpected non-alphabetical character"
  | .unknownDirective => "found unknown directive name"
  | .longVersion => "found extremely long version number"
  | .versionNumber => "did not find expected version number"
  | .versionPoint => "did not find expected digit or '.' character"
  | .directiveEnd => "did not find expected comment or line break"
  | .directiveSpace => "did not find expected whitespace"
  | .prefixSpace => "did not find expected whitespace or line break"
  | .anchorName => "did not find expected alphabetic or numeric character"
  | .tagStart => "did not find expected '!'"
  | .tagHandle => "did not find expected '!'"
  | .tagSuffix => "did not find expected tag URI"
  | .tagEscape => "did not find URI escaped octet"
  | .tagBracket => "did not find the expected '>'"
  | .tagEnd => "did not find expected whitespace or line break"
  | .zeroIndentation => "found an indentation indicator equal to 0"
  | .headerEnd => "did not find expected comment or line break"
  | .tabInBlock => "found a tab character where an indentation space is expected"
  | .documentInQuotes => "found unexpected document indicator"
  | .unclosedQuote => "found unexpected end of stream"
  | .unknownEscape => "found unknown escape character"
  | .escapeDigits => "did not find expected hexdecimal number"
  | .escapeCode => "found invalid Unicode character escape code"
  | .colonInFlow => "found unexpected ':'"
  | .tabInPlain => "found a tab character that violates indentation"
  | .documentStart => "did not find expected <document start>"
  | .repeatedVersion => "found duplicate %YAML directive"
  | .wrongVersion => "found incompatible YAML document"
  | .repeatedHandle => "found duplicate %TAG directive"
  | .undefinedHandle => "found undefined tag handle"
  | .blockNode => "did not find expected node content"
  | .flowNode => "did not find expected node content"
  | .sequenceItem => "did not find expected '-' indicator"
  | .mappingKey => "did not find expected key"
  | .flowSequenceEnd => "did not find expected ',' or ']'"
  | .flowMappingEnd => "did not find expected ',' or '\x7d'"
  | .unknownAnchor => "unknown anchor"
  | .depth => "recursion limit exceeded"
  | .repetition => "repetition limit exceeded"
  | .severalDocuments =>
      "deserializing from YAML containing more than one document is not supported"

/-- What was being read when a problem was found. -/
def activity? : Problem → Option String
  | .strayCharacter => some "while scanning for the next token"
  | .missingColon => some "while scanning a simple key"
  | .directiveName | .directiveCharacter | .unknownDirective | .directiveEnd =>
      some "while scanning a directive"
  | .longVersion | .versionNumber | .versionPoint => some "while scanning a %YAML directive"
  | .directiveSpace | .prefixSpace => some "while scanning a %TAG directive"
  | .anchorName => some "while scanning an anchor"
  | .tagStart | .tagHandle | .tagSuffix | .tagEscape | .tagBracket | .tagEnd =>
      some "while scanning a tag"
  | .zeroIndentation | .headerEnd | .tabInBlock => some "while scanning a block scalar"
  | .documentInQuotes | .unclosedQuote => some "while scanning a quoted scalar"
  | .unknownEscape | .escapeDigits | .escapeCode => some "while parsing a quoted scalar"
  | .colonInFlow | .tabInPlain => some "while scanning a plain scalar"
  | .undefinedHandle => some "while parsing a node"
  | .blockNode => some "while parsing a block node"
  | .flowNode => some "while parsing a flow node"
  | .sequenceItem => some "while parsing a block collection"
  | .mappingKey => some "while parsing a block mapping"
  | .flowSequenceEnd => some "while parsing a flow sequence"
  | .flowMappingEnd => some "while parsing a flow mapping"
  | _ => none

end Problem

/-- A problem and its place. -/
structure Fault where
  problem : Problem
  mark : Mark
  deriving DecidableEq, Repr

/-- A text with the place that it is about, unless that is the beginning. -/
def located (text : String) (mark : Mark) : String :=
  if mark.isStart then text else s!"{text} at {mark.text}"

/-- The wording of a fault. -/
def Fault.message (fault : Fault) : String :=
  match fault.problem with
  | .controlCharacter offset =>
      fault.problem.message ++ (if offset = 0 then "" else s!" at position {offset}")
  | .repetition => fault.problem.message
  | .severalDocuments => fault.problem.message
  | problem =>
      located problem.message fault.mark ++
        (match problem.activity? with
          | some activity => ", " ++ activity
          | none => "")

end PeerTrust.Yaml
