import PeerTrust.Yaml.Lexer

/-!
# From tokens to events

The nodes of a document in the order of the text: scalars, references, and the beginnings and ends
of collections. Events that come before a fault count.
-/

namespace PeerTrust.Yaml

/-- What is said of a node besides its contents. -/
structure Properties where
  anchor : Option String
  tag : Option String
  deriving DecidableEq, Repr

/-- What an event is. -/
inductive Event.Kind where
  | alias (anchor : String)
  | scalar (properties : Properties) (text : String) (isPlain : Bool)
  | sequence (properties : Properties)
  | mapping (properties : Properties)
  /-- The end of a collection. -/
  | stop
  deriving DecidableEq, Repr

/-- An event and the place where it begins. -/
structure Event where
  kind : Event.Kind
  mark : Mark
  deriving DecidableEq, Repr

/-- What is known in the middle of the tokens. -/
structure Composer where
  tokens : List Token
  /-- The fault behind the last token. -/
  fault : Fault
  /-- What the handles of tags stand for. -/
  handles : List (String × String)
  /-- The events so far, the last one first. -/
  events : List Event

/-- Something that is read from tokens. -/
abbrev Reading := ExceptT Fault (StateM Composer)

namespace Reading

/-- The next token. -/
def peek : Reading Token := do
  match (← get).tokens with
  | token :: _ => return token
  | [] => throw (← get).fault

/-- Goes over the next token. -/
def skip : Reading Unit := modify fun composer => { composer with tokens := composer.tokens.drop 1 }

/-- Adds an event. -/
def emit (kind : Event.Kind) (mark : Mark) : Reading Unit :=
  modify fun composer => { composer with events := ⟨kind, mark⟩ :: composer.events }

/-- Adds the node that is there when nothing is written. -/
def emitNothing (mark : Mark) : Reading Unit := emit (.scalar ⟨none, none⟩ "" true) mark

/-- Ends a collection, going over the token that ends it. -/
def close (token : Token) : Reading Unit := do
  emit .stop token.mark
  skip

/-- Reads a tag, if one comes next. -/
def takeTag : Reading (Option (Mark × String × String)) := do
  let token ← peek
  match token.kind with
  | .tag handle suffix =>
      skip
      return some (token.mark, handle, suffix)
  | _ => return none

/-- Reads an anchor, if one comes next. -/
def takeAnchor : Reading (Option String) := do
  match (← peek).kind with
  | .anchor name =>
      skip
      return some name
  | _ => return none

/-- The tag that a handle and a suffix make. -/
def resolveTag : Option (Mark × String × String) → Reading (Option String)
  | none => return none
  | some (mark, handle, suffix) => do
      if handle = "" then return some suffix
      match (← get).handles.lookup handle with
      | some expansion => return some (expansion ++ suffix)
      | none => throw ⟨.undefinedHandle, mark⟩

/-- Reads an anchor and a tag in either order, up to the token behind them. -/
def takeProperties : Reading Properties := do
  match ← takeAnchor with
  | some anchor =>
      let tag ← takeTag
      let _ ← peek
      return ⟨some anchor, ← resolveTag tag⟩
  | none =>
      let tag ← takeTag
      let anchor ← takeAnchor
      return ⟨anchor, ← resolveTag tag⟩

/-- Where a node may stand. -/
inductive Place where
  | flow
  | block
  /-- In a block mapping, where a sequence need not be indented. -/
  | mapping
  deriving DecidableEq

mutual

/-- Reads a node. -/
def node : Nat → Place → Reading Unit
  | 0, _ => return
  | steps + 1, place => do
      let first ← peek
      if let .alias name := first.kind then
        skip
        emit (.alias name) first.mark
        return
      let properties ← takeProperties
      let token ← peek
      match token.kind with
      | .scalar text isPlain =>
          skip
          emit (.scalar properties text isPlain) first.mark
      | .flowSequenceStart =>
          skip
          emit (.sequence properties) first.mark
          flowSequence steps true
      | .flowMappingStart =>
          skip
          emit (.mapping properties) first.mark
          flowMapping steps true
      | kind =>
          if kind = .blockEntry ∧ place = .mapping then
            emit (.sequence properties) first.mark
            looseSequence steps
          else if kind = .blockSequenceStart ∧ place ≠ .flow then
            skip
            emit (.sequence properties) first.mark
            blockSequence steps
          else if kind = .blockMappingStart ∧ place ≠ .flow then
            skip
            emit (.mapping properties) first.mark
            blockMapping steps
          else if properties ≠ ⟨none, none⟩ then emit (.scalar properties "" true) first.mark
          else throw ⟨if place = .flow then .flowNode else .blockNode, token.mark⟩

/-- Reads a node, or notes that there is none if one of the given tokens comes next. -/
def nodeUnless : Nat → Place → List Token.Kind → Reading Unit
  | 0, _, _ => return
  | steps + 1, place, kinds => do
      let token ← peek
      if kinds.contains token.kind then emitNothing token.mark else node steps place

/-- Reads the items of a block sequence. -/
def blockSequence : Nat → Reading Unit
  | 0 => return
  | steps + 1 => do
      let token ← peek
      if token.kind = .blockEntry then
        skip
        nodeUnless steps .block [.blockEntry, .blockEnd]
        blockSequence steps
      else if token.kind = .blockEnd then close token
      else throw ⟨.sequenceItem, token.mark⟩

/-- Reads the items of a sequence that is not indented. -/
def looseSequence : Nat → Reading Unit
  | 0 => return
  | steps + 1 => do
      let token ← peek
      if token.kind = .blockEntry then
        skip
        nodeUnless steps .block [.blockEntry, .key, .value, .blockEnd]
        looseSequence steps
      else emit .stop token.mark

/-- Reads the keys and values of a block mapping. -/
def blockMapping : Nat → Reading Unit
  | 0 => return
  | steps + 1 => do
      let token ← peek
      if token.kind = .key then
        skip
        nodeUnless steps .mapping [.key, .value, .blockEnd]
        let token ← peek
        if token.kind = .value then
          skip
          nodeUnless steps .mapping [.key, .value, .blockEnd]
        else emitNothing token.mark
        blockMapping steps
      else if token.kind = .blockEnd then close token
      else throw ⟨.mappingKey, token.mark⟩

/-- Reads the items of a flow sequence. A key among them makes a mapping of its own. -/
def flowSequence : Nat → Bool → Reading Unit
  | 0, _ => return
  | steps + 1, isFirst => do
      let token ← peek
      if token.kind = .flowSequenceEnd then close token
      else
        if ¬isFirst then
          if token.kind = .flowEntry then skip else throw ⟨.flowSequenceEnd, token.mark⟩
        let token ← peek
        if token.kind = .flowSequenceEnd then close token
        else if token.kind = .key then
          skip
          emit (.mapping ⟨none, none⟩) token.mark
          flowPair steps
          flowSequence steps false
        else
          node steps .flow
          flowSequence steps false

/-- Reads the key and the value of a mapping that is an item of a flow sequence. -/
def flowPair : Nat → Reading Unit
  | 0 => return
  | steps + 1 => do
      let token ← peek
      if [.value, .flowEntry, .flowSequenceEnd].contains token.kind then
        skip
        emitNothing token.mark
      else node steps .flow
      let token ← peek
      if token.kind = .value then
        skip
        nodeUnless steps .flow [.flowEntry, .flowSequenceEnd]
      else emitNothing token.mark
      emit .stop (← peek).mark

/-- Reads the keys and values of a flow mapping. -/
def flowMapping : Nat → Bool → Reading Unit
  | 0, _ => return
  | steps + 1, isFirst => do
      let token ← peek
      if token.kind = .flowMappingEnd then close token
      else
        if ¬isFirst then
          if token.kind = .flowEntry then skip else throw ⟨.flowMappingEnd, token.mark⟩
        let token ← peek
        if token.kind = .flowMappingEnd then close token
        else if token.kind = .key then
          skip
          nodeUnless steps .flow [.value, .flowEntry, .flowMappingEnd]
          let token ← peek
          if token.kind = .value then
            skip
            nodeUnless steps .flow [.flowEntry, .flowMappingEnd]
          else emitNothing token.mark
          flowMapping steps false
        else
          node steps .flow
          emitNothing (← peek).mark
          flowMapping steps false

end

/-- Reads the directives before a document. `hasVersion` says whether one told the version. -/
def directives : List Token → Bool → Reading Unit
  | [], _ => return
  | token :: rest, hasVersion => do
      match token.kind with
      | .version major minor =>
          if hasVersion then throw ⟨.repeatedVersion, token.mark⟩
          if major ≠ 1 ∨ (minor ≠ 1 ∧ minor ≠ 2) then throw ⟨.wrongVersion, token.mark⟩
          skip
          directives rest true
      | .handle name expansion =>
          if ((← get).handles.lookup name).isSome then throw ⟨.repeatedHandle, token.mark⟩
          skip
          modify fun composer => { composer with handles := (name, expansion) :: composer.handles }
          directives rest hasVersion
      | _ => return

/-- The handles that need no directive. -/
def defaultHandles : List (String × String) := [("!", "!"), ("!!", "tag:yaml.org,2002:")]

/-- Adds the handles that need no directive, unless a directive made them. -/
def addDefaultHandles : Reading Unit :=
  modify fun composer => { composer with handles := composer.handles ++ defaultHandles }

/-- Reads the first document, if there is one, and tells whether it is the only one. -/
def document : Reading Bool := do
  let first ← peek
  if first.kind = .streamEnd then return true
  let steps := 4 * (← get).tokens.length + 4
  directives (← get).tokens false
  addDefaultHandles
  let isExplicit : Bool := match first.kind with
    | .version _ _ | .handle _ _ | .documentStart => true
    | _ => false
  if isExplicit then
    let token ← peek
    if token.kind ≠ .documentStart then throw ⟨.documentStart, token.mark⟩
    skip
    let token ← peek
    let isEmpty : Bool := match token.kind with
      | .version _ _ | .handle _ _ | .documentStart | .documentEnd | .streamEnd => true
      | _ => false
    if isEmpty then emitNothing token.mark else node steps .block
  else node steps .block
  let _ ← peek
  let behind := (← get).tokens.dropWhile (·.kind = .documentEnd)
  return (behind.head?.map (·.kind)) == some .streamEnd

end Reading

/-- The events of the first document of a text, with what is wrong with it and with the text. -/
structure Stream where
  events : List Event
  /-- The fault that keeps the document from being complete. -/
  fault : Option Fault
  /-- Whether nothing but the end of the text follows the document. -/
  isSingle : Bool
  deriving Repr

/-- Whether a character may occur in a text. -/
def isAllowed (c : Char) : Bool :=
  let code := c.toNat
  code = 0x09 || code = 0x0A || code = 0x0D || (0x20 ≤ code && code ≤ 0x7E) || code = 0x85 ||
    (0xA0 ≤ code && code ≤ 0xFFFD) || 0x10000 ≤ code

/-- The bytes before the first character that may not occur. -/
def controlOffset? : List Char → Nat → Option Nat
  | [], _ => none
  | c :: rest, offset =>
      if isAllowed c then controlOffset? rest (offset + c.utf8Size) else some offset

/-- The first document of a text. -/
def Stream.ofText (text : String) : Stream :=
  match controlOffset? text.toList 0 with
  | some offset => ⟨[], some ⟨.controlCharacter offset, .start⟩, true⟩
  | none =>
      let (tokens, fault) := tokens text
      let composer : Composer := ⟨tokens, fault.getD ⟨.blockNode, .start⟩, [], []⟩
      match Reading.document.run.run composer with
      | (.ok isSingle, composer) => ⟨composer.events.reverse, none, isSingle⟩
      | (.error fault, composer) => ⟨composer.events.reverse, some fault, true⟩

end PeerTrust.Yaml
