import PeerTrust.Settings.Fault
import PeerTrust.Yaml.Event

/-!
# Settings in a document

Reading values from a document. A plain scalar is what it looks like: nothing, a truth value, a
number, or a text. References stand for the node with the anchor, which may be around them; so the
depth to which nodes are followed is limited, and so is the number of references.
-/

namespace PeerTrust.Settings

open Yaml

/-! ## Scalars -/

/-- The value of digits in a base up to sixteen. -/
def digitsIn? (base : Nat) (digits : List Char) : Option Nat :=
  if digits = [] then none
  else digits.foldlM
    (fun number c => (hexDigit? c).bind fun digit =>
      if digit < base then some (base * number + digit) else none) 0

/-- Whether a text consists of digits and is still not a number, because it begins with zero. -/
def isCode (text : List Char) : Bool :=
  match (Decimal.splitSign text).2 with
  | '0' :: c :: rest => (c :: rest).all Decimal.isDigit
  | _ => false

/-- The digits of a number behind the sign of its base. -/
def basePart? : List Char → Option (Nat × List Char)
  | '0' :: 'x' :: digits => some (16, digits)
  | '0' :: 'o' :: digits => some (8, digits)
  | '0' :: 'b' :: digits => some (2, digits)
  | _ => none

/-- The size of an integer without its sign. -/
def magnitude? (text : List Char) : Option Nat :=
  match basePart? text with
  | some (base, digits) => digitsIn? base digits
  | none => digitsIn? 10 text

/-- Reads an integer. -/
def integer? (text : List Char) : Option Scalar :=
  if isCode text then none
  else match text with
    | '-' :: rest => do
        let size ← magnitude? rest
        if size ≤ Nat.pow 2 63 then some (.signed (-size))
        else if size ≤ Nat.pow 2 127 then some (.wide (-size))
        else none
    | _ => do
        let size ← magnitude? (if text.head? = some '+' then text.drop 1 else text)
        if size < Nat.pow 2 64 then some (.unsigned size)
        else if size < Nat.pow 2 128 then some (.wide size)
        else none

/-- Reads a floating point number, which is finite if it is written in digits. -/
def float? (text : List Char) : Option Double :=
  let unsigned := if text.head? = some '+' then text.drop 1 else text
  if [".inf", ".Inf", ".INF"].contains (String.ofList unsigned) then some (.infinite false)
  else if ["-.inf", "-.Inf", "-.INF"].contains (String.ofList text) then some (.infinite true)
  else if [".nan", ".NaN", ".NAN"].contains (String.ofList text) then some .nan
  else if text.head? = some '+' ∧ (unsigned.head? = some '+' ∨ unsigned.head? = some '-') then none
  else (Decimal.read? unsigned).filter Double.isFinite

/-- Reads a truth value. -/
def flag? (text : String) : Option Bool :=
  if ["true", "True", "TRUE"].contains text then some true
  else if ["false", "False", "FALSE"].contains text then some false
  else none

/-- Whether a text stands for nothing. -/
def isNothing (text : String) : Bool := ["null", "Null", "NULL", "~"].contains text

/-- What a plain text is. -/
def plainScalar (text : String) : Scalar :=
  if text = "" ∨ isNothing text then .unit
  else match flag? text, integer? text.toList with
    | some value, _ => .flag value
    | none, some number => number
    | none, none =>
        match if isCode text.toList then none else float? text.toList with
        | some number => .float number
        | none => .text text

/-- What a tag of the standard asks for. -/
def tagKind? (tag : String) : Option TagKind :=
  if tag = "tag:yaml.org,2002:bool" then some .flag
  else if tag = "tag:yaml.org,2002:int" then some .integer
  else if tag = "tag:yaml.org,2002:float" then some .float
  else if tag = "tag:yaml.org,2002:null" then some .nothing
  else none

/-- A text read as its tag asks. -/
def taggedScalar? (text : String) : TagKind → Option Scalar
  | .flag => (flag? text).map .flag
  | .integer => integer? text.toList
  | .float => (float? text.toList).map .float
  | .nothing => if isNothing text then some .unit else none

/-- Whether a tag is one of the document's own. -/
def isOwnTag (tag : Option String) : Bool := tag.any (·.startsWith "!")

/-- The value of a scalar. -/
def readScalar (tag : Option String) (text : String) (isPlain : Bool) (mark : Mark) :
    Except DocumentFault Scalar :=
  match tag with
  | none => .ok (if isPlain then plainScalar text else .text text)
  | some tag =>
      match tagKind? tag with
      | some kind =>
          match taggedScalar? text kind with
          | some scalar => .ok scalar
          | none => .error (.mistagged text kind mark)
      | none => .ok (if isOwnTag tag ∧ isPlain then plainScalar text else .text text)

/-! ## Nodes -/

/-- How deep nodes are followed. -/
def depthLimit : Nat := 128

/-- A document whose nodes are to be read. -/
structure Document where
  origin : Origin
  events : Array Yaml.Event
  /-- What is wrong behind the last event. -/
  fault : Yaml.Fault

/-- Something that is read from a document, with the number of references that were followed. -/
abbrev NodeReading := StateT Nat (Except DocumentFault)

namespace Document

/-- The event at a position. -/
def event (document : Document) (position : Nat) : NodeReading Yaml.Event :=
  match document.events[position]? with
  | some event => return event
  | none => throw (.malformed document.fault)

/-- The anchor of an event. -/
def anchorOf (event : Yaml.Event) : Option String :=
  match event.kind with
  | .scalar properties _ _ => properties.anchor
  | .sequence properties => properties.anchor
  | .mapping properties => properties.anchor
  | _ => none

/-- The last position before another one with an anchor. -/
def anchored? (document : Document) (name : String) (position : Nat) : Option Nat :=
  (List.range position).reverse.find? fun earlier =>
    (document.events[earlier]?.bind anchorOf) == some name

/-- The position that a reference leads to. -/
def follow (document : Document) (name : String) (position : Nat) (mark : Mark) :
    NodeReading Nat := do
  match document.anchored? name position with
  | none => throw (.malformed ⟨.unknownAnchor, mark⟩)
  | some target =>
      let count := (← get) + 1
      if 100 * document.events.size < count then throw (.malformed ⟨.repetition, mark⟩)
      set count
      return target

/-- Reads a key at a position. Whatever a scalar looks like, a key is a text. -/
def keyAt (document : Document) (position : Nat) : NodeReading String := do
  let event ← document.event position
  let event ← match event.kind with
    | .alias name => do document.event (← document.follow name position event.mark)
    | _ => pure event
  match event.kind with
  | .scalar _ text _ => return text
  | .sequence _ => throw (.notKey .sequence event.mark)
  | _ => throw (.notKey .mapping event.mark)

/-- Reads items up to the end of a sequence, at most as many as given. -/
def itemsWith (document : Document) (readNode : Nat → NodeReading (Value × Nat)) :
    Nat → Nat → NodeReading (List Value × Nat)
  | 0, _ => throw (.malformed document.fault)
  | most + 1, position => do
      if (← document.event position).kind = .stop then return ([], position + 1)
      let (item, next) ← readNode position
      let (items, next) ← document.itemsWith readNode most next
      return (item :: items, next)

/-- Reads keys and values up to the end of a mapping, at most as many as given. -/
def entriesWith (document : Document) (readNode : Nat → NodeReading (Value × Nat)) :
    Nat → Nat → NodeReading (List (String × Value) × Nat)
  | 0, _ => throw (.malformed document.fault)
  | most + 1, position => do
      if (← document.event position).kind = .stop then return ([], position + 1)
      let key ← document.keyAt position
      let (value, next) ← readNode (position + 1)
      let (entries, next) ← document.entriesWith readNode most next
      return ((key, value) :: entries, next)

/-- Reads a node that is not a reference, and finds the position behind it. Nodes in it are read as
given, unless there may not be any more. -/
def contentWith (document : Document) (readNode : Option (Nat → NodeReading (Value × Nat)))
    (position : Nat) : NodeReading (Value × Nat) := do
  let event ← document.event position
  match event.kind, readNode with
  | .scalar properties text isPlain, _ =>
      if isOwnTag properties.tag then throw (.tagged event.mark)
      let scalar ← readScalar properties.tag text isPlain event.mark
      return (.scalar document.origin scalar, position + 1)
  | .sequence properties, some readNode =>
      if isOwnTag properties.tag then throw (.tagged event.mark)
      let (items, next) ← document.itemsWith readNode document.events.size (position + 1)
      return (.list document.origin items, next)
  | .mapping properties, some readNode =>
      if isOwnTag properties.tag then throw (.tagged event.mark)
      let (entries, next) ← document.entriesWith readNode document.events.size (position + 1)
      return (.map document.origin (Value.ofEntries entries), next)
  | _, _ => throw (.malformed ⟨.depth, event.mark⟩)

/-- Reads a node that may be a reference. -/
def referenceWith (document : Document) (readContent : Nat → NodeReading (Value × Nat))
    (position : Nat) : NodeReading (Value × Nat) := do
  let event ← document.event position
  match event.kind with
  | .alias name =>
      let (value, _) ← readContent (← document.follow name position event.mark)
      return (value, position + 1)
  | _ => readContent position

/-- Reads a node whose own nodes are at most so many levels deep. -/
def nodeAt (document : Document) : Nat → Nat → NodeReading (Value × Nat)
  | 0 => document.referenceWith (document.contentWith none)
  | depth + 1 => document.referenceWith (document.contentWith (some (document.nodeAt depth)))

/-- What a document is if it is not a mapping. -/
def partAt (document : Document) (position : Nat) : NodeReading Part := do
  let event ← document.event position
  match event.kind with
  | .scalar properties text isPlain =>
      return .scalar (← readScalar properties.tag text isPlain event.mark)
  | .sequence _ => return .sequence
  | _ => return .mapping

/-- Reads a document, which has to be a mapping, whatever its tag. -/
def readMapping (document : Document) : NodeReading Value := do
  let event ← document.event 0
  match event.kind with
  | .mapping _ =>
      let (entries, _) ←
        document.entriesWith (document.nodeAt (depthLimit - 1)) document.events.size 1
      return .map document.origin (Value.ofEntries entries)
  | _ => throw (.notMapping (← document.partAt 0) event.mark)

end Document

/-- The settings in a text. A text without a document has no settings. -/
def Value.ofText (origin : Origin) (text : String) : Except DocumentFault Value :=
  let stream := Stream.ofText text
  if stream.events.isEmpty ∧ stream.fault.isNone ∧ stream.isSingle then .ok (.map origin [])
  else
    let document : Document :=
      ⟨origin, stream.events.toArray, stream.fault.getD ⟨.blockNode, .start⟩⟩
    match document.readMapping.run 0, stream.fault with
    | .error fault, _ => .error fault
    | .ok _, some fault => .error (.malformed fault)
    | .ok (value, _), none =>
        if stream.isSingle then .ok value else .error (.malformed ⟨.severalDocuments, .start⟩)

end PeerTrust.Settings
