import PeerTrust.Yaml.Fault

/-!
# Tokens

The smallest parts of a document that mean something, among them the places where indentation opens
and closes a collection.
-/

namespace PeerTrust.Yaml

/-- What a token is. -/
inductive Token.Kind where
  | streamEnd
  | version (major minor : Nat)
  /-- A directive that lets a handle stand for the beginning of tags. -/
  | handle (name expansion : String)
  | documentStart
  | documentEnd
  | blockSequenceStart
  | blockMappingStart
  | blockEnd
  | flowSequenceStart
  | flowSequenceEnd
  | flowMappingStart
  | flowMappingEnd
  | blockEntry
  | flowEntry
  | key
  | value
  | alias (name : String)
  | anchor (name : String)
  | tag (handle suffix : String)
  | scalar (text : String) (isPlain : Bool)
  deriving DecidableEq, Repr

/-- A token and the place where it begins. -/
structure Token where
  kind : Token.Kind
  mark : Mark
  deriving DecidableEq, Repr

end PeerTrust.Yaml
