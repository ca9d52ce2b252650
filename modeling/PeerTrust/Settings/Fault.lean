import PeerTrust.Settings.Value
import PeerTrust.Storage.Files
import PeerTrust.Yaml.Fault

/-!
# Faults in settings

What is wrong with settings: a file that cannot be read as settings at all, or a value that is not
of the form that its place asks for.
-/

namespace PeerTrust.Settings

/-- What a part of a document is. -/
inductive Part where
  | scalar (value : Scalar)
  | sequence
  | mapping
  deriving DecidableEq, Repr

/-- What a part of a document is called where it is not expected. -/
def Part.describe : Part → String
  | .sequence => "sequence"
  | .mapping => "map"
  | .scalar .unit => "unit value"
  | .scalar (.flag value) => if value then "boolean `true`" else "boolean `false`"
  | .scalar (.unsigned value) => s!"integer `{value}`"
  | .scalar (.signed value) => s!"integer `{value}`"
  | .scalar (.wide value) => wideText value
  | .scalar (.float value) => s!"floating point `{Decimal.writePointed value}`"
  | .scalar (.character value) => s!"character `{value}`"
  | .scalar (.text value) => "string " ++ Quoted.quote value

/-- What a tag asks for. -/
inductive TagKind where
  | flag
  | integer
  | float
  | nothing
  deriving DecidableEq, Repr

/-- What a tag asks for, in words. -/
def TagKind.text : TagKind → String
  | .flag => "a boolean"
  | .integer => "an integer"
  | .float => "a float"
  | .nothing => "null"

/-- Why a file does not hold settings. -/
inductive DocumentFault where
  /-- The file cannot be read. -/
  | unreadable (fault : FileFault)
  /-- The bytes are not text. -/
  | notText
  /-- The text is not a document. -/
  | malformed (fault : Yaml.Fault)
  /-- The document is not a mapping. -/
  | notMapping (found : Part) (mark : Yaml.Mark)
  /-- A key is not a scalar. -/
  | notKey (found : Part) (mark : Yaml.Mark)
  /-- A value has a tag of the document's own. -/
  | tagged (mark : Yaml.Mark)
  /-- A scalar is not what its tag asks for. -/
  | mistagged (text : String) (kind : TagKind) (mark : Yaml.Mark)
  deriving DecidableEq, Repr

/-- The wording of a fault of a file. -/
def DocumentFault.message : DocumentFault → String
  | .unreadable fault => fault.message
  | .notText => "stream did not contain valid UTF-8"
  | .malformed fault => fault.message
  | .notMapping found mark => Yaml.located s!"invalid type: {found.describe}, expected a map" mark
  | .notKey found mark => Yaml.located s!"invalid type: {found.describe}, expected a string" mark
  | .tagged mark => Yaml.located "invalid type: enum, expected a value" mark
  | .mistagged text kind mark =>
      Yaml.located s!"invalid value: string {Quoted.quote text}, expected {kind.text}" mark

/-- The form that a place asks for. -/
inductive Form where
  | flag
  | sequence
  | path
  | text
  | nothing
  /-- Fields with names. -/
  | record (name : String)
  /-- One of several words. -/
  | choice (name : String)
  | anyChoice
  deriving DecidableEq, Repr

/-- A form in words. -/
def Form.phrase : Form → String
  | .flag => "a boolean"
  | .sequence => "a sequence"
  | .path => "path string"
  | .text => "a string"
  | .nothing => "unit"
  | .record name => "struct " ++ name
  | .choice name => "enum " ++ name
  | .anyChoice => "enum"

/-- Words to choose from. -/
def choiceText (known : List String) : String :=
  let quoted := known.map fun word => s!"`{word}`"
  match quoted with
  | [first, second] => s!"{first} or {second}"
  | _ => "one of " ++ ", ".intercalate quoted

/-- What is wrong with a value. -/
inductive Problem where
  | document (fault : DocumentFault)
  /-- A value does not have the form that is asked for. -/
  | wrongForm (found : String) (expected : Form)
  | unknownWord (found : String) (known : List String)
  | missingField (name : String)
  /-- A list of fields ends before a field that is needed. -/
  | tooShort (length : Nat) (record : String) (fields : Nat)
  deriving DecidableEq, Repr

/-- The wording of a problem. -/
def Problem.message : Problem → String
  | .document fault => fault.message
  | .wrongForm found expected => s!"invalid type: found {found}, expected {expected.phrase}"
  | .unknownWord found known =>
      s!"unknown variant: found `{found}`, expected `{choiceText known}`"
  | .missingField name => s!"missing field `{name}`"
  | .tooShort length record fields =>
      s!"invalid length {length}, expected struct {record} with {fields} elements"

/-- A problem with a value, the keys that lead to the value, and where it comes from. -/
structure Fault where
  problem : Problem
  keys : List String
  origin : Origin
  deriving DecidableEq, Repr

/-- The path of a file without steps that lead nowhere. -/
def plainPath (path : String) : String :=
  let steps := (path.splitOn "/").filter fun step => step != "" && step != "."
  if path.startsWith "/" then "/" ++ "/".intercalate steps else "/".intercalate steps

/-- A text with all its letters in upper case. -/
def upperCase (text : String) : String := String.ofList (text.toList.map Char.toUpper)

/-- How keys are written together: those of a file below the name of its only profile, those of the
environment as they stand in variables. -/
def Origin.keyText (keys : List String) : Origin → String
  | .file _ => ".".intercalate ("default" :: keys)
  | .environment => ".".intercalate (keys.map upperCase)

/-- The name of an origin. -/
def Origin.text : Origin → String
  | .file path => plainPath path ++ " YAML file"
  | .environment => "`MTLS_TRUST_` environment variable(s)"

/-- The wording of a fault. -/
def Fault.message (fault : Fault) : String :=
  let place :=
    if fault.keys = [] then ""
    else " for key " ++ Quoted.quote (fault.origin.keyText fault.keys)
  s!"{fault.problem.message}{place} in {fault.origin.text}"

end PeerTrust.Settings
