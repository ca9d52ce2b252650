import PeerTrust.Settings.Fault

/-!
# Reading values

Values are read in the form that their place asks for. A record is read from a map, whose other keys
do not matter, or from a list of its fields in order. The first fault counts, in the order of the
keys.
-/

namespace PeerTrust.Settings

/-- The fault of a value below a key. -/
def Fault.under (fault : Fault) (key : String) : Fault := { fault with keys := key :: fault.keys }

namespace Value

/-- The fault of a value that does not have the form asked for. -/
def refuse {α : Type} (value : Value) (expected : Form) : Except Fault α :=
  .error ⟨.wrongForm value.describe expected, [], value.origin⟩

/-- Reads a truth value. -/
def readFlag : Value → Except Fault Bool
  | .scalar _ (.flag value) => .ok value
  | value => value.refuse .flag

/-- Reads a text in a form that is a text. -/
def readTextAs (expected : Form) : Value → Except Fault String
  | .scalar _ (.text value) => .ok value
  | .scalar _ (.character value) => .ok (String.singleton value)
  | value => value.refuse expected

/-- Reads a text. -/
def readText : Value → Except Fault String := readTextAs .text

/-- Reads a path. -/
def readPath : Value → Except Fault String := readTextAs .path

/-- Reads a value that may be nothing. -/
def readOption {α : Type} (read : Value → Except Fault α) : Value → Except Fault (Option α)
  | .scalar _ .unit => .ok none
  | value => (read value).map some

/-- Reads nothing. -/
def readNothing : Value → Except Fault Unit
  | .scalar _ .unit => .ok ()
  | value => value.refuse .nothing

/-- Reads items, the first of which has the given number. -/
def readItems {α : Type} (read : Value → Except Fault α) :
    Nat → List Value → Except Fault (List α)
  | _, [] => .ok []
  | number, item :: rest => do
      let value ← (read item).mapError (·.under (toString number))
      return value :: (← readItems read (number + 1) rest)

/-- Reads a list. -/
def readList {α : Type} (read : Value → Except Fault α) : Value → Except Fault (List α)
  | .list _ items => readItems read 0 items
  | value => value.refuse .sequence

/-- The meaning of a word, one of those with a meaning. -/
def readWord {α : Type} (words : List (String × α)) (word : String) (origin : Origin) :
    Except Fault α :=
  match words.lookup word with
  | some meaning => .ok meaning
  | none => .error ⟨.unknownWord word (words.map (·.1)), [], origin⟩

/-- Reads a word, which may also be the key of nothing. -/
def readChoice {α : Type} (name : String) (words : List (String × α)) : Value → Except Fault α
  | .scalar origin (.text word) => readWord words word origin
  | .map origin [] => (Value.map origin []).refuse .anyChoice
  | .map origin ((word, value) :: _) => do
      let meaning ← readWord words word origin
      (readNothing value).mapError (·.under word)
      return meaning
  | value => value.refuse (.choice name)

/-- A field of a record: its name, and how its value changes the record. -/
structure FieldReader (α : Type) where
  name : String
  read : Value → Except Fault (α → α)

/-- A field with a value of its own. -/
def FieldReader.of {α β : Type} (name : String) (read : Value → Except Fault β)
    (write : β → α → α) : FieldReader α :=
  ⟨name, fun value => (read value).map write⟩

/-- A record changed by entries, in their order. -/
def readEntries {α : Type} (fields : List (FieldReader α)) :
    α → List (String × Value) → Except Fault α
  | record, [] => .ok record
  | record, (key, value) :: rest =>
      match fields.find? (·.name == key) with
      | none => readEntries fields record rest
      | some field => do
          let change ← (field.read value).mapError (·.under key)
          readEntries fields (change record) rest

/-- A record changed by the values of fields in order, the first of which has the given number. -/
def readFields {α : Type} : List (FieldReader α) → Nat → α → List Value → Except Fault α
  | field :: fields, number, record, value :: rest => do
      let change ← (field.read value).mapError (·.under (toString number))
      readFields fields (number + 1) (change record) rest
  | _, _, record, _ => .ok record

/-- Reads a record whose fields all have a value to begin with. -/
def readRecord {α : Type} (name : String) (fields : List (FieldReader α)) (initial : α) :
    Value → Except Fault α
  | .map _ entries => readEntries fields initial entries
  | .list _ items => readFields fields 0 initial items
  | value => value.refuse (.record name)

end Value

end PeerTrust.Settings
