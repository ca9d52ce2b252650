import PeerTrust.Number.Decimal
import PeerTrust.Text.Quoted

/-!
# Values of settings

Settings are made of scalars, lists and maps, and every part knows where it comes from. Later
settings are merged over earlier ones: maps entry by entry, everything else as a whole.
-/

namespace PeerTrust.Settings

/-- Where settings come from. -/
inductive Origin where
  | file (path : String)
  | environment
  deriving DecidableEq, Repr

/-- A value without parts. -/
inductive Scalar where
  | unit
  | flag (value : Bool)
  | unsigned (value : Nat)
  | signed (value : Int)
  /-- A number of more than sixty-four bits. -/
  | wide (value : Int)
  | float (value : Double)
  | character (value : Char)
  | text (value : String)
  deriving DecidableEq, Repr

/-- A part of the settings. -/
inductive Value where
  | scalar (origin : Origin) (value : Scalar)
  | list (origin : Origin) (items : List Value)
  /-- Entries in the order of their keys, each key once. -/
  | map (origin : Origin) (entries : List (String × Value))
  deriving Repr

namespace Value

/-- Where a value comes from. -/
def origin : Value → Origin
  | .scalar origin _ => origin
  | .list origin _ => origin
  | .map origin _ => origin

/-- Puts an entry into its place among entries in order, for an earlier one with its key. -/
def put (key : String) (value : Value) : List (String × Value) → List (String × Value)
  | [] => [(key, value)]
  | (other, old) :: rest =>
      if key = other then (key, value) :: rest
      else if key < other then (key, value) :: (other, old) :: rest
      else (other, old) :: put key value rest

/-- Entries in order; of entries with one key, the last one. -/
def ofEntries (entries : List (String × Value)) : List (String × Value) :=
  entries.foldl (fun sorted entry => put entry.1 entry.2 sorted) []

mutual

/-- A value with a later one over it. -/
def merge (earlier : Value) : Value → Value
  | .map origin others =>
      match earlier with
      | .map _ entries => .map origin (mergeEntries entries others)
      | _ => .map origin others
  | later => later

/-- Entries with later ones over them. -/
def mergeEntries (entries : List (String × Value)) : List (String × Value) → List (String × Value)
  | [] => entries
  | (key, value) :: rest =>
      let merged := match entries.lookup key with
        | some earlier => merge earlier value
        | none => value
      mergeEntries (put key merged entries) rest

end

/-- The value at the end of a path of keys, in maps of one entry. -/
def nest (origin : Origin) (value : Value) : List String → Value
  | [] => value
  | key :: rest => .map origin [(key, nest origin value rest)]

end Value

/-- What a number of more than sixty-four bits is called. -/
def wideText (value : Int) : String :=
  let width := if value < 0 then "i128" else "u128"
  s!"integer `{value}` as {width}"

/-- What a scalar is called where it is not expected. -/
def Scalar.describe : Scalar → String
  | .unit => "unit"
  | .flag value => if value then "bool true" else "bool false"
  | .unsigned value => s!"unsigned int `{value}`"
  | .signed value => s!"signed int `{value}`"
  | .wide value => wideText value
  | .float value => s!"float `{Decimal.write value}`"
  | .character value => "string " ++ Quoted.quote (String.singleton value)
  | .text value => "string " ++ Quoted.quote value

/-- What a value is called where it is not expected. -/
def Value.describe : Value → String
  | .scalar _ value => value.describe
  | .list _ _ => "sequence"
  | .map _ _ => "map"

end PeerTrust.Settings
