import PeerTrust.Trust.Event

/-!
# The mode flag

Whether mutual authentication is on is decided elsewhere and may become known late. A listener that
needs it waits until the flag is set or its patience ends; a flag that is still unset then counts as
off.
-/

namespace PeerTrust

/-- The flag, once it is set. -/
abbrev Mode := Option Bool

namespace Mode

/-- Sets the flag. -/
def set (mode : Mode) (isOn : Bool) : Mode × List Event :=
  (some isOn, if mode = some isOn then [.modeUnchanged isOn] else [.modeSet isOn mode])

/-- Whether the flag is set to something else than a candidate. -/
def isUpdated (mode : Mode) (candidate : Bool) : Bool :=
  match mode with
  | some current => current != candidate
  | none => false

/-- Forgets the flag. -/
def reset (_ : Mode) : Mode × List Event := (none, [.modeReset])

/-- How long a listener waits. -/
inductive Patience where
  | milliseconds (count : Nat)
  | unlimited
  deriving DecidableEq, Repr

/-- The patience of a listener that does not say how long it waits. -/
def Patience.standard : Patience := .milliseconds 15000

/-- Whether a listener still waits at a time after it began. -/
def Patience.reaches (time : Nat) : Patience → Bool
  | .milliseconds count => time < count
  | .unlimited => true

/-- The flag being set some milliseconds after a listener began to wait. -/
structure Arrival where
  time : Nat
  isOn : Bool
  deriving DecidableEq, Repr

/-- What a listener is told, and what is told to the log, if the flag is set from elsewhere as
given. A listener with unlimited patience waits forever for a flag that is never set. -/
def wait (mode : Mode) (patience : Patience) (arrival : Option Arrival) :
    Option (Bool × List Event) :=
  match mode, arrival, patience with
  | some isOn, _, _ => some (isOn, [])
  | none, some arrival, patience =>
      if patience.reaches arrival.time then some (arrival.isOn, []) else expire patience
  | none, none, patience => expire patience
where
  /-- The end of patience. -/
  expire : Patience → Option (Bool × List Event)
    | .milliseconds count => some (false, [.modeTimeout count])
    | .unlimited => none

/-- The flag after a listener waited and everything that was to be set was set. -/
def afterwards (mode : Mode) (arrival : Option Arrival) : Mode :=
  match arrival with
  | some arrival => some arrival.isOn
  | none => mode

end Mode

end PeerTrust
