import PeerTrust.Tls.Mode

/-!
# Waiting for the mode flag, step by step

Any number of calls set the mode flag, forget it and wait for it at the same time. Whether there is
something new about the flag is signalled under a lock: a call that sets the flag writes it first,
and takes the lock only then, to wake all listeners that are parked. A listener looks at the flag
while it holds the lock, and gives the lock back in the very step in which it parks. The flag itself
can be written by others meanwhile, whoever holds the lock.
-/

namespace PeerTrust

/-- When a listener that begins to wait at a given time stops to wait. -/
def Mode.Patience.deadline (time : Nat) : Mode.Patience → Option Nat
  | .milliseconds count => some (time + count)
  | .unlimited => none

/-- What all calls share: the flag, the number of the call that holds the lock, the time in
milliseconds, and the log. -/
structure Signal where
  mode : Mode
  holder : Option Nat
  time : Nat
  log : List Event

namespace Signal

/-- The signal after a call has written the flag. -/
def write (signal : Signal) (mode : Mode) : Signal := { signal with mode }

/-- The signal after a call has taken the lock, which it can do if nobody holds it. -/
def lock? (number : Nat) (signal : Signal) : Option Signal :=
  if signal.holder = none then some { signal with holder := some number } else none

/-- The signal after the holder of the lock has given it back. -/
def unlock (signal : Signal) : Signal := { signal with holder := none }

/-- The signal after a call has told the log something. -/
def tell (signal : Signal) (events : List Event) : Signal :=
  { signal with log := signal.log ++ events }

/-- How far a call has come that sets the flag. The events are what it has to tell. -/
inductive Setting where
  | begun
  /-- The flag is written. -/
  | written (events : List Event)
  /-- The call holds the lock. -/
  | locked (events : List Event)
  /-- The parked listeners are woken, and the call still holds the lock. -/
  | notified (events : List Event)
  | done (events : List Event)

/-- The next step of a call that sets the flag. -/
def Setting.next? (number : Nat) (isOn : Bool) (signal : Signal) :
    Setting → Option (Signal × Setting)
  | .begun =>
      let (mode, events) := signal.mode.set isOn
      some (signal.write mode, .written events)
  | .written events => (signal.lock? number).map (·, .locked events)
  | .locked events => some (signal, .notified events)
  | .notified events => some ((signal.tell events).unlock, .done events)
  | .done _ => none

/-- How far a call has come that forgets the flag. -/
inductive Resetting where
  | begun
  | written (events : List Event)
  | done (events : List Event)

/-- The next step of a call that forgets the flag. It does without the lock. -/
def Resetting.next? (signal : Signal) : Resetting → Option (Signal × Resetting)
  | .begun =>
      let (mode, events) := signal.mode.reset
      some (signal.write mode, .written events)
  | .written events => some (signal.tell events, .done events)
  | .done _ => none

/-- How far a listener has come. -/
inductive Listening where
  | begun
  /-- It wants the lock, at first or because it was woken. -/
  | waiting (deadline : Option Nat)
  /-- It holds the lock, and is to look at the flag. -/
  | looking (deadline : Option Nat)
  /-- It has seen that the flag is unset, and still holds the lock. -/
  | parking (deadline : Option Nat)
  | parked (deadline : Option Nat)
  /-- Its patience ended before it was woken, and it wants the lock. -/
  | expired
  /-- It holds the lock, and is to look at the flag for the last time. -/
  | lookingAgain
  /-- It knows what it is to return and to tell, and still holds the lock. -/
  | leaving (isOn : Bool) (events : List Event)
  | done (isOn : Bool) (events : List Event)

/-- The next step of a listener by itself. One that is parked can only be woken by somebody else, or
find that its patience has ended. -/
def Listening.next? (number : Nat) (patience : Mode.Patience) (signal : Signal) :
    Listening → Option (Signal × Listening)
  | .begun => some (signal, .waiting (patience.deadline signal.time))
  | .waiting deadline => (signal.lock? number).map (·, .looking deadline)
  | .looking deadline =>
      match signal.mode with
      | some isOn => some (signal, .leaving isOn [])
      | none => some (signal, .parking deadline)
  | .parking deadline => some (signal.unlock, .parked deadline)
  | .parked deadline => if deadline.any (· ≤ signal.time) then some (signal, .expired) else none
  | .expired => (signal.lock? number).map (·, .lookingAgain)
  | .lookingAgain =>
      (signal.mode.wait patience none).map fun (isOn, events) => (signal, .leaving isOn events)
  | .leaving isOn events => some ((signal.tell events).unlock, .done isOn events)
  | .done _ _ => none

/-- A call, and how far it has come. -/
inductive Call where
  | set (isOn : Bool) (stage : Setting)
  | reset (stage : Resetting)
  | wait (patience : Mode.Patience) (stage : Listening)

namespace Call

/-- The next step of a call by itself; there is none if the call is over or cannot go on now. -/
def next? (number : Nat) (signal : Signal) : Call → Option (Signal × Call)
  | .set isOn stage =>
      (stage.next? number isOn signal).map fun (after, next) => (after, .set isOn next)
  | .reset stage => (stage.next? signal).map fun (after, next) => (after, .reset next)
  | .wait patience stage =>
      (stage.next? number patience signal).map fun (after, next) => (after, .wait patience next)

/-- A call after all parked listeners were woken. -/
def woken : Call → Call
  | .wait patience (.parked deadline) => .wait patience (.waiting deadline)
  | other => other

/-- Whether the next step of a call is to wake all parked listeners. -/
def isWaking : Call → Bool
  | .set _ (.locked _) => true
  | _ => false

/-- What becomes of another call by the next step of a call. -/
def effectOn (call other : Call) : Call := if call.isWaking then other.woken else other

end Call

/-- What a call is made for. -/
inductive Request where
  | set (isOn : Bool)
  | reset
  | wait (patience : Mode.Patience)

/-- A call that nothing has been done for. -/
def Request.begun : Request → Call
  | .set isOn => .set isOn .begun
  | .reset => .reset .begun
  | .wait patience => .wait patience .begun

/-- A signal with all calls that were made, those that are over included. -/
structure Traffic where
  signal : Signal
  calls : List Call

/-- What can happen next. -/
inductive Move where
  | make (request : Request)
  | pass (milliseconds : Nat)
  /-- The call of the given number does its next step. -/
  | go (number : Nat)

namespace Traffic

/-- The flag is unset, and no call was made yet. -/
def start : Traffic := ⟨⟨none, none, 0, []⟩, []⟩

/-- What comes of a move, if it is possible. -/
def next? (traffic : Traffic) : Move → Option Traffic
  | .make request => some { traffic with calls := traffic.calls ++ [request.begun] }
  | .pass milliseconds =>
      let time := traffic.signal.time + milliseconds
      some { traffic with signal := { traffic.signal with time } }
  | .go number => do
      let call ← traffic.calls[number]?
      let (signal, next) ← call.next? number traffic.signal
      return ⟨signal, (traffic.calls.map call.effectOn).set number next⟩

end Traffic

end Signal

end PeerTrust
