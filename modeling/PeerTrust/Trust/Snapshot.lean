import PeerTrust.Trust.Validator

/-!
# Validators at one moment

A snapshot is a validator with the contents of its pools and slots at one moment. From it the issuers
are read off, for which every part of the validator is looked at.
-/

namespace PeerTrust

/-- A validator with the contents of its pools and slots. -/
inductive Snapshot where
  | base (anchored : Base)
  | composite (members : List Snapshot)
  /-- A pool: its number, its published validator, and what it accepts without looking at
  anchors. -/
  | inflatable (pool : Nat) (published : Base) (predicate : Option (Context → Bool))
  | hotSwappable (slot : Nat) (delegate : Snapshot)
  | enhanceable (inner : Snapshot) (enhancer : Option Enhancer)
  | logging (inner : Snapshot)
  | capturing (collector : Nat) (inner : Snapshot)
  | trustAll
  | dummy

namespace Snapshot

/-- The kind of the validator. -/
def kind : Snapshot → Kind
  | .base _ => .base
  | .composite _ => .composite
  | .inflatable _ _ _ => .inflatable
  | .hotSwappable _ _ => .hotSwappable
  | .enhanceable _ _ => .enhanceable
  | .logging _ => .logging
  | .capturing _ _ => .capturing
  | .trustAll => .trustAll
  | .dummy => .dummy

mutual

/-- The certificates that are trusted, each once. -/
def issuers : Snapshot → List Certificate
  | .base anchored => anchored.issuers
  | .composite members => issuersOfAll [] members
  | .inflatable _ published _ => published.issuers
  | .hotSwappable _ delegate => issuers delegate
  | .enhanceable inner _ => issuers inner
  | .logging inner => issuers inner
  | .capturing _ inner => issuers inner
  | .trustAll => []
  | .dummy => []

/-- The certificates that several validators trust, after those already known. -/
def issuersOfAll (known : List Certificate) : List Snapshot → List Certificate
  | [] => known
  | member :: rest => issuersOfAll (extendUnique known (issuers member)) rest

end

end Snapshot

mutual

/-- The snapshot of a validator, given those of pools and slots. -/
def Validator.snapshotWith (pool slot : Nat → Option Snapshot) : Validator → Option Snapshot
  | .base anchored => some (.base anchored)
  | .composite members => (snapshotsWith pool slot members).map .composite
  | .inflatable number => pool number
  | .hotSwappable number => (slot number).map (.hotSwappable number)
  | .enhanceable inner enhancer =>
      (inner.snapshotWith pool slot).map (.enhanceable · enhancer)
  | .logging inner => (inner.snapshotWith pool slot).map .logging
  | .capturing collector inner => (inner.snapshotWith pool slot).map (.capturing collector)
  | .trustAll => some .trustAll
  | .dummy => some .dummy

/-- The snapshots of several validators. -/
def Validator.snapshotsWith (pool slot : Nat → Option Snapshot) :
    List Validator → Option (List Snapshot)
  | [] => some []
  | member :: rest => do
      return (← member.snapshotWith pool slot) :: (← snapshotsWith pool slot rest)

end

end PeerTrust
