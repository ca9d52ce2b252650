import PeerTrust.World.Basic

/-!
# Judging chains

A validator is asked from the outside to the inside, and no part of it is looked at before it has to
be. So there can be a verdict although some slot holds itself. Only where the way to a verdict goes
round in circles there is none, and the same is true of the way to a pool.
-/

namespace PeerTrust.World

/-- The validators that a validator is made of. That of a slot is the one that stands in it. -/
def parts (world : World) : Validator → List Validator
  | .base _ => []
  | .composite members => members
  | .inflatable _ => []
  | .hotSwappable slot => world.slots[slot]?.toList
  | .enhanceable inner _ => [inner]
  | .logging inner => [inner]
  | .capturing _ inner => [inner]
  | .trustAll => []
  | .dummy => []

/-- The validator that a way leads to. -/
def part? (world : World) (validator : Validator) : List Nat → Option Validator
  | [] => some validator
  | number :: way => (world.parts validator)[number]?.bind (world.part? · way)

mutual

/-- The verdict about a chain, and what is done on the way to it. -/
def judge (engine : Engine) (now : Nat) (world : World) (validator : Validator)
    (context : Context) : Option (Verdict × List Effect) :=
  match validator with
  | .base anchored => some (anchored.validate engine now context, [])
  | .composite members => world |>.judgeAny engine now members context []
  | .inflatable number => do
      let pool ← world.pools[number]?
      return (Pool.verdict engine now pool.published pool.predicate context, [])
  | .hotSwappable number => do world |>.judge engine now (← world.slots[number]?) context
  | .enhanceable inner none => world |>.judge engine now inner context
  | .enhanceable inner (some enhancer) => do
      let (accepts, effects) ← world |>.follow engine now inner (enhancer context)
      return (if accepts then .ok () else .error .declined, effects)
  | .logging inner => do
      let (verdict, effects) ← world |>.judge engine now inner context
      return (verdict, effects ++ [.tell (.decided context inner.kind verdict)])
  | .capturing collector inner => do
      let (verdict, effects) ← world |>.judge engine now inner context
      return (verdict, .record collector context.chain :: effects)
  | .trustAll => some (.ok (), [.tell (.acceptedUnseen context)])
  | .dummy => some (.ok (), [])
partial_fixpoint

/-- The verdict of the first of several validators that accepts a chain; if none does, the
rejections of all of them, `earlier` being those so far. -/
def judgeAny (engine : Engine) (now : Nat) (world : World) (members : List Validator)
    (context : Context) (earlier : List Rejection) : Option (Verdict × List Effect) :=
  match members with
  | [] => some (.error (.all earlier), [])
  | member :: rest => do
      match ← world |>.judge engine now member context with
      | (.ok (), effects) => return (.ok (), effects)
      | (.error rejection, effects) =>
          let (verdict, later) ←
            world |>.judgeAny engine now rest context (earlier ++ [rejection])
          return (verdict, effects ++ later)
partial_fixpoint

/-- The answer of a custom decision on top of a validator, and what is done on the way to it. -/
def follow (engine : Engine) (now : Nat) (world : World) (base : Validator)
    (decision : Decision Question Reply) : Option (Bool × List Effect) :=
  match decision with
  | .answer accepts => some (accepts, [])
  | .consult question next => do
      let (reply, effects) ← world |>.consult engine now base question
      let (accepts, later) ← world |>.follow engine now base (next reply)
      return (accepts, effects ++ later)
partial_fixpoint

/-- The reply to a question that a custom decision asks, and what is done on the way to it. -/
def consult (engine : Engine) (now : Nat) (world : World) (base : Validator)
    (question : Question) : Option (Reply × List Effect) :=
  match world.part? base question.way, question.inquiry with
  | none, _ => some (.nobody, [])
  | some part, .kind => some (.kind part.kind, [])
  | some part, .isDynamic => some (.isDynamic part.isDynamic, [])
  | some part, .issuers => do
      let snapshot ← world.snapshot? part
      return (.issuers snapshot.issuers, [])
  | some part, .partCount => some (.partCount (world.parts part).length, [])
  | some part, .verdict context => do
      let (verdict, effects) ← world |>.judge engine now part context
      return (.verdict verdict, effects)
partial_fixpoint

end

mutual

/-- The pool that certificates are added to: the first one that is come to, if there is one. -/
def findPool (world : World) (validator : Validator) : Option (Option Nat) :=
  match validator with
  | .base _ => some none
  | .composite members => world |>.findPoolAmong members
  | .inflatable number => some (some number)
  | .hotSwappable number => do world |>.findPool (← world.slots[number]?)
  | .enhanceable inner _ => world |>.findPool inner
  | .logging inner => world |>.findPool inner
  | .capturing _ inner => world |>.findPool inner
  | .trustAll => some none
  | .dummy => some none
partial_fixpoint

/-- The first pool that is come to in several validators. -/
def findPoolAmong (world : World) (members : List Validator) : Option (Option Nat) :=
  match members with
  | [] => some none
  | member :: rest => do
      match ← world |>.findPool member with
      | some number => return some number
      | none => world |>.findPoolAmong rest
partial_fixpoint

end

end PeerTrust.World
