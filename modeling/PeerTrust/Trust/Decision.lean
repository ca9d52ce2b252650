/-!
# Decisions that consult

A decision is an answer, or a question to somebody else together with what follows from each reply.
Criteria describe decisions as data: they are composed of tests, of the reply of the one who is
consulted, and of the words not, all and any. Parts of a criterion are looked at from left to right,
and no further than necessary.
-/

namespace PeerTrust

/-- A decision that may ask questions on its way. -/
inductive Decision (Question Reply : Type) where
  | answer (accepts : Bool)
  | consult (question : Question) (next : Reply → Decision Question Reply)

namespace Decision

variable {Question Reply Event : Type}

/-- The answer of a decision, and what happened while its questions were replied to. -/
def resolve (reply : Question → Reply × List Event) :
    Decision Question Reply → Bool × List Event
  | .answer accepts => (accepts, [])
  | .consult question next =>
      let (replied, events) := reply question
      let (accepts, later) := resolve reply (next replied)
      (accepts, events ++ later)

end Decision

/-- A condition on what is decided about. -/
inductive Criterion (Test : Type) where
  | constant (value : Bool)
  /-- What the consulted one replies. -/
  | consulted
  | not (criterion : Criterion Test)
  | all (criteria : List (Criterion Test))
  | any (criteria : List (Criterion Test))
  | when (test : Test)

namespace Criterion

variable {Test Question Reply : Type}

mutual

/-- The decision that a criterion describes, and what follows from its outcome. The consulted one is
asked `question`, and `accepts` says what the reply means. -/
def thenDecide (passes : Test → Bool) (question : Question) (accepts : Reply → Bool) :
    Criterion Test → (Bool → Decision Question Reply) → Decision Question Reply
  | .constant value, next => next value
  | .consulted, next => .consult question fun reply => next (accepts reply)
  | .not criterion, next =>
      thenDecide passes question accepts criterion fun value => next (!value)
  | .all criteria, next => thenDecideList true passes question accepts criteria next
  | .any criteria, next => thenDecideList false passes question accepts criteria next
  | .when test, next => next (passes test)

/-- Decides by a list of criteria of which one after the other is looked at as long as their outcome
is `goOn`. -/
def thenDecideList (goOn : Bool) (passes : Test → Bool) (question : Question)
    (accepts : Reply → Bool) :
    List (Criterion Test) → (Bool → Decision Question Reply) → Decision Question Reply
  | [], next => next goOn
  | criterion :: rest, next =>
      thenDecide passes question accepts criterion fun value =>
        if value = goOn then thenDecideList goOn passes question accepts rest next else next value

end

/-- The decision that a criterion describes. -/
def decide (passes : Test → Bool) (question : Question) (accepts : Reply → Bool)
    (criterion : Criterion Test) : Decision Question Reply :=
  criterion.thenDecide passes question accepts .answer

mutual

/-- Whether a criterion holds where nobody can be consulted. -/
def holds (passes : Test → Bool) : Criterion Test → Bool
  | .constant value => value
  | .consulted => false
  | .not criterion => !holds passes criterion
  | .all criteria => holdsList true passes criteria
  | .any criteria => holdsList false passes criteria
  | .when test => passes test

/-- Goes through criteria as long as their outcome is `goOn`. -/
def holdsList (goOn : Bool) (passes : Test → Bool) : List (Criterion Test) → Bool
  | [] => goOn
  | criterion :: rest =>
      if holds passes criterion = goOn then holdsList goOn passes rest else holds passes criterion

end

end Criterion

end PeerTrust
