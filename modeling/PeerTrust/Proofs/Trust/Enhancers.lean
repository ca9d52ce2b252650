import PeerTrust.Proofs.Trust.Verdicts

/-!
# Custom decisions

A custom decision may ask anything about the validator that it enhances. One that makes use of
nothing but the verdicts of that validator comes to the same answer where these are the same,
whatever else the validator is like.
-/

namespace PeerTrust

/-- A decision that makes use of nothing but verdicts of the validator itself. If it asks anything
else, it goes on in the same way whatever the reply is. -/
inductive Decision.SeesVerdictsOnly : Decision Question Reply → Prop
  | answer (accepts : Bool) : SeesVerdictsOnly (.answer accepts)
  | verdict {next : Reply → Decision Question Reply} (context : Context)
      (hnext : ∀ verdict, SeesVerdictsOnly (next (.verdict verdict))) :
      SeesVerdictsOnly (.consult ⟨[], .verdict context⟩ next)
  | unheard {question : Question} {next : Reply → Decision Question Reply}
      (hquestion : ∀ context, question.inquiry ≠ .verdict context)
      (hsame : ∀ reply other, next reply = next other)
      (hnext : ∀ reply, SeesVerdictsOnly (next reply)) :
      SeesVerdictsOnly (.consult question next)

/-- A custom decision that depends on what it enhances through nothing but its verdicts. -/
def Enhancer.SeesVerdictsOnly (enhancer : Enhancer) : Prop :=
  ∀ context, (enhancer context).SeesVerdictsOnly

/-- Nothing is done on the way to a reply that is no verdict. -/
theorem Snapshot.consult_silent {engine : Engine} {now : Nat} {snapshot : Snapshot}
    {question : Question} (hquestion : ∀ context, question.inquiry ≠ .verdict context) :
    (snapshot.consult engine now question).2 = [] := by
  rw [consult, Respondent.consult]
  split
  · rfl
  · rfl
  · rfl
  · rfl
  · rfl
  · exact absurd ‹_› (hquestion _)

/-- Where the verdicts of two validators are the same, and what is done on the way to them is the
same up to what is dropped, a decision that sees nothing else comes to the same with both. -/
theorem Decision.SeesVerdictsOnly.resolve_eq {engine : Engine} {now : Nat} {keeps : Effect → Bool}
    {snapshot other : Snapshot}
    (hverdicts : ∀ context, other.validate engine now context =
      ((snapshot.validate engine now context).1,
        (snapshot.validate engine now context).2.filter keeps))
    {decision : Decision Question Reply} (hsees : decision.SeesVerdictsOnly) :
    decision.resolve (other.consult engine now) =
      ((decision.resolve (snapshot.consult engine now)).1,
        (decision.resolve (snapshot.consult engine now)).2.filter keeps) := by
  induction hsees with
  | answer accepts => rfl
  | verdict context hnext ih =>
    rw [resolve, resolve, Snapshot.consult_verdict, Snapshot.consult_verdict, hverdicts]
    dsimp only
    rw [ih, List.filter_append]
  | @unheard question next hquestion hsame hnext ih =>
    have hreply := hsame (other.consult engine now question).1
      (snapshot.consult engine now question).1
    have hsilent : (snapshot.consult engine now question).2 = [] :=
      Snapshot.consult_silent hquestion
    have hsilentOther : (other.consult engine now question).2 = [] :=
      Snapshot.consult_silent hquestion
    rw [resolve, resolve]
    dsimp only
    rw [hreply, ih, hsilent, hsilentOther, List.nil_append, List.nil_append]

/-- The custom decision that a validator makes. -/
def Validator.enhancer? : Validator → Option Enhancer
  | .enhanceable _ enhancer => enhancer
  | _ => none

namespace Snapshot

mutual

/-- The custom decisions in a validator, at any depth. -/
def enhancers : Snapshot → List Enhancer
  | .base _ => []
  | .composite members => enhancersOfAll members
  | .inflatable _ _ _ => []
  | .hotSwappable _ delegate => enhancers delegate
  | .enhanceable inner none => enhancers inner
  | .enhanceable inner (some enhancer) => enhancer :: enhancers inner
  | .logging inner => enhancers inner
  | .capturing _ inner => enhancers inner
  | .trustAll => []
  | .dummy => []

/-- The custom decisions in several validators. -/
def enhancersOfAll : List Snapshot → List Enhancer
  | [] => []
  | member :: rest => enhancers member ++ enhancersOfAll rest

end

theorem mem_enhancersOfAll {members : List Snapshot} {enhancer : Enhancer} :
    enhancer ∈ enhancersOfAll members ↔ ∃ member ∈ members, enhancer ∈ member.enhancers := by
  induction members with
  | nil => simp [enhancersOfAll]
  | cons member rest ih => simp [enhancersOfAll, ih]

end Snapshot

end PeerTrust
