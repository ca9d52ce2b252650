import PeerTrust.Proofs.Trust.Trees
import PeerTrust.Trust.Pool

/-!
# Verdicts at one moment

A snapshot has everything in it that a verdict depends on. So its verdicts, and the pool that it
adds to, are found by going through it as a tree, which comes to an end whatever custom decisions
ask on the way.
-/

namespace PeerTrust

/-- A snapshot as a custom decision on top of it sees it: it gives verdicts, and it is made of parts
of which the same is true. -/
structure Respondent where
  about : Snapshot
  validate : Context → Verdict × List Effect
  parts : List Respondent

namespace Snapshot

mutual

/-- Whether what is trusted can change. -/
def isDynamic : Snapshot → Bool
  | .base _ => false
  | .composite members => isAnyDynamic members
  | .inflatable _ _ _ => true
  | .hotSwappable _ _ => true
  | .enhanceable inner _ => isDynamic inner
  | .logging inner => isDynamic inner
  | .capturing _ inner => isDynamic inner
  | .trustAll => false
  | .dummy => false

/-- Whether what one of several validators trusts can change. -/
def isAnyDynamic : List Snapshot → Bool
  | [] => false
  | member :: rest => isDynamic member || isAnyDynamic rest

end

mutual

/-- The pool that certificates are added to: the first one that is reached. -/
def pool? : Snapshot → Option Nat
  | .base _ => none
  | .composite members => firstPool? members
  | .inflatable pool _ _ => some pool
  | .hotSwappable _ delegate => pool? delegate
  | .enhanceable inner _ => pool? inner
  | .logging inner => pool? inner
  | .capturing _ inner => pool? inner
  | .trustAll => none
  | .dummy => none

/-- The first pool that one of several validators reaches. -/
def firstPool? : List Snapshot → Option Nat
  | [] => none
  | member :: rest => (pool? member).or (firstPool? rest)

end

end Snapshot

namespace Respondent

/-- The part that a way leads to. -/
def part? (respondent : Respondent) : List Nat → Option Respondent
  | [] => some respondent
  | number :: way => respondent.parts[number]?.bind (part? · way)

/-- The reply to a question, and what is done on the way to it. -/
def consult (respondent : Respondent) (question : Question) : Reply × List Effect :=
  match respondent.part? question.way, question.inquiry with
  | none, _ => (.nobody, [])
  | some part, .kind => (.kind part.about.kind, [])
  | some part, .isDynamic => (.isDynamic part.about.isDynamic, [])
  | some part, .issuers => (.issuers part.about.issuers, [])
  | some part, .partCount => (.partCount part.parts.length, [])
  | some part, .verdict context =>
      let (verdict, effects) := part.validate context
      (.verdict verdict, effects)

/-- The verdict of the first of several that accepts a chain; if none does, the rejections of all of
them, `earlier` being those so far. -/
def validateAny : List Respondent → Context → List Rejection → Verdict × List Effect
  | [], _, earlier => (.error (.all earlier), [])
  | member :: rest, context, earlier =>
      match member.validate context with
      | (.ok (), effects) => (.ok (), effects)
      | (.error rejection, effects) =>
          let (verdict, later) := validateAny rest context (earlier ++ [rejection])
          (verdict, effects ++ later)

end Respondent

namespace Snapshot

section
variable (engine : Engine) (now : Nat)

mutual

/-- A snapshot with its verdicts and its parts. -/
def respondent : Snapshot → Respondent
  | .base anchored =>
      ⟨.base anchored, fun context => (anchored.validate engine now context, []), []⟩
  | .composite members =>
      let parts := respondents members
      ⟨.composite members, fun context => Respondent.validateAny parts context [], parts⟩
  | .inflatable pool published predicate =>
      ⟨.inflatable pool published predicate,
        fun context => (Pool.verdict engine now published predicate context, []), []⟩
  | .hotSwappable slot delegate =>
      let part := respondent delegate
      ⟨.hotSwappable slot delegate, part.validate, [part]⟩
  | .enhanceable inner none =>
      let part := respondent inner
      ⟨.enhanceable inner none, part.validate, [part]⟩
  | .enhanceable inner (some enhancer) =>
      let part := respondent inner
      let decide (context : Context) : Verdict × List Effect :=
        let (accepts, effects) := (enhancer context).resolve part.consult
        (if accepts then .ok () else .error .declined, effects)
      ⟨.enhanceable inner (some enhancer), decide, [part]⟩
  | .logging inner =>
      let part := respondent inner
      let validate (context : Context) : Verdict × List Effect :=
        let (verdict, effects) := part.validate context
        (verdict, effects ++ [.tell (.decided context inner.kind verdict)])
      ⟨.logging inner, validate, [part]⟩
  | .capturing collector inner =>
      let part := respondent inner
      let validate (context : Context) : Verdict × List Effect :=
        let (verdict, effects) := part.validate context
        (verdict, .record collector context.chain :: effects)
      ⟨.capturing collector inner, validate, [part]⟩
  | .trustAll => ⟨.trustAll, fun context => (.ok (), [.tell (.acceptedUnseen context)]), []⟩
  | .dummy => ⟨.dummy, fun _ => (.ok (), []), []⟩

/-- Several snapshots with their verdicts and their parts. -/
def respondents : List Snapshot → List Respondent
  | [] => []
  | member :: rest => respondent member :: respondents rest

end

/-- The verdict about a chain, and what is done on the way to it. -/
def validate (snapshot : Snapshot) (context : Context) : Verdict × List Effect :=
  (snapshot.respondent engine now).validate context

/-- The verdict of the first of several validators that accepts a chain; if none does, the
rejections of all of them, `earlier` being those so far. -/
def validateAny (members : List Snapshot) (context : Context) (earlier : List Rejection) :
    Verdict × List Effect :=
  Respondent.validateAny (respondents engine now members) context earlier

/-- The reply to a question, and what is done on the way to it. -/
def consult (snapshot : Snapshot) (question : Question) : Reply × List Effect :=
  (snapshot.respondent engine now).consult question

end

section
variable {engine : Engine} {now : Nat} {snapshot inner member : Snapshot} {members rest : List Snapshot}
  {context : Context} {earlier : List Rejection}

theorem validate_composite :
    validate engine now (.composite members) context = validateAny engine now members context [] :=
  rfl

theorem validate_enhanceable {enhancer : Enhancer} :
    validate engine now (.enhanceable inner (some enhancer)) context =
      let (accepts, effects) := (enhancer context).resolve (inner.consult engine now)
      (if accepts then .ok () else .error .declined, effects) := rfl

theorem validate_logging : validate engine now (.logging inner) context =
    let (verdict, effects) := inner.validate engine now context
    (verdict, effects ++ [.tell (.decided context inner.kind verdict)]) := rfl

theorem validate_capturing {collector : Nat} :
    validate engine now (.capturing collector inner) context =
      let (verdict, effects) := inner.validate engine now context
      (verdict, .record collector context.chain :: effects) := rfl

theorem validateAny_nil :
    validateAny engine now [] context earlier = (.error (.all earlier), []) := rfl

theorem validateAny_cons : validateAny engine now (member :: rest) context earlier =
    match member.validate engine now context with
    | (.ok (), effects) => (.ok (), effects)
    | (.error rejection, effects) =>
        let (verdict, later) := validateAny engine now rest context (earlier ++ [rejection])
        (verdict, effects ++ later) := rfl

/-- What is said about the verdict of a snapshot itself. -/
theorem consult_verdict : snapshot.consult engine now ⟨[], .verdict context⟩ =
    let (verdict, effects) := snapshot.validate engine now context
    (.verdict verdict, effects) := rfl

end

end Snapshot

end PeerTrust
