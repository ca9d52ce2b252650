import PeerTrust.Trust.Base
import PeerTrust.Trust.Decision

/-!
# Validators

A validator is a policy about chains, made of simpler ones. Pools, slots and collectors can change
while validators refer to them, so they are named by numbers and their contents are kept elsewhere.
-/

namespace PeerTrust

/-- What can be asked about a validator. -/
inductive Inquiry where
  | kind
  /-- Whether what is trusted can change. -/
  | isDynamic
  | issuers
  /-- The number of validators that it is made of. -/
  | partCount
  | verdict (context : Context)

/-- A question about the validator that a way leads to. The way begins at some validator, and each
step of it is the number of a part to go on from. -/
structure Question where
  way : List Nat
  inquiry : Inquiry

/-- What is said about a validator. -/
inductive Reply where
  | kind (kind : Kind)
  | isDynamic (value : Bool)
  | issuers (certificates : List Certificate)
  | partCount (count : Nat)
  | verdict (verdict : Verdict)
  /-- The way leads to no validator. -/
  | nobody

namespace Reply

/-- The kind that a reply tells. -/
def kind? : Reply → Option Kind
  | .kind told => some told
  | _ => none

/-- Whether a reply is a verdict that accepts. -/
def isTrusted : Reply → Bool
  | .verdict told => told.isTrusted
  | _ => false

end Reply

/-- A custom decision about a chain. It may ask anything about the validator that it enhances, and
about all validators that this one is made of. -/
abbrev Enhancer := Context → Decision Question Reply

/-- A policy about chains. -/
inductive Validator where
  /-- Chains that lead to fixed anchors. -/
  | base (anchored : Base)
  /-- Chains that one of several validators accepts. -/
  | composite (members : List Validator)
  /-- Chains that lead to the anchors of a pool. -/
  | inflatable (pool : Nat)
  /-- Chains that the validator in a slot accepts. -/
  | hotSwappable (slot : Nat)
  /-- A custom decision on top of a validator. -/
  | enhanceable (inner : Validator) (enhancer : Option Enhancer)
  /-- A validator whose decisions are logged. -/
  | logging (inner : Validator)
  /-- A validator whose chains are recorded in a collector. -/
  | capturing (collector : Nat) (inner : Validator)
  /-- Every chain; the log is told. -/
  | trustAll
  /-- Every chain. -/
  | dummy

namespace Validator

/-- The kind of a validator. -/
def kind : Validator → Kind
  | .base _ => .base
  | .composite _ => .composite
  | .inflatable _ => .inflatable
  | .hotSwappable _ => .hotSwappable
  | .enhanceable _ _ => .enhanceable
  | .logging _ => .logging
  | .capturing _ _ => .capturing
  | .trustAll => .trustAll
  | .dummy => .dummy

/-- Whether a validator accepts everything by itself. -/
def acceptsAll : Validator → Bool
  | .trustAll => true
  | .dummy => true
  | _ => false

mutual

/-- Whether what is trusted can change. -/
def isDynamic : Validator → Bool
  | .base _ => false
  | .composite members => isAnyDynamic members
  | .inflatable _ => true
  | .hotSwappable _ => true
  | .enhanceable inner _ => isDynamic inner
  | .logging inner => isDynamic inner
  | .capturing _ inner => isDynamic inner
  | .trustAll => false
  | .dummy => false

/-- Whether what one of several validators trusts can change. -/
def isAnyDynamic : List Validator → Bool
  | [] => false
  | member :: rest => isDynamic member || isAnyDynamic rest

end

mutual

/-- A validator in a list of its own, and a composite as its members, which are taken apart in the
same way. -/
def flatten : Validator → List Validator
  | .composite members => flattenAll members
  | .base anchored => [.base anchored]
  | .inflatable pool => [.inflatable pool]
  | .hotSwappable slot => [.hotSwappable slot]
  | .enhanceable inner enhancer => [.enhanceable inner enhancer]
  | .logging inner => [.logging inner]
  | .capturing collector inner => [.capturing collector inner]
  | .trustAll => [.trustAll]
  | .dummy => [.dummy]

/-- Validators one after the other, composites being taken apart. -/
def flattenAll : List Validator → List Validator
  | [] => []
  | member :: rest => flatten member ++ flattenAll rest

end

/-- The composite of validators, none of whose members is a composite. -/
def ofMembers (members : List Validator) : Validator := .composite (flattenAll members)

/-- The validator that records chains and accepts them, unless another one is given to decide. -/
def recording (collector : Nat) (inner : Option Validator) : Validator :=
  .capturing collector (inner.getD .trustAll)

/-- The first validator that accepts everything and tells the log, or else the first that accepts
everything. -/
def firstAcceptingAll? (validators : List Validator) : Option Validator :=
  (validators.find? (·.kind == .trustAll)).or (validators.find? (·.kind == .dummy))

/-- A single validator as it is, and several as a composite. -/
def unite : List Validator → Validator
  | [single] => single
  | validators => ofMembers validators

/-- What is told to the log when a validator that accepts everything takes the place of others. -/
def promotionEvents (validators : List Validator) : List Event :=
  match firstAcceptingAll? validators with
  | some accepting =>
      if 1 < validators.length then [.promoted accepting.kind (validators.length - 1)] else []
  | none => []

/-- Makes one validator of several: one that accepts everything takes the place of all others. -/
def combine (validators : List Validator) : Except TrustError Validator :=
  match validators with
  | [] => .error .noSources
  | _ => .ok ((firstAcceptingAll? validators).getD (unite validators))

end Validator

end PeerTrust
