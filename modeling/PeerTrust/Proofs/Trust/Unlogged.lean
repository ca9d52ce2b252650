import PeerTrust.Proofs.Trust.Enhancers

/-!
# Validators without logging

Logging may be taken out of a validator, wherever it stands. The shapes of the validators around it
change by that, and nothing else: the issuers and the pool stay the same, and so does every verdict,
if custom decisions look at nothing but the verdicts of what they enhance. What a validation does on
its way is the same up to the decisions that were logged.
-/

namespace PeerTrust

namespace Validator

mutual

/-- A validator with what is logged in the place of the logging. -/
def withoutLogging : Validator → Validator
  | .base anchored => .base anchored
  | .composite members => .composite (withoutLoggingAll members)
  | .inflatable pool => .inflatable pool
  | .hotSwappable slot => .hotSwappable slot
  | .enhanceable inner enhancer => .enhanceable (withoutLogging inner) enhancer
  | .logging inner => withoutLogging inner
  | .capturing collector inner => .capturing collector (withoutLogging inner)
  | .trustAll => .trustAll
  | .dummy => .dummy

/-- Several validators without logging. -/
def withoutLoggingAll : List Validator → List Validator
  | [] => []
  | member :: rest => withoutLogging member :: withoutLoggingAll rest

end

section
variable {validator child : Validator} {members : List Validator}

theorem withoutLoggingAll_eq_map (members : List Validator) :
    withoutLoggingAll members = members.map withoutLogging := by
  induction members with
  | nil => rfl
  | cons member rest ih => rw [withoutLoggingAll, ih, List.map_cons]

theorem kind_withoutLogging (validator : Validator) : validator.withoutLogging.kind ≠ .logging := by
  induction validator with
  | logging inner ih => exact ih
  | _ => exact nofun

theorem isAnyDynamic_withoutLoggingAll
    (hmembers : ∀ member ∈ members, member.withoutLogging.isDynamic = member.isDynamic) :
    isAnyDynamic (withoutLoggingAll members) = isAnyDynamic members := by
  induction members with
  | nil => rfl
  | cons member rest ih =>
    obtain ⟨hmember, hrest⟩ := List.forall_mem_cons.mp hmembers
    rw [withoutLoggingAll, isAnyDynamic, isAnyDynamic, hmember, ih hrest]

/-- Whether what is trusted can change does not depend on logging. -/
theorem isDynamic_withoutLogging (validator : Validator) :
    validator.withoutLogging.isDynamic = validator.isDynamic := by
  induction validator with
  | composite members ih => exact isAnyDynamic_withoutLoggingAll ih
  | enhanceable inner enhancer ih => exact ih
  | logging inner ih => exact ih
  | capturing collector inner ih => exact ih
  | _ => rfl

end

end Validator

namespace Snapshot

mutual

/-- A snapshot with what is logged in the place of the logging. -/
def withoutLogging : Snapshot → Snapshot
  | .base anchored => .base anchored
  | .composite members => .composite (withoutLoggingAll members)
  | .inflatable pool published predicate => .inflatable pool published predicate
  | .hotSwappable slot delegate => .hotSwappable slot (withoutLogging delegate)
  | .enhanceable inner enhancer => .enhanceable (withoutLogging inner) enhancer
  | .logging inner => withoutLogging inner
  | .capturing collector inner => .capturing collector (withoutLogging inner)
  | .trustAll => .trustAll
  | .dummy => .dummy

/-- Several snapshots without logging. -/
def withoutLoggingAll : List Snapshot → List Snapshot
  | [] => []
  | member :: rest => withoutLogging member :: withoutLoggingAll rest

end

section
variable {members : List Snapshot}

theorem issuersOfAll_withoutLoggingAll (known : List Certificate)
    (hmembers : ∀ member ∈ members, member.withoutLogging.issuers = member.issuers) :
    issuersOfAll known (withoutLoggingAll members) = issuersOfAll known members := by
  induction members generalizing known with
  | nil => rfl
  | cons member rest ih =>
    obtain ⟨hmember, hrest⟩ := List.forall_mem_cons.mp hmembers
    rw [withoutLoggingAll, issuersOfAll, issuersOfAll, hmember, ih _ hrest]

theorem issuers_withoutLogging (snapshot : Snapshot) :
    snapshot.withoutLogging.issuers = snapshot.issuers := by
  induction snapshot with
  | composite members ih => exact issuersOfAll_withoutLoggingAll [] ih
  | hotSwappable slot delegate ih => exact ih
  | enhanceable inner enhancer ih => exact ih
  | logging inner ih => exact ih
  | capturing collector inner ih => exact ih
  | _ => rfl

theorem firstPool?_withoutLoggingAll
    (hmembers : ∀ member ∈ members, member.withoutLogging.pool? = member.pool?) :
    firstPool? (withoutLoggingAll members) = firstPool? members := by
  induction members with
  | nil => rfl
  | cons member rest ih =>
    obtain ⟨hmember, hrest⟩ := List.forall_mem_cons.mp hmembers
    rw [withoutLoggingAll, firstPool?, firstPool?, hmember, ih hrest]

theorem pool?_withoutLogging (snapshot : Snapshot) :
    snapshot.withoutLogging.pool? = snapshot.pool? := by
  induction snapshot with
  | composite members ih => exact firstPool?_withoutLoggingAll ih
  | hotSwappable slot delegate ih => exact ih
  | enhanceable inner enhancer ih => exact ih
  | logging inner ih => exact ih
  | capturing collector inner ih => exact ih
  | _ => rfl

end

end Snapshot

/-- Whether an effect is to tell the log what a validator decided. -/
def Effect.isDecision : Effect → Bool
  | .tell (.decided _ _ _) => true
  | _ => false

/-- What is done apart from logging decisions. -/
def withoutDecisions (effects : List Effect) : List Effect :=
  effects.filter fun effect => !effect.isDecision

namespace Snapshot

section
variable {engine : Engine} {now : Nat} {members : List Snapshot} {context : Context}

/-- Members that decide alike without logging come to the same in turn. -/
theorem validateAny_withoutLoggingAll
    (hmembers : ∀ member ∈ members, member.withoutLogging.validate engine now context =
      ((member.validate engine now context).1,
        withoutDecisions (member.validate engine now context).2))
    (earlier : List Rejection) :
    validateAny engine now (withoutLoggingAll members) context earlier =
      ((validateAny engine now members context earlier).1,
        withoutDecisions (validateAny engine now members context earlier).2) := by
  induction members generalizing earlier with
  | nil => rfl
  | cons member rest ih =>
    obtain ⟨hmember, hrest⟩ := List.forall_mem_cons.mp hmembers
    rw [withoutLoggingAll, validateAny_cons, validateAny_cons, hmember]
    rcases member.validate engine now context with ⟨rejection | ⟨⟨⟩⟩, effects⟩
    · dsimp only
      rw [ih hrest, withoutDecisions, withoutDecisions, withoutDecisions, List.filter_append]
    · rfl

/-- **Logging is transparent.** Without logging, a validation gives the same verdict and does the
same apart from logging decisions. -/
theorem validate_withoutLogging {snapshot : Snapshot}
    (henhancers : ∀ enhancer ∈ snapshot.enhancers, enhancer.SeesVerdictsOnly) (context : Context) :
    snapshot.withoutLogging.validate engine now context =
      ((snapshot.validate engine now context).1,
        withoutDecisions (snapshot.validate engine now context).2) := by
  induction snapshot generalizing context with
  | base anchored => rfl
  | composite members ih =>
    refine validateAny_withoutLoggingAll (fun member hmem => ih member hmem ?_ context) []
    exact fun enhancer h => henhancers enhancer (mem_enhancersOfAll.mpr ⟨member, hmem, h⟩)
  | inflatable pool published predicate => rfl
  | hotSwappable slot delegate ih => exact ih henhancers context
  | enhanceable inner enhancer ih =>
    cases enhancer with
    | none => exact ih henhancers context
    | some enhancer =>
      obtain ⟨hsees, hinner⟩ := List.forall_mem_cons.mp henhancers
      -- The decision consults the same validator without its logging, maybe about other contexts.
      rw [withoutLogging, validate_enhanceable, validate_enhanceable,
        (hsees context).resolve_eq (ih hinner)]
      rfl
  | logging inner ih =>
    rw [withoutLogging, ih henhancers context, validate_logging]
    dsimp only
    rw [withoutDecisions, withoutDecisions, List.filter_append]
    simp [Effect.isDecision]
  | capturing collector inner ih =>
    rw [withoutLogging, validate_capturing, validate_capturing, ih henhancers context]
    rfl
  | trustAll => rfl
  | dummy => rfl

end

end Snapshot

namespace Validator

section
variable {pool slot : Nat → Option Snapshot}

theorem snapshotsWith_withoutLogging {quiet : Nat → Option Snapshot} {members : List Validator}
    (hmembers : ∀ member ∈ members, member.withoutLogging.snapshotWith pool quiet =
      (member.snapshotWith pool slot).map Snapshot.withoutLogging) :
    snapshotsWith pool quiet (withoutLoggingAll members) =
      (snapshotsWith pool slot members).map Snapshot.withoutLoggingAll := by
  induction members with
  | nil => rfl
  | cons member rest ih =>
    obtain ⟨hmember, hrest⟩ := List.forall_mem_cons.mp hmembers
    rw [withoutLoggingAll, snapshotsWith, snapshotsWith, hmember, ih hrest]
    cases member.snapshotWith pool slot with
    | none => rfl
    | some first => cases snapshotsWith pool slot rest <;> rfl

/-- The snapshot of a validator without logging is the one of the validator, without logging. -/
theorem snapshotWith_withoutLogging
    (hpool : ∀ number, (pool number).map Snapshot.withoutLogging = pool number)
    (validator : Validator) :
    validator.withoutLogging.snapshotWith pool
        (fun number => (slot number).map Snapshot.withoutLogging) =
      (validator.snapshotWith pool slot).map Snapshot.withoutLogging := by
  induction validator with
  | base anchored => rfl
  | composite members ih =>
    rw [withoutLogging, snapshotWith, snapshotWith, snapshotsWith_withoutLogging ih, Option.map_map,
      Option.map_map]
    rfl
  | inflatable number => exact (hpool number).symm
  | hotSwappable number =>
    rw [withoutLogging, snapshotWith, snapshotWith, Option.map_map, Option.map_map]
    rfl
  | enhanceable inner enhancer ih =>
    rw [withoutLogging, snapshotWith, snapshotWith, ih, Option.map_map, Option.map_map]
    rfl
  | logging inner ih =>
    rw [withoutLogging, snapshotWith, ih, Option.map_map]
    rfl
  | capturing collector inner ih =>
    rw [withoutLogging, snapshotWith, snapshotWith, ih, Option.map_map, Option.map_map]
    rfl
  | trustAll => rfl
  | dummy => rfl

end

end Validator

end PeerTrust
