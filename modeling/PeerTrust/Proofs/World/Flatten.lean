import PeerTrust.Proofs.Trust.Flatten
import PeerTrust.Proofs.World.AnyOf
import PeerTrust.Proofs.World.Layers
import PeerTrust.Proofs.World.Run

/-!
# Composites and their members in a world

Asking several validators in turn means to validate with one after the other, each in the world that
the one before leaves, until one of them accepts. A composite does so at one moment, with the
contents of pools and slots as they are at the start; but nothing that a validation does changes
those. So a composite, the composite of its members taken apart, and the members in turn come to the
same, in the verdict with its reasons and in all that is left behind. -/

namespace PeerTrust.World

/-- Asks validators in turn until one accepts, and gathers the reasons of those before it. -/
def askInTurn (engine : Engine) (now : Nat) (context : Context) :
    List Validator → Action (Except (List Rejection) Unit)
  | [] => return .error []
  | member :: rest => do
      match ← validate engine now member context with
      | .ok () => return .ok ()
      | .error rejection =>
          let later ← askInTurn engine now context rest
          return later.mapError (rejection.reasons ++ ·)

section
variable {engine : Engine} {now : Nat} {world : World} {context : Context}

/-- A verdict is the same after a validation. -/
theorem judge_applyAll (effects : List Effect) (validator : Validator) :
    (world.applyAll effects).judge engine now validator context =
      world.judge engine now validator context := by
  obtain ⟨hslots, hpools, -⟩ := world.applyAll_kept effects
  exact judge_congr hpools hslots engine now validator context

theorem applyAll_append (first second : List Effect) :
    world.applyAll (first ++ second) = (world.applyAll first).applyAll second :=
  List.foldl_append

/-- What a validation comes to, if it comes to an end. -/
def validation? (engine : Engine) (now : Nat) (world : World) (context : Context)
    (validator : Validator) : Option Validation :=
  (world.judge engine now validator context).map .ofJudged

/-- A validation gives the verdict that it comes to, and leaves behind what is done on the way. -/
theorem inReasons_validate_perform (validator : Validator) :
    (Verdict.inReasons <$> validate engine now validator context).perform world =
      (world.validation? engine now context validator).map fun found =>
        (.ok found.verdict, world.applyAll found.effects) := by
  rw [Action.perform_map, validate_perform, validation?]
  cases world.judge engine now validator context <;> rfl

theorem inReasons_validate_of_snapshot {validator : Validator} {snapshot : Snapshot}
    (hsnapshot : world.snapshot? validator = some snapshot) :
    (Verdict.inReasons <$> validate engine now validator context).perform world =
      some (.ok (snapshot.verdict engine now context).inReasons,
        world.applyAll (snapshot.validate engine now context).2) := by
  rw [Action.perform_map, validate_perform_of_snapshot hsnapshot]
  rfl

/-- Several validators come to what each of them comes to in turn, behind what was rejected before.
-/
theorem judgeAny_inTurn (members : List Validator) (earlier : List Rejection) :
    (world.judgeAny engine now members context earlier).map Validation.ofJudged =
      (Validation.inTurn (members.map (world.validation? engine now context))).map
        fun found => found.behind (Rejection.reasonsOfAll earlier) [] := by
  induction members generalizing earlier with
  | nil =>
    rw [judgeAny, List.map_nil, Validation.inTurn_nil, Option.map_some, Option.map_some,
      Validation.unasked, Validation.behind_of_error, List.append_nil]
    rfl
  | cons member rest ih =>
    rw [judgeAny, List.map_cons, Validation.inTurn_cons, validation?]
    cases world.judge engine now member context with
    | none => rfl
    | some judged =>
      obtain ⟨verdict, effects⟩ := judged
      cases verdict with
      | ok accepted => rfl
      | error rejection =>
        have hlater (later : Option (Verdict × List Effect)) :
            (later.bind fun last => some (last.1, effects ++ last.2)).map Validation.ofJudged =
              (later.map Validation.ofJudged).map (·.behind [] effects) := by
          cases later with
          | none => rfl
          | some last => obtain ⟨_ | ⟨⟨⟩⟩, done⟩ := last <;> rfl
        refine (hlater _).trans ?_
        rw [ih, Option.map_some, Option.bind_some, Validation.ofJudged, Verdict.inReasons]
        change _ = ((Validation.inTurn _).map (·.behind rejection.reasons effects)).map _
        rw [Option.map_map, Option.map_map]
        congr 1
        funext last
        simp [Validation.behind_behind, Rejection.reasonsOfAll_append, Rejection.reasonsOfAll]

/-- A composite comes to what its members come to in turn. -/
theorem validation?_composite (members : List Validator) :
    world.validation? engine now context (.composite members) =
      Validation.inTurn (members.map (world.validation? engine now context)) := by
  rw [validation?, judge, judgeAny_inTurn]
  cases Validation.inTurn (members.map (world.validation? engine now context)) with
  | none => rfl
  | some found => exact congrArg some found.behind_nothing

/-- If each of several validators comes to what it is taken apart into comes to in turn, so do all of
them. -/
theorem inTurn_flattenAll {members : List Validator} (hmembers : ∀ member ∈ members,
      Validation.inTurn (member.flatten.map (world.validation? engine now context)) =
        world.validation? engine now context member) :
    Validation.inTurn ((Validator.flattenAll members).map (world.validation? engine now context)) =
      Validation.inTurn (members.map (world.validation? engine now context)) := by
  induction members with
  | nil => rfl
  | cons member rest ih =>
    obtain ⟨hmember, hrest⟩ := List.forall_mem_cons.mp hmembers
    rw [Validator.flattenAll, List.map_append, Validation.inTurn_append, hmember, ih hrest,
      List.map_cons, Validation.inTurn_cons]

/-- A validator comes to what it is taken apart into comes to in turn. -/
theorem inTurn_flatten (validator : Validator) :
    Validation.inTurn (validator.flatten.map (world.validation? engine now context)) =
      world.validation? engine now context validator := by
  induction validator with
  | composite members ih =>
    rw [Validator.flatten, inTurn_flattenAll ih, validation?_composite]
  | _ => exact Validation.inTurn_singleton _

/-- Validators that are asked in turn come to the same as together, also where others were asked
before. -/
theorem askInTurn_perform (members : List Validator) (earlier : List Effect) :
    (askInTurn engine now context members).perform (world.applyAll earlier) =
      (Validation.inTurn (members.map (world.validation? engine now context))).map fun found =>
        (.ok found.verdict, world.applyAll (earlier ++ found.effects)) := by
  induction members generalizing earlier with
  | nil =>
    rw [List.map_nil, Validation.inTurn_nil, Option.map_some, applyAll_append]
    rfl
  | cons member rest ih =>
    rw [askInTurn, Action.perform_bind, validate_perform, judge_applyAll, List.map_cons,
      Validation.inTurn_cons, validation?]
    cases world.judge engine now member context with
    | none => rfl
    | some judged =>
      obtain ⟨verdict, effects⟩ := judged
      dsimp only [Option.map_some, Option.bind_some]
      rw [← applyAll_append]
      cases verdict with
      | ok accepted => rfl
      | error rejection =>
        dsimp only
        rw [Action.perform_bind, ih (earlier ++ effects)]
        dsimp only [Validation.ofJudged, Verdict.inReasons, Except.mapError]
        rw [Validation.orElse_of_error]
        cases Validation.inTurn (rest.map (world.validation? engine now context)) with
        | none => rfl
        | some found =>
          dsimp only [Option.map_some, Option.bind_some]
          rw [List.append_assoc]
          rfl

end

/-- **Taking composites apart.** No member of the composite of validators is a composite. Whatever
the world, a validation of it gives the same verdict with the same reasons as one of the validators
as they are, leaves the same world behind with all that is logged and recorded, and it trusts the
same certificates. It comes to what the validators come to that are asked in turn. Where nothing
holds itself, the validation returns. -/
theorem ofMembers_validates_alike (members : List Validator) :
    (∃ parts, Validator.ofMembers members = .composite parts ∧
      ∀ part ∈ parts, part.kind ≠ .composite) ∧
    ∀ (engine : Engine) (now : Nat) (context : Context) (world : World),
      (Verdict.inReasons <$> validate engine now (.ofMembers members) context).perform world =
        (Verdict.inReasons <$> validate engine now (.composite members) context).perform world ∧
      (Verdict.inReasons <$> validate engine now (.ofMembers members) context).perform world =
        (askInTurn engine now context members).perform world ∧
      (world.snapshot? (.ofMembers members)).map Snapshot.issuers =
        (world.snapshot? (.composite members)).map Snapshot.issuers ∧
      (world.Covers (.composite members) → world.Acyclic (.composite members) →
        ∃ verdict after, (askInTurn engine now context members).perform world =
            some (.ok verdict, after) ∧
          (Verdict.inReasons <$> validate engine now (.ofMembers members) context).perform world =
            some (.ok verdict, after)) := by
  refine ⟨⟨_, rfl, fun part => Validator.kind_ne_composite_of_mem_flattenAll⟩, ?_⟩
  intro engine now context world
  have hsame :
      (Verdict.inReasons <$> validate engine now (.ofMembers members) context).perform world =
        (Verdict.inReasons <$> validate engine now (.composite members) context).perform world := by
    rw [inReasons_validate_perform, inReasons_validate_perform, Validator.ofMembers,
      validation?_composite, validation?_composite,
      inTurn_flattenAll fun member _ => inTurn_flatten member]
  have hturn :
      (Verdict.inReasons <$> validate engine now (.ofMembers members) context).perform world =
        (askInTurn engine now context members).perform world := by
    rw [hsame, inReasons_validate_perform, validation?_composite]
    exact (askInTurn_perform members []).symm
  have hissuers : (world.snapshot? (.ofMembers members)).map Snapshot.issuers =
      (world.snapshot? (.composite members)).map Snapshot.issuers := by
    obtain ⟨slot, hsnapshot⟩ := world.snapshot?_eq
    rw [hsnapshot, hsnapshot, Validator.ofMembers_snapshotWith]
  refine ⟨hsame, hturn, hissuers, fun hcovers hacyclic => ?_⟩
  obtain ⟨snapshot, hsnapshot⟩ := exists_snapshot hcovers hacyclic
  have hreturns := @inReasons_validate_of_snapshot engine now world context _ snapshot hsnapshot
  exact ⟨_, _, hturn.symm.trans (hsame.trans hreturns), hsame.trans hreturns⟩

/-- A composite inside of another one with an empty one before it, one behind logging, and one that
is recorded. -/
def nestedMembers : List Validator :=
  [.composite [.composite [], slotOrDeclining], .logging slotOrDeclining,
    .capturing 0 (.composite [.dummy])]

/-- A world with an empty collector and a slot that has no anchors. -/
def slotAndCollector : World := { oneSlot (.base ⟨[], []⟩) with collectors := [[]] }

theorem slotAndCollector_covers : slotAndCollector.Covers (.composite nestedMembers) := by
  have hslot : slotAndCollector.Covers (.hotSwappable 0) :=
    covers_hotSwappable rfl (covers_base _)
  have hinner : slotAndCollector.Covers slotOrDeclining :=
    covers_composite (List.forall_mem_cons.mpr ⟨covers_logging hslot,
      List.forall_mem_singleton.mpr (covers_enhanceable covers_dummy _)⟩)
  have hfirst : slotAndCollector.Covers (.composite [.composite [], slotOrDeclining]) :=
    covers_composite (List.forall_mem_cons.mpr ⟨covers_composite (List.forall_mem_nil _),
      List.forall_mem_singleton.mpr hinner⟩)
  have hlast : slotAndCollector.Covers (.capturing 0 (.composite [.dummy])) :=
    covers_capturing Nat.zero_lt_one
      (covers_composite (List.forall_mem_singleton.mpr covers_dummy))
  exact covers_composite (List.forall_mem_cons.mpr ⟨hfirst, List.forall_mem_cons.mpr
    ⟨covers_logging hinner, List.forall_mem_singleton.mpr hlast⟩⟩)

/-- Taken apart, they log three rejections and record the chain before the last one accepts. -/
theorem ofMembers_nestedMembers : ∃ after,
    (Verdict.inReasons <$> validate .paths 0 (.ofMembers nestedMembers)
      (.ofChain .client [⟨[7]⟩])).perform slotAndCollector = some (.ok (.ok ()), after) ∧
    after.log.length = 3 ∧ after.collectors = [[⟨[7]⟩]] := by
  have hacyclic : slotAndCollector.Acyclic (.composite nestedMembers) :=
    acyclic_of_snapshotWithin (rfl : (slotAndCollector.snapshot? _).isSome)
  obtain ⟨-, -, -, hreturns⟩ := (ofMembers_validates_alike nestedMembers).2 .paths 0
    (.ofChain .client [⟨[7]⟩]) slotAndCollector
  obtain ⟨verdict, after, -, hsame⟩ := hreturns slotAndCollector_covers hacyclic
  have hgiven := (inReasons_validate_of_snapshot rfl).symm.trans hsame
  cases hgiven
  exact ⟨_, hsame, rfl, rfl⟩

end PeerTrust.World
