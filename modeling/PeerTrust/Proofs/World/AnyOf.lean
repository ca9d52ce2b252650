import PeerTrust.Proofs.Trust.Leaves
import PeerTrust.Proofs.World.Judgement
import PeerTrust.Proofs.World.Parts

/-!
# Validating in a world

What the leaves of a validator decide is what a validation gives, in every world in which the parts
of the validator are there and no slot that it reaches holds itself.
-/

namespace PeerTrust.World

/-- A slot whose validator has fixed anchors does not hold itself. -/
theorem not_holdsItself_of_base {world : World} {slot : Nat} {anchored : Base}
    (hslot : world.slots[slot]? = some (.base anchored)) : ¬ world.HoldsItself slot := by
  rintro ⟨delegate, hdelegate, hback⟩
  rw [hslot] at hdelegate
  cases hdelegate
  cases Validator.eq_of_base_reaches hback

/-- The verdict of a validation is that of the snapshot. -/
theorem validate_perform_of_snapshot {world : World} {validator : Validator} {snapshot : Snapshot}
    (hsnapshot : world.snapshot? validator = some snapshot) (engine : Engine) (now : Nat)
    (context : Context) : (validate engine now validator context).perform world =
      some (.ok (snapshot.verdict engine now context),
        world.applyAll (snapshot.validate engine now context).2) := by
  rw [validate_perform, judge_of_snapshot hsnapshot]
  rfl

/-- **Any-of.** A validation returns. It accepts a chain exactly if one of the leaves of the
validator does, and otherwise its reasons are the rejections of all leaves in their order, none of
which is the rejection of several validators. -/
theorem validate_anyOf_leaves {engine : Engine} {now : Nat} {world : World} {validator : Validator}
    (hcovers : world.Covers validator) (hacyclic : world.Acyclic validator) (context : Context) :
    ∃ snapshot verdict after, world.snapshot? validator = some snapshot ∧
      (validate engine now validator context).perform world = some (.ok verdict, after) ∧
      (verdict = .ok () ↔ ∃ leaf ∈ snapshot.leaves, leaf.verdict engine now context = .ok ()) ∧
      ∀ rejection, verdict = .error rejection →
        snapshot.leaves.map (fun leaf => leaf.verdict engine now context) =
          rejection.reasons.map .error ∧
        ∀ reason ∈ rejection.reasons, ∀ parts, reason ≠ .all parts := by
  obtain ⟨snapshot, hsnapshot⟩ := exists_snapshot hcovers hacyclic
  have hanyOf : (snapshot.verdict engine now context).IsAnyOf _ :=
    snapshot.verdict_isAnyOf_leaves context
  refine ⟨snapshot, snapshot.verdict engine now context,
    world.applyAll (snapshot.validate engine now context).2, hsnapshot,
    validate_perform_of_snapshot hsnapshot engine now context, ?_, ?_⟩
  · rw [hanyOf.accepts_iff, List.mem_map]
  · intro rejection hrejected
    exact ⟨hanyOf.reasons_eq hrejected, fun reason => Rejection.ne_all_of_mem_reasons⟩

/-- A logged slot next to a custom decision that declines everything. -/
def slotOrDeclining : Validator :=
  .composite [.logging (.hotSwappable 0), .enhanceable .dummy (some fun _ => .answer false)]

theorem oneSlot_covers_slotOrDeclining (anchored : Base) :
    (oneSlot (.base anchored)).Covers slotOrDeclining := by
  refine covers_composite fun member hmem => ?_
  rcases List.mem_cons.mp hmem with rfl | hmem
  · exact covers_logging (oneSlot_covers (covers_base anchored))
  · rw [List.mem_singleton.mp hmem]
    exact covers_enhanceable covers_dummy _

theorem oneSlot_acyclic_slotOrDeclining (anchored : Base) :
    (oneSlot (.base anchored)).Acyclic slotOrDeclining := by
  intro number hreaches
  have hlt : number < 1 := oneSlot_covers_slotOrDeclining anchored _ hreaches
  rw [Nat.lt_one_iff.mp hlt]
  exact not_holdsItself_of_base rfl

/-- Where the slot has no anchors, a chain is rejected for two reasons. -/
theorem validate_slotOrDeclining : ∃ rejection after,
    (validate .paths 0 slotOrDeclining (.ofChain .client [⟨[]⟩])).perform
      (oneSlot (.base ⟨[], []⟩)) = some (.ok (.error rejection), after) ∧
    rejection.reasons = [.untrusted .unknownIssuer, .declined] := by
  obtain ⟨snapshot, verdict, after, hsnapshot, hperform, -, hreasons⟩ :=
    @validate_anyOf_leaves .paths 0 _ _ (oneSlot_covers_slotOrDeclining ⟨[], []⟩)
      (oneSlot_acyclic_slotOrDeclining ⟨[], []⟩) (.ofChain .client [⟨[]⟩])
  have hgiven := (validate_perform_of_snapshot hsnapshot .paths 0 _).symm.trans hperform
  cases hsnapshot
  cases hgiven
  refine ⟨_, _, hperform, ?_⟩
  have hmap := (hreasons _ rfl).1
  exact (List.map_injective_iff.mpr (fun _ _ => Except.error.inj) hmap).symm

end PeerTrust.World
