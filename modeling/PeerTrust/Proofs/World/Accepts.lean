import PeerTrust.Proofs.Trust.Growth
import PeerTrust.Proofs.World.AnyOf
import PeerTrust.Proofs.World.Layers

/-!
# What is accepted in a world

Whether a validator accepts a context comes down to whether the validators one layer below it do, and
at last to fixed anchors and to pools.
-/

namespace PeerTrust

/-- A composite accepts what one of its members accepts. -/
theorem Snapshot.verdict_composite_iff {engine : Engine} {now : Nat} {members : List Snapshot}
    {context : Context} : (composite members).verdict engine now context = .ok () ↔
      ∃ member ∈ members, member.verdict engine now context = .ok () := by
  rw [verdict, validate_composite, ← List.mem_map]
  rcases Verdict.accepted_or_rejected (members.map (verdict engine now · context)) with
    haccepted | ⟨rejections, hrejected⟩
  · exact iff_of_true (validateAny_of_accepted haccepted []) haccepted
  · rw [validateAny_of_rejected hrejected, hrejected]
    exact iff_of_false (by simp) (by simp)

namespace World

/-- A validation of a context returns and accepts it. -/
def Accepts (world : World) (engine : Engine) (now : Nat) (validator : Validator)
    (context : Context) : Prop :=
  ∃ later, (validate engine now validator context).perform world = some (.ok (.ok ()), later)

section
variable {engine : Engine} {now : Nat} {world : World} {validator inner : Validator}
  {members : List Validator} {snapshot : Snapshot} {context : Context}

theorem accepts_iff_judge : world.Accepts engine now validator context ↔
    ∃ effects, world.judge engine now validator context = some (.ok (), effects) := by
  rw [Accepts, validate_perform]
  cases world.judge engine now validator context with
  | none => simp
  | some judged =>
    obtain ⟨verdict, effects⟩ := judged
    simp

/-- What is accepted is known from the snapshot. -/
theorem accepts_iff_verdict (hsnapshot : world.snapshot? validator = some snapshot) :
    world.Accepts engine now validator context ↔ snapshot.verdict engine now context = .ok () := by
  rw [accepts_iff_judge, judge_of_snapshot hsnapshot, Snapshot.verdict]
  obtain ⟨verdict, effects⟩ := snapshot.validate engine now context
  simp

theorem accepts_trustAll : world.Accepts engine now .trustAll context := by
  rw [accepts_iff_verdict snapshot?_trustAll]
  rfl

theorem accepts_base {anchored : Base} : world.Accepts engine now (.base anchored) context ↔
    anchored.validate engine now context = .ok () :=
  accepts_iff_verdict (snapshot?_base anchored)

/-- A pool that only looks at anchors accepts what its published validator accepts. -/
theorem accepts_inflatable {number : Nat} {pool : Pool} (hpool : world.pools[number]? = some pool)
    (hpredicate : pool.predicate = none) :
    world.Accepts engine now (.inflatable number) context ↔
      pool.published.validate engine now context = .ok () := by
  have hsnapshot : world.snapshot? (.inflatable number) = some (pool.snapshot number) := by
    rw [snapshot?_inflatable, poolSnapshot?, hpool]
    rfl
  rw [accepts_iff_verdict hsnapshot, Pool.verdict_snapshot (by simp [hpredicate])]

/-- Logging changes nothing. -/
theorem accepts_logging :
    world.Accepts engine now (.logging inner) context ↔ world.Accepts engine now inner context := by
  rw [accepts_iff_judge, accepts_iff_judge, judge_logging]
  cases world.judge engine now inner context with
  | none => simp
  | some judged =>
    obtain ⟨verdict, effects⟩ := judged
    simp

/-- A slot accepts what the validator in it accepts. -/
theorem accepts_hotSwappable {slot : Nat} (hslot : world.slots[slot]? = some inner) :
    world.Accepts engine now (.hotSwappable slot) context ↔
      world.Accepts engine now inner context := by
  rw [accepts_iff_judge, accepts_iff_judge, judge_hotSwappable hslot]

/-- A composite whose members can all be asked accepts what one of them accepts. -/
theorem accepts_composite (hmembers : ∀ member ∈ members,
      ∃ snapshot, world.snapshot? member = some snapshot) :
    world.Accepts engine now (.composite members) context ↔
      ∃ member ∈ members, world.Accepts engine now member context := by
  obtain ⟨snapshots, hsnapshots⟩ := List.exists_forall₂_iff.mpr hmembers
  rw [accepts_iff_verdict (snapshot?_composite.mpr ⟨snapshots, hsnapshots, rfl⟩),
    Snapshot.verdict_composite_iff]
  clear hmembers
  induction hsnapshots with
  | nil => simp
  | cons hfirst hrest ih =>
    rw [List.exists_mem_cons_iff, List.exists_mem_cons_iff]
    exact or_congr (accepts_iff_verdict hfirst).symm ih

end

end World

end PeerTrust
