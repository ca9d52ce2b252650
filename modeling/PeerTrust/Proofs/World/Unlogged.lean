import PeerTrust.Proofs.Trust.Unlogged
import PeerTrust.Proofs.World.Collectors
import PeerTrust.Proofs.World.Flatten

/-!
# Worlds without logging

Where logging is taken out of a validator and of all slots, the snapshot of the validator is the one
before without its logging. So the validator says the same about every chain, records the same,
trusts the same and grows in the same pool.
-/

namespace PeerTrust

/-- Logged decisions record nothing. -/
theorem recorded_withoutDecisions (effects : List Effect) :
    recorded (withoutDecisions effects) = recorded effects := by
  induction effects with
  | nil => rfl
  | cons effect rest ih =>
    rw [withoutDecisions, List.filter_cons, ← withoutDecisions]
    cases effect with
    | record collector chain => exact congrArg ((collector, chain) :: ·) ih
    | tell event =>
      split
      · exact ih
      · exact ih

/-- Below a validator without logging, in slots without logging, there are only such validators. -/
theorem Validator.exists_of_child_withoutLogging {slots : List Validator}
    {validator child : Validator}
    (hchild : Child (slots.map withoutLogging) validator.withoutLogging child) :
    ∃ logged : Validator, child = logged.withoutLogging := by
  induction validator with
  | base anchored => exact (not_child_base hchild).elim
  | composite members ih =>
    rw [withoutLogging, withoutLoggingAll_eq_map, child_composite_iff] at hchild
    obtain ⟨member, -, hmember⟩ := List.mem_map.mp hchild
    exact ⟨member, hmember.symm⟩
  | inflatable number => exact (not_child_inflatable hchild).elim
  | hotSwappable slot =>
    rw [withoutLogging, child_hotSwappable_iff, List.getElem?_map] at hchild
    obtain ⟨delegate, -, hdelegate⟩ := Option.map_eq_some_iff.mp hchild
    exact ⟨delegate, hdelegate.symm⟩
  | enhanceable inner enhancer ih => exact ⟨inner, child_enhanceable_iff.mp hchild⟩
  | logging inner ih => exact ih hchild
  | capturing collector inner ih => exact ⟨inner, child_capturing_iff.mp hchild⟩
  | trustAll => exact (not_child_trustAll hchild).elim
  | dummy => exact (not_child_dummy hchild).elim

/-- Nothing is logged anywhere in a validator without logging, in slots without logging. -/
theorem Validator.everywhere_withoutLogging (slots : List Validator) (validator : Validator) :
    validator.withoutLogging.Everywhere (slots.map withoutLogging) (·.kind ≠ .logging) := by
  have hpart {part : Validator}
      (hreaches : validator.withoutLogging.Reaches (slots.map withoutLogging) part) :
      ∃ logged : Validator, part = logged.withoutLogging := by
    induction hreaches with
    | refl => exact ⟨validator, rfl⟩
    | tail _ hchild ih =>
      obtain ⟨above, rfl⟩ := ih
      exact exists_of_child_withoutLogging hchild
  intro part hreaches
  obtain ⟨logged, rfl⟩ := hpart hreaches
  exact logged.kind_withoutLogging

namespace World

/-- A world in which no slot holds logging, at any depth. -/
def withoutLogging (world : World) : World :=
  { world with slots := world.slots.map Validator.withoutLogging }

section
variable {engine : Engine} {world : World} {validator : Validator} {snapshot : Snapshot}

/-- A snapshot that goes through at most as many slots as given. -/
theorem snapshotWithin_withoutLogging (depth : Nat) (validator : Validator) :
    world.withoutLogging.snapshotWithin depth validator.withoutLogging =
      (world.snapshotWithin depth validator).map Snapshot.withoutLogging := by
  have hpool (number : Nat) : (world.poolSnapshot? number).map Snapshot.withoutLogging =
      world.poolSnapshot? number := by
    rw [poolSnapshot?, Option.map_map]
    rfl
  induction depth generalizing validator with
  | zero => exact @Validator.snapshotWith_withoutLogging _ (fun _ => none) hpool validator
  | succ depth ih =>
    have hslot (number : Nat) :
        world.withoutLogging.slots[number]?.bind (world.withoutLogging.snapshotWithin depth) =
          (world.slots[number]?.bind (world.snapshotWithin depth)).map Snapshot.withoutLogging := by
      rw [withoutLogging, List.getElem?_map, Option.bind_map, Option.map_bind]
      exact Option.bind_congr fun delegate _ => ih delegate
    rw [snapshotWithin, funext hslot]
    exact Validator.snapshotWith_withoutLogging hpool validator

/-- The snapshot without logging is the snapshot of the validator, without logging. -/
theorem snapshot?_withoutLogging (validator : Validator) :
    world.withoutLogging.snapshot? validator.withoutLogging =
      (world.snapshot? validator).map Snapshot.withoutLogging := by
  rw [snapshot?, withoutLogging, List.length_map]
  exact snapshotWithin_withoutLogging _ validator

/-- The collectors hold the same after a validation that leaves out the logged decisions. -/
theorem collectors_applyAll_withoutDecisions (effects : List Effect) :
    (world.withoutLogging.applyAll (withoutDecisions effects)).collectors =
      (world.applyAll effects).collectors := by
  refine List.ext_getElem? fun collector => ?_
  rw [getElem?_collectors_applyAll, getElem?_collectors_applyAll, recordedIn,
    recorded_withoutDecisions]
  rfl

/-- An addition to a pool does the same without logging. -/
theorem addToPool_perform_withoutLogging (number : Nat) (batch : List Certificate) :
    (addToPool engine number batch).perform world.withoutLogging =
      ((addToPool engine number batch).perform world).map fun (outcome, after) =>
        (outcome, after.withoutLogging) := by
  cases hpool : world.pools[number]? with
  | none =>
    have hquiet : world.withoutLogging.pools[number]? = none := hpool
    simp [addToPool, hpool, hquiet]
  | some pool =>
    have hquiet : world.withoutLogging.pools[number]? = some pool := hpool
    rw [addToPool_perform engine world hpool, addToPool_perform engine _ hquiet]
    rfl

/-- **Logging is transparent.** Let nothing hold itself in a validator, and let its custom decisions
look only at the verdicts of what they enhance. If logging is taken out of the validator and of all
slots, at any depth, then no logging is left, and the validator trusts the same certificates, can
change if it could before, and grows in the same pool. A validation gives the same verdict, with the
same rejections in it, and all collectors hold the same afterwards. -/
theorem withoutLogging_decides_alike (hcovers : world.Covers validator)
    (hacyclic : world.Acyclic validator)
    (hsees : validator.Everywhere world.slots fun part =>
      ∀ enhancer ∈ part.enhancer?, Enhancer.SeesVerdictsOnly enhancer) :
    validator.withoutLogging.Everywhere world.withoutLogging.slots (·.kind ≠ .logging) ∧
    validator.withoutLogging.isDynamic = validator.isDynamic ∧
    ∃ snapshot quiet, world.snapshot? validator = some snapshot ∧
      world.withoutLogging.snapshot? validator.withoutLogging = some quiet ∧
      quiet.issuers = snapshot.issuers ∧ quiet.pool? = snapshot.pool? ∧
      (∀ engine now context, ∃ verdict after quietAfter,
        (validate engine now validator context).perform world = some (.ok verdict, after) ∧
        (validate engine now validator.withoutLogging context).perform world.withoutLogging =
          some (.ok verdict, quietAfter) ∧
        quietAfter.collectors = after.collectors) ∧
      ∀ engine number batch, snapshot.pool? = some number →
        (add engine validator.withoutLogging batch).perform world.withoutLogging =
          ((add engine validator batch).perform world).map fun (outcome, after) =>
            (outcome, after.withoutLogging) := by
  refine ⟨Validator.everywhere_withoutLogging _ _, Validator.isDynamic_withoutLogging _, ?_⟩
  obtain ⟨snapshot, hsnapshot⟩ := exists_snapshot hcovers hacyclic
  have hquiet : world.withoutLogging.snapshot? validator.withoutLogging =
      some snapshot.withoutLogging := by
    rw [snapshot?_withoutLogging, hsnapshot, Option.map_some]
  have henhancers : ∀ enhancer ∈ snapshot.enhancers, Enhancer.SeesVerdictsOnly enhancer := by
    intro enhancer hmem
    obtain ⟨part, hreaches, hpart⟩ := (mem_enhancers_iff hsnapshot).mp hmem
    exact hsees part hreaches enhancer hpart
  refine ⟨snapshot, _, hsnapshot, hquiet, snapshot.issuers_withoutLogging,
    snapshot.pool?_withoutLogging, fun engine now context => ?_,
    fun engine number batch hpool => ?_⟩
  · have hsame := @Snapshot.validate_withoutLogging engine now snapshot henhancers context
    refine ⟨_, _, _, validate_perform_of_snapshot hsnapshot engine now context, ?_,
      collectors_applyAll_withoutDecisions _⟩
    rw [validate_perform_of_snapshot hquiet, Snapshot.verdict, hsame]
    rfl
  · have hquietPool := snapshot.pool?_withoutLogging.trans hpool
    rw [add_perform_pool ((findPool_eq_some_iff hsnapshot).mpr hpool),
      add_perform_pool ((findPool_eq_some_iff hquiet).mpr hquietPool)]
    exact addToPool_perform_withoutLogging number batch

end

/-- A world with a logged slot without anchors, and with an empty collector. -/
def loggedSlot : World := { oneSlot (.logging (.base ⟨[], []⟩)) with collectors := [[]] }

/-- The opposite of what the enhanced validator says. -/
def opposite : Enhancer := fun context =>
  .consult ⟨[], .verdict context⟩ fun reply => .answer !reply.isTrusted

/-- Logging around a slot, and the opposite of what is recorded between logging and logging. -/
def loggedAround : Validator :=
  .composite [.logging (.hotSwappable 0),
    .enhanceable (.logging (.capturing 0 (.logging .dummy))) (some opposite)]

theorem loggedSlot_covers_loggedAround : loggedSlot.Covers loggedAround := by
  refine covers_composite fun member hmem => ?_
  simp only [List.mem_cons, List.not_mem_nil, or_false] at hmem
  rcases hmem with rfl | rfl
  · exact covers_logging (covers_hotSwappable rfl (covers_logging (covers_base _)))
  · refine covers_enhanceable (covers_logging (covers_capturing Nat.zero_lt_one ?_)) _
    exact covers_logging covers_dummy

/-- A chain is recorded, and rejected for two reasons, with and without the decisions about it that
are logged on four layers. -/
theorem loggedAround_decides_alike : ∃ after quietAfter,
    (validate .paths 0 loggedAround (.ofChain .client [⟨[]⟩])).perform loggedSlot =
      some (.ok (.error (.all [.untrusted .unknownIssuer, .declined])), after) ∧
    (validate .paths 0 loggedAround.withoutLogging (.ofChain .client [⟨[]⟩])).perform
        loggedSlot.withoutLogging =
      some (.ok (.error (.all [.untrusted .unknownIssuer, .declined])), quietAfter) ∧
    after.log.length = 4 ∧ quietAfter.log.length = 0 ∧ quietAfter.collectors = [[⟨[]⟩]] := by
  have hsnapshot : loggedSlot.snapshot? loggedAround = some _ := rfl
  have hacyclic : loggedSlot.Acyclic loggedAround :=
    acyclic_of_snapshotWithin (Option.isSome_of_mem hsnapshot)
  have hsees : loggedAround.Everywhere loggedSlot.slots fun part =>
      ∀ enhancer ∈ part.enhancer?, Enhancer.SeesVerdictsOnly enhancer := by
    intro part hreaches enhancer hpart
    have hmem := (mem_enhancers_iff hsnapshot).mpr ⟨part, hreaches, hpart⟩
    cases List.mem_singleton.mp hmem
    exact fun context => .verdict context fun verdict => .answer _
  obtain ⟨-, -, snapshot, quiet, -, -, -, -, halike, -⟩ :=
    withoutLogging_decides_alike loggedSlot_covers_loggedAround hacyclic hsees
  obtain ⟨verdict, after, quietAfter, hloud, hquiet, hcollectors⟩ :=
    halike .paths 0 (.ofChain .client [⟨[]⟩])
  have hquietSnapshot : loggedSlot.withoutLogging.snapshot? loggedAround.withoutLogging = some _ :=
    rfl
  have hgiven := (validate_perform_of_snapshot hsnapshot .paths 0 _).symm.trans hloud
  have hquietGiven := (validate_perform_of_snapshot hquietSnapshot .paths 0 _).symm.trans hquiet
  cases hgiven
  cases hquietGiven
  exact ⟨_, _, hloud, hquiet, rfl, rfl, hcollectors⟩

end World

end PeerTrust
