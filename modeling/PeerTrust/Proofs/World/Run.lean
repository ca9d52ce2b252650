import PeerTrust.Proofs.World.Judgement
import PeerTrust.Proofs.World.Parts

/-!
# Runs

What a program can do with validators, and the worlds that it can thereby come to. An operation may
be given any validators whose parts are there, so that validators are shared at any depth. Files may
be changed by others at any time.
-/

namespace PeerTrust

/-- Something that is done in a world. -/
inductive Operation where
  | makeBase (certificates : List Certificate) (algorithm : Algorithm)
  | makePool (options : Pool.Options)
  | makeSlot (inner : Validator)
  | makeCollector
  | combine (validators : List Validator)
  | build (builder : Builder)
  | validate (now : Nat) (validator : Validator) (context : Context)
  | add (validator : Validator) (batch : List Certificate)
  | swap (validator new : Validator)
  | renew (validator : Validator) (material : IssuedMaterial)
  | refresh (validator : Validator) (issued : Except TrustError IssuedMaterial)
  | clearCollector (number : Nat)
  /-- Somebody else changes files. -/
  | changeFiles (files : Files)

/-- The slot that a validator is. -/
def Validator.slot? : Validator → Option Nat
  | .hotSwappable slot => some slot
  | _ => none

/-- The slot that a renewal gives another validator, and that validator: it trusts the roots. There
is none if a pool takes up the roots, or if one of them is no anchor. -/
def World.renewalSwap? (engine : Engine) (world : World) (validator : Validator)
    (material : IssuedMaterial) : Option (Nat × Validator) :=
  if material.roots = [] ∨ world.findPool validator ≠ some none then none
  else do
    let slot ← validator.slot?
    let anchored ← (Base.ofStore engine (.ofList material.roots)).toOption
    return (slot, .base anchored)

namespace Operation

/-- The validators that an operation is given. -/
def validators : Operation → List Validator
  | .makeSlot inner => [inner]
  | .combine validators => validators
  | .build builder => builder.sources.filterMap Source.given?
  | .validate _ validator _ => [validator]
  | .add validator _ => [validator]
  | .swap validator new => [validator, new]
  | .renew validator _ => [validator]
  | .refresh validator _ => [validator]
  | _ => []

/-- The stores that an operation is given. -/
def stores : Operation → List Store
  | .build builder => builder.sources.filterMap Source.store?
  | _ => []

/-- Whether all validators that an operation is given can exist in a world. -/
def FitsIn (world : World) (operation : Operation) : Prop :=
  ∀ validator ∈ operation.validators, world.Covers validator

/-- The world after an operation, whether it fails or not; there is none if it does not return. -/
def next? (engine : Engine) (world : World) : Operation → Option World
  | .makeBase certificates algorithm =>
      ((World.makeBase engine (.ofList certificates) algorithm).perform world).map (·.2)
  | .makePool options => ((World.makePool engine options).perform world).map (·.2)
  | .makeSlot inner => ((World.makeSlot inner).perform world).map (·.2)
  | .makeCollector => (World.makeCollector.perform world).map (·.2)
  | .combine validators => ((World.combine validators).perform world).map (·.2)
  | .build builder => ((World.build engine builder).perform world).map (·.2)
  | .validate now validator context =>
      ((World.validate engine now validator context).perform world).map (·.2)
  | .add validator batch => ((World.add engine validator batch).perform world).map (·.2)
  | .swap validator new => ((World.swap validator new).perform world).map (·.2)
  | .renew validator material => ((World.renew engine validator material).perform world).map (·.2)
  | .refresh validator issued => ((World.refresh engine validator issued).perform world).map (·.2)
  | .clearCollector number => ((World.clearCollector number).perform world).map (·.2)
  | .changeFiles files => some { world with files }

/-- The error that an operation fails with. -/
def failure? (engine : Engine) (world : World) : Operation → Option TrustError
  | .makeBase certificates algorithm =>
      (World.makeBase engine (.ofList certificates) algorithm).failure? world
  | .makePool options => (World.makePool engine options).failure? world
  | .makeSlot inner => (World.makeSlot inner).failure? world
  | .makeCollector => World.makeCollector.failure? world
  | .combine validators => (World.combine validators).failure? world
  | .build builder => (World.build engine builder).failure? world
  | .validate now validator context => (World.validate engine now validator context).failure? world
  | .add validator batch => (World.add engine validator batch).failure? world
  | .swap validator new => (World.swap validator new).failure? world
  | .renew validator material => (World.renew engine validator material).failure? world
  | .refresh validator issued => (World.refresh engine validator issued).failure? world
  | .clearCollector number => (World.clearCollector number).failure? world
  | .changeFiles _ => none

/-- The validator that an operation makes, unless it fails. -/
def made? (engine : Engine) (world : World) : Operation → Option Validator
  | .makeBase certificates algorithm =>
      (World.makeBase engine (.ofList certificates) algorithm).value? world
  | .makePool options => (World.makePool engine options).value? world
  | .makeSlot inner => (World.makeSlot inner).value? world
  | .combine validators => (World.combine validators).value? world
  | .build builder => (World.build engine builder).value? world
  | _ => none

/-- The slot that an operation tries to give another validator, and that validator. -/
def attempt? (engine : Engine) (world : World) : Operation → Option (Nat × Validator)
  | .swap validator new => validator.slot?.map fun slot => (slot, new)
  | .renew validator material => world.renewalSwap? engine validator material
  | .refresh validator (.ok material) => world.renewalSwap? engine validator material
  | _ => none

/-- The slot that an operation gives another validator, and that validator, unless it is refused. -/
def swapped? (engine : Engine) (world : World) (operation : Operation) : Option (Nat × Validator) :=
  (operation.attempt? engine world).filter fun (_, new) => World.canBeSwappedIn new

/-- An operation ties a knot if it puts a validator into a slot that the validator leads back to. -/
def Ties (world : World) : Operation → Prop
  | .swap (.hotSwappable slot) new =>
      World.canBeSwappedIn new = true ∧ new.Reaches world.slots (.hotSwappable slot)
  | _ => False

end Operation

namespace World

/-- The world `last` is reached from `first`. The history lists the operations on the way, each with
the world in which it was done. -/
inductive Run (engine : Engine) (first : World) : List (World × Operation) → World → Prop
  | start : Run engine first [] first
  | step {history : List (World × Operation)} {world next : World} {operation : Operation}
      (hrun : Run engine first history world) (hfits : operation.FitsIn world)
      (hnext : operation.next? engine world = some next) :
      Run engine first (history ++ [(world, operation)]) next

/-- What an operation can do to the slots, `swapped` being the slot that it gives another validator,
with that validator. What it puts into slots has the property `placed`. -/
inductive SlotStep (placed : Validator → Prop) (world next : World) :
    (swapped : Option (Nat × Validator)) → Prop
  /-- All slots hold what they held before. -/
  | kept (hslots : next.slots = world.slots) : SlotStep placed world next none
  /-- There is one more slot. -/
  | opened {delegate : Validator} (hplaced : placed delegate)
      (hslots : next.slots = world.slots ++ [delegate]) : SlotStep placed world next none
  /-- One slot holds another validator. -/
  | swapped {slot : Nat} {previous new : Validator} (hprevious : world.slots[slot]? = some previous)
      (hplaced : placed new)
      (hslots : next.slots = world.slots.set slot (successor previous new)) :
      SlotStep placed world next (some (slot, new))

/-- What the validator can be that an operation makes. Unless it is a new pool or a new slot, it has
the property `placed`. -/
inductive MadeStep (placed : Validator → Prop) (world next : World) : Validator → Prop
  | inherited {validator : Validator} (hplaced : placed validator) :
      MadeStep placed world next validator
  | pool (hpools : next.pools.length = world.pools.length + 1) :
      MadeStep placed world next (.inflatable world.pools.length)
  | slot {delegate : Validator} (hplaced : placed delegate)
      (hslots : next.slots = world.slots ++ [delegate]) :
      MadeStep placed world next (.hotSwappable world.slots.length)

/-- What an operation can do to all that validators refer to: a change of the slots, while pools and
collectors stay. -/
structure Step (placed : Validator → Prop) (world next : World)
    (swapped : Option (Nat × Validator)) : Prop where
  slots : SlotStep placed world next swapped
  pools_le : world.pools.length ≤ next.pools.length
  collectors_le : world.collectors.length ≤ next.collectors.length

section
variable {engine : Engine} {world next : World} {usable : Store → Prop}
  {placed : Validator → Prop}

/-- A world with the same slots is reached without a swap. -/
theorem Step.kept (hslots : next.slots = world.slots)
    (hpools : world.pools.length ≤ next.pools.length)
    (hcollectors : world.collectors.length ≤ next.collectors.length) :
    Step placed world next none :=
  ⟨.kept hslots, hpools, hcollectors⟩

/-- The effects of a validation change nothing that validators refer to but what is in collectors.
-/
theorem applyAll_kept (effects : List Effect) : (world.applyAll effects).slots = world.slots ∧
    (world.applyAll effects).pools = world.pools ∧
    (world.applyAll effects).collectors.length = world.collectors.length := by
  induction effects generalizing world with
  | nil => exact ⟨rfl, rfl, rfl⟩
  | cons effect rest ih =>
    obtain ⟨hslots, hpools, hcollectors⟩ := @ih (world.apply effect)
    rw [applyAll, List.foldl_cons]
    cases effect with
    | tell event => exact ⟨hslots, hpools, hcollectors⟩
    | record collector chain =>
      exact ⟨hslots, hpools, hcollectors.trans (List.length_modify ..)⟩

/-- The effects of a validation leave slots as they are. -/
theorem step_applyAll (effects : List Effect) :
    Step placed world (world.applyAll effects) none := by
  obtain ⟨hslots, hpools, hcollectors⟩ := world.applyAll_kept effects
  exact .kept hslots (by rw [hpools]) hcollectors.ge

/-- An action that only tells the log leaves slots as they are. -/
theorem step_of_onlyTells {α : Type} {action : Action α}
    {outcome : Files → List (String × String) → Except TrustError α}
    (htells : action.OnlyTells outcome) {result : Except TrustError α}
    (hperform : action.perform world = some (result, next)) :
    Step placed world next none := by
  obtain ⟨events, hevents⟩ := htells world
  rw [hevents] at hperform
  cases hperform
  exact .kept rfl le_rfl le_rfl

/-- An addition to a pool leaves slots as they are. -/
theorem step_of_addToPool {number : Nat} {batch : List Certificate}
    {outcome : Except TrustError Nat}
    (hadd : (addToPool engine number batch).perform world = some (outcome, next)) :
    Step placed world next none := by
  cases hpool : world.pools[number]? with
  | none => simp [addToPool, hpool] at hadd
  | some pool =>
    rw [addToPool_perform engine world hpool] at hadd
    cases hadd
    exact .kept rfl (List.length_set ..).ge le_rfl

/-- A swap, unless it is refused, puts the new validator into the slot, with logging if there was
logging before. -/
theorem step_of_swapSlot {number : Nat} {new : Validator} {outcome : Except TrustError Unit}
    (hplaced : placed new)
    (hswap : (swapSlot number new).perform world = some (outcome, next)) :
    Step placed world next ((some (number, new)).filter fun (_, new) => canBeSwappedIn new) := by
  cases hcan : canBeSwappedIn new with
  | true =>
    obtain ⟨previous, hslot⟩ := exists_slot_of_swapSlot world hcan hswap
    rw [swapSlot_perform world hslot hcan] at hswap
    cases hswap
    rw [Option.filter_some, if_pos hcan]
    exact ⟨.swapped hslot hplaced rfl, le_rfl, le_rfl⟩
  | false =>
    rw [swapSlot_perform_refused world hcan] at hswap
    cases hswap
    rw [Option.filter_some, if_neg (Bool.eq_false_iff.mp hcan)]
    exact .kept rfl le_rfl le_rfl

/-- Where the way to a pool comes to an end, the slot that it begins with is there. -/
theorem exists_slot_of_findPool {slot : Nat} {found : Option Nat}
    (hfound : world.findPool (.hotSwappable slot) = some found) :
    ∃ delegate, world.slots[slot]? = some delegate := by
  rw [findPool] at hfound
  obtain ⟨delegate, hslot, -⟩ := Option.bind_eq_some_iff.mp hfound
  exact ⟨delegate, hslot⟩

/-- Roots are only added to a pool that is there. -/
theorem exists_pool_of_renew {validator : Validator} {material : IssuedMaterial} {number : Nat}
    {outcome : Except TrustError Renewal} (hroots : material.roots ≠ [])
    (hfound : world.findPool validator = some (some number))
    (hrenew : (renew engine validator material).perform world = some (outcome, next)) :
    ∃ pool, world.pools[number]? = some pool := by
  rw [renew_perform_found hroots hfound, takeUp, Action.perform_bind] at hrenew
  obtain ⟨⟨added, after⟩, hadded, -⟩ := Option.bind_eq_some_iff.mp hrenew
  exact exists_pool_of_addToPool engine world hadded

/-- What taking up roots can come to. -/
inductive RenewStep (engine : Engine) (world : World) (validator : Validator)
    (material : IssuedMaterial) (next : World) : Except TrustError Renewal → Prop
  /-- There are no roots, and nothing happens. -/
  | noRoots (hroots : material.roots = []) (hnext : next = world) :
      RenewStep engine world validator material next (.error (.configuration .noRoots))
  /-- The roots are added to the pool that additions to the validator are made to. -/
  | pooled {number : Nat} {pool : Pool} {events : List Event} (hroots : material.roots ≠ [])
      (hfound : world.findPool validator = some (some number))
      (hpool : world.pools[number]? = some pool)
      (hnext : next =
        let added := pool.add Files.append engine world.files material.roots
        { world with
          pools := world.pools.set number added.pool
          files := added.storage
          log := world.log ++ events }) :
      RenewStep engine world validator material next
        ((pool.add Files.append engine world.files material.roots).outcome.map .inflated)
  /-- There is no pool, a slot is renewed, and one of the roots is no anchor. Nothing happens. -/
  | refused {slot : Nat} {error : TrustError} (hroots : material.roots ≠ [])
      (hunfound : world.findPool validator = some none)
      (hslot : validator = .hotSwappable slot)
      (hanchored : Base.ofStore engine (.ofList material.roots) = .error error)
      (hnext : next = world) :
      RenewStep engine world validator material next (.error error)
  /-- There is no pool, and a slot is given a validator that trusts the roots. -/
  | swapped {slot : Nat} {previous : Validator} {anchored : Base} {events : List Event}
      (hroots : material.roots ≠ []) (hunfound : world.findPool validator = some none)
      (hslot : validator = .hotSwappable slot) (hprevious : world.slots[slot]? = some previous)
      (hanchored : Base.ofStore engine (.ofList material.roots) = .ok anchored)
      (hnext : next = { world.tell events with
        slots := world.slots.set slot (successor previous (.base anchored)) }) :
      RenewStep engine world validator material next (.ok .swapped)
  /-- There is neither a pool nor a slot, and nothing happens. -/
  | unsupported (hroots : material.roots ≠ []) (hunfound : world.findPool validator = some none)
      (hkind : validator.kind ≠ .hotSwappable) (hnext : next = world) :
      RenewStep engine world validator material next
        (.error (.unsupported (.renewal validator.kind)))

/-- **Step lemma.** Everything that taking up roots can do. -/
theorem renewStep {validator : Validator} {material : IssuedMaterial}
    {outcome : Except TrustError Renewal}
    (hrenew : (renew engine validator material).perform world = some (outcome, next)) :
    RenewStep engine world validator material next outcome := by
  by_cases hroots : material.roots = []
  · rw [renew_perform_noRoots hroots] at hrenew
    cases hrenew
    exact .noRoots hroots rfl
  cases hfound : world.findPool validator with
  | none => simp [renew, hroots, hfound] at hrenew
  | some found =>
    cases found with
    | some number =>
      obtain ⟨pool, hpool⟩ := exists_pool_of_renew hroots hfound hrenew
      have hstep {events : List Event} := @RenewStep.pooled engine world validator material _
        number pool events hroots hfound hpool rfl
      rw [renew_perform_pool hroots hfound hpool] at hrenew
      dsimp only at hrenew
      split at hrenew
      · rename_i hadded
        cases hrenew
        rw [hadded] at hstep
        rw [tell, List.append_assoc]
        exact hstep
      · rename_i hadded
        cases hrenew
        rw [hadded] at hstep
        exact hstep
    | none =>
      by_cases hkind : validator.kind = .hotSwappable
      · obtain ⟨slot, rfl⟩ := exists_slot_of_kind hkind
        obtain ⟨previous, hslot⟩ := exists_slot_of_findPool hfound
        rw [renew_perform_slot hroots hfound hslot] at hrenew
        dsimp only at hrenew
        split at hrenew
        · cases hrenew
          exact .swapped hroots hfound rfl hslot ‹_› rfl
        · cases hrenew
          exact .refused hroots hfound rfl ‹_› rfl
      · rw [renew_perform_unsupported hroots hfound hkind] at hrenew
        cases hrenew
        exact .unsupported hroots hfound hkind rfl

/-- Taking up roots changes slots only by a validator that trusts just them. -/
theorem step_of_renew (hplaced : Inherited engine usable placed) {validator : Validator}
    {material : IssuedMaterial} {outcome : Except TrustError Renewal}
    (hrenew : (renew engine validator material).perform world = some (outcome, next)) :
    Step placed world next (world.renewalSwap? engine validator material) := by
  unfold renewalSwap?
  cases renewStep hrenew with
  | noRoots hroots hnext =>
    rw [if_pos (Or.inl hroots), hnext]
    exact .kept rfl le_rfl le_rfl
  | pooled hroots hfound hpool hnext =>
    rw [if_pos (Or.inr (by simp [hfound])), hnext]
    exact .kept rfl (List.length_set ..).ge le_rfl
  | refused hroots hunfound hslot hanchored hnext =>
    rw [if_neg (not_or.mpr ⟨hroots, not_not_intro hunfound⟩), hslot, hanchored, hnext]
    exact .kept rfl le_rfl le_rfl
  | swapped hroots hunfound hslot hprevious hanchored hnext =>
    rw [if_neg (not_or.mpr ⟨hroots, not_not_intro hunfound⟩), hslot, hanchored, hnext]
    exact ⟨.swapped hprevious (hplaced.base (hplaced.ofList _) hanchored) rfl, le_rfl, le_rfl⟩
  | unsupported hroots hunfound hkind hnext =>
    rw [if_neg (not_or.mpr ⟨hroots, not_not_intro hunfound⟩), hnext]
    cases validator with
    | hotSwappable slot => exact absurd rfl hkind
    | _ => exact .kept rfl le_rfl le_rfl

/-- Adding certificates leaves slots as they are. -/
theorem step_of_add {validator : Validator} {batch : List Certificate}
    {outcome : Except TrustError Nat}
    (hadd : (add engine validator batch).perform world = some (outcome, next)) :
    Step placed world next none := by
  rcases add_perform_cases hadd with ⟨number, -, hpooled⟩ | ⟨-, -, rfl⟩
  · exact step_of_addToPool hpooled
  · exact .kept rfl le_rfl le_rfl

/-- A builder puts its validator into a new slot, or leaves slots as they are. -/
theorem step_of_build (hplaced : Inherited engine usable placed) {builder : Builder}
    {outcome : Except TrustError Validator}
    (hsources : ∀ given ∈ builder.sources.filterMap Source.given?, placed given)
    (hstores : ∀ anchors ∈ builder.sources.filterMap Source.store?, usable anchors)
    (hbuild : (build engine builder).perform world = some (outcome, next)) :
    Step placed world next none := by
  obtain ⟨events, hevents⟩ := build_perform engine builder world
  rw [hbuild, Option.some.injEq] at hevents
  cases hinner : builder.inner? engine world.files world.environment with
  | error error =>
    rw [hinner] at hevents
    cases hevents
    exact .kept rfl le_rfl le_rfl
  | ok inner =>
    rw [hinner] at hevents
    by_cases hslot : builder.swappable
    · rw [hslot] at hevents
      cases hevents
      exact ⟨.opened (hplaced.inner? hsources hstores hinner) rfl, le_rfl, le_rfl⟩
    · simp only [hslot, Bool.false_eq_true, if_false] at hevents
      cases hevents
      exact .kept rfl le_rfl le_rfl

end

end World

/-- A renewal gives a slot another validator if it is a renewal of that slot, no pool takes up the
roots and all of them are anchors. -/
theorem World.renewalSwap?_eq_some_iff {engine : Engine} {world : World} {validator new : Validator}
    {material : IssuedMaterial} {slot : Nat} :
    world.renewalSwap? engine validator material = some (slot, new) ↔
      material.roots ≠ [] ∧ world.findPool validator = some none ∧
      validator = .hotSwappable slot ∧ ∃ anchored,
        Base.ofStore engine (.ofList material.roots) = .ok anchored ∧ new = .base anchored := by
  unfold renewalSwap?
  split
  · rename_i hnot
    refine iff_of_false nofun ?_
    rintro ⟨hroots, hunreached, -⟩
    exact hnot.elim hroots fun hreached => hreached hunreached
  · rename_i hswap
    obtain ⟨hroots, hunreached⟩ := not_or.mp hswap
    rw [not_not] at hunreached
    constructor
    · intro h
      obtain ⟨number, hnumber, h⟩ := Option.bind_eq_some_iff.mp h
      obtain ⟨anchored, hanchored, h⟩ := Option.bind_eq_some_iff.mp h
      cases h
      cases validator with
      | hotSwappable slot =>
        cases hnumber
        exact ⟨hroots, hunreached, rfl, anchored, Except.toOption_eq_some.mp hanchored, rfl⟩
      | _ => cases hnumber
    · rintro ⟨-, -, rfl, anchored, hanchored, rfl⟩
      rw [hanchored]
      rfl

namespace Operation

variable {engine : Engine} {world next : World} {operation : Operation}

/-- A renewal is never refused: validators with fixed anchors can stand in a slot. -/
theorem filter_renewalSwap? (validator : Validator) (material : IssuedMaterial) :
    (world.renewalSwap? engine validator material).filter
      (fun (_, new) => World.canBeSwappedIn new) =
      world.renewalSwap? engine validator material := by
  cases h : world.renewalSwap? engine validator material with
  | none => rfl
  | some swapped =>
    obtain ⟨slot, new⟩ := swapped
    obtain ⟨-, -, -, anchored, -, rfl⟩ := World.renewalSwap?_eq_some_iff.mp h
    rfl

/-- **One step.** Whatever an operation does, slots are only opened or given another validator. It
has every inherited property that the given validators have. A slot is given another validator by
nothing but a swap or a renewal. -/
theorem step_of_inherited {usable : Store → Prop} {placed : Validator → Prop}
    (hplaced : Inherited engine usable placed)
    (hgiven : ∀ given ∈ operation.validators, placed given)
    (hstores : ∀ anchors ∈ operation.stores, usable anchors)
    (hnext : operation.next? engine world = some next) :
    World.Step placed world next (operation.swapped? engine world) := by
  cases operation with
  | makeBase certificates algorithm =>
    obtain ⟨⟨outcome, after⟩, hperform, rfl⟩ := Option.map_eq_some_iff.mp hnext
    exact World.step_of_onlyTells (World.makeBase_onlyTells engine _ _) hperform
  | makePool options =>
    rw [next?, World.makePool_perform] at hnext
    cases hpool : Pool.create engine world.files options with
    | error error =>
      rw [hpool] at hnext
      cases hnext
      exact .kept rfl le_rfl le_rfl
    | ok pool =>
      rw [hpool] at hnext
      cases hnext
      refine .kept rfl ?_ le_rfl
      rw [List.length_append]
      exact Nat.le_add_right _ _
  | makeSlot inner =>
    rw [next?, World.makeSlot_perform] at hnext
    cases hnext
    exact ⟨.opened (hgiven inner List.mem_cons_self) rfl, le_rfl, le_rfl⟩
  | makeCollector =>
    rw [next?, World.makeCollector_perform] at hnext
    cases hnext
    refine .kept rfl le_rfl ?_
    rw [List.length_append]
    exact Nat.le_add_right _ _
  | combine validators =>
    obtain ⟨⟨outcome, after⟩, hperform, rfl⟩ := Option.map_eq_some_iff.mp hnext
    exact World.step_of_onlyTells (World.combine_onlyTells validators) hperform
  | build builder =>
    obtain ⟨⟨outcome, after⟩, hperform, rfl⟩ := Option.map_eq_some_iff.mp hnext
    exact World.step_of_build hplaced hgiven hstores hperform
  | validate now validator context =>
    rw [next?, World.validate_perform] at hnext
    obtain ⟨⟨outcome, after⟩, hperform, rfl⟩ := Option.map_eq_some_iff.mp hnext
    obtain ⟨judged, -, hjudged⟩ := Option.map_eq_some_iff.mp hperform
    cases hjudged
    exact World.step_applyAll _
  | add validator batch =>
    obtain ⟨⟨outcome, after⟩, hperform, rfl⟩ := Option.map_eq_some_iff.mp hnext
    exact World.step_of_add hperform
  | swap validator new =>
    obtain ⟨⟨outcome, after⟩, hperform, rfl⟩ := Option.map_eq_some_iff.mp hnext
    have hnew : placed new := hgiven new (List.mem_cons_of_mem _ List.mem_cons_self)
    cases validator with
    | hotSwappable slot => exact World.step_of_swapSlot hnew hperform
    | _ =>
      cases hperform
      exact .kept rfl le_rfl le_rfl
  | renew validator material =>
    obtain ⟨⟨outcome, after⟩, hperform, rfl⟩ := Option.map_eq_some_iff.mp hnext
    rw [swapped?, attempt?, filter_renewalSwap?]
    exact World.step_of_renew hplaced hperform
  | refresh validator issued =>
    obtain ⟨⟨outcome, after⟩, hperform, rfl⟩ := Option.map_eq_some_iff.mp hnext
    cases issued with
    | error error =>
      cases hperform
      exact .kept rfl le_rfl le_rfl
    | ok material =>
      rw [swapped?, attempt?, filter_renewalSwap?]
      exact World.step_of_renew hplaced hperform
  | clearCollector number =>
    cases hnext
    exact .kept rfl le_rfl (List.length_set ..).ge
  | changeFiles files =>
    cases hnext
    exact .kept rfl le_rfl le_rfl

/-- What an operation makes is a new pool or a new slot, or it has every inherited property that the
given validators have. -/
theorem madeStep {usable : Store → Prop} {placed : Validator → Prop}
    (hplaced : Inherited engine usable placed)
    (hgiven : ∀ given ∈ operation.validators, placed given)
    (hstores : ∀ anchors ∈ operation.stores, usable anchors)
    (hnext : operation.next? engine world = some next) {validator : Validator}
    (hmade : operation.made? engine world = some validator) :
    World.MadeStep placed world next validator := by
  cases operation with
  | makeBase certificates algorithm =>
    have hperform := Action.perform_of_value? hmade hnext
    obtain ⟨anchored, events, hanchored, rfl, -⟩ := World.makeBase_ok hperform
    exact .inherited (hplaced.base (hplaced.ofList certificates) hanchored)
  | makePool options =>
    have hperform := Action.perform_of_value? hmade hnext
    rw [World.makePool_perform] at hperform
    cases hpool : Pool.create engine world.files options with
    | error error =>
      rw [hpool] at hperform
      cases hperform
    | ok pool =>
      rw [hpool] at hperform
      cases hperform
      exact .pool List.length_append
  | makeSlot inner =>
    have hperform : (World.makeSlot inner).perform world = some (.ok validator, next) :=
      Action.perform_of_value? hmade hnext
    rw [World.makeSlot_perform] at hperform
    cases hperform
    exact .slot (hgiven inner List.mem_cons_self) rfl
  | combine members =>
    have hperform := Action.perform_of_value? hmade hnext
    obtain ⟨events, hevents⟩ := World.combine_onlyTells members world
    rw [hevents, Option.some.injEq, Prod.mk.injEq] at hperform
    obtain ⟨hcombine, -⟩ := hperform
    unfold Validator.combine at hcombine
    split at hcombine
    · cases hcombine
    · cases hcombine
      exact .inherited (hplaced.firstAcceptingAll?_or_unite hgiven)
  | build builder =>
    have hperform := Action.perform_of_value? hmade hnext
    obtain ⟨events, hevents⟩ := World.build_perform engine builder world
    rw [hevents, Option.some.injEq] at hperform
    cases hinner : builder.inner? engine world.files world.environment with
    | error error =>
      rw [hinner] at hperform
      cases hperform
    | ok inner =>
      have hplacedInner := hplaced.inner? hgiven hstores hinner
      rw [hinner] at hperform
      dsimp only at hperform
      split at hperform
      · cases hperform
        exact .slot hplacedInner rfl
      · cases hperform
        exact .inherited hplacedInner
  | _ => cases hmade

/-- What an operation puts into slots refers to nothing that was not there before. -/
theorem step (hfits : operation.FitsIn world) (hnext : operation.next? engine world = some next) :
    World.Step world.Covers world next (operation.swapped? engine world) :=
  step_of_inherited (World.covers_inherited engine world) hfits (fun _ _ => trivial) hnext

end Operation

namespace World

section
variable {engine : Engine} {first world : World} {history : List (World × Operation)} {slot : Nat}
  {previous new : Validator}

/-- A run goes on with a validation by a validator that has a snapshot. -/
theorem Run.validated (hrun : Run engine first history world) {validator : Validator}
    {snapshot : Snapshot} (hcovers : world.Covers validator)
    (hsnapshot : world.snapshot? validator = some snapshot) (now : Nat) (context : Context) :
    Run engine first (history ++ [(world, .validate now validator context)])
      (world.applyAll (snapshot.validate engine now context).2) := by
  refine hrun.step (List.forall_mem_singleton.mpr hcovers) ?_
  rw [Operation.next?, validate_perform, judge_of_snapshot hsnapshot]
  rfl

/-- A run goes on with a swap that is accepted. -/
theorem Run.swap (hrun : Run engine first history world)
    (hcovers : world.Covers (.hotSwappable slot)) (hnew : world.Covers new)
    (hslot : world.slots[slot]? = some previous) (hcan : canBeSwappedIn new = true) :
    Run engine first (history ++ [(world, .swap (.hotSwappable slot) new)])
      { world.tell [.swapped previous.kind (successor previous new).kind] with
        slots := world.slots.set slot (successor previous new) } := by
  refine hrun.step ?_ ?_
  · exact List.forall_mem_cons.mpr ⟨hcovers, List.forall_mem_singleton.mpr hnew⟩
  · change ((swapSlot slot new).perform world).map Prod.snd = _
    rw [swapSlot_perform world hslot hcan]
    rfl

/-- A run goes on with a swap that is refused. -/
theorem Run.swap_refused (hrun : Run engine first history world)
    (hcovers : world.Covers (.hotSwappable slot)) (hnew : world.Covers new)
    (hcan : canBeSwappedIn new = false) :
    Run engine first (history ++ [(world, .swap (.hotSwappable slot) new)])
      (world.tell [.swapRefused new.kind]) := by
  refine hrun.step ?_ ?_
  · exact List.forall_mem_cons.mpr ⟨hcovers, List.forall_mem_singleton.mpr hnew⟩
  · change ((swapSlot slot new).perform world).map Prod.snd = _
    rw [swapSlot_perform_refused world hcan]
    rfl

end

end World

end PeerTrust
