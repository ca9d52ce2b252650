import PeerTrust.Proofs.Trust.Growth
import PeerTrust.Proofs.World.Run

/-!
# Pools in a world

Pools are made and grow by additions, and nothing else happens to them. So in every world that is
reached, all pools are sound: each publishes a validator of exactly its certificates.
-/

namespace PeerTrust

namespace World

/-- All pools are sound. -/
def PoolsSound (engine : Engine) (world : World) : Prop := ∀ pool ∈ world.pools, pool.Sound engine

/-- What an operation can do to the pools. -/
inductive PoolStep (engine : Engine) (world next : World) : Prop
  /-- All pools are what they were before. -/
  | kept (hpools : next.pools = world.pools)
  /-- There is one more pool. -/
  | made {options : Pool.Options} {pool : Pool}
      (hcreate : Pool.create engine world.files options = .ok pool)
      (hpools : next.pools = world.pools ++ [pool])
  /-- Certificates were added to one pool. -/
  | added {number : Nat} {pool : Pool} {batch : List Certificate}
      (hpool : world.pools[number]? = some pool)
      (hpools : next.pools =
        world.pools.set number (pool.add Files.append engine world.files batch).pool)

section
variable {engine : Engine} {world next : World}

/-- An action that only tells the log leaves pools as they are. -/
theorem poolStep_of_onlyTells {α : Type} {action : Action α}
    {outcome : Files → List (String × String) → Except TrustError α}
    (htells : action.OnlyTells outcome) {result : Except TrustError α}
    (hperform : action.perform world = some (result, next)) : PoolStep engine world next := by
  obtain ⟨events, hevents⟩ := htells world
  rw [hevents] at hperform
  cases hperform
  exact .kept rfl

theorem poolStep_of_addToPool {number : Nat} {batch : List Certificate}
    {outcome : Except TrustError Nat}
    (hadd : (addToPool engine number batch).perform world = some (outcome, next)) :
    PoolStep engine world next := by
  cases hpool : world.pools[number]? with
  | none => simp [addToPool, hpool] at hadd
  | some pool =>
    rw [addToPool_perform engine world hpool] at hadd
    cases hadd
    exact .added hpool rfl

theorem poolStep_of_add {validator : Validator} {batch : List Certificate}
    {outcome : Except TrustError Nat}
    (hadd : (add engine validator batch).perform world = some (outcome, next)) :
    PoolStep engine world next := by
  rcases add_perform_cases hadd with ⟨number, -, hpooled⟩ | ⟨-, -, rfl⟩
  · exact poolStep_of_addToPool hpooled
  · exact .kept rfl

theorem poolStep_of_swapSlot {number : Nat} {new : Validator} {outcome : Except TrustError Unit}
    (hswap : (swapSlot number new).perform world = some (outcome, next)) :
    PoolStep engine world next := by
  cases hcan : canBeSwappedIn new with
  | true =>
    obtain ⟨previous, hslot⟩ := exists_slot_of_swapSlot world hcan hswap
    rw [swapSlot_perform world hslot hcan] at hswap
    cases hswap
    exact .kept rfl
  | false =>
    rw [swapSlot_perform_refused world hcan] at hswap
    cases hswap
    exact .kept rfl

theorem poolStep_of_build {builder : Builder} {outcome : Except TrustError Validator}
    (hbuild : (build engine builder).perform world = some (outcome, next)) :
    PoolStep engine world next := by
  obtain ⟨events, hevents⟩ := build_perform engine builder world
  rw [hbuild, Option.some.injEq] at hevents
  split at hevents
  · cases hevents
    exact .kept rfl
  · split at hevents
    · cases hevents
      exact .kept rfl
    · cases hevents
      exact .kept rfl

/-- Roots are added to a pool, or pools stay as they are. -/
theorem poolStep_of_renew {validator : Validator} {material : IssuedMaterial}
    {outcome : Except TrustError Renewal}
    (hrenew : (renew engine validator material).perform world = some (outcome, next)) :
    PoolStep engine world next := by
  cases renewStep hrenew with
  | pooled hroots hfound hpool hnext => exact .added hpool (by rw [hnext])
  | swapped hroots hunfound hslot hprevious hanchored hnext => exact .kept (by rw [hnext]; rfl)
  | noRoots hroots hnext => exact .kept (by rw [hnext])
  | refused hroots hunfound hslot hanchored hnext => exact .kept (by rw [hnext])
  | unsupported hroots hunfound hkind hnext => exact .kept (by rw [hnext])

/-- A sound pool stays sound in a world in which it is replaced by what an addition leaves. -/
theorem PoolStep.sound (hstep : PoolStep engine world next) (hsound : world.PoolsSound engine) :
    next.PoolsSound engine := by
  cases hstep with
  | kept hpools =>
    rw [PoolsSound, hpools]
    exact hsound
  | made hcreate hpools =>
    rw [PoolsSound, hpools]
    exact List.forall_mem_append.mpr
      ⟨hsound, List.forall_mem_singleton.mpr (Pool.of_create hcreate).1⟩
  | @added number pool batch hpool hpools =>
    rw [PoolsSound, hpools]
    intro other hmem
    have hpoolSound : pool.Sound engine := hsound pool (List.mem_of_getElem? hpool)
    have hadded : Pool.AddStep Files.append engine pool world.files batch _ := hpoolSound.addStep
    rcases List.mem_or_eq_of_mem_set hmem with hmem | rfl
    · exact hsound other hmem
    · exact hadded.sound hpoolSound

end

end World

/-- **Step lemma.** Whatever an operation does, the pools stay as they are, or one more is made, or
certificates are added to one of them. -/
theorem Operation.poolStep {engine : Engine} {world next : World} {operation : Operation}
    (hnext : operation.next? engine world = some next) : World.PoolStep engine world next := by
  cases operation with
  | makeBase certificates algorithm =>
    obtain ⟨⟨outcome, after⟩, hperform, rfl⟩ := Option.map_eq_some_iff.mp hnext
    exact World.poolStep_of_onlyTells (World.makeBase_onlyTells engine _ _) hperform
  | makePool options =>
    rw [next?, World.makePool_perform] at hnext
    cases hpool : Pool.create engine world.files options with
    | error error =>
      rw [hpool] at hnext
      cases hnext
      exact .kept rfl
    | ok pool =>
      rw [hpool] at hnext
      cases hnext
      exact .made hpool rfl
  | makeSlot inner =>
    rw [next?, World.makeSlot_perform] at hnext
    cases hnext
    exact .kept rfl
  | makeCollector =>
    rw [next?, World.makeCollector_perform] at hnext
    cases hnext
    exact .kept rfl
  | combine validators =>
    obtain ⟨⟨outcome, after⟩, hperform, rfl⟩ := Option.map_eq_some_iff.mp hnext
    exact World.poolStep_of_onlyTells (World.combine_onlyTells validators) hperform
  | build builder =>
    obtain ⟨⟨outcome, after⟩, hperform, rfl⟩ := Option.map_eq_some_iff.mp hnext
    exact World.poolStep_of_build hperform
  | validate now validator context =>
    rw [next?, World.validate_perform] at hnext
    obtain ⟨⟨outcome, after⟩, hperform, rfl⟩ := Option.map_eq_some_iff.mp hnext
    obtain ⟨judged, -, hjudged⟩ := Option.map_eq_some_iff.mp hperform
    cases hjudged
    exact .kept (world.applyAll_kept _).2.1
  | add validator batch =>
    obtain ⟨⟨outcome, after⟩, hperform, rfl⟩ := Option.map_eq_some_iff.mp hnext
    exact World.poolStep_of_add hperform
  | swap validator new =>
    obtain ⟨⟨outcome, after⟩, hperform, rfl⟩ := Option.map_eq_some_iff.mp hnext
    cases validator with
    | hotSwappable slot => exact World.poolStep_of_swapSlot hperform
    | _ =>
      cases hperform
      exact .kept rfl
  | renew validator material =>
    obtain ⟨⟨outcome, after⟩, hperform, rfl⟩ := Option.map_eq_some_iff.mp hnext
    exact World.poolStep_of_renew hperform
  | refresh validator issued =>
    obtain ⟨⟨outcome, after⟩, hperform, rfl⟩ := Option.map_eq_some_iff.mp hnext
    cases issued with
    | error error =>
      cases hperform
      exact .kept rfl
    | ok material => exact World.poolStep_of_renew hperform
  | clearCollector number =>
    cases hnext
    exact .kept rfl
  | changeFiles files =>
    cases hnext
    exact .kept rfl

/-- **Run lemma.** Where all pools are sound at first, all pools stay sound, and new ones are. -/
theorem World.Run.pools_sound {engine : Engine} {first last : World}
    {history : List (World × Operation)} (hrun : Run engine first history last)
    (hfirst : first.PoolsSound engine) : last.PoolsSound engine := by
  induction hrun with
  | start => exact hfirst
  | step hrun hfits hnext ih => exact (Operation.poolStep hnext).sound ih

end PeerTrust
