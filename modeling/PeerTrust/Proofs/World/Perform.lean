import Mathlib.Control.Monad.Basic
import PeerTrust.Proofs.Failing
import PeerTrust.World.Mutation

/-!
# What actions do

An action either does not return, or it leaves an outcome and a world behind. The lemmas here say so
for the steps that actions are made of, and for the actions on validators they give the outcome and
the world left behind in one equation each.
-/

namespace PeerTrust

namespace Action

section
variable {α β : Type} (world : World)

@[simp] theorem perform_pure (value : α) :
    (pure value : Action α).perform world = some (.ok value, world) := rfl

/-- The second of two actions is done in the world that the first one leaves, unless that fails. -/
@[simp] theorem perform_bind (action : Action α) (next : α → Action β) :
    (action >>= next).perform world =
      (action.perform world).bind fun
        | (.ok value, after) => (next value).perform after
        | (.error error, after) => some (.error error, after) := by
  change (action.perform world).bind
    (fun result => (ExceptT.bindCont next result.1).run result.2) = _
  congr 1
  funext ⟨outcome, after⟩
  cases outcome <;> rfl

@[simp] theorem perform_map (action : Action α) (change : α → β) :
    (change <$> action).perform world =
      (action.perform world).map fun (outcome, after) => (change <$> outcome, after) := by
  rw [← bind_pure_comp, perform_bind]
  cases action.perform world with
  | none => rfl
  | some result =>
    obtain ⟨outcome, after⟩ := result
    cases outcome <;> rfl

@[simp] theorem perform_throw (error : TrustError) :
    (throw error : Action α).perform world = some (.error error, world) := rfl

@[simp] theorem perform_get : (get : Action World).perform world = some (.ok world, world) := rfl

@[simp] theorem perform_set (after : World) :
    (set after : Action PUnit).perform world = some (.ok ⟨⟩, after) := rfl

@[simp] theorem perform_modify (change : World → World) :
    (modify change : Action PUnit).perform world = some (.ok ⟨⟩, change world) := rfl

@[simp] theorem perform_diverge : (diverge : Action α).perform world = none := rfl

@[simp] theorem perform_tell (events : List Event) :
    (tell events).perform world = some (.ok (), world.tell events) := rfl

@[simp] theorem perform_ofExcept (value : Except TrustError α) :
    (ofExcept value).perform world = some (value, world) := by
  cases value <;> rfl

@[simp] theorem perform_ofOption (value : Option α) :
    (ofOption value).perform world = value.map fun value => (.ok value, world) := by
  cases value <;> rfl

/-- What is done with the world is done in it. -/
theorem perform_get_bind (next : World → Action β) :
    (get >>= next).perform world = (next world).perform world := rfl

/-- What is done with a value that is there is done in the same world. -/
theorem perform_ofOption_bind (value : Option α) (next : α → Action β) :
    (ofOption value >>= next).perform world = value.bind fun value => (next value).perform world := by
  cases value <;> rfl

/-- What is done with the snapshot of a validator is done in the same world. -/
theorem perform_snapshot_bind (validator : Validator) (next : Snapshot → Action β) :
    (snapshot validator >>= next).perform world =
      (world.snapshot? validator).bind fun snapshot => (next snapshot).perform world := by
  rw [snapshot, perform_bind, perform_get_bind, perform_ofOption]
  cases world.snapshot? validator <;> rfl

end

section
variable {α : Type} {action : Action α} {world after : World}

/-- The value that an action gives, unless it fails. -/
def value? (action : Action α) (world : World) : Option α :=
  match action.perform world with
  | some (.ok value, _) => some value
  | _ => none

/-- The error that an action fails with. -/
def failure? (action : Action α) (world : World) : Option TrustError :=
  match action.perform world with
  | some (.error error, _) => some error
  | _ => none

theorem value?_eq_some {value : α} :
    action.value? world = some value ↔ ∃ after, action.perform world = some (.ok value, after) := by
  unfold value?
  split
  · rename_i other after hperform
    rw [hperform]
    constructor
    · intro h
      cases h
      exact ⟨after, rfl⟩
    · rintro ⟨after, h⟩
      cases h
      rfl
  · rename_i hnot
    refine iff_of_false nofun ?_
    rintro ⟨after, h⟩
    exact hnot value after h

/-- An action that gives a value leaves the world that it leaves. -/
theorem perform_of_value? {value : α} (hvalue : action.value? world = some value)
    (hafter : (action.perform world).map Prod.snd = some after) :
    action.perform world = some (.ok value, after) := by
  obtain ⟨last, hperform⟩ := value?_eq_some.mp hvalue
  rw [hperform] at hafter ⊢
  cases hafter
  rfl

theorem failure?_of_ok {value : α} (h : action.perform world = some (.ok value, after)) :
    action.failure? world = none := by
  rw [failure?, h]

theorem failure?_of_error {error : TrustError}
    (h : action.perform world = some (.error error, after)) :
    action.failure? world = some error := by
  rw [failure?, h]

end

/-- An action that does nothing but tell the log. Its outcome depends on the files and on the
environment only. -/
def OnlyTells {α : Type} (action : Action α)
    (outcome : Files → List (String × String) → Except TrustError α) : Prop :=
  ∀ world : World, ∃ events, action.perform world =
    some (outcome world.files world.environment, world.tell events)

namespace OnlyTells

variable {α β : Type}

protected theorem pure (value : α) : OnlyTells (pure value) fun _ _ => .ok value := fun world =>
  ⟨[], by simp [World.tell]⟩

protected theorem ofExcept (value : Except TrustError α) :
    OnlyTells (ofExcept value) fun _ _ => value := fun world => ⟨[], by simp [World.tell]⟩

protected theorem tell (events : List Event) : OnlyTells (tell events) fun _ _ => .ok () :=
  fun world => ⟨events, perform_tell world events⟩

/-- If the first of two actions fails, the second one is not done. -/
protected theorem bind {action : Action α} {next : α → Action β}
    {outcome : Files → List (String × String) → Except TrustError α}
    {outcomeNext : α → Files → List (String × String) → Except TrustError β}
    (haction : OnlyTells action outcome)
    (hnext : ∀ value, OnlyTells (next value) (outcomeNext value)) :
    OnlyTells (action >>= next) (fun files environment =>
      outcome files environment >>= fun value => outcomeNext value files environment) := by
  intro world
  obtain ⟨events, hevents⟩ := haction world
  rw [perform_bind, hevents, Option.bind_some]
  dsimp only
  cases houtcome : outcome world.files world.environment with
  | error error => exact ⟨events, rfl⟩
  | ok value =>
    obtain ⟨later, hlater⟩ := hnext value (world.tell events)
    refine ⟨events ++ later, hlater.trans ?_⟩
    simp only [World.tell, List.append_assoc]
    rfl

section
variable {action : Action α} {outcome : Files → List (String × String) → Except TrustError α}
  {world : World}

theorem value?_eq_some {value : α} (haction : OnlyTells action outcome) :
    action.value? world = some value ↔ outcome world.files world.environment = .ok value := by
  obtain ⟨events, hevents⟩ := haction world
  rw [value?, hevents]
  cases outcome world.files world.environment <;> simp

theorem failure?_eq_some {error : TrustError} (haction : OnlyTells action outcome) :
    action.failure? world = some error ↔ outcome world.files world.environment = .error error := by
  obtain ⟨events, hevents⟩ := haction world
  rw [failure?, hevents]
  cases outcome world.files world.environment <;> simp

end

/-- Actions for the elements of a list, one after the other until one fails. -/
protected theorem mapM {action : α → Action β}
    {outcome : α → Files → List (String × String) → Except TrustError β}
    (haction : ∀ element, OnlyTells (action element) (outcome element)) (elements : List α) :
    OnlyTells (elements.mapM action) fun files environment =>
      elements.mapM fun element => outcome element files environment := by
  induction elements with
  | nil => exact .pure []
  | cons element rest ih =>
    simp only [List.mapM_cons]
    exact (haction element).bind fun first => ih.bind fun others => .pure (first :: others)

end OnlyTells

end Action

namespace World

section
variable (engine : Engine) (world : World)

/-- A validation gives the verdict about the chain, if there is one, and does what that brings about.
-/
theorem validate_perform (now : Nat) (validator : Validator) (context : Context) :
    (validate engine now validator context).perform world =
      (world.judge engine now validator context).map fun (verdict, effects) =>
        (.ok verdict, world.applyAll effects) := by
  rw [validate, Action.perform_get_bind, Action.perform_ofOption_bind]
  cases world.judge engine now validator context <;> rfl

/-- A pool that is made comes after all others. -/
theorem makePool_perform (options : Pool.Options) :
    (makePool engine options).perform world =
      some (match Pool.create engine world.files options with
        | .ok pool => (.ok (.inflatable world.pools.length),
            { world.tell pool.creationEvents with pools := world.pools ++ [pool] })
        | .error error => (.error error, world)) := by
  cases h : Pool.create engine world.files options <;> simp [makePool, h, tell]

/-- A slot that is made comes after all others. -/
theorem makeSlot_perform (validator : Validator) :
    (makeSlot validator).perform world =
      some (.ok (.hotSwappable world.slots.length),
        { world with slots := world.slots ++ [validator] }) := by
  simp [makeSlot]

theorem makeCollector_perform :
    makeCollector.perform world =
      some (.ok world.collectors.length,
        { world with collectors := world.collectors ++ [[]] }) := by
  simp [makeCollector]

/-- An addition to a pool that is there replaces the pool and the files, whether it fails or not. -/
theorem addToPool_perform {number : Nat} {pool : Pool} (hpool : world.pools[number]? = some pool)
    (batch : List Certificate) :
    (addToPool engine number batch).perform world =
      let added := pool.add Files.append engine world.files batch
      some (added.outcome, { world with
        pools := world.pools.set number added.pool
        files := added.storage
        log := world.log ++ added.events }) := by
  simp [addToPool, hpool]

/-- An addition to a pool returns only if the pool is there. -/
theorem exists_pool_of_addToPool {number : Nat} {batch : List Certificate} {after : World}
    {outcome : Except TrustError Nat}
    (hadd : (addToPool engine number batch).perform world = some (outcome, after)) :
    ∃ pool, world.pools[number]? = some pool := by
  cases hpool : world.pools[number]? with
  | none => simp [addToPool, hpool] at hadd
  | some pool => exact ⟨pool, rfl⟩

/-- A swap puts a validator that can stand in a slot into the slot. -/
theorem swapSlot_perform {number : Nat} {previous new : Validator}
    (hslot : world.slots[number]? = some previous) (hcan : canBeSwappedIn new = true) :
    (swapSlot number new).perform world =
      some (.ok (), { world.tell [.swapped previous.kind (successor previous new).kind] with
        slots := world.slots.set number (successor previous new) }) := by
  simp [swapSlot, hcan, hslot, tell]

/-- A swap to any other validator is refused because of the kind of that validator. -/
theorem swapSlot_perform_refused {new : Validator} (hcan : canBeSwappedIn new = false)
    (number : Nat) :
    (swapSlot number new).perform world =
      some (.error (.invalidSwapTarget new.kind), world.tell [.swapRefused new.kind]) := by
  simp [swapSlot, hcan]

/-- A swap that returns finds the slot, unless it is refused. -/
theorem exists_slot_of_swapSlot {number : Nat} {new : Validator} {after : World}
    {outcome : Except TrustError Unit} (hcan : canBeSwappedIn new = true)
    (hswap : (swapSlot number new).perform world = some (outcome, after)) :
    ∃ previous, world.slots[number]? = some previous := by
  cases hslot : world.slots[number]? with
  | none => simp [swapSlot, hcan, hslot] at hswap
  | some previous => exact ⟨previous, rfl⟩

end

/-- A validator with fixed anchors is made of the certificates of a store. -/
theorem makeBase_onlyTells (engine : Engine) (store : Store) (algorithm : Algorithm) :
    (makeBase engine store algorithm).OnlyTells fun _ _ => do
      algorithm.check
      return .base (← Base.ofStore engine store) :=
  (Action.OnlyTells.ofExcept algorithm.check).bind fun _ =>
    (Action.OnlyTells.ofExcept (Base.ofStore engine store)).bind fun base =>
      (Action.OnlyTells.tell base.events).bind fun _ => .pure (Validator.base base)

/-- A validator that is made of a store has the fixed anchors of the store. -/
theorem makeBase_ok {engine : Engine} {store : Store} {algorithm : Algorithm} {world after : World}
    {validator : Validator}
    (h : (makeBase engine store algorithm).perform world = some (.ok validator, after)) :
    ∃ anchored events, Base.ofStore engine store = .ok anchored ∧ validator = .base anchored ∧
      after = world.tell events := by
  obtain ⟨events, hevents⟩ := makeBase_onlyTells engine store algorithm world
  rw [hevents, Option.some.injEq, Prod.mk.injEq] at h
  obtain ⟨houtcome, hafter⟩ := h
  obtain ⟨-, -, hstore⟩ := Except.bind_eq_ok.mp houtcome
  obtain ⟨anchored, hanchored, hvalidator⟩ := Except.bind_eq_ok.mp hstore
  cases hvalidator
  exact ⟨anchored, events, hanchored, rfl, hafter.symm⟩

/-- What making a validator of a store by the default algorithm comes to. -/
theorem makeBase_default_perform (engine : Engine) (store : Store) (world : World) :
    (makeBase engine store .default).perform world =
      some (match Base.ofStore engine store with
        | .ok anchored => (.ok (.base anchored), world.tell anchored.events)
        | .error error => (.error error, world)) := by
  have hknown : Algorithm.default.check = .ok () := rfl
  cases h : Base.ofStore engine store <;> simp [makeBase, hknown, h]

section
variable {engine : Engine} {world : World} {validator : Validator} {material : IssuedMaterial}

/-- An addition is made to the pool that the validator reaches. -/
theorem add_perform_pool {number : Nat} (hfound : world.findPool validator = some (some number))
    (batch : List Certificate) :
    (add engine validator batch).perform world =
      (addToPool engine number batch).perform world := by
  simp [add, hfound]

/-- Without a pool, an addition is not supported. -/
theorem add_perform_unsupported (hunfound : world.findPool validator = some none)
    (batch : List Certificate) :
    (add engine validator batch).perform world =
      some (.error (.unsupported (.addition validator.kind)), world) := by
  simp [add, hunfound]

/-- Everything that an addition can come to: one to a pool, or none because there is no pool. -/
theorem add_perform_cases {batch : List Certificate} {outcome : Except TrustError Nat}
    {after : World} (hadd : (add engine validator batch).perform world = some (outcome, after)) :
    (∃ number, world.findPool validator = some (some number) ∧
      (addToPool engine number batch).perform world = some (outcome, after)) ∨
    world.findPool validator = some none ∧
      outcome = .error (.unsupported (.addition validator.kind)) ∧ after = world := by
  cases hfound : world.findPool validator with
  | none => simp [add, hfound] at hadd
  | some found =>
    cases found with
    | some number =>
      rw [add_perform_pool hfound] at hadd
      exact Or.inl ⟨number, rfl, hadd⟩
    | none =>
      rw [add_perform_unsupported hfound] at hadd
      cases hadd
      exact Or.inr ⟨rfl, rfl, rfl⟩

/-- Material without roots is of no use. -/
theorem renew_perform_noRoots (hroots : material.roots = []) :
    (renew engine validator material).perform world =
      some (.error (.configuration .noRoots), world) := by
  simp [renew, hroots]

/-- Roots are taken up by the pool that the validator reaches, or without one. -/
theorem renew_perform_found (hroots : material.roots ≠ []) {found : Option Nat}
    (hfound : world.findPool validator = some found) :
    (renew engine validator material).perform world =
      (takeUp engine validator material.roots found).perform world := by
  simp [renew, hroots, hfound]

/-- Roots are added to the pool that the validator reaches. -/
theorem renew_perform_pool (hroots : material.roots ≠ []) {number : Nat} {pool : Pool}
    (hfound : world.findPool validator = some (some number))
    (hpool : world.pools[number]? = some pool) :
    (renew engine validator material).perform world =
      let added := pool.add Files.append engine world.files material.roots
      let after : World := { world with
        pools := world.pools.set number added.pool
        files := added.storage
        log := world.log ++ added.events }
      some (match added.outcome with
        | .ok count => (.ok (.inflated count), after.tell [.rootsAdded count])
        | .error error => (.error error, after)) := by
  rw [renew_perform_found hroots hfound, takeUp, Action.perform_bind,
    addToPool_perform engine world hpool]
  dsimp only [Option.bind_some]
  cases (pool.add Files.append engine world.files material.roots).outcome <;> rfl

/-- Without a pool, a slot is given a validator that trusts the roots if all of them are anchors. -/
theorem renew_perform_slot (hroots : material.roots ≠ []) {number : Nat} {previous : Validator}
    (hunfound : world.findPool (.hotSwappable number) = some none)
    (hslot : world.slots[number]? = some previous) :
    (renew engine (.hotSwappable number) material).perform world =
      let store := Store.ofList material.roots
      some (match Base.ofStore engine store with
        | .ok anchored =>
          let current := successor previous (.base anchored)
          let events : List Event := anchored.events ++
            [.swapped previous.kind current.kind, .rootsSwapped store.certificates.length]
          (.ok .swapped, { world.tell events with slots := world.slots.set number current })
        | .error error => (.error error, world)) := by
  rw [renew_perform_found hroots hunfound, takeUp, Action.perform_bind, makeBase_default_perform]
  dsimp only
  cases Base.ofStore engine (Store.ofList material.roots) with
  | error error => rfl
  | ok anchored =>
    have hcan : canBeSwappedIn (.base anchored) = true := rfl
    have htold : (world.tell anchored.events).slots[number]? = some previous := hslot
    dsimp only [Option.bind_some]
    rw [Action.perform_bind, swapSlot_perform _ htold hcan]
    simp [tell]

/-- A validator of this kind is a slot. -/
theorem exists_slot_of_kind {validator : Validator} (h : validator.kind = .hotSwappable) :
    ∃ slot, validator = .hotSwappable slot := by
  cases validator with
  | hotSwappable slot => exact ⟨slot, rfl⟩
  | _ => cases h

/-- Without a pool, no other validator can be renewed. -/
theorem renew_perform_unsupported (hroots : material.roots ≠ [])
    (hunfound : world.findPool validator = some none) (hkind : validator.kind ≠ .hotSwappable) :
    (renew engine validator material).perform world =
      some (.error (.unsupported (.renewal validator.kind)), world) := by
  rw [renew_perform_found hroots hunfound]
  cases validator with
  | hotSwappable number => exact absurd rfl hkind
  | _ => rfl

end

theorem loadPlatform_onlyTells (engine : Engine) : (loadPlatform engine).OnlyTells
    fun files environment => (Platform.load engine files environment).2 := by
  intro world
  refine ⟨(Platform.load engine world.files world.environment).1, ?_⟩
  simp [loadPlatform]

theorem combine_onlyTells (validators : List Validator) :
    (combine validators).OnlyTells fun _ _ => Validator.combine validators := by
  intro world
  cases h : Validator.combine validators with
  | error error => exact ⟨[], by simp [combine, h, tell]⟩
  | ok combined => exact ⟨Validator.promotionEvents validators, by simp [combine, h]⟩

end World

/-- The validator that a source brings with it. -/
def Source.given? : Source → Option Validator
  | .validator given => some given
  | _ => none

/-- The store that a source brings with it. -/
def Source.store? : Source → Option Store
  | .store anchors _ => some anchors
  | _ => none

/-- The validator of a source, if the source can be turned into one. -/
def Source.validator? (engine : Engine) (files : Files) (environment : List (String × String)) :
    Source → Except TrustError Validator
  | .validator given => .ok given
  | .store anchors algorithm => do
      algorithm.check
      return .base (← Base.ofStore engine anchors)
  | .platform => do
      return .base (← Base.ofStore engine (← (Platform.load engine files environment).2))

/-- What a builder puts together of its sources, apart from the slot that it may stand in. -/
def Builder.inner? (engine : Engine) (files : Files) (environment : List (String × String))
    (builder : Builder) : Except TrustError Validator :=
  if builder.sources.isEmpty then .error .noSources
  else do
    let validators ← builder.sources.mapM fun source => source.validator? engine files environment
    return builder.log (builder.decide validators)

namespace World

theorem materialize_onlyTells (engine : Engine) (source : Source) :
    (materialize engine source).OnlyTells fun files environment =>
      source.validator? engine files environment := by
  cases source with
  | validator validator => exact .pure validator
  | store store algorithm => exact makeBase_onlyTells engine store algorithm
  | platform =>
    exact (loadPlatform_onlyTells engine).bind fun store =>
      makeBase_onlyTells engine store .default

/-- A builder tells the log what it does, and opens a slot if it is told to. -/
theorem build_perform (engine : Engine) (builder : Builder) (world : World) :
    ∃ events, (build engine builder).perform world =
      some (match builder.inner? engine world.files world.environment with
        | .error error => (.error error, world.tell events)
        | .ok inner =>
          if builder.swappable then (.ok (.hotSwappable world.slots.length),
            { world.tell events with slots := world.slots ++ [inner] })
          else (.ok inner, world.tell events)) := by
  unfold build Builder.inner?
  by_cases hempty : builder.sources.isEmpty
  · exact ⟨[], by simp [hempty, tell]⟩
  · obtain ⟨events, hevents⟩ :=
      Action.OnlyTells.mapM (materialize_onlyTells engine) builder.sources world
    cases hsources : builder.sources.mapM
        (Source.validator? engine world.files world.environment) with
    | error error => exact ⟨events, by simp [hempty, hevents, hsources]⟩
    | ok validators =>
      by_cases hslot : builder.swappable
      · refine ⟨events ++ Validator.promotionEvents validators ++
          [.built .hotSwappable builder.logging true], ?_⟩
        simp [hempty, hevents, hsources, hslot, makeSlot_perform, tell, Validator.kind]
      · refine ⟨events ++ Validator.promotionEvents validators ++
          [.built (builder.log (builder.decide validators)).kind builder.logging false], ?_⟩
        simp [hempty, hevents, hsources, hslot, tell]

end World

end PeerTrust
