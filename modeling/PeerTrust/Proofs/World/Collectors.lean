import PeerTrust.Proofs.Trust.Captures
import PeerTrust.Proofs.World.Run

/-!
# What collectors hold

Collectors are filled by validations and emptied by clearing them, and nothing else changes what
they hold. So a collector holds what was recorded in it since it was last cleared, in the order of
the validations.
-/

namespace PeerTrust

/-- What effects record in one collector. -/
def recordedIn (collector : Nat) (effects : List Effect) : List Certificate :=
  (recorded effects).flatMap fun (number, chain) => if number = collector then chain else []

/-- A validation appends what it records. -/
theorem World.getElem?_collectors_applyAll (world : World) (effects : List Effect)
    (collector : Nat) : (world.applyAll effects).collectors[collector]? =
      world.collectors[collector]?.map (· ++ recordedIn collector effects) := by
  induction effects generalizing world with
  | nil => simp [applyAll, recordedIn, recorded]
  | cons effect rest ih =>
    rw [applyAll, List.foldl_cons, ← applyAll, ih]
    cases effect with
    | tell event => rfl
    | record number chain =>
      have hcons : recordedIn collector (.record number chain :: rest) =
          (if number = collector then chain else []) ++ recordedIn collector rest := rfl
      rw [hcons, apply, List.getElem?_modify]
      by_cases hsame : number = collector
      · simp [hsame, Function.comp_def]
      · simp [hsame]

namespace Action

/-- An action that leaves all collectors as they are, whether it fails or not. -/
def KeepsCollectors {α : Type} (action : Action α) : Prop :=
  ∀ world outcome next, action.perform world = some (outcome, next) →
    next.collectors = world.collectors

theorem OnlyTells.keepsCollectors {α : Type} {action : Action α}
    {outcome : Files → List (String × String) → Except TrustError α}
    (htells : action.OnlyTells outcome) : action.KeepsCollectors := by
  intro world result next hperform
  obtain ⟨events, hevents⟩ := htells world
  rw [hevents] at hperform
  cases hperform
  rfl

end Action

namespace World

variable {engine : Engine}

theorem makePool_keepsCollectors (options : Pool.Options) :
    (makePool engine options).KeepsCollectors := by
  intro world outcome next hperform
  rw [makePool_perform] at hperform
  split at hperform
  · cases hperform
    rfl
  · cases hperform
    rfl

theorem makeSlot_keepsCollectors (inner : Validator) : (makeSlot inner).KeepsCollectors := by
  intro world outcome next hperform
  rw [makeSlot_perform] at hperform
  cases hperform
  rfl

theorem build_keepsCollectors (builder : Builder) : (build engine builder).KeepsCollectors := by
  intro world outcome next hperform
  obtain ⟨events, hevents⟩ := build_perform engine builder world
  rw [hperform, Option.some.injEq] at hevents
  split at hevents
  · cases hevents
    rfl
  · split at hevents
    · cases hevents
      rfl
    · cases hevents
      rfl

theorem addToPool_keepsCollectors (number : Nat) (batch : List Certificate) :
    (addToPool engine number batch).KeepsCollectors := by
  intro world outcome next hperform
  cases hpool : world.pools[number]? with
  | none => simp [addToPool, hpool] at hperform
  | some pool =>
    rw [addToPool_perform engine world hpool] at hperform
    cases hperform
    rfl

theorem add_keepsCollectors (validator : Validator) (batch : List Certificate) :
    (add engine validator batch).KeepsCollectors := by
  intro world outcome next hperform
  rcases add_perform_cases hperform with ⟨number, -, hpooled⟩ | ⟨-, -, rfl⟩
  · exact addToPool_keepsCollectors number batch world outcome next hpooled
  · rfl

theorem swap_keepsCollectors (validator new : Validator) :
    (swap validator new).KeepsCollectors := by
  intro world outcome next hperform
  cases validator with
  | hotSwappable slot =>
    change (swapSlot slot new).perform world = _ at hperform
    cases hcan : canBeSwappedIn new with
    | true =>
      obtain ⟨previous, hslot⟩ := exists_slot_of_swapSlot world hcan hperform
      rw [swapSlot_perform world hslot hcan] at hperform
      cases hperform
      rfl
    | false =>
      rw [swapSlot_perform_refused world hcan] at hperform
      cases hperform
      rfl
  | _ =>
    cases hperform
    rfl

theorem renew_keepsCollectors (validator : Validator) (material : IssuedMaterial) :
    (renew engine validator material).KeepsCollectors := by
  intro world outcome next hperform
  cases renewStep hperform with
  | pooled hroots hfound hpool hnext => rw [hnext]
  | swapped hroots hunfound hslot hprevious hanchored hnext => rw [hnext, tell]
  | noRoots hroots hnext => rw [hnext]
  | refused hroots hunfound hslot hanchored hnext => rw [hnext]
  | unsupported hroots hunfound hkind hnext => rw [hnext]

theorem refresh_keepsCollectors (validator : Validator)
    (issued : Except TrustError IssuedMaterial) :
    (refresh engine validator issued).KeepsCollectors := by
  intro world outcome next hperform
  cases issued with
  | error error =>
    cases hperform
    rfl
  | ok material => exact renew_keepsCollectors validator material world outcome next hperform

end World

namespace Operation

/-- Whether an operation clears a collector. -/
def clears (collector : Nat) : Operation → Prop
  | .clearCollector number => number = collector
  | _ => False

instance (collector : Nat) (operation : Operation) : Decidable (operation.clears collector) := by
  unfold clears
  split <;> infer_instance

/-- What an operation records in a collector: what a validation does. -/
def recordedIn (engine : Engine) (world : World) (collector : Nat) : Operation → List Certificate
  | .validate now validator context =>
      match world.judge engine now validator context with
      | some (_, effects) => PeerTrust.recordedIn collector effects
      | none => []
  | _ => []

/-- What a collector holds after an operation. -/
def held (engine : Engine) (collector : Nat) (contents : List Certificate)
    (moment : World × Operation) : List Certificate :=
  if moment.2.clears collector then []
  else contents ++ moment.2.recordedIn engine moment.1 collector

section
variable {engine : Engine} {world next : World} {operation : Operation} {collector : Nat}
  {contents : List Certificate}

/-- An operation that leaves collectors as they are leaves the contents of each as they are. -/
theorem getElem?_of_kept (hholds : world.collectors[collector]? = some contents)
    (hkept : next.collectors = world.collectors) :
    next.collectors[collector]? = some (contents ++ []) := by
  rw [hkept, List.append_nil]
  exact hholds

/-- **Step lemma.** An operation clears a collector, or appends to it what it records. -/
theorem collectors_next (hnext : operation.next? engine world = some next)
    (hholds : world.collectors[collector]? = some contents) :
    next.collectors[collector]? = some (held engine collector contents (world, operation)) := by
  have hkept {α : Type} {action : Action α} (hkeeps : action.KeepsCollectors)
      (hafter : (action.perform world).map Prod.snd = some next) :
      next.collectors[collector]? = some (contents ++ []) := by
    obtain ⟨⟨outcome, after⟩, hperform, rfl⟩ := Option.map_eq_some_iff.mp hafter
    exact getElem?_of_kept hholds (hkeeps world outcome after hperform)
  cases operation with
  | makeBase certificates algorithm =>
    exact hkept (World.makeBase_onlyTells engine _ _).keepsCollectors hnext
  | makePool options => exact hkept (World.makePool_keepsCollectors options) hnext
  | makeSlot inner => exact hkept (World.makeSlot_keepsCollectors inner) hnext
  | makeCollector =>
    rw [next?, World.makeCollector_perform] at hnext
    cases hnext
    have hlt := (List.getElem?_eq_some_iff.mp hholds).1
    dsimp only
    rw [List.getElem?_append_left hlt, hholds, held]
    simp [clears, recordedIn]
  | combine validators =>
    exact hkept (World.combine_onlyTells validators).keepsCollectors hnext
  | build builder => exact hkept (World.build_keepsCollectors builder) hnext
  | validate now validator context =>
    rw [next?, World.validate_perform] at hnext
    obtain ⟨⟨outcome, after⟩, hperform, rfl⟩ := Option.map_eq_some_iff.mp hnext
    obtain ⟨judged, hjudged, hafter⟩ := Option.map_eq_some_iff.mp hperform
    cases hafter
    dsimp only
    rw [World.getElem?_collectors_applyAll, hholds, held]
    simp [clears, recordedIn, hjudged]
  | add validator batch => exact hkept (World.add_keepsCollectors validator batch) hnext
  | swap validator new => exact hkept (World.swap_keepsCollectors validator new) hnext
  | renew validator material => exact hkept (World.renew_keepsCollectors validator material) hnext
  | refresh validator issued => exact hkept (World.refresh_keepsCollectors validator issued) hnext
  | clearCollector number =>
    cases hnext
    change (world.collectors.set number [])[collector]? = _
    by_cases hsame : number = collector
    · subst hsame
      have hlt := (List.getElem?_eq_some_iff.mp hholds).1
      have hclears : (clearCollector number).clears number := rfl
      rw [List.getElem?_set_self hlt, held, if_pos hclears]
    · have hclears : ¬ (clearCollector number).clears collector := hsame
      have hnone : (clearCollector number).recordedIn engine world collector = [] := rfl
      rw [List.getElem?_set_ne hsame, hholds, held, if_neg hclears, hnone, List.append_nil]
  | changeFiles files =>
    cases hnext
    exact getElem?_of_kept hholds rfl

end

end Operation

namespace World

section
variable {engine : Engine} {first last : World} {history : List (World × Operation)}
  {collector : Nat} {initial : List Certificate}

/-- **Run lemma.** What a collector holds comes from what it held at first by the operations, one
after the other. -/
theorem Run.collectors_eq (hrun : Run engine first history last)
    (hfirst : first.collectors[collector]? = some initial) :
    last.collectors[collector]? =
      some (history.foldl (Operation.held engine collector) initial) := by
  induction hrun with
  | start => exact hfirst
  | step hrun hfits hnext ih =>
    rw [List.foldl_append]
    exact Operation.collectors_next hnext ih

/-- What a collector holds that is not cleared. -/
theorem foldl_held_of_not_cleared
    (hclears : ∀ moment ∈ history, ¬ moment.2.clears collector) (initial : List Certificate) :
    history.foldl (Operation.held engine collector) initial =
      initial ++ history.flatMap fun moment => moment.2.recordedIn engine moment.1 collector := by
  induction history generalizing initial with
  | nil => rw [List.foldl_nil, List.flatMap_nil, List.append_nil]
  | cons moment rest ih =>
    obtain ⟨hmoment, hrest⟩ := List.forall_mem_cons.mp hclears
    rw [List.foldl_cons, ih hrest, Operation.held, if_neg hmoment, List.flatMap_cons,
      List.append_assoc]

/-- What a collector holds that was cleared, and not again since then. -/
theorem foldl_held_of_cleared {earlier since : List (World × Operation)}
    {moment : World × Operation} (hclears : moment.2.clears collector)
    (hsince : ∀ later ∈ since, ¬ later.2.clears collector) (initial : List Certificate) :
    (earlier ++ moment :: since).foldl (Operation.held engine collector) initial =
      since.flatMap fun later => later.2.recordedIn engine later.1 collector := by
  rw [List.foldl_append, List.foldl_cons, foldl_held_of_not_cleared hsince, Operation.held,
    if_pos hclears, List.nil_append]

end

end World

end PeerTrust
