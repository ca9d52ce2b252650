import PeerTrust.Proofs.World.Run
import PeerTrust.Tls.Adapter

/-!
# Sessions

A program gets its validators by operations, by wrapping and combining those it has, and by taking
them apart. All fixed anchors among the parts of such validators come from stores, and so do those
of the validators in slots, whatever is swapped.
-/

namespace PeerTrust

/-- Fixed anchors come from a usable store. -/
def FromStore (engine : Engine) (usable : Store → Prop) : Validator → Prop
  | .base anchored => ∃ anchors, usable anchors ∧ Base.ofStore engine anchors = .ok anchored
  | _ => True

/-- All fixed anchors among the parts of a validator come from usable stores. -/
def Anchored (engine : Engine) (usable : Store → Prop) (validator : Validator) : Prop :=
  validator.Everywhere [] (FromStore engine usable)

/-- What can be made of validators without a change to the world. -/
inductive Validator.MadeOf (validators : List Validator) : Validator → Prop
  | composite {members : List Validator} (hmembers : ∀ member ∈ members, member ∈ validators) :
      MadeOf validators (ofMembers members)
  | enhanceable {inner : Validator} (hinner : inner ∈ validators) (enhancer : Option Enhancer) :
      MadeOf validators (.enhanceable inner enhancer)
  | logging {inner : Validator} (hinner : inner ∈ validators) : MadeOf validators (.logging inner)
  | recording {inner : Option Validator} (hinner : ∀ validator ∈ inner, validator ∈ validators)
      (collector : Nat) : MadeOf validators (.recording collector inner)
  | trustAll : MadeOf validators .trustAll
  | dummy : MadeOf validators .dummy

/-- The world and the validators and verifiers that a program has come to have. -/
inductive Session (engine : Engine) : World → List Validator → List ClientVerifier → Prop
  | start (files : Files) (environment : List (String × String)) :
      Session engine (.start files environment) [] []
  /-- An operation on validators of the program. A validator that it makes is one of them then. -/
  | operate {world next : World} {validators : List Validator} {verifiers : List ClientVerifier}
      {operation : Operation} (hsession : Session engine world validators verifiers)
      (hgiven : ∀ given ∈ operation.validators, given ∈ validators)
      (hnext : operation.next? engine world = some next) :
      Session engine next ((operation.made? engine world).toList ++ validators) verifiers
  | make {world : World} {validators : List Validator} {verifiers : List ClientVerifier}
      {validator : Validator} (hsession : Session engine world validators verifiers)
      (hmade : validator.MadeOf validators) :
      Session engine world (validator :: validators) verifiers
  /-- The program gets hold of what lies one layer below a validator. -/
  | unwrap {world : World} {validators : List Validator} {verifiers : List ClientVerifier}
      {validator child : Validator} (hsession : Session engine world validators verifiers)
      (hmem : validator ∈ validators) (hchild : Validator.Child world.slots validator child) :
      Session engine world (child :: validators) verifiers
  | verify {world next : World} {validators : List Validator} {verifiers : List ClientVerifier}
      {validator : Validator} {isMandatory : Bool} {mode : Option Nat} {verifier : ClientVerifier}
      (hsession : Session engine world validators verifiers) (hmem : validator ∈ validators)
      (hmake : (ClientVerifier.make engine validator isMandatory mode).perform world =
        some (.ok verifier, next)) :
      Session engine next validators (verifier :: verifiers)
  /-- Mode flags change, and the log is told so. -/
  | switch {world : World} {validators : List Validator} {verifiers : List ClientVerifier}
      (hsession : Session engine world validators verifiers) (modes : List Mode)
      (events : List Event) : Session engine { world.tell events with modes } validators verifiers

section
variable {engine : Engine} {usable : Store → Prop} {validators : List Validator}
  {validator : Validator}

theorem fromStore_isOfParts (engine : Engine) (usable : Store → Prop) :
    Validator.IsOfParts (FromStore engine usable) :=
  ⟨fun _ => trivial, fun _ => trivial, fun _ _ => trivial⟩

theorem anchored_inherited (engine : Engine)
    (hofList : ∀ certificates, usable (.ofList certificates)) :
    Inherited engine usable (Anchored engine usable) :=
  Validator.everywhere_inherited (fromStore_isOfParts engine usable) hofList
    fun husable h => ⟨_, husable, h⟩

theorem anchored_inflatable (pool : Nat) : Anchored engine usable (.inflatable pool) :=
  Validator.everywhere_iff.mpr ⟨trivial, fun _ hchild => by cases hchild⟩

/-- What a slot holds is not a part of the validator that the slot is. -/
theorem anchored_hotSwappable (slot : Nat) : Anchored engine usable (.hotSwappable slot) :=
  Validator.everywhere_iff.mpr ⟨trivial, fun _ hchild => by
    cases hchild with
    | delegate hslot => cases hslot⟩

/-- What holds everywhere in validators holds everywhere in what can be made of them, if it holds of
that itself. -/
theorem Validator.MadeOf.everywhere {slots : List Validator} {property : Validator → Prop}
    (hmade : validator.MadeOf validators) (hparts : IsOfParts property)
    (htrustAll : property .trustAll) (htop : property validator)
    (hvalidators : ∀ validator ∈ validators, Everywhere slots property validator) :
    Everywhere slots property validator := by
  have haccepting : Everywhere slots property .trustAll :=
    everywhere_iff.mpr ⟨htrustAll, fun _ hchild => by cases hchild⟩
  cases hmade with
  | composite hmembers =>
    exact everywhere_ofMembers hparts fun member hmem => hvalidators member (hmembers member hmem)
  | enhanceable hinner enhancer => exact everywhere_enhanceable hparts (hvalidators _ hinner) _
  | logging hinner => exact everywhere_logging hparts (hvalidators _ hinner)
  | @recording inner hinner collector =>
    refine everywhere_iff.mpr ⟨htop, fun child hchild => ?_⟩
    cases hchild
    cases inner with
    | none => exact haccepting
    | some inner => exact hvalidators inner (hinner inner rfl)
  | trustAll => exact haccepting
  | dummy => exact everywhere_iff.mpr ⟨htop, fun _ hchild => by cases hchild⟩

/-- What can be made of anchored validators is anchored. -/
theorem Validator.MadeOf.anchored (hmade : validator.MadeOf validators)
    (hvalidators : ∀ validator ∈ validators, Anchored engine usable validator) :
    Anchored engine usable validator := by
  have htop : FromStore engine usable validator := by cases hmade <;> exact trivial
  exact hmade.everywhere (fromStore_isOfParts engine usable) trivial htop hvalidators

/-- What lies one layer below an anchored validator is anchored, if the contents of slots are. -/
theorem Validator.Child.anchored {slots : List Validator} {child : Validator}
    (hchild : Child slots validator child) (hvalidator : Anchored engine usable validator)
    (hslots : ∀ delegate ∈ slots, Anchored engine usable delegate) : Anchored engine usable child := by
  by_cases hslot : ∃ number, validator = .hotSwappable number
  · obtain ⟨number, rfl⟩ := hslot
    cases hchild with
    | delegate hdelegate => exact hslots child (List.mem_of_getElem? hdelegate)
  · have hpart : Child [] validator child :=
      hchild.imp fun number heq _ => absurd ⟨number, heq⟩ hslot
    exact (everywhere_iff.mp hvalidator).2 child hpart

/-- What an operation makes of anchored validators is anchored. -/
theorem World.MadeStep.anchored {world next : World}
    (hmade : World.MadeStep (Anchored engine usable) world next validator) :
    Anchored engine usable validator := by
  cases hmade with
  | inherited hanchored => exact hanchored
  | pool hpools => exact anchored_inflatable _
  | slot hdelegate hslots => exact anchored_hotSwappable _

/-- If what an operation is given is anchored and so are the contents of all slots, then these still
are after the operation. -/
theorem Operation.slots_anchored {world next : World} {operation : Operation}
    (hofList : ∀ certificates, usable (.ofList certificates))
    (hslots : ∀ delegate ∈ world.slots, Anchored engine usable delegate)
    (hgiven : ∀ given ∈ operation.validators, Anchored engine usable given)
    (hstores : ∀ anchors ∈ operation.stores, usable anchors)
    (hnext : operation.next? engine world = some next) :
    ∀ delegate ∈ next.slots, Anchored engine usable delegate := by
  have hinherited := anchored_inherited engine hofList
  have hstep := (step_of_inherited hinherited hgiven hstores hnext).slots
  generalize operation.swapped? engine world = swapped at hstep
  cases hstep with
  | kept heq =>
    rw [heq]
    exact hslots
  | opened hplaced heq =>
    rw [heq]
    exact List.forall_mem_append.mpr ⟨hslots, List.forall_mem_singleton.mpr hplaced⟩
  | swapped hprevious hplaced heq =>
    rw [heq]
    intro delegate hmem
    rcases List.mem_or_eq_of_mem_set hmem with hmem | rfl
    · exact hslots delegate hmem
    · exact World.successor_of_logging (fun _ => hinherited.logging) hplaced

/-- **Step lemma.** If all that a program has is anchored and so are the contents of all slots, then
they still are after an operation, together with what the operation makes. -/
theorem Operation.anchored {world next : World} {operation : Operation}
    (hofList : ∀ certificates, usable (.ofList certificates))
    (hvalidators : ∀ validator ∈ validators, Anchored engine usable validator)
    (hslots : ∀ delegate ∈ world.slots, Anchored engine usable delegate)
    (hgiven : ∀ given ∈ operation.validators, given ∈ validators)
    (hstores : ∀ anchors ∈ operation.stores, usable anchors)
    (hnext : operation.next? engine world = some next) :
    (∀ validator ∈ (operation.made? engine world).toList ++ validators,
      Anchored engine usable validator) ∧
    ∀ delegate ∈ next.slots, Anchored engine usable delegate := by
  have hinherited := anchored_inherited engine hofList
  have hanchored : ∀ given ∈ operation.validators, Anchored engine usable given :=
    fun given hmem => hvalidators given (hgiven given hmem)
  have hmade : ∀ made ∈ (operation.made? engine world).toList, Anchored engine usable made := by
    intro made hmem
    have hstep := madeStep hinherited hanchored hstores hnext (Option.mem_toList.mp hmem)
    exact hstep.anchored
  exact ⟨List.forall_mem_append.mpr ⟨hmade, hvalidators⟩,
    slots_anchored hofList hslots hanchored hstores hnext⟩

/-- Making a verifier changes nothing. -/
theorem ClientVerifier.world_of_make {world next : World} {isMandatory : Bool} {mode : Option Nat}
    {outcome : Except TrustError ClientVerifier}
    (hmake : (make engine validator isMandatory mode).perform world = some (outcome, next)) :
    next = world := by
  unfold make at hmake
  split at hmake
  · cases hmake
    rfl
  · rw [Action.perform_snapshot_bind] at hmake
    obtain ⟨snapshot, -, hmake⟩ := Option.bind_eq_some_iff.mp hmake
    cases hmake
    rfl

/-- **Run lemma.** In a session all validators are anchored, those in slots included. -/
theorem Session.anchored {world : World} {verifiers : List ClientVerifier}
    (hsession : Session engine world validators verifiers) :
    (∀ validator ∈ validators, Anchored engine (fun _ => True) validator) ∧
    ∀ delegate ∈ world.slots, Anchored engine (fun _ => True) delegate := by
  induction hsession with
  | start files environment => exact ⟨List.forall_mem_nil _, List.forall_mem_nil _⟩
  | operate hsession hgiven hnext ih =>
    obtain ⟨hvalidators, hslots⟩ := ih
    exact Operation.anchored (fun _ => trivial) hvalidators hslots hgiven (fun _ _ => trivial) hnext
  | make hsession hmade ih =>
    obtain ⟨hvalidators, hslots⟩ := ih
    exact ⟨List.forall_mem_cons.mpr ⟨hmade.anchored hvalidators, hvalidators⟩, hslots⟩
  | unwrap hsession hmem hchild ih =>
    obtain ⟨hvalidators, hslots⟩ := ih
    have hanchored := hchild.anchored (hvalidators _ hmem) hslots
    exact ⟨List.forall_mem_cons.mpr ⟨hanchored, hvalidators⟩, hslots⟩
  | verify hsession hmem hmake ih =>
    rw [ClientVerifier.world_of_make hmake]
    exact ih
  | switch hsession modes events ih => exact ih

end

end PeerTrust
