import PeerTrust.Proofs.Tls.Session
import PeerTrust.Proofs.Trust.Issuers
import PeerTrust.Proofs.World.Knots
import PeerTrust.Proofs.World.Pools

/-!
# Programs

A program works with the validators that it was given by operations, or that it made of those. Three
invariants hold of it, whatever it does: all fixed anchors were read from stores as stores can be
made, everything that its validators name is there, and all pools are sound. The contents of slots
are no exception, since operations put nothing into slots but what the program had, and what they
made of it.
-/

namespace PeerTrust

/-- The validators that a program can have come to have in a world. The stores that it gives to
builders are such as can be made, and it records chains in collectors that are there. -/
inductive Program (engine : Engine) : World → List Validator → Prop
  | start (files : Files) (environment : List (String × String)) :
      Program engine (.start files environment) []
  /-- An operation on validators of the program. A validator that it makes is one of them then. -/
  | operate {world next : World} {validators : List Validator} {operation : Operation}
      (hprogram : Program engine world validators)
      (hgiven : ∀ given ∈ operation.validators, given ∈ validators)
      (hstores : ∀ anchors ∈ operation.stores, anchors.IsMade)
      (hnext : operation.next? engine world = some next) :
      Program engine next ((operation.made? engine world).toList ++ validators)
  | make {world : World} {validators : List Validator} {validator : Validator}
      (hprogram : Program engine world validators) (hmade : validator.MadeOf validators)
      (hhas : world.Has validator) : Program engine world (validator :: validators)
  /-- The program gets hold of what lies one layer below a validator. -/
  | unwrap {world : World} {validators : List Validator} {validator child : Validator}
      (hprogram : Program engine world validators) (hmem : validator ∈ validators)
      (hchild : Validator.Child world.slots validator child) :
      Program engine world (child :: validators)
  /-- Mode flags change, and the log is told so. -/
  | switch {world : World} {validators : List Validator} (hprogram : Program engine world validators)
      (modes : List Mode) (events : List Event) :
      Program engine { world.tell events with modes } validators

section
variable {engine : Engine} {usable : Store → Prop} {world next : World}
  {validators : List Validator} {validator part : Validator}

/-- What an anchored validator reaches is anchored, if the contents of slots are. -/
theorem Anchored.of_reaches (hanchored : Anchored engine usable validator)
    (hslots : ∀ delegate ∈ world.slots, Anchored engine usable delegate)
    (hpart : validator.Reaches world.slots part) : Anchored engine usable part := by
  induction hpart with
  | refl => exact hanchored
  | tail _ hchild ih => exact hchild.anchored ih hslots

/-- Everything that a validator names is there if it was there for those that it is made of. -/
theorem Validator.MadeOf.covers (hmade : validator.MadeOf validators) (hhas : world.Has validator)
    (hvalidators : ∀ validator ∈ validators, world.Covers validator) : world.Covers validator :=
  hmade.everywhere world.has_isOfParts trivial hhas hvalidators

/-- Everything that a validator names is there when an operation has made it. -/
theorem World.MadeStep.covers (hmade : World.MadeStep world.Covers world next validator)
    {swapped : Option (Nat × Validator)} (hstep : World.Step world.Covers world next swapped) :
    next.Covers validator := by
  cases hmade with
  | inherited hcovers => exact hstep.covers hcovers
  | pool hpools =>
    have hlt : world.pools.length < next.pools.length := by omega
    exact World.covers_inflatable hlt
  | slot hdelegate hslots =>
    refine World.covers_hotSwappable ?_ (hstep.covers hdelegate)
    rw [hslots, List.getElem?_concat_length]

namespace Program

/-- **Run lemma.** All fixed anchors of a program come from stores as they can be made, also those
in slots. -/
theorem anchored (hprogram : Program engine world validators) :
    (∀ validator ∈ validators, Anchored engine Store.IsMade validator) ∧
    ∀ delegate ∈ world.slots, Anchored engine Store.IsMade delegate := by
  induction hprogram with
  | start files environment => exact ⟨List.forall_mem_nil _, List.forall_mem_nil _⟩
  | operate hprogram hgiven hstores hnext ih =>
    obtain ⟨hvalidators, hslots⟩ := ih
    exact Operation.anchored .ofList hvalidators hslots hgiven hstores hnext
  | make hprogram hmade hhas ih =>
    obtain ⟨hvalidators, hslots⟩ := ih
    exact ⟨List.forall_mem_cons.mpr ⟨hmade.anchored hvalidators, hvalidators⟩, hslots⟩
  | unwrap hprogram hmem hchild ih =>
    obtain ⟨hvalidators, hslots⟩ := ih
    have hanchored := hchild.anchored (hvalidators _ hmem) hslots
    exact ⟨List.forall_mem_cons.mpr ⟨hanchored, hvalidators⟩, hslots⟩
  | switch hprogram modes events ih => exact ih

/-- **Run lemma.** Everything that the validators of a program name is there, and so is everything
that the contents of slots name. -/
theorem covers (hprogram : Program engine world validators) :
    (∀ validator ∈ validators, world.Covers validator) ∧ world.Whole := by
  induction hprogram with
  | start files environment => exact ⟨List.forall_mem_nil _, World.start_whole files environment⟩
  | @operate world next validators operation hprogram hgiven hstores hnext ih =>
    obtain ⟨hvalidators, hwhole⟩ := ih
    have hfits : operation.FitsIn world := fun given hmem => hvalidators given (hgiven given hmem)
    have hstep := Operation.step hfits hnext
    -- What the operation makes names what was there before, or something that it has just opened.
    have hmade : ∀ made ∈ (operation.made? engine world).toList, next.Covers made := by
      intro made hmem
      have hmadeStep := Operation.madeStep (World.covers_inherited engine world) hfits
        (fun _ _ => trivial) hnext (Option.mem_toList.mp hmem)
      exact hmadeStep.covers hstep
    have hkept : ∀ validator ∈ validators, next.Covers validator :=
      fun validator hmem => hstep.covers (hvalidators validator hmem)
    exact ⟨List.forall_mem_append.mpr ⟨hmade, hkept⟩, hstep.whole hwhole⟩
  | make hprogram hmade hhas ih =>
    obtain ⟨hvalidators, hwhole⟩ := ih
    exact ⟨List.forall_mem_cons.mpr ⟨hmade.covers hhas hvalidators, hvalidators⟩, hwhole⟩
  | unwrap hprogram hmem hchild ih =>
    obtain ⟨hvalidators, hwhole⟩ := ih
    have hcovers := (hvalidators _ hmem).of_reaches (hchild.reaches .refl)
    exact ⟨List.forall_mem_cons.mpr ⟨hcovers, hvalidators⟩, hwhole⟩
  | switch hprogram modes events ih => exact ih

/-- **Run lemma.** All pools are sound. -/
theorem pools_sound (hprogram : Program engine world validators) : world.PoolsSound engine := by
  induction hprogram with
  | start files environment => exact List.forall_mem_nil _
  | operate hprogram hgiven hstores hnext ih => exact (Operation.poolStep hnext).sound ih
  | make hprogram hmade hhas ih => exact ih
  | unwrap hprogram hmem hchild ih => exact ih
  | switch hprogram modes events ih => exact ih

end Program

end

end PeerTrust
