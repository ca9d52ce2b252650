import PeerTrust.Trust.Snapshot

/-!
# Induction along the layers of a validator

Validators, their snapshots and rejections hold lists of their own kind. The principles here give an
induction hypothesis for every member of such a list, so that a proof has one case for each kind.
-/

namespace PeerTrust

/-- Induction on a rejection: the rejection of several validators after all its parts. -/
@[elab_as_elim, induction_eliminator]
theorem Rejection.induction {motive : Rejection → Prop}
    (untrusted : ∀ fault, motive (.untrusted fault)) (emptyChain : motive .emptyChain)
    (declined : motive .declined)
    (all : ∀ rejections, (∀ rejection ∈ rejections, motive rejection) → motive (.all rejections))
    (rejection : Rejection) : motive rejection :=
  @Rejection.rec motive (fun rejections => ∀ rejection ∈ rejections, motive rejection)
    untrusted emptyChain declined all (fun _ hnil => absurd hnil List.not_mem_nil)
    (fun _ _ hhead htail => List.forall_mem_cons.mpr ⟨hhead, htail⟩) rejection

/-- Induction on a validator: a composite after all its members, and every other validator after the
one it wraps. What stands in a slot is not part of the validator. -/
@[elab_as_elim, induction_eliminator]
theorem Validator.induction {motive : Validator → Prop}
    (base : ∀ anchored, motive (.base anchored))
    (composite : ∀ members, (∀ member ∈ members, motive member) → motive (.composite members))
    (inflatable : ∀ pool, motive (.inflatable pool))
    (hotSwappable : ∀ slot, motive (.hotSwappable slot))
    (enhanceable : ∀ inner enhancer, motive inner → motive (.enhanceable inner enhancer))
    (logging : ∀ inner, motive inner → motive (.logging inner))
    (capturing : ∀ collector inner, motive inner → motive (.capturing collector inner))
    (trustAll : motive .trustAll) (dummy : motive .dummy) (validator : Validator) :
    motive validator :=
  @Validator.rec motive (fun members => ∀ member ∈ members, motive member)
    base composite inflatable hotSwappable enhanceable logging capturing trustAll dummy
    (fun _ hnil => absurd hnil List.not_mem_nil)
    (fun _ _ hhead htail => List.forall_mem_cons.mpr ⟨hhead, htail⟩) validator

/-- Induction on a snapshot: a composite after all its members, and every other snapshot after the
one it wraps or delegates to. -/
@[elab_as_elim, induction_eliminator]
theorem Snapshot.induction {motive : Snapshot → Prop}
    (base : ∀ anchored, motive (.base anchored))
    (composite : ∀ members, (∀ member ∈ members, motive member) → motive (.composite members))
    (inflatable : ∀ pool published predicate, motive (.inflatable pool published predicate))
    (hotSwappable : ∀ slot delegate, motive delegate → motive (.hotSwappable slot delegate))
    (enhanceable : ∀ inner enhancer, motive inner → motive (.enhanceable inner enhancer))
    (logging : ∀ inner, motive inner → motive (.logging inner))
    (capturing : ∀ collector inner, motive inner → motive (.capturing collector inner))
    (trustAll : motive .trustAll) (dummy : motive .dummy) (snapshot : Snapshot) :
    motive snapshot :=
  @Snapshot.rec motive (fun members => ∀ member ∈ members, motive member)
    base composite inflatable hotSwappable enhanceable logging capturing trustAll dummy
    (fun _ hnil => absurd hnil List.not_mem_nil)
    (fun _ _ hhead htail => List.forall_mem_cons.mpr ⟨hhead, htail⟩) snapshot

end PeerTrust
