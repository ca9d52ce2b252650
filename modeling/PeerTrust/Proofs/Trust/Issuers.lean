import PeerTrust.Proofs.Trust.Sources

/-!
# Issuers

The issuers of a validator are the anchors of the fixed sets of anchors and of the pools that it is
made of, one set after the other in the order in which they are come to, each certificate at its
first occurrence. Composites inside of composites collect their issuers on their own before they are
put together, which makes no difference.
-/

namespace PeerTrust

/-- Taking up certificates one after the other keeps the first occurrence of each. -/
theorem extendUnique_nil (certificates : List Certificate) :
    extendUnique [] certificates = certificates.eraseDups := by
  induction certificates using List.reverseRecOn with
  | nil => rfl
  | append_singleton certificates last ih =>
    rw [extendUnique_concat, ih, List.eraseDups_append, addUnique]
    by_cases hmem : last ∈ certificates
    · have hknown : last ∈ certificates.eraseDups := List.mem_eraseDups.mpr hmem
      simp [hmem, hknown, List.removeAll]
    · have hnew : last ∉ certificates.eraseDups := fun h => hmem (List.mem_eraseDups.mp h)
      simp [hmem, hnew, List.removeAll, List.eraseDups_cons]

/-- Stores as they can be made: empty, of a list of certificates, or by adding a certificate. -/
inductive Store.IsMade : Store → Prop
  | empty : IsMade .empty
  | ofList (certificates : List Certificate) : IsMade (.ofList certificates)
  | add {store : Store} (hstore : IsMade store) (certificate : Certificate) :
      IsMade (store.add certificate)

/-- No certificate is in a store twice. -/
theorem Store.IsMade.nodup {store : Store} (hstore : store.IsMade) : store.certificates.Nodup := by
  induction hstore with
  | empty => exact List.nodup_nil
  | ofList certificates => exact extendUnique_nodup List.nodup_nil
  | add hstore certificate ih => exact addUnique_nodup ih

namespace Base

/-- Fixed anchors of which none is there twice, each read from its certificate. -/
structure IsProper (engine : Engine) (base : Base) : Prop where
  nodup : base.issuers.Nodup
  anchors : List.Forall₂ (fun issuer root => engine.anchor issuer = .ok root)
    base.issuers base.roots

/-- Validators are made with proper anchors. -/
theorem isProper_of_ofStore {engine : Engine} {store : Store} {base : Base}
    (hstore : store.certificates.Nodup) (h : ofStore engine store = .ok base) :
    base.IsProper engine := by
  obtain ⟨roots, hroots, h⟩ := Except.bind_eq_ok.mp h
  cases h
  refine ⟨hstore, (Except.mapM_eq_ok.mp hroots).imp ?_⟩
  intro certificate root hroot
  exact Except.mapError_eq_ok.mp hroot

end Base

namespace Snapshot

/-- The anchors of a validator that has some of its own. -/
def base? : Snapshot → Option Base
  | .base anchored => some anchored
  | .inflatable _ published _ => some published
  | _ => none

/-- The sets of anchors that a validator is made of, in the order in which they are come to. -/
def bases (snapshot : Snapshot) : List Base := snapshot.sources.filterMap base?

section
variable {members : List Snapshot}

/-- The issuers of several validators are those of all sets of anchors among them. -/
theorem issuersOfAll_eq_extendUnique (known : List Certificate)
    (hmembers : ∀ member ∈ members,
      member.issuers = extendUnique [] (member.bases.flatMap Base.issuers)) :
    issuersOfAll known members =
      extendUnique known (((sourcesOfAll members).filterMap base?).flatMap Base.issuers) := by
  induction members generalizing known with
  | nil => rfl
  | cons member rest ih =>
    obtain ⟨hfirst, hrest⟩ := List.forall_mem_cons.mp hmembers
    -- Repetitions that the first member dropped by itself would be dropped here anyway.
    rw [issuersOfAll, ih _ hrest, hfirst, extendUnique_extendUnique, sourcesOfAll,
      List.filterMap_append, List.flatMap_append, extendUnique_append]
    rfl

/-- **First occurrences.** A validator whose sets of anchors have no repetitions has as its issuers
what they have together, each certificate at its first occurrence. -/
theorem issuers_eq_eraseDups (snapshot : Snapshot)
    (hbases : ∀ base ∈ snapshot.bases, base.issuers.Nodup) :
    snapshot.issuers = (snapshot.bases.flatMap Base.issuers).eraseDups := by
  rw [← extendUnique_nil]
  have hself {anchored : Base} (hnodup : anchored.issuers.Nodup) :
      anchored.issuers = extendUnique [] ([anchored].flatMap Base.issuers) := by
    rw [List.flatMap_singleton, extendUnique_of_nodup (by rwa [List.nil_append]), List.nil_append]
  induction snapshot with
  | base anchored => exact hself (hbases anchored List.mem_cons_self)
  | composite members ih =>
    refine issuersOfAll_eq_extendUnique [] fun member hmember => ih member hmember ?_
    intro base hbase
    obtain ⟨source, hsource, hanchors⟩ := List.mem_filterMap.mp hbase
    have hmem : source ∈ sourcesOfAll members :=
      mem_sourcesOfAll.mpr ⟨member, hmember, hsource⟩
    exact hbases base (List.mem_filterMap.mpr ⟨source, hmem, hanchors⟩)
  | inflatable pool published predicate => exact hself (hbases published List.mem_cons_self)
  | hotSwappable slot delegate ih => exact ih hbases
  | enhanceable inner enhancer ih => exact ih hbases
  | logging inner ih => exact ih hbases
  | capturing collector inner ih => exact ih hbases
  | trustAll => rfl
  | dummy => rfl

end

end Snapshot

end PeerTrust
