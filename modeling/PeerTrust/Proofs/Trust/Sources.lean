import PeerTrust.Proofs.Trust.Verdicts
import PeerTrust.Proofs.Trust.Stores

/-!
# Where anchors come from

All anchors of a validator are those of the fixed sets of anchors and of the pools that it is made
of. The pool that certificates are added to is the first one among them.
-/

namespace PeerTrust.Snapshot

mutual

/-- The fixed anchors and the pools that a validator is made of, in the order in which they are come
to, from the first member of a composite to the last. -/
def sources : Snapshot → List Snapshot
  | .base anchored => [.base anchored]
  | .composite members => sourcesOfAll members
  | .inflatable pool published predicate => [.inflatable pool published predicate]
  | .hotSwappable _ delegate => sources delegate
  | .enhanceable inner _ => sources inner
  | .logging inner => sources inner
  | .capturing _ inner => sources inner
  | .trustAll => []
  | .dummy => []

/-- The sources of several validators, one after the other. -/
def sourcesOfAll : List Snapshot → List Snapshot
  | [] => []
  | member :: rest => sources member ++ sourcesOfAll rest

end

/-- The number of a pool. -/
def poolNumber? : Snapshot → Option Nat
  | .inflatable pool _ _ => some pool
  | _ => none

/-- The pools that a validator is made of, in the order in which they are come to. -/
def pools (snapshot : Snapshot) : List Nat := snapshot.sources.filterMap poolNumber?

section
variable {members : List Snapshot} {source : Snapshot} {issuer : Certificate}

theorem mem_sourcesOfAll :
    source ∈ sourcesOfAll members ↔ ∃ member ∈ members, source ∈ member.sources := by
  induction members with
  | nil => simp [sourcesOfAll]
  | cons member rest ih => simp [sourcesOfAll, ih]

theorem mem_issuersOfAll {known : List Certificate} : issuer ∈ issuersOfAll known members ↔
    issuer ∈ known ∨ ∃ member ∈ members, issuer ∈ member.issuers := by
  induction members generalizing known with
  | nil => simp [issuersOfAll]
  | cons member rest ih =>
    rw [issuersOfAll, ih, mem_extendUnique, List.exists_mem_cons_iff, or_assoc]

/-- The first pool of several validators is the first one of all their pools. -/
theorem firstPool?_eq (hmembers : ∀ member ∈ members, member.pool? = member.pools.head?) :
    firstPool? members = ((sourcesOfAll members).filterMap poolNumber?).head? := by
  induction members with
  | nil => rfl
  | cons member rest ih =>
    obtain ⟨hfirst, hrest⟩ := List.forall_mem_cons.mp hmembers
    rw [firstPool?, sourcesOfAll, List.filterMap_append, List.head?_append, hfirst, ih hrest, pools]

/-- The pool that certificates are added to is the first one that is come to. -/
theorem pool?_eq_head? (snapshot : Snapshot) : snapshot.pool? = snapshot.pools.head? := by
  induction snapshot with
  | base anchored => rfl
  | composite members ih => exact firstPool?_eq ih
  | inflatable pool published predicate => rfl
  | hotSwappable slot delegate ih => exact ih
  | enhanceable inner enhancer ih => exact ih
  | logging inner ih => exact ih
  | capturing collector inner ih => exact ih
  | trustAll => rfl
  | dummy => rfl

/-- The issuers are those of the sources. -/
theorem mem_issuers_iff (snapshot : Snapshot) :
    issuer ∈ snapshot.issuers ↔ ∃ source ∈ snapshot.sources, issuer ∈ source.issuers := by
  induction snapshot with
  | base anchored => simp [sources]
  | composite members ih =>
    rw [issuers, mem_issuersOfAll, or_iff_right List.not_mem_nil]
    constructor
    · rintro ⟨member, hmember, hissuer⟩
      obtain ⟨source, hsource, hissuer⟩ := (ih member hmember).mp hissuer
      exact ⟨source, mem_sourcesOfAll.mpr ⟨member, hmember, hsource⟩, hissuer⟩
    · rintro ⟨source, hsource, hissuer⟩
      obtain ⟨member, hmember, hsource⟩ := mem_sourcesOfAll.mp hsource
      exact ⟨member, hmember, (ih member hmember).mpr ⟨source, hsource, hissuer⟩⟩
  | inflatable pool published predicate => simp [sources]
  | hotSwappable slot delegate ih => exact ih
  | enhanceable inner enhancer ih => exact ih
  | logging inner ih => exact ih
  | capturing collector inner ih => exact ih
  | trustAll => simp [sources, issuers]
  | dummy => simp [sources, issuers]

end

end PeerTrust.Snapshot
