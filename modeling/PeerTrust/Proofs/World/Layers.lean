import Mathlib.Data.List.Forall2
import PeerTrust.Proofs.Trust.Enhancers
import PeerTrust.Proofs.Trust.Sources
import PeerTrust.Proofs.World.Depth

/-!
# Snapshots layer by layer

The snapshot of a validator is put together of the snapshots one layer below it, also where that
layer is the validator in a slot. So a statement about validators and their snapshots can be proved
layer by layer: that a snapshot has just the fixed anchors and the pools that its validator reaches,
and just the custom decisions.
-/

namespace PeerTrust

/-- The members of a list have their snapshots one by one. -/
theorem Validator.snapshotsWith_eq_some {pool slot : Nat → Option Snapshot}
    {members : List Validator} {snapshots : List Snapshot} :
    snapshotsWith pool slot members = some snapshots ↔
      List.Forall₂ (fun member inside => member.snapshotWith pool slot = some inside)
        members snapshots := by
  induction members generalizing snapshots with
  | nil =>
    rw [snapshotsWith, Option.some.injEq, List.forall₂_nil_left_iff]
    exact eq_comm
  | cons member rest ih =>
    simp only [snapshotsWith, Option.bind_eq_bind, Option.bind_eq_some_iff, Option.pure_def,
      Option.some.injEq, List.forall₂_cons_left_iff, ih]
    constructor
    · rintro ⟨first, hfirst, others, hothers, rfl⟩
      exact ⟨first, others, hfirst, hothers, rfl⟩
    · rintro ⟨first, others, hfirst, hothers, rfl⟩
      exact ⟨first, hfirst, others, hothers, rfl⟩

namespace World

section
variable {world : World} {snapshot : Snapshot}

/-- A snapshot is put together of snapshots of pools and slots. -/
theorem snapshot?_eq (world : World) : ∃ slot : Nat → Option Snapshot, ∀ validator,
    world.snapshot? validator = validator.snapshotWith world.poolSnapshot? slot := by
  obtain ⟨slot, hsnapshot, -⟩ := world.snapshotWithin_eq world.slots.length
  exact ⟨slot, hsnapshot⟩

theorem snapshot?_base (anchored : Base) :
    world.snapshot? (.base anchored) = some (.base anchored) := by
  obtain ⟨slot, hsnapshot⟩ := world.snapshot?_eq
  rw [hsnapshot, Validator.snapshotWith]

theorem snapshot?_inflatable (number : Nat) :
    world.snapshot? (.inflatable number) = world.poolSnapshot? number := by
  obtain ⟨slot, hsnapshot⟩ := world.snapshot?_eq
  rw [hsnapshot, Validator.snapshotWith]

theorem snapshot?_enhanceable (inner : Validator) (enhancer : Option Enhancer) :
    world.snapshot? (.enhanceable inner enhancer) =
      (world.snapshot? inner).map (.enhanceable · enhancer) := by
  obtain ⟨slot, hsnapshot⟩ := world.snapshot?_eq
  rw [hsnapshot, hsnapshot, Validator.snapshotWith]

theorem snapshot?_capturing (collector : Nat) (inner : Validator) :
    world.snapshot? (.capturing collector inner) =
      (world.snapshot? inner).map (.capturing collector) := by
  obtain ⟨slot, hsnapshot⟩ := world.snapshot?_eq
  rw [hsnapshot, hsnapshot, Validator.snapshotWith]

theorem snapshot?_trustAll : world.snapshot? .trustAll = some .trustAll := by
  obtain ⟨slot, hsnapshot⟩ := world.snapshot?_eq
  rw [hsnapshot, Validator.snapshotWith]

theorem snapshot?_dummy : world.snapshot? .dummy = some .dummy := by
  obtain ⟨slot, hsnapshot⟩ := world.snapshot?_eq
  rw [hsnapshot, Validator.snapshotWith]

theorem snapshot?_composite {members : List Validator} :
    world.snapshot? (.composite members) = some snapshot ↔ ∃ snapshots, List.Forall₂
      (fun member inside => world.snapshot? member = some inside) members snapshots ∧
      snapshot = .composite snapshots := by
  obtain ⟨slot, hsnapshot⟩ := world.snapshot?_eq
  simp only [hsnapshot, Validator.snapshotWith, Option.map_eq_some_iff,
    Validator.snapshotsWith_eq_some, @eq_comm _ snapshot]

theorem snapshot?_pool {number : Nat} (h : world.snapshot? (.inflatable number) = some snapshot) :
    ∃ pool, world.pools[number]? = some pool ∧ snapshot = pool.snapshot number := by
  rw [snapshot?_inflatable] at h
  obtain ⟨pool, hpool, rfl⟩ := Option.map_eq_some_iff.mp h
  exact ⟨pool, hpool, rfl⟩

/-- A slot with a snapshot is there, and the validator in it has one. -/
theorem snapshot?_slot {slot : Nat} (h : world.snapshot? (.hotSwappable slot) = some snapshot) :
    ∃ delegate inside, world.slots[slot]? = some delegate ∧
      world.snapshot? delegate = some inside ∧ snapshot = .hotSwappable slot inside := by
  have hlt : slot < world.slots.length :=
    slot_lt_of_snapshotWithin (Option.isSome_of_mem h) .refl
  have hslot := List.getElem?_eq_getElem hlt
  rw [snapshot?_hotSwappable hslot] at h
  obtain ⟨inside, hinside, rfl⟩ := Option.map_eq_some_iff.mp h
  exact ⟨_, inside, hslot, hinside, rfl⟩

/-- **Induction along the layers.** What is shown of a validator with its snapshot may be assumed of
all validators one layer below it with theirs, the one in a slot included. -/
@[elab_as_elim]
theorem layer_induction
    {motive : ∀ validator snapshot, world.snapshot? validator = some snapshot → Prop}
    (base : ∀ anchored, motive (.base anchored) (.base anchored) (snapshot?_base anchored))
    (composite : ∀ members snapshots h, List.Forall₂
      (fun member inside => ∃ h : world.snapshot? member = some inside, motive member inside h)
      members snapshots → motive (.composite members) (.composite snapshots) h)
    (inflatable : ∀ number pool h, world.pools[number]? = some pool →
      motive (.inflatable number) (pool.snapshot number) h)
    (hotSwappable : ∀ slot delegate inside h, world.slots[slot]? = some delegate →
      ∀ hinside, motive delegate inside hinside →
      motive (.hotSwappable slot) (.hotSwappable slot inside) h)
    (enhanceable : ∀ inner enhancer inside h hinside, motive inner inside hinside →
      motive (.enhanceable inner enhancer) (.enhanceable inside enhancer) h)
    (logging : ∀ inner inside h hinside, motive inner inside hinside →
      motive (.logging inner) (.logging inside) h)
    (capturing : ∀ collector inner inside h hinside, motive inner inside hinside →
      motive (.capturing collector inner) (.capturing collector inside) h)
    (trustAll : motive .trustAll .trustAll snapshot?_trustAll)
    (dummy : motive .dummy .dummy snapshot?_dummy) {validator : Validator} {snapshot : Snapshot}
    (h : world.snapshot? validator = some snapshot) : motive validator snapshot h := by
  -- The induction is on the snapshot, which is a tree even where the validator leads through slots.
  induction hsize : sizeOf snapshot using Nat.strong_induction_on
    generalizing validator snapshot with
  | _ size ih =>
    subst hsize
    cases validator with
    | base anchored =>
      cases (snapshot?_base anchored).symm.trans h
      exact base anchored
    | composite members =>
      obtain ⟨snapshots, hmembers, rfl⟩ := snapshot?_composite.mp h
      obtain ⟨hlength, hall⟩ := List.forall₂_iff_zip.mp hmembers
      refine composite members snapshots h (List.forall₂_iff_zip.mpr ⟨hlength, fun hmem =>
        ⟨hall hmem, ih _ ?_ (hall hmem) rfl⟩⟩)
      have hlt := List.sizeOf_lt_of_mem (List.of_mem_zip hmem).2
      rw [Snapshot.composite.sizeOf_spec]
      omega
    | inflatable number =>
      obtain ⟨pool, hpool, rfl⟩ := snapshot?_pool h
      exact inflatable number pool h hpool
    | hotSwappable slot =>
      obtain ⟨delegate, inside, hslot, hinside, rfl⟩ := snapshot?_slot h
      refine hotSwappable slot delegate inside h hslot hinside (ih _ ?_ hinside rfl)
      rw [Snapshot.hotSwappable.sizeOf_spec]
      omega
    | enhanceable inner enhancer =>
      obtain ⟨inside, hinside, rfl⟩ :=
        Option.map_eq_some_iff.mp ((snapshot?_enhanceable inner enhancer).symm.trans h)
      refine enhanceable inner enhancer inside h hinside (ih _ ?_ hinside rfl)
      rw [Snapshot.enhanceable.sizeOf_spec]
      omega
    | logging inner =>
      obtain ⟨inside, hinside, rfl⟩ :=
        Option.map_eq_some_iff.mp ((snapshot?_logging inner).symm.trans h)
      refine logging inner inside h hinside (ih _ ?_ hinside rfl)
      rw [Snapshot.logging.sizeOf_spec]
      omega
    | capturing collector inner =>
      obtain ⟨inside, hinside, rfl⟩ :=
        Option.map_eq_some_iff.mp ((snapshot?_capturing collector inner).symm.trans h)
      refine capturing collector inner inside h hinside (ih _ ?_ hinside rfl)
      rw [Snapshot.capturing.sizeOf_spec]
      omega
    | trustAll =>
      cases snapshot?_trustAll.symm.trans h
      exact trustAll
    | dummy =>
      cases snapshot?_dummy.symm.trans h
      exact dummy

end

end World

namespace Validator

section
variable {slots : List Validator} {validator inner child : Validator}

@[simp] theorem child_composite_iff {members : List Validator} :
    Child slots (.composite members) child ↔ child ∈ members :=
  ⟨fun hchild => by cases hchild with | member hmem => exact hmem, .member⟩

@[simp] theorem child_hotSwappable_iff {slot : Nat} :
    Child slots (.hotSwappable slot) child ↔ slots[slot]? = some child :=
  ⟨fun hchild => by cases hchild with | delegate hslot => exact hslot, .delegate⟩

@[simp] theorem child_enhanceable_iff {enhancer : Option Enhancer} :
    Child slots (.enhanceable inner enhancer) child ↔ child = inner :=
  ⟨fun hchild => by cases hchild; rfl, by rintro rfl; exact .enhanced _ _⟩

@[simp] theorem child_logging_iff : Child slots (.logging inner) child ↔ child = inner :=
  ⟨fun hchild => by cases hchild; rfl, by rintro rfl; exact .logged _⟩

@[simp] theorem child_capturing_iff {collector : Nat} :
    Child slots (.capturing collector inner) child ↔ child = inner :=
  ⟨fun hchild => by cases hchild; rfl, by rintro rfl; exact .captured _ _⟩

@[simp] theorem not_child_base {anchored : Base} : ¬ Child slots (.base anchored) child := nofun

@[simp] theorem not_child_inflatable {pool : Nat} : ¬ Child slots (.inflatable pool) child := nofun

@[simp] theorem not_child_trustAll : ¬ Child slots .trustAll child := nofun

@[simp] theorem not_child_dummy : ¬ Child slots .dummy child := nofun

/-- What a validator reaches is itself or is reached from one layer below. -/
theorem exists_reaches_iff {property : Validator → Prop} :
    (∃ part, validator.Reaches slots part ∧ property part) ↔
      property validator ∨ ∃ child, Child slots validator child ∧
        ∃ part, child.Reaches slots part ∧ property part := by
  constructor
  · rintro ⟨part, hreaches, hpart⟩
    rcases Relation.ReflTransGen.cases_head hreaches with rfl | ⟨child, hchild, hrest⟩
    · exact Or.inl hpart
    · exact Or.inr ⟨child, hchild, part, hrest, hpart⟩
  · rintro (hself | ⟨child, hchild, part, hrest, hpart⟩)
    · exact ⟨validator, .refl, hself⟩
    · exact ⟨part, hchild.reaches hrest, hpart⟩

/-- Whether a validator has anchors of its own: fixed ones, or those of a pool. -/
def HoldsAnchors : Validator → Prop
  | .base _ => True
  | .inflatable _ => True
  | _ => False

/-- What has anchors of its own has nothing below it. -/
theorem HoldsAnchors.not_child (hholds : validator.HoldsAnchors) :
    ¬ Child slots validator child := by
  rintro (_ | _ | _ | _ | _) <;> exact hholds

end

end Validator

namespace World

section
variable {world : World} {validator child : Validator} {snapshot source : Snapshot}

/-- A snapshot is that of something with anchors of its own that the validator reaches. -/
def HasSource (world : World) (source : Snapshot) (validator : Validator) : Prop :=
  ∃ part, validator.Reaches world.slots part ∧ part.HoldsAnchors ∧
    world.snapshot? part = some source

theorem hasSource_iff : world.HasSource source validator ↔
    (validator.HoldsAnchors ∧ world.snapshot? validator = some source) ∨
      ∃ child, Validator.Child world.slots validator child ∧ world.HasSource source child :=
  Validator.exists_reaches_iff

/-- Fixed anchors and pools are their own sources. -/
theorem hasSource_self (hholds : validator.HoldsAnchors)
    (hsnapshot : world.snapshot? validator = some snapshot) :
    world.HasSource source validator ↔ source = snapshot := by
  have hnone : ¬ ∃ child, Validator.Child world.slots validator child ∧
      world.HasSource source child := fun ⟨_, hchild, _⟩ => hholds.not_child hchild
  rw [hasSource_iff, or_iff_left hnone, and_iff_right hholds, hsnapshot, Option.some.injEq, eq_comm]

/-- **Sources.** The sources in a snapshot are the snapshots of the fixed anchors and of the pools
that the validator reaches. -/
theorem mem_sources_iff (h : world.snapshot? validator = some snapshot) :
    source ∈ snapshot.sources ↔ world.HasSource source validator := by
  induction h using layer_induction with
  | base anchored =>
    have hself := @hasSource_self world (.base anchored) _ source trivial (snapshot?_base anchored)
    rw [hself, Snapshot.sources, List.mem_singleton]
  | composite members snapshots h hmembers =>
    have hall : (∃ inside ∈ snapshots, source ∈ inside.sources) ↔
        ∃ member ∈ members, world.HasSource source member := by
      clear h
      induction hmembers with
      | nil => simp
      | cons hfirst hrest ih =>
        obtain ⟨-, hfirst⟩ := hfirst
        simp only [List.exists_mem_cons_iff, hfirst, ih]
    rw [Snapshot.sources, Snapshot.mem_sourcesOfAll, hasSource_iff]
    simpa [Validator.HoldsAnchors] using hall
  | inflatable number pool h hpool =>
    have hself := @hasSource_self world (.inflatable number) _ source trivial h
    rw [hself]
    exact List.mem_singleton
  | hotSwappable slot delegate inside h hslot hinside ih =>
    rw [hasSource_iff]
    simpa [Validator.HoldsAnchors, Snapshot.sources, hslot] using ih
  | enhanceable inner enhancer inside h hinside ih =>
    rw [hasSource_iff]
    simpa [Validator.HoldsAnchors, Snapshot.sources] using ih
  | logging inner inside h hinside ih =>
    rw [hasSource_iff]
    simpa [Validator.HoldsAnchors, Snapshot.sources] using ih
  | capturing collector inner inside h hinside ih =>
    rw [hasSource_iff]
    simpa [Validator.HoldsAnchors, Snapshot.sources] using ih
  | trustAll =>
    rw [hasSource_iff]
    simp [Validator.HoldsAnchors, Snapshot.sources]
  | dummy =>
    rw [hasSource_iff]
    simp [Validator.HoldsAnchors, Snapshot.sources]

/-- The pools in a snapshot are those that the validator reaches. -/
theorem mem_pools_iff (h : world.snapshot? validator = some snapshot) {number : Nat} :
    number ∈ snapshot.pools ↔ validator.Reaches world.slots (.inflatable number) := by
  rw [Snapshot.pools, List.mem_filterMap]
  constructor
  · rintro ⟨source, hsource, hnumber⟩
    obtain ⟨part, hreaches, hholds, hpart⟩ := (mem_sources_iff h).mp hsource
    cases part with
    | base anchored =>
      cases (snapshot?_base anchored).symm.trans hpart
      cases hnumber
    | inflatable other =>
      obtain ⟨pool, -, rfl⟩ := snapshot?_pool hpart
      cases hnumber
      exact hreaches
    | _ => exact hholds.elim
  · intro hreaches
    have hsome := snapshotWithin_reaches hreaches (Option.isSome_of_mem h)
    obtain ⟨source, hsource⟩ := Option.isSome_iff_exists.mp hsome
    refine ⟨source, (mem_sources_iff h).mpr ⟨_, hreaches, trivial, hsource⟩, ?_⟩
    obtain ⟨pool, -, rfl⟩ := snapshot?_pool hsource
    rfl

/-- Certificates are added to a pool exactly where a pool is reached. -/
theorem pool?_eq_none_iff (h : world.snapshot? validator = some snapshot) :
    snapshot.pool? = none ↔ ∀ number, ¬ validator.Reaches world.slots (.inflatable number) := by
  rw [Snapshot.pool?_eq_head?, List.head?_eq_none_iff, List.eq_nil_iff_forall_not_mem]
  simp only [mem_pools_iff h]

/-- The custom decisions in a snapshot are those that the validator reaches. -/
theorem mem_enhancers_iff {enhancer : Enhancer} (h : world.snapshot? validator = some snapshot) :
    enhancer ∈ snapshot.enhancers ↔
      ∃ part, validator.Reaches world.slots part ∧ part.enhancer? = some enhancer := by
  induction h using layer_induction with
  | base anchored =>
    rw [Validator.exists_reaches_iff]
    simp [Snapshot.enhancers, Validator.enhancer?]
  | composite members snapshots h hmembers =>
    have hall : (∃ inside ∈ snapshots, enhancer ∈ inside.enhancers) ↔ ∃ member ∈ members,
        ∃ part, member.Reaches world.slots part ∧ part.enhancer? = some enhancer := by
      clear h
      induction hmembers with
      | nil => simp
      | cons hfirst hrest ih =>
        obtain ⟨-, hfirst⟩ := hfirst
        simp only [List.exists_mem_cons_iff, hfirst, ih]
    rw [Snapshot.enhancers, Snapshot.mem_enhancersOfAll, Validator.exists_reaches_iff]
    simpa [Validator.enhancer?] using hall
  | inflatable number pool h hpool =>
    rw [Validator.exists_reaches_iff]
    simp [Pool.snapshot, Snapshot.enhancers, Validator.enhancer?]
  | hotSwappable slot delegate inside h hslot hinside ih =>
    rw [Validator.exists_reaches_iff]
    simpa [Snapshot.enhancers, Validator.enhancer?, hslot] using ih
  | enhanceable inner own inside h hinside ih =>
    rw [Validator.exists_reaches_iff]
    cases own with
    | none => simpa [Snapshot.enhancers, Validator.enhancer?] using ih
    | some own => simp [Snapshot.enhancers, Validator.enhancer?, ih, eq_comm]
  | logging inner inside h hinside ih =>
    rw [Validator.exists_reaches_iff]
    simpa [Snapshot.enhancers, Validator.enhancer?] using ih
  | capturing collector inner inside h hinside ih =>
    rw [Validator.exists_reaches_iff]
    simpa [Snapshot.enhancers, Validator.enhancer?] using ih
  | trustAll =>
    rw [Validator.exists_reaches_iff]
    simp [Snapshot.enhancers, Validator.enhancer?]
  | dummy =>
    rw [Validator.exists_reaches_iff]
    simp [Snapshot.enhancers, Validator.enhancer?]

/-- The certificates that a validator trusts by itself, and not because of a layer below it. -/
def anchorsOf (world : World) : Validator → List Certificate
  | .base anchored => anchored.issuers
  | .inflatable number => (world.pools[number]?.map (·.published.issuers)).getD []
  | _ => []

/-- The issuers of a validator are the certificates that any of its parts trusts by itself. -/
theorem mem_issuers_iff (h : world.snapshot? validator = some snapshot) {issuer : Certificate} :
    issuer ∈ snapshot.issuers ↔
      ∃ part, validator.Reaches world.slots part ∧ issuer ∈ world.anchorsOf part := by
  rw [Snapshot.mem_issuers_iff]
  constructor
  · rintro ⟨source, hsource, hissuer⟩
    obtain ⟨part, hreaches, hholds, hpart⟩ := (mem_sources_iff h).mp hsource
    refine ⟨part, hreaches, ?_⟩
    cases part with
    | base anchored =>
      cases (snapshot?_base anchored).symm.trans hpart
      exact hissuer
    | inflatable number =>
      obtain ⟨pool, hpool, rfl⟩ := snapshot?_pool hpart
      rw [anchorsOf, hpool]
      exact hissuer
    | _ => exact hholds.elim
  · rintro ⟨part, hreaches, hissuer⟩
    have hsome := snapshotWithin_reaches hreaches (Option.isSome_of_mem h)
    obtain ⟨source, hsource⟩ := Option.isSome_iff_exists.mp hsome
    cases part with
    | base anchored =>
      refine ⟨source, (mem_sources_iff h).mpr ⟨_, hreaches, trivial, hsource⟩, ?_⟩
      cases (snapshot?_base anchored).symm.trans hsource
      exact hissuer
    | inflatable number =>
      refine ⟨source, (mem_sources_iff h).mpr ⟨_, hreaches, trivial, hsource⟩, ?_⟩
      obtain ⟨pool, hpool, rfl⟩ := snapshot?_pool hsource
      rw [anchorsOf, hpool] at hissuer
      exact hissuer
    | _ => cases hissuer

end

end World

end PeerTrust
