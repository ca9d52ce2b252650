import PeerTrust.Proofs.World.Layers
import PeerTrust.Proofs.World.Program

/-!
# Issuers in a world

No certificate is among the issuers of a validator twice, though nothing checks it where they are
put together. It follows from how stores are made, from how pools grow, and from how a composite
collects what its members trust, and it stays true while other validators are put into slots.
-/

namespace PeerTrust

section
variable {engine : Engine} {world : World} {validators : List Validator} {validator : Validator}
  {snapshot : Snapshot}

/-- The anchors of a pool are proper. -/
theorem Pool.Sound.published_isProper {pool : Pool} (hsound : pool.Sound engine) :
    pool.published.IsProper engine :=
  Base.isProper_of_ofStore hsound.nodup hsound.published

/-- Whatever anchors a validator is made of, they are proper, if all fixed anchors come from stores
and all pools are sound. -/
theorem World.isProper_of_mem_bases (hanchored : Anchored engine Store.IsMade validator)
    (hslots : ∀ delegate ∈ world.slots, Anchored engine Store.IsMade delegate)
    (hpools : world.PoolsSound engine) (hsnapshot : world.snapshot? validator = some snapshot) :
    ∀ base ∈ snapshot.bases, base.IsProper engine := by
  intro base hbase
  obtain ⟨source, hsource, hanchors⟩ := List.mem_filterMap.mp hbase
  obtain ⟨part, hreaches, hholds, hpart⟩ := (mem_sources_iff hsnapshot).mp hsource
  cases part with
  | base anchored =>
    cases (snapshot?_base anchored).symm.trans hpart
    cases hanchors
    obtain ⟨anchors, hmade, hofStore⟩ := hanchored.of_reaches hslots hreaches _ .refl
    exact Base.isProper_of_ofStore hmade.nodup hofStore
  | inflatable number =>
    obtain ⟨pool, hpool, rfl⟩ := snapshot?_pool hpart
    cases hanchors
    exact (hpools pool (List.mem_of_getElem? hpool)).published_isProper
  | _ => cases hholds

/-- **Issuers.** Whatever a program does, each of its validators that no slot leads back to has
issuers. No certificate is among them twice: they are the certificates of all fixed anchors and
pools that the validator reaches, in the order in which these are come to, each at its first
occurrence. Each of these sets of anchors has just the anchors in its certificates, one for each. -/
theorem Program.issuers_eq_first_occurrences (hprogram : Program engine world validators)
    (hmem : validator ∈ validators) (hacyclic : world.Acyclic validator) :
    ∃ snapshot, world.snapshot? validator = some snapshot ∧
      snapshot.issuers.Nodup ∧
      snapshot.issuers = (snapshot.bases.flatMap Base.issuers).eraseDups ∧
      (∀ source, source ∈ snapshot.sources ↔ world.HasSource source validator) ∧
      ∀ base ∈ snapshot.bases, base.IsProper engine := by
  obtain ⟨hanchored, hslots⟩ := hprogram.anchored
  have hcovers := hprogram.covers.1 validator hmem
  obtain ⟨snapshot, hsnapshot⟩ := World.exists_snapshot hcovers hacyclic
  have hproper := World.isProper_of_mem_bases (hanchored validator hmem) hslots
    hprogram.pools_sound hsnapshot
  have hissuers := snapshot.issuers_eq_eraseDups fun base hbase => (hproper base hbase).nodup
  refine ⟨snapshot, hsnapshot, ?_, hissuers, fun source => World.mem_sources_iff hsnapshot, hproper⟩
  rw [hissuers, ← extendUnique_nil]
  exact extendUnique_nodup List.nodup_nil

end

/-- Fixed anchors read from two certificates. -/
def fixedAnchors : Base := ⟨[⟨[3]⟩, ⟨[1]⟩], [⟨[3], []⟩, ⟨[1], []⟩]⟩

/-- Fixed anchors behind a logged slot. -/
def slotBeforeAnchors : Validator :=
  .ofMembers [.logging (.hotSwappable 0), .base fixedAnchors]

/-- A certificate of a pool in the slot that is also a fixed anchor comes at its first place. -/
theorem slotBeforeAnchors_issuers : ∃ world validators snapshot,
    Program Pool.contentsEngine world validators ∧ slotBeforeAnchors ∈ validators ∧
    world.snapshot? slotBeforeAnchors = some snapshot ∧
    snapshot.issuers = [⟨[2]⟩, ⟨[1]⟩, ⟨[3]⟩] := by
  have hpool : Program Pool.contentsEngine _ [.inflatable 0] :=
    @Program.operate _ _ _ _ (.makePool .plain) (.start .empty []) (List.forall_mem_nil _)
      (List.forall_mem_nil _) rfl
  have hadd (world : World) :
      (Operation.add (.inflatable 0) [⟨[2]⟩, ⟨[1]⟩, ⟨[2]⟩]).next? Pool.contentsEngine world =
        ((World.addToPool Pool.contentsEngine 0 [⟨[2]⟩, ⟨[1]⟩, ⟨[2]⟩]).perform world).map (·.2) := by
    have hfound : world.findPool (.inflatable 0) = some (some 0) := by rw [World.findPool]
    rw [Operation.next?, World.add_perform_pool hfound]
  have hadded : Program Pool.contentsEngine _ [.inflatable 0] :=
    @Program.operate _ _ _ _ (.add (.inflatable 0) [⟨[2]⟩, ⟨[1]⟩, ⟨[2]⟩]) hpool
      (List.forall_mem_singleton.mpr List.mem_cons_self) (List.forall_mem_nil _)
      ((hadd _).trans rfl)
  have hslot : Program Pool.contentsEngine _ [.hotSwappable 0, .inflatable 0] :=
    @Program.operate _ _ _ _ (.makeSlot (.inflatable 0)) hadded
      (List.forall_mem_singleton.mpr List.mem_cons_self) (List.forall_mem_nil _) rfl
  have hfixed : Program Pool.contentsEngine _
      [.base fixedAnchors, .hotSwappable 0, .inflatable 0] :=
    @Program.operate _ _ _ _ (.makeBase [⟨[3]⟩, ⟨[1]⟩] .default) hslot
      (List.forall_mem_nil _) (List.forall_mem_nil _) rfl
  have hlogged : Program Pool.contentsEngine _
      [.logging (.hotSwappable 0), .base fixedAnchors, .hotSwappable 0, .inflatable 0] :=
    hfixed.make (.logging (by simp)) trivial
  have hprogram : Program Pool.contentsEngine _ (slotBeforeAnchors :: _) :=
    hlogged.make (.composite (by simp)) trivial
  obtain ⟨snapshot, hsnapshot, -, hissuers, -⟩ :=
    hprogram.issuers_eq_first_occurrences List.mem_cons_self
      (World.acyclic_of_snapshotWithin (rfl : (World.snapshot? _ slotBeforeAnchors).isSome))
  refine ⟨_, _, snapshot, hprogram, List.mem_cons_self, hsnapshot, ?_⟩
  cases hsnapshot
  exact hissuers.trans rfl

end PeerTrust
