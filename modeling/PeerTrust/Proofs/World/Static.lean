import PeerTrust.Proofs.Trust.Sources
import PeerTrust.Proofs.World.Judgement
import PeerTrust.Proofs.World.Parts

/-!
# Static validators

A validator is static if no pool and no slot is a part of it. Then it has one and the same snapshot
in every world, and since the snapshot names no pool, nothing can be added to the validator, swapped
into it or taken up by it.
-/

namespace PeerTrust

namespace Validator

section
variable {slots : List Validator} {validator child part : Validator}

theorem isAnyDynamic_eq_false {members : List Validator} :
    isAnyDynamic members = false ↔ ∀ member ∈ members, member.isDynamic = false := by
  induction members with
  | nil => exact iff_of_true rfl (List.forall_mem_nil _)
  | cons member rest ih => rw [isAnyDynamic, Bool.or_eq_false_iff, ih, List.forall_mem_cons]

/-- What lies one layer below a static validator is static. -/
theorem Child.isDynamic_eq_false (hchild : Child slots validator child)
    (hstatic : validator.isDynamic = false) : child.isDynamic = false := by
  cases hchild with
  | member hmem => exact isAnyDynamic_eq_false.mp hstatic _ hmem
  | delegate hslot => cases hstatic
  | enhanced inner enhancer => exact hstatic
  | logged inner => exact hstatic
  | captured collector inner => exact hstatic

/-- Everything that a static validator reaches is static. -/
theorem Reaches.isDynamic_eq_false (hpart : validator.Reaches slots part)
    (hstatic : validator.isDynamic = false) : part.isDynamic = false := by
  induction hpart with
  | refl => exact hstatic
  | tail _ hchild ih => exact hchild.isDynamic_eq_false ih

/-- A static validator has one snapshot, whatever pools and slots hold. -/
theorem exists_snapshotWith_of_static (hstatic : validator.isDynamic = false) :
    ∃ snapshot, ∀ pool slot, validator.snapshotWith pool slot = some snapshot := by
  have hpool (number : Nat) : ¬ validator.Reaches [] (.inflatable number) := by
    intro hreaches
    cases hreaches.isDynamic_eq_false hstatic
  have hslot (number : Nat) : ¬ validator.Reaches [] (.hotSwappable number) := by
    intro hreaches
    cases hreaches.isDynamic_eq_false hstatic
  have hsome : (validator.snapshotWith (fun _ => none) fun _ => none).isSome :=
    snapshotWith_isSome (fun number h => absurd h (hpool number))
      (fun number h => absurd h (hslot number))
  obtain ⟨snapshot, hsnapshot⟩ := Option.isSome_iff_exists.mp hsome
  refine ⟨snapshot, fun pool slot => ?_⟩
  exact snapshotWith_imp (fun number h => absurd h (hpool number))
    (fun number h => absurd h (hslot number)) hsnapshot

end

end Validator

/-- Where pools and slots have no snapshots, the issuers in a snapshot are those of fixed anchors
that are parts of the validator. -/
theorem Validator.exists_base_of_snapshotWith {validator : Validator} {snapshot : Snapshot}
    (h : validator.snapshotWith (fun _ => none) (fun _ => none) = some snapshot)
    {issuer : Certificate} (hissuer : issuer ∈ snapshot.issuers) :
    ∃ anchored, validator.Reaches [] (.base anchored) ∧ issuer ∈ anchored.issuers := by
  induction validator generalizing snapshot with
  | base anchored =>
    cases h
    exact ⟨anchored, .refl, hissuer⟩
  | composite members ih =>
    obtain ⟨snapshots, hsnapshots, rfl⟩ := Option.map_eq_some_iff.mp h
    obtain ⟨inside, hinside, hissuer⟩ :=
      (Snapshot.mem_issuersOfAll.mp hissuer).resolve_left List.not_mem_nil
    obtain ⟨member, hmember, hsnapshot⟩ := exists_of_mem_snapshotsWith hsnapshots hinside
    obtain ⟨anchored, hreaches, hissuer⟩ := ih member hmember hsnapshot hissuer
    exact ⟨anchored, (Child.member hmember).reaches hreaches, hissuer⟩
  | inflatable number => cases h
  | hotSwappable number => cases h
  | enhanceable inner enhancer ih =>
    obtain ⟨inside, hinside, rfl⟩ := Option.map_eq_some_iff.mp h
    obtain ⟨anchored, hreaches, hissuer⟩ := ih hinside hissuer
    exact ⟨anchored, (Child.enhanced inner enhancer).reaches hreaches, hissuer⟩
  | logging inner ih =>
    obtain ⟨inside, hinside, rfl⟩ := Option.map_eq_some_iff.mp h
    obtain ⟨anchored, hreaches, hissuer⟩ := ih hinside hissuer
    exact ⟨anchored, (Child.logged inner).reaches hreaches, hissuer⟩
  | capturing collector inner ih =>
    obtain ⟨inside, hinside, rfl⟩ := Option.map_eq_some_iff.mp h
    obtain ⟨anchored, hreaches, hissuer⟩ := ih hinside hissuer
    exact ⟨anchored, (Child.captured collector inner).reaches hreaches, hissuer⟩
  | trustAll =>
    cases h
    cases hissuer
  | dummy =>
    cases h
    cases hissuer

namespace World

/-- A validator that is the same in two worlds, and that cannot be changed in the second one. Its
snapshot holds its issuers. -/
structure Keeps (engine : Engine) (first last : World) (validator : Validator) : Prop where
  snapshot : ∃ snapshot, first.snapshot? validator = some snapshot ∧
    last.snapshot? validator = some snapshot
  verdict : ∀ now context, ∃ verdict before after,
    (validate engine now validator context).perform first = some (.ok verdict, before) ∧
    (validate engine now validator context).perform last = some (.ok verdict, after)
  addition : ∀ batch, (add engine validator batch).perform last =
    some (.error (.unsupported (.addition validator.kind)), last)
  swap : ∀ new, (swap validator new).perform last =
    some (.error (.unsupported (.swap validator.kind)), last)
  renewal : ∀ material, material.roots ≠ [] → (renew engine validator material).perform last =
    some (.error (.unsupported (.renewal validator.kind)), last)

section
variable {validator : Validator}

/-- The snapshot of a static validator is the same in all worlds and names no pool. -/
theorem exists_snapshot_of_static (hstatic : validator.isDynamic = false) :
    ∃ snapshot, snapshot.pool? = none ∧
      ∀ world : World, world.snapshot? validator = some snapshot := by
  obtain ⟨snapshot, hsnapshot⟩ := Validator.exists_snapshotWith_of_static hstatic
  refine ⟨snapshot, ?_, fun world => ?_⟩
  · rw [Option.eq_none_iff_forall_ne_some]
    intro number hpool
    have hnothing (number : Nat) (inside : Snapshot) (hnone : none = some inside) (found : Nat)
        (hfound : inside.pool? = some found) : False := by
      cases hnone
    exact @Validator.pool?_of_snapshotWith (fun _ => none) (fun _ => none) (fun _ => False) hnothing
      hnothing _ _ (hsnapshot ..) number hpool
  · obtain ⟨slot, hwithin, -⟩ := world.snapshotWithin_eq world.slots.length
    rw [snapshot?, hwithin]
    exact hsnapshot ..

/-- The issuers of a static validator are those of fixed anchors that are parts of it. -/
theorem exists_base_of_static {world : World} {snapshot : Snapshot}
    (hstatic : validator.isDynamic = false) (hsnapshot : world.snapshot? validator = some snapshot)
    {issuer : Certificate} (hissuer : issuer ∈ snapshot.issuers) :
    ∃ anchored, validator.Reaches [] (.base anchored) ∧ issuer ∈ anchored.issuers := by
  obtain ⟨slot, hwithin, -⟩ := world.snapshotWithin_eq world.slots.length
  obtain ⟨fixed, hfixed⟩ := Validator.exists_snapshotWith_of_static hstatic
  have hsame : fixed = snapshot := by
    rw [snapshot?, hwithin, hfixed] at hsnapshot
    exact Option.some.inj hsnapshot
  subst hsame
  exact Validator.exists_base_of_snapshotWith (hfixed ..) hissuer

/-- A static validator is the same in all worlds, and cannot be changed in any of them. -/
theorem keeps_of_static (hstatic : validator.isDynamic = false) (engine : Engine)
    (first last : World) : Keeps engine first last validator := by
  obtain ⟨snapshot, hpool, hsnapshot⟩ := exists_snapshot_of_static hstatic
  have hunfound : last.findPool validator = some none :=
    (findPool_eq_some_iff (hsnapshot last)).mpr hpool
  have hkind : validator.kind ≠ .hotSwappable := by
    intro hkind
    obtain ⟨slot, rfl⟩ := exists_slot_of_kind hkind
    cases hstatic
  constructor
  case snapshot => exact ⟨snapshot, hsnapshot first, hsnapshot last⟩
  case verdict =>
    intro now context
    refine ⟨(snapshot.validate engine now context).1,
      first.applyAll (snapshot.validate engine now context).2,
      last.applyAll (snapshot.validate engine now context).2, ?_, ?_⟩
    · rw [validate_perform, judge_of_snapshot (hsnapshot first)]
      rfl
    · rw [validate_perform, judge_of_snapshot (hsnapshot last)]
      rfl
  case addition => exact fun batch => add_perform_unsupported hunfound batch
  case swap =>
    intro new
    cases validator with
    | hotSwappable slot => exact absurd rfl hkind
    | _ => rfl
  case renewal =>
    exact fun material hroots => renew_perform_unsupported hroots hunfound hkind

end

end World

end PeerTrust
