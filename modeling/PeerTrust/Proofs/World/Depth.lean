import PeerTrust.Proofs.World.Reach

/-!
# How deep snapshots go

A snapshot is taken with a bound on the number of slots that it passes through. A larger bound gives
the same snapshot, and the number of slots is always enough: whatever has a snapshot at any depth
reaches no slot that holds itself. So the snapshot of a slot is that of the validator in it.
-/

namespace PeerTrust.World

section
variable {world : World} {validator : Validator} {snapshot : Snapshot} {depth : Nat}

/-- A snapshot stays the same if more slots may be passed through. -/
theorem snapshotWithin_succ (h : world.snapshotWithin depth validator = some snapshot) :
    world.snapshotWithin (depth + 1) validator = some snapshot := by
  induction depth generalizing validator snapshot with
  | zero =>
    have hslot (number : Nat) (_ : validator.Reaches [] (.hotSwappable number)) (inside : Snapshot)
        (hnone : none = some inside) :
        (world.slots[number]?).bind (world.snapshotWithin 0) = some inside := nomatch hnone
    exact Validator.snapshotWith_imp (fun _ _ _ hinside => hinside) hslot h
  | succ depth ih =>
    have hslot (number : Nat) (_ : validator.Reaches [] (.hotSwappable number)) (inside : Snapshot)
        (hinside : (world.slots[number]?).bind (world.snapshotWithin depth) = some inside) :
        (world.slots[number]?).bind (world.snapshotWithin (depth + 1)) = some inside := by
      obtain ⟨delegate, hslot, hdelegate⟩ := Option.bind_eq_some_iff.mp hinside
      exact Option.bind_eq_some_iff.mpr ⟨delegate, hslot, ih hdelegate⟩
    exact Validator.snapshotWith_imp (fun _ _ _ hinside => hinside) hslot h

theorem snapshotWithin_of_le {more : Nat} (hle : depth ≤ more)
    (h : world.snapshotWithin depth validator = some snapshot) :
    world.snapshotWithin more validator = some snapshot := by
  induction hle with
  | refl => exact h
  | step hle ih => exact snapshotWithin_succ ih

/-- A snapshot with a bound is put together of snapshots of pools and slots; those of slots are
snapshots of the validators in them, which the same bound is enough for. -/
theorem snapshotWithin_eq (world : World) (depth : Nat) : ∃ slot : Nat → Option Snapshot,
    (∀ validator, world.snapshotWithin depth validator =
      validator.snapshotWith world.poolSnapshot? slot) ∧
    ∀ number inside, slot number = some inside → ∃ delegate,
      world.slots[number]? = some delegate ∧ world.snapshotWithin depth delegate = some inside := by
  cases depth with
  | zero => exact ⟨fun _ => none, fun _ => rfl, fun _ _ hinside => nomatch hinside⟩
  | succ depth =>
    refine ⟨fun slot => world.slots[slot]?.bind (world.snapshotWithin depth), fun _ => rfl, ?_⟩
    intro number inside hinside
    obtain ⟨delegate, hslot, hdelegate⟩ := Option.bind_eq_some_iff.mp hinside
    exact ⟨delegate, hslot, snapshotWithin_succ hdelegate⟩

/-- What lies one layer below a validator with a snapshot has a snapshot. -/
theorem snapshotWithin_child {child : Validator}
    (hchild : Validator.Child world.slots validator child)
    (h : (world.snapshotWithin depth validator).isSome) :
    (world.snapshotWithin depth child).isSome := by
  obtain ⟨slot, hsnapshot, hslots⟩ := world.snapshotWithin_eq depth
  rw [hsnapshot] at h
  cases hchild with
  | member hmem =>
    rw [Validator.snapshotWith, Option.isSome_map] at h
    rw [hsnapshot]
    exact Validator.isSome_of_mem_snapshotsWith h hmem
  | delegate hslot =>
    rw [Validator.snapshotWith, Option.isSome_map] at h
    obtain ⟨inside, hinside⟩ := Option.isSome_iff_exists.mp h
    obtain ⟨delegate, hdelegate, hwithin⟩ := hslots _ _ hinside
    rw [hslot] at hdelegate
    cases hdelegate
    exact Option.isSome_of_mem hwithin
  | enhanced inner enhancer =>
    rw [hsnapshot]
    rwa [Validator.snapshotWith, Option.isSome_map] at h
  | logged inner =>
    rw [hsnapshot]
    rwa [Validator.snapshotWith, Option.isSome_map] at h
  | captured collector inner =>
    rw [hsnapshot]
    rwa [Validator.snapshotWith, Option.isSome_map] at h

/-- Everything that a validator with a snapshot reaches has a snapshot. -/
theorem snapshotWithin_reaches {part : Validator} (hpart : validator.Reaches world.slots part)
    (h : (world.snapshotWithin depth validator).isSome) :
    (world.snapshotWithin depth part).isSome := by
  induction hpart with
  | refl => exact h
  | tail _ hchild ih => exact snapshotWithin_child hchild ih

/-- A slot that holds itself has no snapshot at any depth. -/
theorem snapshotWithin_of_holdsItself {slot : Nat} (hself : world.HoldsItself slot) :
    world.snapshotWithin depth (.hotSwappable slot) = none := by
  obtain ⟨delegate, hslot, hback⟩ := hself
  induction depth with
  | zero => rfl
  | succ depth ih =>
    change ((world.slots[slot]?).bind (world.snapshotWithin depth)).map _ = none
    rw [hslot, Option.bind_some, Option.map_eq_none_iff]
    by_contra hsome
    have hdelegate := Option.isSome_iff_ne_none.mpr hsome
    have hagain := snapshotWithin_reaches hback hdelegate
    rw [ih] at hagain
    cases hagain

/-- A validator with a snapshot at any depth reaches no slot that holds itself. -/
theorem acyclic_of_snapshotWithin (h : (world.snapshotWithin depth validator).isSome) :
    world.Acyclic validator := by
  intro slot hslot hself
  have hsome := snapshotWithin_reaches hslot h
  rw [snapshotWithin_of_holdsItself hself] at hsome
  cases hsome

/-- The pools that a validator with a snapshot reaches are there. -/
theorem pool_lt_of_snapshotWithin (h : (world.snapshotWithin depth validator).isSome) {number : Nat}
    (hreaches : validator.Reaches world.slots (.inflatable number)) :
    number < world.pools.length := by
  obtain ⟨slot, hsnapshot, -⟩ := world.snapshotWithin_eq depth
  have hpool := snapshotWithin_reaches hreaches h
  rw [hsnapshot, Validator.snapshotWith, poolSnapshot?, Option.isSome_map] at hpool
  obtain ⟨pool, hpool⟩ := Option.isSome_iff_exists.mp hpool
  exact (List.getElem?_eq_some_iff.mp hpool).1

/-- The slots that a validator with a snapshot reaches are there. -/
theorem slot_lt_of_snapshotWithin (h : (world.snapshotWithin depth validator).isSome) {number : Nat}
    (hreaches : validator.Reaches world.slots (.hotSwappable number)) :
    number < world.slots.length := by
  obtain ⟨slot, hsnapshot, hslots⟩ := world.snapshotWithin_eq depth
  have hsome := snapshotWithin_reaches hreaches h
  rw [hsnapshot, Validator.snapshotWith, Option.isSome_map] at hsome
  obtain ⟨inside, hinside⟩ := Option.isSome_iff_exists.mp hsome
  obtain ⟨delegate, hdelegate, -⟩ := hslots _ _ hinside
  exact (List.getElem?_eq_some_iff.mp hdelegate).1

/-- The bound is never what stops a snapshot: one that exists at any depth is the snapshot. -/
theorem snapshot?_of_snapshotWithin (h : world.snapshotWithin depth validator = some snapshot) :
    world.snapshot? validator = some snapshot := by
  have hsome : (world.snapshotWithin depth validator).isSome := Option.isSome_of_mem h
  have henough : (world.snapshot? validator).isSome :=
    snapshotWithin_isSome (fun _ => pool_lt_of_snapshotWithin hsome)
      (fun _ => slot_lt_of_snapshotWithin hsome) (acyclic_of_snapshotWithin hsome)
      card_slotsBelow_le
  obtain ⟨other, hother⟩ := Option.isSome_iff_exists.mp henough
  have hsame := (snapshotWithin_of_le (Nat.le_max_right depth _) hother).symm.trans
    (snapshotWithin_of_le (Nat.le_max_left depth world.slots.length) h)
  rw [hother, hsame]

/-- The snapshot of a slot is the one of the validator in it; there is one exactly if the validator
in it has one. -/
theorem snapshot?_hotSwappable {slot : Nat} {delegate : Validator}
    (hslot : world.slots[slot]? = some delegate) :
    world.snapshot? (.hotSwappable slot) =
      (world.snapshot? delegate).map (.hotSwappable slot) := by
  have hstep (depth : Nat) : world.snapshotWithin (depth + 1) (.hotSwappable slot) =
      (world.snapshotWithin depth delegate).map (.hotSwappable slot) := by
    change ((world.slots[slot]?).bind (world.snapshotWithin depth)).map _ = _
    rw [hslot, Option.bind_some]
  cases hdelegate : world.snapshot? delegate with
  | some inside =>
    have hslotSnapshot := hstep world.slots.length
    rw [← snapshot?, hdelegate] at hslotSnapshot
    exact snapshot?_of_snapshotWithin hslotSnapshot
  | none =>
    -- The bound for the slot allows one slot less behind it than the bound for the validator in it.
    have hlt := (List.getElem?_eq_some_iff.mp hslot).1
    obtain ⟨depth, hdepth⟩ := Nat.exists_eq_succ_of_ne_zero (Nat.ne_zero_of_lt hlt)
    rw [snapshot?, hdepth, hstep]
    cases hinside : world.snapshotWithin depth delegate with
    | none => rfl
    | some inside =>
      rw [snapshot?_of_snapshotWithin hinside] at hdelegate
      cases hdelegate

theorem kind_of_snapshot? (h : world.snapshot? validator = some snapshot) :
    snapshot.kind = validator.kind := by
  obtain ⟨slot, hsnapshot, -⟩ := world.snapshotWithin_eq world.slots.length
  rw [snapshot?, hsnapshot] at h
  refine Validator.kind_of_snapshotWith (fun number inside hinside => ?_) h
  obtain ⟨pool, -, rfl⟩ := Option.map_eq_some_iff.mp hinside
  rfl

theorem snapshot?_logging (inner : Validator) :
    world.snapshot? (.logging inner) = (world.snapshot? inner).map .logging := by
  obtain ⟨slot, hsnapshot, -⟩ := world.snapshotWithin_eq world.slots.length
  rw [snapshot?, snapshot?, hsnapshot, hsnapshot, Validator.snapshotWith]

end

end PeerTrust.World
