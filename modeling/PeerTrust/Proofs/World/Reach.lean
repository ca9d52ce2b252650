import Mathlib.Data.Finset.Card
import Mathlib.Logic.Relation
import PeerTrust.Proofs.Trust.Verdicts
import PeerTrust.World.Basic

/-!
# What a validator reaches

Validators refer to pools, slots and collectors by number, and a slot may be shared. A validator
whose parts are all there, and which reaches no slot that leads back to itself, has a snapshot: the
bound on the depth that snapshots are taken with is never what stops them.
-/

namespace PeerTrust

namespace Validator

/-- One layer further down: a member of a composite, the validator inside a wrapper, or the one that
stands in a slot. -/
inductive Child (slots : List Validator) : Validator → Validator → Prop
  | member {members : List Validator} {member : Validator} (hmem : member ∈ members) :
      Child slots (.composite members) member
  | delegate {slot : Nat} {delegate : Validator} (hslot : slots[slot]? = some delegate) :
      Child slots (.hotSwappable slot) delegate
  | enhanced (inner : Validator) (enhancer : Option Enhancer) :
      Child slots (.enhanceable inner enhancer) inner
  | logged (inner : Validator) : Child slots (.logging inner) inner
  | captured (collector : Nat) (inner : Validator) : Child slots (.capturing collector inner) inner

/-- Any number of layers further down. -/
def Reaches (slots : List Validator) : Validator → Validator → Prop :=
  Relation.ReflTransGen (Child slots)

section
variable {slots : List Validator} {validator part : Validator}

/-- The layer below a validator depends on the slots only where the validator is a slot. -/
theorem Child.imp {others : List Validator} {child : Validator} (h : Child slots validator child)
    (hslot : ∀ slot, validator = .hotSwappable slot → slots[slot]? = some child →
      others[slot]? = some child) : Child others validator child := by
  cases h with
  | member hmem => exact .member hmem
  | delegate hdelegate => exact .delegate (hslot _ rfl hdelegate)
  | enhanced inner enhancer => exact .enhanced ..
  | logged inner => exact .logged _
  | captured collector inner => exact .captured ..

theorem Reaches.refl : validator.Reaches slots validator := Relation.ReflTransGen.refl

theorem Child.reaches {child : Validator} (hchild : Child slots validator child)
    (hpart : child.Reaches slots part) : validator.Reaches slots part :=
  Relation.ReflTransGen.head hchild hpart

theorem Reaches.trans {middle : Validator} (hfirst : validator.Reaches slots middle)
    (hsecond : middle.Reaches slots part) : validator.Reaches slots part :=
  Relation.ReflTransGen.trans hfirst hsecond

/-- A property that a validator and everything it reaches have. -/
def Everywhere (slots : List Validator) (property : Validator → Prop) (validator : Validator) :
    Prop :=
  ∀ part, validator.Reaches slots part → property part

/-- A property holds everywhere if it holds of a validator itself and everywhere in the validators
one layer further down. -/
theorem everywhere_iff {property : Validator → Prop} :
    Everywhere slots property validator ↔ property validator ∧
      ∀ child, Child slots validator child → Everywhere slots property child := by
  constructor
  · intro heverywhere
    exact ⟨heverywhere _ .refl, fun child hchild part hpart =>
      heverywhere part (hchild.reaches hpart)⟩
  · rintro ⟨hself, hchildren⟩ part hpart
    rcases Relation.ReflTransGen.cases_head hpart with rfl | ⟨child, hchild, hrest⟩
    · exact hself
    · exact hchildren child hchild part hrest

/-- The members of a list have snapshots together if each of them has one. -/
theorem snapshotsWith_isSome {pool slot : Nat → Option Snapshot} {members : List Validator}
    (hmembers : ∀ member ∈ members, (member.snapshotWith pool slot).isSome) :
    (snapshotsWith pool slot members).isSome := by
  induction members with
  | nil => rfl
  | cons member rest ih =>
    obtain ⟨hfirst, hothers⟩ := List.forall_mem_cons.mp hmembers
    obtain ⟨first, hfirst⟩ := Option.isSome_iff_exists.mp hfirst
    obtain ⟨others, hothers⟩ := Option.isSome_iff_exists.mp (ih hothers)
    simp [snapshotsWith, hfirst, hothers]

/-- A validator has a snapshot if all pools and slots that it reaches have one. -/
theorem snapshotWith_isSome {pool slot : Nat → Option Snapshot}
    (hpool : ∀ number, validator.Reaches slots (.inflatable number) → (pool number).isSome)
    (hslot : ∀ number, validator.Reaches slots (.hotSwappable number) → (slot number).isSome) :
    (validator.snapshotWith pool slot).isSome := by
  induction validator with
  | base anchored => rfl
  | composite members ih =>
    rw [snapshotWith, Option.isSome_map]
    exact snapshotsWith_isSome fun member hmem => ih member hmem
      (fun number h => hpool number ((Child.member hmem).reaches h))
      (fun number h => hslot number ((Child.member hmem).reaches h))
  | inflatable number => exact hpool number .refl
  | hotSwappable number =>
    rw [snapshotWith, Option.isSome_map]
    exact hslot number .refl
  | enhanceable inner enhancer ih =>
    rw [snapshotWith, Option.isSome_map]
    exact ih (fun number h => hpool number ((Child.enhanced inner enhancer).reaches h))
      (fun number h => hslot number ((Child.enhanced inner enhancer).reaches h))
  | logging inner ih =>
    rw [snapshotWith, Option.isSome_map]
    exact ih (fun number h => hpool number ((Child.logged inner).reaches h))
      (fun number h => hslot number ((Child.logged inner).reaches h))
  | capturing collector inner ih =>
    rw [snapshotWith, Option.isSome_map]
    exact ih (fun number h => hpool number ((Child.captured collector inner).reaches h))
      (fun number h => hslot number ((Child.captured collector inner).reaches h))
  | trustAll => rfl
  | dummy => rfl

/-- Each member of a list has a snapshot if the list has its snapshots. -/
theorem isSome_of_mem_snapshotsWith {pool slot : Nat → Option Snapshot} {members : List Validator}
    (h : (snapshotsWith pool slot members).isSome) {member : Validator} (hmem : member ∈ members) :
    (member.snapshotWith pool slot).isSome := by
  induction members with
  | nil => cases hmem
  | cons first rest ih =>
    obtain ⟨snapshots, h⟩ := Option.isSome_iff_exists.mp h
    rw [snapshotsWith] at h
    obtain ⟨head, hhead, h⟩ := Option.bind_eq_some_iff.mp h
    obtain ⟨others, hothers, -⟩ := Option.bind_eq_some_iff.mp h
    rcases List.mem_cons.mp hmem with rfl | hmem
    · exact Option.isSome_of_mem hhead
    · exact ih (Option.isSome_of_mem hothers) hmem

/-- The members of a list keep their snapshots if each of them does. -/
theorem snapshotsWith_imp {pool slot pool' slot' : Nat → Option Snapshot}
    {members : List Validator} {snapshots : List Snapshot}
    (hmembers : ∀ member ∈ members, ∀ snapshot, member.snapshotWith pool slot = some snapshot →
      member.snapshotWith pool' slot' = some snapshot)
    (h : snapshotsWith pool slot members = some snapshots) :
    snapshotsWith pool' slot' members = some snapshots := by
  induction members generalizing snapshots with
  | nil => exact h
  | cons member rest ih =>
    obtain ⟨hfirst, hothers⟩ := List.forall_mem_cons.mp hmembers
    rw [snapshotsWith] at h ⊢
    obtain ⟨first, hhead, h⟩ := Option.bind_eq_some_iff.mp h
    obtain ⟨others, hrest, h⟩ := Option.bind_eq_some_iff.mp h
    rw [hfirst first hhead, ih hothers hrest]
    exact h

/-- A validator keeps its snapshot if all pools and slots that it reaches do. -/
theorem snapshotWith_imp {pool slot pool' slot' : Nat → Option Snapshot} {snapshot : Snapshot}
    (hpool : ∀ number, validator.Reaches slots (.inflatable number) →
      ∀ inside, pool number = some inside → pool' number = some inside)
    (hslot : ∀ number, validator.Reaches slots (.hotSwappable number) →
      ∀ inside, slot number = some inside → slot' number = some inside)
    (h : validator.snapshotWith pool slot = some snapshot) :
    validator.snapshotWith pool' slot' = some snapshot := by
  induction validator generalizing snapshot with
  | base anchored => exact h
  | composite members ih =>
    obtain ⟨snapshots, hsnapshots, rfl⟩ := Option.map_eq_some_iff.mp h
    refine Option.map_eq_some_iff.mpr ⟨snapshots, snapshotsWith_imp ?_ hsnapshots, rfl⟩
    intro member hmem inside hinside
    exact ih member hmem (fun number h => hpool number ((Child.member hmem).reaches h))
      (fun number h => hslot number ((Child.member hmem).reaches h)) hinside
  | inflatable number => exact hpool number .refl snapshot h
  | hotSwappable number =>
    obtain ⟨delegate, hdelegate, rfl⟩ := Option.map_eq_some_iff.mp h
    exact Option.map_eq_some_iff.mpr ⟨delegate, hslot number .refl delegate hdelegate, rfl⟩
  | enhanceable inner enhancer ih =>
    obtain ⟨delegate, hdelegate, rfl⟩ := Option.map_eq_some_iff.mp h
    have hinner := ih (fun number h => hpool number ((Child.enhanced inner enhancer).reaches h))
      (fun number h => hslot number ((Child.enhanced inner enhancer).reaches h)) hdelegate
    exact Option.map_eq_some_iff.mpr ⟨delegate, hinner, rfl⟩
  | logging inner ih =>
    obtain ⟨delegate, hdelegate, rfl⟩ := Option.map_eq_some_iff.mp h
    have hinner := ih (fun number h => hpool number ((Child.logged inner).reaches h))
      (fun number h => hslot number ((Child.logged inner).reaches h)) hdelegate
    exact Option.map_eq_some_iff.mpr ⟨delegate, hinner, rfl⟩
  | capturing collector inner ih =>
    obtain ⟨delegate, hdelegate, rfl⟩ := Option.map_eq_some_iff.mp h
    have hinner := ih (fun number h => hpool number ((Child.captured collector inner).reaches h))
      (fun number h => hslot number ((Child.captured collector inner).reaches h)) hdelegate
    exact Option.map_eq_some_iff.mpr ⟨delegate, hinner, rfl⟩
  | trustAll => exact h
  | dummy => exact h

/-- The snapshots of several validators are those of the single ones. -/
theorem exists_of_mem_snapshotsWith {pool slot : Nat → Option Snapshot} {members : List Validator}
    {snapshots : List Snapshot} (h : snapshotsWith pool slot members = some snapshots)
    {snapshot : Snapshot} (hmem : snapshot ∈ snapshots) :
    ∃ member ∈ members, member.snapshotWith pool slot = some snapshot := by
  induction members generalizing snapshots with
  | nil =>
    cases h
    cases hmem
  | cons member rest ih =>
    rw [snapshotsWith] at h
    obtain ⟨first, hfirst, h⟩ := Option.bind_eq_some_iff.mp h
    obtain ⟨others, hothers, h⟩ := Option.bind_eq_some_iff.mp h
    cases h
    rcases List.mem_cons.mp hmem with rfl | hmem
    · exact ⟨member, List.mem_cons_self, hfirst⟩
    · obtain ⟨other, hother, heq⟩ := ih hothers hmem
      exact ⟨other, List.mem_cons_of_mem _ hother, heq⟩

/-- A snapshot has the kind of its validator, as long as the snapshots of pools are pools. -/
theorem kind_of_snapshotWith {pool slot : Nat → Option Snapshot} {snapshot : Snapshot}
    (hpool : ∀ number inside, pool number = some inside → inside.kind = .inflatable)
    (h : validator.snapshotWith pool slot = some snapshot) : snapshot.kind = validator.kind := by
  cases validator with
  | base anchored => cases h; rfl
  | inflatable number => exact hpool number snapshot h
  | trustAll => cases h; rfl
  | dummy => cases h; rfl
  | _ =>
    obtain ⟨inside, -, rfl⟩ := Option.map_eq_some_iff.mp h
    rfl

end

end Validator

theorem Snapshot.exists_of_firstPool? {members : List Snapshot} {number : Nat}
    (h : firstPool? members = some number) : ∃ member ∈ members, member.pool? = some number := by
  induction members with
  | nil => cases h
  | cons member rest ih =>
    rcases Option.or_eq_some_iff.mp h with hfirst | ⟨-, hrest⟩
    · exact ⟨member, List.mem_cons_self, hfirst⟩
    · obtain ⟨other, hother, hpool⟩ := ih hrest
      exact ⟨other, List.mem_cons_of_mem _ hother, hpool⟩

/-- The pool that a snapshot adds to is that of the snapshot of a pool or of a slot. -/
theorem Validator.pool?_of_snapshotWith {pool slot : Nat → Option Snapshot} {isThere : Nat → Prop}
    (hpool : ∀ number snapshot, pool number = some snapshot →
      ∀ found, snapshot.pool? = some found → isThere found)
    (hslot : ∀ number snapshot, slot number = some snapshot →
      ∀ found, snapshot.pool? = some found → isThere found)
    {validator : Validator} {snapshot : Snapshot}
    (h : validator.snapshotWith pool slot = some snapshot) {found : Nat}
    (hfound : snapshot.pool? = some found) : isThere found := by
  induction validator generalizing snapshot with
  | base anchored =>
    cases h
    cases hfound
  | composite members ih =>
    obtain ⟨snapshots, hsnapshots, rfl⟩ := Option.map_eq_some_iff.mp h
    obtain ⟨first, hfirst, hpool⟩ := Snapshot.exists_of_firstPool? hfound
    obtain ⟨member, hmember, hsnapshot⟩ := exists_of_mem_snapshotsWith hsnapshots hfirst
    exact ih member hmember hsnapshot hpool
  | inflatable number => exact hpool number snapshot h found hfound
  | hotSwappable number =>
    obtain ⟨delegate, hdelegate, rfl⟩ := Option.map_eq_some_iff.mp h
    exact hslot number delegate hdelegate found hfound
  | enhanceable inner enhancer ih =>
    obtain ⟨delegate, hdelegate, rfl⟩ := Option.map_eq_some_iff.mp h
    exact ih hdelegate hfound
  | logging inner ih =>
    obtain ⟨delegate, hdelegate, rfl⟩ := Option.map_eq_some_iff.mp h
    exact ih hdelegate hfound
  | capturing collector inner ih =>
    obtain ⟨delegate, hdelegate, rfl⟩ := Option.map_eq_some_iff.mp h
    exact ih hdelegate hfound
  | trustAll =>
    cases h
    cases hfound
  | dummy =>
    cases h
    cases hfound

namespace World

/-- Whether the pool, slot or collector that a validator names is there. -/
def Has (world : World) : Validator → Prop
  | .inflatable pool => pool < world.pools.length
  | .hotSwappable slot => slot < world.slots.length
  | .capturing collector _ => collector < world.collectors.length
  | _ => True

/-- Whether everything that a validator reaches is there. -/
def Covers (world : World) (validator : Validator) : Prop :=
  ∀ part, validator.Reaches world.slots part → world.Has part

/-- A slot holds itself if the validator in it leads back to the slot. -/
def HoldsItself (world : World) (slot : Nat) : Prop :=
  ∃ delegate, world.slots[slot]? = some delegate ∧
    delegate.Reaches world.slots (.hotSwappable slot)

/-- No slot that a validator reaches holds itself. -/
def Acyclic (world : World) (validator : Validator) : Prop :=
  ∀ slot, validator.Reaches world.slots (.hotSwappable slot) → ¬ world.HoldsItself slot

section
variable {world : World} {validator part : Validator}

theorem Covers.of_reaches (hcovers : world.Covers validator)
    (hpart : validator.Reaches world.slots part) : world.Covers part :=
  fun _ h => hcovers _ (hpart.trans h)

/-- Everything that a validator reaches is there if it is there itself and so is everything that the
validators one layer further down reach. -/
theorem covers_iff : world.Covers validator ↔
    world.Has validator ∧
      ∀ child, Validator.Child world.slots validator child → world.Covers child :=
  Validator.everywhere_iff

theorem Acyclic.of_reaches (hacyclic : world.Acyclic validator)
    (hpart : validator.Reaches world.slots part) : world.Acyclic part :=
  fun _ h => hacyclic _ (hpart.trans h)

open Classical in
/-- The slots that a validator reaches. -/
noncomputable def slotsBelow (world : World) (validator : Validator) : Finset Nat :=
  {slot ∈ Finset.range world.slots.length | validator.Reaches world.slots (.hotSwappable slot)}

theorem mem_slotsBelow {slot : Nat} : slot ∈ world.slotsBelow validator ↔
    slot < world.slots.length ∧ validator.Reaches world.slots (.hotSwappable slot) := by
  classical
  rw [slotsBelow, Finset.mem_filter, Finset.mem_range]

theorem card_slotsBelow_le : (world.slotsBelow validator).card ≤ world.slots.length := by
  classical
  exact (Finset.card_filter_le _ _).trans (Finset.card_range _).le

/-- The validator in a slot reaches fewer slots than one that reaches the slot, since it does not
reach that slot itself. -/
theorem card_slotsBelow_lt {slot : Nat} {delegate : Validator}
    (hreaches : validator.Reaches world.slots (.hotSwappable slot))
    (hslot : world.slots[slot]? = some delegate) (hself : ¬ world.HoldsItself slot) :
    (world.slotsBelow delegate).card < (world.slotsBelow validator).card := by
  apply Finset.card_lt_card
  rw [Finset.ssubset_iff_of_subset]
  · refine ⟨slot, mem_slotsBelow.mpr ⟨(List.getElem?_eq_some_iff.mp hslot).1, hreaches⟩, ?_⟩
    intro hmem
    exact hself ⟨delegate, hslot, (mem_slotsBelow.mp hmem).2⟩
  · intro other hmem
    obtain ⟨hlt, hother⟩ := mem_slotsBelow.mp hmem
    exact mem_slotsBelow.mpr ⟨hlt, hreaches.trans ((Validator.Child.delegate hslot).reaches hother)⟩

theorem poolSnapshot?_isSome {number : Nat} (hlt : number < world.pools.length) :
    (world.poolSnapshot? number).isSome := by
  rw [poolSnapshot?, List.getElem?_eq_getElem hlt]
  rfl

/-- The pool that a snapshot adds to is there. -/
theorem pool?_lt {snapshot : Snapshot} (h : world.snapshot? validator = some snapshot) {found : Nat}
    (hfound : snapshot.pool? = some found) : found < world.pools.length := by
  have hpool (number : Nat) (snapshot : Snapshot) (h : world.poolSnapshot? number = some snapshot)
      (found : Nat) (hfound : snapshot.pool? = some found) : found < world.pools.length := by
    obtain ⟨pool, hpool, rfl⟩ := Option.map_eq_some_iff.mp h
    cases hfound
    exact (List.getElem?_eq_some_iff.mp hpool).1
  rw [snapshot?] at h
  generalize world.slots.length = depth at h
  induction depth generalizing validator snapshot found with
  | zero =>
    exact Validator.pool?_of_snapshotWith hpool (fun _ _ hnone => by cases hnone) h hfound
  | succ depth ih =>
    refine Validator.pool?_of_snapshotWith hpool ?_ h hfound
    intro number delegate hdelegate found hfound
    obtain ⟨inside, -, hinside⟩ := Option.bind_eq_some_iff.mp hdelegate
    exact ih hfound hinside

/-- As many layers of slots as a validator reaches slots are enough for its snapshot. -/
theorem snapshotWithin_isSome {depth : Nat}
    (hpools : ∀ number, validator.Reaches world.slots (.inflatable number) →
      number < world.pools.length)
    (hslots : ∀ number, validator.Reaches world.slots (.hotSwappable number) →
      number < world.slots.length)
    (hacyclic : world.Acyclic validator) (hdepth : (world.slotsBelow validator).card ≤ depth) :
    (world.snapshotWithin depth validator).isSome := by
  have hpool (number : Nat) (h : validator.Reaches world.slots (.inflatable number)) :
      (world.poolSnapshot? number).isSome := poolSnapshot?_isSome (hpools _ h)
  induction depth generalizing validator with
  | zero =>
    refine Validator.snapshotWith_isSome hpool fun number h => ?_
    have hmem : number ∈ world.slotsBelow validator := mem_slotsBelow.mpr ⟨hslots _ h, h⟩
    rw [Finset.card_eq_zero.mp (Nat.le_zero.mp hdepth)] at hmem
    exact absurd hmem (Finset.notMem_empty number)
  | succ depth ih =>
    refine Validator.snapshotWith_isSome hpool fun number h => ?_
    have hlt : number < world.slots.length := hslots _ h
    have hslot := List.getElem?_eq_getElem hlt
    have hreaches : validator.Reaches world.slots world.slots[number] :=
      h.trans ((Validator.Child.delegate hslot).reaches .refl)
    have hcard := card_slotsBelow_lt h hslot (hacyclic number h)
    rw [hslot, Option.bind_some]
    exact ih (fun other hother => hpools other (hreaches.trans hother))
      (fun other hother => hslots other (hreaches.trans hother)) (hacyclic.of_reaches hreaches)
      (by omega) fun other hother => hpool other (hreaches.trans hother)

/-- Every acyclic validator whose parts are all there has a snapshot. -/
theorem exists_snapshot (hcovers : world.Covers validator) (hacyclic : world.Acyclic validator) :
    ∃ snapshot, world.snapshot? validator = some snapshot :=
  Option.isSome_iff_exists.mp (snapshotWithin_isSome (fun _ h => hcovers _ h)
    (fun _ h => hcovers _ h) hacyclic card_slotsBelow_le)

end

end World

end PeerTrust
