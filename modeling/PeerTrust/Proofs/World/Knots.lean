import PeerTrust.Proofs.World.Judgement
import PeerTrust.Proofs.World.Run

/-!
# Knots

A slot that holds itself comes from a swap that puts a validator into a slot that it leads back to.
The kind of the new validator is all that a swap looks at, so such a swap is not refused if the way
back begins with a wrapper or a composite. Without such a swap no slot ever holds itself.
-/

namespace PeerTrust

namespace Validator

section
variable {slots : List Validator} {slot : Nat} {new : Validator} {validator part child : Validator}

/-- A layer that is new after a swap is the one from the slot to the new validator. -/
theorem Child.of_set (h : Child (slots.set slot new) validator child) :
    Child slots validator child ∨ (validator = .hotSwappable slot ∧ child = new) := by
  by_cases hslot : validator = .hotSwappable slot
  · subst hslot
    cases h with
    | delegate hdelegate =>
      rw [List.getElem?_set_self'] at hdelegate
      obtain ⟨previous, -, heq⟩ := Option.map_eq_some_iff.mp hdelegate
      exact Or.inr ⟨rfl, heq.symm⟩
  · refine Or.inl (h.imp fun number heq hdelegate => ?_)
    have hne : slot ≠ number := fun hsame => hslot (by rw [heq, hsame])
    rwa [List.getElem?_set_ne hne] at hdelegate

/-- All layers but the one below the slot stay after a swap. -/
theorem Child.set (h : Child slots validator child) (hslot : validator ≠ .hotSwappable slot) :
    Child (slots.set slot new) validator child := by
  refine h.imp fun number heq hdelegate => ?_
  have hne : slot ≠ number := fun hsame => hslot (by rw [heq, hsame])
  rwa [List.getElem?_set_ne hne]

/-- What is reached after a swap was reached before, or the way to it leads through the slot. -/
theorem Reaches.of_set (h : validator.Reaches (slots.set slot new) part) :
    validator.Reaches slots part ∨
      (validator.Reaches slots (.hotSwappable slot) ∧ new.Reaches (slots.set slot new) part) := by
  induction h using Relation.ReflTransGen.head_induction_on with
  | refl => exact Or.inl .refl
  | head hchild hrest ih =>
    rcases hchild.of_set with hold | ⟨rfl, rfl⟩
    · exact ih.imp hold.reaches fun ⟨hslot, hnew⟩ => ⟨hold.reaches hslot, hnew⟩
    · exact Or.inr ⟨.refl, hrest⟩

/-- A way to the slot stays after a swap, at least up to where it first comes to the slot. -/
theorem Reaches.set (h : validator.Reaches slots (.hotSwappable slot)) :
    validator.Reaches (slots.set slot new) (.hotSwappable slot) := by
  induction h using Relation.ReflTransGen.head_induction_on with
  | refl => exact .refl
  | @head validator child hchild _ ih =>
    by_cases hslot : validator = .hotSwappable slot
    · rw [hslot]
      exact .refl
    · exact (hchild.set hslot).reaches ih

end

/-- Logging around a new validator leads back to a slot exactly if the new validator does. -/
theorem successor_reaches_iff {slots : List Validator} {previous new : Validator} {slot : Nat} :
    (World.successor previous new).Reaches slots (.hotSwappable slot) ↔
      new.Reaches slots (.hotSwappable slot) := by
  unfold World.successor
  split
  · constructor
    · intro h
      obtain ⟨child, hchild, hrest⟩ := (Relation.ReflTransGen.cases_head h).resolve_left nofun
      cases hchild
      exact hrest
    · exact (Child.logged new).reaches
  · exact Iff.rfl

end Validator

namespace World

/-- No slot holds itself. -/
def Untangled (world : World) : Prop := ∀ slot, ¬ world.HoldsItself slot

/-- Everything that the validators in slots refer to is there. -/
def Whole (world : World) : Prop :=
  ∀ (slot : Nat) (delegate : Validator), world.slots[slot]? = some delegate → world.Covers delegate

section
variable {world next : World} {swapped : Option (Nat × Validator)} {validator child : Validator}

theorem start_whole (files : Files) (environment : List (String × String)) :
    (start files environment).Whole := fun _ _ hslot => by cases hslot

theorem start_untangled (files : Files) (environment : List (String × String)) :
    (start files environment).Untangled := fun _ ⟨_, hslot, _⟩ => by cases hslot

/-- An untangled world has no slot at all that a validator could be caught in. -/
theorem Untangled.acyclic (huntangled : world.Untangled) (validator : Validator) :
    world.Acyclic validator := fun slot _ => huntangled slot

theorem Covers.successor {previous new : Validator} (hnew : world.Covers new) :
    world.Covers (successor previous new) :=
  successor_of_logging (fun _ => covers_logging) hnew

/-- A slot that is opened is of no concern to validators that were there before. -/
theorem child_of_append {delegate : Validator} (hcovers : world.Covers validator)
    (hchild : Validator.Child (world.slots ++ [delegate]) validator child) :
    Validator.Child world.slots validator child := by
  refine hchild.imp fun slot heq hslot => ?_
  have hlt : slot < world.slots.length := hcovers (.hotSwappable slot) (heq ▸ .refl)
  rwa [List.getElem?_append_left hlt] at hslot

theorem reaches_of_append {delegate part : Validator} (hcovers : world.Covers validator)
    (hpart : validator.Reaches (world.slots ++ [delegate]) part) :
    validator.Reaches world.slots part := by
  induction hpart using Relation.ReflTransGen.head_induction_on with
  | refl => exact .refl
  | head hchild _ ih =>
    have hold := child_of_append hcovers hchild
    exact hold.reaches (ih (hcovers.of_reaches (hold.reaches .refl)))

/-- One layer below a validator whose parts were there before a step, all parts were there too. -/
theorem Step.covers_child (hstep : Step world.Covers world next swapped)
    (hcovers : world.Covers validator) (hchild : Validator.Child next.slots validator child) :
    world.Covers child := by
  cases hstep.slots with
  | kept hslots =>
    rw [hslots] at hchild
    exact hcovers.of_reaches (hchild.reaches .refl)
  | opened hdelegate hslots =>
    rw [hslots] at hchild
    exact hcovers.of_reaches ((child_of_append hcovers hchild).reaches .refl)
  | swapped hprevious hnew hslots =>
    rw [hslots] at hchild
    rcases hchild.of_set with hold | ⟨-, rfl⟩
    · exact hcovers.of_reaches (hold.reaches .refl)
    · exact hnew.successor

/-- Nothing that is there goes away. -/
theorem Step.has (hstep : Step world.Covers world next swapped) (hhas : world.Has validator) :
    next.Has validator := by
  have hslots : world.slots.length ≤ next.slots.length := by
    cases hstep.slots with
    | kept hslots => rw [hslots]
    | opened hdelegate hslots => rw [hslots, List.length_append]; exact Nat.le_add_right ..
    | swapped hprevious hnew hslots => rw [hslots, List.length_set]
  cases validator with
  | inflatable pool => exact Nat.lt_of_lt_of_le hhas hstep.pools_le
  | hotSwappable slot => exact Nat.lt_of_lt_of_le hhas hslots
  | capturing collector inner => exact Nat.lt_of_lt_of_le hhas hstep.collectors_le
  | _ => exact trivial

/-- Validators stay usable, whatever is done. -/
theorem Step.covers (hstep : Step world.Covers world next swapped)
    (hcovers : world.Covers validator) : next.Covers validator := by
  intro part hpart
  have hpart : world.Covers part := by
    induction hpart with
    | refl => exact hcovers
    | tail _ hchild ih => exact hstep.covers_child ih hchild
  exact hstep.has (hpart _ .refl)

/-- The validators in slots stay usable, whatever is done. -/
theorem Step.whole (hstep : Step world.Covers world next swapped) (hwhole : world.Whole) :
    next.Whole := by
  intro number inside hinside
  refine hstep.covers ?_
  cases hstep.slots with
  | kept hslots =>
    rw [hslots] at hinside
    exact hwhole number inside hinside
  | opened hdelegate hslots =>
    rw [hslots, List.getElem?_append] at hinside
    split at hinside
    · exact hwhole number inside hinside
    · rw [List.mem_singleton.mp (List.mem_of_getElem? hinside)]
      exact hdelegate
  | swapped hprevious hnew hslots =>
    rw [hslots, List.getElem?_set] at hinside
    split at hinside
    · obtain ⟨-, heq⟩ := Option.ite_none_right_eq_some.mp hinside
      cases heq
      exact hnew.successor
    · exact hwhole number inside hinside

/-- Opening a slot ties no knot: nothing that was there before can lead to the new slot. -/
theorem untangled_append {delegate : Validator} (hwhole : world.Whole)
    (huntangled : world.Untangled) (hdelegate : world.Covers delegate)
    (hslots : next.slots = world.slots ++ [delegate]) : next.Untangled := by
  rintro slot ⟨inside, hinside, hback⟩
  rw [hslots, List.getElem?_append] at hinside
  rw [hslots] at hback
  split at hinside
  · exact huntangled slot ⟨inside, hinside, reaches_of_append (hwhole slot inside hinside) hback⟩
  · rw [List.mem_singleton.mp (List.mem_of_getElem? hinside)] at hback
    exact ‹¬ slot < world.slots.length› (hdelegate _ (reaches_of_append hdelegate hback))

/-- A validator that leads back to the slot that it is put into makes the slot hold itself. -/
theorem holdsItself_of_set {slot : Nat} {previous new : Validator}
    (hprevious : world.slots[slot]? = some previous)
    (hslots : next.slots = world.slots.set slot new)
    (hback : new.Reaches world.slots (.hotSwappable slot)) : next.HoldsItself slot := by
  refine ⟨new, ?_, hslots ▸ hback.set⟩
  rw [hslots, List.getElem?_set_self (List.getElem?_eq_some_iff.mp hprevious).1]

/-- A validator that does not lead back to the slot that it is put into ties no knot. -/
theorem untangled_set {slot : Nat} {new : Validator} (huntangled : world.Untangled)
    (hslots : next.slots = world.slots.set slot new)
    (hback : ¬ new.Reaches world.slots (.hotSwappable slot)) : next.Untangled := by
  rintro number ⟨inside, hinside, hself⟩
  -- What the new validator reaches afterwards it reached before, as it never comes to the slot.
  have hnew {part : Validator} (h : new.Reaches next.slots part) :
      new.Reaches world.slots part := by
    rw [hslots] at h
    exact h.of_set.resolve_right fun hway => hback hway.1
  rw [hslots, List.getElem?_set] at hinside
  split at hinside
  · obtain ⟨-, heq⟩ := Option.ite_none_right_eq_some.mp hinside
    cases heq
    subst number
    exact hback (hnew hself)
  · rw [hslots] at hself
    rcases hself.of_set with hold | ⟨htoSlot, hfromNew⟩
    · exact huntangled number ⟨inside, hinside, hold⟩
    · rw [← hslots] at hfromNew
      exact hback ((hnew hfromNew).trans ((Validator.Child.delegate hinside).reaches htoSlot))

/-- **Step lemma.** Where no slot holds itself, a step leads to a slot that does exactly if it gives
a slot a validator that leads back to it. -/
theorem Step.untangled_iff (hstep : Step world.Covers world next swapped) (hwhole : world.Whole)
    (huntangled : world.Untangled) : next.Untangled ↔
      ∀ slot new, swapped = some (slot, new) → ¬ new.Reaches world.slots (.hotSwappable slot) := by
  cases hstep.slots with
  | kept hslots =>
    refine iff_of_true (fun slot hself => huntangled slot ?_) nofun
    unfold HoldsItself at hself ⊢
    rwa [← hslots]
  | opened hdelegate hslots =>
    exact iff_of_true (untangled_append hwhole huntangled hdelegate hslots) nofun
  | @swapped slot _ new hprevious hnew hslots =>
    constructor
    · rintro huntied _ _ ⟨⟩ hback
      rw [← Validator.successor_reaches_iff] at hback
      exact huntied slot (holdsItself_of_set hprevious hslots hback)
    · intro huntied
      have hback := huntied slot new rfl
      rw [← Validator.successor_reaches_iff] at hback
      exact untangled_set huntangled hslots hback

end

/-- An operation ties a knot exactly if it gives a slot a validator that leads back to it. -/
theorem ties_iff (engine : Engine) (world : World) (operation : Operation) :
    ¬ operation.Ties world ↔ ∀ slot new, operation.swapped? engine world = some (slot, new) →
      ¬ new.Reaches world.slots (.hotSwappable slot) := by
  -- Fixed anchors, which are all that a renewal puts into a slot, lead nowhere.
  have hrenewal (validator : Validator) (material : IssuedMaterial) (slot : Nat) (new : Validator)
      (h : world.renewalSwap? engine validator material = some (slot, new)) :
      ¬ new.Reaches world.slots (.hotSwappable slot) := by
    obtain ⟨-, -, -, anchored, -, rfl⟩ := renewalSwap?_eq_some_iff.mp h
    intro hback
    cases Validator.eq_of_base_reaches hback
  have hnever {swapped : Option (Nat × Validator)} (hnone : swapped = none) (slot : Nat)
      (new : Validator) (h : swapped = some (slot, new)) :
      ¬ new.Reaches world.slots (.hotSwappable slot) := by
    rw [hnone] at h
    cases h
  cases operation with
  | swap validator new =>
    cases validator with
    | hotSwappable slot =>
      simp [Operation.Ties, Operation.swapped?, Operation.attempt?, Validator.slot?,
        Option.filter_some]
    | _ => exact iff_of_true not_false (hnever rfl)
  | renew validator material =>
    rw [Operation.swapped?, Operation.attempt?, Operation.filter_renewalSwap?]
    exact iff_of_true not_false (hrenewal validator material)
  | refresh validator issued =>
    cases issued with
    | error error => exact iff_of_true not_false (hnever rfl)
    | ok material =>
      rw [Operation.swapped?, Operation.attempt?, Operation.filter_renewalSwap?]
      exact iff_of_true not_false (hrenewal validator material)
  | _ => exact iff_of_true not_false (hnever rfl)

section
variable {engine : Engine} {first last : World} {history : List (World × Operation)}

/-- The validators in slots are usable in all worlds that are reached. -/
theorem Run.whole (hrun : Run engine first history last) (hfirst : first.Whole) : last.Whole := by
  induction hrun with
  | start => exact hfirst
  | step hrun hfits hnext ih => exact (Operation.step hfits hnext).whole ih

/-- **Run lemma.** No slot holds itself in any world on the way exactly if no operation on the way
ties a knot. -/
theorem Run.untangled_iff (hrun : Run engine first history last) (hwhole : first.Whole)
    (huntangled : first.Untangled) :
    ((∀ moment ∈ history, moment.1.Untangled) ∧ last.Untangled) ↔
      ∀ moment ∈ history, ¬ moment.2.Ties moment.1 := by
  induction hrun with
  | start => exact iff_of_true ⟨List.forall_mem_nil _, huntangled⟩ (List.forall_mem_nil _)
  | @step history world next operation hrun hfits hnext ih =>
    simp only [List.forall_mem_append, List.forall_mem_singleton]
    rw [ih, and_congr_right_iff]
    intro huntied
    rw [ties_iff engine]
    exact (Operation.step hfits hnext).untangled_iff (hrun.whole hwhole) (ih.mpr huntied).2

/-- An operation on usable validators whose slots do not hold themselves returns. -/
theorem perform_isSome_of_untangled {world : World} {validator : Validator} (engine : Engine)
    (huntangled : world.Untangled) (hcovers : world.Covers validator) :
    (∃ snapshot, world.snapshot? validator = some snapshot) ∧
      (∀ now context, ((validate engine now validator context).perform world).isSome) ∧
      ∀ batch, ((add engine validator batch).perform world).isSome := by
  obtain ⟨snapshot, hsnapshot⟩ := exists_snapshot hcovers (huntangled.acyclic validator)
  refine ⟨⟨snapshot, hsnapshot⟩, fun now context => ?_, fun batch => ?_⟩
  · rw [validate_perform, judge_of_snapshot hsnapshot]
    rfl
  · cases hnumber : snapshot.pool? with
    | some number =>
      have hfound := (findPool_eq_some_iff hsnapshot).mpr hnumber
      have hpool := List.getElem?_eq_getElem (pool?_lt hsnapshot hnumber)
      rw [add_perform_pool hfound, addToPool_perform engine world hpool]
      rfl
    | none =>
      rw [add_perform_unsupported ((findPool_eq_some_iff hsnapshot).mpr hnumber)]
      rfl

/-- **No knots.** From the start, no slot ever holds itself exactly if no validator is swapped into
a slot that it leads back to. Then every validator that can exist has a snapshot, of which its
issuers and its pool are read off, and both validations and additions return. -/
theorem untangled_iff_no_ties {files : Files} {environment : List (String × String)}
    (hrun : Run engine (start files environment) history last) :
    (((∀ moment ∈ history, moment.1.Untangled) ∧ last.Untangled) ↔
      ∀ moment ∈ history, ¬ moment.2.Ties moment.1) ∧
    ((∀ moment ∈ history, ¬ moment.2.Ties moment.1) → ∀ validator, last.Covers validator →
      (∃ snapshot, last.snapshot? validator = some snapshot) ∧
      (∀ now context, ((validate engine now validator context).perform last).isSome) ∧
      ∀ batch, ((add engine validator batch).perform last).isSome) := by
  have hiff := hrun.untangled_iff (start_whole files environment)
    (start_untangled files environment)
  refine ⟨hiff, fun huntied validator hcovers => ?_⟩
  exact perform_isSome_of_untangled engine (hiff.mpr huntied).2 hcovers

end

section
variable {new : Validator}

/-- A slot is opened, and another validator is put into it. -/
theorem run_oneSlot (hcovers : (oneSlot .dummy).Covers new) (hcan : canBeSwappedIn new = true) :
    Run .paths (start .empty [])
      [(start .empty [], .makeSlot .dummy), (oneSlot .dummy, .swap (.hotSwappable 0) new)]
      ((oneSlot new).tell [.swapped .dummy new.kind]) := by
  have hslot : (oneSlot .dummy).slots[0]? = some .dummy := rfl
  have hopened : Run .paths (start .empty []) ([] ++ [(start .empty [], .makeSlot .dummy)])
      (oneSlot .dummy) := by
    refine .step .start (fun validator hmem => ?_) rfl
    rw [List.mem_singleton.mp hmem]
    exact covers_dummy
  exact hopened.swap (oneSlot_covers covers_dummy) hcovers hslot hcan

end

/-- Logging around a validator without parts, swapped in, leaves a slot that is fit for use. -/
theorem oneSlot_logging_untangled :
    ((oneSlot (.logging .dummy)).tell [.swapped .dummy .logging]).Untangled := by
  refine ((untangled_iff_no_ties (run_oneSlot (covers_logging covers_dummy) rfl)).1.mpr ?_).2
  intro moment hmem hties
  rcases List.mem_cons.mp hmem with rfl | hmem
  · exact hties
  · rw [List.mem_singleton.mp hmem] at hties
    obtain ⟨-, hback⟩ := hties
    obtain ⟨child, hchild, hback⟩ := (Relation.ReflTransGen.cases_head hback).resolve_left nofun
    cases hchild
    obtain ⟨child, hchild, -⟩ := (Relation.ReflTransGen.cases_head hback).resolve_left nofun
    cases hchild

/-- Logging around a slot is not refused as the validator of that same slot, which then holds itself
and can no longer be asked anything. -/
theorem exists_run_holdsItself : ∃ history last, Run .paths (start .empty []) history last ∧
    last.HoldsItself 0 ∧ ∀ now context,
      (validate .paths now (.hotSwappable 0) context).perform last = none := by
  have hcovers : (oneSlot .dummy).Covers (.logging (.hotSwappable 0)) :=
    covers_logging (oneSlot_covers covers_dummy)
  refine ⟨_, _, run_oneSlot hcovers rfl, ⟨_, rfl, ?_⟩, ?_⟩
  · exact (Validator.Child.logged _).reaches .refl
  · intro now context
    rw [validate_perform, judge_eq_none_of_loggedSelf rfl]
    rfl

end World

end PeerTrust
