import PeerTrust.Proofs.World.Judgement
import PeerTrust.Proofs.World.Run

/-!
# What a slot holds

A slot changes by swaps only, be it that a validator is swapped in or that a renewal puts fixed
anchors into the slot. A swap is refused because of the kind of the new validator and for no other
reason. After any number of swaps the slot holds the newest accepted validator; it is wrapped in
logging, once, if any validator that was in the slot before it was a logging one.
-/

namespace PeerTrust

namespace Operation

section
variable {engine : Engine} {world next : World} {operation : Operation} {slot : Nat}
  {new : Validator}

/-- A renewal that puts fixed anchors into a slot does not fail. -/
theorem renew_failure?_of_renewalSwap? {validator : Validator} {material : IssuedMaterial}
    (hswap : world.renewalSwap? engine validator material = some (slot, new)) :
    (World.renew engine validator material).failure? world = none := by
  obtain ⟨hroots, hunfound, rfl, anchored, hanchored, rfl⟩ :=
    World.renewalSwap?_eq_some_iff.mp hswap
  obtain ⟨previous, hslot⟩ := World.exists_slot_of_findPool hunfound
  have hperform : (World.renew engine (.hotSwappable slot) material).perform world = _ :=
    World.renew_perform_slot hroots hunfound hslot
  dsimp only at hperform
  rw [hanchored] at hperform
  exact Action.failure?_of_ok hperform

/-- An attempt to give a slot another validator fails exactly if that validator cannot stand in a
slot on its own, and then it changes nothing but the log. -/
theorem failure?_of_attempt? (hattempt : operation.attempt? engine world = some (slot, new))
    (hnext : operation.next? engine world = some next) :
    (World.canBeSwappedIn new = true ∧ operation.failure? engine world = none) ∨
      (World.canBeSwappedIn new = false ∧
        operation.failure? engine world = some (.invalidSwapTarget new.kind) ∧
        next = world.tell [.swapRefused new.kind]) := by
  have hrenewal {validator : Validator} {material : IssuedMaterial}
      (hswap : world.renewalSwap? engine validator material = some (slot, new)) :
      World.canBeSwappedIn new = true := by
    obtain ⟨-, -, -, anchored, -, rfl⟩ := World.renewalSwap?_eq_some_iff.mp hswap
    rfl
  cases operation with
  | swap validator new =>
    obtain ⟨⟨outcome, after⟩, hperform, rfl⟩ := Option.map_eq_some_iff.mp hnext
    obtain ⟨number, hnumber, hattempted⟩ := Option.map_eq_some_iff.mp hattempt
    cases hattempted
    cases validator with
    | hotSwappable slot =>
      change (World.swapSlot slot new).perform world = _ at hperform
      change (_ ∧ (World.swapSlot slot new).failure? world = _) ∨
        (_ ∧ (World.swapSlot slot new).failure? world = _ ∧ _)
      cases hcan : World.canBeSwappedIn new with
      | true =>
        obtain ⟨previous, hslot⟩ := World.exists_slot_of_swapSlot world hcan hperform
        exact Or.inl ⟨rfl, Action.failure?_of_ok (World.swapSlot_perform world hslot hcan)⟩
      | false =>
        rw [World.swapSlot_perform_refused world hcan] at hperform
        cases hperform
        have hrefused := World.swapSlot_perform_refused world hcan slot
        exact Or.inr ⟨rfl, Action.failure?_of_error hrefused, rfl⟩
    | _ => cases hnumber
  | renew validator material =>
    exact Or.inl ⟨hrenewal hattempt, renew_failure?_of_renewalSwap? hattempt⟩
  | refresh validator issued =>
    cases issued with
    | error error => cases hattempt
    | ok material => exact Or.inl ⟨hrenewal hattempt, renew_failure?_of_renewalSwap? hattempt⟩
  | _ => cases hattempt

/-- An operation gives a slot another validator if it attempts to and does not fail. -/
theorem swapped?_eq (hnext : operation.next? engine world = some next) :
    operation.swapped? engine world =
      if operation.failure? engine world = none then operation.attempt? engine world else none := by
  rw [swapped?]
  cases hattempt : operation.attempt? engine world with
  | none => rw [Option.filter_none, ite_self]
  | some attempt =>
    obtain ⟨slot, new⟩ := attempt
    rw [Option.filter_some]
    rcases failure?_of_attempt? hattempt hnext with ⟨hcan, hfailure⟩ | ⟨hcan, hfailure, -⟩
    · rw [if_pos hcan, if_pos hfailure]
    · rw [if_neg (Bool.eq_false_iff.mp hcan), hfailure, if_neg (Option.some_ne_none _)]

end

end Operation

/-- The kind of the validator that stands in a slot after a swap is logging if there was logging
before, or if the new validator is a logging one. -/
theorem World.successor_kind {previous new : Validator} :
    (successor previous new).kind = .logging ↔ previous.kind = .logging ∨ new.kind = .logging := by
  unfold successor
  split
  · exact iff_of_true rfl (Or.inl ‹_›)
  · rw [or_iff_right ‹_›]

/-- After swaps one after the other, a slot holds a logging validator exactly if one of the
validators that it was given, the first one included, is a logging one. -/
theorem World.foldl_successor_kind {initial : Validator} {given : List Validator} :
    (given.foldl successor initial).kind = .logging ↔
      ∃ delegate ∈ initial :: given, delegate.kind = .logging := by
  induction given generalizing initial with
  | nil => rw [List.foldl_nil, List.exists_mem_cons_iff]; simp
  | cons new rest ih =>
    rw [List.foldl_cons, ih]
    simp only [List.exists_mem_cons_iff, successor_kind, or_assoc]

namespace World

section
variable {engine : Engine} {first last world next : World} {history : List (World × Operation)}
  {operation : Operation} {slot : Nat} {initial delegate : Validator}
  {swapped : Option (Nat × Validator)}

/-- What a slot is given by a swap that may be one of another slot. -/
def givenTo (slot : Nat) (swapped : Option (Nat × Validator)) : Option Validator :=
  (swapped.filter fun (number, _) => number = slot).map Prod.snd

/-- The validators that a slot was given, in their order: those of the attempts that did not
fail. -/
def accepted (engine : Engine) (slot : Nat) (history : List (World × Operation)) :
    List Validator :=
  history.filterMap fun (world, operation) =>
    givenTo slot
      (if operation.failure? engine world = none then operation.attempt? engine world else none)

/-- Every operation of a run was given validators that can exist, and it returned. -/
theorem Run.returned (hrun : Run engine first history last) :
    ∀ moment ∈ history, moment.2.FitsIn moment.1 ∧
      ∃ next, moment.2.next? engine moment.1 = some next := by
  induction hrun with
  | start => exact List.forall_mem_nil _
  | step hrun hfits hnext ih =>
    rw [List.forall_mem_append, List.forall_mem_singleton]
    exact ⟨ih, hfits, _, hnext⟩

/-- **Step lemma.** A slot keeps its validator unless it is the one that is given another
validator. -/
theorem SlotStep.slot_eq {placed : Validator → Prop}
    (hstep : SlotStep placed world next swapped)
    (hslot : world.slots[slot]? = some delegate) :
    next.slots[slot]? = some ((givenTo slot swapped).elim delegate (successor delegate)) := by
  have hlt := (List.getElem?_eq_some_iff.mp hslot).1
  cases hstep with
  | kept hslots =>
    rw [hslots]
    exact hslot
  | opened hplaced hslots =>
    rw [hslots, List.getElem?_append_left hlt]
    exact hslot
  | @swapped number previous new hprevious hplaced hslots =>
    rw [hslots, givenTo, Option.filter_some]
    by_cases hsame : number = slot
    · subst hsame
      rw [hprevious] at hslot
      cases hslot
      rw [List.getElem?_set_self hlt, if_pos (decide_eq_true rfl)]
      rfl
    · rw [List.getElem?_set_ne hsame, if_neg (by simpa using hsame)]
      exact hslot

/-- **Run lemma.** What a slot holds comes from its first validator by the accepted swaps, one after
the other. -/
theorem Run.slot_eq (hrun : Run engine first history last)
    (hslot : first.slots[slot]? = some initial) :
    last.slots[slot]? = some ((accepted engine slot history).foldl successor initial) := by
  induction hrun with
  | start => exact hslot
  | @step history world next operation hrun hfits hnext ih =>
    have haccepted : accepted engine slot (history ++ [(world, operation)]) =
        accepted engine slot history ++
          (givenTo slot (operation.swapped? engine world)).toList := by
      rw [accepted, List.filterMap_append, ← accepted, List.filterMap_cons, List.filterMap_nil]
      dsimp only
      rw [← Operation.swapped?_eq hnext]
      cases givenTo slot (operation.swapped? engine world) with
      | none => rfl
      | some new => rfl
    rw [haccepted, List.foldl_append, (Operation.step hfits hnext).slots.slot_eq ih]
    cases givenTo slot (operation.swapped? engine world) with
    | none => rfl
    | some new => rfl

/-- A slot has the verdicts of the validator in it, and its issuers; logging changes neither. -/
theorem slot_agrees {world : World} {newest : Validator}
    (hslot : world.slots[slot]? = some newest ∨ world.slots[slot]? = some (.logging newest)) :
    (∀ now context,
      ((validate engine now (.hotSwappable slot) context).perform world).map Prod.fst =
        ((validate engine now newest context).perform world).map Prod.fst) ∧
    (world.snapshot? (.hotSwappable slot)).map Snapshot.issuers =
      (world.snapshot? newest).map Snapshot.issuers := by
  rcases hslot with hslot | hslot
  · refine ⟨fun now context => ?_, ?_⟩
    · rw [validate_perform, validate_perform, judge_hotSwappable hslot]
    · rw [snapshot?_hotSwappable hslot, Option.map_map]
      rfl
  · refine ⟨fun now context => ?_, ?_⟩
    · rw [validate_perform, validate_perform, judge_hotSwappable hslot, judge_logging,
        Option.map_map, Option.map_map, Option.map_map]
      rfl
    · rw [snapshot?_hotSwappable hslot, snapshot?_logging, Option.map_map, Option.map_map]
      rfl

/-- **What a slot holds.** Along every run an attempt to give a slot another validator is refused
exactly if that validator is itself a slot or a pool, and then nothing but the log changes. The slot
holds the newest accepted validator, wrapped in logging once if any earlier one was a logging
validator, and it has the verdicts and the issuers of the newest one. -/
theorem Run.slot_holds_newest (hrun : Run engine first history last)
    (hslot : first.slots[slot]? = some initial) :
    (∀ moment ∈ history, ∀ number new,
      moment.2.attempt? engine moment.1 = some (number, new) →
      if new.kind = .hotSwappable ∨ new.kind = .inflatable then
        moment.2.failure? engine moment.1 = some (.invalidSwapTarget new.kind) ∧
        moment.2.next? engine moment.1 = some (moment.1.tell [.swapRefused new.kind])
      else moment.2.failure? engine moment.1 = none) ∧
    (accepted engine slot history = [] → last.slots[slot]? = some initial) ∧
    ∀ earlier newest, accepted engine slot history = earlier ++ [newest] →
      last.slots[slot]? = some
        (if ∃ delegate ∈ initial :: earlier, delegate.kind = .logging then .logging newest
        else newest) ∧
      (∀ now context,
        ((validate engine now (.hotSwappable slot) context).perform last).map Prod.fst =
          ((validate engine now newest context).perform last).map Prod.fst) ∧
      (last.snapshot? (.hotSwappable slot)).map Snapshot.issuers =
        (last.snapshot? newest).map Snapshot.issuers := by
  have hholds := hrun.slot_eq hslot
  refine ⟨fun moment hmem number new hattempt => ?_, fun hnone => ?_,
    fun earlier newest haccepted => ?_⟩
  · obtain ⟨-, next, hnext⟩ := hrun.returned moment hmem
    rcases Operation.failure?_of_attempt? hattempt hnext with
      ⟨hcan, hfailure⟩ | ⟨hcan, hfailure, rfl⟩
    · rw [if_neg (by simpa [canBeSwappedIn] using hcan)]
      exact hfailure
    · rw [if_pos (by simpa [canBeSwappedIn, or_iff_not_imp_left] using hcan)]
      exact ⟨hfailure, hnext⟩
  · rw [hnone] at hholds
    exact hholds
  · rw [haccepted, List.foldl_append, List.foldl_cons, List.foldl_nil, successor] at hholds
    simp only [foldl_successor_kind] at hholds
    refine ⟨hholds, slot_agrees ?_⟩
    split at hholds
    · exact Or.inr hholds
    · exact Or.inl hholds

end

/-- Logging that came with an earlier validator stays around the newest one, and the refusal of a
slot in a slot in between changes nothing. -/
theorem oneSlot_holds_logged : ∃ history last, Run .paths (oneSlot .dummy) history last ∧
    accepted .paths 0 history = [.logging .dummy, .trustAll] ∧
    last.slots[0]? = some (.logging .trustAll) := by
  have hslot : (oneSlot (.logging .dummy)).Covers (.hotSwappable 0) :=
    oneSlot_covers (covers_logging covers_dummy)
  have hfirst := (@Run.start .paths (oneSlot .dummy)).swap (oneSlot_covers covers_dummy)
    (covers_logging covers_dummy) rfl rfl
  have hrefused := hfirst.swap_refused hslot hslot rfl
  have hlast := hrefused.swap hslot covers_trustAll rfl rfl
  have hinitial : (oneSlot .dummy).slots[0]? = some .dummy := rfl
  obtain ⟨-, -, hholds⟩ := hlast.slot_holds_newest hinitial
  exact ⟨_, _, hlast, rfl, (hholds [.logging .dummy] .trustAll rfl).1⟩

end World

end PeerTrust
