import PeerTrust.Proofs.World.Swaps

/-!
# Decisions that are logged

A stack that a builder makes with logging and a slot logs in the slot, around the policy. Whatever
is swapped in afterwards or taken up by a renewal, logging stays around it. So every validation of
the stack ends with one event about its verdict, after all that the policy itself told the log.
-/

namespace PeerTrust

/-- An event that tells the verdict of a policy about a context. -/
structure Event.TellsDecision (event : Event) (context : Context) (policy : Kind)
    (verdict : Verdict) : Prop where
  level : event.level = if verdict.isTrusted then .info else .warn
  message : event.message =
    if verdict.isTrusted then "Peer certificate trusted" else "Peer certificate rejected"
  role : event.fields.lookup "role" = some context.role.text
  subject : event.fields.lookup "subject" = some context.leafSubject
  authType : event.fields.lookup "auth_type" = some context.authType
  validator : event.fields.lookup "validator" = some policy.text
  /-- The reason is the wording of the rejection. -/
  reason : event.fields.lookup "reason" = match verdict with
    | .ok () => none
    | .error rejection => some rejection.message

theorem Event.decided_tellsDecision (context : Context) (policy : Kind) (verdict : Verdict) :
    (Event.decided context policy verdict).TellsDecision context policy verdict := by
  cases verdict with
  | ok value => constructor <;> rfl
  | error rejection => constructor <;> rfl

namespace Validator

/-- A validator of the kind of logging is logging around another one. -/
theorem exists_of_kind_logging {validator : Validator} (h : validator.kind = .logging) :
    ∃ inner, validator = .logging inner := by
  cases validator with
  | logging inner => exact ⟨inner, rfl⟩
  | _ => cases h

end Validator

namespace World

/-- The effects of a validation only add to the log. -/
theorem log_prefix_applyAll (world : World) (effects : List Effect) :
    world.log <+: (world.applyAll effects).log := by
  induction effects generalizing world with
  | nil => exact List.prefix_rfl
  | cons effect rest ih =>
    refine List.IsPrefix.trans ?_ (ih (world.apply effect))
    cases effect with
    | tell event => exact List.prefix_append ..
    | record collector chain => exact List.prefix_rfl

theorem applyAll_concat_tell (world : World) (effects : List Effect) (event : Event) :
    world.applyAll (effects ++ [.tell event]) = (world.applyAll effects).tell [event] := by
  rw [applyAll, List.foldl_append]
  rfl

section
variable {engine : Engine} {world after : World} {slot : Nat} {policy : Validator}

/-- A validation of a slot with logging in it does all that a validation of the logged policy does,
and tells its verdict to the log after that. -/
theorem validate_logged_slot (hslot : world.slots[slot]? = some (.logging policy)) {now : Nat}
    {context : Context} {outcome : Except TrustError Verdict}
    (hvalidate : (validate engine now (.hotSwappable slot) context).perform world =
      some (outcome, after)) :
    ∃ verdict middle, outcome = .ok verdict ∧
      (validate engine now policy context).perform world = some (.ok verdict, middle) ∧
      world.log <+: middle.log ∧
      after = middle.tell [.decided context policy.kind verdict] := by
  rw [validate_perform, judge_hotSwappable hslot, judge_logging, Option.map_map] at hvalidate
  obtain ⟨⟨verdict, effects⟩, hjudged, hafter⟩ := Option.map_eq_some_iff.mp hvalidate
  cases hafter
  refine ⟨verdict, world.applyAll effects, rfl, ?_, ?_, ?_⟩
  · rw [validate_perform, hjudged]
    rfl
  · exact log_prefix_applyAll ..
  · exact applyAll_concat_tell ..

/-- A stack with logging and a slot is a new slot that holds a logged policy. -/
theorem logged_slot_of_build {builder : Builder} {stack : Validator}
    (hlogging : builder.logging = true) (hswappable : builder.swappable = true)
    (hbuild : (build engine builder).perform world = some (.ok stack, after)) :
    ∃ slot policy, stack = .hotSwappable slot ∧ after.slots[slot]? = some (.logging policy) := by
  obtain ⟨events, hperform⟩ := build_perform engine builder world
  rw [hperform] at hbuild
  cases hinner : builder.inner? engine world.files world.environment with
  | error error =>
    rw [hinner] at hbuild
    cases hbuild
  | ok inner =>
    rw [hinner, hswappable] at hbuild
    cases hbuild
    obtain ⟨policy, rfl⟩ : ∃ policy, inner = .logging policy := by
      unfold Builder.inner? at hinner
      split at hinner
      · cases hinner
      · obtain ⟨validators, -, hvalidators⟩ := Except.bind_eq_ok.mp hinner
        cases hvalidators
        exact ⟨builder.decide validators, if_pos hlogging⟩
    refine ⟨world.slots.length, policy, rfl, ?_⟩
    exact List.getElem?_concat_length

end

section
variable {engine : Engine} {before built last after : World} {history : List (World × Operation)}
  {builder : Builder} {stack : Validator}

/-- **Decisions stay logged.** After a builder has made a stack with logging and a slot, whatever is
done, the slot holds a logged policy. A validation of the stack has the verdict of the policy, and
the last event that it adds to the log is the one that tells this verdict. -/
theorem Run.validation_logged (hlogging : builder.logging = true)
    (hswappable : builder.swappable = true)
    (hbuild : (build engine builder).perform before = some (.ok stack, built))
    (hrun : Run engine built history last) {now : Nat} {context : Context}
    {outcome : Except TrustError Verdict}
    (hvalidate : (validate engine now stack context).perform last = some (outcome, after)) :
    ∃ slot policy verdict middle event, stack = .hotSwappable slot ∧
      last.slots[slot]? = some (.logging policy) ∧ outcome = .ok verdict ∧
      (validate engine now policy context).perform last = some (.ok verdict, middle) ∧
      last.log <+: middle.log ∧ after = middle.tell [event] ∧
      event.TellsDecision context policy.kind verdict := by
  obtain ⟨slot, initial, rfl, hslot⟩ := logged_slot_of_build hlogging hswappable hbuild
  have hholds := hrun.slot_eq hslot
  have hkind : ((accepted engine slot history).foldl successor (.logging initial)).kind =
      .logging := foldl_successor_kind.mpr ⟨_, List.mem_cons_self, rfl⟩
  obtain ⟨policy, hpolicy⟩ := Validator.exists_of_kind_logging hkind
  rw [hpolicy] at hholds
  obtain ⟨verdict, middle, houtcome, hperform, hprefix, rfl⟩ :=
    validate_logged_slot hholds hvalidate
  exact ⟨slot, policy, verdict, middle, _, rfl, hholds, houtcome, hperform, hprefix, rfl,
    Event.decided_tellsDecision ..⟩

end

/-- A builder of a stack that accepts everything, with logging and a slot. -/
def loggedSlotBuilder : Builder :=
  ((Builder.empty.withValidators [.dummy]).withLogging true).withSwappable true

/-- A validator that accepts everything, and behind it a slot. -/
def dummyBeforeSlot : Validator := .composite [.dummy, .hotSwappable 0]

/-- Where the first member accepts a chain, there is a verdict whatever is in the slot. -/
theorem judge_dummyBeforeSlot (engine : Engine) (now : Nat) (world : World) (context : Context) :
    world.judge engine now dummyBeforeSlot context = some (.ok (), []) := by
  rw [dummyBeforeSlot, judge, judgeAny, judge]
  rfl

/-- The decision about a chain is the last event in the log, also after a validator was swapped into
the stack that leads back to it. The slot then holds itself, but no validation comes to that. -/
theorem loggedSlot_logs_after_swap : ∃ built history last after,
    (build .paths loggedSlotBuilder).perform (start .empty []) =
      some (.ok (.hotSwappable 0), built) ∧
    Run .paths built history last ∧ last.slots = [.logging dummyBeforeSlot] ∧ last.HoldsItself 0 ∧
    (validate .paths 0 (.hotSwappable 0) (.ofChain .client [⟨[]⟩])).perform last =
      some (.ok (.ok ()), after) ∧
    ∃ event ∈ after.log.getLast?, event.message = "Peer certificate trusted" ∧
      event.fields.lookup "validator" = some "composite" := by
  have hslot : (oneSlot (.logging .dummy)).Covers (.hotSwappable 0) :=
    oneSlot_covers (covers_logging covers_dummy)
  have hcovers : (oneSlot (.logging .dummy)).Covers dummyBeforeSlot :=
    covers_composite (List.forall_mem_cons.mpr ⟨covers_dummy, List.forall_mem_singleton.mpr hslot⟩)
  have hbuild : (build .paths loggedSlotBuilder).perform (start .empty []) = some
      (.ok (.hotSwappable 0), (oneSlot (.logging .dummy)).tell [.built .hotSwappable true true]) :=
    rfl
  have hrun := (@Run.start .paths ((oneSlot (.logging .dummy)).tell
    [.built .hotSwappable true true])).swap hslot hcovers rfl rfl
  -- Opaque, so that nothing but the theorem tells what the log holds.
  obtain ⟨last, hlast, hslots⟩ : ∃ last, Run .paths _ _ last ∧
      last.slots = [.logging dummyBeforeSlot] := ⟨_, hrun, rfl⟩
  have hdelegate : last.slots[0]? = some (.logging dummyBeforeSlot) := by
    rw [hslots]
    rfl
  have hself : last.HoldsItself 0 :=
    ⟨_, hdelegate, (Validator.Child.logged _).reaches
      ((Validator.Child.member (List.mem_cons_of_mem _ List.mem_cons_self)).reaches .refl)⟩
  obtain ⟨after, hvalidate⟩ : ∃ after,
      (validate .paths 0 (.hotSwappable 0) (.ofChain .client [⟨[]⟩])).perform last =
        some (.ok (.ok ()), after) := by
    rw [validate_perform, judge_hotSwappable hdelegate, judge_logging, judge_dummyBeforeSlot]
    exact ⟨_, rfl⟩
  obtain ⟨slot, policy, verdict, middle, event, hstack, hpolicy, hverdict, -, -, rfl, hevent⟩ :=
    hlast.validation_logged rfl rfl hbuild hvalidate
  cases hstack
  rw [hdelegate] at hpolicy
  cases hpolicy
  cases hverdict
  refine ⟨_, _, last, _, hbuild, hlast, hslots, hself, hvalidate, event, ?_, hevent.message,
    hevent.validator⟩
  rw [tell, List.getLast?_concat]
  rfl

end World

end PeerTrust
