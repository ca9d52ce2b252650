import PeerTrust.Proofs.Failing
import PeerTrust.Proofs.World.Layers
import PeerTrust.World.Judgement

/-!
# Verdicts and snapshots

Where a validator has a snapshot, no way through it goes round in circles. Then there is a verdict,
and it is the one that the snapshot gives. The same is true of all replies to custom decisions, and
of the pool that certificates are added to.
-/

namespace PeerTrust

namespace Snapshot

/-- The snapshots that a snapshot is made of. -/
def parts : Snapshot → List Snapshot
  | .base _ => []
  | .composite members => members
  | .inflatable _ _ _ => []
  | .hotSwappable _ delegate => [delegate]
  | .enhanceable inner _ => [inner]
  | .logging inner => [inner]
  | .capturing _ inner => [inner]
  | .trustAll => []
  | .dummy => []

section
variable {engine : Engine} {now : Nat} {snapshot : Snapshot}

theorem respondents_eq_map (members : List Snapshot) :
    respondents engine now members = members.map (respondent engine now) := by
  induction members with
  | nil => rfl
  | cons member rest ih => rw [respondents, ih, List.map_cons]

theorem about_respondent : (snapshot.respondent engine now).about = snapshot := by
  cases snapshot with
  | enhanceable inner enhancer => cases enhancer <;> rfl
  | _ => rfl

theorem parts_respondent :
    (snapshot.respondent engine now).parts = snapshot.parts.map (respondent engine now) := by
  cases snapshot with
  | composite members => exact respondents_eq_map members
  | enhanceable inner enhancer => cases enhancer <;> rfl
  | _ => rfl

/-- A question with a longer way is one for the part that the way begins with. -/
theorem consult_cons (number : Nat) (way : List Nat) (inquiry : Inquiry) :
    snapshot.consult engine now ⟨number :: way, inquiry⟩ =
      match snapshot.parts[number]? with
      | some part => part.consult engine now ⟨way, inquiry⟩
      | none => (.nobody, []) := by
  rw [consult, Respondent.consult, Respondent.part?, parts_respondent, List.getElem?_map]
  cases snapshot.parts[number]? <;> rfl

end

end Snapshot

namespace World

section
variable {engine : Engine} {now : Nat} {world : World} {validator : Validator} {snapshot : Snapshot}

/-- The verdict of a slot is that of the validator in it. -/
theorem judge_hotSwappable {slot : Nat} {delegate : Validator}
    (hslot : world.slots[slot]? = some delegate) (context : Context) :
    world.judge engine now (.hotSwappable slot) context =
      world.judge engine now delegate context := by
  rw [judge, hslot, Option.bind_eq_bind, Option.bind_some]

/-- Logging comes behind everything else that is done on the way to a verdict. -/
theorem judge_logging (inner : Validator) (context : Context) :
    world.judge engine now (.logging inner) context =
      (world.judge engine now inner context).map fun (verdict, effects) =>
        (verdict, effects ++ [.tell (.decided context inner.kind verdict)]) := by
  rw [judge]
  cases world.judge engine now inner context <;> rfl

/-- A question with a longer way is one for the part that the way begins with. -/
theorem consult_cons (number : Nat) (way : List Nat) (inquiry : Inquiry) :
    world.consult engine now validator ⟨number :: way, inquiry⟩ =
      match (world.parts validator)[number]? with
      | some part => world.consult engine now part ⟨way, inquiry⟩
      | none => some (.nobody, []) := by
  rw [consult.eq_def, part?]
  cases (world.parts validator)[number]? with
  | none => rfl
  | some part =>
    dsimp only [Option.bind_some]
    rw [consult]

/-- Whether what is trusted can change is seen from the snapshot. -/
theorem isDynamic_of_snapshot (h : world.snapshot? validator = some snapshot) :
    snapshot.isDynamic = validator.isDynamic := by
  induction h using layer_induction with
  | composite members snapshots h hmembers =>
    clear h
    rw [Snapshot.isDynamic, Validator.isDynamic]
    induction hmembers with
    | nil => rfl
    | cons hfirst hrest ih =>
      obtain ⟨-, hfirst⟩ := hfirst
      rw [Snapshot.isAnyDynamic, Validator.isAnyDynamic, hfirst, ih]
  | enhanceable inner enhancer inside h hinside ih => exact ih
  | logging inner inside h hinside ih => exact ih
  | capturing collector inner inside h hinside ih => exact ih
  | _ => rfl

/-- A validator replies to custom decisions as its snapshot does. -/
def RepliesAlike (engine : Engine) (now : Nat) (world : World) (validator : Validator)
    (snapshot : Snapshot) : Prop :=
  ∀ question, world.consult engine now validator question =
    some (snapshot.consult engine now question)

/-- What replies alike gives the same verdicts, for these can be asked for. -/
theorem RepliesAlike.judge_eq (halike : RepliesAlike engine now world validator snapshot)
    (context : Context) :
    world.judge engine now validator context = some (snapshot.validate engine now context) := by
  have hverdict := halike ⟨[], .verdict context⟩
  rw [consult, part?, Snapshot.consult_verdict] at hverdict
  obtain ⟨judged, hjudged, hreply⟩ := Option.bind_eq_some_iff.mp hverdict
  obtain ⟨htold, hdone⟩ := Prod.mk.inj (Option.some.inj hreply)
  exact hjudged.trans (congrArg some (Prod.ext (Reply.verdict.inj htold) hdone))

/-- What replies alike brings a custom decision to the same answer. -/
theorem RepliesAlike.follow_eq (halike : RepliesAlike engine now world validator snapshot)
    (decision : Decision Question Reply) :
    world.follow engine now validator decision =
      some (decision.resolve (snapshot.consult engine now)) := by
  induction decision with
  | answer accepts => rw [follow, Decision.resolve]
  | consult question next ih =>
    rw [follow, halike, Option.bind_eq_bind, Option.bind_some]
    dsimp only
    rw [ih]
    rfl

/-- The first that accepts a chain is the same among members that reply alike. -/
theorem judgeAny_of_repliesAlike {members : List Validator} {snapshots : List Snapshot}
    (hmembers : List.Forall₂ (RepliesAlike engine now world) members snapshots) (context : Context)
    (earlier : List Rejection) : world.judgeAny engine now members context earlier =
      some (Snapshot.validateAny engine now snapshots context earlier) := by
  induction hmembers generalizing earlier with
  | nil => rw [judgeAny, Snapshot.validateAny_nil]
  | @cons member inside rest others hfirst hrest ih =>
    rw [judgeAny, hfirst.judge_eq, Snapshot.validateAny_cons, Option.bind_eq_bind, Option.bind_some]
    obtain ⟨verdict, effects⟩ := inside.validate engine now context
    cases verdict with
    | ok accepted => rfl
    | error rejection =>
      dsimp only
      rw [ih]
      rfl

/-- Parts that reply alike do so wherever a way begins with their number. -/
theorem consult_part_of_repliesAlike {parts : List Validator} {insides : List Snapshot}
    (hparts : List.Forall₂ (RepliesAlike engine now world) parts insides) (number : Nat)
    (question : Question) :
    (match parts[number]? with
      | some part => world.consult engine now part question
      | none => some (.nobody, [])) =
      some (match insides[number]? with
        | some inside => inside.consult engine now question
        | none => (.nobody, [])) := by
  induction hparts generalizing number with
  | nil => rfl
  | cons hfirst hrest ih =>
    cases number with
    | zero => exact hfirst question
    | succ number => exact ih number

/-- A validator replies as its snapshot does if it gives the same verdicts, and if its parts reply as
theirs do. -/
theorem repliesAlike_of_parts (h : world.snapshot? validator = some snapshot)
    (hparts : List.Forall₂ (RepliesAlike engine now world) (world.parts validator) snapshot.parts)
    (hverdicts : ∀ context, world.judge engine now validator context =
      some (snapshot.validate engine now context)) :
    RepliesAlike engine now world validator snapshot := by
  rintro ⟨way, inquiry⟩
  cases way with
  | nil =>
    rw [consult, part?, Snapshot.consult, Respondent.consult, Respondent.part?]
    cases inquiry with
    | kind =>
      dsimp only
      rw [← kind_of_snapshot? h, Snapshot.about_respondent]
    | isDynamic =>
      dsimp only
      rw [← isDynamic_of_snapshot h, Snapshot.about_respondent]
    | issuers =>
      dsimp only
      rw [h, Snapshot.about_respondent]
      rfl
    | partCount =>
      dsimp only
      rw [hparts.length_eq, Snapshot.parts_respondent, List.length_map]
    | verdict context =>
      dsimp only
      rw [hverdicts]
      rfl
  | cons number way =>
    rw [consult_cons, Snapshot.consult_cons]
    exact consult_part_of_repliesAlike hparts number ⟨way, inquiry⟩

/-- A validator with a snapshot replies as that does. A custom decision asks the parts of what it
enhances, too, so verdicts alone would not carry the induction. -/
theorem repliesAlike_of_snapshot (engine : Engine) (now : Nat)
    (h : world.snapshot? validator = some snapshot) :
    RepliesAlike engine now world validator snapshot := by
  induction h using layer_induction with
  | base anchored =>
    refine repliesAlike_of_parts (snapshot?_base anchored) .nil fun context => ?_
    rw [judge]
    rfl
  | composite members snapshots h hmembers =>
    have halike : List.Forall₂ (RepliesAlike engine now world) members snapshots :=
      hmembers.imp fun _ _ hmember => hmember.2
    refine repliesAlike_of_parts h halike fun context => ?_
    rw [judge, judgeAny_of_repliesAlike halike, Snapshot.validate_composite]
  | inflatable number pool h hpool =>
    refine repliesAlike_of_parts h .nil fun context => ?_
    rw [judge, hpool]
    rfl
  | hotSwappable slot delegate inside h hslot hinside ih =>
    have hparts : List.Forall₂ (RepliesAlike engine now world)
        (world.parts (.hotSwappable slot)) [inside] := by
      rw [parts, hslot]
      exact .cons ih .nil
    refine repliesAlike_of_parts h hparts fun context => ?_
    rw [judge, hslot]
    exact ih.judge_eq context
  | enhanceable inner enhancer inside h hinside ih =>
    refine repliesAlike_of_parts h (.cons ih .nil) fun context => ?_
    cases enhancer with
    | none =>
      rw [judge]
      exact ih.judge_eq context
    | some enhancer =>
      rw [judge, ih.follow_eq]
      rfl
  | logging inner inside h hinside ih =>
    refine repliesAlike_of_parts h (.cons ih .nil) fun context => ?_
    rw [judge, ih.judge_eq, Snapshot.validate_logging, kind_of_snapshot? hinside]
    rfl
  | capturing collector inner inside h hinside ih =>
    refine repliesAlike_of_parts h (.cons ih .nil) fun context => ?_
    rw [judge, ih.judge_eq, Snapshot.validate_capturing]
    rfl
  | trustAll =>
    refine repliesAlike_of_parts snapshot?_trustAll .nil fun context => ?_
    rw [judge]
    rfl
  | dummy =>
    refine repliesAlike_of_parts snapshot?_dummy .nil fun context => ?_
    rw [judge]
    rfl

/-- **Verdicts.** Where a validator has a snapshot, there is a verdict, and it is the one that the
snapshot gives. -/
theorem judge_of_snapshot (h : world.snapshot? validator = some snapshot) (engine : Engine)
    (now : Nat) (context : Context) :
    world.judge engine now validator context = some (snapshot.validate engine now context) :=
  (repliesAlike_of_snapshot engine now h).judge_eq context

/-- Where a validator has a snapshot, the way to a pool comes to an end, and the pool is the first in
the snapshot. -/
theorem findPool_of_snapshot (h : world.snapshot? validator = some snapshot) :
    world.findPool validator = some snapshot.pool? := by
  induction h using layer_induction with
  | composite members snapshots h hmembers =>
    clear h
    rw [findPool, Snapshot.pool?]
    induction hmembers with
    | nil => rw [findPoolAmong, Snapshot.firstPool?]
    | @cons member inside rest others hfirst hrest ih =>
      obtain ⟨-, hfirst⟩ := hfirst
      rw [findPoolAmong, hfirst, Snapshot.firstPool?, Option.bind_eq_bind, Option.bind_some]
      cases inside.pool? with
      | none => rw [ih, Option.none_or]
      | some number => rfl
  | hotSwappable slot delegate inside h hslot hinside ih =>
    rw [findPool, hslot]
    exact ih
  | enhanceable inner enhancer inside h hinside ih => rwa [findPool]
  | logging inner inside h hinside ih => rwa [findPool]
  | capturing collector inner inside h hinside ih => rwa [findPool]
  | _ =>
    rw [findPool]
    rfl

theorem findPool_eq_some_iff (h : world.snapshot? validator = some snapshot) {found : Option Nat} :
    world.findPool validator = some found ↔ snapshot.pool? = found := by
  rw [findPool_of_snapshot h, Option.some.injEq]

end

section
variable {world after : World}

/-- A snapshot looks at pools and slots only. -/
theorem snapshot?_congr (hpools : after.pools = world.pools) (hslots : after.slots = world.slots)
    (validator : Validator) : after.snapshot? validator = world.snapshot? validator := by
  have hpool : after.poolSnapshot? = world.poolSnapshot? := by
    funext number
    rw [poolSnapshot?, poolSnapshot?, hpools]
  have hwithin (depth : Nat) : after.snapshotWithin depth = world.snapshotWithin depth := by
    induction depth with
    | zero =>
      funext validator
      rw [snapshotWithin, snapshotWithin, hpool]
    | succ depth ih =>
      funext validator
      rw [snapshotWithin, snapshotWithin, hpool, hslots, ih]
  rw [snapshot?, snapshot?, hslots, hwithin]

/-- The parts of a validator depend on the slots only. -/
theorem parts_congr (hslots : after.slots = world.slots) : after.parts = world.parts := by
  funext validator
  cases validator with
  | hotSwappable slot => rw [parts, parts, hslots]
  | _ => rfl

theorem part?_congr (hslots : after.slots = world.slots) (validator : Validator) (way : List Nat) :
    after.part? validator way = world.part? validator way := by
  induction way generalizing validator with
  | nil => rfl
  | cons number way ih => simp only [part?, parts_congr hslots, ih]

/-- A verdict that there is in a world is also there in one with the same pools and slots. -/
theorem judge_imp (hpools : after.pools = world.pools) (hslots : after.slots = world.slots)
    {engine : Engine} {now : Nat} {validator : Validator} {context : Context}
    {judged : Verdict × List Effect}
    (h : world.judge engine now validator context = some judged) :
    after.judge engine now validator context = some judged := by
  -- No measure gets smaller on the way to a verdict, so the induction is on how it was come to.
  refine judge.partial_correctness engine now world
    (fun validator context judged => after.judge engine now validator context = some judged)
    (fun base decision followed => after.follow engine now base decision = some followed)
    (fun base question told => after.consult engine now base question = some told)
    (fun members context earlier judged =>
      after.judgeAny engine now members context earlier = some judged)
    ?judge ?follow ?consult ?judgeAny validator context judged h
  case judge =>
    intro judge follow judgeAny hjudge hfollow hjudgeAny validator context judged h
    cases validator with
    | base anchored => rwa [World.judge]
    | composite members =>
      rw [World.judge]
      exact hjudgeAny _ _ _ _ h
    | inflatable number => rwa [World.judge, hpools]
    | hotSwappable number =>
      rw [World.judge, hslots]
      exact Option.bind_imp (fun _ h => h) (fun _ => hjudge _ _) h
    | enhanceable inner enhancer =>
      cases enhancer with
      | none =>
        rw [World.judge]
        exact hjudge _ _ _ h
      | some enhancer =>
        rw [World.judge]
        exact Option.bind_imp (hfollow _ _) (fun _ _ h => h) h
    | logging inner =>
      rw [World.judge]
      exact Option.bind_imp (hjudge _ _) (fun _ _ h => h) h
    | capturing collector inner =>
      rw [World.judge]
      exact Option.bind_imp (hjudge _ _) (fun _ _ h => h) h
    | trustAll => rwa [World.judge]
    | dummy => rwa [World.judge]
  case follow =>
    intro follow consult hfollow hconsult base decision followed h
    cases decision with
    | answer accepts => rwa [World.follow]
    | consult question next =>
      rw [World.follow]
      exact Option.bind_imp (hconsult _ _)
        (fun _ _ => Option.bind_imp (hfollow _ _) fun _ _ h => h) h
  case consult =>
    intro judge hjudge base question told h
    rw [World.consult, part?_congr hslots, parts_congr hslots]
    split at h
    · exact h
    · exact h
    · exact h
    · rwa [snapshot?_congr hpools hslots]
    · exact h
    · exact Option.bind_imp (hjudge _ _) (fun _ _ h => h) h
  case judgeAny =>
    intro judge judgeAny hjudge hjudgeAny members context earlier judged h
    cases members with
    | nil => rwa [World.judgeAny]
    | cons member rest =>
      rw [World.judgeAny]
      refine Option.bind_imp (hjudge _ _) (fun first result h => ?_) h
      obtain ⟨verdict, effects⟩ := first
      cases verdict with
      | ok accepted => exact h
      | error rejection => exact Option.bind_imp (hjudgeAny _ _ _) (fun _ _ h => h) h

/-- **Frame.** A verdict depends on nothing in a world but the pools and the slots. -/
theorem judge_congr (hpools : after.pools = world.pools) (hslots : after.slots = world.slots)
    (engine : Engine) (now : Nat) (validator : Validator) (context : Context) :
    after.judge engine now validator context = world.judge engine now validator context :=
  Option.ext fun _ => ⟨judge_imp hpools.symm hslots.symm, judge_imp hpools hslots⟩

end

/-- Where logging around a slot stands in that same slot, there is no verdict: the way to it never
comes to an end. -/
theorem judge_eq_none_of_loggedSelf {world : World} {slot : Nat}
    (hslot : world.slots[slot]? = some (.logging (.hotSwappable slot))) (engine : Engine)
    (now : Nat) (context : Context) :
    world.judge engine now (.hotSwappable slot) context = none := by
  refine Option.eq_none_iff_forall_ne_some.mpr fun judged hjudged => ?_
  have hother := judge.partial_correctness engine now world
    (fun validator _ _ => validator ≠ .hotSwappable slot ∧ validator ≠ .logging (.hotSwappable slot))
    (fun _ _ _ => True) (fun _ _ _ => True) (fun _ _ _ _ => True) ?_
    (fun _ _ _ _ _ _ _ _ => trivial) (fun _ _ _ _ _ _ => trivial)
    (fun _ _ _ _ _ _ _ _ _ => trivial) (.hotSwappable slot) context judged hjudged
  · exact hother.1 rfl
  intro judge follow judgeAny hjudge hfollow hjudgeAny validator context judged h
  refine ⟨?_, ?_⟩
  · rintro rfl
    obtain ⟨delegate, hdelegate, hjudged⟩ := Option.bind_eq_some_iff.mp h
    rw [hslot] at hdelegate
    cases hdelegate
    exact (hjudge _ _ _ hjudged).2 rfl
  · rintro rfl
    obtain ⟨inside, hinside, -⟩ := Option.bind_eq_some_iff.mp h
    exact (hjudge _ _ _ hinside).1 rfl

end World

end PeerTrust
