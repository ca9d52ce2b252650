import PeerTrust.Proofs.Trust.Enhancers
import PeerTrust.Proofs.Trust.Leaves

/-!
# Which recordings are made

A chain is recorded before the recorded validator is asked, and a composite asks no further once a
member accepts. So which recordings are made depends on the leaves that come before: a place where
chains are recorded is come to exactly if every leaf in front of it rejects the chain. What the
recorded validator says afterwards makes no difference.
-/

namespace PeerTrust

/-- What effects record, and in which collectors. -/
def recorded (effects : List Effect) : List (Nat × List Certificate) :=
  effects.filterMap fun
    | .tell _ => none
    | .record collector chain => some (collector, chain)

@[simp] theorem recorded_append (first second : List Effect) :
    recorded (first ++ second) = recorded first ++ recorded second := List.filterMap_append

namespace Snapshot

/-- A place in a validator where chains are recorded, with the leaves that come before it. -/
structure Capture where
  collector : Nat
  before : List Snapshot

/-- The same place behind further leaves. -/
def Capture.behind (front : List Snapshot) (place : Capture) : Capture :=
  { place with before := front ++ place.before }

mutual

/-- The places in a validator where chains are recorded, from the outside to the inside and from the
first member of a composite to the last. The leaves `before` stand in front of the validator. -/
def capturesBehind (before : List Snapshot) : Snapshot → List Capture
  | .base _ => []
  | .composite members => capturesOfAll before members
  | .inflatable _ _ _ => []
  | .hotSwappable _ delegate => capturesBehind before delegate
  | .enhanceable inner _ => capturesBehind before inner
  | .logging inner => capturesBehind before inner
  | .capturing collector inner => ⟨collector, before⟩ :: capturesBehind before inner
  | .trustAll => []
  | .dummy => []

/-- The places in several validators, each of which stands behind the leaves of those before. -/
def capturesOfAll (before : List Snapshot) : List Snapshot → List Capture
  | [] => []
  | member :: rest => capturesBehind before member ++ capturesOfAll (before ++ member.leaves) rest

end

/-- The places in a validator where chains are recorded. -/
def captures (snapshot : Snapshot) : List Capture := capturesBehind [] snapshot

section
variable (engine : Engine) (now : Nat)

/-- Whether all of several leaves reject a chain. -/
def allReject (context : Context) (leaves : List Snapshot) : Bool :=
  leaves.all fun leaf => !(leaf.verdict engine now context).isTrusted

/-- The collectors of the places that are come to: all leaves before such a place reject. -/
def reached (context : Context) (places : List Capture) : List Nat :=
  (places.filter fun place => allReject engine now context place.before).map Capture.collector

end

section
variable {engine : Engine} {now : Nat} {context : Context}

theorem reached_append (first second : List Capture) :
    reached engine now context (first ++ second) =
      reached engine now context first ++ reached engine now context second := by
  simp [reached]

/-- Places behind leaves are come to if these leaves reject, as they are without them. -/
theorem reached_behind (front : List Snapshot) (places : List Capture) :
    reached engine now context (places.map (Capture.behind front)) =
      if allReject engine now context front then reached engine now context places else [] := by
  have hbehind (place : Capture) : allReject engine now context (place.behind front).before =
      (allReject engine now context front && allReject engine now context place.before) :=
    List.all_append
  unfold reached
  rw [List.filter_map, List.map_map]
  simp only [Function.comp_def, hbehind]
  split
  · rename_i hreject
    simp only [hreject, Bool.true_and]
    rfl
  · rename_i haccept
    simp [haccept]

/-- The places of several validators that stand behind others. -/
theorem capturesOfAll_behind {members : List Snapshot} (front before : List Snapshot)
    (hmembers : ∀ member ∈ members, ∀ before, capturesBehind (front ++ before) member =
      (capturesBehind before member).map (Capture.behind front)) :
    capturesOfAll (front ++ before) members =
      (capturesOfAll before members).map (Capture.behind front) := by
  induction members generalizing before with
  | nil => rfl
  | cons member rest ih =>
    obtain ⟨hmember, hrest⟩ := List.forall_mem_cons.mp hmembers
    rw [capturesOfAll, capturesOfAll, List.map_append, hmember, List.append_assoc, ih _ hrest]

/-- The places of a validator that stands behind others. -/
theorem capturesBehind_append (front before : List Snapshot) (snapshot : Snapshot) :
    capturesBehind (front ++ before) snapshot =
      (capturesBehind before snapshot).map (Capture.behind front) := by
  induction snapshot generalizing before with
  | composite members ih => exact capturesOfAll_behind front before ih
  | hotSwappable slot delegate ih => exact ih before
  | enhanceable inner enhancer ih => exact ih before
  | logging inner ih => exact ih before
  | capturing collector inner ih =>
    rw [capturesBehind, capturesBehind, List.map_cons, ih]
    rfl
  | _ => rfl

/-- All leaves of a validator that rejects a chain reject it, and otherwise one of them accepts. -/
theorem allReject_leaves (snapshot : Snapshot) :
    allReject engine now context snapshot.leaves =
      !(snapshot.verdict engine now context).isTrusted := by
  have hanyOf : (snapshot.verdict engine now context).IsAnyOf _ :=
    snapshot.verdict_isAnyOf_leaves context
  cases hverdict : snapshot.verdict engine now context with
  | ok accepted =>
    obtain ⟨leaf, hleaf, haccepts⟩ := List.mem_map.mp (hanyOf.accepts_iff.mp hverdict)
    refine List.all_eq_false.mpr ⟨leaf, hleaf, ?_⟩
    rw [haccepts]
    exact nofun
  | error rejection =>
    refine List.all_eq_true.mpr fun leaf hleaf => ?_
    have hmem : leaf.verdict engine now context ∈ rejection.reasons.map .error :=
      hanyOf.reasons_eq hverdict ▸ List.mem_map_of_mem hleaf
    obtain ⟨reason, -, hreason⟩ := List.mem_map.mp hmem
    rw [← hreason]
    rfl

/-- Members one after the other record what is to be recorded at the places that are come to. -/
theorem recorded_validateAny {members : List Snapshot}
    (hmembers : ∀ member ∈ members, recorded (member.validate engine now context).2 =
      (reached engine now context member.captures).map fun collector =>
        (collector, context.chain))
    (earlier : List Rejection) :
    recorded (validateAny engine now members context earlier).2 =
      (reached engine now context (capturesOfAll [] members)).map fun collector =>
        (collector, context.chain) := by
  induction members generalizing earlier with
  | nil => rfl
  | cons member rest ih =>
    obtain ⟨hmember, hrest⟩ := List.forall_mem_cons.mp hmembers
    have hlater : capturesOfAll member.leaves rest =
        (capturesOfAll [] rest).map (Capture.behind member.leaves) := by
      have happend := @capturesOfAll_behind rest member.leaves []
        fun other _ before => capturesBehind_append member.leaves before other
      rwa [List.append_nil] at happend
    have hleaves := @allReject_leaves engine now context member
    rw [verdict] at hleaves
    rw [validateAny_cons, capturesOfAll, List.nil_append, hlater, reached_append, reached_behind,
      hleaves, List.map_append, ← captures, ← hmember]
    rcases member.validate engine now context with ⟨rejection | ⟨⟨⟩⟩, effects⟩
    · dsimp only
      rw [recorded_append, ih hrest]
      rfl
    · simp [Verdict.isTrusted]

/-- **Recordings.** Where nothing is decided in a custom way, a validation records the whole chain
once for each place that is come to, in the order of the places, whatever the verdict. -/
theorem recorded_validate {snapshot : Snapshot} (hplain : snapshot.enhancers = []) :
    recorded (snapshot.validate engine now context).2 =
      (reached engine now context snapshot.captures).map fun collector =>
        (collector, context.chain) := by
  induction snapshot with
  | base anchored => rfl
  | composite members ih =>
    refine recorded_validateAny (fun member hmem => ih member hmem ?_) []
    refine List.eq_nil_iff_forall_not_mem.mpr fun enhancer henhancer => ?_
    have hnone : enhancer ∉ enhancersOfAll members := List.eq_nil_iff_forall_not_mem.mp hplain _
    exact hnone (mem_enhancersOfAll.mpr ⟨member, hmem, henhancer⟩)
  | inflatable pool published predicate => rfl
  | hotSwappable slot delegate ih => exact ih hplain
  | enhanceable inner enhancer ih =>
    cases enhancer with
    | none => exact ih hplain
    | some enhancer => cases hplain
  | logging inner ih =>
    rw [validate_logging]
    dsimp only
    rw [recorded_append, ih hplain]
    exact List.append_nil _
  | capturing collector inner ih =>
    have hfirst : reached engine now context (captures (.capturing collector inner)) =
        collector :: reached engine now context inner.captures := rfl
    rw [hfirst, List.map_cons, ← ih hplain]
    rfl
  | trustAll => rfl
  | dummy => rfl

end

end Snapshot

end PeerTrust
