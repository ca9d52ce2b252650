import PeerTrust.Proofs.Trust.Verdicts

/-!
# Any-of over the leaves of a validator

Wrappers, slots and composites decide nothing of their own: the verdict of a validator is that of
the first of its leaves that accepts the chain, and its rejection has the rejections of all leaves
as its reasons. Everything is stated about snapshots, which hold the contents of pools and slots. -/

namespace PeerTrust

namespace Rejection

/-- Reasons are taken apart completely: none of them is the rejection of several validators. -/
theorem ne_all_of_mem_reasons {rejection reason : Rejection} (hmem : reason ∈ rejection.reasons)
    (parts : List Rejection) : reason ≠ .all parts := by
  induction rejection with
  | untrusted fault =>
    rw [List.mem_singleton.mp hmem]
    exact nofun
  | emptyChain =>
    rw [List.mem_singleton.mp hmem]
    exact nofun
  | declined =>
    rw [List.mem_singleton.mp hmem]
    exact nofun
  | all rejections ih =>
    rw [reasons] at hmem
    induction rejections with
    | nil => simp [reasonsOfAll] at hmem
    | cons first rest ihrest =>
      rw [reasonsOfAll, List.mem_append] at hmem
      rcases hmem with hfirst | hrest
      · exact ih first List.mem_cons_self hfirst
      · exact ihrest (fun rejection h => ih rejection (List.mem_cons_of_mem _ h)) hrest

end Rejection

namespace Verdict

/-- Among verdicts there is one that accepts, or all of them reject. -/
theorem accepted_or_rejected (verdicts : List Verdict) :
    .ok () ∈ verdicts ∨ ∃ rejections : List Rejection, verdicts = rejections.map .error := by
  induction verdicts with
  | nil => exact Or.inr ⟨[], rfl⟩
  | cons verdict rest ih =>
    cases verdict with
    | ok accepted => exact Or.inl List.mem_cons_self
    | error rejection =>
      rcases ih with hmem | ⟨rejections, hrest⟩
      · exact Or.inl (List.mem_cons_of_mem _ hmem)
      · exact Or.inr ⟨rejection :: rejections, by rw [hrest, List.map_cons]⟩

/-- A verdict is the any-of of others: it accepts because one of them does, or it rejects for the
reasons of all of them. -/
def IsAnyOf (verdict : Verdict) (verdicts : List Verdict) : Prop :=
  (verdict = .ok () ∧ .ok () ∈ verdicts) ∨
    ∃ rejection, verdict = .error rejection ∧ verdicts = rejection.reasons.map .error

/-- A verdict that accepts, or that rejects for a reason of its own, is the any-of of itself. -/
theorem isAnyOf_self {verdict : Verdict}
    (hreasons : ∀ rejection, verdict = .error rejection → rejection.reasons = [rejection]) :
    verdict.IsAnyOf [verdict] := by
  cases verdict with
  | ok accepted => exact Or.inl ⟨rfl, List.mem_singleton_self _⟩
  | error rejection =>
    exact Or.inr ⟨rejection, rfl, by rw [hreasons rejection rfl, List.map_singleton]⟩

theorem IsAnyOf.accepts_iff {verdict : Verdict} {verdicts : List Verdict}
    (h : verdict.IsAnyOf verdicts) : verdict = .ok () ↔ .ok () ∈ verdicts := by
  rcases h with ⟨haccepts, hmem⟩ | ⟨rejection, hrejects, hall⟩
  · exact iff_of_true haccepts hmem
  · subst hrejects hall
    exact iff_of_false nofun (by simp)

theorem IsAnyOf.reasons_eq {verdict : Verdict} {verdicts : List Verdict}
    (h : verdict.IsAnyOf verdicts) {rejection : Rejection} (hrejects : verdict = .error rejection) :
    verdicts = rejection.reasons.map .error := by
  rcases h with ⟨haccepts, _⟩ | ⟨other, hother, hall⟩
  · rw [haccepts] at hrejects
    cases hrejects
  · rw [hother] at hrejects
    cases hrejects
    exact hall

end Verdict

section
variable {engine : Engine} {now : Nat} {context : Context} {rejection : Rejection}

/-- Fixed anchors reject a chain for a reason that is not made of others. -/
theorem Base.reasons_of_rejected {base : Base}
    (hrejected : base.validate engine now context = .error rejection) :
    rejection.reasons = [rejection] := by
  unfold Base.validate at hrejected
  cases hleaf : context.leaf? with
  | none =>
    rw [hleaf] at hrejected
    cases hrejected
    rfl
  | some leaf =>
    simp only [hleaf] at hrejected
    split at hrejected
    · cases hrejected
      rfl
    · cases hverify : engine.verify base.roots context.role leaf context.intermediates now with
      | ok accepted =>
        rw [hverify] at hrejected
        cases hrejected
      | error fault =>
        rw [hverify] at hrejected
        cases hrejected
        rfl

/-- A pool rejects a chain only as its published validator does. -/
theorem Pool.reasons_of_rejected {published : Base} {predicate : Option (Context → Bool)}
    (hrejected : verdict engine now published predicate context = .error rejection) :
    rejection.reasons = [rejection] := by
  unfold verdict at hrejected
  split at hrejected
  · split at hrejected
    · cases hrejected
    · exact Base.reasons_of_rejected hrejected
  · exact Base.reasons_of_rejected hrejected

end

namespace Snapshot

mutual

/-- The validators that decide on their own, in the order in which they are asked. -/
def leaves : Snapshot → List Snapshot
  | .base anchored => [.base anchored]
  | .composite members => leavesOfAll members
  | .inflatable pool published predicate => [.inflatable pool published predicate]
  | .hotSwappable _ delegate => leaves delegate
  | .enhanceable inner none => leaves inner
  | .enhanceable inner (some enhancer) => [.enhanceable inner (some enhancer)]
  | .logging inner => leaves inner
  | .capturing _ inner => leaves inner
  | .trustAll => [.trustAll]
  | .dummy => [.dummy]

/-- The leaves of several validators, one after the other. -/
def leavesOfAll : List Snapshot → List Snapshot
  | [] => []
  | member :: rest => leaves member ++ leavesOfAll rest

end

section
variable (engine : Engine) (now : Nat)

/-- The verdict about a chain without what is done on the way to it. -/
def verdict (snapshot : Snapshot) (context : Context) : Verdict :=
  (snapshot.validate engine now context).1

variable {engine now}

/-- A member that accepts makes the whole accept, whatever the members before it say. -/
theorem validateAny_of_accepted {members : List Snapshot} {context : Context}
    (haccepted : .ok () ∈ members.map (verdict engine now · context)) (earlier : List Rejection) :
    (validateAny engine now members context earlier).1 = .ok () := by
  induction members generalizing earlier with
  | nil => simp at haccepted
  | cons member rest ih =>
    rw [validateAny_cons]
    rcases hmember : validate engine now member context with ⟨_ | rejection, effects⟩
    · rw [List.map_cons, List.mem_cons, verdict, hmember] at haccepted
      exact ih (haccepted.resolve_left nofun) _
    · rfl

/-- Members that all reject give their rejections, in order, after the earlier ones. -/
theorem validateAny_of_rejected {members : List Snapshot} {context : Context}
    {rejections : List Rejection}
    (hrejected : members.map (verdict engine now · context) = rejections.map .error)
    (earlier : List Rejection) :
    (validateAny engine now members context earlier).1 = .error (.all (earlier ++ rejections)) := by
  induction members generalizing rejections earlier with
  | nil =>
    rw [List.map_nil, eq_comm, List.map_eq_nil_iff] at hrejected
    rw [validateAny_nil, hrejected, List.append_nil]
  | cons member rest ih =>
    cases rejections with
    | nil => cases hrejected
    | cons rejection later =>
      obtain ⟨hmember, hrest⟩ := List.cons.inj hrejected
      rw [validateAny_cons]
      change (validate engine now member context).1 = .error rejection at hmember
      rcases hvalidate : validate engine now member context with ⟨verdict, effects⟩
      rw [hvalidate] at hmember
      subst hmember
      rw [List.append_cons]
      exact ih hrest _

/-- The verdicts of all leaves are rejections if those of the members are, and their reasons come in
the same order. -/
theorem leavesOfAll_rejected {members : List Snapshot} {context : Context}
    (hleaves : ∀ member ∈ members, (member.verdict engine now context).IsAnyOf
      (member.leaves.map (verdict engine now · context)))
    {rejections : List Rejection}
    (hrejected : members.map (verdict engine now · context) = rejections.map .error) :
    (leavesOfAll members).map (verdict engine now · context) =
      (Rejection.reasonsOfAll rejections).map .error := by
  induction members generalizing rejections with
  | nil =>
    rw [List.map_nil, eq_comm, List.map_eq_nil_iff] at hrejected
    rw [hrejected]
    rfl
  | cons member rest ih =>
    cases rejections with
    | nil => cases hrejected
    | cons rejection later =>
      obtain ⟨hmember, hrest⟩ := List.cons.inj hrejected
      obtain ⟨hfirst, hothers⟩ := List.forall_mem_cons.mp hleaves
      rw [leavesOfAll, Rejection.reasonsOfAll, List.map_append, List.map_append,
        hfirst.reasons_eq hmember, ih hothers hrest]

theorem mem_leavesOfAll {members : List Snapshot} {leaf : Snapshot} :
    leaf ∈ leavesOfAll members ↔ ∃ member ∈ members, leaf ∈ member.leaves := by
  induction members with
  | nil => simp [leavesOfAll]
  | cons member rest ih => simp [leavesOfAll, ih]

/-- A composite is the any-of of the leaves of its members, if each member is that of its own. -/
theorem composite_isAnyOf {members : List Snapshot} {context : Context}
    (hmembers : ∀ member ∈ members, (member.verdict engine now context).IsAnyOf
      (member.leaves.map (verdict engine now · context))) :
    ((composite members).verdict engine now context).IsAnyOf
      ((composite members).leaves.map (verdict engine now · context)) := by
  rw [leaves, verdict, validate_composite]
  rcases Verdict.accepted_or_rejected (members.map (verdict engine now · context)) with
    haccepted | ⟨rejections, hrejected⟩
  · refine Or.inl ⟨validateAny_of_accepted haccepted [], ?_⟩
    obtain ⟨member, hmember, haccepts⟩ := List.mem_map.mp haccepted
    obtain ⟨leaf, hleaf, hleafAccepts⟩ :=
      List.mem_map.mp ((hmembers member hmember).accepts_iff.mp haccepts)
    exact List.mem_map.mpr ⟨leaf, mem_leavesOfAll.mpr ⟨member, hmember, hleaf⟩, hleafAccepts⟩
  · refine Or.inr ⟨.all rejections, ?_, leavesOfAll_rejected hmembers hrejected⟩
    simpa only [List.nil_append] using validateAny_of_rejected hrejected []

/-- **Any-of.** The verdict of a validator is the any-of of the verdicts of its leaves. -/
theorem verdict_isAnyOf_leaves (snapshot : Snapshot) (context : Context) :
    (snapshot.verdict engine now context).IsAnyOf
      (snapshot.leaves.map (verdict engine now · context)) := by
  induction snapshot with
  | base anchored => exact Verdict.isAnyOf_self fun _ => Base.reasons_of_rejected
  | composite members ih => exact composite_isAnyOf ih
  | inflatable pool published predicate =>
    exact Verdict.isAnyOf_self fun _ => Pool.reasons_of_rejected
  | hotSwappable slot delegate ih => exact ih
  | enhanceable inner enhancer ih =>
    cases enhancer with
    | none => exact ih
    | some enhancer =>
      refine Verdict.isAnyOf_self fun rejection hrejected => ?_
      simp only [verdict, validate_enhanceable] at hrejected
      split at hrejected
      · cases hrejected
      · cases hrejected
        rfl
  | logging inner ih => exact ih
  | capturing collector inner ih => exact ih
  | trustAll => exact Verdict.isAnyOf_self nofun
  | dummy => exact Verdict.isAnyOf_self nofun

end

end Snapshot

end PeerTrust
