import PeerTrust.Proofs.Trust.Leaves
import PeerTrust.Proofs.Trust.Stores

/-!
# Composites that are taken apart

Several validators are asked in turn until one of them accepts. Where rejections count by their
reasons only, what they come to together is put together of what each of them comes to, by an
operation that is associative and has a neutral element. Some of them may not come to an end; those
behind one that accepts need not. The issuers of several validators are likewise put together, each
where it first comes, so a composite among them may as well be replaced by its members. -/

namespace PeerTrust

theorem Rejection.reasonsOfAll_append (first second : List Rejection) :
    reasonsOfAll (first ++ second) = reasonsOfAll first ++ reasonsOfAll second := by
  induction first with
  | nil => rfl
  | cons rejection rest ih =>
    rw [List.cons_append, reasonsOfAll, reasonsOfAll, ih, List.append_assoc]

/-- A verdict with the reasons of its rejection in the place of that. -/
def Verdict.inReasons (verdict : Verdict) : Except (List Rejection) Unit :=
  verdict.mapError Rejection.reasons

/-- What a validation comes to: the verdict with its reasons, and what is done on the way to it. -/
structure Validation where
  verdict : Except (List Rejection) Unit
  effects : List Effect

namespace Validation

/-- What a validation comes to, given the verdict and what is done on the way to it. -/
def ofJudged (judged : Verdict × List Effect) : Validation := ⟨judged.1.inReasons, judged.2⟩

/-- What it comes to if nobody is asked. -/
def unasked : Validation := ⟨.error [], []⟩

/-- A validation behind earlier reasons and effects. -/
def behind (last : Validation) (reasons : List Rejection) (effects : List Effect) : Validation :=
  ⟨last.verdict.mapError (reasons ++ ·), effects ++ last.effects⟩

/-- A validation, and behind it another one unless the first one accepts. -/
def orElse (first : Validation) (second : Option Validation) : Option Validation :=
  match first.verdict with
  | .ok () => some first
  | .error reasons => second.map (·.behind reasons first.effects)

/-- Several validations, each of which comes behind those before it unless one of them accepts. -/
def inTurn (validations : List (Option Validation)) : Option Validation :=
  validations.foldr (fun first later => first.bind (·.orElse later)) (some .unasked)

section
variable (first : Validation) (second third : Option Validation)

@[simp] theorem orElse_of_ok (effects : List Effect) :
    orElse ⟨.ok (), effects⟩ second = some ⟨.ok (), effects⟩ := rfl

@[simp] theorem orElse_of_error (reasons : List Rejection) (effects : List Effect) :
    orElse ⟨.error reasons, effects⟩ second = second.map (·.behind reasons effects) := rfl

@[simp] theorem behind_of_ok (reasons : List Rejection) (before effects : List Effect) :
    behind ⟨.ok (), effects⟩ reasons before = ⟨.ok (), before ++ effects⟩ := rfl

@[simp] theorem behind_of_error (earlier reasons : List Rejection) (before effects : List Effect) :
    behind ⟨.error reasons, effects⟩ earlier before =
      ⟨.error (earlier ++ reasons), before ++ effects⟩ := rfl

theorem behind_behind (last : Validation) (earlier reasons : List Rejection)
    (before effects : List Effect) : (last.behind reasons effects).behind earlier before =
      last.behind (earlier ++ reasons) (before ++ effects) := by
  obtain ⟨_ | ⟨⟨⟩⟩, after⟩ := last <;> simp

@[simp] theorem behind_nothing (last : Validation) : last.behind [] [] = last := by
  obtain ⟨_ | ⟨⟨⟩⟩, effects⟩ := last <;> rfl

theorem unasked_orElse : unasked.orElse second = second := by
  cases second <;> simp [unasked]

theorem orElse_unasked : first.orElse (some unasked) = some first := by
  obtain ⟨_ | ⟨⟨⟩⟩, effects⟩ := first <;> simp [unasked]

theorem orElse_assoc :
    (first.orElse second).bind (·.orElse third) = first.orElse (second.bind (·.orElse third)) := by
  obtain ⟨_ | ⟨⟨⟩⟩, before⟩ := first
  · cases second with
    | none => rfl
    | some second =>
      obtain ⟨_ | ⟨⟨⟩⟩, between⟩ := second
      · cases third <;> simp [behind_behind]
      · simp
  · rfl

theorem inTurn_nil : inTurn [] = some unasked := rfl

theorem inTurn_cons (validation : Option Validation) (rest : List (Option Validation)) :
    inTurn (validation :: rest) = validation.bind (·.orElse (inTurn rest)) := rfl

theorem inTurn_append (before after : List (Option Validation)) :
    inTurn (before ++ after) = (inTurn before).bind (·.orElse (inTurn after)) := by
  induction before with
  | nil => exact (unasked_orElse _).symm
  | cons validation rest ih =>
    rw [List.cons_append, inTurn_cons, ih, inTurn_cons]
    cases validation with
    | none => rfl
    | some validation => exact (orElse_assoc ..).symm

theorem inTurn_singleton (validation : Option Validation) : inTurn [validation] = validation := by
  cases validation with
  | none => rfl
  | some validation => exact orElse_unasked validation

end

end Validation

namespace Snapshot

section
variable {known : List Certificate} {members first second third fourth : List Snapshot}

theorem issuersOfAll_append (known : List Certificate) (first second : List Snapshot) :
    issuersOfAll known (first ++ second) = issuersOfAll (issuersOfAll known first) second := by
  induction first generalizing known with
  | nil => rfl
  | cons member rest ih => exact ih _

/-- What several validators trust comes behind what is known. -/
theorem issuersOfAll_eq (known : List Certificate) (members : List Snapshot) :
    issuersOfAll known members = extendUnique known (issuersOfAll [] members) := by
  induction members generalizing known with
  | nil => rfl
  | cons member rest ih =>
    rw [issuersOfAll, issuersOfAll, ih, ih (extendUnique [] _), extendUnique_extendUnique,
      extendUnique_extendUnique]
    rfl

/-- The members of a composite trust together what the composite does. -/
theorem issuersOfAll_composite (known : List Certificate) (members : List Snapshot) :
    issuersOfAll known [.composite members] = issuersOfAll known members :=
  (issuersOfAll_eq known members).symm

/-- Validators that trust together the same as others. -/
def SameIssuers (first second : List Snapshot) : Prop :=
  ∀ known, issuersOfAll known first = issuersOfAll known second

theorem SameIssuers.append (hfront : SameIssuers first second) (hback : SameIssuers third fourth) :
    SameIssuers (first ++ third) (second ++ fourth) := by
  intro known
  rw [issuersOfAll_append, issuersOfAll_append, hfront, hback]

/-- A composite may be replaced by what its members may be replaced by. -/
theorem SameIssuers.splice (h : SameIssuers first second) :
    SameIssuers [.composite first] second := by
  intro known
  rw [issuersOfAll_composite, h]

end

end Snapshot

namespace Validator

section
variable {pool slot : Nat → Option Snapshot}

theorem snapshotsWith_append (first second : List Validator) :
    snapshotsWith pool slot (first ++ second) = do
      return (← snapshotsWith pool slot first) ++ (← snapshotsWith pool slot second) := by
  induction first with
  | nil => simp [snapshotsWith]
  | cons member rest ih => simp [snapshotsWith, ih, Option.bind_assoc]

theorem snapshotsWith_singleton (validator : Validator) :
    snapshotsWith pool slot [validator] = (validator.snapshotWith pool slot).map ([·]) := by
  cases h : validator.snapshotWith pool slot <;> simp [snapshotsWith, h]

/-- Validators have snapshots exactly if others do, and then their snapshots may be replaced by
those of the others. -/
abbrev Replaces (pool slot : Nat → Option Snapshot) (first second : List Validator) : Prop :=
  Option.Rel Snapshot.SameIssuers (snapshotsWith pool slot first) (snapshotsWith pool slot second)

theorem Replaces.refl (validators : List Validator) : Replaces pool slot validators validators := by
  unfold Replaces
  cases snapshotsWith pool slot validators with
  | none => exact .none
  | some snapshots => exact .some fun _ => rfl

theorem Replaces.append {first second third fourth : List Validator}
    (hfront : Replaces pool slot first second) (hback : Replaces pool slot third fourth) :
    Replaces pool slot (first ++ third) (second ++ fourth) := by
  unfold Replaces at hfront hback ⊢
  rw [snapshotsWith_append, snapshotsWith_append]
  generalize snapshotsWith pool slot first = firsts at hfront ⊢
  generalize snapshotsWith pool slot second = seconds at hfront ⊢
  generalize snapshotsWith pool slot third = thirds at hback ⊢
  generalize snapshotsWith pool slot fourth = fourths at hback ⊢
  cases hfront with
  | none => exact .none
  | some hfront =>
    cases hback with
    | none => exact .none
    | some hback => exact .some (hfront.append hback)

theorem Replaces.splice {members others : List Validator} (h : Replaces pool slot members others) :
    Replaces pool slot [.composite members] others := by
  unfold Replaces at h ⊢
  rw [snapshotsWith_singleton, snapshotWith]
  generalize snapshotsWith pool slot members = inside at h ⊢
  generalize snapshotsWith pool slot others = apart at h ⊢
  cases h with
  | none => exact .none
  | some h => exact .some h.splice

/-- If every validator may be replaced by what it is taken apart into, so may all of them. -/
theorem replaces_flattenAll {members : List Validator}
    (hmembers : ∀ member ∈ members, Replaces pool slot [member] member.flatten) :
    Replaces pool slot members (flattenAll members) := by
  induction members with
  | nil => exact .refl []
  | cons member rest ih =>
    obtain ⟨hmember, hrest⟩ := List.forall_mem_cons.mp hmembers
    exact hmember.append (ih hrest)

/-- A validator may be replaced by what it is taken apart into. -/
theorem replaces_flatten (validator : Validator) :
    Replaces pool slot [validator] validator.flatten := by
  induction validator with
  | composite members ih => exact (replaces_flattenAll ih).splice
  | _ => exact .refl _

/-- A composite trusts the same if its members are taken apart. -/
theorem ofMembers_snapshotWith (members : List Validator) :
    ((ofMembers members).snapshotWith pool slot).map Snapshot.issuers =
      ((composite members).snapshotWith pool slot).map Snapshot.issuers := by
  have hreplaces : Replaces pool slot members (flattenAll members) :=
    replaces_flattenAll fun member _ => replaces_flatten member
  rw [ofMembers, snapshotWith, snapshotWith]
  unfold Replaces at hreplaces
  generalize snapshotsWith pool slot members = inside at hreplaces ⊢
  generalize snapshotsWith pool slot (flattenAll members) = apart at hreplaces ⊢
  cases hreplaces with
  | none => rfl
  | some hsame => exact congrArg some (hsame []).symm

end

section
variable {validator part : Validator} {members first second : List Validator}

theorem flattenAll_append :
    flattenAll (first ++ second) = flattenAll first ++ flattenAll second := by
  induction first with
  | nil => rfl
  | cons member rest ih => rw [List.cons_append, flattenAll, flattenAll, ih, List.append_assoc]

theorem mem_flattenAll : part ∈ flattenAll members ↔ ∃ member ∈ members, part ∈ member.flatten := by
  induction members with
  | nil => simp [flattenAll]
  | cons member rest ih => rw [flattenAll, List.mem_append, ih, List.exists_mem_cons_iff]

/-- What a validator is taken apart into is no composite. -/
theorem kind_ne_composite_of_mem_flatten (hmem : part ∈ validator.flatten) :
    part.kind ≠ .composite := by
  induction validator with
  | composite members ih =>
    obtain ⟨member, hmember, hpart⟩ := mem_flattenAll.mp hmem
    exact ih member hmember hpart
  | _ =>
    rw [List.mem_singleton.mp hmem]
    exact nofun

theorem kind_ne_composite_of_mem_flattenAll (hmem : part ∈ flattenAll members) :
    part.kind ≠ .composite := by
  obtain ⟨member, -, hpart⟩ := mem_flattenAll.mp hmem
  exact kind_ne_composite_of_mem_flatten hpart

/-- What is no composite is not taken apart. -/
theorem flatten_of_kind_ne_composite (hkind : validator.kind ≠ .composite) :
    validator.flatten = [validator] := by
  cases validator with
  | composite members => exact absurd rfl hkind
  | _ => rfl

theorem flattenAll_of_kind_ne_composite (hkinds : ∀ member ∈ members, member.kind ≠ .composite) :
    flattenAll members = members := by
  induction members with
  | nil => rfl
  | cons member rest ih =>
    obtain ⟨hmember, hrest⟩ := List.forall_mem_cons.mp hkinds
    rw [flattenAll, flatten_of_kind_ne_composite hmember, ih hrest, List.singleton_append]

/-- Nothing is left to be taken apart. -/
theorem flattenAll_flattenAll (members : List Validator) :
    flattenAll (flattenAll members) = flattenAll members :=
  flattenAll_of_kind_ne_composite fun _ => kind_ne_composite_of_mem_flattenAll

end

end Validator

end PeerTrust
