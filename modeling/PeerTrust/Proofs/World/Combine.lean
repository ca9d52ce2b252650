import PeerTrust.Proofs.World.Parts

/-!
# Combining in stages

Combining makes one validator of several by rules that look at all of them: one that accepts
everything takes the place of the others, a single one stays as it is, and several become a
composite without composites among its members. Each of these says the same of a list as of the
validators that its parts are combined to, so validators can be combined in stages, whatever the
stages are. -/

namespace PeerTrust

namespace Validator

/-- What several validators are combined to. -/
inductive IsCombined (validators : List Validator) : Validator → Prop
  /-- One that accepts everything and tells the log comes first. -/
  | trustAll (hmem : .trustAll ∈ validators) : IsCombined validators .trustAll
  /-- One that accepts everything comes second. -/
  | dummy (hnone : .trustAll ∉ validators) (hmem : .dummy ∈ validators) :
      IsCombined validators .dummy
  /-- A single one stays as it is. -/
  | single {validator : Validator} (hsingle : validators = [validator]) :
      IsCombined validators validator
  /-- Several become a composite, in order. -/
  | composite (htrustAll : .trustAll ∉ validators) (hdummy : .dummy ∉ validators)
      (hlength : 2 ≤ validators.length) :
      IsCombined validators (.composite (flattenAll validators))

section
variable {validators : List Validator} {combined : Validator}

theorem combine_of_ne_nil (hne : validators ≠ []) :
    combine validators = .ok ((firstAcceptingAll? validators).getD (unite validators)) := by
  cases validators with
  | nil => exact absurd rfl hne
  | cons first rest => rfl

theorem IsCombined.combine_eq (h : IsCombined validators combined) :
    combine validators = .ok combined := by
  cases h with
  | trustAll hmem =>
    rw [combine_of_ne_nil (List.ne_nil_of_mem hmem), firstAcceptingAll?,
      find?_kind_of_mem kind_eq_trustAll hmem]
    rfl
  | dummy hnone hmem =>
    rw [combine_of_ne_nil (List.ne_nil_of_mem hmem), firstAcceptingAll?,
      find?_kind_of_not_mem kind_eq_trustAll hnone, find?_kind_of_mem kind_eq_dummy hmem]
    rfl
  | single hsingle =>
    subst hsingle
    cases combined <;> rfl
  | composite htrustAll hdummy hlength =>
    rw [combine_of_ne_nil (List.ne_nil_of_length_pos (by omega)),
      firstAcceptingAll?_of_not_mem htrustAll hdummy, Option.getD_none]
    rcases validators with _ | ⟨first, _ | ⟨second, rest⟩⟩
    · cases hlength
    · rw [List.length_singleton] at hlength
      omega
    · rfl

theorem exists_isCombined (hne : validators ≠ []) : ∃ combined, IsCombined validators combined := by
  by_cases htrustAll : .trustAll ∈ validators
  · exact ⟨_, .trustAll htrustAll⟩
  by_cases hdummy : .dummy ∈ validators
  · exact ⟨_, .dummy htrustAll hdummy⟩
  by_cases hlength : 2 ≤ validators.length
  · exact ⟨_, .composite htrustAll hdummy hlength⟩
  · have hpos := List.length_pos_of_ne_nil hne
    obtain ⟨single, hsingle⟩ := List.length_eq_one_iff.mp (show validators.length = 1 by omega)
    exact ⟨single, .single hsingle⟩

/-- Combining follows the rules. -/
theorem combine_eq_ok : combine validators = .ok combined ↔ IsCombined validators combined := by
  refine ⟨fun h => ?_, IsCombined.combine_eq⟩
  have hne : validators ≠ [] := by
    rintro rfl
    cases h
  obtain ⟨other, hother⟩ := exists_isCombined hne
  rw [hother.combine_eq] at h
  cases h
  exact hother

end

section
variable {group validators parts : List Validator} {groups : List (List Validator)}
  {part combined : Validator}

theorem IsCombined.ne_nil (h : IsCombined group part) : group ≠ [] := by
  rintro rfl
  cases combine_eq_ok.mpr h

/-- A group is combined to the validator that tells the log exactly if that is a member. -/
theorem IsCombined.trustAll_eq_iff (h : IsCombined group part) :
    .trustAll = part ↔ .trustAll ∈ group := by
  cases h with
  | trustAll hmem => exact iff_of_true rfl hmem
  | dummy hnone hmem => exact iff_of_false nofun hnone
  | single hsingle => rw [hsingle, List.mem_singleton]
  | composite htrustAll hdummy hlength => exact iff_of_false nofun htrustAll

theorem IsCombined.dummy_eq_iff (h : IsCombined group part) (hnone : .trustAll ∉ group) :
    .dummy = part ↔ .dummy ∈ group := by
  cases h with
  | trustAll hmem => exact absurd hmem hnone
  | dummy _ hmem => exact iff_of_true rfl hmem
  | single hsingle => rw [hsingle, List.mem_singleton]
  | composite htrustAll hdummy hlength => exact iff_of_false nofun hdummy

/-- Several validators become a composite without composites among its members. -/
theorem IsCombined.kind_ne_composite (h : IsCombined validators (.composite parts))
    (hlength : 2 ≤ validators.length) : ∀ part ∈ parts, part.kind ≠ .composite := by
  cases h with
  | single hsingle =>
    rw [hsingle, List.length_singleton] at hlength
    omega
  | composite htrustAll hdummy _ => exact fun part => kind_ne_composite_of_mem_flattenAll

/-- The members of a group are those of what it is combined to. -/
theorem IsCombined.flatten_eq (h : IsCombined group part) (htrustAll : .trustAll ∉ group)
    (hdummy : .dummy ∉ group) : part.flatten = flattenAll group := by
  cases h with
  | trustAll hmem => exact absurd hmem htrustAll
  | dummy _ hmem => exact absurd hmem hdummy
  | single hsingle => rw [hsingle, flattenAll, flattenAll, List.append_nil]
  | composite _ _ hlength => exact flattenAll_flattenAll group

/-- Among what groups are combined to there is one that tells the log exactly if a group has it. -/
theorem trustAll_mem_iff (hparts : List.Forall₂ IsCombined groups parts) :
    .trustAll ∈ parts ↔ .trustAll ∈ groups.flatten := by
  induction hparts with
  | nil => exact Iff.rfl
  | cons hfirst hrest ih =>
    rw [List.mem_cons, List.flatten_cons, List.mem_append, hfirst.trustAll_eq_iff, ih]

theorem dummy_mem_iff (hparts : List.Forall₂ IsCombined groups parts)
    (hnone : .trustAll ∉ groups.flatten) : .dummy ∈ parts ↔ .dummy ∈ groups.flatten := by
  induction hparts with
  | nil => exact Iff.rfl
  | cons hfirst hrest ih =>
    rw [List.flatten_cons, List.mem_append, not_or] at hnone
    rw [List.mem_cons, List.flatten_cons, List.mem_append, hfirst.dummy_eq_iff hnone.1, ih hnone.2]

theorem flattenAll_parts (hparts : List.Forall₂ IsCombined groups parts)
    (htrustAll : .trustAll ∉ groups.flatten) (hdummy : .dummy ∉ groups.flatten) :
    flattenAll parts = flattenAll groups.flatten := by
  induction hparts with
  | nil => rfl
  | cons hfirst hrest ih =>
    rw [List.flatten_cons, List.mem_append, not_or] at htrustAll hdummy
    rw [flattenAll, List.flatten_cons, flattenAll_append, hfirst.flatten_eq htrustAll.1 hdummy.1,
      ih htrustAll.2 hdummy.2]

theorem length_parts_le (hparts : List.Forall₂ IsCombined groups parts) :
    parts.length ≤ groups.flatten.length := by
  induction hparts with
  | nil => exact Nat.le_refl 0
  | cons hfirst hrest ih =>
    have hpos := List.length_pos_of_ne_nil hfirst.ne_nil
    rw [List.length_cons, List.flatten_cons, List.length_append]
    omega

/-- **Stages.** What groups are combined to is combined to the same as all their members. -/
theorem IsCombined.flatten (hparts : List.Forall₂ IsCombined groups parts)
    (h : IsCombined parts combined) : IsCombined groups.flatten combined := by
  cases h with
  | trustAll hmem => exact .trustAll ((trustAll_mem_iff hparts).mp hmem)
  | dummy hnone hmem =>
    rw [trustAll_mem_iff hparts] at hnone
    exact .dummy hnone ((dummy_mem_iff hparts hnone).mp hmem)
  | single hsingle =>
    subst hsingle
    obtain ⟨group, rest, hgroup, hrest, rfl⟩ := List.forall₂_cons_right_iff.mp hparts
    rw [List.forall₂_nil_right_iff.mp hrest, List.flatten_singleton]
    exact hgroup
  | composite htrustAll hdummy hlength =>
    rw [trustAll_mem_iff hparts] at htrustAll
    rw [dummy_mem_iff hparts htrustAll] at hdummy
    rw [flattenAll_parts hparts htrustAll hdummy]
    exact .composite htrustAll hdummy (hlength.trans (length_parts_le hparts))

end

end Validator

namespace World

/-- **Stages.** Groups of validators that are combined one by one, and then together, become the
same validator as all their members at once, and the rules say which. A composite that several
validators become has no composite among its members. -/
theorem combine_groups (groups : List (List Validator)) (hgroups : groups ≠ [])
    (hmembers : ∀ group ∈ groups, group ≠ []) (world : World) :
    ∃ combined earlier later, Validator.IsCombined groups.flatten combined ∧
      (do combine (← groups.mapM combine)).perform world =
        some (.ok combined, world.tell earlier) ∧
      (combine groups.flatten).perform world = some (.ok combined, world.tell later) ∧
      (2 ≤ groups.flatten.length → ∀ parts, combined = .composite parts →
        ∀ part ∈ parts, part.kind ≠ .composite) := by
  obtain ⟨parts, hparts⟩ := List.exists_forall₂_iff.mpr
    fun group hmem => Validator.exists_isCombined (hmembers group hmem)
  have hne : parts ≠ [] := by
    rintro rfl
    exact hgroups (List.forall₂_nil_right_iff.mp hparts)
  obtain ⟨combined, hcombined⟩ := Validator.exists_isCombined hne
  have hall := hcombined.flatten hparts
  have hstages : groups.mapM Validator.combine = .ok parts :=
    Except.mapM_eq_ok.mpr (hparts.imp fun _ _ h => h.combine_eq)
  obtain ⟨earlier, hearlier⟩ :=
    (Action.OnlyTells.mapM combine_onlyTells groups).bind combine_onlyTells world
  obtain ⟨later, hlater⟩ := combine_onlyTells groups.flatten world
  refine ⟨combined, earlier, later, hall, ?_, ?_, ?_⟩
  · rw [hearlier, hstages, ← hcombined.combine_eq]
    rfl
  · rw [hlater, hall.combine_eq]
  · rintro hlength members rfl
    exact hall.kind_ne_composite hlength

/-- A group with an empty composite inside of another one, and a composite with a single member. -/
def nestedGroups : List (List Validator) :=
  [[.composite [.composite []], .inflatable 0], [.composite [.hotSwappable 0]]]

/-- Of the composites nothing is left but the member, in stages or at once. -/
theorem combine_nestedGroups : ∃ earlier later,
    (do combine (← nestedGroups.mapM combine)).perform (start .empty []) =
      some (.ok (.composite [.inflatable 0, .hotSwappable 0]), (start .empty []).tell earlier) ∧
    (combine nestedGroups.flatten).perform (start .empty []) =
      some (.ok (.composite [.inflatable 0, .hotSwappable 0]), (start .empty []).tell later) := by
  obtain ⟨combined, earlier, later, hcombined, hstages, hall, -⟩ :=
    combine_groups nestedGroups (List.cons_ne_nil _ _) (by simp [nestedGroups]) (start .empty [])
  have hmembers := hcombined.combine_eq
  cases hmembers
  exact ⟨earlier, later, hstages, hall⟩

end World

end PeerTrust
