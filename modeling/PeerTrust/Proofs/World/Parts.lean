import PeerTrust.Proofs.Trust.Flatten
import PeerTrust.Proofs.Trust.Stores
import PeerTrust.Proofs.World.Perform
import PeerTrust.Proofs.World.Reach

/-!
# Parts of what is put together

Combining and building make new validators out of given ones. All parts of the result are parts of
what was given, so nothing that is put together refers to anything that is not there.
-/

namespace PeerTrust

namespace Validator

variable {slots : List Validator} {validator part : Validator}

/-- A validator with fixed anchors reaches nothing but itself. -/
theorem eq_of_base_reaches {anchored : Base} (hpart : (base anchored).Reaches slots part) :
    part = base anchored := by
  rcases Relation.ReflTransGen.cases_head hpart with heq | ⟨child, hchild, -⟩
  · exact heq.symm
  · cases hchild

/-- Taking composites apart finds only what is there. -/
theorem reaches_of_mem_flatten (hpart : part ∈ flatten validator) :
    validator.Reaches slots part := by
  induction validator with
  | composite members ih =>
    obtain ⟨member, hmember, hpart⟩ := mem_flattenAll.mp hpart
    exact (Child.member hmember).reaches (ih member hmember hpart)
  | _ =>
    rw [List.mem_singleton.mp hpart]
    exact .refl

theorem mem_of_firstAcceptingAll? {validators : List Validator} {accepting : Validator}
    (h : firstAcceptingAll? validators = some accepting) : accepting ∈ validators := by
  rcases Option.or_eq_some_iff.mp h with h | ⟨-, h⟩
  · exact List.mem_of_find?_eq_some h
  · exact List.mem_of_find?_eq_some h

section
variable {validators : List Validator} {kind : Kind}

/-- Where only one validator is of a kind, this one is found. -/
theorem find?_kind_of_mem (honly : ∀ other, other.kind = kind ↔ other = validator)
    (hmem : validator ∈ validators) : validators.find? (·.kind == kind) = some validator := by
  cases hfound : validators.find? (·.kind == kind) with
  | none =>
    have hnot := List.find?_eq_none.mp hfound validator hmem
    exact absurd (beq_iff_eq.mpr ((honly validator).mpr rfl)) hnot
  | some found =>
    have hkind := List.find?_some hfound
    rw [(honly found).mp (beq_iff_eq.mp hkind)]

theorem find?_kind_of_not_mem (honly : ∀ other, other.kind = kind ↔ other = validator)
    (hnone : validator ∉ validators) : validators.find? (·.kind == kind) = none := by
  refine List.find?_eq_none.mpr fun other hmem hkind => hnone ?_
  rwa [← (honly other).mp (beq_iff_eq.mp hkind)]

theorem kind_eq_trustAll (other : Validator) : other.kind = .trustAll ↔ other = .trustAll := by
  cases other <;> simp [kind]

theorem kind_eq_dummy (other : Validator) : other.kind = .dummy ↔ other = .dummy := by
  cases other <;> simp [kind]

/-- Several validators, one of which accepts everything. -/
theorem exists_firstAcceptingAll? (hmem : .trustAll ∈ validators ∨ .dummy ∈ validators) :
    ∃ accepting, firstAcceptingAll? validators = some accepting := by
  by_cases htrustAll : .trustAll ∈ validators
  · rw [firstAcceptingAll?, find?_kind_of_mem kind_eq_trustAll htrustAll]
    exact ⟨_, rfl⟩
  · have hdummy := hmem.resolve_left htrustAll
    rw [firstAcceptingAll?, find?_kind_of_not_mem kind_eq_trustAll htrustAll,
      find?_kind_of_mem kind_eq_dummy hdummy]
    exact ⟨_, rfl⟩

/-- Several validators, none of which accepts everything. -/
theorem firstAcceptingAll?_of_not_mem (htrustAll : .trustAll ∉ validators)
    (hdummy : .dummy ∉ validators) : firstAcceptingAll? validators = none := by
  rw [firstAcceptingAll?, find?_kind_of_not_mem kind_eq_trustAll htrustAll,
    find?_kind_of_not_mem kind_eq_dummy hdummy]
  rfl

end

/-- A property that nothing has to be checked for where a validator only combines or wraps others:
composites, logging and custom decisions have it anyway. -/
structure IsOfParts (property : Validator → Prop) : Prop where
  composite (members : List Validator) : property (.composite members)
  logging (inner : Validator) : property (.logging inner)
  enhanceable (inner : Validator) (enhancer : Option Enhancer) :
    property (.enhanceable inner enhancer)

section
variable {property : Validator → Prop} {validators : List Validator} {inner : Validator}

theorem everywhere_base {anchored : Base} (hbase : property (.base anchored)) :
    Everywhere slots property (.base anchored) := by
  intro part hpart
  rw [eq_of_base_reaches hpart]
  exact hbase

theorem everywhere_composite (hproperty : IsOfParts property)
    (hmembers : ∀ member ∈ validators, Everywhere slots property member) :
    Everywhere slots property (.composite validators) :=
  everywhere_iff.mpr ⟨hproperty.composite _, fun child hchild => by cases hchild with
    | member hmem => exact hmembers child hmem⟩

theorem everywhere_logging (hproperty : IsOfParts property)
    (hinner : Everywhere slots property inner) : Everywhere slots property (.logging inner) :=
  everywhere_iff.mpr ⟨hproperty.logging _, fun _ hchild => by cases hchild; exact hinner⟩

theorem everywhere_enhanceable (hproperty : IsOfParts property)
    (hinner : Everywhere slots property inner) (enhancer : Option Enhancer) :
    Everywhere slots property (.enhanceable inner enhancer) :=
  everywhere_iff.mpr ⟨hproperty.enhanceable _ _, fun _ hchild => by cases hchild; exact hinner⟩

/-- The members of a composite are put together without anything new. -/
theorem everywhere_ofMembers (hproperty : IsOfParts property)
    (hvalidators : ∀ validator ∈ validators, Everywhere slots property validator) :
    Everywhere slots property (ofMembers validators) := by
  refine everywhere_composite hproperty fun part hpart => ?_
  obtain ⟨member, hmember, hpart⟩ := mem_flattenAll.mp hpart
  intro inside hinside
  exact hvalidators member hmember inside ((reaches_of_mem_flatten hpart).trans hinside)

/-- Several validators are united without anything new. -/
theorem everywhere_unite (hproperty : IsOfParts property)
    (hvalidators : ∀ validator ∈ validators, Everywhere slots property validator) :
    Everywhere slots property (unite validators) := by
  unfold unite
  split
  · exact hvalidators _ List.mem_cons_self
  · exact everywhere_ofMembers hproperty hvalidators

end

end Validator

/-- A property that validators made of others have if those have it. Fixed anchors that were read
from a usable store have it on their own. A store that is made of a list of certificates is usable.
-/
structure Inherited (engine : Engine) (usable : Store → Prop) (property : Validator → Prop) :
    Prop where
  ofList (certificates : List Certificate) : usable (.ofList certificates)
  base {anchors : Store} {anchored : Base} (husable : usable anchors)
    (h : Base.ofStore engine anchors = .ok anchored) : property (.base anchored)
  logging {inner : Validator} (hinner : property inner) : property (.logging inner)
  enhanceable {inner : Validator} (hinner : property inner) (enhancer : Option Enhancer) :
    property (.enhanceable inner enhancer)
  unite {validators : List Validator} (hvalidators : ∀ validator ∈ validators, property validator) :
    property (Validator.unite validators)

/-- What holds everywhere in given validators holds everywhere in what is made of them. -/
theorem Validator.everywhere_inherited {engine : Engine} {usable : Store → Prop}
    {slots : List Validator} {property : Validator → Prop} (hproperty : IsOfParts property)
    (hofList : ∀ certificates, usable (.ofList certificates))
    (hbase : ∀ {anchors anchored}, usable anchors → Base.ofStore engine anchors = .ok anchored →
      property (.base anchored)) :
    Inherited engine usable (Everywhere slots property) where
  ofList := hofList
  base husable h := everywhere_base (hbase husable h)
  logging := everywhere_logging hproperty
  enhanceable := everywhere_enhanceable hproperty
  unite := everywhere_unite hproperty

/-- The anchors of the platform are those of a list of certificates, or there are none, which is a
fault of the configuration. -/
theorem Platform.load_cases (engine : Engine) (files : Files)
    (environment : List (String × String)) :
    (∃ certificates, (load engine files environment).2 = .ok (.ofList certificates)) ∨
      (load engine files environment).2 = .error (.configuration .noPlatformAnchors) := by
  unfold load
  by_cases hempty : (engine.platform files environment).certificates.isEmpty = true
  · right
    simp [hempty]
  · left
    exact ⟨(engine.platform files environment).certificates, by simp [hempty]⟩

namespace Inherited

variable {engine : Engine} {usable : Store → Prop} {property : Validator → Prop}
  {validators : List Validator} (hproperty : Inherited engine usable property)

include hproperty

/-- A source is turned into the validator that it brings with it, or into fixed anchors. -/
theorem source {files : Files} {environment : List (String × String)} {source : Source}
    {validator : Validator} (hgiven : ∀ given ∈ source.given?, property given)
    (hstores : ∀ anchors ∈ source.store?, usable anchors)
    (h : source.validator? engine files environment = .ok validator) : property validator := by
  cases source with
  | validator given =>
    cases h
    exact hgiven _ rfl
  | store anchors algorithm =>
    obtain ⟨-, -, h⟩ := Except.bind_eq_ok.mp h
    obtain ⟨anchored, hanchored, h⟩ := Except.bind_eq_ok.mp h
    cases h
    exact hproperty.base (hstores _ rfl) hanchored
  | platform =>
    obtain ⟨anchors, hload, h⟩ := Except.bind_eq_ok.mp h
    obtain ⟨anchored, hanchored, h⟩ := Except.bind_eq_ok.mp h
    cases h
    rcases Platform.load_cases engine files environment with ⟨certificates, hlist⟩ | hnone
    · rw [hlist] at hload
      cases hload
      exact hproperty.base (hproperty.ofList certificates) hanchored
    · rw [hnone] at hload
      cases hload

/-- A validator that takes the place of all others is one of them. -/
theorem firstAcceptingAll?_or_unite
    (hvalidators : ∀ validator ∈ validators, property validator) :
    property ((Validator.firstAcceptingAll? validators).getD (Validator.unite validators)) := by
  cases haccepting : Validator.firstAcceptingAll? validators with
  | none => exact hproperty.unite hvalidators
  | some accepting => exact hvalidators _ (Validator.mem_of_firstAcceptingAll? haccepting)

/-- A builder puts a custom decision and logging around its sources. -/
theorem log_decide (builder : Builder)
    (hvalidators : ∀ validator ∈ validators, property validator) :
    property (builder.log (builder.decide validators)) := by
  have hdecide : property (builder.decide validators) := by
    unfold Builder.decide
    split
    · exact hvalidators _ (Validator.mem_of_firstAcceptingAll? ‹_›)
    · exact hproperty.enhanceable (hproperty.unite hvalidators) _
    · exact hproperty.unite hvalidators
  unfold Builder.log
  split
  · exact hproperty.logging hdecide
  · exact hdecide

/-- What a builder makes has what the validators among its sources have. -/
theorem inner? {files : Files} {environment : List (String × String)} {builder : Builder}
    {inner : Validator}
    (hsources : ∀ given ∈ builder.sources.filterMap Source.given?, property given)
    (hstores : ∀ anchors ∈ builder.sources.filterMap Source.store?, usable anchors)
    (h : builder.inner? engine files environment = .ok inner) : property inner := by
  unfold Builder.inner? at h
  split at h
  · cases h
  obtain ⟨validators, hvalidators, h⟩ := Except.bind_eq_ok.mp h
  cases h
  obtain ⟨hlength, hall⟩ := List.forall₂_iff_get.mp (Except.mapM_eq_ok.mp hvalidators)
  refine hproperty.log_decide builder fun validator hmem => ?_
  obtain ⟨index, hindex, rfl⟩ := List.getElem_of_mem hmem
  have hsource := hall index (hlength ▸ hindex) hindex
  refine hproperty.source (fun given hgiven => hsources given ?_)
    (fun anchors hanchors => hstores anchors ?_) hsource
  · exact List.mem_filterMap.mpr ⟨_, List.get_mem .., hgiven⟩
  · exact List.mem_filterMap.mpr ⟨_, List.get_mem .., hanchors⟩

end Inherited

namespace World

/-- What stands in a slot after a swap is the new validator, or logging around it. -/
theorem successor_of_logging {property : Validator → Prop} {previous new : Validator}
    (hlogging : ∀ inner, property inner → property (.logging inner)) (hnew : property new) :
    property (successor previous new) := by
  unfold successor
  split
  · exact hlogging new hnew
  · exact hnew

section
variable {world : World} {validators : List Validator} {inner : Validator}

theorem has_isOfParts (world : World) : Validator.IsOfParts world.Has :=
  ⟨fun _ => trivial, fun _ => trivial, fun _ _ => trivial⟩

/-- What is made of validators refers to nothing but what they refer to. -/
theorem covers_inherited (engine : Engine) (world : World) :
    Inherited engine (fun _ => True) world.Covers :=
  Validator.everywhere_inherited world.has_isOfParts (fun _ => trivial) fun _ _ => trivial

theorem covers_base (anchored : Base) : world.Covers (.base anchored) :=
  Validator.everywhere_base trivial

theorem covers_dummy : world.Covers .dummy :=
  covers_iff.mpr ⟨trivial, fun _ hchild => by cases hchild⟩

theorem covers_trustAll : world.Covers .trustAll :=
  covers_iff.mpr ⟨trivial, fun _ hchild => by cases hchild⟩

theorem covers_inflatable {pool : Nat} (hhas : pool < world.pools.length) :
    world.Covers (.inflatable pool) :=
  covers_iff.mpr ⟨hhas, fun _ hchild => by cases hchild⟩

theorem covers_composite (hmembers : ∀ member ∈ validators, world.Covers member) :
    world.Covers (.composite validators) :=
  Validator.everywhere_composite world.has_isOfParts hmembers

theorem covers_logging (hinner : world.Covers inner) : world.Covers (.logging inner) :=
  Validator.everywhere_logging world.has_isOfParts hinner

theorem covers_enhanceable (hinner : world.Covers inner) (enhancer : Option Enhancer) :
    world.Covers (.enhanceable inner enhancer) :=
  Validator.everywhere_enhanceable world.has_isOfParts hinner enhancer

theorem covers_capturing {collector : Nat} (hhas : collector < world.collectors.length)
    (hinner : world.Covers inner) : world.Covers (.capturing collector inner) :=
  covers_iff.mpr ⟨hhas, fun _ hchild => by cases hchild; exact hinner⟩

theorem covers_hotSwappable {slot : Nat} (hslot : world.slots[slot]? = some inner)
    (hinner : world.Covers inner) : world.Covers (.hotSwappable slot) :=
  covers_iff.mpr ⟨(List.getElem?_eq_some_iff.mp hslot).1, fun _ hchild => by
    cases hchild with
    | delegate hdelegate =>
      rw [hslot] at hdelegate
      cases hdelegate
      exact hinner⟩

/-- A world without anything but one slot. -/
def oneSlot (inside : Validator) : World := { start .empty [] with slots := [inside] }

theorem oneSlot_covers {inside : Validator} (hinside : (oneSlot inside).Covers inside) :
    (oneSlot inside).Covers (.hotSwappable 0) := covers_hotSwappable rfl hinside

end

end World

end PeerTrust
