import PeerTrust.Proofs.World.Combine

/-!
# What a builder makes

A builder is told by calls what to build, in any order and as often as one likes. What comes of it
depends on nothing but the sources in their order, the last word on logging, the last word on the
slot, and the last custom decision. The sources are turned into validators one after the other, and
the first that cannot be is the reason for a failure, whatever else is among the sources. After that
the validators are combined by the rules for combining validators, and the layers come in one order.
-/

namespace PeerTrust

namespace Builder

/-- Something that a builder is told. -/
inductive Call where
  | source (source : Source)
  | validators (validators : List Validator)
  | stores (stores : List Store)
  | logging (enabled : Bool)
  | swappable (enabled : Bool)
  | enhancer (enhancer : Enhancer)

namespace Call

/-- The builder that has been told one thing more. -/
def apply (builder : Builder) : Call → Builder
  | .source added => builder.withSource added
  | .validators added => builder.withValidators added
  | .stores added => builder.withStores added
  | .logging enabled => builder.withLogging enabled
  | .swappable enabled => builder.withSwappable enabled
  | .enhancer decide => builder.withEnhancer decide

/-- The sources that a call adds. -/
def sources : Call → List Source
  | .source added => [added]
  | .validators added => added.map .validator
  | .stores added => added.map (.store · .default)
  | _ => []

/-- What a call says about logging. -/
def logging? : Call → Option Bool
  | .logging enabled => some enabled
  | _ => none

/-- What a call says about the slot. -/
def swappable? : Call → Option Bool
  | .swappable enabled => some enabled
  | _ => none

/-- The custom decision that a call sets. -/
def enhancer? : Call → Option Enhancer
  | .enhancer decide => some decide
  | _ => none

/-- What the last call says, of those that say something. -/
def last? {α : Type} (reads : Call → Option α) (calls : List Call) : Option α :=
  (calls.filterMap reads).getLast?

/-- **Step lemma.** A call adds its sources and has the last word on what it speaks of. -/
theorem apply_eq (builder : Builder) (call : Call) :
    call.apply builder =
      { sources := builder.sources ++ call.sources
        logging := call.logging?.getD builder.logging
        swappable := call.swappable?.getD builder.swappable
        enhancer := call.enhancer?.or builder.enhancer } := by
  cases call with
  | source added => rfl
  | validators added => rfl
  | stores added => rfl
  | logging enabled => simp [apply, sources, logging?, swappable?, enhancer?, withLogging]
  | swappable enabled => simp [apply, sources, logging?, swappable?, enhancer?, withSwappable]
  | enhancer decide => simp [apply, sources, logging?, swappable?, enhancer?, withEnhancer]

theorem last?_concat {α : Type} (reads : Call → Option α) (calls : List Call) (call : Call) :
    last? reads (calls ++ [call]) = (reads call).or (last? reads calls) := by
  rw [last?, List.filterMap_append, List.getLast?_append]
  cases h : reads call <;> simp [h, last?]

end Call

/-- The builder that has been told several things, one after the other. -/
def ofCalls (calls : List Call) : Builder := calls.foldl Call.apply empty

/-- **Run lemma.** What a builder has been told is the sources and the last word on all else. -/
theorem ofCalls_eq (calls : List Call) :
    ofCalls calls =
      { sources := calls.flatMap Call.sources
        logging := (Call.last? Call.logging? calls).getD false
        swappable := (Call.last? Call.swappable? calls).getD false
        enhancer := Call.last? Call.enhancer? calls } := by
  induction calls using List.reverseRecOn with
  | nil => rfl
  | append_singleton calls call ih =>
    have hnext : ofCalls (calls ++ [call]) = call.apply (ofCalls calls) := by
      rw [ofCalls, List.foldl_append]
      rfl
    rw [hnext, ih, Call.apply_eq]
    simp only [Call.last?_concat, List.flatMap_append, List.flatMap_singleton, Option.getD_or]

/-- What is decided by validators: what they are combined to, with a custom decision on top unless
one of them accepts everything. -/
inductive IsDecided (validators : List Validator) : Option Enhancer → Validator → Prop
  /-- There is no custom decision. -/
  | unset {combined : Validator} (hcombined : Validator.combine validators = .ok combined) :
      IsDecided validators none combined
  /-- One of the validators accepts everything, and the custom decision is not asked. -/
  | skipped {combined : Validator} (hcombined : Validator.combine validators = .ok combined)
      (hmem : .trustAll ∈ validators ∨ .dummy ∈ validators) (enhancer : Enhancer) :
      IsDecided validators (some enhancer) combined
  /-- The custom decision is the last one. -/
  | set {combined : Validator} (hcombined : Validator.combine validators = .ok combined)
      (htrustAll : .trustAll ∉ validators) (hdummy : .dummy ∉ validators) (enhancer : Enhancer) :
      IsDecided validators (some enhancer) (.enhanceable combined (some enhancer))

/-- What is decided by validators, logged or not. -/
inductive IsStack (validators : List Validator) (enhancer : Option Enhancer) :
    Bool → Validator → Prop
  | plain {decided : Validator} (hdecided : IsDecided validators enhancer decided) :
      IsStack validators enhancer false decided
  | logged {decided : Validator} (hdecided : IsDecided validators enhancer decided) :
      IsStack validators enhancer true (.logging decided)

section
variable {builder : Builder} {validators : List Validator}

/-- A builder decides by what the validators are combined to. -/
theorem decide_isDecided (hne : validators ≠ []) :
    IsDecided validators builder.enhancer (builder.decide validators) := by
  have hcombined := Validator.combine_of_ne_nil hne
  unfold decide
  by_cases hmem : .trustAll ∈ validators ∨ .dummy ∈ validators
  · obtain ⟨accepting, haccepting⟩ := Validator.exists_firstAcceptingAll? hmem
    rw [haccepting] at hcombined ⊢
    cases builder.enhancer with
    | none => exact .unset hcombined
    | some enhancer => exact .skipped hcombined hmem enhancer
  · rw [not_or] at hmem
    obtain ⟨htrustAll, hdummy⟩ := hmem
    rw [Validator.firstAcceptingAll?_of_not_mem htrustAll hdummy] at hcombined ⊢
    cases builder.enhancer with
    | none => exact .unset hcombined
    | some enhancer => exact .set hcombined htrustAll hdummy enhancer

theorem log_isStack {decided : Validator}
    (hdecided : IsDecided validators builder.enhancer decided) :
    IsStack validators builder.enhancer builder.logging (builder.log decided) := by
  unfold log
  cases builder.logging with
  | false => exact .plain hdecided
  | true => exact .logged hdecided

/-- Without layers, what is decided is what the validators are combined to. -/
theorem IsStack.combine_eq {stack : Validator} (hstack : IsStack validators none false stack) :
    Validator.combine validators = .ok stack := by
  cases hstack with
  | plain hdecided =>
    cases hdecided with
    | unset hcombined => exact hcombined

end

end Builder

namespace World

/-- In a world, a source is turned into a validator. -/
def Makes (engine : Engine) (world : World) (source : Source) (validator : Validator) : Prop :=
  (materialize engine source).value? world = some validator

/-- What a builder with these sources, flags and custom decision can come to in a world, and the
world that it leaves. -/
inductive Built (engine : Engine) (world : World) (sources : List Source)
    (logging swappable : Bool) (enhancer : Option Enhancer) :
    Except TrustError Validator → World → Prop
  /-- There is nothing to build from. -/
  | noSources (hnone : sources = []) :
      Built engine world sources logging swappable enhancer (.error .noSources) world
  /-- A source cannot be turned into a validator, but all sources before it can. -/
  | failed {earlier later : List Source} {source : Source} {error : TrustError}
      (hsources : sources = earlier ++ source :: later)
      (hearlier : ∀ other ∈ earlier, ∃ validator, Makes engine world other validator)
      (hfails : (materialize engine source).failure? world = some error) (events : List Event) :
      Built engine world sources logging swappable enhancer (.error error) (world.tell events)
  /-- The layers stand around the validators. -/
  | plain {validators : List Validator} {stack : Validator} (hne : sources ≠ [])
      (hplain : swappable = false) (hmade : List.Forall₂ (Makes engine world) sources validators)
      (hstack : Builder.IsStack validators enhancer logging stack) (events : List Event) :
      Built engine world sources logging swappable enhancer (.ok stack) (world.tell events)
  /-- The layers stand around the validators in a new slot. -/
  | slot {validators : List Validator} {stack : Validator} (hne : sources ≠ [])
      (hslot : swappable = true) (hmade : List.Forall₂ (Makes engine world) sources validators)
      (hstack : Builder.IsStack validators enhancer logging stack) (events : List Event) :
      Built engine world sources logging swappable enhancer
        (.ok (.hotSwappable world.slots.length))
        { world.tell events with slots := world.slots ++ [stack] }

section
variable {engine : Engine} {world : World} {source : Source} {error : TrustError}

theorem makes_iff {validator : Validator} : Makes engine world source validator ↔
    source.validator? engine world.files world.environment = .ok validator :=
  (materialize_onlyTells engine source).value?_eq_some

theorem materialize_failure?_iff : (materialize engine source).failure? world = some error ↔
    source.validator? engine world.files world.environment = .error error :=
  (materialize_onlyTells engine source).failure?_eq_some

/-- A builder comes to what its sources, flags and custom decision say. -/
theorem build_built (engine : Engine) (builder : Builder) (world : World) :
    ∃ outcome after, (build engine builder).perform world = some (outcome, after) ∧
      Built engine world builder.sources builder.logging builder.swappable builder.enhancer
        outcome after := by
  by_cases hsources : builder.sources = []
  · refine ⟨_, _, ?_, .noSources hsources⟩
    simp [build, hsources]
  obtain ⟨events, hbuild⟩ := build_perform engine builder world
  have hempty : builder.sources.isEmpty = false := List.isEmpty_eq_false_iff.mpr hsources
  unfold Builder.inner? at hbuild
  rw [hempty] at hbuild
  cases hvalidators : builder.sources.mapM
      (Source.validator? engine world.files world.environment) with
  | error error =>
    rw [hvalidators] at hbuild
    obtain ⟨earlier, failing, later, hsplit, hearlier, hfailing⟩ :=
      Except.mapM_eq_error.mp hvalidators
    refine ⟨_, _, hbuild, .failed hsplit ?_ (materialize_failure?_iff.mpr hfailing) events⟩
    intro other hother
    obtain ⟨validator, hvalidator⟩ := hearlier other hother
    exact ⟨validator, makes_iff.mpr hvalidator⟩
  | ok validators =>
    rw [hvalidators] at hbuild
    have hall := Except.mapM_eq_ok.mp hvalidators
    have hmade : List.Forall₂ (Makes engine world) builder.sources validators :=
      hall.imp fun _ _ => makes_iff.mpr
    have hne : validators ≠ [] := by
      rintro rfl
      exact hsources (List.forall₂_nil_right_iff.mp hall)
    have hdecided : Builder.IsDecided validators builder.enhancer (builder.decide validators) :=
      Builder.decide_isDecided hne
    have hstack := Builder.log_isStack hdecided
    cases hslot : builder.swappable with
    | false =>
      rw [hslot] at hbuild
      exact ⟨_, _, hbuild, .plain hsources rfl hmade hstack events⟩
    | true =>
      rw [hslot] at hbuild
      exact ⟨_, _, hbuild, .slot hsources rfl hmade hstack events⟩

end

end World

/-- An unknown algorithm is a fault of the configuration. -/
theorem Algorithm.exists_of_check_error {algorithm : Algorithm} {error : TrustError}
    (h : algorithm.check = .error error) : ∃ fault, error = .configuration fault := by
  cases algorithm with
  | default => cases h
  | named name =>
    by_cases hknown : (named name).isKnown = true
    · rw [check, if_pos hknown] at h
      cases h
    · rw [check, if_neg hknown] at h
      cases h
      exact ⟨_, rfl⟩

/-- A store that cannot be used is a fault of the configuration. -/
theorem Base.exists_of_validator_error {engine : Engine} {anchors : Store} {error : TrustError}
    (h : (do return Validator.base (← ofStore engine anchors)) = Except.error error) :
    ∃ fault, error = .configuration fault := by
  rcases Except.bind_eq_error.mp h with hanchors | ⟨anchored, -, h⟩
  · obtain ⟨certificate, -, fault, -, hfault⟩ := exists_of_ofStore_error hanchors
    exact ⟨_, hfault⟩
  · cases h

/-- A source that cannot be turned into a validator is a fault of the configuration. -/
theorem Source.exists_of_validator?_error {engine : Engine} {files : Files}
    {environment : List (String × String)} {source : Source} {error : TrustError}
    (h : source.validator? engine files environment = .error error) :
    ∃ fault, error = .configuration fault := by
  cases source with
  | validator given => cases h
  | store anchors algorithm =>
    rcases Except.bind_eq_error.mp h with hcheck | ⟨_, -, hanchors⟩
    · exact Algorithm.exists_of_check_error hcheck
    · exact Base.exists_of_validator_error hanchors
  | platform =>
    rcases Except.bind_eq_error.mp h with hload | ⟨anchors, -, hanchors⟩
    · rcases Platform.load_cases engine files environment with ⟨certificates, hlist⟩ | hnone
      · rw [hlist] at hload
        cases hload
      · rw [hnone] at hload
        cases hload
        exact ⟨_, rfl⟩
    · exact Base.exists_of_validator_error hanchors

namespace World

section
variable {engine : Engine} {world after : World} {sources : List Source}
  {logging swappable : Bool} {enhancer : Option Enhancer} {outcome : Except TrustError Validator}

/-- A build fails for want of sources exactly if there are none. -/
theorem Built.eq_noSources_iff
    (hbuilt : Built engine world sources logging swappable enhancer outcome after) :
    outcome = .error .noSources ↔ sources = [] := by
  cases hbuilt with
  | noSources hnone => exact iff_of_true rfl hnone
  | failed hsources _ hfails _ =>
    obtain ⟨fault, rfl⟩ := Source.exists_of_validator?_error (materialize_failure?_iff.mp hfails)
    rw [hsources]
    exact iff_of_false nofun (List.append_ne_nil_of_right_ne_nil _ (List.cons_ne_nil _ _))
  | plain hne => exact iff_of_false nofun hne
  | slot hne => exact iff_of_false nofun hne

/-- A source is turned into one validator only. -/
theorem Makes.unique {source : Source} {first second : Validator}
    (hfirst : Makes engine world source first) (hsecond : Makes engine world source second) :
    first = second :=
  Option.some.inj (hfirst.symm.trans hsecond)

/-- Without layers, a builder combines the validators of its sources. -/
theorem Built.combine_eq (hbuilt : Built engine world sources false false none outcome after)
    {validators : List Validator} (hmade : List.Forall₂ (Makes engine world) sources validators) :
    outcome = Validator.combine validators := by
  cases hbuilt with
  | noSources hnone =>
    rw [hnone, List.forall₂_nil_left_iff] at hmade
    rw [hmade]
    rfl
  | @failed earlier later source error hsources hearlier hfails events =>
    have hall := Except.mapM_eq_ok.mpr (hmade.imp fun _ _ => makes_iff.mp)
    have hbefore : ∀ other ∈ earlier, ∃ validator,
        other.validator? engine world.files world.environment = .ok validator := by
      intro other hother
      obtain ⟨validator, hvalidator⟩ := hearlier other hother
      exact ⟨validator, makes_iff.mp hvalidator⟩
    have hfailed := Except.mapM_eq_error.mpr
      ⟨earlier, source, later, hsources, hbefore, materialize_failure?_iff.mp hfails⟩
    rw [hall] at hfailed
    cases hfailed
  | plain hne hplain hothers hstack events =>
    have hunique : Relator.RightUnique (Makes engine world) := fun _ _ _ => Makes.unique
    rw [hunique.forall₂ hmade hothers]
    exact hstack.combine_eq.symm
  | slot _ hslot => cases hslot

/-- **One result.** Whatever a builder is told, in any order and number, a build comes to what the
sources in their order, the last word on logging, the last word on the slot and the last custom
decision say, and to nothing else. It fails for want of sources exactly if there are none, and
otherwise only because of the first source that cannot be turned into a validator. Without any
layer the outcome is that of combining the validators of the sources. -/
theorem build_canonical (engine : Engine) (calls : List Builder.Call) (world : World) :
    let sources := calls.flatMap Builder.Call.sources
    let logging := (Builder.Call.last? Builder.Call.logging? calls).getD false
    let swappable := (Builder.Call.last? Builder.Call.swappable? calls).getD false
    let enhancer := Builder.Call.last? Builder.Call.enhancer? calls
    (∃ outcome after,
      (build engine (.ofCalls calls)).perform world = some (outcome, after) ∧
      Built engine world sources logging swappable enhancer outcome after ∧
      (outcome = .error .noSources ↔ sources = []) ∧
      (logging = false → swappable = false → enhancer = none →
        ∀ validators, List.Forall₂ (Makes engine world) sources validators →
          ∃ told, (combine validators).perform world = some (outcome, told))) ∧
    ∀ others : List Builder.Call, others.flatMap Builder.Call.sources = sources →
      (Builder.Call.last? Builder.Call.logging? others).getD false = logging →
      (Builder.Call.last? Builder.Call.swappable? others).getD false = swappable →
      Builder.Call.last? Builder.Call.enhancer? others = enhancer →
      build engine (.ofCalls others) = build engine (.ofCalls calls) := by
  intro sources logging swappable enhancer
  have hcalls : Builder.ofCalls calls = ⟨sources, logging, swappable, enhancer⟩ :=
    Builder.ofCalls_eq calls
  constructor
  · obtain ⟨outcome, after, hperform, hbuilt⟩ := build_built engine (.ofCalls calls) world
    rw [hcalls] at hbuilt
    refine ⟨outcome, after, hperform, hbuilt, hbuilt.eq_noSources_iff, ?_⟩
    intro hlogging hswappable henhancer validators hmade
    rw [hlogging, hswappable, henhancer] at hbuilt
    obtain ⟨events, hcombine⟩ := combine_onlyTells validators world
    rw [← hbuilt.combine_eq hmade] at hcombine
    exact ⟨_, hcombine⟩
  · intro others hsources hlogging hswappable henhancer
    have hothers : Builder.ofCalls others = ⟨sources, logging, swappable, enhancer⟩ := by
      rw [Builder.ofCalls_eq, hsources, hlogging, hswappable, henhancer]
    rw [hothers, hcalls]

end

/-- Two validators that accept everything, with logging switched on and off again. -/
def switchedCalls : List Builder.Call :=
  [.logging true, .validators [.dummy, .trustAll], .logging false]

/-- The same sources, named one by one, with a slot that is taken back. -/
def oneByOneCalls : List Builder.Call :=
  [.source (.validator .dummy), .swappable true, .source (.validator .trustAll), .swappable false]

/-- Flags that are taken back leave no trace: what is built is what the sources are combined to. -/
theorem build_canonical_switched : ∃ after told,
    (build .paths (.ofCalls switchedCalls)).perform (start .empty []) =
      some (.ok .trustAll, after) ∧
    (combine [.dummy, .trustAll]).perform (start .empty []) = some (.ok .trustAll, told) ∧
    build .paths (.ofCalls oneByOneCalls) = build .paths (.ofCalls switchedCalls) := by
  obtain ⟨⟨outcome, after, hperform, -, -, hcombine⟩, hothers⟩ :=
    build_canonical .paths switchedCalls (start .empty [])
  have hmade : List.Forall₂ (Makes .paths (start .empty []))
      [.validator .dummy, .validator .trustAll] [.dummy, .trustAll] :=
    .cons rfl (.cons rfl .nil)
  obtain ⟨told, htold⟩ := hcombine rfl rfl rfl _ hmade
  have houtcome : outcome = .ok .trustAll := by
    cases htold
    rfl
  rw [houtcome] at hperform htold
  exact ⟨after, told, hperform, htold, hothers oneByOneCalls rfl rfl rfl rfl⟩

end World

end PeerTrust
