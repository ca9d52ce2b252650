import PeerTrust.Proofs.Settings.Sources
import PeerTrust.Proofs.World.Accepts

/-!
# The validator that is set

The settings are turned into a validator in one go: the sources are loaded, the validator is built of
them, and it is wrapped in logging and put into a slot as the settings say.
-/

namespace PeerTrust

namespace Settings.TrustSettings

/-- A step for each source is one for the stores, the platform and the pool after each other. -/
theorem mapM_sources {β : Type} (settings : TrustSettings)
    (action : TrustSource → Except TrustError β) :
    settings.sources.mapM action = do
      let stores ← settings.stores.mapM fun file => action (.store file)
      let platform ← (if settings.platform then [.platform] else []).mapM action
      let pools ← settings.pool.toList.mapM fun pool => action (.pool pool)
      return stores ++ (platform ++ pools) := by
  simp [sources, List.mapM_append, List.mapM_map, Function.comp_def]

/-- The builder that is given what the sources came to. -/
def builder (settings : TrustSettings) (sources : List Source) : Builder where
  sources := (if settings.trustAll then [.validator .trustAll] else []) ++ sources
  logging := settings.logging
  swappable := settings.swappable
  enhancer := none

/-- The validators of the sources in one: a single one as it is, and several side by side. If
everything is accepted, they do not matter. -/
def inner (settings : TrustSettings) (parts : List Validator) : Validator :=
  if settings.trustAll then .trustAll
  else
    match parts with
    | [single] => single
    | parts => .composite parts

/-- The validators of the sources in one, logged if the settings say so. -/
def logged (settings : TrustSettings) (parts : List Validator) : Validator :=
  if settings.logging then .logging (settings.inner parts) else settings.inner parts

section
variable {engine : Engine} {files : Files} {environment : List (String × String)} {number : Nat}
  {settings : TrustSettings} {sources : List Source} {parts : List Validator} {result : Validator}

/-- Fixed anchors and pools are not taken apart. -/
theorem flattenAll_of_holdsAnchors (hparts : ∀ part ∈ parts, part.HoldsAnchors) :
    Validator.flattenAll parts = parts := by
  refine Validator.flattenAll_of_kind_ne_composite fun part hpart hkind => ?_
  have hholds := hparts part hpart
  cases part with
  | composite members => exact hholds
  | _ => cases hkind

/-- None of fixed anchors and pools accepts everything by itself. -/
theorem firstAcceptingAll?_of_holdsAnchors (hparts : ∀ part ∈ parts, part.HoldsAnchors) :
    Validator.firstAcceptingAll? parts = none :=
  Validator.firstAcceptingAll?_of_not_mem (hparts _) (hparts _)

/-- What the builder makes of the validators of the sources. -/
theorem log_decide_eq (hparts : ∀ part ∈ parts, part.HoldsAnchors) :
    (settings.builder sources).log ((settings.builder sources).decide
      ((if settings.trustAll then [.trustAll] else []) ++ parts)) = settings.logged parts := by
  have hdecide : (settings.builder sources).decide
      ((if settings.trustAll then [.trustAll] else []) ++ parts) = settings.inner parts := by
    unfold Builder.decide inner
    cases settings.trustAll with
    | true => rfl
    | false =>
      -- Nothing is promoted, and a composite of several parts has nothing to take apart.
      have hnone := firstAcceptingAll?_of_holdsAnchors hparts
      simp only [Bool.false_eq_true, if_false, List.nil_append, hnone]
      change Validator.unite parts = _
      rcases parts with _ | ⟨first, _ | ⟨second, rest⟩⟩
      · rfl
      · rfl
      · rw [Validator.unite, Validator.ofMembers, flattenAll_of_holdsAnchors hparts]
        simp
  rw [hdecide]
  rfl

/-- The builder succeeds exactly if it has a source and all of them become validators. -/
theorem inner?_eq_ok : (settings.builder sources).inner? engine files environment = .ok result ↔
    (settings.trustAll = true ∨ sources ≠ []) ∧
      ∃ parts, sources.mapM (Source.validator? engine files environment) = .ok parts ∧
        (settings.builder sources).log ((settings.builder sources).decide
          ((if settings.trustAll then [.trustAll] else []) ++ parts)) = result := by
  have haccepting : (if settings.trustAll then [Source.validator .trustAll] else []).mapM
      (Source.validator? engine files environment) =
        .ok (if settings.trustAll then [.trustAll] else []) := by
    cases settings.trustAll <;> rfl
  have hempty : (settings.builder sources).sources.isEmpty = true ↔
      ¬ (settings.trustAll = true ∨ sources ≠ []) := by
    cases hall : settings.trustAll <;> simp [builder, hall]
  unfold Builder.inner?
  by_cases hnone : (settings.builder sources).sources.isEmpty = true
  · rw [if_pos hnone]
    exact iff_of_false nofun fun h => hempty.mp hnone h.1
  · rw [if_neg hnone, and_iff_right (not_not.mp (mt hempty.mpr hnone)), Except.bind_eq_ok]
    have happend : (settings.builder sources).sources.mapM
        (Source.validator? engine files environment) =
          (sources.mapM (Source.validator? engine files environment)).map
            ((if settings.trustAll then [.trustAll] else []) ++ ·) := by
      rw [builder, List.mapM_append, haccepting]
      cases sources.mapM (Source.validator? engine files environment) <;> rfl
    rw [happend]
    cases sources.mapM (Source.validator? engine files environment) with
    | error error => simp [Except.map]
    | ok parts => simp [Except.map, pure, Except.pure]

/-- The sources become just the validators of the anchors that they can be turned into. -/
theorem mapM_validator?_eq_ok :
    (∃ between, settings.sources.mapM (TrustSource.source? engine files number) = .ok between ∧
      between.mapM (Source.validator? engine files environment) = .ok parts) ↔
    List.Forall₂ (fun (source : TrustSource) part => ∃ anchored,
      source.Trusts engine files environment anchored ∧ part = source.validator number anchored)
      settings.sources parts := by
  rw [Except.mapM_mapM_eq_ok]
  simp only [source?_validator?_eq_ok]

end

end Settings.TrustSettings

namespace World

open Settings

section
variable {engine : Engine} {world : World} {settings : TrustSettings}

theorem tell_files (events : List Event) : (world.tell events).files = world.files := rfl

theorem tell_pools (events : List Event) : (world.tell events).pools = world.pools := rfl

theorem tell_tell (events later : List Event) :
    (world.tell events).tell later = world.tell (events ++ later) := by
  simp [tell]

theorem parseAlgorithm_onlyTells (name : Option String) :
    (parseAlgorithm name).OnlyTells fun _ _ => algorithm? name := by
  cases name with
  | none => exact .pure Algorithm.default
  | some name => exact .ofExcept (Algorithm.parse name)

theorem loadStore_onlyTells (path : String) (encoding : Encoding) :
    (loadStore path encoding).OnlyTells fun files _ => Store.load files path encoding := by
  intro world
  cases hload : Store.load world.files path encoding with
  | error error => exact ⟨[], by simp [loadStore, hload, tell]⟩
  | ok anchors =>
    exact ⟨[.storeLoaded path anchors.certificates.length], by simp [loadStore, hload]⟩

theorem loadSource_onlyTells (engine : Engine) (number : Nat) (file : StoreFile) :
    (loadSource file).OnlyTells fun files _ =>
      (TrustSource.store file).source? engine files number :=
  (loadStore_onlyTells file.path file.encoding).bind fun anchors =>
    (parseAlgorithm_onlyTells file.algorithm).bind fun algorithm =>
      .pure (Source.store anchors algorithm)

/-- The pool that is set comes after all others. -/
theorem makeSetPool_perform (engine : Engine) (world : World) (settings : PoolSettings) :
    ∃ events, (makeSetPool engine settings).perform world =
      some (match settings.pool? engine world.files with
        | .ok pool => (.ok (.validator (.inflatable world.pools.length)),
            { world.tell events with pools := world.pools ++ [pool] })
        | .error error => (.error error, world.tell events)) := by
  obtain ⟨events, hevents⟩ := parseAlgorithm_onlyTells settings.algorithm world
  cases halgorithm : algorithm? settings.algorithm with
  | error error =>
    refine ⟨events, ?_⟩
    rw [makeSetPool, Action.perform_bind, hevents, PoolSettings.pool?, halgorithm]
    rfl
  | ok algorithm =>
    have hpool : settings.pool? engine world.files =
        Pool.create engine world.files ⟨settings.path, none, algorithm⟩ := by
      rw [PoolSettings.pool?, halgorithm]
      rfl
    rw [makeSetPool, Action.perform_bind, hevents, hpool, halgorithm]
    dsimp only [Option.bind_some]
    rw [Action.perform_bind, makePool_perform, tell_files]
    cases hcreate : Pool.create engine world.files ⟨settings.path, none, algorithm⟩ with
    | error error => exact ⟨events, rfl⟩
    | ok pool =>
      refine ⟨events ++ pool.creationEvents, ?_⟩
      simp [tell]

/-- What is told to the log about settings by which everything is accepted. -/
def announcement (settings : TrustSettings) : List Event :=
  if settings.trustAll then [.validationDisabled] else []

/-- The validator that is set is built of the stores, the platform and the pool, in this order. -/
theorem buildSet_perform_eq (engine : Engine) (world : World) (settings : TrustSettings) :
    (buildSet engine settings).perform world =
      (do
        let stores ← settings.stores.mapM loadSource
        let pools ← settings.pool.toList.mapM (makeSetPool engine)
        let platform := if settings.platform then [Source.platform] else []
        build engine (settings.builder (stores ++ (platform ++ pools)))).perform
          (world.tell (announcement settings)) := by
  have hsilent : world.tell [] = world := by simp [tell]
  unfold buildSet announcement TrustSettings.builder
  cases htrustAll : settings.trustAll with
  | true => cases hpool : settings.pool <;> simp
  | false => cases hpool : settings.pool <;> simp [hsilent]

/-- What making the pool that is set, if there is one, comes to. -/
theorem makeSetPools_perform (engine : Engine) (world : World) (settings : Option PoolSettings) :
    ∃ events, (settings.toList.mapM (makeSetPool engine)).perform world =
      some (match settings.toList.mapM (PoolSettings.pool? engine world.files) with
        | .ok pools => (.ok (pools.map fun _ => .validator (.inflatable world.pools.length)),
            { world.tell events with pools := world.pools ++ pools })
        | .error error => (.error error, world.tell events)) := by
  cases settings with
  | none =>
    have hnone : (pure [] : Except TrustError (List Pool)) = .ok [] := rfl
    exact ⟨[], by simp [tell, hnone]⟩
  | some settings =>
    obtain ⟨events, hevents⟩ := makeSetPool_perform engine world settings
    refine ⟨events, ?_⟩
    cases hpool : settings.pool? engine world.files with
    | error error => simp [hevents, hpool]
    | ok pool => simp [hevents, hpool]

/-- What making the validator that is set comes to: a source fails, or the validator is built of what
the sources came to, and a pool among them is there by then. -/
theorem buildSet_perform (engine : Engine) (world : World) (settings : TrustSettings) :
    (∃ error events,
      settings.sources.mapM (·.source? engine world.files world.pools.length) = .error error ∧
      (buildSet engine settings).perform world = some (.error error, world.tell events)) ∨
    ∃ sources pools events,
      settings.sources.mapM (·.source? engine world.files world.pools.length) = .ok sources ∧
      settings.pool.toList.mapM (PoolSettings.pool? engine world.files) = .ok pools ∧
      (buildSet engine settings).perform world =
        (build engine (settings.builder sources)).perform
          { world.tell events with pools := world.pools ++ pools } := by
  have hplatform : (if settings.platform then [TrustSource.platform] else []).mapM
      (·.source? engine world.files world.pools.length) =
        .ok (if settings.platform then [.platform] else []) := by
    cases settings.platform <;> rfl
  have hpools : settings.pool.toList.mapM (fun pool =>
      (TrustSource.pool pool).source? engine world.files world.pools.length) =
        (settings.pool.toList.mapM (PoolSettings.pool? engine world.files)).map fun pools =>
          pools.map fun _ => .validator (.inflatable world.pools.length) := by
    cases settings.pool with
    | none => rfl
    | some pool =>
      cases hpool : pool.pool? engine world.files <;> simp [TrustSource.source?, hpool] <;> rfl
  obtain ⟨told, htold⟩ := Action.OnlyTells.mapM
    (loadSource_onlyTells engine world.pools.length) settings.stores
    (world.tell (announcement settings))
  rw [TrustSettings.mapM_sources, hplatform, hpools, buildSet_perform_eq, Action.perform_bind, htold]
  cases hstores : settings.stores.mapM fun file =>
      (TrustSource.store file).source? engine world.files world.pools.length with
  | error error =>
    refine Or.inl ⟨error, announcement settings ++ told, rfl, ?_⟩
    simp only [tell_files, hstores, Option.bind_some, tell_tell]
  | ok stores =>
    simp only [tell_files, hstores, Option.bind_some, tell_tell]
    obtain ⟨events, hevents⟩ := makeSetPools_perform engine
      (world.tell (announcement settings ++ told)) settings.pool
    rw [Action.perform_bind, hevents]
    simp only [tell_files, tell_pools, tell_tell]
    cases hmade : settings.pool.toList.mapM (PoolSettings.pool? engine world.files) with
    | error error => exact Or.inl ⟨error, _, rfl, rfl⟩
    | ok pools => exact Or.inr ⟨_, pools, _, rfl, rfl, rfl⟩

/-- A source became a validator: its own anchors alone decide what that accepts. -/
def Becomes (engine : Engine) (world after : World) (source : TrustSource) (part : Validator) :
    Prop :=
  ∃ anchored, source.Trusts engine world.files world.environment anchored ∧
    part = source.validator world.pools.length anchored ∧
    (∃ snapshot, after.snapshot? part = some snapshot) ∧
    ∀ now context, after.Accepts engine now part context ↔
      anchored.validate engine now context = .ok ()

/-- A source that can be turned into anchors becomes a validator of them in a world in which its
pool, if it is one, is there. -/
theorem becomes_of_trusts {after : World} {pools : List Pool} {source : TrustSource}
    {anchored : Base} (hpools : after.pools = world.pools ++ pools)
    (hmade : settings.pool.toList.mapM (PoolSettings.pool? engine world.files) = .ok pools)
    (hmem : source ∈ settings.sources)
    (htrusts : source.Trusts engine world.files world.environment anchored) :
    Becomes engine world after source (source.validator world.pools.length anchored) := by
  refine ⟨anchored, htrusts, rfl, ?_⟩
  cases source with
  | store file => exact ⟨⟨_, snapshot?_base anchored⟩, fun now context => accepts_base⟩
  | platform => exact ⟨⟨_, snapshot?_base anchored⟩, fun now context => accepts_base⟩
  | pool described =>
    have hset : settings.pool = some described := by
      simpa [TrustSettings.sources] using hmem
    rw [hset, Option.toList_some, Except.mapM_eq_ok] at hmade
    obtain ⟨pool, hpool, rfl⟩ : ∃ pool, described.pool? engine world.files = .ok pool ∧
        pools = [pool] := by
      cases hmade with
      | cons hpool hrest =>
        cases hrest
        exact ⟨_, hpool, rfl⟩
    have hthere : after.pools[world.pools.length]? = some pool := by
      simp [hpools]
    obtain ⟨hpublished, hpredicate⟩ := @pool?_eq_ok _ _ world.environment _ _ hpool
    rw [htrusts.unique hpublished]
    refine ⟨⟨pool.snapshot world.pools.length, ?_⟩, fun now context => ?_⟩
    · rw [TrustSource.validator, snapshot?_inflatable, poolSnapshot?, hthere]
      rfl
    · exact accepts_inflatable hthere hpredicate

/-- The validators of all sources, once they are made. -/
theorem forall₂_becomes {after : World} {pools : List Pool} {sources : List Source}
    {parts : List Validator} (hpools : after.pools = world.pools ++ pools)
    (hmade : settings.pool.toList.mapM (PoolSettings.pool? engine world.files) = .ok pools)
    (hsources : settings.sources.mapM (·.source? engine world.files world.pools.length) =
      .ok sources)
    (hparts : sources.mapM (Source.validator? engine world.files world.environment) = .ok parts) :
    List.Forall₂ (Becomes engine world after) settings.sources parts := by
  have htrusts := TrustSettings.mapM_validator?_eq_ok.mp ⟨sources, hsources, hparts⟩
  have hmem := (List.forall₂_and_left (p := (· ∈ settings.sources)) _ _).mpr
    ⟨fun source hsource => hsource, htrusts⟩
  refine hmem.imp ?_
  rintro source _ ⟨hsource, anchored, hanchored, rfl⟩
  exact becomes_of_trusts hpools hmade hsource hanchored

/-- The validators of sources are fixed anchors and pools. -/
theorem holdsAnchors_of_becomes {after : World} {sources : List TrustSource}
    {parts : List Validator} (hparts : List.Forall₂ (Becomes engine world after) sources parts) :
    ∀ part ∈ parts, part.HoldsAnchors := by
  induction hparts with
  | nil => exact List.forall_mem_nil _
  | @cons source _ _ _ hfirst hrest ih =>
    obtain ⟨anchored, -, rfl, -⟩ := hfirst
    exact List.forall_mem_cons.mpr ⟨by cases source <;> trivial, ih⟩

/-- The validators that sources became can be asked. -/
theorem exists_snapshot_of_becomes {after : World} {sources : List TrustSource}
    {parts : List Validator} (hparts : List.Forall₂ (Becomes engine world after) sources parts) :
    ∀ part ∈ parts, ∃ snapshot, after.snapshot? part = some snapshot := by
  induction hparts with
  | nil => exact List.forall_mem_nil _
  | cons hfirst hrest ih =>
    obtain ⟨-, -, -, hsnapshot, -⟩ := hfirst
    exact List.forall_mem_cons.mpr ⟨hsnapshot, ih⟩

/-- All validators of sources in one accept what one of them accepts, or else everything. -/
theorem accepts_inner {after : World} {parts : List Validator}
    (hparts : ∀ part ∈ parts, ∃ snapshot, after.snapshot? part = some snapshot) (now : Nat)
    (context : Context) : after.Accepts engine now (settings.inner parts) context ↔
      settings.trustAll = true ∨ ∃ part ∈ parts, after.Accepts engine now part context := by
  unfold TrustSettings.inner
  cases settings.trustAll with
  | true => exact iff_of_true accepts_trustAll (Or.inl rfl)
  | false =>
    rw [if_neg Bool.false_ne_true, or_iff_right Bool.false_ne_true]
    split
    · simp
    · exact accepts_composite hparts

/-- The validator that is set, in the world that is left behind when it was made. -/
structure Stands (engine : Engine) (world after : World) (settings : TrustSettings)
    (validator : Validator) (parts : List Validator) : Prop where
  /-- Each source has its validator, in the order of the sources. -/
  sources : List.Forall₂ (Becomes engine world after) settings.sources parts
  /-- They are put together, logged and put into a slot. -/
  stack : if settings.swappable then
      validator = .hotSwappable world.slots.length ∧
        after.slots = world.slots ++ [settings.logged parts]
    else validator = settings.logged parts ∧ after.slots = world.slots
  /-- Validations return. -/
  returns : ∃ snapshot, after.snapshot? validator = some snapshot
  /-- What one of the sources accepts alone is accepted, or everything. -/
  accepts_iff : ∀ now context, after.Accepts engine now validator context ↔
    settings.trustAll = true ∨ ∃ part ∈ parts, after.Accepts engine now part context

/-- Validators that have snapshots have one in common. -/
theorem exists_snapshot_logged {after : World} {parts : List Validator}
    (hparts : ∀ part ∈ parts, ∃ snapshot, after.snapshot? part = some snapshot) :
    ∃ snapshot, after.snapshot? (settings.logged parts) = some snapshot := by
  have hinner : ∃ snapshot, after.snapshot? (settings.inner parts) = some snapshot := by
    unfold TrustSettings.inner
    cases settings.trustAll with
    | true => exact ⟨_, snapshot?_trustAll⟩
    | false =>
      rw [if_neg Bool.false_ne_true]
      split
      · exact hparts _ (List.mem_singleton_self _)
      · obtain ⟨snapshots, hsnapshots⟩ := List.exists_forall₂_iff.mpr hparts
        exact ⟨_, snapshot?_composite.mpr ⟨snapshots, hsnapshots, rfl⟩⟩
  unfold TrustSettings.logged
  split
  · obtain ⟨inside, hinside⟩ := hinner
    exact ⟨_, by rw [snapshot?_logging, hinside]; rfl⟩
  · exact hinner

/-- What is built stands, as long as its sources became validators. -/
theorem stands_of_parts {after : World} {validator : Validator} {parts : List Validator}
    (hparts : List.Forall₂ (Becomes engine world after) settings.sources parts)
    (hstack : if settings.swappable then
        validator = .hotSwappable world.slots.length ∧
          after.slots = world.slots ++ [settings.logged parts]
      else validator = settings.logged parts ∧ after.slots = world.slots) :
    Stands engine world after settings validator parts := by
  have hsnapshots := exists_snapshot_of_becomes hparts
  have hlogged (now : Nat) (context : Context) :
      after.Accepts engine now (settings.logged parts) context ↔
        settings.trustAll = true ∨ ∃ part ∈ parts, after.Accepts engine now part context := by
    rw [← accepts_inner hsnapshots, TrustSettings.logged]
    split
    · exact accepts_logging
    · rfl
  obtain ⟨inside, hinside⟩ := @exists_snapshot_logged settings after parts hsnapshots
  have houter : (∃ snapshot, after.snapshot? validator = some snapshot) ∧
      ∀ now context, after.Accepts engine now validator context ↔
        after.Accepts engine now (settings.logged parts) context := by
    split at hstack
    · obtain ⟨rfl, hslots⟩ := hstack
      have hslot : after.slots[world.slots.length]? = some (settings.logged parts) := by
        simp [hslots]
      refine ⟨⟨.hotSwappable world.slots.length inside, ?_⟩, fun now context =>
        accepts_hotSwappable hslot⟩
      rw [snapshot?_hotSwappable hslot, hinside]
      rfl
    · obtain ⟨rfl, -⟩ := hstack
      exact ⟨⟨inside, hinside⟩, fun now context => Iff.rfl⟩
  exact ⟨hparts, hstack, houter.1, fun now context => (houter.2 now context).trans
    (hlogged now context)⟩

/-- Building of sources that can all be turned into validators succeeds, in a world in which the pool
that is set was made. -/
theorem build_stands {loaded : World} {pools : List Pool} {sources : List Source}
    {parts : List Validator} (hfiles : loaded.files = world.files)
    (henvironment : loaded.environment = world.environment)
    (hslots : loaded.slots = world.slots) (hpools : loaded.pools = world.pools ++ pools)
    (hmade : settings.pool.toList.mapM (PoolSettings.pool? engine world.files) = .ok pools)
    (hsources : settings.sources.mapM (·.source? engine world.files world.pools.length) =
      .ok sources)
    (hparts : sources.mapM (Source.validator? engine world.files world.environment) = .ok parts)
    (hsome : settings.trustAll = true ∨ sources ≠ []) :
    ∃ validator after, (build engine (settings.builder sources)).perform loaded =
      some (.ok validator, after) ∧ after.files = world.files ∧
        Stands engine world after settings validator parts := by
  have hbecome (after : World) (hafter : after.pools = world.pools ++ pools) :=
    forall₂_becomes hafter hmade hsources hparts
  have hanchors := holdsAnchors_of_becomes (hbecome loaded hpools)
  have hinner : (settings.builder sources).inner? engine loaded.files loaded.environment =
      .ok (settings.logged parts) := by
    rw [hfiles, henvironment, TrustSettings.inner?_eq_ok]
    exact ⟨hsome, parts, hparts, TrustSettings.log_decide_eq hanchors⟩
  obtain ⟨events, hperform⟩ := build_perform engine (settings.builder sources) loaded
  rw [hinner] at hperform
  by_cases hswappable : settings.swappable = true
  · have hbuilt : (build engine (settings.builder sources)).perform loaded =
        some (.ok (.hotSwappable loaded.slots.length),
          { loaded.tell events with slots := loaded.slots ++ [settings.logged parts] }) := by
      rw [hperform]
      exact congrArg some (if_pos hswappable)
    refine ⟨_, _, hbuilt, hfiles, stands_of_parts (hbecome _ hpools) ?_⟩
    rw [if_pos hswappable, hslots]
    exact ⟨rfl, rfl⟩
  · have hbuilt : (build engine (settings.builder sources)).perform loaded =
        some (.ok (settings.logged parts), loaded.tell events) := by
      rw [hperform]
      exact congrArg some (if_neg hswappable)
    refine ⟨_, _, hbuilt, hfiles, stands_of_parts (hbecome _ hpools) ?_⟩
    rw [if_neg hswappable]
    exact ⟨rfl, hslots⟩

/-- Building fails if there is no source, or one of them cannot be turned into a validator. -/
theorem build_fails {loaded : World} {sources : List Source} {error : TrustError}
    (hinner : (settings.builder sources).inner? engine loaded.files loaded.environment =
      .error error) :
    ∃ after, (build engine (settings.builder sources)).perform loaded =
      some (.error error, after) ∧ after.files = loaded.files := by
  obtain ⟨events, hperform⟩ := build_perform engine (settings.builder sources) loaded
  rw [hinner] at hperform
  exact ⟨_, hperform, rfl⟩

end

end World

end PeerTrust
