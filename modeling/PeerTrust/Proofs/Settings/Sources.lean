import PeerTrust.Proofs.Trust.Growth
import PeerTrust.Proofs.World.Perform
import PeerTrust.Settings.Building

/-!
# Sources that are set

The settings of a validator name its sources: files with trust stores, the platform, and a pool. Each
of them can be turned into a validator exactly if its certificates can be loaded, all of them are
anchors, and the engine that is named for it is known.
-/

namespace PeerTrust

namespace Settings

/-- A source of trust that is set. -/
inductive TrustSource where
  | store (file : StoreFile)
  | platform
  | pool (settings : PoolSettings)

/-- The sources in the order in which they are asked: the stores as they are listed, the platform,
the pool. -/
def TrustSettings.sources (settings : TrustSettings) : List TrustSource :=
  settings.stores.map .store ++ (if settings.platform then [.platform] else []) ++
    settings.pool.toList.map .pool

namespace TrustSource

/-- The certificates of a source that can be loaded. A store has at least one, a pool may be new. -/
inductive Holds (engine : Engine) (files : Files) (environment : List (String × String)) :
    TrustSource → List Certificate → Prop
  | pem {file : StoreFile} {text : Bytes} {contents : List Bytes} (hencoding : file.encoding = .pem)
      (hread : files.read file.path = .ok text) (hcontents : Pem.certificates text = .ok contents)
      (hne : contents ≠ []) :
      Holds engine files environment (.store file) (contents.map Certificate.mk)
  | der {file : StoreFile} {contents : Bytes} (hencoding : file.encoding = .der)
      (hread : files.read file.path = .ok contents) (hne : contents ≠ []) :
      Holds engine files environment (.store file) [⟨contents⟩]
  /-- The anchors are those that the engine finds. -/
  | platform (hne : (engine.platform files environment).certificates ≠ []) :
      Holds engine files environment .platform (engine.platform files environment).certificates
  | newPool {settings : PoolSettings}
      (habsent : ∀ path ∈ settings.path, files.isThere path = false) :
      Holds engine files environment (.pool settings) []
  | savedPool {settings : PoolSettings} {path : String} {text : Bytes} {contents : List Bytes}
      (hpath : settings.path = some path) (hthere : files.isThere path = true)
      (hread : files.read path = .ok text) (hcontents : Pem.certificates text = .ok contents) :
      Holds engine files environment (.pool settings) (contents.map Certificate.mk)

/-- The name of the engine for signatures. -/
def algorithm : TrustSource → Option String
  | .store file => file.algorithm
  | .platform => none
  | .pool settings => settings.algorithm

/-- A source is turned into anchors: those of its certificates, for an engine that is known. -/
def Trusts (engine : Engine) (files : Files) (environment : List (String × String))
    (source : TrustSource) (anchored : Base) : Prop :=
  ∃ certificates, source.Holds engine files environment certificates ∧
    (∀ name ∈ source.algorithm, (Algorithm.named name).isKnown = true) ∧
    Base.ofStore engine (.ofList certificates) = .ok anchored

/-- The validator that a source becomes: fixed anchors, or the pool of a given number. -/
def validator (number : Nat) (source : TrustSource) (anchored : Base) : Validator :=
  match source with
  | .pool _ => .inflatable number
  | _ => .base anchored

section
variable {engine : Engine} {files : Files} {environment : List (String × String)}
  {source : TrustSource} {certificates others : List Certificate} {anchored other : Base}

/-- What a source holds is determined by the engine, the files and the environment. -/
theorem Holds.unique (hfirst : source.Holds engine files environment certificates)
    (hsecond : source.Holds engine files environment others) : certificates = others := by
  cases hfirst with
  | pem hencoding hread hcontents hne =>
    cases hsecond with
    | pem hencoding' hread' hcontents' hne' =>
      rw [hread] at hread'
      cases hread'
      rw [hcontents] at hcontents'
      cases hcontents'
      rfl
    | der hencoding' => simp [hencoding] at hencoding'
  | der hencoding hread hne =>
    cases hsecond with
    | pem hencoding' => simp [hencoding] at hencoding'
    | der hencoding' hread' hne' =>
      rw [hread] at hread'
      cases hread'
      rfl
  | platform hne =>
    cases hsecond
    rfl
  | newPool habsent =>
    cases hsecond with
    | newPool habsent' => rfl
    | savedPool hpath hthere => simp [habsent _ hpath] at hthere
  | savedPool hpath hthere hread hcontents =>
    cases hsecond with
    | newPool habsent => simp [habsent _ hpath] at hthere
    | savedPool hpath' hthere' hread' hcontents' =>
      rw [hpath] at hpath'
      cases hpath'
      rw [hread] at hread'
      cases hread'
      rw [hcontents] at hcontents'
      cases hcontents'
      rfl

theorem Trusts.unique (hfirst : source.Trusts engine files environment anchored)
    (hsecond : source.Trusts engine files environment other) : anchored = other := by
  obtain ⟨certificates, hholds, -, hanchored⟩ := hfirst
  obtain ⟨others, hothers, -, hother⟩ := hsecond
  rw [hholds.unique hothers, hother] at hanchored
  cases hanchored
  rfl

end

end TrustSource

/-- The engine of a name, or the default one. -/
def algorithm? (name : Option String) : Except TrustError Algorithm :=
  match name with
  | none => .ok .default
  | some name => Algorithm.parse name

/-- The pool that is described, with the certificates of its file. -/
def PoolSettings.pool? (engine : Engine) (files : Files) (settings : PoolSettings) :
    Except TrustError Pool := do
  let algorithm ← algorithm? settings.algorithm
  Pool.create engine files ⟨settings.path, none, algorithm⟩

/-- What a builder is given for a source, `number` being that of the pool. -/
def TrustSource.source? (engine : Engine) (files : Files) (number : Nat) :
    TrustSource → Except TrustError Source
  | .store file => do
      let anchors ← Store.load files file.path file.encoding
      return .store anchors (← algorithm? file.algorithm)
  | .platform => .ok .platform
  | .pool settings => do
      let _ ← settings.pool? engine files
      return .validator (.inflatable number)

section
variable {engine : Engine} {files : Files} {environment : List (String × String)} {number : Nat}
  {source : TrustSource} {part : Validator}

/-- A name is read exactly if it is known. -/
theorem exists_algorithm?_iff {name : Option String} :
    (∃ algorithm, algorithm? name = .ok algorithm) ↔
      ∀ given ∈ name, (Algorithm.named given).isKnown = true := by
  cases name with
  | none => simp [algorithm?]
  | some given =>
    simp only [algorithm?, Algorithm.parse, Option.mem_some_iff, forall_eq']
    by_cases hdefault : Letters.lowerCase given = "default"
    · refine iff_of_true ⟨.default, ?_⟩ (by simp [Algorithm.isKnown, hdefault])
      rw [if_pos hdefault]
      rfl
    · rw [if_neg hdefault, Algorithm.check]
      cases hknown : (Algorithm.named given).isKnown with
      | true => exact iff_of_true ⟨.named given, rfl⟩ rfl
      | false => exact iff_of_false nofun nofun

/-- An engine whose name was read is not refused afterwards. -/
theorem check_of_algorithm? {name : Option String} {algorithm : Algorithm}
    (h : algorithm? name = .ok algorithm) : algorithm.check = .ok () := by
  cases name with
  | none =>
    cases h
    rfl
  | some given =>
    obtain ⟨⟨⟩, hcheck, h⟩ := Except.bind_eq_ok.mp h
    cases h
    exact hcheck

/-- The certificates in a file can be loaded exactly if the file can be read and has some. -/
theorem certificates_eq_ok {path : String} {found : List Certificate} :
    files.certificates path = .ok found ↔ ∃ text contents, files.read path = .ok text ∧
      Pem.certificates text = .ok contents ∧ contents ≠ [] ∧
        contents.map Certificate.mk = found := by
  unfold Files.certificates
  rw [Except.bind_eq_ok]
  simp only [Files.contents, Except.mapError_eq_ok]
  constructor
  · rintro ⟨text, hread, h⟩
    cases hcontents : Pem.certificates text with
    | error fault => simp [hcontents] at h
    | ok contents =>
      cases contents with
      | nil => simp [hcontents] at h
      | cons first rest =>
        rw [hcontents] at h
        cases h
        exact ⟨text, _, hread, hcontents, List.cons_ne_nil _ _, rfl⟩
  · rintro ⟨text, contents, hread, hcontents, hne, rfl⟩
    refine ⟨text, hread, ?_⟩
    cases contents with
    | nil => exact absurd rfl hne
    | cons first rest =>
      rw [hcontents]
      rfl

/-- The store in a file has the certificates that the file holds. -/
theorem load_eq_ok {file : StoreFile} {anchors : Store} :
    Store.load files file.path file.encoding = .ok anchors ↔ ∃ certificates,
      (TrustSource.store file).Holds engine files environment certificates ∧
        anchors = .ofList certificates := by
  cases hencoding : file.encoding with
  | pem =>
    rw [Store.load, Except.bind_eq_ok]
    constructor
    · rintro ⟨found, hfound, h⟩
      cases h
      obtain ⟨text, contents, hread, hcontents, hne, rfl⟩ := certificates_eq_ok.mp hfound
      exact ⟨_, .pem hencoding hread hcontents hne, rfl⟩
    · rintro ⟨certificates, hholds, rfl⟩
      cases hholds with
      | pem _ hread hcontents hne =>
        exact ⟨_, certificates_eq_ok.mpr ⟨_, _, hread, hcontents, hne, rfl⟩, rfl⟩
      | der hother => simp [hencoding] at hother
  | der =>
    rw [Store.load, Except.bind_eq_ok]
    simp only [Files.contents, Except.mapError_eq_ok]
    constructor
    · rintro ⟨contents, hread, h⟩
      by_cases hempty : contents = []
      · rw [hempty] at h
        cases h
      · simp only [List.isEmpty_iff, hempty, if_false] at h
        cases h
        exact ⟨_, .der hencoding hread hempty, rfl⟩
    · rintro ⟨certificates, hholds, rfl⟩
      cases hholds with
      | pem hother => simp [hencoding] at hother
      | @der _ contents _ hread hne =>
        refine ⟨contents, hread, ?_⟩
        simp only [List.isEmpty_iff, hne, if_false]
        rfl

/-- A pool begins with the certificates that it holds. -/
theorem seed_eq_ok_iff {settings : PoolSettings} {certificates : List Certificate} :
    Pool.seed files settings.path = .ok certificates ↔
      (TrustSource.pool settings).Holds engine files environment certificates := by
  constructor
  · intro h
    cases hpath : settings.path with
    | none =>
      rw [hpath] at h
      cases h
      exact .newPool (by simp [hpath])
    | some path =>
      rw [hpath, Pool.seed] at h
      cases hthere : files.isThere path with
      | false =>
        rw [hthere] at h
        cases h
        exact .newPool (by simp [hpath, hthere])
      | true =>
        rw [hthere, if_pos rfl] at h
        cases hread : files.read path with
        | error fault => simp [hread] at h
        | ok text =>
          cases hcontents : Pem.certificates text with
          | error fault => simp [hread, hcontents] at h
          | ok contents =>
            simp only [hread, hcontents] at h
            cases h
            exact .savedPool hpath hthere hread hcontents
  · intro h
    cases h with
    | newPool habsent =>
      cases hpath : settings.path with
      | none => rfl
      | some path => simp [Pool.seed, habsent path hpath]
    | savedPool hpath hthere hread hcontents => simp [Pool.seed, hpath, hthere, hread, hcontents]

/-- The anchors of the platform are those that were found, if there are any. -/
theorem platform_eq_ok {anchors : Store} :
    (Platform.load engine files environment).2 = .ok anchors ↔ ∃ certificates,
      TrustSource.platform.Holds engine files environment certificates ∧
        anchors = .ofList certificates := by
  unfold Platform.load
  by_cases hempty : (engine.platform files environment).certificates = []
  · simp only [hempty, List.isEmpty_nil, if_true]
    refine iff_of_false nofun ?_
    rintro ⟨certificates, hholds, -⟩
    cases hholds with
    | platform hne => exact hne hempty
  · simp only [List.isEmpty_iff, hempty, if_false, Except.ok.injEq]
    constructor
    · rintro rfl
      exact ⟨_, .platform hempty, rfl⟩
    · rintro ⟨certificates, hholds, rfl⟩
      cases hholds
      rfl

/-- A store becomes a validator exactly if its engine is known and its certificates are anchors. -/
theorem validator?_store_eq_ok {anchors : Store} {algorithm : Algorithm} :
    (Source.store anchors algorithm).validator? engine files environment = .ok part ↔
      algorithm.check = .ok () ∧
        ∃ anchored, Base.ofStore engine anchors = .ok anchored ∧ part = .base anchored := by
  simp only [Source.validator?, Except.bind_eq_ok, pure, Except.pure, Except.ok.injEq]
  constructor
  · rintro ⟨⟨⟩, hcheck, anchored, hanchored, rfl⟩
    exact ⟨hcheck, anchored, hanchored, rfl⟩
  · rintro ⟨hcheck, anchored, hanchored, rfl⟩
    exact ⟨(), hcheck, anchored, hanchored, rfl⟩

/-- The platform becomes a validator exactly if its certificates are anchors. -/
theorem validator?_platform_eq_ok :
    Source.platform.validator? engine files environment = .ok part ↔ ∃ anchored,
      TrustSource.platform.Trusts engine files environment anchored ∧ part = .base anchored := by
  simp only [Source.validator?, Except.bind_eq_ok, pure, Except.pure, Except.ok.injEq,
    platform_eq_ok]
  constructor
  · rintro ⟨_, ⟨certificates, hholds, rfl⟩, anchored, hanchored, rfl⟩
    exact ⟨anchored, ⟨certificates, hholds, nofun, hanchored⟩, rfl⟩
  · rintro ⟨anchored, ⟨certificates, hholds, -, hanchored⟩, rfl⟩
    exact ⟨_, ⟨certificates, hholds, rfl⟩, anchored, hanchored, rfl⟩

/-- The store in a file is what the builder is given, with the engine that is named for it. -/
theorem source?_store_eq_ok {file : StoreFile} {between : Source} :
    (TrustSource.store file).source? engine files number = .ok between ↔
      ∃ certificates algorithm,
        (TrustSource.store file).Holds engine files environment certificates ∧
        algorithm? file.algorithm = .ok algorithm ∧
        between = .store (.ofList certificates) algorithm := by
  simp only [TrustSource.source?, Except.bind_eq_ok, pure, Except.pure, Except.ok.injEq,
    @load_eq_ok engine files environment]
  constructor
  · rintro ⟨_, ⟨certificates, hholds, rfl⟩, algorithm, halgorithm, rfl⟩
    exact ⟨certificates, algorithm, hholds, halgorithm, rfl⟩
  · rintro ⟨certificates, algorithm, hholds, halgorithm, rfl⟩
    exact ⟨_, ⟨certificates, hholds, rfl⟩, algorithm, halgorithm, rfl⟩

/-- A pool that is made of a source publishes the anchors that the source can be turned into, and
nothing else is accepted. -/
theorem pool?_eq_ok {settings : PoolSettings} {pool : Pool}
    (h : settings.pool? engine files = .ok pool) :
    (TrustSource.pool settings).Trusts engine files environment pool.published ∧
      pool.predicate = none := by
  obtain ⟨algorithm, halgorithm, h⟩ := Except.bind_eq_ok.mp h
  obtain ⟨-, certificates, anchored, hseed, hanchored, rfl⟩ := Pool.create_eq_ok.mp h
  have hknown := exists_algorithm?_iff.mp ⟨algorithm, halgorithm⟩
  exact ⟨⟨certificates, seed_eq_ok_iff.mp hseed, hknown, hanchored⟩, rfl⟩

/-- A source that can be turned into anchors makes a pool. -/
theorem exists_pool? {settings : PoolSettings} {anchored : Base}
    (htrusts : (TrustSource.pool settings).Trusts engine files environment anchored) :
    ∃ pool, settings.pool? engine files = .ok pool := by
  obtain ⟨certificates, hholds, hknown, hanchored⟩ := htrusts
  obtain ⟨algorithm, halgorithm⟩ := exists_algorithm?_iff.mpr hknown
  have hcheck : (algorithm : Algorithm).check = .ok () := check_of_algorithm? halgorithm
  have hseed := seed_eq_ok_iff.mpr hholds
  have hcreate : ∃ pool, Pool.create engine files ⟨settings.path, none, algorithm⟩ = .ok pool :=
    ⟨_, Pool.create_eq_ok.mpr ⟨hcheck, certificates, anchored, hseed, hanchored, rfl⟩⟩
  obtain ⟨pool, hpool⟩ := hcreate
  exact ⟨pool, Except.bind_eq_ok.mpr ⟨algorithm, halgorithm, hpool⟩⟩

/-- **Sources.** A source that is set becomes a validator exactly if it can be turned into anchors,
and then it is the validator of these anchors. -/
theorem source?_validator?_eq_ok :
    (∃ between, source.source? engine files number = .ok between ∧
      between.validator? engine files environment = .ok part) ↔
    ∃ anchored, source.Trusts engine files environment anchored ∧
      part = source.validator number anchored := by
  cases source with
  | store file =>
    simp only [@source?_store_eq_ok engine files environment]
    constructor
    · rintro ⟨_, ⟨certificates, algorithm, hholds, halgorithm, rfl⟩, hpart⟩
      obtain ⟨-, anchored, hanchored, rfl⟩ := validator?_store_eq_ok.mp hpart
      have hknown := exists_algorithm?_iff.mp ⟨algorithm, halgorithm⟩
      exact ⟨anchored, ⟨certificates, hholds, hknown, hanchored⟩, rfl⟩
    · rintro ⟨anchored, ⟨certificates, hholds, hknown, hanchored⟩, rfl⟩
      obtain ⟨algorithm, halgorithm⟩ := exists_algorithm?_iff.mpr hknown
      have hcheck : (algorithm : Algorithm).check = .ok () := check_of_algorithm? halgorithm
      refine ⟨_, ⟨certificates, algorithm, hholds, halgorithm, rfl⟩, ?_⟩
      exact validator?_store_eq_ok.mpr ⟨hcheck, anchored, hanchored, rfl⟩
  | platform =>
    constructor
    · rintro ⟨between, hbetween, hpart⟩
      cases hbetween
      exact validator?_platform_eq_ok.mp hpart
    · intro hanchored
      exact ⟨.platform, rfl, validator?_platform_eq_ok.mpr hanchored⟩
  | pool settings =>
    constructor
    · rintro ⟨between, hbetween, hpart⟩
      obtain ⟨pool, hpool, hbetween⟩ := Except.bind_eq_ok.mp hbetween
      cases hbetween
      cases hpart
      exact ⟨pool.published, (pool?_eq_ok hpool).1, rfl⟩
    · rintro ⟨anchored, htrusts, rfl⟩
      obtain ⟨pool, hpool⟩ := exists_pool? htrusts
      exact ⟨.validator (.inflatable number), Except.bind_eq_ok.mpr ⟨pool, hpool, rfl⟩, rfl⟩

end

end Settings

end PeerTrust
