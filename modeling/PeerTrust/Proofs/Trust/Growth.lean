import PeerTrust.Proofs.Trust.Leaves
import PeerTrust.Proofs.Trust.Stores
import PeerTrust.Trust.Pool

/-!
# Pools that grow

A pool holds its certificates and publishes a validator of its own. The invariant is that the two
agree: the certificates are all different, and what is published is the validator of just these
certificates. An addition either changes nothing, or it appends what is new in its batch; in the
second case it may still fail to write the file of the pool.
-/

namespace PeerTrust.Pool

/-- The certificates are all different, and the published validator is made of them. -/
structure Sound (engine : Engine) (pool : Pool) : Prop where
  nodup : pool.certificates.Nodup
  published : Base.ofStore engine ⟨pool.certificates⟩ = .ok pool.published

/-- The pool with more certificates and another published validator. -/
def grown (pool : Pool) (new : List Certificate) (published : Base) : Pool :=
  { pool with certificates := pool.certificates ++ new, published }

section
variable {engine : Engine} {pool : Pool} {batch : List Certificate}

/-- A pool is made exactly if its engine is known and the certificates of its file are anchors, which
it then publishes. -/
theorem create_eq_ok {files : Files} {options : Options} :
    create engine files options = .ok pool ↔ options.algorithm.check = .ok () ∧
      ∃ contents published, seed files options.path = .ok contents ∧
        Base.ofStore engine (.ofList contents) = .ok published ∧
        pool = ⟨(Store.ofList contents).certificates, [], published, options.predicate,
          options.path⟩ := by
  simp only [create, Except.bind_eq_ok, pure, Except.pure, Except.ok.injEq]
  constructor
  · rintro ⟨⟨⟩, hcheck, contents, hseed, published, hpublished, rfl⟩
    exact ⟨hcheck, contents, published, hseed, hpublished, rfl⟩
  · rintro ⟨hcheck, contents, published, hseed, hpublished, rfl⟩
    exact ⟨(), hcheck, contents, hseed, published, hpublished, rfl⟩

/-- A new pool has the certificates of its file, each once, and nothing to write. -/
theorem of_create {files : Files} {options : Options} (h : create engine files options = .ok pool) :
    pool.Sound engine ∧ pool.queue = [] ∧ pool.path = options.path ∧
      ∃ contents, seed files options.path = .ok contents ∧
        pool.certificates = extendUnique [] contents := by
  obtain ⟨-, contents, published, hseed, hpublished, rfl⟩ := create_eq_ok.mp h
  exact ⟨⟨extendUnique_nodup List.nodup_nil, hpublished⟩, rfl, rfl, contents, hseed, rfl⟩

theorem fresh_isNewIn : IsNewIn pool.certificates batch (pool.fresh batch) := isNewIn_extendUnique

/-- What is new comes behind the rest without a repetition. -/
theorem append_fresh_nodup (hnodup : pool.certificates.Nodup) :
    (pool.certificates ++ pool.fresh batch).Nodup := by
  refine List.nodup_append.mpr ⟨hnodup, fresh_isNewIn.nodup, ?_⟩
  rintro first hfirst second hsecond rfl
  exact ((fresh_isNewIn.mem_iff first).mp hsecond).2 hfirst

/-- A sound pool that grows by what is new stays sound, if all of it can be used. -/
theorem Sound.grown (hsound : pool.Sound engine) {published : Base}
    (hpublished : Base.ofStore engine ⟨pool.certificates ++ pool.fresh batch⟩ = .ok published) :
    (pool.grown (pool.fresh batch) published).Sound engine :=
  ⟨append_fresh_nodup hsound.nodup, hpublished⟩

/-- Where what is new can be used, all certificates of the batch are anchors. -/
theorem anchor_of_mem_batch {published : Base}
    (hpublished : Base.ofStore engine ⟨pool.certificates ++ pool.fresh batch⟩ = .ok published)
    (certificate : Certificate) (hmem : certificate ∈ batch) :
    ∃ anchor, engine.anchor certificate = .ok anchor := by
  refine Base.anchor_of_ofStore hpublished (List.mem_append.mpr ?_)
  by_cases hknown : certificate ∈ pool.certificates
  · exact Or.inl hknown
  · exact Or.inr ((fresh_isNewIn.mem_iff certificate).mpr ⟨hmem, hknown⟩)

/-- A pool is inflated by what is new, unless one of the new certificates is no anchor. -/
theorem inflate_fresh (hsound : pool.Sound engine) :
    (∃ published, Base.ofStore engine ⟨pool.certificates ++ pool.fresh batch⟩ = .ok published ∧
      pool.inflate engine (pool.fresh batch) = .ok (pool.grown (pool.fresh batch) published)) ∨
    ∃ certificate ∈ batch, ∃ fault, engine.anchor certificate = .error fault ∧
      pool.inflate engine (pool.fresh batch) = .error (.configuration (.unusableAnchor fault)) := by
  unfold inflate
  split
  · rename_i hempty
    refine Or.inl ⟨pool.published, ?_, ?_⟩
    · rw [List.isEmpty_iff.mp hempty, List.append_nil]
      exact hsound.published
    · rw [grown, List.isEmpty_iff.mp hempty, List.append_nil]
  · dsimp only
    rw [Store.ofList_of_nodup (append_fresh_nodup hsound.nodup)]
    cases hpublished : Base.ofStore engine ⟨pool.certificates ++ pool.fresh batch⟩ with
    | ok published => exact Or.inl ⟨published, rfl, rfl⟩
    | error error =>
      obtain ⟨certificate, hmem, fault, hfault, rfl⟩ := Base.exists_of_ofStore_error hpublished
      refine Or.inr ⟨certificate, ?_, fault, hfault, rfl⟩
      rcases List.mem_append.mp hmem with hold | hnew
      · obtain ⟨anchor, hanchor⟩ := Base.anchor_of_ofStore hsound.published hold
        rw [hanchor] at hfault
        cases hfault
      · exact ((fresh_isNewIn.mem_iff certificate).mp hnew).1

end

section
variable {Storage : Type} {append : Append Storage} {engine : Engine} {pool : Pool}
  {storage : Storage} {batch : List Certificate}

theorem persist_nothing (hqueue : pool.queue = []) (path : String) :
    pool.persist append storage path = (pool, storage, [], .ok ()) := by
  rw [persist, hqueue, List.isEmpty_nil, if_pos rfl]

theorem persist_written {path : String} {after : Storage} (hqueue : pool.queue ≠ [])
    (happend : append storage path (sections pool.queue) = (after, .ok ())) :
    pool.persist append storage path =
      ({ pool with queue := [] }, after, [.poolPersisted path pool.queue.length], .ok ()) := by
  rw [persist, if_neg (by rwa [List.isEmpty_iff]), happend]

theorem persist_unwritten {path : String} {after : Storage} {fault : FileFault}
    (hqueue : pool.queue ≠ [])
    (happend : append storage path (sections pool.queue) = (after, .error fault)) :
    pool.persist append storage path =
      (pool, after, [.persistFailed path pool.queue.length (TrustError.unwritable fault).message],
        .error (.unwritable fault)) := by
  rw [persist, if_neg (by rwa [List.isEmpty_iff]), happend]

/-- What an addition to a pool can come to. -/
inductive AddStep (append : Append Storage) (engine : Engine) (pool : Pool) (storage : Storage)
    (batch : List Certificate) (added : Addition Storage) : Prop
  /-- A certificate is no anchor, and nothing happens. -/
  | refused {certificate : Certificate} {fault : TlsFault} (hmem : certificate ∈ batch)
      (hfault : engine.anchor certificate = .error fault) (hpool : added.pool = pool)
      (hstorage : added.storage = storage)
      (houtcome : added.outcome = .error (.configuration (.unusableAnchor fault)))
  /-- There is no file, or nothing to write to it. -/
  | unlisted {published : Base}
      (hpublished : Base.ofStore engine ⟨pool.certificates ++ pool.fresh batch⟩ = .ok published)
      (hnothing : pool.path = none ∨ pool.queue ++ pool.fresh batch = [])
      (hpool : added.pool = pool.grown (pool.fresh batch) published)
      (hstorage : added.storage = storage)
      (houtcome : added.outcome = .ok (pool.fresh batch).length)
  /-- Everything that was not in the file yet is written to it. -/
  | written {published : Base} {path : String}
      (hpublished : Base.ofStore engine ⟨pool.certificates ++ pool.fresh batch⟩ = .ok published)
      (hpath : pool.path = some path) (hqueue : pool.queue ++ pool.fresh batch ≠ [])
      (happend : append storage path (sections (pool.queue ++ pool.fresh batch)) =
        (added.storage, .ok ()))
      (hpool : added.pool = { pool.grown (pool.fresh batch) published with queue := [] })
      (houtcome : added.outcome = .ok (pool.fresh batch).length)
  /-- The file cannot be written, and everything that is not in it is kept for later. -/
  | unwritten {published : Base} {path : String} {fault : FileFault}
      (hpublished : Base.ofStore engine ⟨pool.certificates ++ pool.fresh batch⟩ = .ok published)
      (hpath : pool.path = some path) (hqueue : pool.queue ++ pool.fresh batch ≠ [])
      (happend : append storage path (sections (pool.queue ++ pool.fresh batch)) =
        (added.storage, .error fault))
      (hpool : added.pool =
        { pool.grown (pool.fresh batch) published with queue := pool.queue ++ pool.fresh batch })
      (houtcome : added.outcome = .error (.unwritable fault))

/-- **Step lemma.** Everything that an addition to a sound pool can do. -/
theorem Sound.addStep (hsound : pool.Sound engine) :
    AddStep append engine pool storage batch (pool.add append engine storage batch) := by
  rcases @inflate_fresh _ _ batch hsound with ⟨published, hpublished, hinflate⟩ |
    ⟨certificate, hmem, fault, hfault, hinflate⟩
  · simp only [add, hinflate]
    split
    · exact .unlisted hpublished (Or.inl ‹_›) rfl rfl rfl
    rename_i path hpath
    by_cases hqueue : pool.queue ++ pool.fresh batch = []
    · rw [persist_nothing hqueue]
      refine .unlisted hpublished (Or.inr hqueue) ?_ rfl rfl
      rw [(List.append_eq_nil_iff.mp hqueue).2, List.append_nil]
    · rcases happend : append storage path (sections (pool.queue ++ pool.fresh batch)) with
        ⟨after, fault | written⟩
      · rw [persist_unwritten hqueue happend]
        exact .unwritten hpublished hpath hqueue happend rfl rfl
      · rw [persist_written hqueue happend]
        exact .written hpublished hpath hqueue happend rfl rfl
  · simp only [add, hinflate]
    exact .refused hmem hfault rfl rfl rfl

end

section
variable {engine : Engine} {first pool : Pool}

/-- A sound pool stays sound, whatever is added and whether it is written or not. -/
theorem AddStep.sound {Storage : Type} {append : Append Storage} {storage : Storage}
    {batch : List Certificate} {added : Addition Storage}
    (hstep : AddStep append engine pool storage batch added) (hsound : pool.Sound engine) :
    added.pool.Sound engine := by
  cases hstep with
  | refused hmem hfault hpool hstorage houtcome =>
    rw [hpool]
    exact hsound
  | unlisted hpublished hnothing hpool hstorage houtcome =>
    rw [hpool]
    exact hsound.grown hpublished
  | written hpublished hpath hqueue happend hpool houtcome =>
    rw [hpool]
    exact ⟨(hsound.grown hpublished).nodup, (hsound.grown hpublished).published⟩
  | unwritten hpublished hpath hqueue happend hpool houtcome =>
    rw [hpool]
    exact ⟨(hsound.grown hpublished).nodup, (hsound.grown hpublished).published⟩

/-- The certificates of a pool stay in front. -/
theorem AddStep.prefix {Storage : Type} {append : Append Storage} {storage : Storage}
    {batch : List Certificate} {added : Addition Storage}
    (hstep : AddStep append engine pool storage batch added) :
    pool.certificates <+: added.pool.certificates := by
  cases hstep with
  | refused hmem hfault hpool hstorage houtcome =>
    exact hpool ▸ List.prefix_refl pool.certificates
  | unlisted hpublished hnothing hpool hstorage houtcome =>
    rw [hpool]
    exact List.prefix_append ..
  | written hpublished hpath hqueue happend hpool houtcome =>
    rw [hpool]
    exact List.prefix_append ..
  | unwritten hpublished hpath hqueue happend hpool houtcome =>
    rw [hpool]
    exact List.prefix_append ..

/-- The file of a pool is always the same one. -/
theorem AddStep.path_eq {Storage : Type} {append : Append Storage} {storage : Storage}
    {batch : List Certificate} {added : Addition Storage}
    (hstep : AddStep append engine pool storage batch added) : added.pool.path = pool.path := by
  cases hstep with
  | refused hmem hfault hpool hstorage houtcome => rw [hpool]
  | unlisted hpublished hnothing hpool hstorage houtcome => rw [hpool, grown]
  | written hpublished hpath hqueue happend hpool houtcome => rw [hpool, grown]
  | unwritten hpublished hpath hqueue happend hpool houtcome => rw [hpool, grown]

/-- Either the batch is refused because of a certificate that is no anchor, or what is new in it is
in the pool, be it that the file could be written or not. -/
theorem AddStep.refused_or_grown {Storage : Type} {append : Append Storage} {storage : Storage}
    {batch : List Certificate} {added : Addition Storage}
    (hstep : AddStep append engine pool storage batch added) :
    (∃ fault, added.outcome = .error (.configuration (.unusableAnchor fault)) ∧
      added.pool = pool ∧ added.storage = storage) ∨
    (added.pool.certificates = pool.certificates ++ pool.fresh batch ∧
      (added.outcome = .ok (pool.fresh batch).length ∨
        ∃ fault, added.outcome = .error (.unwritable fault) ∧
          added.pool.queue = pool.queue ++ pool.fresh batch)) := by
  cases hstep with
  | refused hmem hfault hpool hstorage houtcome =>
    exact Or.inl ⟨_, houtcome, hpool, hstorage⟩
  | unlisted hpublished hnothing hpool hstorage houtcome =>
    exact Or.inr ⟨by rw [hpool, grown], Or.inl houtcome⟩
  | written hpublished hpath hqueue happend hpool houtcome =>
    exact Or.inr ⟨by rw [hpool, grown], Or.inl houtcome⟩
  | unwritten hpublished hpath hqueue happend hpool houtcome =>
    exact Or.inr ⟨by rw [hpool, grown], Or.inr ⟨_, houtcome, by rw [hpool]⟩⟩

/-- What a sound pool publishes trusts the certificates of the pool. -/
theorem Sound.issuers_eq (hsound : pool.Sound engine) :
    pool.published.issuers = pool.certificates :=
  Base.issuers_of_ofStore hsound.published

/-- A sound pool that took up a batch trusts what it trusted before, and the batch. -/
theorem Sound.mem_issuers_grown {grown : Pool} {batch : List Certificate}
    (hsound : pool.Sound engine) (hgrown : grown.Sound engine)
    (hcertificates : grown.certificates = pool.certificates ++ pool.fresh batch)
    (issuer : Certificate) :
    issuer ∈ grown.published.issuers ↔ issuer ∈ pool.published.issuers ∨ issuer ∈ batch := by
  have hnew := (@fresh_isNewIn pool batch).mem_iff issuer
  rw [hsound.issuers_eq, hgrown.issuers_eq, hcertificates, List.mem_append, hnew]
  by_cases hknown : issuer ∈ pool.certificates
  · simp [hknown]
  · simp [hknown]

/-- A pool grows to another by additions one after the other. Each of them may fail, and what it
appends to may have changed in any way since the one before. -/
inductive GrowsTo (engine : Engine) (first : Pool) : Pool → Prop
  | start : GrowsTo engine first first
  | add {pool : Pool} {Storage : Type} (hgrows : GrowsTo engine first pool)
      (append : Append Storage) (storage : Storage) (batch : List Certificate) :
      GrowsTo engine first (pool.add append engine storage batch).pool

/-- **Run lemma.** A pool that grew from a sound one is sound, and begins with its certificates. -/
theorem GrowsTo.sound (hgrows : GrowsTo engine first pool) (hfirst : first.Sound engine) :
    pool.Sound engine ∧ first.certificates <+: pool.certificates := by
  induction hgrows with
  | start => exact ⟨hfirst, List.prefix_rfl⟩
  | @add pool _ hgrows append storage batch ih =>
    obtain ⟨hsound, hprefix⟩ := ih
    have hstep : AddStep append engine pool storage batch _ := hsound.addStep
    exact ⟨hstep.sound hsound, hprefix.trans hstep.prefix⟩

/-- A pool whose predicate does not accept a chain decides as its published validator. -/
theorem verdict_snapshot {now : Nat} {context : Context}
    (hpredicate : ∀ accepts ∈ pool.predicate, accepts context = false) (number : Nat) :
    (pool.snapshot number).verdict engine now context =
      pool.published.validate engine now context := by
  change verdict engine now pool.published pool.predicate context = _
  cases hsome : pool.predicate with
  | none => rfl
  | some accepts => rw [verdict, hpredicate accepts hsome, if_neg Bool.false_ne_true]

/-- **Agreement.** Whatever was added to a pool, and whether it failed or not, its certificates are
all different and begin with those of its file; what is published is a validator of exactly these
certificates; and one more addition is refused as a whole because of a certificate that is no
anchor, or else appends what is new in its batch, even if that cannot be written. -/
theorem certificates_agree_with_published {files : Files} {options : Options}
    (hcreate : create engine files options = .ok first) (hgrows : GrowsTo engine first pool) :
    (pool.certificates.Nodup ∧ ∃ contents seeded, seed files options.path = .ok contents ∧
      IsNewIn [] contents seeded ∧ seeded <+: pool.certificates) ∧
    ((∀ number, (pool.snapshot number).issuers = pool.certificates) ∧
      ∃ anchored, Base.ofStore engine (.ofList pool.certificates) = .ok anchored ∧
        ∀ number now context, (∀ accepts ∈ pool.predicate, accepts context = false) →
          (pool.snapshot number).verdict engine now context =
            anchored.validate engine now context) ∧
    ∀ {Storage : Type} (append : Append Storage) (storage : Storage) (batch : List Certificate),
      let added := pool.add append engine storage batch
      (added.pool = pool ∧ ∃ certificate ∈ batch, ∃ fault,
        engine.anchor certificate = .error fault ∧
        added.outcome = .error (.configuration (.unusableAnchor fault))) ∨
      (∀ certificate ∈ batch, ∃ anchor, engine.anchor certificate = .ok anchor) ∧
      ∃ new, IsNewIn pool.certificates batch new ∧
        added.pool.certificates = pool.certificates ++ new ∧
        (added.outcome = .ok new.length ∨ ∃ fault, added.outcome = .error (.unwritable fault)) := by
  obtain ⟨hfirst, -, -, contents, hseed, hcontents⟩ := of_create hcreate
  obtain ⟨hsound, hprefix⟩ := hgrows.sound hfirst
  have hseeded : IsNewIn [] contents first.certificates := by
    rw [hcontents]
    simpa using @isNewIn_extendUnique [] contents
  refine ⟨⟨hsound.nodup, contents, first.certificates, hseed, hseeded, hprefix⟩, ⟨?_, ?_⟩, ?_⟩
  · exact fun _ => Base.issuers_of_ofStore hsound.published
  · rw [Store.ofList_of_nodup hsound.nodup]
    exact ⟨pool.published, hsound.published, fun number _ _ hpredicate =>
      verdict_snapshot hpredicate number⟩
  · intro Storage append storage batch added
    have hstep : AddStep append engine pool storage batch added := hsound.addStep
    cases hstep with
    | @refused certificate fault hmem hfault hpool hstorage houtcome =>
      exact Or.inl ⟨hpool, certificate, hmem, fault, hfault, houtcome⟩
    | unlisted hpublished hnothing hpool hstorage houtcome =>
      exact Or.inr ⟨anchor_of_mem_batch hpublished, _, fresh_isNewIn, congrArg certificates hpool,
        Or.inl houtcome⟩
    | written hpublished hpath hqueue happend hpool houtcome =>
      exact Or.inr ⟨anchor_of_mem_batch hpublished, _, fresh_isNewIn, congrArg certificates hpool,
        Or.inl houtcome⟩
    | unwritten hpublished hpath hqueue happend hpool houtcome =>
      exact Or.inr ⟨anchor_of_mem_batch hpublished, _, fresh_isNewIn, congrArg certificates hpool,
        Or.inr ⟨_, houtcome⟩⟩

end

/-- An engine for which every certificate with contents is an anchor, and which trusts no chain. It
finds the platform's anchors where the environment says that they are. -/
def contentsEngine : Engine where
  anchor certificate :=
    if certificate.der.isEmpty then .error .unknownIssuer else .ok ⟨certificate.der, []⟩
  verify _ _ _ _ _ := .error .unknownIssuer
  platform := Platform.named

/-- A batch with a repetition, and one with a certificate that is no anchor. -/
theorem certificates_agree_two_additions : ∃ first pool,
    create contentsEngine .empty .plain = .ok first ∧ GrowsTo contentsEngine first pool ∧
    pool.certificates = [⟨[1]⟩, ⟨[2]⟩] ∧ (pool.snapshot 0).issuers = [⟨[1]⟩, ⟨[2]⟩] := by
  have hcreate : create contentsEngine .empty .plain = .ok ⟨[], [], ⟨[], []⟩, none, none⟩ := rfl
  have hgrows := ((GrowsTo.start.add Files.append .empty [⟨[1]⟩, ⟨[2]⟩, ⟨[1]⟩]).add
    Files.append .empty [⟨[3]⟩, ⟨[]⟩] : GrowsTo contentsEngine ⟨[], [], ⟨[], []⟩, none, none⟩ _)
  exact ⟨_, _, hcreate, hgrows, rfl, (certificates_agree_with_published hcreate hgrows).2.1.1 0⟩

end PeerTrust.Pool
