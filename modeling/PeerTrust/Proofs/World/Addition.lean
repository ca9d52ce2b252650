import PeerTrust.Proofs.Storage.Frame
import PeerTrust.Proofs.World.Judgement
import PeerTrust.Proofs.World.Pools

/-!
# Additions through several layers

Certificates that are added to a validator go to the first pool that the validator is made of, and
nothing else changes: no other pool, no slot, no collector, and no file but the one of that pool. The
search for the pool and the listing of the issuers are two walks through the same layers, so what
was added is what the issuers of the whole validator gain.
-/

namespace PeerTrust.World

/-- Only the pool of a given number is another one, together with the file that its path leads to
and with the log. -/
structure OnlyPoolChanged (world after : World) (number : Nat) (changed : Pool) : Prop where
  pools : after.pools = world.pools.set number changed
  slots : after.slots = world.slots
  collectors : after.collectors = world.collectors
  modes : after.modes = world.modes
  environment : after.environment = world.environment
  files : ∀ place, (∀ path ∈ changed.path, after.files.locate path ≠ .ok place) →
    after.files.fileAt place = world.files.fileAt place

section
variable {engine : Engine} {world after : World} {number : Nat} {pool changed : Pool}
  {batch : List Certificate} {validator : Validator} {before later : Snapshot}

/-- An addition to a pool changes at most the file of the pool. -/
theorem fileAt_of_addStep {files : Files} {added : Pool.Addition Files} {place : Place}
    (hstep : Pool.AddStep Files.append engine pool files batch added)
    (hplace : ∀ path ∈ added.pool.path, added.storage.locate path ≠ .ok place) :
    added.storage.fileAt place = files.fileAt place := by
  rw [hstep.path_eq] at hplace
  cases hstep with
  | refused hmem hfault hpool hstorage houtcome => rw [hstorage]
  | unlisted hpublished hnothing hpool hstorage houtcome => rw [hstorage]
  | written hpublished hpath hqueue happend hpool houtcome =>
    exact Files.fileAt_append happend (hplace _ hpath)
  | unwritten hpublished hpath hqueue happend hpool houtcome =>
    exact Files.fileAt_append happend (hplace _ hpath)

/-- An addition to a sound pool changes this pool only. -/
theorem onlyPoolChanged_of_add (hsound : pool.Sound engine) (number : Nat)
    (batch : List Certificate) (events : List Event) :
    let added := pool.add Files.append engine world.files batch
    world.OnlyPoolChanged { world with
      pools := world.pools.set number added.pool
      files := added.storage
      log := world.log ++ events } number added.pool where
  pools := rfl
  slots := rfl
  collectors := rfl
  modes := rfl
  environment := rfl
  files _ hplace := fileAt_of_addStep hsound.addStep hplace

/-- Where only a pool changed, a validator that had a snapshot still has one. -/
theorem OnlyPoolChanged.exists_snapshot (honly : world.OnlyPoolChanged after number changed)
    (hbefore : world.snapshot? validator = some before) :
    ∃ later, after.snapshot? validator = some later := by
  have hsome : (world.snapshot? validator).isSome := Option.isSome_of_mem hbefore
  have hpools : ∀ number, validator.Reaches after.slots (.inflatable number) →
      number < after.pools.length := by
    intro other hreaches
    rw [honly.slots] at hreaches
    rw [honly.pools, List.length_set]
    exact pool_lt_of_snapshotWithin hsome hreaches
  have hslots : ∀ slot, validator.Reaches after.slots (.hotSwappable slot) →
      slot < after.slots.length := by
    rw [honly.slots]
    exact fun slot => slot_lt_of_snapshotWithin hsome
  have hacyclic : after.Acyclic validator := by
    intro slot hreaches hself
    rw [honly.slots] at hreaches
    rw [HoldsItself, honly.slots] at hself
    exact acyclic_of_snapshotWithin hsome slot hreaches hself
  exact Option.isSome_iff_exists.mp
    (snapshotWithin_isSome hpools hslots hacyclic card_slotsBelow_le)

/-- A validator that reaches a pool trusts what it trusted before, and what the pool took up. -/
theorem OnlyPoolChanged.mem_issuers (honly : world.OnlyPoolChanged after number changed)
    (hpool : world.pools[number]? = some pool)
    (hgrown : ∀ issuer, issuer ∈ changed.published.issuers ↔
      issuer ∈ pool.published.issuers ∨ issuer ∈ batch)
    (hbefore : world.snapshot? validator = some before)
    (hlater : after.snapshot? validator = some later)
    (hreaches : validator.Reaches world.slots (.inflatable number)) (issuer : Certificate) :
    issuer ∈ later.issuers ↔ issuer ∈ before.issuers ∨ issuer ∈ batch := by
  have hlt : number < world.pools.length := (List.getElem?_eq_some_iff.mp hpool).1
  have hthere : after.pools[number]? = some changed := by
    rw [honly.pools, List.getElem?_set_self hlt]
  have hother (part : Validator) (hpart : part ≠ .inflatable number) :
      after.anchorsOf part = world.anchorsOf part := by
    cases part with
    | inflatable other =>
      have hne : number ≠ other := by
        rintro rfl
        exact hpart rfl
      rw [anchorsOf, anchorsOf, honly.pools, List.getElem?_set_ne hne]
    | _ => rfl
  have hown : issuer ∈ after.anchorsOf (.inflatable number) ↔
      issuer ∈ world.anchorsOf (.inflatable number) ∨ issuer ∈ batch := by
    simpa [anchorsOf, hthere, hpool] using hgrown issuer
  rw [mem_issuers_iff hbefore, mem_issuers_iff hlater, honly.slots]
  constructor
  · rintro ⟨part, hpart, hissuer⟩
    by_cases hsame : part = .inflatable number
    · subst hsame
      rcases hown.mp hissuer with hold | hnew
      · exact Or.inl ⟨_, hpart, hold⟩
      · exact Or.inr hnew
    · rw [hother part hsame] at hissuer
      exact Or.inl ⟨part, hpart, hissuer⟩
  · rintro (⟨part, hpart, hissuer⟩ | hnew)
    · by_cases hsame : part = .inflatable number
      · subst hsame
        exact ⟨_, hpart, hown.mpr (Or.inl hissuer)⟩
      · rw [← hother part hsame] at hissuer
        exact ⟨part, hpart, hissuer⟩
    · exact ⟨_, hreaches, hown.mpr (Or.inr hnew)⟩

/-- The pool that additions are made to is there, and the validator reaches it. -/
theorem exists_of_pool? (hbefore : world.snapshot? validator = some before)
    (hnumber : before.pool? = some number) :
    (∃ pool, world.pools[number]? = some pool) ∧
      validator.Reaches world.slots (.inflatable number) := by
  constructor
  · exact ⟨_, List.getElem?_eq_getElem (pool?_lt hbefore hnumber)⟩
  · rw [Snapshot.pool?_eq_head?] at hnumber
    exact (mem_pools_iff hbefore).mp (List.mem_of_mem_head? hnumber)

/-- **Additions.** In every world that is reached, certificates that are added to an acyclic
validator go to the first of the pools that it reaches, if there is one. What comes out is what comes
out of the addition to that pool, nothing but that pool and its file changes, and if it succeeds, the
validator has gained the certificates as issuers and nothing else. Without a pool the addition is
not supported, and nothing happens. -/
theorem Run.add_acts_on_first_pool {first : World} {history : List (World × Operation)}
    (hrun : Run engine first history world) (hfirst : first.pools = [])
    (hcovers : world.Covers validator) (hacyclic : world.Acyclic validator)
    (batch : List Certificate) :
    ∃ before, world.snapshot? validator = some before ∧
      (∀ number, number ∈ before.pools ↔ validator.Reaches world.slots (.inflatable number)) ∧
      ((∀ number, ¬ validator.Reaches world.slots (.inflatable number)) →
        (add engine validator batch).perform world =
          some (.error (.unsupported (.addition validator.kind)), world)) ∧
      ∀ number others, before.pools = number :: others →
        ∃ pool after, world.pools[number]? = some pool ∧
          let added := pool.add Files.append engine world.files batch
          (add engine validator batch).perform world = some (added.outcome, after) ∧
          world.OnlyPoolChanged after number added.pool ∧
          ∀ count, added.outcome = .ok count →
            ∃ later, after.snapshot? validator = some later ∧
              ∀ issuer, issuer ∈ later.issuers ↔ issuer ∈ before.issuers ∨ issuer ∈ batch := by
  obtain ⟨before, hbefore⟩ := exists_snapshot hcovers hacyclic
  have hsound : world.PoolsSound engine := by
    refine hrun.pools_sound ?_
    simp [PoolsSound, hfirst]
  refine ⟨before, hbefore, fun number => mem_pools_iff hbefore, ?_, ?_⟩
  · intro hnone
    have hunfound := (findPool_eq_some_iff hbefore).mpr ((pool?_eq_none_iff hbefore).mpr hnone)
    exact add_perform_unsupported hunfound batch
  · intro number others hpools
    have hnumber : before.pool? = some number := by
      rw [Snapshot.pool?_eq_head?, hpools, List.head?_cons]
    obtain ⟨⟨pool, hpool⟩, hreaches⟩ := exists_of_pool? hbefore hnumber
    have hpoolSound : pool.Sound engine := hsound pool (List.mem_of_getElem? hpool)
    have hstep : Pool.AddStep Files.append engine pool world.files batch _ := hpoolSound.addStep
    have honly := @onlyPoolChanged_of_add engine world pool hpoolSound number batch
      (pool.add Files.append engine world.files batch).events
    refine ⟨pool, _, hpool, ?_, honly, fun count hok => ?_⟩
    · have hfound := (findPool_eq_some_iff hbefore).mpr hnumber
      rw [add_perform_pool hfound, addToPool_perform engine world hpool]
    · obtain ⟨later, hlater⟩ := honly.exists_snapshot hbefore
      rcases hstep.refused_or_grown with ⟨fault, hrefused, -, -⟩ | ⟨hcertificates, -⟩
      · rw [hok] at hrefused
        cases hrefused
      · have hgrown := hpoolSound.mem_issuers_grown (hstep.sound hpoolSound) hcertificates
        exact ⟨later, hlater, honly.mem_issuers hpool hgrown hbefore hlater hreaches⟩

end

/-- A pool without certificates. -/
def emptyPool : Pool := ⟨[], [], ⟨[], []⟩, none, none⟩

/-- A world with as many empty pools as given. -/
def emptyPools (count : Nat) : World :=
  { start .empty [] with
    pools := List.replicate count emptyPool
    log := (List.replicate count emptyPool.creationEvents).flatten }

/-- A world with two pools, the second of which stands in a slot. -/
def twoPools : World := { emptyPools 2 with slots := [.inflatable 1] }

/-- A logged slot next to a pool. -/
def slotBeforePool : Validator := .composite [.logging (.hotSwappable 0), .inflatable 0]

theorem run_twoPools :
    ∃ history, Run Pool.contentsEngine (start .empty []) history twoPools := by
  have hnone : (Operation.makePool .plain).validators = [] := rfl
  have hfits (world : World) : (Operation.makePool .plain).FitsIn world := by
    simp [Operation.FitsIn, hnone]
  have hfirst : Run Pool.contentsEngine (start .empty []) _ (emptyPools 1) :=
    Run.start.step (hfits _) rfl
  have hsecond : Run Pool.contentsEngine (start .empty []) _ (emptyPools 2) :=
    hfirst.step (hfits _) rfl
  have hslot : (Operation.makeSlot (.inflatable 1)).FitsIn (emptyPools 2) :=
    List.forall_mem_singleton.mpr (covers_inflatable Nat.one_lt_two)
  exact ⟨_, hsecond.step hslot rfl⟩

theorem twoPools_covers : twoPools.Covers slotBeforePool := by
  refine covers_composite fun member hmem => ?_
  rcases List.mem_cons.mp hmem with rfl | hmem
  · exact covers_logging (covers_hotSwappable rfl (covers_inflatable Nat.one_lt_two))
  · rw [List.mem_singleton.mp hmem]
    exact covers_inflatable Nat.zero_lt_two

theorem twoPools_acyclic : twoPools.Acyclic slotBeforePool :=
  acyclic_of_snapshotWithin (rfl : (twoPools.snapshot? slotBeforePool).isSome)

/-- Of two pools, the one behind the slot comes first and takes up the certificate. The other one
stays empty. -/
theorem add_behind_slot : ∃ after later,
    (add Pool.contentsEngine slotBeforePool [⟨[1]⟩]).perform twoPools = some (.ok 1, after) ∧
    after.pools.map Pool.certificates = [[], [⟨[1]⟩]] ∧
    after.snapshot? slotBeforePool = some later ∧ ⟨[1]⟩ ∈ later.issuers := by
  obtain ⟨history, hrun⟩ := run_twoPools
  obtain ⟨before, hbefore, -, -, hadd⟩ := hrun.add_acts_on_first_pool rfl twoPools_covers
    twoPools_acyclic [⟨[1]⟩]
  cases hbefore
  obtain ⟨pool, after, hpool, hperform, honly, hok⟩ := hadd 1 [0] rfl
  cases hpool
  obtain ⟨later, hlater, hissuers⟩ := hok 1 rfl
  refine ⟨after, later, hperform, ?_, hlater, ?_⟩
  · rw [honly.pools]
    rfl
  · rw [hissuers]
    exact Or.inr List.mem_cons_self

end PeerTrust.World
