import PeerTrust.Proofs.World.Addition

/-!
# Renewals

Taking up the roots of issued material goes one of two ways: a pool that the validator reaches takes
up the roots, or else the validator is a slot and is given one that trusts nothing but the roots. In
both of them the roots are trusted in the end, or nothing has happened; a file that cannot be written
stops neither, since what is not in the file yet waits in the queue of the pool.
-/

namespace PeerTrust

/-- The ways in which a validator can take up roots. -/
inductive RenewalBranch where
  | pool (number : Nat)
  | slot (number : Nat)

/-- Whether an error is that of a file, which no certificate is to blame for. -/
def TrustError.isFileFault : TrustError → Bool
  | .unreadable _ _ => true
  | .unwritable _ => true
  | _ => false

namespace World

/-- The way that a renewal goes: to the first pool, or else to the slot that the validator is. -/
def renewalBranch? (world : World) (validator : Validator) : Option RenewalBranch :=
  match (world.snapshot? validator).bind Snapshot.pool? with
  | some number => some (.pool number)
  | none => validator.slot?.map .slot

/-- A pool takes up roots. -/
def renewPool (engine : Engine) (number : Nat) (roots : List Certificate) : Action Renewal := do
  let added ← addToPool engine number roots
  Action.tell [.rootsAdded added]
  return .inflated added

/-- A slot is given a validator that trusts roots. -/
def renewSlot (engine : Engine) (number : Nat) (roots : List Certificate) : Action Renewal := do
  let store := Store.ofList roots
  swapSlot number (← makeBase engine store .default)
  Action.tell [.rootsSwapped store.certificates.length]
  return .swapped

/-- Roots are taken up in a given way. Without one, nothing can be done for a validator of its
kind. -/
def renewAlong (engine : Engine) (kind : Kind) (roots : List Certificate) :
    Option RenewalBranch → Action Renewal
  | some (.pool number) => renewPool engine number roots
  | some (.slot number) => renewSlot engine number roots
  | none => throw (.unsupported (.renewal kind))

/-- What is left behind where roots are taken up. -/
structure Renewed (world : World) (validator : Validator) (roots : List Certificate)
    (outcome : Except TrustError Renewal) (after : World) : Prop where
  /-- Unless it fails for another reason than a file, all roots are trusted. -/
  trusted : (∀ error, outcome = .error error → error.isFileFault = true) →
    ∃ later, after.snapshot? validator = some later ∧ ∀ root ∈ roots, root ∈ later.issuers
  /-- After a swap nothing but the roots is trusted, and logging is kept. -/
  swapped : outcome = .ok .swapped →
    (∃ later, after.snapshot? validator = some later ∧ IsNewIn [] roots later.issuers) ∧
    ∃ slot previous anchored, validator = .hotSwappable slot ∧
      world.slots[slot]? = some previous ∧
      after.slots[slot]? = some
        (if previous.kind = .logging then .logging (.base anchored) else .base anchored)
  /-- After any error but that of a file, nothing but the log is different. -/
  unchanged : ∀ error, outcome = .error error → error.isFileFault = false →
    ∃ events, after = world.tell events
  /-- After the error of a file, what is new to the pool is in the pool and in its queue. -/
  queued : ∀ error, outcome = .error error → error.isFileFault = true →
    ∃ number pool renewed new, validator.Reaches world.slots (.inflatable number) ∧
      world.pools[number]? = some pool ∧ after.pools[number]? = some renewed ∧
      IsNewIn pool.certificates roots new ∧
      renewed.certificates = pool.certificates ++ new ∧ renewed.queue = pool.queue ++ new

section
variable {engine : Engine} {world after : World} {validator : Validator} {snapshot : Snapshot}
  {roots : List Certificate} {outcome : Except TrustError Renewal} {number slot : Nat}

/-- A renewal goes the way that the parts of the validator determine. -/
theorem renew_perform_along {material : IssuedMaterial} (hroots : material.roots ≠ [])
    (hsnapshot : world.snapshot? validator = some snapshot) :
    (renew engine validator material).perform world =
      (renewAlong engine validator.kind material.roots (world.renewalBranch? validator)).perform
        world := by
  rw [renew_perform_found hroots (findPool_of_snapshot hsnapshot), renewalBranch?, hsnapshot,
    Option.bind_some]
  cases snapshot.pool? with
  | some number => rfl
  | none => cases validator <;> rfl

/-- A pool takes up the roots exactly if the validator reaches one. -/
theorem renewalBranch?_pool (hsnapshot : world.snapshot? validator = some snapshot) :
    (∃ number, world.renewalBranch? validator = some (.pool number)) ↔
      ∃ number, validator.Reaches world.slots (.inflatable number) := by
  have hnone := pool?_eq_none_iff hsnapshot
  rw [renewalBranch?, hsnapshot, Option.bind_some]
  cases hpool : snapshot.pool? with
  | some number =>
    have hreaches := (exists_of_pool? hsnapshot hpool).2
    exact iff_of_true ⟨number, rfl⟩ ⟨number, hreaches⟩
  | none =>
    refine iff_of_false ?_ (not_exists.mpr (hnone.mp hpool))
    cases validator <;> simp [Validator.slot?]

/-- A slot is given another validator exactly if it is the validator that is renewed, and reaches no
pool. -/
theorem renewalBranch?_slot (hsnapshot : world.snapshot? validator = some snapshot) :
    (∃ slot, world.renewalBranch? validator = some (.slot slot)) ↔
      (∀ number, ¬ validator.Reaches world.slots (.inflatable number)) ∧
        validator.kind = .hotSwappable := by
  rw [← pool?_eq_none_iff hsnapshot, renewalBranch?, hsnapshot, Option.bind_some]
  cases snapshot.pool? with
  | some number => simp
  | none => cases validator <;> simp [Validator.slot?, Validator.kind]

/-- A renewal of a validator with a snapshot returns. -/
theorem exists_renew (hsnapshot : world.snapshot? validator = some snapshot)
    (material : IssuedMaterial) : ∃ outcome after,
      (renew engine validator material).perform world = some (outcome, after) := by
  by_cases hroots : material.roots = []
  · exact ⟨_, _, renew_perform_noRoots hroots⟩
  have hsome : ((renew engine validator material).perform world).isSome := by
    cases hnumber : snapshot.pool? with
    | some number =>
      have hfound := (findPool_eq_some_iff hsnapshot).mpr hnumber
      have hpool := List.getElem?_eq_getElem (pool?_lt hsnapshot hnumber)
      rw [renew_perform_pool hroots hfound hpool]
      rfl
    | none =>
      have hunfound := (findPool_eq_some_iff hsnapshot).mpr hnumber
      by_cases hkind : validator.kind = .hotSwappable
      · obtain ⟨slot, rfl⟩ := exists_slot_of_kind hkind
        have hslot := List.getElem?_eq_getElem
          (slot_lt_of_snapshotWithin (Option.isSome_of_mem hsnapshot) .refl)
        rw [renew_perform_slot hroots hunfound hslot]
        rfl
      · rw [renew_perform_unsupported hroots hunfound hkind]
        rfl
  obtain ⟨⟨outcome, after⟩, hperform⟩ := Option.isSome_iff_exists.mp hsome
  exact ⟨outcome, after, hperform⟩

/-- An error that is not that of a file, and after which nothing is different. -/
theorem Renewed.of_unchanged {error : TrustError} (herror : error.isFileFault = false)
    (hafter : ∃ events, after = world.tell events) :
    world.Renewed validator roots (.error error) after where
  trusted hfault := by
    have hcontrary := hfault error rfl
    rw [herror] at hcontrary
    cases hcontrary
  swapped hok := nomatch hok
  unchanged _ _ _ := hafter
  queued other hother hfault := by
    cases hother
    rw [herror] at hfault
    cases hfault

/-- A pool that is reached takes up the roots, or else nothing is different. -/
theorem Renewed.of_pool {pool : Pool} (hsound : pool.Sound engine)
    (hsnapshot : world.snapshot? validator = some snapshot)
    (hreaches : validator.Reaches world.slots (.inflatable number))
    (hpool : world.pools[number]? = some pool) (events : List Event) :
    let added := pool.add Files.append engine world.files roots
    world.Renewed validator roots (added.outcome.map .inflated) { world with
      pools := world.pools.set number added.pool
      files := added.storage
      log := world.log ++ events } := by
  intro added
  have hlt : number < world.pools.length := (List.getElem?_eq_some_iff.mp hpool).1
  have hstep : Pool.AddStep Files.append engine pool world.files roots added := hsound.addStep
  rcases hstep.refused_or_grown with ⟨fault, houtcome, hsame, hfiles⟩ | ⟨hcertificates, houtcome⟩
  · have hpools : world.pools.set number pool = world.pools := by
      obtain ⟨-, rfl⟩ := List.getElem?_eq_some_iff.mp hpool
      exact List.set_getElem_self hlt
    rw [houtcome, hsame, hfiles, hpools]
    exact .of_unchanged rfl ⟨events, rfl⟩
  · have honly := @onlyPoolChanged_of_add engine world pool hsound number roots events
    obtain ⟨later, hlater⟩ := honly.exists_snapshot hsnapshot
    have hgrown := hsound.mem_issuers_grown (hstep.sound hsound) hcertificates
    have hissuers := honly.mem_issuers hpool hgrown hsnapshot hlater hreaches
    have htrusted : ∀ root ∈ roots, root ∈ later.issuers := by
      intro root hroot
      exact (hissuers root).mpr (Or.inr hroot)
    rcases houtcome with hok | ⟨fault, hfailed, hqueue⟩
    · rw [hok]
      refine ⟨fun _ => ⟨later, hlater, htrusted⟩, ?_, ?_, ?_⟩
      · intro hswapped
        cases hswapped
      · intro error herror
        cases herror
      · intro error herror
        cases herror
    · rw [hfailed]
      refine ⟨fun _ => ⟨later, hlater, htrusted⟩, ?_, ?_, fun _ _ _ => ?_⟩
      · intro hswapped
        cases hswapped
      · intro error herror hfault
        cases herror
        cases hfault
      · exact ⟨number, pool, added.pool, pool.fresh roots, hreaches, hpool,
          List.getElem?_set_self hlt, Pool.fresh_isNewIn, hcertificates, hqueue⟩

/-- A slot that is given a validator with the roots as its anchors trusts nothing else. -/
theorem Renewed.of_slot {previous : Validator} {anchored : Base}
    (hprevious : world.slots[slot]? = some previous)
    (hanchored : Base.ofStore engine (.ofList roots) = .ok anchored) (events : List Event) :
    world.Renewed (.hotSwappable slot) roots (.ok .swapped) { world.tell events with
      slots := world.slots.set slot (successor previous (.base anchored)) } := by
  have hslot : (world.slots.set slot (successor previous (.base anchored)))[slot]? =
      some (if previous.kind = .logging then .logging (.base anchored) else .base anchored) :=
    List.getElem?_set_self (List.getElem?_eq_some_iff.mp hprevious).1
  have hnew : IsNewIn [] roots anchored.issuers := by
    rw [Base.issuers_of_ofStore hanchored]
    exact isNewIn_nil
  have hlater : ∃ later, World.snapshot? { world.tell events with
      slots := world.slots.set slot (successor previous (.base anchored)) } (.hotSwappable slot) =
        some later ∧ later.issuers = anchored.issuers := by
    rw [snapshot?_hotSwappable hslot]
    split
    · rw [snapshot?_logging, snapshot?_base]
      exact ⟨_, rfl, rfl⟩
    · rw [snapshot?_base]
      exact ⟨_, rfl, rfl⟩
  obtain ⟨later, hlater, hissuers⟩ := hlater
  rw [← hissuers] at hnew
  refine ⟨fun _ => ⟨later, hlater, fun root hroot => ?_⟩, fun _ => ⟨⟨later, hlater, hnew⟩, ?_⟩,
    ?_, ?_⟩
  · exact (hnew.mem_iff root).mpr ⟨hroot, List.not_mem_nil⟩
  · exact ⟨slot, previous, anchored, rfl, hprevious, hslot⟩
  · intro error herror
    cases herror
  · intro error herror
    cases herror

/-- **Step lemma.** However a renewal ends, the roots are trusted or nothing has happened. -/
theorem RenewStep.renewed {material : IssuedMaterial} (hsound : world.PoolsSound engine)
    (hsnapshot : world.snapshot? validator = some snapshot)
    (hstep : RenewStep engine world validator material after outcome) :
    world.Renewed validator material.roots outcome after := by
  have hkept (hnext : after = world) : ∃ events, after = world.tell events :=
    ⟨[], by simp [hnext, tell]⟩
  cases hstep with
  | noRoots hroots hnext => exact .of_unchanged rfl (hkept hnext)
  | pooled hroots hfound hpool hnext =>
    obtain ⟨-, hreaches⟩ := exists_of_pool? hsnapshot ((findPool_eq_some_iff hsnapshot).mp hfound)
    rw [hnext]
    exact .of_pool (hsound _ (List.mem_of_getElem? hpool)) hsnapshot hreaches hpool _
  | refused hroots hunfound hslot hanchored hnext =>
    obtain ⟨-, -, fault, -, rfl⟩ := Base.exists_of_ofStore_error hanchored
    exact .of_unchanged rfl (hkept hnext)
  | swapped hroots hunfound hslot hprevious hanchored hnext =>
    rw [hnext, hslot]
    exact .of_slot hprevious hanchored _
  | unsupported hroots hunfound hkind hnext => exact .of_unchanged rfl (hkept hnext)

/-- **Renewals.** In every world that is reached, the renewal of an acyclic validator goes to a pool
exactly if the validator reaches one, and it gives the validator another delegate exactly if that is
a slot without a pool behind it. It returns; then the roots are trusted, or nothing has happened but
an error that is not that of a file. What an issuer hands out is taken up in the same way, and
nothing happens if the issuer fails. -/
theorem Run.renewal_all_or_nothing {first : World} {history : List (World × Operation)}
    (hrun : Run engine first history world) (hfirst : first.pools = [])
    (hcovers : world.Covers validator) (hacyclic : world.Acyclic validator)
    (material : IssuedMaterial) :
    (material.roots ≠ [] →
      (renew engine validator material).perform world =
        (renewAlong engine validator.kind material.roots (world.renewalBranch? validator)).perform
          world ∧
      ((∃ number, world.renewalBranch? validator = some (.pool number)) ↔
        ∃ number, validator.Reaches world.slots (.inflatable number)) ∧
      ((∃ slot, world.renewalBranch? validator = some (.slot slot)) ↔
        (∀ number, ¬ validator.Reaches world.slots (.inflatable number)) ∧
          validator.kind = .hotSwappable)) ∧
    (∃ outcome after, (renew engine validator material).perform world = some (outcome, after) ∧
      (material.roots = [] → outcome = .error (.configuration .noRoots)) ∧
      world.Renewed validator material.roots outcome after) ∧
    (refresh engine validator (.ok material)).perform world =
      (renew engine validator material).perform world ∧
    ∀ error, (refresh engine validator (.error error)).perform world =
      some (.error error, world) := by
  obtain ⟨snapshot, hsnapshot⟩ := exists_snapshot hcovers hacyclic
  have hsound : world.PoolsSound engine := by
    refine hrun.pools_sound ?_
    simp [PoolsSound, hfirst]
  refine ⟨fun hroots => ⟨renew_perform_along hroots hsnapshot, renewalBranch?_pool hsnapshot,
    renewalBranch?_slot hsnapshot⟩, ?_, by simp [refresh], fun error => by simp [refresh]⟩
  obtain ⟨outcome, after, hperform⟩ := @exists_renew engine _ _ _ hsnapshot material
  refine ⟨outcome, after, hperform, fun hnone => ?_, (renewStep hperform).renewed hsound hsnapshot⟩
  rw [renew_perform_noRoots hnone] at hperform
  cases hperform
  rfl

end

/-- A logged slot keeps its logging, and trusts the two roots that are issued, one of them twice. -/
theorem renew_logged_slot : ∃ (after : World) (later : Snapshot) (anchored : Base),
    (renew Pool.contentsEngine (.hotSwappable 0) ⟨[], [], [⟨[1]⟩, ⟨[2]⟩, ⟨[1]⟩]⟩).perform
      (oneSlot (.logging .dummy)) = some (.ok .swapped, after) ∧
    after.slots[0]? = some (.logging (.base anchored)) ∧
    after.snapshot? (.hotSwappable 0) = some later ∧ later.issuers = [⟨[1]⟩, ⟨[2]⟩] := by
  have hfits : (Operation.makeSlot (.logging .dummy)).FitsIn (start .empty []) :=
    List.forall_mem_singleton.mpr (covers_logging covers_dummy)
  have hrun : Run Pool.contentsEngine (start .empty []) _ (oneSlot (.logging .dummy)) :=
    Run.start.step hfits rfl
  have hacyclic : (oneSlot (.logging .dummy)).Acyclic (.hotSwappable 0) :=
    acyclic_of_snapshotWithin (rfl : ((oneSlot (.logging .dummy)).snapshot? _).isSome)
  obtain ⟨-, ⟨outcome, after, hperform, -, hrenewed⟩, -⟩ := hrun.renewal_all_or_nothing rfl
    (oneSlot_covers (covers_logging covers_dummy)) hacyclic ⟨[], [], [⟨[1]⟩, ⟨[2]⟩, ⟨[1]⟩]⟩
  have hunfound : (oneSlot (.logging .dummy)).findPool (.hotSwappable 0) = some none :=
    (findPool_eq_some_iff rfl).mpr rfl
  have hgiven := (renew_perform_slot (List.cons_ne_nil _ _) hunfound rfl).symm.trans hperform
  cases hgiven
  obtain ⟨⟨later, hlater, -⟩, slot, previous, anchored, hslot, hprevious, hafter⟩ :=
    hrenewed.swapped rfl
  cases hslot
  cases hprevious
  refine ⟨_, later, anchored, hperform, hafter, hlater, ?_⟩
  cases hlater
  rfl

end World

end PeerTrust
