import PeerTrust.Proofs.Text.Cut
import PeerTrust.Proofs.Trust.Restart

/-!
# Writes that stop in the middle

Writing the queue of a pool may stop after any number of characters, which then stay in the file.
The next addition writes the whole queue behind them. The invariant says which certificates of the
pool can be read from the file in between, and whether the next section opens by itself; it is kept
by every stop that is clean. A stop at any other place of the first section loses this section.
-/

namespace PeerTrust.Pool

/-- Writing certificates left the first `count` characters of their sections behind what was in the
file, and this is an `allowed` place to stop at. -/
def Stopped (allowed : List Bytes → Nat → Prop) (before after : Option Found)
    (written : List Certificate) : Prop :=
  ∃ count, allowed (written.map Certificate.der) count ∧
    (count = 0 ∧ after = before ∨ after = Found.append before ((sections written).take count))

/-- A way to append that appends everything, or fails and has stopped at an `allowed` place. -/
structure Stops (allowed : List Bytes → Nat → Prop) (append : Append Files) (files : Files)
    (path : String) : Prop where
  failed : ∀ written after fault, append files path (sections written) = (after, .error fault) →
    Stopped allowed (files.found path) (after.found path) written
  done : ∀ written after, append files path (sections written) = (after, .ok ()) →
    after.found path = Found.append (files.found path) (sections written)

/-- A run of additions to a pool with a file, in which writing may stop at any `allowed` place. -/
inductive StoppedRun (allowed : List Bytes → Nat → Prop) (engine : Engine) (path : String)
    (first : Pool) (initial : Files) : Pool → Files → Prop
  | start : StoppedRun allowed engine path first initial first initial
  | add {pool : Pool} {files : Files}
      (hrun : StoppedRun allowed engine path first initial pool files) {append : Append Files}
      (hstops : Stops allowed append files path) (batch : List Certificate) :
      StoppedRun allowed engine path first initial (pool.add append engine files batch).pool
        (pool.add append engine files batch).storage
  | elsewhere {pool : Pool} {files other : Files}
      (hrun : StoppedRun allowed engine path first initial pool files)
      (hother : other.found path = files.found path) :
      StoppedRun allowed engine path first initial pool other

/-- The number of sections that are lost behind a text, if the first one does not open. -/
def skipped (opens : Bool) : Nat := if opens then 0 else 1

/-- A pool whose file has the certificates `contents`. The queue is what comes behind the first
`written` certificates of the pool, and the first `known` ones can be read from the file. -/
structure Recoverable (engine : Engine) (path : String) (pool : Pool) (current : Option Found)
    (contents : List Bytes) (opens : Bool) (written known : Nat) : Prop where
  sound : pool.Sound engine
  path : pool.path = some path
  readable : ∀ found ∈ current, found.IsReadableFile
  awaits : Pem.Awaits (Found.text current) contents opens
  settled : pool.queue = [] → Pem.Rests (Found.text current) contents
  queue : pool.queue = pool.certificates.drop written
  seeded : extendUnique [] (contents.map Certificate.mk) = pool.certificates.take known
  ahead : written + skipped opens ≤ known
  bounded : known ≤ pool.certificates.length

section
variable {known added certificates : List Certificate}

theorem extendUnique_of_subset (hadded : ∀ certificate ∈ added, certificate ∈ known) :
    extendUnique known added = known := by
  induction added with
  | nil => rfl
  | cons first rest ih =>
    obtain ⟨hfirst, hrest⟩ := List.forall_mem_cons.mp hadded
    rw [extendUnique, List.foldl_cons, addUnique, if_pos hfirst]
    exact ih hrest

/-- Certificates that follow each other in a list extend a beginning of the list to a longer one. -/
theorem extendUnique_take (hnodup : certificates.Nodup) {start known count : Nat}
    (hstart : start ≤ known) :
    extendUnique (certificates.take known) ((certificates.drop start).take count) =
      certificates.take (max known (start + count)) := by
  have hsubset (length : Nat) (hlength : start + length ≤ known) :
      ∀ certificate ∈ (certificates.drop start).take length,
        certificate ∈ certificates.take known := by
    intro certificate hmem
    rw [List.take_drop] at hmem
    exact List.take_subset_take_left _ hlength (List.mem_of_mem_drop hmem)
  rcases Nat.le_total (start + count) known with hle | hle
  · rw [Nat.max_eq_left hle, extendUnique_of_subset (hsubset count hle)]
  · obtain ⟨more, hmore⟩ := Nat.exists_eq_add_of_le hle
    obtain ⟨gap, rfl⟩ := Nat.exists_eq_add_of_le hstart
    obtain rfl : count = gap + more := by omega
    have hsplit : (certificates.drop start).take (gap + more) =
        (certificates.drop start).take gap ++ (certificates.drop (start + gap)).take more := by
      rw [List.take_add, List.drop_drop]
    have hnew : (certificates.take (start + gap) ++
        (certificates.drop (start + gap)).take more).Nodup := by
      rw [← List.take_add]
      exact hnodup.sublist (List.take_sublist ..)
    rw [hsplit, extendUnique_append, extendUnique_of_subset (hsubset gap (Nat.le_refl _)),
      extendUnique_of_nodup hnew, ← List.take_add, Nat.max_eq_right hle, hmore]

/-- What is read of sections is what comes behind the skipped ones. -/
theorem visible_drop (opens : Bool) (start count : Nat) :
    Pem.visible opens ((certificates.drop start).take count) =
      (certificates.drop (start + skipped opens)).take (count - skipped opens) := by
  cases opens with
  | true => rfl
  | false =>
    have htail : ((certificates.drop start).take count).tail =
        (certificates.drop (start + 1)).take (count - 1) := by
      rw [← List.drop_one, List.drop_take, List.drop_drop]
    exact htail

theorem map_visible {α β : Type} (f : α → β) (opens : Bool) (elements : List α) :
    (Pem.visible opens elements).map f = Pem.visible opens (elements.map f) := by
  cases opens with
  | true => rfl
  | false => exact List.map_tail

end

section
variable {engine : Engine} {path : String} {pool : Pool} {current later : Option Found}
  {contents : List Bytes} {opens : Bool} {written known : Nat} {batch : List Certificate}
  {published : Base}

/-- A pool whose file is complete, and ends its last line. -/
theorem recoverable_of_create {files : Files} {options : Options}
    (hcreate : create engine files options = .ok pool) (hpath : options.path = some path)
    (hterminated : Pem.IsTerminated (Found.text (files.found path))) :
    ∃ contents, Recoverable engine path pool (files.found path) contents true
      pool.certificates.length pool.certificates.length := by
  obtain ⟨hsound, hqueue, hpoolPath, seeded, hseed, hcertificates⟩ := of_create hcreate
  rw [hpath] at hseed
  obtain ⟨hreadable, contents, hcontents, rfl⟩ := seed_eq_ok.mp hseed
  have hrests := Pem.rests_of_certificates hterminated hcontents
  refine ⟨contents, hsound, hpoolPath.trans hpath, hreadable, Pem.awaits_of_rests hrests,
    fun _ => hrests, ?_, ?_, Nat.le_refl _, Nat.le_refl _⟩
  · rw [hqueue, List.drop_length]
  · rw [List.take_length, ← hcertificates]

/-- What can be read of the certificates, after sections of the queue were written. -/
theorem Recoverable.seeded_append
    (hpool : Recoverable engine path pool current contents opens written known)
    {certificates : List Certificate} (hstarts : pool.certificates <+: certificates)
    (hnodup : certificates.Nodup) (complete : Nat) :
    extendUnique [] ((contents ++ Pem.visible opens
        (((certificates.drop written).take complete).map Certificate.der)).map Certificate.mk) =
      certificates.take (max known (written + complete)) := by
  have hahead := hpool.ahead
  have hknown : pool.certificates.take known = certificates.take known := by
    obtain ⟨more, rfl⟩ := hstarts
    rw [List.take_append_of_le_length hpool.bounded]
  have hread : (Pem.visible opens
      (((certificates.drop written).take complete).map Certificate.der)).map Certificate.mk =
        (certificates.drop (written + skipped opens)).take (complete - skipped opens) := by
    rw [map_visible, map_mk_der, visible_drop]
  have hend : max known (written + skipped opens + (complete - skipped opens)) =
      max known (written + complete) := by
    omega
  rw [List.map_append, extendUnique_append, hpool.seeded, hknown, hread,
    extendUnique_take hnodup hahead, hend]

/-- What waits to be written comes behind what was written. -/
theorem Recoverable.drop_grown
    (hpool : Recoverable engine path pool current contents opens written known) :
    (pool.certificates ++ pool.fresh batch).drop written = pool.queue ++ pool.fresh batch := by
  have hbounded := hpool.bounded
  have hahead := hpool.ahead
  rw [List.drop_append_of_le_length (by omega), hpool.queue]

/-- **Whole writes.** If the queue is written, all certificates can be read. -/
theorem Recoverable.write
    (hpool : Recoverable engine path pool current contents opens written known)
    (hpublished : Base.ofStore engine ⟨pool.certificates ++ pool.fresh batch⟩ = .ok published)
    (hqueue : pool.queue ++ pool.fresh batch ≠ [])
    (hlater : later = Found.append current (sections (pool.queue ++ pool.fresh batch))) :
    ∃ more, Recoverable engine path
      { pool.grown (pool.fresh batch) published with queue := [] } later more true
      (pool.certificates ++ pool.fresh batch).length
      (pool.certificates ++ pool.fresh batch).length := by
  have hgrown := hpool.sound.grown hpublished
  have hne : (pool.queue ++ pool.fresh batch).map Certificate.der ≠ [] :=
    mt List.map_eq_nil_iff.mp hqueue
  have hrests := Pem.rests_sections hpool.awaits hne
  rw [← sections_eq] at hrests
  have hall : ((pool.certificates ++ pool.fresh batch).drop written).take
      (pool.certificates ++ pool.fresh batch).length = pool.queue ++ pool.fresh batch := by
    rw [List.take_of_length_le (by rw [List.length_drop]; omega), hpool.drop_grown]
  have hseeded := hpool.seeded_append (List.prefix_append _ (pool.fresh batch)) hgrown.nodup
    (pool.certificates ++ pool.fresh batch).length
  rw [hall, List.take_of_length_le (by omega)] at hseeded
  subst hlater
  exact ⟨_, {
    sound := ⟨hgrown.nodup, hgrown.published⟩
    path := hpool.path
    readable := Found.isReadableFile_append hpool.readable
    awaits := Pem.awaits_of_rests hrests
    settled := fun _ => hrests
    queue := List.drop_length.symm
    seeded := hseeded.trans List.take_length.symm
    ahead := Nat.le_refl _
    bounded := Nat.le_refl _ }⟩

/-- **Clean stops.** If writing the queue stops at a clean place, it can be written again. -/
theorem Recoverable.stop
    (hpool : Recoverable engine path pool current contents opens written known)
    (hpublished : Base.ofStore engine ⟨pool.certificates ++ pool.fresh batch⟩ = .ok published)
    (hqueue : pool.queue ++ pool.fresh batch ≠ [])
    (hstopped : Stopped Pem.CleanStop current later (pool.queue ++ pool.fresh batch)) :
    ∃ more opens known, Recoverable engine path
      { pool.grown (pool.fresh batch) published with queue := pool.queue ++ pool.fresh batch }
      later more opens written known := by
  have hgrown := hpool.sound.grown hpublished
  have hbounded := hpool.bounded
  have hahead := hpool.ahead
  have hlength : (pool.certificates ++ pool.fresh batch).length =
      pool.certificates.length + (pool.fresh batch).length := List.length_append
  obtain ⟨count, hclean, ⟨rfl, rfl⟩ | rfl⟩ := hstopped
  · -- Nothing was written.
    exact ⟨contents, opens, known, {
      sound := ⟨hgrown.nodup, hgrown.published⟩
      path := hpool.path
      readable := hpool.readable
      awaits := hpool.awaits
      settled := fun hnone => absurd hnone hqueue
      queue := hpool.drop_grown.symm
      seeded := hpool.seeded.trans (List.take_append_of_le_length hbounded).symm
      ahead := hahead
      bounded := Nat.le_trans hbounded (hlength ▸ Nat.le_add_right ..) }⟩
  · obtain ⟨complete, opened, hcomplete, hawaits, hopened⟩ :=
      Pem.awaits_stop hclean hpool.awaits
    have hseeded := hpool.seeded_append (List.prefix_append _ (pool.fresh batch)) hgrown.nodup
      complete
    have hqueued := congrArg List.length (@Recoverable.drop_grown _ _ _ _ _ _ _ _ batch hpool)
    rw [List.length_drop] at hqueued
    rw [hpool.drop_grown, List.map_take] at hseeded
    rw [List.length_map] at hcomplete
    rw [← sections_eq] at hawaits
    have hopens : written + skipped opened ≤ max known (written + complete) := by
      cases opened with
      | true => exact Nat.le_trans (Nat.le_trans (Nat.le_add_right ..) hahead) (Nat.le_max_left ..)
      | false =>
        rcases hopened rfl with rfl | hsome
        · exact Nat.le_trans hahead (Nat.le_max_left ..)
        · exact Nat.le_trans (Nat.add_le_add_left hsome written) (Nat.le_max_right ..)
    have hknown : max known (written + complete) ≤
        (pool.certificates ++ pool.fresh batch).length := by
      omega
    exact ⟨_, opened, max known (written + complete), {
      sound := ⟨hgrown.nodup, hgrown.published⟩
      path := hpool.path
      readable := Found.isReadableFile_append hpool.readable
      awaits := hawaits
      settled := fun hnone => absurd hnone hqueue
      queue := hpool.drop_grown.symm
      seeded := hseeded
      ahead := hopens
      bounded := hknown }⟩

/-- **Step lemma.** An addition to a pool that stops at a clean place leaves a file to which the
rest of the pool can be written. -/
theorem Recoverable.step {files : Files} {append : Append Files}
    (hpool : Recoverable engine path pool (files.found path) contents opens written known)
    (hstops : Stops Pem.CleanStop append files path) {added : Addition Files}
    (hstep : AddStep append engine pool files batch added) :
    ∃ contents opens written known, Recoverable engine path added.pool (added.storage.found path)
      contents opens written known := by
  cases hstep with
  | refused hmem hfault hsame hstorage houtcome =>
    rw [hsame, hstorage]
    exact ⟨contents, opens, written, known, hpool⟩
  | unlisted hpublished hnothing hgrown hstorage houtcome =>
    have hempty : pool.queue ++ pool.fresh batch = [] :=
      hnothing.resolve_left (by rw [hpool.path]; exact nofun)
    obtain ⟨-, hfresh⟩ := List.append_eq_nil_iff.mp hempty
    have hcertificates : pool.certificates ++ pool.fresh batch = pool.certificates := by
      rw [hfresh, List.append_nil]
    have hsound := hpool.sound.grown hpublished
    rw [hgrown, hstorage]
    exact ⟨contents, opens, written, known, {
      sound := hsound
      path := hpool.path
      readable := hpool.readable
      awaits := hpool.awaits
      settled := hpool.settled
      queue := hpool.queue.trans (congrArg (List.drop written) hcertificates.symm)
      seeded := hpool.seeded.trans (congrArg (List.take known) hcertificates.symm)
      ahead := hpool.ahead
      bounded := Nat.le_trans hpool.bounded
        (Nat.le_of_eq (congrArg List.length hcertificates).symm) }⟩
  | @written _ path' hpublished hpath hqueue happend hgrown houtcome =>
    obtain rfl : path = path' := Option.some.inj (hpool.path.symm.trans hpath)
    obtain ⟨more, hmore⟩ := hpool.write hpublished hqueue (hstops.done _ _ happend)
    rw [hgrown]
    exact ⟨more, true, _, _, hmore⟩
  | @unwritten _ path' _ hpublished hpath hqueue happend hgrown houtcome =>
    obtain rfl : path = path' := Option.some.inj (hpool.path.symm.trans hpath)
    obtain ⟨more, later, next, hmore⟩ := hpool.stop hpublished hqueue (hstops.failed _ _ _ happend)
    rw [hgrown]
    exact ⟨more, later, written, next, hmore⟩

/-- **Run lemma.** -/
theorem StoppedRun.recoverable {first : Pool} {initial files : Files}
    (hrun : StoppedRun Pem.CleanStop engine path first initial pool files)
    (hfirst : Recoverable engine path first (initial.found path) contents opens written known) :
    ∃ contents opens written known, Recoverable engine path pool (files.found path) contents opens
      written known := by
  induction hrun with
  | start => exact ⟨contents, opens, written, known, hfirst⟩
  | add hrun hstops batch ih =>
    obtain ⟨more, later, next, last, hpool⟩ := ih
    exact hpool.step hstops hpool.sound.addStep
  | elsewhere hrun hother ih =>
    rw [hother]
    exact ih

end

section
variable {engine : Engine} {path : String} {first pool : Pool} {files after : Files}
  {contents : List Bytes} {opens : Bool} {written known : Nat} {options later : Options}

theorem mem_map_der {certificates : List Certificate} {certificate : Certificate}
    (hcertificates : certificates = contents.map Certificate.mk) :
    certificate.der ∈ contents ↔ certificate ∈ certificates := by
  rw [hcertificates, List.mem_map]
  constructor
  · exact fun hmem => ⟨_, hmem, rfl⟩
  · rintro ⟨der, hmem, rfl⟩
    exact hmem

/-- If nothing waits to be written, all certificates of the pool can be read, and nothing else. -/
theorem Recoverable.complete
    (hpool : Recoverable engine path pool (files.found path) contents opens written known)
    (hqueue : pool.queue = []) :
    Pem.certificates (Found.text (files.found path)) = .ok contents ∧
      extendUnique [] (contents.map Certificate.mk) = pool.certificates := by
  have hwritten : pool.certificates.length ≤ written := by
    have hlength := congrArg List.length (hqueue.symm.trans hpool.queue)
    rw [List.length_nil, List.length_drop] at hlength
    omega
  have hahead := hpool.ahead
  refine ⟨Pem.certificates_of_rests (hpool.settled hqueue), ?_⟩
  rw [hpool.seeded, List.take_of_length_le (by omega)]

/-- A new pool on such a file has the same certificates in the same order. -/
theorem Recoverable.restart
    (hpool : Recoverable engine path pool (files.found path) contents opens written known)
    (hqueue : pool.queue = []) (hlater : later.path = some path)
    (hknown : later.algorithm.check = .ok ()) :
    ∃ again, create engine files later = .ok again ∧ again.certificates = pool.certificates := by
  obtain ⟨hcontents, hall⟩ := hpool.complete hqueue
  have hanchors : ∀ certificate ∈ contents.map Certificate.mk,
      ∃ anchor, engine.anchor certificate = .ok anchor := by
    intro certificate hmem
    refine Base.anchor_of_ofStore hpool.sound.published ?_
    rw [← hall, mem_extendUnique]
    exact Or.inr hmem
  have hseed := seed_eq_ok.mpr ⟨hpool.readable, contents, hcontents, rfl⟩
  rw [← hlater] at hseed
  obtain ⟨again, hagain, hsame⟩ := create_of_seed hknown hseed hanchors
  exact ⟨again, hagain, hsame.trans hall⟩

/-- A pool on a file has the certificates that can be read from it. -/
theorem mem_certificates_of_create (hcreate : create engine files later = .ok pool)
    (hlater : later.path = some path) :
    ∃ ders, Pem.certificates (Found.text (files.found path)) = .ok ders ∧
      ∀ certificate, certificate ∈ pool.certificates ↔ certificate.der ∈ ders := by
  obtain ⟨-, -, -, seeded, hseed, hcertificates⟩ := of_create hcreate
  rw [hlater] at hseed
  obtain ⟨-, ders, hders, hmap⟩ := seed_eq_ok.mp hseed
  refine ⟨ders, hders, fun certificate => ?_⟩
  rw [hcertificates, mem_extendUnique, mem_map_der hmap]
  simp

/-- An addition that leaves something to write could not write its new certificates. -/
theorem AddStep.of_queued {append : Append Files} {batch : List Certificate}
    {added : Addition Files} (hstep : AddStep append engine pool files batch added)
    (hpath : pool.path = some path) (hbefore : pool.queue = []) (hafter : added.pool.queue ≠ []) :
    ∃ published fault,
      Base.ofStore engine ⟨pool.certificates ++ pool.fresh batch⟩ = .ok published ∧
      append files path (sections added.pool.queue) = (added.storage, .error fault) ∧
      added.pool =
        { pool.grown (pool.fresh batch) published with queue := pool.queue ++ pool.fresh batch } := by
  cases hstep with
  | refused hmem hfault hsame hstorage houtcome => exact absurd (hsame ▸ hbefore) hafter
  | unlisted hpublished hnothing hgrown hstorage houtcome =>
    exact absurd (hgrown ▸ hbefore) hafter
  | written hpublished hpath' hqueue happend hgrown houtcome => exact absurd (hgrown ▸ rfl) hafter
  | @unwritten _ path' fault hpublished hpath' hqueue happend hgrown houtcome =>
    obtain rfl : path = path' := Option.some.inj (hpath.symm.trans hpath')
    exact ⟨_, fault, hpublished, by rw [hgrown]; exact happend, hgrown⟩

/-- An addition that leaves nothing to write wrote everything. -/
theorem AddStep.of_emptied {append : Append Files} {batch : List Certificate}
    {added : Addition Files} (hstep : AddStep append engine pool files batch added)
    (hpath : pool.path = some path) (hbefore : pool.queue ≠ []) (hafter : added.pool.queue = []) :
    ∃ published,
      Base.ofStore engine ⟨pool.certificates ++ pool.fresh batch⟩ = .ok published ∧
      append files path (sections (pool.queue ++ pool.fresh batch)) = (added.storage, .ok ()) ∧
      added.pool = { pool.grown (pool.fresh batch) published with queue := [] } := by
  cases hstep with
  | refused hmem hfault hsame hstorage houtcome => exact absurd (hsame ▸ hafter) hbefore
  | unlisted hpublished hnothing hgrown hstorage houtcome =>
    rw [hgrown] at hafter
    exact absurd hafter hbefore
  | @written _ path' hpublished hpath' hqueue happend hgrown houtcome =>
    obtain rfl : path = path' := Option.some.inj (hpath.symm.trans hpath')
    exact ⟨_, hpublished, happend, hgrown⟩
  | unwritten hpublished hpath' hqueue happend hgrown houtcome =>
    rw [hgrown] at hafter
    exact absurd (List.append_eq_nil_iff.mp hafter).1 hbefore

/-- What a stop in the first section leaves in the file. -/
theorem Stopped.text_eq_of_lt {before later : Option Found} {count : Nat} {lost : Certificate}
    {rest : List Certificate} (hcount : count < (Pem.encode lost.der).length)
    (hstopped : Stopped (fun _ place => place = count) before later (lost :: rest)) :
    Found.text later = Found.text before ++ (Pem.encode lost.der).take count := by
  obtain ⟨place, rfl, ⟨rfl, rfl⟩ | rfl⟩ := hstopped
  · rw [List.take_zero, List.append_nil]
  · have htake : (sections (lost :: rest)).take place = (Pem.encode lost.der).take place := by
      rw [sections, List.flatMap_cons, List.take_append_of_le_length (Nat.le_of_lt hcount)]
    rw [htake]
    rfl

/-- A certificate whose section was cut at any other place is not in a new pool on the file. -/
theorem Recoverable.lost_behind_stop {again : Pool} {other : Files} {count : Nat}
    {lost : Certificate} {rest : List Certificate}
    (hpool : Recoverable engine path pool (files.found path) contents opens written known)
    (hqueue : pool.queue = []) (hbefore : lost ∉ pool.certificates) (hrest : lost ∉ rest)
    (hcount : count < (Pem.encode lost.der).length)
    (hspoiled : ¬ (count = 0 ∨ count = Pem.firstLine.length ∨
      (Pem.encode lost.der).length ≤ count + Pem.slack))
    (htext : Found.text (other.found path) = Found.text (files.found path) ++
      ((Pem.encode lost.der).take count ++ sections (lost :: rest)))
    (hagain : create engine other later = .ok again) (hlater : later.path = some path) :
    lost ∉ again.certificates := by
  obtain ⟨ders, hders, hread⟩ := mem_certificates_of_create hagain hlater
  obtain ⟨-, hsame⟩ := hpool.complete hqueue
  have hcontents : lost.der ∉ contents := by
    rw [mem_map_der rfl]
    intro hmem
    rw [← hsame, mem_extendUnique] at hbefore
    exact hbefore (Or.inr hmem)
  have hothers : lost.der ∉ rest.map Certificate.der := fun hmem =>
    hrest ((mem_map_der (map_mk_der _).symm).mp hmem)
  rw [htext, sections_eq] at hders
  rw [hread]
  exact Pem.lost_behind_stop (hpool.settled hqueue) hcontents hothers hcount hspoiled hders

/-- A single stop in the first section is harmless exactly at a clean place. -/
theorem Recoverable.restart_iff {append retry : Append Files} {batch next : List Certificate}
    {stopped retried : Addition Files} {count : Nat} {lost : Certificate} {rest : List Certificate}
    (hpool : Recoverable engine path pool (files.found path) contents opens written known)
    (hqueue : pool.queue = [])
    (hstops : Stops (fun _ place => place = count) append files path)
    (hstopped : AddStep append engine pool files batch stopped)
    (hlost : stopped.pool.queue = lost :: rest) (hcount : count < (Pem.encode lost.der).length)
    (hretry : Stops (fun _ _ => True) retry stopped.storage path)
    (hretried : AddStep retry engine stopped.pool stopped.storage next retried)
    (hdone : retried.pool.queue = []) (hlater : later.path = some path)
    (hknown : later.algorithm.check = .ok ()) :
    (∃ again, create engine retried.storage later = .ok again ∧
      ∀ certificate ∈ retried.pool.certificates, certificate ∈ again.certificates) ↔
    count = 0 ∨ count = Pem.firstLine.length ∨
      (Pem.encode lost.der).length ≤ count + Pem.slack := by
  have hnonempty : stopped.pool.queue ≠ [] := hlost ▸ List.cons_ne_nil _ _
  obtain ⟨published, fault, hpublished, hfailed, hstoppedPool⟩ :=
    hstopped.of_queued hpool.path hqueue hnonempty
  have hnew : pool.queue ++ pool.fresh batch = lost :: rest := by
    rw [hstoppedPool] at hlost
    exact hlost
  have hstoppedPath : stopped.pool.path = some path := by
    rw [hstoppedPool]
    exact hpool.path
  obtain ⟨republished, hrepublished, hwritten, hretriedPool⟩ :=
    hretried.of_emptied hstoppedPath hnonempty hdone
  have hplace := hstops.failed _ _ _ hfailed
  have hwhole := hretry.done _ _ hwritten
  rw [hlost] at hplace hwhole
  constructor
  · rintro ⟨again, hagain, hall⟩
    by_contra hspoiled
    have hgrown : stopped.pool.certificates = pool.certificates ++ pool.fresh batch := by
      rw [hstoppedPool, grown]
    have hfresh : pool.fresh batch = lost :: rest := by rwa [hqueue, List.nil_append] at hnew
    have hnodup : (pool.certificates ++ (lost :: (rest ++ stopped.pool.fresh next))).Nodup := by
      have hsound := hstopped.sound hpool.sound
      have hall := @append_fresh_nodup stopped.pool next hsound.nodup
      rwa [hgrown, hfresh, List.append_assoc, List.cons_append] at hall
    obtain ⟨-, hqueued, hapart⟩ := List.nodup_append.mp hnodup
    have hbefore : lost ∉ pool.certificates := fun hmem =>
      hapart lost hmem lost List.mem_cons_self rfl
    have hmember : lost ∈ retried.pool.certificates := by
      rw [hretriedPool, grown, hgrown, hfresh]
      simp
    have htext : Found.text (retried.storage.found path) = Found.text (files.found path) ++
        ((Pem.encode lost.der).take count ++
          sections (lost :: (rest ++ stopped.pool.fresh next))) := by
      rw [hwhole, Found.text_append, hplace.text_eq_of_lt hcount]
      exact List.append_assoc ..
    exact hpool.lost_behind_stop hqueue hbefore (List.nodup_cons.mp hqueued).1 hcount hspoiled htext
      hagain hlater (hall lost hmember)
  · intro hclean
    have hcleanStop : Stopped Pem.CleanStop (files.found path) (stopped.storage.found path)
        (pool.queue ++ pool.fresh batch) := by
      obtain ⟨place, rfl, hfound⟩ := hplace
      rw [hnew]
      exact ⟨place, (Pem.cleanStop_iff hcount).mpr hclean, hfound⟩
    obtain ⟨more, opened, read, hmore⟩ :=
      hpool.stop hpublished (hnew ▸ List.cons_ne_nil _ _) hcleanStop
    rw [← hstoppedPool] at hmore
    obtain ⟨all, hall⟩ := hmore.write hrepublished
      (List.append_ne_nil_of_left_ne_nil hnonempty _) (hlost ▸ hwhole)
    rw [← hretriedPool] at hall
    obtain ⟨again, hagain, hsame⟩ := hall.restart hdone hlater hknown
    exact ⟨again, hagain, fun certificate hmem => hsame ▸ hmem⟩

/-- **Stopped writes.** Let a pool start from a file that is absent or ends its last line, and let
every write that fails stop at a clean place. Whenever nothing waits to be written, the file can be
read, it has the certificates of the pool and no others, and a new pool on it has them in the same
order. If then one write stops in its first section and the next one succeeds, a new pool on the
file has all certificates exactly if the stop was at a clean place. -/
theorem restart_behind_clean_stops (hcreate : create engine files options = .ok first)
    (hpath : options.path = some path)
    (hterminated : Pem.IsTerminated (Found.text (files.found path)))
    (hrun : StoppedRun Pem.CleanStop engine path first files pool after) (hqueue : pool.queue = [])
    (hlater : later.path = some path) (hknown : later.algorithm.check = .ok ()) :
    (∃ ders again, Pem.certificates (Found.text (after.found path)) = .ok ders ∧
      (∀ certificate : Certificate, certificate.der ∈ ders ↔ certificate ∈ pool.certificates) ∧
      create engine after later = .ok again ∧ again.certificates = pool.certificates) ∧
    ∀ (append retry : Append Files) (batch next : List Certificate) (count : Nat)
      (lost : Certificate) (rest : List Certificate),
      Stops (fun _ place => place = count) append after path →
      let stopped := pool.add append engine after batch
      stopped.pool.queue = lost :: rest → count < (Pem.encode lost.der).length →
      Stops (fun _ _ => True) retry stopped.storage path →
      let retried := stopped.pool.add retry engine stopped.storage next
      retried.pool.queue = [] →
      ((∃ again, create engine retried.storage later = .ok again ∧
        ∀ certificate ∈ retried.pool.certificates, certificate ∈ again.certificates) ↔
      count = 0 ∨ count = Pem.firstLine.length ∨
        (Pem.encode lost.der).length ≤ count + Pem.slack) := by
  obtain ⟨seeded, hfirst⟩ := recoverable_of_create hcreate hpath hterminated
  obtain ⟨contents, opens, written, known, hpool⟩ := hrun.recoverable hfirst
  constructor
  · obtain ⟨hcontents, hsame⟩ := hpool.complete hqueue
    obtain ⟨again, hagain, hcertificates⟩ := hpool.restart hqueue hlater hknown
    refine ⟨contents, again, hcontents, fun certificate => ?_, hagain, hcertificates⟩
    rw [← hsame, mem_extendUnique, mem_map_der rfl]
    simp
  · intro append retry batch next count lost rest hstops stopped hlost hcount hretry retried hdone
    have hstopped : AddStep append engine pool after batch stopped := hpool.sound.addStep
    have hsound := hstopped.sound hpool.sound
    exact hpool.restart_iff hqueue hstops hstopped hlost hcount hretry hsound.addStep hdone hlater
      hknown

end

/-- Appending to the pool file that stops after a number of characters. -/
def appendStopping (count : Nat) : Append Files := fun files path added =>
  (poolFile (Found.text (files.found path) ++ added.take count), .error .notPermitted)

theorem found_appendStopping (added : Bytes) :
    (poolFile (Found.text (Files.empty.found "p") ++ added)).found "p" =
      Found.append (Files.empty.found "p") added := by
  have hfound : Files.empty.found "p" = none := by rfl
  rw [found_poolFile, hfound]
  rfl

theorem appendStopping_stops (count : Nat) :
    Stops (fun _ place => place = count) (appendStopping count) .empty "p" where
  failed written after fault happend := by
    cases happend
    exact ⟨count, rfl, Or.inr (found_appendStopping _)⟩
  done written after happend := by cases happend

/-- Stopping right behind the first line, or after nothing if nothing is written. -/
theorem appendStopping_firstLine_stops :
    Stops Pem.CleanStop (appendStopping Pem.firstLine.length) .empty "p" where
  failed written after fault happend := by
    cases happend
    cases written with
    | nil => exact ⟨0, .before _, Or.inr (found_appendStopping _)⟩
    | cons first rest => exact ⟨_, .opened _ _, Or.inr (found_appendStopping _)⟩
  done written after happend := by cases happend

theorem Stops.of_isWhole {allowed : List Bytes → Nat → Prop} {append : Append Files}
    {files : Files} {path : String} (happend : IsWhole append files path)
    (hallowed : ∀ ders, allowed ders 0) : Stops allowed append files path where
  failed _ _ _ hfailed := ⟨0, hallowed _, Or.inl ⟨rfl, happend.failed _ _ _ hfailed⟩⟩
  done _ _ hdone := happend.done _ _ hdone

/-- The addition of a first certificate, of whose section only `count` characters are written. -/
def stoppedAddition (count : Nat) : Addition Files :=
  emptyPool.add (appendStopping count) contentsEngine .empty [⟨[1]⟩]

/-- An addition behind it, which is written. -/
def retriedAddition (count : Nat) (next : List Certificate) : Addition Files :=
  (stoppedAddition count).pool.add Files.append contentsEngine (stoppedAddition count).storage next

theorem stoppedAddition_storage (count : Nat) :
    (stoppedAddition count).storage = poolFile ((sections [⟨[1]⟩]).take count) := by
  have hfound : Files.empty.found "p" = none := by rfl
  have hstorage : (stoppedAddition count).storage =
      poolFile (Found.text (Files.empty.found "p") ++ (sections [⟨[1]⟩]).take count) := rfl
  rw [hstorage, hfound]
  rfl

theorem retriedAddition_eq (count : Nat) (next : List Certificate) :
    retriedAddition count next = waitingPool.add Files.append contentsEngine
      (poolFile ((sections [⟨[1]⟩]).take count)) next := by
  rw [retriedAddition, stoppedAddition_storage]
  rfl

theorem append_isWhole_stoppedAddition (count : Nat) :
    IsWhole Files.append (stoppedAddition count).storage "p" := by
  rw [stoppedAddition_storage]
  exact append_isWhole (poolFile_isTree _) poolFile_isDownward

/-- After a stop behind the first line, the certificate is there again after the next addition. -/
theorem restart_behind_first_line : ∃ pool after again,
    create contentsEngine .empty .onPoolFile = .ok emptyPool ∧
    StoppedRun Pem.CleanStop contentsEngine "p" emptyPool .empty pool after ∧
    pool.certificates = [⟨[1]⟩, ⟨[2]⟩] ∧ pool.queue = [] ∧
    create contentsEngine after .onPoolFile = .ok again ∧
    again.certificates = [⟨[1]⟩, ⟨[2]⟩] := by
  have hcreate : create contentsEngine .empty .onPoolFile = .ok emptyPool := by rfl
  have hterminated : Pem.IsTerminated (Found.text (Files.empty.found "p")) := by
    have hfound : Files.empty.found "p" = none := by rfl
    rw [hfound]
    exact Pem.isTerminated_nil
  have hstopped : StoppedRun Pem.CleanStop contentsEngine "p" emptyPool .empty
      (stoppedAddition Pem.firstLine.length).pool (stoppedAddition Pem.firstLine.length).storage :=
    StoppedRun.start.add appendStopping_firstLine_stops [⟨[1]⟩]
  have hretried : StoppedRun Pem.CleanStop contentsEngine "p" emptyPool .empty
      (retriedAddition Pem.firstLine.length [⟨[2]⟩]).pool
      (retriedAddition Pem.firstLine.length [⟨[2]⟩]).storage :=
    hstopped.add (.of_isWhole (append_isWhole_stoppedAddition _) .before) [⟨[2]⟩]
  have hcertificates : (retriedAddition Pem.firstLine.length [⟨[2]⟩]).pool.certificates =
      [⟨[1]⟩, ⟨[2]⟩] := by
    rw [retriedAddition_eq]
    rfl
  have hqueue : (retriedAddition Pem.firstLine.length [⟨[2]⟩]).pool.queue = [] := by
    rw [retriedAddition_eq]
    rfl
  have hpath : Options.onPoolFile.path = some "p" := rfl
  obtain ⟨⟨ders, again, -, -, hagain, hsame⟩, -⟩ :=
    restart_behind_clean_stops hcreate hpath hterminated hretried hqueue hpath rfl
  exact ⟨_, _, again, hcreate, hretried, hcertificates, hqueue, hagain, hsame.trans hcertificates⟩

/-- After a stop in the middle of the contents, the next addition succeeds, and then the file cannot
be read any more. -/
theorem exists_stop_spoiling : ∃ stopped retried : Addition Files,
    create contentsEngine .empty .onPoolFile = .ok emptyPool ∧
    StoppedRun (fun _ _ => True) contentsEngine "p" emptyPool .empty stopped.pool stopped.storage ∧
    retried = stopped.pool.add Files.append contentsEngine stopped.storage [] ∧
    IsWhole Files.append stopped.storage "p" ∧ retried.outcome = .ok 0 ∧
    retried.pool.certificates = [⟨[1]⟩] ∧ retried.pool.queue = [] ∧
    Pem.certificates (Found.text (retried.storage.found "p")) =
      .error (.contents (.invalidCharacter 0x2D)) ∧
    create contentsEngine retried.storage .onPoolFile =
      .error (.configuration (.malformedPool "p" (.contents (.invalidCharacter 0x2D)))) := by
  have hcreate : create contentsEngine .empty .onPoolFile = .ok emptyPool := by rfl
  have hstops : Stops (fun _ _ => True) (appendStopping 30) .empty "p" :=
    ⟨fun written after fault happend => by
      obtain ⟨count, -, hfound⟩ := (appendStopping_stops 30).failed written after fault happend
      exact ⟨count, trivial, hfound⟩,
    (appendStopping_stops 30).done⟩
  have hstorage : (retriedAddition 30 []).storage =
      poolFile ((sections [⟨[1]⟩]).take 30 ++ sections [⟨[1]⟩]) := by
    rw [retriedAddition_eq]
    rfl
  refine ⟨stoppedAddition 30, retriedAddition 30 [], hcreate, StoppedRun.start.add hstops [⟨[1]⟩],
    rfl, append_isWhole_stoppedAddition 30, ?_, ?_, ?_, ?_, ?_⟩
  · rw [retriedAddition_eq]
    rfl
  · rw [retriedAddition_eq]
    rfl
  · rw [retriedAddition_eq]
    rfl
  · rw [hstorage, sections_one, found_poolFile]
    rfl
  · rw [hstorage, sections_one]
    rfl

end PeerTrust.Pool
