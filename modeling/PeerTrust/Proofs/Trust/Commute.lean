import Mathlib.Algebra.GroupWithZero.Nat
import PeerTrust.Proofs.Trust.Retry

/-!
# Additions in any order

Additions to a pool come one after the other, in an order that nobody controls. What a single one of
them finds new depends on those before it, and so does whether a new validator is made at all. Yet
the order makes no difference in the end: an addition succeeds exactly if all certificates of its
batch are anchors, and the pool has taken up the batches of those that succeeded. All this is for
pools without a file, and for pools whose file can be written each time.
-/

namespace PeerTrust.Pool

/-- An addition that was made, and what came of it. -/
structure Call where
  batch : List Certificate
  outcome : Except TrustError Nat

namespace Call

/-- Whether an addition succeeded. -/
def Succeeds (call : Call) : Prop := ∃ count, call.outcome = .ok count

/-- The number of certificates that an addition took up; none, if it failed. -/
def count (call : Call) : Nat := call.outcome.toOption.getD 0

end Call

section
variable {Storage : Type}

/-- Additions one after the other. Each time, the file of the pool can be written, if it has one. -/
inductive WrittenRun (engine : Engine) (text : Storage → Bytes) (first : Pool) (initial : Storage) :
    List Call → Pool → Storage → Prop
  | start : WrittenRun engine text first initial [] first initial
  | add {calls : List Call} {pool : Pool} {storage : Storage}
      (hrun : WrittenRun engine text first initial calls pool storage) {append : Append Storage}
      (hwrites : ∀ path ∈ pool.path, Writes append path text storage) (batch : List Certificate) :
      WrittenRun engine text first initial
        (calls ++ [⟨batch, (pool.add append engine storage batch).outcome⟩])
        (pool.add append engine storage batch).pool (pool.add append engine storage batch).storage

/-- What additions come to altogether: `added` are the certificates that they took up. -/
structure TakesUp (engine : Engine) (text : Storage → Bytes) (first : Pool) (initial : Storage)
    (calls : List Call) (pool : Pool) (storage : Storage) (added : List Certificate) : Prop where
  sound : pool.Sound engine
  path : pool.path = first.path
  certificates : pool.certificates = first.certificates ++ added
  succeeds_iff : ∀ call ∈ calls, call.Succeeds ↔ AllAnchors engine call.batch
  mem_iff : ∀ certificate, certificate ∈ pool.certificates ↔
    certificate ∈ first.certificates ∨ ∃ call ∈ calls, call.Succeeds ∧ certificate ∈ call.batch
  count : added.length = (calls.map Call.count).sum
  /-- Certificates that were not in the file at first come there before those that were taken up. -/
  stored : ∀ path ∈ first.path, ∃ written,
    text storage = text initial ++ sections written ∧
    written ++ pool.queue = first.queue ++ added ∧ (first.queue = [] → pool.queue = [])

variable {text : Storage → Bytes} {engine : Engine} {first pool : Pool} {initial storage : Storage}
  {calls : List Call} {added : List Certificate}

theorem takesUp_nothing (hsound : first.Sound engine) :
    TakesUp engine text first initial [] first initial [] where
  sound := hsound
  path := rfl
  certificates := (List.append_nil _).symm
  succeeds_iff := List.forall_mem_nil _
  mem_iff certificate := by simp
  count := rfl
  stored path hpath := ⟨[], (List.append_nil _).symm, (List.append_nil _).symm, id⟩

/-- Whether a certificate was in a pool or came to it by an addition. -/
theorem mem_append_fresh {batch : List Certificate} {certificate : Certificate} :
    certificate ∈ pool.certificates ++ pool.fresh batch ↔
      certificate ∈ pool.certificates ∨ certificate ∈ batch := by
  rw [List.mem_append, fresh_isNewIn.mem_iff]
  by_cases hknown : certificate ∈ pool.certificates
  · simp [hknown]
  · simp [hknown]

/-- A batch with a certificate that is no anchor is not taken up, and nothing else happens. -/
theorem TakesUp.refused (htakes : TakesUp engine text first initial calls pool storage added)
    {call : Call} {error : TrustError} (hnot : ¬ AllAnchors engine call.batch)
    (houtcome : call.outcome = .error error) :
    TakesUp engine text first initial (calls ++ [call]) pool storage added := by
  have hfailed : ¬ call.Succeeds := by
    rintro ⟨count, hcount⟩
    rw [houtcome] at hcount
    cases hcount
  have hnone : call.count = 0 := by
    rw [Call.count, houtcome]
    rfl
  refine { htakes with succeeds_iff := ?_, mem_iff := ?_, count := ?_ }
  · rw [List.forall_mem_append, List.forall_mem_singleton]
    exact ⟨htakes.succeeds_iff, iff_of_false hfailed hnot⟩
  · intro certificate
    rw [htakes.mem_iff]
    simp [or_and_right, exists_or, hfailed]
  · simp [htakes.count, hnone]

/-- Of a batch of anchors the pool takes up what is new. What waited is written ahead of it. -/
theorem TakesUp.taken (htakes : TakesUp engine text first initial calls pool storage added)
    {call : Call} {next : Pool} {later : Storage} (hall : AllAnchors engine call.batch)
    (hsound : next.Sound engine) (hpath : next.path = pool.path)
    (hcertificates : next.certificates = pool.certificates ++ pool.fresh call.batch)
    (hstored : ∀ path ∈ pool.path, next.queue = [] ∧
      text later = text storage ++ sections (pool.queue ++ pool.fresh call.batch))
    (houtcome : call.outcome = .ok (pool.fresh call.batch).length) :
    TakesUp engine text first initial (calls ++ [call]) next later
      (added ++ pool.fresh call.batch) := by
  have hdone : call.Succeeds := ⟨_, houtcome⟩
  have hcount : call.count = (pool.fresh call.batch).length := by
    rw [Call.count, houtcome]
    rfl
  refine ⟨hsound, hpath.trans htakes.path, ?_, ?_, ?_, ?_, ?_⟩
  · rw [hcertificates, htakes.certificates, List.append_assoc]
  · rw [List.forall_mem_append, List.forall_mem_singleton]
    exact ⟨htakes.succeeds_iff, iff_of_true hdone hall⟩
  · intro certificate
    rw [hcertificates, mem_append_fresh, htakes.mem_iff, or_assoc]
    simp [or_and_right, exists_or, hdone]
  · simp [htakes.count, hcount]
  · intro path hfile
    obtain ⟨written, htext, hqueue, -⟩ := htakes.stored path hfile
    have hsame : path ∈ pool.path := by rwa [htakes.path]
    obtain ⟨hempty, hlater⟩ := hstored path hsame
    refine ⟨written ++ (pool.queue ++ pool.fresh call.batch), ?_, ?_, fun _ => hempty⟩
    · rw [hlater, htext, List.append_assoc, ← sections_append]
    · rw [hempty, List.append_nil, ← List.append_assoc, hqueue, List.append_assoc]

/-- **Step lemma.** One more addition takes up what is new in its batch, or nothing at all. -/
theorem TakesUp.step (htakes : TakesUp engine text first initial calls pool storage added)
    {append : Append Storage} (hwrites : ∀ path ∈ pool.path, Writes append path text storage)
    (batch : List Certificate) :
    let next := pool.add append engine storage batch
    ∃ more, TakesUp engine text first initial (calls ++ [⟨batch, next.outcome⟩]) next.pool
      next.storage (added ++ more) := by
  intro next
  have hadded : AddStep append engine pool storage batch next := htakes.sound.addStep
  cases hadded.writeStep hwrites with
  | refused hnot hpool hstorage houtcome =>
    refine ⟨[], ?_⟩
    rw [hpool, hstorage, List.append_nil]
    exact htakes.refused hnot houtcome
  | taken hall hcertificates hstored houtcome =>
    exact ⟨pool.fresh batch, htakes.taken hall (hadded.sound htakes.sound) hadded.path_eq
      hcertificates hstored houtcome⟩

/-- **Run lemma.** Additions one after the other take up what is new in the batches that succeed. -/
theorem WrittenRun.takesUp (hrun : WrittenRun engine text first initial calls pool storage)
    (hsound : first.Sound engine) :
    ∃ added, TakesUp engine text first initial calls pool storage added := by
  induction hrun with
  | start => exact ⟨[], takesUp_nothing hsound⟩
  | add hrun hwrites batch ih =>
    obtain ⟨added, htakes⟩ := ih
    obtain ⟨more, hnext⟩ := htakes.step hwrites batch
    exact ⟨added ++ more, hnext⟩

/-- The batches that succeed are the same in every order. -/
theorem TakesUp.exists_iff (htakes : TakesUp engine text first initial calls pool storage added)
    {certificate : Certificate} :
    (∃ call ∈ calls, call.Succeeds ∧ certificate ∈ call.batch) ↔
      ∃ batch ∈ calls.map Call.batch, AllAnchors engine batch ∧ certificate ∈ batch := by
  constructor
  · rintro ⟨call, hcall, hdone, hmem⟩
    exact ⟨call.batch, List.mem_map_of_mem hcall, (htakes.succeeds_iff call hcall).mp hdone, hmem⟩
  · rintro ⟨batch, hbatch, hall, hmem⟩
    obtain ⟨call, hcall, rfl⟩ := List.mem_map.mp hbatch
    exact ⟨call, hcall, (htakes.succeeds_iff call hcall).mpr hall, hmem⟩

/-- Two runs with the same batches in different orders take up the same certificates. -/
theorem TakesUp.perm (htakes : TakesUp engine text first initial calls pool storage added)
    {others : List Call} {otherPool : Pool} {otherInitial otherStorage : Storage}
    {otherAdded : List Certificate}
    (hother : TakesUp engine text first otherInitial others otherPool otherStorage otherAdded)
    (hbatches : (calls.map Call.batch).Perm (others.map Call.batch)) :
    pool.certificates.Perm otherPool.certificates := by
  rw [List.perm_ext_iff_of_nodup htakes.sound.nodup hother.sound.nodup]
  intro certificate
  simp only [htakes.mem_iff, hother.mem_iff, htakes.exists_iff, hother.exists_iff, hbatches.mem_iff]

/-- **Any order.** Let batches be added to a pool one after the other, whatever happened to the pool
before, and let the file be writable each time. An addition succeeds exactly if all certificates of
its batch are anchors. In the end the pool has, each once, its certificates from before and those of
the batches that succeeded; these are its issuers, and the counts that the additions gave make up
its growth. The text of its file has grown by the certificates that were taken up, in this order and
each once, and ahead of them by those that waited. With the same batches in another order the pool
comes to have the same certificates and the same issuers. -/
theorem additions_in_any_order {files : Files} {options : Options} {made : Pool}
    (hcreate : create engine files options = .ok made) (hgrows : GrowsTo engine made first)
    (hrun : WrittenRun engine text first initial calls pool storage) :
    (∀ call ∈ calls, call.Succeeds ↔ AllAnchors engine call.batch) ∧
    (∀ certificate, certificate ∈ pool.certificates ↔ certificate ∈ first.certificates ∨
      ∃ call ∈ calls, call.Succeeds ∧ certificate ∈ call.batch) ∧
    pool.certificates.Nodup ∧
    (∀ number, (pool.snapshot number).issuers = pool.certificates) ∧
    pool.certificates.length = first.certificates.length + (calls.map Call.count).sum ∧
    (∃ added, pool.certificates = first.certificates ++ added ∧
      ∀ path ∈ first.path, ∃ written, text storage = text initial ++ sections written ∧
        written ++ pool.queue = first.queue ++ added ∧ (first.queue = [] → pool.queue = [])) ∧
    ∀ (otherInitial otherStorage : Storage) (others : List Call) (otherPool : Pool),
      WrittenRun engine text first otherInitial others otherPool otherStorage →
      (calls.map Call.batch).Perm (others.map Call.batch) →
      pool.certificates.Perm otherPool.certificates ∧
        ∀ number, (pool.snapshot number).issuers.Perm (otherPool.snapshot number).issuers := by
  obtain ⟨hsound, -⟩ := hgrows.sound (of_create hcreate).1
  obtain ⟨added, htakes⟩ := hrun.takesUp hsound
  refine ⟨htakes.succeeds_iff, htakes.mem_iff, htakes.sound.nodup,
    fun _ => htakes.sound.issuers_eq, ?_, ⟨added, htakes.certificates, htakes.stored⟩, ?_⟩
  · rw [htakes.certificates, List.length_append, htakes.count]
  · intro otherInitial otherStorage others otherPool hother hbatches
    obtain ⟨otherAdded, hotherTakes⟩ := hother.takesUp hsound
    have hperm := htakes.perm hotherTakes hbatches
    refine ⟨hperm, fun number => ?_⟩
    have hissuers : (pool.snapshot number).issuers = pool.certificates := htakes.sound.issuers_eq
    have hotherIssuers : (otherPool.snapshot number).issuers = otherPool.certificates :=
      hotherTakes.sound.issuers_eq
    rwa [hissuers, hotherIssuers]

end

theorem append_poolFile (text added : Bytes) :
    Files.append (poolFile text) "p" added = (poolFile (text ++ added), .ok ()) := by
  rfl

/-- An addition leaves a single file. -/
theorem AddStep.exists_poolFile {pool : Pool} {contents : Bytes} {batch : List Certificate}
    {added : Addition Files}
    (hstep : AddStep Files.append contentsEngine pool (poolFile contents) batch added)
    (hpath : pool.path = some "p") : ∃ later, added.storage = poolFile later := by
  cases hstep with
  | refused _ _ _ hsame => exact ⟨contents, hsame⟩
  | unlisted _ _ _ hsame => exact ⟨contents, hsame⟩
  | written _ hthere _ happend =>
    cases hpath.symm.trans hthere
    rw [append_poolFile] at happend
    exact ⟨_, (congrArg Prod.fst happend).symm⟩
  | unwritten _ hthere _ happend =>
    cases hpath.symm.trans hthere
    rw [append_poolFile] at happend
    cases congrArg Prod.snd happend

/-- All kinds of batches can be added to a pool with a file. -/
theorem exists_writtenRun (batches : List (List Certificate)) : ∃ calls pool contents,
    WrittenRun contentsEngine (fun files => Found.text (files.found "p")) emptyPool (poolFile [])
      calls pool (poolFile contents) ∧
    pool.path = some "p" ∧ pool.Sound contentsEngine ∧ calls.map Call.batch = batches := by
  induction batches using List.reverseRecOn with
  | nil =>
    have hcreate : create contentsEngine (poolFile []) .onPoolFile = .ok emptyPool := by rfl
    exact ⟨[], emptyPool, [], .start, rfl, (of_create hcreate).1, rfl⟩
  | append_singleton batches batch ih =>
    obtain ⟨calls, pool, contents, hrun, hpath, hsound, hbatches⟩ := ih
    have hwrites : ∀ path ∈ pool.path, Writes Files.append path
        (fun files => Found.text (files.found "p")) (poolFile contents) := by
      intro path hfile
      rw [hpath] at hfile
      cases hfile
      exact poolFile_writes contents
    have hadded : AddStep Files.append contentsEngine pool (poolFile contents) batch
        (pool.add Files.append contentsEngine (poolFile contents) batch) := hsound.addStep
    obtain ⟨later, hlater⟩ := hadded.exists_poolFile hpath
    have hnext := hrun.add hwrites batch
    rw [hlater] at hnext
    refine ⟨_, _, later, hnext, hadded.path_eq.trans hpath, hadded.sound hsound, ?_⟩
    simp [hbatches]

/-- Batches that overlap, and one that is refused, in two orders. -/
theorem additions_in_any_order_overlapping : ∃ calls others pool otherPool files otherFiles,
    let text := fun files : Files => Found.text (files.found "p")
    WrittenRun contentsEngine text emptyPool (poolFile []) calls pool files ∧
    WrittenRun contentsEngine text emptyPool (poolFile []) others otherPool otherFiles ∧
    calls.map Call.batch = [[⟨[1]⟩, ⟨[2]⟩, ⟨[1]⟩], [⟨[3]⟩, ⟨[]⟩], [⟨[2]⟩, ⟨[4]⟩]] ∧
    others.map Call.batch = [[⟨[2]⟩, ⟨[4]⟩], [⟨[1]⟩, ⟨[2]⟩, ⟨[1]⟩], [⟨[3]⟩, ⟨[]⟩]] ∧
    pool.certificates.Perm otherPool.certificates := by
  have hcreate : create contentsEngine (poolFile []) .onPoolFile = .ok emptyPool := by rfl
  obtain ⟨calls, pool, contents, hrun, -, -, hbatches⟩ :=
    exists_writtenRun [[⟨[1]⟩, ⟨[2]⟩, ⟨[1]⟩], [⟨[3]⟩, ⟨[]⟩], [⟨[2]⟩, ⟨[4]⟩]]
  obtain ⟨others, otherPool, otherContents, hother, -, -, hotherBatches⟩ :=
    exists_writtenRun [[⟨[2]⟩, ⟨[4]⟩], [⟨[1]⟩, ⟨[2]⟩, ⟨[1]⟩], [⟨[3]⟩, ⟨[]⟩]]
  obtain ⟨-, -, -, -, -, -, hperm⟩ := additions_in_any_order hcreate .start hrun
  have hsame : (calls.map Call.batch).Perm (others.map Call.batch) := by
    rw [hbatches, hotherBatches]
    decide
  exact ⟨calls, others, pool, otherPool, _, _, hrun, hother, hbatches, hotherBatches,
    (hperm _ _ _ _ hother hsame).1⟩

end PeerTrust.Pool
