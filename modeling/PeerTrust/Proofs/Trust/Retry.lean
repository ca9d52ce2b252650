import PeerTrust.Proofs.Trust.Journal

/-!
# Writing what waits

A certificate that could not be written waits in the queue of its pool. The next addition writes it,
ahead of everything that is new, if it comes to the file at all. It does not if one of its own
certificates is no anchor: the addition is then refused before anything is written, and the queue
waits on.
-/

namespace PeerTrust

/-- All certificates of a batch are anchors. -/
def AllAnchors (engine : Engine) (batch : List Certificate) : Prop :=
  ∀ certificate ∈ batch, ∃ anchor, engine.anchor certificate = .ok anchor

namespace Pool

section
variable {Storage : Type}

/-- A path leads to a file that can be opened and written: whatever is appended then stands at the
end of its text. -/
def Writes (append : Append Storage) (path : String) (text : Storage → Bytes) (storage : Storage) :
    Prop :=
  ∀ added, ∃ after, append storage path added = (after, .ok ()) ∧
    text after = text storage ++ added

/-- What an addition can come to where the file of the pool can be written. -/
inductive WriteStep (engine : Engine) (text : Storage → Bytes) (pool : Pool) (storage : Storage)
    (batch : List Certificate) (added : Addition Storage) : Prop
  /-- A certificate is no anchor, and nothing happens. -/
  | refused {fault : TlsFault} (hnot : ¬ AllAnchors engine batch) (hpool : added.pool = pool)
      (hstorage : added.storage = storage)
      (houtcome : added.outcome = .error (.configuration (.unusableAnchor fault)))
  /-- Everything that waits and everything that is new is written. -/
  | taken (hall : AllAnchors engine batch)
      (hcertificates : added.pool.certificates = pool.certificates ++ pool.fresh batch)
      (hstored : ∀ path ∈ pool.path, added.pool.queue = [] ∧
        text added.storage = text storage ++ sections (pool.queue ++ pool.fresh batch))
      (houtcome : added.outcome = .ok (pool.fresh batch).length)

variable {append : Append Storage} {text : Storage → Bytes} {engine : Engine}
  {first pool : Pool} {storage : Storage} {batch : List Certificate} {added : Addition Storage}

/-- **Step lemma.** Where the file can be written, nothing is left waiting unless the addition is
refused. -/
theorem AddStep.writeStep (hstep : AddStep append engine pool storage batch added)
    (hwrites : ∀ path ∈ pool.path, Writes append path text storage) :
    WriteStep engine text pool storage batch added := by
  cases hstep with
  | refused hmem hfault hpool hstorage houtcome =>
    refine .refused (fun hall => ?_) hpool hstorage houtcome
    obtain ⟨anchor, hanchor⟩ := hall _ hmem
    rw [hanchor] at hfault
    cases hfault
  | unlisted hpublished hnothing hpool hstorage houtcome =>
    refine .taken (anchor_of_mem_batch hpublished) (by rw [hpool, grown]) ?_ houtcome
    intro path hpath
    have hsome : pool.path ≠ none := Option.ne_none_iff_exists'.mpr ⟨path, hpath⟩
    have hempty : pool.queue ++ pool.fresh batch = [] := hnothing.resolve_left hsome
    have hqueue : added.pool.queue = pool.queue := by rw [hpool, grown]
    rw [hqueue, hstorage, hempty]
    exact ⟨(List.append_eq_nil_iff.mp hempty).1, (List.append_nil _).symm⟩
  | written hpublished hpath hqueue happend hpool houtcome =>
    refine .taken (anchor_of_mem_batch hpublished) (by rw [hpool, grown]) ?_ houtcome
    intro path hsame
    obtain ⟨after, hafter, htext⟩ := hwrites path hsame (sections (pool.queue ++ pool.fresh batch))
    have hthere : some path = some _ := hsame.symm.trans hpath
    cases hthere
    rw [happend] at hafter
    cases hafter
    exact ⟨by rw [hpool], htext⟩
  | unwritten hpublished hpath hqueue happend hpool houtcome =>
    obtain ⟨after, hafter, -⟩ := hwrites _ hpath (sections (pool.queue ++ pool.fresh batch))
    rw [happend] at hafter
    cases hafter

/-- **The queue.** Where the file can be written, an addition to a pool with a queue empties the
queue exactly if all certificates of its batch are anchors. The file then has the certificates of
the queue, in order, and what is new behind them. Otherwise the addition is refused, and neither the
pool nor the file changes. -/
theorem queue_emptied_iff {files : Files} {options : Options} {path : String}
    (hcreate : create engine files options = .ok first) (hgrows : GrowsTo engine first pool)
    (hpath : pool.path = some path) (hqueue : pool.queue ≠ [])
    (hwrites : Writes append path text storage) (batch : List Certificate) :
    let added := pool.add append engine storage batch
    (added.pool.queue = [] ↔ AllAnchors engine batch) ∧
    (AllAnchors engine batch →
      text added.storage = text storage ++ sections pool.queue ++ sections (pool.fresh batch) ∧
      added.outcome = .ok (pool.fresh batch).length) ∧
    (¬ AllAnchors engine batch → added.pool = pool ∧ added.storage = storage ∧
      ∃ fault, added.outcome = .error (.configuration (.unusableAnchor fault))) := by
  intro added
  obtain ⟨hsound, -⟩ := hgrows.sound (of_create hcreate).1
  have hadded : AddStep append engine pool storage batch added := hsound.addStep
  have hfile : ∀ other ∈ pool.path, Writes append other text storage := by
    intro other hother
    rw [hpath] at hother
    cases hother
    exact hwrites
  cases hadded.writeStep hfile with
  | refused hnot hpool hstorage houtcome =>
    rw [hpool]
    exact ⟨iff_of_false hqueue hnot, fun hall => absurd hall hnot,
      fun _ => ⟨rfl, hstorage, _, houtcome⟩⟩
  | taken hall hcertificates hstored houtcome =>
    obtain ⟨hempty, htext⟩ := hstored path hpath
    refine ⟨iff_of_true hempty hall, fun _ => ⟨?_, houtcome⟩, fun hnot => absurd hall hnot⟩
    rw [htext, sections_append, List.append_assoc]

end

/-- A file that is there can be written, if that is permitted. -/
theorem writes_append {files : Files} {path : String} {place : Place} {contents : Bytes}
    (htree : files.IsTree) (hdown : Files.IsDownward path) (hlocate : files.locate path = .ok place)
    (hentry : files.entryAt place = some (.file contents))
    (hfile : Place.endsInDirectory path = false) (hwrite : files.permits place .write) :
    Writes Files.append path (fun files => Found.text (files.found path)) files := by
  intro added
  obtain ⟨after, hafter⟩ := Files.append_of_locate hlocate hentry hfile hwrite added
  obtain ⟨-, hwritten⟩ := htree.append hdown hafter
  exact ⟨after, hafter, congrArg Found.text hwritten⟩

theorem poolFile_writes (text : Bytes) :
    Writes Files.append "p" (fun files => Found.text (files.found "p")) (poolFile text) := by
  have hlocate : (poolFile text).locate "p" = .ok ["p"] := by rfl
  have hfile : Place.endsInDirectory "p" = false := by rfl
  exact writes_append (poolFile_isTree text) poolFile_isDownward hlocate rfl hfile rfl

theorem growsTo_waitingPool : GrowsTo contentsEngine emptyPool waitingPool :=
  GrowsTo.start.add appendDenied (poolFile [0x41]) [⟨[1]⟩]

/-- The certificate that waits is written ahead of a new one. -/
theorem queue_emptied_waitingPool :
    let added := waitingPool.add Files.append contentsEngine (poolFile [0x41]) [⟨[1]⟩, ⟨[2]⟩]
    added.pool.queue = [] ∧
    Found.text (added.storage.found "p") = 0x41 :: (sections [⟨[1]⟩] ++ sections [⟨[2]⟩]) := by
  have hcreate : create contentsEngine (poolFile [0x41]) .onPoolFile = .ok emptyPool := by rfl
  have hqueue : waitingPool.queue ≠ [] := List.cons_ne_nil _ _
  obtain ⟨hempty, hwritten, -⟩ := queue_emptied_iff hcreate growsTo_waitingPool rfl hqueue
    (poolFile_writes [0x41]) [⟨[1]⟩, ⟨[2]⟩]
  have hall : AllAnchors contentsEngine [⟨[1]⟩, ⟨[2]⟩] := by
    simp [AllAnchors, contentsEngine]
  have htext := (hwritten hall).1
  rw [found_poolFile] at htext
  exact ⟨hempty.mpr hall, htext⟩

/-- A queue that could be written waits on behind an addition of what is no anchor. -/
theorem exists_addition_leaving_queue : ∃ pool files,
    create contentsEngine files .onPoolFile = .ok emptyPool ∧
    GrowsTo contentsEngine emptyPool pool ∧ pool.path = some "p" ∧ pool.queue = [⟨[1]⟩] ∧
    Writes Files.append "p" (fun files => Found.text (files.found "p")) files ∧
    let added := pool.add Files.append contentsEngine files [⟨[]⟩]
    added.pool.queue = [⟨[1]⟩] ∧ added.storage = files := by
  have hcreate : create contentsEngine (poolFile [0x41]) .onPoolFile = .ok emptyPool := by rfl
  exact ⟨waitingPool, poolFile [0x41], hcreate, growsTo_waitingPool, rfl, rfl,
    poolFile_writes [0x41], rfl, rfl⟩

end Pool

end PeerTrust
