import PeerTrust.Proofs.Storage.Appending
import PeerTrust.Proofs.Trust.Growth

/-!
# The file of a pool

A pool with a file takes certificates up in memory and appends them to the file. The invariant says
where every certificate is: the pool holds those that it started with, then those that were written
behind the text of the file, then those that wait in the queue. Appending may fail at any time, as
long as it leaves the file alone when it does; what happens to other files does not matter.
-/

namespace PeerTrust.Pool

/-- A way to append that leaves a file alone where it fails, and otherwise appends everything. -/
structure IsWhole (append : Append Files) (files : Files) (path : String) : Prop where
  failed : ∀ added after fault, append files path added = (after, .error fault) →
    after.found path = files.found path
  done : ∀ added after, append files path added = (after, .ok ()) →
    after.found path = Found.append (files.found path) added

/-- Appending in a tree of files, by a path that does not step upwards, is such a way. -/
theorem append_isWhole {files : Files} {path : String} (htree : files.IsTree)
    (hdown : Files.IsDownward path) : IsWhole Files.append files path where
  failed _ _ _ happend := (htree.append hdown happend).2
  done _ _ happend := (htree.append hdown happend).2

/-- A run of additions to a pool with a file. Appending may work in another way each time, and other
files may change between the additions. -/
inductive FileRun (engine : Engine) (path : String) (first : Pool) (initial : Files) :
    Pool → Files → Prop
  | start : FileRun engine path first initial first initial
  | add {pool : Pool} {files : Files} (hrun : FileRun engine path first initial pool files)
      {append : Append Files} (happend : IsWhole append files path) (batch : List Certificate) :
      FileRun engine path first initial (pool.add append engine files batch).pool
        (pool.add append engine files batch).storage
  | elsewhere {pool : Pool} {files other : Files}
      (hrun : FileRun engine path first initial pool files)
      (hother : other.found path = files.found path) :
      FileRun engine path first initial pool other

/-- The file of a pool after certificates were written to it. -/
def fileAfter (initial : Option Found) (written : List Certificate) : Option Found :=
  if written = [] then initial else Found.append initial (sections written)

/-- A pool in which `written` are the certificates that were appended to its file so far. -/
structure Journaled (engine : Engine) (path : String) (first : Pool) (initial : Option Found)
    (pool : Pool) (current : Option Found) (written : List Certificate) : Prop where
  sound : pool.Sound engine
  path : pool.path = some path
  certificates : pool.certificates = first.certificates ++ written ++ pool.queue
  current : current = fileAfter initial written

section
variable {engine : Engine} {path : String} {first pool : Pool} {initial : Option Found}
  {written : List Certificate}

theorem sections_append (before added : List Certificate) :
    sections (before ++ added) = sections before ++ sections added := List.flatMap_append

theorem text_fileAfter : Found.text (fileAfter initial written) =
    Found.text initial ++ sections written := by
  unfold fileAfter
  split
  · rename_i hempty
    rw [hempty]
    exact (List.append_nil _).symm
  · rfl

/-- What is written next comes behind what was written before. -/
theorem fileAfter_append {added : List Certificate} (hne : added ≠ []) :
    Found.append (fileAfter initial written) (sections added) =
      fileAfter initial (written ++ added) := by
  rw [fileAfter, fileAfter, if_neg (List.append_ne_nil_of_right_ne_nil _ hne)]
  split
  · rename_i hempty
    rw [hempty, List.nil_append]
  · rw [Found.append_append, sections_append]

/-- **Step lemma.** An addition moves certificates from the queue to the end of the file, or it
leaves the file as it is. -/
theorem Journaled.step {files : Files} {append : Append Files}
    (hpool : Journaled engine path first initial pool (files.found path) written)
    (happend : IsWhole append files path) {batch : List Certificate} {added : Addition Files}
    (hstep : AddStep append engine pool files batch added) :
    ∃ more, Journaled engine path first initial added.pool (added.storage.found path)
      (written ++ more) := by
  have hsound := hstep.sound hpool.sound
  cases hstep with
  | refused hmem hfault hsame hstorage houtcome =>
    rw [hsame, hstorage]
    exact ⟨[], (List.append_nil written).symm ▸ hpool⟩
  | unlisted hpublished hnothing hgrown hstorage houtcome =>
    have hempty : pool.queue ++ pool.fresh batch = [] :=
      hnothing.resolve_left (by rw [hpool.path]; exact nofun)
    refine ⟨[], hsound, hgrown ▸ hpool.path, ?_, ?_⟩
    · rw [hgrown, grown, (List.append_eq_nil_iff.mp hempty).2, List.append_nil, List.append_nil]
      exact hpool.certificates
    · rw [hstorage, List.append_nil]
      exact hpool.current
  | @written _ path' hpublished hpath hqueue hdone hgrown houtcome =>
    obtain rfl : path = path' := Option.some.inj (hpool.path.symm.trans hpath)
    refine ⟨pool.queue ++ pool.fresh batch, hsound, hgrown ▸ hpool.path, ?_, ?_⟩
    · rw [hgrown]
      simp only [grown, hpool.certificates, List.append_assoc, List.append_nil]
    · rw [happend.done _ _ hdone, hpool.current, fileAfter_append hqueue]
  | @unwritten _ path' _ hpublished hpath hqueue hfailed hgrown houtcome =>
    obtain rfl : path = path' := Option.some.inj (hpool.path.symm.trans hpath)
    refine ⟨[], hsound, hgrown ▸ hpool.path, ?_, ?_⟩
    · rw [hgrown]
      simp only [grown, hpool.certificates, List.append_assoc, List.nil_append]
    · rw [happend.failed _ _ _ hfailed, List.append_nil]
      exact hpool.current

/-- **Run lemma.** What was written stays where it is, whatever is added afterwards and whether it
can be written or not. -/
theorem Journaled.run {later : Pool} {files last : Files}
    (hpool : Journaled engine path first initial pool (files.found path) written)
    (hrun : FileRun engine path pool files later last) :
    ∃ more, Journaled engine path first initial later (last.found path) (written ++ more) := by
  induction hrun with
  | start => exact ⟨[], (List.append_nil written).symm ▸ hpool⟩
  | add hrun happend batch ih =>
    obtain ⟨more, hlater⟩ := ih
    obtain ⟨moved, hnext⟩ := hlater.step happend hlater.sound.addStep
    exact ⟨more ++ moved, List.append_assoc .. ▸ hnext⟩
  | elsewhere hrun hother ih =>
    rw [hother]
    exact ih

/-- In every state, each certificate of a pool is one that it started with, or is written behind the
text of its file, or waits in the queue. -/
theorem FileRun.journaled {initial files : Files}
    (hrun : FileRun engine path first initial pool files) (hsound : first.Sound engine)
    (hpath : first.path = some path) (hqueue : first.queue = []) :
    ∃ written, Journaled engine path first (initial.found path) pool (files.found path)
      written := by
  have hstart : Journaled engine path first (initial.found path) first (initial.found path) [] :=
    ⟨hsound, hpath, by rw [hqueue, List.append_nil, List.append_nil], rfl⟩
  exact hstart.run hrun

/-- The text of the file is the one that it had at first, with a section for each certificate that
was written behind it. -/
theorem Journaled.text {current : Option Found}
    (hpool : Journaled engine path first initial pool current written) :
    Found.text current = Found.text initial ++ sections written := by
  rw [hpool.current, text_fileAfter]

/-- **Write-behind log.** A pool starts with the certificates of its file, each once. From then on
its certificates are those, followed by the ones that were written and by the queue, all different,
and the text of the file is what it was, followed by one section for each certificate that was
written, in the same order. What is in the file stays there: later additions only write more behind
it, whichever of them fail. -/
theorem certificates_written_or_queued {options : Options} {files after : Files}
    (hcreate : create engine files options = .ok first) (hpath : options.path = some path)
    (hrun : FileRun engine path first files pool after) :
    ∃ contents written, seed files (some path) = .ok contents ∧
      IsNewIn [] contents first.certificates ∧
      pool.certificates = first.certificates ++ written ++ pool.queue ∧
      pool.certificates.Nodup ∧
      Found.text (after.found path) = Found.text (files.found path) ++ sections written ∧
      ∀ later last, FileRun engine path pool after later last → ∃ more,
        later.certificates = first.certificates ++ (written ++ more) ++ later.queue ∧
        Found.text (last.found path) =
          Found.text (files.found path) ++ sections (written ++ more) := by
  obtain ⟨hsound, hqueue, hfirstPath, contents, hseed, hcontents⟩ := of_create hcreate
  obtain ⟨written, hpool⟩ := hrun.journaled hsound (hfirstPath.trans hpath) hqueue
  have hseeded : IsNewIn [] contents first.certificates := hcontents ▸ isNewIn_nil
  refine ⟨contents, written, hpath ▸ hseed, hseeded, hpool.certificates, hpool.sound.nodup,
    hpool.text, ?_⟩
  intro later last hlater
  obtain ⟨more, hjournal⟩ := hpool.run hlater
  exact ⟨more, hjournal.certificates, hjournal.text⟩

end

/-- Nothing but the file of a pool. -/
def poolFile (text : Bytes) : Files := ⟨[(["p"], .file text)], []⟩

/-- A pool on that file. -/
def Options.onPoolFile : Options := ⟨some "p", none, .default⟩

theorem poolFile_isTree (text : Bytes) : (poolFile text).IsTree := by
  have hroot : Files.empty.entryAt (List.dropLast ["p"]) = some .directory := rfl
  have hnone : Files.empty.entryAt ["p"] ≠ some .directory := by decide
  exact Files.empty_isTree.put (List.cons_ne_nil _ _) (by decide) hroot hnone (.file text)

theorem poolFile_isDownward : Files.IsDownward "p" := by
  have hplace : Place.ofPath "p" = ["p"] := by rfl
  rw [Files.IsDownward, hplace]
  decide

theorem found_poolFile (text : Bytes) : (poolFile text).found "p" = some ⟨.file text, true⟩ := by
  rfl

/-- The pool that starts from a file without sections. -/
def emptyPool : Pool := ⟨[], [], ⟨[], []⟩, none, some "p"⟩

/-- Appending to files that cannot be written. -/
def appendDenied : Append Files := fun files _ _ => (files, .error .notPermitted)

theorem appendDenied_isWhole (files : Files) (path : String) : IsWhole appendDenied files path where
  failed _ _ _ happend := by
    cases happend
    rfl
  done _ _ happend := by cases happend

/-- The pool after an addition that could not be written. -/
def waitingPool : Pool :=
  { emptyPool with
    certificates := [⟨[1]⟩]
    queue := [⟨[1]⟩]
    published := ⟨[⟨[1]⟩], [⟨[1], []⟩]⟩ }

/-- A certificate that could not be written is written before the next one. -/
theorem certificates_written_after_failure : ∃ pool after,
    waitingPool.certificates = [⟨[1]⟩] ∧ waitingPool.queue = [⟨[1]⟩] ∧
    FileRun contentsEngine "p" waitingPool (poolFile [0x41]) pool after ∧
    pool.certificates = [⟨[1]⟩, ⟨[2]⟩] ∧ pool.queue = [] ∧
    Found.text (after.found "p") = 0x41 :: sections [⟨[1]⟩, ⟨[2]⟩] := by
  have hcreate : create contentsEngine (poolFile [0x41]) .onPoolFile = .ok emptyPool := by rfl
  have hwaiting : FileRun contentsEngine "p" emptyPool (poolFile [0x41]) waitingPool
      (poolFile [0x41]) := FileRun.start.add (appendDenied_isWhole _ _) [⟨[1]⟩]
  have hwritten : FileRun contentsEngine "p" waitingPool (poolFile [0x41])
      (waitingPool.add Files.append contentsEngine (poolFile [0x41]) [⟨[2]⟩]).pool
      (waitingPool.add Files.append contentsEngine (poolFile [0x41]) [⟨[2]⟩]).storage :=
    .add .start (append_isWhole (poolFile_isTree [0x41]) poolFile_isDownward) _
  obtain ⟨-, written, -, -, -, -, -, hlater⟩ := certificates_written_or_queued hcreate rfl hwaiting
  obtain ⟨more, hcertificates, htext⟩ := hlater _ _ hwritten
  have hpool : (waitingPool.add Files.append contentsEngine (poolFile [0x41])
      [⟨[2]⟩]).pool.certificates = [⟨[1]⟩, ⟨[2]⟩] := by rfl
  have hqueue : (waitingPool.add Files.append contentsEngine (poolFile [0x41])
      [⟨[2]⟩]).pool.queue = [] := by rfl
  have hall : written ++ more = [⟨[1]⟩, ⟨[2]⟩] := by
    rw [hpool, hqueue, List.append_nil] at hcertificates
    exact hcertificates.symm
  rw [found_poolFile, hall] at htext
  exact ⟨_, _, rfl, rfl, hwritten, hpool, hqueue, htext⟩

end PeerTrust.Pool
