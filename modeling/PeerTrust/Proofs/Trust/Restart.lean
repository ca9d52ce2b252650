import PeerTrust.Proofs.Text.Pem
import PeerTrust.Proofs.Trust.Journal

/-!
# Starting a pool again from its file

A pool whose queue is empty has all its certificates in its file. A new pool on that file has the
same certificates in the same order, unless the file had text whose last line was not ended when the
first certificate was appended to it: this certificate is then missing from the new pool. -/

namespace PeerTrust.Pool

section
variable {engine : Engine} {files : Files} {path : String} {options : Options}
  {contents : List Certificate}

/-- What a pool starts from depends on nothing but what its path leads to. -/
theorem seed_eq (files : Files) (path : String) : seed files (some path) =
    match files.found path with
    | none => .ok []
    | some ⟨_, false⟩ => .error (.unreadable path .notPermitted)
    | some ⟨.directory, true⟩ => .error (.unreadable path .isDirectory)
    | some ⟨.file text, true⟩ =>
        match Pem.certificates text with
        | .error fault => .error (.configuration (.malformedPool path fault))
        | .ok contents => .ok (contents.map Certificate.mk) := by
  unfold seed Files.found Files.isThere Files.read
  dsimp only
  cases hstat : files.stat path with
  | error fault =>
    cases files.locate path <;> rfl
  | ok entry =>
    obtain ⟨place, hlocate, -⟩ := Except.bind_eq_ok.mp hstat
    rw [hlocate]
    dsimp only [bind, Except.bind, Except.toOption, Option.bind]
    cases files.permits place .read <;> cases entry <;> rfl

/-- A pool starts from a text that can be read, be it that there is no file. -/
theorem seed_eq_ok : seed files (some path) = .ok contents ↔
    (∀ found ∈ files.found path, found.IsReadableFile) ∧
      ∃ ders, Pem.certificates (Found.text (files.found path)) = .ok ders ∧
        contents = ders.map Certificate.mk := by
  rw [seed_eq]
  rcases files.found path with - | ⟨text | -, - | -⟩
  · have hempty : Pem.certificates (Found.text none) = .ok [] := rfl
    simp [hempty, eq_comm]
  · simp [Found.IsReadableFile]
  · have hreadable : ∀ found ∈ some (Found.mk (.file text) true), found.IsReadableFile := by
      rintro found ⟨⟩
      exact ⟨nofun, rfl⟩
    rw [and_iff_right hreadable]
    dsimp only [Found.text]
    cases Pem.certificates text <;> simp [eq_comm]
  · simp [Found.IsReadableFile]
  · simp [Found.IsReadableFile]

/-- A pool can be made where all its certificates are anchors. -/
theorem create_of_seed (hknown : options.algorithm.check = .ok ())
    (hseed : seed files options.path = .ok contents)
    (hanchors : ∀ certificate ∈ contents, ∃ anchor, engine.anchor certificate = .ok anchor) :
    ∃ pool, create engine files options = .ok pool ∧
      pool.certificates = extendUnique [] contents := by
  have hstore : ∀ certificate ∈ (Store.ofList contents).certificates,
      ∃ anchor, engine.anchor certificate = .ok anchor := by
    intro certificate hmem
    exact hanchors certificate (Store.mem_ofList.mp hmem)
  obtain ⟨published, hpublished⟩ := Base.exists_ofStore hstore
  exact ⟨_, create_eq_ok.mpr ⟨hknown, contents, published, hseed, hpublished, rfl⟩, rfl⟩

/-- What is left of the certificates that were written behind a text when the text is read again. -/
def reread (text : Bytes) (written : List Certificate) : List Certificate :=
  if Pem.IsTerminated text then written else written.tail

theorem reread_sublist (text : Bytes) (written : List Certificate) :
    (reread text written).Sublist written := by
  unfold reread
  split
  · exact List.Sublist.refl _
  · exact List.tail_sublist _

theorem sections_eq (written : List Certificate) :
    sections written = (written.map Certificate.der).flatMap Pem.encode :=
  (List.flatMap_map ..).symm

/-- Sections behind a text are read again, but for the first one where the text does not end its
last line. -/
theorem certificates_append_sections {text : Bytes} {ders : List Bytes}
    (hders : Pem.certificates text = .ok ders) (written : List Certificate) :
    Pem.certificates (text ++ sections written) =
      .ok (ders ++ (reread text written).map Certificate.der) := by
  rw [sections_eq, reread]
  split
  · exact Pem.certificates_append ‹_› hders _
  · cases written with
    | nil =>
      rw [List.map_nil, List.flatMap_nil, List.append_nil, hders]
      exact congrArg Except.ok (List.append_nil _).symm
    | cons first rest => exact Pem.certificates_append_unterminated ‹_› hders _ _

theorem reread_nil (text : Bytes) : reread text [] = [] := by
  unfold reread
  split <;> rfl

theorem map_mk_der (certificates : List Certificate) :
    (certificates.map Certificate.der).map Certificate.mk = certificates := by
  rw [List.map_map]
  exact List.map_id _

/-- What a pool starts from after certificates were written to its file. -/
theorem seed_after {after : Files} {written : List Certificate}
    (hseed : seed files (some path) = .ok contents)
    (hafter : after.found path = fileAfter (files.found path) written) :
    seed after (some path) =
      .ok (contents ++ reread (Found.text (files.found path)) written) := by
  by_cases hnone : written = []
  · rw [hnone] at hafter ⊢
    rw [seed_eq, hafter, fileAfter, if_pos rfl, ← seed_eq, hseed, reread_nil, List.append_nil]
  · obtain ⟨hreadable, ders, hders, rfl⟩ := seed_eq_ok.mp hseed
    rw [fileAfter, if_neg hnone] at hafter
    rw [seed_eq_ok, hafter]
    refine ⟨Found.isReadableFile_append hreadable, _, certificates_append_sections hders written, ?_⟩
    rw [List.map_append, map_mk_der]

end

section
variable {engine : Engine} {files after : Files} {path : String} {options later : Options}
  {first pool : Pool}

/-- A new pool on the file of a pool whose queue is empty has what is read again. -/
theorem restart (hcreate : create engine files options = .ok first)
    (hpath : options.path = some path) (hrun : FileRun engine path first files pool after)
    (hqueue : pool.queue = [])
    (hlater : later.path = some path) (hknown : later.algorithm.check = .ok ()) :
    ∃ again written, create engine after later = .ok again ∧
      pool.certificates = first.certificates ++ written ∧
      again.certificates =
        first.certificates ++ reread (Found.text (files.found path)) written := by
  obtain ⟨hsound, hempty, hfirstPath, contents, hseed, hcontents⟩ := of_create hcreate
  obtain ⟨written, hpool⟩ := hrun.journaled hsound (hfirstPath.trans hpath) hempty
  have hcertificates : pool.certificates = first.certificates ++ written := by
    rw [hpool.certificates, hqueue, List.append_nil]
  have hkept : (reread (Found.text (files.found path)) written).Sublist written := reread_sublist ..
  have hnodup : (first.certificates ++ written).Nodup := hcertificates ▸ hpool.sound.nodup
  rw [hpath] at hseed
  have hanchors : ∀ certificate ∈ contents ++ reread (Found.text (files.found path)) written,
      ∃ anchor, engine.anchor certificate = .ok anchor := by
    intro certificate hmem
    refine Base.anchor_of_ofStore hpool.sound.published ?_
    rw [hcertificates, hcontents, List.mem_append, mem_extendUnique]
    exact (List.mem_append.mp hmem).imp Or.inr (hkept.subset ·)
  have hagainSeed := seed_after hseed hpool.current
  rw [← hlater] at hagainSeed
  obtain ⟨again, hagain, hsame⟩ := create_of_seed hknown hagainSeed hanchors
  refine ⟨again, written, hagain, hcertificates, ?_⟩
  rw [hsame, extendUnique_append, ← hcontents]
  exact extendUnique_of_nodup (hnodup.sublist ((List.Sublist.refl _).append hkept))

/-- **Restart.** A pool whose queue is empty can be started again from its file. The new pool has
the same certificates in the same order exactly if the file was absent, empty or ended its last line
when the pool was made, or if nothing was added since then. Otherwise the certificate that was added
first is missing. -/
theorem restart_keeps_iff (hcreate : create engine files options = .ok first)
    (hpath : options.path = some path) (hrun : FileRun engine path first files pool after)
    (hqueue : pool.queue = []) (hlater : later.path = some path)
    (hknown : later.algorithm.check = .ok ()) :
    ∃ again, create engine after later = .ok again ∧
      (again.certificates = pool.certificates ↔
        Pem.IsTerminated (Found.text (files.found path)) ∨
          pool.certificates = first.certificates) ∧
      (again.certificates ≠ pool.certificates → ∃ lost rest,
        pool.certificates = first.certificates ++ lost :: rest ∧
          again.certificates = first.certificates ++ rest) := by
  obtain ⟨again, written, hagain, hcertificates, hreread⟩ :=
    restart hcreate hpath hrun hqueue hlater hknown
  refine ⟨again, hagain, ?_⟩
  rw [hcertificates, hreread]
  by_cases hterminated : Pem.IsTerminated (Found.text (files.found path))
  · rw [reread, if_pos hterminated]
    exact ⟨iff_of_true rfl (Or.inl hterminated), fun hne => absurd rfl hne⟩
  · rw [reread, if_neg hterminated]
    cases written with
    | nil => exact ⟨iff_of_true rfl (Or.inr (List.append_nil _)), fun hne => absurd rfl hne⟩
    | cons lost rest =>
      refine ⟨iff_of_false ?_ ?_, fun _ => ⟨lost, rest, rfl, rfl⟩⟩
      · intro heq
        have hlength := congrArg List.length (List.append_cancel_left heq)
        simp only [List.tail_cons, List.length_cons] at hlength
        omega
      · rintro (h | heq)
        · exact hterminated h
        · exact List.cons_ne_nil _ _ (List.append_right_eq_self.mp heq)

end

/-- The certificate of these examples fills one line. -/
theorem sections_one : sections [⟨[1]⟩] =
    Bytes.ofString "-----BEGIN CERTIFICATE-----\nAQ==\n-----END CERTIFICATE-----\n" := by
  rw [sections, List.flatMap_singleton, Pem.encode,
    Pem.wrap_of_length_le (by decide) (by decide)]
  rfl

/-- One certificate is added to a pool that started without any. -/
theorem poolFile_run (text : Bytes) (first : Pool) :
    FileRun contentsEngine "p" first (poolFile text)
      (first.add Files.append contentsEngine (poolFile text) [⟨[1]⟩]).pool
      (first.add Files.append contentsEngine (poolFile text) [⟨[1]⟩]).storage :=
  .add .start (append_isWhole (poolFile_isTree text) poolFile_isDownward) _

/-- Behind a line that is ended, the certificate is there after a restart. -/
theorem restart_behind_ended_line : ∃ pool after again,
    create contentsEngine (poolFile [0x41, 0x0A]) .onPoolFile = .ok emptyPool ∧
    FileRun contentsEngine "p" emptyPool (poolFile [0x41, 0x0A]) pool after ∧
    pool.certificates = [⟨[1]⟩] ∧ pool.queue = [] ∧
    create contentsEngine after .onPoolFile = .ok again ∧ again.certificates = [⟨[1]⟩] := by
  have hcreate : create contentsEngine (poolFile [0x41, 0x0A]) .onPoolFile = .ok emptyPool := by rfl
  have hrun := poolFile_run [0x41, 0x0A] emptyPool
  have hcertificates : (emptyPool.add Files.append contentsEngine (poolFile [0x41, 0x0A])
      [⟨[1]⟩]).pool.certificates = [⟨[1]⟩] := by rfl
  have hqueue : (emptyPool.add Files.append contentsEngine (poolFile [0x41, 0x0A])
      [⟨[1]⟩]).pool.queue = [] := by rfl
  have hterminated : Pem.IsTerminated
      (Found.text ((poolFile [0x41, 0x0A]).found "p")) := by
    rw [found_poolFile]
    decide +kernel
  have hpath : Options.onPoolFile.path = some "p" := rfl
  obtain ⟨again, hagain, hkeeps, -⟩ := restart_keeps_iff hcreate hpath hrun hqueue hpath rfl
  exact ⟨_, _, again, hcreate, hrun, hcertificates, hqueue, hagain,
    (hkeeps.mpr (Or.inl hterminated)).trans hcertificates⟩

/-- Behind a line that is not ended, the certificate is missing after a restart. -/
theorem exists_restart_losing : ∃ pool after again,
    create contentsEngine (poolFile [0x41]) .onPoolFile = .ok emptyPool ∧
    FileRun contentsEngine "p" emptyPool (poolFile [0x41]) pool after ∧
    pool.certificates = [⟨[1]⟩] ∧ pool.queue = [] ∧
    create contentsEngine after .onPoolFile = .ok again ∧ again.certificates = [] := by
  have hstorage : (emptyPool.add Files.append contentsEngine (poolFile [0x41]) [⟨[1]⟩]).storage =
      poolFile ([0x41] ++ sections [⟨[1]⟩]) := by rfl
  refine ⟨_, _, emptyPool, ?_, poolFile_run [0x41] emptyPool, ?_, ?_, ?_, rfl⟩
  · rfl
  · rfl
  · rfl
  · rw [hstorage, sections_one]
    rfl

end PeerTrust.Pool
