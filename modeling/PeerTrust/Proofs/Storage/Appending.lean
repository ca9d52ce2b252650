import PeerTrust.Proofs.Storage.Tree

/-!
# Appending to a file

What appending does to the file that a path leads to is stated for trees and for paths that take no
step upwards: either the path leads to what it led to before, or the file has the new text behind
its old one, and can be read if it could be read before.
-/

namespace PeerTrust

/-- What a path leads to, and whether it can be read. -/
structure Found where
  entry : Entry
  isReadable : Bool

namespace Found

/-- The text of a file; where there is no file, there is no text. -/
def text : Option Found → Bytes
  | some ⟨.file contents, _⟩ => contents
  | _ => []

/-- A file with more text behind the one that it had. One that is new can be read. -/
def append (before : Option Found) (added : Bytes) : Option Found :=
  some ⟨.file (text before ++ added), before.all isReadable⟩

/-- A path leads to a file that can be read. -/
def IsReadableFile (found : Found) : Prop := found.entry ≠ .directory ∧ found.isReadable = true

theorem text_append (before : Option Found) (added : Bytes) :
    text (append before added) = text before ++ added := rfl

/-- Two texts can be appended one after the other. -/
theorem append_append (before : Option Found) (first second : Bytes) :
    append (append before first) second = append before (first ++ second) := by
  rw [append, append, append, text, List.append_assoc]
  rfl

/-- A file that could be read before can be read with more text. -/
theorem isReadableFile_append {before : Option Found} {added : Bytes}
    (hbefore : ∀ found ∈ before, found.IsReadableFile) :
    ∀ found ∈ append before added, found.IsReadableFile := by
  rintro found ⟨⟩
  refine ⟨nofun, ?_⟩
  cases before with
  | none => rfl
  | some old => exact (hbefore old rfl).2

end Found

/-- What a path sees of an entry: no file, if only a directory can be meant. -/
def Entry.seenBy (path : String) : Entry → Option Entry
  | .directory => some .directory
  | .file contents => if Place.endsInDirectory path then none else some (.file contents)

namespace Files

/-- What a path leads to, if it leads to anything. -/
def found (files : Files) (path : String) : Option Found := do
  let place ← (files.locate path).toOption
  let entry ← (files.stat path).toOption
  return ⟨entry, files.permits place .read⟩

section
variable {files after : Files} {path : String} {place : Place}

theorem found_of_locate (hlocate : files.locate path = .ok place) :
    files.found path = (files.entryAt place >>= Entry.seenBy path).map
      (⟨·, files.permits place .read⟩) := by
  unfold found stat
  rw [hlocate]
  dsimp only [bind, Except.bind, Except.toOption]
  cases files.entryAt place with
  | none => rfl
  | some entry =>
    cases entry with
    | directory => rfl
    | file contents =>
      dsimp only [Option.bind, Entry.seenBy]
      cases Place.endsInDirectory path <;> rfl

/-- A path leads nowhere if nothing stands at its place. -/
theorem found_eq_none (hdown : IsDownward path) (hnone : files.entryAt (Place.ofPath path) = none) :
    files.found path = none := by
  cases hlocate : files.locate path with
  | ok place =>
    rw [found_of_locate hlocate, eq_of_locate hdown hlocate, hnone]
    rfl
  | error fault =>
    rw [found, hlocate]
    rfl

/-- A path leads to what it led to before the directories above it were created. -/
theorem IsTree.found_createParents (htree : files.IsTree) (hdown : IsDownward path)
    (hne : Place.ofPath path ≠ []) :
    Files.found (files.createParents path).1 path = files.found path := by
  have hsteps : ".." ∉ (Place.ofPath path).dropLast := fun hmem =>
    hdown (List.dropLast_subset _ hmem)
  cases hentry : files.entryAt (Place.ofPath path) with
  | none =>
    have hapart : ¬ Place.ofPath path <+: [] ++ (Place.ofPath path).dropLast := by
      intro hprefix
      have hlength := hprefix.length_le
      rw [List.nil_append, List.length_dropLast] at hlength
      have := List.length_pos_of_ne_nil hne
      omega
    have hsame := (@IsTree.createAlong files [] htree _ hsteps rfl).2 _ hapart
    rw [found_eq_none hdown hentry, createParents, found_eq_none hdown (hsame.trans hentry)]
  | some entry =>
    rw [createParents, htree.createAlong_of_directory hsteps (htree _ _ hentry)]

theorem IsTree.createParents (htree : files.IsTree) (hdown : IsDownward path) :
    (files.createParents path).1.IsTree := by
  have hsteps : ".." ∉ (Place.ofPath path).dropLast := fun hmem =>
    hdown (List.dropLast_subset _ hmem)
  exact (@IsTree.createAlong files [] htree _ hsteps rfl).1

/-- Writing to a file that could be opened leaves a tree behind. -/
theorem IsTree.put_opened (htree : files.IsTree) {contents : Bytes}
    (hopen : files.openForWriting path = .ok (place, contents)) (new : Bytes) :
    (files.put place (.file new)).IsTree := by
  have hold := not_directory_of_openForWriting hopen
  obtain ⟨hnil, hroot⟩ := not_top_of_not_directory hold
  obtain ⟨-, -, hentry⟩ := of_openForWriting hopen
  refine htree.put hnil hroot ?_ hold _
  rcases hentry with ⟨-, -, hparent⟩ | hentry
  · exact hparent
  · exact htree _ _ hentry

/-- The path then leads to what was written. Before, it led to the text that the file was opened
with. -/
theorem found_put_opened {contents : Bytes}
    (hopen : files.openForWriting path = .ok (place, contents)) (new : Bytes) :
    Files.found (files.put place (.file new)) path =
        some ⟨.file new, (files.found path).all Found.isReadable⟩ ∧
      Found.text (files.found path) = contents := by
  have hold := not_directory_of_openForWriting hopen
  obtain ⟨hnil, hroot⟩ := not_top_of_not_directory hold
  obtain ⟨hlocate, hfile, hentry⟩ := of_openForWriting hopen
  have hafter : Files.locate (files.put place (.file new)) path = .ok place :=
    (keepsDirectories_put hold).locate hlocate
  rw [found_of_locate hafter, found_of_locate hlocate, entryAt_put hnil hroot, if_pos rfl,
    permits_put_self hnil hroot]
  rcases hentry with ⟨rfl, hentry, -⟩ | hentry
  · simp [hentry, Entry.seenBy, hfile, Found.text]
  · simp [hentry, Entry.seenBy, hfile, Found.text]

/-- A path without steps leads to a directory, to which nothing can be appended. -/
theorem append_of_no_steps (hplace : Place.ofPath path = []) (added : Bytes) :
    ∃ fault, files.append path added = (files, .error fault) := by
  have hparents : files.createParents path = (files, .ok ()) := by
    rw [Files.createParents, hplace]
    rfl
  have hopen : ∃ fault, files.openForWriting path = .error fault := by
    unfold openForWriting Files.locate
    rw [hplace]
    split
    · exact ⟨_, rfl⟩
    · exact ⟨.isDirectory, rfl⟩
  obtain ⟨fault, hopen⟩ := hopen
  refine ⟨fault, ?_⟩
  rw [append, update, hparents]
  dsimp only
  rw [hopen]

/-- Appending leaves a tree behind. If it fails, the path leads to what it led to before; otherwise
the file has the new text behind its old one. -/
theorem IsTree.append (htree : files.IsTree) (hdown : IsDownward path) {added : Bytes}
    {outcome : Except FileFault Unit} (happend : files.append path added = (after, outcome)) :
    after.IsTree ∧ after.found path = match outcome with
      | .error _ => files.found path
      | .ok () => Found.append (files.found path) added := by
  by_cases hne : Place.ofPath path = []
  · obtain ⟨fault, hfailed⟩ := @append_of_no_steps files path hne added
    rw [hfailed] at happend
    cases happend
    exact ⟨htree, rfl⟩
  have hmiddle := htree.createParents hdown
  have hfound := htree.found_createParents hdown hne
  unfold Files.append update at happend
  rcases hcreate : files.createParents path with ⟨middle, fault | created⟩
  · rw [hcreate] at happend hmiddle hfound
    cases happend
    exact ⟨hmiddle, hfound⟩
  · rw [hcreate] at happend hmiddle hfound
    dsimp only at happend hmiddle hfound
    cases hopen : middle.openForWriting path with
    | error fault =>
      rw [hopen] at happend
      cases happend
      exact ⟨hmiddle, hfound⟩
    | ok opened =>
      obtain ⟨place, contents⟩ := opened
      rw [hopen] at happend
      cases happend
      obtain ⟨hwritten, htext⟩ := found_put_opened hopen (contents ++ added)
      refine ⟨hmiddle.put_opened hopen _, hwritten.trans ?_⟩
      rw [← hfound, Found.append, htext]

/-- A file that is there can be appended to, if that is permitted. -/
theorem append_of_locate (hlocate : files.locate path = .ok place) {contents : Bytes}
    (hentry : files.entryAt place = some (.file contents))
    (hfile : Place.endsInDirectory path = false) (hwrite : files.permits place .write)
    (added : Bytes) : ∃ after, files.append path added = (after, .ok ()) := by
  have hcreate : files.createParents path = (files, .ok ()) := by
    unfold locate at hlocate
    split at hlocate
    · cases hlocate
    · exact createAlong_of_walk hlocate
  have hopen : files.openForWriting path = .ok (place, contents) := by
    rw [openForWriting, hlocate]
    dsimp only [bind, Except.bind]
    rw [hentry, hfile]
    dsimp only
    rw [if_neg Bool.false_ne_true, if_pos hwrite]
    rfl
  refine ⟨files.put place (.file (contents ++ added)), ?_⟩
  rw [append, update, hcreate]
  dsimp only
  rw [hopen]

end

end Files

end PeerTrust
