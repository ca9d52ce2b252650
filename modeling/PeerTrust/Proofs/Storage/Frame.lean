import PeerTrust.Proofs.Storage.Tree

/-!
# What writing leaves alone

Writing creates the directories above a file, as far as they are missing, and then the file itself
is changed. Whatever files there are, and whether the writing fails or not, every other file has the
contents that it had before, and no other file comes into being.
-/

namespace PeerTrust.Files

/-- The contents of the file at a place. -/
def fileAt (files : Files) (place : Place) : Option Bytes :=
  match files.entryAt place with
  | some (.file contents) => some contents
  | _ => none

/-- All files and directories are there as before. There may be more directories. -/
structure GainsDirectories (files after : Files) : Prop extends KeepsDirectories files after where
  file : ∀ place, after.fileAt place = files.fileAt place

section
variable {files after : Files} {path : String} {here place : Place}

theorem GainsDirectories.refl (files : Files) : GainsDirectories files files :=
  ⟨.refl files, fun _ => rfl⟩

theorem GainsDirectories.trans {last : Files} (hfirst : GainsDirectories files after)
    (hsecond : GainsDirectories after last) : GainsDirectories files last := by
  refine ⟨hfirst.toKeepsDirectories.trans hsecond.toKeepsDirectories, fun place => ?_⟩
  rw [hsecond.file, hfirst.file]

/-- A directory that is put where nothing was is all that changes. -/
theorem gainsDirectories_put (hnone : files.entryAt place = none) :
    GainsDirectories files (files.put place .directory) := by
  have hnew : files.entryAt place ≠ some .directory := by
    rw [hnone]
    exact nofun
  obtain ⟨hnil, hroot⟩ := not_top_of_not_directory hnew
  refine ⟨keepsDirectories_put hnew, fun other => ?_⟩
  rw [fileAt, fileAt, entryAt_put hnil hroot]
  by_cases hother : other = place
  · simp [hother, hnone]
  · simp [hother]

/-- Creating directories changes no file, also where it fails on the way. -/
theorem gainsDirectories_createAlong (here : Place) (steps : List String) :
    GainsDirectories files (files.createAlong here steps).1 := by
  induction steps generalizing files here with
  | nil => exact .refl files
  | cons step rest ih =>
    rw [createAlong]
    split
    · split
      · exact ih _
      · exact .refl files
      · split
        · have hput := gainsDirectories_put ‹_›
          exact hput.trans (ih _)
        · exact .refl files
    · exact .refl files

/-- A file is opened for writing with the contents that it has. -/
theorem contents_eq_of_openForWriting {contents : Bytes}
    (hopen : files.openForWriting path = .ok (place, contents)) :
    contents = (files.fileAt place).getD [] := by
  obtain ⟨-, -, ⟨rfl, hentry, -⟩ | hentry⟩ := of_openForWriting hopen
  · simp [fileAt, hentry]
  · simp [fileAt, hentry]

/-- **Frame of a writing.** If it fails, no file changes. Otherwise the file that the path leads to
has its new contents, and no other file changes. -/
theorem update_frame {change : Bytes → Bytes} {outcome : Except FileFault Unit}
    (hupdate : files.update path change = (after, outcome)) :
    match outcome with
    | .error _ => ∀ place, after.fileAt place = files.fileAt place
    | .ok () => ∃ place, after.locate path = .ok place ∧
        after.fileAt place = some (change ((files.fileAt place).getD [])) ∧
        ∀ other, other ≠ place → after.fileAt other = files.fileAt other := by
  have hparents : GainsDirectories files (files.createParents path).1 :=
    gainsDirectories_createAlong _ _
  unfold update at hupdate
  rcases hcreate : files.createParents path with ⟨middle, fault | created⟩
  · rw [hcreate] at hupdate hparents
    cases hupdate
    exact hparents.file
  · rw [hcreate] at hupdate hparents
    dsimp only at hupdate hparents
    cases hopen : middle.openForWriting path with
    | error fault =>
      rw [hopen] at hupdate
      cases hupdate
      exact hparents.file
    | ok opened =>
      obtain ⟨place, contents⟩ := opened
      rw [hopen] at hupdate
      cases hupdate
      obtain ⟨hlocate, -⟩ := of_openForWriting hopen
      have hold := not_directory_of_openForWriting hopen
      obtain rfl := contents_eq_of_openForWriting hopen
      obtain ⟨hnil, hroot⟩ := not_top_of_not_directory hold
      refine ⟨place, ?_, ?_, ?_⟩
      · exact (keepsDirectories_put hold).locate hlocate
      · rw [fileAt, entryAt_put hnil hroot, if_pos rfl, hparents.file]
      · intro other hne
        rw [fileAt, entryAt_put hnil hroot, if_neg hne, ← fileAt, hparents.file]

/-- An addition to a file changes at most the file that the path then leads to. -/
theorem fileAt_append {added : Bytes} {outcome : Except FileFault Unit}
    (happend : files.append path added = (after, outcome)) (hplace : after.locate path ≠ .ok place) :
    after.fileAt place = files.fileAt place := by
  have hframe := update_frame happend
  cases outcome with
  | error fault => exact hframe place
  | ok written =>
    obtain ⟨own, hown, -, hothers⟩ := hframe
    refine hothers place ?_
    rintro rfl
    exact hplace hown

end

end PeerTrust.Files
