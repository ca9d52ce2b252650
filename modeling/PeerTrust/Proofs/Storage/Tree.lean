import Mathlib.Data.List.Induction
import PeerTrust.Proofs.Failing
import PeerTrust.Storage.Files

/-!
# Trees of files

Files form a tree if everything in them lies in a directory. A walk through them needs nothing but
the directories that it passes and the permissions to pass them, so it leads to the same place in
all files that keep these.
-/

namespace PeerTrust.Files

/-- Everything lies in a directory. -/
def IsTree (files : Files) : Prop :=
  ∀ (place : Place) (entry : Entry), files.entryAt place = some entry →
    files.entryAt place.dropLast = some .directory

/-- A path of which every step leads downwards. -/
def IsDownward (path : String) : Prop := ".." ∉ Place.ofPath path

/-- All directories are there as before, with the same permissions. -/
structure KeepsDirectories (files after : Files) : Prop where
  directory : ∀ place, files.entryAt place = some .directory → after.entryAt place = some .directory
  permits : ∀ place, files.entryAt place = some .directory → ∀ permission,
    after.permits place permission = files.permits place permission

section
variable {files after : Files} {path : String} {here place other : Place} {entry : Entry}
  {permission : Permission}

/-- The working directory and the root are always directories. -/
theorem not_top_of_not_directory (hplace : files.entryAt place ≠ some .directory) :
    place ≠ [] ∧ place ≠ ["/"] := by
  constructor
  · rintro rfl
    exact hplace rfl
  · rintro rfl
    exact hplace rfl

theorem find?_replace_of_ne {entries : List (Place × Entry)} (hne : other ≠ place) :
    (entries.map fun old => if old.1 == place then (place, entry) else old).find? (·.1 == other) =
      entries.find? (·.1 == other) := by
  induction entries with
  | nil => rfl
  | cons old rest ih =>
    rw [List.map_cons, List.find?_cons, List.find?_cons, ih]
    by_cases hold : old.1 = place
    · rw [if_pos (beq_iff_eq.mpr hold), hold, beq_false_of_ne hne.symm]
    · rw [if_neg (mt beq_iff_eq.mp hold)]

theorem find?_replace_self {entries : List (Place × Entry)} (hany : entries.any (·.1 == place)) :
    (entries.map fun old => if old.1 == place then (place, entry) else old).find? (·.1 == place) =
      some (place, entry) := by
  induction entries with
  | nil => cases hany
  | cons old rest ih =>
    rw [List.map_cons, List.find?_cons]
    by_cases hold : old.1 = place
    · rw [if_pos (beq_iff_eq.mpr hold), beq_self_eq_true]
    · rw [if_neg (mt beq_iff_eq.mp hold), beq_false_of_ne hold]
      rw [List.any_cons, beq_false_of_ne hold, Bool.false_or] at hany
      exact ih hany

/-- An entry is found at the place that it is put at, and others are found as before. -/
theorem entryAt_put (hnil : place ≠ []) (hroot : place ≠ ["/"]) :
    Files.entryAt (files.put place entry) other =
      if other = place then some entry else files.entryAt other := by
  unfold entryAt put
  by_cases hother : other = place
  · subst hother
    rw [if_pos rfl, if_neg (not_or.mpr ⟨hnil, hroot⟩)]
    split
    · rename_i hany
      rw [find?_replace_self hany]
      rfl
    · rename_i hany
      have hnone : files.entries.find? (·.1 == other) = none := by
        rw [List.find?_eq_none]
        exact fun old hmem hold => hany (List.any_eq_true.mpr ⟨old, hmem, hold⟩)
      rw [List.find?_append, hnone, Option.none_or, List.find?_singleton,
        if_pos (beq_self_eq_true other)]
      rfl
  · rw [if_neg hother]
    congr 2
    split
    · rw [find?_replace_of_ne hother]
    · rw [List.find?_append, List.find?_singleton, if_neg (mt beq_iff_eq.mp (Ne.symm hother)),
        Option.or_none]

theorem any_eq_isSome (hnil : place ≠ []) (hroot : place ≠ ["/"]) :
    files.entries.any (·.1 == place) = (files.entryAt place).isSome := by
  rw [entryAt, if_neg (not_or.mpr ⟨hnil, hroot⟩), Option.isSome_map, List.isSome_find?]

/-- What may be done elsewhere does not change when an entry is put. -/
theorem permits_put_of_ne (hne : other ≠ place) :
    (files.put place entry).permits other permission = files.permits other permission := by
  unfold put permits
  split
  · rfl
  · rw [Bool.not_inj_iff, Bool.eq_iff_iff, List.contains_iff_mem, List.contains_iff_mem,
      List.mem_filter]
    exact and_iff_left (bne_iff_ne.mpr hne)

/-- An entry takes over the permissions of the one that it replaces. Where there was none, everything
is permitted. -/
theorem permits_put_self (hnil : place ≠ []) (hroot : place ≠ ["/"]) :
    (files.put place entry).permits place permission =
      ((files.entryAt place).isNone || files.permits place permission) := by
  unfold put
  rw [any_eq_isSome hnil hroot]
  cases files.entryAt place with
  | some old => rfl
  | none =>
    simp [permits]

/-- Putting an entry where no directory was keeps all directories. -/
theorem keepsDirectories_put (hold : files.entryAt place ≠ some .directory) :
    KeepsDirectories files (files.put place entry) := by
  obtain ⟨hnil, hroot⟩ := not_top_of_not_directory hold
  have hapart {other : Place} (hother : files.entryAt other = some .directory) : other ≠ place := by
    rintro rfl
    exact hold hother
  constructor
  · intro other hother
    rw [entryAt_put hnil hroot, if_neg (hapart hother), hother]
  · exact fun other hother permission => permits_put_of_ne (hapart hother)

theorem KeepsDirectories.refl (files : Files) : KeepsDirectories files files :=
  ⟨fun _ h => h, fun _ _ _ => rfl⟩

theorem KeepsDirectories.trans {last : Files} (hfirst : KeepsDirectories files after)
    (hsecond : KeepsDirectories after last) : KeepsDirectories files last := by
  constructor
  · intro place hplace
    exact hsecond.directory place (hfirst.directory place hplace)
  · intro place hplace permission
    rw [hsecond.permits place (hfirst.directory place hplace), hfirst.permits place hplace]

/-- A step can be taken from a directory that may be searched. -/
theorem walk_cons_eq_ok {step : String} {rest : List String} :
    files.walk here (step :: rest) = .ok place ↔
      files.entryAt here = some .directory ∧ files.canStep here step = true ∧
        files.walk (if step = ".." then here.dropLast else here ++ [step]) rest = .ok place := by
  rw [walk]
  cases files.entryAt here with
  | none => simp
  | some entry =>
    cases entry with
    | file contents => simp
    | directory =>
      by_cases hstep : files.canStep here step
      · simp [hstep]
      · simp [hstep]

/-- A walk leads to the same place as long as all directories are kept. -/
theorem KeepsDirectories.walk (hkeeps : KeepsDirectories files after) {steps : List String}
    (hwalk : files.walk here steps = .ok place) : after.walk here steps = .ok place := by
  induction steps generalizing here with
  | nil => exact hwalk
  | cons step rest ih =>
    obtain ⟨hhere, hstep, hrest⟩ := walk_cons_eq_ok.mp hwalk
    have hsame : after.canStep here step = files.canStep here step := by
      rw [canStep, canStep, hkeeps.permits here hhere]
    exact walk_cons_eq_ok.mpr ⟨hkeeps.directory here hhere, hsame.trans hstep, ih hrest⟩

theorem KeepsDirectories.locate (hkeeps : KeepsDirectories files after)
    (hlocate : files.locate path = .ok place) : after.locate path = .ok place := by
  unfold Files.locate at hlocate ⊢
  by_cases hpath : path = ""
  · simp [hpath] at hlocate
  · rw [if_neg hpath] at hlocate ⊢
    exact hkeeps.walk hlocate

theorem empty_isTree : empty.IsTree := by
  intro place entry hsome
  unfold entryAt at hsome
  split at hsome
  · rename_i hroot
    rcases hroot with rfl | rfl <;> rfl
  · cases hsome

/-- What contains something is a directory. -/
theorem IsTree.directory (htree : files.IsTree) {more : Place} (hne : more ≠ [])
    (hsome : files.entryAt (place ++ more) = some entry) : files.entryAt place = some .directory := by
  induction more using List.reverseRecOn generalizing entry with
  | nil => exact absurd rfl hne
  | append_singleton before last ih =>
    have hparent := htree _ _ hsome
    rw [← List.append_assoc, List.dropLast_concat] at hparent
    by_cases hbefore : before = []
    · rwa [hbefore, List.append_nil] at hparent
    · exact ih hbefore hparent

/-- A tree stays one if an entry is put into a directory, as long as no directory has to go for it.
-/
theorem IsTree.put (htree : files.IsTree) (hnil : place ≠ []) (hroot : place ≠ ["/"])
    (hparent : files.entryAt place.dropLast = some .directory)
    (hold : files.entryAt place ≠ some .directory) (entry : Entry) :
    (files.put place entry).IsTree := by
  intro inside found hsome
  have hparents : ∀ {inner : Place}, inner = place → inner.dropLast ≠ place := by
    rintro inner rfl hsame
    have hlength := congrArg List.length hsame
    rw [List.length_dropLast] at hlength
    have := List.length_pos_of_ne_nil hnil
    omega
  rw [entryAt_put hnil hroot] at hsome ⊢
  by_cases hinside : inside = place
  · rw [if_neg (hparents hinside), hinside]
    exact hparent
  · rw [if_neg hinside] at hsome
    have hdirectory := htree inside found hsome
    rw [if_neg fun hsame : inside.dropLast = place => hold (hsame ▸ hdirectory)]
    exact hdirectory

/-- A walk that steps downwards goes where it is told to. -/
theorem eq_of_walk {steps : List String} (hdown : ".." ∉ steps)
    (hwalk : files.walk here steps = .ok place) : place = here ++ steps := by
  induction steps generalizing here with
  | nil =>
    cases hwalk
    exact (List.append_nil _).symm
  | cons step rest ih =>
    obtain ⟨hstep, hrest⟩ := not_or.mp (mt List.mem_cons.mpr hdown)
    obtain ⟨-, -, hnext⟩ := walk_cons_eq_ok.mp hwalk
    rw [if_neg (Ne.symm hstep)] at hnext
    rw [ih hrest hnext, List.append_assoc, List.singleton_append]

theorem eq_of_locate (hdown : IsDownward path) (hlocate : files.locate path = .ok place) :
    place = Place.ofPath path := by
  unfold locate at hlocate
  split at hlocate
  · cases hlocate
  · exact eq_of_walk hdown hlocate

/-- Creating directories along a way leaves everything that is not on the way as it is. -/
theorem IsTree.createAlong (htree : files.IsTree) {steps : List String} (hdown : ".." ∉ steps)
    (hhere : files.entryAt here = some .directory) :
    (files.createAlong here steps).1.IsTree ∧
      ∀ inside : Place, ¬ inside <+: here ++ steps →
        Files.entryAt (files.createAlong here steps).1 inside = files.entryAt inside := by
  induction steps generalizing files here with
  | nil => exact ⟨htree, fun _ _ => rfl⟩
  | cons step rest ih =>
    obtain ⟨hstep, hrest⟩ := not_or.mp (mt List.mem_cons.mpr hdown)
    have hcons : here ++ step :: rest = here ++ [step] ++ rest := List.append_cons ..
    rw [Files.createAlong, if_neg (Ne.symm hstep), hcons]
    split
    · split
      · exact ih htree hrest ‹_›
      · exact ⟨htree, fun _ _ => rfl⟩
      · rename_i hnone
        split
        · have hnew : files.entryAt (here ++ [step]) ≠ some .directory := by
            rw [hnone]
            exact nofun
          obtain ⟨hnil, hroot⟩ := not_top_of_not_directory hnew
          have hput := htree.put hnil hroot (by rwa [List.dropLast_concat]) hnew .directory
          obtain ⟨hafter, hsame⟩ := ih hput hrest (by rw [entryAt_put hnil hroot, if_pos rfl])
          refine ⟨hafter, fun inside hinside => ?_⟩
          rw [hsame inside hinside, entryAt_put hnil hroot, if_neg]
          rintro rfl
          exact hinside (List.prefix_append _ _)
        · exact ⟨htree, fun _ _ => rfl⟩
    · exact ⟨htree, fun _ _ => rfl⟩

/-- Nothing is created along a way on which everything is a directory. -/
theorem IsTree.createAlong_of_directory (htree : files.IsTree) {steps : List String}
    (hdown : ".." ∉ steps) (hthere : files.entryAt (here ++ steps) = some .directory) :
    (files.createAlong here steps).1 = files := by
  induction steps generalizing here with
  | nil => rfl
  | cons step rest ih =>
    obtain ⟨hstep, hrest⟩ := not_or.mp (mt List.mem_cons.mpr hdown)
    rw [List.append_cons] at hthere
    have hnext : files.entryAt (here ++ [step]) = some .directory := by
      by_cases hlast : rest = []
      · rwa [hlast, List.append_nil] at hthere
      · exact htree.directory hlast hthere
    rw [Files.createAlong, if_neg (Ne.symm hstep), hnext]
    split
    · exact ih hrest hthere
    · rfl

/-- Nothing is created along a way that can be walked. -/
theorem createAlong_of_walk {steps : List String} (hwalk : files.walk here steps = .ok place) :
    files.createAlong here steps.dropLast = (files, .ok ()) := by
  induction steps generalizing here with
  | nil => rfl
  | cons step rest ih =>
    cases rest with
    | nil => rfl
    | cons second others =>
      obtain ⟨-, hstep, hnext⟩ := walk_cons_eq_ok.mp hwalk
      obtain ⟨hdirectory, -⟩ := walk_cons_eq_ok.mp hnext
      rw [List.dropLast_cons_of_ne_nil (List.cons_ne_nil _ _), createAlong, if_pos hstep, hdirectory]
      exact ih hnext

/-- A file that is opened for writing is where its path leads to, with its text, or it can be created
there. -/
theorem of_openForWriting {contents : Bytes}
    (hopen : files.openForWriting path = .ok (place, contents)) :
    files.locate path = .ok place ∧ Place.endsInDirectory path = false ∧
      (contents = [] ∧ files.entryAt place = none ∧ files.entryAt place.dropLast = some .directory ∨
        files.entryAt place = some (.file contents)) := by
  obtain ⟨located, hlocate, hopen⟩ := Except.bind_eq_ok.mp hopen
  split at hopen
  · cases hopen
  · split at hopen
    · cases hopen
    · split at hopen
      · cases hopen
        exact ⟨hlocate, eq_false_of_ne_true ‹_›, Or.inr ‹_›⟩
      · cases hopen
  · split at hopen
    · cases hopen
    · split at hopen
      · split at hopen
        · cases hopen
          exact ⟨hlocate, eq_false_of_ne_true ‹_›, Or.inl ⟨rfl, ‹_›, ‹_›⟩⟩
        · cases hopen
      · cases hopen

/-- No directory is opened for writing. -/
theorem not_directory_of_openForWriting {contents : Bytes}
    (hopen : files.openForWriting path = .ok (place, contents)) :
    files.entryAt place ≠ some .directory := by
  obtain ⟨-, -, ⟨-, hentry, -⟩ | hentry⟩ := of_openForWriting hopen
  · rw [hentry]
    exact nofun
  · rw [hentry]
    exact nofun

end

end PeerTrust.Files
