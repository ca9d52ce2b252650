import PeerTrust.Text.Bytes

/-!
# Files

The files that a program can see, as one value, with what the program is not permitted to do with
them. Paths are texts with components between slashes; relative ones start at the working directory,
absolute ones at a root of their own. What cannot be done leaves a fault with the wording of the
operating system.
-/

namespace PeerTrust

/-- Why a file could not be used. -/
inductive FileFault where
  | notFound
  | exists
  | notDirectory
  | isDirectory
  | notPermitted
  deriving DecidableEq, Repr

/-- The wording of a fault. -/
def FileFault.message : FileFault → String
  | .notFound => "No such file or directory (os error 2)"
  | .notPermitted => "Permission denied (os error 13)"
  | .exists => "File exists (os error 17)"
  | .notDirectory => "Not a directory (os error 20)"
  | .isDirectory => "Is a directory (os error 21)"

/-- What a path leads to. -/
inductive Entry where
  | file (contents : Bytes)
  | directory
  deriving DecidableEq, Repr

/-- A place in the tree of directories. -/
abbrev Place := List String

namespace Place

/-- The parts of a text between slashes. -/
def parts (path : String) : List String := (path.toList.splitOn '/').map String.ofList

/-- Whether a path can only lead to a directory, because it ends in a slash or a dot. -/
def endsInDirectory (path : String) : Bool :=
  match (parts path).getLast? with
  | some last => last == "" || last == "." || last == ".."
  | none => false

/-- Whether a part of a path is a step to somewhere else. -/
def isStep (part : String) : Bool := part != "" && part != "."

/-- The steps of a path. The first step of an absolute path leads to the root. -/
def ofPath (path : String) : Place :=
  match parts path with
  | "" :: rest => if rest.isEmpty then [] else "/" :: rest.filter isStep
  | steps => steps.filter isStep

end Place

/-- What a program may be permitted to do with a file or a directory. -/
inductive Permission where
  /-- To read a file, or the names in a directory. -/
  | read
  /-- To write a file, or to create something in a directory or remove it from there. -/
  | write
  /-- To go through a directory to what is in it. -/
  | search
  deriving DecidableEq, Repr

/-- Every entry but the working directory, with its place. -/
structure Files where
  entries : List (Place × Entry)
  /-- What the program is not permitted to do. -/
  denied : List (Place × Permission)
  deriving DecidableEq, Repr

namespace Files

/-- No files at all. -/
def empty : Files := ⟨[], []⟩

/-- Whether a program is permitted to do something with what is at a place. -/
def permits (files : Files) (place : Place) (permission : Permission) : Bool :=
  !files.denied.contains (place, permission)

/-- The entry at a place. The working directory and the root are directories. -/
def entryAt (files : Files) (place : Place) : Option Entry :=
  if place = [] ∨ place = ["/"] then some .directory
  else (files.entries.find? (·.1 == place)).map (·.2)

/-- Puts an entry at a place, in the position of the one that it replaces, whose permissions it
takes over. A program may do everything with what it has created. -/
def put (files : Files) (place : Place) (entry : Entry) : Files :=
  if files.entries.any (·.1 == place) then
    { files with
      entries := files.entries.map fun old => if old.1 == place then (place, entry) else old }
  else ⟨files.entries ++ [(place, entry)], files.denied.filter (·.1 != place)⟩

/-- Whether a step can be taken from a directory. The root can be gone to from everywhere. -/
def canStep (files : Files) (here : Place) (step : String) : Bool :=
  step == "/" || files.permits here .search

/-- The place that steps lead to from a place. Every place passed on the way has to be a directory
that can be searched; the last place need not exist. -/
def walk (files : Files) : Place → List String → Except FileFault Place
  | here, [] => .ok here
  | here, step :: rest =>
      match files.entryAt here with
      | none => .error .notFound
      | some (.file _) => .error .notDirectory
      | some .directory =>
          if files.canStep here step then
            files.walk (if step = ".." then here.dropLast else here ++ [step]) rest
          else .error .notPermitted

/-- The place that a path leads to. -/
def locate (files : Files) (path : String) : Except FileFault Place :=
  if path = "" then .error .notFound else files.walk [] (Place.ofPath path)

/-- What a path leads to. -/
def stat (files : Files) (path : String) : Except FileFault Entry := do
  match files.entryAt (← files.locate path) with
  | none => throw .notFound
  | some .directory => return .directory
  | some (.file contents) =>
      if Place.endsInDirectory path then throw .notDirectory else return .file contents

/-- Whether a path leads to something. -/
def isThere (files : Files) (path : String) : Bool := (files.stat path).toOption.isSome

/-- Whether a path leads to a directory. -/
def isDirectory (files : Files) (path : String) : Bool :=
  (files.stat path).toOption == some .directory

/-- The contents of a file. -/
def read (files : Files) (path : String) : Except FileFault Bytes := do
  let entry ← files.stat path
  if !files.permits (← files.locate path) .read then throw .notPermitted
  match entry with
  | .directory => throw .isDirectory
  | .file contents => return contents

/-- The names in a directory in dictionary order. -/
def names (files : Files) (path : String) : Except FileFault (List String) := do
  match ← files.stat path with
  | .file _ => throw .notDirectory
  | .directory =>
      let place ← files.locate path
      if !files.permits place .read then throw .notPermitted
      let inside := files.entries.filterMap fun entry =>
        if entry.1.dropLast = place then entry.1.getLast? else none
      return inside.mergeSort (· ≤ ·)

/-- Creates the directories along steps from a directory, as far as they are missing. -/
def createAlong (files : Files) : Place → List String → Files × Except FileFault Unit
  | _, [] => (files, .ok ())
  | here, step :: rest =>
      let next := if step = ".." then here.dropLast else here ++ [step]
      if files.canStep here step then
        match files.entryAt next with
        | some .directory => files.createAlong next rest
        | some (.file _) => (files, .error (if rest.isEmpty then .exists else .notDirectory))
        | none =>
            if files.permits here .write then (files.put next .directory).createAlong next rest
            else (files, .error .notPermitted)
      else (files, .error .notPermitted)

/-- Creates a directory with everything above it, unless it is there. -/
def createDirectories (files : Files) (path : String) : Files × Except FileFault Unit :=
  files.createAlong [] (Place.ofPath path)

/-- Creates the directories above a path. -/
def createParents (files : Files) (path : String) : Files × Except FileFault Unit :=
  files.createAlong [] (Place.ofPath path).dropLast

/-- The place of a file that can be written to, and what it holds now. A file that does not exist
holds nothing. -/
def openForWriting (files : Files) (path : String) : Except FileFault (Place × Bytes) := do
  let place ← files.locate path
  match files.entryAt place with
  | some .directory => throw .isDirectory
  | some (.file contents) =>
      if Place.endsInDirectory path then throw .notDirectory
      else if files.permits place .write then return (place, contents)
      else throw .notPermitted
  | none =>
      if Place.endsInDirectory path then throw .isDirectory
      else if files.entryAt place.dropLast = some .directory then
        if files.permits place.dropLast .write then return (place, []) else throw .notPermitted
      else throw .notFound

/-- Writes a file, creating the directories above it; `change` makes the new contents from the old
ones. -/
def update (files : Files) (path : String) (change : Bytes → Bytes) :
    Files × Except FileFault Unit :=
  match files.createParents path with
  | (files, .error fault) => (files, .error fault)
  | (files, .ok ()) =>
      match files.openForWriting path with
      | .error fault => (files, .error fault)
      | .ok (place, contents) => (files.put place (.file (change contents)), .ok ())

/-- Appends to a file, creating it and the directories above it. -/
def append (files : Files) (path : String) (added : Bytes) : Files × Except FileFault Unit :=
  files.update path (· ++ added)

/-- Replaces the contents of a file, creating it and the directories above it. -/
def write (files : Files) (path : String) (contents : Bytes) : Files × Except FileFault Unit :=
  files.update path fun _ => contents

/-- Removes what a path leads to, a directory with everything below it. -/
def remove (files : Files) (path : String) : Files × Except FileFault Unit :=
  match files.stat path, files.locate path with
  | .error fault, _ => (files, .error fault)
  | _, .error fault => (files, .error fault)
  | .ok _, .ok place =>
      if place = [] ∨ place = ["/"] ∨ !files.permits place.dropLast .write then
        (files, .error .notPermitted)
      else
        (⟨files.entries.filter fun entry => !place.isPrefixOf entry.1,
          files.denied.filter fun denial => !place.isPrefixOf denial.1⟩, .ok ())

/-- Takes a permission from the program, for what a path leads to. -/
def deny (files : Files) (path : String) (permission : Permission) : Files :=
  { files with denied := files.denied ++ [(Place.ofPath path, permission)] }

end Files

end PeerTrust
