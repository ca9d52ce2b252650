import PeerTrust.CommandLine.Program

/-!
# The files that a run needs

Which files a run of the program looks at. They are known from the arguments and the environment
and, as far as the settings name them, from the settings.
-/

namespace PeerTrust

/-- The files that settings name. -/
def Settings.places (settings : Settings) : List String :=
  settings.trust.stores.map (·.path) ++
    (settings.trust.pool.bind (·.path)).toList ++
    settings.identity.certificates.toList ++ settings.identity.key.toList

/-- The file of the platform's anchors. -/
def Platform.files (environment : List (String × String)) : List String :=
  (value? environment fileVariable).toList

/-- The directories of the platform's anchors. -/
def Platform.directories (environment : List (String × String)) : List String :=
  ((value? environment directoriesVariable).map (·.splitOn ":")).getD []

/-- The files that a request names. -/
def CommandLine.Request.places (request : CommandLine.Request) : List String :=
  (request.given.lookup .chain).toList

namespace Files

/-- Puts an entry to a path, with the directories above it, whatever is permitted there. -/
def place (files : Files) (path : String) (entry : Entry) : Files :=
  let unlocked := { files with denied := [] }
  let seen := match entry with
    | .directory => (unlocked.createDirectories path).1
    | .file contents => (unlocked.write path contents).1
  { seen with denied := files.denied }

/-- The directories above a path, the nearest first. -/
def above (path : String) : List String :=
  let parts := path.splitOn "/"
  (List.range parts.length).reverse.map fun count => "/".intercalate (parts.take count)

end Files

end PeerTrust
