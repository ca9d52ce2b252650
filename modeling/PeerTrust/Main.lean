import PeerTrust.CommandLine.Places
import Std.Time.DateTime.Timestamp

/-!
# The program

Reads what the program needs, runs it, and prints what it tells. The output goes to the standard
output and the errors to the standard error.
-/

namespace PeerTrust.CommandLine

/-- The variables of the process. -/
def readEnvironment : IO (List (String × String)) := do
  let bytes ← IO.FS.readBinFile "/proc/self/environ"
  let entries := (Utf8.lossy bytes.data.toList).splitOn (String.singleton (Char.ofNat 0))
  return entries.filterMap fun entry =>
    match entry.splitOn "=" with
    | name :: part :: parts => some (name, "=".intercalate (part :: parts))
    | _ => none

/-- Adds a file that must not be read, or must not even be looked for in the directory above it. -/
def lookDenied (files : Files) (path : String) : IO Files := do
  let here ← IO.currentDir
  let files := files.place path (.file [])
  if ← (here / path).pathExists then return files.deny path .read
  match ← (Files.above path).findM? fun (directory : String) => (here / directory).isDir with
  | some directory => return files.deny directory .search
  | none => return files

/-- Adds what is at a path to the known files, if something is there. -/
def look (files : Files) (path : String) : IO Files := do
  let place := (← IO.currentDir) / path
  if ← place.isDir then
    let files := files.place path .directory
    try
      discard place.readDir
      return files
    catch _ => return files.deny path .read
  try
    let contents ← IO.FS.readBinFile place
    return files.place path (.file contents.data.toList)
  catch
    | .permissionDenied .. => lookDenied files path
    | _ => return files

/-- Adds a directory with the files in it to the known files. -/
def lookInside (files : Files) (path : String) : IO Files := do
  let place := (← IO.currentDir) / path
  if ← place.isDir then
    let files := files.place path .directory
    try
      (← place.readDir).foldlM (fun files entry => look files (Platform.below path entry.fileName))
        files
    catch _ => return files.deny path .read
  else return files

/-- The files that a run needs. The file with the settings is needed to find out about others. -/
def lookAround (environment : List (String × String)) (request : Request) : IO Files := do
  let files ← request.config.toList.foldlM look .empty
  let named := match Settings.load files environment request.config with
    | .ok settings => settings.places
    | .error _ => []
  let files ← (named ++ request.places ++ Platform.files environment).foldlM look files
  (Platform.directories environment).foldlM lookInside files

/-- The seconds since the beginning of 1970. -/
def readClock : IO Nat := do
  return (← Std.Time.Timestamp.now).toSecondsSinceUnixEpoch.toInt.toNat

end PeerTrust.CommandLine

open PeerTrust CommandLine in
/-- Runs the program. -/
def main (arguments : List String) : IO UInt32 := do
  let environment ← readEnvironment
  let files ← match Request.parse arguments environment with
    | .ok request => lookAround environment request
    | .error _ => pure .empty
  let report := run .paths (← readClock) (.start files environment) arguments
  IO.print report.output
  report.errors.forM IO.eprintln
  return UInt32.ofNat report.status
