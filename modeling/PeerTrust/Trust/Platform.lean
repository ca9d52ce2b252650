import PeerTrust.Trust.Store

/-!
# The anchors of the platform

Where a system keeps its anchors is known to a library, so the search for them is a parameter. The
environment can name a file and directories, whose anchors take the place of the system's own; what
cannot be read there is reported and left out.
-/

namespace PeerTrust

namespace Platform

/-- What was found of the platform's anchors: certificates, and problems with some of them. -/
structure Findings where
  certificates : List Certificate
  problems : List String
  deriving Repr

/-- No findings. -/
def Findings.none : Findings := ⟨[], []⟩

/-- The findings of two places, one after the other. -/
def Findings.append (first second : Findings) : Findings :=
  ⟨first.certificates ++ second.certificates, first.problems ++ second.problems⟩

instance : Append Findings := ⟨Findings.append⟩

/-- Bytes as a list of numbers. -/
def numbersText (bytes : Bytes) : String :=
  "[" ++ ", ".intercalate (bytes.map fun byte => toString byte.toNat) ++ "]"

/-- The problem that a fault in a text is. -/
def faultProblem : Pem.Fault → String
  | .contents fault => "base64 decode error: " ++ fault.message
  | .endMissing label => "missing section end marker: " ++ numbersText label
  | .illegalStart line => "illegal section start: " ++ numbersText line

/-- The problem that a place cannot be used. -/
def placeProblem (path : String) (fault : FileFault) : String := s!"{fault.message} at '{path}'"

/-- The findings in one section of a file. -/
def sectionFindings : Except Pem.Fault Pem.Section → Findings
  | .ok found =>
      if found.kind = .certificate then ⟨[⟨found.contents⟩], []⟩ else Findings.none
  | .error fault => ⟨[], ["failed to read PEM from file: " ++ faultProblem fault]⟩

/-- The findings in a file. Sections after a faulty one count. -/
def fileFindings (files : Files) (path : String) : Findings :=
  match files.read path with
  | .error fault => ⟨[], ["failed to read PEM from file: " ++ placeProblem path fault]⟩
  | .ok text =>
      (Pem.read text).foldl (fun found part => found ++ sectionFindings part) Findings.none

/-- A path below a directory. -/
def below (directory name : String) : String :=
  if directory = "" ∨ directory.endsWith "/" then directory ++ name else directory ++ "/" ++ name

/-- The findings in the files of a directory. -/
def directoryFindings (files : Files) (directory : String) : Findings :=
  match files.names directory with
  | .error fault => ⟨[], ["opening directory: " ++ placeProblem directory fault]⟩
  | .ok names =>
      names.foldl
        (fun found name =>
          let path := below directory name
          if files.isDirectory path then found else found ++ fileFindings files path)
        Findings.none

/-- The value of a variable. -/
def value? (environment : List (String × String)) (name : String) : Option String :=
  (environment.find? (·.1 == name)).map (·.2)

/-- The variable that names a file of anchors. -/
def fileVariable : String := "SSL_CERT_FILE"

/-- The variable that names directories of anchors, with colons between them. -/
def directoriesVariable : String := "SSL_CERT_DIR"

/-- Certificates in the order of their bytes, each once. -/
def sorted (certificates : List Certificate) : List Certificate :=
  extendUnique [] (certificates.mergeSort fun a b => !Bytes.before b.der a.der)

/-- The anchors of the file and the directories that the environment names. -/
def named (files : Files) (environment : List (String × String)) : Findings :=
  let inFile := match value? environment fileVariable with
    | some path => fileFindings files path
    | none => Findings.none
  let directories := match value? environment directoriesVariable with
    | some value => value.splitOn ":"
    | none => []
  let found := directories.foldl (fun found path => found ++ directoryFindings files path) inFile
  ⟨sorted found.certificates, found.problems⟩

end Platform

end PeerTrust
