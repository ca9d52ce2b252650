/-!
# Words of the command line

The verbs that name what the program does, and the parameters that each part of the command line
knows. Parameters of the whole program may stand on both sides of the verb.
-/

namespace PeerTrust.CommandLine

/-- What the program can do. -/
inductive Verb where
  | check
  | probe
  | fetch
  deriving DecidableEq, Repr

/-- The word for a verb. -/
def Verb.word : Verb → String
  | .check => "check"
  | .probe => "probe"
  | .fetch => "fetch"

/-- The verbs. -/
def Verb.all : List Verb := [.check, .probe, .fetch]

/-- The verb of a word. -/
def Verb.ofWord? (word : String) : Option Verb := Verb.all.find? (·.word == word)

/-- The word that asks for help. -/
def helpWord : String := "help"

/-- Something that is given a value. -/
inductive Parameter where
  | config
  | logLevel
  | logFormat
  | chain
  | role
  | hostname
  | serverName
  /-- The address of a server, which has no name on the command line. -/
  | address
  deriving DecidableEq, Repr

/-- What the name of an option stands for. -/
inductive Switch where
  | value (parameter : Parameter)
  | help
  | version
  deriving DecidableEq, Repr

/-- A part of the command line: before the verb, or behind it. -/
inductive Scope where
  | program
  | verb (verb : Verb)
  deriving DecidableEq, Repr

namespace Scope

/-- The options that every scope knows, by their long names. -/
def common : List (String × Switch) :=
  [("config", .value .config), ("log-level", .value .logLevel), ("log-format", .value .logFormat),
    ("help", .help)]

/-- The options of a scope by their long names. -/
def long : Scope → List (String × Switch)
  | .program => ("version", .version) :: common
  | .verb .check =>
      [("chain", .value .chain), ("role", .value .role), ("hostname", .value .hostname)] ++ common
  | .verb _ => ("server-name", .value .serverName) :: common

/-- The options of a scope by their short names. -/
def short : Scope → List (Char × Switch)
  | .program => [('c', .value .config), ('h', .help), ('V', .version)]
  | .verb _ => [('c', .value .config), ('h', .help)]

/-- Whether a scope takes the address of a server. -/
def takesAddress : Scope → Bool
  | .verb .probe => true
  | .verb .fetch => true
  | _ => false

/-- The parameter that a scope cannot do without. -/
def required : Scope → Option Parameter
  | .program => none
  | .verb .check => some .chain
  | .verb _ => some .address

end Scope

/-- The parameters of the whole program that have a variable, with its name. -/
def variableNames : List (Parameter × String) :=
  [(.config, "MTLS_TRUST_CONFIG"), (.logLevel, "MTLS_TRUST_LOG_LEVEL"),
    (.logFormat, "MTLS_TRUST_LOG_FORMAT")]

/-- Whether a parameter can have a value. Paths are not empty, and roles are words. -/
def Parameter.accepts (parameter : Parameter) (value : String) : Bool :=
  match parameter with
  | .config => value != ""
  | .chain => value != ""
  | .role => ["client", "server"].contains value
  | _ => true

end PeerTrust.CommandLine
