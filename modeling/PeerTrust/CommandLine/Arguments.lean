import PeerTrust.CommandLine.Parameter
import PeerTrust.Trust.Context

/-!
# Reading arguments

A command line is read argument by argument. The value of an option may stand in the same argument
or in the next one; it is looked at only when the next option or the end comes, so that an unknown
word is reported before a wrong value.
-/

namespace PeerTrust.CommandLine

/-- Why a command line is not carried out. -/
inductive Refusal where
  /-- Help was asked for. -/
  | help
  /-- The version was asked for. -/
  | version
  /-- There are no arguments at all. -/
  | nothingGiven
  | missingVerb
  | unknownVerb
  | unknownArgument
  | missingParameter
  | invalidValue
  /-- A value is given to an option that takes none. -/
  | unexpectedValue
  | repeatedParameter
  deriving DecidableEq, Repr

/-- What was read in a scope. -/
structure Scan where
  scope : Scope
  given : List (Parameter × String)
  /-- The last parameter that was named, with its value if that was read, too. -/
  pending : Option (Parameter × Option String)
  /-- Whether only values without names may follow. -/
  isTrailing : Bool
  deriving Repr

namespace Scan

/-- Nothing was read yet. -/
def start (scope : Scope) : Scan := ⟨scope, [], none, false⟩

/-- Whether the next argument may be the value of the last parameter. -/
def awaitsValue (scan : Scan) : Bool :=
  match scan.pending with
  | some (_, none) => true
  | _ => false

/-- Accepts a value of a parameter. -/
def accept (scan : Scan) (parameter : Parameter) (value : String) : Except Refusal Scan :=
  if (scan.given.lookup parameter).isSome then .error .repeatedParameter
  else if ¬parameter.accepts value then .error .invalidValue
  else .ok { scan with given := scan.given ++ [(parameter, value)] }

/-- Accepts the value of the last parameter, which has to have one. -/
def settle (scan : Scan) : Except Refusal Scan :=
  match scan.pending with
  | none => .ok scan
  | some (_, none) => .error .invalidValue
  | some (parameter, some value) => { scan with pending := none }.accept parameter value

/-- Reads an option with the value in the same argument, if there is one. -/
def readSwitch (scan : Scan) (value : Option String) : Switch → Except Refusal Scan
  | .help => do
      let _ ← scan.settle
      throw .help
  | .version => do
      let _ ← scan.settle
      throw .version
  | .value parameter => do
      let scan ← scan.settle
      match value with
      | some value => scan.accept parameter value
      | none => return { scan with pending := some (parameter, none) }

/-- Reads an option by its long name, behind the hyphens. -/
def readLong (scan : Scan) (text : List Char) : Except Refusal Scan :=
  let name := String.ofList (text.takeWhile (· ≠ '='))
  let value : Option String := match text.dropWhile (· ≠ '=') with
    | _ :: value => some (String.ofList value)
    | [] => none
  match scan.scope.long.lookup name, value with
  | none, _ => .error .unknownArgument
  | some (.value parameter), value => scan.readSwitch value (.value parameter)
  | some _, some _ => .error .unexpectedValue
  | some switch, none => scan.readSwitch none switch

/-- Reads an option by its short name, behind the hyphen. An equals sign may stand before a
value. -/
def readShort (scan : Scan) (name : Char) (rest : List Char) : Except Refusal Scan :=
  match scan.scope.short.lookup name with
  | none => .error .unknownArgument
  | some switch =>
      let value : Option String := match rest with
        | [] => none
        | '=' :: value => some (String.ofList value)
        | value => some (String.ofList value)
      scan.readSwitch value switch

/-- Reads an argument that is neither an option nor the value of one. -/
def readPlain (scan : Scan) (argument : String) : Except Refusal Scan :=
  let hasAddress : Bool := (scan.given.lookup .address).isSome ||
    scan.pending.any fun pending => pending.1 == .address
  if scan.scope.takesAddress ∧ ¬hasAddress then do
    let scan ← scan.settle
    return { scan with pending := some (.address, some argument) }
  else
    let isVerb := argument == helpWord || (Verb.ofWord? argument).isSome
    if scan.scope = .program ∧ ¬(scan.isTrailing ∧ isVerb) then .error .unknownVerb
    else .error .unknownArgument

/-- Reads an argument that may be the value of the last parameter. -/
def readValue (scan : Scan) (argument : String) : Except Refusal Scan :=
  match scan.pending with
  | some (parameter, none) =>
      if scan.isTrailing then scan.readPlain argument
      else .ok { scan with pending := some (parameter, some argument) }
  | _ => scan.readPlain argument

/-- Reads an argument. -/
def read (scan : Scan) (argument : String) : Except Refusal Scan :=
  if scan.isTrailing then scan.readValue argument
  else match argument.toList with
    | ['-', '-'] => .ok { scan with isTrailing := true }
    | '-' :: '-' :: text => scan.readLong text
    | '-' :: name :: rest => scan.readShort name rest
    | _ => scan.readValue argument

/-- The values of the parameters that are only given by variables. -/
def fromVariables (scan : Scan) (environment : List (String × String)) :
    List (Parameter × String) :=
  variableNames.filterMap fun (parameter, name) =>
    if (scan.given.lookup parameter).isSome then none
    else (environment.lookup name).map (parameter, ·)

/-- Looks at the values of variables. -/
def checkVariables (scan : Scan) (environment : List (String × String)) : Except Refusal Unit :=
  if (scan.fromVariables environment).all fun (parameter, value) => parameter.accepts value then
    .ok ()
  else .error .invalidValue

/-- Ends the arguments of a scope. -/
def finish (scan : Scan) (environment : List (String × String)) : Except Refusal Scan := do
  let scan ← scan.settle
  scan.checkVariables environment
  match scan.scope.required with
  | some parameter =>
      if (scan.given.lookup parameter).isNone then throw .missingParameter
  | none => pure ()
  return scan

end Scan

/-- What a command line asks for. -/
structure Request where
  config : Option String
  logLevel : String
  logFormat : Option String
  verb : Verb
  /-- The values behind the verb. -/
  given : List (Parameter × String)
  deriving DecidableEq, Repr

namespace Request

/-- The path of the chain to be checked. -/
def chain (request : Request) : String := (request.given.lookup .chain).getD ""

/-- The side that presented the chain to be checked. -/
def role (request : Request) : Role :=
  if request.given.lookup .role = some "server" then .server else .client

/-- The host name that the leaf is checked for. -/
def hostname (request : Request) : Option String := request.given.lookup .hostname

/-- The address to connect to. -/
def address (request : Request) : String := (request.given.lookup .address).getD ""

/-- The name of the server at the address, if it is told. -/
def serverName (request : Request) : Option String := request.given.lookup .serverName

end Request

/-- Reads the arguments behind a verb. -/
def readBehindVerb (environment : List (String × String)) :
    Scan → List String → Except Refusal Scan
  | scan, [] => scan.finish environment
  | scan, argument :: rest => do readBehindVerb environment (← scan.read argument) rest

/-- Reads the words behind the word that asks for help: at most one verb. -/
def readHelp : List String → Refusal
  | [] => .help
  | [word] => if word = helpWord ∨ (Verb.ofWord? word).isSome then .help else .unknownVerb
  | _ => .unknownVerb

/-- The request that both parts of a command line make. What stands behind the verb comes before
what stands before it, and variables come last. -/
def combine (environment : List (String × String)) (verb : Verb) (before behind : Scan) :
    Request :=
  let value (parameter : Parameter) : Option String :=
    behind.given.lookup parameter <|> before.given.lookup parameter <|>
      (variableNames.lookup parameter).bind fun name => environment.lookup name
  ⟨value .config, (value .logLevel).getD "info", value .logFormat, verb, behind.given⟩

/-- Ends a command line without a verb. -/
def finishWithoutVerb (environment : List (String × String)) (scan : Scan) : Refusal :=
  match scan.finish environment with
  | .error refusal => refusal
  | .ok scan =>
      if scan.given.isEmpty ∧ (scan.fromVariables environment).isEmpty then .nothingGiven
      else .missingVerb

/-- Reads the arguments before the verb and then all others. -/
def readArguments (environment : List (String × String)) :
    Scan → List String → Except Refusal Request
  | scan, [] => .error (finishWithoutVerb environment scan)
  | scan, argument :: rest =>
      if scan.isTrailing ∨ scan.awaitsValue then
        do readArguments environment (← scan.read argument) rest
      else if argument = helpWord then .error (readHelp rest)
      else match Verb.ofWord? argument with
        | none => do readArguments environment (← scan.read argument) rest
        | some verb => do
            let behind ← readBehindVerb environment (.start (.verb verb)) rest
            let before ← scan.finish environment
            return combine environment verb before behind

/-- Reads a command line. -/
def Request.parse (arguments : List String) (environment : List (String × String)) :
    Except Refusal Request :=
  readArguments environment (.start .program) arguments

end PeerTrust.CommandLine
