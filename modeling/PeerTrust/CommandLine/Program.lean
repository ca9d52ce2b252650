import PeerTrust.CommandLine.Arguments
import PeerTrust.CommandLine.LogFilter
import PeerTrust.Settings.Building
import PeerTrust.World.Mutation

/-!
# What the program does

The program checks a chain from a file against the validator and the policy about host names that
are set. It tells the result on its output and what kept it from a result in its log. Connections
are not opened here; a command that needs one goes as far as the name of the server.
-/

namespace PeerTrust.CommandLine

/-- Why a command has no result. -/
inductive Failure where
  /-- The settings cannot be loaded. -/
  | settings (error : TrustError)
  | trust (error : TrustError)
  /-- A file has no chain to be checked. -/
  | noChain (path : String)
  | serverName (name : String)
  /-- A connection is needed. -/
  | connection (address : String)
  deriving DecidableEq, Repr

/-- An error with the error that caused it. -/
def chainMessage (error : TrustError) : String :=
  match error with
  | .unreadable _ _ => s!"{error.message}: {error.detail}"
  | .unwritable _ => s!"{error.message}: {error.detail}"
  | .tls _ => s!"{error.message}: {error.detail}"
  | _ => error.message

/-- The wording of a failure. -/
def Failure.message : Failure → String
  | .settings error => "Failed to load configuration: " ++ error.message
  | .trust error => chainMessage error
  | .noChain path => s!"{path} holds no certificate"
  | .serverName name => s!"Invalid server name '{name}': invalid dns name"
  | .connection address => s!"Failed to connect to {address}"

/-- What a command tells. -/
structure Answer where
  /-- The lines of the output. -/
  lines : List String
  /-- Whether everything that was checked is fine, or why there is no result. -/
  outcome : Except Failure Bool

/-- The line about a verdict. -/
def verdictLine (context : Context) : Verdict → String
  | .ok () => s!"✅ trusted as {context.role.text} ({context.leafSubject})"
  | .error rejection => s!"❌ not trusted as {context.role.text}: {rejection.message}"

/-- The line about a host name that the leaf has. -/
def matchLine (hostname : String) (verifier : Hostname.Verifier) : String :=
  s!"✅ hostname {hostname} matches ({verifier.kind} verifier)"

/-- The line about a host name that the leaf does not have, with the names that it has. -/
def mismatchLine (hostname : String) (info : Certificate.Info) : String :=
  let names := Quoted.quoteAll info.dnsNames
  let addresses := "[" ++ ", ".intercalate (info.addresses.map (·.toText)) ++ "]"
  s!"❌ hostname {hostname} does not match; SAN DNS {names}, SAN IP {addresses}"

/-- Checks the leaf of a chain for a host name. -/
def checkHostname (policy : Settings.HostnamePolicy) (hostname : String) (chain : List Certificate)
    (leaf : Certificate) : Action (Except Failure Bool × List String) := do
  let (verifier, told) := policy.verifier
  Action.tell told
  let (isAccepted, told) := verifier.verify ⟨hostname, none, chain⟩
  Action.tell told
  if isAccepted then return (.ok true, [matchLine hostname verifier])
  else match leaf.info? with
    | none => return (.error (.trust (.configuration .unreadableCertificate)), [])
    | some info => return (.ok false, [mismatchLine hostname info])

/-- Checks a chain from a file. -/
def check (engine : Engine) (now : Nat) (settings : Settings) (request : Request) :
    Action Answer := do
  let validator ← World.buildSet engine settings.trust
  let chain ← Action.ofExcept ((← get).files.certificates request.chain)
  match chain with
  | [] => return ⟨[], .error (.noChain request.chain)⟩
  | leaf :: _ =>
      let context := Context.ofChain request.role chain
      let verdict ← World.validate engine now validator context
      let line := verdictLine context verdict
      match request.hostname with
      | none => return ⟨[line], .ok verdict.isOk⟩
      | some hostname =>
          let (outcome, lines) ← checkHostname settings.hostname hostname chain leaf
          return ⟨line :: lines, outcome.map (verdict.isOk && ·)⟩

/-- The name of the server to connect to, which has to be a proper one. -/
def connect (request : Request) : Answer :=
  let name := request.serverName.getD (hostOf request.address)
  match ServerName.parse? name with
  | none => ⟨[], .error (.serverName name)⟩
  | some _ => ⟨[], .error (.connection request.address)⟩

/-- Carries out a request. -/
def perform (engine : Engine) (now : Nat) (settings : Settings) (request : Request) :
    Action Answer :=
  match request.verb with
  | .check => check engine now settings request
  | .probe => do
      let _ ← World.buildSet engine settings.trust
      return connect request
  | .fetch => return connect request

/-- The answer to a request. -/
def answer? (engine : Engine) (now : Nat) (world : World) (request : Request) : Option Answer :=
  match Settings.load world.files world.environment request.config with
  | .error error => some ⟨[], .error (.settings error)⟩
  | .ok settings => do
      match ← (perform engine now settings request).perform world with
      | (.ok answer, _) => some answer
      | (.error error, _) => some ⟨[], .error (.trust error)⟩

/-- What a run of the program leaves behind. -/
structure Report where
  status : Nat
  output : String
  /-- The errors that are shown in the log. -/
  errors : List String
  deriving DecidableEq, Repr

/-- The text that tells the version. -/
def versionText : String := "mtls-trust 0.4.0\n"

/-- The text that helps. -/
def helpText : String :=
  "Inspect and exercise mTLS trust configuration\n\n" ++
    "Usage: mtls-trust [OPTIONS] <COMMAND>\n\n" ++
    "Commands:\n" ++
    "  check  Validate a PEM certificate chain against the configured trust stack\n" ++
    "  probe  Open a TLS connection using the configured trust stack\n" ++
    "  fetch  Print the certificate chain a server presents, without validating it\n" ++
    "  help   Print this message or the help of the given subcommand(s)\n"

/-- The report on a command line that is not carried out. -/
def Refusal.report : Refusal → Report
  | .help => ⟨0, helpText, []⟩
  | .version => ⟨0, versionText, []⟩
  | _ => ⟨2, "", []⟩

/-- The report on an answer. -/
def Answer.report (answer : Answer) (filter : LogFilter) : Report :=
  let output := String.join (answer.lines.map (· ++ "\n"))
  match answer.outcome with
  | .ok true => ⟨0, output, []⟩
  | .ok false => ⟨1, output, []⟩
  | .error failure => ⟨1, output, if filter.showsErrors then [failure.message] else []⟩

/-- Runs the program, which always returns: validators that are set do not hold themselves. -/
def run (engine : Engine) (now : Nat) (world : World) (arguments : List String) : Report :=
  match Request.parse arguments world.environment with
  | .error refusal => refusal.report
  | .ok request =>
      match answer? engine now world request with
      | some answer => answer.report (.ofText request.logLevel)
      | none => ⟨1, "", []⟩

end PeerTrust.CommandLine
