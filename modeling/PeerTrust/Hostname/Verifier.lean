import PeerTrust.Hostname.Pattern
import PeerTrust.Net.ServerName
import PeerTrust.Trust.Decision
import PeerTrust.Trust.Event

/-!
# Host name verification

Whether a certificate is the one of the host that was meant. By default the leaf has to name the
host, as an address or by a pattern; the basic policy compares the name with the host of the
connection.
-/

namespace PeerTrust.Hostname

/-- A name to be verified. -/
structure Request where
  hostname : String
  /-- The host that the connection was opened to. -/
  peerHost : Option String
  /-- The chain that the peer presented, leaf first. -/
  certificates : List Certificate
  deriving DecidableEq, Repr

/-- A custom decision about a name, which may ask the policy that it enhances. -/
abbrev Enhancer := Request → Decision Request Bool

/-- A policy about names. -/
inductive Verifier where
  /-- The leaf names the host. -/
  | names
  /-- The name is the host of the connection. -/
  | basic
  /-- Every name is accepted. -/
  | acceptAll
  /-- A custom decision on top of a policy. -/
  | enhanceable (inner : Verifier) (enhancer : Option Enhancer)

/-- A name without square brackets around it. -/
def literal (hostname : String) : String := String.ofList (withoutBrackets hostname.toList)

/-- Whether the leaf of a chain names a host. An address has to be named as an address. -/
def isNamed (hostname : String) (certificates : List Certificate) : Bool :=
  match certificates.head?.bind Certificate.info? with
  | none => false
  | some info =>
      match IpAddress.parse? (literal hostname) with
      | some address => info.addresses.contains address
      | none => info.dnsNames.any (matchesPattern hostname)

namespace Verifier

/-- The name of a policy. -/
def kind : Verifier → String
  | .names => "default"
  | .basic => "basic"
  | .acceptAll => "unsafe"
  | .enhanceable _ _ => "enhanceable"

/-- Whether a name is accepted, and what is told to the log. -/
def verify : Verifier → Request → Bool × List Event
  | .names, request =>
      noted "default" request (isNamed request.hostname request.certificates, [])
  | .basic, request =>
      noted "basic" request
        ((request.peerHost.map Letters.lowerCase) == some (Letters.lowerCase request.hostname), [])
  | .acceptAll, _ => (true, [])
  | .enhanceable inner none, request => noted "enhanceable" request (inner.verify request)
  | .enhanceable inner (some enhancer), request =>
      noted "enhanceable" request ((enhancer request).resolve inner.verify)
where
  /-- A refusal is told to the log. -/
  noted (kind : String) (request : Request) (outcome : Bool × List Event) : Bool × List Event :=
    if outcome.1 then outcome
    else (false, outcome.2 ++ [.hostnameFailed request.hostname kind])

/-- What a policy shows of itself. -/
def debugText : Verifier → String
  | .names => "San"
  | .basic => "Basic"
  | .acceptAll => "Unsafe"
  | .enhanceable inner enhancer =>
      s!"Enhanceable(EnhanceableHostnameVerifier \x7b base: {inner.debugText}, has_enhancer: " ++
        s!"{Event.flagText enhancer.isSome} \x7d)"

end Verifier

/-- A condition on a name. -/
inductive NameTest where
  | endsIn (ending : String)
  | hostnameIs (name : String)
  | peerHostIs (host : Option String)
  | certificateCount (count : Nat)
  deriving DecidableEq, Repr

/-- Whether a condition holds. -/
def NameTest.passes (request : Request) : NameTest → Bool
  | .endsIn ending => ending.toList.isSuffixOf request.hostname.toList
  | .hostnameIs name => request.hostname == name
  | .peerHostIs host => request.peerHost == host
  | .certificateCount count => request.certificates.length == count

/-- The custom decision by a criterion, in which the enhanced policy is the one that is
consulted. -/
def Enhancer.ofCriterion (criterion : Criterion NameTest) : Enhancer := fun request =>
  criterion.decide (NameTest.passes request) request id

end PeerTrust.Hostname
