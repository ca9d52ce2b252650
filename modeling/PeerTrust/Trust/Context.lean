import PeerTrust.Certificate.Info
import PeerTrust.Path.Fault

/-!
# What is validated

A context is a chain of certificates with the role of the peer who presented it and what is known
about the connection.
-/

namespace PeerTrust

/-- The side of a connection that presented a chain. -/
inductive Role where
  | client
  | server
  deriving DecidableEq, Repr

/-- The name of a role. -/
def Role.text : Role → String
  | .client => "client"
  | .server => "server"

/-- What the certificate of a peer has to be allowed for. -/
def Role.purpose : Role → Purpose
  | .client => .clientAuthentication
  | .server => .serverAuthentication

/-- What is known about a connection. -/
structure Transport where
  /-- The name that the connection is opened to. -/
  serverName : Option String
  peerAddress : Option SocketAddress
  deriving DecidableEq, Repr

/-- A chain to be validated, leaf first. -/
structure Context where
  role : Role
  chain : List Certificate
  authType : String
  transport : Option Transport
  deriving DecidableEq, Repr

namespace Context

/-- A context whose authentication type is that of the leaf. -/
def ofChain (role : Role) (chain : List Certificate) : Context where
  role := role
  chain := chain
  authType := (chain.head?.map Certificate.authType).getD Certificate.unknownFamily
  transport := none

/-- The same chain in another role. -/
def withRole (context : Context) (role : Role) : Context := { context with role }

/-- The certificate of the peer itself. -/
def leaf? (context : Context) : Option Certificate := context.chain.head?

/-- Everything after the leaf. -/
def intermediates (context : Context) : List Certificate := context.chain.tail

/-- The subject of the leaf for a line of a log. -/
def leafSubject (context : Context) : String :=
  match context.leaf? with
  | some leaf => leaf.subjectText
  | none => "<empty chain>"

end Context

end PeerTrust
