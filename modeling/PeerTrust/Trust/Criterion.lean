import PeerTrust.Trust.Validator

/-!
# Criteria for chains

Conditions on contexts from which custom decisions and the predicates of pools are composed.
-/

namespace PeerTrust

/-- A condition on a context. -/
inductive ChainTest where
  /-- The kind of the validator that is enhanced. -/
  | kindIs (name : String)
  | subjectContains (text : String)
  | roleIs (name : String)
  | authTypeIs (name : String)
  | chainLength (length : Nat)
  | intermediateCount (count : Nat)
  | serverNameIs (name : Option String)
  | peerAddressIs (text : Option String)
  deriving DecidableEq, Repr

/-- Whether one text occurs in another. -/
def occursIn (part : List Char) : List Char → Bool
  | [] => part.isEmpty
  | c :: rest => part.isPrefixOf (c :: rest) || occursIn part rest

/-- Whether a condition holds. `kind` is that of the enhanced validator, if there is one. -/
def ChainTest.passes (kind : Option Kind) (context : Context) : ChainTest → Bool
  | .kindIs name => kind.map Kind.text == some name
  | .subjectContains text => occursIn text.toList context.leafSubject.toList
  | .roleIs name => context.role.text == name
  | .authTypeIs name => context.authType == name
  | .chainLength length => context.chain.length == length
  | .intermediateCount count => context.intermediates.length == count
  | .serverNameIs name => context.transport.bind (·.serverName) == name
  | .peerAddressIs text =>
      (context.transport.bind (·.peerAddress)).map SocketAddress.toText == text

/-- The custom decision by a criterion, in which the enhanced validator is the one that is
consulted. It is asked for its kind first. -/
def Enhancer.ofCriterion (criterion : Criterion ChainTest) : Enhancer := fun context =>
  .consult ⟨[], .kind⟩ fun reply =>
    criterion.decide (ChainTest.passes reply.kind? context) ⟨[], .verdict context⟩ Reply.isTrusted

/-- The predicate of a pool by a criterion. There is nobody to consult. -/
def Pool.predicateOfCriterion (criterion : Criterion ChainTest) : Context → Bool := fun context =>
  criterion.holds (ChainTest.passes none context)

end PeerTrust
