import PeerTrust.Tls.Fault

/-!
# Rejections

Why a chain is not trusted. The rejection of several validators holds the rejections of all of them,
and its reasons are those of its parts.
-/

namespace PeerTrust

/-- Why a chain is not trusted. -/
inductive Rejection where
  /-- No path leads to an anchor. -/
  | untrusted (fault : TlsFault)
  | emptyChain
  | declined
  /-- Every one of several validators rejected the chain. -/
  | all (rejections : List Rejection)

namespace Rejection

mutual

/-- The reasons that are not composed of others, in order. -/
def reasons : Rejection → List Rejection
  | .untrusted fault => [.untrusted fault]
  | .emptyChain => [.emptyChain]
  | .declined => [.declined]
  | .all rejections => reasonsOfAll rejections

/-- The reasons of several rejections, one after the other. -/
def reasonsOfAll : List Rejection → List Rejection
  | [] => []
  | rejection :: rest => reasons rejection ++ reasonsOfAll rest

end

mutual

/-- The wording of a rejection. -/
def message : Rejection → String
  | .untrusted fault => "certificate chain not trusted: " ++ fault.message
  | .emptyChain => "empty certificate chain"
  | .declined => "certificate declined by trust predicate"
  | .all rejections =>
      s!"all {rejections.length} trust validators rejected the chain: [" ++
        "; ".intercalate (messages rejections) ++ "]"

/-- The wordings of several rejections. -/
def messages : List Rejection → List String
  | [] => []
  | rejection :: rest => message rejection :: messages rest

end

/-- The fault that ends a handshake because of a rejection. -/
def tlsFault : Rejection → TlsFault
  | .untrusted fault => fault
  | .emptyChain => .noCertificates
  | .declined => .refusedByPolicy
  | .all _ => .refusedByPolicy

end Rejection

/-- A decision about a chain. -/
abbrev Verdict := Except Rejection Unit

/-- Whether a verdict trusts the chain. -/
def Verdict.isTrusted : Verdict → Bool
  | .ok () => true
  | .error _ => false

end PeerTrust
