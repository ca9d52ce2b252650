import PeerTrust.Certificate.Info
import PeerTrust.Path.Requirements
import PeerTrust.Signature.Method

/-!
# The search for a path

A path leads from a certificate over intermediates, each the issuer of the one before, to an anchor.
The search looks for an anchor first and else tries the intermediates in the order in which they
were presented. It ends at the first path whose certificates fulfil their requirements and whose
signatures are right.
-/

namespace PeerTrust.Path

/-- A key: the contents of its algorithm identifier, and its octets. -/
def keyParts (key : Bytes) : Except Fault (Bytes × Bytes) :=
  toEnd .trailingData
    (fun bytes => do
      let (identifier, rest) ← expect Asn1.Der.sequence bytes
      let (value, rest) ← octets rest
      return ((identifier, value), rest))
    key

/-- Verifies a signature by one method, under a key that has to be of the right kind. -/
def verifyBy (method : SignatureMethod) (key message signature : Bytes) : Except Fault Unit := do
  let (identifier, value) ← keyParts key
  if identifier ≠ method.keyIdentifier then throw .unsupportedAlgorithmForKey
  else if method.verify value message signature then return ()
  else throw .badSignature

/-- Verifies a signature by the first of several methods that the key is of the right kind for.
`refusal` is the fault if there is none. -/
def verifyByFirst (refusal : Fault) (key message signature : Bytes) :
    List SignatureMethod → Except Fault Unit
  | [] => .error refusal
  | method :: others =>
      match verifyBy method key message signature with
      | .error .unsupportedAlgorithmForKey =>
          verifyByFirst .unsupportedAlgorithmForKey key message signature others
      | outcome => outcome

/-- Verifies the signature of a certificate under a key. -/
def Node.verifySignature (node : Node) (key : Bytes) : Except Fault Unit :=
  verifyByFirst .unsupportedAlgorithm key node.signed node.signature
    (SignatureMethod.withIdentifier node.algorithm)

/-- What a search may still spend. -/
structure Budget where
  signatures : Nat
  steps : Nat
  deriving DecidableEq, Repr

/-- A search that keeps what it spends, also where it fails. -/
abbrev Search := ExceptT Fault (StateM Budget)

/-- Pays for a signature. -/
def spendSignature : Search Unit := do
  let budget ← get
  match budget.signatures with
  | 0 => throw .tooManySignatures
  | left + 1 => set { budget with signatures := left }

/-- Pays for a step to an intermediate. -/
def spendStep : Search Unit := do
  let budget ← get
  match budget.steps with
  | 0 => throw .tooManySteps
  | left + 1 => set { budget with steps := left }

/-- Does one attempt after the other until one succeeds or ends the search; `worst` is the fault to
report if none does. -/
def tryEach {α : Type} (attempt : α → Search Unit) : Fault → List α → Search Unit
  | worst, [] => throw worst
  | worst, candidate :: others =>
      tryCatch (attempt candidate) fun fault =>
        if fault.isFatal then throw fault
        else tryEach attempt (worst.orWorse fault) others

/-- Verifies the signatures of a path from a key down to the leaf. -/
def verifyDown : Bytes → List Node → Search Unit
  | _, [] => return ()
  | key, node :: below => do
      spendSignature
      match node.verifySignature key with
      | .error fault => throw fault
      | .ok () => verifyDown node.key below

/-- What a path is looked for with. -/
structure Query where
  anchors : List Anchor
  intermediates : List Certificate
  purpose : Purpose
  now : Nat

/-- Ends a path, highest certificate first, at an anchor. -/
def endAt (path : List Node) (issuer : Bytes) (anchor : Anchor) : Search Unit :=
  if anchor.subject = issuer then verifyDown anchor.key path else throw .unknownIssuer

/-- Whether a certificate has the name and the key of one in the path. -/
def isInPath (node : Node) (path : List Node) : Bool :=
  path.any fun other => other.key == node.key && other.subject == node.subject

/-- The number of intermediates that a path has at most. -/
def depthLimit : Nat := 6

/-- Extends a path upwards. `higher` goes on with an intermediate, if the path may grow. -/
def extend (query : Query) (higher : Option (Nat → Node → List Node → Search Unit))
    (authoritiesBelow : Nat) (node : Node) (below : List Node) : Search Unit := do
  match node.check query.now query.purpose below.isEmpty authoritiesBelow with
  | .error fault => throw fault
  | .ok () =>
      let toAnchor := tryEach (endAt (node :: below) node.issuer) .unknownIssuer query.anchors
      tryCatch toAnchor fun fault =>
        if fault.isFatal then throw fault
        else tryEach (step higher) fault query.intermediates
where
  /-- Goes on with an intermediate that has the name of the issuer and is not in the path. -/
  step (higher : Option (Nat → Node → List Node → Search Unit)) (candidate : Certificate) :
      Search Unit := do
    match Node.parse candidate.der with
    | .error fault => throw fault
    | .ok issuer =>
        if issuer.subject ≠ node.issuer ∨ isInPath issuer (node :: below) then
          throw .unknownIssuer
        else
          spendStep
          match higher with
          | none => throw .pathTooDeep
          | some higher =>
              higher (if below.isEmpty then authoritiesBelow else authoritiesBelow + 1) issuer
                (node :: below)

/-- Extends a path that may take up as many further intermediates as given. -/
def searchFrom (query : Query) : Nat → Nat → Node → List Node → Search Unit
  | 0 => extend query none
  | room + 1 => extend query (some (searchFrom query room))

/-- What every search starts with. -/
def Budget.full : Budget := ⟨100, 200000⟩

/-- Looks for a path from a certificate to an anchor. -/
def search (query : Query) (leaf : Certificate) : Except Fault Unit := do
  let node ← Node.parse leaf.der
  ((searchFrom query depthLimit 0 node []).run.run Budget.full).1

end PeerTrust.Path
