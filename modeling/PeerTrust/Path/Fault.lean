import PeerTrust.Text.Bytes

/-!
# Faults of a certification path

Why no path from a certificate to an anchor was found. A search that fails on several paths reports
the fault that says most about the certificate, which is the one of the highest rank.
-/

namespace PeerTrust

/-- What a certificate may be used for, as far as the use of its key is restricted. -/
inductive Purpose where
  | clientAuthentication
  | serverAuthentication
  | other (arcs : List Nat)
  deriving DecidableEq, Repr

/-- The name of a purpose; one that is not known is the list of its numbers. -/
def Purpose.text : Purpose → String
  | .clientAuthentication => "client authentication"
  | .serverAuthentication => "server authentication"
  | .other arcs => ", ".intercalate (arcs.map toString)

namespace Path

/-- Why a path was refused. -/
inductive Fault where
  | unknownIssuer
  | malformed
  | malformedTime
  | extensionRepeated
  | trailingData
  | pathTooDeep
  | unsupportedVersion
  | unsupportedExtension
  | unsupportedAlgorithm
  | unsupportedAlgorithmForKey
  | validityReversed
  | authorityAsLeaf
  | leafAsAuthority
  | pathLengthExceeded
  | purposeNotAllowed (required : Purpose) (allowed : List Purpose)
  | noPurposeAllowed
  | algorithmMismatch
  | badSignature
  /-- The present time is beyond the last one of the validity. -/
  | expired (now notAfter : Nat)
  /-- The present time is before the first one of the validity. -/
  | notYetValid (now notBefore : Nat)
  /-- The search gave up. -/
  | tooManySignatures
  | tooManySteps
  deriving DecidableEq, Repr

/-- How much a fault says about a certificate. -/
def Fault.rank : Fault → Nat
  | .expired _ _ => 290
  | .notYetValid _ _ => 290
  | .badSignature => 260
  | .algorithmMismatch => 250
  | .noPurposeAllowed => 245
  | .purposeNotAllowed _ _ => 240
  | .pathLengthExceeded => 220
  | .authorityAsLeaf => 210
  | .leafAsAuthority => 210
  | .validityReversed => 190
  | .unsupportedAlgorithmForKey => 150
  | .unsupportedAlgorithm => 140
  | .unsupportedExtension => 130
  | .unsupportedVersion => 130
  | .pathTooDeep => 61
  | .trailingData => 40
  | .extensionRepeated => 30
  | .malformedTime => 20
  | .malformed => 10
  | .tooManySignatures => 0
  | .tooManySteps => 0
  | .unknownIssuer => 0

/-- The fault of higher rank, and the first one of two faults of the same rank. -/
def Fault.orWorse (first second : Fault) : Fault :=
  if second.rank ≤ first.rank then first else second

/-- Whether a fault ends the search for other paths. -/
def Fault.isFatal : Fault → Bool
  | .tooManySignatures => true
  | .tooManySteps => true
  | _ => false

/-- The wording of a fault. -/
def Fault.message : Fault → String
  | .unknownIssuer => "UnknownIssuer"
  | .malformed => "BadEncoding"
  | .malformedTime => "BadEncoding"
  | .trailingData => "BadEncoding"
  | .extensionRepeated => "Other(OtherError(ExtensionValueInvalid))"
  | .pathTooDeep => "Other(OtherError(MaximumPathDepthExceeded))"
  | .unsupportedVersion => "Other(OtherError(UnsupportedCertVersion))"
  | .unsupportedExtension => "Other(OtherError(UnsupportedCriticalExtension))"
  | .unsupportedAlgorithm => "UnsupportedSignatureAlgorithmContext"
  | .unsupportedAlgorithmForKey => "UnsupportedSignatureAlgorithmForPublicKeyContext"
  | .validityReversed => "Expired"
  | .authorityAsLeaf => "Other(OtherError(CaUsedAsEndEntity))"
  | .leafAsAuthority => "Other(OtherError(EndEntityUsedAsCa))"
  | .pathLengthExceeded => "Other(OtherError(PathLenConstraintViolated))"
  | .purposeNotAllowed required allowed =>
      s!"certificate does not allow extended key usage for {required.text}, allows " ++
        ", ".intercalate (allowed.map Purpose.text)
  | .noPurposeAllowed => "Other(OtherError(EmptyEkuExtension))"
  | .algorithmMismatch => "Other(OtherError(SignatureAlgorithmMismatch))"
  | .badSignature => "BadSignature"
  | .expired now notAfter =>
      s!"certificate expired: verification time {now} (UNIX), " ++
        s!"but certificate is not valid after {notAfter} ({now - notAfter} seconds ago)"
  | .notYetValid now notBefore =>
      s!"certificate not valid yet: verification time {now} (UNIX), " ++
        s!"but certificate is not valid before {notBefore} ({notBefore - now} seconds in future)"
  | .tooManySignatures => "Other(OtherError(MaximumSignatureChecksExceeded))"
  | .tooManySteps => "Other(OtherError(MaximumPathBuildCallsExceeded))"

end Path

end PeerTrust
