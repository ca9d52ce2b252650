import PeerTrust.Trust.Base

/-!
# Certificates in files

Reading certificates and trust stores from files, and the store of the platform's anchors.
-/

namespace PeerTrust

namespace Files

/-- The contents of a file that has to be there. -/
def contents (files : Files) (path : String) : Except TrustError Bytes :=
  (files.read path).mapError (.unreadable path)

/-- The certificates in a file, of which there has to be one at least. -/
def certificates (files : Files) (path : String) : Except TrustError (List Certificate) := do
  match Pem.certificates (← files.contents path) with
  | .error fault => throw (.configuration (.malformedCertificates path fault))
  | .ok [] => throw (.configuration (.noCertificates path))
  | .ok found => return found.map Certificate.mk

end Files

/-- The trust store in a file. -/
def Store.load (files : Files) (path : String) : Encoding → Except TrustError Store
  | .pem => do return Store.ofList (← files.certificates path)
  | .der => do
      let contents ← files.contents path
      if contents.isEmpty then throw (.configuration (.emptyCertificate path))
      return Store.ofList [⟨contents⟩]

namespace Platform

/-- The store of the platform's anchors, which must not be empty, with what is told to the log. -/
def load (engine : Engine) (files : Files) (environment : List (String × String)) :
    List Event × Except TrustError Store :=
  let found := engine.platform files environment
  let told : List Event := found.problems.map .platformAnchorFailed
  if found.certificates.isEmpty then (told, .error (.configuration .noPlatformAnchors))
  else
    let store := Store.ofList found.certificates
    (told ++ [.platformLoaded store.certificates.length], .ok store)

end Platform

end PeerTrust
