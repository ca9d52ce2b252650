import PeerTrust.Settings.Environment
import PeerTrust.Settings.Record
import PeerTrust.Trust.Store

/-!
# Settings

What a user can set: the parts of a validator, the policy about host names, and the files of an
identity. Settings are read from a file, if one is named, and from the environment, which comes over
the file.
-/

namespace PeerTrust

namespace Settings

/-- A file with a trust store. -/
structure StoreFile where
  path : String
  encoding : Encoding
  /-- The name of the engine for signatures. -/
  algorithm : Option String
  deriving DecidableEq, Repr

/-- A pool that grows while the program runs. -/
structure PoolSettings where
  /-- The file that keeps the pool. -/
  path : Option String
  algorithm : Option String
  deriving DecidableEq, Repr

/-- The parts of a validator. -/
structure TrustSettings where
  stores : List StoreFile
  platform : Bool
  pool : Option PoolSettings
  /-- Whether every certificate is accepted. -/
  trustAll : Bool
  logging : Bool
  swappable : Bool
  deriving DecidableEq, Repr

/-- A policy about host names. -/
inductive HostnamePolicy where
  | names
  | basic
  | acceptAll
  deriving DecidableEq, Repr

/-- The word for a policy. -/
def HostnamePolicy.word : HostnamePolicy → String
  | .names => "default"
  | .basic => "basic"
  | .acceptAll => "unsafe"

/-- The files of an identity. -/
structure IdentityFiles where
  certificates : Option String
  key : Option String
  deriving DecidableEq, Repr

/-- The settings of a pool that says nothing about itself. -/
def PoolSettings.initial : PoolSettings := ⟨none, none⟩

/-- No sources; what is built is logged and can be swapped. -/
def TrustSettings.initial : TrustSettings := ⟨[], false, none, false, true, true⟩

/-- The words for the encodings of a store. -/
def encodingWords : List (String × Encoding) := [("pem", .pem), ("der", .der)]

/-- The words for the policies about host names. -/
def policyWords : List (String × HostnamePolicy) :=
  [HostnamePolicy.names, .basic, .acceptAll].map fun policy => (policy.word, policy)

open Value in
/-- Reads a file with a trust store. It needs a path. -/
def StoreFile.read (value : Value) : Except Fault StoreFile := do
  let fields : List (FieldReader (Option String × Encoding × Option String)) := [
    .of "path" readPath fun path record => (some path, record.2),
    .of "format" (readChoice "TrustStoreFormat" encodingWords)
      fun encoding record => (record.1, encoding, record.2.2),
    .of "algorithm" (readOption readText) fun algorithm record => (record.1, record.2.1, algorithm)]
  let (path, encoding, algorithm) ←
    readRecord "TrustStoreConfig" fields (none, .pem, none) value
  match path, value with
  | some path, _ => return ⟨path, encoding, algorithm⟩
  | none, .list origin _ => throw ⟨.tooShort 0 "TrustStoreConfig" fields.length, [], origin⟩
  | none, value => throw ⟨.missingField "path", [], value.origin⟩

open Value in
/-- Reads the settings of a pool. -/
def PoolSettings.read : Value → Except Fault PoolSettings :=
  readRecord "InflatableConfig" [
    .of "persisted_path" (readOption readPath) fun path settings => { settings with path },
    .of "algorithm" (readOption readText) fun algorithm settings => { settings with algorithm }]
    .initial

open Value in
/-- Reads the parts of a validator. -/
def TrustSettings.read : Value → Except Fault TrustSettings :=
  readRecord "TrustConfig" [
    .of "stores" (readList StoreFile.read) fun stores settings => { settings with stores },
    .of "platform_anchors" readFlag fun platform settings => { settings with platform },
    .of "inflatable" (readOption PoolSettings.read) fun pool settings => { settings with pool },
    .of "unsafe_trust_all" readFlag fun trustAll settings => { settings with trustAll },
    .of "logging" readFlag fun logging settings => { settings with logging },
    .of "swappable" readFlag fun swappable settings => { settings with swappable }]
    .initial

open Value in
/-- Reads the policy about host names. -/
def HostnamePolicy.read : Value → Except Fault HostnamePolicy :=
  readRecord "HostnameConfig"
    [.of "verifier" (readChoice "HostnameVerifierKind" policyWords) fun policy _ => policy] .names

open Value in
/-- Reads the files of an identity. -/
def IdentityFiles.read : Value → Except Fault IdentityFiles :=
  readRecord "TlsConfig" [
    .of "client_cert" (readOption readPath)
      fun certificates files => { files with certificates },
    .of "client_key" (readOption readPath) fun key files => { files with key }]
    ⟨none, none⟩

end Settings

/-- Everything that can be set. -/
structure Settings where
  trust : Settings.TrustSettings
  hostname : Settings.HostnamePolicy
  identity : Settings.IdentityFiles
  deriving DecidableEq, Repr

namespace Settings

/-- The settings when nothing is set. -/
def initial : Settings := ⟨.initial, .names, ⟨none, none⟩⟩

open Value in
/-- Reads all settings. -/
def read : Value → Except Fault Settings :=
  readRecord "Config" [
    .of "trust" TrustSettings.read fun trust settings => { settings with trust },
    .of "hostname" HostnamePolicy.read fun hostname settings => { settings with hostname },
    .of "tls" IdentityFiles.read fun identity settings => { settings with identity }]
    initial

/-- The settings in the bytes of a file, if it can be read. -/
def readDocument (path : String) (contents : Except FileFault Bytes) : Except Fault Value :=
  let origin := Origin.file path
  let outcome : Except DocumentFault Value := match contents with
    | .error fault => .error (.unreadable fault)
    | .ok bytes => match Utf8.decode? bytes with
      | none => .error .notText
      | some text => Value.ofText origin text
  outcome.mapError fun fault => ⟨.document fault, [], origin⟩

/-- The settings in a file, with those in the environment over them. What is not a file has no
settings. -/
def merged (path : String) (contents : Option (Except FileFault Bytes))
    (environment : List (String × String)) : Except Fault Settings := do
  let inFile ← match contents with
    | some contents => readDocument path contents
    | none => pure (.map .environment [])
  read (inFile.merge (.ofEnvironment environment))

/-- Loads the settings from a file, if one is named, and from the environment. -/
def load (files : Files) (environment : List (String × String)) (path : Option String) :
    Except TrustError Settings := do
  let named := path.getD ""
  if path.isSome ∧ ¬files.isThere named then throw (.configuration (.noSettings named))
  let contents :=
    if path.isSome ∧ ¬files.isDirectory named then some (files.read named) else none
  (merged named contents environment).mapError fun fault => .configuration (.settings fault)

end Settings

end PeerTrust
