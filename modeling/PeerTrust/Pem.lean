import PeerTrust.Text.Base64
import PeerTrust.Text.Quoted
import PeerTrust.Text.Utf8

/-!
# PEM text

A PEM text is read line by line. A line `-----BEGIN LABEL-----` opens a section, the line that
starts with `-----END LABEL-----` closes it, and the Base64 between them is its contents. Lines
outside of sections are ignored, and so are sections whose label is not known. The writer puts one
certificate in one section with lines of sixty-four characters.
-/

namespace PeerTrust.Pem

/-- The kinds of section whose contents are decoded. -/
inductive Kind where
  | certificate
  | publicKey
  | rsaPrivateKey
  | privateKey
  | ecPrivateKey
  | revocationList
  | certificateRequest
  | helloConfig
  deriving DecidableEq, Repr

/-- `CERTIFICATE` -/
def certificateLabel : Bytes :=
  [0x43, 0x45, 0x52, 0x54, 0x49, 0x46, 0x49, 0x43, 0x41, 0x54, 0x45]

/-- The label of a kind. -/
def Kind.label : Kind → Bytes
  | .certificate => certificateLabel
  | .publicKey => Bytes.ofString "PUBLIC KEY"
  | .rsaPrivateKey => Bytes.ofString "RSA PRIVATE KEY"
  | .privateKey => Bytes.ofString "PRIVATE KEY"
  | .ecPrivateKey => Bytes.ofString "EC PRIVATE KEY"
  | .revocationList => Bytes.ofString "X509 CRL"
  | .certificateRequest => Bytes.ofString "CERTIFICATE REQUEST"
  | .helloConfig => Bytes.ofString "ECHCONFIG"

/-- Every kind, certificates first. -/
def Kind.all : List Kind :=
  [.certificate, .publicKey, .rsaPrivateKey, .privateKey, .ecPrivateKey, .revocationList,
    .certificateRequest, .helloConfig]

/-- The kind with a given label. -/
def Kind.ofLabel? (label : Bytes) : Option Kind :=
  Kind.all.find? fun kind => kind.label == label

/-- A decoded section. -/
structure Section where
  kind : Kind
  contents : Bytes
  deriving DecidableEq, Repr

/-- Why reading stops before the end of a text. -/
inductive Fault where
  /-- The text ends inside a section. -/
  | endMissing (label : Bytes)
  /-- A line opens a section but does not end in five dashes. -/
  | illegalStart (line : Bytes)
  /-- The contents of a section are not Base64. -/
  | contents (fault : Base64.Fault)
  deriving DecidableEq, Repr

/-- The wording of a fault. -/
def Fault.message : Fault → String
  | .endMissing label => s!"section end {Quoted.quote (Utf8.lossy label)} missing"
  | .illegalStart line => s!"illegal section start: {Quoted.quote (Utf8.lossy line)}"
  | .contents fault => fault.message

/-- The character `-`. -/
def dash : UInt8 := 0x2D

/-- Five dashes. -/
def dashes : Bytes := [dash, dash, dash, dash, dash]

/-- `-----BEGIN ` -/
def beginMark : Bytes := dashes ++ [0x42, 0x45, 0x47, 0x49, 0x4E, 0x20]

/-- `-----END LABEL-----` -/
def endMark (label : Bytes) : Bytes := dashes ++ [0x45, 0x4E, 0x44, 0x20] ++ label ++ dashes

/-- Whether a byte ends a line. -/
def isLineEnd (byte : UInt8) : Bool := byte == 0x0A || byte == 0x0D

/-- The lines of a text, each with the byte that ends it. -/
def lines : Bytes → List Bytes
  | [] => []
  | byte :: rest =>
      if isLineEnd byte then [byte] :: lines rest
      else match lines rest with
        | [] => [[byte]]
        | line :: others => (byte :: line) :: others

/-- The number of dashes at the end of a reversed line, blanks aside, and the reversed text before
the first of them. -/
def trailer : Bytes → Nat × Bytes
  | [] => (0, [])
  | byte :: rest =>
      if byte = dash then
        let (count, before) := trailer rest
        (count + 1, if count = 0 then rest else before)
      else if isLineEnd byte || byte == 0x20 then trailer rest
      else (0, [])

/-- The label that a line opens a section with. -/
def openingLabel (line : Bytes) : Except Fault Bytes :=
  let (count, before) := trailer line.reverse
  if count = 5 then .ok (before.reverse.drop beginMark.length) else .error (.illegalStart line)

/-- A section that is being read: its label and the text gathered for it. -/
structure Open where
  label : Bytes
  gathered : Bytes

/-- Closes a section; one with an unknown label leaves nothing behind. -/
def Open.close (current : Open) : Option (Except Fault Section) :=
  (Kind.ofLabel? current.label).map fun kind =>
    match Base64.decode current.gathered with
    | .error fault => .error (.contents fault)
    | .ok contents => .ok ⟨kind, contents⟩

/-- Reads lines, inside a section or outside of one, and goes on after a fault. A line that opens a
section inside another one replaces the label and keeps what was gathered. -/
def readLines : Option Open → List Bytes → List (Except Fault Section)
  | none, [] => []
  | some current, [] => [.error (.endMissing current.label)]
  | current, line :: rest =>
      if beginMark.isPrefixOf line then
        match openingLabel line with
        | .error fault => .error fault :: readLines none rest
        | .ok label => readLines (some ⟨label, (current.map (·.gathered)).getD []⟩) rest
      else match current with
        | none => readLines none rest
        | some inside =>
            if (endMark inside.label).isPrefixOf line then
              inside.close.toList ++ readLines none rest
            else readLines (some ⟨inside.label, inside.gathered ++ line⟩) rest

/-- What a text holds: its sections, and a fault wherever there is something else. -/
def read (text : Bytes) : List (Except Fault Section) := readLines none (lines text)

/-- The sections in front of the first fault, and that fault. -/
def untilFault : List (Except Fault Section) → List Section × Option Fault
  | [] => ([], none)
  | .error fault :: _ => ([], some fault)
  | .ok found :: rest => (found :: (untilFault rest).1, (untilFault rest).2)

/-- The contents of the certificates among sections. -/
def certificateContents (sections : List Section) : List Bytes :=
  (sections.filter (·.kind == .certificate)).map (·.contents)

/-- The contents of the certificate sections of a text without faults. -/
def certificates (text : Bytes) : Except Fault (List Bytes) :=
  match untilFault (read text) with
  | (_, some fault) => .error fault
  | (sections, none) => .ok (certificateContents sections)

/-- Whether a section holds a private key. -/
def Section.isPrivateKey (found : Section) : Bool :=
  found.kind == .rsaPrivateKey || found.kind == .privateKey || found.kind == .ecPrivateKey

/-- The first private key of a text; nothing after it is looked at. -/
def privateKey? (text : Bytes) : Except Fault (Option Section) :=
  let (sections, fault) := untilFault (read text)
  match sections.find? Section.isPrivateKey, fault with
  | some key, _ => .ok (some key)
  | none, some fault => .error fault
  | none, none => .ok none

/-- The number of characters on a full line of the writer. -/
def lineWidth : Nat := 64

/-- Cuts a text into lines of at most `lineWidth` characters, each with a newline. -/
def wrap : Bytes → Bytes
  | [] => []
  | byte :: rest =>
      (byte :: rest).take lineWidth ++ [0x0A] ++ wrap ((byte :: rest).drop lineWidth)
  termination_by text => text.length
  decreasing_by simp only [List.length_drop, List.length_cons, lineWidth]; omega

/-- A certificate as one section with a newline at the end. -/
def encode (der : Bytes) : Bytes :=
  beginMark ++ certificateLabel ++ dashes ++ [0x0A] ++ wrap (Base64.encode der) ++
    endMark certificateLabel ++ [0x0A]

end PeerTrust.Pem
