import PeerTrust.Text.Letters
import PeerTrust.Trust.Error

/-!
# Trust stores

A trust store is a list of certificates without repetitions, in the order in which they came. The
same rule of first occurrences holds for pools and for the issuers of several validators.
-/

namespace PeerTrust

/-- Appends a certificate unless it is there. -/
def addUnique (known : List Certificate) (certificate : Certificate) : List Certificate :=
  if certificate ∈ known then known else known ++ [certificate]

/-- Appends certificates one after the other, each unless it is there. -/
def extendUnique (known added : List Certificate) : List Certificate :=
  added.foldl addUnique known

/-- Certificates without repetitions. -/
structure Store where
  certificates : List Certificate
  deriving DecidableEq, Repr

namespace Store

/-- The store without certificates. -/
def empty : Store := ⟨[]⟩

/-- The store of certificates, each at its first occurrence. -/
def ofList (certificates : List Certificate) : Store := ⟨extendUnique [] certificates⟩

/-- Adds a certificate. -/
def add (store : Store) (certificate : Certificate) : Store :=
  ⟨addUnique store.certificates certificate⟩

/-- Whether a certificate is in a store. -/
def contains (store : Store) (certificate : Certificate) : Bool :=
  certificate ∈ store.certificates

end Store

/-- How a store is written in a file. -/
inductive Encoding where
  /-- Certificates as sections of a text. -/
  | pem
  /-- The bytes of one certificate. -/
  | der
  deriving DecidableEq, Repr

/-- The choice of an engine for signatures. -/
inductive Algorithm where
  | default
  | named (name : String)
  deriving DecidableEq, Repr

namespace Algorithm

/-- Whether an engine of that name exists. There is one engine, which is also the default. -/
def isKnown : Algorithm → Bool
  | .default => true
  | .named name => ["aws-lc-rs", "aws_lc_rs", "default"].contains (Letters.lowerCase name)

/-- Refuses a name that no engine has. -/
def check : Algorithm → Except TrustError Unit
  | .default => .ok ()
  | .named name =>
      if (Algorithm.named name).isKnown then .ok ()
      else .error (.configuration (.unknownAlgorithm name))

/-- Reads a name, which has to be known. -/
def parse (name : String) : Except TrustError Algorithm := do
  let algorithm := if Letters.lowerCase name = "default" then .default else .named name
  algorithm.check
  return algorithm

end Algorithm

end PeerTrust
