/-!
# Modular arithmetic

Powers and inverses of residues, and integer roots.
-/

namespace PeerTrust.Modular

/-- `result * base ^ exponent` modulo `modulus`, by squaring; `fuel` bounds the number of binary
digits of the exponent. -/
def powFrom : Nat → Nat → Nat → Nat → Nat → Nat
  | 0, _, _, _, result => result
  | fuel + 1, modulus, base, exponent, result =>
      if exponent = 0 then result
      else powFrom fuel modulus (base * base % modulus) (exponent / 2)
        (if exponent % 2 = 1 then result * base % modulus else result)

/-- The power of a residue. -/
def pow (modulus base exponent : Nat) : Nat :=
  powFrom (exponent.log2 + 1) modulus (base % modulus) exponent (1 % modulus)

/-- The inverse of a residue that is not zero, for a prime modulus. -/
def inverse (prime value : Nat) : Nat := pow prime value (prime - 2)

/-- The difference of two residues. -/
def sub (modulus a b : Nat) : Nat := (a + (modulus - b % modulus)) % modulus

/-- Fixes the binary digits of a root from the highest of `bits` digits down. -/
def rootFrom (degree value : Nat) : Nat → Nat → Nat
  | 0, root => root
  | bits + 1, root =>
      let candidate := root + Nat.pow 2 bits
      rootFrom degree value bits (if Nat.pow candidate degree ≤ value then candidate else root)

/-- The greatest number below `2 ^ bits` whose power does not exceed a value. -/
def root (degree bits value : Nat) : Nat := rootFrom degree value bits 0

end PeerTrust.Modular
