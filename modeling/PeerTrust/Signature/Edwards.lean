import PeerTrust.Signature.Digest

/-!
# Signatures over the twisted Edwards curve

The curve `-x² + y² = 1 + d x² y²` over the field of `2²⁵⁵ - 19` elements, with points in extended
coordinates, and the signatures that hash with 512 bits.
-/

namespace PeerTrust.Edwards

open PeerTrust.Modular

/-- The size of the field. -/
def prime : Nat := Nat.pow 2 255 - 19

/-- The order of the base point. -/
def order : Nat := Nat.pow 2 252 + 27742317777372353535851937790883648493

/-- The constant of the curve. -/
def constant : Nat := (prime - 121665) * inverse prime 121666 % prime

/-- A point `(X / Z, Y / Z)` with `T = X Y / Z`. -/
structure Point where
  x : Nat
  y : Nat
  z : Nat
  t : Nat
  deriving DecidableEq, Repr

/-- The neutral point. -/
def zero : Point := ⟨0, 1, 1, 0⟩

/-- The sum of two points. -/
def add (left right : Point) : Point :=
  let a := sub prime left.y left.x * sub prime right.y right.x % prime
  let b := (left.y + left.x) * (right.y + right.x) % prime
  let c := 2 * left.t * right.t % prime * constant % prime
  let d := 2 * left.z * right.z % prime
  let e := sub prime b a
  let f := sub prime d c
  let g := (d + c) % prime
  let h := (b + a) % prime
  ⟨e * f % prime, g * h % prime, f * g % prime, e * h % prime⟩

/-- A multiple of a point, from the highest of `bits` binary digits down. -/
def multiplyFrom (scalar : Nat) (point : Point) : Nat → Point → Point
  | 0, result => result
  | bits + 1, result =>
      let doubled := add result result
      multiplyFrom scalar point bits (if scalar.testBit bits then add doubled point else doubled)

/-- A multiple of a point. -/
def multiply (scalar : Nat) (point : Point) : Point :=
  multiplyFrom scalar point (scalar.log2 + 1) zero

/-- A square root of a residue, if there is one. -/
def squareRoot? (value : Nat) : Option Nat :=
  let root := pow prime value ((prime + 3) / 8)
  if root * root % prime = value % prime then some root
  else
    let other := root * pow prime 2 ((prime - 1) / 4) % prime
    if other * other % prime = value % prime then some other else none

/-- The number whose little-endian digits are the bytes. -/
def littleEndian (bytes : Bytes) : Nat := Bytes.toNat bytes.reverse

/-- Reads a point: its second coordinate, and the parity of the first one in the highest bit. -/
def point? (bytes : Bytes) : Option Point :=
  if bytes.length ≠ 32 then none
  else
    let number := littleEndian bytes
    let y := number % Nat.pow 2 255
    let parity := number / Nat.pow 2 255
    if prime ≤ y then none
    else
      let yy := y * y % prime
      let square := sub prime yy 1 * inverse prime ((constant * yy + 1) % prime) % prime
      match squareRoot? square with
      | none => none
      | some x =>
          if x = 0 ∧ parity = 1 then none
          else
            let x := if x % 2 = parity then x else prime - x
            some ⟨x, y, 1, x * y % prime⟩

/-- The base point, whose second coordinate is four fifths. -/
def base : Point :=
  (point? (Bytes.ofNat 32 (4 * inverse prime 5 % prime)).reverse).getD zero

/-- Whether two points are equal. -/
def same (left right : Point) : Bool :=
  left.x * right.z % prime == right.x * left.z % prime &&
    left.y * right.z % prime == right.y * left.z % prime

/-- The opposite of a point. -/
def negate (point : Point) : Point :=
  ⟨sub prime 0 point.x, point.y, point.z, sub prime 0 point.t⟩

/-- The written form of a point. -/
def encode (point : Point) : Bytes :=
  let inverseZ := inverse prime point.z
  let x := point.x * inverseZ % prime
  let y := point.y * inverseZ % prime
  (Bytes.ofNat 32 (y + x % 2 * Nat.pow 2 255)).reverse

/-- Whether a signature of a message is right under a public key: the first half of the signature is
the point that the equation gives. -/
def verify (key message signature : Bytes) : Bool :=
  if signature.length ≠ 64 then false
  else
    let s := littleEndian (signature.drop 32)
    match point? key with
    | none => false
    | some point =>
        if order ≤ s then false
        else
          let k := littleEndian (Digest.Algorithm.sha512.hash
            (signature.take 32 ++ key ++ message)) % order
          encode (add (multiply s base) (multiply k (negate point))) == signature.take 32

/-- The public key that belongs to a secret of thirty-two bytes. -/
def publicKey (secret : Bytes) : Bytes :=
  let number := littleEndian ((Digest.Algorithm.sha512.hash secret).take 32)
  let scalar := number % Nat.pow 2 254 / 8 * 8 + Nat.pow 2 254
  encode (multiply scalar base)

end PeerTrust.Edwards
