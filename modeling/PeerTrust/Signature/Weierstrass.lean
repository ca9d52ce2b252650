import PeerTrust.Signature.Modular
import PeerTrust.Text.Bytes

/-!
# Prime curves and their signatures

The curves `y² = x³ - 3x + b` over prime fields of 256, 384 and 521 bits. Points are kept in
coordinates with a denominator: `(X, Y, Z)` stands for `(X / Z², Y / Z³)`, and `Z = 0` is the point
at infinity.
-/

namespace PeerTrust

open PeerTrust.Modular

/-- A curve of prime order. -/
structure Curve where
  /-- The number of bytes of a coordinate. -/
  size : Nat
  prime : Nat
  constant : Nat
  order : Nat
  baseX : Nat
  baseY : Nat

namespace Curve

/-- The curve over the field of 256 bits. -/
def p256 : Curve where
  size := 32
  prime := Nat.pow 2 256 - Nat.pow 2 224 + Nat.pow 2 192 + Nat.pow 2 96 - 1
  constant := 0x5ac635d8aa3a93e7b3ebbd55769886bc651d06b0cc53b0f63bce3c3e27d2604b
  order := 0xffffffff00000000ffffffffffffffffbce6faada7179e84f3b9cac2fc632551
  baseX := 0x6b17d1f2e12c4247f8bce6e563a440f277037d812deb33a0f4a13945d898c296
  baseY := 0x4fe342e2fe1a7f9b8ee7eb4a7c0f9e162bce33576b315ececbb6406837bf51f5

/-- The curve over the field of 384 bits. -/
def p384 : Curve where
  size := 48
  prime := Nat.pow 2 384 - Nat.pow 2 128 - Nat.pow 2 96 + Nat.pow 2 32 - 1
  constant :=
    0xb3312fa7e23ee7e4988e056be3f82d19 * Nat.pow 2 256 +
      0x181d9c6efe8141120314088f5013875ac656398d8a2ed19d2a85c8edd3ec2aef
  order :=
    0xffffffffffffffffffffffffffffffff * Nat.pow 2 256 +
      0xffffffffffffffffc7634d81f4372ddf581a0db248b0a77aecec196accc52973
  baseX :=
    0xaa87ca22be8b05378eb1c71ef320ad74 * Nat.pow 2 256 +
      0x6e1d3b628ba79b9859f741e082542a385502f25dbf55296c3a545e3872760ab7
  baseY :=
    0x3617de4a96262c6f5d9e98bf9292dc29 * Nat.pow 2 256 +
      0xf8f41dbd289a147ce9da3113b5f0b8c00a60b1ce1d7e819d7a431d7c90ea0e5f

/-- The curve over the field of 521 bits. -/
def p521 : Curve where
  size := 66
  prime := Nat.pow 2 521 - 1
  constant :=
    0x51953eb9618e1c9a1f929a21a0b68540eea2da725b99b315f3b8b489918ef109e1 * Nat.pow 2 256 +
      0x56193951ec7e937b1652c0bd3bb1bf073573df883d2c34f1ef451fd46b503f00
  order := Nat.pow 2 521 - 0x5ae79787c40d069948033feb708f65a2fc44a36477663b851449048e16ec79bf7
  baseX :=
    0xc6858e06b70404e9cd9e3ecb662395b4429c648139053fb521f828af606b4d3dba * Nat.pow 2 256 +
      0xa14b5e77efe75928fe1dc127a2ffa8de3348b3c1856a429bf97e7e31c2e5bd66
  baseY :=
    0x11839296a789a3bc0045c8a5fb42c7d1bd998f54449579b446817afbd17273e662c * Nat.pow 2 256 +
      0x97ee72995ef42640c550b9013fad0761353c7086a272c24088be94769fd16650

/-- A point with a denominator. -/
structure Point where
  x : Nat
  y : Nat
  z : Nat
  deriving DecidableEq, Repr

/-- The point at infinity. -/
def infinity : Point := ⟨1, 1, 0⟩

/-- The base point. -/
def base (curve : Curve) : Point := ⟨curve.baseX, curve.baseY, 1⟩

/-- Whether an affine point lies on the curve. -/
def contains (curve : Curve) (x y : Nat) : Bool :=
  x < curve.prime && y < curve.prime &&
    y * y % curve.prime ==
      sub curve.prime (x * x * x + curve.constant) (3 * x)

/-- Twice a point. -/
def double (curve : Curve) (point : Point) : Point :=
  if point.z = 0 ∨ point.y = 0 then infinity
  else
    let p := curve.prime
    let zz := point.z * point.z % p
    let yy := point.y * point.y % p
    let beta := point.x * yy % p
    let alpha := 3 * (sub p point.x zz * (point.x + zz) % p) % p
    let x := sub p (alpha * alpha) (8 * beta)
    let z := 2 * point.y * point.z % p
    let y := sub p (alpha * sub p (4 * beta) x) (8 * (yy * yy % p))
    ⟨x, y, z⟩

/-- The sum of two points. -/
def add (curve : Curve) (left right : Point) : Point :=
  if left.z = 0 then right
  else if right.z = 0 then left
  else
    let p := curve.prime
    let zz1 := left.z * left.z % p
    let zz2 := right.z * right.z % p
    let u1 := left.x * zz2 % p
    let u2 := right.x * zz1 % p
    let s1 := left.y * (right.z * zz2 % p) % p
    let s2 := right.y * (left.z * zz1 % p) % p
    let h := sub p u2 u1
    let r := sub p s2 s1
    if h = 0 then (if r = 0 then double curve left else infinity)
    else
      let hh := h * h % p
      let hhh := h * hh % p
      let v := u1 * hh % p
      let x := sub p (r * r) (hhh + 2 * v)
      let y := sub p (r * sub p v x) (s1 * hhh)
      ⟨x, y, left.z * (right.z * h % p) % p⟩

/-- `m` times one point plus `n` times another, from the highest of `bits` binary digits down. -/
def multiplyFrom (curve : Curve) (m : Nat) (left : Point) (n : Nat) (right both : Point) :
    Nat → Point → Point
  | 0, result => result
  | bits + 1, result =>
      let doubled := double curve result
      let next :=
        if m.testBit bits then
          if n.testBit bits then add curve doubled both else add curve doubled left
        else if n.testBit bits then add curve doubled right
        else doubled
      multiplyFrom curve m left n right both bits next

/-- `m` times one point plus `n` times another. -/
def multiply (curve : Curve) (m : Nat) (left : Point) (n : Nat) (right : Point) : Point :=
  multiplyFrom curve m left n right (add curve left right) (8 * curve.size) infinity

/-- The first coordinate of a point that is not at infinity. -/
def affineX? (curve : Curve) (point : Point) : Option Nat :=
  if point.z = 0 then none
  else
    let inverseZ := inverse curve.prime point.z
    some (point.x * (inverseZ * inverseZ % curve.prime) % curve.prime)

/-- The affine coordinates of a point that is not at infinity. -/
def affine? (curve : Curve) (point : Point) : Option (Nat × Nat) :=
  if point.z = 0 then none
  else
    let inverseZ := inverse curve.prime point.z
    let square := inverseZ * inverseZ % curve.prime
    some (point.x * square % curve.prime, point.y * (square * inverseZ % curve.prime) % curve.prime)

/-- The second coordinate over a first one that has the given parity, if there is one. -/
def lift? (curve : Curve) (x parity : Nat) : Option Nat :=
  let p := curve.prime
  let y := pow p (sub p (x * x * x + curve.constant) (3 * x)) ((p + 1) / 4)
  let y := if y % 2 = parity then y else (p - y) % p
  if contains curve x y ∧ y % 2 = parity then some y else none

/-- Reads a point, written with both coordinates or with the first one and the parity of the
second. -/
def point? (curve : Curve) : Bytes → Option Point
  | 0x04 :: rest =>
      if rest.length = 2 * curve.size then
        let x := Bytes.toNat (rest.take curve.size)
        let y := Bytes.toNat (rest.drop curve.size)
        if contains curve x y then some ⟨x, y, 1⟩ else none
      else none
  | form :: rest =>
      if (form = 0x02 ∨ form = 0x03) ∧ rest.length = curve.size then
        let x := Bytes.toNat rest
        (lift? curve x (form.toNat % 2)).map fun y => ⟨x, y, 1⟩
      else none
  | [] => none

/-- The number that the leftmost bits of a digest write, as many as the order has. -/
def digestNumber (curve : Curve) (digest : Bytes) : Nat :=
  let excess := 8 * digest.length - (curve.order.log2 + 1)
  Bytes.toNat digest >>> excess

/-- Whether a pair of numbers signs a digest under a public point. -/
def verify (curve : Curve) (key : Point) (digest : Bytes) (r s : Nat) : Bool :=
  let n := curve.order
  if r = 0 ∨ n ≤ r ∨ s = 0 ∨ n ≤ s then false
  else
    let w := inverse n s
    let sum := multiply curve (digestNumber curve digest * w % n) (base curve) (r * w % n) key
    match affineX? curve sum with
    | none => false
    | some x => x % n == r

end Curve

end PeerTrust
