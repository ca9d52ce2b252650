/-!
# Double precision

A finite double is a significand of at most fifty-three bits times a power of two. A fraction is
rounded to the nearest of them, half-way cases to the one with an even significand; what is too
large becomes infinite.
-/

namespace PeerTrust

/-- A floating point number. -/
inductive Double where
  | nan
  | infinite (isNegative : Bool)
  /-- The number `significand * 2 ^ exponent`, or its negative. -/
  | finite (isNegative : Bool) (significand : Nat) (exponent : Int)
  deriving DecidableEq, Repr

namespace Double

/-- The exponent of the smallest positive number. -/
def minExponent : Int := -1074

/-- The exponent of the largest finite numbers. -/
def maxExponent : Int := 971

/-- The bound of the significands. -/
def bound : Nat := Nat.pow 2 53

/-- A fraction times a power of two, as a fraction. -/
def scale (numerator denominator : Nat) (exponent : Int) : Nat × Nat :=
  if 0 ≤ exponent then (numerator * Nat.pow 2 exponent.toNat, denominator)
  else (numerator, denominator * Nat.pow 2 (-exponent).toNat)

/-- The integer nearest to a fraction, of two the even one. -/
def roundHalfEven (numerator denominator : Nat) : Nat :=
  let quotient := numerator / denominator
  let twice := 2 * (numerator % denominator)
  if twice < denominator ∨ (twice = denominator ∧ quotient % 2 = 0) then quotient
  else quotient + 1

/-- The least exponent from a first one on for which the integral part of a fraction fits into a
significand. -/
def fittingExponent (numerator denominator : Nat) : Nat → Int → Int
  | 0, exponent => exponent
  | tries + 1, exponent =>
      let (dividend, divisor) := scale numerator denominator (-exponent)
      if dividend / divisor < bound then exponent
      else fittingExponent numerator denominator tries (exponent + 1)

/-- The significand and the exponent nearest to a positive fraction, without regard to the largest
exponent. The first exponent that is tried is at most three less than the one that fits. -/
def nearest (numerator denominator : Nat) : Nat × Int :=
  let first := max minExponent ((numerator.log2 : Int) - (denominator.log2 : Int) - 54)
  let exponent := fittingExponent numerator denominator 4 first
  let (dividend, divisor) := scale numerator denominator (-exponent)
  let significand := roundHalfEven dividend divisor
  if significand < bound then (significand, exponent) else (significand / 2, exponent + 1)

/-- The double nearest to a fraction or its negative. -/
def ofFraction (isNegative : Bool) (numerator denominator : Nat) : Double :=
  if numerator = 0 then .finite isNegative 0 minExponent
  else
    let (significand, exponent) := nearest numerator denominator
    if exponent ≤ maxExponent then .finite isNegative significand exponent
    else .infinite isNegative

/-- Whether a double is a finite number. -/
def isFinite : Double → Bool
  | .finite _ _ _ => true
  | _ => false

end Double

end PeerTrust
