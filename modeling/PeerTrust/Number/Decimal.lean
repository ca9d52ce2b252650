import PeerTrust.Number.Double
import PeerTrust.Text.Letters

/-!
# Decimal notation

Reading doubles from decimal notation and writing them with the fewest digits that read back.
Written numbers are positional however large they are; they have neither an exponent nor a point
that is not needed.
-/

namespace PeerTrust.Decimal

/-- Whether a character is a decimal digit. -/
def isDigit (c : Char) : Bool := '0' ≤ c && c ≤ '9'

/-- The number that digits stand for. -/
def value (digits : List Char) : Nat :=
  digits.foldl (fun number digit => 10 * number + (digit.toNat - '0'.toNat)) 0

/-- The double nearest to `digits * 10 ^ exponent`. Far beyond the finite numbers the exponent alone
decides. -/
def toDouble (isNegative : Bool) (digits : List Char) (exponent : Int) : Double :=
  let number := value digits
  let size : Int := (Nat.toDigits 10 number).length + exponent
  if number = 0 ∨ size < -400 then .finite isNegative 0 Double.minExponent
  else if 400 < size then .infinite isNegative
  else if 0 ≤ exponent then Double.ofFraction isNegative (number * Nat.pow 10 exponent.toNat) 1
  else Double.ofFraction isNegative number (Nat.pow 10 (-exponent).toNat)

/-- A sign at the head of a text, `-` being true. -/
def splitSign : List Char → Bool × List Char
  | '-' :: rest => (true, rest)
  | '+' :: rest => (false, rest)
  | text => (false, text)

/-- Reads an exponent, which follows a letter and may be missing. -/
def exponent? : List Char → Option Int
  | [] => some 0
  | letter :: rest =>
      let (isNegative, digits) := splitSign rest
      if (letter = 'e' ∨ letter = 'E') ∧ digits ≠ [] ∧ digits.all isDigit then
        some (if isNegative then -(value digits : Int) else value digits)
      else none

/-- Splits a text after its leading digits. -/
def splitDigits (text : List Char) : List Char × List Char :=
  (text.takeWhile isDigit, text.dropWhile isDigit)

/-- Reads a number without sign, or the name of a number that is not finite. -/
def readUnsigned? (isNegative : Bool) (text : List Char) : Option Double :=
  let name := Letters.lowerCase (String.ofList text)
  if name = "nan" then some .nan
  else if name = "inf" ∨ name = "infinity" then some (.infinite isNegative)
  else
    let (whole, rest) := splitDigits text
    let (fraction, rest) := match rest with
      | '.' :: rest => splitDigits rest
      | _ => ([], rest)
    if whole = [] ∧ fraction = [] then none
    else (exponent? rest).map fun exponent =>
      toDouble isNegative (whole ++ fraction) (exponent - fraction.length)

/-- Reads a double: digits with an optional point among them or at either end, and an optional
exponent. -/
def read? (text : List Char) : Option Double :=
  let (isNegative, rest) := splitSign text
  readUnsigned? isNegative rest

/-- The positive fraction that a significand and an exponent make. -/
def fraction (significand : Nat) (exponent : Int) : Nat × Nat := Double.scale significand 1 exponent

/-- How many digits stand before the point of a fraction; less than one for what is below a
tenth. -/
def magnitude (numerator denominator : Nat) : Int :=
  if denominator ≤ numerator then (Nat.toDigits 10 (numerator / denominator)).length
  else 1 - (Nat.toDigits 10 ((denominator - 1) / numerator)).length

/-- The fraction `number * 10 ^ exponent`. -/
def power (number : Nat) (exponent : Int) : Nat × Nat :=
  if 0 ≤ exponent then (number * Nat.pow 10 exponent.toNat, 1)
  else (number, Nat.pow 10 (-exponent).toNat)

/-- Whether a decimal number reads back as a significand and an exponent. -/
def readsBack (significand : Nat) (exponent : Int) (number : Nat) (place : Int) : Bool :=
  let (numerator, denominator) := power number place
  number ≠ 0 && Double.nearest numerator denominator = (significand, exponent)

/-- The decimal number with its last digit at a place that reads back and is nearest. -/
def candidate? (significand : Nat) (exponent : Int) (place : Int) : Option Nat :=
  let (numerator, denominator) := fraction significand exponent
  let (dividend, divisor) :=
    if 0 ≤ place then (numerator, denominator * Nat.pow 10 place.toNat)
    else (numerator * Nat.pow 10 (-place).toNat, denominator)
  let lower := dividend / divisor
  let isLowerNearer : Bool := 2 * (dividend % divisor) ≤ divisor
  let order := if isLowerNearer then [lower, lower + 1] else [lower + 1, lower]
  order.find? (readsBack significand exponent · place)

/-- The decimal number of fewest digits that reads back, with the place of its last digit. Seventeen
digits are always enough. -/
def shortest (significand : Nat) (exponent : Int) : Nat × Int :=
  let (numerator, denominator) := fraction significand exponent
  let places := (List.range 17).map fun count : Nat =>
    magnitude numerator denominator - 1 - (count : Int)
  (places.findSome? fun place => (candidate? significand exponent place).map (·, place)).getD (0, 0)

/-- A decimal number in positional notation. -/
def positional (number : Nat) (place : Int) : String :=
  let digits := Nat.toDigits 10 number
  if 0 ≤ place then String.ofList (digits ++ List.replicate place.toNat '0')
  else
    let decimals := (-place).toNat
    let padded := List.replicate (decimals + 1 - digits.length) '0' ++ digits
    let whole := padded.length - decimals
    let tail := ((padded.drop whole).reverse.dropWhile (· = '0')).reverse
    String.ofList (padded.take whole ++ (if tail = [] then [] else '.' :: tail))

/-- A double as text. -/
def write : Double → String
  | .nan => "NaN"
  | .infinite isNegative => if isNegative then "-inf" else "inf"
  | .finite isNegative significand exponent =>
      let sign := if isNegative then "-" else ""
      if significand = 0 then sign ++ "0"
      else
        let (number, place) := shortest significand exponent
        sign ++ positional number place

/-- A double as text that has a point if it is finite. -/
def writePointed (double : Double) : String :=
  let text := write double
  if double.isFinite ∧ ¬text.contains '.' then text ++ ".0" else text

end PeerTrust.Decimal
