import PeerTrust.Signature.Modular
import PeerTrust.Text.Bytes

/-!
# Message digests

The second family of secure hash algorithms over words of 32 and of 64 bits. The constants are the
first bits of the fractions of square and cube roots of the first primes, so they are computed and
not listed.
-/

namespace PeerTrust.Digest

/-- What the members of the family differ in, beside the width of a word. -/
structure Family (width : Nat) where
  rounds : Nat
  /-- Rotations, and the shift, of the two schedule functions. -/
  schedule0 : Nat × Nat × Nat
  schedule1 : Nat × Nat × Nat
  /-- Rotations of the two round functions. -/
  round0 : Nat × Nat × Nat
  round1 : Nat × Nat × Nat

/-- The family over words of 32 bits. -/
def family32 : Family 32 where
  rounds := 64
  schedule0 := (7, 18, 3)
  schedule1 := (17, 19, 10)
  round0 := (2, 13, 22)
  round1 := (6, 11, 25)

/-- The family over words of 64 bits. -/
def family64 : Family 64 where
  rounds := 80
  schedule0 := (1, 8, 7)
  schedule1 := (19, 61, 6)
  round0 := (28, 34, 39)
  round1 := (14, 18, 41)

/-- The first eighty primes are all below this bound. -/
def primeBound : Nat := 410

/-- Whether a number has no divisor between two and itself. -/
def isPrime (n : Nat) : Bool :=
  2 ≤ n && (List.range n).all fun d => d < 2 || n % d ≠ 0

/-- The first eighty primes. -/
def primes : List Nat := (List.range primeBound).filter isPrime

/-- The first `width` bits of the fraction of a root of a number. -/
def rootFraction (width degree n : Nat) : BitVec width :=
  BitVec.ofNat width (Modular.root degree (width + 9) (n * Nat.pow 2 (degree * width)))

/-- The constants of the rounds. -/
def roundConstants (width rounds : Nat) : List (BitVec width) :=
  (primes.take rounds).map (rootFraction width 3)

/-- The state of eight words. -/
structure State (width : Nat) where
  a : BitVec width
  b : BitVec width
  c : BitVec width
  d : BitVec width
  e : BitVec width
  f : BitVec width
  g : BitVec width
  h : BitVec width

/-- The words of a state in order. -/
def State.words {width : Nat} (s : State width) : List (BitVec width) :=
  [s.a, s.b, s.c, s.d, s.e, s.f, s.g, s.h]

/-- The sum of two states, word by word. -/
def State.add {width : Nat} (s t : State width) : State width :=
  ⟨s.a + t.a, s.b + t.b, s.c + t.c, s.d + t.d, s.e + t.e, s.f + t.f, s.g + t.g, s.h + t.h⟩

/-- The state before the first block, from eight primes. -/
def initial (width : Nat) (from8 : List Nat) : State width :=
  match from8.map (rootFraction width 2) with
  | [a, b, c, d, e, f, g, h] => ⟨a, b, c, d, e, f, g, h⟩
  | _ => ⟨0, 0, 0, 0, 0, 0, 0, 0⟩

section
variable {width : Nat}

/-- Three rotations combined. -/
def rotations (amounts : Nat × Nat × Nat) (x : BitVec width) : BitVec width :=
  x.rotateRight amounts.1 ^^^ x.rotateRight amounts.2.1 ^^^ x.rotateRight amounts.2.2

/-- Two rotations and a shift combined. -/
def shifts (amounts : Nat × Nat × Nat) (x : BitVec width) : BitVec width :=
  x.rotateRight amounts.1 ^^^ x.rotateRight amounts.2.1 ^^^ (x >>> amounts.2.2)

/-- Carries out rounds. `window` holds the sixteen schedule words from the current one on, each new
word being made from four of them. -/
def compress (family : Family width) :
    List (BitVec width) → List (BitVec width) → State width → State width
  | [], _, s => s
  | k :: ks, window, s =>
      let word := window.headD 0
      let next := shifts family.schedule1 (window.getD 14 0) + window.getD 9 0 +
        shifts family.schedule0 (window.getD 1 0) + word
      let choice := (s.e &&& s.f) ^^^ (~~~s.e &&& s.g)
      let majority := (s.a &&& s.b) ^^^ (s.a &&& s.c) ^^^ (s.b &&& s.c)
      let first := s.h + rotations family.round1 s.e + choice + k + word
      let second := rotations family.round0 s.a + majority
      compress family ks (window.drop 1 ++ [next])
        ⟨first + second, s.a, s.b, s.c, s.d + first, s.e, s.f, s.g⟩

/-- The words of a byte string, each of `size` bytes. -/
def words (size : Nat) : Nat → Bytes → List (BitVec width)
  | 0, _ => []
  | count + 1, bytes =>
      BitVec.ofNat width (Bytes.toNat (bytes.take size)) :: words size count (bytes.drop size)

/-- Takes in blocks of sixteen words one after the other. -/
def blocks (family : Family width) (constants : List (BitVec width)) (size : Nat) :
    Nat → Bytes → State width → State width
  | 0, _, s => s
  | count + 1, bytes, s =>
      blocks family constants size count (bytes.drop (16 * size))
        (s.add (compress family constants (words size 16 bytes) s))

/-- A message with a one bit, zeros up to the end of a block, and its length in bits. -/
def pad (size : Nat) (message : Bytes) : Bytes :=
  let block := 16 * size
  let zeros := (block - (message.length + 1 + 2 * size) % block) % block
  message ++ [0x80] ++ List.replicate zeros 0 ++ Bytes.ofNat (2 * size) (8 * message.length)

/-- The digest as bytes. -/
def digest (family : Family width) (start : State width) (constants : List (BitVec width))
    (message : Bytes) : Bytes :=
  let size := width / 8
  let padded := pad size message
  let final := blocks family constants size (padded.length / (16 * size)) padded start
  final.words.flatMap fun word => Bytes.ofNat size word.toNat

end

/-- The constants over words of 32 bits. -/
def constants32 : List (BitVec 32) := roundConstants 32 64

/-- The constants over words of 64 bits. -/
def constants64 : List (BitVec 64) := roundConstants 64 80

/-- The start of the digest of 256 bits. -/
def start256 : State 32 := initial 32 (primes.take 8)

/-- The start of the digest of 384 bits. -/
def start384 : State 64 := initial 64 ((primes.drop 8).take 8)

/-- The start of the digest of 512 bits. -/
def start512 : State 64 := initial 64 (primes.take 8)

/-- The digests in use. -/
inductive Algorithm where
  | sha256
  | sha384
  | sha512
  deriving DecidableEq, Repr

/-- The digest of a message. -/
def Algorithm.hash : Algorithm → Bytes → Bytes
  | .sha256, message => digest family32 start256 constants32 message
  | .sha384, message => (digest family64 start384 constants64 message).take 48
  | .sha512, message => digest family64 start512 constants64 message

/-- The number of bytes of a digest. -/
def Algorithm.size : Algorithm → Nat
  | .sha256 => 32
  | .sha384 => 48
  | .sha512 => 64

end PeerTrust.Digest
