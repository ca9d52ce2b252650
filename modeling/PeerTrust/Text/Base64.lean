import PeerTrust.Text.Bytes

/-!
# Base64

The standard alphabet with padding. Writing always pads. Reading skips blanks, takes padding as
optional, ignores unused trailing bits, and reports the first fault it meets while going through
the text in blocks of eight characters.
-/

namespace PeerTrust.Base64

/-- Why a text is not Base64. -/
inductive Fault where
  /-- A character outside the alphabet. -/
  | invalidCharacter (byte : UInt8)
  /-- Padding before the last group of four characters. -/
  | prematurePadding
  /-- A last group that is too short or wrongly padded. -/
  | invalidTrailingPadding
  deriving DecidableEq, Repr

/-- The wording of a fault. -/
def Fault.message : Fault → String
  | .invalidCharacter byte => s!"InvalidCharacter({byte.toNat})"
  | .prematurePadding => "PrematurePadding"
  | .invalidTrailingPadding => "InvalidTrailingPadding"

/-- The padding character `=`. -/
def padding : UInt8 := 0x3D

/-- The character that stands for a value below sixty-four. -/
def symbol (value : Nat) : UInt8 :=
  if value < 26 then UInt8.ofNat (0x41 + value)
  else if value < 52 then UInt8.ofNat (0x61 + (value - 26))
  else if value < 62 then UInt8.ofNat (0x30 + (value - 52))
  else if value = 62 then 0x2B
  else 0x2F

/-- The value that a character stands for. -/
def value? (byte : UInt8) : Option Nat :=
  if 0x41 ≤ byte ∧ byte ≤ 0x5A then some (byte.toNat - 0x41)
  else if 0x61 ≤ byte ∧ byte ≤ 0x7A then some (byte.toNat - 0x61 + 26)
  else if 0x30 ≤ byte ∧ byte ≤ 0x39 then some (byte.toNat - 0x30 + 52)
  else if byte = 0x2B then some 62
  else if byte = 0x2F then some 63
  else none

/-- Blanks are the characters from tab to carriage return and the space. -/
def isBlank (byte : UInt8) : Bool := (0x09 ≤ byte && byte ≤ 0x0D) || byte == 0x20

/-- Every three bytes become four characters, and the last group is padded to four. -/
def encode : Bytes → Bytes
  | [] => []
  | [a] => [symbol (a.toNat / 4), symbol (a.toNat % 4 * 16), padding, padding]
  | [a, b] =>
      [symbol (a.toNat / 4), symbol (a.toNat % 4 * 16 + b.toNat / 16), symbol (b.toNat % 16 * 4),
        padding]
  | a :: b :: c :: rest =>
      symbol (a.toNat / 4) :: symbol (a.toNat % 4 * 16 + b.toNat / 16) ::
        symbol (b.toNat % 16 * 4 + c.toNat / 64) :: symbol (c.toNat % 64) :: encode rest

/-- A character of the alphabet, or padding. -/
inductive Token where
  | value (bits : Nat)
  | pad
  deriving DecidableEq, Repr

/-- Whether a token is padding. -/
def Token.isPad : Token → Bool
  | .pad => true
  | .value _ => false

/-- The bits of a token; padding has none. -/
def Token.bits : Token → Nat
  | .pad => 0
  | .value bits => bits

/-- The token that a character is. -/
def token (byte : UInt8) : Except Fault Token :=
  if byte = padding then .ok .pad
  else match value? byte with
    | some bits => .ok (.value bits)
    | none => .error (.invalidCharacter byte)

/-- The three bytes of four tokens. -/
def triple (a b c d : Token) : Bytes :=
  [UInt8.ofNat (a.bits * 4 + b.bits / 16), UInt8.ofNat (b.bits * 16 + c.bits / 4),
    UInt8.ofNat (c.bits * 64 + d.bits)]

/-- The bytes of a last group of at most four tokens. -/
def lastGroup : List Token → Except Fault Bytes
  | [] => .ok []
  | [.value a, .value b] => .ok ((triple (.value a) (.value b) .pad .pad).take 1)
  | [.value a, .value b, .pad, .pad] => .ok ((triple (.value a) (.value b) .pad .pad).take 1)
  | [.value a, .value b, .value c] => .ok ((triple (.value a) (.value b) (.value c) .pad).take 2)
  | [.value a, .value b, .value c, .pad] =>
      .ok ((triple (.value a) (.value b) (.value c) .pad).take 2)
  | [.value a, .value b, .value c, .value d] =>
      .ok (triple (.value a) (.value b) (.value c) (.value d))
  | _ => .error .invalidTrailingPadding

/-- The bytes of a last block of at most eight tokens. -/
def lastBlock : List Token → Except Fault Bytes
  | a :: b :: c :: d :: e :: rest =>
      if [a, b, c, d].any Token.isPad then .error .prematurePadding
      else do return triple a b c d ++ (← lastGroup (e :: rest))
  | group => lastGroup group

/-- Reads the characters that are not blank. `block` holds at most eight tokens, in reverse, whose
bytes are not out yet; a full block is closed by the character after it. -/
def decodeFrom (block : List Token) : Bytes → Except Fault Bytes
  | [] => lastBlock block.reverse
  | byte :: rest => do
      let next ← token byte
      match block.reverse with
      | [a, b, c, d, e, f, g, h] =>
          if block.any Token.isPad then .error .prematurePadding
          else return triple a b c d ++ triple e f g h ++ (← decodeFrom [next] rest)
      | _ => decodeFrom (next :: block) rest

/-- Reads a text of any layout. -/
def decode (text : Bytes) : Except Fault Bytes :=
  decodeFrom [] (text.filter (!isBlank ·))

end PeerTrust.Base64
