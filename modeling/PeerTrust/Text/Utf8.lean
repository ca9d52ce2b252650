import PeerTrust.Text.Bytes

/-!
# UTF-8

Reading text from bytes, strictly or with every ill-formed part replaced by U+FFFD. A replaced
part is the longest beginning of a well-formed sequence, or else a single byte.
-/

namespace PeerTrust.Utf8

/-- The allowed ranges of the continuation bytes after a lead byte, or `none` for a byte that
cannot lead a sequence. -/
def continuation (lead : UInt8) : Option (List (UInt8 × UInt8)) :=
  if lead ≤ 0x7F then some []
  else if lead < 0xC2 then none
  else if lead ≤ 0xDF then some [(0x80, 0xBF)]
  else if lead = 0xE0 then some [(0xA0, 0xBF), (0x80, 0xBF)]
  else if lead = 0xED then some [(0x80, 0x9F), (0x80, 0xBF)]
  else if lead ≤ 0xEF then some [(0x80, 0xBF), (0x80, 0xBF)]
  else if lead = 0xF0 then some [(0x90, 0xBF), (0x80, 0xBF), (0x80, 0xBF)]
  else if lead ≤ 0xF3 then some [(0x80, 0xBF), (0x80, 0xBF), (0x80, 0xBF)]
  else if lead = 0xF4 then some [(0x80, 0x8F), (0x80, 0xBF), (0x80, 0xBF)]
  else none

/-- The longest run of bytes that fits the ranges one by one. -/
def fitting : List (UInt8 × UInt8) → Bytes → Bytes
  | (low, high) :: ranges, byte :: bytes =>
      if low ≤ byte ∧ byte ≤ high then byte :: fitting ranges bytes else []
  | _, _ => []

/-- The payload bits of a lead byte with the given number of continuation bytes. -/
def leadBits (lead : UInt8) : Nat → Nat
  | 0 => lead.toNat
  | 1 => lead.toNat % 32
  | 2 => lead.toNat % 16
  | _ => lead.toNat % 8

/-- The character at the head of a byte string, if the bytes there are well-formed, and the number
of further bytes it takes up or spoils. -/
def head (lead : UInt8) (rest : Bytes) : Option Char × Nat :=
  match continuation lead with
  | none => (none, 0)
  | some ranges =>
      let tail := fitting ranges rest
      if tail.length = ranges.length then
        let value := tail.foldl (fun value byte => value * 64 + byte.toNat % 64)
          (leadBits lead ranges.length)
        (some (Char.ofNat value), tail.length)
      else (none, tail.length)

/-- The character written for an ill-formed part. -/
def replacement : Char := Char.ofNat 0xFFFD

/-- All characters of a byte string, with `none` for every ill-formed part. -/
def scan : Bytes → List (Option Char)
  | [] => []
  | lead :: rest => (head lead rest).1 :: scan (rest.drop (head lead rest).2)
  termination_by bytes => bytes.length
  decreasing_by simp only [List.length_drop, List.length_cons]; omega

/-- Text from bytes, with every ill-formed part replaced. -/
def lossy (bytes : Bytes) : String :=
  String.ofList ((scan bytes).map (·.getD replacement))

/-- Text from bytes that are well-formed throughout. -/
def decode? (bytes : Bytes) : Option String :=
  ((scan bytes).mapM id).map String.ofList

end PeerTrust.Utf8
