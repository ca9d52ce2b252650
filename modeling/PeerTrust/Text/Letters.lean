/-!
# Letters

Letters of the Latin alphabet have a lower-case form; other characters stay as they are.
-/

namespace PeerTrust.Letters

/-- A letter of the Latin alphabet in lower case; other characters stay. -/
def lower (c : Char) : Char :=
  if 'A' ≤ c ∧ c ≤ 'Z' then Char.ofNat (c.toNat + 32) else c

/-- A text with all its letters in lower case. -/
def lowerCase (text : String) : String := String.ofList (text.toList.map lower)

end PeerTrust.Letters
