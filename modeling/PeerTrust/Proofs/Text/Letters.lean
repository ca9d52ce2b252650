import PeerTrust.Text.Letters

/-!
# Letters and other characters

The lower form is that of the standard library. A character that is no letter is the lower form of
itself alone, so a mark such as a dot is in the same places of a text whatever the case of its
letters. -/

namespace PeerTrust.Letters

section
variable {c mark : Char}

theorem toLower_of_not_capital (h : ¬('A' ≤ c ∧ c ≤ 'Z')) : c.toLower = c := dif_neg h

/-- The lower form of a capital stands as far behind it as that of any other one. -/
theorem toNat_toLower (h : 'A' ≤ c ∧ c ≤ 'Z') : c.toLower.toNat = c.toNat + 32 := by
  have hhigh : c.toNat ≤ 90 := h.2
  have hlower : c.toLower.toNat = (c.toNat + 32) % 2 ^ 32 := by
    unfold Char.toLower
    rw [dif_pos (show c.val ≥ 'A'.val ∧ c.val ≤ 'Z'.val from h)]
    rfl
  omega

theorem lower_eq_toLower (c : Char) : lower c = c.toLower := by
  unfold lower
  by_cases h : 'A' ≤ c ∧ c ≤ 'Z'
  · rw [if_pos h, ← toNat_toLower h, Char.ofNat_toNat]
  · rw [if_neg h, toLower_of_not_capital h]

/-- What is no letter is the lower form of itself alone. -/
theorem toLower_eq_iff (hmark : mark.isAlpha = false) : c.toLower = mark ↔ c = mark := by
  by_cases h : 'A' ≤ c ∧ c ≤ 'Z'
  · have hlow : 65 ≤ c.toNat := h.1
    have hhigh : c.toNat ≤ 90 := h.2
    have halpha : mark.isAlpha = true ↔
        65 ≤ mark.toNat ∧ mark.toNat ≤ 90 ∨ 97 ≤ mark.toNat ∧ mark.toNat ≤ 122 := by
      delta Char.isAlpha Char.isUpper Char.isLower
      simp [UInt32.le_iff_toNat_le]
    have hletter := mt halpha.mpr (Bool.eq_false_iff.mp hmark)
    constructor
    · rintro rfl
      rw [toNat_toLower h] at hletter
      omega
    · rintro rfl
      omega
  · rw [toLower_of_not_capital h]

theorem lower_eq_iff (hmark : mark.isAlpha = false) : lower c = mark ↔ c = mark := by
  rw [lower_eq_toLower, toLower_eq_iff hmark]

/-- A mark is at the end of a text whatever the case of the letters. -/
theorem getLast?_map_lower_iff (hmark : mark.isAlpha = false) (text : List Char) :
    (text.map lower).getLast? = some mark ↔ text.getLast? = some mark := by
  rw [List.getLast?_map, Option.map_eq_some_iff]
  constructor
  · rintro ⟨last, hlast, hsame⟩
    rwa [(lower_eq_iff hmark).mp hsame] at hlast
  · intro hlast
    exact ⟨mark, hlast, (lower_eq_iff hmark).mpr rfl⟩

end

/-- Texts are the same in lower case if they differ in the case of letters only. -/
theorem lowerCase_eq_iff {first second : String} : lowerCase first = lowerCase second ↔
    first.toList.map lower = second.toList.map lower := by
  rw [lowerCase, lowerCase, String.ofList_inj]

end PeerTrust.Letters
