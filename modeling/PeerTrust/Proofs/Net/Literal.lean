import Mathlib.Data.List.TakeWhile
import PeerTrust.Net.Address
import PeerTrust.Proofs.Text.Letters

/-!
# Spellings of an address

The digits of an address may be written in either case, and the marks between them have none, so
each part of an address reads the same text in lower case. The last character that is read is a
digit or a colon, so unlike a DNS name no address ends in a dot. -/

namespace PeerTrust.IpAddress

open Letters

/-- What was read at the head of a text, with the rest of the text in lower case. -/
def lowerRest {α : Type} (read : α × List Char) : α × List Char := (read.1, read.2.map lower)

/-- A run of groups, with the rest of the text in lower case. -/
def GroupRun.lowerRest (run : GroupRun) : GroupRun := { run with rest := run.rest.map lower }

section
variable {base : Nat} (text : List Char)

theorem hexValue?_lower (c : Char) : hexValue? (lower c) = hexValue? c := by
  have hletters : ∀ index < 26,
      hexValue? (lower (Char.ofNat (65 + index))) = hexValue? (Char.ofNat (65 + index)) := by
    decide
  by_cases hletter : 'A' ≤ c ∧ c ≤ 'Z'
  · have hlow : 65 ≤ c.toNat := hletter.1
    have hhigh : c.toNat ≤ 90 := hletter.2
    have hvalue := hletters (c.toNat - 65) (by omega)
    rwa [Nat.add_sub_cancel' hlow, Char.ofNat_toNat] at hvalue
  · rw [lower, if_neg hletter]

theorem digit?_lower (c : Char) : digit? base (lower c) = digit? base c := by
  rw [digit?, digit?, hexValue?_lower]

theorem digits_map_lower : digits base (text.map lower) = lowerRest (digits base text) := by
  simp [digits, lowerRest, List.takeWhile_map, List.dropWhile_map, Function.comp_def, digit?_lower]

theorem octet?_map_lower : octet? (text.map lower) = (octet? text).map lowerRest := by
  unfold octet?
  rw [digits_map_lower]
  rcases digits 10 text with ⟨_ | ⟨first, others⟩, rest⟩
  · rfl
  · dsimp only [lowerRest]
    split
    · rfl
    · rfl

theorem group?_map_lower : group? (text.map lower) = (group? text).map lowerRest := by
  unfold group?
  rw [digits_map_lower]
  rcases digits 16 text with ⟨_ | ⟨first, others⟩, rest⟩
  · rfl
  · dsimp only [lowerRest]
    split
    · rfl
    · rfl

theorem after?_map_lower {mark : Char} (hmark : mark.isAlpha = false) :
    after? mark (text.map lower) = (after? mark text).map (List.map lower) := by
  cases text with
  | nil => rfl
  | cons c rest =>
    rw [List.map_cons, after?, after?]
    simp only [lower_eq_iff hmark]
    split
    · rfl
    · rfl

theorem octets?_map_lower : octets? (text.map lower) = (octets? text).map lowerRest := by
  have hdot (rest : List Char) := @after?_map_lower rest '.' rfl
  simp only [octets?, octet?_map_lower, hdot, Option.bind_eq_bind, Option.bind_map, Option.map_bind,
    Function.comp_def, lowerRest]
  rfl

theorem groupRun_map_lower (first : Bool) (limit : Nat) :
    groupRun first limit (text.map lower) = (groupRun first limit text).lowerRest := by
  induction limit generalizing first text with
  | zero => rfl
  | succ limit ih =>
    have hstart : (if first then some (text.map lower) else after? ':' (text.map lower)) =
        (if first then some text else after? ':' text).map (List.map lower) := by
      rw [@after?_map_lower text ':' rfl]
      cases first <;> rfl
    rw [groupRun, groupRun, hstart]
    cases (if first then some text else after? ':' text) with
    | none => rfl
    | some start =>
      dsimp only [Option.map_some]
      have hoctets : (if limit = 0 then none else octets? (start.map lower)) =
          (if limit = 0 then none else octets? start).map lowerRest := by
        rw [octets?_map_lower]
        split <;> rfl
      rw [hoctets]
      cases (if limit = 0 then none else octets? start) with
      | some read => rfl
      | none =>
        dsimp only [Option.map_none]
        rw [group?_map_lower]
        cases group? start with
        | none => rfl
        | some read =>
          dsimp only [Option.map_some, lowerRest]
          rw [ih]
          rfl

theorem groups?_map_lower : groups? (text.map lower) = (groups? text).map lowerRest := by
  have hcolon (rest : List Char) := @after?_map_lower rest ':' rfl
  simp only [groups?, groupRun_map_lower, GroupRun.lowerRest, hcolon, Option.bind_eq_bind,
    Option.bind_map, Function.comp_def]
  split
  · rfl
  split
  · rfl
  cases after? ':' (groupRun true 8 text).rest with
  | none => rfl
  | some behind =>
    dsimp only [Option.bind_some]
    cases after? ':' behind with
    | none => rfl
    | some start =>
      dsimp only [Option.bind_some]
      split <;> rfl

/-- Letter case makes no difference to an address. -/
theorem parse?_lowerCase (text : String) : parse? (lowerCase text) = parse? text := by
  have hoctets := octets?_map_lower text.toList
  have hgroups := groups?_map_lower text.toList
  rw [parse?, parse?, lowerCase, String.toList_ofList, hoctets, hgroups]
  rcases octets? text.toList with _ | ⟨octets, _ | ⟨c, rest⟩⟩
  · rcases groups? text.toList with _ | ⟨groups, _ | ⟨c, rest⟩⟩ <;> rfl
  · rfl
  · rfl

end

/-- A part of a text is read that does not end in a dot. -/
def ReadsPast (text rest : List Char) : Prop :=
  ∃ before last, last ≠ '.' ∧ text = before ++ last :: rest

section
variable {base : Nat} {text middle rest : List Char}

theorem ReadsPast.suffix (h : ReadsPast text rest) : rest <:+ text := by
  obtain ⟨before, last, -, rfl⟩ := h
  exact (List.suffix_cons last rest).trans (List.suffix_append ..)

/-- What is read behind something else is read in the whole text. -/
theorem ReadsPast.of_suffix (h : ReadsPast middle rest) (hmiddle : middle <:+ text) :
    ReadsPast text rest := by
  obtain ⟨before, last, hlast, rfl⟩ := h
  obtain ⟨front, rfl⟩ := hmiddle
  exact ⟨front ++ before, last, hlast, by rw [List.append_assoc]⟩

theorem after?_eq_some {mark : Char} : after? mark text = some rest ↔ text = mark :: rest := by
  cases text with
  | nil => exact iff_of_false nofun nofun
  | cons c others =>
    rw [after?, List.cons.injEq]
    split
    · rename_i hmark
      rw [Option.some.injEq, and_iff_right hmark]
    · rename_i hmark
      exact iff_of_false nofun fun h => hmark h.1

theorem suffix_of_after? {mark : Char} (h : after? mark text = some rest) : rest <:+ text := by
  rw [after?_eq_some.mp h]
  exact List.suffix_cons mark rest

/-- The last digit that is read is no dot. -/
theorem readsPast_of_digits {d : Nat} {ds : List Nat} (h : digits base text = (d :: ds, rest)) :
    ReadsPast text rest := by
  obtain ⟨hds, hrest⟩ := Prod.mk.inj h
  have hsplit := @List.takeWhile_append_dropWhile _ (fun c => (digit? base c).isSome) text
  rcases List.eq_nil_or_concat (text.takeWhile fun c => (digit? base c).isSome) with
    hnone | ⟨before, last, hread⟩
  · rw [hnone] at hds
    cases hds
  · have hlast : (digit? base last).isSome = true :=
      @List.mem_takeWhile_imp _ (fun c => (digit? base c).isSome) text last (by simp [hread])
    refine ⟨before, last, ?_, ?_⟩
    · rintro rfl
      cases hlast
    · rw [← hsplit, hread, hrest, List.concat_eq_append, List.append_assoc, List.singleton_append]

theorem readsPast_of_octet? {octet : UInt8} (h : octet? text = some (octet, rest)) :
    ReadsPast text rest := by
  unfold octet? at h
  rcases hdigits : digits 10 text with ⟨_ | ⟨d, ds⟩, remaining⟩
  · rw [hdigits] at h
    cases h
  · rw [hdigits] at h
    dsimp only at h
    split at h
    · cases h
      exact readsPast_of_digits hdigits
    · cases h

theorem readsPast_of_group? {group : UInt16} (h : group? text = some (group, rest)) :
    ReadsPast text rest := by
  unfold group? at h
  rcases hdigits : digits 16 text with ⟨_ | ⟨d, ds⟩, remaining⟩
  · rw [hdigits] at h
    cases h
  · rw [hdigits] at h
    dsimp only at h
    split at h
    · cases h
      exact readsPast_of_digits hdigits
    · cases h

theorem readsPast_of_octets? {octets : Vector UInt8 4} (h : octets? text = some (octets, rest)) :
    ReadsPast text rest := by
  simp only [octets?, Option.bind_eq_bind, Option.bind_eq_some_iff] at h
  obtain ⟨⟨a, behindA⟩, ha, fromB, hfromB, ⟨b, behindB⟩, hb, fromC, hfromC, ⟨c, behindC⟩, hc, fromD,
    hfromD, ⟨d, behindD⟩, hd, hrest⟩ := h
  cases hrest
  have hsuffixD : fromD <:+ behindC := suffix_of_after? hfromD
  have hsuffixC : behindC <:+ behindB :=
    (readsPast_of_octet? hc).suffix.trans (suffix_of_after? hfromC)
  have hsuffixB : behindB <:+ behindA :=
    (readsPast_of_octet? hb).suffix.trans (suffix_of_after? hfromB)
  have hsuffixA : behindA <:+ text := (readsPast_of_octet? ha).suffix
  have hsuffix : fromD <:+ text :=
    hsuffixD.trans (hsuffixC.trans (hsuffixB.trans hsuffixA))
  exact (readsPast_of_octet? hd).of_suffix hsuffix

/-- Where groups are read, something is read that does not end in a dot. -/
theorem groupRun_reads (first : Bool) (limit : Nat) (text : List Char) :
    (groupRun first limit text).groups = [] ∧ (groupRun first limit text).rest = text ∨
      ReadsPast text (groupRun first limit text).rest := by
  induction limit generalizing first text with
  | zero => exact Or.inl ⟨rfl, rfl⟩
  | succ limit ih =>
    rw [groupRun]
    split
    · exact Or.inl ⟨rfl, rfl⟩
    rename_i start hstart
    have hsuffix : start <:+ text := by
      cases first with
      | true =>
        cases hstart
        exact List.suffix_refl _
      | false => exact suffix_of_after? hstart
    split
    · rename_i octets rest hoctets
      split at hoctets
      · cases hoctets
      · exact Or.inr ((readsPast_of_octets? hoctets).of_suffix hsuffix)
    · split
      · exact Or.inl ⟨rfl, rfl⟩
      · rename_i group rest hgroup
        have hread := (readsPast_of_group? hgroup).of_suffix hsuffix
        right
        rcases ih false rest with ⟨-, hsame⟩ | hmore
        · dsimp only
          rwa [hsame]
        · exact hmore.of_suffix hread.suffix

theorem readsPast_of_groups? {groups : Vector UInt16 8} (h : groups? text = some (groups, rest)) :
    ReadsPast text rest := by
  have hfront := groupRun_reads true 8 text
  unfold groups? at h
  dsimp only at h
  split at h
  · rename_i hall
    cases h
    refine hfront.resolve_left fun hnone => ?_
    rw [hnone.1] at hall
    cases hall
  split at h
  · cases h
  simp only [Option.bind_eq_bind, Option.bind_eq_some_iff] at h
  obtain ⟨behind, hbehind, start, hstart, h⟩ := h
  have hsuffix : behind <:+ text := by
    refine (suffix_of_after? hbehind).trans ?_
    rcases hfront with ⟨-, hsame⟩ | hread
    · simp [hsame]
    · exact hread.suffix
  split at h
  · cases h
    rcases groupRun_reads true (7 - (groupRun true 8 text).groups.length) start with
      ⟨-, hsame⟩ | hread
    · rw [hsame]
      obtain ⟨before, rfl⟩ := hsuffix
      exact ⟨before, ':', by decide, by rw [after?_eq_some.mp hstart]⟩
    · exact (hread.of_suffix (suffix_of_after? hstart)).of_suffix hsuffix
  · cases h

/-- An address does not end in a dot. -/
theorem not_dot_suffix_of_parse? {text : String} {address : IpAddress}
    (h : parse? text = some address) : ¬ ['.'] <:+ text.toList := by
  have hread : ReadsPast text.toList [] := by
    unfold parse? at h
    split at h
    · rename_i octets hoctets
      exact readsPast_of_octets? hoctets
    · cases h
    · split at h
      · rename_i groups hgroups
        exact readsPast_of_groups? hgroups
      · cases h
  obtain ⟨before, last, hlast, htext⟩ := hread
  rw [htext]
  rintro ⟨front, hfront⟩
  exact hlast (List.singleton_inj.mp (List.append_inj' hfront rfl).2).symm

end

end PeerTrust.IpAddress
