import Mathlib.Algebra.Order.Group.Nat
import Mathlib.Data.List.TakeWhile
import Mathlib.Data.Option.Basic
import PeerTrust.Net.Address
import PeerTrust.Proofs.Failing

/-!
# Addresses are read back as they were written

A number is read back digit by digit, as long as no further digit follows it. So are the octets of a
version 4 address and the groups of a version 6 address, and the run of zero groups that was
shortened is just what is missing from eight groups.
-/

namespace PeerTrust.IpAddress

/-- A text that does not go on with a digit. -/
def EndsDigits (base : Nat) (text : List Char) : Prop := ∀ c ∈ text.head?, digit? base c = none

/-- Characters that are read as digits one by one. -/
abbrev AreDigits (base : Nat) (text : List Char) (ds : List Nat) : Prop :=
  List.Forall₂ (fun c d => digit? base c = some d) text ds

section
variable {base n : Nat} {text rest : List Char} {ds : List Nat}

theorem endsDigits_nil : EndsDigits base [] := fun _ hmem => by cases hmem

theorem endsDigits_cons {c : Char} (hc : digit? base c = none) : EndsDigits base (c :: rest) := by
  intro other hmem
  cases hmem
  exact hc

/-- The digits at the head of a text that goes on otherwise. -/
theorem digits_append (hds : AreDigits base text ds) (hrest : EndsDigits base rest) :
    digits base (text ++ rest) = (ds, rest) := by
  induction hds with
  | nil =>
    cases rest with
    | nil => rfl
    | cons c more =>
      have hc : digit? base c = none := hrest c rfl
      simp [digits, hc]
  | cons hfirst hothers ih =>
    simp only [digits, Prod.mk.injEq] at ih
    simp [digits, hfirst, ih]

theorem digit?_digitChar {d : Nat} (hbase : base ≤ 16) (hd : d < base) :
    digit? base (Nat.digitChar d) = some d := by
  have hvalue : ∀ d < 16, hexValue? (Nat.digitChar d) = some d := by decide
  rw [digit?, hvalue d (by omega)]
  simp [hd]

theorem ofDigits_append_singleton (d : Nat) :
    ofDigits base (ds ++ [d]) = ofDigits base ds * base + d := by
  rw [ofDigits, List.foldl_append]
  rfl

/-- A number is written in digits that give it back, and it begins with a zero only if it is one. -/
theorem exists_areDigits_toDigits (hbase : 1 < base) (hle : base ≤ 16) (n : Nat) :
    ∃ ds, AreDigits base (Nat.toDigits base n) ds ∧ ofDigits base ds = n ∧
      (ds.head? = some 0 → ds.length = 1) := by
  induction n using Nat.strong_induction_on with
  | _ n ih =>
    rw [Nat.toDigits_eq_if hbase]
    split
    · rename_i hlt
      refine ⟨[n], .cons (digit?_digitChar hle hlt) .nil, ?_, fun _ => rfl⟩
      simp [ofDigits]
    · rename_i hge
      have hsmaller : n / base < n := Nat.div_lt_self (by omega) hbase
      obtain ⟨ds, hds, hvalue, hzero⟩ := ih (n / base) hsmaller
      have hlast := digit?_digitChar hle (Nat.mod_lt n (by omega))
      refine ⟨ds ++ [n % base], List.rel_append hds (.cons hlast .nil), ?_, ?_⟩
      · rw [ofDigits_append_singleton, hvalue, Nat.mul_comm]
        exact Nat.div_add_mod n base
      · intro hhead
        have hpos : 0 < n / base := Nat.div_pos (by omega) (by omega)
        cases ds with
        | nil =>
          have hnothing : ofDigits base [] = 0 := rfl
          omega
        | cons first others =>
          have hfirst : first = 0 := by simpa using hhead
          have hnone : others = [] := by
            have hlength := hzero (congrArg some hfirst)
            simpa using hlength
          have hnothing : ofDigits base (first :: others) = 0 := by
            simp [hfirst, hnone, ofDigits]
          omega

theorem toDigits_ne_nil_of_areDigits (hds : AreDigits base (Nat.toDigits base n) ds) : ds ≠ [] := by
  rintro rfl
  exact Nat.toDigits_ne_nil (List.forall₂_nil_right_iff.mp hds)

/-- An octet is read back. -/
theorem octet?_toDigits (octet : UInt8) (hrest : EndsDigits 10 rest) :
    octet? (Nat.toDigits 10 octet.toNat ++ rest) = some (octet, rest) := by
  obtain ⟨ds, hds, hvalue, hzero⟩ :=
    exists_areDigits_toDigits (show 1 < 10 by omega) (by omega) octet.toNat
  have hne := toDigits_ne_nil_of_areDigits hds
  have hoctet := octet.toNat_lt
  have hlength : ds.length ≤ 3 := by
    rw [← hds.length_eq]
    exact (Nat.length_toDigits_le_iff (by omega) (by omega)).mpr (by omega)
  have hsmall : ofDigits 10 ds ≤ 255 := by omega
  unfold octet?
  rw [digits_append hds hrest]
  cases ds with
  | nil => exact absurd rfl hne
  | cons first others =>
    dsimp only
    rw [if_pos ⟨hlength, hzero, hsmall⟩, hvalue, UInt8.ofNat_toNat]

/-- A group is read back. -/
theorem group?_toDigits (group : UInt16) (hrest : EndsDigits 16 rest) :
    group? (Nat.toDigits 16 group.toNat ++ rest) = some (group, rest) := by
  obtain ⟨ds, hds, hvalue, -⟩ :=
    exists_areDigits_toDigits (show 1 < 16 by omega) (by omega) group.toNat
  have hne := toDigits_ne_nil_of_areDigits hds
  have hgroup := group.toNat_lt
  have hlength : ds.length ≤ 4 := by
    rw [← hds.length_eq]
    exact (Nat.length_toDigits_le_iff (by omega) (by omega)).mpr (by omega)
  unfold group?
  rw [digits_append hds hrest]
  cases ds with
  | nil => exact absurd rfl hne
  | cons first others =>
    dsimp only
    rw [if_pos hlength, hvalue, UInt16.ofNat_toNat]

end

section
variable {text rest : List Char}

theorem octet?_of_endsDigits (htext : EndsDigits 10 text) : octet? text = none := by
  have hnone := digits_append .nil htext
  rw [List.nil_append] at hnone
  rw [octet?, hnone]

theorem group?_of_endsDigits (htext : EndsDigits 16 text) : group? text = none := by
  have hnone := digits_append .nil htext
  rw [List.nil_append] at hnone
  rw [group?, hnone]

/-- What follows an octet is a part of the text. -/
theorem suffix_of_octet? {octet : UInt8} (h : octet? text = some (octet, rest)) : rest <:+ text := by
  unfold octet? at h
  split at h
  · cases h
  · rename_i ds remaining hdigits
    split at h
    · cases h
      have hrest : (digits 10 text).2 = rest := by rw [hdigits]
      rw [← hrest]
      exact List.dropWhile_suffix _
    · cases h

theorem after?_eq_none {c : Char} (hc : c ∉ text) : after? c text = none := by
  cases text with
  | nil => rfl
  | cons first others =>
    have hne : first ≠ c := fun heq => hc (heq ▸ List.mem_cons_self)
    rw [after?, if_neg hne]

/-- A text without a dot is not read as a version 4 address. -/
theorem octets?_of_dot_notMem (hdot : '.' ∉ text) : octets? text = none := by
  unfold octets?
  cases hoctet : octet? text with
  | none => rfl
  | some read =>
    obtain ⟨octet, rest⟩ := read
    have hrest : '.' ∉ rest := fun hmem => hdot ((suffix_of_octet? hoctet).subset hmem)
    change ((after? '.' rest).bind _) = none
    rw [after?_eq_none hrest]
    rfl

theorem octets?_of_endsDigits (htext : EndsDigits 10 text) : octets? text = none := by
  rw [octets?, octet?_of_endsDigits htext]
  rfl

/-- The characters of octets. -/
theorem toList_octetsText (a b c d : UInt8) : (octetsText [a, b, c, d]).toList =
    Nat.toDigits 10 a.toNat ++ '.' :: (Nat.toDigits 10 b.toNat ++ '.' ::
      (Nat.toDigits 10 c.toNat ++ '.' :: Nat.toDigits 10 d.toNat)) := by
  simp [octetsText]

/-- Octets are read back. -/
theorem octets?_octetsText (a b c d : UInt8) :
    octets? (octetsText [a, b, c, d]).toList = some (#v[a, b, c, d], []) := by
  have hdot : digit? 10 '.' = none := by decide
  have hends (rest : List Char) : EndsDigits 10 ('.' :: rest) := endsDigits_cons hdot
  have hlast := octet?_toDigits d endsDigits_nil
  rw [List.append_nil] at hlast
  rw [toList_octetsText, octets?]
  simp [octet?_toDigits _ (hends _), after?, hlast]

end

/-- A text at which a run of groups stops. -/
structure EndsGroups (text : List Char) : Prop where
  noDot : '.' ∉ text
  endsDigits : EndsDigits 16 text
  groupRun : ∀ limit, groupRun false limit text = ⟨[], false, text⟩

/-- Groups behind another one, each with a colon in front of it. -/
def laterGroups (groups : List UInt16) : List Char :=
  groups.flatMap fun group => ':' :: Nat.toDigits 16 group.toNat

section
variable {stop : List Char} {groups : List UInt16}

theorem endsGroups_nil : EndsGroups [] where
  noDot := List.not_mem_nil
  endsDigits := endsDigits_nil
  groupRun limit := by cases limit <;> rfl

theorem colon_endsDigits {base : Nat} (rest : List Char) : EndsDigits base (':' :: rest) := by
  have hvalue : hexValue? ':' = none := by decide
  exact endsDigits_cons (by rw [digit?, hvalue]; rfl)

/-- No group follows a shortened run of zero groups without a colon more. -/
theorem endsGroups_colons {rest : List Char} (hdot : '.' ∉ rest) : EndsGroups (':' :: ':' :: rest) where
  noDot := by simpa using hdot
  endsDigits := colon_endsDigits _
  groupRun limit := by
    cases limit with
    | zero => rfl
    | succ limit =>
      have hoctets := octets?_of_endsDigits (colon_endsDigits rest)
      have hgroup := group?_of_endsDigits (colon_endsDigits rest)
      simp [IpAddress.groupRun, after?, hoctets, hgroup]

theorem dot_notMem_toDigits (n : Nat) : '.' ∉ Nat.toDigits 16 n := by
  obtain ⟨ds, hds, -, -⟩ := exists_areDigits_toDigits (show 1 < 16 by omega) (by omega) n
  intro hmem
  obtain ⟨d, hdigit⟩ := List.exists_forall₂_iff.mp ⟨ds, hds⟩ '.' hmem
  cases hdigit

theorem dot_notMem_laterGroups (groups : List UInt16) : '.' ∉ laterGroups groups := by
  intro hmem
  obtain ⟨group, -, hmem⟩ := List.mem_flatMap.mp hmem
  rcases List.mem_cons.mp hmem with hcolon | hmem
  · cases hcolon
  · exact dot_notMem_toDigits _ hmem

theorem laterGroups_endsDigits (hstop : EndsDigits 16 stop) (groups : List UInt16) :
    EndsDigits 16 (laterGroups groups ++ stop) := by
  cases groups with
  | nil => exact hstop
  | cons group others => exact colon_endsDigits _

/-- One group at the head of a text, and those that follow it. -/
theorem groupRun_group {first : Bool} {text : List Char} {limit : Nat} (group : UInt16)
    (hstart : (if first then some text else after? ':' text) =
      some (Nat.toDigits 16 group.toNat ++ (laterGroups groups ++ stop)))
    (hstop : EndsGroups stop)
    (hlater : groupRun false limit (laterGroups groups ++ stop) = ⟨groups, false, stop⟩) :
    groupRun first (limit + 1) text = ⟨group :: groups, false, stop⟩ := by
  have hdot : '.' ∉ Nat.toDigits 16 group.toNat ++ (laterGroups groups ++ stop) := by
    simp only [List.mem_append, not_or]
    exact ⟨dot_notMem_toDigits _, dot_notMem_laterGroups groups, hstop.noDot⟩
  have hgroup := group?_toDigits group (laterGroups_endsDigits hstop.endsDigits groups)
  rw [groupRun, hstart]
  simp [octets?_of_dot_notMem hdot, hgroup, hlater]

/-- Groups with colons in front of them are read back. -/
theorem groupRun_laterGroups (hstop : EndsGroups stop) {limit : Nat}
    (hlimit : groups.length ≤ limit) :
    groupRun false limit (laterGroups groups ++ stop) = ⟨groups, false, stop⟩ := by
  induction groups generalizing limit with
  | nil => exact hstop.groupRun limit
  | cons group others ih =>
    obtain ⟨limit, rfl⟩ := Nat.exists_eq_add_one_of_ne_zero
      (show limit ≠ 0 by rw [List.length_cons] at hlimit; omega)
    refine groupRun_group group ?_ hstop (ih (Nat.le_of_succ_le_succ hlimit))
    simp [laterGroups, after?]

theorem toList_groupsText_cons (group : UInt16) (others : List UInt16) :
    (groupsText (group :: others)).toList =
      Nat.toDigits 16 group.toNat ++ laterGroups others := by
  induction others generalizing group with
  | nil => simp [groupsText, groupText, laterGroups]
  | cons next others ih =>
    have hnext := ih next
    simp only [groupsText, List.map_cons, String.intercalate_cons_cons] at hnext ⊢
    simp only [String.toList_append, hnext]
    simp [groupText, laterGroups]

/-- Groups are read back up to where they stop. -/
theorem groupRun_groupsText (hstop : EndsGroups stop) {limit : Nat}
    (hlimit : groups.length ≤ limit) :
    groupRun true limit ((groupsText groups).toList ++ stop) = ⟨groups, false, stop⟩ := by
  cases groups with
  | nil =>
    cases limit with
    | zero => rfl
    | succ limit =>
      have hoctets := octets?_of_dot_notMem hstop.noDot
      have hgroup := group?_of_endsDigits hstop.endsDigits
      simp [groupsText, groupRun, hoctets, hgroup]
  | cons group others =>
    obtain ⟨limit, rfl⟩ := Nat.exists_eq_add_one_of_ne_zero
      (show limit ≠ 0 by rw [List.length_cons] at hlimit; omega)
    have hlater := groupRun_laterGroups hstop (Nat.le_of_succ_le_succ hlimit)
    refine groupRun_group group ?_ hstop hlater
    rw [toList_groupsText_cons, List.append_assoc]
    rfl

theorem dot_notMem_groupsText (groups : List UInt16) : '.' ∉ (groupsText groups).toList := by
  cases groups with
  | nil => simp [groupsText]
  | cons group others =>
    rw [toList_groupsText_cons, List.mem_append, not_or]
    exact ⟨dot_notMem_toDigits _, dot_notMem_laterGroups others⟩

end

section
variable {groups : List UInt16}

/-- A run that is shortened lies within the groups and has zero groups only. -/
structure IsZeroRun (groups : List UInt16) (run : Nat × Nat) : Prop where
  bounded : run.1 + run.2 ≤ groups.length
  zeros : (groups.drop run.1).take run.2 = List.replicate run.2 0

theorem isZeroRun_takeWhile {start : Nat} (hstart : start ≤ groups.length) :
    IsZeroRun groups (start, ((groups.drop start).takeWhile (· == 0)).length) where
  bounded := by
    have hstarts : (groups.drop start).takeWhile (· == 0) <+: groups.drop start :=
      List.takeWhile_prefix _
    have hlength := hstarts.length_le
    rw [List.length_drop] at hlength
    omega
  zeros := by
    have hstarts : (groups.drop start).takeWhile (· == 0) <+: groups.drop start :=
      List.takeWhile_prefix _
    rw [← List.prefix_iff_eq_take.mp hstarts, List.eq_replicate_iff]
    refine ⟨rfl, fun group hmem => ?_⟩
    have hzero : (group == 0) = true :=
      @List.mem_takeWhile_imp _ (· == 0) (groups.drop start) group hmem
    exact beq_iff_eq.mp hzero

theorem isZeroRun_longestZeroRun (groups : List UInt16) :
    IsZeroRun groups (longestZeroRun groups) := by
  unfold longestZeroRun
  refine List.foldlRecOn _ _ ⟨Nat.zero_le _, rfl⟩ fun best hbest run hmem => ?_
  obtain ⟨start, hstart, rfl⟩ := List.mem_map.mp hmem
  split
  · exact isZeroRun_takeWhile (Nat.le_of_lt (List.mem_range.mp hstart))
  · exact hbest

/-- The groups with the shortened run written out. -/
theorem IsZeroRun.groups_eq {run : Nat × Nat} (hrun : IsZeroRun groups run) :
    groups.take run.1 ++ List.replicate run.2 0 ++ groups.drop (run.1 + run.2) = groups := by
  rw [← hrun.zeros, List.append_assoc, ← List.drop_drop, List.take_append_drop,
    List.take_append_drop]

end

section
variable {list : List UInt16} {groups : Vector UInt16 8} {text : List Char}

/-- Eight groups in a list are those of an address. -/
theorem groups_eq (hlist : groups.toList = list) (h : list.toArray.size = 8) :
    (⟨list.toArray, h⟩ : Vector UInt16 8) = groups :=
  Vector.toList_inj.mp hlist.symm

theorem length_of_toList (hlist : groups.toList = list) : list.length = 8 := by
  rw [← hlist, Vector.length_toList]

/-- Groups that are all written are read back. -/
theorem groups?_of_all (hlist : groups.toList = list) {rest : List Char}
    (hrun : groupRun true 8 text = ⟨list, false, rest⟩) : groups? text = some (groups, rest) := by
  unfold groups?
  simp only [hrun, length_of_toList hlist, dite_true, groups_eq hlist]
  rfl

/-- Groups around a gap of at least one zero group are read back. -/
theorem groups?_of_gap {front back : List UInt16} {gap : Nat} {after rest : List Char}
    {endsInOctets : Bool} (hlist : groups.toList = front ++ List.replicate (gap + 1) 0 ++ back)
    (hfront : groupRun true 8 text = ⟨front, false, ':' :: ':' :: after⟩)
    (hback : groupRun true (7 - front.length) after = ⟨back, endsInOctets, rest⟩) :
    groups? text = some (groups, rest) := by
  have hlength := length_of_toList hlist
  have hsum : front.length + (gap + 1) + back.length = 8 := by
    simpa [Nat.add_assoc] using hlength
  have hfew : front.length ≠ 8 := by omega
  have hgap : 8 - front.length - back.length = gap + 1 := by omega
  have hcolon (more : List Char) : after? ':' (':' :: more) = some more := rfl
  unfold groups?
  simp only [hfront, hfew, hcolon, hback, hgap, hlength, groups_eq hlist, dite_false, dite_true,
    Bool.false_eq_true, if_false, Option.bind_eq_bind, Option.bind_some]
  rfl

theorem parse?_groupsText (hlist : groups.toList = list) :
    parse? (groupsText list) = some (.v6 groups) := by
  have hrun := groupRun_groupsText endsGroups_nil (length_of_toList hlist).le
  rw [List.append_nil] at hrun
  rw [parse?, octets?_of_dot_notMem (dot_notMem_groupsText list), groups?_of_all hlist hrun]

/-- Groups with a shortened run are read back. -/
theorem parse?_of_isZeroRun {run : Nat × Nat} (hlist : groups.toList = list)
    (hrun : IsZeroRun list run) (hlong : 1 < run.2) :
    parse? (groupsText (list.take run.1) ++ "::" ++ groupsText (list.drop (run.1 + run.2))) =
      some (.v6 groups) := by
  obtain ⟨start, length⟩ := run
  have hlength := length_of_toList hlist
  have hbounded : start + length ≤ list.length := hrun.bounded
  have hfew : (list.take start).length = start := List.length_take_of_le (by omega)
  have hdot := dot_notMem_groupsText (list.drop (start + length))
  have htext : (groupsText (list.take start) ++ "::" ++
      groupsText (list.drop (start + length))).toList =
        (groupsText (list.take start)).toList ++
          ':' :: ':' :: (groupsText (list.drop (start + length))).toList := by
    simp
  have hnoDot : '.' ∉ (groupsText (list.take start)).toList ++
      ':' :: ':' :: (groupsText (list.drop (start + length))).toList := by
    simpa using ⟨dot_notMem_groupsText (list.take start), hdot⟩
  have hfront : groupRun true 8 ((groupsText (list.take start)).toList ++
      ':' :: ':' :: (groupsText (list.drop (start + length))).toList) =
        ⟨list.take start, false, ':' :: ':' :: (groupsText (list.drop (start + length))).toList⟩ :=
    groupRun_groupsText (endsGroups_colons hdot) (by omega)
  have hback : groupRun true (7 - (list.take start).length)
      ((groupsText (list.drop (start + length))).toList ++ []) =
        ⟨list.drop (start + length), false, []⟩ :=
    groupRun_groupsText endsGroups_nil (by rw [List.length_drop]; omega)
  rw [List.append_nil] at hback
  obtain ⟨gap, rfl⟩ : ∃ gap, length = gap + 1 := ⟨length - 1, by omega⟩
  have hgroups := groups?_of_gap (hlist.trans hrun.groups_eq.symm) hfront hback
  rw [parse?, htext, octets?_of_dot_notMem hnoDot, hgroups]

/-- A group is put together from its octets. -/
theorem groupOfOctets_split (group : UInt16) :
    groupOfOctets (UInt8.ofNat (group.toNat / 256)) (UInt8.ofNat group.toNat) = group := by
  have hgroup := group.toNat_lt
  apply UInt16.toNat_inj.mp
  simp only [groupOfOctets, UInt16.toNat_add, UInt16.toNat_mul, UInt8.toNat_toUInt16,
    UInt8.toNat_ofNat', UInt16.reduceToNat]
  omega

/-- An address that embeds one of version 4 is read back. -/
theorem parse?_embedded {high low : UInt16}
    (hlist : groups.toList = [0, 0, 0, 0, 0, 0xFFFF, high, low]) :
    parse? ("::ffff:" ++ octetsText [UInt8.ofNat (high.toNat / 256), UInt8.ofNat high.toNat,
      UInt8.ofNat (low.toNat / 256), UInt8.ofNat low.toNat]) = some (.v6 groups) := by
  have hsplit : groupsOfOctets #v[UInt8.ofNat (high.toNat / 256), UInt8.ofNat high.toNat,
      UInt8.ofNat (low.toNat / 256), UInt8.ofNat low.toNat] = [high, low] := by
    change [groupOfOctets _ _, groupOfOctets _ _] = _
    rw [groupOfOctets_split, groupOfOctets_split]
  obtain ⟨octets, hoctets, hlast⟩ : ∃ octets, octets? (octetsText [UInt8.ofNat (high.toNat / 256),
      UInt8.ofNat high.toNat, UInt8.ofNat (low.toNat / 256), UInt8.ofNat low.toNat]).toList =
        some (octets, []) ∧ groupsOfOctets octets = [high, low] :=
    ⟨_, octets?_octetsText _ _ _ _, hsplit⟩
  generalize (octetsText [UInt8.ofNat (high.toNat / 256), UInt8.ofNat high.toNat,
    UInt8.ofNat (low.toNat / 256), UInt8.ofNat low.toNat]) = octetsPart at hoctets ⊢
  have hcolon (rest : List Char) : octets? (':' :: rest) = none :=
    octets?_of_endsDigits (colon_endsDigits rest)
  have hgroup (rest : List Char) : group? (':' :: rest) = none :=
    group?_of_endsDigits (colon_endsDigits rest)
  have hletters : octets? ('f' :: 'f' :: 'f' :: 'f' :: ':' :: octetsPart.toList) = none :=
    octets?_of_endsDigits (endsDigits_cons (by decide))
  have hffff : group? ('f' :: 'f' :: 'f' :: 'f' :: ':' :: octetsPart.toList) =
      some (0xFFFF, ':' :: octetsPart.toList) :=
    group?_toDigits 0xFFFF (colon_endsDigits octetsPart.toList)
  have htext : ("::ffff:" ++ octetsPart).toList =
      ':' :: ':' :: 'f' :: 'f' :: 'f' :: 'f' :: ':' :: octetsPart.toList := by
    simp
  have hfront : groupRun true 8 (':' :: ':' :: 'f' :: 'f' :: 'f' :: 'f' :: ':' ::
      octetsPart.toList) =
        ⟨[], false, ':' :: ':' :: 'f' :: 'f' :: 'f' :: 'f' :: ':' :: octetsPart.toList⟩ := by
    simp [groupRun, hcolon, hgroup]
  have hback : groupRun true 7 ('f' :: 'f' :: 'f' :: 'f' :: ':' :: octetsPart.toList) =
      ⟨[0xFFFF, high, low], true, []⟩ := by
    simp [groupRun, after?, hletters, hffff, hoctets, hlast]
  have hzeros : groups.toList = [] ++ List.replicate (4 + 1) 0 ++ [0xFFFF, high, low] := hlist
  have hgroups := groups?_of_gap hzeros hfront hback
  rw [parse?, htext, hcolon, hgroups]

end

/-- A text with a bracket in front is no address. -/
theorem parse?_bracket {text : String} {rest : List Char} (htext : text.toList = '[' :: rest) :
    parse? text = none := by
  have hbracket {base : Nat} : EndsDigits base ('[' :: rest) := by
    have hvalue : hexValue? '[' = none := by decide
    exact endsDigits_cons (by rw [digit?, hvalue]; rfl)
  have hoctets : octets? ('[' :: rest) = none := octets?_of_endsDigits hbracket
  have hgroups : groups? ('[' :: rest) = none := by
    simp [groups?, groupRun, hoctets, group?_of_endsDigits hbracket, after?]
  rw [parse?, htext, hoctets, hgroups]

/-- **Round trip.** An address is read back from its canonical text. -/
theorem parse?_toText (address : IpAddress) : parse? address.toText = some address := by
  cases address with
  | v4 octets =>
    obtain ⟨a, b, c, d, hoctets⟩ : ∃ a b c d, octets.toList = [a, b, c, d] := by
      have hlength := octets.length_toList
      match octets.toList, hlength with
      | [a, b, c, d], _ => exact ⟨a, b, c, d, rfl⟩
    have hsame : #v[a, b, c, d] = octets := Vector.toList_inj.mp hoctets.symm
    rw [toText, hoctets, parse?, octets?_octetsText, hsame]
  | v6 groups =>
    unfold toText
    dsimp only
    split
    · rename_i high low hlist
      exact parse?_embedded hlist
    · split
      · rename_i hlong
        exact parse?_of_isZeroRun rfl (isZeroRun_longestZeroRun _) hlong
      · exact parse?_groupsText rfl

end PeerTrust.IpAddress
