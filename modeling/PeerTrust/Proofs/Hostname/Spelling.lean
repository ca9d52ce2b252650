import PeerTrust.Asn1.Der
import PeerTrust.Hostname.Verifier
import PeerTrust.Proofs.Hostname.Pattern
import PeerTrust.Proofs.Net.Address
import PeerTrust.Proofs.Net.Literal

/-!
# Spellings of a name

Two spellings of a name differ in the case of letters, or in a dot at the end. For patterns neither
makes a difference. An address is recognized before a pattern is asked for, and by the whole text:
letter case makes no difference to it, but with a dot at the end it is no address any more, and the
patterns decide. So an address with a dot is found in a leaf by the wrong list of names. -/

namespace PeerTrust.Hostname

open Asn1 Letters

/-- A name is an address, bare or in brackets. -/
inductive IsAddress (address : IpAddress) : String → Prop
  | bare {text : String} (hparse : IpAddress.parse? text = some address) : IsAddress address text
  | bracketed {text : String} (hparse : IpAddress.parse? text = some address) :
      IsAddress address ("[" ++ text ++ "]")

/-- The address that a name is, if it is one. -/
def address? (hostname : String) : Option IpAddress := IpAddress.parse? (literal hostname)

/-- What a policy says about a name for a connection and a chain. -/
def Verifier.answer (verifier : Verifier) (peerHost : Option String)
    (certificates : List Certificate) (hostname : String) : Bool :=
  (verifier.verify ⟨hostname, peerHost, certificates⟩).1

section
variable {text : List Char} {first second hostname : String} {address : IpAddress}

theorem withoutBrackets_map_lower (text : List Char) :
    withoutBrackets (text.map lower) = (withoutBrackets text).map lower := by
  cases text with
  | nil => rfl
  | cons c rest =>
    by_cases hc : c = '['
    · subst hc
      have hbracket : lower '[' = '[' := rfl
      have hlast := @getLast?_map_lower_iff ']' rfl rest
      rw [List.map_cons, hbracket, withoutBrackets, withoutBrackets]
      simp only [hlast, ← List.map_dropLast]
      split
      · rfl
      · rw [List.map_cons, hbracket]
    · have hlower : lower c ≠ '[' := mt (lower_eq_iff rfl).mp hc
      rw [List.map_cons]
      unfold withoutBrackets
      split
      · rename_i hsame
        exact absurd (List.cons.inj hsame).1 hlower
      · split
        · rename_i hsame
          exact absurd (List.cons.inj hsame).1 hc
        · rfl

/-- A text with a dot at the end has no bracket there to be taken off. -/
theorem withoutBrackets_concat (text : List Char) :
    withoutBrackets (text ++ ['.']) = text ++ ['.'] := by
  unfold withoutBrackets
  split
  · rename_i inner hsame
    have hlast : ¬ inner.getLast? = some ']' := by
      intro hbracket
      obtain ⟨before, rfl⟩ := List.getLast?_eq_some_iff.mp hbracket
      have hends := congrArg List.getLast? hsame
      rw [List.getLast?_concat, ← List.cons_append, List.getLast?_concat] at hends
      cases hends
    rw [if_neg hlast]
  · rfl

/-- An address has no brackets to be taken off. -/
theorem literal_of_parse? (hparse : IpAddress.parse? hostname = some address) :
    literal hostname = hostname := by
  have hbare : withoutBrackets hostname.toList = hostname.toList := by
    unfold withoutBrackets
    split
    · rename_i inner hbracket
      rw [IpAddress.parse?_bracket hbracket] at hparse
      cases hparse
    · rfl
  rw [literal, hbare, String.ofList_toList]

theorem address?_eq_some_iff : address? hostname = some address ↔ IsAddress address hostname := by
  constructor
  · intro haddress
    unfold address? literal withoutBrackets at haddress
    split at haddress
    · rename_i inner hbracket
      split at haddress
      · rename_i hlast
        obtain ⟨text, rfl⟩ := List.getLast?_eq_some_iff.mp hlast
        rw [List.dropLast_concat] at haddress
        have hname : hostname = "[" ++ String.ofList text ++ "]" := by
          rw [← String.toList_inj, hbracket]
          simp
        rw [hname]
        exact .bracketed haddress
      · rw [String.ofList_toList] at haddress
        exact .bare haddress
    · rw [String.ofList_toList] at haddress
      exact .bare haddress
  · rintro (hparse | hparse)
    · rwa [address?, literal_of_parse? hparse]
    · rename_i text
      have hbare : withoutBrackets ("[" ++ text ++ "]").toList = text.toList := by
        simp [withoutBrackets]
      rwa [address?, literal, hbare, String.ofList_toList]

theorem address?_eq_of_lowerCase (hcase : lowerCase first = lowerCase second) :
    address? first = address? second := by
  have hliteral : lowerCase (literal first) = lowerCase (literal second) := by
    rw [lowerCase_eq_iff] at hcase ⊢
    rw [literal, literal, String.toList_ofList, String.toList_ofList, ← withoutBrackets_map_lower,
      ← withoutBrackets_map_lower, hcase]
  rw [address?, address?, ← IpAddress.parse?_lowerCase, hliteral, IpAddress.parse?_lowerCase]

/-- With a dot at the end no name is an address. -/
theorem address?_append_dot (hostname : String) : address? (hostname ++ ".") = none := by
  have hliteral : literal (hostname ++ ".") = hostname ++ "." := by
    have hbare : withoutBrackets (hostname ++ ".").toList = (hostname ++ ".").toList := by
      rw [String.toList_append]
      exact withoutBrackets_concat hostname.toList
    rw [literal, hbare, String.ofList_toList]
  rw [address?, hliteral]
  by_contra hparse
  obtain ⟨address, haddress⟩ := Option.ne_none_iff_exists'.mp hparse
  refine IpAddress.not_dot_suffix_of_parse? haddress ?_
  rw [String.toList_append]
  exact List.suffix_append ..

theorem dropDot_map_lower (text : List Char) :
    dropDot (text.map lower) = (dropDot text).map lower := by
  have hlast := @getLast?_map_lower_iff '.' rfl text
  rw [dropDot, dropDot, apply_ite (List.map lower), List.map_dropLast]
  simp only [hlast]

theorem plain_eq_of_lowerCase (hcase : lowerCase first = lowerCase second) :
    plain first = plain second := by
  have hplain (name : String) : plain name = dropDot (name.toList.map lower) := by
    rw [dropDot_map_lower, funext lower_eq_toLower, plain]
  rw [hplain, hplain, lowerCase_eq_iff.mp hcase]

/-- So no name that is an address ends in a dot. -/
theorem IsAddress.not_dot_suffix (haddress : IsAddress address hostname) :
    ¬ ['.'] <:+ hostname.toList := by
  rintro ⟨front, hfront⟩
  have hname : hostname = String.ofList front ++ "." := by
    rw [← String.toList_inj, ← hfront]
    simp
  have hnone := address?_append_dot (String.ofList front)
  rw [← hname, address?_eq_some_iff.mpr haddress] at hnone
  cases hnone

theorem plain_append_dot (hdot : ¬ ['.'] <:+ hostname.toList) :
    plain (hostname ++ ".") = plain hostname := by
  rw [plain, plain, String.toList_append]
  exact congrArg (List.map Char.toLower)
    ((dropDot_concat _).trans (dropDot_of_not_suffix hdot).symm)

/-- Patterns look at names without a trailing dot and in lower case only. -/
theorem matchesPattern_eq_of_plain (hplain : plain first = plain second) (pattern : String) :
    matchesPattern first pattern = matchesPattern second pattern := by
  rw [Bool.eq_iff_iff, matchesPattern_iff, matchesPattern_iff, hplain]

end

section
variable {first second hostname : String} {certificates : List Certificate}
  {info : Certificate.Info} {address : IpAddress}

theorem isNamed_of_none (hinfo : certificates.head?.bind Certificate.info? = none)
    (hostname : String) : isNamed hostname certificates = false := by
  rw [isNamed, hinfo]

/-- An address is looked for among the addresses. -/
theorem isNamed_iff_of_address (hinfo : certificates.head?.bind Certificate.info? = some info)
    (haddress : address? hostname = some address) :
    isNamed hostname certificates = true ↔ address ∈ info.addresses := by
  rw [address?] at haddress
  simp only [isNamed, hinfo, haddress, List.contains_iff_mem]

/-- Any other name is looked for among the patterns. -/
theorem isNamed_iff_of_no_address (hinfo : certificates.head?.bind Certificate.info? = some info)
    (haddress : address? hostname = none) : isNamed hostname certificates = true ↔
      ∃ pattern ∈ info.dnsNames, matchesPattern hostname pattern = true := by
  rw [address?] at haddress
  simp only [isNamed, hinfo, haddress, List.any_eq_true]

/-- A name is found wherever another one is that is the same address and the same for patterns. -/
theorem isNamed_congr (haddress : address? first = address? second)
    (hplain : plain first = plain second) (certificates : List Certificate) :
    isNamed first certificates = isNamed second certificates := by
  cases hinfo : certificates.head?.bind Certificate.info? with
  | none => rw [isNamed_of_none hinfo, isNamed_of_none hinfo]
  | some info =>
    rw [Bool.eq_iff_iff]
    cases hsecond : address? second with
    | none =>
      rw [isNamed_iff_of_no_address hinfo (haddress.trans hsecond),
        isNamed_iff_of_no_address hinfo hsecond]
      simp only [matchesPattern_eq_of_plain hplain]
    | some address =>
      rw [isNamed_iff_of_address hinfo (haddress.trans hsecond),
        isNamed_iff_of_address hinfo hsecond]

/-- By default a name is accepted if the leaf names it. -/
theorem Verifier.answer_names (peerHost : Option String) (certificates : List Certificate)
    (hostname : String) :
    Verifier.names.answer peerHost certificates hostname = isNamed hostname certificates := by
  unfold answer verify verify.noted
  split
  · rfl
  · rename_i hnot
    exact (Bool.not_eq_true _ ▸ hnot : _ = false).symm

/-- A dot behind a name that is an address leaves it to the patterns. -/
theorem isNamed_append_dot_iff_of_address
    (hinfo : certificates.head?.bind Certificate.info? = some info)
    (haddress : IsAddress address hostname) : isNamed (hostname ++ ".") certificates = true ↔
      ∃ pattern ∈ info.dnsNames, matchesPattern hostname pattern = true := by
  have hplain := plain_append_dot haddress.not_dot_suffix
  rw [isNamed_iff_of_no_address hinfo (address?_append_dot hostname)]
  simp only [matchesPattern_eq_of_plain hplain]

/-- A dot behind a name makes a difference where the leaf names an address in one way only. -/
theorem isNamed_append_dot_eq_iff (hdot : ¬ ['.'] <:+ hostname.toList)
    (certificates : List Certificate) :
    isNamed (hostname ++ ".") certificates = isNamed hostname certificates ↔
      ∀ info address, certificates.head?.bind Certificate.info? = some info →
        IsAddress address hostname →
        (address ∈ info.addresses ↔
          ∃ pattern ∈ info.dnsNames, matchesPattern hostname pattern = true) := by
  constructor
  · intro hsame info address hinfo haddress
    rw [← isNamed_iff_of_address hinfo (address?_eq_some_iff.mpr haddress), ← hsame,
      isNamed_append_dot_iff_of_address hinfo haddress]
  · intro hboth
    cases hname : address? hostname with
    | none =>
      -- With the dot and without it the name is left to the patterns, which do not see the dot.
      exact isNamed_congr ((address?_append_dot hostname).trans hname.symm)
        (plain_append_dot hdot) certificates
    | some address =>
      have haddress := address?_eq_some_iff.mp hname
      cases hinfo : certificates.head?.bind Certificate.info? with
      | none => rw [isNamed_of_none hinfo, isNamed_of_none hinfo]
      | some info =>
        rw [Bool.eq_iff_iff, isNamed_append_dot_iff_of_address hinfo haddress,
          isNamed_iff_of_address hinfo hname]
        exact (hboth info address hinfo haddress).symm

/-- **Spellings.** By default the case of letters makes no difference to the answer. A name that is
an address is accepted exactly if the leaf has it among its addresses; with a dot at the end it is
taken for no address, and accepted exactly if it matches a pattern of the leaf. So the dot makes a
difference exactly where a leaf names an address in one of the two ways but not in the other. -/
theorem names_answer_spelling (hostname : String) (peerHost : Option String)
    (certificates : List Certificate) :
    (∀ other, lowerCase other = lowerCase hostname →
      Verifier.names.answer peerHost certificates other =
        Verifier.names.answer peerHost certificates hostname) ∧
    (∀ info address, certificates.head?.bind Certificate.info? = some info →
      IsAddress address hostname →
      (Verifier.names.answer peerHost certificates hostname = true ↔ address ∈ info.addresses) ∧
      (Verifier.names.answer peerHost certificates (hostname ++ ".") = true ↔
        ∃ pattern ∈ info.dnsNames, matchesPattern hostname pattern = true)) ∧
    (¬ ['.'] <:+ hostname.toList →
      (Verifier.names.answer peerHost certificates (hostname ++ ".") =
        Verifier.names.answer peerHost certificates hostname ↔
      ∀ info address, certificates.head?.bind Certificate.info? = some info →
        IsAddress address hostname →
        (address ∈ info.addresses ↔
          ∃ pattern ∈ info.dnsNames, matchesPattern hostname pattern = true))) := by
  simp only [Verifier.answer_names]
  refine ⟨fun other hcase => ?_, fun info address hinfo haddress => ⟨?_, ?_⟩, fun hdot => ?_⟩
  · exact isNamed_congr (address?_eq_of_lowerCase hcase) (plain_eq_of_lowerCase hcase) certificates
  · exact isNamed_iff_of_address hinfo (address?_eq_some_iff.mpr haddress)
  · exact isNamed_append_dot_iff_of_address hinfo haddress
  · exact isNamed_append_dot_eq_iff hdot certificates

end

/-- A certificate with the given alternative names, and nothing more than it takes to be read. -/
def leafNaming (names : Bytes) : Certificate :=
  let algorithm := Der.encode Der.sequence (Der.encode Der.objectId [0x2B, 0x65, 0x70])
  let time := Der.encode Der.utcTime (Bytes.ofString "250101000000Z")
  let key := Der.encode Der.sequence (algorithm ++ Der.encode Der.bitString [0])
  let extension := Der.encode Der.sequence (Der.encode Der.objectId [0x55, 0x1D, 0x11] ++
    Der.encode Der.octetString (Der.encode Der.sequence names))
  let body := Der.encode Der.integer [1] ++ algorithm ++ Der.encode Der.sequence [] ++
    Der.encode Der.sequence (time ++ time) ++ Der.encode Der.sequence [] ++ key ++
    Der.encode (Der.context 3) (Der.encode Der.sequence extension)
  ⟨Der.encode Der.sequence (Der.encode Der.sequence body ++ algorithm ++
    Der.encode Der.bitString [0])⟩

/-- A leaf with an address of each version, an address as a DNS name, and a pattern. -/
def serverLeaf : Certificate := leafNaming
  (Der.encode 0x87 [10, 0, 0, 7] ++
    Der.encode 0x87 [0x20, 0x01, 0x0D, 0xB8, 0, 0, 0, 0, 0, 0, 0, 0, 0, 0, 0, 5] ++
    Der.encode 0x82 (Bytes.ofString "10.0.0.8") ++ Der.encode 0x82 (Bytes.ofString "*.Mesh.local"))

/-- What the leaf names. -/
def serverInfo : Certificate.Info where
  subject := ""
  commonName := none
  dnsNames := ["10.0.0.8", "*.Mesh.local"]
  addresses := [.v4 #v[10, 0, 0, 7], .v6 #v[0x2001, 0xDB8, 0, 0, 0, 0, 0, 5]]
  keyFamily := "Ed25519"

theorem serverLeaf_info? : [serverLeaf].head?.bind Certificate.info? = some serverInfo := by
  decide +kernel

/-- An address in brackets is found in either case but not with a dot behind it; with a DNS name the
dot makes no difference. -/
theorem names_answer_serverLeaf :
    Verifier.names.answer none [serverLeaf] "[2001:db8::5]" =
      Verifier.names.answer none [serverLeaf] "[2001:DB8::5]" ∧
    Verifier.names.answer none [serverLeaf] "[2001:DB8::5]" = true ∧
    Verifier.names.answer none [serverLeaf] ("[2001:DB8::5]" ++ ".") = false ∧
    Verifier.names.answer none [serverLeaf] ("API.mesh.local" ++ ".") =
      Verifier.names.answer none [serverLeaf] "API.mesh.local" := by
  have haddress : IsAddress (.v6 #v[0x2001, 0xDB8, 0, 0, 0, 0, 0, 5]) "[2001:DB8::5]" :=
    address?_eq_some_iff.mp (by decide +kernel)
  have hnone :
      ¬ ∃ pattern ∈ serverInfo.dnsNames, matchesPattern "[2001:DB8::5]" pattern = true := by
    decide +kernel
  obtain ⟨hcase, hliteral, -⟩ := names_answer_spelling "[2001:DB8::5]" none [serverLeaf]
  obtain ⟨hbare, hdotted⟩ := hliteral serverInfo _ serverLeaf_info? haddress
  obtain ⟨-, -, hdot⟩ := names_answer_spelling "API.mesh.local" none [serverLeaf]
  refine ⟨hcase "[2001:db8::5]" (by decide), hbare.mpr (by decide), ?_, ?_⟩
  · exact Bool.eq_false_iff.mpr (mt hdotted.mp hnone)
  · refine (hdot (by decide)).mpr fun info address _ hname => ?_
    have hno : address? "API.mesh.local" = none := by decide +kernel
    rw [address?_eq_some_iff.mpr hname] at hno
    cases hno

/-- An address that the leaf has as a DNS name is accepted with a dot behind it only, and one that
it has as an address without the dot only. -/
theorem address_accepted_by_dns_name :
    IsAddress (.v4 #v[10, 0, 0, 8]) "10.0.0.8" ∧ .v4 #v[10, 0, 0, 8] ∉ serverInfo.addresses ∧
    Verifier.names.answer none [serverLeaf] "10.0.0.8" = false ∧
    Verifier.names.answer none [serverLeaf] "10.0.0.8." = true ∧
    Verifier.names.answer none [serverLeaf] "10.0.0.7" = true ∧
    Verifier.names.answer none [serverLeaf] "10.0.0.7." = false := by
  refine ⟨address?_eq_some_iff.mp ?_, ?_⟩
  · decide +kernel
  · decide +kernel

end PeerTrust.Hostname
