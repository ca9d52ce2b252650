import Mathlib.Data.List.TakeWhile
import PeerTrust.Net.ServerName

/-!
# Hosts of endpoints

An endpoint is written as a host, in square brackets or not, and with a port behind a colon or not.
The host is found again wherever a port is written. Without a port, the last colon of an address of
version 6 is taken for the one in front of the port, and the brackets around the address do not
prevent it: so the host is found again only if there is no colon in it.
-/

namespace PeerTrust

/-- A host in the way in which it is written where a connection is opened. -/
structure Endpoint where
  host : String
  isBracketed : Bool
  port : Option String

namespace Endpoint

/-- The host without its port. -/
def hostText (endpoint : Endpoint) : List Char :=
  if endpoint.isBracketed then '[' :: endpoint.host.toList ++ [']'] else endpoint.host.toList

/-- The whole text. -/
def text (endpoint : Endpoint) : String :=
  String.ofList (match endpoint.port with
    | some port => endpoint.hostText ++ ':' :: port.toList
    | none => endpoint.hostText)

/-- Neither brackets in the host nor a colon in the port. -/
structure IsPlain (endpoint : Endpoint) : Prop where
  opening : '[' ∉ endpoint.host.toList
  closing : ']' ∉ endpoint.host.toList
  port : ∀ port ∈ endpoint.port, ':' ∉ port.toList

end Endpoint

section
variable {text before after : List Char}

theorem beforeLastColon_of_notMem (hcolon : ':' ∉ text) : beforeLastColon text = text := by
  have hnone : text.reverse.dropWhile (· ≠ ':') = [] := by
    rw [List.dropWhile_eq_nil_iff]
    intro c hc
    have hne : c ≠ ':' := fun h => hcolon (h ▸ List.mem_reverse.mp hc)
    simpa using hne
  rw [beforeLastColon, hnone]

/-- A colon behind which there is none is the last one. -/
theorem beforeLastColon_append (hcolon : ':' ∉ after) :
    beforeLastColon (before ++ ':' :: after) = before := by
  have hreverse : (before ++ ':' :: after).reverse = after.reverse ++ ':' :: before.reverse := by
    simp
  have hafter : ∀ c ∈ after.reverse, decide (c ≠ ':') = true := by
    intro c hc
    have hne : c ≠ ':' := fun h => hcolon (h ▸ List.mem_reverse.mp hc)
    simpa using hne
  rw [beforeLastColon, hreverse, List.dropWhile_append_of_pos hafter]
  simp

theorem exists_last_colon (hcolon : ':' ∈ text) :
    ∃ before after, text = before ++ ':' :: after ∧ ':' ∉ after := by
  obtain ⟨after, before, hreverse, hafter⟩ :=
    List.eq_append_cons_of_mem (List.mem_reverse.mpr hcolon)
  refine ⟨before.reverse, after.reverse, ?_, by simpa using hafter⟩
  rw [← List.reverse_reverse text, hreverse]
  simp

theorem withoutBrackets_of_notMem_opening (hopening : '[' ∉ text) :
    withoutBrackets text = text := by
  unfold withoutBrackets
  split
  · exact absurd List.mem_cons_self hopening
  · rfl

theorem withoutBrackets_of_notMem_closing (hclosing : ']' ∉ text) :
    withoutBrackets text = text := by
  unfold withoutBrackets
  split
  · rename_i inner
    have hlast : ¬ inner.getLast? = some ']' := fun h =>
      hclosing (List.mem_cons_of_mem _ (List.mem_of_getLast? h))
    rw [if_neg hlast]
  · rfl

theorem withoutBrackets_brackets (text : List Char) :
    withoutBrackets ('[' :: text ++ [']']) = text := by
  simp [withoutBrackets]

end

namespace Endpoint

variable {endpoint : Endpoint}

theorem toList_text_of_port {port : String} (hport : endpoint.port = some port) :
    endpoint.text.toList = endpoint.hostText ++ ':' :: port.toList := by
  rw [text, hport, String.toList_ofList]

theorem toList_text_of_portless (hport : endpoint.port = none) :
    endpoint.text.toList = endpoint.hostText := by
  rw [text, hport, String.toList_ofList]

/-- The brackets around a host are taken off again. -/
theorem IsPlain.withoutBrackets_hostText (hplain : endpoint.IsPlain) :
    withoutBrackets endpoint.hostText = endpoint.host.toList := by
  unfold hostText
  split
  · exact withoutBrackets_brackets _
  · exact withoutBrackets_of_notMem_opening hplain.opening

/-- A port is cut off at its colon. -/
theorem IsPlain.hostOf_of_port (hplain : endpoint.IsPlain) {port : String}
    (hport : endpoint.port = some port) : hostOf endpoint.text = endpoint.host := by
  have hcolon : ':' ∉ port.toList := hplain.port port hport
  rw [hostOf, toList_text_of_port hport, beforeLastColon_append hcolon,
    hplain.withoutBrackets_hostText, String.ofList_toList]

/-- Without any colon, nothing is cut off. -/
theorem IsPlain.hostOf_of_notMem (hplain : endpoint.IsPlain) (hport : endpoint.port = none)
    (hcolon : ':' ∉ endpoint.host.toList) : hostOf endpoint.text = endpoint.host := by
  have hnone : ':' ∉ endpoint.hostText := by
    unfold hostText
    split
    · simpa using hcolon
    · exact hcolon
  rw [hostOf, toList_text_of_portless hport, beforeLastColon_of_notMem hnone,
    hplain.withoutBrackets_hostText, String.ofList_toList]

/-- Without a port, the host itself is cut off at its last colon, and what is left of it keeps its
opening bracket. -/
theorem IsPlain.hostOf_cut {before after : List Char} (hplain : endpoint.IsPlain)
    (hport : endpoint.port = none) (hhost : endpoint.host.toList = before ++ ':' :: after)
    (hcolon : ':' ∉ after) :
    (hostOf endpoint.text).toList = if endpoint.isBracketed then '[' :: before else before := by
  have hopening : '[' ∉ before := fun h => hplain.opening (hhost ▸ List.mem_append_left _ h)
  have hclosing : ']' ∉ before := fun h => hplain.closing (hhost ▸ List.mem_append_left _ h)
  rw [hostOf, toList_text_of_portless hport, String.toList_ofList, hostText, hhost]
  split
  · have hcut : '[' :: (before ++ ':' :: after) ++ [']'] =
        ('[' :: before) ++ ':' :: (after ++ [']']) := by simp
    have hlast : ':' ∉ after ++ [']'] := by simpa using hcolon
    rw [hcut, beforeLastColon_append hlast]
    exact withoutBrackets_of_notMem_closing (by simpa using hclosing)
  · rw [beforeLastColon_append hcolon]
    exact withoutBrackets_of_notMem_opening hopening

/-- **Hosts are found again** in whatever way they are written, except for hosts with a colon that
are written without a port, be it in brackets or not. -/
theorem hostOf_text_iff (hplain : endpoint.IsPlain) :
    hostOf endpoint.text = endpoint.host ↔
      (endpoint.port = none → ':' ∉ endpoint.host.toList) := by
  cases hport : endpoint.port with
  | some port => exact iff_of_true (hplain.hostOf_of_port hport) nofun
  | none =>
    by_cases hcolon : ':' ∈ endpoint.host.toList
    · refine iff_of_false (fun hfound => ?_) fun h => h rfl hcolon
      obtain ⟨before, after, hhost, hafter⟩ := exists_last_colon hcolon
      have hcut := hplain.hostOf_cut hport hhost hafter
      rw [hfound] at hcut
      split at hcut
      · exact hplain.opening (hcut ▸ List.mem_cons_self)
      · have hlength := congrArg List.length (hhost.symm.trans hcut)
        simp at hlength
    · exact iff_of_true (hplain.hostOf_of_notMem hport hcolon) fun _ => hcolon

/-- A link-local address with a zone, in brackets and with a port. -/
def linkLocal : Endpoint := ⟨"fe80::1%eth0", true, some "8443"⟩

theorem hostOf_linkLocal : linkLocal.text = "[fe80::1%eth0]:8443" ∧
    hostOf linkLocal.text = "fe80::1%eth0" := by
  have hplain : linkLocal.IsPlain := by
    refine ⟨by decide, by decide, fun port hport => ?_⟩
    cases hport
    decide
  exact ⟨by decide, (hostOf_text_iff hplain).mpr nofun⟩

/-- The loopback address in brackets, without a port. -/
def loopback : Endpoint := ⟨"::1", true, none⟩

/-- It is cut off inside of its brackets. -/
theorem hostOf_loopback : loopback.IsPlain ∧ loopback.text = "[::1]" ∧
    hostOf loopback.text = "[:" ∧ hostOf loopback.text ≠ loopback.host := by
  have hplain : loopback.IsPlain := ⟨by decide, by decide, nofun⟩
  have hcut : hostOf loopback.text = "[:" := by decide
  have hother : hostOf loopback.text ≠ loopback.host := by
    rw [hcut]
    decide
  exact ⟨hplain, by decide, hcut, hother⟩

end Endpoint

end PeerTrust
