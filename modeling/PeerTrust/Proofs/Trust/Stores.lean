import Mathlib.Data.List.Induction
import Mathlib.Data.List.Nodup
import PeerTrust.Proofs.Failing
import PeerTrust.Trust.Base

/-!
# First occurrences

Stores, pools and the issuers of several validators take up certificates by one rule: what is not
there yet is appended, once. What is appended is determined by the certificates that were known and
the batch that comes in. A store can be used for validation exactly when all its certificates are
anchors.
-/

namespace PeerTrust

section
variable {known batch added : List Certificate} {certificate other : Certificate}

/-- What is new in a batch: the certificates that are not known yet, once each, in the order in
which they first come. -/
structure IsNewIn (known batch new : List Certificate) : Prop where
  nodup : new.Nodup
  mem_iff : ∀ certificate, certificate ∈ new ↔ certificate ∈ batch ∧ certificate ∉ known
  ordered : new.Pairwise fun first second => batch.idxOf first < batch.idxOf second

@[simp] theorem mem_addUnique :
    other ∈ addUnique known certificate ↔ other ∈ known ∨ other = certificate := by
  unfold addUnique
  split
  · exact ⟨Or.inl, fun h => h.elim id fun heq => heq ▸ ‹certificate ∈ known›⟩
  · rw [List.mem_append, List.mem_singleton]

@[simp] theorem mem_extendUnique :
    certificate ∈ extendUnique known added ↔ certificate ∈ known ∨ certificate ∈ added := by
  induction added generalizing known with
  | nil => simp [extendUnique]
  | cons first rest ih =>
    rw [extendUnique, List.foldl_cons, ← extendUnique, ih, mem_addUnique, List.mem_cons, or_assoc]

theorem extendUnique_concat :
    extendUnique known (added ++ [certificate]) =
      addUnique (extendUnique known added) certificate := by
  rw [extendUnique, List.foldl_append, List.foldl_cons, List.foldl_nil, ← extendUnique]

theorem extendUnique_append {more : List Certificate} :
    extendUnique known (added ++ more) = extendUnique (extendUnique known added) more :=
  List.foldl_append

/-- Certificates that are known already make no difference to what is added behind them. -/
theorem extendUnique_extendUnique (known added more : List Certificate) :
    extendUnique known (extendUnique added more) = extendUnique (extendUnique known added) more := by
  induction more using List.reverseRecOn with
  | nil => rfl
  | append_singleton more certificate ih =>
    rw [extendUnique_concat, extendUnique_concat, ← ih]
    by_cases hmem : certificate ∈ extendUnique added more
    · have hagain : certificate ∈ extendUnique known (extendUnique added more) := by simp [hmem]
      rw [addUnique, if_pos hmem, addUnique, if_pos hagain]
    · have hnew : addUnique (extendUnique added more) certificate =
          extendUnique added more ++ [certificate] := if_neg hmem
      rw [hnew, extendUnique_concat]

theorem addUnique_nodup (hknown : known.Nodup) : (addUnique known certificate).Nodup := by
  unfold addUnique
  split
  · exact hknown
  · refine List.nodup_append.mpr ⟨hknown, List.nodup_singleton _, ?_⟩
    rintro first hfirst second hsecond rfl
    rw [List.mem_singleton.mp hsecond] at hfirst
    exact ‹certificate ∉ known› hfirst

theorem extendUnique_nodup (hknown : known.Nodup) : (extendUnique known added).Nodup := by
  induction added generalizing known with
  | nil => exact hknown
  | cons first rest ih => exact ih (addUnique_nodup hknown)

/-- Certificates that are all different and not there yet are appended as they are. -/
theorem extendUnique_of_nodup (hnodup : (known ++ added).Nodup) :
    extendUnique known added = known ++ added := by
  induction added generalizing known with
  | nil => rw [List.append_nil]; rfl
  | cons first rest ih =>
    have hfirst : first ∉ known := fun hmem =>
      (List.nodup_append.mp hnodup).2.2 first hmem first List.mem_cons_self rfl
    rw [List.append_cons] at hnodup ⊢
    rw [extendUnique, List.foldl_cons, ← extendUnique, addUnique, if_neg hfirst, ih hnodup]

/-- A list without repetitions is the store of itself. -/
theorem Store.ofList_of_nodup (hnodup : known.Nodup) : Store.ofList known = ⟨known⟩ := by
  rw [Store.ofList, extendUnique_of_nodup (by rwa [List.nil_append]), List.nil_append]

/-- A store has the certificates that it is made of. -/
@[simp] theorem Store.mem_ofList :
    certificate ∈ (Store.ofList batch).certificates ↔ certificate ∈ batch := by
  rw [Store.ofList, mem_extendUnique, or_iff_right List.not_mem_nil]

/-- The first occurrences among the certificates that are not known are what is new. -/
theorem isNewIn_extendUnique :
    IsNewIn known batch
      (extendUnique [] (batch.filter fun certificate => certificate ∉ known)) where
  nodup := extendUnique_nodup List.nodup_nil
  mem_iff certificate := by simp
  ordered := by
    induction batch using List.reverseRecOn with
    | nil => exact List.Pairwise.nil
    | append_singleton batch last ih =>
      -- An earlier certificate keeps its place when another one comes behind the batch.
      have hearlier : (extendUnique [] (batch.filter fun certificate =>
          certificate ∉ known)).Pairwise fun first second =>
            (batch ++ [last]).idxOf first < (batch ++ [last]).idxOf second := by
        refine ih.imp_of_mem fun {first second} hfirst hsecond hlt => ?_
        rw [List.idxOf_append_of_mem (by simp_all), List.idxOf_append_of_mem (by simp_all)]
        exact hlt
      rw [List.filter_append]
      by_cases hknown : last ∈ known
      · simpa [hknown] using hearlier
      · rw [List.filter_singleton, decide_eq_true hknown, cond_true, extendUnique_concat, addUnique]
        split
        · exact hearlier
        · refine List.pairwise_append.mpr ⟨hearlier, List.pairwise_singleton .., ?_⟩
          intro first hfirst second hsecond
          rw [List.mem_singleton.mp hsecond]
          have hlast : last ∉ batch := by simp_all
          have hmem : first ∈ batch := by simp_all
          rw [List.idxOf_append_of_mem hmem, List.idxOf_append_of_notMem hlast]
          exact Nat.lt_add_right _ (List.idxOf_lt_length_iff.mpr hmem)

/-- Where nothing was known, everything is new. -/
theorem isNewIn_nil : IsNewIn [] batch (extendUnique [] batch) := by
  have h := @isNewIn_extendUnique [] batch
  simpa using h

end

namespace Base

section
variable {engine : Engine} {store : Store}

/-- A validator with fixed anchors trusts the certificates of its store. -/
theorem issuers_of_ofStore {anchored : Base} (h : ofStore engine store = .ok anchored) :
    anchored.issuers = store.certificates := by
  obtain ⟨roots, -, h⟩ := Except.bind_eq_ok.mp h
  cases h
  rfl

/-- All certificates of a store that can be used are anchors. -/
theorem anchor_of_ofStore {anchored : Base} (h : ofStore engine store = .ok anchored)
    {certificate : Certificate} (hmem : certificate ∈ store.certificates) :
    ∃ anchor, engine.anchor certificate = .ok anchor := by
  obtain ⟨roots, hroots, -⟩ := Except.bind_eq_ok.mp h
  obtain ⟨index, hindex, hget⟩ := List.getElem_of_mem hmem
  obtain ⟨hlength, hall⟩ := List.forall₂_iff_get.mp (Except.mapM_eq_ok.mp hroots)
  have hroot := hall index hindex (hlength ▸ hindex)
  rw [List.get_eq_getElem, hget] at hroot
  exact ⟨_, Except.mapError_eq_ok.mp hroot⟩

/-- A store cannot be used because one of its certificates is no anchor. -/
theorem exists_of_ofStore_error {error : TrustError} (h : ofStore engine store = .error error) :
    ∃ certificate ∈ store.certificates, ∃ fault, engine.anchor certificate = .error fault ∧
      error = .configuration (.unusableAnchor fault) := by
  rcases Except.bind_eq_error.mp h with hroots | ⟨roots, -, h⟩
  · obtain ⟨certificate, hmem, hroot⟩ := Except.exists_of_mapM_eq_error hroots
    obtain ⟨fault, hfault, heq⟩ := Except.mapError_eq_error.mp hroot
    exact ⟨certificate, hmem, fault, hfault, heq.symm⟩
  · cases h

/-- A store can be used if all its certificates are anchors. -/
theorem exists_ofStore (hanchors : ∀ certificate ∈ store.certificates,
      ∃ anchor, engine.anchor certificate = .ok anchor) :
    ∃ anchored, ofStore engine store = .ok anchored := by
  cases h : ofStore engine store with
  | ok anchored => exact ⟨anchored, rfl⟩
  | error error =>
    obtain ⟨certificate, hmem, fault, hfault, -⟩ := exists_of_ofStore_error h
    obtain ⟨anchor, hanchor⟩ := hanchors certificate hmem
    rw [hanchor] at hfault
    cases hfault

end

end Base

end PeerTrust
