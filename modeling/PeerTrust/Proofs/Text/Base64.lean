import PeerTrust.Proofs.Failing
import PeerTrust.Text.Base64

/-!
# Base64 is read back as it was written

The writer puts three bytes into four characters. The reader gathers eight characters before it lets
bytes out, so at most two groups are held back at any time; what it has in hand and what is still to
come make up the bytes that were written. Blanks may be put in anywhere. The reader never makes the
same bytes of more characters than the writer does.
-/

namespace PeerTrust.Base64

/-- A character that the writer uses is none of those that lines and blanks are made of. -/
structure IsPlain (byte : UInt8) : Prop where
  notBlank : isBlank byte = false
  notDash : byte ≠ 0x2D

theorem isPlain_padding : IsPlain padding := ⟨by decide, by decide⟩

private theorem symbol_table : ∀ value < 64,
    (isBlank (symbol value) = false ∧ symbol value ≠ 0x2D) ∧
      token (symbol value) = .ok (.value value) := by
  decide

theorem isPlain_symbol {value : Nat} (hvalue : value < 64) : IsPlain (symbol value) :=
  ⟨(symbol_table value hvalue).1.1, (symbol_table value hvalue).1.2⟩

/-- A character of the alphabet is read as the value that it stands for. -/
theorem token_symbol {value : Nat} (hvalue : value < 64) :
    token (symbol value) = .ok (.value value) := (symbol_table value hvalue).2

theorem token_padding : token padding = .ok .pad := rfl

section
variable (a b c : UInt8)

/-- The values of the characters that three bytes are written with. -/
def values : List Nat :=
  [a.toNat / 4, a.toNat % 4 * 16 + b.toNat / 16, b.toNat % 16 * 4 + c.toNat / 64, c.toNat % 64]

theorem values_lt : ∀ value ∈ values a b c, value < 64 := by
  have ha := a.toNat_lt
  have hb := b.toNat_lt
  have hc := c.toNat_lt
  simp only [values, List.forall_mem_cons, List.not_mem_nil, false_implies, implies_true, and_true]
  omega

/-- The tokens that three bytes are read from. -/
def group : List Token := (values a b c).map .value

theorem group_ne_nil : group a b c ≠ [] := List.cons_ne_nil _ _

theorem first_byte :
    UInt8.ofNat (a.toNat / 4 * 4 + (a.toNat % 4 * 16 + b.toNat / 16) / 16) = a := by
  have hb := b.toNat_lt
  have hvalue : a.toNat / 4 * 4 + (a.toNat % 4 * 16 + b.toNat / 16) / 16 = a.toNat := by omega
  rw [hvalue, UInt8.ofNat_toNat]

theorem second_byte : UInt8.ofNat ((a.toNat % 4 * 16 + b.toNat / 16) * 16 +
    (b.toNat % 16 * 4 + c.toNat / 64) / 4) = b := by
  have hb := b.toNat_lt
  have hc := c.toNat_lt
  apply UInt8.toNat_inj.mp
  rw [UInt8.toNat_ofNat']
  omega

theorem third_byte : UInt8.ofNat ((b.toNat % 16 * 4 + c.toNat / 64) * 64 + c.toNat % 64) = c := by
  have hc := c.toNat_lt
  apply UInt8.toNat_inj.mp
  rw [UInt8.toNat_ofNat']
  omega

/-- Four tokens give back the three bytes. -/
theorem triple_values : triple (.value (a.toNat / 4)) (.value (a.toNat % 4 * 16 + b.toNat / 16))
    (.value (b.toNat % 16 * 4 + c.toNat / 64)) (.value (c.toNat % 64)) = [a, b, c] := by
  simp only [triple, Token.bits, first_byte, second_byte, third_byte]

end

/-- The tokens of the last group that bytes are written with, which is padded to four. -/
def lastTokens : Bytes → List Token
  | [] => []
  | [a] => [.value (a.toNat / 4), .value (a.toNat % 4 * 16), .pad, .pad]
  | [a, b] =>
      [.value (a.toNat / 4), .value (a.toNat % 4 * 16 + b.toNat / 16), .value (b.toNat % 16 * 4),
        .pad]
  | _ :: _ :: _ :: rest => lastTokens rest

/-- Tokens that are read from characters one by one. -/
abbrev AreRead (characters : Bytes) (tokens : List Token) : Prop :=
  List.Forall₂ (fun character next => token character = .ok next) characters tokens

theorem areRead_values {numbers : List Nat} (hnumbers : ∀ value ∈ numbers, value < 64) :
    AreRead (numbers.map symbol) (numbers.map .value) := by
  induction numbers with
  | nil => exact .nil
  | cons value rest ih =>
    obtain ⟨hvalue, hrest⟩ := List.forall_mem_cons.mp hnumbers
    exact .cons (token_symbol hvalue) (ih hrest)

theorem areRead_group (a b c : UInt8) : AreRead ((values a b c).map symbol) (group a b c) :=
  areRead_values (values_lt a b c)

theorem encode_cons (a b c : UInt8) (rest : Bytes) :
    encode (a :: b :: c :: rest) = (values a b c).map symbol ++ encode rest := rfl

section
variable {block : List Token} {characters rest : Bytes} {tokens : List Token}

/-- As long as the block is not full, characters go into it. -/
theorem decodeFrom_append (hread : AreRead characters tokens)
    (hroom : block.length + tokens.length ≤ 8) :
    decodeFrom block (characters ++ rest) = decodeFrom (tokens.reverse ++ block) rest := by
  induction hread generalizing block with
  | nil => rfl
  | @cons character next characters tokens hnext hothers ih =>
    have hstep : decodeFrom block (character :: (characters ++ rest)) =
        decodeFrom (next :: block) (characters ++ rest) := by
      rw [decodeFrom, hnext]
      dsimp only [bind, Except.bind]
      split
      · rename_i hfull
        have hlength := congrArg List.length hfull
        simp only [List.length_reverse, List.length_cons] at hlength hroom
        omega
      · rfl
    rw [List.cons_append, hstep, ih (by simp only [List.length_cons] at hroom ⊢; omega),
      List.reverse_cons, List.append_assoc, List.singleton_append]

/-- A full block of two groups lets its bytes out with the next character. -/
theorem decodeFrom_full (a b c d e f : UInt8) (hread : AreRead characters tokens)
    (hne : tokens ≠ []) (hroom : tokens.length ≤ 8) :
    decodeFrom (group a b c ++ group d e f).reverse (characters ++ rest) =
      (decodeFrom tokens.reverse rest).map ([a, b, c, d, e, f] ++ ·) := by
  cases hread with
  | nil => exact absurd rfl hne
  | @cons character next characters tokens hnext hothers =>
    have htail := @decodeFrom_append [next] _ rest _ hothers (by
      simp only [List.length_cons, List.length_nil] at hroom ⊢
      omega)
    rw [List.cons_append, decodeFrom, hnext, List.reverse_reverse]
    change (do return triple _ _ _ _ ++ triple _ _ _ _ ++
      (← decodeFrom [next] (characters ++ rest))) = _
    rw [triple_values, triple_values, htail, List.reverse_cons]
    cases decodeFrom (tokens.reverse ++ [next]) rest <;> rfl

end

section
variable {bytes : Bytes}

theorem areRead_last (hlength : bytes.length < 3) : AreRead (encode bytes) (lastTokens bytes) := by
  match bytes, hlength with
  | [], _ => exact .nil
  | [a], _ =>
    have ha := a.toNat_lt
    exact .cons (token_symbol (by omega)) (.cons (token_symbol (by omega))
      (.cons token_padding (.cons token_padding .nil)))
  | [a, b], _ =>
    have ha := a.toNat_lt
    have hb := b.toNat_lt
    exact .cons (token_symbol (by omega)) (.cons (token_symbol (by omega))
      (.cons (token_symbol (by omega)) (.cons token_padding .nil)))

/-- The last group gives back the bytes that it was written for. -/
theorem lastGroup_lastTokens (hlength : bytes.length < 3) :
    lastGroup (lastTokens bytes) = .ok bytes := by
  match bytes, hlength with
  | [], _ => rfl
  | [a], _ =>
    have hfirst := first_byte a 0
    simp only [UInt8.toNat_zero, Nat.zero_div, Nat.add_zero] at hfirst
    simp only [lastTokens, lastGroup, triple, Token.bits, hfirst, List.take_succ_cons,
      List.take_zero]
  | [a, b], _ =>
    have hsecond := second_byte a b 0
    simp only [UInt8.toNat_zero, Nat.zero_div, Nat.add_zero] at hsecond
    simp only [lastTokens, lastGroup, triple, Token.bits, first_byte, hsecond, List.take_succ_cons,
      List.take_zero]

theorem lastGroup_group (a b c : UInt8) : lastGroup (group a b c) = .ok [a, b, c] := by
  change Except.ok (triple _ _ _ _) = _
  rw [triple_values]

/-- A group before the last one lets its bytes out first. -/
theorem lastBlock_group_append (a b c : UInt8) {last : List Token} (hne : last ≠ []) :
    lastBlock (group a b c ++ last) = (lastGroup last).map ([a, b, c] ++ ·) := by
  cases last with
  | nil => exact absurd rfl hne
  | cons next others =>
    change (do return triple _ _ _ _ ++ (← lastGroup (next :: others))) = _
    rw [triple_values]
    cases lastGroup (next :: others) <;> rfl

theorem lastBlock_group (a b c : UInt8) : lastBlock (group a b c) = .ok [a, b, c] :=
  lastGroup_group a b c

theorem lastBlock_lastTokens (hlength : bytes.length < 3) :
    lastBlock (lastTokens bytes) = .ok bytes := by
  rw [← lastGroup_lastTokens hlength]
  match bytes, hlength with
  | [], _ => rfl
  | [_], _ => rfl
  | [_, _], _ => rfl

theorem length_lastTokens_le (hlength : bytes.length < 3) : (lastTokens bytes).length ≤ 4 := by
  match bytes, hlength with
  | [], _ => exact Nat.zero_le 4
  | [_], _ => exact Nat.le_refl 4
  | [_, _], _ => exact Nat.le_refl 4

/-- What the reader makes of a text, depending on the groups that it holds back. -/
structure ReadsBack (bytes characters : Bytes) : Prop where
  withNone : decodeFrom [] characters = .ok bytes
  withOne : ∀ a b c, decodeFrom (group a b c).reverse characters = .ok ([a, b, c] ++ bytes)
  withTwo : ∀ a b c d e f, decodeFrom (group a b c ++ group d e f).reverse characters =
    .ok ([a, b, c, d, e, f] ++ bytes)

theorem readsBack_nil : ReadsBack [] [] where
  withNone := rfl
  withOne a b c := by
    rw [decodeFrom, List.reverse_reverse, lastBlock_group, List.append_nil]
  withTwo a b c d e f := by
    rw [decodeFrom, List.reverse_reverse, lastBlock_group_append a b c (group_ne_nil d e f),
      lastGroup_group]
    rfl

/-- One or two bytes at the end are read back. -/
theorem readsBack_last (hlength : bytes.length < 3) (hne : lastTokens bytes ≠ []) :
    ReadsBack bytes (encode bytes) where
  withNone := by
    have hroom := length_lastTokens_le hlength
    rw [← List.append_nil (encode bytes), decodeFrom_append (areRead_last hlength)
      (by rw [List.length_nil]; omega), decodeFrom, List.append_nil, List.reverse_reverse,
      lastBlock_lastTokens hlength]
  withOne a b c := by
    have hroom := length_lastTokens_le hlength
    rw [← List.append_nil (encode bytes), decodeFrom_append (areRead_last hlength)
      (by rw [List.length_reverse]; exact Nat.add_le_add (Nat.le_refl 4) hroom), decodeFrom,
      ← List.reverse_append, List.reverse_reverse, lastBlock_group_append a b c hne,
      lastGroup_lastTokens hlength]
    rfl
  withTwo a b c d e f := by
    have hroom := length_lastTokens_le hlength
    rw [← List.append_nil (encode bytes), decodeFrom_full a b c d e f (areRead_last hlength) hne
      (by omega), decodeFrom, List.reverse_reverse, lastBlock_lastTokens hlength]
    rfl

/-- Three bytes in front are read back if the rest is. -/
theorem ReadsBack.cons {rest : Bytes} (hrest : ReadsBack rest (encode rest)) (x y z : UInt8) :
    ReadsBack (x :: y :: z :: rest) (encode (x :: y :: z :: rest)) where
  withNone := by
    rw [encode_cons, decodeFrom_append (areRead_group x y z) (Nat.le_of_ble_eq_true rfl),
      List.append_nil, hrest.withOne]
    rfl
  withOne a b c := by
    rw [encode_cons, decodeFrom_append (areRead_group x y z) (Nat.le_of_ble_eq_true rfl),
      ← List.reverse_append, hrest.withTwo]
    rfl
  withTwo a b c d e f := by
    rw [encode_cons, decodeFrom_full a b c d e f (areRead_group x y z) (group_ne_nil x y z)
      (Nat.le_of_ble_eq_true rfl), hrest.withOne]
    rfl

theorem readsBack_encode (bytes : Bytes) : ReadsBack bytes (encode bytes) := by
  induction bytes using encode.induct with
  | case1 => exact readsBack_nil
  | case2 a => exact readsBack_last (Nat.le_of_ble_eq_true rfl) (List.cons_ne_nil _ _)
  | case3 a b => exact readsBack_last (Nat.le_of_ble_eq_true rfl) (List.cons_ne_nil _ _)
  | case4 a b c rest ih => exact ih.cons a b c

/-- All characters that are written are plain. -/
theorem isPlain_of_mem_encode {character : UInt8} (hmem : character ∈ encode bytes) :
    IsPlain character := by
  induction bytes using encode.induct with
  | case1 => cases hmem
  | case2 a =>
    have ha := a.toNat_lt
    simp only [encode, List.mem_cons, List.not_mem_nil, or_false] at hmem
    rcases hmem with rfl | rfl | rfl | rfl
    · exact isPlain_symbol (by omega)
    · exact isPlain_symbol (by omega)
    · exact isPlain_padding
    · exact isPlain_padding
  | case3 a b =>
    have ha := a.toNat_lt
    have hb := b.toNat_lt
    simp only [encode, List.mem_cons, List.not_mem_nil, or_false] at hmem
    rcases hmem with rfl | rfl | rfl | rfl
    · exact isPlain_symbol (by omega)
    · exact isPlain_symbol (by omega)
    · exact isPlain_symbol (by omega)
    · exact isPlain_padding
  | case4 a b c rest ih =>
    rw [encode_cons, List.mem_append, List.mem_map] at hmem
    rcases hmem with ⟨value, hvalue, rfl⟩ | hmem
    · exact isPlain_symbol (values_lt a b c value hvalue)
    · exact ih hmem

/-- **Round trip.** A text that has the characters of the writer, and blanks anywhere between them,
is read back. -/
theorem decode_of_filter {text : Bytes} (hfilter : text.filter (!isBlank ·) = encode bytes) :
    decode text = .ok bytes := by
  rw [decode, hfilter, (readsBack_encode bytes).withNone]

/-- The writer uses four characters for every three bytes that it begins. -/
theorem length_encode (bytes : Bytes) : (encode bytes).length = 4 * ((bytes.length + 2) / 3) := by
  induction bytes using encode.induct with
  | case1 => rfl
  | case2 a => simp [encode]
  | case3 a b => simp [encode]
  | case4 a b c rest ih =>
    rw [encode_cons, List.length_append, ih]
    simp only [List.length_map, values, List.length_cons, List.length_nil]
    omega

theorem length_of_lastGroup {tokens : List Token} (h : lastGroup tokens = .ok bytes) :
    tokens.length ≤ 4 * ((bytes.length + 2) / 3) := by
  unfold lastGroup at h
  split at h
  all_goals cases h
  all_goals simp [triple]

theorem length_of_lastBlock {tokens : List Token} (h : lastBlock tokens = .ok bytes) :
    tokens.length ≤ 4 * ((bytes.length + 2) / 3) := by
  unfold lastBlock at h
  split at h
  · rename_i a b c d e rest
    split at h
    · cases h
    · obtain ⟨last, hlast, hbytes⟩ := Except.bind_eq_ok.mp h
      have hlength := length_of_lastGroup hlast
      cases hbytes
      simp only [triple, List.length_append, List.length_cons, List.length_nil] at hlength ⊢
      omega
  · exact length_of_lastGroup h

/-- Every four characters that are read give at most three bytes, be they padding or not. -/
theorem length_of_decodeFrom {block : List Token} {characters : Bytes}
    (h : decodeFrom block characters = .ok bytes) :
    block.length + characters.length ≤ 4 * ((bytes.length + 2) / 3) := by
  induction characters generalizing block bytes with
  | nil =>
    rw [decodeFrom] at h
    have hlength := length_of_lastBlock h
    rw [List.length_reverse] at hlength
    exact hlength
  | cons character rest ih =>
    rw [decodeFrom] at h
    obtain ⟨next, -, hnext⟩ := Except.bind_eq_ok.mp h
    split at hnext
    · rename_i hfull
      have hblock := congrArg List.length hfull
      rw [List.length_reverse] at hblock
      split at hnext
      · cases hnext
      · obtain ⟨others, hothers, hbytes⟩ := Except.bind_eq_ok.mp hnext
        have hlength := ih hothers
        cases hbytes
        simp only [triple, List.length_append, List.length_cons, List.length_nil] at hblock hlength ⊢
        omega
    · have hlength := ih hnext
      simp only [List.length_cons] at hlength ⊢
      omega

/-- No text with more characters than the writer needs is read as the same bytes. -/
theorem decode_ne_of_length {text : Bytes}
    (hlong : (encode bytes).length < (text.filter (!isBlank ·)).length) :
    decode text ≠ .ok bytes := by
  intro hdecode
  have hlength := length_of_decodeFrom hdecode
  have hwritten := length_encode bytes
  simp only [List.length_nil] at hlength
  omega

end

end PeerTrust.Base64
