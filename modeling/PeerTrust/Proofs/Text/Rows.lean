import PeerTrust.Proofs.Text.Pem

/-!
# Certificates that are written and read

The writer cuts the characters of a certificate into rows, all of which are full but the last one.
The reader puts the rows together again, so what is written is read, and so it is behind any text
that can be read itself and ends its last line. -/

namespace PeerTrust.Pem

/-- Rows of at most `lineWidth` characters, none of which is empty, and all full but the last. -/
structure AreRows (rows : List Bytes) : Prop where
  nonempty : ∀ row ∈ rows, row ≠ []
  bounded : ∀ row ∈ rows, row.length ≤ lineWidth
  full : ∀ row ∈ rows.dropLast, row.length = lineWidth

section
variable {row text : Bytes} {rows : List Bytes}

theorem areRows_nil : AreRows [] where
  nonempty := List.forall_mem_nil _
  bounded := List.forall_mem_nil _
  full := List.forall_mem_nil _

/-- A row in front of others has to be full. -/
theorem AreRows.cons (hrows : AreRows rows) (hnonempty : row ≠ [])
    (hbounded : row.length ≤ lineWidth) (hfull : rows ≠ [] → row.length = lineWidth) :
    AreRows (row :: rows) where
  nonempty := List.forall_mem_cons.mpr ⟨hnonempty, hrows.nonempty⟩
  bounded := List.forall_mem_cons.mpr ⟨hbounded, hrows.bounded⟩
  full := by
    by_cases hlast : rows = []
    · subst hlast
      exact List.forall_mem_nil _
    · rw [List.dropLast_cons_of_ne_nil hlast]
      exact List.forall_mem_cons.mpr ⟨hfull hlast, hrows.full⟩

/-- The lines of a wrapped text are rows that make up the text. -/
theorem exists_rows (hplain : IsPlain text) : ∃ rows, AreRows rows ∧ rows.flatten = text ∧
    ∀ more, lines (wrap text ++ more) = rows.map (· ++ [0x0A]) ++ lines more := by
  induction text using wrap.induct with
  | case1 => exact ⟨[], areRows_nil, rfl, fun more => by rw [wrap]; rfl⟩
  | case2 byte rest ih =>
    have hrest : IsPlain ((byte :: rest).drop lineWidth) := fun other hmem =>
      hplain other (List.mem_of_mem_drop hmem)
    have hline : IsPlain ((byte :: rest).take lineWidth) := fun other hmem =>
      hplain other (List.mem_of_mem_take hmem)
    obtain ⟨rows, hrows, hflatten, hlines⟩ := ih hrest
    refine ⟨(byte :: rest).take lineWidth :: rows, hrows.cons ?_ ?_ ?_, ?_, fun more => ?_⟩
    · exact List.cons_ne_nil _ _
    · exact List.length_take_le ..
    · -- Where another row follows, the text is longer than one row.
      intro hmore
      obtain ⟨next, others, rfl⟩ := List.exists_cons_of_ne_nil hmore
      have hnext := List.length_pos_of_ne_nil (hrows.nonempty next List.mem_cons_self)
      have hlength := congrArg List.length hflatten
      rw [List.flatten_cons, List.length_append, List.length_drop] at hlength
      rw [List.length_take]
      omega
    · rw [List.flatten_cons, hflatten, List.take_append_drop]
    · rw [wrap, List.append_assoc, List.append_assoc, List.singleton_append,
        lines_line hline.notLineEnd, hlines]
      rfl

/-- The lines of a written certificate are rows between two marks. -/
theorem exists_rows_encode (der : Bytes) : ∃ rows, AreRows rows ∧
    rows.flatten = Base64.encode der ∧ lines (encode der) = (beginMark ++ beginLine) ::
      rows.map (· ++ [0x0A]) ++ [endMark certificateLabel ++ [0x0A]] := by
  obtain ⟨rows, hrows, hflatten, hlines⟩ := exists_rows (isPlain_encode der)
  refine ⟨rows, hrows, hflatten, ?_⟩
  have hencode := @lines_encode der []
  rw [List.append_nil] at hencode
  rw [hencode, bodyThen, hlines, lines_endLine]
  rfl

/-- What is written is read. -/
theorem certificates_flatMap_encode (ders : List Bytes) :
    certificates (ders.flatMap encode) = .ok ders := by
  have hempty : certificates [] = .ok [] := rfl
  have happend := certificates_append isTerminated_nil hempty ders
  rwa [List.nil_append, List.nil_append] at happend

end

/-- **Writing and reading.** Certificates that are written behind a text are read behind those of
the text, if this ends its last line, and behind no text they are read by themselves. Between its
marks a written certificate has the characters of its Base64 form in rows, all full but the last. -/
theorem written_certificates_read {text : Bytes} {contents : List Bytes}
    (hterminated : IsTerminated text) (hcontents : certificates text = .ok contents)
    (ders : List Bytes) :
    certificates (text ++ ders.flatMap encode) = .ok (contents ++ ders) ∧
      certificates (ders.flatMap encode) = .ok ders ∧
      ∀ der, ∃ rows, AreRows rows ∧ rows.flatten = Base64.encode der ∧
        lines (encode der) = (beginMark ++ beginLine) ::
          rows.map (· ++ [0x0A]) ++ [endMark certificateLabel ++ [0x0A]] :=
  ⟨certificates_append hterminated hcontents ders, certificates_flatMap_encode ders,
    exists_rows_encode⟩

/-- A text with a remark, a section of an unknown kind, and a certificate of another writer. -/
def mixedText : Bytes := Bytes.ofString ("# anchors\r\n" ++
  "-----BEGIN NOTE-----\n-\n-----END NOTE-----\n" ++
  "-----BEGIN CERTIFICATE-----\r\nAA\r\nEC\r\n-----END CERTIFICATE-----\r\n")

/-- A certificate without contents and one with a single byte are read behind that of the text. -/
theorem written_behind_mixedText :
    certificates (mixedText ++ [[], [0xFF]].flatMap encode) = .ok [[0, 1, 2], [], [0xFF]] := by
  have hterminated : IsTerminated mixedText := by decide +kernel
  have hcontents : certificates mixedText = .ok [[0, 1, 2]] := rfl
  exact (written_certificates_read hterminated hcontents [[], [0xFF]]).1

end PeerTrust.Pem
