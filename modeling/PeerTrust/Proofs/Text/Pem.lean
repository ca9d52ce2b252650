import PeerTrust.Pem
import PeerTrust.Proofs.Text.Base64

/-!
# What is appended to a PEM text

Sections that are written behind a text are read as they were written, after everything that the
text holds by itself, if the text ends its last line. If it does not, the first section opens in the
middle of a line, where nobody looks for it: this one section is lost, and the others are read. -/

namespace PeerTrust.Pem

/-- A text whose last line is ended, or that is empty. -/
def IsTerminated (text : Bytes) : Prop := ∀ byte ∈ text.getLast?, isLineEnd byte = true

instance (text : Bytes) : Decidable (IsTerminated text) :=
  inferInstanceAs (Decidable (∀ byte ∈ text.getLast?, isLineEnd byte = true))

/-- Results of reading among which there is no fault. -/
def Faultless (results : List (Except Fault Section)) : Prop := ∀ fault, .error fault ∉ results

/-- What one line gives, and the section that is open after it. -/
def readLine (current : Option Open) (line : Bytes) : List (Except Fault Section) × Option Open :=
  if beginMark.isPrefixOf line then
    match openingLabel line with
    | .error fault => ([.error fault], none)
    | .ok label => ([], some ⟨label, (current.map (·.gathered)).getD []⟩)
  else
    match current with
    | none => ([], none)
    | some inside =>
        if (endMark inside.label).isPrefixOf line then (inside.close.toList, none)
        else ([], some ⟨inside.label, inside.gathered ++ line⟩)

/-- The sections among the results of reading. -/
def found (results : List (Except Fault Section)) : List Section := results.filterMap (·.toOption)

section
variable {text more : Bytes}

theorem lines_ne_nil (hne : text ≠ []) : lines text ≠ [] := by
  cases text with
  | nil => exact absurd rfl hne
  | cons byte rest =>
    rw [lines]
    split
    · exact List.cons_ne_nil _ _
    · split <;> exact List.cons_ne_nil _ _

theorem isTerminated_nil : IsTerminated [] := fun _ hlast => by cases hlast

theorem isTerminated_singleton {byte : UInt8} : IsTerminated [byte] ↔ isLineEnd byte = true :=
  ⟨fun h => h byte rfl, fun h _ hlast => by cases hlast; exact h⟩

theorem isTerminated_cons {byte : UInt8} (hne : text ≠ []) :
    IsTerminated (byte :: text) ↔ IsTerminated text := by
  unfold IsTerminated
  rw [List.getLast?_cons, List.getLast?_eq_some_getLast hne, Option.getD_some]

/-- Behind a text that ends its last line, lines are those of what follows. -/
theorem lines_append (hterminated : IsTerminated text) :
    lines (text ++ more) = lines text ++ lines more := by
  induction text with
  | nil => rfl
  | cons byte rest ih =>
    rw [List.cons_append, lines, lines]
    by_cases hrest : rest = []
    · subst hrest
      have hend := isTerminated_singleton.mp hterminated
      rw [if_pos hend, if_pos hend]
      rfl
    · rw [ih ((isTerminated_cons hrest).mp hterminated)]
      obtain ⟨line, others, hlines⟩ := List.exists_cons_of_ne_nil (lines_ne_nil hrest)
      split
      · rfl
      · rw [hlines]
        rfl

/-- Behind a text that does not end its last line, this line goes on with what follows. -/
theorem lines_append_unterminated (hunterminated : ¬ IsTerminated text) :
    ∃ before last, last ≠ [] ∧ lines text = before ++ [last] ∧
      ∀ line others, lines more = line :: others →
        lines (text ++ more) = before ++ (last ++ line) :: others := by
  induction text with
  | nil => exact absurd isTerminated_nil hunterminated
  | cons byte rest ih =>
    rw [List.cons_append, lines, lines]
    by_cases hrest : rest = []
    · subst hrest
      have hbyte : ¬ isLineEnd byte = true := fun h => hunterminated (isTerminated_singleton.mpr h)
      rw [if_neg hbyte, if_neg hbyte, List.nil_append]
      refine ⟨[], [byte], List.cons_ne_nil _ _, rfl, fun line others hmore => ?_⟩
      rw [hmore]
      rfl
    · have hunended : ¬ IsTerminated rest := mt (isTerminated_cons hrest).mpr hunterminated
      obtain ⟨before, last, hne, hlines, happend⟩ := ih hunended
      split
      · refine ⟨[byte] :: before, last, hne, by rw [hlines]; rfl, fun line others hmore => ?_⟩
        rw [happend line others hmore]
        rfl
      · cases before with
        | nil =>
          refine ⟨[], byte :: last, List.cons_ne_nil _ _, by rw [hlines]; rfl,
            fun line others hmore => ?_⟩
          rw [happend line others hmore]
          rfl
        | cons first before =>
          refine ⟨(byte :: first) :: before, last, hne, by rw [hlines]; rfl,
            fun line others hmore => ?_⟩
          rw [happend line others hmore]
          rfl

/-- A line with its end in front of a text. -/
theorem lines_line {line : Bytes} (hline : ∀ byte ∈ line, isLineEnd byte = false) :
    lines (line ++ 0x0A :: more) = (line ++ [0x0A]) :: lines more := by
  induction line with
  | nil => rfl
  | cons byte rest ih =>
    obtain ⟨hbyte, hrest⟩ := List.forall_mem_cons.mp hline
    rw [List.cons_append, lines, if_neg (by rw [hbyte]; exact Bool.false_ne_true), ih hrest]
    rfl

end

theorem Faultless.of_append {results others : List (Except Fault Section)}
    (h : Faultless (results ++ others)) : Faultless results ∧ Faultless others :=
  ⟨fun fault hmem => h fault (List.mem_append_left _ hmem),
    fun fault hmem => h fault (List.mem_append_right _ hmem)⟩

section
variable {current : Option Open} {line : Bytes} {before rest more : List Bytes}

/-- Reading goes line by line. -/
theorem readLines_cons : readLines current (line :: rest) =
    (readLine current line).1 ++ readLines (readLine current line).2 rest := by
  rw [readLines.eq_def]
  unfold readLine
  cases current with
  | none =>
    dsimp only
    split
    · cases openingLabel line <;> rfl
    · rfl
  | some inside =>
    dsimp only
    split
    · cases openingLabel line <;> rfl
    · split <;> rfl

/-- A text that is read without a fault ends outside of a section. -/
theorem eq_none_of_faultless (hfaultless : Faultless (readLines current [])) : current = none := by
  cases current with
  | none => rfl
  | some inside => exact absurd List.mem_cons_self (hfaultless _)

theorem readLines_append (hfaultless : Faultless (readLines current before)) :
    readLines current (before ++ more) = readLines current before ++ readLines none more := by
  induction before generalizing current with
  | nil =>
    rw [eq_none_of_faultless hfaultless]
    rfl
  | cons line rest ih =>
    rw [List.cons_append, readLines_cons, readLines_cons, List.append_assoc]
    rw [readLines_cons] at hfaultless
    rw [ih hfaultless.of_append.2]

/-- No text has `-----BEGIN ` in two places that overlap. -/
theorem not_begin_append {last : Bytes} (hne : last ≠ []) (hlast : ¬ beginMark <+: last)
    (line : Bytes) : ¬ beginMark <+: last ++ (beginMark ++ line) := by
  intro hbegin
  have hpart : last <+: last ++ (beginMark ++ line) := List.prefix_append ..
  rcases Nat.lt_or_ge last.length beginMark.length with hlt | hle
  · have htake : last = beginMark.take last.length :=
      List.prefix_iff_eq_take.mp (List.prefix_of_prefix_length_le hpart hbegin (Nat.le_of_lt hlt))
    have hoverlap : beginMark <+: last ++ beginMark := by
      refine List.prefix_of_prefix_length_le hbegin ?_ ?_
      · rw [← List.append_assoc]
        exact List.prefix_append ..
      · rw [List.length_append]
        exact Nat.le_add_left ..
    have hnone : ∀ count < beginMark.length, 0 < count →
        ¬ beginMark <+: beginMark.take count ++ beginMark := by
      decide
    rw [htake] at hoverlap
    exact hnone last.length hlt (List.length_pos_of_ne_nil hne) hoverlap
  · exact hlast (List.prefix_of_prefix_length_le hbegin hpart hle)

/-- A last line of a text without faults means the same if another line is glued to it. -/
theorem readLine_glued {last : Bytes} (hne : last ≠ [])
    (hfaultless : Faultless (readLines current [last])) :
    readLine current (last ++ (beginMark ++ line)) = readLine current last ∧
      (readLine current last).2 = none := by
  rw [readLines_cons] at hfaultless
  have hnone := eq_none_of_faultless hfaultless.of_append.2
  refine ⟨?_, hnone⟩
  unfold readLine at hfaultless hnone ⊢
  by_cases hbegin : beginMark.isPrefixOf last
  · rw [if_pos hbegin] at hfaultless hnone
    cases hlabel : openingLabel last with
    | error fault =>
      rw [hlabel] at hfaultless
      exact absurd List.mem_cons_self (hfaultless.of_append.1 fault)
    | ok label =>
      rw [hlabel] at hnone
      cases hnone
  · have hglued := not_begin_append hne (mt List.isPrefixOf_iff_prefix.mpr hbegin) line
    rw [if_neg hbegin] at hnone ⊢
    rw [if_neg (mt List.isPrefixOf_iff_prefix.mp hglued)]
    cases current with
    | none => rfl
    | some inside =>
      by_cases hend : (endMark inside.label).isPrefixOf last
      · have hend' := (List.isPrefixOf_iff_prefix.mp hend).trans
          (List.prefix_append last (beginMark ++ line))
        simp only [hend, List.isPrefixOf_iff_prefix.mpr hend', if_true]
      · simp only [hend] at hnone
        cases hnone

/-- A line that would open a section does not, if it is glued to the last line of a text. -/
theorem readLines_glued {last : Bytes} (hne : last ≠ [])
    (hfaultless : Faultless (readLines current (before ++ [last]))) :
    readLines current (before ++ (last ++ (beginMark ++ line)) :: rest) =
      readLines current (before ++ [last]) ++ readLines none rest := by
  induction before generalizing current with
  | nil =>
    obtain ⟨hsame, hnone⟩ := @readLine_glued _ line _ hne hfaultless
    rw [List.nil_append, List.nil_append, readLines_cons, readLines_cons, hsame, hnone, readLines,
      List.append_nil]
  | cons first before ih =>
    rw [List.cons_append, List.cons_append, readLines_cons, readLines_cons, List.append_assoc]
    rw [List.cons_append, readLines_cons] at hfaultless
    rw [ih hfaultless.of_append.2]

end

/-- A text in which no character ends a line or could begin a mark. -/
def IsPlain (text : Bytes) : Prop := ∀ byte ∈ text, Base64.IsPlain byte

theorem IsPlain.notLineEnd {text : Bytes} (hplain : IsPlain text) :
    ∀ byte ∈ text, isLineEnd byte = false := by
  intro byte hmem
  have hblank := (hplain byte hmem).notBlank
  cases hend : isLineEnd byte with
  | false => rfl
  | true =>
    rcases Bool.or_eq_true _ _ ▸ hend with hbyte | hbyte
    · rw [beq_iff_eq.mp hbyte] at hblank
      cases hblank
    · rw [beq_iff_eq.mp hbyte] at hblank
      cases hblank

section
variable {current : Option Open} {text more : Bytes}

/-- A line of plain characters opens and closes nothing. -/
theorem readLine_plain {byte : UInt8} (hbyte : byte ≠ dash) (line : Bytes) :
    readLine current (byte :: line) =
      ([], current.map fun inside => ⟨inside.label, inside.gathered ++ byte :: line⟩) := by
  have hdash (mark : Bytes) : (dash :: mark).isPrefixOf (byte :: line) = false := by
    rw [List.isPrefixOf, beq_false_of_ne hbyte.symm, Bool.false_and]
  unfold readLine
  rw [show beginMark = dash :: beginMark.tail from rfl, hdash, if_neg Bool.false_ne_true]
  cases current with
  | none => rfl
  | some inside =>
    have hend : (endMark inside.label).isPrefixOf (byte :: line) = false := hdash _
    dsimp only
    rw [hend, if_neg Bool.false_ne_true]
    rfl

/-- Lines of plain characters are gathered where a section is open, and skipped elsewhere. -/
theorem readLines_wrap (hplain : IsPlain text) :
    readLines current (lines (wrap text ++ more)) =
      readLines (current.map fun inside => ⟨inside.label, inside.gathered ++ wrap text⟩)
        (lines more) := by
  induction text using wrap.induct generalizing current with
  | case1 =>
    rw [wrap, List.nil_append]
    cases current with
    | none => rfl
    | some inside => rw [Option.map_some, List.append_nil]
  | case2 byte rest ih =>
    have hrest : IsPlain ((byte :: rest).drop lineWidth) := fun other hmem =>
      hplain other (List.mem_of_mem_drop hmem)
    have hline : IsPlain ((byte :: rest).take lineWidth) := fun other hmem =>
      hplain other (List.mem_of_mem_take hmem)
    rw [wrap, List.append_assoc, List.append_assoc, List.singleton_append,
      lines_line hline.notLineEnd, readLines_cons]
    have htake : (byte :: rest).take lineWidth ++ [0x0A] = byte :: (rest.take 63 ++ [0x0A]) := rfl
    rw [htake, readLine_plain (hplain byte List.mem_cons_self).notDash, List.nil_append, ih hrest,
      ← htake]
    cases current with
    | none => rfl
    | some inside => simp only [Option.map_some, List.append_assoc]

/-- What fits on a line is one line. -/
theorem wrap_of_length_le (hne : text ≠ []) (hlength : text.length ≤ lineWidth) :
    wrap text = text ++ [0x0A] := by
  cases text with
  | nil => exact absurd rfl hne
  | cons byte rest =>
    rw [wrap, List.take_of_length_le hlength, List.drop_of_length_le hlength, wrap, List.append_nil]

/-- The characters of a wrapped text are those of the text. -/
theorem filter_wrap (hplain : IsPlain text) :
    (wrap text).filter (!Base64.isBlank ·) = text := by
  induction text using wrap.induct with
  | case1 => rw [wrap, List.filter_nil]
  | case2 byte rest ih =>
    have hrest : IsPlain ((byte :: rest).drop lineWidth) := fun other hmem =>
      hplain other (List.mem_of_mem_drop hmem)
    have hkept : ((byte :: rest).take lineWidth).filter (!Base64.isBlank ·) =
        (byte :: rest).take lineWidth := by
      refine List.filter_eq_self.mpr fun other hmem => ?_
      rw [(hplain other (List.mem_of_mem_take hmem)).notBlank]
      rfl
    rw [wrap, List.filter_append, List.filter_append, hkept, ih hrest]
    change (byte :: rest).take lineWidth ++ [] ++ _ = _
    rw [List.append_nil, List.take_append_drop]

end

section
variable {der more : Bytes}

/-- The line that opens a certificate. -/
def beginLine : Bytes := certificateLabel ++ dashes ++ [0x0A]

/-- Everything behind the first line of a certificate, with what follows it. -/
def bodyThen (der more : Bytes) : Bytes :=
  wrap (Base64.encode der) ++ (endMark certificateLabel ++ 0x0A :: more)

theorem lines_encode : lines (encode der ++ more) =
    (beginMark ++ beginLine) :: lines (bodyThen der more) := by
  have hline : ∀ byte ∈ beginMark ++ certificateLabel ++ dashes, isLineEnd byte = false := by
    decide +kernel
  have happend : encode der ++ more =
      (beginMark ++ certificateLabel ++ dashes) ++ 0x0A :: bodyThen der more := by
    simp only [encode, bodyThen, List.append_assoc, List.cons_append, List.nil_append]
  rw [happend, lines_line hline]
  rfl

theorem isPlain_encode (der : Bytes) : IsPlain (Base64.encode der) := fun _ =>
  Base64.isPlain_of_mem_encode

theorem lines_endLine : lines (endMark certificateLabel ++ 0x0A :: more) =
    (endMark certificateLabel ++ [0x0A]) :: lines more :=
  lines_line (by decide +kernel)

/-- A certificate of the writer is one section. -/
theorem readLines_encode : readLines none (lines (encode der ++ more)) =
    .ok ⟨.certificate, der⟩ :: readLines none (lines more) := by
  have hopen : readLine none (beginMark ++ beginLine) = ([], some ⟨certificateLabel, []⟩) := rfl
  have hclose (gathered : Bytes) : readLine (some ⟨certificateLabel, gathered⟩)
      (endMark certificateLabel ++ [0x0A]) =
        ((Open.mk certificateLabel gathered).close.toList, none) := rfl
  have hkind : Kind.ofLabel? certificateLabel = some .certificate := rfl
  rw [lines_encode, readLines_cons, hopen, List.nil_append, bodyThen,
    readLines_wrap (isPlain_encode der), lines_endLine, readLines_cons, Option.map_some, hclose,
    Open.close, hkind, List.nil_append,
    Base64.decode_of_filter (filter_wrap (isPlain_encode der))]
  rfl

/-- Without its first line a certificate of the writer is nothing. -/
theorem readLines_bodyThen : readLines none (lines (bodyThen der more)) =
    readLines none (lines more) := by
  rw [bodyThen, readLines_wrap (isPlain_encode der), lines_endLine, readLines_cons]
  rfl

/-- Certificates of the writer are one section each. -/
theorem readLines_flatMap_encode (ders : List Bytes) :
    readLines none (lines (ders.flatMap encode)) = ders.map fun der => .ok ⟨.certificate, der⟩ := by
  induction ders with
  | nil => rfl
  | cons der rest ih => rw [List.flatMap_cons, readLines_encode, ih, List.map_cons]

end

section
variable {results : List (Except Fault Section)} {text : Bytes} {contents : List Bytes}

theorem untilFault_of_faultless (hfaultless : Faultless results) :
    untilFault results = (found results, none) := by
  induction results with
  | nil => rfl
  | cons result rest ih =>
    have hrest : Faultless rest := fun fault hmem => hfaultless fault (List.mem_cons_of_mem _ hmem)
    cases result with
    | error fault => exact absurd List.mem_cons_self (hfaultless fault)
    | ok part =>
      rw [untilFault, ih hrest]
      rfl

theorem faultless_of_untilFault (hnone : (untilFault results).2 = none) : Faultless results := by
  induction results with
  | nil => exact fun _ hmem => by cases hmem
  | cons result rest ih =>
    cases result with
    | error fault => cases hnone
    | ok part =>
      intro fault hmem
      rcases List.mem_cons.mp hmem with heq | hmem
      · cases heq
      · exact ih hnone fault hmem

/-- The certificates of a text can be read if there is no fault in it. -/
theorem certificates_eq_ok : certificates text = .ok contents ↔
    Faultless (read text) ∧ certificateContents (found (read text)) = contents := by
  unfold certificates
  constructor
  · intro h
    split at h
    · cases h
    · rename_i sections huntil
      have hfaultless := faultless_of_untilFault (congrArg Prod.snd huntil)
      rw [untilFault_of_faultless hfaultless] at huntil
      cases huntil
      cases h
      exact ⟨hfaultless, rfl⟩
  · rintro ⟨hfaultless, rfl⟩
    rw [untilFault_of_faultless hfaultless]

theorem Faultless.append {others : List (Except Fault Section)} (hfirst : Faultless results)
    (hsecond : Faultless others) : Faultless (results ++ others) := fun fault hmem =>
  (List.mem_append.mp hmem).elim (hfirst fault) (hsecond fault)

theorem faultless_written (ders : List Bytes) :
    Faultless (ders.map fun der => .ok ⟨.certificate, der⟩) := by
  intro fault hmem
  obtain ⟨der, -, heq⟩ := List.mem_map.mp hmem
  cases heq

theorem certificateContents_written (ders : List Bytes) :
    certificateContents (found (ders.map fun der => .ok ⟨.certificate, der⟩)) = ders := by
  induction ders with
  | nil => rfl
  | cons der rest ih => exact congrArg (der :: ·) ih

theorem certificateContents_append (first second : List (Except Fault Section)) :
    certificateContents (found (first ++ second)) =
      certificateContents (found first) ++ certificateContents (found second) := by
  simp only [certificateContents, found, List.filterMap_append, List.filter_append, List.map_append]

/-- Certificates that come out of sections behind a text are read behind those of the text. -/
theorem certificates_of_read_append {longer : Bytes} (hcontents : certificates text = .ok contents)
    {ders : List Bytes}
    (hread : read longer = read text ++ ders.map fun der => .ok ⟨.certificate, der⟩) :
    certificates longer = .ok (contents ++ ders) := by
  obtain ⟨hfaultless, rfl⟩ := certificates_eq_ok.mp hcontents
  refine certificates_eq_ok.mpr ⟨?_, ?_⟩
  · rw [hread]
    exact hfaultless.append (faultless_written ders)
  · rw [hread, certificateContents_append, certificateContents_written]

/-- **Appending.** Behind a text that ends its last line, certificates of the writer are read as
they were written. -/
theorem certificates_append (hterminated : IsTerminated text)
    (hcontents : certificates text = .ok contents) (ders : List Bytes) :
    certificates (text ++ ders.flatMap encode) = .ok (contents ++ ders) := by
  refine certificates_of_read_append hcontents ?_
  rw [read, lines_append hterminated, readLines_append (certificates_eq_ok.mp hcontents).1,
    readLines_flatMap_encode]
  rfl

/-- Behind a text that does not end its last line, the first of the certificates is lost. -/
theorem certificates_append_unterminated (hunterminated : ¬ IsTerminated text)
    (hcontents : certificates text = .ok contents) (der : Bytes) (ders : List Bytes) :
    certificates (text ++ (der :: ders).flatMap encode) = .ok (contents ++ ders) := by
  refine certificates_of_read_append hcontents ?_
  obtain ⟨before, last, hne, hlines, happend⟩ := lines_append_unterminated hunterminated
  have hfaultless := (certificates_eq_ok.mp hcontents).1
  rw [read, hlines] at hfaultless
  rw [read, read, hlines, List.flatMap_cons, happend _ _ lines_encode,
    readLines_glued hne hfaultless, readLines_bodyThen, readLines_flatMap_encode]

end

end PeerTrust.Pem
