import PeerTrust.Proofs.Text.Pem

/-!
# A PEM text that was cut while it was written

Where the writer is stopped in the middle of a section, its next sections come behind the part that
was left. Most cuts spoil what follows: the first line of the next section is glued to a line that
was cut, or the contents of the next section are added to those that were cut. A cut is harmless
between two sections, right behind the first line of a section, where only the last six characters
of a section are missing, and in the first mark of a section that has another one in front of it.
-/

namespace PeerTrust.Pem

/-- The line that a section of the writer starts with. -/
def firstLine : Bytes := beginMark ++ beginLine

/-- The line that a section of the writer ends with. -/
def lastLine : Bytes := endMark certificateLabel ++ [0x0A]

/-- The number of characters at the end of a section that may be missing. -/
def slack : Nat := 6

/-- Where the writer of sections can be stopped so that its next sections can still be read. -/
inductive CleanStop : List Bytes → Nat → Prop
  /-- Nothing is written. -/
  | before (ders : List Bytes) : CleanStop ders 0
  /-- The first line is written. -/
  | opened (der : Bytes) (rest : List Bytes) : CleanStop (der :: rest) firstLine.length
  /-- The end of the last line is missing. -/
  | closing {der : Bytes} {rest : List Bytes} {count : Nat}
      (hfrom : (encode der).length ≤ count + slack) (hto : count < (encode der).length) :
      CleanStop (der :: rest) count
  /-- The mark at the beginning of the second section is not complete. -/
  | begun (der next : Bytes) (rest : List Bytes) {count : Nat} (hcount : count < beginMark.length) :
      CleanStop (der :: next :: rest) ((encode der).length + count)
  /-- The first section is complete. -/
  | behind (der : Bytes) {rest : List Bytes} {count : Nat} (hrest : CleanStop rest count) :
      CleanStop (der :: rest) ((encode der).length + count)

/-- Whatever comes behind `text` and `next`: the text is read without a fault, it has the
certificates `contents`, and the reader is left in a given state. -/
def Leaves (text next : Bytes) (contents : List Bytes) (state : Option Open) : Prop :=
  ∃ results, Faultless results ∧ certificateContents (found results) = contents ∧
    ∀ more, read (text ++ (next ++ more)) = results ++ readLines state (lines more)

/-- What comes behind the text is read by itself. -/
abbrev Rests (text : Bytes) (contents : List Bytes) : Prop := Leaves text [] contents none

/-- The state of a reader behind the first line of a section, which is glued to another line unless
it `opens` the section. -/
def behindFirstLine (opens : Bool) : Option Open :=
  if opens then some ⟨certificateLabel, []⟩ else none

/-- Sections can be written behind the text. If the first line of the next one does not open it,
this section is not read. -/
abbrev Awaits (text : Bytes) (contents : List Bytes) (opens : Bool) : Prop :=
  Leaves text firstLine contents (behindFirstLine opens)

/-- What is read of the sections that are written behind such a text. -/
def visible {α : Type} (opens : Bool) (elements : List α) : List α :=
  if opens then elements else elements.tail

section
variable {der more : Bytes}

theorem encode_append (der more : Bytes) : encode der ++ more = firstLine ++ bodyThen der more := by
  simp only [encode, firstLine, beginLine, bodyThen, List.append_assoc, List.cons_append,
    List.nil_append]

theorem bodyThen_eq (der more : Bytes) :
    bodyThen der more = wrap (Base64.encode der) ++ (lastLine ++ more) := by
  simp only [bodyThen, lastLine, List.append_assoc, List.singleton_append]

theorem encode_eq (der : Bytes) :
    encode der = firstLine ++ (wrap (Base64.encode der) ++ lastLine) := by
  have happend := encode_append der []
  rwa [bodyThen_eq, List.append_nil, List.append_nil] at happend

/-- A first line that is glued to a part of a line makes one line with it. -/
theorem lines_glued {part : Bytes} (hpart : ∀ byte ∈ part, isLineEnd byte = false) (more : Bytes) :
    lines (part ++ firstLine ++ more) = (part ++ firstLine) :: lines more := by
  have hmarks : ∀ byte ∈ beginMark ++ (certificateLabel ++ dashes), isLineEnd byte = false := by
    decide +kernel
  have hline : ∀ byte ∈ part ++ (beginMark ++ (certificateLabel ++ dashes)),
      isLineEnd byte = false := by
    intro byte hmem
    exact (List.mem_append.mp hmem).elim (hpart byte) (hmarks byte)
  have hlines := @lines_line more _ hline
  simp only [firstLine, beginLine, List.append_assoc, List.cons_append, List.nil_append]
    at hlines ⊢
  exact hlines

theorem lines_firstLine (more : Bytes) : lines (firstLine ++ more) = firstLine :: lines more :=
  lines_glued (fun _ hmem => absurd hmem (List.not_mem_nil)) more

/-- Outside of a section, a first line that is glued to a part of its mark opens nothing. -/
theorem readLines_begun {count : Nat} (hpos : 0 < count) (hto : count < beginMark.length)
    (more : Bytes) :
    readLines none (lines (beginMark.take count ++ firstLine ++ more)) =
      readLines none (lines more) := by
  have hmark : ∀ byte ∈ beginMark, isLineEnd byte = false := by decide +kernel
  have hpart : ∀ byte ∈ beginMark.take count, isLineEnd byte = false := fun byte hmem =>
    hmark byte (List.mem_of_mem_take hmem)
  have hlength : (beginMark.take count).length = count :=
    List.length_take_of_le (Nat.le_of_lt hto)
  have hne : beginMark.take count ≠ [] := List.ne_nil_of_length_pos (by omega)
  have hshort : ¬ beginMark <+: beginMark.take count := fun hstarts => by
    have hle := hstarts.length_le
    omega
  have hbegin := not_begin_append hne hshort beginLine
  have hline : readLine none (beginMark.take count ++ firstLine) = ([], none) := by
    rw [readLine, firstLine, if_neg (mt List.isPrefixOf_iff_prefix.mp hbegin)]
  rw [lines_glued hpart, readLines_cons, hline, List.nil_append]

/-- The first line of a section keeps what was gathered in front of it. -/
theorem readLines_firstLine (current : Option Open) (more : Bytes) :
    readLines current (lines (firstLine ++ more)) =
      readLines (some ⟨certificateLabel, (current.map (·.gathered)).getD []⟩) (lines more) := by
  have hline : readLine current firstLine =
      ([], some ⟨certificateLabel, (current.map (·.gathered)).getD []⟩) := rfl
  rw [lines_firstLine, readLines_cons, hline, List.nil_append]

end

/-- A line that ends a certificate, in whatever way it goes on. -/
structure Closes (line : Bytes) : Prop where
  whole : ∀ more, lines (line ++ more) = line :: lines more
  notBegin : beginMark.isPrefixOf line = false
  isEnd : (endMark certificateLabel).isPrefixOf line = true

section
variable {line : Bytes}

theorem closes_lastLine : Closes lastLine where
  whole more := by
    rw [lastLine, List.append_assoc]
    exact lines_endLine
  notBegin := rfl
  isEnd := rfl

/-- The first line of a section supplies what is missing from the last line in front of it. -/
theorem closes_glued {count : Nat} (hfrom : lastLine.length ≤ count + slack)
    (hto : count < lastLine.length) : Closes (lastLine.take count ++ firstLine) where
  whole more := by
    have hmark : ∀ byte ∈ endMark certificateLabel, isLineEnd byte = false := by decide +kernel
    have htake : lastLine.take count = (endMark certificateLabel).take count :=
      List.take_append_of_le_length (Nat.le_of_lt_succ hto)
    refine lines_glued (fun byte hmem => ?_) more
    rw [htake] at hmem
    exact hmark byte (List.mem_of_mem_take hmem)
  notBegin := by
    have hall : ∀ count < lastLine.length, lastLine.length ≤ count + slack →
        beginMark.isPrefixOf (lastLine.take count ++ firstLine) = false := by
      decide +kernel
    exact hall count hto hfrom
  isEnd := by
    have hall : ∀ count < lastLine.length, lastLine.length ≤ count + slack →
        (endMark certificateLabel).isPrefixOf (lastLine.take count ++ firstLine) = true := by
      decide +kernel
    exact hall count hto hfrom

/-- What a certificate is closed with: its contents, or a fault. -/
def closed (gathered : Bytes) : Except Fault Section :=
  match Base64.decode gathered with
  | .error fault => .error (.contents fault)
  | .ok contents => .ok ⟨.certificate, contents⟩

theorem Closes.readLine_inside (hcloses : Closes line) (gathered : Bytes) :
    readLine (some ⟨certificateLabel, gathered⟩) line = ([closed gathered], none) := by
  have hkind : Kind.ofLabel? certificateLabel = some .certificate := rfl
  have hclose : (Open.close ⟨certificateLabel, gathered⟩).toList = [closed gathered] := by
    rw [Open.close, hkind]
    rfl
  simp only [readLine, hcloses.notBegin, hcloses.isEnd, hclose, if_true]
  rfl

theorem Closes.readLine_outside (hcloses : Closes line) : readLine none line = ([], none) := by
  simp only [readLine, hcloses.notBegin]
  rfl

/-- Such a line closes a section behind its contents, and means nothing elsewhere. -/
theorem Closes.readLines_inside (hcloses : Closes line) (gathered der more : Bytes) :
    readLines (some ⟨certificateLabel, gathered⟩)
        (lines (wrap (Base64.encode der) ++ (line ++ more))) =
      closed (gathered ++ wrap (Base64.encode der)) :: readLines none (lines more) := by
  rw [readLines_wrap (isPlain_encode der), Option.map_some, hcloses.whole, readLines_cons,
    hcloses.readLine_inside]
  rfl

theorem closed_wrap (der : Bytes) :
    closed (wrap (Base64.encode der)) = .ok ⟨.certificate, der⟩ := by
  rw [closed, Base64.decode_of_filter (filter_wrap (isPlain_encode der))]

theorem Closes.readLines_behindFirstLine (hcloses : Closes line) (opens : Bool)
    (der more : Bytes) :
    readLines (behindFirstLine opens) (lines (wrap (Base64.encode der) ++ (line ++ more))) =
      ((visible opens [der]).map fun der => .ok ⟨.certificate, der⟩) ++
        readLines none (lines more) := by
  cases opens with
  | true =>
    have hinside := hcloses.readLines_inside [] der more
    rw [List.nil_append, closed_wrap] at hinside
    exact hinside
  | false =>
    have hwrap := @readLines_wrap none (Base64.encode der) (line ++ more) (isPlain_encode der)
    rw [Option.map_none, hcloses.whole, readLines_cons, hcloses.readLine_outside] at hwrap
    exact hwrap

end

section
variable {text next : Bytes} {contents : List Bytes} {state : Option Open} {opens : Bool}

/-- More results in front of another state. -/
theorem Leaves.step {longer other : Bytes} {later : Option Open} {ders : List Bytes}
    (hleaves : Leaves text next contents state)
    (hread : ∀ more, ∃ rest, longer ++ (other ++ more) = text ++ (next ++ rest) ∧
      readLines state (lines rest) =
        (ders.map fun der => .ok ⟨.certificate, der⟩) ++ readLines later (lines more)) :
    Leaves longer other (contents ++ ders) later := by
  obtain ⟨results, hfaultless, hcontents, hresults⟩ := hleaves
  refine ⟨results ++ ders.map fun der => .ok ⟨.certificate, der⟩,
    hfaultless.append (faultless_written ders), ?_, ?_⟩
  · rw [certificateContents_append, certificateContents_written, hcontents]
  · intro more
    obtain ⟨rest, htext, hrest⟩ := hread more
    rw [htext, hresults, hrest, List.append_assoc]

/-- Behind a text that ends its last line reading starts afresh. -/
theorem rests_of_certificates (hterminated : IsTerminated text)
    (hcontents : certificates text = .ok contents) : Rests text contents := by
  obtain ⟨hfaultless, hfound⟩ := certificates_eq_ok.mp hcontents
  refine ⟨read text, hfaultless, hfound, fun more => ?_⟩
  rw [List.nil_append, read, lines_append hterminated]
  exact readLines_append hfaultless

theorem certificates_of_rests (hrests : Rests text contents) : certificates text = .ok contents := by
  obtain ⟨results, hfaultless, hcontents, hresults⟩ := hrests
  have hread : read text = results := by
    simpa [lines, readLines] using hresults []
  exact certificates_eq_ok.mpr ⟨hread ▸ hfaultless, hread ▸ hcontents⟩

/-- Sections can be written behind a text that can be read. -/
theorem awaits_of_rests (hrests : Rests text contents) : Awaits text contents true := by
  have hstep : Awaits text (contents ++ []) true := by
    refine hrests.step fun more => ⟨firstLine ++ more, rfl, ?_⟩
    rw [readLines_firstLine]
    rfl
  rwa [List.append_nil] at hstep

/-- Behind a line that opened a section, the next one can be opened again. -/
theorem awaits_firstLine (hawaits : Awaits text contents opens) :
    Awaits (text ++ firstLine) contents true := by
  have hstep : Awaits (text ++ firstLine) (contents ++ []) true := by
    refine hawaits.step fun more => ⟨firstLine ++ more, List.append_assoc .., ?_⟩
    rw [readLines_firstLine]
    cases opens <;> rfl
  rwa [List.append_nil] at hstep

/-- A section that is written as a whole. -/
theorem rests_encode (hawaits : Awaits text contents opens) (der : Bytes) :
    Rests (text ++ encode der) (contents ++ visible opens [der]) := by
  refine hawaits.step fun more =>
    ⟨wrap (Base64.encode der) ++ (lastLine ++ more), ?_, ?_⟩
  · rw [encode_eq, List.nil_append]
    simp only [List.append_assoc]
  · exact closes_lastLine.readLines_behindFirstLine opens der more

/-- Sections behind a text that can be read. -/
theorem rests_flatMap_encode (hrests : Rests text contents) (ders : List Bytes) :
    Rests (text ++ ders.flatMap encode) (contents ++ ders) := by
  refine hrests.step fun more => ⟨ders.flatMap encode ++ more, List.append_assoc .., ?_⟩
  induction ders with
  | nil => rfl
  | cons der rest ih =>
    rw [List.flatMap_cons, List.append_assoc, readLines_encode, ih]
    rfl

/-- Sections that are written as a whole, the first of which may have to close the one in front. -/
theorem rests_sections (hawaits : Awaits text contents opens) {ders : List Bytes} (hne : ders ≠ []) :
    Rests (text ++ ders.flatMap encode) (contents ++ visible opens ders) := by
  obtain ⟨der, rest, rfl⟩ := List.exists_cons_of_ne_nil hne
  have hrests := rests_flatMap_encode (rests_encode hawaits der) rest
  have hvisible : visible opens (der :: rest) = visible opens [der] ++ rest := by
    cases opens <;> rfl
  rw [List.flatMap_cons, hvisible, ← List.append_assoc, ← List.append_assoc]
  exact hrests

/-- A section of which only the end of the last line is missing. -/
theorem awaits_closing (hawaits : Awaits text contents opens) {der : Bytes} {count : Nat}
    (hfrom : (encode der).length ≤ count + slack) (hto : count < (encode der).length) :
    Awaits (text ++ (encode der).take count) (contents ++ visible opens [der]) false := by
  have hlength := congrArg List.length (encode_eq der)
  simp only [List.length_append] at hlength
  have hslack : slack ≤ lastLine.length := by decide
  obtain ⟨left, rfl⟩ := Nat.exists_eq_add_of_le
    (show firstLine.length + (wrap (Base64.encode der)).length ≤ count by omega)
  have htake : (encode der).take
      (firstLine.length + (wrap (Base64.encode der)).length + left) =
        firstLine ++ (wrap (Base64.encode der) ++ lastLine.take left) := by
    rw [encode_eq, Nat.add_assoc, List.take_length_add_append, List.take_length_add_append]
  have hcloses : Closes (lastLine.take left ++ firstLine) :=
    closes_glued (by omega) (by omega)
  refine hawaits.step fun more =>
    ⟨wrap (Base64.encode der) ++ (lastLine.take left ++ firstLine ++ more), ?_, ?_⟩
  · rw [htake]
    simp only [List.append_assoc]
  · exact hcloses.readLines_behindFirstLine opens der more

/-- The first line of a section is lost if it is glued to a part of its own mark. -/
theorem awaits_begun (hrests : Rests text contents) {count : Nat} (hpos : 0 < count)
    (hto : count < beginMark.length) : Awaits (text ++ beginMark.take count) contents false := by
  have hstep : Awaits (text ++ beginMark.take count) (contents ++ []) false := by
    refine hrests.step fun more => ⟨beginMark.take count ++ firstLine ++ more, ?_, ?_⟩
    · simp only [List.append_assoc, List.nil_append]
    · exact readLines_begun hpos hto more
  rwa [List.append_nil] at hstep

/-- **Clean stops.** -/
theorem awaits_stop {ders : List Bytes} {count : Nat} (hstop : CleanStop ders count)
    (hawaits : Awaits text contents opens) :
    ∃ complete later, complete ≤ ders.length ∧
      Awaits (text ++ (ders.flatMap encode).take count)
        (contents ++ visible opens (ders.take complete)) later ∧
      (later = false → opens = false ∨ 0 < complete) := by
  induction hstop generalizing text contents opens with
  | before ders =>
    refine ⟨0, opens, Nat.zero_le _, ?_, Or.inl⟩
    have hnone : visible opens (ders.take 0) = [] := by cases opens <;> rfl
    rw [List.take_zero, List.append_nil, hnone, List.append_nil]
    exact hawaits
  | opened der rest =>
    refine ⟨0, true, Nat.zero_le _, ?_, nofun⟩
    have htake : ((der :: rest).flatMap encode).take firstLine.length = firstLine := by
      rw [List.flatMap_cons, encode_append]
      exact List.take_left
    have hnone : visible opens ((der :: rest).take 0) = [] := by cases opens <;> rfl
    rw [htake, hnone, List.append_nil]
    exact awaits_firstLine hawaits
  | @closing der rest count hfrom hto =>
    refine ⟨1, false, by simp, ?_, fun _ => Or.inr Nat.one_pos⟩
    have htake : ((der :: rest).flatMap encode).take count = (encode der).take count := by
      rw [List.flatMap_cons]
      exact List.take_append_of_le_length (Nat.le_of_lt hto)
    rw [htake]
    exact awaits_closing hawaits hfrom hto
  | @begun der next rest count hcount =>
    have hrests := rests_encode hawaits der
    have htake : ((der :: next :: rest).flatMap encode).take ((encode der).length + count) =
        encode der ++ beginMark.take count := by
      rw [List.flatMap_cons, List.take_length_add_append, List.flatMap_cons, encode_append next,
        firstLine, List.append_assoc, List.take_append_of_le_length (Nat.le_of_lt hcount)]
    rw [htake, ← List.append_assoc]
    rcases Nat.eq_zero_or_pos count with rfl | hpos
    · refine ⟨1, true, by simp, ?_, nofun⟩
      rw [List.take_zero, List.append_nil]
      exact awaits_of_rests hrests
    · exact ⟨1, false, by simp, awaits_begun hrests hpos hcount, fun _ => Or.inr Nat.one_pos⟩
  | @behind der rest count hrest ih =>
    obtain ⟨complete, later, hle, hlater, -⟩ := ih (awaits_of_rests (rests_encode hawaits der))
    have htake : ((der :: rest).flatMap encode).take ((encode der).length + count) =
        encode der ++ (rest.flatMap encode).take count := by
      rw [List.flatMap_cons, List.take_length_add_append]
    have hvisible : visible opens ((der :: rest).take (complete + 1)) =
        visible opens [der] ++ visible true (rest.take complete) := by
      cases opens <;> rfl
    refine ⟨complete + 1, later, Nat.succ_le_succ hle, ?_, fun _ => Or.inr (Nat.succ_pos _)⟩
    rw [htake, hvisible, ← List.append_assoc, ← List.append_assoc]
    exact hlater

end

section
variable {der text : Bytes} {rest contents : List Bytes}

theorem mem_certificateContents {results : List (Except Fault Section)} :
    der ∈ certificateContents (found results) ↔ .ok ⟨.certificate, der⟩ ∈ results := by
  simp only [certificateContents, found, List.mem_map, List.mem_filter, List.mem_filterMap]
  constructor
  · rintro ⟨part, ⟨⟨result, hmem, hresult⟩, hkind⟩, rfl⟩
    cases result with
    | error fault => cases hresult
    | ok other =>
      cases hresult
      rwa [← beq_iff_eq.mp hkind]
  · intro hmem
    exact ⟨⟨.certificate, der⟩, ⟨⟨_, hmem, rfl⟩, rfl⟩, rfl⟩

/-- The characters of a text that count as contents. -/
def weight (text : Bytes) : Nat := (text.filter (!Base64.isBlank ·)).length

theorem weight_append (first second : Bytes) :
    weight (first ++ second) = weight first + weight second := by
  rw [weight, List.filter_append, List.length_append]
  rfl

theorem weight_wrap (der : Bytes) :
    weight (wrap (Base64.encode der)) = (Base64.encode der).length := by
  rw [weight, filter_wrap (isPlain_encode der)]

theorem closed_ne {gathered : Bytes} (hheavy : (Base64.encode der).length < weight gathered) :
    closed gathered ≠ .ok ⟨.certificate, der⟩ := by
  intro hclosed
  unfold closed at hclosed
  split at hclosed
  · cases hclosed
  · rename_i bytes hbytes
    cases hclosed
    exact Base64.decode_ne_of_length hheavy hbytes

theorem not_mem_sections (hrest : der ∉ rest) :
    .ok ⟨.certificate, der⟩ ∉ readLines none (lines (rest.flatMap encode)) := by
  rw [readLines_flatMap_encode, List.mem_map]
  rintro ⟨other, hmem, heq⟩
  cases heq
  exact hrest hmem

/-- A section whose contents come behind other characters is not read as it was written. -/
theorem lost_behind_gathered {gathered : Bytes} (hgathered : 0 < weight gathered)
    (hrest : der ∉ rest) :
    .ok ⟨.certificate, der⟩ ∉ readLines (some ⟨certificateLabel, gathered⟩)
      (lines (bodyThen der (rest.flatMap encode))) := by
  have hheavy : (Base64.encode der).length < weight (gathered ++ wrap (Base64.encode der)) := by
    rw [weight_append, weight_wrap]
    omega
  rw [bodyThen_eq, closes_lastLine.readLines_inside, List.mem_cons]
  rintro (hclosed | hmem)
  · exact closed_ne hheavy hclosed.symm
  · exact not_mem_sections hrest hmem

/-- A section under another label is not closed by its own last line. -/
theorem lost_under_label {label : Bytes} (hlabel : (endMark label).isPrefixOf lastLine = false)
    (hrest : der ∉ rest) :
    .ok ⟨.certificate, der⟩ ∉ readLines (some ⟨label, []⟩)
      (lines (bodyThen der (rest.flatMap encode))) := by
  have hline (gathered : Bytes) : readLine (some ⟨label, gathered⟩) lastLine =
      ([], some ⟨label, gathered ++ lastLine⟩) := by
    simp only [readLine, closes_lastLine.notBegin, hlabel]
    rfl
  rw [bodyThen_eq, readLines_wrap (isPlain_encode der), Option.map_some, closes_lastLine.whole,
    readLines_cons, hline, List.nil_append, List.nil_append]
  cases rest with
  | nil =>
    intro hmem
    cases List.mem_singleton.mp hmem
  | cons next others =>
    have hother : der ∉ others := fun hmem => hrest (List.mem_cons_of_mem _ hmem)
    have hheavy : (Base64.encode der).length <
        weight (wrap (Base64.encode der) ++ lastLine ++ wrap (Base64.encode next)) := by
      have hlast : 0 < weight lastLine := by decide
      rw [weight_append, weight_append, weight_wrap]
      omega
    rw [List.flatMap_cons, encode_append, readLines_firstLine, Option.map_some, Option.getD_some,
      bodyThen_eq, closes_lastLine.readLines_inside, List.mem_cons]
    rintro (hclosed | hmem)
    · exact closed_ne hheavy hclosed.symm
    · exact not_mem_sections hother hmem

/-- A cut inside the mark of a section hides this section when it is written again. -/
theorem lost_behind_mark {count : Nat} (hpos : 0 < count) (hto : count < beginMark.length)
    (hrest : der ∉ rest) :
    .ok ⟨.certificate, der⟩ ∉ readLines none
      (lines (beginMark.take count ++ (der :: rest).flatMap encode)) := by
  rw [List.flatMap_cons, encode_append, ← List.append_assoc, readLines_begun hpos hto,
    readLines_bodyThen]
  exact not_mem_sections hrest

/-- A first line that is glued to a cut one opens a section under a label of its own. -/
theorem lost_behind_label {count : Nat} (hfrom : beginMark.length ≤ count)
    (hto : count < firstLine.length) (hrest : der ∉ rest) :
    .ok ⟨.certificate, der⟩ ∉ readLines none
      (lines (firstLine.take count ++ (der :: rest).flatMap encode)) := by
  have hpart : ∀ count < firstLine.length, ∀ byte ∈ firstLine.take count,
      isLineEnd byte = false := by
    decide +kernel
  have hglued : ∀ count < firstLine.length, beginMark.length ≤ count →
      beginMark.isPrefixOf (firstLine.take count ++ firstLine) = true ∧
        (openingLabel (firstLine.take count ++ firstLine)).toOption.any
          fun label => !(endMark label).isPrefixOf lastLine := by
    decide +kernel
  obtain ⟨hbegin, hlabel⟩ := hglued count hto hfrom
  cases hopening : openingLabel (firstLine.take count ++ firstLine) with
  | error fault =>
    rw [hopening] at hlabel
    cases hlabel
  | ok label =>
    rw [hopening] at hlabel
    have hline : readLine none (firstLine.take count ++ firstLine) = ([], some ⟨label, []⟩) := by
      simp only [readLine, hbegin, hopening, if_true]
      rfl
    have hunended : (endMark label).isPrefixOf lastLine = false := by
      simpa [Except.toOption] using hlabel
    rw [List.flatMap_cons, encode_append, ← List.append_assoc, lines_glued (hpart count hto),
      readLines_cons, hline, List.nil_append]
    exact lost_under_label hunended hrest

/-- Lines that do not begin with a dash are gathered inside of a section. -/
theorem readLines_gathered {label gathered : Bytes} {first more : List Bytes}
    (hfirst : ∀ line ∈ first, ∃ byte tail, line = byte :: tail ∧ byte ≠ dash) :
    readLines (some ⟨label, gathered⟩) (first ++ more) =
      readLines (some ⟨label, gathered ++ first.flatten⟩) more := by
  induction first generalizing gathered with
  | nil => rw [List.nil_append, List.flatten_nil, List.append_nil]
  | cons line others ih =>
    obtain ⟨hline, hothers⟩ := List.forall_mem_cons.mp hfirst
    obtain ⟨byte, tail, rfl, hbyte⟩ := hline
    rw [List.cons_append, readLines_cons, readLine_plain hbyte, List.nil_append, Option.map_some,
      ih hothers, List.flatten_cons, List.append_assoc]

theorem flatten_lines (text : Bytes) : (lines text).flatten = text := by
  induction text with
  | nil => rfl
  | cons byte rest ih =>
    rw [lines]
    split
    · rw [List.flatten_cons, ih]
      rfl
    · split
      · rename_i hnone
        rw [hnone, List.flatten_nil] at ih
        rw [← ih]
        rfl
      · rename_i line others hsome
        rw [hsome, List.flatten_cons] at ih
        rw [List.flatten_cons, List.cons_append, ih]

theorem ne_nil_of_mem_lines {line : Bytes} (hmem : line ∈ lines text) : line ≠ [] := by
  induction text generalizing line with
  | nil => cases hmem
  | cons byte rest ih =>
    rw [lines] at hmem
    split at hmem
    · rcases List.mem_cons.mp hmem with rfl | hmem
      · exact List.cons_ne_nil _ _
      · exact ih hmem
    · split at hmem
      · cases List.mem_singleton.mp hmem
        exact List.cons_ne_nil _ _
      · rename_i hsome
        rcases List.mem_cons.mp hmem with rfl | hmem
        · exact List.cons_ne_nil _ _
        · exact ih (hsome ▸ List.mem_cons_of_mem _ hmem)

/-- The lines of a text without dashes do not begin with one. -/
theorem exists_of_mem_lines (htext : ∀ byte ∈ text, byte ≠ dash) {line : Bytes}
    (hmem : line ∈ lines text) : ∃ byte tail, line = byte :: tail ∧ byte ≠ dash := by
  obtain ⟨byte, tail, rfl⟩ := List.exists_cons_of_ne_nil (ne_nil_of_mem_lines hmem)
  have hbyte : byte ∈ (lines text).flatten := List.mem_flatten.mpr ⟨_, hmem, List.mem_cons_self⟩
  rw [flatten_lines] at hbyte
  exact ⟨byte, tail, rfl, htext byte hbyte⟩

theorem mem_wrap {byte : UInt8} (hmem : byte ∈ wrap text) : byte ∈ text ∨ byte = 0x0A := by
  induction text using wrap.induct with
  | case1 =>
    rw [wrap] at hmem
    cases hmem
  | case2 first others ih =>
    rw [wrap, List.mem_append, List.mem_append, List.mem_singleton] at hmem
    rcases hmem with (hmem | hmem) | hmem
    · exact Or.inl (List.mem_of_mem_take hmem)
    · exact Or.inr hmem
    · exact (ih hmem).imp_left List.mem_of_mem_drop

/-- The first character that is written counts. -/
theorem weight_take_wrap {count : Nat} (hpos : 0 < count)
    (hto : count ≤ (wrap (Base64.encode der)).length) :
    0 < weight ((wrap (Base64.encode der)).take count) := by
  obtain ⟨left, rfl⟩ := Nat.exists_eq_add_one_of_ne_zero (Nat.ne_of_gt hpos)
  cases hwritten : Base64.encode der with
  | nil =>
    rw [hwritten, wrap, List.length_nil] at hto
    omega
  | cons byte others =>
    have hplain : Base64.IsPlain byte := isPlain_encode der byte (hwritten ▸ List.mem_cons_self)
    have hmem : byte ∈ (wrap (byte :: others)).take (left + 1) := by
      rw [wrap, lineWidth, List.take_succ_cons, List.cons_append, List.cons_append,
        List.take_succ_cons]
      exact List.mem_cons_self
    exact List.length_pos_of_mem (List.mem_filter.mpr ⟨hmem, by simp [hplain.notBlank]⟩)

/-- Behind a part of the contents of a section, the next section is read as more of them. -/
theorem readLines_behind_contents {count : Nat} (hpos : 0 < count)
    (hto : count ≤ (wrap (Base64.encode der)).length) :
    ∃ gathered, 0 < weight gathered ∧ ∀ more,
      readLines (some ⟨certificateLabel, []⟩)
          (lines ((wrap (Base64.encode der)).take count ++ (firstLine ++ more))) =
        readLines (some ⟨certificateLabel, gathered⟩) (lines more) := by
  have hdash : ∀ byte ∈ (wrap (Base64.encode der)).take count, byte ≠ dash := by
    intro byte hmem
    rcases mem_wrap (List.mem_of_mem_take hmem) with hmem | rfl
    · exact (isPlain_encode der byte hmem).notDash
    · decide
  have hfirst : ∀ line ∈ lines ((wrap (Base64.encode der)).take count),
      ∃ byte tail, line = byte :: tail ∧ byte ≠ dash := fun _ => exists_of_mem_lines hdash
  by_cases hterminated : IsTerminated ((wrap (Base64.encode der)).take count)
  · refine ⟨(wrap (Base64.encode der)).take count, ?_, fun more => ?_⟩
    · exact weight_take_wrap hpos hto
    · rw [lines_append hterminated, readLines_gathered hfirst, flatten_lines, List.nil_append,
        readLines_firstLine]
      rfl
  · refine ⟨(wrap (Base64.encode der)).take count ++ firstLine, ?_, fun more => ?_⟩
    · have hline : 0 < weight firstLine := by decide
      rw [weight_append]
      omega
    · obtain ⟨before, last, -, hlines, happend⟩ :=
        @lines_append_unterminated _ (firstLine ++ more) hterminated
      have hflatten := flatten_lines ((wrap (Base64.encode der)).take count)
      rw [hlines, List.flatten_append, List.flatten_singleton] at hflatten
      rw [hlines] at hfirst
      obtain ⟨hbefore, hlast⟩ := List.forall_mem_append.mp hfirst
      obtain ⟨byte, tail, rfl, hbyte⟩ := hlast _ List.mem_cons_self
      rw [happend _ _ (lines_firstLine more), readLines_gathered hbefore, List.cons_append,
        readLines_cons, readLine_plain hbyte, ← hflatten, List.append_assoc]
      rfl

/-- Behind a part of the last line of a section, the next section is read as more contents. -/
theorem readLines_behind_last {count : Nat} (hpos : 0 < count)
    (hto : count + slack < lastLine.length) :
    ∃ gathered, 0 < weight gathered ∧ ∀ more,
      readLines (some ⟨certificateLabel, []⟩)
          (lines (wrap (Base64.encode der) ++ (lastLine.take count ++ (firstLine ++ more)))) =
        readLines (some ⟨certificateLabel, gathered⟩) (lines more) := by
  have hpart : ∀ count < lastLine.length, count + slack < lastLine.length →
      ∀ byte ∈ lastLine.take count, isLineEnd byte = false := by
    decide +kernel
  have hglued : ∀ count < lastLine.length, 0 < count → count + slack < lastLine.length →
      beginMark.isPrefixOf (lastLine.take count ++ firstLine) = false ∧
        (endMark certificateLabel).isPrefixOf (lastLine.take count ++ firstLine) = false := by
    decide +kernel
  have hshort : count < lastLine.length := by omega
  obtain ⟨hbegin, hend⟩ := hglued count hshort hpos hto
  have hline (gathered : Bytes) :
      readLine (some ⟨certificateLabel, gathered⟩) (lastLine.take count ++ firstLine) =
        ([], some ⟨certificateLabel, gathered ++ (lastLine.take count ++ firstLine)⟩) := by
    simp only [readLine, hbegin, hend]
    rfl
  refine ⟨wrap (Base64.encode der) ++ (lastLine.take count ++ firstLine), ?_, fun more => ?_⟩
  · have hline : 0 < weight firstLine := by decide
    rw [weight_append, weight_append]
    omega
  · rw [readLines_wrap (isPlain_encode der), Option.map_some, ← List.append_assoc,
      lines_glued (hpart count hshort hto), readLines_cons, hline]
    rfl

/-- A section that was cut behind its first line spoils itself when it is written again. -/
theorem lost_behind_firstLine {count : Nat} (hpos : 0 < count)
    (hto : firstLine.length + count + slack < (encode der).length) (hrest : der ∉ rest) :
    .ok ⟨.certificate, der⟩ ∉ readLines none
      (lines ((encode der).take (firstLine.length + count) ++ (der :: rest).flatMap encode)) := by
  have hlength := congrArg List.length (encode_eq der)
  simp only [List.length_append] at hlength
  rw [List.flatMap_cons, encode_append, encode_eq, List.take_length_add_append, List.append_assoc,
    readLines_firstLine]
  by_cases hcontents : count ≤ (wrap (Base64.encode der)).length
  · obtain ⟨gathered, hgathered, hread⟩ := readLines_behind_contents hpos hcontents
    rw [List.take_append_of_le_length hcontents]
    change _ ∉ readLines (some ⟨certificateLabel, []⟩) _
    rw [hread]
    exact lost_behind_gathered hgathered hrest
  · obtain ⟨left, rfl⟩ := Nat.exists_eq_add_of_le (Nat.le_of_not_le hcontents)
    obtain ⟨gathered, hgathered, hread⟩ :=
      @readLines_behind_last der left (by omega) (by omega)
    rw [List.take_length_add_append, List.append_assoc]
    change _ ∉ readLines (some ⟨certificateLabel, []⟩) _
    rw [hread]
    exact lost_behind_gathered hgathered hrest

/-- The clean stops inside of the first section. -/
theorem cleanStop_iff {count : Nat} (hcount : count < (encode der).length) :
    CleanStop (der :: rest) count ↔
      count = 0 ∨ count = firstLine.length ∨ (encode der).length ≤ count + slack := by
  constructor
  · intro hstop
    cases hstop with
    | before ders => exact Or.inl rfl
    | opened der rest => exact Or.inr (Or.inl rfl)
    | closing hfrom hto => exact Or.inr (Or.inr hfrom)
    | begun der next rest hbegun => omega
    | behind der hrest => omega
  · rintro (rfl | rfl | hfrom)
    · exact .before _
    · exact .opened der rest
    · exact .closing hfrom hcount

/-- **Spoiled stops.** If the writer is stopped in the first of its sections at any other place, and
writes them all again, this section cannot be read any more. -/
theorem lost_behind_stop {count : Nat} (hrests : Rests text contents) (hcontents : der ∉ contents)
    (hrest : der ∉ rest) (hcount : count < (encode der).length)
    (hstop : ¬ (count = 0 ∨ count = firstLine.length ∨ (encode der).length ≤ count + slack))
    {ders : List Bytes}
    (hders : certificates (text ++ ((encode der).take count ++ (der :: rest).flatMap encode)) =
      .ok ders) : der ∉ ders := by
  obtain ⟨results, -, hfound, hresults⟩ := hrests
  obtain ⟨-, rfl⟩ := certificates_eq_ok.mp hders
  have hread := hresults ((encode der).take count ++ (der :: rest).flatMap encode)
  rw [List.nil_append] at hread
  rw [mem_certificateContents, hread, List.mem_append, not_or, ← mem_certificateContents, hfound]
  refine ⟨hcontents, ?_⟩
  obtain ⟨hzero, hline, hend⟩ : count ≠ 0 ∧ count ≠ firstLine.length ∧
      ¬ (encode der).length ≤ count + slack := by simpa only [not_or] using hstop
  have hpos : 0 < count := Nat.pos_of_ne_zero hzero
  rcases Nat.lt_or_ge count beginMark.length with hlt | hge
  · have htake : (encode der).take count = beginMark.take count := by
      rw [encode_eq, firstLine, List.append_assoc, List.take_append_of_le_length (Nat.le_of_lt hlt)]
    rw [htake]
    exact lost_behind_mark hpos hlt hrest
  rcases Nat.lt_or_ge count firstLine.length with hlt | hge
  · have htake : (encode der).take count = firstLine.take count := by
      rw [encode_eq, List.take_append_of_le_length (Nat.le_of_lt hlt)]
    rw [htake]
    exact lost_behind_label ‹_› hlt hrest
  · obtain ⟨left, rfl⟩ := Nat.exists_eq_add_of_le hge
    exact lost_behind_firstLine (by omega) (by omega) hrest

end

end PeerTrust.Pem
