import Mathlib.Data.List.Basic
import PeerTrust.Hostname.Pattern
import PeerTrust.Proofs.Text.Letters

/-!
# What patterns cover, label by label

Matching works on the text of a name: it cuts off a suffix and looks at what is left. Here the same
is said of labels, the parts of a name between dots: a pattern covers the names with its own labels
or, if its first label is `*`, the names with any one label in the place of that. The two agree for
all texts. Empty labels are only looked for in front and in the middle of a name, so a name that ends
in two dots keeps an empty label at its end, and for a pattern this label counts as one. -/

namespace PeerTrust.Hostname

open Letters

/-- The parts of a name between dots. -/
def labels (name : List Char) : List (List Char) := name.splitOn '.'

/-- A name without one trailing dot, in lower case. -/
def plain (name : String) : List Char := (dropDot name.toList).map Char.toLower

/-- A name that is not empty, has no dot in front, and no dot behind another one. -/
structure IsOrderly (name : List Char) : Prop where
  nonempty : name ≠ []
  noDotInFront : ¬ ['.'] <+: name
  noDoubleDot : ¬ ['.', '.'] <:+: name

section
variable {c : Char} {name label : List Char}

@[simp] theorem labels_nil : labels [] = [[]] := rfl

theorem labels_ne_nil (name : List Char) : labels name ≠ [] := List.splitOn_ne_nil _ _

@[simp] theorem labels_dot_cons (rest : List Char) : labels ('.' :: rest) = [] :: labels rest := by
  simp [labels, List.splitOn_cons_eq_if_modifyHead]

/-- A character that is no dot belongs to the first label. -/
theorem labels_cons (hc : c ≠ '.') (rest : List Char) :
    ∃ first others, labels rest = first :: others ∧ labels (c :: rest) = (c :: first) :: others := by
  obtain ⟨first, others, hrest⟩ := List.exists_cons_of_ne_nil (labels_ne_nil rest)
  refine ⟨first, others, hrest, ?_⟩
  have hcons : labels (c :: rest) = (labels rest).modifyHead (c :: ·) := by
    simp [labels, List.splitOn_cons_eq_if_modifyHead, hc]
  rw [hcons, hrest, List.modifyHead_cons]

/-- The labels of a name make up the name. -/
theorem intercalate_labels (name : List Char) : ['.'].intercalate (labels name) = name :=
  List.intercalate_splitOn '.'

theorem labels_injective : Function.Injective labels := fun first second h => by
  rw [← intercalate_labels first, h, intercalate_labels]

/-- One label in front of a name. -/
theorem labels_append_dot (hlabel : '.' ∉ label) (rest : List Char) :
    labels (label ++ '.' :: rest) = label :: labels rest :=
  List.splitOn_append_cons_self_of_not_mem hlabel rest

theorem dot_notMem_of_mem_labels (hmem : label ∈ labels name) : '.' ∉ label := by
  induction name generalizing label with
  | nil =>
    rw [labels_nil, List.mem_singleton] at hmem
    simp [hmem]
  | cons c rest ih =>
    by_cases hc : c = '.'
    · subst hc
      rw [labels_dot_cons, List.mem_cons] at hmem
      rcases hmem with rfl | hmem
      · simp
      · exact ih hmem
    · obtain ⟨first, others, hrest, hcons⟩ := labels_cons hc rest
      have hfirst : '.' ∉ first := ih (by simp [hrest])
      rw [hcons, List.mem_cons] at hmem
      rcases hmem with rfl | hmem
      · simp [hfirst, Ne.symm hc]
      · exact ih (by simp [hrest, hmem])

/-- A character other than the dot is in a name if it is in one of the labels. -/
theorem mem_iff_exists_label {mark : Char} (hmark : mark ≠ '.') :
    mark ∈ name ↔ ∃ label ∈ labels name, mark ∈ label := by
  induction name with
  | nil => simp
  | cons c rest ih =>
    by_cases hc : c = '.'
    · subst hc
      simp [hmark, ih]
    · obtain ⟨first, others, hrest, hcons⟩ := labels_cons hc rest
      simp [hcons, ih, hrest, or_assoc]

/-- A name without a dot is a single label. -/
theorem dot_mem_iff : '.' ∈ name ↔ 2 ≤ (labels name).length := by
  constructor
  · intro hmem
    obtain ⟨label, rest, rfl, hlabel⟩ := List.eq_append_cons_of_mem hmem
    have hlength := List.length_pos_of_ne_nil (labels_ne_nil rest)
    rw [labels_append_dot hlabel, List.length_cons]
    omega
  · intro hlength
    by_contra hnot
    have hsingle : labels name = [name] := List.splitOn_eq_singleton hnot
    simp [hsingle] at hlength

theorem labels_map_toLower (name : List Char) :
    labels (name.map Char.toLower) = (labels name).map (·.map Char.toLower) := by
  induction name with
  | nil => rfl
  | cons c rest ih =>
    by_cases hc : c = '.'
    · subst hc
      simpa using ih
    · have hlower : c.toLower ≠ '.' := mt (toLower_eq_iff rfl).mp hc
      obtain ⟨first, others, hrest, hcons⟩ := labels_cons hc rest
      obtain ⟨first', others', hrest', hcons'⟩ := labels_cons hlower (rest.map Char.toLower)
      rw [ih, hrest, List.map_cons, List.cons.injEq] at hrest'
      rw [List.map_cons, hcons', hcons, List.map_cons, List.map_cons, hrest'.1, hrest'.2]

/-- Dots that stand in front or side by side are the boundaries of empty labels. -/
theorem labels_dropLast_iff (name : List Char) :
    ((∀ label ∈ (labels name).dropLast, label ≠ []) ↔
      ¬ ['.'] <+: name ∧ ¬ ['.', '.'] <:+: name) ∧
    ((∀ label ∈ (labels name).tail.dropLast, label ≠ []) ↔ ¬ ['.', '.'] <:+: name) := by
  induction name with
  | nil => simp
  | cons c rest ih =>
    obtain ⟨hwhole, htail⟩ := ih
    by_cases hc : c = '.'
    · subst hc
      have hfront : ['.', '.'] <+: '.' :: rest ↔ ['.'] <+: rest := by simp
      rw [labels_dot_cons, List.tail_cons, List.dropLast_cons_of_ne_nil (labels_ne_nil rest), hwhole,
        List.infix_cons_iff, hfront, not_or]
      simp
    · have hfront : ¬ ['.'] <+: c :: rest := by simp [Ne.symm hc]
      have hdouble : ¬ ['.', '.'] <+: c :: rest := by simp [Ne.symm hc]
      obtain ⟨first, others, hrest, hcons⟩ := labels_cons hc rest
      rw [hrest, List.tail_cons] at htail
      rw [hcons, List.tail_cons, htail, List.infix_cons_iff, or_iff_right hdouble,
        and_iff_right hfront]
      refine ⟨?_, Iff.rfl⟩
      rw [← htail]
      cases others with
      | nil => simp
      | cons second others => simp

theorem isOrderly_iff :
    IsOrderly name ↔ name ≠ [] ∧ ∀ label ∈ (labels name).dropLast, label ≠ [] := by
  rw [(labels_dropLast_iff name).1]
  exact ⟨fun h => ⟨h.nonempty, h.noDotInFront, h.noDoubleDot⟩, fun h => ⟨h.1, h.2.1, h.2.2⟩⟩

/-- Letter case makes no difference to dots. -/
theorem isOrderly_map_toLower : IsOrderly (name.map Char.toLower) ↔ IsOrderly name := by
  rw [isOrderly_iff, isOrderly_iff, labels_map_toLower, ← List.map_dropLast, List.forall_mem_map]
  simp

theorem hasEmptyLabel_iff : hasEmptyLabel name = true ↔ ['.', '.'] <:+: name := by
  induction name using hasEmptyLabel.induct with
  | case1 rest => exact iff_of_true rfl (List.infix_cons_iff.mpr (Or.inl ⟨rest, rfl⟩))
  | case2 first rest hnot ih =>
    have hfront : ¬ ['.', '.'] <+: first :: rest := by
      rintro ⟨more, hmore⟩
      obtain ⟨hfirst, hrest⟩ := List.cons.inj hmore
      exact hnot more hfirst.symm hrest.symm
    rw [hasEmptyLabel, ih, List.infix_cons_iff, or_iff_right hfront]
    exact hnot
  | case3 => exact iff_of_false Bool.false_ne_true (by simp)

/-- A name is normalized if it is orderly once the trailing dot is gone. -/
theorem normalize?_eq_some {text : String} :
    normalize? text.toList = some name ↔ IsOrderly (plain text) ∧ name = plain text := by
  have hlower : (dropDot text.toList).map lower = plain text :=
    List.map_congr_left fun c _ => lower_eq_toLower c
  have hfront (text : List Char) : ['.'] <+: text ↔ text.head? = some '.' := by
    cases text <;> simp [eq_comm]
  unfold normalize?
  dsimp only
  split
  · rename_i hrefused
    refine iff_of_false nofun fun h => ?_
    have horderly := isOrderly_map_toLower.mp h.1
    rw [Bool.or_eq_true, Bool.or_eq_true, List.isEmpty_iff, decide_eq_true_eq, ← hfront,
      hasEmptyLabel_iff] at hrefused
    rcases hrefused with (hempty | hdot) | hdouble
    · exact horderly.nonempty hempty
    · exact horderly.noDotInFront hdot
    · exact horderly.noDoubleDot hdouble
  · rename_i hkept
    rw [Bool.or_eq_true, Bool.or_eq_true, List.isEmpty_iff, decide_eq_true_eq, ← hfront,
      hasEmptyLabel_iff, not_or, not_or] at hkept
    have horderly : IsOrderly (plain text) :=
      isOrderly_map_toLower.mpr ⟨hkept.1.1, hkept.1.2, hkept.2⟩
    rw [hlower, Option.some.injEq, and_iff_right horderly, eq_comm]

end

section
variable {host suffix pattern : List Char}

/-- What stands in front of a suffix and a dot is one label. -/
theorem isLabelBefore_iff : isLabelBefore host suffix = true ↔
    ∃ label, label ≠ [] ∧ '.' ∉ label ∧ host = label ++ '.' :: suffix := by
  unfold isLabelBefore stripSuffix?
  by_cases hsuffix : '.' :: suffix <:+ host
  · obtain ⟨label, rfl⟩ := hsuffix
    rw [if_pos (List.isSuffixOf_iff_suffix.mpr (List.suffix_append ..))]
    simp
  · rw [if_neg (mt List.isSuffixOf_iff_suffix.mp hsuffix)]
    refine iff_of_false Bool.false_ne_true ?_
    rintro ⟨label, -, -, rfl⟩
    exact hsuffix (List.suffix_append ..)

/-- The labels of a name are covered by those of a pattern: they are the same, or one label stands in
the place of `*` and at least two others, which are the same, behind it. -/
def Covers (pattern host : List (List Char)) : Prop :=
  ((∀ part ∈ pattern, '*' ∉ part) ∧ host = pattern) ∨
    ∃ label rest, pattern = ['*'] :: rest ∧ 2 ≤ rest.length ∧ (∀ part ∈ rest, '*' ∉ part) ∧
      label ≠ [] ∧ host = label :: rest

theorem star_notMem_iff : '*' ∉ suffix ↔ ∀ part ∈ labels suffix, '*' ∉ part := by
  rw [mem_iff_exists_label (by decide)]
  simp

theorem labels_star_cons (suffix : List Char) :
    labels ('*' :: '.' :: suffix) = ['*'] :: labels suffix :=
  @labels_append_dot ['*'] (by decide) suffix

/-- The text of a name is known from its first label and the others. -/
theorem eq_of_labels_eq_cons {name label : List Char} {rest : List (List Char)} (hrest : rest ≠ [])
    (hname : labels name = label :: rest) :
    ∃ suffix, name = label ++ '.' :: suffix ∧ labels suffix = rest := by
  have htext := intercalate_labels name
  rw [hname, List.intercalate_cons_of_ne_nil hrest, List.append_assoc] at htext
  refine ⟨['.'].intercalate rest, htext.symm, List.splitOn_intercalate '.' ?_ hrest⟩
  intro part hpart
  have hmem : part ∈ labels name := by simp [hname, hpart]
  exact dot_notMem_of_mem_labels hmem

/-- A pattern without `*` covers itself. -/
theorem covers_of_star_notMem (hhost : '*' ∉ host) (hpattern : '*' ∉ pattern) :
    covers pattern host = true ↔ host = pattern := by
  simp [covers, hhost, hpattern]

/-- A pattern with `*` starts with it as a label of its own, and covers the names with one label in the
place of that. -/
theorem covers_of_star_mem (hhost : '*' ∉ host) (hpattern : '*' ∈ pattern) :
    covers pattern host = true ↔ ∃ label suffix, pattern = '*' :: '.' :: suffix ∧ '*' ∉ suffix ∧
      '.' ∈ suffix ∧ label ≠ [] ∧ '.' ∉ label ∧ host = label ++ '.' :: suffix := by
  have hhost' : host.contains '*' = false := by simp [hhost]
  have hpattern' : pattern.contains '*' = true := by simp [hpattern]
  simp only [covers, hhost', hpattern', Bool.not_true, Bool.false_eq_true, if_false]
  split
  · rename_i suffix
    rw [Bool.and_eq_true, Bool.and_eq_true, isLabelBefore_iff]
    constructor
    · rintro ⟨⟨hstar, hdot⟩, label, hlabel, hsingle, hjoined⟩
      exact ⟨label, suffix, rfl, by simpa using hstar, by simpa using hdot, hlabel, hsingle, hjoined⟩
    · rintro ⟨label, _, hsame, hstar, hdot, hlabel, hsingle, hjoined⟩
      cases hsame
      exact ⟨⟨by simpa using hstar, by simpa using hdot⟩, label, hlabel, hsingle, hjoined⟩
  · rename_i hfirst
    refine iff_of_false Bool.false_ne_true ?_
    rintro ⟨-, suffix, rfl, -⟩
    exact hfirst suffix rfl

/-- Matching by the text is matching by labels. -/
theorem covers_iff :
    covers pattern host = true ↔ '*' ∉ host ∧ Covers (labels pattern) (labels host) := by
  by_cases hhost : '*' ∈ host
  · refine iff_of_false ?_ fun h => h.1 hhost
    simp [covers, hhost]
  rw [and_iff_right hhost]
  by_cases hpattern : '*' ∈ pattern
  · rw [covers_of_star_mem hhost hpattern]
    constructor
    · rintro ⟨label, suffix, rfl, hstar, hdot, hlabel, hsingle, rfl⟩
      exact Or.inr ⟨label, labels suffix, labels_star_cons suffix, dot_mem_iff.mp hdot,
        star_notMem_iff.mp hstar, hlabel, labels_append_dot hsingle suffix⟩
    · rintro (⟨hnone, -⟩ | ⟨label, rest, hparts, hlength, hnone, hlabel, hjoined⟩)
      · exact absurd hpattern (star_notMem_iff.mpr hnone)
      have hrest : rest ≠ [] := List.ne_nil_of_length_pos (by omega)
      obtain ⟨suffix, rfl, rfl⟩ := eq_of_labels_eq_cons hrest hparts
      obtain ⟨same, rfl, hsame⟩ := eq_of_labels_eq_cons hrest hjoined
      cases labels_injective hsame
      have hsingle : '.' ∉ label := dot_notMem_of_mem_labels (hjoined ▸ List.mem_cons_self)
      exact ⟨label, suffix, rfl, star_notMem_iff.mpr hnone, dot_mem_iff.mpr hlength, hlabel, hsingle,
        rfl⟩
  · rw [covers_of_star_notMem hhost hpattern]
    constructor
    · rintro rfl
      exact Or.inl ⟨star_notMem_iff.mp hpattern, rfl⟩
    · rintro (⟨-, hsame⟩ | ⟨label, rest, hparts, -⟩)
      · exact labels_injective hsame
      · have hnot := star_notMem_iff.mp hpattern ['*'] (by simp [hparts])
        simp at hnot

/-- Both names have to be orderly. -/
theorem matchesPattern_iff {host pattern : String} : matchesPattern host pattern = true ↔
    IsOrderly (plain host) ∧ IsOrderly (plain pattern) ∧
      covers (plain pattern) (plain host) = true := by
  have hmatches : matchesPattern host pattern = true ↔ ∃ first second,
      normalize? host.toList = some first ∧ normalize? pattern.toList = some second ∧
        covers second first = true := by
    unfold matchesPattern
    cases normalize? host.toList <;> cases normalize? pattern.toList <;> simp
  rw [hmatches]
  simp only [normalize?_eq_some]
  constructor
  · rintro ⟨_, _, ⟨hhost, rfl⟩, ⟨hpattern, rfl⟩, hcovers⟩
    exact ⟨hhost, hpattern, hcovers⟩
  · rintro ⟨hhost, hpattern, hcovers⟩
    exact ⟨_, _, ⟨hhost, rfl⟩, ⟨hpattern, rfl⟩, hcovers⟩

end

/-- **Matching.** A name matches a pattern exactly if both are orderly, there is no `*` in the name,
and the labels of the pattern cover those of the name. -/
theorem matchesPattern_iff_labels (host pattern : String) :
    matchesPattern host pattern = true ↔
      IsOrderly (plain host) ∧ IsOrderly (plain pattern) ∧ '*' ∉ plain host ∧
        Covers (labels (plain pattern)) (labels (plain host)) := by
  rw [matchesPattern_iff, covers_iff]

section
variable {name : List Char}

/-- The last label of a name is empty where the name ends in a dot. -/
theorem getLast?_labels_iff (hname : name ≠ []) :
    (labels name).getLast? = some [] ↔ ['.'] <:+ name := by
  induction name with
  | nil => exact absurd rfl hname
  | cons c rest ih =>
    by_cases hrest : rest = []
    · subst hrest
      by_cases hc : c = '.'
      · simp [hc]
      · obtain ⟨first, others, hnil, hcons⟩ := labels_cons hc []
        rw [labels_nil, List.cons.injEq] at hnil
        simp [hcons, ← hnil.1, ← hnil.2, List.suffix_cons_iff, Ne.symm hc]
    · have hsuffix : ['.'] <:+ c :: rest ↔ ['.'] <:+ rest := by
        rw [List.suffix_cons_iff, or_iff_right]
        intro hsame
        exact hrest (List.cons.inj hsame).2.symm
      rw [hsuffix, ← ih hrest]
      by_cases hc : c = '.'
      · subst hc
        obtain ⟨first, others, hlabels⟩ := List.exists_cons_of_ne_nil (labels_ne_nil rest)
        simp [hlabels]
      · obtain ⟨first, others, hlabels, hcons⟩ := labels_cons hc rest
        cases others with
        | nil =>
          have hfirst : first = rest := by
            rw [← intercalate_labels rest, hlabels, List.intercalate_singleton]
          simp [hcons, hlabels, hfirst, hrest]
        | cons second others => simp [hcons, hlabels]

/-- Of an orderly name only the last label can be empty. -/
theorem forall_labels_ne_nil_iff (horderly : IsOrderly name) :
    (∀ label ∈ labels name, label ≠ []) ↔ ¬ ['.'] <:+ name := by
  obtain ⟨hname, hdropLast⟩ := isOrderly_iff.mp horderly
  rw [← getLast?_labels_iff hname]
  constructor
  · intro hall hlast
    exact hall [] (List.mem_of_getLast? hlast) rfl
  · rintro hlast label hmem rfl
    have hsplit := List.dropLast_append_getLast (labels_ne_nil name)
    rw [← hsplit, List.mem_append, List.mem_singleton] at hmem
    rcases hmem with hmem | hmem
    · exact hdropLast [] hmem rfl
    · exact hlast (by rw [List.getLast?_eq_getLast_of_ne_nil (labels_ne_nil name), ← hmem])

theorem dropDot_concat (name : List Char) : dropDot (name ++ ['.']) = name := by
  simp [dropDot]

theorem dropDot_of_not_suffix (hdot : ¬ ['.'] <:+ name) : dropDot name = name := by
  have hlast : ¬ name.getLast? = some '.' := by
    rw [List.getLast?_eq_some_iff]
    rintro ⟨before, rfl⟩
    exact hdot (List.suffix_append ..)
  rw [dropDot, if_neg hlast]

theorem mem_dropDot {c : Char} (hc : c ≠ '.') : c ∈ dropDot name ↔ c ∈ name := by
  by_cases hdot : ['.'] <:+ name
  · obtain ⟨before, rfl⟩ := hdot
    simp [dropDot_concat, hc]
  · rw [dropDot_of_not_suffix hdot]

/-- One of two trailing dots is left. -/
theorem dot_suffix_dropDot_iff : ['.'] <:+ dropDot name ↔ ['.', '.'] <:+ name := by
  by_cases hdot : ['.'] <:+ name
  · obtain ⟨before, rfl⟩ := hdot
    rw [dropDot_concat]
    constructor
    · rintro ⟨front, rfl⟩
      exact ⟨front, by simp⟩
    · rintro ⟨front, hfront⟩
      refine ⟨front, ?_⟩
      have : (front ++ ['.']) ++ ['.'] = before ++ ['.'] := by simpa using hfront
      exact List.append_cancel_right this
  · rw [dropDot_of_not_suffix hdot]
    refine iff_of_false hdot fun h => hdot ?_
    obtain ⟨front, rfl⟩ := h
    exact ⟨front ++ ['.'], by simp⟩

end

/-- A sequence of labels with a dot between any two, none of which is empty. -/
def IsProper (name : List Char) : Prop := ∀ label ∈ labels name, label ≠ []

instance (name : List Char) : Decidable (IsProper name) :=
  inferInstanceAs (Decidable (∀ label ∈ labels name, label ≠ []))

section
variable {host pattern : String}

/-- A name that is orderly without its trailing dot has no empty label unless it ends in two dots. -/
theorem isProper_plain_iff (horderly : IsOrderly (plain host)) :
    IsProper (dropDot host.toList) ↔ ¬ ['.', '.'] <:+ host.toList := by
  rw [← dot_suffix_dropDot_iff]
  exact forall_labels_ne_nil_iff (isOrderly_map_toLower.mp horderly)

/-- A name ends as the pattern that covers it does. -/
theorem getLast?_eq_of_covers {pattern host : List (List Char)} (hcovers : Covers pattern host) :
    host.getLast? = pattern.getLast? := by
  rcases hcovers with ⟨-, rfl⟩ | ⟨label, rest, rfl, hlength, -, -, rfl⟩
  · rfl
  · cases rest with
    | nil => simp at hlength
    | cons first rest => simp

/-- A name and a pattern that match both end in two dots, or neither does. -/
theorem dots_suffix_iff_of_match (hmatch : matchesPattern host pattern = true) :
    ['.', '.'] <:+ host.toList ↔ ['.', '.'] <:+ pattern.toList := by
  obtain ⟨hhost, hpattern, hcovers⟩ := matchesPattern_iff.mp hmatch
  have hends {name : String} (horderly : IsOrderly (plain name)) :
      (labels (plain name)).getLast? = some [] ↔ ['.', '.'] <:+ name.toList := by
    have hdropped := isOrderly_map_toLower.mp horderly
    rw [← dot_suffix_dropDot_iff, ← getLast?_labels_iff hdropped.nonempty, plain,
      labels_map_toLower, List.getLast?_map]
    cases (labels (dropDot name.toList)).getLast? <;> simp
  rw [← hends hhost, ← hends hpattern, getLast?_eq_of_covers (covers_iff.mp hcovers).2]

/-- A pattern with `*` that matches has it as its first label, and at least two labels behind it. -/
theorem labels_of_wildcard_match (hmatch : matchesPattern host pattern = true)
    (hstar : '*' ∈ pattern.toList) :
    ∃ rest, labels (dropDot pattern.toList) = ['*'] :: rest ∧ 2 ≤ rest.length := by
  obtain ⟨-, -, hcovers⟩ := matchesPattern_iff.mp hmatch
  have hlower {c : Char} : c.toLower = '*' ↔ c = '*' := toLower_eq_iff rfl
  have hmem : '*' ∈ plain pattern := by
    rw [← mem_dropDot (by decide)] at hstar
    exact List.mem_map.mpr ⟨'*', hstar, rfl⟩
  rcases (covers_iff.mp hcovers).2 with ⟨hnone, -⟩ | ⟨label, rest, hparts, hlength, -⟩
  · exact absurd hmem (star_notMem_iff.mpr hnone)
  · rw [plain, labels_map_toLower] at hparts
    obtain ⟨first, others, hlabels, hfirst, rfl⟩ := List.map_eq_cons_iff.mp hparts
    obtain ⟨c, rfl, hc⟩ := List.map_eq_singleton_iff.mp hfirst
    rw [hlower.mp hc] at hlabels
    exact ⟨others, hlabels, by simpa using hlength⟩

/-- Dots behind a label are the boundaries of empty labels. -/
theorem labels_append_dots {top : List Char} (htop : '.' ∉ top) (count : Nat) :
    labels (top ++ List.replicate count '.') = top :: List.replicate count [] := by
  have hdots (count : Nat) : labels (List.replicate count '.') = List.replicate (count + 1) [] := by
    induction count with
    | zero => rfl
    | succ count ih => rw [List.replicate_succ, labels_dot_cons, ih, ← List.replicate_succ]
  cases count with
  | zero =>
    rw [List.replicate_zero, List.append_nil]
    exact List.splitOn_eq_singleton htop
  | succ count => rw [List.replicate_succ, labels_append_dot htop, hdots]

/-- A label in front of another one, with dots at the end of which one is dropped. -/
theorem labels_dropDot_append_dots {first top : List Char} (hfirst : '.' ∉ first) (htop : '.' ∉ top)
    (hne : top ≠ []) (count : Nat) :
    labels (dropDot (first ++ '.' :: top ++ List.replicate count '.')) =
      first :: top :: List.replicate (count - 1) [] := by
  have hdropped : dropDot (first ++ '.' :: top ++ List.replicate count '.') =
      first ++ '.' :: (top ++ List.replicate (count - 1) '.') := by
    cases count with
    | zero =>
      rw [List.replicate_zero, List.append_nil, List.append_nil]
      apply dropDot_of_not_suffix
      intro hdot
      have htail : top <:+ first ++ '.' :: top := ⟨first ++ ['.'], by simp⟩
      have hinside : ['.'] <:+ top :=
        List.suffix_of_suffix_length_le hdot htail (List.length_pos_of_ne_nil hne)
      exact htop (hinside.subset (List.mem_singleton_self '.'))
    | succ count =>
      rw [List.replicate_succ', ← List.append_assoc, dropDot_concat]
      simp
  rw [hdropped, labels_append_dot hfirst, labels_append_dots htop]

/-- The pattern of one label behind `*` matches if it ends in two dots. -/
theorem exists_match_single_iff {top : List Char} (hne : top ≠ []) (hdot : '.' ∉ top)
    (hstar : '*' ∉ top) (count : Nat) :
    (∃ host, matchesPattern host
      (String.ofList (['*'] ++ '.' :: top ++ List.replicate count '.')) = true) ↔ count = 2 := by
  have hlabels := @labels_dropDot_append_dots ['*'] top (by decide) hdot hne count
  constructor
  · rintro ⟨host, hmatch⟩
    have hpattern := isOrderly_map_toLower.mp (matchesPattern_iff.mp hmatch).2.1
    obtain ⟨rest, hrest, hlength⟩ := labels_of_wildcard_match hmatch (by simp)
    rw [String.toList_ofList] at hpattern hrest
    -- At least one empty label counts, and a second one would stand side by side with it.
    have hatLeast : 2 ≤ count := by
      rw [hlabels, List.cons.injEq] at hrest
      rw [← hrest.2, List.length_cons, List.length_replicate] at hlength
      omega
    have hatMost : count ≤ 2 := by
      by_contra hmore
      have hempty := (isOrderly_iff.mp hpattern).2
      rw [hlabels, show count - 1 = count - 3 + 1 + 1 by omega, List.replicate_succ'] at hempty
      exact hempty [] (by simp [List.dropLast_cons_of_ne_nil]) rfl
    omega
  · rintro rfl
    refine ⟨String.ofList (['a'] ++ '.' :: top ++ List.replicate 2 '.'), ?_⟩
    have hhost := @labels_dropDot_append_dots ['a'] top (by decide) hdot hne 2
    have horderly {text : List Char} {first : List Char} (hfirst : first ≠ [])
        (htext : labels (dropDot text) = [first, top, []]) : IsOrderly (dropDot text) := by
      refine isOrderly_iff.mpr ⟨?_, ?_⟩
      · intro hnil
        simp [hnil] at htext
      · simp [htext, hfirst, hne]
    have hlower : '*' ∉ top.map Char.toLower := by
      intro hmem
      obtain ⟨c, hc, hsame⟩ := List.mem_map.mp hmem
      exact hstar ((toLower_eq_iff (by decide)).mp hsame ▸ hc)
    rw [matchesPattern_iff, covers_iff, star_notMem_iff]
    simp only [plain, String.toList_ofList, isOrderly_map_toLower, labels_map_toLower, hlabels, hhost]
    refine ⟨horderly (List.cons_ne_nil _ _) hhost, horderly (List.cons_ne_nil _ _) hlabels, ?_, ?_⟩
    · simp [hlower]
    · exact Or.inr ⟨['a'], [top.map Char.toLower, []], rfl, Nat.le_refl 2, by simp [hlower],
        by simp, rfl⟩

/-- **Empty labels.** A name and a pattern that match, each without one trailing dot, are labels with
single dots between them, none of which is empty, exactly if the pattern does not end in two dots;
the name ends in two dots if the pattern does. A pattern with `*` that matches has at least two labels
behind it, the last of which is empty if the pattern ends in two dots. So `*` with one label behind it
matches if two dots follow, and with any other number of dots it never does. -/
theorem match_isProper_iff (host pattern : String) (top : List Char) (count : Nat) :
    (matchesPattern host pattern = true →
      (IsProper (dropDot host.toList) ∧ IsProper (dropDot pattern.toList) ↔
        ¬ ['.', '.'] <:+ pattern.toList) ∧
      (['.', '.'] <:+ host.toList ↔ ['.', '.'] <:+ pattern.toList) ∧
      ('*' ∈ pattern.toList → ∃ rest, labels (dropDot pattern.toList) = ['*'] :: rest ∧
        2 ≤ rest.length ∧ ((∀ label ∈ rest, label ≠ []) ↔ ¬ ['.', '.'] <:+ pattern.toList))) ∧
    (top ≠ [] → '.' ∉ top → '*' ∉ top →
      ((∃ host, matchesPattern host
        (String.ofList (['*'] ++ '.' :: top ++ List.replicate count '.')) = true) ↔ count = 2)) := by
  refine ⟨fun hmatch => ?_, fun hne hdot hstar => exists_match_single_iff hne hdot hstar count⟩
  obtain ⟨hhost, hpattern, -⟩ := matchesPattern_iff.mp hmatch
  have hsame := dots_suffix_iff_of_match hmatch
  refine ⟨?_, hsame, fun hstar => ?_⟩
  · rw [isProper_plain_iff hhost, isProper_plain_iff hpattern, hsame, and_self]
  · obtain ⟨rest, hlabels, hlength⟩ := labels_of_wildcard_match hmatch hstar
    refine ⟨rest, hlabels, hlength, ?_⟩
    rw [← isProper_plain_iff hpattern, IsProper, hlabels, List.forall_mem_cons]
    simp

end

/-- Neither letter case nor one trailing dot makes a label empty, and one label behind `*` with one dot
behind it is not enough. -/
theorem wildcard_match_isProper :
    matchesPattern "Api.mesh.local." "*.MESH.local" = true ∧
      IsProper (dropDot "Api.mesh.local.".toList) ∧ IsProper (dropDot "*.MESH.local".toList) ∧
      (∃ rest, labels (dropDot "*.MESH.local".toList) = ['*'] :: rest ∧ 2 ≤ rest.length) ∧
      ¬ ∃ host, matchesPattern host "*.com." = true := by
  have hmatch : matchesPattern "Api.mesh.local." "*.MESH.local" = true := by decide
  have hdots : ¬ ['.', '.'] <:+ "*.MESH.local".toList := by decide
  obtain ⟨hmatched, hsingle⟩ :=
    match_isProper_iff "Api.mesh.local." "*.MESH.local" ['c', 'o', 'm'] 1
  obtain ⟨hproper, -, hwildcard⟩ := hmatched hmatch
  obtain ⟨rest, hlabels, hlength, -⟩ := hwildcard (by decide)
  refine ⟨hmatch, (hproper.mpr hdots).1, (hproper.mpr hdots).2, ⟨rest, hlabels, hlength⟩, ?_⟩
  intro hother
  cases (hsingle (List.cons_ne_nil _ _) (by decide) (by decide)).mp hother

/-- Two dots at the end of both leave an empty label that makes up for a missing one. -/
theorem improper_match : matchesPattern "a.com.." "*.com.." = true ∧
    ¬ IsProper (dropDot "a.com..".toList) ∧ ¬ IsProper (dropDot "*.com..".toList) := by
  decide

end PeerTrust.Hostname
