import Mathlib.Data.List.Forall2

/-!
# Computations that can fail

How two steps one after the other succeed or fail, and a step that is taken for each element of a
list.
-/

/-- A list is related to another one if each of its elements is related to something. -/
theorem List.exists_forall₂_iff {α β : Type} {relation : α → β → Prop} {elements : List α} :
    (∃ values, List.Forall₂ relation elements values) ↔
      ∀ element ∈ elements, ∃ value, relation element value := by
  induction elements with
  | nil => exact iff_of_true ⟨[], .nil⟩ (List.forall_mem_nil _)
  | cons element rest ih =>
    rw [List.forall_mem_cons, ← ih]
    constructor
    · rintro ⟨values, hvalues⟩
      cases hvalues with
      | cons hfirst hothers => exact ⟨⟨_, hfirst⟩, _, hothers⟩
    · rintro ⟨⟨value, hfirst⟩, others, hothers⟩
      exact ⟨value :: others, .cons hfirst hothers⟩

/-- Two steps find what two others find if each of them does. -/
theorem Option.bind_imp {α β : Type} {first second : Option α} {next later : α → Option β}
    (hfirst : ∀ value, first = some value → second = some value)
    (hnext : ∀ value result, next value = some result → later value = some result) {result : β}
    (h : first.bind next = some result) : second.bind later = some result := by
  obtain ⟨value, hvalue, hresult⟩ := Option.bind_eq_some_iff.mp h
  exact Option.bind_eq_some_iff.mpr ⟨value, hfirst value hvalue, hnext value result hresult⟩

namespace Except

section
variable {α β ε : Type}

/-- Two steps succeed together if each of them does. -/
theorem bind_eq_ok {first : Except ε α} {next : α → Except ε β} {result : β} :
    first >>= next = .ok result ↔ ∃ value, first = .ok value ∧ next value = .ok result := by
  cases first with
  | error error => exact iff_of_false nofun fun ⟨value, hfirst, _⟩ => nomatch hfirst
  | ok value =>
    constructor
    · exact fun h => ⟨value, rfl, h⟩
    · rintro ⟨value, hfirst, h⟩
      cases hfirst
      exact h

/-- Two steps fail together if the first does, or the second after the first. -/
theorem bind_eq_error {first : Except ε α} {next : α → Except ε β} {error : ε} :
    first >>= next = .error error ↔
      first = .error error ∨ ∃ value, first = .ok value ∧ next value = .error error := by
  cases first with
  | error other =>
    constructor
    · intro h
      cases h
      exact Or.inl rfl
    · rintro (h | ⟨value, hfirst, -⟩)
      · cases h
        rfl
      · cases hfirst
  | ok value =>
    constructor
    · exact fun h => Or.inr ⟨value, rfl, h⟩
    · rintro (h | ⟨value, hfirst, h⟩)
      · cases h
      · cases hfirst
        exact h

theorem toOption_eq_some {result : Except ε α} {value : α} :
    result.toOption = some value ↔ result = .ok value := by
  cases result with
  | error error => exact iff_of_false nofun nofun
  | ok other =>
    constructor
    · intro h
      cases h
      rfl
    · intro h
      cases h
      rfl

theorem mapError_eq_ok {other : Type} {result : Except ε α} {change : ε → other} {value : α} :
    result.mapError change = .ok value ↔ result = .ok value := by
  cases result with
  | error error => exact iff_of_false nofun nofun
  | ok value =>
    constructor
    · intro h
      cases h
      rfl
    · intro h
      cases h
      rfl

theorem mapError_eq_error {other : Type} {result : Except ε α} {change : ε → other}
    {error : other} : result.mapError change = .error error ↔
      ∃ inner, result = .error inner ∧ change inner = error := by
  cases result with
  | error inner =>
    constructor
    · intro h
      cases h
      exact ⟨inner, rfl, rfl⟩
    · rintro ⟨inner, h, rfl⟩
      cases h
      rfl
  | ok value => exact iff_of_false nofun fun ⟨_, h, _⟩ => nomatch h

variable {action : α → Except ε β} {elements : List α}

/-- A step for each element succeeds with the values of all elements. -/
theorem mapM_eq_ok {values : List β} : elements.mapM action = .ok values ↔
    List.Forall₂ (fun element value => action element = .ok value) elements values := by
  induction elements generalizing values with
  | nil =>
    rw [List.mapM_nil, List.forall₂_nil_left_iff]
    exact ⟨fun h => by cases h; rfl, fun h => by rw [h]; rfl⟩
  | cons element rest ih =>
    rw [List.mapM_cons, List.forall₂_cons_left_iff, bind_eq_ok]
    constructor
    · rintro ⟨first, hfirst, h⟩
      obtain ⟨others, hothers, hvalues⟩ := bind_eq_ok.mp h
      cases hvalues
      exact ⟨first, others, hfirst, ih.mp hothers, rfl⟩
    · rintro ⟨first, others, hfirst, hothers, rfl⟩
      exact ⟨first, hfirst, bind_eq_ok.mpr ⟨others, ih.mpr hothers, rfl⟩⟩

/-- Two steps for each element succeed one after the other if they do so for each element. -/
theorem mapM_mapM_eq_ok {γ : Type} {next : β → Except ε γ} {values : List γ} :
    (∃ middle, elements.mapM action = .ok middle ∧ middle.mapM next = .ok values) ↔
      List.Forall₂ (fun element value => ∃ between, action element = .ok between ∧
        next between = .ok value) elements values := by
  simp only [mapM_eq_ok]
  constructor
  · rintro ⟨middle, hfirst, hsecond⟩
    induction hfirst generalizing values with
    | nil =>
      cases hsecond
      exact .nil
    | cons hhead htail ih =>
      cases hsecond with
      | cons hvalue hvalues => exact .cons ⟨_, hhead, hvalue⟩ (ih hvalues)
  · intro h
    induction h with
    | nil => exact ⟨[], .nil, .nil⟩
    | cons hhead htail ih =>
      obtain ⟨between, hfirst, hsecond⟩ := hhead
      obtain ⟨middle, hmiddle, hvalues⟩ := ih
      exact ⟨between :: middle, .cons hfirst hmiddle, .cons hsecond hvalues⟩

/-- A step for each element fails at the first element that it fails for. -/
theorem mapM_eq_error {error : ε} : elements.mapM action = .error error ↔
    ∃ earlier failing later, elements = earlier ++ failing :: later ∧
      (∀ element ∈ earlier, ∃ value, action element = .ok value) ∧
      action failing = .error error := by
  induction elements with
  | nil =>
    refine iff_of_false nofun ?_
    rintro ⟨earlier, failing, later, hsplit, -⟩
    cases earlier <;> cases hsplit
  | cons element rest ih =>
    rw [List.mapM_cons, bind_eq_error]
    constructor
    · rintro (hfirst | ⟨first, hfirst, h⟩)
      · exact ⟨[], element, rest, rfl, List.forall_mem_nil _, hfirst⟩
      rcases bind_eq_error.mp h with hothers | ⟨others, -, h⟩
      · obtain ⟨earlier, failing, later, rfl, hearlier, hfailing⟩ := ih.mp hothers
        exact ⟨element :: earlier, failing, later, rfl,
          List.forall_mem_cons.mpr ⟨⟨first, hfirst⟩, hearlier⟩, hfailing⟩
      · cases h
    · rintro ⟨earlier, failing, later, hsplit, hearlier, hfailing⟩
      cases earlier with
      | nil =>
        cases hsplit
        exact Or.inl hfailing
      | cons first others =>
        cases hsplit
        obtain ⟨⟨value, hfirst⟩, hothers⟩ := List.forall_mem_cons.mp hearlier
        have hrest := ih.mpr ⟨others, failing, later, rfl, hothers, hfailing⟩
        exact Or.inr ⟨value, hfirst, bind_eq_error.mpr (Or.inl hrest)⟩

/-- A step for each element fails at one of them. -/
theorem exists_of_mapM_eq_error {error : ε} (h : elements.mapM action = .error error) :
    ∃ element ∈ elements, action element = .error error := by
  obtain ⟨earlier, failing, later, rfl, -, hfailing⟩ := mapM_eq_error.mp h
  exact ⟨failing, List.mem_append_right _ List.mem_cons_self, hfailing⟩

end

end Except
