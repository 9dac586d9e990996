import Depfile.Path.Basic

/-!
# Components

Cutting a path at its separators (`components`) and writing components with separators between
them (`join`) undo each other, as far as they can: repeated separators and those at the ends are
lost by cutting, and joining never writes them.
-/

namespace Depfile.Path

/-! ## Segments and components -/

/-- A component that can stand between two separators. -/
structure IsComponent (component : Text) : Prop where
  ne_nil : component ≠ []
  no_slash : '/' ∉ component

theorem segments_ne_nil (path : Text) : segments path ≠ [] := by
  cases path with
  | nil => simp [segments]
  | cons c path =>
    simp only [segments, List.foldr_cons, consSegment]
    split
    · simp
    · split <;> simp

theorem consSegment_append {c : Char} {front : List Text} (hfront : front ≠ []) (back : List Text) :
    consSegment c (front ++ back) = consSegment c front ++ back := by
  rcases List.exists_cons_of_ne_nil hfront with ⟨segment, rest, rfl⟩
  by_cases hc : c = '/' <;> simp [consSegment, hc]

theorem segments_append_slash (front back : Text) :
    segments (front ++ '/' :: back) = segments front ++ segments back := by
  induction front with
  | nil => simp [segments, consSegment]
  | cons c front ih =>
    have hcons := consSegment_append (c := c) (segments_ne_nil front) (segments back)
    simpa [segments, ih] using (congrArg (consSegment c) ih).trans hcons

theorem segments_of_no_slash {segment : Text} (h : '/' ∉ segment) :
    segments segment = [segment] := by
  induction segment with
  | nil => rfl
  | cons c segment ih =>
    simp only [List.mem_cons, not_or] at h
    have ih := ih h.2
    simp only [segments] at ih
    simp [segments, ih, consSegment, Ne.symm h.1]

/-- A segment of a longer path is new and empty, an old one, or an old one made longer. -/
theorem mem_segments_cons {c : Char} {path segment : Text} (h : segment ∈ segments (c :: path)) :
    segment = [] ∨ segment ∈ segments path ∨
      (c ≠ '/' ∧ ∃ tail ∈ segments path, segment = c :: tail) := by
  have hcons : segments (c :: path) = consSegment c (segments path) := rfl
  rcases List.exists_cons_of_ne_nil (segments_ne_nil path) with ⟨first, rest, heq⟩
  rw [hcons, heq] at h
  rw [heq]
  -- A separator opens a segment, and any other character joins the first one.
  by_cases hc : c = '/'
  · have h : segment = [] ∨ segment ∈ first :: rest := by
      simpa [consSegment, hc] using h
    rcases h with h | h
    · exact Or.inl h
    · exact Or.inr (Or.inl h)
  · have h : segment = c :: first ∨ segment ∈ rest := by
      simpa [consSegment, hc] using h
    rcases h with h | h
    · exact Or.inr (Or.inr ⟨hc, first, by simp, h⟩)
    · exact Or.inr (Or.inl (by simp [h]))

theorem slash_notMem_of_mem_segments {path segment : Text} (h : segment ∈ segments path) :
    '/' ∉ segment := by
  induction path generalizing segment with
  | nil =>
    have hnil : segment = [] := by simpa [segments] using h
    simp [hnil]
  | cons c path ih =>
    rcases mem_segments_cons h with rfl | h | ⟨hc, tail, htail, rfl⟩
    · simp
    · exact ih h
    · simp [Ne.symm hc, ih htail]

theorem mem_of_mem_segments {path segment : Text} {c : Char} (h : segment ∈ segments path)
    (hc : c ∈ segment) : c ∈ path := by
  induction path generalizing segment with
  | nil =>
    have hnil : segment = [] := by simpa [segments] using h
    simp [hnil] at hc
  | cons d path ih =>
    rcases mem_segments_cons h with rfl | h | ⟨hd, tail, htail, rfl⟩
    · simp at hc
    · exact List.mem_cons_of_mem d (ih h hc)
    · rcases List.mem_cons.1 hc with rfl | hc
      · simp
      · exact List.mem_cons_of_mem d (ih htail hc)

@[simp]
theorem components_nil : components [] = [] := rfl

theorem components_append_slash (front back : Text) :
    components (front ++ '/' :: back) = components front ++ components back := by
  simp [components, segments_append_slash]

@[simp]
theorem components_slash (path : Text) : components ('/' :: path) = components path := by
  simpa using components_append_slash [] path

theorem components_of_isComponent {component : Text} (h : IsComponent component) :
    components component = [component] := by
  simp [components, segments_of_no_slash h.no_slash, h.ne_nil]

theorem isComponent_of_mem {path component : Text} (h : component ∈ components path) :
    IsComponent component := by
  simp only [components, List.mem_filter, Bool.not_eq_true', List.isEmpty_eq_false_iff] at h
  exact ⟨h.2, slash_notMem_of_mem_segments h.1⟩

/-- A character of a component is a character of the path. -/
theorem mem_of_mem_component {path component : Text} {c : Char}
    (h : component ∈ components path) (hc : c ∈ component) : c ∈ path :=
  mem_of_mem_segments (List.mem_filter.1 h).1 hc

/-! ## Joining -/

theorem join_cons_cons (first second : Text) (rest : List Text) :
    join (first :: second :: rest) = first ++ '/' :: join (second :: rest) := rfl

/-- In front of at least one more component a separator is written. -/
theorem join_cons_append (first : Text) (names : List Text) (last : Text) :
    join (first :: (names ++ [last])) = first ++ '/' :: join (names ++ [last]) := by
  cases names <;> rfl

/-- Cutting undoes joining. -/
theorem components_join {names : List Text} (h : ∀ name ∈ names, IsComponent name) :
    components (join names) = names := by
  induction names with
  | nil => rfl
  | cons first rest ih =>
    have hfirst : components first = [first] := components_of_isComponent (h first (by simp))
    cases rest with
    | nil => simpa [join] using hfirst
    | cons second rest =>
      -- The separator that joining writes is the one that cutting finds.
      have hrest := ih (fun name hname => h name (by simp [hname]))
      simp [join_cons_cons, components_append_slash, hfirst, hrest]

theorem join_append {front back : List Text} (hfront : front ≠ []) (hback : back ≠ []) :
    join (front ++ back) = join front ++ '/' :: join back := by
  induction front with
  | nil => exact absurd rfl hfront
  | cons first rest ih =>
    cases rest with
    | nil =>
      rcases List.exists_cons_of_ne_nil hback with ⟨second, others, rfl⟩
      rfl
    | cons second rest =>
      have hrest := ih (by simp)
      simp only [List.cons_append, join_cons_cons] at hrest ⊢
      simp [hrest]

theorem join_append_name (names : List Text) (name suffix : Text) :
    join (names ++ [name ++ suffix]) = join (names ++ [name]) ++ suffix := by
  induction names with
  | nil => rfl
  | cons first rest ih =>
    cases rest with
    | nil => simp [join]
    | cons second rest =>
      simp only [List.cons_append, join_cons_cons] at ih ⊢
      simp [ih]

/-- Joining never writes a separator at the end. -/
theorem getLast?_join_ne (names : List Text) {name : Text} (hname : IsComponent name) :
    (join (names ++ [name])).getLast? ≠ some '/' := by
  have hjoin : join (names ++ [name]) = join (names ++ [[]]) ++ name := join_append_name names [] name
  intro hslash
  cases hlast : name.getLast? with
  | none => exact hname.ne_nil (List.getLast?_eq_none_iff.1 hlast)
  | some c =>
    have hc : c = '/' := by simpa [hjoin, List.getLast?_append, hlast] using hslash
    exact hname.no_slash (hc ▸ List.mem_of_getLast? hlast)

theorem join_ne_nil {names : List Text} (hnames : names ≠ [])
    (h : ∀ name ∈ names, IsComponent name) : join names ≠ [] := by
  intro hjoin
  have hcomponents := components_join h
  rw [hjoin] at hcomponents
  exact hnames hcomponents.symm

theorem mem_join {names : List Text} {c : Char} (h : c ∈ join names) :
    c = '/' ∨ ∃ name ∈ names, c ∈ name := by
  induction names with
  | nil => simp [join] at h
  | cons first rest ih =>
    cases rest with
    | nil => exact Or.inr ⟨first, by simp, by simpa [join] using h⟩
    | cons second rest =>
      simp only [join_cons_cons, List.mem_append, List.mem_cons] at h
      rcases h with h | h | h
      · exact Or.inr ⟨first, by simp, h⟩
      · exact Or.inl h
      · rcases ih h with h | ⟨name, hname, hc⟩
        · exact Or.inl h
        · exact Or.inr ⟨name, by simp [hname], hc⟩

/-- What is joined from components starts with the first of them, so it is never absolute. -/
theorem isAbsolute_join {names : List Text} (h : ∀ name ∈ names, IsComponent name) :
    isAbsolute (join names) = false := by
  cases names with
  | nil => rfl
  | cons first rest =>
    have hfirst := h first (by simp)
    rcases List.exists_cons_of_ne_nil hfirst.ne_nil with ⟨c, name, rfl⟩
    have hc : c ≠ '/' := by
      intro hc
      exact hfirst.no_slash (by simp [hc])
    cases rest <;> simp [join, isAbsolute, hc]

end Depfile.Path
