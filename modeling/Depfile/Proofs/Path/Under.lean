import Depfile.Path.Absolute

/-!
# The directories above a path

`isUnder path dir` compares characters and then looks at the boundary. Its one property that all
others rest on is `isUnder_iff`: the path is the directory followed by a remainder, and one of the
two sides of the seam is a separator or there is nothing after it.
-/

namespace Depfile.Path

variable {path dir mid rest : Text}

/-- Between `dir` and the text after it one component ends. -/
def AtBoundary (dir rest : Text) : Prop :=
  dir.getLast? = some '/' ∨ rest = [] ∨ ∃ tail, rest = '/' :: tail

theorem isUnder_iff :
    isUnder path dir = true ↔ dir ≠ [] ∧ ∃ rest, path = dir ++ rest ∧ AtBoundary dir rest := by
  constructor
  · intro h
    simp only [isUnder, Bool.and_eq_true, Bool.not_eq_true', List.isEmpty_eq_false_iff,
      List.isPrefixOf_iff_prefix, Bool.or_eq_true, beq_iff_eq] at h
    rcases h with ⟨⟨⟨_, hdir⟩, rest, rfl⟩, hseam⟩
    refine ⟨hdir, rest, rfl, ?_⟩
    -- The test asks for the first character of the remainder, if there is any.
    rcases hseam with hseam | hseam
    · exact Or.inl hseam
    · cases rest with
      | nil => exact Or.inr (Or.inl rfl)
      | cons c rest =>
        have hc : c = '/' := by simpa using hseam
        exact Or.inr (Or.inr ⟨rest, by simp [hc]⟩)
  · rintro ⟨hdir, rest, rfl, hseam⟩
    have hboundary : dir.getLast? = some '/' ∨ rest.head?.all (· == '/') = true := by
      rcases hseam with hseam | rfl | ⟨tail, rfl⟩ <;> simp [*]
    simpa [isUnder, hdir] using hboundary

theorem ne_nil_of_isUnder (h : isUnder path dir = true) : path ≠ [] := by
  rcases isUnder_iff.1 h with ⟨hdir, rest, rfl, _⟩
  simp [hdir]

theorem isPrefix_of_isUnder (h : isUnder path dir = true) : dir <+: path := by
  rcases isUnder_iff.1 h with ⟨_, rest, rfl, _⟩
  exact List.prefix_append dir rest

theorem isUnder_refl (h : dir ≠ []) : isUnder dir dir = true :=
  isUnder_iff.2 ⟨h, [], by simp, Or.inr (Or.inl rfl)⟩

/-- The boundaries of a shorter and a longer directory fit together: whichever of the four forms
they have, the shorter directory's boundary is one of the path. -/
theorem isUnder_trans (hpath : isUnder path mid = true) (hmid : isUnder mid dir = true) :
    isUnder path dir = true := by
  rcases isUnder_iff.1 hpath with ⟨_, rest, rfl, hrest⟩
  rcases isUnder_iff.1 hmid with ⟨hdir, between, rfl, hbetween⟩
  refine isUnder_iff.2 ⟨hdir, between ++ rest, by simp, ?_⟩
  -- Only where nothing is between the two directories does the boundary of the longer one matter.
  rcases hbetween with hslash | rfl | ⟨tail, rfl⟩
  · exact Or.inl hslash
  · simpa using hrest
  · exact Or.inr (Or.inr ⟨tail ++ rest, by simp⟩)

theorem isUnder_append_slash (hdir : dir ≠ []) (rest : Text) :
    isUnder (dir ++ '/' :: rest) dir = true :=
  isUnder_iff.2 ⟨hdir, '/' :: rest, rfl, Or.inr (Or.inr ⟨rest, rfl⟩)⟩

theorem isAbsolute_iff : isAbsolute path = true ↔ ∃ rest, path = '/' :: rest := by
  constructor
  · intro h
    unfold isAbsolute at h
    split at h
    · exact ⟨_, rfl⟩
    · cases h
  · rintro ⟨rest, rfl⟩
    rfl

theorem isAbsolute_append_of_ne_nil {front : Text} (hfront : front ≠ []) (back : Text) :
    isAbsolute (front ++ back) = isAbsolute front := by
  rcases List.exists_cons_of_ne_nil hfront with ⟨c, front, rfl⟩
  by_cases hc : c = '/' <;> simp [isAbsolute, hc]

/-- A path goes on from the first character of every directory above it. -/
theorem isAbsolute_eq_of_isUnder (h : isUnder path dir = true) :
    isAbsolute path = isAbsolute dir := by
  rcases isUnder_iff.1 h with ⟨hdir, rest, rfl, _⟩
  exact isAbsolute_append_of_ne_nil hdir rest

theorem isAbsolute_of_isUnder (hdir : isAbsolute dir = true) (h : isUnder path dir = true) :
    isAbsolute path = true :=
  (isAbsolute_eq_of_isUnder h).trans hdir

/-- Under an absolute directory there is nothing that is not absolute. -/
theorem isUnder_of_not_isAbsolute (hdir : isAbsolute dir = true)
    (hpath : isAbsolute path = false) : isUnder path dir = false := by
  refine Bool.eq_false_iff.2 (fun hunder => ?_)
  exact Bool.false_ne_true (hpath.symm.trans (isAbsolute_of_isUnder hdir hunder))

theorem isAbsolute_append_eq_false {front back : Text} (hfront : isAbsolute front = false)
    (hback : isAbsolute back = false) : isAbsolute (front ++ back) = false := by
  by_cases hnil : front = []
  · rwa [hnil]
  · rwa [isAbsolute_append_of_ne_nil hnil]

theorem isAbsolute_of_notMem (h : '/' ∉ path) : isAbsolute path = false := by
  refine Bool.eq_false_iff.2 (fun habs => ?_)
  rcases isAbsolute_iff.1 habs with ⟨rest, rfl⟩
  exact h (by simp)

theorem isAbsolute_of_isPrefix {start : Text} (h : start <+: path)
    (hpath : isAbsolute path = false) : isAbsolute start = false := by
  apply Bool.eq_false_iff.2
  intro habs
  rcases h with ⟨rest, rfl⟩
  rw [isAbsolute_append habs rest] at hpath
  cases hpath

theorem head?_ne_of_isAbsolute_eq_false (h : isAbsolute path = false) :
    path.head? ≠ some '/' := by
  intro hhead
  rcases List.head?_eq_some_iff.1 hhead with ⟨rest, rfl⟩
  cases h

theorem ne_nil_of_isAbsolute (h : isAbsolute path = true) : path ≠ [] := by
  rintro rfl
  cases h

end Depfile.Path
