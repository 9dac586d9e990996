import Depfile.Proofs.Path.Way

/-!
# Files in the base directory

A scope makes those absolute paths relative whose text goes on from the text of the base directory.
That is a test of text and not of files. A path can begin with the base directory and climb out of
it again: it is made relative although its file is elsewhere. And a file in the base directory can be
named in another spelling: that path is kept (`relativize_misjudges`). Apart from this the test is
right. A path that does not climb out of the base directory lies in it, and where both are written
straight, exactly the paths in the base directory change (`relativize_ne_self_iff`).
-/

namespace Depfile

namespace Path

variable {path dir rest : Text}

/-! ## Files in a directory -/

/-- The file that an absolute path names is the directory or lies in it, however deep. -/
def LiesIn (path dir : Text) : Prop :=
  components (normalize dir) <+: components (normalize path)

instance (path dir : Text) : Decidable (LiesIn path dir) :=
  inferInstanceAs (Decidable (_ <+: _))

theorem liesIn_iff (hpath : isAbsolute path = true) (hdir : isAbsolute dir = true) :
    LiesIn path dir ↔ resolve (components dir) <+: resolve (components path) := by
  rw [LiesIn, components_normalize hpath, components_normalize hdir]

/-! ## Paths that begin with a directory -/

/-- No component reaches over a boundary. -/
theorem components_append_of_atBoundary (h : AtBoundary dir rest) :
    components (dir ++ rest) = components dir ++ components rest := by
  rcases h with hslash | rfl | ⟨tail, rfl⟩
  · rcases List.getLast?_eq_some_iff.1 hslash with ⟨front, rfl⟩
    have hfront : components (front ++ ['/']) = components front := by
      simpa using components_append_slash front []
    calc
      components (front ++ ['/'] ++ rest) = components (front ++ '/' :: rest) := by simp
      _ = components (front ++ ['/']) ++ components rest := by
        rw [components_append_slash, hfront]
  · simp
  · rw [components_append_slash, components_slash]

/-- The components of a directory above a path are the first components of the path. -/
theorem components_isPrefix_of_isUnder (h : isUnder path dir = true) :
    components dir <+: components path := by
  rcases isUnder_iff.1 h with ⟨_, rest, rfl, hseam⟩
  exact ⟨components rest, (components_append_of_atBoundary hseam).symm⟩

/-- Behind the directory the path goes on without leaving it. -/
theorem liesIn_append (hdir : isAbsolute dir = true) (hseam : AtBoundary dir rest)
    (hrest : staysBelow 0 (components rest) = true) : LiesIn (dir ++ rest) dir := by
  rw [liesIn_iff (isAbsolute_append hdir rest) hdir, components_append_of_atBoundary hseam,
    resolve_append_of_staysBelow _ hrest]
  exact List.prefix_append _ _

/-! ## Straight paths -/

/-- A path in which there is nothing to normalize, but for a separator at its end. -/
def IsStraight (path : Text) : Prop :=
  path = normalize path ∨ path = normalize path ++ ['/']

instance (path : Text) : Decidable (IsStraight path) :=
  inferInstanceAs (Decidable (_ ∨ _))

theorem IsStraight.isName_of_mem {name : Text} (h : IsStraight path)
    (hpath : isAbsolute path = true) (hname : name ∈ components path) : IsName name := by
  have hcomponents : components path = resolve (components path) := by
    have hnormal := components_normalize hpath
    rcases h with heq | heq
    · rwa [← heq] at hnormal
    · -- The separator at the end makes no component.
      have hslash := components_append_slash (normalize path) []
      rw [← heq, hnormal] at hslash
      simpa using hslash
  rw [hcomponents] at hname
  exact isName_of_mem_resolve hname

theorem staysBelow_of_isName {names : List Text} (h : ∀ name ∈ names, IsName name) (depth : Nat) :
    staysBelow depth names = true := by
  induction names generalizing depth with
  | nil => rfl
  | cons name names ih =>
    have hname := h name (by simp)
    have hrest := ih (fun other hother => h other (by simp [hother])) (depth + 1)
    simpa [staysBelow, hname.ne_here, hname.ne_parent] using hrest

/-- Between normal forms the test of text is one of names. -/
theorem isUnder_join (front back : List Text) :
    isUnder ('/' :: join (front ++ back)) ('/' :: join front) = true := by
  by_cases hfront : front = []
  · -- Everything is under the root, whose text ends with its separator.
    subst hfront
    exact isUnder_iff.2 ⟨by simp, join back, rfl, Or.inl rfl⟩
  · by_cases hback : back = []
    · subst hback
      simpa using isUnder_refl (List.cons_ne_nil '/' (join front))
    · rw [join_append hfront hback]
      exact isUnder_append_slash (List.cons_ne_nil '/' (join front)) (join back)

/-- Between normal forms the test compares lists of names. -/
theorem isUnder_normalize_iff (hpath : isAbsolute path = true) (hdir : isAbsolute dir = true) :
    isUnder (normalize path) (normalize dir) = true ↔ LiesIn path dir := by
  constructor
  · exact components_isPrefix_of_isUnder
  · intro h
    rcases (liesIn_iff hpath hdir).1 h with ⟨back, hback⟩
    have hjoin := isUnder_join (resolve (components dir)) back
    rwa [hback, ← normalize_of_isAbsolute hpath, ← normalize_of_isAbsolute hdir] at hjoin

theorem isUnder_of_liesIn (hdir : isAbsolute dir = true) (hpath : isAbsolute path = true)
    (hnormal : normalize dir = dir) (hstraight : IsStraight path) (h : LiesIn path dir) :
    isUnder path dir = true := by
  have hunder : isUnder (normalize path) dir = true := by
    simpa [hnormal] using (isUnder_normalize_iff hpath hdir).2 h
  rcases hstraight with heq | heq
  · rwa [heq]
  · have hslash : isUnder path (normalize path) = true := by
      have hne : normalize path ≠ [] := by simp [normalize_of_isAbsolute hpath]
      simpa [← heq] using isUnder_append_slash hne []
    exact isUnder_trans hslash hunder

theorem liesIn_of_isUnder (hdir : isAbsolute dir = true) (hpath : isAbsolute path = true)
    (hstraight : IsStraight path) (h : isUnder path dir = true) : LiesIn path dir := by
  rcases isUnder_iff.1 h with ⟨_, rest, rfl, hseam⟩
  refine liesIn_append hdir hseam (staysBelow_of_isName (fun name hname => ?_) 0)
  refine hstraight.isName_of_mem hpath ?_
  rw [components_append_of_atBoundary hseam]
  exact List.mem_append_right _ hname

end Path

namespace Scope

open Depfile.Path

/-- A scope changes an absolute path exactly if the path's text goes on from the base directory's.
What is changed lies in the base directory if nothing behind the directory climbs out of it. If
the base directory is in normal form and the path is written straight, it is changed exactly if it
lies in the base directory. -/
theorem relativize_ne_self_iff (base cwd path : AbsolutePath) :
    (Scope.relativize ⟨base.text, cwd⟩ path.text ≠ path.text ↔
      isUnder path.text base.text = true) ∧
    (∀ rest, path.text = base.text ++ rest → AtBoundary base.text rest →
      staysBelow 0 (components rest) = true →
      Scope.relativize ⟨base.text, cwd⟩ path.text ≠ path.text ∧ LiesIn path.text base.text) ∧
    (normalize base.text = base.text → IsStraight path.text →
      (Scope.relativize ⟨base.text, cwd⟩ path.text ≠ path.text ↔ LiesIn path.text base.text)) := by
  have hchanges : Scope.relativize ⟨base.text, cwd⟩ path.text ≠ path.text ↔
      isUnder path.text base.text = true := by
    rw [Ne, relativize_eq_self_iff path.isAbsolute, Bool.not_eq_false]
  refine ⟨hchanges, ?_, ?_⟩
  · intro rest hpath hseam hrest
    have hunder : isUnder path.text base.text = true :=
      isUnder_iff.2 ⟨ne_nil_of_isAbsolute base.isAbsolute, rest, hpath, hseam⟩
    refine ⟨hchanges.2 hunder, ?_⟩
    rw [hpath]
    exact liesIn_append base.isAbsolute hseam hrest
  · intro hnormal hstraight
    rw [hchanges]
    exact ⟨liesIn_of_isUnder base.isAbsolute path.isAbsolute hstraight,
      isUnder_of_liesIn base.isAbsolute path.isAbsolute hnormal hstraight⟩

/-- A path that climbs, but not out of the base directory, and one that is written straight. -/
theorem relativize_climbing_ne_self :
    (Scope.relativize ⟨['/', 'p'], .root⟩ ['/', 'p', '/', 'a', '/', '.', '.', '/', 'b'] ≠
        ['/', 'p', '/', 'a', '/', '.', '.', '/', 'b'] ∧
      LiesIn ['/', 'p', '/', 'a', '/', '.', '.', '/', 'b'] ['/', 'p']) ∧
    (Scope.relativize ⟨['/', 'p'], .root⟩ ['/', 'p', 'q', '/'] ≠ ['/', 'p', 'q', '/'] ↔
      LiesIn ['/', 'p', 'q', '/'] ['/', 'p']) := by
  have hclimbing := relativize_ne_self_iff ⟨['/', 'p'], rfl⟩ .root
    ⟨['/', 'p', '/', 'a', '/', '.', '.', '/', 'b'], rfl⟩
  have hstraight := relativize_ne_self_iff ⟨['/', 'p'], rfl⟩ .root ⟨['/', 'p', 'q', '/'], rfl⟩
  refine ⟨?_, ?_⟩
  · exact hclimbing.2.1 ['/', 'a', '/', '.', '.', '/', 'b'] rfl (.inr (.inr ⟨_, rfl⟩)) (by decide)
  · exact hstraight.2.2 (by decide) (by decide)

/-- The first path leaves the base directory and is changed, and the second one lies in the base
directory and is kept. -/
theorem relativize_misjudges :
    (Scope.relativize ⟨['/', 'p'], .root⟩ ['/', 'p', '/', '.', '.', '/', 'q'] ≠
        ['/', 'p', '/', '.', '.', '/', 'q'] ∧
      ¬LiesIn ['/', 'p', '/', '.', '.', '/', 'q'] ['/', 'p']) ∧
    (Scope.relativize ⟨['/', 'p'], .root⟩ ['/', '/', 'p', '/', 'q'] = ['/', '/', 'p', '/', 'q'] ∧
      LiesIn ['/', '/', 'p', '/', 'q'] ['/', 'p']) := by
  decide

end Scope

end Depfile
