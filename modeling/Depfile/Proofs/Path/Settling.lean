import Depfile.Proofs.Path.Way

/-!
# Paths that have settled

What a scope has made of a path it leaves alone from then on, also if nobody has checked that its
base directory is absolute. A path is under the base directory only if both are absolute or neither
is, and so three things can happen to it (`relativize_cases`). It is kept; or it becomes a path that is
not absolute, while everything under the base directory is; or it is only normalized, and may be under
the base directory again, but in normal form.
-/

namespace Depfile

namespace Path

variable {path : Text}

/-! ## Relative paths -/

theorem relativeTo_of_not_isAbsolute (dir : AbsolutePath) (h : isAbsolute path = false) :
    relativeTo dir path = normalize path := by
  simp [relativeTo, h]

theorem normalize_of_not_isAbsolute (h : isAbsolute path = false) :
    normalize path = join (resolve (components path)) := by
  simp [normalize, h]

/-- In a path that is joined from names there is nothing to normalize. -/
theorem normalize_join_of_isName {names : List Text} (h : ∀ name ∈ names, IsName name) :
    normalize (join names) = join names := by
  have hcomponent : ∀ name ∈ names, IsComponent name := fun name hname => (h name hname).isComponent
  calc
    normalize (join names) = join (resolve (components (join names))) :=
      normalize_of_not_isAbsolute (isAbsolute_join hcomponent)
    _ = join (resolve names) := by rw [components_join hcomponent]
    _ = join names := by rw [resolve_of_isName h]

theorem normalize_normalize_of_not_isAbsolute (h : isAbsolute path = false) :
    normalize (normalize path) = normalize path := by
  simpa [normalize_of_not_isAbsolute h] using
    normalize_join_of_isName (fun _ => isName_of_mem_resolve)

end Path

namespace Scope

variable {scope : Scope} {path : Text}

/-! ## One application -/

/-- A path is kept, or written as the way to it, or only normalized. -/
theorem relativize_cases (scope : Scope) (path : Text) :
    (Path.isUnder path scope.base = false ∧ scope.relativize path = path) ∨
    (Path.isUnder path scope.base = true ∧ Path.isAbsolute scope.base = true ∧
      scope.relativize path ≠ [] ∧ Path.isAbsolute (scope.relativize path) = false) ∨
    (Path.isUnder path scope.base = true ∧ Path.isAbsolute path = false ∧
      scope.relativize path = Path.normalize path) := by
  cases hunder : Path.isUnder path scope.base with
  | false => exact Or.inl ⟨rfl, relativize_of_not_isUnder hunder⟩
  | true =>
    have hchanged := relativize_of_isUnder hunder
    -- The path and the base directory begin with the same character.
    have hboth := Path.isAbsolute_eq_of_isUnder hunder
    cases habs : Path.isAbsolute path with
    | true =>
      refine Or.inr (Or.inl ⟨rfl, hboth.symm.trans habs, ?_, ?_⟩)
      · simpa [hchanged] using Path.relativeTo_ne_nil scope.cwd habs
      · simpa [hchanged] using Path.isAbsolute_relativeTo scope.cwd habs
    | false =>
      have hnormal := Path.relativeTo_of_not_isAbsolute scope.cwd habs
      exact Or.inr (Or.inr ⟨rfl, rfl, hchanged.trans hnormal⟩)

/-- Under a relative base directory a path can lose its way up, come to lie under the base directory
again, and lose everything. -/
example :
    Scope.relativize ⟨['.', '.'], .root⟩ ['.', '.', '/', 'x'] = ['x'] ∧
      Scope.relativize ⟨['a'], .root⟩ ['a', '/', '.', '/', 'b'] = ['a', '/', 'b'] ∧
      Scope.relativize ⟨['a'], .root⟩ ['a', '/', '.', '.'] = [] := by
  decide

/-! ## Twice -/

/-- A path that was made relative is never changed again. -/
theorem relativize_relativize : scope.relativize (scope.relativize path) = scope.relativize path := by
  rcases relativize_cases scope path with
    ⟨_, hkept⟩ | ⟨_, hbase, _, hrelative⟩ | ⟨hunder, hpath, hnormal⟩
  · simp [hkept]
  · -- Whatever is under an absolute directory is absolute, and the new path is not.
    exact relativize_of_not_isUnder (Path.isUnder_of_not_isAbsolute hbase hrelative)
  · -- A normal form can be under the base directory again, but it is its own normal form.
    rcases relativize_cases scope (Path.normalize path) with
      ⟨_, hkept⟩ | ⟨_, hbase, _⟩ | ⟨_, _, htwice⟩
    · simp [hnormal, hkept]
    · exact absurd (Path.isAbsolute_of_isUnder hbase hunder) (by simp [hpath])
    · simp [hnormal, htwice, Path.normalize_normalize_of_not_isAbsolute hpath]

/-- One application settles every path, whether or not the base directory is absolute. An absolute
path outside the base directory is kept, and one under it becomes a path that is neither empty nor
absolute. -/
theorem relativize_settles (scope : Scope) :
    (∀ path : Text, scope.relativize (scope.relativize path) = scope.relativize path) ∧
    ∀ path : AbsolutePath,
      (Path.isUnder path.text scope.base = false ∧ scope.relativize path.text = path.text) ∨
      (Path.isUnder path.text scope.base = true ∧ scope.relativize path.text ≠ [] ∧
        Path.isAbsolute (scope.relativize path.text) = false) := by
  refine ⟨fun _ => relativize_relativize, ?_⟩
  intro path
  rcases relativize_cases scope path.text with
    hkept | ⟨hunder, _, hne, hrelative⟩ | ⟨_, hpath, _⟩
  · exact Or.inl hkept
  · exact Or.inr ⟨hunder, hne, hrelative⟩
  · exact absurd path.isAbsolute (by simp [hpath])

end Scope

end Depfile
