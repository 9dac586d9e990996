import Depfile.Proofs.Path.Under
import Depfile.Proofs.Path.Walk

/-!
# Paths made relative

What a scope does to a path: the path is kept, or it is absolute, lies under the base directory,
and becomes a path that is not absolute. The new path is never empty and has no characters that
the old one did not have, except for dots.
-/

namespace Depfile

theorem AbsolutePath.isAbsolute_below (root : AbsolutePath) (rest : Text) :
    Path.isAbsolute (root.text ++ '/' :: rest) = true :=
  Path.isAbsolute_append root.isAbsolute ('/' :: rest)

/-- The directory that a relative path names below an absolute one. -/
def AbsolutePath.below (root : AbsolutePath) (rest : Text) : AbsolutePath :=
  ⟨root.text ++ '/' :: rest, root.isAbsolute_below rest⟩

namespace Path

variable {path : Text} (dir : AbsolutePath)

/-- The way to an absolute path, as components. -/
def way (dir : AbsolutePath) (path : Text) : List Text :=
  steps (resolve (components dir.text)) (resolve (components path))

theorem isComponent_of_mem_way {step : Text} (h : step ∈ way dir path) : IsComponent step := by
  refine isComponent_of_mem_steps ?_ h
  intro name hname
  exact isComponent_of_mem (mem_resolve hname).1

theorem mem_of_mem_way {step : Text} {c : Char} (h : step ∈ way dir path) (hc : c ∈ step) :
    c = '.' ∨ c ∈ path := by
  rcases mem_steps h with rfl | hstep
  · exact Or.inl (by simpa [parent] using hc)
  · exact Or.inr (mem_of_mem_component (mem_resolve hstep).1 hc)

theorem relativeTo_eq (h : isAbsolute path = true) :
    relativeTo dir path = if way dir path = [] then here else join (way dir path) := by
  unfold relativeTo way
  rw [if_pos h]
  split
  · rename_i hnil
    rw [if_pos hnil]
  · rename_i hne
    rw [if_neg hne]

theorem isAbsolute_relativeTo (h : isAbsolute path = true) :
    isAbsolute (relativeTo dir path) = false := by
  rw [relativeTo_eq dir h]
  split
  · rfl
  · exact isAbsolute_join (fun _ => isComponent_of_mem_way dir)

theorem relativeTo_ne_nil (h : isAbsolute path = true) : relativeTo dir path ≠ [] := by
  rw [relativeTo_eq dir h]
  split
  · decide
  · rename_i hne
    exact join_ne_nil hne (fun _ => isComponent_of_mem_way dir)

theorem mem_relativeTo (h : isAbsolute path = true) {c : Char} (hc : c ∈ relativeTo dir path) :
    c = '.' ∨ c ∈ path := by
  rw [relativeTo_eq dir h] at hc
  split at hc
  · exact Or.inl (by simpa [here] using hc)
  · rcases mem_join hc with rfl | ⟨step, hstep, hc⟩
    · rcases isAbsolute_iff.1 h with ⟨rest, rfl⟩
      exact Or.inr (by simp)
    · exact mem_of_mem_way dir hstep hc

/-- Below a common root the way between two places does not go through the root, so it is the way
between the same places below the root directory. -/
theorem relativeTo_below (root : AbsolutePath) {start path : Text}
    (hstart : staysBelow 0 (components start) = true)
    (hpath : staysBelow 0 (components path) = true) :
    relativeTo (root.below start) (root.text ++ '/' :: path) =
      relativeTo (AbsolutePath.root.below start) ('/' :: path) := by
  have hresolve : ∀ rest, staysBelow 0 (components rest) = true →
      resolve (components (root.text ++ '/' :: rest)) =
        resolve (components root.text) ++ resolve (components rest) := by
    intro rest hrest
    rw [components_append_slash]
    exact resolve_append_of_staysBelow _ hrest
  -- Both walks begin with the one to the root, and neither leaves it again.
  have hway : way (root.below start) (root.text ++ '/' :: path) =
      way (AbsolutePath.root.below start) ('/' :: path) := by
    simp only [way, AbsolutePath.below, hresolve start hstart, hresolve path hpath, steps_append]
    simp [AbsolutePath.root]
  rw [relativeTo_eq _ (root.isAbsolute_below path), hway, relativeTo_eq _ rfl]

end Path

namespace Scope

variable {scope : Scope} {path : Text}

theorem relativize_of_isUnder (h : Path.isUnder path scope.base = true) :
    scope.relativize path = Path.relativeTo scope.cwd path := by
  have hbase : scope.isActive = true := by
    simpa [isActive] using (Path.isUnder_iff.1 h).1
  simp [relativize, hbase, h]

theorem relativize_of_not_isUnder (h : Path.isUnder path scope.base = false) :
    scope.relativize path = path := by
  simp [relativize, h]

/-- An absolute path changes exactly if it lies under the base directory. -/
theorem relativize_eq_self_iff (habs : Path.isAbsolute path = true) :
    scope.relativize path = path ↔ Path.isUnder path scope.base = false := by
  constructor
  · intro h
    apply Bool.eq_false_iff.2
    intro hunder
    rw [relativize_of_isUnder hunder] at h
    have hrelative := Path.isAbsolute_relativeTo scope.cwd habs
    rw [h, habs] at hrelative
    cases hrelative
  · exact relativize_of_not_isUnder

theorem relativize_ne_nil (hbase : Path.isAbsolute scope.base = true) (hpath : path ≠ []) :
    scope.relativize path ≠ [] := by
  by_cases hunder : Path.isUnder path scope.base = true
  · rw [relativize_of_isUnder hunder]
    exact Path.relativeTo_ne_nil scope.cwd (Path.isAbsolute_of_isUnder hbase hunder)
  · rwa [relativize_of_not_isUnder (by simpa using hunder)]

theorem mem_relativize (hbase : Path.isAbsolute scope.base = true) {c : Char}
    (hc : c ∈ scope.relativize path) : c = '.' ∨ c ∈ path := by
  by_cases hunder : Path.isUnder path scope.base = true
  · rw [relativize_of_isUnder hunder] at hc
    exact Path.mem_relativeTo scope.cwd (Path.isAbsolute_of_isUnder hbase hunder) hc
  · rw [relativize_of_not_isUnder (by simpa using hunder)] at hc
    exact Or.inr hc

/-- The paths that stay absolute are the absolute ones outside the base directory. -/
theorem isAbsolute_relativize_iff (hbase : Path.isAbsolute scope.base = true) :
    Path.isAbsolute (scope.relativize path) = true ↔
      Path.isAbsolute path = true ∧ Path.isUnder path scope.base = false := by
  by_cases hunder : Path.isUnder path scope.base = true
  · have habs := Path.isAbsolute_of_isUnder hbase hunder
    simp [relativize_of_isUnder hunder, Path.isAbsolute_relativeTo scope.cwd habs, hunder]
  · have hunder : Path.isUnder path scope.base = false := by simpa using hunder
    simp [relativize_of_not_isUnder hunder, hunder]

end Scope

end Depfile
