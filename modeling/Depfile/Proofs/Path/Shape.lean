import Depfile.Proofs.Path.Marked

/-!
# Relative forms of escaped paths

Making an escaped path relative may give another path than making the path itself relative, if the
working directory has escapes in its name too. Whatever the working directory is, the relative form
is escaped text again. If the last component carries a mark, the mark is kept, or it is lost
together with the whole component (`isEscaped_relativeTo_mark`).
-/

namespace Depfile.Path

open Token

variable {path dir name last : Text} {walk names : List Text}

/-- The text is the escaped form of a name. -/
def IsEscaped (text : Text) : Prop :=
  ∃ name, text = escape name

theorem isEscaped_parent : IsEscaped parent :=
  ⟨parent, rfl⟩

theorem isEscaped_of_mem_components {step : Text} (h : step ∈ components (escape path)) :
    IsEscaped step := by
  rw [components_escape] at h
  rcases List.mem_map.1 h with ⟨name, _, rfl⟩
  exact ⟨name, rfl⟩

theorem exists_map_escape (h : ∀ step ∈ walk, IsEscaped step) :
    ∃ names : List Text, walk = names.map escape := by
  induction walk with
  | nil => exact ⟨[], rfl⟩
  | cons step walk ih =>
    rcases h step (by simp) with ⟨name, rfl⟩
    rcases ih (fun other hother => h other (by simp [hother])) with ⟨names, rfl⟩
    exact ⟨name :: names, rfl⟩

theorem isEscaped_join (h : ∀ step ∈ walk, IsEscaped step) : IsEscaped (join walk) := by
  rcases exists_map_escape h with ⟨names, rfl⟩
  exact ⟨join names, join_map_escape names⟩

variable (cwd : AbsolutePath)

/-! ## Paths without a mark -/

theorem isEscaped_relativeTo (habs : isAbsolute path = true) :
    IsEscaped (relativeTo cwd (escape path)) := by
  have habs' : isAbsolute (escape path) = true := by rwa [isAbsolute_escape]
  rw [relativeTo_eq cwd habs']
  split
  · exact ⟨here, rfl⟩
  · refine isEscaped_join (fun step hstep => ?_)
    rcases mem_steps hstep with rfl | hname
    · exact isEscaped_parent
    · exact isEscaped_of_mem_components (mem_resolve hname).1

/-! ## Paths with a mark at the end -/

/-- The way to a name in a directory ends with the name, unless the name is on the working
directory's own path. -/
theorem steps_append_name_cases (start names : List Text) (last : Text) :
    ∃ walk, (∀ step ∈ walk, step = parent ∨ step ∈ names) ∧
      (steps start (names ++ [last]) = walk ∨ steps start (names ++ [last]) = walk ++ [last]) := by
  rcases exists_steps_eq start (names ++ [last]) with ⟨common, up, down, _, htarget, hsteps⟩
  have hup : ∀ step ∈ List.replicate up.length parent, step = parent :=
    fun _ => List.eq_of_mem_replicate
  rcases List.eq_nil_or_concat down with rfl | ⟨back, final, rfl⟩
  · exact ⟨_, fun step hstep => Or.inl (hup step hstep), Or.inl (by simpa using hsteps)⟩
  · have hsplit : names ++ [last] = (common ++ back) ++ [final] := by simpa using htarget
    rcases List.append_inj' hsplit rfl with ⟨rfl, hlast⟩
    refine ⟨List.replicate up.length parent ++ back, ?_, Or.inr ?_⟩
    · intro step hstep
      rcases List.mem_append.1 hstep with hstep | hstep
      · exact Or.inl (hup step hstep)
      · exact Or.inr (by simp [hstep])
    · rw [hsteps, hlast]
      simp

/-- A mark at the end of an escaped path is at the end of its relative form too, or it is gone. -/
theorem isEscaped_relativeTo_mark {mark : Char} (hmark : mark = '\\' ∨ mark = ':')
    (hname : '/' ∉ name) (habs : isAbsolute (dir ++ '/' :: name) = true) :
    IsEscaped (relativeTo cwd (escape (dir ++ '/' :: name) ++ [mark])) ∨
      ∃ new, relativeTo cwd (escape (dir ++ '/' :: name) ++ [mark]) = escape new ++ [mark] := by
  have habs' : isAbsolute (escape (dir ++ '/' :: name) ++ [mark]) = true := by
    refine isAbsolute_append ?_ _
    rwa [isAbsolute_escape]
  rcases steps_append_name_cases (resolve (components cwd.text))
    (resolve (components (escape dir))) (escape name ++ [mark]) with ⟨walk, hwalk, hway⟩
  have hescaped : ∀ step ∈ walk, IsEscaped step := by
    intro step hstep
    rcases hwalk step hstep with rfl | hmem
    · exact isEscaped_parent
    · exact isEscaped_of_mem_components (mem_resolve hmem).1
  rw [← resolve_escape_mark hmark dir hname] at hway
  rw [relativeTo_eq cwd habs', way]
  rcases hway with hlost | hkept
  · refine Or.inl ?_
    rw [hlost]
    split
    · exact ⟨here, rfl⟩
    · exact isEscaped_join hescaped
  · rcases exists_map_escape hescaped with ⟨names, rfl⟩
    refine Or.inr ⟨join (names ++ [name]), ?_⟩
    rw [hkept, if_neg (by simp), join_append_name, ← join_map_escape, List.map_append,
      List.map_singleton]

end Depfile.Path
