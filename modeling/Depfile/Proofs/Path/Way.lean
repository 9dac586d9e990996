import Depfile.Proofs.Path.Relative

/-!
# Where the way leads

The way from one directory to another goes up to the directory that both share and then down
(`exists_steps_eq`), so following it from the first directory ends in the second
(`resolve_append_steps`). A path made relative therefore names the same file as before when it is
read in the directory that it was made relative to.
-/

namespace Depfile.Path

variable {start other target : List Text}

/-! ## Names and steps up -/

/-- A component that leads down into a directory. -/
structure IsName (component : Text) : Prop where
  isComponent : IsComponent component
  ne_here : component ≠ here
  ne_parent : component ≠ parent

theorem isName_of_mem_resolve {path name : Text} (h : name ∈ resolve (components path)) :
    IsName name := by
  rcases mem_resolve h with ⟨hmem, hhere, hparent⟩
  exact ⟨isComponent_of_mem hmem, hhere, hparent⟩

theorem foldl_follow_names {names : List Text} (stack : List Text)
    (h : ∀ name ∈ names, IsName name) : names.foldl follow stack = names.reverse ++ stack := by
  induction names generalizing stack with
  | nil => rfl
  | cons name names ih =>
    have hname := h name (by simp)
    have hrest := ih (name :: stack) (fun other hother => h other (by simp [hother]))
    simpa [follow_of_ne hname.ne_here hname.ne_parent] using hrest

/-- Names lead to the directory that they spell. -/
theorem resolve_of_isName {names : List Text} (h : ∀ name ∈ names, IsName name) :
    resolve names = names := by
  have hwalk : names.foldl follow [] = names.reverse ++ [] := foldl_follow_names [] h
  simp [resolve, hwalk]

theorem foldl_follow_parents (count : Nat) (stack : List Text) :
    (List.replicate count parent).foldl follow stack = stack.drop count := by
  induction count generalizing stack with
  | zero => rfl
  | succ count ih =>
    calc
      (List.replicate (count + 1) parent).foldl follow stack =
          (List.replicate count parent).foldl follow stack.tail := by
        rw [List.replicate_succ, List.foldl_cons, follow_parent]
      _ = stack.tail.drop count := ih _
      _ = stack.drop (count + 1) := List.drop_tail

/-! ## Walks that go on -/

theorem resolve_append (start walk : List Text) :
    resolve (start ++ walk) = (walk.foldl follow (resolve start).reverse).reverse := by
  simp [resolve]

/-- What comes after two walks does not see which of them it was, if both end at one place. -/
theorem resolve_append_congr (h : resolve start = resolve other) (walk : List Text) :
    resolve (start ++ walk) = resolve (other ++ walk) := by
  rw [resolve_append, resolve_append, h]

/-- Going up as many steps as there are names in `up`, and from there down. -/
theorem resolve_append_upDown {common up down : List Text} (hstart : resolve start = common ++ up)
    (hdown : ∀ name ∈ down, IsName name) :
    resolve (start ++ (List.replicate up.length parent ++ down)) = common ++ down := by
  have hup : (common ++ up).reverse.drop up.length = common.reverse := by
    rw [List.reverse_append]
    exact List.drop_left' (List.length_reverse)
  calc
    resolve (start ++ (List.replicate up.length parent ++ down)) =
        (down.foldl follow ((common ++ up).reverse.drop up.length)).reverse := by
      rw [resolve_append, hstart, List.foldl_append, foldl_follow_parents]
    _ = (down.reverse ++ common.reverse).reverse := by rw [hup, foldl_follow_names _ hdown]
    _ = common ++ down := by simp

/-! ## The way between two directories -/

/-- The way goes up through the names that only `dir` has, and down through those that only
`target` has. -/
theorem exists_steps_eq (dir target : List Text) :
    ∃ common up down, dir = common ++ up ∧ target = common ++ down ∧
      steps dir target = List.replicate up.length parent ++ down := by
  have hups : ∀ names : List Text,
      names.map (fun _ => parent) = List.replicate names.length parent :=
    fun _ => List.map_const'
  induction dir generalizing target with
  | nil => exact ⟨[], [], target, rfl, rfl, steps_nil_left target⟩
  | cons d dir ih =>
    cases target with
    | nil => exact ⟨[], d :: dir, [], rfl, rfl, by simp [steps, hups, List.replicate_succ]⟩
    | cons t target =>
      by_cases heq : d = t
      · rcases ih target with ⟨common, up, down, hdir, htarget, hsteps⟩
        refine ⟨d :: common, up, down, by simp [hdir], by simp [heq, htarget], ?_⟩
        simpa [steps, heq] using hsteps
      · exact ⟨[], d :: dir, t :: target, rfl, rfl, by simp [steps, heq, hups, List.replicate_succ]⟩

theorem resolve_append_steps (htarget : ∀ name ∈ target, IsName name) :
    resolve (start ++ steps (resolve start) target) = target := by
  rcases exists_steps_eq (resolve start) target with ⟨common, up, down, hstart, rfl, hsteps⟩
  rw [hsteps]
  refine resolve_append_upDown hstart ?_
  intro name hname
  exact htarget name (List.mem_append_right common hname)

theorem steps_eq_nil_iff {dir target : List Text} : steps dir target = [] ↔ dir = target := by
  constructor
  · intro h
    rcases exists_steps_eq dir target with ⟨common, up, down, rfl, rfl, hsteps⟩
    have hnil : List.replicate up.length parent ++ down = [] := hsteps.symm.trans h
    rcases List.append_eq_nil_iff.1 hnil with ⟨hup, rfl⟩
    have hup : up = [] := by simpa using hup
    rw [hup]
  · rintro rfl
    simpa using steps_self_append dir []

/-! ## Paths -/

variable {path : Text} (dir : AbsolutePath)

theorem normalize_of_isAbsolute (h : isAbsolute path = true) :
    normalize path = '/' :: join (resolve (components path)) := by
  simp [normalize, h]

theorem components_normalize (h : isAbsolute path = true) :
    components (normalize path) = resolve (components path) := by
  rw [normalize_of_isAbsolute h, components_slash]
  exact components_join (fun name hname => (isName_of_mem_resolve hname).isComponent)

/-- Absolute paths have the same normal form exactly if they lead to the same place. -/
theorem normalize_eq_iff {path' : Text} (h : isAbsolute path = true)
    (h' : isAbsolute path' = true) :
    normalize path = normalize path' ↔
      resolve (components path) = resolve (components path') := by
  constructor
  · intro heq
    rw [← components_normalize h, ← components_normalize h', heq]
  · intro heq
    rw [normalize_of_isAbsolute h, normalize_of_isAbsolute h', heq]

/-- Some steps up, and then names. -/
def UpThenDown (walk : List Text) : Prop :=
  ∃ (ups : Nat) (names : List Text),
    walk = List.replicate ups parent ++ names ∧ ∀ name ∈ names, IsName name

theorem upThenDown_way : UpThenDown (way dir path) := by
  rcases exists_steps_eq (resolve (components dir.text)) (resolve (components path)) with
    ⟨common, up, down, _, htarget, hsteps⟩
  refine ⟨up.length, down, hsteps, ?_⟩
  intro name hname
  have hmem : name ∈ resolve (components path) := by
    rw [htarget]
    exact List.mem_append_right common hname
  exact isName_of_mem_resolve hmem

theorem here_notMem_way : here ∉ way dir path := by
  intro h
  rcases mem_steps h with hparent | hname
  · exact absurd hparent (by decide)
  · exact (isName_of_mem_resolve hname).ne_here rfl

theorem components_join_way : components (join (way dir path)) = way dir path :=
  components_join (fun _ => isComponent_of_mem_way dir)

theorem relativeTo_eq_here_iff (h : isAbsolute path = true) :
    relativeTo dir path = here ↔ way dir path = [] := by
  rw [relativeTo_eq dir h]
  constructor
  · intro heq
    by_cases hnil : way dir path = []
    · exact hnil
    · -- A joined way has the way's components, and `.` is none of them.
      rw [if_neg hnil] at heq
      have hway : way dir path = [here] := by
        rw [← components_join_way dir, heq]
        rfl
      have hmem : here ∈ way dir path := by
        simp [hway]
      exact absurd hmem (here_notMem_way dir)
  · intro hnil
    rw [if_pos hnil]

/-- The components of a path made relative lead where the way leads: `.` stays. -/
theorem resolve_append_relativeTo (h : isAbsolute path = true) (start : List Text) :
    resolve (start ++ components (relativeTo dir path)) = resolve (start ++ way dir path) := by
  rw [relativeTo_eq dir h]
  split
  · rename_i hnil
    have hhere : components here = [here] := rfl
    rw [hnil, hhere]
    simp [resolve, follow]
  · rw [components_join_way]

theorem getLast?_relativeTo_ne (h : isAbsolute path = true) :
    (relativeTo dir path).getLast? ≠ some '/' := by
  rw [relativeTo_eq dir h]
  split
  · decide
  · rename_i hne
    have hlast := isComponent_of_mem_way dir (List.getLast_mem hne)
    rw [← List.dropLast_concat_getLast hne]
    exact getLast?_join_ne _ hlast

/-- Read in the directory that it was made relative to, a path names the file that it named before.
It is written as steps up and then names, with a separator between each two of them, and as `.`
exactly if the path names the directory itself. -/
theorem relativeTo_returns (dir path : AbsolutePath) :
    normalize (dir.text ++ '/' :: relativeTo dir path.text) = normalize path.text ∧
    (relativeTo dir path.text = here ∨
      ∃ walk, walk ≠ [] ∧ UpThenDown walk ∧ relativeTo dir path.text = join walk) ∧
    (relativeTo dir path.text).head? ≠ some '/' ∧
    (relativeTo dir path.text).getLast? ≠ some '/' ∧
    (relativeTo dir path.text = here ↔ normalize dir.text = normalize path.text) := by
  have habs := path.isAbsolute
  refine ⟨?_, ?_, ?_, getLast?_relativeTo_ne dir habs, ?_⟩
  · rw [normalize_eq_iff (dir.isAbsolute_below _) habs, components_append_slash]
    calc
      resolve (components dir.text ++ components (relativeTo dir path.text)) =
          resolve (components dir.text ++ way dir path.text) :=
        resolve_append_relativeTo dir habs _
      _ = resolve (components path.text) :=
        resolve_append_steps (fun _ => isName_of_mem_resolve)
  · by_cases hnil : way dir path.text = []
    · exact Or.inl ((relativeTo_eq_here_iff dir habs).2 hnil)
    · refine Or.inr ⟨way dir path.text, hnil, upThenDown_way dir, ?_⟩
      rw [relativeTo_eq dir habs, if_neg hnil]
  · exact head?_ne_of_isAbsolute_eq_false (isAbsolute_relativeTo dir habs)
  · rw [relativeTo_eq_here_iff dir habs, normalize_eq_iff dir.isAbsolute habs]
    exact steps_eq_nil_iff

/-- Up and down again, past a name that both paths begin with. -/
example :
    relativeTo ⟨['/', 'a', '/', '.', '.', '/', 'b', '/', 'c'], rfl⟩
      ['/', '/', 'b', '/', 'd', '/'] = ['.', '.', '/', 'd'] := by
  decide

end Depfile.Path
