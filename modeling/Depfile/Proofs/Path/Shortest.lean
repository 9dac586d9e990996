import Depfile.Proofs.Path.Way

/-!
# The shortest way

Between two directories of a tree there are many walks: any of them can go up and down again
wherever it likes. A path made relative is the shortest one, and every other walk to the same place is
longer (`relativeTo_shortest`). What carries the proof is what one move does to the way that is still
ahead (`length_steps_move`): it takes at most one step off, and it takes off a step only
by being the first step of the way.
-/

namespace Depfile.Path

variable {dir target walk : List Text}

/-! ## Moves -/

/-- Where one move leads from a directory: `..` to the directory above, if there is one, and a name
to what is below. -/
def move (dir : List Text) (step : Text) : List Text :=
  if step = parent then
    dir.dropLast
  else
    dir ++ [step]

/-- Where moves lead, one after the other. -/
def arrive (dir walk : List Text) : List Text :=
  walk.foldl move dir

/-- The moves that a path consists of: `.` is none. -/
def moves (path : Text) : List Text :=
  (components path).filter (fun component => component != here)

/-- Moves up and down that lead from one directory to the other. -/
structure IsWalk (dir target walk : List Text) : Prop where
  isMove : ∀ step ∈ walk, step = parent ∨ IsName step
  arrives : arrive dir walk = target

theorem move_parent (dir : List Text) : move dir parent = dir.dropLast :=
  if_pos rfl

theorem move_of_ne {step : Text} (h : step ≠ parent) (dir : List Text) :
    move dir step = dir ++ [step] :=
  if_neg h

/-- Moves start at the other end of the names than a stack of names does. -/
theorem reverse_arrive (dir : List Text) (h : ∀ step ∈ walk, step = parent ∨ IsName step) :
    (arrive dir walk).reverse = walk.foldl follow dir.reverse := by
  induction walk generalizing dir with
  | nil => rfl
  | cons step walk ih =>
    rcases List.forall_mem_cons.1 h with ⟨hstep, hwalk⟩
    have hmove : (move dir step).reverse = follow dir.reverse step := by
      rcases hstep with rfl | hname
      · rw [move_parent, follow_parent, List.tail_reverse]
      · rw [move_of_ne hname.ne_parent, follow_of_ne hname.ne_here hname.ne_parent,
          List.reverse_append]
        rfl
    calc
      (arrive dir (step :: walk)).reverse = walk.foldl follow (move dir step).reverse :=
        ih (move dir step) hwalk
      _ = (step :: walk).foldl follow dir.reverse := by rw [hmove, List.foldl_cons]

/-! ## One move and the way ahead -/

theorem map_parent_append (names : List Text) (name : Text) :
    (names ++ [name]).map (fun _ => parent) = parent :: names.map (fun _ => parent) := by
  simp only [List.map_const', List.length_append, List.length_singleton, List.replicate_succ]

/-- From one directory further down the way to the target is one step shorter, if the target is there
as well, and otherwise it leads back up first. -/
theorem steps_below (dir target : List Text) (name : Text) :
    (∃ rest, target = dir ++ name :: rest) ∨
      steps (dir ++ [name]) target = parent :: steps dir target := by
  induction dir generalizing target with
  | nil =>
    cases target with
    | nil => exact Or.inr rfl
    | cons t target =>
      by_cases ht : name = t
      · exact Or.inl ⟨target, by simp [ht]⟩
      · exact Or.inr (by simp [steps, ht])
  | cons d dir ih =>
    cases target with
    | nil => exact Or.inr (by simpa [steps] using map_parent_append (d :: dir) name)
    | cons t target =>
      by_cases ht : d = t
      · -- What both have in common decides nothing.
        subst ht
        rcases ih target with ⟨rest, hrest⟩ | hback
        · exact Or.inl ⟨rest, by simp [hrest]⟩
        · exact Or.inr (by simpa [steps] using hback)
      · have hup := map_parent_append (d :: dir) name
        simp only [List.cons_append] at hup
        exact Or.inr (by simp only [List.cons_append, steps, if_neg ht, hup])

/-- A move shortens the way by one step at most, and if it does, it was the first step of the way. -/
theorem length_steps_move (dir target : List Text) (step : Text) :
    (steps dir target).length ≤ (steps (move dir step) target).length + 1 ∧
    ((steps dir target).length = (steps (move dir step) target).length + 1 →
      steps dir target = step :: steps (move dir step) target) := by
  have hahead : ∀ (above rest : List Text) (name : Text),
      steps (above ++ [name]) (above ++ name :: rest) = rest := by
    intro above rest name
    simpa using steps_self_append (above ++ [name]) rest
  by_cases hstep : step = parent
  · subst hstep
    rw [move_parent]
    rcases List.eq_nil_or_concat dir with rfl | ⟨above, name, rfl⟩
    · -- At the root going up is no move at all.
      exact ⟨by simp, fun h => by simp at h⟩
    · rw [List.concat_eq_append, List.dropLast_concat]
      rcases steps_below above target name with ⟨rest, rfl⟩ | hback
      · -- The target is further down, so going up leads away from it.
        rw [steps_self_append, hahead, List.length_cons]
        exact ⟨by omega, fun h => by omega⟩
      · exact ⟨by simp [hback], fun _ => hback⟩
  · rw [move_of_ne hstep]
    rcases steps_below dir target step with ⟨rest, rfl⟩ | hback
    · rw [steps_self_append, hahead]
      exact ⟨by simp, fun _ => rfl⟩
    · -- The target is not there, and what was gone down has to be gone up again.
      rw [hback, List.length_cons]
      exact ⟨by omega, fun h => by omega⟩

/-! ## Walks -/

/-- No walk is shorter than the way, and none that is different is as short. -/
theorem length_steps_le (h : arrive dir walk = target) :
    (steps dir target).length ≤ walk.length ∧
    (walk.length = (steps dir target).length → walk = steps dir target) := by
  -- The way after the first move is the one that the rest of the walk is compared with.
  induction walk generalizing dir with
  | nil =>
    have hnil : steps dir target = [] := steps_eq_nil_iff.2 h
    exact ⟨by simp [hnil], fun _ => hnil.symm⟩
  | cons step walk ih =>
    rcases ih h with ⟨hle, heq⟩
    rcases length_steps_move dir target step with ⟨hmove, hfirst⟩
    rw [List.length_cons]
    refine ⟨by omega, fun hlength => ?_⟩
    -- If the whole walk is no longer than the way, neither was there any room after the first move.
    have hrest : walk = steps (move dir step) target := heq (by omega)
    rw [hfirst (by omega), ← hrest]

/-! ## Paths -/

variable {path : Text} (dir : AbsolutePath)

theorem moves_relativeTo (h : isAbsolute path = true) :
    moves (relativeTo dir path) = way dir path := by
  have hkept : (way dir path).filter (fun component => component != here) = way dir path := by
    refine List.filter_eq_self.2 (fun step hstep => ?_)
    simpa using ne_of_mem_of_not_mem hstep (here_notMem_way dir)
  rw [moves, relativeTo_eq dir h]
  split
  · rename_i hnil
    rw [hnil]
    rfl
  · rw [components_join_way, hkept]

theorem isWalk_way (path : AbsolutePath) :
    IsWalk (components (normalize dir.text)) (components (normalize path.text))
      (way dir path.text) := by
  have hshape : UpThenDown (way dir path.text) := upThenDown_way dir
  rcases hshape with ⟨ups, names, hway, hnames⟩
  have hmoves : ∀ step ∈ way dir path.text, step = parent ∨ IsName step := by
    intro step hstep
    rw [hway] at hstep
    rcases List.mem_append.1 hstep with hup | hname
    · exact Or.inl (List.eq_of_mem_replicate hup)
    · exact Or.inr (hnames step hname)
  refine ⟨hmoves, ?_⟩
  rw [components_normalize dir.isAbsolute, components_normalize path.isAbsolute]
  have harrive := reverse_arrive (resolve (components dir.text)) hmoves
  calc
    arrive (resolve (components dir.text)) (way dir path.text) =
        ((way dir path.text).foldl follow (resolve (components dir.text)).reverse).reverse := by
      rw [← harrive, List.reverse_reverse]
    _ = resolve (components dir.text ++ way dir path.text) := (resolve_append _ _).symm
    _ = resolve (components path.text) := resolve_append_steps (fun _ => isName_of_mem_resolve)

/-- A path made relative is a walk from the directory to the file, and every other such walk is
longer. -/
theorem relativeTo_shortest (dir path : AbsolutePath) :
    IsWalk (components (normalize dir.text)) (components (normalize path.text))
      (moves (relativeTo dir path.text)) ∧
    ∀ walk : List Text,
      IsWalk (components (normalize dir.text)) (components (normalize path.text)) walk →
        (moves (relativeTo dir path.text)).length ≤ walk.length ∧
        (walk.length = (moves (relativeTo dir path.text)).length →
          walk = moves (relativeTo dir path.text)) := by
  rw [moves_relativeTo dir path.isAbsolute]
  refine ⟨isWalk_way dir path, ?_⟩
  intro walk hwalk
  have hleast := length_steps_le hwalk.arrives
  rwa [components_normalize dir.isAbsolute, components_normalize path.isAbsolute] at hleast

/-- The directory `/a/../b/c`. -/
def crookedDir : AbsolutePath :=
  ⟨['/', 'a', '/', '.', '.', '/', 'b', '/', 'c'], rfl⟩

/-- The file `//b/d/`, beside that directory. -/
def crookedFile : AbsolutePath :=
  ⟨['/', '/', 'b', '/', 'd', '/'], rfl⟩

/-- One walk goes up to the root and once more, and the other one goes up no further than it has to. -/
theorem relativeTo_shortest_detour :
    IsWalk (components (normalize crookedDir.text)) (components (normalize crookedFile.text))
        [parent, parent, parent, ['b'], ['d']] ∧
      IsWalk (components (normalize crookedDir.text)) (components (normalize crookedFile.text))
        [parent, ['d']] ∧
      (moves (relativeTo crookedDir crookedFile.text)).length ≤ 5 ∧
      [parent, ['d']] = moves (relativeTo crookedDir crookedFile.text) := by
  have hname : ∀ c : Char, c ≠ '/' → c ≠ '.' → IsName [c] := by
    intro c hslash hdot
    exact ⟨⟨by simp, by simpa using hslash.symm⟩, by simpa [here] using hdot, by simp [parent]⟩
  have hb := hname 'b' (by decide) (by decide)
  have hd := hname 'd' (by decide) (by decide)
  have hdetour : IsWalk (components (normalize crookedDir.text))
      (components (normalize crookedFile.text)) [parent, parent, parent, ['b'], ['d']] :=
    ⟨by simp [hb, hd], by decide⟩
  have hdirect : IsWalk (components (normalize crookedDir.text))
      (components (normalize crookedFile.text)) [parent, ['d']] :=
    ⟨by simp [hd], by decide⟩
  have hshortest := (relativeTo_shortest crookedDir crookedFile).2
  exact ⟨hdetour, hdirect, (hshortest _ hdetour).1, (hshortest _ hdirect).2 (by decide)⟩

end Depfile.Path
