import Depfile.Path.Relative
import Depfile.Proofs.Path.Components

/-!
# Walks and the way between two directories

Following components from a directory is a walk. A walk that never climbs above its start only
adds names to the directory it starts from (`resolve_append_of_staysBelow`), and the way from one
directory to another does not depend on what the two have in common (`steps_append`).
Both commute with a respelling of names that leaves `.` and `..` alone.
-/

namespace Depfile.Path

theorem isComponent_parent : IsComponent parent :=
  ⟨by decide, by decide⟩

/-! ## Walks -/

theorem follow_parent (stack : List Text) : follow stack parent = stack.tail := by
  simp [follow, parent, here]

theorem follow_of_ne {name : Text} (hhere : name ≠ here) (hparent : name ≠ parent)
    (stack : List Text) : follow stack name = name :: stack := by
  simp [follow, hhere, hparent]

/-- Starting `depth` names below some directory, does the walk never climb above that directory? -/
def staysBelow : Nat → List Text → Bool
  | _, [] => true
  | depth, component :: rest =>
    if component = here then
      staysBelow depth rest
    else if component = parent then
      match depth with
      | 0 => false
      | depth + 1 => staysBelow depth rest
    else
      staysBelow (depth + 1) rest

/-- A walk that does not climb above the names in `stack` does not see what is below them. -/
theorem foldl_follow_append {walk : List Text} (stack below : List Text)
    (h : staysBelow stack.length walk = true) :
    walk.foldl follow (stack ++ below) = walk.foldl follow stack ++ below := by
  induction walk generalizing stack with
  | nil => rfl
  | cons component walk ih =>
    by_cases hhere : component = here
    · have hrest : staysBelow stack.length walk = true := by
        simpa [staysBelow, hhere] using h
      simpa [follow, hhere] using ih stack hrest
    by_cases hparent : component = parent
    · -- Going up takes a name off the stack: at the start of the walk there would be none.
      cases stack with
      | nil => simp [staysBelow, hparent, parent, here] at h
      | cons top stack =>
        have hrest : staysBelow stack.length walk = true := by
          simpa [staysBelow, hparent, parent, here] using h
        simpa [follow, hparent, parent, here] using ih stack hrest
    · have hrest : staysBelow (component :: stack).length walk = true := by
        simpa [staysBelow, hhere, hparent] using h
      simpa [follow, hhere, hparent] using ih (component :: stack) hrest

theorem resolve_append_of_staysBelow (start : List Text) {walk : List Text}
    (h : staysBelow 0 walk = true) : resolve (start ++ walk) = resolve start ++ resolve walk := by
  have hwalk : walk.foldl follow (start.foldl follow []) =
      walk.foldl follow [] ++ start.foldl follow [] :=
    foldl_follow_append [] (start.foldl follow []) h
  simp [resolve, hwalk]

theorem resolve_append_name (start : List Text) {name : Text} (hhere : name ≠ here)
    (hparent : name ≠ parent) : resolve (start ++ [name]) = resolve start ++ [name] := by
  simp [resolve, follow, hhere, hparent]

theorem mem_foldl_follow {walk stack : List Text} {name : Text}
    (h : name ∈ walk.foldl follow stack) :
    name ∈ stack ∨ (name ∈ walk ∧ name ≠ here ∧ name ≠ parent) := by
  induction walk generalizing stack with
  | nil => exact Or.inl h
  | cons component walk ih =>
    rcases ih h with hstack | ⟨hwalk, hname⟩
    · -- A name on the stack was there before, or this step has put it there.
      unfold follow at hstack
      split at hstack
      · exact Or.inl hstack
      · rename_i hhere
        split at hstack
        · exact Or.inl (List.mem_of_mem_tail hstack)
        · rename_i hparent
          rcases List.mem_cons.1 hstack with rfl | hstack
          · exact Or.inr ⟨by simp, hhere, hparent⟩
          · exact Or.inl hstack
    · exact Or.inr ⟨by simp [hwalk], hname⟩

/-- A walk from the root ends in a directory whose names the walk has gone through. -/
theorem mem_resolve {walk : List Text} {name : Text} (h : name ∈ resolve walk) :
    name ∈ walk ∧ name ≠ here ∧ name ≠ parent := by
  have h : name ∈ walk.foldl follow [] := by simpa [resolve] using h
  rcases mem_foldl_follow h with h | h
  · simp at h
  · exact h

/-- A respelling of components that leaves `.` and `..` alone and makes no new ones. -/
def KeepsDots (f : Text → Text) (component : Text) : Prop :=
  (f component = here ↔ component = here) ∧ (f component = parent ↔ component = parent)

theorem foldl_follow_map {f : Text → Text} {walk : List Text} (stack : List Text)
    (h : ∀ component ∈ walk, KeepsDots f component) :
    (walk.map f).foldl follow (stack.map f) = (walk.foldl follow stack).map f := by
  induction walk generalizing stack with
  | nil => rfl
  | cons component walk ih =>
    -- One step commutes with the respelling, since it looks at the component for dots only.
    have hfollow : follow (stack.map f) (f component) = (follow stack component).map f := by
      have hdots := h component (by simp)
      simp only [follow, hdots.1, hdots.2]
      split
      · rfl
      · split <;> simp
    have hrest := ih (follow stack component) (fun name hname => h name (by simp [hname]))
    simpa [hfollow] using hrest

theorem resolve_map {f : Text → Text} {walk : List Text}
    (h : ∀ component ∈ walk, KeepsDots f component) :
    resolve (walk.map f) = (resolve walk).map f := by
  have hwalk : (walk.map f).foldl follow [] = (walk.foldl follow []).map f :=
    foldl_follow_map [] h
  simp [resolve, hwalk]

/-! ## The way between two directories -/

theorem steps_nil_left (target : List Text) : steps [] target = target := by
  simp [steps]

/-- The way does not depend on what the two directories have in common. -/
theorem steps_append (common dir target : List Text) :
    steps (common ++ dir) (common ++ target) = steps dir target := by
  induction common with
  | nil => rfl
  | cons name common ih => simpa [steps] using ih

/-- The way to what is below leads down only. -/
theorem steps_self_append (dir rest : List Text) : steps dir (dir ++ rest) = rest := by
  have hcommon := steps_append dir [] rest
  rwa [List.append_nil, steps_nil_left] at hcommon

theorem mem_steps {dir target : List Text} {step : Text} (h : step ∈ steps dir target) :
    step = parent ∨ step ∈ target := by
  induction dir generalizing target with
  | nil =>
    rw [steps_nil_left] at h
    exact Or.inr h
  | cons d dir ih =>
    cases target with
    | nil =>
      have h : step ∈ (d :: dir).map (fun _ => parent) := by simpa [steps] using h
      rcases List.mem_map.1 h with ⟨_, _, rfl⟩
      exact Or.inl rfl
    | cons t target =>
      rw [steps] at h
      split at h
      · rcases ih h with h | h
        · exact Or.inl h
        · exact Or.inr (List.mem_cons_of_mem t h)
      · rcases List.mem_append.1 h with h | h
        · rcases List.mem_map.1 h with ⟨_, _, rfl⟩
          exact Or.inl rfl
        · exact Or.inr h

/-- A name that `dir` does not have is the end of the way if it is the end of the target. -/
theorem steps_append_name {dir : List Text} (target : List Text) {name : Text}
    (h : name ∉ dir) : steps dir (target ++ [name]) = steps dir target ++ [name] := by
  induction dir generalizing target with
  | nil => simp [steps_nil_left]
  | cons d dir ih =>
    simp only [List.mem_cons, not_or] at h
    cases target with
    | nil => simp [steps, Ne.symm h.1]
    | cons t target =>
      by_cases ht : d = t
      · simpa [steps, ht] using ih target h.2
      · -- From the first difference on, the whole target is on the way.
        simp [steps, ht]

/-- Respelling the target respells the way, if the respelling is not seen by `dir`. -/
theorem steps_map {f : Text → Text} {dir : List Text} (target : List Text)
    (hparent : f parent = parent) (h : ∀ d ∈ dir, ∀ t ∈ target, d = f t ↔ d = t) :
    steps dir (target.map f) = (steps dir target).map f := by
  induction dir generalizing target with
  | nil => simp [steps_nil_left]
  | cons d dir ih =>
    cases target with
    | nil => simp [steps, hparent]
    | cons t target =>
      have hrest := ih target (fun d hd t ht => h d (by simp [hd]) t (by simp [ht]))
      by_cases ht : d = t
      · have hf : d = f t := (h d (by simp) t (by simp)).2 ht
        simp only [List.map_cons, steps, if_pos hf, if_pos ht]
        exact hrest
      · have hf : d ≠ f t := by
          intro hf
          exact ht ((h d (by simp) t (by simp)).1 hf)
        simp [steps, hf, ht, hparent]

/-- The way to a directory of components consists of components. -/
theorem isComponent_of_mem_steps {dir target : List Text} {step : Text}
    (htarget : ∀ name ∈ target, IsComponent name) (h : step ∈ steps dir target) :
    IsComponent step := by
  rcases mem_steps h with rfl | h
  · exact isComponent_parent
  · exact htarget step h

end Depfile.Path
