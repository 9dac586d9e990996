import Mathlib.Logic.Relation
import Depfile.Proofs.Path.Way

/-!
# Equality of spellings

Whether two absolute paths are spellings of one path can be seen by looking at one or two components
at a time: an empty component, `.`, `..` at the root, and a name with `..` right after it can be left
out wherever they stand. Normal forms decide whether a chain of such steps, taken in either
direction, leads from one path to the other (`normalize_decides`). No step changes where the
components lead (`Shortens.destination_eq`), and every list of components can be shortened to the
names on the way to there (`reflTransGen_destination`).
-/

namespace Depfile

open Relation

/-- What stands between the separators of the path, behind the separator that it starts with. -/
def AbsolutePath.parts (path : AbsolutePath) : List Text :=
  Path.segments path.text.tail

namespace Path

variable {parts parts' : List Text}

/-! ## Local steps -/

/-- The component is none of those that have a meaning of their own. -/
def LeadsDown (component : Text) : Prop :=
  component ≠ [] ∧ component ≠ here ∧ component ≠ parent

/-- One step in which something is left out without a look at the rest of the path. -/
inductive Shortens : List Text → List Text → Prop
  | dropEmpty (before after : List Text) : Shortens (before ++ [] :: after) (before ++ after)
  | dropHere (before after : List Text) : Shortens (before ++ here :: after) (before ++ after)
  | dropLeadingParent (after : List Text) : Shortens (parent :: after) after
  | dropDownUp (before after : List Text) {name : Text} :
      LeadsDown name → Shortens (before ++ name :: parent :: after) (before ++ after)

/-- The names on the way from the root to where the components lead. -/
def destination (parts : List Text) : List Text :=
  resolve (parts.filter (fun part => !part.isEmpty))

theorem destination_parts (path : AbsolutePath) :
    destination path.parts = resolve (components path.text) := by
  rcases isAbsolute_iff.1 path.isAbsolute with ⟨rest, hrest⟩
  rw [AbsolutePath.parts, hrest, components_slash]
  rfl

/-! ## A step leads to the same place -/

theorem destination_append_congr (h : destination parts = destination parts')
    (after : List Text) : destination (parts ++ after) = destination (parts' ++ after) := by
  simpa [destination] using resolve_append_congr h (after.filter (fun part => !part.isEmpty))

theorem Shortens.destination_eq (h : Shortens parts parts') :
    destination parts = destination parts' := by
  cases h with
  | dropEmpty before after => simp [destination]
  | dropHere before after =>
    have hhere : destination (before ++ [here]) = destination before := by
      simp [destination, resolve, follow, here]
    simpa using destination_append_congr hhere after
  | dropLeadingParent after =>
    -- At the root there is no name to be taken off.
    have hparent : destination [parent] = destination [] := rfl
    exact destination_append_congr hparent _
  | @dropDownUp before after name hname =>
    -- The name is put on the stack, and `..` takes it off again.
    have hnames : [name, parent].filter (fun part => !part.isEmpty) = [name, parent] := by
      simp [hname.1, parent]
    have hpair : destination (before ++ [name, parent]) = destination before := by
      simp only [destination, resolve, List.filter_append, hnames, List.foldl_append,
        List.foldl_cons, List.foldl_nil, follow_of_ne hname.2.1 hname.2.2, follow_parent,
        List.tail_cons]
    simpa using destination_append_congr hpair after

/-! ## Steps as far as they go -/

/-- Shortening keeps up with a walk: in front of what is still ahead there are only the names of the
directory that has been reached. -/
theorem reflTransGen_foldl_follow (walk : List Text) {stack : List Text}
    (hstack : ∀ name ∈ stack, LeadsDown name) :
    ReflTransGen Shortens (stack.reverse ++ walk)
      ((walk.filter (fun part => !part.isEmpty)).foldl follow stack).reverse := by
  induction walk generalizing stack with
  | nil => simpa using ReflTransGen.refl
  | cons part walk ih =>
    by_cases hempty : part = []
    · subst hempty
      exact .head (.dropEmpty stack.reverse walk) (ih hstack)
    rw [List.filter_cons_of_pos (by simpa using hempty), List.foldl_cons]
    by_cases hhere : part = here
    · subst hhere
      exact .head (.dropHere stack.reverse walk) (ih hstack)
    by_cases hparent : part = parent
    · subst hparent
      cases stack with
      | nil => exact .head (.dropLeadingParent walk) (ih hstack)
      | cons top stack =>
        -- The name before `..` is the top of the stack, and what is below it stays.
        rcases List.forall_mem_cons.1 hstack with ⟨htop, hothers⟩
        have hpair := Shortens.dropDownUp stack.reverse walk htop
        simpa [follow_parent] using ReflTransGen.head hpair (ih hothers)
    · have hpart : LeadsDown part := ⟨hempty, hhere, hparent⟩
      have hrest := ih (List.forall_mem_cons.2 ⟨hpart, hstack⟩)
      simpa [follow_of_ne hhere hparent] using hrest

theorem reflTransGen_destination (parts : List Text) :
    ReflTransGen Shortens parts (destination parts) :=
  reflTransGen_foldl_follow parts (List.forall_mem_nil LeadsDown)

/-! ## Chains of steps -/

theorem destination_eq_of_eqvGen (h : EqvGen Shortens parts parts') :
    destination parts = destination parts' := by
  induction h with
  | rel _ _ hstep => exact hstep.destination_eq
  | refl _ => rfl
  | symm _ _ _ ih => exact ih.symm
  | trans _ _ _ _ _ ih ih' => exact ih.trans ih'

theorem eqvGen_of_join (h : Join (ReflTransGen Shortens) parts parts') :
    EqvGen Shortens parts parts' := by
  rcases h with ⟨common, hparts, hparts'⟩
  have hfront : EqvGen Shortens parts common := EqvGen.reflTransGen_le_eqvGen _ _ _ hparts
  have hback : EqvGen Shortens parts' common := EqvGen.reflTransGen_le_eqvGen _ _ _ hparts'
  exact hfront.trans _ _ _ (hback.symm _ _)

/-- Lists of components that lead to the same place can both be shortened to the names of that
place. -/
theorem join_of_destination_eq (h : destination parts = destination parts') :
    Join (ReflTransGen Shortens) parts parts' := by
  refine ⟨destination parts, reflTransGen_destination parts, ?_⟩
  rw [h]
  exact reflTransGen_destination parts'

theorem eqvGen_iff_destination_eq :
    EqvGen Shortens parts parts' ↔ destination parts = destination parts' := by
  constructor
  · exact destination_eq_of_eqvGen
  · intro h
    exact eqvGen_of_join (join_of_destination_eq h)

theorem join_iff_destination_eq :
    Join (ReflTransGen Shortens) parts parts' ↔ destination parts = destination parts' := by
  constructor
  · intro h
    exact destination_eq_of_eqvGen (eqvGen_of_join h)
  · exact join_of_destination_eq

/-! ## Normal forms -/

/-- A path in which nothing can be left out. -/
structure IsNormal (path : Text) : Prop where
  isAbsolute : isAbsolute path = true
  isName : path = ['/'] ∨ ∀ part ∈ segments path.tail, IsName part
  no_trailing : path.getLast? = some '/' → path = ['/']

theorem segments_join {names : List Text} (hne : names ≠ [])
    (h : ∀ name ∈ names, '/' ∉ name) : segments (join names) = names := by
  induction names with
  | nil => exact absurd rfl hne
  | cons first rest ih =>
    have hfirst := segments_of_no_slash (h first (by simp))
    cases rest with
    | nil => exact hfirst
    | cons second rest =>
      have hrest := ih (by simp) (fun name hname => h name (by simp [hname]))
      rw [join_cons_cons, segments_append_slash, hfirst, hrest]
      rfl

theorem isNormal_slash_join {names : List Text} (h : ∀ name ∈ names, IsName name) :
    IsNormal ('/' :: join names) := by
  by_cases hne : names = []
  · subst hne
    exact ⟨rfl, Or.inl rfl, fun _ => rfl⟩
  refine ⟨rfl, Or.inr ?_, ?_⟩
  · -- No name has a separator, so the path is cut where the names were joined.
    rw [List.tail_cons, segments_join hne (fun name hname => (h name hname).isComponent.no_slash)]
    exact h
  · -- The last name is not empty and does not end with a separator.
    intro hlast
    have hjoin := join_ne_nil hne (fun name hname => (h name hname).isComponent)
    rw [List.getLast?_cons_of_ne_nil hjoin, ← List.dropLast_concat_getLast hne] at hlast
    exact absurd hlast (getLast?_join_ne _ (h _ (List.getLast_mem hne)).isComponent)

theorem isNormal_normalize (path : AbsolutePath) : IsNormal (normalize path.text) := by
  rw [normalize_of_isAbsolute path.isAbsolute]
  exact isNormal_slash_join (fun _ => isName_of_mem_resolve)

theorem resolve_resolve (path : Text) :
    resolve (resolve (components path)) = resolve (components path) :=
  resolve_of_isName (fun _ => isName_of_mem_resolve)

theorem normalize_normalize (path : AbsolutePath) :
    normalize (normalize path.text) = normalize path.text := by
  have habs := (isNormal_normalize path).isAbsolute
  rw [normalize_eq_iff habs path.isAbsolute, components_normalize path.isAbsolute]
  exact resolve_resolve path.text

/-- Two absolute paths have the same normal form exactly if a chain of local steps and their inverses
connects them, and exactly if steps alone bring both to one list of components. In a normal form
nothing is left to be left out. -/
theorem normalize_decides (path other : AbsolutePath) :
    (normalize path.text = normalize other.text ↔ EqvGen Shortens path.parts other.parts) ∧
    (normalize path.text = normalize other.text ↔
      Join (ReflTransGen Shortens) path.parts other.parts) ∧
    IsNormal (normalize path.text) ∧
    normalize (normalize path.text) = normalize path.text := by
  have hiff : normalize path.text = normalize other.text ↔
      destination path.parts = destination other.parts := by
    -- Names without separators are joined in one way only.
    rw [normalize_eq_iff path.isAbsolute other.isAbsolute, destination_parts, destination_parts]
  refine ⟨?_, ?_, isNormal_normalize path, normalize_normalize path⟩
  · rw [hiff, eqvGen_iff_destination_eq]
  · rw [hiff, join_iff_destination_eq]

end Path

end Depfile
