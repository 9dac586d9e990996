import Depfile.Proofs.Path.Inside

/-!
# The tree of paths

Among all texts that are not empty, the test whether a path lies in a directory is the order of a
tree: the directories above a path form a chain, from the path itself up. A separator at the end makes
another element of the tree, so that `/p/` lies between `/p` and `/p/q`. Normal forms other than the
root have no such separators, and their tree is the one of lists of names (`isUnder_normalize_iff`).
-/

namespace Depfile.Path

variable {path dir other : Text}

theorem isUnder_self_iff : isUnder path path = true ↔ path ≠ [] := by
  constructor
  · exact ne_nil_of_isUnder
  · exact isUnder_refl

theorem isUnder_antisymm (h : isUnder path dir = true) (h' : isUnder dir path = true) :
    path = dir :=
  (isPrefix_of_isUnder h').eq_of_length_le (isPrefix_of_isUnder h).length_le

/-! ## Directories above one path -/

/-- A boundary that is one for a longer text is one for how that text begins. -/
theorem AtBoundary.of_append {front back : Text} (h : AtBoundary dir (front ++ back)) :
    AtBoundary dir front := by
  rcases h with hslash | hnil | ⟨tail, hcons⟩
  · exact Or.inl hslash
  · exact Or.inr (Or.inl (List.append_eq_nil_iff.1 hnil).1)
  · cases front with
    | nil => exact Or.inr (Or.inl rfl)
    | cons c front =>
      -- The text begins with the first character of its front.
      rcases List.cons.inj hcons with ⟨rfl, _⟩
      exact Or.inr (Or.inr ⟨front, rfl⟩)

/-- What stands between a directory and a path under it is under the directory too. It need not end
at a boundary itself. -/
theorem isUnder_of_isPrefix (h : isUnder path dir = true) (hother : other <+: path)
    (hdir : dir <+: other) : isUnder other dir = true := by
  rcases hdir with ⟨front, rfl⟩
  rcases hother with ⟨back, rfl⟩
  rcases isUnder_iff.1 h with ⟨hne, rest, hrest, hseam⟩
  have heq : front ++ back = rest := by
    simpa using hrest
  subst heq
  exact isUnder_iff.2 ⟨hne, front, rfl, hseam.of_append⟩

/-- Of two directories above one path the one with the shorter text is above the other one. -/
theorem isUnder_comparable (hdir : isUnder path dir = true) (hother : isUnder path other = true) :
    isUnder dir other = true ∨ isUnder other dir = true := by
  have hdirPath := isPrefix_of_isUnder hdir
  have hotherPath := isPrefix_of_isUnder hother
  rcases List.prefix_or_prefix_of_prefix hdirPath hotherPath with hshorter | hlonger
  · exact Or.inr (isUnder_of_isPrefix hdir hotherPath hshorter)
  · exact Or.inl (isUnder_of_isPrefix hother hdirPath hlonger)

/-! ## The order -/

/-- The test is the order of a tree: reflexive where there is any text, antisymmetric and
transitive, and total on the directories above a path. On normal forms it is the prefix order of
their components. -/
theorem isUnder_treeOrder :
    (∀ path : Text, isUnder path path = true ↔ path ≠ []) ∧
    (∀ path dir : Text, isUnder path dir = true → isUnder dir path = true → path = dir) ∧
    (∀ path mid dir : Text, isUnder path mid = true → isUnder mid dir = true →
      isUnder path dir = true) ∧
    (∀ path dir other : Text, isUnder path dir = true → isUnder path other = true →
      isUnder dir other = true ∨ isUnder other dir = true) ∧
    ∀ path dir : AbsolutePath,
      isUnder (normalize path.text) (normalize dir.text) = true ↔
        components (normalize dir.text) <+: components (normalize path.text) := by
  refine ⟨fun _ => isUnder_self_iff, fun _ _ => isUnder_antisymm, fun _ _ _ => isUnder_trans,
    fun _ _ _ => isUnder_comparable, ?_⟩
  intro path dir
  exact isUnder_normalize_iff path.isAbsolute dir.isAbsolute

/-- Above `/p//q` there are `/p`, which is followed by a separator, and `/p/` and `/p//`, which end
with one. -/
theorem isUnder_treeOrder_slashes :
    isUnder ['/', 'p', '/', '/', 'q'] ['/', 'p', '/', '/'] = true ∧
      isUnder ['/', 'p', '/', '/'] ['/', 'p', '/'] = true ∧
      isUnder ['/', 'p', '/', '/', 'q'] ['/', 'p'] = true ∧
      isUnder ['/', 'p', '/', '/', 'q'] ['/', 'p', '/'] = true ∧
      (isUnder ['/', 'p'] ['/', 'p', '/'] = true ∨ isUnder ['/', 'p', '/'] ['/', 'p'] = true) := by
  have hlong : isUnder ['/', 'p', '/', '/', 'q'] ['/', 'p', '/', '/'] = true := by decide
  have hmid : isUnder ['/', 'p', '/', '/'] ['/', 'p', '/'] = true := by decide
  have hshort : isUnder ['/', 'p', '/', '/', 'q'] ['/', 'p'] = true := by decide
  rcases isUnder_treeOrder with ⟨_, _, htrans, hchain, _⟩
  have hbetween := htrans _ _ _ hlong hmid
  exact ⟨hlong, hmid, hshort, hbetween, hchain _ _ _ hshort hbetween⟩

end Depfile.Path
