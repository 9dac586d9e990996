import Depfile.Proofs.Layout.Revision

/-!
# Revising a revised text

A revised text has no word left that qualifies, neither for the base directory it was revised for
nor for one below it, and wherever it is seen from. Its pieces need not be the pieces of the old
text with some words replaced: a new word that ends with a carriage return at the end of a line
loses it to the line end when the text is cut again. But then it is still the beginning of a
relative path, and all other words are words that the revision has kept.
-/

namespace Depfile.Layout

variable {scope : Scope} {text newText word : Text}

theorem pieces_revised (scope : Scope) (text : Text) :
    pieces (revised scope text) = throughTarget (pieces text) ++
      settle ((afterTarget (pieces text)).map (mapWord (relativizeWord scope))) := by
  have hwords : ∀ word, Piece.word word ∈ afterTarget (pieces text) →
      IsWord (relativizeWord scope word) := by
    intro word hword
    exact isWord_relativizeWord (isWord_of_mem (spaced_split text).of_append hword)
  rw [revised, pieces_render ((spaced_split text).append_map hwords)]
  exact settle_append_map (settle_split text)

theorem afterTarget_pieces_revised (h : afterTarget (pieces text) ≠ []) :
    afterTarget (pieces (revised scope text)) =
      settle ((afterTarget (pieces text)).map (mapWord (relativizeWord scope))) := by
  rw [pieces_revised]
  exact afterTarget_throughTarget_append h _

theorem throughTarget_pieces_revised (h : afterTarget (pieces text) ≠ []) :
    throughTarget (pieces (revised scope text)) = throughTarget (pieces text) := by
  rw [pieces_revised]
  exact throughTarget_throughTarget_append h _

/-- A word after the first target of a revised text was kept, or it is not absolute. -/
theorem of_mem_afterTarget_revised
    (h : Piece.word word ∈ afterTarget (pieces (revised scope text))) :
    ¬Qualifies scope word ∨ Path.isAbsolute word = false := by
  by_cases hafter : afterTarget (pieces text) = []
  · -- With nothing after the first target the revised text is the text itself.
    rw [revised_eq_self (by simp [hafter]), hafter] at h
    simp at h
  · rw [afterTarget_pieces_revised hafter] at h
    have hsettled := settle_of_append (settle_split text)
    rcases mem_settle_map hsettled h with ⟨_, hkept⟩ | ⟨old, _, hchanged, hprefix⟩
    · exact Or.inl (relativizeWord_eq_self_iff.1 hkept)
    · have hold : Qualifies scope old :=
        Classical.byContradiction (fun hold => hchanged (relativizeWord_eq_self_iff.2 hold))
      rw [relativizeWord_of_qualifies hold] at hprefix
      exact Or.inr
        (Path.isAbsolute_of_isPrefix hprefix (Path.isAbsolute_relativeTo scope.cwd hold.1))

/-- No word of a revised text qualifies for a base directory below the one of the revision. -/
theorem not_qualifies_of_mem_revised {base : Text} {cwd : AbsolutePath}
    (hbase : Path.isUnder base scope.base = true)
    (h : Piece.word word ∈ afterTarget (pieces (revised scope text))) :
    ¬Qualifies ⟨base, cwd⟩ word := by
  rintro ⟨habs, hunder⟩
  rcases of_mem_afterTarget_revised h with hkept | hrelative
  · exact hkept ⟨habs, Path.isUnder_trans hunder hbase⟩
  · rw [habs] at hrelative
    cases hrelative

theorem revise_revised {base : Text} {cwd : AbsolutePath} {revision : Revision} (hbase : base ≠ [])
    (h : revise ⟨base, cwd⟩ text = some revision) (cwd' : AbsolutePath) :
    revise ⟨base, cwd'⟩ revision.text = none := by
  have hsome : relativize ⟨base, cwd⟩ text = .ok (some revision.text) := by
    simp [relativize, Scope.isActive, hbase, h]
  have htext : revision.text = revised ⟨base, cwd⟩ text := (of_relativize_eq_some hsome).1
  apply (revise_eq_none_iff hbase).2
  intro word hword
  rw [htext] at hword
  exact not_qualifies_of_mem_revised (Path.isUnder_refl hbase) hword

/-- A revised text is not revised again, wherever it is seen from, neither for the same base
directory nor for one below it. -/
theorem relativize_relativized {base : Text} {cwd : AbsolutePath}
    (h : relativize ⟨base, cwd⟩ text = .ok (some newText)) :
    (∀ (base' : Text) (cwd' : AbsolutePath), Path.isUnder base' base = true →
      relativize ⟨base', cwd'⟩ newText = .ok none) ∧
    ∀ cwd' : AbsolutePath, relativize ⟨base, cwd'⟩ newText = .ok none := by
  rcases of_relativize_eq_some h with ⟨rfl, word, _, hword⟩
  have hbase : base ≠ [] := (Path.isUnder_iff.1 hword.2).1
  have hbelow : ∀ (base' : Text) (cwd' : AbsolutePath), Path.isUnder base' base = true →
      relativize ⟨base', cwd'⟩ (revised ⟨base, cwd⟩ text) = .ok none := by
    intro base' cwd' hunder
    refine relativize_eq_none (Path.ne_nil_of_isUnder hunder) ?_
    intro word hword
    exact not_qualifies_of_mem_revised hunder hword
  exact ⟨hbelow, fun cwd' => hbelow base cwd' (Path.isUnder_refl hbase)⟩

/-- The new word at the end of the first line ends with a carriage return, which the second cut
gives to the line end. -/
theorem relativize_relativized_carriageReturn :
    relativize ⟨['/', 'p'], ⟨['/', 'p', '/', 'd'], rfl⟩⟩
        ['a', ':', ' ', '/', 'p', '/', 'b', '\r', '/', '\n', '/', 'p', '/', 'c', ' ', '/', 'q'] =
      .ok (some ['a', ':', ' ', '.', '.', '/', 'b', '\r', '\n', '.', '.', '/', 'c', ' ', '/', 'q']) ∧
    relativize ⟨['/', 'p', '/'], AbsolutePath.root⟩
        ['a', ':', ' ', '.', '.', '/', 'b', '\r', '\n', '.', '.', '/', 'c', ' ', '/', 'q'] =
      .ok none := by
  have hfirst : relativize ⟨['/', 'p'], ⟨['/', 'p', '/', 'd'], rfl⟩⟩
        ['a', ':', ' ', '/', 'p', '/', 'b', '\r', '/', '\n', '/', 'p', '/', 'c', ' ', '/', 'q'] =
      .ok (some ['a', ':', ' ', '.', '.', '/', 'b', '\r', '\n', '.', '.', '/', 'c', ' ', '/', 'q']) :=
    rfl
  exact ⟨hfirst, (relativize_relativized hfirst).1 ['/', 'p', '/'] AbsolutePath.root rfl⟩

end Depfile.Layout
