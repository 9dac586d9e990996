import Depfile.Proofs.Layout.Idempotence

/-!
# Revising for a narrow base directory first

A file may have been revised for a base directory before it is revised for a directory above it. The
second revision gives what it would have given for the old file (`relativize_narrow_wide`). It finds the
words of the old file again, apart from those that have lost a carriage return to a line end. These are
relative paths, which no revision touches (`render_map_settle_map`). And what is written for a word does
not depend on the base directory it is written for (`relativizeWord_narrow_wide`).
-/

namespace Depfile.Layout

open Piece

variable {narrow wide : Text} {cwd : AbsolutePath} {text : Text}

/-! ## One word -/

/-- A word under the narrow directory is under the wide one too, and its relative form is the same. -/
theorem relativizeWord_narrow_wide (h : Path.isUnder narrow wide = true) (word : Text) :
    relativizeWord ⟨wide, cwd⟩ (relativizeWord ⟨narrow, cwd⟩ word) =
      relativizeWord ⟨wide, cwd⟩ word := by
  by_cases hnarrow : Qualifies ⟨narrow, cwd⟩ word
  · -- The new word is not absolute, so the second revision keeps it.
    have hwide : Qualifies ⟨wide, cwd⟩ word := ⟨hnarrow.1, Path.isUnder_trans hnarrow.2 h⟩
    have hrelative := Path.isAbsolute_relativeTo cwd hnarrow.1
    rw [relativizeWord_of_qualifies hnarrow, relativizeWord_of_qualifies hwide]
    exact relativizeWord_of_not_isAbsolute ⟨wide, cwd⟩ hrelative
  · rw [relativizeWord_eq_self_iff.2 hnarrow]

/-- No revision touches a word that another one has written, nor the beginning of such a word. -/
theorem relativizeWord_of_isPrefix (scope : Scope) {scope' : Scope} {word start : Text}
    (hchanged : relativizeWord scope' word ≠ word) (h : start <+: relativizeWord scope' word) :
    relativizeWord scope start = start := by
  have hword : Qualifies scope' word :=
    Classical.byContradiction (fun hword => hchanged (relativizeWord_eq_self_iff.2 hword))
  rw [relativizeWord_of_qualifies hword] at h
  have hrelative := Path.isAbsolute_relativeTo scope'.cwd hword.1
  exact relativizeWord_of_not_isAbsolute scope (Path.isAbsolute_of_isPrefix h hrelative)

/-! ## The words that are cut again -/

variable {f g : Text → Text} {ps : List Piece}

/-- A word that loses its carriage return is written as before, if the function keeps it and what is
left of it. -/
theorem render_map_settle_word {old : Text} (h : Loosens old ps → g old = old)
    (hstart : Loosens old ps → g old.dropLast = old.dropLast) :
    render ((settle (word old :: ps)).map (mapWord g)) =
      g old ++ render ((settle ps).map (mapWord g)) := by
  by_cases hloose : Loosens old ps
  · rcases List.getLast?_eq_some_iff.1 hloose.1 with ⟨start, rfl⟩
    have hword : render ((wordOf start).map (mapWord g)) = start := by
      have hkept : g start = start := by simpa using hstart hloose
      by_cases hempty : start = []
      · simp [wordOf, hempty]
      · simp [wordOf, hempty, mapWord, Piece.text, hkept]
    rw [h hloose]
    simp [settle, hloose, hword, mapWord, Piece.text]
  · simp [settle, hloose, mapWord, Piece.text]

/-- Where the second function keeps what the first one has written, it does not matter that the pieces
are settled in between. -/
theorem render_map_settle_map (h : settle ps = ps)
    (hkept : ∀ old, word old ∈ ps → f old ≠ old → ∀ start, start <+: f old → g start = start) :
    render ((settle (ps.map (mapWord f))).map (mapWord g)) =
      render ((ps.map (mapWord f)).map (mapWord g)) := by
  induction ps with
  | nil => rfl
  | cons piece rest ih =>
    have hrest := ih (settle_tail h) (fun old hold => hkept old (by simp [hold]))
    cases piece with
    | blank c => simpa [settle, mapWord] using hrest
    | word old =>
      have hchanged : Loosens (f old) (rest.map (mapWord f)) → f old ≠ old := by
        -- A word that was kept has not been loosened before, and the piece after it is the same.
        intro hloose hsame
        rw [hsame] at hloose
        exact (settle_word_eq_iff.1 h).1 (loosens_map.1 hloose)
      -- What a changed word has lost to the line end is put back, and the word is kept.
      have hword := hkept old (by simp)
      calc
        render ((settle ((word old :: rest).map (mapWord f))).map (mapWord g)) =
            g (f old) ++ render ((settle (rest.map (mapWord f))).map (mapWord g)) :=
          render_map_settle_word
            (fun hloose => hword (hchanged hloose) _ (List.prefix_refl _))
            (fun hloose => hword (hchanged hloose) _ (List.dropLast_prefix _))
        _ = render (((word old :: rest).map (mapWord f)).map (mapWord g)) := by
          rw [hrest]
          simp [mapWord, Piece.text]

/-! ## Two revisions -/

theorem mapWord_comp (g f : Text → Text) : mapWord g ∘ mapWord f = mapWord (g ∘ f) := by
  funext piece
  cases piece <;> rfl

/-- Two revisions do with every word what both do with it, one after the other. -/
theorem revised_revised (scope scope' : Scope) (text : Text) :
    revised scope' (revised scope text) =
      render (throughTarget (pieces text) ++ (afterTarget (pieces text)).map
        (mapWord (relativizeWord scope' ∘ relativizeWord scope))) := by
  by_cases hafter : afterTarget (pieces text) = []
  · -- There may be no target, and nothing is revised either time.
    have hkept : revised scope text = text := revised_eq_self (by simp [hafter])
    rw [hkept, revised, hafter]
    rfl
  have hcut : render ((settle ((afterTarget (pieces text)).map (mapWord (relativizeWord scope)))).map
        (mapWord (relativizeWord scope'))) =
      render (((afterTarget (pieces text)).map (mapWord (relativizeWord scope))).map
        (mapWord (relativizeWord scope'))) :=
    render_map_settle_map (settle_of_append (settle_split text))
      (fun _ _ hchanged _ hstart => relativizeWord_of_isPrefix scope' hchanged hstart)
  rw [revised, throughTarget_pieces_revised hafter, afterTarget_pieces_revised hafter, render_append,
    hcut, List.map_map, mapWord_comp, ← render_append]

theorem revised_narrow_wide (h : Path.isUnder narrow wide = true) (cwd : AbsolutePath)
    (text : Text) :
    revised ⟨wide, cwd⟩ (revised ⟨narrow, cwd⟩ text) = revised ⟨wide, cwd⟩ text := by
  have hwords : relativizeWord ⟨wide, cwd⟩ ∘ relativizeWord ⟨narrow, cwd⟩ =
      relativizeWord ⟨wide, cwd⟩ :=
    funext (relativizeWord_narrow_wide h)
  rw [revised_revised, hwords, revised]

/-- A file that was revised for a narrow base directory before is revised for a wider one as if it had
not been. -/
theorem relativize_narrow_wide (h : Path.isUnder narrow wide = true) (cwd : AbsolutePath)
    (text : Text) :
    ∃ first second direct : Option Text,
      relativize ⟨narrow, cwd⟩ text = .ok first ∧
      relativize ⟨wide, cwd⟩ (first.getD text) = .ok second ∧
      relativize ⟨wide, cwd⟩ text = .ok direct ∧
      second.getD (first.getD text) = direct.getD text := by
  have hnarrow : narrow ≠ [] := Path.ne_nil_of_isUnder h
  have hwide : wide ≠ [] := (Path.isUnder_iff.1 h).1
  rcases @exists_relativize_eq ⟨narrow, cwd⟩ hnarrow text with ⟨first, hfirst, hfirstText⟩
  rcases @exists_relativize_eq ⟨wide, cwd⟩ hwide (first.getD text) with
    ⟨second, hsecond, hsecondText⟩
  rcases @exists_relativize_eq ⟨wide, cwd⟩ hwide text with ⟨direct, hdirect, hdirectText⟩
  refine ⟨first, second, direct, hfirst, hsecond, hdirect, ?_⟩
  rw [hsecondText, hfirstText, hdirectText, revised_narrow_wide h]

/-- The first revision leaves a word that ends with a carriage return at the end of a line, and what the
second one finds there is shorter. -/
theorem relativize_narrow_wide_carriageReturn :
    Path.isUnder ['/', 'p', '/', 'd'] ['/', 'p', '/'] = true ∧
      relativize ⟨['/', 'p', '/', 'd'], ⟨['/', 'p', '/', 'd'], rfl⟩⟩
          ['a', ':', ' ', '/', 'p', '/', 'd', '/', 'b', '\r', '/', '\n', '/', 'p', '/', 'c'] =
        .ok (some ['a', ':', ' ', 'b', '\r', '\n', '/', 'p', '/', 'c']) ∧
      ∃ second : Option Text,
        relativize ⟨['/', 'p', '/'], ⟨['/', 'p', '/', 'd'], rfl⟩⟩
            ['a', ':', ' ', 'b', '\r', '\n', '/', 'p', '/', 'c'] = .ok second ∧
          second.getD ['a', ':', ' ', 'b', '\r', '\n', '/', 'p', '/', 'c'] =
            ['a', ':', ' ', 'b', '\r', '\n', '.', '.', '/', 'c'] := by
  have hunder : Path.isUnder ['/', 'p', '/', 'd'] ['/', 'p', '/'] = true := rfl
  have hnarrow : relativize ⟨['/', 'p', '/', 'd'], ⟨['/', 'p', '/', 'd'], rfl⟩⟩
      ['a', ':', ' ', '/', 'p', '/', 'd', '/', 'b', '\r', '/', '\n', '/', 'p', '/', 'c'] =
        .ok (some ['a', ':', ' ', 'b', '\r', '\n', '/', 'p', '/', 'c']) := rfl
  have hwide : relativize ⟨['/', 'p', '/'], ⟨['/', 'p', '/', 'd'], rfl⟩⟩
      ['a', ':', ' ', '/', 'p', '/', 'd', '/', 'b', '\r', '/', '\n', '/', 'p', '/', 'c'] =
        .ok (some ['a', ':', ' ', 'b', '\r', '\n', '.', '.', '/', 'c']) := rfl
  rcases relativize_narrow_wide hunder ⟨['/', 'p', '/', 'd'], rfl⟩
    ['a', ':', ' ', '/', 'p', '/', 'd', '/', 'b', '\r', '/', '\n', '/', 'p', '/', 'c'] with
    ⟨first, second, direct, hfirst, hsecond, hdirect, htext⟩
  rw [hnarrow] at hfirst
  rw [hwide] at hdirect
  cases hfirst
  cases hdirect
  exact ⟨hunder, hnarrow, second, hsecond, htext⟩

end Depfile.Layout
