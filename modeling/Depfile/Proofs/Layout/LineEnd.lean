import Depfile.Proofs.Layout.Revision
import Depfile.Proofs.Token.LineEnd

/-!
# Line ends of a revised text

A revision does not depend on which of the two conventions for line ends a text follows. A line feed
separates words with and without a carriage return in front of it, so a text has the same words
under both conventions (`pieces_withCarriageReturns`). No word that is written for another one has a
line end in it, so the new text follows the convention of the old one
(`relativize_withCarriageReturns`).
-/

namespace Depfile.Layout

open Piece

variable {scope : Scope} {ps : List Piece} {text : Text} {c : Char}

/-! ## Pieces -/

/-- A line feed gets a carriage return in front of it, and any other piece is kept. -/
def returnPiece : Piece → List Piece
  | .blank c => if c = '\n' then [.blank '\r', .blank '\n'] else [.blank c]
  | .word text => [.word text]

theorem startsBlank_flatMap_returnPiece (h : StartsBlank ps) :
    StartsBlank (ps.flatMap returnPiece) := by
  cases ps with
  | nil => exact startsBlank_nil
  | cons piece rest =>
    cases piece with
    | word text => exact absurd rfl (h text)
    | blank c => by_cases hline : c = '\n' <;> simp [returnPiece, hline, startsBlank_blank]

/-- Apart from the two characters of a line end, what is put in front of a text does not see which
convention the text follows. -/
theorem consPiece_flatMap_returnPiece (hline : c ≠ '\n') (hreturn : c ≠ '\r') (ps : List Piece) :
    consPiece c (ps.flatMap returnPiece) = (consPiece c ps).flatMap returnPiece := by
  by_cases hblank : c = ' ' ∨ c = '\t' ∨ c = '\n'
  · simp [consPiece_blank hblank, returnPiece, hline]
  simp only [not_or] at hblank
  have hcr : ∀ rest : List Piece, ¬(c = '\r' ∧ rest.head? = some (blank '\n')) :=
    fun _ h => hreturn h.1
  -- The character joins a word or starts one.
  by_cases hstarts : StartsBlank ps
  · have hsame := consPiece_startsBlank hblank (hcr _) (startsBlank_flatMap_returnPiece hstarts)
    simp [hsame, consPiece_startsBlank hblank (hcr ps) hstarts, returnPiece]
  · simp only [StartsBlank, Classical.not_forall, Classical.not_not] at hstarts
    rcases hstarts with ⟨text, hhead⟩
    rcases List.head?_eq_some_iff.1 hhead with ⟨rest, rfl⟩
    simp [returnPiece, consPiece_word hblank]

/-- A text has the same words under both conventions. -/
theorem pieces_withCarriageReturns (h : '\r' ∉ text) :
    pieces text.withCarriageReturns = (pieces text).flatMap returnPiece := by
  induction text with
  | nil => rfl
  | cons c rest ih =>
    obtain ⟨hreturn, hrest⟩ : c ≠ '\r' ∧ '\r' ∉ rest := by simpa [eq_comm] using h
    by_cases hline : c = '\n'
    · -- The carriage return sees the line feed behind it, so it joins no word.
      subst hline
      calc
        pieces (Text.withCarriageReturns ('\n' :: rest)) =
            consPiece '\r' (consPiece '\n' (pieces (Text.withCarriageReturns rest))) := rfl
        _ = blank '\r' :: blank '\n' :: pieces (Text.withCarriageReturns rest) := by
          simp [consPiece, separates]
        _ = (pieces ('\n' :: rest)).flatMap returnPiece := by
          simp [ih hrest, pieces_cons_blank, returnPiece]
    · calc
        pieces (Text.withCarriageReturns (c :: rest)) =
            consPiece c (pieces (Text.withCarriageReturns rest)) := by
          rw [Text.withCarriageReturns_cons hline]
          rfl
        _ = consPiece c ((pieces rest).flatMap returnPiece) := by rw [ih hrest]
        _ = (pieces (c :: rest)).flatMap returnPiece :=
          consPiece_flatMap_returnPiece hline hreturn (pieces rest)

/-- Writing pieces whose words have no line feed follows the convention of the pieces. -/
theorem render_flatMap_returnPiece (h : ∀ word, Piece.word word ∈ ps → '\n' ∉ word) :
    render (ps.flatMap returnPiece) = (render ps).withCarriageReturns := by
  have hpiece : ∀ piece ∈ ps, render (returnPiece piece) = piece.text.withCarriageReturns := by
    intro piece hmem
    cases piece with
    | blank c =>
      by_cases hline : c = '\n' <;>
        simp [returnPiece, hline, Piece.text, Text.withCarriageReturns]
    | word word =>
      simp [returnPiece, Piece.text, Text.withCarriageReturns_eq_self (h word hmem)]
  calc
    render (ps.flatMap returnPiece) = ps.flatMap (fun piece => render (returnPiece piece)) :=
      render_flatMap returnPiece ps
    _ = ps.flatMap (fun piece => piece.text.withCarriageReturns) := List.flatMap_congr hpiece
    _ = (render ps).withCarriageReturns := List.flatMap_assoc.symm

theorem mem_flatMap_returnPiece {word : Text} :
    Piece.word word ∈ ps.flatMap returnPiece ↔ Piece.word word ∈ ps := by
  have hpiece : ∀ piece, Piece.word word ∈ returnPiece piece ↔ Piece.word word = piece := by
    intro piece
    cases piece with
    | blank c => by_cases hline : c = '\n' <;> simp [returnPiece, hline]
    | word text => simp [returnPiece]
  simp [List.mem_flatMap, hpiece]

theorem map_mapWord_flatMap_returnPiece (f : Text → Text) (ps : List Piece) :
    (ps.flatMap returnPiece).map (mapWord f) = (ps.map (mapWord f)).flatMap returnPiece := by
  have hpiece : ∀ piece, (returnPiece piece).map (mapWord f) = returnPiece (mapWord f piece) := by
    intro piece
    cases piece with
    | blank c => by_cases hline : c = '\n' <;> simp [returnPiece, hline, mapWord]
    | word text => rfl
  simp [List.map_flatMap, List.flatMap_map, hpiece]

/-! ## The first target -/

/-- The first target is the same word under both conventions. -/
theorem afterTarget_flatMap_returnPiece (ps : List Piece) :
    afterTarget (ps.flatMap returnPiece) = (afterTarget ps).flatMap returnPiece := by
  induction ps with
  | nil => rfl
  | cons piece rest ih =>
    -- Whatever comes before the first target is dropped, and with it its carriage returns.
    cases piece with
    | blank c =>
      by_cases hline : c = '\n' <;>
        simpa [returnPiece, hline, afterTarget, isTarget] using ih
    | word text =>
      by_cases htarget : Token.isTarget text = true
      · simp [returnPiece, afterTarget, isTarget, htarget]
      · simpa [returnPiece, afterTarget, isTarget, htarget] using ih

theorem throughTarget_flatMap_returnPiece (ps : List Piece) :
    throughTarget (ps.flatMap returnPiece) = (throughTarget ps).flatMap returnPiece := by
  -- What is cut off is known, so what is left follows from the whole.
  have hwhole : throughTarget (ps.flatMap returnPiece) ++ (afterTarget ps).flatMap returnPiece =
      (throughTarget ps).flatMap returnPiece ++ (afterTarget ps).flatMap returnPiece := by
    rw [← afterTarget_flatMap_returnPiece, throughTarget_append_afterTarget,
      afterTarget_flatMap_returnPiece, ← List.flatMap_append, throughTarget_append_afterTarget]
  exact List.append_cancel_right hwhole

/-! ## Revisions -/

/-- The revised text follows the convention of the old one. -/
theorem revised_withCarriageReturns (scope : Scope) (h : '\r' ∉ text) :
    revised scope text.withCarriageReturns = (revised scope text).withCarriageReturns := by
  -- A line end could only come in with a new word, but new words are words of a text as well.
  have hwords : ∀ word, Piece.word word ∈ throughTarget (pieces text) ++
      (afterTarget (pieces text)).map (mapWord (relativizeWord scope)) → '\n' ∉ word := by
    intro word hword hline
    have hspaced := (spaced_split text).append_map (f := relativizeWord scope)
      (fun old hold => isWord_relativizeWord (isWord_of_mem (spaced_split text).of_append hold))
    exact ((isWord_of_mem hspaced hword).no_blank '\n' hline).2.2 rfl
  calc
    revised scope text.withCarriageReturns =
        render ((throughTarget (pieces text) ++
          (afterTarget (pieces text)).map (mapWord (relativizeWord scope))).flatMap returnPiece) := by
      simp [revised, pieces_withCarriageReturns h, throughTarget_flatMap_returnPiece,
        afterTarget_flatMap_returnPiece, map_mapWord_flatMap_returnPiece]
    _ = (revised scope text).withCarriageReturns := render_flatMap_returnPiece hwords

/-- A text is revised alike under both conventions for line ends: there is a revision with carriage
returns exactly if there is one without them, and it differs only in them. -/
theorem relativize_withCarriageReturns (hbase : scope.base ≠ []) (hreturn : '\r' ∉ text) :
    ∃ outcome, relativize scope text = .ok outcome ∧
      relativize scope text.withCarriageReturns = .ok (outcome.map Text.withCarriageReturns) := by
  have hmem : ∀ word, Piece.word word ∈ afterTarget (pieces text.withCarriageReturns) ↔
      Piece.word word ∈ afterTarget (pieces text) := by
    intro word
    rw [pieces_withCarriageReturns hreturn, afterTarget_flatMap_returnPiece,
      mem_flatMap_returnPiece]
  -- Whether there is a revision at all depends only on the words behind the first target.
  by_cases hnone : ∀ word, Piece.word word ∈ afterTarget (pieces text) → ¬Qualifies scope word
  · refine ⟨none, relativize_eq_none hbase hnone, ?_⟩
    exact relativize_eq_none hbase (fun word hword => hnone word ((hmem word).1 hword))
  · simp only [Classical.not_forall, Classical.not_not] at hnone
    rcases hnone with ⟨word, hword, hqualifies⟩
    refine ⟨some (revised scope text), relativize_eq_some hword hqualifies, ?_⟩
    have hsome := relativize_eq_some ((hmem word).2 hword) hqualifies
    rw [hsome, revised_withCarriageReturns scope hreturn]
    rfl

/-- An empty line, and a last line that is not ended. -/
theorem relativize_withCarriageReturns_lines :
    (['/', 'p'] : Text) ≠ [] ∧
    '\r' ∉ ['o', ':', ' ', '/', 'p', '/', 'a', '\n', '\n', '/', 'p', '/', 'b', ' ', '/', 'q'] ∧
    relativize ⟨['/', 'p'], ⟨['/', 'p', '/', 'd'], rfl⟩⟩
        ['o', ':', ' ', '/', 'p', '/', 'a', '\r', '\n', '\r', '\n', '/', 'p', '/', 'b', ' ', '/', 'q'] =
      .ok (some ['o', ':', ' ', '.', '.', '/', 'a', '\r', '\n', '\r', '\n', '.', '.', '/', 'b', ' ',
        '/', 'q']) := by
  have hbase : (['/', 'p'] : Text) ≠ [] := by simp
  have hreturn : '\r' ∉
      ['o', ':', ' ', '/', 'p', '/', 'a', '\n', '\n', '/', 'p', '/', 'b', ' ', '/', 'q'] := by
    decide
  have hlines : relativize ⟨['/', 'p'], ⟨['/', 'p', '/', 'd'], rfl⟩⟩
        ['o', ':', ' ', '/', 'p', '/', 'a', '\n', '\n', '/', 'p', '/', 'b', ' ', '/', 'q'] =
      .ok (some ['o', ':', ' ', '.', '.', '/', 'a', '\n', '\n', '.', '.', '/', 'b', ' ', '/', 'q']) :=
    rfl
  rcases @relativize_withCarriageReturns ⟨['/', 'p'], ⟨['/', 'p', '/', 'd'], rfl⟩⟩ _ hbase hreturn with
    ⟨outcome, houtcome, hreturns⟩
  rw [hlines] at houtcome
  cases houtcome
  exact ⟨hbase, hreturn, hreturns⟩

end Depfile.Layout
