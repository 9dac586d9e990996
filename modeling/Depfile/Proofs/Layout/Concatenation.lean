import Depfile.Proofs.Layout.Frame
import Depfile.Proofs.Layout.Reword

/-!
# Dependency files one after the other

A file that consists of two parts can be revised part by part, if the first part ends with a line and
the second one starts with a target that is no source file (`relativize_append`). Words are not cut
differently then (`pieces_append_of_endsLine`). And although the second part is revised
behind a target when it stands behind the first one, this makes no difference: behind its
own first word everything is revised anyway, and that word is kept
(`StartsWithTarget.reword_eq`).
-/

namespace Depfile.Layout

open Piece

variable {scope : Scope} {front back : List Piece} {text first second : Text}

/-! ## Cutting behind a line -/

theorem consPiece_ne_nil (c : Char) (ps : List Piece) : consPiece c ps ≠ [] := by
  unfold consPiece
  split
  · simp
  · split <;> simp

theorem foldr_consPiece_append (text : Text) (hfront : front ≠ []) (back : List Piece) :
    text.foldr consPiece (front ++ back) = text.foldr consPiece front ++ back := by
  -- A character is joined to the first piece, so there has to be one in front of the rest.
  induction text with
  | nil => rfl
  | cons c text ih =>
    have hne : text.foldr consPiece front ≠ [] := by
      cases text with
      | nil => exact hfront
      | cons d text => exact consPiece_ne_nil d _
    rw [List.foldr_cons, ih, consPiece_append c hne back, List.foldr_cons]

/-- The text is empty or its last line is ended. -/
def EndsLine (text : Text) : Prop :=
  text = [] ∨ text.getLast? = some '\n'

theorem pieces_append_of_endsLine (h : EndsLine first) (second : Text) :
    pieces (first ++ second) = pieces first ++ pieces second := by
  rcases h with rfl | hlast
  · rfl
  · rcases List.getLast?_eq_some_iff.1 hlast with ⟨line, rfl⟩
    -- The line feed separates words, whatever comes after it.
    have hline : ∀ rest : Text, pieces (line ++ '\n' :: rest) =
        line.foldr consPiece ([blank '\n'] ++ pieces rest) := by
      intro rest
      have hblank : pieces ('\n' :: rest) = [blank '\n'] ++ pieces rest :=
        pieces_cons_blank (by simp) rest
      rw [← hblank]
      exact List.foldr_append
    have hfold := foldr_consPiece_append line (List.cons_ne_nil (blank '\n') [])
    calc
      pieces (line ++ ['\n'] ++ second) = pieces (line ++ '\n' :: second) := by simp
      _ = line.foldr consPiece [blank '\n'] ++ pieces second := by rw [hline, hfold]
      _ = pieces (line ++ ['\n']) ++ pieces second := by rw [hline]; rfl

/-! ## A part that starts with a target -/

/-- The first word of the text is a target, and no source file that would be made relative. -/
def StartsWithTarget (scope : Scope) (text : Text) : Prop :=
  ∃ (gap target : Text) (rest : List Piece),
    pieces text = gap.map blank ++ word target :: rest ∧
      (word target).isTarget = true ∧ ¬Qualifies scope target

theorem startsWithTarget_of_division {division : Division} (h : division.IsMaximal)
    {target : Text} (hfirst : division.words.head? = some target)
    (htarget : Token.isTarget target = true) (hkept : ¬Qualifies scope target) :
    StartsWithTarget scope division.text := by
  rcases division with ⟨leading, stretches⟩
  rcases List.head?_eq_some_iff.1 hfirst with ⟨words, hwords⟩
  rcases List.map_eq_cons_iff.1 hwords with ⟨stretch, others, rfl, rfl, _⟩
  refine ⟨leading, stretch.word, (Division.mk stretch.gap others).pieces, ?_, htarget, hkept⟩
  rw [pieces_eq_of_isMaximal h, Division.pieces_cons]

/-- In such a text it makes no difference whether the first word is looked at. -/
theorem StartsWithTarget.reword_eq (h : StartsWithTarget scope text) :
    reword scope text = revised scope text := by
  rcases h with ⟨gap, target, rest, hpieces, htarget, hkept⟩
  have hblanks : ∀ piece ∈ gap.map blank, piece.isTarget = false :=
    fun _ => Division.isTarget_of_mem_blanks
  have hgap : (gap.map blank).map (mapWord (relativizeWord scope)) = gap.map blank := by
    simp [mapWord]
  have hword : mapWord (relativizeWord scope) (word target) = word target :=
    congrArg word (relativizeWord_eq_self_iff.2 hkept)
  rw [reword, revised, hpieces, throughTarget_split hblanks htarget,
    afterTarget_split hblanks htarget, List.map_append, List.map_cons, hgap, hword]
  simp

theorem StartsWithTarget.mem_afterTarget_iff (h : StartsWithTarget scope text) {word : Text}
    (hword : Qualifies scope word) :
    Piece.word word ∈ afterTarget (pieces text) ↔ Piece.word word ∈ pieces text := by
  rcases h with ⟨gap, target, rest, hpieces, htarget, hkept⟩
  have hblanks : ∀ piece ∈ gap.map blank, piece.isTarget = false :=
    fun _ => Division.isTarget_of_mem_blanks
  -- Only the target itself could be missing behind the target.
  have hne : word ≠ target := by
    rintro rfl
    exact hkept hword
  rw [hpieces, afterTarget_split hblanks htarget]
  simp [hne]

/-! ## Both parts together -/

section

variable (hfirst : EndsLine first) (hsecond : StartsWithTarget scope second)

include hfirst hsecond

theorem revised_append_of_endsLine :
    revised scope (first ++ second) = revised scope first ++ revised scope second := by
  rw [revised, pieces_append_of_endsLine hfirst, ← hsecond.reword_eq]
  rcases exists_target_or (pieces first) with ⟨before, target, after, hpieces, hbefore, htarget⟩ | hnot
  · -- The whole second part stands behind the first target.
    rw [revised, reword, hpieces, List.append_assoc, List.cons_append,
      throughTarget_split hbefore htarget, afterTarget_split hbefore htarget,
      throughTarget_split hbefore htarget, afterTarget_split hbefore htarget]
    simp
  · -- The first part is kept, and the target of the whole is that of the second part.
    have hthrough := throughTarget_append_of_not hnot []
    have hafter := afterTarget_append_of_not hnot []
    rw [List.append_nil] at hthrough hafter
    rw [throughTarget_append_of_not hnot, afterTarget_append_of_not hnot, hsecond.reword_eq,
      revised, revised, hthrough, hafter]
    simp [throughTarget, afterTarget]

/-- A qualifying word behind the first target of the whole is one of a part. -/
theorem mem_afterTarget_append_iff {word : Text} (hword : Qualifies scope word) :
    Piece.word word ∈ afterTarget (pieces (first ++ second)) ↔
      Piece.word word ∈ afterTarget (pieces first) ∨
        Piece.word word ∈ afterTarget (pieces second) := by
  rw [pieces_append_of_endsLine hfirst]
  rcases exists_target_or (pieces first) with ⟨before, target, after, hpieces, hbefore, htarget⟩ | hnot
  · rw [hsecond.mem_afterTarget_iff hword, hpieces, List.append_assoc, List.cons_append,
      afterTarget_split hbefore htarget, afterTarget_split hbefore htarget, List.mem_append]
  · have hafter := afterTarget_append_of_not hnot []
    rw [List.append_nil] at hafter
    rw [afterTarget_append_of_not hnot, hafter]
    simp [afterTarget]

end

/-- Two parts of a file, the first of which ends with a line, can be revised one by one, if the first
word of the second part is a target that is no absolute path under the base directory. Nothing is
revised exactly if nothing is in either part. -/
theorem relativize_append (hbase : scope.base ≠ []) (hfirst : EndsLine first) (second : Text) :
    (∃! division : Division, division.IsMaximal ∧ division.text = second) ∧
    ∀ division : Division, division.IsMaximal → division.text = second →
      ∀ target : Text, division.words.head? = some target → Token.isTarget target = true →
        ¬Qualifies scope target →
          ∃ outcome₁ outcome₂ outcome : Option Text,
            relativize scope first = .ok outcome₁ ∧
            relativize scope second = .ok outcome₂ ∧
            relativize scope (first ++ second) = .ok outcome ∧
            outcome.getD (first ++ second) = outcome₁.getD first ++ outcome₂.getD second ∧
            (outcome = none ↔ outcome₁ = none ∧ outcome₂ = none) := by
  refine ⟨existsUnique_division second, ?_⟩
  rintro division hmaximal rfl target hhead htarget hkept
  have hsecond := startsWithTarget_of_division hmaximal hhead htarget hkept
  rcases exists_relativize_eq hbase first with ⟨outcome₁, h₁, htext₁⟩
  rcases exists_relativize_eq hbase division.text with ⟨outcome₂, h₂, htext₂⟩
  rcases exists_relativize_eq hbase (first ++ division.text) with ⟨outcome, h, htext⟩
  refine ⟨outcome₁, outcome₂, outcome, h₁, h₂, h, ?_, ?_⟩
  · rw [htext, htext₁, htext₂, revised_append_of_endsLine hfirst hsecond]
  · -- What decides about a text are its qualifying words, one by one.
    have hnone : ∀ {text : Text} {outcome : Option Text}, relativize scope text = .ok outcome →
        (outcome = none ↔
          ∀ word, Piece.word word ∈ afterTarget (pieces text) → ¬Qualifies scope word) := by
      intro text outcome houtcome
      rw [← relativize_none_iff hbase, houtcome]
      simp
    rw [hnone h, hnone h₁, hnone h₂, ← forall_and]
    refine forall_congr' (fun word => ?_)
    by_cases hword : Qualifies scope word
    · simp [mem_afterTarget_append_iff hfirst hsecond hword, hword]
    · simp [hword]

/-- The second part starts with a target at the end of its first line. -/
theorem relativize_append_sampleDivision :
    EndsLine ['o', ':', ' ', '/', 'p', '/', 'x', '\n'] ∧
      sampleDivision.words.head? = some ['a', ':'] ∧ Token.isTarget ['a', ':'] = true ∧
      ¬Qualifies ⟨['/', 'p'], ⟨['/', 'p', '/', 'd'], rfl⟩⟩ ['a', ':'] ∧
      ∃ outcome : Option Text,
        relativize ⟨['/', 'p'], ⟨['/', 'p', '/', 'd'], rfl⟩⟩
            (['o', ':', ' ', '/', 'p', '/', 'x', '\n'] ++ sampleDivision.text) = .ok outcome ∧
          outcome.getD (['o', ':', ' ', '/', 'p', '/', 'x', '\n'] ++ sampleDivision.text) =
            ['o', ':', ' ', '.', '.', '/', 'x', '\n'] ++
              ['a', ':', '\r', '\n', '.', '.', '/', 'b', '\t', '/', 'p', 'q', ' '] := by
  have hline : EndsLine ['o', ':', ' ', '/', 'p', '/', 'x', '\n'] := Or.inr rfl
  have hkept : ¬Qualifies ⟨['/', 'p'], ⟨['/', 'p', '/', 'd'], rfl⟩⟩ ['a', ':'] := by decide
  refine ⟨hline, rfl, rfl, hkept, ?_⟩
  have hfirst : relativize ⟨['/', 'p'], ⟨['/', 'p', '/', 'd'], rfl⟩⟩
      ['o', ':', ' ', '/', 'p', '/', 'x', '\n'] =
        .ok (some ['o', ':', ' ', '.', '.', '/', 'x', '\n']) := rfl
  have hsecond : relativize ⟨['/', 'p'], ⟨['/', 'p', '/', 'd'], rfl⟩⟩ sampleDivision.text =
      .ok (some ['a', ':', '\r', '\n', '.', '.', '/', 'b', '\t', '/', 'p', 'q', ' ']) := rfl
  have happend := @relativize_append ⟨['/', 'p'], ⟨['/', 'p', '/', 'd'], rfl⟩⟩ _ (by simp) hline
    sampleDivision.text
  rcases happend.2 sampleDivision isMaximal_sampleDivision rfl ['a', ':'] rfl rfl hkept with
    ⟨outcome₁, outcome₂, outcome, h₁, h₂, h, htext, _⟩
  rw [hfirst] at h₁
  rw [hsecond] at h₂
  cases h₁
  cases h₂
  exact ⟨outcome, h, htext⟩

end Depfile.Layout
