import Depfile.Layout.Revision
import Depfile.Proofs.Layout.Words
import Depfile.Proofs.Path.Relative

/-!
# What a revision replaces

A word qualifies if it is absolute and lies under the base directory. A revision replaces exactly
the qualifying words after the first target, and there is a revision exactly if there are such
words. In particular, looking for the base directory's text first never hides a replacement.
-/

namespace Depfile.Layout

variable {scope : Scope} {text word : Text}

/-! ## The first target -/

theorem throughTarget_append_of_not {front : List Piece}
    (h : ∀ piece ∈ front, piece.isTarget = false) (back : List Piece) :
    throughTarget (front ++ back) = front ++ throughTarget back := by
  have hall : ∀ piece ∈ front, (!piece.isTarget) = true := by simpa using h
  simp [throughTarget, List.takeWhile_append_of_pos hall, List.dropWhile_append_of_pos hall]

theorem afterTarget_append_of_not {front : List Piece}
    (h : ∀ piece ∈ front, piece.isTarget = false) (back : List Piece) :
    afterTarget (front ++ back) = afterTarget back := by
  have hall : ∀ piece ∈ front, (!piece.isTarget) = true := by simpa using h
  simp [afterTarget, List.dropWhile_append_of_pos hall]

theorem throughTarget_split {before after : List Piece} {target : Piece}
    (hbefore : ∀ piece ∈ before, piece.isTarget = false) (htarget : target.isTarget = true) :
    throughTarget (before ++ target :: after) = before ++ [target] := by
  rw [throughTarget_append_of_not hbefore]
  simp [throughTarget, htarget]

theorem afterTarget_split {before after : List Piece} {target : Piece}
    (hbefore : ∀ piece ∈ before, piece.isTarget = false) (htarget : target.isTarget = true) :
    afterTarget (before ++ target :: after) = after := by
  rw [afterTarget_append_of_not hbefore]
  simp [afterTarget, htarget]

/-- Pieces are split by the first target among them, or there is none. -/
theorem exists_target_or (ps : List Piece) :
    (∃ before target after, ps = before ++ target :: after ∧
      (∀ piece ∈ before, piece.isTarget = false) ∧ target.isTarget = true) ∨
    ∀ piece ∈ ps, piece.isTarget = false := by
  cases hfind : ps.find? Piece.isTarget with
  | none => exact Or.inr (by simpa using hfind)
  | some target =>
    rcases List.find?_eq_some_iff_append.1 hfind with ⟨htarget, before, after, hps, hbefore⟩
    exact Or.inl ⟨before, target, after, hps, by simpa using hbefore, htarget⟩

theorem exists_target_split {ps : List Piece} (h : afterTarget ps ≠ []) :
    ∃ before target after, ps = before ++ target :: after ∧
      (∀ piece ∈ before, piece.isTarget = false) ∧ target.isTarget = true := by
  rcases exists_target_or ps with hsplit | hnot
  · exact hsplit
  · have hnone := afterTarget_append_of_not hnot []
    exact absurd (by simpa [afterTarget] using hnone) h

/-- Whatever comes after it, the first target stays the first target. -/
theorem afterTarget_throughTarget_append {ps : List Piece} (h : afterTarget ps ≠ [])
    (after : List Piece) : afterTarget (throughTarget ps ++ after) = after := by
  rcases exists_target_split h with ⟨before, target, rest, rfl, hbefore, htarget⟩
  rw [throughTarget_split hbefore htarget, List.append_assoc]
  exact afterTarget_split hbefore htarget

theorem throughTarget_throughTarget_append {ps : List Piece} (h : afterTarget ps ≠ [])
    (after : List Piece) : throughTarget (throughTarget ps ++ after) = throughTarget ps := by
  rcases exists_target_split h with ⟨before, target, rest, rfl, hbefore, htarget⟩
  rw [throughTarget_split hbefore htarget, List.append_assoc]
  exact throughTarget_split hbefore htarget

theorem spaced_split (text : Text) :
    Spaced (throughTarget (pieces text) ++ afterTarget (pieces text)) := by
  rw [throughTarget_append_afterTarget]
  exact spaced_pieces text

theorem settle_split (text : Text) :
    settle (throughTarget (pieces text) ++ afterTarget (pieces text)) =
      throughTarget (pieces text) ++ afterTarget (pieces text) := by
  rw [throughTarget_append_afterTarget]
  exact settle_pieces text

/-! ## Qualifying words -/

/-- An absolute word under the base directory. -/
def Qualifies (scope : Scope) (word : Text) : Prop :=
  Path.isAbsolute word = true ∧ Path.isUnder word scope.base = true

theorem relativizeWord_eq_self_iff : relativizeWord scope word = word ↔ ¬Qualifies scope word := by
  unfold relativizeWord Qualifies
  by_cases habs : Path.isAbsolute word = true
  · simp [habs, Scope.relativize_eq_self_iff habs]
  · simp [habs]

theorem relativizeWord_of_qualifies (h : Qualifies scope word) :
    relativizeWord scope word = Path.relativeTo scope.cwd word := by
  simp [relativizeWord, h.1, Scope.relativize_of_isUnder h.2]

theorem relativizeWord_of_not_isAbsolute (scope : Scope) (h : Path.isAbsolute word = false) :
    relativizeWord scope word = word := by
  simp [relativizeWord, h]

theorem isWord_relativizeWord (h : IsWord word) : IsWord (relativizeWord scope word) := by
  by_cases hword : Qualifies scope word
  · rw [relativizeWord_of_qualifies hword]
    refine ⟨Path.relativeTo_ne_nil scope.cwd hword.1, ?_⟩
    intro c hc
    rcases Path.mem_relativeTo scope.cwd hword.1 hc with rfl | hc
    · decide
    · exact h.no_blank c hc
  · rwa [relativizeWord_eq_self_iff.2 hword]

theorem relativizePiece_eq : relativizePiece scope = mapWord (relativizeWord scope) := by
  funext piece
  cases piece <;> rfl

theorem replacement?_eq_none_iff {piece : Piece} :
    replacement? scope piece = none ↔ ∀ word, piece = .word word → ¬Qualifies scope word := by
  cases piece with
  | blank c => simp [replacement?]
  | word text => simp [replacement?, ← relativizeWord_eq_self_iff]

/-! ## Revisions -/

theorem occurs_of_isInfix {needle text : Text} (h : needle <:+: text) :
    Text.occurs needle text = true := by
  induction text with
  | nil => simp [Text.occurs, List.infix_nil.1 h]
  | cons c text ih =>
    rcases List.infix_cons_iff.1 h with h | h
    · simp [Text.occurs, List.isPrefixOf_iff_prefix.2 h]
    · simp [Text.occurs, ih h]

theorem isInfix_render {ps : List Piece} (h : Piece.word word ∈ ps) : word <:+: render ps := by
  rcases List.append_of_mem h with ⟨before, after, rfl⟩
  exact ⟨render before, render after, by simp [Piece.text]⟩

/-- The search for the base directory's text finds every qualifying word. -/
theorem occurs_of_qualifies (hmem : Piece.word word ∈ pieces text) (h : Qualifies scope word) :
    Text.occurs scope.base text = true := by
  have hword := isInfix_render hmem
  rw [render_pieces] at hword
  exact occurs_of_isInfix ((Path.isPrefix_of_isUnder h.2).isInfix.trans hword)

theorem mem_pieces_of_mem_afterTarget {piece : Piece} {ps : List Piece}
    (h : piece ∈ afterTarget ps) : piece ∈ ps := by
  rw [← throughTarget_append_afterTarget ps]
  exact List.mem_append_right _ h

/-- The text with all qualifying words after the first target replaced. -/
def revised (scope : Scope) (text : Text) : Text :=
  render (throughTarget (pieces text) ++
    (afterTarget (pieces text)).map (mapWord (relativizeWord scope)))

theorem map_relativizeWord_eq_self {ps : List Piece}
    (h : ∀ word, Piece.word word ∈ ps → ¬Qualifies scope word) :
    ps.map (mapWord (relativizeWord scope)) = ps := by
  have hmap : ps.map (mapWord (relativizeWord scope)) = ps.map id := by
    apply List.map_congr_left
    intro piece hpiece
    cases piece with
    | blank c => rfl
    | word word => exact congrArg Piece.word (relativizeWord_eq_self_iff.2 (h word hpiece))
  rw [hmap, List.map_id]

/-- A text in which nothing qualifies is its own revision. -/
theorem revised_eq_self
    (h : ∀ word, Piece.word word ∈ afterTarget (pieces text) → ¬Qualifies scope word) :
    revised scope text = text := by
  rw [revised, map_relativizeWord_eq_self h, throughTarget_append_afterTarget, render_pieces]

theorem replacements_eq_nil_iff {ps : List Piece} :
    (revisePieces scope ps).replacements = [] ↔
      ∀ word, Piece.word word ∈ afterTarget ps → ¬Qualifies scope word := by
  simp only [revisePieces, List.filterMap_eq_nil_iff, replacement?_eq_none_iff]
  constructor
  · intro h word hword
    exact h _ hword word rfl
  · rintro h piece hpiece word rfl
    exact h word hpiece

/-- Without a qualifying word after the first target there is no revision. -/
theorem relativize_eq_none (hbase : scope.base ≠ [])
    (h : ∀ word, Piece.word word ∈ afterTarget (pieces text) → ¬Qualifies scope word) :
    relativize scope text = .ok none := by
  have hnone := replacements_eq_nil_iff.2 h
  simp [relativize, Scope.isActive, hbase, revise, hnone]

/-- With a qualifying word after the first target there is one. -/
theorem relativize_eq_some (hmem : Piece.word word ∈ afterTarget (pieces text))
    (h : Qualifies scope word) : relativize scope text = .ok (some (revised scope text)) := by
  have hbase : scope.base ≠ [] := (Path.isUnder_iff.1 h.2).1
  -- The search does not skip the text, and there is a replacement to report.
  have hoccurs := occurs_of_qualifies (mem_pieces_of_mem_afterTarget hmem) h
  have hsome : (revisePieces scope (pieces text)).replacements ≠ [] :=
    fun hnil => replacements_eq_nil_iff.1 hnil word hmem h
  have hrevise : revise scope text = some (revisePieces scope (pieces text)) := by
    simp only [revise, hoccurs, List.isEmpty_iff, hsome, if_true, if_false]
  simp [relativize, Scope.isActive, hbase, hrevise, revisePieces, revised, relativizePiece_eq]

theorem relativize_none_iff (hbase : scope.base ≠ []) :
    relativize scope text = .ok none ↔
      ∀ word, Piece.word word ∈ afterTarget (pieces text) → ¬Qualifies scope word := by
  constructor
  · intro hnone word hmem hword
    rw [relativize_eq_some hmem hword] at hnone
    cases hnone
  · exact relativize_eq_none hbase

/-- With a base directory there is always an answer, and the text after it is the revised one. -/
theorem exists_relativize_eq (hbase : scope.base ≠ []) (text : Text) :
    ∃ outcome, relativize scope text = .ok outcome ∧ outcome.getD text = revised scope text := by
  by_cases hnone : ∀ word, Piece.word word ∈ afterTarget (pieces text) → ¬Qualifies scope word
  · exact ⟨none, relativize_eq_none hbase hnone, (revised_eq_self hnone).symm⟩
  · simp only [Classical.not_forall, Classical.not_not] at hnone
    rcases hnone with ⟨word, hmem, hword⟩
    exact ⟨some (revised scope text), relativize_eq_some hmem hword, rfl⟩

/-- A revision says which word it is there for, and what the new text is. -/
theorem of_relativize_eq_some {newText : Text} (h : relativize scope text = .ok (some newText)) :
    newText = revised scope text ∧
      ∃ word, Piece.word word ∈ afterTarget (pieces text) ∧ Qualifies scope word := by
  have hbase : scope.base ≠ [] := by
    intro hbase
    simp [relativize, Scope.isActive, hbase] at h
  by_cases hnone : ∀ word, Piece.word word ∈ afterTarget (pieces text) → ¬Qualifies scope word
  · rw [relativize_eq_none hbase hnone] at h
    cases h
  · simp only [Classical.not_forall, Classical.not_not] at hnone
    rcases hnone with ⟨word, hmem, hword⟩
    rw [relativize_eq_some hmem hword] at h
    cases h
    exact ⟨rfl, word, hmem, hword⟩

/-! ## Callers that have a base directory -/

theorem relativize_eq_revise (hbase : scope.base ≠ []) (text : Text) :
    relativize scope text = .ok ((revise scope text).map Revision.text) := by
  simp [relativize, Scope.isActive, hbase]

theorem revise_eq_none_iff (hbase : scope.base ≠ []) :
    revise scope text = none ↔
      ∀ word, Piece.word word ∈ afterTarget (pieces text) → ¬Qualifies scope word := by
  have hnone : relativize scope text = .ok none ↔ _ := relativize_none_iff hbase
  simpa [relativize_eq_revise hbase] using hnone

/-- Whether there is anything to revise does not depend on the working directory. -/
theorem revise_eq_none_of_cwd {base : Text} {cwd : AbsolutePath} (hbase : base ≠ [])
    (h : revise ⟨base, cwd⟩ text = none) (cwd' : AbsolutePath) :
    revise ⟨base, cwd'⟩ text = none := by
  have hwords : ∀ word, Piece.word word ∈ afterTarget (pieces text) →
      ¬Qualifies ⟨base, cwd⟩ word := (revise_eq_none_iff hbase).1 h
  apply (revise_eq_none_iff hbase).2
  exact hwords

end Depfile.Layout
