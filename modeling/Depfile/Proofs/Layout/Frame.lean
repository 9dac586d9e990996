import Depfile.Proofs.Layout.Division
import Depfile.Proofs.Layout.Idempotence

/-!
# What a revision keeps

A revision is described by the division of its text into words: all gaps are kept, all words up to
the first target are kept, and of the later words those that qualify are replaced
(`relativize_frame`). There is no revision exactly if none of the later words qualifies
(`relativize_eq_none_iff`).
-/

namespace Depfile.Layout

open Piece

variable {scope : Scope} {text newText : Text}

instance (scope : Scope) (word : Text) : Decidable (Qualifies scope word) :=
  inferInstanceAs (Decidable (_ ∧ _))

namespace Division

variable {division : Division} {before after : List Stretch} {target : Stretch}

/-- The number of the first word that ends with a colon. Without such a word it is the number of all
words. -/
def firstTarget (division : Division) : Nat :=
  division.words.findIdx Token.isTarget

def laterWords (division : Division) : List Text :=
  division.words.drop (division.firstTarget + 1)

/-- The same gaps with other words, each made from the old one and its number. -/
def mapWords (division : Division) (f : Nat → Text → Text) : Division where
  leading := division.leading
  stretches := division.stretches.mapIdx (fun index stretch => ⟨f index stretch.word, stretch.gap⟩)

/-! ## The first target -/

/-- The first target and what stands on its two sides. -/
structure TargetSplit (division : Division) (before : List Stretch) (target : Stretch)
    (after : List Stretch) : Prop where
  stretches_eq : division.stretches = before ++ target :: after
  length_before : before.length = division.firstTarget
  isTarget_before : ∀ stretch ∈ before, Token.isTarget stretch.word = false
  isTarget_target : Token.isTarget target.word = true

theorem exists_targetSplit (h : division.firstTarget < division.stretches.length) :
    ∃ before target after, division.TargetSplit before target after := by
  have hwords : division.firstTarget < division.words.length := by
    simpa [words] using h
  refine ⟨division.stretches.take division.firstTarget, division.stretches[division.firstTarget],
    division.stretches.drop (division.firstTarget + 1), ?_, ?_, ?_, ?_⟩
  · calc
      division.stretches =
          division.stretches.take division.firstTarget ++
            division.stretches.drop division.firstTarget :=
        (List.take_append_drop _ _).symm
      _ = division.stretches.take division.firstTarget ++
            division.stretches[division.firstTarget] ::
              division.stretches.drop (division.firstTarget + 1) := by
        rw [List.drop_eq_getElem_cons h]
  · exact List.length_take_of_le (Nat.le_of_lt h)
  · intro stretch hstretch
    rcases List.mem_take_iff_getElem.1 hstretch with ⟨index, hindex, rfl⟩
    have hlt : index < division.words.findIdx Token.isTarget :=
      Nat.lt_of_lt_of_le hindex (Nat.min_le_left _ _)
    have hnot := List.not_of_lt_findIdx hlt
    simpa [words] using hnot
  · have htarget : Token.isTarget (division.words[division.firstTarget]) = true :=
      List.findIdx_getElem
    simpa [words] using htarget

theorem isTarget_of_mem_blanks {gap : Text} {piece : Piece} (h : piece ∈ gap.map blank) :
    piece.isTarget = false := by
  rcases List.mem_map.1 h with ⟨c, _, rfl⟩
  rfl

theorem isTarget_of_mem_pieces (h : ∀ stretch ∈ division.stretches,
    Token.isTarget stretch.word = false) {piece : Piece} (hpiece : piece ∈ division.pieces) :
    piece.isTarget = false := by
  rcases List.mem_append.1 hpiece with hleading | hstretches
  · exact isTarget_of_mem_blanks hleading
  · rcases List.mem_flatMap.1 hstretches with ⟨stretch, hstretch, hpiece⟩
    rcases List.mem_cons.1 hpiece with rfl | hgap
    · exact h stretch hstretch
    · exact isTarget_of_mem_blanks hgap

theorem TargetSplit.pieces_eq (h : division.TargetSplit before target after) :
    division.pieces = pieces ⟨division.leading, before⟩ ++ word target.word ::
      pieces ⟨target.gap, after⟩ := by
  rw [pieces, h.stretches_eq]
  simp [pieces, Stretch.pieces]

theorem TargetSplit.throughTarget_pieces (h : division.TargetSplit before target after) :
    throughTarget division.pieces = pieces ⟨division.leading, before⟩ ++ [word target.word] := by
  rw [h.pieces_eq]
  exact throughTarget_split (fun _ => isTarget_of_mem_pieces h.isTarget_before) h.isTarget_target

theorem TargetSplit.afterTarget_pieces (h : division.TargetSplit before target after) :
    afterTarget division.pieces = pieces ⟨target.gap, after⟩ := by
  rw [h.pieces_eq]
  exact afterTarget_split (fun _ => isTarget_of_mem_pieces h.isTarget_before) h.isTarget_target

theorem TargetSplit.laterWords_eq (h : division.TargetSplit before target after) :
    division.laterWords = after.map Stretch.word := by
  have hwords : division.words =
      (before.map Stretch.word ++ [target.word]) ++ after.map Stretch.word := by
    simp [words, h.stretches_eq]
  rw [laterWords, hwords]
  exact List.drop_left' (by simp [h.length_before])

theorem firstTarget_lt_of_mem {word : Text} (h : word ∈ division.laterWords) :
    division.firstTarget < division.stretches.length := by
  have hlength : division.firstTarget + 1 < division.words.length := by
    refine Nat.lt_of_not_le (fun hle => ?_)
    rw [laterWords, List.drop_eq_nil_of_le hle] at h
    cases h
  calc
    division.firstTarget < division.words.length := Nat.lt_of_succ_lt hlength
    _ = division.stretches.length := List.length_map _

theorem isTarget_of_firstTarget_le (h : division.stretches.length ≤ division.firstTarget) :
    ∀ stretch ∈ division.stretches, Token.isTarget stretch.word = false := by
  have hlength : division.words.findIdx Token.isTarget = division.words.length := by
    refine Nat.le_antisymm List.findIdx_le_length ?_
    calc
      division.words.length = division.stretches.length := List.length_map _
      _ ≤ division.words.findIdx Token.isTarget := h
  intro stretch hstretch
  exact List.findIdx_eq_length.1 hlength _ (List.mem_map_of_mem hstretch)

/-- The words that are looked at are the words after the first target. -/
theorem mem_afterTarget_pieces {later : Text} :
    word later ∈ afterTarget division.pieces ↔ later ∈ division.laterWords := by
  by_cases h : division.firstTarget < division.stretches.length
  · rcases exists_targetSplit h with ⟨before, target, after, hsplit⟩
    rw [hsplit.afterTarget_pieces, hsplit.laterWords_eq]
    simp [pieces, Stretch.pieces, eq_comm]
  · -- Without a target both lists are empty.
    have hle : division.stretches.length ≤ division.firstTarget := Nat.le_of_not_lt h
    have hwords : division.laterWords = [] := by
      refine List.drop_eq_nil_of_le ?_
      calc
        division.words.length = division.stretches.length := List.length_map _
        _ ≤ division.firstTarget + 1 := Nat.le_succ_of_le hle
    have hnone : afterTarget division.pieces = [] := by
      refine Classical.byContradiction (fun hne => ?_)
      rcases exists_target_split hne with ⟨front, piece, back, hpieces, _, htarget⟩
      have hnot : piece.isTarget = false :=
        isTarget_of_mem_pieces (isTarget_of_firstTarget_le hle) (by simp [hpieces])
      rw [hnot] at htarget
      cases htarget
    simp [hwords, hnone]

/-! ## Replacing later words -/

/-- If words up to the first target are kept, and the later ones are mapped without regard to their
numbers, the pieces are mapped after the first target. -/
theorem TargetSplit.pieces_mapWords (h : division.TargetSplit before target after)
    {f : Nat → Text → Text} {g : Text → Text}
    (hkept : ∀ index ≤ division.firstTarget, ∀ word, f index word = word)
    (hlater : ∀ index > division.firstTarget, ∀ word, f index word = g word) :
    (division.mapWords f).pieces =
      throughTarget division.pieces ++ (afterTarget division.pieces).map (mapWord g) := by
  have hbefore : before.mapIdx (fun index stretch => Stretch.mk (f index stretch.word) stretch.gap) =
      before := by
    refine List.ext_getElem (by simp) ?_
    intro index _ hindex
    have hle : index ≤ division.firstTarget := by
      rw [← h.length_before]
      exact Nat.le_of_lt hindex
    simp [hkept index hle]
  have hafter : after.mapIdx
        (fun index stretch => Stretch.mk (f (index + 1 + before.length) stretch.word) stretch.gap) =
      after.map (fun stretch => Stretch.mk (g stretch.word) stretch.gap) := by
    refine List.ext_getElem (by simp) ?_
    intro index _ _
    have hgt : index + 1 + before.length > division.firstTarget := by
      rw [h.length_before]
      omega
    simp [hlater _ hgt]
  have htarget : f before.length target.word = target.word :=
    hkept _ (Nat.le_of_eq h.length_before) _
  have hstretches : (division.mapWords f).stretches =
      before ++ target :: after.map (fun stretch => Stretch.mk (g stretch.word) stretch.gap) := by
    rw [mapWords, h.stretches_eq, List.mapIdx_append, List.mapIdx_cons, hbefore, hafter]
    simp [htarget]
  have hblank : mapWord g ∘ blank = blank := rfl
  rw [h.throughTarget_pieces, h.afterTarget_pieces, pieces, hstretches]
  simp [pieces, Stretch.pieces, mapWords, mapWord, hblank, List.map_flatMap, List.flatMap_map]

/-- The word that a revision puts in place of the word with the given number. -/
def revisedWord (scope : Scope) (division : Division) (index : Nat) (word : Text) : Text :=
  if division.firstTarget < index ∧ Qualifies scope word then
    Path.relativeTo scope.cwd word
  else
    word

theorem revisedWord_of_le {index : Nat} (h : index ≤ division.firstTarget) (word : Text) :
    division.revisedWord scope index word = word := by
  simp [revisedWord, Nat.not_lt_of_le h]

theorem revisedWord_of_gt {index : Nat} (h : index > division.firstTarget) (word : Text) :
    division.revisedWord scope index word = relativizeWord scope word := by
  by_cases hword : Qualifies scope word
  · simp [revisedWord, h, hword, relativizeWord_of_qualifies hword]
  · simp [revisedWord, hword, relativizeWord_eq_self_iff.2 hword]

end Division

/-! ## Revisions -/

section

variable {division : Division} (hmaximal : division.IsMaximal)

include hmaximal

theorem mem_afterTarget_pieces_text {word : Text} :
    Piece.word word ∈ afterTarget (pieces division.text) ↔ word ∈ division.laterWords := by
  rw [pieces_eq_of_isMaximal hmaximal]
  exact Division.mem_afterTarget_pieces

theorem revised_division (h : division.firstTarget < division.stretches.length) :
    revised scope division.text = (division.mapWords (division.revisedWord scope)).text := by
  rcases Division.exists_targetSplit h with ⟨before, target, after, hsplit⟩
  have hkept : ∀ index ≤ division.firstTarget, ∀ word,
      division.revisedWord scope index word = word :=
    fun _ hindex => Division.revisedWord_of_le hindex
  have hpieces := hsplit.pieces_mapWords hkept (fun _ hindex => Division.revisedWord_of_gt hindex)
  rw [revised, pieces_eq_of_isMaximal hmaximal, ← hpieces, Division.render_pieces]

end

/-- A revised text has the gaps and the words of the old one, apart from those words after the first
target that qualify: these are replaced by the paths that lead to them. -/
theorem relativize_frame (h : relativize scope text = .ok (some newText)) :
    (∃! division : Division, division.IsMaximal ∧ division.text = text) ∧
    ∀ division : Division, division.IsMaximal → division.text = text →
      newText = (division.mapWords (division.revisedWord scope)).text ∧ newText ≠ text := by
  refine ⟨existsUnique_division text, ?_⟩
  rintro division hmaximal rfl
  rcases of_relativize_eq_some h with ⟨rfl, word, hmem, hword⟩
  have hbase : scope.base ≠ [] := (Path.isUnder_iff.1 hword.2).1
  have hlater := (mem_afterTarget_pieces_text hmaximal).1 hmem
  refine ⟨revised_division hmaximal (Division.firstTarget_lt_of_mem hlater), ?_⟩
  -- The revised text has no word that qualifies, and the old one has.
  intro heq
  rw [← heq] at hmem
  exact not_qualifies_of_mem_revised (Path.isUnder_refl hbase) hmem hword

/-- A target at the end of a line, a source file, a file outside, and a blank at the end. -/
def sampleDivision : Division where
  leading := []
  stretches := [⟨['a', ':'], ['\r', '\n']⟩, ⟨['/', 'p', '/', 'b'], ['\t']⟩, ⟨['/', 'p', 'q'], [' ']⟩]

theorem isMaximal_sampleDivision : sampleDivision.IsMaximal where
  leading := isGap_nil
  isWord := by
    intro stretch hstretch
    simp only [sampleDivision, List.mem_cons, List.not_mem_nil, or_false] at hstretch
    rcases hstretch with rfl | rfl | rfl <;> exact ⟨by simp, by simp⟩
  isGap := by
    intro stretch hstretch
    simp only [sampleDivision, List.mem_cons, List.not_mem_nil, or_false] at hstretch
    rcases hstretch with rfl | rfl | rfl
    · exact ⟨[.carriageReturnLineFeed], rfl⟩
    · exact ⟨[.tab], rfl⟩
    · exact ⟨[.space], rfl⟩
  apart := by simp [sampleDivision]
  lineEnd := by decide

theorem relativize_sampleDivision :
    relativize ⟨['/', 'p'], ⟨['/', 'p', '/', 'd'], rfl⟩⟩ sampleDivision.text =
      .ok (some ['a', ':', '\r', '\n', '.', '.', '/', 'b', '\t', '/', 'p', 'q', ' ']) ∧
    (['a', ':', '\r', '\n', '.', '.', '/', 'b', '\t', '/', 'p', 'q', ' '] : Text) =
      (sampleDivision.mapWords (sampleDivision.revisedWord
        ⟨['/', 'p'], ⟨['/', 'p', '/', 'd'], rfl⟩⟩)).text := by
  have h : relativize ⟨['/', 'p'], ⟨['/', 'p', '/', 'd'], rfl⟩⟩ sampleDivision.text =
      .ok (some ['a', ':', '\r', '\n', '.', '.', '/', 'b', '\t', '/', 'p', 'q', ' ']) := rfl
  exact ⟨h, ((relativize_frame h).2 sampleDivision isMaximal_sampleDivision rfl).1⟩

/-- There is nothing to revise exactly if no word after the first target is an absolute path under
the base directory. -/
theorem relativize_eq_none_iff (hbase : scope.base ≠ []) (text : Text) :
    (∃! division : Division, division.IsMaximal ∧ division.text = text) ∧
    ∀ division : Division, division.IsMaximal → division.text = text →
      (relativize scope text = .ok none ↔ ∀ word ∈ division.laterWords, ¬Qualifies scope word) := by
  refine ⟨existsUnique_division text, ?_⟩
  rintro division hmaximal rfl
  constructor
  · intro hnone word hword hqualifies
    have hmem := (mem_afterTarget_pieces_text hmaximal).2 hword
    rw [relativize_eq_some hmem hqualifies] at hnone
    cases hnone
  · intro h
    refine relativize_eq_none hbase (fun word hmem => ?_)
    exact h word ((mem_afterTarget_pieces_text hmaximal).1 hmem)

/-- The relative base directory occurs in the text, but no absolute path is under it. -/
theorem relativize_sampleDivision_relative :
    (['p'] : Text) ≠ [] ∧
    relativize ⟨['p'], AbsolutePath.root⟩ sampleDivision.text = .ok none := by
  have hbase : (['p'] : Text) ≠ [] := by simp
  refine ⟨hbase, ?_⟩
  refine ((relativize_eq_none_iff hbase sampleDivision.text).2 sampleDivision
    isMaximal_sampleDivision rfl).2 ?_
  decide

end Depfile.Layout
