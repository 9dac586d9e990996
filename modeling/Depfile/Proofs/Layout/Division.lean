import Mathlib.Data.List.Chain
import Mathlib.Logic.ExistsUnique
import Depfile.Proofs.Layout.Separator

/-!
# Dividing a text into words

A text can be divided into words and the gaps around them in exactly one way, if each word is as
long as it can be (`existsUnique_division`). Divisions and lists of pieces are the same data, and
the division of a text is its list of pieces in that form.
-/

namespace Depfile.Layout

open Piece

/-- A word and the gap after it. -/
structure Stretch where
  word : Text
  gap : Text
deriving DecidableEq, Repr

/-- A gap, and then words with the gaps after them. -/
structure Division where
  leading : Text
  stretches : List Stretch
deriving DecidableEq, Repr

namespace Division

/-- The gaps and the words, one after the other. -/
def text (division : Division) : Text :=
  division.leading ++ division.stretches.flatMap (fun stretch => stretch.word ++ stretch.gap)

def words (division : Division) : List Text :=
  division.stretches.map Stretch.word

end Division

/-- The text between two words, at the beginning or at the end: spaces, tabs and line ends. -/
def IsGap (gap : Text) : Prop :=
  ∃ separators : List Separator, gap = separators.flatMap Separator.text

/-- The words of the division cannot be made longer: they do not touch, and a carriage return at the
end of a word is not half of a line end. -/
structure Division.IsMaximal (division : Division) : Prop where
  leading : IsGap division.leading
  isWord : ∀ stretch ∈ division.stretches, IsWord stretch.word
  isGap : ∀ stretch ∈ division.stretches, IsGap stretch.gap
  apart : division.stretches.IsChain (fun stretch _ => stretch.gap ≠ [])
  lineEnd : ∀ stretch ∈ division.stretches,
    stretch.word.getLast? = some '\r' → stretch.gap.head? ≠ some '\n'

/-! ## Gaps -/

theorem isGap_nil : IsGap [] :=
  ⟨[], rfl⟩

theorem IsGap.blank {c : Char} {gap : Text} (hc : c = ' ' ∨ c = '\t' ∨ c = '\n') (h : IsGap gap) :
    IsGap (c :: gap) := by
  rcases h with ⟨separators, rfl⟩
  rcases hc with rfl | rfl | rfl
  · exact ⟨.space :: separators, rfl⟩
  · exact ⟨.tab :: separators, rfl⟩
  · exact ⟨.lineFeed :: separators, rfl⟩

theorem IsGap.carriageReturn {gap : Text} (h : IsGap ('\n' :: gap)) :
    IsGap ('\r' :: '\n' :: gap) := by
  rcases h with ⟨separators, hseparators⟩
  -- The first separator starts with the line feed, so it is one.
  cases separators with
  | nil => cases hseparators
  | cons separator separators =>
    cases separator with
    | lineFeed =>
      refine ⟨.carriageReturnLineFeed :: separators, ?_⟩
      simpa [Separator.text] using hseparators
    | space => simp [Separator.text] at hseparators
    | tab => simp [Separator.text] at hseparators
    | carriageReturnLineFeed => simp [Separator.text] at hseparators

/-! ## Divisions and pieces -/

def Stretch.pieces (stretch : Stretch) : List Piece :=
  Piece.word stretch.word :: stretch.gap.map blank

namespace Division

def pieces (division : Division) : List Piece :=
  division.leading.map blank ++ division.stretches.flatMap Stretch.pieces

theorem pieces_cons (leading : Text) (stretch : Stretch) (stretches : List Stretch) :
    pieces ⟨leading, stretch :: stretches⟩ =
      leading.map blank ++ word stretch.word :: pieces ⟨stretch.gap, stretches⟩ := by
  simp [pieces, Stretch.pieces]

theorem render_pieces (division : Division) : render division.pieces = division.text := by
  simp [pieces, Stretch.pieces, text, Piece.text]

/-- The division with the same words and gaps as a list of pieces. -/
def ofPieces : List Piece → Division
  | [] => ⟨[], []⟩
  | .blank c :: rest => ⟨c :: (ofPieces rest).leading, (ofPieces rest).stretches⟩
  | .word text :: rest => ⟨[], ⟨text, (ofPieces rest).leading⟩ :: (ofPieces rest).stretches⟩

theorem pieces_ofPieces (ps : List Piece) : (ofPieces ps).pieces = ps := by
  induction ps with
  | nil => rfl
  | cons piece rest ih =>
    cases piece with
    | blank c => exact congrArg (blank c :: ·) ih
    | word text => exact congrArg (word text :: ·) ih

theorem ofPieces_blanks (gap : Text) (ps : List Piece) :
    ofPieces (gap.map blank ++ ps) = ⟨gap ++ (ofPieces ps).leading, (ofPieces ps).stretches⟩ := by
  induction gap with
  | nil => rfl
  | cons c gap ih => simp [ofPieces, ih]

theorem ofPieces_pieces (division : Division) : ofPieces division.pieces = division := by
  rcases division with ⟨leading, stretches⟩
  induction stretches generalizing leading with
  | nil => simpa [pieces, ofPieces] using ofPieces_blanks leading []
  | cons stretch stretches ih =>
    rw [pieces_cons, ofPieces_blanks]
    simp [ofPieces, ih stretch.gap]

/-! ## Maximal divisions -/

theorem isMaximal_nil_iff {leading : Text} : IsMaximal ⟨leading, []⟩ ↔ IsGap leading := by
  constructor
  · intro h
    exact h.leading
  · intro h
    exact ⟨h, by simp, by simp, .nil, by simp⟩

/-- The gap after the first word is the first gap of what follows. -/
theorem isMaximal_cons_iff {leading : Text} {stretch : Stretch} {stretches : List Stretch} :
    IsMaximal ⟨leading, stretch :: stretches⟩ ↔
      IsGap leading ∧ IsWord stretch.word ∧ (stretches = [] ∨ stretch.gap ≠ []) ∧
        (stretch.word.getLast? = some '\r' → stretch.gap.head? ≠ some '\n') ∧
        IsMaximal ⟨stretch.gap, stretches⟩ := by
  constructor
  · intro h
    have hapart : stretches = [] ∨ stretch.gap ≠ [] := by
      cases stretches with
      | nil => exact Or.inl rfl
      | cons next others => exact Or.inr (List.isChain_cons_cons.1 h.apart).1
    refine ⟨h.leading, h.isWord stretch (by simp), hapart, h.lineEnd stretch (by simp), ?_⟩
    exact {
      leading := h.isGap stretch (by simp)
      isWord := fun other hother => h.isWord other (by simp [hother])
      isGap := fun other hother => h.isGap other (by simp [hother])
      apart := h.apart.of_cons
      lineEnd := fun other hother => h.lineEnd other (by simp [hother]) }
  · rintro ⟨hleading, hword, hapart, hlineEnd, hrest⟩
    refine ⟨hleading, ?_, ?_, ?_, ?_⟩
    · exact List.forall_mem_cons.2 ⟨hword, hrest.isWord⟩
    · exact List.forall_mem_cons.2 ⟨hrest.leading, hrest.isGap⟩
    · cases stretches with
      | nil => exact .singleton stretch
      | cons next others =>
        refine List.isChain_cons_cons.2 ⟨?_, hrest.apart⟩
        simpa using hapart
    · exact List.forall_mem_cons.2 ⟨hlineEnd, hrest.lineEnd⟩

end Division

theorem IsGap.spaced {gap : Text} (h : IsGap gap) {rest : List Piece} (hrest : Spaced rest) :
    Spaced (gap.map Piece.blank ++ rest) := by
  rcases h with ⟨separators, rfl⟩
  exact spaced_separatorPieces separators hrest

theorem settle_blanks (gap : Text) (rest : List Piece) :
    settle (gap.map blank ++ rest) = gap.map blank ++ settle rest := by
  induction gap with
  | nil => rfl
  | cons c gap ih => simp [settle, ih]

namespace Division

theorem startsBlank_pieces {division : Division}
    (h : division.stretches = [] ∨ division.leading ≠ []) : StartsBlank division.pieces := by
  rcases division with ⟨leading, stretches⟩
  cases leading with
  | cons c leading => exact startsBlank_blank c _
  | nil =>
    have hnil : stretches = [] := by simpa using h
    simpa [pieces, hnil] using startsBlank_nil

theorem head?_pieces {division : Division} (h : division.stretches = [] ∨ division.leading ≠ [])
    (c : Char) : division.pieces.head? = some (blank c) ↔ division.leading.head? = some c := by
  rcases division with ⟨leading, stretches⟩
  cases leading with
  | cons d leading => simp [pieces]
  | nil =>
    have hnil : stretches = [] := by simpa using h
    simp [pieces, hnil]

/-- The pieces of a maximal division are what cutting its text gives. -/
theorem spaced_and_settle_pieces {division : Division} (h : division.IsMaximal) :
    Spaced division.pieces ∧ settle division.pieces = division.pieces := by
  rcases division with ⟨leading, stretches⟩
  induction stretches generalizing leading with
  | nil =>
    have hgap := isMaximal_nil_iff.1 h
    constructor
    · simpa [pieces] using hgap.spaced Spaced.nil
    · simpa [pieces, settle] using settle_blanks leading []
  | cons stretch stretches ih =>
    rcases isMaximal_cons_iff.1 h with ⟨hleading, hword, hapart, hlineEnd, hrest⟩
    rcases ih stretch.gap hrest with ⟨hspaced, hsettle⟩
    have hloose : ¬Loosens stretch.word (pieces ⟨stretch.gap, stretches⟩) := by
      rintro ⟨hlast, hhead⟩
      exact hlineEnd hlast ((head?_pieces hapart '\n').1 hhead)
    rw [pieces_cons]
    constructor
    · exact hleading.spaced (.word hword (startsBlank_pieces hapart) hspaced)
    · rw [settle_blanks, settle_word_eq_iff.2 ⟨hloose, hsettle⟩]

theorem isMaximal_ofPieces {ps : List Piece} (h : Spaced ps) (hsettle : settle ps = ps) :
    (ofPieces ps).IsMaximal := by
  induction h with
  | nil => exact isMaximal_nil_iff.2 isGap_nil
  | @blank c rest hc _ ih =>
    have hrest := ih (settle_tail hsettle)
    exact { hrest with leading := hrest.leading.blank hc }
  | @lineEnd rest _ ih =>
    have hrest := ih (settle_tail hsettle)
    exact { hrest with leading := hrest.leading.carriageReturn }
  | @word text rest htext hstarts _ ih =>
    rcases settle_word_eq_iff.1 hsettle with ⟨hloose, hsettled⟩
    have hrest := ih hsettled
    have hapart : (ofPieces rest).stretches = [] ∨ (ofPieces rest).leading ≠ [] := by
      cases rest with
      | nil => exact Or.inl rfl
      | cons piece rest =>
        cases piece with
        | blank c => exact Or.inr (by simp [ofPieces])
        | word next => exact absurd rfl (hstarts next)
    refine isMaximal_cons_iff.2 ⟨isGap_nil, htext, hapart, ?_, hrest⟩
    intro hlast hhead
    refine hloose ⟨hlast, ?_⟩
    rw [← pieces_ofPieces rest]
    exact (head?_pieces hapart '\n').2 hhead

end Division

theorem pieces_eq_of_isMaximal {division : Division} (h : division.IsMaximal) :
    pieces division.text = division.pieces := by
  rcases Division.spaced_and_settle_pieces h with ⟨hspaced, hsettle⟩
  calc
    pieces division.text = pieces (render division.pieces) := by rw [Division.render_pieces]
    _ = settle division.pieces := pieces_render hspaced
    _ = division.pieces := hsettle

/-- There is exactly one way to divide a text into words that cannot be made longer. -/
theorem existsUnique_division (text : Text) :
    ∃! division : Division, division.IsMaximal ∧ division.text = text := by
  have hpieces := Division.pieces_ofPieces (pieces text)
  refine ⟨Division.ofPieces (pieces text), ⟨?_, ?_⟩, ?_⟩
  · exact Division.isMaximal_ofPieces (spaced_pieces text) (settle_pieces text)
  · rw [← Division.render_pieces, hpieces, render_pieces]
  · rintro division ⟨hmaximal, rfl⟩
    rw [pieces_eq_of_isMaximal hmaximal, Division.ofPieces_pieces]

end Depfile.Layout
