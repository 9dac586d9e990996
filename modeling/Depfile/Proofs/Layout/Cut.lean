import Depfile.Layout.Piece

/-!
# Cutting a text that was put together from pieces

`render_pieces` says that cutting loses nothing. The other round trip is more delicate: pieces that
were put together are found again by cutting, unless a word ends with a carriage return and a line
feed follows, because then the carriage return becomes part of the line end.

* `Spaced`: the pieces alternate as a text allows it, carriage returns at the ends of words apart;
* `settle`: what becomes of such pieces when their text is cut again;
* `pieces_render`: cutting a text put together from spaced pieces settles the pieces.
-/

namespace Depfile.Layout

open Piece

/-- A word of some text: it is not empty, and nothing in it separates words by itself. -/
structure IsWord (text : Text) : Prop where
  ne_nil : text ≠ []
  no_blank : ∀ c ∈ text, c ≠ ' ' ∧ c ≠ '\t' ∧ c ≠ '\n'

/-- Pieces that do not start with a word, so that a word can stand in front of them. -/
def StartsBlank (pieces : List Piece) : Prop :=
  ∀ text, pieces.head? ≠ some (word text)

/-- Blanks are spaces, tabs, line feeds or carriage returns in front of line feeds, and no two
words touch. -/
inductive Spaced : List Piece → Prop
  | nil : Spaced []
  | blank {c : Char} {rest : List Piece} :
      c = ' ' ∨ c = '\t' ∨ c = '\n' → Spaced rest → Spaced (blank c :: rest)
  | lineEnd {rest : List Piece} :
      Spaced (blank '\n' :: rest) → Spaced (blank '\r' :: blank '\n' :: rest)
  | word {text : Text} {rest : List Piece} :
      IsWord text → StartsBlank rest → Spaced rest → Spaced (word text :: rest)

theorem startsBlank_nil : StartsBlank [] := by
  intro text
  simp

theorem startsBlank_blank (c : Char) (rest : List Piece) : StartsBlank (blank c :: rest) := by
  intro text
  simp

/-! ## Writing pieces -/

@[simp]
theorem render_nil : render [] = [] := rfl

@[simp]
theorem render_cons (piece : Piece) (rest : List Piece) :
    render (piece :: rest) = piece.text ++ render rest := rfl

@[simp]
theorem render_append (front back : List Piece) :
    render (front ++ back) = render front ++ render back :=
  List.flatMap_append

@[simp]
theorem render_flatMap {α : Type} (f : α → List Piece) (parts : List α) :
    render (parts.flatMap f) = parts.flatMap (fun part => render (f part)) :=
  List.flatMap_assoc

@[simp]
theorem render_blanks (text : Text) : render (text.map blank) = text := by
  simp [render, Piece.text, List.flatMap_map]

/-! ## Every text is cut into spaced pieces -/

theorem consPiece_blank {c : Char} (hc : c = ' ' ∨ c = '\t' ∨ c = '\n') (rest : List Piece) :
    consPiece c rest = blank c :: rest := by
  rcases hc with rfl | rfl | rfl <;> simp [consPiece, separates]

theorem consPiece_word {c : Char} {text : Text} {rest : List Piece}
    (hc : c ≠ ' ' ∧ c ≠ '\t' ∧ c ≠ '\n') :
    consPiece c (word text :: rest) = word (c :: text) :: rest := by
  simp [consPiece, separates, hc]

theorem consPiece_startsBlank {c : Char} {rest : List Piece} (hc : c ≠ ' ' ∧ c ≠ '\t' ∧ c ≠ '\n')
    (hcr : ¬(c = '\r' ∧ rest.head? = some (blank '\n'))) (hrest : StartsBlank rest) :
    consPiece c rest = word [c] :: rest := by
  have hsep : separates c rest = false := by
    simp only [not_and] at hcr
    by_cases hr : c = '\r'
    · simp [separates, hc, hcr hr]
    · simp [separates, hc, hr]
  unfold consPiece
  rw [hsep]
  split
  · rename_i h
    cases h
  · split
    · rename_i text rest
      exact absurd rfl (hrest text)
    · rfl

theorem spaced_consPiece (c : Char) {rest : List Piece} (hrest : Spaced rest) :
    Spaced (consPiece c rest) := by
  -- The three cases of the definition: a blank, a line end, a character of a word.
  by_cases hblank : c = ' ' ∨ c = '\t' ∨ c = '\n'
  · rw [consPiece_blank hblank]
    exact .blank hblank hrest
  simp only [not_or] at hblank
  by_cases hcr : c = '\r' ∧ rest.head? = some (blank '\n')
  · rcases hcr with ⟨rfl, hhead⟩
    have hcons : consPiece '\r' rest = blank '\r' :: rest := by
      simp [consPiece, separates, hhead]
    rcases List.head?_eq_some_iff.1 hhead with ⟨tail, rfl⟩
    rw [hcons]
    exact .lineEnd hrest
  cases hrest with
  | word htext htail hspaced =>
    rw [consPiece_word hblank]
    refine .word ⟨by simp, ?_⟩ htail hspaced
    intro d hd
    rcases List.mem_cons.1 hd with rfl | hd
    · exact hblank
    · exact htext.no_blank d hd
  | nil =>
    rw [consPiece_startsBlank hblank hcr startsBlank_nil]
    exact .word ⟨by simp, by simpa using hblank⟩ startsBlank_nil .nil
  | blank hd htail =>
    rw [consPiece_startsBlank hblank hcr (startsBlank_blank _ _)]
    exact .word ⟨by simp, by simpa using hblank⟩ (startsBlank_blank _ _) (.blank hd htail)
  | lineEnd htail =>
    rw [consPiece_startsBlank hblank hcr (startsBlank_blank _ _)]
    exact .word ⟨by simp, by simpa using hblank⟩ (startsBlank_blank _ _) (.lineEnd htail)

theorem spaced_pieces (text : Text) : Spaced (pieces text) := by
  induction text with
  | nil => exact .nil
  | cons c text ih => exact spaced_consPiece c ih

theorem pieces_cons_blank {c : Char} (hc : c = ' ' ∨ c = '\t' ∨ c = '\n') (text : Text) :
    pieces (c :: text) = blank c :: pieces text :=
  consPiece_blank hc (pieces text)

/-- What has been cut already is changed at its beginning only. -/
theorem consPiece_append (c : Char) {front : List Piece} (hfront : front ≠ [])
    (back : List Piece) : consPiece c (front ++ back) = consPiece c front ++ back := by
  rcases List.exists_cons_of_ne_nil hfront with ⟨piece, rest, rfl⟩
  have hseparates : separates c (piece :: rest ++ back) = separates c (piece :: rest) := rfl
  unfold consPiece
  rw [hseparates]
  split
  · rfl
  · cases piece <;> rfl

/-- Where a blank comes next a text can be cut by itself, unless a carriage return may belong to
the line end after it. -/
theorem pieces_append {front back : Text} (hfront : '\r' ∉ front)
    (hback : StartsBlank (pieces back)) :
    pieces (front ++ back) = pieces front ++ pieces back := by
  induction front with
  | nil => rfl
  | cons c front ih =>
    simp only [List.mem_cons, not_or] at hfront
    have hcons : consPiece c (pieces front ++ pieces back) =
        consPiece c (pieces front) ++ pieces back := by
      by_cases hpieces : pieces front = []
      · -- The last character of the front is the only one that sees what comes after it.
        rw [hpieces, List.nil_append]
        by_cases hblank : c = ' ' ∨ c = '\t' ∨ c = '\n'
        · rw [consPiece_blank hblank, consPiece_blank hblank, List.singleton_append]
        simp only [not_or] at hblank
        have hcr : ∀ rest : List Piece, ¬(c = '\r' ∧ rest.head? = some (blank '\n')) :=
          fun _ h => hfront.1 h.1.symm
        rw [consPiece_startsBlank hblank (hcr []) startsBlank_nil]
        exact consPiece_startsBlank hblank (hcr _) hback
      · exact consPiece_append c hpieces (pieces back)
    calc
      pieces (c :: front ++ back) = consPiece c (pieces (front ++ back)) := rfl
      _ = consPiece c (pieces front ++ pieces back) := by rw [ih hfront.2]
      _ = pieces (c :: front) ++ pieces back := hcons

/-! ## Settling -/

/-- The word, if there is anything in it. -/
def wordOf (text : Text) : List Piece :=
  if text = [] then [] else [word text]

/-- A carriage return at the end of the word belongs to the line end that follows. -/
def Loosens (text : Text) (rest : List Piece) : Prop :=
  text.getLast? = some '\r' ∧ rest.head? = some (blank '\n')

instance (text : Text) (rest : List Piece) : Decidable (Loosens text rest) :=
  inferInstanceAs (Decidable (_ ∧ _))

/-- Give every carriage return that stands between a word and a line feed to the line end. -/
def settle : List Piece → List Piece
  | [] => []
  | .blank c :: rest => blank c :: settle rest
  | .word text :: rest =>
    if Loosens text rest then
      wordOf text.dropLast ++ blank '\r' :: settle rest
    else
      word text :: settle rest

theorem foldr_consPiece {text : Text} {rest : List Piece} (htext : IsWord text)
    (hrest : StartsBlank rest) (hloose : ¬Loosens text rest) :
    text.foldr consPiece rest = word text :: rest := by
  induction text with
  | nil => exact absurd rfl htext.ne_nil
  | cons c text ih =>
    have hc := htext.no_blank c (by simp)
    -- The last character starts the word, and every other one joins it.
    cases text with
    | nil => exact consPiece_startsBlank hc (by simpa [Loosens] using hloose) hrest
    | cons d text =>
      have htail : IsWord (d :: text) :=
        ⟨by simp, fun e he => htext.no_blank e (by simp [he])⟩
      have hfold := ih htail (by simpa [Loosens] using hloose)
      rw [List.foldr_cons, hfold]
      exact consPiece_word hc

/-- The characters in front of a carriage return that a line feed follows are a word by
themselves. -/
theorem foldr_consPiece_of_loosens {text : Text} {rest : List Piece} (htext : IsWord text)
    (hloose : Loosens text rest) :
    text.foldr consPiece rest = wordOf text.dropLast ++ blank '\r' :: rest := by
  rcases List.getLast?_eq_some_iff.1 hloose.1 with ⟨front, rfl⟩
  have hcr : consPiece '\r' rest = blank '\r' :: rest := by
    simp [consPiece, separates, hloose.2]
  rw [List.foldr_append, List.foldr_cons, List.foldr_nil, hcr, List.dropLast_concat]
  by_cases hfront : front = []
  · simp [wordOf, hfront]
  · have hword : IsWord front :=
      ⟨hfront, fun c hc => htext.no_blank c (by simp [hc])⟩
    have hnot : ¬Loosens front (blank '\r' :: rest) := by
      simp [Loosens]
    rw [foldr_consPiece hword (startsBlank_blank _ _) hnot]
    simp [wordOf, hfront]

theorem StartsBlank.settle {pieces : List Piece} (h : StartsBlank pieces) :
    StartsBlank (settle pieces) := by
  cases pieces with
  | nil => exact startsBlank_nil
  | cons piece rest =>
    cases piece with
    | blank c => exact startsBlank_blank c _
    | word text => exact absurd rfl (h text)

theorem loosens_settle {text : Text} {pieces : List Piece} (h : StartsBlank pieces) :
    Loosens text (settle pieces) ↔ Loosens text pieces := by
  cases pieces with
  | nil => rfl
  | cons piece rest =>
    cases piece with
    | blank c => rfl
    | word text => exact absurd rfl (h text)

/-- Cutting a text that was put together from spaced pieces settles the pieces. -/
theorem pieces_render {ps : List Piece} (h : Spaced ps) : pieces (render ps) = settle ps := by
  induction h with
  | nil => rfl
  | @blank c rest hc hrest ih =>
    have hcons := consPiece_blank hc (pieces (render rest))
    exact hcons.trans (by rw [ih]; rfl)
  | @lineEnd rest hrest ih =>
    have hhead : (pieces (render (blank '\n' :: rest))).head? = some (blank '\n') := by
      rw [ih]
      rfl
    have hcons : consPiece '\r' (pieces (render (blank '\n' :: rest))) =
        blank '\r' :: pieces (render (blank '\n' :: rest)) := by
      simp [consPiece, separates, hhead, -render_cons]
    exact hcons.trans (by rw [ih]; rfl)
  | @word text rest htext hrest hspaced ih =>
    have happend : pieces (render (word text :: rest)) = text.foldr consPiece (settle rest) := by
      rw [← ih]
      simp [pieces, Piece.text]
    rw [happend]
    -- The rest has been settled already, but it still starts with the same piece.
    by_cases hloose : Loosens text rest
    · rw [foldr_consPiece_of_loosens htext ((loosens_settle hrest).2 hloose)]
      simp [settle, hloose]
    · rw [foldr_consPiece htext hrest.settle (fun h => hloose ((loosens_settle hrest).1 h))]
      simp [settle, hloose]

/-- Where no word ends with a carriage return there is nothing to settle. -/
theorem settle_eq_self {ps : List Piece} (h : ∀ text, word text ∈ ps → text.getLast? ≠ some '\r') :
    settle ps = ps := by
  induction ps with
  | nil => rfl
  | cons piece rest ih =>
    have ih := ih (fun text htext => h text (by simp [htext]))
    cases piece with
    | blank c => simp [settle, ih]
    | word text =>
      have hloose : ¬Loosens text rest := by
        intro hloose
        exact h text (by simp) hloose.1
      simp [settle, hloose, ih]

/-- The pieces of a text are settled. -/
theorem settle_pieces (text : Text) : settle (pieces text) = pieces text := by
  rw [← pieces_render (spaced_pieces text), render_pieces]

end Depfile.Layout
