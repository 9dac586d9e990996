import Depfile.Proofs.Layout.Cut

/-!
# Replacing words

Words of a text are replaced by other words, from some point of the text on. Everything in front of
that point is found again when the new text is cut; behind it each word is an old one, or the
beginning of a new one that has lost a carriage return to the line end after it.
-/

namespace Depfile.Layout

open Piece

variable {f : Text → Text} {front back ps : List Piece} {text : Text}

/-- A function on words, on pieces: blanks are kept. -/
def mapWord (f : Text → Text) : Piece → Piece
  | .blank c => .blank c
  | .word text => .word (f text)

theorem head?_append_map {c : Char} :
    (front ++ back.map (mapWord f)).head? = some (blank c) ↔
      (front ++ back).head? = some (blank c) := by
  cases front with
  | cons piece front => simp
  | nil =>
    cases back with
    | nil => simp
    | cons piece back => cases piece <;> simp [mapWord]

theorem StartsBlank.append_map (h : StartsBlank (front ++ back)) :
    StartsBlank (front ++ back.map (mapWord f)) := by
  cases front with
  | cons piece front => simpa [StartsBlank] using h
  | nil =>
    cases back with
    | nil => exact startsBlank_nil
    | cons piece back =>
      cases piece with
      | blank c => exact startsBlank_blank c _
      | word text => exact absurd rfl (h text)

theorem loosens_append_map :
    Loosens text (front ++ back.map (mapWord f)) ↔ Loosens text (front ++ back) := by
  simp only [Loosens, head?_append_map]

theorem loosens_map : Loosens text (ps.map (mapWord f)) ↔ Loosens text ps := by
  have h : Loosens text ([] ++ ps.map (mapWord f)) ↔ Loosens text ([] ++ ps) := loosens_append_map
  simpa using h

/-! ## Spacing -/

theorem isWord_of_mem (h : Spaced ps) (htext : word text ∈ ps) : IsWord text := by
  induction h with
  | nil => simp at htext
  | blank _ _ ih => exact ih (by simpa using htext)
  | lineEnd _ ih => exact ih (by simpa using htext)
  | word hword _ _ ih =>
    rcases List.mem_cons.1 htext with heq | htext
    · cases heq
      exact hword
    · exact ih htext

theorem Spaced.tail {piece : Piece} (h : Spaced (piece :: ps)) : Spaced ps := by
  cases h <;> assumption

theorem Spaced.of_append (h : Spaced (front ++ back)) : Spaced back := by
  induction front with
  | nil => exact h
  | cons piece front ih => exact ih h.tail

theorem Spaced.map (h : Spaced ps) (hf : ∀ text, Piece.word text ∈ ps → IsWord (f text)) :
    Spaced (ps.map (mapWord f)) := by
  induction h with
  | nil => exact .nil
  | blank hc _ ih =>
    exact .blank hc (ih (fun text htext => hf text (by simp [htext])))
  | lineEnd _ ih =>
    exact .lineEnd (ih (fun text htext => hf text (by simpa using htext)))
  | @word old rest _ hrest _ ih =>
    have hstarts : StartsBlank ([] ++ rest.map (mapWord f)) := StartsBlank.append_map hrest
    exact .word (hf old (by simp)) hstarts (ih (fun text htext => hf text (by simp [htext])))

theorem Spaced.append_map (h : Spaced (front ++ back))
    (hf : ∀ text, Piece.word text ∈ back → IsWord (f text)) :
    Spaced (front ++ back.map (mapWord f)) := by
  induction front with
  | nil => exact Spaced.map h hf
  | cons piece front ih =>
    have htail := ih h.tail
    cases piece with
    | word text =>
      cases h with
      | word htext hrest _ => exact .word htext hrest.append_map htail
    | blank c =>
      -- A carriage return may stand here only because a line feed comes next, and that one stays.
      rw [List.cons_append] at h
      generalize hwhole : front ++ back = whole at h
      cases h with
      | blank hc _ => exact .blank hc htail
      | lineEnd _ =>
        have hhead := (head?_append_map (f := f)).2 (congrArg List.head? hwhole)
        rcases List.head?_eq_some_iff.1 hhead with ⟨rest, hrest⟩
        rw [hrest] at htail
        rw [List.cons_append, hrest]
        exact .lineEnd htail

/-! ## Settling -/

/-- A settled word in front of settled pieces. -/
theorem settle_word_eq_iff :
    settle (word text :: ps) = word text :: ps ↔ ¬Loosens text ps ∧ settle ps = ps := by
  by_cases hloose : Loosens text ps
  · rcases List.getLast?_eq_some_iff.1 hloose.1 with ⟨start, rfl⟩
    have hne : wordOf start ++ blank '\r' :: settle ps ≠ word (start ++ ['\r']) :: ps := by
      by_cases hstart : start = [] <;> simp [wordOf, hstart]
    simp [settle, hloose, hne]
  · simp [settle, hloose]

theorem settle_append_map (h : settle (front ++ back) = front ++ back) :
    settle (front ++ back.map (mapWord f)) = front ++ settle (back.map (mapWord f)) := by
  induction front with
  | nil => rfl
  | cons piece front ih =>
    cases piece with
    | blank c =>
      have htail : settle (front ++ back) = front ++ back := by simpa [settle] using h
      simp [settle, ih htail]
    | word text =>
      have hword := settle_word_eq_iff.1 h
      have hloose : ¬Loosens text (front ++ back.map (mapWord f)) := by
        intro hloose
        exact hword.1 (loosens_append_map.1 hloose)
      simp [settle, hloose, ih hword.2]

theorem settle_tail {piece : Piece} (h : settle (piece :: ps) = piece :: ps) :
    settle ps = ps := by
  cases piece with
  | blank c => simpa [settle] using h
  | word text => exact (settle_word_eq_iff.1 h).2

theorem settle_of_append (h : settle (front ++ back) = front ++ back) : settle back = back := by
  induction front with
  | nil => exact h
  | cons piece front ih => exact ih (settle_tail h)

theorem mem_settle_word {old : Text} (h : word text ∈ settle (word old :: ps)) :
    text = old ∨ (Loosens old ps ∧ text = old.dropLast) ∨ word text ∈ settle ps := by
  by_cases hloose : Loosens old ps
  · have h : word text ∈ wordOf old.dropLast ∨ word text ∈ settle ps := by
      simpa [settle, hloose] using h
    rcases h with h | h
    · by_cases hempty : old.dropLast = []
      · simp [wordOf, hempty] at h
      · exact Or.inr (Or.inl ⟨hloose, by simpa [wordOf, hempty] using h⟩)
    · exact Or.inr (Or.inr h)
  · have h : text = old ∨ word text ∈ settle ps := by
      simpa [settle, hloose] using h
    rcases h with h | h
    · exact Or.inl h
    · exact Or.inr (Or.inr h)

/-- After settling, a word is one that was kept, or the beginning of one that was replaced. -/
theorem mem_settle_map (h : settle ps = ps)
    (htext : word text ∈ settle (ps.map (mapWord f))) :
    (word text ∈ ps ∧ f text = text) ∨
      ∃ old, word old ∈ ps ∧ f old ≠ old ∧ text <+: f old := by
  induction ps with
  | nil => simp [settle] at htext
  | cons piece rest ih =>
    have hsettled : settle rest = rest := settle_tail h
    -- What is known of a word further back does not depend on the first piece.
    have hmem : word text ∈ settle (rest.map (mapWord f)) →
        (word text ∈ piece :: rest ∧ f text = text) ∨
          ∃ old, word old ∈ piece :: rest ∧ f old ≠ old ∧ text <+: f old := by
      intro htext
      rcases ih hsettled htext with ⟨hmem, hkept⟩ | ⟨old, hmem, hold⟩
      · exact Or.inl ⟨by simp [hmem], hkept⟩
      · exact Or.inr ⟨old, by simp [hmem], hold⟩
    cases piece with
    | blank c => exact hmem (by simpa [settle, mapWord] using htext)
    | word old =>
      have hword := settle_word_eq_iff.1 h
      by_cases hkept : f old = old
      · -- The word was settled before, and the blank after it has not changed.
        have hnot : ¬Loosens (f old) (rest.map (mapWord f)) := by
          intro hloose
          rw [hkept] at hloose
          exact hword.1 (loosens_map.1 hloose)
        rcases mem_settle_word htext with rfl | ⟨hloose, _⟩ | htext
        · exact Or.inl ⟨by simp [hkept], by rw [hkept, hkept]⟩
        · exact absurd hloose hnot
        · exact hmem htext
      · rcases mem_settle_word htext with rfl | ⟨_, rfl⟩ | htext
        · exact Or.inr ⟨old, by simp, hkept, List.prefix_refl _⟩
        · exact Or.inr ⟨old, by simp, hkept, List.dropLast_prefix _⟩
        · exact hmem htext

end Depfile.Layout
