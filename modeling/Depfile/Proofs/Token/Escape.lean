import Depfile.Token.Escape

/-!
# Escaped text

What is known about a text that was written with escapes before they are resolved: which characters
it has (`mem_escape`), and how it begins (`append_eq_escape_iff`). Whitespace has escapes too, but
they are of no use in paths that tools write, so most of this is about text without whitespace.
There a character changes only if it is a mark.
-/

namespace Depfile.Token

variable {text : Text} {c : Char}

theorem escape_cons (c : Char) (text : Text) : escape (c :: text) = escapeChar c ++ escape text :=
  rfl

theorem escape_append (front back : Text) : escape (front ++ back) = escape front ++ escape back :=
  List.flatMap_append

/-- The three ways to write a character. -/
theorem escapeChar_cases (c : Char) :
    (c = '$' ∧ escapeChar c = ['$', '$']) ∨
      (isProtected c = true ∧ escapeChar c = ['\\', c]) ∨
      (c ≠ '$' ∧ isProtected c = false ∧ escapeChar c = [c]) := by
  by_cases hdollar : c = '$'
  · exact Or.inl ⟨hdollar, by simp [escapeChar, hdollar]⟩
  by_cases hprotected : isProtected c = true
  · exact Or.inr (Or.inl ⟨hprotected, by simp [escapeChar, hdollar, hprotected]⟩)
  · have hprotected : isProtected c = false := by simpa using hprotected
    exact Or.inr (Or.inr ⟨hdollar, hprotected, by simp [escapeChar, hdollar, hprotected]⟩)

theorem escapeChar_ne_nil (c : Char) : escapeChar c ≠ [] := by
  rcases escapeChar_cases c with ⟨_, hwritten⟩ | ⟨_, hwritten⟩ | ⟨_, _, hwritten⟩ <;> simp [hwritten]

theorem escape_eq_nil_iff : escape text = [] ↔ text = [] := by
  cases text <;> simp [escape, escapeChar_ne_nil]

/-! ## Marks -/

/-- The characters that escapes are made of, and those that they are made for. -/
def IsMark (c : Char) : Prop :=
  c = '\\' ∨ c = '#' ∨ c = '$' ∨ c = ':'

/-- A text that no escape can be part of. -/
def Unmarked (text : Text) : Prop :=
  ∀ c ∈ text, ¬IsMark c

/-- A text without whitespace. -/
def Spaceless (text : Text) : Prop :=
  ∀ c ∈ text, Text.isSpace c = false

theorem Spaceless.carriageReturn_notMem (h : Spaceless text) : '\r' ∉ text := by
  intro hmem
  have hspace := h '\r' hmem
  cases hspace

theorem Spaceless.isBlank_eq_false (h : Spaceless text) (hne : text ≠ []) :
    Text.isBlank text = false := by
  rcases List.exists_cons_of_ne_nil hne with ⟨c, rest, rfl⟩
  simp [Text.isBlank, h c (by simp)]

/-- Without whitespace only marks are changed, and a mark is put in front of them. -/
theorem escapeChar_cases_of_not_space (hc : Text.isSpace c = false) :
    escapeChar c = [c] ∨ ∃ mark, escapeChar c = [mark, c] ∧ IsMark mark ∧ IsMark c := by
  rcases escapeChar_cases c with ⟨rfl, hwritten⟩ | ⟨hprotected, hwritten⟩ | ⟨_, _, hwritten⟩
  · exact Or.inr ⟨'$', hwritten, by simp [IsMark], by simp [IsMark]⟩
  · -- Of the protected characters only space and tab are not marks.
    refine Or.inr ⟨'\\', hwritten, by simp [IsMark], ?_⟩
    have hspace : c ≠ ' ' ∧ c ≠ '\t' := by
      constructor <;> (rintro rfl; cases hc)
    simp only [isProtected, hspace, Bool.or_eq_true, decide_eq_true_eq, or_false] at hprotected
    rcases hprotected with (h | h) | h <;> simp [IsMark, h]
  · exact Or.inl hwritten

theorem mem_escape (htext : Spaceless text) (hc : c ∈ escape text) : IsMark c ∨ c ∈ text := by
  rcases List.mem_flatMap.1 hc with ⟨d, hd, hc⟩
  rcases escapeChar_cases_of_not_space (htext d hd) with hwritten | ⟨mark, hwritten, hmark, _⟩
  · have hc : c = d := by simpa [hwritten] using hc
    exact Or.inr (hc ▸ hd)
  · have hc : c = mark ∨ c = d := by simpa [hwritten] using hc
    rcases hc with rfl | rfl
    · exact Or.inl hmark
    · exact Or.inr hd

theorem spaceless_escape (htext : Spaceless text) : Spaceless (escape text) := by
  intro c hc
  rcases mem_escape htext hc with hmark | hc
  · rcases hmark with rfl | rfl | rfl | rfl <;> rfl
  · exact htext c hc

/-- What stands behind an unmarked beginning of an escaped text is escaped text. -/
theorem append_eq_escape_iff {front : Text} (rest : Text) (hfront : Unmarked front)
    (htext : Spaceless text) :
    front ++ rest = escape text ↔ ∃ tail, text = front ++ tail ∧ rest = escape tail := by
  induction front generalizing text with
  | nil => simp
  | cons d front ih =>
    cases text with
    | nil => simp [escape]
    | cons c text =>
      have hfront' : Unmarked front := by
        intro e he
        exact hfront e (by simp [he])
      have htext' : Spaceless text := by
        intro e he
        exact htext e (by simp [he])
      have ih := ih hfront' htext'
      rcases escapeChar_cases_of_not_space (htext c (by simp)) with
        hwritten | ⟨mark, hwritten, hmark, hc⟩
      · rw [escape_cons, hwritten]
        constructor
        · intro h
          simp only [List.cons_append, List.nil_append, List.cons.injEq] at h
          rcases ih.1 h.2 with ⟨tail, rfl, rfl⟩
          exact ⟨tail, by simp [h.1], rfl⟩
        · rintro ⟨tail, heq, rfl⟩
          simp only [List.cons_append, List.cons.injEq] at heq
          simpa [heq.1] using ih.2 ⟨tail, heq.2, rfl⟩
      · -- The first character of `front` is neither the mark nor the character behind it.
        have hd := hfront d (by simp)
        have hne : d ≠ mark ∧ c ≠ d := by
          constructor
          · rintro rfl
            exact hd hmark
          · rintro rfl
            exact hd hc
        simp [escape_cons, hwritten, hne]

theorem eq_escape_iff {front : Text} (hfront : Unmarked front) (htext : Spaceless text) :
    front = escape text ↔ front = text := by
  have h := append_eq_escape_iff [] hfront htext
  rw [List.append_nil] at h
  rw [h]
  constructor
  · rintro ⟨tail, rfl, htail⟩
    simp [escape_eq_nil_iff.1 htail.symm]
  · rintro rfl
    exact ⟨[], by simp, rfl⟩

end Depfile.Token
