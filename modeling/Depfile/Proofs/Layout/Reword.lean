import Depfile.Proofs.Layout.Revision
import Depfile.Proofs.Token.Plain

/-!
# Making every word relative

Behind the first target a revision makes every word relative, if it qualifies. What becomes of a
text there is found part by part: a text falls apart in front of a blank (`reword_append`), blanks
are kept (`reword_cons_blank`, `reword_gap`), and a text without whitespace is one word
(`reword_spaceless`). Through the first target nothing changes (`revised_append`).
-/

namespace Depfile.Layout

open Piece Token

variable {scope : Scope} {front back text : Text}

/-- The text with all qualifying words replaced, wherever the first target is. -/
def reword (scope : Scope) (text : Text) : Text :=
  render ((pieces text).map (mapWord (relativizeWord scope)))

/-! ## Words and blanks -/

theorem isWord_of_spaceless (hne : text ≠ []) (h : Spaceless text) : IsWord text := by
  refine ⟨hne, ?_⟩
  intro c hc
  have hspace := h c hc
  refine ⟨?_, ?_, ?_⟩ <;> (rintro rfl; cases hspace)

theorem pieces_spaceless (hne : text ≠ []) (h : Spaceless text) : pieces text = [word text] := by
  have hloose : ¬Loosens text [] := by simp [Loosens]
  exact foldr_consPiece (isWord_of_spaceless hne h) startsBlank_nil hloose

theorem reword_spaceless (scope : Scope) (h : Spaceless text) :
    reword scope text = relativizeWord scope text := by
  by_cases hne : text = []
  · rw [hne]
    rfl
  · simp [reword, pieces_spaceless hne h, mapWord, Piece.text]

theorem reword_append (scope : Scope) (hfront : '\r' ∉ front) (hback : StartsBlank (pieces back)) :
    reword scope (front ++ back) = reword scope front ++ reword scope back := by
  simp [reword, pieces_append hfront hback]

theorem startsBlank_pieces_cons {c : Char} (hc : c = ' ' ∨ c = '\t' ∨ c = '\n') (text : Text) :
    StartsBlank (pieces (c :: text)) := by
  rw [pieces_cons_blank hc]
  exact startsBlank_blank c _

theorem reword_cons_blank (scope : Scope) {c : Char} (hc : c = ' ' ∨ c = '\t' ∨ c = '\n')
    (text : Text) : reword scope (c :: text) = c :: reword scope text := by
  simp [reword, pieces_cons_blank hc, mapWord, Piece.text]

/-! ## Gaps -/

theorem blank_of_isSpaceOrTab {c : Char} (h : isSpaceOrTab c = true) :
    c = ' ' ∨ c = '\t' ∨ c = '\n' := by
  have hc : c = ' ' ∨ c = '\t' := by simpa [isSpaceOrTab] using h
  exact hc.imp_right Or.inl

theorem startsBlank_pieces_gap (gap : Gap isSpaceOrTab) (text : Text) :
    StartsBlank (pieces (gap.text ++ text)) := by
  rcases List.exists_cons_of_ne_nil gap.blanks_ne_nil with ⟨c, blanks, hblanks⟩
  have hc := gap.blanks.of_kind c (by simp [hblanks])
  simp only [Gap.text, hblanks, List.cons_append]
  exact startsBlank_pieces_cons (blank_of_isSpaceOrTab hc) _

theorem reword_run (scope : Scope) (run : Run isSpaceOrTab) (text : Text) :
    reword scope (run.text ++ text) = run.text ++ reword scope text := by
  rcases run with ⟨blanks, hblanks⟩
  induction blanks with
  | nil => rfl
  | cons c blanks ih =>
    have hc := blank_of_isSpaceOrTab (hblanks c (by simp))
    have hothers := ih (fun d hd => hblanks d (by simp [hd]))
    calc
      reword scope (c :: (blanks ++ text)) = c :: reword scope (blanks ++ text) :=
        reword_cons_blank scope hc _
      _ = c :: (blanks ++ reword scope text) := congrArg (c :: ·) hothers

/-- The backslash of a continued line is a word of its own, which is not absolute. -/
theorem reword_continuation (scope : Scope) (text : Text) :
    reword scope ('\\' :: '\n' :: text) = '\\' :: '\n' :: reword scope text := by
  have hnewline : '\n' = ' ' ∨ '\n' = '\t' ∨ '\n' = '\n' := Or.inr (Or.inr rfl)
  have hbackslash : reword scope ['\\'] = ['\\'] := rfl
  calc
    reword scope (['\\'] ++ '\n' :: text) = reword scope ['\\'] ++ reword scope ('\n' :: text) :=
      reword_append scope (by simp) (startsBlank_pieces_cons hnewline text)
    _ = '\\' :: '\n' :: reword scope text := by
      rw [hbackslash, reword_cons_blank scope hnewline]
      rfl

theorem reword_gap (scope : Scope) (gap : Gap isSpaceOrTab) (text : Text) :
    reword scope (gap.text ++ text) = gap.text ++ reword scope text := by
  cases hcontinuation : gap.continuation with
  | none => simpa [Gap.text, hcontinuation] using reword_run scope gap.blanks text
  | some more =>
    have hmore := reword_run scope more text
    have hblanks := reword_run scope gap.blanks ('\\' :: '\n' :: (more.text ++ text))
    rw [reword_continuation, hmore] at hblanks
    simpa [Gap.text, hcontinuation] using hblanks

/-! ## The first target -/

/-- The last piece of the text is its only target. -/
def EndsWithTarget (text : Text) : Prop :=
  ∃ before last, pieces text = before ++ [last] ∧ last.isTarget = true ∧
    ∀ piece ∈ before, piece.isTarget = false

theorem endsWithTarget_spaceless (h : Spaceless text) (htarget : Token.isTarget text = true) :
    EndsWithTarget text := by
  have hne : text ≠ [] := by
    rintro rfl
    cases htarget
  exact ⟨[], word text, pieces_spaceless hne h, htarget, by simp⟩

theorem EndsWithTarget.behind_word (h : EndsWithTarget back) (hfront : Spaceless front)
    (hne : front ≠ []) (hnot : Token.isTarget front = false) {c : Char}
    (hc : c = ' ' ∨ c = '\t' ∨ c = '\n') : EndsWithTarget (front ++ c :: back) := by
  rcases h with ⟨before, last, hback, htarget, hbefore⟩
  have hpieces : pieces (front ++ c :: back) = word front :: blank c :: (before ++ [last]) := by
    rw [pieces_append hfront.carriageReturn_notMem (startsBlank_pieces_cons hc back),
      pieces_spaceless hne hfront, pieces_cons_blank hc, hback]
    rfl
  refine ⟨word front :: blank c :: before, last, hpieces, htarget, ?_⟩
  intro piece hpiece
  rcases List.mem_cons.1 hpiece with rfl | hpiece
  · exact hnot
  · rcases List.mem_cons.1 hpiece with rfl | hpiece
    · rfl
    · exact hbefore piece hpiece

/-- Through the first target a revision keeps everything, and behind it every word is looked at. -/
theorem revised_append (scope : Scope) (htarget : EndsWithTarget front) (hfront : '\r' ∉ front)
    (hback : StartsBlank (pieces back)) :
    revised scope (front ++ back) = front ++ reword scope back := by
  rcases htarget with ⟨before, last, hpieces, hlast, hbefore⟩
  have hsplit : pieces (front ++ back) = before ++ last :: pieces back := by
    rw [pieces_append hfront hback, hpieces, List.append_assoc]
    rfl
  have hrender : render (before ++ [last]) = front := by
    rw [← hpieces, render_pieces]
  rw [revised, hsplit, throughTarget_split hbefore hlast, afterTarget_split hbefore hlast,
    render_append, hrender]
  rfl

end Depfile.Layout
