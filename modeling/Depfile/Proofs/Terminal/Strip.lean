import Depfile.Terminal.Strip

/-!
# Plain text in plain output

Outside of sequences, text that is kept there passes the automaton as it is, and what follows never
takes back what has been kept.
-/

namespace Depfile.Terminal

variable {text : Text}

/-- A character is added to what has been kept, or nothing is. -/
theorem kept_step (filter : Filter) (c : Char) :
    (filter.step c).kept = c :: filter.kept ∨ (filter.step c).kept = filter.kept := by
  by_cases hkept : isKept (if filter.isKeeping && isKept .ground c then .ground else filter.mode) c
  · have hstep : filter.step c =
        ⟨if isAscii c then filter.mode else .ground, true, c :: filter.kept⟩ := if_pos hkept
    exact .inl (by rw [hstep])
  · have hstep : filter.step c = ⟨next filter.mode c, false, filter.kept⟩ := if_neg hkept
    exact .inr (by rw [hstep])

theorem exists_kept_foldl (text : Text) (filter : Filter) :
    ∃ more, (text.foldl Filter.step filter).kept = more ++ filter.kept := by
  induction text generalizing filter with
  | nil => exact ⟨[], rfl⟩
  | cons c text ih =>
    rcases ih (filter.step c) with ⟨more, hmore⟩
    rcases kept_step filter c with hstep | hstep
    · exact ⟨more ++ [c], by simp [hmore, hstep]⟩
    · exact ⟨more, by simp [hmore, hstep]⟩

theorem foldl_step_of_isKept (h : ∀ c ∈ text, isKept .ground c = true) (isKeeping : Bool)
    (kept : Text) :
    ∃ isKeeping', text.foldl Filter.step ⟨.ground, isKeeping, kept⟩ =
      ⟨.ground, isKeeping', text.reverse ++ kept⟩ := by
  induction text generalizing isKeeping kept with
  | nil => exact ⟨isKeeping, rfl⟩
  | cons c text ih =>
    have hc : isKept .ground c = true := h c (by simp)
    have hstep : Filter.step ⟨.ground, isKeeping, kept⟩ c = ⟨.ground, true, c :: kept⟩ := by
      simp [Filter.step, hc]
    rcases ih (fun d hd => h d (by simp [hd])) true (c :: kept) with ⟨isKeeping', htext⟩
    exact ⟨isKeeping', by simp [hstep, htext]⟩

/-- Text that is kept outside of sequences is shown as it is at the start of a line. -/
theorem strip_append (h : ∀ c ∈ text, isKept .ground c = true) (rest : Text) :
    ∃ shown, strip (text ++ rest) = text ++ shown := by
  rcases foldl_step_of_isKept h false [] with ⟨isKeeping, htext⟩
  rcases exists_kept_foldl rest ⟨.ground, isKeeping, text.reverse ++ []⟩ with ⟨more, hmore⟩
  refine ⟨more.reverse, ?_⟩
  simp only [strip, Filter.start, List.foldl_append, htext, hmore]
  simp

end Depfile.Terminal
