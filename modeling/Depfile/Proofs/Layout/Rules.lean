import Mathlib.Data.List.Forall2
import Depfile.Proofs.Layout.Reword
import Depfile.Proofs.Token.Names

/-!
# Revising rule by rule

A revision knows no escapes. The backslash of an escaped blank is the last character of a word for
it, so that a name is as many words as it has parts between blanks. Still it is enough to know what
becomes of each name: the names of a file are far enough from each other to be looked at one by one
(`reword_rules`, `revised_rules`).
-/

namespace Depfile.Layout

open Token

variable {scope : Scope} {name part rest suffix : Text} {c : Char}

/-! ## Parts of names -/

/-- A name cut at its spaces and tabs. -/
inductive CutAtBlanks : Text → Prop
  | last {part : Text} : Spaceless part → CutAtBlanks part
  | blank {part rest : Text} {c : Char} :
      Spaceless part → isSpaceOrTab c = true → CutAtBlanks rest → CutAtBlanks (part ++ c :: rest)

theorem cutAtBlanks (h : ∀ c ∈ name, CanEscape c) : CutAtBlanks name := by
  induction name with
  | nil => exact .last (by simp [Spaceless])
  | cons c name ih =>
    have hname := ih (fun d hd => h d (by simp [hd]))
    -- A blank stands behind a new part, and any other character joins the first one.
    by_cases hspace : Text.isSpace c = true
    · have hc : isSpaceOrTab c = true := by
        simpa [isSpaceOrTab] using (h c (by simp)).2 hspace
      have hnil : Spaceless [] := by simp [Spaceless]
      exact .blank hnil hc hname
    · have hc : Text.isSpace c = false := by simpa using hspace
      cases hname with
      | last hpart => exact .last (List.forall_mem_cons.2 ⟨hc, hpart⟩)
      | blank hpart hblank hrest =>
        exact .blank (List.forall_mem_cons.2 ⟨hc, hpart⟩) hblank hrest

theorem CutAtBlanks.spaceless_or_cut (h : CutAtBlanks name) :
    Spaceless name ∨ ∃ part c rest, name = part ++ c :: rest ∧ Spaceless part ∧
      isSpaceOrTab c = true ∧ CutAtBlanks rest := by
  cases h with
  | last hname => exact Or.inl hname
  | blank hpart hc hrest => exact Or.inr ⟨_, _, _, rfl, hpart, hc, hrest⟩

/-- The blank behind a part is escaped, so that the part is written with a backslash at its end. -/
theorem escape_cut (part rest : Text) (hc : isSpaceOrTab c = true) :
    escape (part ++ c :: rest) = (escape part ++ ['\\']) ++ c :: escape rest := by
  have hchar : escapeChar c = ['\\', c] := by
    have hblank : c = ' ' ∨ c = '\t' := by simpa [isSpaceOrTab] using hc
    rcases hblank with rfl | rfl <;> rfl
  simp [escape_append, escape_cons, hchar]

theorem spaceless_escape_append (hpart : Spaceless part) (hsuffix : Spaceless suffix) :
    Spaceless (escape part ++ suffix) := by
  intro c hc
  rcases List.mem_append.1 hc with hc | hc
  · exact spaceless_escape hpart c hc
  · exact hsuffix c hc

/-- The first part is a word of its own, and what is behind it is looked at by itself. -/
theorem reword_cut (scope : Scope) (hpart : Spaceless part) (hc : isSpaceOrTab c = true)
    (rest suffix : Text) :
    reword scope (escape (part ++ c :: rest) ++ suffix) =
      relativizeWord scope (escape part ++ ['\\']) ++ c :: reword scope (escape rest ++ suffix) := by
  have hblank := blank_of_isSpaceOrTab hc
  have hword : Spaceless (escape part ++ ['\\']) :=
    spaceless_escape_append hpart (by simp [Spaceless, Text.isSpace])
  calc
    reword scope (escape (part ++ c :: rest) ++ suffix) =
        reword scope ((escape part ++ ['\\']) ++ c :: (escape rest ++ suffix)) := by
      rw [escape_cut part rest hc, List.append_assoc]
      rfl
    _ = reword scope (escape part ++ ['\\']) ++ reword scope (c :: (escape rest ++ suffix)) :=
      reword_append scope hword.carriageReturn_notMem (startsBlank_pieces_cons hblank _)
    _ = relativizeWord scope (escape part ++ ['\\']) ++
          c :: reword scope (escape rest ++ suffix) := by
      rw [reword_spaceless scope hword, reword_cons_blank scope hblank]

/-- The words of a target in front of the last one end with a backslash. -/
theorem endsWithTarget_escape (h : CutAtBlanks name) :
    EndsWithTarget (escape name ++ [':']) := by
  induction h with
  | last hpart =>
    have hcolon : Spaceless [':'] := by simp [Spaceless, Text.isSpace]
    exact endsWithTarget_spaceless (spaceless_escape_append hpart hcolon) (by simp [Token.isTarget])
  | @blank part rest c hpart hc hrest ih =>
    have hword : Spaceless (escape part ++ ['\\']) :=
      spaceless_escape_append hpart (by simp [Spaceless, Text.isSpace])
    have hwritten : escape (part ++ c :: rest) ++ [':'] =
        (escape part ++ ['\\']) ++ c :: (escape rest ++ [':']) := by
      rw [escape_cut part rest hc]
      simp
    rw [hwritten]
    exact ih.behind_word hword (by simp) (by simp [Token.isTarget]) (blank_of_isSpaceOrTab hc)

/-! ## Lines -/

theorem startsBlank_pieces_line (prerequisites : List (Gap isSpaceOrTab × EscapedName))
    (rest : Text) : StartsBlank (pieces (writeEscaped prerequisites ++ '\n' :: rest)) := by
  cases prerequisites with
  | nil => exact startsBlank_pieces_cons (Or.inr (Or.inr rfl)) rest
  | cons entry others =>
    rw [writeEscaped_cons_append]
    exact startsBlank_pieces_gap entry.1 _

/-- Two prerequisites with the same gap in front of them, where making the words of the old one
relative gives the new one. -/
def RewordsPrerequisite (scope : Scope) (old new : Gap isSpaceOrTab × EscapedName) : Prop :=
  new.1 = old.1 ∧ reword scope (escape old.2.name) = escape new.2.name

theorem reword_line {old new : List (Gap isSpaceOrTab × EscapedName)}
    (h : List.Forall₂ (RewordsPrerequisite scope) old new) (rest : Text) :
    reword scope (writeEscaped old ++ '\n' :: rest) =
      writeEscaped new ++ '\n' :: reword scope rest := by
  induction h with
  | nil => exact reword_cons_blank scope (Or.inr (Or.inr rfl)) rest
  | @cons old new olds news hfirst _ ih =>
    -- A gap or the end of the line comes next, so the name is looked at by itself.
    have hline := startsBlank_pieces_line olds rest
    calc
      reword scope (writeEscaped (old :: olds) ++ '\n' :: rest) =
          reword scope (old.1.text ++ (escape old.2.name ++ (writeEscaped olds ++ '\n' :: rest))) := by
        rw [writeEscaped_cons_append]
      _ = old.1.text ++ (escape new.2.name ++ (writeEscaped news ++ '\n' :: reword scope rest)) := by
        rw [reword_gap, reword_append scope old.2.carriageReturn_notMem hline, hfirst.2, ih]
      _ = writeEscaped (new :: news) ++ '\n' :: reword scope rest := by
        rw [writeEscaped_cons_append, hfirst.1]

/-! ## Rules -/

/-- Two rules, where making the words of the old one relative gives the new one. -/
structure RewordsRule (scope : Scope) (old new : EscapedRule) : Prop where
  target : reword scope (escape old.target.name ++ [':']) = escape new.target.name ++ [':']
  prerequisites : List.Forall₂ (RewordsPrerequisite scope) old.prerequisites new.prerequisites

theorem carriageReturn_notMem_target (target : EscapedName) :
    '\r' ∉ escape target.name ++ [':'] := by
  simp [target.carriageReturn_notMem]

theorem reword_rules {old new : List EscapedRule}
    (h : List.Forall₂ (RewordsRule scope) old new) :
    reword scope (old.flatMap EscapedRule.text) = new.flatMap EscapedRule.text := by
  induction h with
  | nil => rfl
  | @cons old new olds news hfirst _ ih =>
    calc
      reword scope ((old :: olds).flatMap EscapedRule.text) =
          reword scope ((escape old.target.name ++ [':']) ++
            (writeEscaped old.prerequisites ++ '\n' :: olds.flatMap EscapedRule.text)) := by
        rw [List.flatMap_cons, EscapedRule.text_append]
      _ = (escape new.target.name ++ [':']) ++
            (writeEscaped new.prerequisites ++ '\n' :: news.flatMap EscapedRule.text) := by
        rw [reword_append scope (carriageReturn_notMem_target old.target)
          (startsBlank_pieces_line old.prerequisites _), hfirst.target,
          reword_line hfirst.prerequisites, ih]
      _ = (new :: news).flatMap EscapedRule.text := by
        rw [List.flatMap_cons, EscapedRule.text_append]

/-- The first target of a file is the only name that is never looked at. -/
theorem revised_rules {old : EscapedRule} {prerequisites : List (Gap isSpaceOrTab × EscapedName)}
    {olds news : List EscapedRule}
    (hfirst : List.Forall₂ (RewordsPrerequisite scope) old.prerequisites prerequisites)
    (h : List.Forall₂ (RewordsRule scope) olds news) :
    revised scope ((old :: olds).flatMap EscapedRule.text) =
      (EscapedRule.mk old.target prerequisites :: news).flatMap EscapedRule.text := by
  have htarget := endsWithTarget_escape (cutAtBlanks old.target.can_escape)
  calc
    revised scope ((old :: olds).flatMap EscapedRule.text) =
        revised scope ((escape old.target.name ++ [':']) ++
          (writeEscaped old.prerequisites ++ '\n' :: olds.flatMap EscapedRule.text)) := by
      rw [List.flatMap_cons, EscapedRule.text_append]
    _ = (escape old.target.name ++ [':']) ++
          (writeEscaped prerequisites ++ '\n' :: news.flatMap EscapedRule.text) := by
      rw [revised_append scope htarget (carriageReturn_notMem_target old.target)
        (startsBlank_pieces_line old.prerequisites _), reword_line hfirst, reword_rules h]
    _ = (EscapedRule.mk old.target prerequisites :: news).flatMap EscapedRule.text := by
      rw [List.flatMap_cons, EscapedRule.text_append]

end Depfile.Layout
