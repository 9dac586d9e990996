import Depfile.Proofs.Layout.Names
import Depfile.Proofs.Path.Shape
import Depfile.Proofs.Token.Avoidance

/-!
# What a revision leaves absolute

A revision compares words as they are written, while whoever reads the revised file sees names. If
the base directory is written without escapes, the two agree on what is under it (`isUnder_escape`,
`isUnder_escape_cut`): a word that is kept cannot become part of a name under the directory, and a
word that is replaced is not absolute any more, even where it has lost the mark at its end
(`rewordsPart`). So the prerequisites of the revised file avoid the directory (`avoids_revised`).
-/

namespace Depfile.Layout

open Token

variable {scope : Scope} {base name part rest suffix next pending : Text} {c : Char}

/-! ## Base directories that are written without escapes -/

theorem length_le_length_escape (text : Text) : text.length ≤ (escape text).length := by
  induction text with
  | nil => simp
  | cons c text ih =>
    have hc : 0 < (escapeChar c).length := List.length_pos_iff.2 (escapeChar_ne_nil c)
    rw [escape_cons, List.length_append, List.length_cons]
    omega

theorem notMem_of_escape_eq (hbase : escape base = base) (hc : isSpaceOrTab c = true) :
    c ∉ base := by
  intro hmem
  rcases List.append_of_mem hmem with ⟨front, back, rfl⟩
  have hlength := congrArg List.length hbase
  have hfront := length_le_length_escape front
  have hback := length_le_length_escape back
  simp only [escape_cut front back hc, List.length_append, List.length_cons,
    List.length_nil] at hlength
  omega

theorem isUnder_escape (hbase : escape base = base) (h : Path.isUnder name base = true) :
    Path.isUnder (escape name) base = true := by
  rcases Path.isUnder_iff.1 h with ⟨hne, rest, rfl, hseam⟩
  refine Path.isUnder_iff.2 ⟨hne, escape rest, by rw [escape_append, hbase], ?_⟩
  rwa [Path.atBoundary_iff, escape_eq_nil_iff, Path.isAbsolute_escape, ← Path.atBoundary_iff]

/-- Whether a name with blanks is under the directory is seen in its first part. -/
theorem isUnder_escape_cut (hbase : escape base = base) (hc : isSpaceOrTab c = true)
    (h : Path.isUnder (part ++ c :: rest) base = true) :
    Path.isUnder (escape part ++ ['\\']) base = true := by
  rcases Path.isUnder_iff.1 h with ⟨hne, behind, heq, hseam⟩
  have hblank := notMem_of_escape_eq hbase hc
  have hc' : Path.isAbsolute (c :: rest) = false := by
    have hcases : c = ' ' ∨ c = '\t' := by simpa [isSpaceOrTab] using hc
    rcases hcases with rfl | rfl <;> rfl
  -- The directory has no blank, so it ends in front of this one.
  have hpart : ∃ tail, part = base ++ tail ∧ behind = tail ++ c :: rest := by
    rcases List.append_eq_append_iff.1 heq with ⟨tail, hdir, hrest⟩ | ⟨tail, hpart, hbehind⟩
    · cases tail with
      | nil => exact ⟨[], by simpa using hdir.symm, by simpa using hrest.symm⟩
      | cons d tail =>
        have hd : c = d := by simpa using congrArg List.head? hrest
        exact absurd (by simp [hdir, hd]) hblank
    · exact ⟨tail, hpart, hbehind⟩
  rcases hpart with ⟨tail, rfl, rfl⟩
  refine Path.isUnder_iff.2 ⟨hne, escape tail ++ ['\\'], by simp [escape_append, hbase], ?_⟩
  rw [Path.atBoundary_iff] at hseam ⊢
  rcases hseam with hslash | hnil | habs
  · exact Or.inl hslash
  · simp at hnil
  · by_cases htail : tail = []
    · rw [htail, List.nil_append, hc'] at habs
      cases habs
    · rw [Path.isAbsolute_append_of_ne_nil htail] at habs
      refine Or.inr (Or.inr (Path.isAbsolute_append ?_ _))
      rwa [Path.isAbsolute_escape]

/-! ## Words -/

theorem mem_escape_of_mem (hc : c ∈ name) : c ∈ escape name := by
  refine List.mem_flatMap.2 ⟨c, hc, ?_⟩
  rcases escapeChar_cases c with ⟨rfl, hwritten⟩ | ⟨_, hwritten⟩ | ⟨_, _, hwritten⟩ <;>
    simp [hwritten]

theorem canEscape_of_mem_escape (hname : ∀ c ∈ name, CanEscape c) (hc : c ∈ escape name) :
    CanEscape c := by
  rcases List.mem_flatMap.1 hc with ⟨d, hd, hc⟩
  have hmark : CanEscape '$' ∧ CanEscape '\\' := by
    simp [CanEscape, Text.isSpace]
  rcases escapeChar_cases d with ⟨_, hwritten⟩ | ⟨_, hwritten⟩ | ⟨_, _, hwritten⟩
  · have hc : c = '$' := by simpa [hwritten] using hc
    exact hc ▸ hmark.1
  · have hc : c = '\\' ∨ c = d := by simpa [hwritten] using hc
    rcases hc with rfl | rfl
    · exact hmark.2
    · exact hname c hd
  · have hc : c = d := by simpa [hwritten] using hc
    exact hc ▸ hname d hd

/-- What can stand behind the escaped part of a name in the same word: nothing, the backslash of an
escaped blank, or the colon of a target. -/
inductive IsSuffix : Text → Prop
  | nil : IsSuffix []
  | backslash : IsSuffix ['\\']
  | colon : IsSuffix [':']

namespace IsSuffix

theorem isAbsolute_eq_false (h : IsSuffix suffix) : Path.isAbsolute suffix = false := by
  cases h <;> rfl

theorem canEscape (h : IsSuffix suffix) : ∀ c ∈ suffix, CanEscape c := by
  cases h <;> simp [CanEscape, Text.isSpace]

theorem spaceless (h : IsSuffix suffix) : Spaceless suffix := by
  cases h <;> simp [Spaceless, Text.isSpace]

/-- The relative form of an escaped path keeps the suffix, or it is escaped text without it. -/
theorem exists_relativeTo (h : IsSuffix suffix) (cwd : AbsolutePath)
    (habs : Path.isAbsolute part = true) :
    ∃ new, Path.relativeTo cwd (escape part ++ suffix) = escape new ∨
      Path.relativeTo cwd (escape part ++ suffix) = escape new ++ suffix := by
  have hmarked : ∀ mark, mark = '\\' ∨ mark = ':' →
      ∃ new, Path.relativeTo cwd (escape part ++ [mark]) = escape new ∨
        Path.relativeTo cwd (escape part ++ [mark]) = escape new ++ [mark] := by
    intro mark hmark
    rcases Path.exists_lastSlash habs with ⟨dir, last, rfl, hlast⟩
    rcases Path.isEscaped_relativeTo_mark cwd hmark hlast habs with ⟨new, hnew⟩ | ⟨new, hnew⟩
    · exact ⟨new, Or.inl hnew⟩
    · exact ⟨new, Or.inr hnew⟩
  cases h with
  | nil =>
    rcases Path.isEscaped_relativeTo cwd habs with ⟨new, hnew⟩
    exact ⟨new, Or.inl (by simpa using hnew)⟩
  | backslash => exact hmarked '\\' (Or.inl rfl)
  | colon => exact hmarked ':' (Or.inr rfl)

end IsSuffix

/-- A word made of a part of a name and a suffix, and what becomes of it. -/
inductive RewordsPart (scope : Scope) (part suffix : Text) : Text → Prop
  | kept : ¬Qualifies scope (escape part ++ suffix) →
      RewordsPart scope part suffix (escape part ++ suffix)
  | replaced {new : Text} : Path.isAbsolute new = false → (∀ c ∈ new, CanEscape c) →
      RewordsPart scope part suffix (escape new ++ suffix)
  | suffixLost {new : Text} : Path.isAbsolute new = false → (∀ c ∈ new, CanEscape c) →
      RewordsPart scope part suffix (escape new)

theorem rewordsPart (scope : Scope) (hpart : ∀ c ∈ part, CanEscape c) (hsuffix : IsSuffix suffix) :
    RewordsPart scope part suffix (relativizeWord scope (escape part ++ suffix)) := by
  by_cases hqualifies : Qualifies scope (escape part ++ suffix)
  · rw [relativizeWord_of_qualifies hqualifies]
    have habs : Path.isAbsolute part = true := by
      rw [← Path.isAbsolute_escape_append part hsuffix.isAbsolute_eq_false]
      exact hqualifies.1
    have hrelative := Path.isAbsolute_relativeTo scope.cwd hqualifies.1
    have hcan : ∀ c ∈ Path.relativeTo scope.cwd (escape part ++ suffix), CanEscape c := by
      intro c hc
      rcases Path.mem_relativeTo scope.cwd hqualifies.1 hc with rfl | hc
      · exact canEscape_dot
      · rcases List.mem_append.1 hc with hc | hc
        · exact canEscape_of_mem_escape hpart hc
        · exact hsuffix.canEscape c hc
    rcases hsuffix.exists_relativeTo scope.cwd habs with ⟨new, hnew | hnew⟩
    · rw [hnew] at hcan hrelative ⊢
      rw [Path.isAbsolute_escape] at hrelative
      exact .suffixLost hrelative (fun c hc => hcan c (mem_escape_of_mem hc))
    · rw [hnew] at hcan hrelative ⊢
      rw [Path.isAbsolute_escape_append new hsuffix.isAbsolute_eq_false] at hrelative
      exact .replaced hrelative
        (fun c hc => hcan c (List.mem_append_left suffix (mem_escape_of_mem hc)))
  · rw [relativizeWord_eq_self_iff.2 hqualifies]
    exact .kept hqualifies

/-! ## Names -/

section

variable (habs : Path.isAbsolute scope.base = true) (hbase : escape scope.base = scope.base)

include habs

theorem qualifies_of_isUnder {word : Text} (h : Path.isUnder word scope.base = true) :
    Qualifies scope word :=
  ⟨Path.isAbsolute_of_isUnder habs h, h⟩

theorem not_isUnder_append (hname : Path.isAbsolute name = false) (hne : name ≠ [])
    (more : Text) : Path.isUnder (name ++ more) scope.base = false := by
  refine Path.isUnder_of_not_isAbsolute habs ?_
  rwa [Path.isAbsolute_append_of_ne_nil hne]

include hbase

/-- A name is looked at part by part. Where the rest of the file avoids the base directory whatever
the last part becomes, the name avoids it too. -/
theorem avoids_reword_name (hcut : CutAtBlanks name) (hname : ∀ c ∈ name, CanEscape c)
    (hpending : Harmless scope.base pending) (hsuffix : IsSuffix suffix)
    (hlast : ∀ part pending, (∀ c ∈ part, CanEscape c) → Harmless scope.base pending →
      Avoids scope.base pending (relativizeWord scope (escape part ++ suffix) ++ next)) :
    Avoids scope.base pending (reword scope (escape name ++ suffix) ++ next) := by
  induction hcut generalizing pending with
  | @last part hpart =>
    rw [reword_spaceless scope (spaceless_escape_append hpart hsuffix.spaceless)]
    exact hlast part pending hname hpending
  | @blank part rest c hpart hc hrest ih =>
    have hcan : ∀ d ∈ part, CanEscape d := fun d hd => hname d (by simp [hd])
    have hcan' : ∀ d ∈ rest, CanEscape d := fun d hd => hname d (by simp [hd])
    have hblank : c = ' ' ∨ c = '\t' := by simpa [isSpaceOrTab] using hc
    have hprotected : isProtected c = true := by
      rcases hblank with rfl | rfl <;> rfl
    -- A part with the blank behind it is harmless, if it is a kept one or not absolute.
    have hpart' : ∀ new, (∀ d ∈ new, CanEscape d) →
        (∀ more, Path.isUnder ((new ++ [c]) ++ more) scope.base = false) →
        Avoids scope.base pending ((escape new ++ ['\\']) ++
          c :: (reword scope (escape rest ++ suffix) ++ next)) := by
      intro new hnew hunder
      have hbehind := ih hcan' (hpending.append hunder)
      rw [List.append_assoc]
      refine avoids_escape hnew (avoids_protected hprotected ?_)
      simpa using hbehind
    rw [reword_cut scope hpart hc, List.append_assoc, List.cons_append]
    have hword := rewordsPart scope hcan .backslash
    generalize relativizeWord scope (escape part ++ ['\\']) = word at hword ⊢
    cases hword with
    | kept hkept =>
      refine hpart' part hcan (fun more => Bool.eq_false_iff.2 (fun hunder => hkept ?_))
      have hunder : Path.isUnder (part ++ c :: more) scope.base = true := by simpa using hunder
      exact qualifies_of_isUnder habs (isUnder_escape_cut hbase hc hunder)
    | @replaced new hrelative hnew =>
      refine hpart' new hnew (fun more => ?_)
      refine not_isUnder_append habs ?_ (by simp) more
      exact Path.isAbsolute_append_eq_false hrelative (by rcases hblank with rfl | rfl <;> rfl)
    | @suffixLost new hrelative hnew =>
      have hspace := isSpace_of_isSpaceOrTab hc
      have hunder := hpending.isUnder_append (Path.isUnder_of_not_isAbsolute habs hrelative)
      exact avoids_escape hnew (avoids_space hspace hunder (ih hcan' (harmless_nil _)))

/-! ## Rules -/

/-- Behind a prerequisite something comes that gives it out. -/
theorem avoids_reword_prerequisite (hname : ∀ c ∈ name, CanEscape c)
    (hpending : Harmless scope.base pending)
    (hnext : ∀ pending, Path.isUnder pending.reverse scope.base = false →
      Avoids scope.base pending next) :
    Avoids scope.base pending (reword scope (escape name) ++ next) := by
  have hlast : ∀ part pending, (∀ c ∈ part, CanEscape c) → Harmless scope.base pending →
      Avoids scope.base pending (relativizeWord scope (escape part ++ []) ++ next) := by
    intro part pending hpart hpending
    have hword := rewordsPart scope hpart .nil
    generalize relativizeWord scope (escape part ++ []) = word at hword ⊢
    cases hword with
    | kept hkept =>
      have hunder : Path.isUnder part scope.base = false := by
        refine Bool.eq_false_iff.2 (fun hunder => hkept ?_)
        rw [List.append_nil]
        exact qualifies_of_isUnder habs (isUnder_escape hbase hunder)
      rw [List.append_nil]
      exact avoids_escape hpart (hnext _ (hpending.isUnder_append hunder))
    | replaced hrelative hnew =>
      have hunder := Path.isUnder_of_not_isAbsolute habs hrelative
      rw [List.append_nil]
      exact avoids_escape hnew (hnext _ (hpending.isUnder_append hunder))
    | suffixLost hrelative hnew =>
      have hunder := Path.isUnder_of_not_isAbsolute habs hrelative
      exact avoids_escape hnew (hnext _ (hpending.isUnder_append hunder))
  simpa using avoids_reword_name habs hbase (cutAtBlanks hname) hname hpending .nil hlast

/-- A target may lose its colon and become a prerequisite, but then it is not absolute. -/
theorem avoids_reword_target (hname : ∀ c ∈ name, CanEscape c) (hslash : slashFollows next = false)
    (hnext : ∀ pending, Path.isUnder pending.reverse scope.base = false →
      Avoids scope.base pending next) :
    Avoids scope.base [] (reword scope (escape name ++ [':']) ++ next) := by
  have hstart : Avoids scope.base [] next := hnext [] (isUnder_nil scope.base)
  have hcolon : ∀ part pending, (∀ c ∈ part, CanEscape c) →
      Avoids scope.base pending ((escape part ++ [':']) ++ next) := by
    intro part pending hpart
    rw [List.append_assoc]
    exact avoids_escape hpart (avoids_colon hslash hstart)
  refine avoids_reword_name habs hbase (cutAtBlanks hname) hname (harmless_nil _) .colon ?_
  intro part pending hpart hpending
  have hword := rewordsPart scope hpart .colon
  generalize relativizeWord scope (escape part ++ [':']) = word at hword ⊢
  cases hword with
  | kept _ => exact hcolon part pending hpart
  | @replaced new _ hnew => exact hcolon new pending hnew
  | suffixLost hrelative hnew =>
    have hunder := Path.isUnder_of_not_isAbsolute habs hrelative
    exact avoids_escape hnew (hnext _ (hpending.isUnder_append hunder))

theorem avoids_reword_line (prerequisites : List (Gap isSpaceOrTab × EscapedName))
    (hpending : Path.isUnder pending.reverse scope.base = false)
    (hrest : Avoids scope.base [] (reword scope rest)) :
    Avoids scope.base pending (reword scope (writeEscaped prerequisites ++ '\n' :: rest)) := by
  induction prerequisites generalizing pending with
  | nil =>
    have hline : reword scope ('\n' :: rest) = '\n' :: reword scope rest :=
      reword_cons_blank scope (Or.inr (Or.inr rfl)) rest
    rw [writeEscaped, List.flatMap_nil, List.nil_append, hline]
    exact avoids_space rfl hpending hrest
  | cons entry others ih =>
    have hline := startsBlank_pieces_line others rest
    rw [writeEscaped_cons_append, reword_gap, reword_append scope entry.2.carriageReturn_notMem hline]
    refine avoids_gap entry.1 hpending ?_
    exact avoids_reword_prerequisite habs hbase entry.2.can_escape (harmless_nil _)
      (fun pending hpending => ih hpending)

omit habs hbase in
theorem slashFollows_reword_line (prerequisites : List (Gap isSpaceOrTab × EscapedName))
    (rest : Text) :
    slashFollows (reword scope (writeEscaped prerequisites ++ '\n' :: rest)) = false := by
  cases prerequisites with
  | nil =>
    rw [writeEscaped, List.flatMap_nil, List.nil_append,
      reword_cons_blank scope (Or.inr (Or.inr rfl)) rest]
    rfl
  | cons entry others =>
    rw [writeEscaped_cons_append, reword_gap]
    exact slashFollows_gap entry.1 _

theorem avoids_reword_rules (rules : List EscapedRule) :
    Avoids scope.base [] (reword scope (rules.flatMap EscapedRule.text)) := by
  induction rules with
  | nil => exact avoids_nil_nil _
  | cons rule rules ih =>
    rw [List.flatMap_cons, EscapedRule.text_append,
      reword_append scope (carriageReturn_notMem_target rule.target)
        (startsBlank_pieces_line rule.prerequisites _)]
    exact avoids_reword_target habs hbase rule.target.can_escape
      (slashFollows_reword_line rule.prerequisites _)
      (fun pending hpending => avoids_reword_line habs hbase rule.prerequisites hpending ih)

/-- No prerequisite under the base directory is left. -/
theorem avoids_revised (rules : List EscapedRule) :
    Avoids scope.base [] (revised scope (rules.flatMap EscapedRule.text)) := by
  cases rules with
  | nil => exact avoids_nil_nil _
  | cons rule rules =>
    have hnext : Avoids scope.base []
        (reword scope (writeEscaped rule.prerequisites ++ '\n' :: rules.flatMap EscapedRule.text)) :=
      avoids_reword_line habs hbase rule.prerequisites (isUnder_nil scope.base)
        (avoids_reword_rules habs hbase rules)
    rw [List.flatMap_cons, EscapedRule.text_append,
      revised_append scope (endsWithTarget_escape (cutAtBlanks rule.target.can_escape))
        (carriageReturn_notMem_target rule.target) (startsBlank_pieces_line rule.prerequisites _),
      List.append_assoc]
    exact avoids_escape rule.target.can_escape
      (avoids_colon (slashFollows_reword_line rule.prerequisites _) hnext)

end

end Depfile.Layout
