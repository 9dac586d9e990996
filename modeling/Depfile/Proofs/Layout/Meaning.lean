import Depfile.Proofs.Layout.Names

/-!
# What a revised file means

A revision keeps the meaning of a file that was written from escaped names. The revised file is again
one written from names (`exists_revised_escapedRules`), and each of them is the old one or a relative
one of the same file. So its tokens are the old ones up to that, apart from names that have become
blank (`tokenize_relativized`).
-/

namespace Depfile.Layout

open Token

/-- An entry of a file and what it becomes. -/
inductive RenamesEntry (cwd : AbsolutePath) : Entry → Entry → Prop
  | target {old new : Text} :
      Renames cwd old new → RenamesEntry cwd (.target old) (.target new)
  | prerequisite {old new : Text} :
      Renames cwd old new → RenamesEntry cwd (.prerequisite old) (.prerequisite new)

theorem RenamesEntry.renames {cwd : AbsolutePath} {old new : Entry} (h : RenamesEntry cwd old new) :
    Renames cwd old.name new.name := by
  cases h with
  | target h => exact h
  | prerequisite h => exact h

/-- A rule with readable names. The colon of a target that ends with a separator would become a
component of its own. -/
structure IsReadableRule (rule : EscapedRule) : Prop where
  names : ∀ entry ∈ rule.entries, IsReadable entry.name
  target_no_slash : rule.target.name.getLast? ≠ some '/'

variable {scope : Scope}

namespace IsReadableRule

variable {rule : EscapedRule}

theorem target (h : IsReadableRule rule) : IsReadable rule.target.name :=
  h.names (.target rule.target.name) (by simp [EscapedRule.entries])

theorem prerequisites (h : IsReadableRule rule) :
    ∀ entry ∈ rule.prerequisites, IsReadable entry.2.name := by
  intro entry hentry
  refine h.names (.prerequisite entry.2.name) ?_
  exact List.mem_cons_of_mem _ (List.mem_map_of_mem hentry)

end IsReadableRule

/-! ## Rules -/

section

variable (hcwd : Path.EscapeFree scope.cwd.text)

include hcwd

theorem exists_rewordsPrerequisites (prerequisites : List (Gap isSpaceOrTab × EscapedName))
    (h : ∀ entry ∈ prerequisites, IsReadable entry.2.name) :
    ∃ prerequisites', List.Forall₂ (RewordsPrerequisite scope) prerequisites prerequisites' ∧
      List.Forall₂ (RenamesEntry scope.cwd) (prerequisiteEntries prerequisites)
        (prerequisiteEntries prerequisites') := by
  induction prerequisites with
  | nil => exact ⟨[], .nil, .nil⟩
  | cons entry others ih =>
    rcases exists_reword_prerequisite hcwd entry.2 (h entry (by simp)) with ⟨new, hname, hrenames⟩
    rcases ih (fun other hother => h other (by simp [hother])) with ⟨others', hwords, hentries⟩
    exact ⟨(entry.1, new) :: others', .cons ⟨rfl, hname⟩ hwords,
      .cons (.prerequisite hrenames) hentries⟩

theorem exists_rewordsRules (rules : List EscapedRule) (h : ∀ rule ∈ rules, IsReadableRule rule) :
    ∃ rules', List.Forall₂ (RewordsRule scope) rules rules' ∧
      List.Forall₂ (RenamesEntry scope.cwd) (rules.flatMap EscapedRule.entries)
        (rules'.flatMap EscapedRule.entries) := by
  induction rules with
  | nil => exact ⟨[], .nil, .nil⟩
  | cons rule rules ih =>
    have hrule := h rule (by simp)
    rcases exists_reword_target hcwd rule.target hrule.target hrule.target_no_slash with
      ⟨target, htarget, hrenames⟩
    rcases exists_rewordsPrerequisites hcwd rule.prerequisites hrule.prerequisites with
      ⟨prerequisites, hwords, hentries⟩
    rcases ih (fun other hother => h other (by simp [hother])) with ⟨rules', hwords', hentries'⟩
    exact ⟨⟨target, prerequisites⟩ :: rules', .cons ⟨htarget, hwords⟩ hwords',
      List.rel_append (.cons (.target hrenames) hentries) hentries'⟩

/-- The revised file has the same rules with other names. -/
theorem exists_revised_escapedRules (rules : List EscapedRule)
    (h : ∀ rule ∈ rules, IsReadableRule rule) :
    ∃ rules' : List EscapedRule,
      revised scope (rules.flatMap EscapedRule.text) = rules'.flatMap EscapedRule.text ∧
      List.Forall₂ (RenamesEntry scope.cwd) (rules.flatMap EscapedRule.entries)
        (rules'.flatMap EscapedRule.entries) := by
  cases rules with
  | nil => exact ⟨[], rfl, .nil⟩
  | cons rule rules =>
    have hrule := h rule (by simp)
    rcases exists_rewordsPrerequisites hcwd rule.prerequisites hrule.prerequisites with
      ⟨prerequisites, hwords, hentries⟩
    rcases exists_rewordsRules hcwd rules (fun other hother => h other (by simp [hother])) with
      ⟨rules', hwords', hentries'⟩
    -- The first target is never looked at.
    have hkept : RenamesEntry scope.cwd (.target rule.target.name) (.target rule.target.name) :=
      .target (renames_self hrule.target.not_blank)
    exact ⟨⟨rule.target, prerequisites⟩ :: rules', revised_rules hwords hwords',
      List.rel_append (.cons hkept hentries) hentries'⟩

end

/-! ## Tokens -/

theorem isBlank_eq_false_of_mem {rules : List EscapedRule} (h : ∀ rule ∈ rules, IsReadableRule rule) :
    ∀ entry ∈ rules.flatMap EscapedRule.entries, Text.isBlank entry.name = false := by
  intro entry hentry
  rcases List.mem_flatMap.1 hentry with ⟨rule, hrule, hentry⟩
  exact ((h rule hrule).names entry hentry).not_blank

theorem isBlank_eq_false_of_renamed {cwd : AbsolutePath} {old new : List Entry}
    (h : List.Forall₂ (RenamesEntry cwd) old new)
    (hold : ∀ entry ∈ old, ¬IsBlankIn cwd entry.name) :
    ∀ entry ∈ new, Text.isBlank entry.name = false := by
  induction h with
  | nil => simp
  | cons hentry _ ih =>
    refine List.forall_mem_cons.2 ⟨?_, ih (fun other hother => hold other (by simp [hother]))⟩
    refine Bool.eq_false_iff.2 (fun hblank => ?_)
    exact hold _ (by simp) (hentry.renames.blank hblank)

/-- A file written from escaped names has a token for each name. Its revision has one for each of the
names that they have become, unless it is blank: the old name or a relative one of the same file.
Only a name for a file in the working directory can become blank, and without such a name there are
as many tokens as before. -/
theorem tokenize_relativized (hcwd : Path.EscapeFree scope.cwd.text) (rules : List EscapedRule)
    (hrules : ∀ rule ∈ rules, IsReadableRule rule) {newText : Text}
    (h : relativize scope (rules.flatMap EscapedRule.text) = .ok (some newText)) :
    tokenize (rules.flatMap EscapedRule.text) =
      (rules.flatMap EscapedRule.entries).map Entry.token ∧
    ∃ entries, List.Forall₂ (RenamesEntry scope.cwd) (rules.flatMap EscapedRule.entries) entries ∧
      tokenize newText = readBack entries ∧
      ((∀ entry ∈ rules.flatMap EscapedRule.entries, ¬IsBlankIn scope.cwd entry.name) →
        tokenize newText = entries.map Entry.token ∧
        (tokenize newText).length = (tokenize (rules.flatMap EscapedRule.text)).length) := by
  have hold : tokenize (rules.flatMap EscapedRule.text) =
      (rules.flatMap EscapedRule.entries).map Entry.token := by
    rw [tokenize_escapedRules, readBack_eq_map (isBlank_eq_false_of_mem hrules)]
  rcases exists_revised_escapedRules hcwd rules hrules with ⟨rules', htext, hentries⟩
  have hnew : tokenize newText = readBack (rules'.flatMap EscapedRule.entries) := by
    rw [(of_relativize_eq_some h).1, htext, tokenize_escapedRules]
  refine ⟨hold, rules'.flatMap EscapedRule.entries, hentries, hnew, ?_⟩
  intro hnames
  have hall := readBack_eq_map (isBlank_eq_false_of_renamed hentries hnames)
  refine ⟨hnew.trans hall, ?_⟩
  calc
    (tokenize newText).length = (rules'.flatMap EscapedRule.entries).length := by
      rw [hnew, hall, List.length_map]
    _ = (rules.flatMap EscapedRule.entries).length := hentries.length_eq.symm
    _ = (tokenize (rules.flatMap EscapedRule.text)).length := by rw [hold, List.length_map]

/-- A gap of one space or tab. -/
def singleBlank (c : Char) (h : isSpaceOrTab c = true) : Gap isSpaceOrTab where
  blanks := ⟨[c], by simpa using h⟩
  continuation := none
  blanks_ne_nil := by simp

/-- A source file whose name has a space and a number sign. -/
def spacedRule : EscapedRule where
  target := ⟨['o'], by simp, by simp [CanEscape, Text.isSpace]⟩
  prerequisites := [
    (singleBlank '\t' rfl,
      ⟨['/', 'p', '/', 'a', ' ', '#'], by simp, by simp [CanEscape, Text.isSpace]⟩)]

theorem isReadableRule_spacedRule : IsReadableRule spacedRule where
  names := by
    intro entry hentry
    have hcases : entry = .target ['o'] ∨ entry = .prerequisite ['/', 'p', '/', 'a', ' ', '#'] := by
      simpa [spacedRule, EscapedRule.entries, prerequisiteEntries] using hentry
    rcases hcases with rfl | rfl <;> exact ⟨by decide, by decide⟩
  target_no_slash := by decide

theorem tokenize_spacedRule_relativized :
    relativize ⟨['/', 'p'], ⟨['/', 'p', '/', 'd'], rfl⟩⟩ ([spacedRule].flatMap EscapedRule.text) =
      .ok (some ['o', ':', '\t', '.', '.', '/', 'a', '\\', ' ', '\\', '#', '\n']) ∧
    ∃ entries, List.Forall₂ (RenamesEntry ⟨['/', 'p', '/', 'd'], rfl⟩)
        [.target ['o'], .prerequisite ['/', 'p', '/', 'a', ' ', '#']] entries ∧
      tokenize ['o', ':', '\t', '.', '.', '/', 'a', '\\', ' ', '\\', '#', '\n'] =
        entries.map Entry.token := by
  have hrules : ∀ rule ∈ [spacedRule], IsReadableRule rule := by
    intro rule hrule
    rw [List.mem_singleton.1 hrule]
    exact isReadableRule_spacedRule
  have h : relativize ⟨['/', 'p'], ⟨['/', 'p', '/', 'd'], rfl⟩⟩
      ([spacedRule].flatMap EscapedRule.text) =
      .ok (some ['o', ':', '\t', '.', '.', '/', 'a', '\\', ' ', '\\', '#', '\n']) := by
    decide +kernel
  refine ⟨h, ?_⟩
  rcases (tokenize_relativized (by decide) [spacedRule] hrules h).2 with
    ⟨entries, hentries, _, htokens⟩
  refine ⟨entries, hentries, (htokens ?_).1⟩
  intro entry hentry
  have hcases : entry = .target ['o'] ∨ entry = .prerequisite ['/', 'p', '/', 'a', ' ', '#'] := by
    simpa [spacedRule, EscapedRule.entries, prerequisiteEntries] using hentry
  rcases hcases with rfl | rfl <;> exact not_isBlankIn rfl rfl

/-- A source file in the working directory whose name is a space. -/
def blankRule : EscapedRule where
  target := ⟨['o'], by simp, by simp [CanEscape, Text.isSpace]⟩
  prerequisites := [
    (singleBlank ' ' rfl,
      ⟨['/', 'p', '/', ' '], by simp, by simp [CanEscape, Text.isSpace]⟩)]

/-- The revised file has lost a token. -/
theorem tokenize_blankRule_relativized :
    Path.EscapeFree ['/', 'p'] ∧ (∀ rule ∈ [blankRule], IsReadableRule rule) ∧
    relativize ⟨['/', 'p'], ⟨['/', 'p'], rfl⟩⟩ ([blankRule].flatMap EscapedRule.text) =
      .ok (some ['o', ':', ' ', '\\', ' ', '\n']) ∧
    tokenize ([blankRule].flatMap EscapedRule.text) = [['o', ':'], ['/', 'p', '/', ' ']] ∧
    tokenize ['o', ':', ' ', '\\', ' ', '\n'] = [['o', ':']] := by
  refine ⟨by decide, ?_, by decide +kernel, by decide +kernel, by decide +kernel⟩
  intro rule hrule
  rw [List.mem_singleton.1 hrule]
  refine ⟨?_, by decide⟩
  intro entry hentry
  have hcases : entry = .target ['o'] ∨ entry = .prerequisite ['/', 'p', '/', ' '] := by
    simpa [blankRule, EscapedRule.entries, prerequisiteEntries] using hentry
  rcases hcases with rfl | rfl <;> exact ⟨by decide, by decide⟩

end Depfile.Layout
