import Depfile.Proofs.Layout.Meaning
import Depfile.Proofs.Layout.Remainder

/-!
# Base directories under which nothing is left

Which absolute paths a revision leaves depends on how the base directory is written. If it is written
without escapes, no prerequisite under it is left, and if it has a character that no token of the
file can have, there was none to begin with. Under any other base directory every file is left whose
name behind the directory has no whitespace (`not_leavesNone_of_file`): the words of the file are
compared as they are written, and none of them begins with the directory.
-/

namespace Depfile.Layout

open Token

variable {scope : Scope} {base name text word : Text}

/-- Revising the text leaves no prerequisite that is an absolute path under the base directory. -/
def LeavesNone (scope : Scope) (text : Text) : Prop :=
  ∃ outcome, relativize scope text = .ok outcome ∧
    ∀ token ∈ prerequisites (tokenize (outcome.getD text)), ¬Qualifies scope token

theorem leavesNone_iff (hbase : scope.base ≠ []) :
    LeavesNone scope text ↔
      ∀ token ∈ prerequisites (tokenize (revised scope text)), ¬Qualifies scope token := by
  rcases exists_relativize_eq hbase text with ⟨outcome, houtcome, htext⟩
  constructor
  · rintro ⟨other, hother, h⟩
    rw [houtcome] at hother
    cases hother
    rwa [htext] at h
  · intro h
    exact ⟨outcome, houtcome, by rwa [htext]⟩

/-! ## Directories without escapes -/

theorem leavesNone_of_escape_eq (habs : Path.isAbsolute scope.base = true)
    (hbase : escape scope.base = scope.base) (rules : List EscapedRule) :
    LeavesNone scope (rules.flatMap EscapedRule.text) := by
  rw [leavesNone_iff (Path.ne_nil_of_isAbsolute habs)]
  intro token htoken hqualifies
  have hunder := avoids_revised habs hbase rules token htoken
  rw [hqualifies.2] at hunder
  cases hunder

/-! ## Directories with a character that has no escape -/

theorem canEscape_or_newline_of_mem_gap {gap : Gap isSpaceOrTab} {c : Char} (hc : c ∈ gap.text) :
    CanEscape c ∨ c = '\n' := by
  have hblank : ∀ run : Run isSpaceOrTab, c ∈ run.text → CanEscape c := by
    intro run hmem
    have hcases : c = ' ' ∨ c = '\t' := by simpa [isSpaceOrTab] using run.of_kind c hmem
    rcases hcases with rfl | rfl <;> simp [CanEscape]
  rcases List.mem_append.1 hc with hc | hc
  · exact Or.inl (hblank gap.blanks hc)
  · cases hcontinuation : gap.continuation with
    | none => simp [hcontinuation] at hc
    | some more =>
      have hcases : c = '\\' ∨ c = '\n' ∨ c ∈ more.text := by simpa [hcontinuation] using hc
      rcases hcases with rfl | rfl | hc
      · exact Or.inl (by simp [CanEscape, Text.isSpace])
      · exact Or.inr rfl
      · exact Or.inl (hblank more hc)

theorem canEscape_or_newline_of_mem {rules : List EscapedRule} {c : Char}
    (hc : c ∈ rules.flatMap EscapedRule.text) : CanEscape c ∨ c = '\n' := by
  rcases List.mem_flatMap.1 hc with ⟨rule, _, hc⟩
  have hcases : c ∈ escape rule.target.name ∨ c = ':' ∨ c ∈ writeEscaped rule.prerequisites ∨
      c = '\n' := by
    simpa [EscapedRule.text, or_assoc] using hc
  rcases hcases with hc | rfl | hc | hc
  · exact Or.inl (canEscape_of_mem_escape rule.target.can_escape hc)
  · exact Or.inl (by simp [CanEscape, Text.isSpace])
  · rcases List.mem_flatMap.1 hc with ⟨entry, _, hc⟩
    rcases List.mem_append.1 hc with hc | hc
    · exact canEscape_or_newline_of_mem_gap hc
    · exact Or.inl (canEscape_of_mem_escape entry.2.can_escape hc)
  · exact Or.inr hc

/-- What has been qualified has all characters of the base directory. -/
theorem mem_of_qualifies {c : Char} (h : Qualifies scope word) (hc : c ∈ scope.base) : c ∈ word :=
  (Path.isPrefix_of_isUnder h.2).subset hc

theorem mem_of_mem_word {c : Char} (hword : Piece.word word ∈ pieces text) (hc : c ∈ word) :
    c ∈ text := by
  have hinfix := isInfix_render hword
  rw [render_pieces] at hinfix
  exact hinfix.subset hc

theorem leavesNone_of_not_canEscape (habs : Path.isAbsolute scope.base = true) {c : Char}
    (hc : c ∈ scope.base) (hcan : ¬CanEscape c) (rules : List EscapedRule) :
    LeavesNone scope (rules.flatMap EscapedRule.text) := by
  have hquote : '"' ∉ rules.flatMap EscapedRule.text := by
    intro hmem
    rcases canEscape_or_newline_of_mem hmem with hquote | hquote
    · exact hquote.1 rfl
    · cases hquote
  -- The only such character in the text is the line feed, which is in no word.
  have hwords : ∀ word, Piece.word word ∈ pieces (rules.flatMap EscapedRule.text) →
      ¬Qualifies scope word := by
    intro word hword hqualifies
    have hmem := mem_of_qualifies hqualifies hc
    rcases canEscape_or_newline_of_mem (mem_of_mem_word hword hmem) with hescape | hnewline
    · exact hcan hescape
    · exact ((isWord_of_mem (spaced_pieces _) hword).no_blank c hmem).2.2 hnewline
  have hrevised := revised_eq_self
    (fun word hword => hwords word (mem_pieces_of_mem_afterTarget hword))
  rw [leavesNone_iff (Path.ne_nil_of_isAbsolute habs), hrevised]
  intro token htoken hqualifies
  have hmem := mem_of_qualifies hqualifies hc
  rcases of_mem_tokenize (List.mem_filter.1 htoken).1 hmem with hescape | hquoted
  · exact hcan hescape
  · rw [quotedText_eq_nil hquote] at hquoted
    cases hquoted

/-! ## Directories with escapes -/

theorem count_slash_escape (text : Text) : (escape text).count '/' = text.count '/' := by
  induction text with
  | nil => rfl
  | cons c text ih =>
    have hc : (escapeChar c).count '/' = [c].count '/' := by
      rcases escapeChar_cases c with ⟨rfl, hwritten⟩ | ⟨_, hwritten⟩ | ⟨_, _, hwritten⟩
      · rfl
      · rw [hwritten, List.count_cons_of_ne (by decide)]
      · rw [hwritten]
    rw [escape_cons, List.count_append, hc, ih, ← List.count_append]
    rfl

/-- A directory has as many separators with escapes as without. So if it is longer with them, a path
that begins with the escaped directory goes on with other characters than a separator behind the
directory itself. -/
theorem escape_eq_of_isUnder (h : Path.isUnder (escape base ++ '/' :: name) base = true) :
    escape base = base := by
  rcases Path.isUnder_iff.1 h with ⟨_, rest, heq, hseam⟩
  have hlength := length_le_length_escape base
  rcases List.append_eq_append_iff.1 heq with ⟨more, hdir, _⟩ | ⟨more, hescape, rfl⟩
  · have hnil : more = [] := by
      have hsum := congrArg List.length hdir
      rw [List.length_append] at hsum
      exact List.length_eq_zero_iff.1 (by omega)
    simpa [hnil] using hdir.symm
  · have hslash : '/' ∉ more := by
      have hcount := count_slash_escape base
      rw [hescape, List.count_append] at hcount
      exact List.count_eq_zero.1 (by omega)
    suffices hnil : more = [] by simpa [hnil] using hescape
    by_contra hne
    rcases hseam with hlast | hnil | ⟨tail, htail⟩
    · -- Then the escaped directory ends with a separator too.
      rcases List.getLast?_eq_some_iff.1 hlast with ⟨front, rfl⟩
      have hend : (escape (front ++ ['/'])).getLast? = some '/' := by
        simp [escape, escapeChar, isProtected]
      rw [hescape, List.getLast?_append_of_ne_nil _ hne] at hend
      exact hslash (List.mem_of_getLast? hend)
    · simp at hnil
    · rcases List.exists_cons_of_ne_nil hne with ⟨c, others, rfl⟩
      have hc : c = '/' := by simpa using congrArg List.head? htail
      exact hslash (by simp [hc])

theorem reword_eq_self (h : ∀ word, Piece.word word ∈ pieces text → ¬Qualifies scope word) :
    reword scope text = text := by
  rw [reword, map_relativizeWord_eq_self h, render_pieces]

/-- If a blank is in the directory, no word begins with the directory, and otherwise the name is one
word, which begins with the escaped directory. -/
theorem reword_file (hbase : escape scope.base ≠ scope.base) (hcan : ∀ c ∈ scope.base, CanEscape c)
    (hname : Spaceless name) :
    reword scope (escape (scope.base ++ '/' :: name)) = escape (scope.base ++ '/' :: name) := by
  by_cases hspace : Spaceless scope.base
  · have hpath : Spaceless (scope.base ++ '/' :: name) := by
      intro c hc
      rcases List.mem_append.1 hc with hc | hc
      · exact hspace c hc
      · rcases List.mem_cons.1 hc with rfl | hc
        · rfl
        · exact hname c hc
    rw [reword_spaceless scope (spaceless_escape hpath), relativizeWord_eq_self_iff]
    intro hqualifies
    have hunder := hqualifies.2
    rw [escape_append] at hunder
    exact hbase (escape_eq_of_isUnder hunder)
  · simp only [Spaceless, Classical.not_forall, Bool.not_eq_false] at hspace
    rcases hspace with ⟨c, hc, hspace⟩
    refine reword_eq_self (fun word hword hqualifies => ?_)
    have hblank := (isWord_of_mem (spaced_pieces _) hword).no_blank c (mem_of_qualifies hqualifies hc)
    rcases (hcan c hc).2 hspace with rfl | rfl
    · exact hblank.1 rfl
    · exact hblank.2.1 rfl

theorem isTarget_append_slash (dir name : Text) :
    isTarget (dir ++ '/' :: name) = isTarget name := by
  rcases List.eq_nil_or_concat' name with rfl | ⟨front, c, rfl⟩
  · simp [isTarget]
  · have hend : dir ++ '/' :: (front ++ [c]) = (dir ++ '/' :: front) ++ [c] := by simp
    rw [isTarget, hend, isTarget, List.getLast?_concat, List.getLast?_concat]

/-- A file under a directory with escapes is left. -/
theorem not_leavesNone_of_file (habs : Path.isAbsolute scope.base = true)
    (hbase : escape scope.base ≠ scope.base) (target file : EscapedName) (gap : Gap isSpaceOrTab)
    (hfile : file.name = scope.base ++ '/' :: name) (hname : Spaceless name)
    (hlast : isTarget name = false) :
    ¬LeavesNone scope ([EscapedRule.mk target [(gap, file)]].flatMap EscapedRule.text) := by
  have hcan : ∀ c ∈ scope.base, CanEscape c := by
    intro c hc
    exact file.can_escape c (by simp [hfile, hc])
  have hkept : RewordsPrerequisite scope (gap, file) (gap, file) := by
    refine ⟨rfl, ?_⟩
    rw [hfile]
    exact reword_file hbase hcan hname
  have hrevised : revised scope ([EscapedRule.mk target [(gap, file)]].flatMap EscapedRule.text) =
      [EscapedRule.mk target [(gap, file)]].flatMap EscapedRule.text :=
    revised_rules (.cons hkept .nil) .nil
  have hqualifies : Qualifies scope file.name := by
    rw [hfile]
    exact ⟨Path.isAbsolute_append habs _,
      Path.isUnder_append_slash (Path.ne_nil_of_isAbsolute habs) name⟩
  have hblank : Text.isBlank file.name = false := by
    rcases Path.isAbsolute_iff.1 hqualifies.1 with ⟨rest, hrest⟩
    simp [hrest, Text.isBlank, Text.isSpace]
  have htarget : isTarget file.name = false := by
    rwa [hfile, isTarget_append_slash]
  rw [leavesNone_iff (Path.ne_nil_of_isAbsolute habs), hrevised, tokenize_escapedRules]
  intro hnone
  have hentry : Entry.prerequisite file.name ∈
      [EscapedRule.mk target [(gap, file)]].flatMap EscapedRule.entries := by
    simp [EscapedRule.entries, prerequisiteEntries]
  have htoken : file.name ∈
      readBack ([EscapedRule.mk target [(gap, file)]].flatMap EscapedRule.entries) :=
    List.mem_map.2 ⟨_, List.mem_filter.2 ⟨hentry, by simp [Entry.name, hblank]⟩, rfl⟩
  exact hnone file.name (List.mem_filter.2 ⟨htoken, by simp [htarget]⟩) hqualifies

/-! ## All directories -/

/-- Revising a file leaves no prerequisite under the base directory, if the directory is written
without escapes or cannot begin a token at all. Under any other directory files are left. -/
theorem leavesNone_or_file_left (base cwd : AbsolutePath) :
    ((escape base.text = base.text ∨ ∃ c ∈ base.text, ¬CanEscape c) →
      ∀ rules : List EscapedRule,
        LeavesNone ⟨base.text, cwd⟩ (rules.flatMap EscapedRule.text)) ∧
    (escape base.text ≠ base.text →
      ∀ (target file : EscapedName) (gap : Gap isSpaceOrTab) (name : Text),
        file.name = base.text ++ '/' :: name → Spaceless name → isTarget name = false →
        ¬LeavesNone ⟨base.text, cwd⟩
          ([EscapedRule.mk target [(gap, file)]].flatMap EscapedRule.text)) := by
  refine ⟨?_, ?_⟩
  · rintro (hbase | ⟨c, hc, hcan⟩) rules
    · exact leavesNone_of_escape_eq base.isAbsolute hbase rules
    · exact leavesNone_of_not_canEscape base.isAbsolute hc hcan rules
  · intro hbase target file gap name hfile hname hlast
    exact not_leavesNone_of_file base.isAbsolute hbase target file gap hfile hname hlast

/-- A source file in a directory whose name has a space. -/
def spacedDirectoryFile : EscapedName where
  name := ['/', 'a', ' ', 'b', '/', 'x']
  ne_nil := by simp
  can_escape := by simp [CanEscape, Text.isSpace]

theorem isSpaceOrTab_space : isSpaceOrTab ' ' = true := rfl

def spacedDirectoryRule : EscapedRule where
  target := spacedRule.target
  prerequisites := [(singleBlank ' ' isSpaceOrTab_space, spacedDirectoryFile)]

theorem leavesNone_spacedRule :
    LeavesNone ⟨['/', 'p'], .root⟩ ([spacedRule].flatMap EscapedRule.text) ∧
    ¬LeavesNone ⟨['/', 'a', ' ', 'b'], .root⟩ ([spacedDirectoryRule].flatMap EscapedRule.text) := by
  refine ⟨(leavesNone_or_file_left ⟨['/', 'p'], rfl⟩ .root).1 (Or.inl rfl) [spacedRule], ?_⟩
  exact (leavesNone_or_file_left ⟨['/', 'a', ' ', 'b'], rfl⟩ .root).2 (by decide) _
    spacedDirectoryFile _ ['x'] rfl (by simp [Spaceless, Text.isSpace]) rfl

/-- The base directory does not even occur in the text, as the blank is escaped there. -/
theorem relativize_spacedDirectoryRule :
    [spacedDirectoryRule].flatMap EscapedRule.text =
        ['o', ':', ' ', '/', 'a', '\\', ' ', 'b', '/', 'x', '\n'] ∧
      relativize ⟨['/', 'a', ' ', 'b'], .root⟩ ([spacedDirectoryRule].flatMap EscapedRule.text) =
        .ok none ∧
      prerequisites (tokenize ([spacedDirectoryRule].flatMap EscapedRule.text)) =
        [['/', 'a', ' ', 'b', '/', 'x']] ∧
      Path.isAbsolute ['/', 'a', ' ', 'b', '/', 'x'] = true ∧
      Path.isUnder ['/', 'a', ' ', 'b', '/', 'x'] ['/', 'a', ' ', 'b'] = true := by
  refine ⟨rfl, ?_, ?_, rfl, ?_⟩ <;> decide +kernel

end Depfile.Layout
