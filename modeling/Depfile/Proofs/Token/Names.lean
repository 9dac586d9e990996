import Depfile.Proofs.Token.Plain

/-!
# Dependency files with escaped names

Escapes can write every name that has no double quote and of the whitespace only spaces and tabs. It
is read back unless it is blank: a blank name is written like any other one, but the scanner drops
it, and if it is a target, its colon too. So the tokens of a file are those of its entries with
names that are not blank (`tokenize_escapedRules`).
-/

namespace Depfile.Token

variable {rest : Text}

/-- A name that escapes can write, blank or not. -/
structure EscapedName where
  name : Text
  ne_nil : name ≠ []
  can_escape : ∀ c ∈ name, CanEscape c

structure EscapedRule where
  target : EscapedName
  prerequisites : List (Gap isSpaceOrTab × EscapedName)

/-- A name in a rule, as its target or as one of its prerequisites. -/
inductive Entry where
  | target (name : Text)
  | prerequisite (name : Text)
deriving DecidableEq, Repr

namespace Entry

def name : Entry → Text
  | target name => name
  | prerequisite name => name

/-- The token by which the entry is read back. -/
def token : Entry → Text
  | target name => name ++ [':']
  | prerequisite name => name

end Entry

/-- The tokens of the entries that are not blank. -/
def readBack (entries : List Entry) : List Text :=
  (entries.filter (fun entry => !Text.isBlank entry.name)).map Entry.token

def writeEscaped (prerequisites : List (Gap isSpaceOrTab × EscapedName)) : Text :=
  prerequisites.flatMap (fun entry => entry.1.text ++ escape entry.2.name)

theorem writeEscaped_cons_append (entry : Gap isSpaceOrTab × EscapedName)
    (others : List (Gap isSpaceOrTab × EscapedName)) (rest : Text) :
    writeEscaped (entry :: others) ++ rest =
      entry.1.text ++ (escape entry.2.name ++ (writeEscaped others ++ rest)) := by
  simp [writeEscaped]

def prerequisiteEntries (prerequisites : List (Gap isSpaceOrTab × EscapedName)) : List Entry :=
  prerequisites.map (fun entry => .prerequisite entry.2.name)

namespace EscapedRule

def text (rule : EscapedRule) : Text :=
  escape rule.target.name ++ ':' :: writeEscaped rule.prerequisites ++ ['\n']

def entries (rule : EscapedRule) : List Entry :=
  .target rule.target.name :: prerequisiteEntries rule.prerequisites

/-- The target with its colon, and what comes after it. -/
theorem text_append (rule : EscapedRule) (rest : Text) :
    rule.text ++ rest =
      (escape rule.target.name ++ [':']) ++ (writeEscaped rule.prerequisites ++ '\n' :: rest) := by
  simp [text]

end EscapedRule

/-! ## Reading back -/

theorem readBack_nil : readBack [] = [] := rfl

theorem readBack_append (front back : List Entry) :
    readBack (front ++ back) = readBack front ++ readBack back := by
  simp [readBack]

theorem readBack_cons (entry : Entry) (entries : List Entry) :
    readBack (entry :: entries) = readBack [entry] ++ readBack entries :=
  readBack_append [entry] entries

/-- Where no name is blank every entry is read back. -/
theorem readBack_eq_map {entries : List Entry}
    (h : ∀ entry ∈ entries, Text.isBlank entry.name = false) :
    readBack entries = entries.map Entry.token := by
  have hfilter : entries.filter (fun entry => !Text.isBlank entry.name) = entries := by
    refine List.filter_eq_self.2 ?_
    intro entry hentry
    simp [h entry hentry]
  rw [readBack, hfilter]

theorem emit_reverse_eq (name : Text) : emit name.reverse = readBack [.prerequisite name] := by
  by_cases hblank : Text.isBlank name = true
  · simp [emit, isBlank_reverse, readBack, Entry.name, hblank]
  · simp [emit, isBlank_reverse, readBack, Entry.name, Entry.token, hblank]

/-- The colon behind a name gives it out as a target, if it is not blank. -/
theorem scan_targetColon (name : Text) (hrest : slashFollows rest = false) :
    scan name.reverse .plain (':' :: rest) = readBack [.target name] ++ scan [] .plain rest := by
  by_cases hblank : Text.isBlank name = true
  · have hpending : Text.isBlank name.reverse = true := by rwa [isBlank_reverse]
    rw [scan_colon_of_isBlank hpending]
    simp [readBack, Entry.name, hblank]
  · have hblank : Text.isBlank name = false := by simpa using hblank
    have hpending : Text.isBlank name.reverse = false := by rwa [isBlank_reverse]
    rw [scan_colon hpending hrest, emit_colon_reverse]
    simp [readBack, Entry.name, Entry.token, hblank]

namespace EscapedName

theorem carriageReturn_notMem (escaped : EscapedName) : '\r' ∉ escape escaped.name := by
  intro hmem
  rcases List.mem_flatMap.1 hmem with ⟨c, hc, hmem⟩
  have hc := escaped.can_escape c hc
  have hne : '\r' ≠ c := by
    rintro rfl
    simpa using hc.2 rfl
  rcases escapeChar_cases c with ⟨rfl, hwritten⟩ | ⟨_, hwritten⟩ | ⟨_, _, hwritten⟩ <;>
    simp [hwritten, hne] at hmem

theorem scan_text (escaped : EscapedName) (rest : Text) :
    scan [] .plain (escape escaped.name ++ rest) = scan escaped.name.reverse .plain rest := by
  simpa using scan_escape [] rest escaped.can_escape

theorem colonFollows_text (escaped : EscapedName) (rest : Text) :
    colonFollows (escape escaped.name ++ rest) = false := by
  rcases List.exists_cons_of_ne_nil escaped.ne_nil with ⟨c, name, hname⟩
  have hc : CanEscape c := escaped.can_escape c (by simp [hname])
  have hfirst : colonFollows (escapeChar c ++ (escape name ++ rest)) = false :=
    colonFollows_escapeChar hc
  simpa [hname, escape_cons] using hfirst

end EscapedName

/-! ## Reading rules -/

theorem scan_gap (gap : Gap isSpaceOrTab) (pending : Text) (hrest : colonFollows rest = false) :
    scan pending .plain (gap.text ++ rest) = emit pending ++ scan [] .plain rest := by
  have hwide := (gap.widen (fun _ => isSpace_of_isSpaceOrTab)).scan_text pending hrest
  rwa [Gap.text_widen] at hwide

/-- The name that is being collected is given out by the gap in front of the next one, and the last
name by the end of the line. -/
theorem scan_writeEscaped (pending : Text) (prerequisites : List (Gap isSpaceOrTab × EscapedName))
    (hrest : colonFollows rest = false) :
    scan pending .plain (writeEscaped prerequisites ++ '\n' :: rest) =
      emit pending ++ readBack (prerequisiteEntries prerequisites) ++ scan [] .plain rest := by
  induction prerequisites generalizing pending with
  | nil =>
    have hspace : Text.isSpace '\n' = true := rfl
    simpa [writeEscaped, prerequisiteEntries, readBack_nil] using scan_space pending hspace hrest
  | cons entry others ih =>
    rcases entry with ⟨gap, escaped⟩
    have hgap := scan_gap gap pending (escaped.colonFollows_text
      (writeEscaped others ++ '\n' :: rest))
    have hname := escaped.scan_text (writeEscaped others ++ '\n' :: rest)
    have hothers := ih escaped.name.reverse
    have hentries : prerequisiteEntries ((gap, escaped) :: others) =
        .prerequisite escaped.name :: prerequisiteEntries others := rfl
    calc
      scan pending .plain (writeEscaped ((gap, escaped) :: others) ++ '\n' :: rest) =
          scan pending .plain (gap.text ++ (escape escaped.name ++
            (writeEscaped others ++ '\n' :: rest))) := by
        rw [writeEscaped_cons_append]
      _ = emit pending ++ scan escaped.name.reverse .plain
            (writeEscaped others ++ '\n' :: rest) := by rw [hgap, hname]
      _ = emit pending ++ (readBack [.prerequisite escaped.name] ++
            readBack (prerequisiteEntries others) ++ scan [] .plain rest) := by
        rw [hothers, emit_reverse_eq]
      _ = emit pending ++ readBack (prerequisiteEntries ((gap, escaped) :: others)) ++
            scan [] .plain rest := by
        rw [hentries, readBack_cons _ (prerequisiteEntries others)]
        simp

theorem slashFollows_gap (gap : Gap isSpaceOrTab) (rest : Text) :
    slashFollows (gap.text ++ rest) = false := by
  have hspace : ∀ c ∈ gap.blanks.text, Text.isSpace c = true :=
    fun c hc => isSpace_of_isSpaceOrTab (gap.blanks.of_kind c hc)
  rw [Gap.text, List.append_assoc]
  exact slashFollows_of_isSpace hspace gap.blanks_ne_nil

theorem slashFollows_writeEscaped (prerequisites : List (Gap isSpaceOrTab × EscapedName))
    (rest : Text) : slashFollows (writeEscaped prerequisites ++ '\n' :: rest) = false := by
  cases prerequisites with
  | nil => rfl
  | cons entry others =>
    rw [writeEscaped_cons_append]
    exact slashFollows_gap entry.1 _

theorem EscapedRule.scan_text (rule : EscapedRule) (hrest : colonFollows rest = false) :
    scan [] .plain (rule.text ++ rest) = readBack rule.entries ++ scan [] .plain rest := by
  have hname := rule.target.scan_text (':' :: (writeEscaped rule.prerequisites ++ '\n' :: rest))
  have hcolon := scan_targetColon rule.target.name
    (slashFollows_writeEscaped rule.prerequisites rest)
  have hothers := scan_writeEscaped [] rule.prerequisites hrest
  calc
    scan [] .plain (rule.text ++ rest) =
        scan [] .plain (escape rule.target.name ++ ':' ::
          (writeEscaped rule.prerequisites ++ '\n' :: rest)) := by
      simp [EscapedRule.text]
    _ = readBack [.target rule.target.name] ++
          scan [] .plain (writeEscaped rule.prerequisites ++ '\n' :: rest) := by
      rw [hname, hcolon]
    _ = readBack [.target rule.target.name] ++ readBack (prerequisiteEntries rule.prerequisites) ++
          scan [] .plain rest := by
      rw [hothers]
      simp [emit_nil]
    _ = readBack rule.entries ++ scan [] .plain rest := by
      rw [EscapedRule.entries, readBack_cons _ (prerequisiteEntries rule.prerequisites)]

theorem EscapedRule.colonFollows_text (rule : EscapedRule) (rest : Text) :
    colonFollows (rule.text ++ rest) = false := by
  simp only [EscapedRule.text, List.append_assoc]
  exact rule.target.colonFollows_text _

/-- The tokens of a file with escaped names are its entries, blank ones left out. -/
theorem tokenize_escapedRules (rules : List EscapedRule) :
    tokenize (rules.flatMap EscapedRule.text) = readBack (rules.flatMap EscapedRule.entries) := by
  have hentries : readBack (rules.flatMap EscapedRule.entries) =
      rules.flatMap (fun rule => readBack rule.entries) := by
    simp [readBack, List.filter_flatMap, List.map_flatMap]
  rw [hentries]
  exact tokenize_flatMap EscapedRule.colonFollows_text (fun rule _ => rule.scan_text) rules

end Depfile.Token
