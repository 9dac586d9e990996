import Depfile.Proofs.Token.Scan

/-!
# Dependency files written from names

Whoever writes a dependency file has some freedom: names can be quoted or escaped, whitespace can
stand in front of a colon, and a line can be continued between two names. None of it is seen by
the scanner, which gives the names back in order.

* `WrittenName`, `Gap`, `WrittenRule`: names and rules with all choices made;
* `tokenize_writtenRules`: the tokens of a file are those of its rules.
-/

namespace Depfile.Token

/-! ## Whitespace between names -/

/-- Characters of one kind, possibly none. -/
structure Run (kind : Char → Bool) where
  text : Text
  of_kind : ∀ c ∈ text, kind c = true

/-- What stands in front of a prerequisite: blanks, and after them the line can be continued with
more blanks. -/
structure Gap (kind : Char → Bool) where
  blanks : Run kind
  continuation : Option (Run kind)
  blanks_ne_nil : blanks.text ≠ []

variable {kind : Char → Bool}

def Gap.text (gap : Gap kind) : Text :=
  gap.blanks.text ++
    match gap.continuation with
    | none => []
    | some more => '\\' :: '\n' :: more.text

/-! ## Names -/

inductive Spelling where
  | quoted
  | escaped
deriving DecidableEq, Repr

/-- A name and how it is spelled. Line ends, vertical tabs and form feeds have no escape, so names
with such characters are quoted. -/
structure WrittenName where
  name : Text
  spelling : Spelling
  not_blank : Text.isBlank name = false
  no_quote : '"' ∉ name
  can_escape : spelling = .escaped →
    ∀ c ∈ name, c ≠ '\n' ∧ c ≠ '\r' ∧ c ≠ '\x0b' ∧ c ≠ '\x0c'

def WrittenName.text (written : WrittenName) : Text :=
  match written.spelling with
  | .quoted => '"' :: written.name ++ ['"']
  | .escaped => escape written.name

/-! ## Rules -/

structure WrittenRule where
  target : WrittenName
  beforeColon : Run Text.isSpace
  prerequisites : List (Gap Text.isSpace × WrittenName)
  ending : Run Text.isSpace
  ending_ne_nil : ending.text ≠ []

def writePrerequisites (prerequisites : List (Gap Text.isSpace × WrittenName)) : Text :=
  prerequisites.flatMap (fun entry => entry.1.text ++ entry.2.text)

def WrittenRule.text (rule : WrittenRule) : Text :=
  rule.target.text ++ rule.beforeColon.text ++ ':' :: writePrerequisites rule.prerequisites ++
    rule.ending.text

def WrittenRule.tokens (rule : WrittenRule) : List Text :=
  (rule.target.name ++ [':']) :: rule.prerequisites.map (fun entry => entry.2.name)

/-! ## Reading names -/

variable {rest : Text}

theorem WrittenName.canEscape (written : WrittenName) (h : written.spelling = .escaped) :
    ∀ c ∈ written.name, CanEscape c := by
  intro c hc
  have hquote : c ≠ '"' := by
    intro hquote
    exact written.no_quote (hquote ▸ hc)
  exact CanEscape.of_ne hquote (written.can_escape h c hc)

/-- However it is spelled, a name is collected as it is. -/
theorem WrittenName.scan_text (written : WrittenName) (rest : Text) :
    scan [] .plain (written.text ++ rest) = scan written.name.reverse .plain rest := by
  cases hspelling : written.spelling with
  | quoted =>
    have hquotes := scan_quotes [] rest written.no_quote
    simpa [WrittenName.text, hspelling] using hquotes
  | escaped =>
    have hescape := scan_escape [] rest (written.canEscape hspelling)
    simpa [WrittenName.text, hspelling] using hescape

/-- A protected character hides behind its backslash, so no escaped character looks like a colon
or like whitespace. -/
theorem colonFollows_escapeChar {c : Char} (hc : CanEscape c) :
    colonFollows (escapeChar c ++ rest) = false := by
  rcases escapeChar_cases c with ⟨_, hwritten⟩ | ⟨_, hwritten⟩ | ⟨_, hprotected, hwritten⟩
  · simp [hwritten, colonFollows, Text.isSpace]
  · simp [hwritten, colonFollows, Text.isSpace]
  · rcases hc.ordinary hprotected with ⟨hspace, hcolon, _⟩
    simp [hwritten, colonFollows, hspace, hcolon]

theorem WrittenName.colonFollows_text (written : WrittenName) (rest : Text) :
    colonFollows (written.text ++ rest) = false := by
  cases hspelling : written.spelling with
  | quoted => simp [WrittenName.text, hspelling, colonFollows, Text.isSpace]
  | escaped =>
    cases hname : written.name with
    | nil => simpa [hname, Text.isBlank] using written.not_blank
    | cons c name =>
      have hc : CanEscape c := written.canEscape hspelling c (by simp [hname])
      have hfirst : colonFollows (escapeChar c ++ (escape name ++ rest)) = false :=
        colonFollows_escapeChar hc
      simpa [WrittenName.text, hspelling, hname, escape_cons] using hfirst

/-- The scanner collects the text as the name, whatever comes behind it. -/
structure ReadsAs (text name : Text) : Prop where
  scan_text : ∀ rest, scan [] .plain (text ++ rest) = scan name.reverse .plain rest
  colonFollows_text : ∀ rest, colonFollows (text ++ rest) = false
  not_blank : Text.isBlank name = false

theorem WrittenName.readsAs (written : WrittenName) : ReadsAs written.text written.name where
  scan_text := written.scan_text
  colonFollows_text := written.colonFollows_text
  not_blank := written.not_blank

/-! ## Reading rules -/

theorem Gap.scan_text (gap : Gap Text.isSpace) (pending : Text)
    (hrest : colonFollows rest = false) :
    scan pending .plain (gap.text ++ rest) = emit pending ++ scan [] .plain rest := by
  cases hcontinuation : gap.continuation with
  | none =>
    have hrun := scan_run pending gap.blanks.of_kind gap.blanks_ne_nil hrest
    simpa [Gap.text, hcontinuation] using hrun
  | some more =>
    have hblanks : scan pending .plain (gap.blanks.text ++ '\\' :: '\n' :: (more.text ++ rest)) =
        emit pending ++ scan [] .plain ('\\' :: '\n' :: (more.text ++ rest)) :=
      scan_run pending gap.blanks.of_kind gap.blanks_ne_nil (by simp [colonFollows, Text.isSpace])
    -- The line feed and the blanks after it are one more run, with nothing collected before it.
    have hmore : ∀ c ∈ '\n' :: more.text, Text.isSpace c = true := by
      intro c hc
      rcases List.mem_cons.1 hc with rfl | hc
      · rfl
      · exact more.of_kind c hc
    have hline : scan [] .plain ('\n' :: (more.text ++ rest)) = scan [] .plain rest := by
      simpa [emit_nil] using scan_run [] hmore (by simp) hrest
    rw [scan_continuation, hline] at hblanks
    simpa [Gap.text, hcontinuation] using hblanks

/-- Whitespace comes after the colon of a target. -/
theorem slashFollows_of_isSpace {run : Text} (hrun : ∀ c ∈ run, Text.isSpace c = true)
    (hne : run ≠ []) : slashFollows (run ++ rest) = false := by
  rcases List.exists_cons_of_ne_nil hne with ⟨c, run, rfl⟩
  simp [slashFollows, ne_of_isSpace (hrun c (by simp))]

theorem WrittenRule.slashFollows_writePrerequisites (rule : WrittenRule) (rest : Text) :
    slashFollows (writePrerequisites rule.prerequisites ++ (rule.ending.text ++ rest)) = false := by
  cases rule.prerequisites with
  | nil =>
    have hending : slashFollows (rule.ending.text ++ rest) = false :=
      slashFollows_of_isSpace rule.ending.of_kind rule.ending_ne_nil
    simpa [writePrerequisites] using hending
  | cons entry others =>
    have hgap : ∀ rest, slashFollows (entry.1.blanks.text ++ rest) = false :=
      fun _ => slashFollows_of_isSpace entry.1.blanks.of_kind entry.1.blanks_ne_nil
    simp [writePrerequisites, Gap.text, hgap]

/-- The name that is being collected is given out by the gap in front of the next one, and the last
name by the whitespace at the end. -/
theorem scan_gaps {α : Type} {text name : α → Text} (hread : ∀ entry, ReadsAs (text entry) (name entry))
    (pending : Text) (entries : List (Gap Text.isSpace × α)) {ending : Run Text.isSpace}
    (hending : ending.text ≠ []) (hrest : colonFollows rest = false) :
    scan pending .plain
        (entries.flatMap (fun entry => entry.1.text ++ text entry.2) ++ (ending.text ++ rest)) =
      emit pending ++ entries.map (fun entry => name entry.2) ++ scan [] .plain rest := by
  induction entries generalizing pending with
  | nil => simpa using scan_run pending ending.of_kind hending hrest
  | cons entry others ih =>
    rcases entry with ⟨gap, entry⟩
    let behind := others.flatMap (fun entry => entry.1.text ++ text entry.2) ++ (ending.text ++ rest)
    have hgap := gap.scan_text pending ((hread entry).colonFollows_text behind)
    have hname := (hread entry).scan_text behind
    -- The gap after this name will give it out, so the induction goes on with it collected.
    have hothers := ih (name entry).reverse
    rw [emit_reverse (hread entry).not_blank] at hothers
    calc
      scan pending .plain
            (((gap, entry) :: others).flatMap (fun entry => entry.1.text ++ text entry.2) ++
              (ending.text ++ rest)) =
          scan pending .plain (gap.text ++ (text entry ++ behind)) := by simp [behind]
      _ = emit pending ++ scan (name entry).reverse .plain behind := by rw [hgap, hname]
      _ = emit pending ++ ((gap, entry) :: others).map (fun entry => name entry.2) ++
            scan [] .plain rest := by simp [behind, hothers]

/-- A colon makes the name in front of it a target, also behind whitespace. -/
theorem ReadsAs.scan_target {text name : Text} (h : ReadsAs text name) (blanks : Run Text.isSpace)
    (hdrive : (isDrive name.reverse && slashFollows rest) = false) :
    scan [] .plain (text ++ (blanks.text ++ ':' :: rest)) =
      (name ++ [':']) :: scan [] .plain rest := by
  have hblank : Text.isBlank name.reverse = false := by
    rw [isBlank_reverse]
    exact h.not_blank
  calc
    scan [] .plain (text ++ (blanks.text ++ ':' :: rest)) =
        scan name.reverse .plain (blanks.text ++ ':' :: rest) := h.scan_text _
    _ = emit (':' :: name.reverse) ++ scan [] .plain rest :=
      Token.scan_target hblank blanks.of_kind hdrive
    _ = (name ++ [':']) :: scan [] .plain rest := by simp [emit_colon_reverse]

theorem WrittenRule.scan_text (rule : WrittenRule) (hrest : colonFollows rest = false) :
    scan [] .plain (rule.text ++ rest) = rule.tokens ++ scan [] .plain rest := by
  let behind := writePrerequisites rule.prerequisites ++ (rule.ending.text ++ rest)
  have hslash : slashFollows behind = false := rule.slashFollows_writePrerequisites rest
  have hothers : scan [] .plain behind =
      rule.prerequisites.map (fun entry => entry.2.name) ++ scan [] .plain rest := by
    simpa [behind, writePrerequisites, emit_nil] using
      scan_gaps WrittenName.readsAs [] rule.prerequisites rule.ending_ne_nil hrest
  calc
    scan [] .plain (rule.text ++ rest) =
        scan [] .plain (rule.target.text ++ (rule.beforeColon.text ++ ':' :: behind)) := by
      simp [WrittenRule.text, behind]
    _ = (rule.target.name ++ [':']) :: scan [] .plain behind :=
      rule.target.readsAs.scan_target rule.beforeColon (by simp [hslash])
    _ = rule.tokens ++ scan [] .plain rest := by simp [hothers, WrittenRule.tokens]

theorem WrittenRule.colonFollows_text (rule : WrittenRule) (rest : Text) :
    colonFollows (rule.text ++ rest) = false := by
  simp only [WrittenRule.text, List.append_assoc]
  exact rule.target.colonFollows_text _

theorem scan_writtenRules (rules : List WrittenRule) (hrest : colonFollows rest = false) :
    scan [] .plain (rules.flatMap WrittenRule.text ++ rest) =
      rules.flatMap WrittenRule.tokens ++ scan [] .plain rest :=
  scan_flatMap WrittenRule.colonFollows_text (fun rule _ => rule.scan_text) rules hrest

/-- A dependency file written from names is read back exactly: target after target with its
prerequisites, in order. -/
theorem tokenize_writtenRules (rules : List WrittenRule) :
    tokenize (rules.flatMap WrittenRule.text) = rules.flatMap WrittenRule.tokens := by
  have hend : colonFollows [] = false := rfl
  simpa [tokenize, scan, emit_nil] using scan_writtenRules rules hend

example :
    tokenize "a :\t\"b c\" \\\n d\\ e$$\n".toList = ["a:", "b c", "d e$"].map String.toList := by
  decide +kernel

end Depfile.Token
