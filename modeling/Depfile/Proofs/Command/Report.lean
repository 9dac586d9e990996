import Depfile.Command.Run
import Depfile.Proofs.Terminal.Strip

/-!
# Reports

What a command line prints about a normalization tells its outcome: the lines about different
outcomes differ near their start, whatever file they are about and whatever a terminal makes
of its path.
-/

namespace Depfile.Command

/-- What a command line prints about a normalization. -/
def report (outcome : Outcome) (depfile : AbsolutePath) : Printed :=
  { stderr := printLine (outcomeLine outcome depfile) }

/-- How the line about an outcome starts, up to where the lines differ. -/
def opening : Outcome → Text
  | .revised => ['R']
  | .unchanged => ['U']
  | .disabled => "warning: n".toList
  | .unreadable => "warning: could not r".toList
  | .unwritable => "warning: could not w".toList

theorem opening_isPrefix_outcomeLine (outcome : Outcome) (depfile : AbsolutePath) :
    opening outcome <+: outcomeLine outcome depfile := by
  cases outcome with
  | revised =>
    have hline : opening .revised <+: "Rewritten ".toList := by decide +kernel
    exact hline.trans (List.prefix_append _ _)
  | unchanged =>
    have hline : opening .unchanged <+: "Unchanged ".toList := by decide +kernel
    exact hline.trans (List.prefix_append _ _)
  | disabled =>
    -- This line does not mention the file.
    have hline : opening .disabled <+: outcomeLine .disabled AbsolutePath.root := by
      decide +kernel
    exact hline
  | unreadable =>
    have hline : opening .unreadable <+: "warning: could not read ".toList := by decide +kernel
    exact hline.trans (List.prefix_append _ _)
  | unwritable =>
    have hline : opening .unwritable <+: "warning: could not write ".toList := by decide +kernel
    exact hline.trans (List.prefix_append _ _)

/-- The start of a line has nothing in it that a terminal would not show. -/
theorem opening_isPrefix_stderr (outcome : Outcome) (depfile : AbsolutePath) :
    opening outcome <+: (report outcome depfile).stderr := by
  rcases opening_isPrefix_outcomeLine outcome depfile with ⟨rest, hline⟩
  have hkept : (opening outcome).all (Terminal.isKept .ground) = true := by
    cases outcome <;> decide
  rcases Terminal.strip_append (List.all_eq_true.1 hkept) (rest ++ ['\n']) with ⟨shown, hshown⟩
  exact ⟨shown, by simp [report, printLine, ← hline, hshown]⟩

/-- No line starts like one about another outcome. -/
theorem eq_of_opening_isPrefix {outcome other : Outcome} (h : opening outcome <+: opening other) :
    outcome = other := by
  revert h
  cases outcome <;> cases other <;> decide

/-- Different outcomes are reported in different words. -/
theorem report_injective {outcome other : Outcome} {depfile : AbsolutePath}
    (h : report outcome depfile = report other depfile) : outcome = other := by
  have houtcome := opening_isPrefix_stderr outcome depfile
  have hother := opening_isPrefix_stderr other depfile
  rw [← h] at hother
  rcases List.prefix_or_prefix_of_prefix houtcome hother with hprefix | hprefix
  · exact eq_of_opening_isPrefix hprefix
  · exact (eq_of_opening_isPrefix hprefix).symm

/-- The outcome that a report about a file tells, if it is one. -/
def reported? (depfile : AbsolutePath) (printed : Printed) : Option Outcome :=
  [.disabled, .unreadable, .unchanged, .revised, .unwritable].find?
    (fun outcome => printed = report outcome depfile)

theorem reported?_report (outcome : Outcome) (depfile : AbsolutePath) :
    reported? depfile (report outcome depfile) = some outcome := by
  cases hfound : reported? depfile (report outcome depfile) with
  | none =>
    have hmissed := List.find?_eq_none.1 hfound outcome (by cases outcome <;> decide)
    simp at hmissed
  | some found =>
    have hsame : report outcome depfile = report found depfile := by
      simpa using List.find?_some hfound
    rw [report_injective hsame]

end Depfile.Command
