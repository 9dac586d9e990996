import Depfile.Proofs.Token.Written
import Depfile.Token.Basic

/-!
# Dependency files as tools write them

A compiler escapes the names that it writes, ends each rule with its line, and puts only spaces,
tabs and continued lines between the prerequisites of a rule. Names with whitespace are left out
here, since they would be several words of the file, and so are names with colons or double quotes,
which could be taken for targets and quotations.
-/

namespace Depfile.Token

def isSpaceOrTab (c : Char) : Bool :=
  c = ' ' || c = '\t'

theorem isSpace_of_isSpaceOrTab {c : Char} (h : isSpaceOrTab c = true) : Text.isSpace c = true := by
  simp only [isSpaceOrTab, Bool.or_eq_true, decide_eq_true_eq] at h
  rcases h with rfl | rfl <;> rfl

/-! ## Plain names -/

/-- A name that is one word of the file when it is escaped. -/
structure PlainName where
  name : Text
  ne_nil : name ≠ []
  no_special : ∀ c ∈ name, Text.isSpace c = false ∧ c ≠ ':' ∧ c ≠ '"'

namespace PlainName

variable (plain : PlainName)

theorem spaceless : Spaceless plain.name :=
  fun c hc => (plain.no_special c hc).1

/-- A plain name can be written with escapes. -/
def written : WrittenName where
  name := plain.name
  spelling := .escaped
  not_blank := by
    rcases List.exists_cons_of_ne_nil plain.ne_nil with ⟨c, rest, hname⟩
    have hc := plain.spaceless c (by simp [hname])
    simp [hname, Text.isBlank, hc]
  no_quote := fun hquote => (plain.no_special '"' hquote).2.2 rfl
  can_escape := by
    intro _ c hc
    have hspace := plain.spaceless c hc
    refine ⟨?_, ?_, ?_, ?_⟩ <;> (rintro rfl; cases hspace)

theorem isTarget_name : isTarget plain.name = false := by
  apply Bool.eq_false_iff.2
  intro h
  have hlast : plain.name.getLast? = some ':' := by simpa [isTarget] using h
  exact (plain.no_special ':' (List.mem_of_getLast? hlast)).2.1 rfl

end PlainName

/-! ## Plain rules -/

variable {kind kind' : Char → Bool}

def Run.widen (run : Run kind) (h : ∀ c, kind c = true → kind' c = true) : Run kind' :=
  ⟨run.text, fun c hc => h c (run.of_kind c hc)⟩

/-- A gap is also one for a larger kind of characters. -/
def Gap.widen (gap : Gap kind) (h : ∀ c, kind c = true → kind' c = true) : Gap kind' :=
  ⟨gap.blanks.widen h, gap.continuation.map (fun more => more.widen h), gap.blanks_ne_nil⟩

theorem Gap.text_widen (gap : Gap kind) (h : ∀ c, kind c = true → kind' c = true) :
    (gap.widen h).text = gap.text := by
  cases hcontinuation : gap.continuation <;>
    simp [Gap.text, Gap.widen, Run.widen, hcontinuation]

structure PlainRule where
  target : PlainName
  prerequisites : List (Gap isSpaceOrTab × PlainName)
  target_no_slash : target.name.getLast? ≠ some '/'

namespace PlainRule

def names (rule : PlainRule) : List Text :=
  rule.prerequisites.map (fun entry => entry.2.name)

def text (rule : PlainRule) : Text :=
  escape rule.target.name ++ ':' ::
    rule.prerequisites.flatMap (fun entry => entry.1.text ++ escape entry.2.name) ++ ['\n']

/-- The choices that a tool makes. -/
def written (rule : PlainRule) : WrittenRule where
  target := rule.target.written
  beforeColon := ⟨[], by simp⟩
  prerequisites := rule.prerequisites.map
    (fun entry => (entry.1.widen (fun _ => isSpace_of_isSpaceOrTab), entry.2.written))
  ending := ⟨['\n'], by simp [Text.isSpace]⟩
  ending_ne_nil := by simp

theorem text_written (rule : PlainRule) : rule.written.text = rule.text := by
  simp [WrittenRule.text, written, writePrerequisites, text, WrittenName.text, PlainName.written,
    List.flatMap_map, Gap.text_widen]

theorem prerequisites_tokens (rule : PlainRule) :
    Token.prerequisites rule.written.tokens = rule.names := by
  have htarget : isTarget (rule.written.target.name ++ [':']) = true := by
    simp [isTarget]
  have hnames : ∀ name ∈ rule.names, (!isTarget name) = true := by
    intro name hname
    rcases List.mem_map.1 hname with ⟨entry, _, rfl⟩
    simp [entry.2.isTarget_name]
  have htokens : rule.written.tokens = (rule.written.target.name ++ [':']) :: rule.names := by
    simp [WrittenRule.tokens, names, written, PlainName.written]
  -- The target keeps its colon and is dropped, and no name ends with one.
  rw [htokens, Token.prerequisites, List.filter_cons_of_neg (by simp [htarget])]
  exact List.filter_eq_self.2 hnames

end PlainRule

/-- The prerequisites of a file as a tool writes it are the names in its rules. -/
theorem prerequisites_plainRules (rules : List PlainRule) :
    prerequisites (tokenize (rules.flatMap PlainRule.text)) = rules.flatMap PlainRule.names := by
  have htext : rules.flatMap PlainRule.text =
      (rules.map PlainRule.written).flatMap WrittenRule.text := by
    simp [List.flatMap_map, PlainRule.text_written]
  have htokens : tokenize (rules.flatMap PlainRule.text) =
      (rules.map PlainRule.written).flatMap WrittenRule.tokens := by
    have hend : colonFollows [] = false := rfl
    rw [htext]
    simpa [tokenize, scan, emit_nil] using scan_writtenRules (rules.map PlainRule.written) hend
  rw [htokens, List.flatMap_map, prerequisites, List.filter_flatMap]
  exact congrArg (fun f => rules.flatMap f) (funext PlainRule.prerequisites_tokens)

end Depfile.Token
