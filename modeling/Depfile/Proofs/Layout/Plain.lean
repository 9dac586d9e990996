import Depfile.Proofs.Layout.Rules
import Depfile.Proofs.Path.Marked

/-!
# Revising dependency files as tools write them

In such a file every name is one word, so revising it makes the names relative one by one, although
the words that are looked at are still escaped. The revised file is again one that a tool could
have written, and its prerequisites are the old ones made relative (`exists_revised_plainRules`).
-/

namespace Depfile

open Token

/-- A scope whose directories look the same when they are escaped, spaces and tabs apart. -/
structure Scope.IsUnmarked (scope : Scope) : Prop where
  isAbsolute_base : Path.isAbsolute scope.base = true
  base : Unmarked scope.base
  cwd : Unmarked scope.cwd.text

variable {scope : Scope}

/-- A plain name stays plain when it is made relative. -/
def Token.PlainName.relativize (hscope : scope.IsUnmarked) (plain : PlainName) : PlainName where
  name := scope.relativize plain.name
  ne_nil := Scope.relativize_ne_nil hscope.isAbsolute_base plain.ne_nil
  no_special := by
    intro c hc
    rcases Scope.mem_relativize hscope.isAbsolute_base hc with rfl | hc
    · decide
    · exact plain.no_special c hc

/-- The rule with its prerequisites made relative. -/
def Token.PlainRule.relativize (hscope : scope.IsUnmarked) (rule : PlainRule) : PlainRule where
  target := rule.target
  prerequisites := rule.prerequisites.map (fun entry => (entry.1, entry.2.relativize hscope))
  target_no_slash := rule.target_no_slash

theorem Token.PlainRule.names_relativize (hscope : scope.IsUnmarked) (rule : PlainRule) :
    (rule.relativize hscope).names = rule.names.map scope.relativize := by
  simp [PlainRule.names, PlainRule.relativize, PlainName.relativize]

/-! ## Escaped names -/

def Token.PlainName.escaped (plain : PlainName) : EscapedName where
  name := plain.name
  ne_nil := plain.ne_nil
  can_escape := by
    intro c hc
    have hspecial := plain.no_special c hc
    exact ⟨hspecial.2.2, fun hspace => by simp [hspecial.1] at hspace⟩

def Token.PlainRule.escaped (rule : PlainRule) : EscapedRule where
  target := rule.target.escaped
  prerequisites := rule.prerequisites.map (fun entry => (entry.1, entry.2.escaped))

theorem Token.PlainRule.text_escaped (rule : PlainRule) : rule.escaped.text = rule.text := by
  simp [escaped, text, EscapedRule.text, writeEscaped, PlainName.escaped, List.flatMap_map]

theorem Token.PlainRule.flatMap_text (rules : List PlainRule) :
    rules.flatMap PlainRule.text = (rules.map PlainRule.escaped).flatMap EscapedRule.text := by
  simp [List.flatMap_map, PlainRule.text_escaped]

namespace Layout

/-- With its colon a target is one word. -/
def targetWord (target : PlainName) : Text :=
  escape target.name ++ [':']

theorem spaceless_targetWord (target : PlainName) : Spaceless (targetWord target) :=
  spaceless_escape_append target.spaceless (by simp [Spaceless, Text.isSpace])

/-! ## Revising -/

variable (hscope : scope.IsUnmarked)

include hscope

/-- An escaped path is made relative as if it were not escaped. -/
theorem relativizeWord_escape {path : Text} (hpath : Spaceless path) :
    relativizeWord scope (escape path) = escape (scope.relativize path) := by
  have hunder := Path.isUnder_escape hscope.base hpath
  by_cases habs : Path.isAbsolute path = true
  · by_cases hbase : Path.isUnder path scope.base = true
    · have hescaped : Path.isUnder (escape path) scope.base = true := by rwa [hunder]
      have hqualifies : Qualifies scope (escape path) :=
        ⟨by rwa [Path.isAbsolute_escape], hescaped⟩
      rw [relativizeWord_of_qualifies hqualifies, Scope.relativize_of_isUnder hbase]
      exact Path.relativeTo_escape hscope.cwd hpath habs
    · have hnot : ¬Qualifies scope (escape path) := by simp [Qualifies, hunder, hbase]
      have hkept : scope.relativize path = path :=
        Scope.relativize_of_not_isUnder (by simpa using hbase)
      rw [relativizeWord_eq_self_iff.2 hnot, hkept]
  · -- Below an absolute base directory there is no path that is not absolute.
    have hnot : ¬Qualifies scope (escape path) := by simp [Qualifies, Path.isAbsolute_escape, habs]
    have hkept : scope.relativize path = path := by
      refine Scope.relativize_of_not_isUnder (Bool.eq_false_iff.2 (fun hbase => ?_))
      exact habs (Path.isAbsolute_of_isUnder hscope.isAbsolute_base hbase)
    rw [relativizeWord_eq_self_iff.2 hnot, hkept]

/-- Whether or not its word is replaced, a target is still a target, though of another name. -/
theorem exists_relativizeWord_targetWord {target : PlainName}
    (hlast : target.name.getLast? ≠ some '/') :
    ∃ target' : PlainName, relativizeWord scope (targetWord target) = targetWord target' ∧
      target'.name.getLast? ≠ some '/' := by
  by_cases hqualifies : Qualifies scope (targetWord target)
  · rw [relativizeWord_of_qualifies hqualifies]
    have habs : Path.isAbsolute target.name = true := by
      have hcolon : Path.isAbsolute [':'] = false := rfl
      rw [← Path.isAbsolute_escape_append target.name hcolon]
      exact hqualifies.1
    rcases Path.exists_relativeTo_escape_colon hscope.cwd target.spaceless habs hlast with
      ⟨name, hname, hne, hlast', hmem⟩
    refine ⟨⟨name, hne, ?_⟩, hname, hlast'⟩
    intro c hc
    rcases hmem c hc with rfl | hc
    · decide
    · exact target.no_special c hc
  · exact ⟨target, relativizeWord_eq_self_iff.2 hqualifies, hlast⟩

/-- Making the words of a rule relative gives a rule with the same prerequisites made relative. -/
theorem rewordsPrerequisites_relativize (rule : PlainRule) :
    List.Forall₂ (RewordsPrerequisite scope) rule.escaped.prerequisites
      (rule.relativize hscope).escaped.prerequisites := by
  simp only [PlainRule.escaped, PlainRule.relativize, List.map_map, List.forall₂_map_left_iff,
    List.forall₂_map_right_iff, List.forall₂_same]
  intro entry _
  refine ⟨rfl, ?_⟩
  calc
    reword scope (escape entry.2.name) = relativizeWord scope (escape entry.2.name) :=
      reword_spaceless scope (spaceless_escape entry.2.spaceless)
    _ = escape (scope.relativize entry.2.name) := relativizeWord_escape hscope entry.2.spaceless

theorem exists_rewordsRule_plain (rule : PlainRule) :
    ∃ rule' : PlainRule, RewordsRule scope rule.escaped rule'.escaped ∧
      rule'.names = rule.names.map scope.relativize := by
  rcases exists_relativizeWord_targetWord hscope rule.target_no_slash with ⟨target, htarget, hlast⟩
  refine ⟨⟨target, (rule.relativize hscope).prerequisites, hlast⟩, ?_,
    rule.names_relativize hscope⟩
  exact {
    target := (reword_spaceless scope (spaceless_targetWord rule.target)).trans htarget
    prerequisites := rewordsPrerequisites_relativize hscope rule }

theorem exists_rewordsRules_plain (rules : List PlainRule) :
    ∃ rules' : List PlainRule,
      List.Forall₂ (RewordsRule scope) (rules.map PlainRule.escaped)
        (rules'.map PlainRule.escaped) ∧
      rules'.flatMap PlainRule.names = (rules.flatMap PlainRule.names).map scope.relativize := by
  induction rules with
  | nil => exact ⟨[], .nil, rfl⟩
  | cons rule rules ih =>
    rcases exists_rewordsRule_plain hscope rule with ⟨rule', hwords, hnames⟩
    rcases ih with ⟨rules', hwords', hnames'⟩
    exact ⟨rule' :: rules', .cons hwords hwords', by simp [hnames, hnames']⟩

/-- The revision of a file as a tool writes it is such a file again, and its prerequisites are
the old ones made relative. -/
theorem exists_revised_plainRules (rules : List PlainRule) :
    ∃ rules' : List PlainRule,
      revised scope (rules.flatMap PlainRule.text) = rules'.flatMap PlainRule.text ∧
      rules'.flatMap PlainRule.names = (rules.flatMap PlainRule.names).map scope.relativize := by
  cases rules with
  | nil => exact ⟨[], rfl, rfl⟩
  | cons rule rules =>
    rcases exists_rewordsRules_plain hscope rules with ⟨rules', hwords, hnames⟩
    refine ⟨rule.relativize hscope :: rules', ?_, by simp [hnames, rule.names_relativize hscope]⟩
    calc
      revised scope ((rule :: rules).flatMap PlainRule.text) =
          revised scope ((rule.escaped :: rules.map PlainRule.escaped).flatMap EscapedRule.text) := by
        rw [PlainRule.flatMap_text, List.map_cons]
      _ = (EscapedRule.mk rule.escaped.target (rule.relativize hscope).escaped.prerequisites ::
            rules'.map PlainRule.escaped).flatMap EscapedRule.text :=
        revised_rules (rewordsPrerequisites_relativize hscope rule) hwords
      _ = (rule.relativize hscope :: rules').flatMap PlainRule.text := by
        rw [PlainRule.flatMap_text]
        rfl

end Layout

end Depfile
