import Depfile.Dependencies
import Depfile.Proofs.Layout.Plain
import Depfile.Proofs.Path.Settling

/-!
# Dependencies of a revised file

The paths that a dependency file lists are made relative when they are read, so it does not matter
whether the file was revised before. What the revision changes is whether any path in it is
absolute: the ones that are left lie outside the base directory.
-/

namespace Depfile.Dependencies

open Token

variable {scope : Scope}

theorem ofText_plainRules (rules : List PlainRule) :
    ofText scope (rules.flatMap PlainRule.text) =
      ⟨(rules.flatMap PlainRule.names).map scope.relativize,
        (rules.flatMap PlainRule.names).any Path.isAbsolute⟩ := by
  rw [ofText, prerequisites_plainRules]

/-- The dependencies of a revised file are those of the file, with the paths relative already. -/
theorem ofText_revised (hscope : scope.IsUnmarked) (rules : List PlainRule) :
    ofText scope (Layout.revised scope (rules.flatMap PlainRule.text)) =
      ⟨(rules.flatMap PlainRule.names).map scope.relativize,
        ((rules.flatMap PlainRule.names).map scope.relativize).any Path.isAbsolute⟩ := by
  rcases Layout.exists_revised_plainRules hscope rules with ⟨rules', htext, hnames⟩
  -- The reader makes the paths relative that the revision has made relative before.
  have htwice : scope.relativize ∘ scope.relativize = scope.relativize :=
    funext (fun _ => Scope.relativize_relativize)
  rw [htext, ofText_plainRules, hnames, List.map_map, htwice]

/-- Revising a file as a tool writes it does not change the paths that are read from it, and leaves
an absolute path in it exactly if one of its prerequisites is outside the base directory. -/
theorem ofText_relativized (hscope : scope.IsUnmarked) (rules : List PlainRule) :
    ∃ outcome : Option Text,
      Layout.relativize scope (rules.flatMap PlainRule.text) = .ok outcome ∧
      (ofText scope (outcome.getD (rules.flatMap PlainRule.text))).paths =
        (ofText scope (rules.flatMap PlainRule.text)).paths ∧
      ((ofText scope (outcome.getD (rules.flatMap PlainRule.text))).hasAbsolutePaths = true ↔
        ∃ rule ∈ rules, ∃ name ∈ rule.names,
          Path.isAbsolute name = true ∧ Path.isUnder name scope.base = false) := by
  have hbase : scope.base ≠ [] := Path.ne_nil_of_isAbsolute hscope.isAbsolute_base
  rcases Layout.exists_relativize_eq hbase (rules.flatMap PlainRule.text) with
    ⟨outcome, houtcome, htext⟩
  refine ⟨outcome, houtcome, ?_, ?_⟩
  · rw [htext, ofText_revised hscope, ofText_plainRules]
  · rw [htext, ofText_revised hscope]
    -- A path in the revised file is absolute if it was, and was kept.
    simp only [List.any_map, List.any_eq_true, List.mem_flatMap, Function.comp_apply,
      Scope.isAbsolute_relativize_iff hscope.isAbsolute_base]
    constructor
    · rintro ⟨name, ⟨rule, hrule, hname⟩, houtside⟩
      exact ⟨rule, hrule, name, hname, houtside⟩
    · rintro ⟨rule, hrule, name, hname, houtside⟩
      exact ⟨name, ⟨rule, hrule, hname⟩, houtside⟩

/-- A target and a source file below the base directory, and on a continued line a header file
outside. -/
def sampleRule : PlainRule where
  target := ⟨['/', 's', '/', 'm'], by simp, by simp [Text.isSpace]⟩
  prerequisites := [
    (⟨⟨[' '], by simp [isSpaceOrTab]⟩, none, by simp⟩,
      ⟨['/', 's', '/', '#', 'c'], by simp, by simp [Text.isSpace]⟩),
    (⟨⟨[' '], by simp [isSpaceOrTab]⟩, some ⟨['\t'], by simp [isSpaceOrTab]⟩, by simp⟩,
      ⟨['/', 'u', '$'], by simp, by simp [Text.isSpace]⟩)]
  target_no_slash := by decide

theorem ofText_sampleRule_relativized :
    ∃ outcome : Option Text,
      Layout.relativize ⟨['/', 's'], ⟨['/', 's', '/', 'd'], rfl⟩⟩ sampleRule.text = .ok outcome ∧
      (ofText ⟨['/', 's'], ⟨['/', 's', '/', 'd'], rfl⟩⟩ (outcome.getD sampleRule.text)).paths =
        [['.', '.', '/', '#', 'c'], ['/', 'u', '$']] ∧
      (ofText ⟨['/', 's'], ⟨['/', 's', '/', 'd'], rfl⟩⟩
        (outcome.getD sampleRule.text)).hasAbsolutePaths = true := by
  have hscope : (⟨['/', 's'], ⟨['/', 's', '/', 'd'], rfl⟩⟩ : Scope).IsUnmarked :=
    ⟨rfl, by simp [Unmarked, IsMark], by simp [Unmarked, IsMark]⟩
  have htext : [sampleRule].flatMap PlainRule.text = sampleRule.text := by simp
  have hread : (ofText ⟨['/', 's'], ⟨['/', 's', '/', 'd'], rfl⟩⟩ sampleRule.text).paths =
      [['.', '.', '/', '#', 'c'], ['/', 'u', '$']] := by decide +kernel
  rcases ofText_relativized hscope [sampleRule] with ⟨outcome, houtcome, hpaths, habs⟩
  rw [htext] at houtcome hpaths habs
  refine ⟨outcome, houtcome, hpaths.trans hread, habs.2 ?_⟩
  exact ⟨sampleRule, by simp, ['/', 'u', '$'], by simp [PlainRule.names, sampleRule], rfl, rfl⟩

end Depfile.Dependencies
