import Mathlib.Data.List.Chain
import Depfile.Proofs.Layout.Rules
import Depfile.Proofs.Path.Marked

/-!
# What becomes of escaped names

Of a name with blanks only the first part can be made relative, with a backslash at its end, and the
other parts are put behind it as they were. All the same this is one escaped name, which leads to
the same file (`exists_reword_prerequisite`, `exists_reword_target`). It is a blank one if the file
is in the working directory and its own name is blank (`IsBlankIn`).
-/

namespace Depfile.Layout

open Token

/-! ## Parts of names -/

/-- No space or tab stands in front of a separator. -/
def NoBlankBeforeSlash (name : Text) : Prop :=
  name.IsChain (fun c d => isSpaceOrTab c = true → d ≠ '/')

instance (name : Text) : Decidable (NoBlankBeforeSlash name) :=
  inferInstanceAs (Decidable (List.IsChain _ _))

variable {name part rest suffix : Text} {c : Char}

theorem NoBlankBeforeSlash.behind_blank (h : NoBlankBeforeSlash (part ++ c :: rest))
    (hc : isSpaceOrTab c = true) : NoBlankBeforeSlash rest ∧ Path.isAbsolute rest = false := by
  have hchain := (List.isChain_append.1 h).2.1
  refine ⟨hchain.of_cons, Bool.eq_false_iff.2 (fun habs => ?_)⟩
  rcases Path.isAbsolute_iff.1 habs with ⟨tail, rfl⟩
  exact (List.isChain_cons_cons.1 hchain).1 hc rfl

/-- Of a name that is not absolute no part is, so all of them are kept. -/
theorem reword_of_not_isAbsolute (scope : Scope) (hcut : CutAtBlanks name)
    (hslash : NoBlankBeforeSlash name) (hname : Path.isAbsolute name = false)
    (hsuffix : Spaceless suffix) (hrelative : Path.isAbsolute suffix = false) :
    reword scope (escape name ++ suffix) = escape name ++ suffix := by
  have hkept : ∀ part suffix : Text, Path.isAbsolute part = false →
      Path.isAbsolute suffix = false →
      relativizeWord scope (escape part ++ suffix) = escape part ++ suffix := by
    intro part suffix hpart hsuffix
    refine relativizeWord_of_not_isAbsolute scope ?_
    rwa [Path.isAbsolute_escape_append part hsuffix]
  induction hcut with
  | @last part hpart =>
    rw [reword_spaceless scope (spaceless_escape_append hpart hsuffix)]
    exact hkept part suffix hname hrelative
  | @blank part rest c hpart hc hrest ih =>
    rcases hslash.behind_blank hc with ⟨hslash', hrest'⟩
    have hfirst : Path.isAbsolute part = false :=
      Path.isAbsolute_of_isPrefix (List.prefix_append part _) hname
    rw [reword_cut scope hpart hc, hkept part _ hfirst rfl, ih hslash' hrest',
      escape_cut part rest hc, List.append_assoc _ (c :: escape rest)]
    rfl

/-! ## What a name becomes -/

/-- A name for a file in the working directory that has blanks behind its last separator, and
nothing else there, but none in front of it. -/
def IsBlankIn (cwd : AbsolutePath) (name : Text) : Prop :=
  ∃ dir blanks, name = dir ++ '/' :: blanks ∧ Spaceless dir ∧ blanks ≠ [] ∧
    Text.isBlank blanks = true ∧ Path.normalize (dir ++ ['/']) = Path.normalize cwd.text

theorem not_isBlankIn {cwd : AbsolutePath} (h : name.getLast? = some c)
    (hc : Text.isSpace c = false) : ¬IsBlankIn cwd name := by
  rintro ⟨dir, blanks, rfl, _, hne, hblank, _⟩
  have hlast : blanks.getLast? = some c := by
    rcases List.exists_cons_of_ne_nil hne with ⟨d, others, rfl⟩
    simpa [List.getLast?_append, List.getLast?_cons_cons] using h
  have hspace := List.all_eq_true.1 hblank c (List.mem_of_getLast? hlast)
  rw [hspace] at hc
  cases hc

/-- A name that is kept or replaced by a relative one of the same file. -/
structure Renames (cwd : AbsolutePath) (old new : Text) : Prop where
  same_file : new = old ∨ (Path.isAbsolute old = true ∧ Path.isAbsolute new = false ∧
    Path.normalize (cwd.text ++ '/' :: new) = Path.normalize old)
  blank : Text.isBlank new = true → IsBlankIn cwd old

variable {scope : Scope} {cwd : AbsolutePath}

theorem renames_self (h : Text.isBlank name = false) : Renames cwd name name where
  same_file := Or.inl rfl
  blank := by simp [h]

theorem renames_of_leads {walk : List Text} {dir : Text} (h : Path.Leads cwd walk dir)
    (hdir : Spaceless dir) (habs : Path.isAbsolute (dir ++ '/' :: rest) = true)
    (hrest : Path.isAbsolute rest = false) (hne : rest ≠ []) :
    Renames cwd (dir ++ '/' :: rest) (Path.join (walk ++ [rest])) where
  same_file := Or.inr ⟨habs, h.isAbsolute_join hrest, h.normalize_join habs⟩
  blank := by
    intro hblank
    have habs' : Path.isAbsolute (dir ++ ['/']) = true := by
      have hslash : dir ++ '/' :: rest = (dir ++ ['/']) ++ rest := by simp
      rwa [hslash, Path.isAbsolute_append_of_ne_nil (by simp)] at habs
    rcases h.of_isBlank_join habs' hblank with ⟨hblanks, hnormalize⟩
    exact ⟨dir, rest, rfl, hdir, hne, hblanks, hnormalize⟩

/-- A name that the scanner gives out, and of which no part behind a blank looks absolute. -/
structure IsReadable (name : Text) : Prop where
  not_blank : Text.isBlank name = false
  no_blank_before_slash : NoBlankBeforeSlash name

theorem canEscape_dot : CanEscape '.' :=
  ⟨by decide, by simp [Text.isSpace]⟩

/-- The characters of a relative form are dots and those of the name. -/
theorem canEscape_of_mem {new : Text} (old : EscapedName)
    (h : ∀ c ∈ new, c = '.' ∨ c ∈ old.name) : ∀ c ∈ new, CanEscape c := by
  intro c hc
  rcases h c hc with rfl | hc
  · exact canEscape_dot
  · exact old.can_escape c hc

/-- Behind a walk to its directory, the rest of a name is a name of the same file. -/
theorem exists_escapedName_of_leads (old : EscapedName) {walk : List Text} {dir : Text}
    (hold : old.name = dir ++ '/' :: rest) (h : Path.Leads cwd walk dir) (hdir : Spaceless dir)
    (habs : Path.isAbsolute old.name = true) (hrest : Path.isAbsolute rest = false)
    (hne : rest ≠ []) :
    ∃ new : EscapedName, new.name = Path.join (walk ++ [rest]) ∧
      Renames cwd old.name new.name := by
  rw [hold] at habs
  have hcan : ∀ c ∈ Path.join (walk ++ [rest]), CanEscape c := by
    refine canEscape_of_mem old (fun c hc => ?_)
    rw [hold]
    exact h.mem_join hc
  refine ⟨⟨Path.join (walk ++ [rest]), h.join_ne_nil hne, hcan⟩, rfl, ?_⟩
  rw [hold]
  exact renames_of_leads h hdir habs hrest hne

/-! ## Words of names -/

section

variable (hcwd : Path.EscapeFree scope.cwd.text)

include hcwd

/-- A name without blanks is one word. -/
theorem exists_relativizeWord_escape (old : EscapedName) (hname : Spaceless old.name) :
    ∃ new : EscapedName, relativizeWord scope (escape old.name) = escape new.name ∧
      Renames scope.cwd old.name new.name := by
  by_cases hqualifies : Qualifies scope (escape old.name)
  · have habs : Path.isAbsolute old.name = true := by
      have hword := hqualifies.1
      rwa [Path.isAbsolute_escape] at hword
    rcases Path.exists_relativeTo_escape hcwd hname habs with
      ⟨new, hword, hne, hrelative, hnormalize, hmem⟩
    have hspaceless : Spaceless new := by
      intro c hc
      rcases hmem c hc with rfl | hc
      · rfl
      · exact hname c hc
    refine ⟨⟨new, hne, canEscape_of_mem old hmem⟩, ?_, ?_⟩
    · rw [relativizeWord_of_qualifies hqualifies, hword]
    · exact {
        same_file := Or.inr ⟨habs, hrelative, hnormalize⟩
        blank := by simp [hspaceless.isBlank_eq_false hne] }
  · refine ⟨old, relativizeWord_eq_self_iff.2 hqualifies, renames_self ?_⟩
    exact hname.isBlank_eq_false old.ne_nil

/-- The first part of a name, with the mark that it has as a word, and the rest of the name behind
it. The whole is a name again, whether or not the word is replaced. -/
theorem exists_relativizeWord_mark {mark : Char} (hmark : mark = '\\' ∨ mark = ':')
    (old : EscapedName) (hold : old.name = part ++ rest) (hblank : Text.isBlank old.name = false)
    (hpart : Spaceless part) (hrest : Path.isAbsolute rest = false)
    (hlast : rest = [] → part.getLast? ≠ some '/') :
    ∃ (new : EscapedName) (part' : Text), new.name = part' ++ rest ∧
      relativizeWord scope (escape part ++ [mark]) = escape part' ++ [mark] ∧
      Renames scope.cwd old.name new.name := by
  by_cases hqualifies : Qualifies scope (escape part ++ [mark])
  · have hmark' : Path.isAbsolute [mark] = false := by
      rcases hmark with rfl | rfl <;> rfl
    have habs : Path.isAbsolute part = true := by
      rw [← Path.isAbsolute_escape_append part hmark']
      exact hqualifies.1
    -- The mark is on the last component, so the walk leads to the directory in front of it.
    rcases Path.exists_lastSlash habs with ⟨dir, base, rfl, hbase⟩
    have hdir : Spaceless dir := by
      intro c hc
      exact hpart c (by simp [hc])
    rcases Path.exists_relativeTo_escape_mark hmark hcwd hdir hbase habs with
      ⟨walk, hword, hleads⟩
    have hname : old.name = dir ++ '/' :: (base ++ rest) := by simp [hold]
    have habs' : Path.isAbsolute old.name = true := by
      rw [hold]
      exact Path.isAbsolute_append habs rest
    have hrelative : Path.isAbsolute (base ++ rest) = false :=
      Path.isAbsolute_append_eq_false (Path.isAbsolute_of_notMem hbase) hrest
    have hne : base ++ rest ≠ [] := by
      intro hnil
      rcases List.append_eq_nil_iff.1 hnil with ⟨rfl, hrest⟩
      exact hlast hrest (by simp)
    rcases exists_escapedName_of_leads old hname hleads hdir habs' hrelative hne with
      ⟨new, hnew, hrenames⟩
    refine ⟨new, Path.join (walk ++ [base]), ?_, ?_, hrenames⟩
    · rw [hnew, Path.join_append_name]
    · rw [relativizeWord_of_qualifies hqualifies, hword]
  · exact ⟨old, part, hold, relativizeWord_eq_self_iff.2 hqualifies, renames_self hblank⟩

/-- A name with blanks, together with what is written behind it. -/
theorem exists_reword_cut (old : EscapedName) (hold : old.name = part ++ c :: rest)
    (hreadable : IsReadable old.name) (hpart : Spaceless part) (hc : isSpaceOrTab c = true)
    (hrest : CutAtBlanks rest) (hsuffix : Spaceless suffix)
    (hrelative : Path.isAbsolute suffix = false) :
    ∃ new : EscapedName, reword scope (escape old.name ++ suffix) = escape new.name ++ suffix ∧
      Renames scope.cwd old.name new.name := by
  have hslash := hreadable.no_blank_before_slash
  rw [hold] at hslash
  rcases hslash.behind_blank hc with ⟨hslash', hrest'⟩
  have hbehind : Path.isAbsolute (c :: rest) = false := by
    have hblank : c = ' ' ∨ c = '\t' := by simpa [isSpaceOrTab] using hc
    rcases hblank with rfl | rfl <;> rfl
  rcases exists_relativizeWord_mark hcwd (Or.inl rfl) old hold hreadable.not_blank hpart hbehind
    (by simp) with ⟨new, part', hnew, hword, hrenames⟩
  refine ⟨new, ?_, hrenames⟩
  calc
    reword scope (escape old.name ++ suffix) =
        (escape part' ++ ['\\']) ++ c :: (escape rest ++ suffix) := by
      rw [hold, reword_cut scope hpart hc, hword,
        reword_of_not_isAbsolute scope hrest hslash' hrest' hsuffix hrelative]
    _ = escape new.name ++ suffix := by
      rw [hnew, escape_cut part' rest hc]
      simp

/-- If a name without blanks keeps its meaning as a word with `suffix` behind it, every name does,
since the suffix never stands behind the first part of a name with blanks. -/
theorem exists_reword_name (old : EscapedName) (hreadable : IsReadable old.name)
    (hsuffix : Spaceless suffix) (hrelative : Path.isAbsolute suffix = false)
    (hwhole : Spaceless old.name → ∃ new : EscapedName,
      relativizeWord scope (escape old.name ++ suffix) = escape new.name ++ suffix ∧
      Renames scope.cwd old.name new.name) :
    ∃ new : EscapedName, reword scope (escape old.name ++ suffix) = escape new.name ++ suffix ∧
      Renames scope.cwd old.name new.name := by
  rcases (cutAtBlanks old.can_escape).spaceless_or_cut with
    hname | ⟨part, c, rest, hold, hpart, hc, hrest⟩
  · rw [reword_spaceless scope (spaceless_escape_append hname hsuffix)]
    exact hwhole hname
  · exact exists_reword_cut hcwd old hold hreadable hpart hc hrest hsuffix hrelative

/-- A prerequisite keeps its meaning. -/
theorem exists_reword_prerequisite (old : EscapedName) (hreadable : IsReadable old.name) :
    ∃ new : EscapedName, reword scope (escape old.name) = escape new.name ∧
      Renames scope.cwd old.name new.name := by
  have hnil : Spaceless [] := by simp [Spaceless]
  have hname := exists_reword_name hcwd old hreadable hnil rfl
  simp only [List.append_nil] at hname
  exact hname (exists_relativizeWord_escape hcwd old)

/-- A target keeps its meaning, and its colon. -/
theorem exists_reword_target (old : EscapedName) (hreadable : IsReadable old.name)
    (hlast : old.name.getLast? ≠ some '/') :
    ∃ new : EscapedName, reword scope (escape old.name ++ [':']) = escape new.name ++ [':'] ∧
      Renames scope.cwd old.name new.name := by
  have hcolon : Spaceless [':'] := by simp [Spaceless, Text.isSpace]
  refine exists_reword_name hcwd old hreadable hcolon rfl (fun hname => ?_)
  rcases exists_relativizeWord_mark hcwd (Or.inr rfl) old (List.append_nil old.name).symm
    hreadable.not_blank hname rfl (fun _ => hlast) with ⟨new, whole, hnew, hword, hrenames⟩
  rw [List.append_nil] at hnew
  exact ⟨new, by rw [hword, hnew], hrenames⟩

end

end Depfile.Layout
