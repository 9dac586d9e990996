import Depfile.Proofs.Layout.Revision
import Depfile.Proofs.Layout.Separator

/-!
# Revising a text that moves with its source tree

A template is a text in which some words are paths below a root directory that is left open. The
revision of a template does not depend on where the root is: what is written for a path below the
root is the way from the working directory, and if both are below the root, the way does not go
through it.
-/

namespace Depfile.Layout

/-! ## Templates -/

/-- What stands between two words. -/
structure SeparatorRun where
  first : Separator
  others : List Separator

def SeparatorRun.separators (run : SeparatorRun) : List Separator :=
  run.first :: run.others

/-- A word that is the same for every root, or a path below the root. -/
inductive TemplateWord where
  | fixed (text : Text)
  | rooted (path : Text)
deriving DecidableEq, Repr

namespace TemplateWord

def text (root : Text) : TemplateWord → Text
  | fixed text => text
  | rooted path => root ++ '/' :: path

/-- The word after the revision, seen from the directory `start` below the root. -/
def seenFrom (start : Text) : TemplateWord → Text
  | fixed text => text
  | rooted path => Path.relativeTo (AbsolutePath.root.below start) ('/' :: path)

def isRooted : TemplateWord → Bool
  | fixed _ => false
  | rooted _ => true

end TemplateWord

/-- A text with an open root: it starts with a target, possibly after some separators. -/
structure Template where
  leading : List Separator
  target : Text
  words : List (SeparatorRun × TemplateWord)
  trailing : List Separator

namespace Template

/-- The template with `spell` saying how its words are written. -/
def write (template : Template) (spell : TemplateWord → Text) : Text :=
  template.leading.flatMap Separator.text ++ template.target ++
    template.words.flatMap (fun (run, word) =>
      run.separators.flatMap Separator.text ++ spell word) ++
    template.trailing.flatMap Separator.text

def text (template : Template) (root : Text) : Text :=
  template.write (TemplateWord.text root)

def hasRooted (template : Template) : Bool :=
  template.words.any (fun (_, word) => word.isRooted)

end Template

/-- No character of the text separates words or ends a line. -/
def IsSolid (text : Text) : Prop :=
  ∀ c ∈ text, c ≠ ' ' ∧ c ≠ '\t' ∧ c ≠ '\n' ∧ c ≠ '\r'

instance (text : Text) : Decidable (IsSolid text) :=
  List.decidableBAll _ text

/-- A word that a template may have: a fixed one is not empty, and a path below the root never
climbs above it. -/
def TemplateWord.IsValid : TemplateWord → Prop
  | fixed text => text ≠ [] ∧ IsSolid text
  | rooted path => IsSolid path ∧ Path.staysBelow 0 (Path.components path) = true

instance : (word : TemplateWord) → Decidable word.IsValid
  | .fixed text => inferInstanceAs (Decidable (text ≠ [] ∧ IsSolid text))
  | .rooted path =>
    inferInstanceAs (Decidable (IsSolid path ∧ Path.staysBelow 0 (Path.components path) = true))

/-- The first word ends with a colon, and every other word is valid. -/
structure Template.IsValid (template : Template) : Prop where
  target_isTarget : Token.isTarget template.target = true
  target_relative : Path.isAbsolute template.target = false
  target_solid : IsSolid template.target
  words_valid : ∀ entry ∈ template.words, entry.2.IsValid

def TemplateWord.IsOutside (root : Text) : TemplateWord → Prop
  | fixed text => Path.isUnder text root = false
  | rooted _ => True

instance (root : Text) : (word : TemplateWord) → Decidable (word.IsOutside root)
  | .fixed text => inferInstanceAs (Decidable (Path.isUnder text root = false))
  | .rooted _ => inferInstanceAs (Decidable True)

/-- No fixed word of the template lies under the root. -/
def Template.Avoids (template : Template) (root : Text) : Prop :=
  ∀ entry ∈ template.words, entry.2.IsOutside root

instance (template : Template) (root : Text) : Decidable (template.Avoids root) :=
  inferInstanceAs (Decidable (∀ entry ∈ template.words, entry.2.IsOutside root))

/-! ## The pieces of a template -/

/-- The pieces of a word and of the separators in front of it. -/
def entryPieces (spell : TemplateWord → Text) (entry : SeparatorRun × TemplateWord) : List Piece :=
  separatorPieces entry.1.separators ++ [Piece.word (spell entry.2)]

theorem spaced_entryPieces {spell : TemplateWord → Text} {rest : List Piece}
    (hstarts : StartsBlank rest) (hrest : Spaced rest)
    {entries : List (SeparatorRun × TemplateWord)}
    (h : ∀ entry ∈ entries, IsWord (spell entry.2)) :
    StartsBlank (entries.flatMap (entryPieces spell) ++ rest) ∧
      Spaced (entries.flatMap (entryPieces spell) ++ rest) := by
  induction entries with
  | nil => exact ⟨hstarts, hrest⟩
  | cons entry entries ih =>
    rcases ih (fun other hother => h other (by simp [hother])) with ⟨htail, hspaced⟩
    have hword : Spaced (Piece.word (spell entry.2) :: (entries.flatMap (entryPieces spell) ++ rest)) :=
      .word (h entry (by simp)) htail hspaced
    have hall := spaced_separatorPieces entry.1.separators hword
    refine ⟨?_, by simpa [entryPieces] using hall⟩
    rcases entry with ⟨⟨first, others⟩, word⟩
    cases first <;> exact startsBlank_blank _ _

namespace Template

variable (template : Template) (spell : TemplateWord → Text)

/-- The pieces after the first target. -/
def followingPieces : List Piece :=
  template.words.flatMap (entryPieces spell) ++ separatorPieces template.trailing

def allPieces : List Piece :=
  separatorPieces template.leading ++ Piece.word template.target :: template.followingPieces spell

theorem render_allPieces : render (template.allPieces spell) = template.write spell := by
  simp [allPieces, followingPieces, entryPieces, write, separatorPieces, Piece.text]

variable {template spell}

theorem mem_followingPieces {text : Text} :
    Piece.word text ∈ template.followingPieces spell ↔
      ∃ entry ∈ template.words, text = spell entry.2 := by
  simp [followingPieces, entryPieces, separatorPieces]

theorem spaced_allPieces (htarget : IsWord template.target)
    (hwords : ∀ entry ∈ template.words, IsWord (spell entry.2)) :
    Spaced (template.allPieces spell) := by
  have htrailing : StartsBlank (separatorPieces template.trailing) ∧
      Spaced (separatorPieces template.trailing) := by
    have hstarts := startsBlank_separatorPieces template.trailing startsBlank_nil
    have hspaced := spaced_separatorPieces template.trailing Spaced.nil
    simpa using And.intro hstarts hspaced
  have hfollowing := spaced_entryPieces htrailing.1 htrailing.2 hwords
  exact spaced_separatorPieces _ (.word htarget hfollowing.1 hfollowing.2)

theorem map_followingPieces {f : Text → Text} {spell' : TemplateWord → Text}
    (h : ∀ entry ∈ template.words, f (spell entry.2) = spell' entry.2) :
    (template.followingPieces spell).map (mapWord f) = template.followingPieces spell' := by
  have hentries : (template.words.flatMap (entryPieces spell)).map (mapWord f) =
      template.words.flatMap (entryPieces spell') := by
    rw [List.map_flatMap, List.flatMap_def, List.flatMap_def]
    refine congrArg List.flatten (List.map_congr_left (fun entry hentry => ?_))
    simp [entryPieces, mapWord_separatorPieces, mapWord, h entry hentry]
  rw [followingPieces, List.map_append, hentries, mapWord_separatorPieces, followingPieces]

end Template

/-! ## The revision of a template -/

variable {template : Template} {root : AbsolutePath} {start : Text}

theorem isWord_text (hroot : ∀ c ∈ root.text, c ≠ ' ' ∧ c ≠ '\t' ∧ c ≠ '\n') {word : TemplateWord}
    (h : word.IsValid) : IsWord (word.text root.text) := by
  cases word with
  | fixed text =>
    refine ⟨h.1, fun c hc => ?_⟩
    have hc := h.2 c hc
    exact ⟨hc.1, hc.2.1, hc.2.2.1⟩
  | rooted path =>
    refine ⟨by simp [TemplateWord.text], fun c hc => ?_⟩
    simp only [TemplateWord.text, List.mem_append, List.mem_cons] at hc
    rcases hc with hc | rfl | hc
    · exact hroot c hc
    · decide
    · have hc := h.1 c hc
      exact ⟨hc.1, hc.2.1, hc.2.2.1⟩

theorem getLast?_ne_of_isSolid {text : Text} (h : IsSolid text) : text.getLast? ≠ some '\r' := by
  intro hlast
  exact (h '\r' (List.mem_of_getLast? hlast)).2.2.2 rfl

theorem getLast?_text_ne {word : TemplateWord} (h : word.IsValid) :
    (word.text root.text).getLast? ≠ some '\r' := by
  cases word with
  | fixed text => exact getLast?_ne_of_isSolid h.2
  | rooted path =>
    have hsolid : IsSolid ('/' :: path) := by
      intro c hc
      rcases List.mem_cons.1 hc with rfl | hc
      · decide
      · exact h.1 c hc
    have hlast : (root.text ++ '/' :: path).getLast? = ('/' :: path).getLast? := by
      simp [List.getLast?_append, List.getLast?_cons]
    rw [TemplateWord.text, hlast]
    exact getLast?_ne_of_isSolid hsolid

theorem qualifies_text_iff {word : TemplateWord} (cwd : AbsolutePath)
    (h : word.IsOutside root.text) :
    Qualifies ⟨root.text, cwd⟩ (word.text root.text) ↔ word.isRooted = true := by
  cases word with
  | fixed text =>
    have houtside : Path.isUnder text root.text = false := h
    simp [Qualifies, TemplateWord.text, TemplateWord.isRooted, houtside]
  | rooted path =>
    have hunder := Path.isUnder_append_slash (Path.ne_nil_of_isAbsolute root.isAbsolute) path
    simp [Qualifies, TemplateWord.text, TemplateWord.isRooted, hunder,
      Path.isAbsolute_append root.isAbsolute]

theorem relativizeWord_text {word : TemplateWord} (hvalid : word.IsValid)
    (houtside : word.IsOutside root.text)
    (hstart : Path.staysBelow 0 (Path.components start) = true) :
    relativizeWord ⟨root.text, root.below start⟩ (word.text root.text) = word.seenFrom start := by
  have hqualifies := qualifies_text_iff (root.below start) houtside
  cases word with
  | fixed text =>
    apply relativizeWord_eq_self_iff.2
    intro h
    simp [TemplateWord.isRooted, hqualifies] at h
  | rooted path =>
    rw [relativizeWord_of_qualifies (hqualifies.2 rfl)]
    exact Path.relativeTo_below root hstart hvalid.2

section

variable (hvalid : template.IsValid) (hroot : ∀ c ∈ root.text, c ≠ ' ' ∧ c ≠ '\t' ∧ c ≠ '\n')

include hvalid hroot

theorem pieces_text : pieces (template.text root.text) =
    template.allPieces (TemplateWord.text root.text) := by
  have htarget : IsWord template.target := by
    refine ⟨?_, fun c hc => ?_⟩
    · intro hnil
      have htarget := hvalid.target_isTarget
      simp [hnil, Token.isTarget] at htarget
    · have hc := hvalid.target_solid c hc
      exact ⟨hc.1, hc.2.1, hc.2.2.1⟩
  have hspaced : Spaced (template.allPieces (TemplateWord.text root.text)) :=
    Template.spaced_allPieces htarget
      (fun entry hentry => isWord_text hroot (hvalid.words_valid entry hentry))
  have hsettled : settle (template.allPieces (TemplateWord.text root.text)) =
      template.allPieces (TemplateWord.text root.text) := by
    apply settle_eq_self
    intro text htext
    simp only [Template.allPieces, List.mem_append, List.mem_cons] at htext
    rcases htext with htext | htext | htext
    · simp [separatorPieces] at htext
    · cases htext
      exact getLast?_ne_of_isSolid hvalid.target_solid
    · rcases Template.mem_followingPieces.1 htext with ⟨entry, hentry, rfl⟩
      exact getLast?_text_ne (hvalid.words_valid entry hentry)
  rw [Template.text, ← Template.render_allPieces, pieces_render hspaced, hsettled]

theorem afterTarget_pieces_text : afterTarget (pieces (template.text root.text)) =
    template.followingPieces (TemplateWord.text root.text) := by
  rw [pieces_text hvalid hroot]
  exact afterTarget_split (fun _ => isTarget_of_mem_separatorPieces) hvalid.target_isTarget

theorem throughTarget_pieces_text : throughTarget (pieces (template.text root.text)) =
    separatorPieces template.leading ++ [Piece.word template.target] := by
  rw [pieces_text hvalid hroot]
  exact throughTarget_split (fun _ => isTarget_of_mem_separatorPieces) hvalid.target_isTarget

variable (havoids : template.Avoids root.text)
  (hstart : Path.staysBelow 0 (Path.components start) = true)

include havoids hstart

theorem revised_text : revised ⟨root.text, root.below start⟩ (template.text root.text) =
    template.write (TemplateWord.seenFrom start) := by
  have hmap : (template.followingPieces (TemplateWord.text root.text)).map
        (mapWord (relativizeWord ⟨root.text, root.below start⟩)) =
      template.followingPieces (TemplateWord.seenFrom start) :=
    Template.map_followingPieces (fun entry hentry =>
      relativizeWord_text (hvalid.words_valid entry hentry) (havoids entry hentry) hstart)
  rw [revised, throughTarget_pieces_text hvalid hroot, afterTarget_pieces_text hvalid hroot, hmap,
    ← Template.render_allPieces]
  simp [Template.allPieces]

/-- The revision of a template does not mention the root. -/
theorem relativize_text : relativize ⟨root.text, root.below start⟩ (template.text root.text) =
    .ok (if template.hasRooted then some (template.write (TemplateWord.seenFrom start)) else none) := by
  have hwords : ∀ text, Piece.word text ∈ afterTarget (pieces (template.text root.text)) ↔
      ∃ entry ∈ template.words, text = entry.2.text root.text := by
    intro text
    rw [afterTarget_pieces_text hvalid hroot]
    exact Template.mem_followingPieces
  by_cases hrooted : template.hasRooted = true
  · -- One rooted word is enough for a revision.
    rcases List.any_eq_true.1 hrooted with ⟨entry, hentry, hword⟩
    have hmem := (hwords (entry.2.text root.text)).2 ⟨entry, hentry, rfl⟩
    have hqualifies := (qualifies_text_iff (root.below start) (havoids entry hentry)).2 hword
    rw [relativize_eq_some hmem hqualifies, revised_text hvalid hroot havoids hstart, if_pos hrooted]
  · rw [if_neg hrooted]
    refine relativize_eq_none (Path.ne_nil_of_isAbsolute root.isAbsolute) ?_
    intro text htext hqualifies
    rcases (hwords text).1 htext with ⟨entry, hentry, rfl⟩
    have hword := (qualifies_text_iff (root.below start) (havoids entry hentry)).1 hqualifies
    exact hrooted (List.any_eq_true.2 ⟨entry, hentry, hword⟩)

end

/-- Two copies of a source tree have the same revised text, or neither has one. -/
theorem relativize_text_relocated (template : Template) (root₁ root₂ : AbsolutePath) (start : Text)
    (hvalid : template.IsValid)
    (hroot₁ : ∀ c ∈ root₁.text, c ≠ ' ' ∧ c ≠ '\t' ∧ c ≠ '\n')
    (hroot₂ : ∀ c ∈ root₂.text, c ≠ ' ' ∧ c ≠ '\t' ∧ c ≠ '\n')
    (havoids₁ : template.Avoids root₁.text) (havoids₂ : template.Avoids root₂.text)
    (hstart : Path.staysBelow 0 (Path.components start) = true) :
    ∃ outcome : Option Text,
      relativize ⟨root₁.text, root₁.below start⟩ (template.text root₁.text) = .ok outcome ∧
      relativize ⟨root₂.text, root₂.below start⟩ (template.text root₂.text) = .ok outcome ∧
      (outcome.isSome = true ↔ template.hasRooted = true) := by
  refine ⟨_, relativize_text hvalid hroot₁ havoids₁ hstart,
    relativize_text hvalid hroot₂ havoids₂ hstart, ?_⟩
  by_cases hrooted : template.hasRooted = true <;> simp [hrooted]

/-- A source file, a file outside and the root itself, on two lines. -/
def sampleTemplate : Template where
  leading := [.lineFeed]
  target := ['o', ':']
  words := [
    (⟨.space, []⟩, .rooted ['s', '/', '.', '.', '/', 'a']),
    (⟨.tab, [.carriageReturnLineFeed]⟩, .fixed ['/', 'x']),
    (⟨.space, [.space]⟩, .rooted [])]
  trailing := [.lineFeed]

theorem relativize_sampleTemplate_relocated :
    ∃ outcome : Option Text,
      relativize ⟨['/', 'r'], ⟨['/', 'r', '/', 'd'], rfl⟩⟩ (sampleTemplate.text ['/', 'r']) =
        .ok outcome ∧
      relativize ⟨['/', '/', 'a', '/', '.', '.'], ⟨['/', '/', 'a', '/', '.', '.', '/', 'd'], rfl⟩⟩
        (sampleTemplate.text ['/', '/', 'a', '/', '.', '.']) = .ok outcome ∧
      (outcome.isSome = true ↔ sampleTemplate.hasRooted = true) := by
  have hvalid : sampleTemplate.IsValid :=
    ⟨by decide, by decide, by decide, by decide⟩
  exact relativize_text_relocated sampleTemplate ⟨['/', 'r'], rfl⟩
    ⟨['/', '/', 'a', '/', '.', '.'], rfl⟩ ['d'] hvalid (by simp) (by simp) (by decide)
    (by decide) (by decide)

end Depfile.Layout
