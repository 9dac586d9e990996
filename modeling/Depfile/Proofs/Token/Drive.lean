import Mathlib.Data.List.Chain
import Depfile.Proofs.Token.Reading
import Depfile.Proofs.Token.Written

/-!
# Paths on drives

A path on a drive has a colon and mostly backslashes in it, and some tools write such paths into a
dependency file as they are. They are read as they are: the colon belongs to the drive letter,
because it stands behind a single character and in front of a slash or a backslash, and a backslash
protects nothing unless what stands behind it needs protection. Other colons still make targets,
also directly in front of such a path (`tokenize_driveRules`).
-/

namespace Depfile.Token

variable {pending rest : Text} {c : Char}

/-- A path on a drive. Each backslash has a character of the path behind it, and none that it could
protect. -/
structure DrivePath where
  letter : Char
  path : Text
  letter_ascii : letter.toNat < 128
  letter_ordinary : isOrdinary letter = true
  path_slash : slashFollows path = true
  path_ordinary : ∀ c ∈ path, isOrdinary c = true ∨ c = '\\'
  behind_backslash : path.IsChain (fun c d => c = '\\' → d ≠ '\\' ∧ d ≠ '#')
  getLast?_ne_backslash : path.getLast? ≠ some '\\'

def DrivePath.text (drive : DrivePath) : Text :=
  drive.letter :: ':' :: drive.path

/-! ## Reading paths -/

theorem isOrdinary_iff : isOrdinary c = true ↔
    Text.isSpace c = false ∧ c ≠ '\\' ∧ c ≠ '$' ∧ c ≠ '"' ∧ c ≠ ':' := by
  simp [isOrdinary, and_assoc]

theorem scan_of_isOrdinary (pending rest : Text) (hc : isOrdinary c = true) :
    scan pending .plain (c :: rest) = scan (c :: pending) .plain rest := by
  obtain ⟨hspace, hbackslash, hdollar, hquote, hcolon⟩ := isOrdinary_iff.1 hc
  exact scan_ordinary pending rest hspace ⟨hcolon, hbackslash, hdollar, hquote⟩

/-- In front of an ordinary character other than a number sign a backslash stands for itself. -/
theorem scan_backslash_of_isOrdinary (pending rest : Text) (hc : isOrdinary c = true)
    (hsharp : c ≠ '#') :
    scan pending .plain ('\\' :: c :: rest) = scan ('\\' :: pending) .plain (c :: rest) := by
  obtain ⟨hspace, hbackslash, _, _, hcolon⟩ := isOrdinary_iff.1 hc
  have hblanks : c ≠ ' ' ∧ c ≠ '\t' ∧ c ≠ '\n' := by
    refine ⟨?_, ?_, ?_⟩ <;> (rintro rfl; cases hspace)
  have hprotected : isProtected c = false := by
    simp [isProtected, hbackslash, hsharp, hcolon, hblanks]
  exact scan_backslash pending rest hprotected hblanks.2.2

/-- What stands behind the colon of a drive is collected as it is. -/
theorem scan_drivePath (pending rest : Text) {path : Text}
    (hordinary : ∀ c ∈ path, isOrdinary c = true ∨ c = '\\')
    (hbehind : path.IsChain (fun c d => c = '\\' → d ≠ '\\' ∧ d ≠ '#'))
    (hlast : path.getLast? ≠ some '\\') :
    scan pending .plain (path ++ rest) = scan (path.reverse ++ pending) .plain rest := by
  induction path generalizing pending with
  | nil => rfl
  | cons c path ih =>
    have hpath : ∀ d ∈ path, isOrdinary d = true ∨ d = '\\' :=
      fun d hd => hordinary d (by simp [hd])
    have hfirst : scan pending .plain (c :: (path ++ rest)) =
        scan (c :: pending) .plain (path ++ rest) := by
      rcases hordinary c (by simp) with hc | rfl
      · exact scan_of_isOrdinary pending (path ++ rest) hc
      · -- The backslash is not the last character, and the next one does not need it.
        cases path with
        | nil => exact absurd rfl hlast
        | cons d path =>
          have hd := (List.isChain_cons_cons.1 hbehind).1 rfl
          exact scan_backslash_of_isOrdinary pending (path ++ rest)
            ((hpath d (by simp)).resolve_right hd.1) hd.2
    have hlast' : path.getLast? ≠ some '\\' := by
      cases path with
      | nil => simp
      | cons d path => simpa using hlast
    have hothers := ih (c :: pending) hpath hbehind.tail hlast'
    simpa [hothers] using hfirst

theorem utf8Size_of_ascii (hc : c.toNat < 128) : c.utf8Size = 1 :=
  Char.utf8Size_eq_one_iff.2 (UInt32.le_iff_toNat_le.2 (Nat.le_of_lt_succ hc))

theorem length_of_isDrive (h : isDrive pending = true) : pending.length = 1 := by
  unfold isDrive at h
  split at h
  · rfl
  · cases h

namespace DrivePath

variable (drive : DrivePath)

theorem letter_spec : Text.isSpace drive.letter = false ∧ drive.letter ≠ ':' := by
  obtain ⟨hspace, _, _, _, hcolon⟩ := isOrdinary_iff.1 drive.letter_ordinary
  exact ⟨hspace, hcolon⟩

theorem isDrive_letter : isDrive [drive.letter] = true := by
  simp [isDrive, drive.letter_spec, utf8Size_of_ascii drive.letter_ascii]

/-- The path is read as it is written. -/
theorem readsAs : ReadsAs drive.text drive.text where
  scan_text rest := by
    have hslash : slashFollows (drive.path ++ rest) = true := by
      have hpath := drive.path_slash
      cases hcases : drive.path with
      | nil => simp [hcases, slashFollows] at hpath
      | cons c path => simpa [hcases, slashFollows] using hpath
    calc
      scan [] .plain (drive.text ++ rest) =
          scan [drive.letter] .plain (':' :: (drive.path ++ rest)) :=
        scan_of_isOrdinary [] _ drive.letter_ordinary
      _ = scan [':', drive.letter] .plain (drive.path ++ rest) :=
        scan_driveColon drive.isDrive_letter hslash
      _ = scan (drive.path.reverse ++ [':', drive.letter]) .plain rest :=
        scan_drivePath _ rest drive.path_ordinary drive.behind_backslash drive.getLast?_ne_backslash
      _ = scan drive.text.reverse .plain rest := by simp [text]
  colonFollows_text rest := by simp [text, colonFollows, drive.letter_spec]
  not_blank := by simp [text, Text.isBlank, drive.letter_spec]

/-- A path on a drive is longer than a drive letter, so the colon behind it ends a target. -/
theorem isDrive_reverse_text : isDrive drive.text.reverse = false := by
  apply Bool.eq_false_iff.2
  intro h
  have hlength := length_of_isDrive h
  simp [text] at hlength

end DrivePath

/-! ## Rules -/

/-- One path or more, with gaps between them. -/
structure DriveList where
  first : DrivePath
  others : List (Gap Text.isSpace × DrivePath)

/-- A rule in which no path is escaped. The first prerequisite may stand directly behind the
colon. -/
structure DriveRule where
  target : DrivePath
  beforeColon : Run Text.isSpace
  afterColon : Option (Gap Text.isSpace)
  prerequisites : Option DriveList
  ending : Run Text.isSpace
  ending_ne_nil : ending.text ≠ []

def DriveList.text (list : DriveList) : Text :=
  list.first.text ++ list.others.flatMap (fun entry => entry.1.text ++ entry.2.text)

def DriveList.tokens (list : DriveList) : List Text :=
  list.first.text :: list.others.map (fun entry => entry.2.text)

namespace DriveRule

def text (rule : DriveRule) : Text :=
  rule.target.text ++ rule.beforeColon.text ++ ':' :: rule.afterColon.elim [] Gap.text ++
    rule.prerequisites.elim [] DriveList.text ++ rule.ending.text

def tokens (rule : DriveRule) : List Text :=
  (rule.target.text ++ [':']) :: rule.prerequisites.elim [] DriveList.tokens

end DriveRule

/-! ## Reading rules -/

theorem DriveList.scan_text (list : DriveList) {ending : Run Text.isSpace}
    (hending : ending.text ≠ []) (hrest : colonFollows rest = false) :
    scan [] .plain (list.text ++ (ending.text ++ rest)) = list.tokens ++ scan [] .plain rest := by
  let behind := list.others.flatMap (fun entry => entry.1.text ++ entry.2.text) ++
    (ending.text ++ rest)
  have hfirst : emit list.first.text.reverse = [list.first.text] :=
    emit_reverse list.first.readsAs.not_blank
  calc
    scan [] .plain (list.text ++ (ending.text ++ rest)) =
        scan [] .plain (list.first.text ++ behind) := by simp [DriveList.text, behind]
    _ = scan list.first.text.reverse .plain behind := list.first.readsAs.scan_text behind
    _ = emit list.first.text.reverse ++ list.others.map (fun entry => entry.2.text) ++
          scan [] .plain rest := scan_gaps DrivePath.readsAs _ list.others hending hrest
    _ = list.tokens ++ scan [] .plain rest := by simp [hfirst, DriveList.tokens]

namespace DriveRule

variable (rule : DriveRule)

/-- Nothing behind the colon of a target looks like another colon. -/
theorem colonFollows_behindColon (hrest : colonFollows rest = false) :
    colonFollows (rule.prerequisites.elim [] DriveList.text ++ (rule.ending.text ++ rest)) =
      false := by
  cases rule.prerequisites with
  | none => simpa [colonFollows_append rule.ending.of_kind] using hrest
  | some list => simpa [DriveList.text] using list.first.readsAs.colonFollows_text _

theorem scan_behindColon (hrest : colonFollows rest = false) :
    scan [] .plain (rule.afterColon.elim [] Gap.text ++
        (rule.prerequisites.elim [] DriveList.text ++ (rule.ending.text ++ rest))) =
      rule.prerequisites.elim [] DriveList.tokens ++ scan [] .plain rest := by
  let behind := rule.prerequisites.elim [] DriveList.text ++ (rule.ending.text ++ rest)
  -- Nothing is collected behind the colon, so a gap there gives out nothing.
  have hgap : scan [] .plain (rule.afterColon.elim [] Gap.text ++ behind) =
      scan [] .plain behind := by
    cases rule.afterColon with
    | none => rfl
    | some gap => simpa [emit_nil] using gap.scan_text [] (rule.colonFollows_behindColon hrest)
  have hlist : scan [] .plain behind =
      rule.prerequisites.elim [] DriveList.tokens ++ scan [] .plain rest := by
    cases hprerequisites : rule.prerequisites with
    | none =>
      simpa [behind, hprerequisites, emit_nil] using
        scan_run [] rule.ending.of_kind rule.ending_ne_nil hrest
    | some list =>
      simpa [behind, hprerequisites] using list.scan_text rule.ending_ne_nil hrest
  exact hgap.trans hlist

theorem scan_text (hrest : colonFollows rest = false) :
    scan [] .plain (rule.text ++ rest) = rule.tokens ++ scan [] .plain rest := by
  let behind := rule.afterColon.elim [] Gap.text ++
    (rule.prerequisites.elim [] DriveList.text ++ (rule.ending.text ++ rest))
  calc
    scan [] .plain (rule.text ++ rest) =
        scan [] .plain (rule.target.text ++ (rule.beforeColon.text ++ ':' :: behind)) := by
      simp [text, behind]
    _ = (rule.target.text ++ [':']) :: scan [] .plain behind :=
      -- Even if the first prerequisite begins with a slash, the target is too long for a drive.
      rule.target.readsAs.scan_target rule.beforeColon (by simp [rule.target.isDrive_reverse_text])
    _ = rule.tokens ++ scan [] .plain rest := by
      simp [behind, rule.scan_behindColon hrest, tokens]

theorem colonFollows_text (rest : Text) : colonFollows (rule.text ++ rest) = false := by
  simpa [text] using rule.target.readsAs.colonFollows_text _

end DriveRule

/-- Paths on drives need no escapes: a file of rules over them gives the targets, each with its
colon, and the prerequisites, in order. -/
theorem tokenize_driveRules (rules : List DriveRule) :
    tokenize (rules.flatMap DriveRule.text) = rules.flatMap DriveRule.tokens :=
  tokenize_flatMap DriveRule.colonFollows_text (fun rule _ => rule.scan_text) rules

/-- A rule with a blank in front of its colon and none behind it, and with a continued line. -/
def sampleDriveRule : DriveRule where
  target := ⟨'C', ['\\', 'o'], by simp, rfl, rfl, by simp [isOrdinary, Text.isSpace], by simp, by simp⟩
  beforeColon := ⟨[' '], by simp [Text.isSpace]⟩
  afterColon := none
  prerequisites := some {
    first := ⟨'D', ['/', 'x'], by simp, rfl, rfl, by simp [isOrdinary, Text.isSpace], by simp, by simp⟩
    others := [
      (⟨⟨['\t'], by simp [Text.isSpace]⟩, some ⟨[' '], by simp [Text.isSpace]⟩, by simp⟩,
        ⟨'E', ['\\', '.', '\\', 'y'], by simp, rfl, rfl, by simp [isOrdinary, Text.isSpace], by simp,
          by simp⟩)] }
  ending := ⟨['\r', '\n'], by simp [Text.isSpace]⟩
  ending_ne_nil := by simp

theorem tokenize_sampleDriveRule :
    tokenize ['C', ':', '\\', 'o', ' ', ':', 'D', ':', '/', 'x', '\t', '\\', '\n', ' ',
        'E', ':', '\\', '.', '\\', 'y', '\r', '\n'] =
      [['C', ':', '\\', 'o', ':'], ['D', ':', '/', 'x'], ['E', ':', '\\', '.', '\\', 'y']] :=
  tokenize_driveRules [sampleDriveRule]

end Depfile.Token
