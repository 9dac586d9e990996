import Depfile.Proofs.Token.Escape
import Depfile.Token.Scan

/-!
# What the scanner does with what it reads

The scanner's step, character by character, and from it what a whole piece of text does: a name
between quotes or with escapes is collected, whitespace gives out the token in front of it, and a
colon gives it out as a target. The only state that matters between two pieces is the token being
collected.
-/

namespace Depfile.Token

variable {pending rest : Text} {c : Char}

/-! ## One step -/

/-- Each character but a backslash and a dollar sign is read on its own. -/
theorem scan_cons (pending rest : Text) (hc : c ≠ '\\' ∧ c ≠ '$') :
    scan pending .plain (c :: rest) =
      if c = ':' then
        if isDrive pending && slashFollows rest then scan (c :: pending) .plain rest
        else if Text.isBlank pending then scan [] .plain rest
        else emit (c :: pending) ++ scan [] .plain rest
      else if Text.isSpace c then
        if !Text.isBlank pending && colonFollows rest then
          emit (':' :: pending) ++ scan [] .ending rest
        else emit pending ++ scan [] .plain rest
      else if c = '"' then scan pending .quoted rest
      else scan (c :: pending) .plain rest := by
  rw [scan.eq_def]
  simp [hc]

/-- A character without any meaning of its own is collected. -/
theorem scan_ordinary (pending rest : Text) (hspace : Text.isSpace c = false)
    (hplain : c ≠ ':' ∧ c ≠ '\\' ∧ c ≠ '$' ∧ c ≠ '"') :
    scan pending .plain (c :: rest) = scan (c :: pending) .plain rest := by
  simp [scan_cons pending rest ⟨hplain.2.1, hplain.2.2.1⟩, hspace, hplain]

/-- What a backslash does is decided by the next character. -/
theorem scan_backslash_cons (pending rest : Text) (c : Char) :
    scan pending .plain ('\\' :: c :: rest) =
      if isProtected c then scan (c :: pending) .plain rest
      else if c = '\n' then scan pending .plain (c :: rest)
      else scan ('\\' :: pending) .plain (c :: rest) := by
  rw [scan.eq_def]
  simp [Text.isSpace]

theorem scan_protected (pending rest : Text) (hc : isProtected c = true) :
    scan pending .plain ('\\' :: c :: rest) = scan (c :: pending) .plain rest := by
  rw [scan_backslash_cons, if_pos hc]

/-- The backslash of a continued line disappears. -/
theorem scan_continuation (pending rest : Text) :
    scan pending .plain ('\\' :: '\n' :: rest) = scan pending .plain ('\n' :: rest) := rfl

/-- In front of a character that needs no protection a backslash is collected. -/
theorem scan_backslash (pending rest : Text) (hprotected : isProtected c = false)
    (hline : c ≠ '\n') :
    scan pending .plain ('\\' :: c :: rest) = scan ('\\' :: pending) .plain (c :: rest) := by
  rw [scan_backslash_cons, if_neg (by simp [hprotected]), if_neg hline]

theorem scan_dollars (pending rest : Text) :
    scan pending .plain ('$' :: '$' :: rest) = scan ('$' :: pending) .plain rest := rfl

theorem scan_dollar (pending : Text) (hrest : rest.head? ≠ some '$') :
    scan pending .plain ('$' :: rest) = scan ('$' :: pending) .plain rest := by
  cases rest with
  | nil => rfl
  | cons c rest =>
    have hc : c ≠ '$' := by simpa using hrest
    rw [scan.eq_def]
    simp [Text.isSpace, hc]

theorem scan_quote (pending rest : Text) :
    scan pending .plain ('"' :: rest) = scan pending .quoted rest := by
  simp [scan_cons, Text.isSpace]

theorem ne_of_isSpace (hc : Text.isSpace c = true) : c ≠ ':' ∧ c ≠ '/' ∧ c ≠ '\\' := by
  simp only [Text.isSpace, Bool.or_eq_true, decide_eq_true_eq] at hc
  rcases hc with ((((rfl | rfl) | rfl) | rfl) | rfl) | rfl <;> decide

theorem ne_dollar_of_isSpace (hc : Text.isSpace c = true) : c ≠ '$' := by
  rintro rfl
  cases hc

theorem scan_space_cons (pending rest : Text) (hc : Text.isSpace c = true) :
    scan pending .plain (c :: rest) =
      if !Text.isBlank pending && colonFollows rest then
        emit (':' :: pending) ++ scan [] .ending rest
      else
        emit pending ++ scan [] .plain rest := by
  have hboth : c ≠ '\\' ∧ c ≠ '$' := ⟨(ne_of_isSpace hc).2.2, ne_dollar_of_isSpace hc⟩
  simp [scan_cons pending rest hboth, hc, ne_of_isSpace hc]

/-- Whitespace ends a token, which is no target as long as no colon is to come. -/
theorem scan_space (pending : Text) (hc : Text.isSpace c = true)
    (hrest : colonFollows rest = false) :
    scan pending .plain (c :: rest) = emit pending ++ scan [] .plain rest := by
  simp [scan_space_cons pending rest hc, hrest]

/-- Whitespace in front of a colon ends a target. -/
theorem scan_space_of_colonFollows (hc : Text.isSpace c = true)
    (hpending : Text.isBlank pending = false) (hrest : colonFollows rest = true) :
    scan pending .plain (c :: rest) = emit (':' :: pending) ++ scan [] .ending rest := by
  simp [scan_space_cons pending rest hc, hrest, hpending]

/-- Whitespace behind nothing but blanks leaves nothing of them. -/
theorem scan_space_of_isBlank (hc : Text.isSpace c = true)
    (hpending : Text.isBlank pending = true) :
    scan pending .plain (c :: rest) = scan [] .plain rest := by
  simp [scan_space_cons pending rest hc, hpending, emit]

theorem scan_driveColon (hpending : isDrive pending = true) (hrest : slashFollows rest = true) :
    scan pending .plain (':' :: rest) = scan (':' :: pending) .plain rest := by
  simp [scan_cons, hpending, hrest]

theorem isBlank_of_isDrive (h : isDrive pending = true) : Text.isBlank pending = false := by
  unfold isDrive at h
  split at h
  · simp_all [Text.isBlank]
  · cases h

/-- Behind nothing but blanks there is nothing that a colon could end. -/
theorem scan_colon_of_isBlank (hpending : Text.isBlank pending = true) :
    scan pending .plain (':' :: rest) = scan [] .plain rest := by
  have hdrive : isDrive pending = false := by
    apply Bool.eq_false_iff.2
    intro hdrive
    simp [isBlank_of_isDrive hdrive] at hpending
  simp [scan_cons, hpending, hdrive]

theorem scan_colon_of_not_drive (hpending : Text.isBlank pending = false)
    (hdrive : (isDrive pending && slashFollows rest) = false) :
    scan pending .plain (':' :: rest) = emit (':' :: pending) ++ scan [] .plain rest := by
  simp [scan_cons, hpending, hdrive]

/-- A colon ends a target, unless it can belong to a drive letter. -/
theorem scan_colon (hpending : Text.isBlank pending = false) (hrest : slashFollows rest = false) :
    scan pending .plain (':' :: rest) = emit (':' :: pending) ++ scan [] .plain rest :=
  scan_colon_of_not_drive hpending (by simp [hrest])

/-! ## Tokens -/

theorem emit_nil : emit [] = [] := rfl

theorem emit_of_isBlank (h : Text.isBlank pending = true) : emit pending = [] := by
  simp [emit, h]

theorem isBlank_reverse (text : Text) : Text.isBlank text.reverse = Text.isBlank text := by
  simp [Text.isBlank]

theorem emit_reverse {name : Text} (h : Text.isBlank name = false) :
    emit name.reverse = [name] := by
  simp [emit, isBlank_reverse, h]

theorem emit_colon_reverse (name : Text) : emit (':' :: name.reverse) = [name ++ [':']] := by
  simp [emit, Text.isBlank, Text.isSpace]

/-! ## Names -/

theorem scan_quoted (pending rest : Text) {name : Text} (hname : '"' ∉ name) :
    scan pending .quoted (name ++ '"' :: rest) = scan (name.reverse ++ pending) .plain rest := by
  induction name generalizing pending with
  | nil => simp [scan]
  | cons c name ih =>
    simp only [List.mem_cons, not_or] at hname
    have hrest := ih (c :: pending) hname.2
    simpa [scan, Ne.symm hname.1] using hrest

/-- A name between double quotes is collected. -/
theorem scan_quotes (pending rest : Text) {name : Text} (hname : '"' ∉ name) :
    scan pending .plain ('"' :: name ++ '"' :: rest) = scan (name.reverse ++ pending) .plain rest := by
  -- The opening quote changes the mode and is not collected itself.
  rw [List.cons_append, scan_quote]
  exact scan_quoted pending rest hname

/-- The characters that a name can have when it is escaped: an escape for the other whitespace
does not exist, and a quote would open a quotation. -/
def CanEscape (c : Char) : Prop :=
  c ≠ '"' ∧ (Text.isSpace c = true → c = ' ' ∨ c = '\t')

theorem CanEscape.of_ne (hquote : c ≠ '"')
    (h : c ≠ '\n' ∧ c ≠ '\r' ∧ c ≠ '\x0b' ∧ c ≠ '\x0c') : CanEscape c := by
  refine ⟨hquote, ?_⟩
  intro hspace
  simpa [Text.isSpace, h] using hspace

/-- Such a character means nothing to the scanner if it is written as it is. -/
theorem CanEscape.ordinary (hc : CanEscape c) (hprotected : isProtected c = false) :
    Text.isSpace c = false ∧ c ≠ ':' ∧ c ≠ '\\' := by
  have hmeaning : ((((c ≠ '\\' ∧ c ≠ '#') ∧ c ≠ ':') ∧ c ≠ ' ') ∧ c ≠ '\t') := by
    simpa [isProtected] using hprotected
  refine ⟨Bool.eq_false_iff.2 (fun hspace => ?_), hmeaning.1.1.2, hmeaning.1.1.1.1⟩
  rcases hc.2 hspace with hblank | hblank
  · exact hmeaning.1.2 hblank
  · exact hmeaning.2 hblank

theorem scan_escapeChar (pending rest : Text) (hc : CanEscape c) :
    scan pending .plain (escapeChar c ++ rest) = scan (c :: pending) .plain rest := by
  rcases escapeChar_cases c with
    ⟨rfl, hwritten⟩ | ⟨hprotected, hwritten⟩ | ⟨hdollar, hprotected, hwritten⟩
  · simpa [hwritten] using scan_dollars pending rest
  · simpa [hwritten] using scan_protected pending rest hprotected
  · rcases hc.ordinary hprotected with ⟨hspace, hcolon, hbackslash⟩
    simpa [hwritten] using scan_ordinary pending rest hspace ⟨hcolon, hbackslash, hdollar, hc.1⟩

/-- A name with escapes is collected without them. -/
theorem scan_escape (pending rest : Text) {name : Text} (hname : ∀ c ∈ name, CanEscape c) :
    scan pending .plain (escape name ++ rest) = scan (name.reverse ++ pending) .plain rest := by
  induction name generalizing pending with
  | nil => rfl
  | cons c name ih =>
    have hfirst := scan_escapeChar pending (escape name ++ rest) (hname c (by simp))
    have hothers := ih (c :: pending) (fun d hd => hname d (by simp [hd]))
    calc
      scan pending .plain (escape (c :: name) ++ rest) =
          scan pending .plain (escapeChar c ++ (escape name ++ rest)) := by simp [escape_cons]
      _ = scan (c :: pending) .plain (escape name ++ rest) := hfirst
      _ = scan ((c :: name).reverse ++ pending) .plain rest := by simpa using hothers

/-! ## Whitespace -/

theorem colonFollows_append {run : Text} (hrun : ∀ c ∈ run, Text.isSpace c = true) :
    colonFollows (run ++ rest) = colonFollows rest := by
  induction run with
  | nil => rfl
  | cons c run ih =>
    have hc := hrun c (by simp)
    have hrest := ih (fun d hd => hrun d (by simp [hd]))
    simpa [colonFollows, hc, ne_of_isSpace hc] using hrest

/-- Behind a token, whitespace gives it out. -/
theorem scan_run (pending : Text) {run : Text} (hrun : ∀ c ∈ run, Text.isSpace c = true)
    (hne : run ≠ []) (hrest : colonFollows rest = false) :
    scan pending .plain (run ++ rest) = emit pending ++ scan [] .plain rest := by
  induction run generalizing pending with
  | nil => exact absurd rfl hne
  | cons c run ih =>
    have hc := hrun c (by simp)
    have hothers : ∀ d ∈ run, Text.isSpace d = true := by
      intro d hd
      exact hrun d (by simp [hd])
    have hcolon : colonFollows (run ++ rest) = false := by rwa [colonFollows_append hothers]
    have hfirst : scan pending .plain (c :: (run ++ rest)) =
        emit pending ++ scan [] .plain (run ++ rest) := scan_space pending hc hcolon
    by_cases hnil : run = []
    · simpa [hnil] using hfirst
    · -- Nothing is collected any more, so the other blanks give out nothing.
      rw [List.cons_append, hfirst, ih [] hothers hnil, emit_nil, List.nil_append]

theorem scan_ending (pending : Text) {run : Text} (hrun : ∀ c ∈ run, Text.isSpace c = true) :
    scan pending .ending (run ++ ':' :: rest) = scan pending .plain rest := by
  induction run with
  | nil => simp [scan]
  | cons c run ih =>
    have hrest := ih (fun d hd => hrun d (by simp [hd]))
    simpa [scan, ne_of_isSpace (hrun c (by simp))] using hrest

/-- Behind a token that has ended, the whitespace in front of a colon and the colon are dropped in
either mode. -/
theorem scan_ending_eq (h : colonFollows rest = true) :
    scan [] .ending rest = scan [] .plain rest := by
  have hnil : Text.isBlank [] = true := rfl
  induction rest with
  | nil => cases h
  | cons c rest ih =>
    by_cases hc : c = ':'
    · rw [hc, scan_colon_of_isBlank hnil]
      simp [scan]
    · have hspace : Text.isSpace c = true ∧ colonFollows rest = true := by
        simpa [colonFollows, hc] using h
      rw [scan_space_of_isBlank hspace.1 hnil, ← ih hspace.2]
      simp [scan, hc]

/-- One whitespace character is as good as another. -/
theorem scan_space_eq {d : Char} (pending rest : Text) (hc : Text.isSpace c = true)
    (hd : Text.isSpace d = true) :
    scan pending .plain (c :: rest) = scan pending .plain (d :: rest) := by
  rw [scan_space_cons pending rest hc, scan_space_cons pending rest hd]

/-- Behind a token, two whitespace characters do no more than one. -/
theorem scan_space_space {d : Char} (hpending : Text.isBlank pending = false)
    (hc : Text.isSpace c = true) (hd : Text.isSpace d = true) :
    scan pending .plain (c :: d :: rest) = scan pending .plain (c :: rest) := by
  have hnil : Text.isBlank [] = true := rfl
  by_cases hcolon : colonFollows rest = true
  · have hboth : colonFollows (d :: rest) = true := by simp [colonFollows, hd, hcolon]
    rw [scan_space_of_colonFollows hc hpending hboth, scan_space_of_colonFollows hc hpending hcolon,
      scan_ending_eq hboth, scan_ending_eq hcolon, scan_space_of_isBlank hd hnil]
  · have hneither : colonFollows (d :: rest) = false := by
      simpa [colonFollows, hd, ne_of_isSpace hd] using hcolon
    rw [scan_space pending hc hneither, scan_space pending hc (by simpa using hcolon),
      scan_space_of_isBlank hd hnil]

theorem scan_space_colon (hpending : Text.isBlank pending = false) (hc : Text.isSpace c = true) :
    scan pending .plain (c :: ':' :: rest) = emit (':' :: pending) ++ scan [] .plain rest := by
  have hcolon : colonFollows (':' :: rest) = true := rfl
  rw [scan_space_of_colonFollows hc hpending hcolon]
  simp [scan]

/-- A colon gives a token out as a target, also behind whitespace. -/
theorem scan_target {run : Text} (hpending : Text.isBlank pending = false)
    (hrun : ∀ c ∈ run, Text.isSpace c = true)
    (hdrive : (isDrive pending && slashFollows rest) = false) :
    scan pending .plain (run ++ ':' :: rest) = emit (':' :: pending) ++ scan [] .plain rest := by
  cases run with
  | nil => exact scan_colon_of_not_drive hpending hdrive
  | cons c run =>
    have hothers : ∀ d ∈ run, Text.isSpace d = true := by
      intro d hd
      exact hrun d (by simp [hd])
    -- The first blank sees the colon behind the other ones.
    have hcolon : colonFollows (run ++ ':' :: rest) = true := by
      rw [colonFollows_append hothers]
      rfl
    have hfirst : scan pending .plain (c :: (run ++ ':' :: rest)) =
        emit (':' :: pending) ++ scan [] .ending (run ++ ':' :: rest) :=
      scan_space_of_colonFollows (hrun c (by simp)) hpending hcolon
    rw [List.cons_append, hfirst, scan_ending [] hothers]

/-! ## Parts of a text -/

section Parts

variable {α : Type} {text : α → Text} {tokens : α → List Text}

theorem colonFollows_flatMap (hcolon : ∀ part rest, colonFollows (text part ++ rest) = false)
    (parts : List α) (hrest : colonFollows rest = false) :
    colonFollows (parts.flatMap text ++ rest) = false := by
  cases parts with
  | nil => exact hrest
  | cons part parts => simpa using hcolon part (parts.flatMap text ++ rest)

/-- Parts of which none begins with a colon are read one after the other, if each of them is read on
its own. -/
theorem scan_flatMap (hcolon : ∀ part rest, colonFollows (text part ++ rest) = false)
    (hscan : ∀ part rest, colonFollows rest = false →
      scan [] .plain (text part ++ rest) = tokens part ++ scan [] .plain rest)
    (parts : List α) (hrest : colonFollows rest = false) :
    scan [] .plain (parts.flatMap text ++ rest) =
      parts.flatMap tokens ++ scan [] .plain rest := by
  induction parts with
  | nil => rfl
  | cons part parts ih =>
    have hfirst := hscan part _ (colonFollows_flatMap hcolon parts hrest)
    calc
      scan [] .plain ((part :: parts).flatMap text ++ rest) =
          scan [] .plain (text part ++ (parts.flatMap text ++ rest)) := by simp
      _ = tokens part ++ scan [] .plain (parts.flatMap text ++ rest) := hfirst
      _ = (part :: parts).flatMap tokens ++ scan [] .plain rest := by simp [ih]

theorem tokenize_flatMap (hcolon : ∀ part rest, colonFollows (text part ++ rest) = false)
    (hscan : ∀ part rest, colonFollows rest = false →
      scan [] .plain (text part ++ rest) = tokens part ++ scan [] .plain rest) (parts : List α) :
    tokenize (parts.flatMap text) = parts.flatMap tokens := by
  have hend : colonFollows [] = false := rfl
  simpa [tokenize, scan, emit_nil] using scan_flatMap hcolon hscan parts hend

end Parts

end Depfile.Token
