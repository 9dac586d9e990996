import Depfile.Proofs.Token.Scan

/-!
# Readings of a text

What the scanner can do with the next few characters depends on what it has collected and on what
follows, but there are only a few kinds of steps: a character is collected, nothing happens, or
what has been collected is given out. `Reading` lists them, with the whitespace and the colon
behind a target as one step. The scanner's way through a text is a reading of it
(`reading_tokenize`), so what holds for every reading holds for the tokens of every text,
malformed ones included.
-/

namespace Depfile.Token

variable {pending text rest : Text} {c : Char}

/-! ## Steps -/

/-- A character that means the same wherever it stands. -/
def isOrdinary (c : Char) : Bool :=
  !(Text.isSpace c || c = '\\' || c = '$' || c = '"' || c = ':')

/-- The characters that are read, outside of quotes, as one collected character. -/
inductive Collects : Text → Char → Prop where
  | ordinary {c : Char} : isOrdinary c = true → Collects [c] c
  | escaped {c : Char} : isProtected c = true → Collects ['\\', c] c
  | backslash : Collects ['\\'] '\\'
  | dollar : Collects ['$'] '$'
  | dollars : Collects ['$', '$'] '$'
  | driveColon : Collects [':'] ':'

/-- A way to read a text, outside or inside of quotes, with characters in `pending` collected before
it. -/
inductive Reading : Text → Mode → Text → List Text → Prop where
  | finish (pending : Text) (mode : Mode) : Reading pending mode [] (emit pending)
  | collect {pending source rest : Text} {c : Char} {tokens : List Text} :
      Collects source c → Reading (c :: pending) .plain rest tokens →
      Reading pending .plain (source ++ rest) tokens
  | continuation {pending rest : Text} {tokens : List Text} :
      Reading pending .plain ('\n' :: rest) tokens →
      Reading pending .plain ('\\' :: '\n' :: rest) tokens
  | space {pending rest : Text} {c : Char} {tokens : List Text} :
      Text.isSpace c = true → Reading [] .plain rest tokens →
      Reading pending .plain (c :: rest) (emit pending ++ tokens)
  | strayColon {pending rest : Text} {tokens : List Text} :
      Text.isBlank pending = true → Reading [] .plain rest tokens →
      Reading pending .plain (':' :: rest) tokens
  | target {pending run rest : Text} {tokens : List Text} :
      Text.isBlank pending = false → (∀ c ∈ run, Text.isSpace c = true) →
      Reading [] .plain rest tokens →
      Reading pending .plain (run ++ ':' :: rest) (emit (':' :: pending) ++ tokens)
  | openQuote {pending rest : Text} {tokens : List Text} :
      Reading pending .quoted rest tokens → Reading pending .plain ('"' :: rest) tokens
  | literal {pending rest : Text} {c : Char} {tokens : List Text} :
      c ≠ '"' → Reading (c :: pending) .quoted rest tokens →
      Reading pending .quoted (c :: rest) tokens
  | closeQuote {pending rest : Text} {tokens : List Text} :
      Reading pending .plain rest tokens → Reading pending .quoted ('"' :: rest) tokens

/-! ## The scanner takes these steps -/

/-- A colon that follows stands behind nothing but whitespace. -/
theorem exists_run_of_colonFollows {rest : Text} (h : colonFollows rest = true) :
    ∃ run tail, rest = run ++ ':' :: tail ∧ ∀ c ∈ run, Text.isSpace c = true := by
  induction rest with
  | nil => cases h
  | cons c rest ih =>
    by_cases hcolon : c = ':'
    · exact ⟨[], rest, by simp [hcolon], by simp⟩
    · have hboth : Text.isSpace c = true ∧ colonFollows rest = true := by
        simpa [colonFollows, hcolon] using h
      rcases ih hboth.2 with ⟨run, tail, rfl, hrun⟩
      exact ⟨c :: run, tail, rfl, by simpa [hboth.1] using hrun⟩

/-- The scanner's way through a text of at most `n` characters is a reading, in both modes in which
it can start. -/
def ReadsUpTo (n : Nat) : Prop :=
  ∀ (pending text : Text), text.length ≤ n →
    Reading pending .plain text (scan pending .plain text) ∧
      Reading pending .quoted text (scan pending .quoted text)

namespace ReadsUpTo

variable {n : Nat}

theorem plain (h : ReadsUpTo n) (pending : Text) (hrest : rest.length ≤ n) :
    Reading pending .plain rest (scan pending .plain rest) :=
  (h pending rest hrest).1

theorem quoted (h : ReadsUpTo n) (pending : Text) (hrest : rest.length ≤ n) :
    Reading pending .quoted rest (scan pending .quoted rest) :=
  (h pending rest hrest).2

theorem reading_colon (h : ReadsUpTo n) (pending : Text) (hrest : rest.length ≤ n) :
    Reading pending .plain (':' :: rest) (scan pending .plain (':' :: rest)) := by
  -- A colon is part of a drive, means nothing in front of a target, or ends one.
  by_cases hdrive : (isDrive pending && slashFollows rest) = true
  · have hboth : isDrive pending = true ∧ slashFollows rest = true := by simpa using hdrive
    have hread := Reading.collect .driveColon (h.plain (':' :: pending) hrest)
    simpa [scan_driveColon hboth.1 hboth.2] using hread
  · by_cases hblank : Text.isBlank pending = true
    · simpa [scan_colon_of_isBlank hblank] using Reading.strayColon hblank (h.plain [] hrest)
    · have hscan := scan_colon_of_not_drive (by simpa using hblank) (by simpa using hdrive)
      -- The colon stands directly behind the target.
      have hread : Reading pending .plain ([] ++ ':' :: rest)
          (emit (':' :: pending) ++ scan [] .plain rest) :=
        .target (by simpa using hblank) (by simp) (h.plain [] hrest)
      simpa [hscan] using hread

theorem reading_space (h : ReadsUpTo n) (pending : Text) (hc : Text.isSpace c = true)
    (hrest : rest.length ≤ n) :
    Reading pending .plain (c :: rest) (scan pending .plain (c :: rest)) := by
  -- In front of a colon the scanner only leaves out one character at a time, but the whole run is
  -- one step of the reading.
  by_cases htarget : Text.isBlank pending = false ∧ colonFollows rest = true
  · rcases exists_run_of_colonFollows htarget.2 with ⟨run, tail, rfl, hrun⟩
    have hall : ∀ d ∈ c :: run, Text.isSpace d = true := by simpa [hc] using hrun
    have htail : tail.length ≤ n := by
      simp at hrest
      omega
    have hscan : scan pending .plain (c :: (run ++ ':' :: tail)) =
        emit (':' :: pending) ++ scan [] .plain tail := by
      simpa [scan_ending [] hrun] using scan_space_of_colonFollows hc htarget.1 htarget.2
    simpa [hscan] using Reading.target htarget.1 hall (h.plain [] htail)
  · have hnot : (!Text.isBlank pending && colonFollows rest) = false := by
      simpa using htarget
    have hscan : scan pending .plain (c :: rest) = emit pending ++ scan [] .plain rest := by
      rw [scan.eq_def]
      simp only [ne_of_isSpace hc, hc, hnot]
      simp
    simpa [hscan] using Reading.space hc (h.plain [] hrest)

theorem reading_backslash (h : ReadsUpTo n) (pending : Text) (hrest : rest.length ≤ n) :
    Reading pending .plain ('\\' :: rest) (scan pending .plain ('\\' :: rest)) := by
  -- At the end of the text there is nothing that a backslash could protect.
  cases rest with
  | nil =>
    have hscan : scan pending .plain ['\\'] = scan ('\\' :: pending) .plain [] := by
      rw [scan.eq_def]
      simp [Text.isSpace]
    simpa [hscan] using Reading.collect .backslash (h.plain ('\\' :: pending) hrest)
  | cons next tail =>
    have htail : tail.length ≤ n := by
      simp at hrest
      omega
    by_cases hprotected : isProtected next = true
    · have hread := Reading.collect (.escaped hprotected) (h.plain (next :: pending) htail)
      simpa [scan_protected pending tail hprotected] using hread
    · by_cases hline : next = '\n'
      · subst hline
        simpa [scan_continuation] using Reading.continuation (h.plain pending hrest)
      · have hscan := scan_backslash pending tail (by simpa using hprotected) hline
        simpa [hscan] using Reading.collect .backslash (h.plain ('\\' :: pending) hrest)

theorem reading_dollar (h : ReadsUpTo n) (pending : Text) (hrest : rest.length ≤ n) :
    Reading pending .plain ('$' :: rest) (scan pending .plain ('$' :: rest)) := by
  by_cases hdouble : ∃ tail, rest = '$' :: tail
  · rcases hdouble with ⟨tail, rfl⟩
    have htail : tail.length ≤ n := by
      simp at hrest
      omega
    simpa [scan_dollars] using Reading.collect .dollars (h.plain ('$' :: pending) htail)
  · have hhead : rest.head? ≠ some '$' := by
      intro hhead
      exact hdouble (List.head?_eq_some_iff.1 hhead)
    simpa [scan_dollar pending hhead] using Reading.collect .dollar (h.plain ('$' :: pending) hrest)

theorem reading_quote (h : ReadsUpTo n) (pending : Text) (hrest : rest.length ≤ n) :
    Reading pending .plain ('"' :: rest) (scan pending .plain ('"' :: rest)) := by
  simpa [scan_quote] using Reading.openQuote (h.quoted pending hrest)

theorem reading_cons (h : ReadsUpTo n) (pending : Text) (c : Char) (hrest : rest.length ≤ n) :
    Reading pending .plain (c :: rest) (scan pending .plain (c :: rest)) := by
  by_cases hspace : Text.isSpace c = true
  · exact h.reading_space pending hspace hrest
  by_cases hcolon : c = ':'
  · subst hcolon
    exact h.reading_colon pending hrest
  by_cases hbackslash : c = '\\'
  · subst hbackslash
    exact h.reading_backslash pending hrest
  by_cases hdollar : c = '$'
  · subst hdollar
    exact h.reading_dollar pending hrest
  by_cases hquote : c = '"'
  · subst hquote
    exact h.reading_quote pending hrest
  have hordinary : isOrdinary c = true := by
    simp [isOrdinary, hspace, hcolon, hbackslash, hdollar, hquote]
  have hscan := scan_ordinary pending rest (by simpa using hspace)
    ⟨hcolon, hbackslash, hdollar, hquote⟩
  simpa [hscan] using Reading.collect (.ordinary hordinary) (h.plain (c :: pending) hrest)

theorem reading_quoted_cons (h : ReadsUpTo n) (pending : Text) (c : Char)
    (hrest : rest.length ≤ n) :
    Reading pending .quoted (c :: rest) (scan pending .quoted (c :: rest)) := by
  by_cases hquote : c = '"'
  · subst hquote
    simpa [scan] using Reading.closeQuote (h.plain pending hrest)
  · simpa [scan, hquote] using Reading.literal hquote (h.quoted (c :: pending) hrest)

end ReadsUpTo

theorem readsUpTo (n : Nat) : ReadsUpTo n := by
  -- The induction is on the length, because one step can read a run of any length.
  induction n with
  | zero =>
    intro pending text htext
    cases text with
    | nil => simpa [scan] using And.intro (Reading.finish pending .plain) (.finish pending .quoted)
    | cons c rest => simp at htext
  | succ n ih =>
    intro pending text htext
    cases text with
    | nil => simpa [scan] using And.intro (Reading.finish pending .plain) (.finish pending .quoted)
    | cons c rest =>
      have hrest : rest.length ≤ n := by simpa using htext
      exact ⟨ih.reading_cons pending c hrest, ih.reading_quoted_cons pending c hrest⟩

/-- The tokens of a text come from a reading of it. -/
theorem reading_tokenize (text : Text) : Reading [] .plain text (tokenize text) :=
  (readsUpTo text.length).plain [] (Nat.le_refl _)

end Depfile.Token
