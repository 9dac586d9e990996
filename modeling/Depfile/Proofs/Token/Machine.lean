import Depfile.Proofs.Token.Scan

/-!
# Reading one character at a time

The scanner looks ahead in several places. A machine need not: it is fed a text character by
character, and where the scanner looks ahead it remembers what is still undecided. It gives the same
tokens (`finish_run`), so two texts are read alike as soon as they bring the machine to the same
state, and a text can be cut in two anywhere (`tokenize_append`).

* `Machine`, `Machine.step`, `Machine.finish`: the machine;
* `Machine.Agrees`: what each of its modes stands for in the scanner;
* `Machine.isPrefix_given_step`: a token that has been given out stays, whatever comes next, and so
  the machine has part of the tokens already before the end (`tokenize_eq_foldl_step`);
* `Machine.isOpen_after`: a text whose quotes are closed and that does not end in a backslash leaves
  the next character open to any meaning.
-/

namespace Depfile.Token

/-- What is undecided between two characters of a text. -/
inductive Machine.Mode where
  | normal
  /-- Between double quotes. -/
  | quoted
  /-- Behind a backslash, which has not been collected. -/
  | backslash
  /-- Behind a dollar sign, which has been collected. -/
  | dollar
  /-- In whitespace behind a token, which a colon would make a target. -/
  | gap
  /-- Behind a colon that can belong to a drive letter. -/
  | driveColon
deriving DecidableEq, Repr

/-- The tokens that have been given out, the token being collected with its last character first,
and what is undecided. -/
structure Machine where
  given : List Text
  pending : Text
  mode : Machine.Mode
deriving DecidableEq, Repr

namespace Machine

/-- Collect a character. -/
def collect (c : Char) (machine : Machine) : Machine :=
  ⟨machine.given, c :: machine.pending, .normal⟩

/-- Give out the token being collected, if it is not blank. -/
def giveOut (machine : Machine) : Machine :=
  ⟨machine.given ++ emit machine.pending, [], .normal⟩

/-- Read a character for what it is. -/
def read (machine : Machine) (c : Char) : Machine :=
  if c = ':' then
    if isDrive machine.pending then
      { machine with mode := .driveColon }
    else if Text.isBlank machine.pending then
      machine.giveOut
    else
      (machine.collect ':').giveOut
  else if Text.isSpace c then
    if Text.isBlank machine.pending then
      machine.giveOut
    else
      { machine with mode := .gap }
  else if c = '\\' then
    { machine with mode := .backslash }
  else if c = '$' then
    { machine.collect c with mode := .dollar }
  else if c = '"' then
    { machine with mode := .quoted }
  else
    machine.collect c

/-- Read a character, which first decides what the mode has left open. -/
def step (machine : Machine) (c : Char) : Machine :=
  match machine.mode with
  | .normal => machine.read c
  | .quoted =>
    if c = '"' then
      { machine with mode := .normal }
    else
      { machine.collect c with mode := .quoted }
  | .backslash =>
    if isProtected c then
      machine.collect c
    else if c = '\n' then
      machine.read c
    else
      (machine.collect '\\').read c
  | .dollar =>
    if c = '$' then
      { machine with mode := .normal }
    else
      machine.read c
  | .gap =>
    if Text.isSpace c then
      machine
    else if c = ':' then
      (machine.collect ':').giveOut
    else
      machine.giveOut.read c
  | .driveColon =>
    if c = '/' || c = '\\' then
      (machine.collect ':').read c
    else
      (machine.collect ':').giveOut.read c

/-- The tokens when the text has come to its end. -/
def finish (machine : Machine) : List Text :=
  match machine.mode with
  | .backslash => (machine.collect '\\').giveOut.given
  | .driveColon => (machine.collect ':').giveOut.given
  | _ => machine.giveOut.given

/-- Read a text. -/
def run (machine : Machine) (text : Text) : Machine :=
  text.foldl step machine

/-- The machine after it has read a text from the start. -/
def after (text : Text) : Machine :=
  run ⟨[], [], .normal⟩ text

variable {machine : Machine} {given : List Text} {pending text rest : Text} {c : Char}

@[simp]
theorem run_nil (machine : Machine) : machine.run [] = machine := rfl

@[simp]
theorem run_cons (machine : Machine) (c : Char) (rest : Text) :
    machine.run (c :: rest) = (machine.step c).run rest := rfl

theorem run_append (machine : Machine) (front back : Text) :
    machine.run (front ++ back) = (machine.run front).run back := by
  simp [run]

theorem after_append (front back : Text) : after (front ++ back) = (after front).run back :=
  run_append _ front back

/-! ## The machine and the scanner -/

/-- How the machine goes on from each mode, told by the scanner. A character that is undecided is
put back in front of the text. -/
structure Agrees (text : Text) : Prop where
  normal : ∀ given pending,
    (run ⟨given, pending, .normal⟩ text).finish = given ++ scan pending .plain text
  quoted : ∀ given pending,
    (run ⟨given, pending, .quoted⟩ text).finish = given ++ scan pending .quoted text
  backslash : ∀ given pending,
    (run ⟨given, pending, .backslash⟩ text).finish = given ++ scan pending .plain ('\\' :: text)
  dollar : ∀ given pending,
    (run ⟨given, '$' :: pending, .dollar⟩ text).finish = given ++ scan pending .plain ('$' :: text)
  gap : ∀ given pending, Text.isBlank pending = false →
    (run ⟨given, pending, .gap⟩ text).finish = given ++ scan pending .plain (' ' :: text)
  driveColon : ∀ given pending, isDrive pending = true →
    (run ⟨given, pending, .driveColon⟩ text).finish = given ++ scan pending .plain (':' :: text)

namespace Agrees

theorem read_colon (h : Agrees rest) (machine : Machine) :
    ((machine.read ':').run rest).finish =
      machine.given ++ scan machine.pending .plain (':' :: rest) := by
  rcases machine with ⟨given, pending, mode⟩
  -- A colon is kept for a drive, means nothing in front of a target, or ends one.
  by_cases hdrive : isDrive pending = true
  · simpa [Machine.read, hdrive] using h.driveColon given pending hdrive
  by_cases hblank : Text.isBlank pending = true
  · have hread : Machine.read ⟨given, pending, mode⟩ ':' = ⟨given, [], .normal⟩ := by
      simp [Machine.read, giveOut, hdrive, hblank, emit_of_isBlank]
    rw [hread, scan_colon_of_isBlank hblank]
    exact h.normal given []
  · have hread : Machine.read ⟨given, pending, mode⟩ ':' =
        ⟨given ++ emit (':' :: pending), [], .normal⟩ := by
      simp [Machine.read, collect, giveOut, hdrive, hblank]
    have hpending : Text.isBlank pending = false := by simpa using hblank
    rw [hread, scan_colon_of_not_drive hpending (by simp [hdrive]), h.normal, List.append_assoc]

theorem read_space (h : Agrees rest) (machine : Machine) (hc : Text.isSpace c = true) :
    ((machine.read c).run rest).finish =
      machine.given ++ scan machine.pending .plain (c :: rest) := by
  rcases machine with ⟨given, pending, mode⟩
  have hcolon := (ne_of_isSpace hc).1
  by_cases hblank : Text.isBlank pending = true
  · have hread : Machine.read ⟨given, pending, mode⟩ c = ⟨given, [], .normal⟩ := by
      simp [Machine.read, giveOut, hcolon, hc, hblank, emit_of_isBlank]
    rw [hread, scan_space_of_isBlank hc hblank]
    exact h.normal given []
  · have hread : Machine.read ⟨given, pending, mode⟩ c = ⟨given, pending, .gap⟩ := by
      simp [Machine.read, hcolon, hc, hblank]
    have hspace : Text.isSpace ' ' = true := rfl
    rw [hread, scan_space_eq pending rest hc hspace]
    exact h.gap given pending (by simpa using hblank)

/-- The machine reads a character like the scanner, if they agree on the rest of the text. -/
theorem read (h : Agrees rest) (machine : Machine) (c : Char) :
    ((machine.read c).run rest).finish =
      machine.given ++ scan machine.pending .plain (c :: rest) := by
  by_cases hcolon : c = ':'
  · subst hcolon
    exact h.read_colon machine
  by_cases hspace : Text.isSpace c = true
  · exact h.read_space machine hspace
  by_cases hbackslash : c = '\\'
  · subst hbackslash
    exact h.backslash machine.given machine.pending
  by_cases hdollar : c = '$'
  · subst hdollar
    exact h.dollar machine.given machine.pending
  by_cases hquote : c = '"'
  · subst hquote
    rw [scan_quote]
    exact h.quoted machine.given machine.pending
  -- Nothing is left that has a meaning of its own.
  have hread : machine.read c = machine.collect c := by
    simp [Machine.read, hcolon, hspace, hbackslash, hdollar, hquote]
  have hscan := scan_ordinary machine.pending rest (by simpa using hspace)
    ⟨hcolon, hbackslash, hdollar, hquote⟩
  rw [hread, hscan]
  exact h.normal machine.given (c :: machine.pending)

/-! ### One more character -/

theorem quoted_cons (h : Agrees rest) (given : List Text) (pending : Text) (c : Char) :
    (run ⟨given, pending, .quoted⟩ (c :: rest)).finish =
      given ++ scan pending .quoted (c :: rest) := by
  by_cases hquote : c = '"'
  · simpa [step, scan, hquote] using h.normal given pending
  · simpa [step, collect, scan, hquote] using h.quoted given (c :: pending)

theorem backslash_cons (h : Agrees rest) (given : List Text) (pending : Text) (c : Char) :
    (run ⟨given, pending, .backslash⟩ (c :: rest)).finish =
      given ++ scan pending .plain ('\\' :: c :: rest) := by
  by_cases hprotected : isProtected c = true
  · simpa [step, collect, hprotected, scan_protected] using h.normal given (c :: pending)
  by_cases hline : c = '\n'
  · -- Reading the line feed does not depend on the mode, so the backslash is just forgotten.
    subst hline
    rw [scan_continuation]
    exact h.read ⟨given, pending, .backslash⟩ '\n'
  · have hscan := scan_backslash pending rest (by simpa using hprotected) hline
    simpa [step, collect, hprotected, hline, hscan] using
      h.read ⟨given, '\\' :: pending, .normal⟩ c

theorem dollar_cons (h : Agrees rest) (given : List Text) (pending : Text) (c : Char) :
    (run ⟨given, '$' :: pending, .dollar⟩ (c :: rest)).finish =
      given ++ scan pending .plain ('$' :: c :: rest) := by
  by_cases hdollar : c = '$'
  · simpa [step, hdollar, scan_dollars] using h.normal given ('$' :: pending)
  · have hscan : scan pending .plain ('$' :: c :: rest) =
        scan ('$' :: pending) .plain (c :: rest) := scan_dollar pending (by simpa using hdollar)
    simpa [step, hdollar, hscan] using h.read ⟨given, '$' :: pending, .dollar⟩ c

theorem gap_cons (h : Agrees rest) (given : List Text) (c : Char)
    (hpending : Text.isBlank pending = false) :
    (run ⟨given, pending, .gap⟩ (c :: rest)).finish =
      given ++ scan pending .plain (' ' :: c :: rest) := by
  have hspace : Text.isSpace ' ' = true := rfl
  by_cases hc : Text.isSpace c = true
  · simpa [step, hc, scan_space_space hpending hspace hc] using h.gap given pending hpending
  by_cases hcolon : c = ':'
  · subst hcolon
    simpa [step, collect, giveOut, hc, scan_space_colon hpending hspace] using
      h.normal (given ++ emit (':' :: pending)) []
  · -- No colon comes any more, so the token in front of the whitespace is complete.
    have hrest : colonFollows (c :: rest) = false := by simp [colonFollows, hcolon, hc]
    have hread := h.read ⟨given ++ emit pending, [], .normal⟩ c
    simpa [step, giveOut, hcolon, hc, scan_space pending hspace hrest] using hread

theorem driveColon_cons (h : Agrees rest) (given : List Text) (c : Char)
    (hpending : isDrive pending = true) :
    (run ⟨given, pending, .driveColon⟩ (c :: rest)).finish =
      given ++ scan pending .plain (':' :: c :: rest) := by
  by_cases hslash : slashFollows (c :: rest) = true
  · have hc : c = '/' ∨ c = '\\' := by simpa [slashFollows] using hslash
    simpa [step, collect, hc, scan_driveColon hpending hslash] using
      h.read ⟨given, ':' :: pending, .normal⟩ c
  · have hc : ¬(c = '/' ∨ c = '\\') := by simpa [slashFollows] using hslash
    have hscan := scan_colon (isBlank_of_isDrive hpending) (by simpa using hslash)
    simpa [step, collect, giveOut, hc, hscan] using
      h.read ⟨given ++ emit (':' :: pending), [], .normal⟩ c

end Agrees

/-- Nothing is undecided when the text has come to its end. -/
theorem agrees_nil : Agrees [] where
  normal given pending := rfl
  quoted given pending := rfl
  backslash given pending := rfl
  dollar given pending := rfl
  gap given pending _ := by
    have hspace : Text.isSpace ' ' = true := rfl
    have hend : colonFollows [] = false := rfl
    rw [scan_space pending hspace hend]
    simp [finish, giveOut, scan, emit_nil]
  driveColon given pending hpending := by
    have hend : slashFollows [] = false := rfl
    rw [scan_colon (isBlank_of_isDrive hpending) hend]
    simp [finish, collect, giveOut, scan, emit_nil]

theorem agrees (text : Text) : Agrees text := by
  -- Each mode goes on in a mode that reads the rest of the text.
  induction text with
  | nil => exact agrees_nil
  | cons c rest ih =>
    exact {
      normal := fun given pending => ih.read ⟨given, pending, .normal⟩ c
      quoted := fun given pending => ih.quoted_cons given pending c
      backslash := fun given pending => ih.backslash_cons given pending c
      dollar := fun given pending => ih.dollar_cons given pending c
      gap := fun given _ hpending => ih.gap_cons given c hpending
      driveColon := fun given _ hpending => ih.driveColon_cons given c hpending }

/-- The machine gives the tokens of the scanner, from wherever it starts to look at characters for
what they are. -/
theorem finish_run (given : List Text) (pending text : Text) :
    (run ⟨given, pending, .normal⟩ text).finish = given ++ scan pending .plain text :=
  (agrees text).normal given pending

theorem tokenize_eq (text : Text) : tokenize text = (after text).finish :=
  (finish_run [] [] text).symm

/-- A text can be cut in two anywhere. All that is needed of the front part is the state in which it
leaves the machine. -/
theorem tokenize_append (front back : Text) :
    tokenize (front ++ back) = ((after front).run back).finish := by
  rw [tokenize_eq, after_append]

/-! ## Tokens that have been given out -/

theorem isPrefix_given_giveOut (machine : Machine) : machine.given <+: machine.giveOut.given :=
  List.prefix_append _ _

theorem isPrefix_given_collect (machine : Machine) (c : Char) :
    machine.given <+: (machine.collect c).giveOut.given :=
  isPrefix_given_giveOut (machine.collect c)

theorem isPrefix_given_read (machine : Machine) (c : Char) :
    machine.given <+: (machine.read c).given := by
  have hgiven := isPrefix_given_giveOut machine
  have htarget := isPrefix_given_collect machine ':'
  grind [read, collect]

/-- A character can add tokens, but it takes none back. -/
theorem isPrefix_given_step (machine : Machine) (c : Char) :
    machine.given <+: (machine.step c).given := by
  have hread := isPrefix_given_read machine c
  cases hmode : machine.mode with
  | normal => simpa [step, hmode] using hread
  | quoted => by_cases hquote : c = '"' <;> simp [step, hmode, hquote, collect]
  | backslash =>
    have hkept := isPrefix_given_read (machine.collect '\\') c
    grind [step, collect]
  | dollar => by_cases hdollar : c = '$' <;> simp [step, hmode, hdollar, hread]
  | gap =>
    -- What is decided gives a token out, and the character is read behind it.
    have hgiven := (isPrefix_given_giveOut machine).trans (isPrefix_given_read machine.giveOut c)
    have htarget := isPrefix_given_collect machine ':'
    grind [step]
  | driveColon =>
    have hkept := isPrefix_given_read (machine.collect ':') c
    have htarget := (isPrefix_given_collect machine ':').trans
      (isPrefix_given_read (machine.collect ':').giveOut c)
    grind [step, collect]

theorem isPrefix_given_run (machine : Machine) (text : Text) :
    machine.given <+: (machine.run text).given := by
  induction text generalizing machine with
  | nil => exact List.prefix_rfl
  | cons c rest ih => exact (isPrefix_given_step machine c).trans (ih (machine.step c))

theorem isPrefix_given_finish (machine : Machine) : machine.given <+: machine.finish := by
  cases hmode : machine.mode with
  | driveColon => simpa [finish, hmode] using isPrefix_given_collect machine ':'
  | backslash => simpa [finish, hmode] using isPrefix_given_collect machine '\\'
  | normal | quoted | dollar | gap =>
    simpa [finish, hmode] using isPrefix_given_giveOut machine

/-! ## Where a text leaves the machine -/

theorem mode_read_eq_quoted_iff : (machine.read c).mode = .quoted ↔ c = '"' := by
  grind [read, collect, giveOut, Text.isSpace]

theorem mode_read_eq_backslash_iff : (machine.read c).mode = .backslash ↔ c = '\\' := by
  grind [read, collect, giveOut, Text.isSpace]

/-- Only a double quote leads into quotes and out of them. -/
theorem mode_step_eq_quoted_iff (machine : Machine) (c : Char) :
    (machine.step c).mode = .quoted ↔ ¬(machine.mode = .quoted ↔ c = '"') := by
  -- A mode with something undecided settles that first, and then the character is read.
  cases hmode : machine.mode with
  | normal => simp [step, hmode, mode_read_eq_quoted_iff]
  | quoted => by_cases hquote : c = '"' <;> simp [step, hmode, hquote]
  | backslash => grind [step, collect, isProtected, mode_read_eq_quoted_iff]
  | dollar => grind [step, mode_read_eq_quoted_iff]
  | gap => grind [step, collect, giveOut, Text.isSpace, mode_read_eq_quoted_iff]
  | driveColon => grind [step, mode_read_eq_quoted_iff]

/-- A backslash is undecided unless it is quoted or protected itself. -/
theorem mode_step_eq_backslash_iff (machine : Machine) (c : Char) :
    (machine.step c).mode = .backslash ↔
      machine.mode ≠ .quoted ∧ machine.mode ≠ .backslash ∧ c = '\\' := by
  cases hmode : machine.mode with
  | normal => simp [step, hmode, mode_read_eq_backslash_iff]
  | quoted => by_cases hquote : c = '"' <;> simp [step, hmode, hquote]
  | backslash => grind [step, collect, isProtected, mode_read_eq_backslash_iff]
  | dollar => grind [step, mode_read_eq_backslash_iff]
  | gap => grind [step, collect, giveOut, Text.isSpace, mode_read_eq_backslash_iff]
  | driveColon => grind [step, mode_read_eq_backslash_iff]

theorem mode_run_eq_quoted_iff (machine : Machine) (text : Text) :
    (machine.run text).mode = .quoted ↔ ¬(machine.mode = .quoted ↔ text.count '"' % 2 = 1) := by
  induction text generalizing machine with
  | nil => simp
  | cons c rest ih =>
    rw [run_cons, ih, mode_step_eq_quoted_iff, List.count_cons]
    by_cases hquote : c = '"'
    · have hparity : (rest.count '"' + 1) % 2 = 1 ↔ ¬rest.count '"' % 2 = 1 := by omega
      simp only [hquote, beq_self_eq_true, if_true, hparity, iff_true]
      grind
    · simp [hquote]

theorem mode_after_ne_backslash (h : text.getLast? ≠ some '\\') :
    (after text).mode ≠ .backslash := by
  rcases List.eq_nil_or_concat text with rfl | ⟨front, c, rfl⟩
  · simp [after]
  · have hc : c ≠ '\\' := by simpa using h
    simp [after_append, mode_step_eq_backslash_iff, hc]

/-- The next character is outside of quotes and not protected. -/
def IsOpen (machine : Machine) : Prop :=
  machine.mode ≠ .quoted ∧ machine.mode ≠ .backslash

/-- A text leaves nothing open if its quotes are closed and it does not end in a backslash. -/
theorem isOpen_after (hquotes : text.count '"' % 2 = 0) (hlast : text.getLast? ≠ some '\\') :
    (after text).IsOpen := by
  refine ⟨?_, mode_after_ne_backslash hlast⟩
  rw [Ne, after, mode_run_eq_quoted_iff]
  simp [hquotes]

end Machine

/-- Reading needs no character in advance. The machine, fed the text character by character, has its
tokens in the end, and what it has given out after some of the characters are the first of them. -/
theorem tokenize_eq_foldl_step (text : Text) :
    tokenize text = (text.foldl Machine.step ⟨[], [], .normal⟩).finish ∧
      ∀ n, ((text.take n).foldl Machine.step ⟨[], [], .normal⟩).given <+: tokenize text := by
  refine ⟨Machine.tokenize_eq text, ?_⟩
  intro n
  have hwhole : tokenize text = ((Machine.after (text.take n)).run (text.drop n)).finish := by
    rw [← Machine.tokenize_append, List.take_append_drop]
  have hrun := Machine.isPrefix_given_run (Machine.after (text.take n)) (text.drop n)
  rw [hwhole]
  exact hrun.trans (Machine.isPrefix_given_finish _)

end Depfile.Token
