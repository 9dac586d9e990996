import Mathlib.Data.List.DropRight
import Depfile.Proofs.Token.Separation

/-!
# Carriage returns

Two conventions for the end of a line are in use, a line feed and a carriage return with a line feed
behind it. Both are whitespace, so a line that just ends is read alike under both. A continued line
is not: the backslash has a carriage return behind it and stands for itself, as if it had been
written twice (`Machine.run_withCarriageReturns`). Each such backslash shows in the tokens
(`Machine.count_finish_run`), so exactly the texts that continue no line are read alike under both
conventions (`tokenize_withCarriageReturns`).
-/

namespace Depfile

/-- The text with a carriage return in front of each line feed. -/
def Text.withCarriageReturns (text : Text) : Text :=
  text.flatMap (fun c => if c = '\n' then ['\r', '\n'] else [c])

theorem Text.withCarriageReturns_line (rest : Text) :
    Text.withCarriageReturns ('\n' :: rest) = '\r' :: '\n' :: Text.withCarriageReturns rest := rfl

theorem Text.withCarriageReturns_cons {c : Char} (hc : c ≠ '\n') (rest : Text) :
    Text.withCarriageReturns (c :: rest) = c :: Text.withCarriageReturns rest := by
  simp [Text.withCarriageReturns, hc]

theorem Text.withCarriageReturns_eq_self {text : Text} (h : '\n' ∉ text) :
    text.withCarriageReturns = text := by
  induction text with
  | nil => rfl
  | cons c rest ih =>
    obtain ⟨hc, hrest⟩ : c ≠ '\n' ∧ '\n' ∉ rest := by simpa [eq_comm] using h
    rw [Text.withCarriageReturns_cons hc, ih hrest]

namespace Token

/-- The text with each backslash doubled that continues a line. A backslash in front of the text is
undecided if its meaning depends on what follows it. -/
def doubleContinuations (undecided : Bool) : Text → Text
  | [] => []
  | c :: rest =>
    if undecided && c = '\n' then
      '\\' :: c :: doubleContinuations false rest
    else
      c :: doubleContinuations (!undecided && c = '\\') rest

variable {text front : Text} {c : Char} {undecided : Bool}

/-! ## Doubled backslashes -/

theorem doubleContinuations_cons (rest : Text) (h : ¬(undecided = true ∧ c = '\n')) :
    doubleContinuations undecided (c :: rest) =
      c :: doubleContinuations (!undecided && c = '\\') rest := by
  simp [doubleContinuations, h]

theorem quote_notMem_doubleContinuations (htext : '"' ∉ text) :
    '"' ∉ doubleContinuations undecided text := by
  induction text generalizing undecided with
  | nil => simp [doubleContinuations]
  | cons c rest ih =>
    obtain ⟨hc, hrest⟩ : '"' ≠ c ∧ '"' ∉ rest := by simpa using htext
    by_cases hcontinues : undecided = true ∧ c = '\n'
    · simp [doubleContinuations, hcontinues, ih hrest]
    · simp [doubleContinuations_cons rest hcontinues, hc, ih hrest]

theorem sublist_doubleContinuations (undecided : Bool) (text : Text) :
    text.Sublist (doubleContinuations undecided text) := by
  induction text generalizing undecided with
  | nil => exact List.Sublist.slnil
  | cons c rest ih =>
    by_cases hcontinues : undecided = true ∧ c = '\n'
    · simpa [doubleContinuations, hcontinues] using ((ih false).cons_cons '\n').cons '\\'
    · rw [doubleContinuations_cons rest hcontinues]
      exact (ih _).cons_cons c

/-! ## Kept backslashes -/

/-- Does an undecided backslash stand for a backslash when this is the next character? -/
def keepsBackslash (c : Char) : Bool :=
  c = '\\' || !(isProtected c || c = '\n')

/-- The number of backslashes that come into the tokens of a text without quotes. -/
def keptBackslashes (undecided : Bool) : Text → Nat
  | [] => undecided.toNat
  | c :: rest =>
    (undecided && keepsBackslash c).toNat + keptBackslashes (!undecided && c = '\\') rest

/-- Each backslash that is added is kept, and with it no other one is lost. -/
theorem keptBackslashes_doubleContinuations (undecided : Bool) (text : Text) :
    keptBackslashes undecided (doubleContinuations undecided text) + text.length =
      keptBackslashes undecided text + (doubleContinuations undecided text).length := by
  induction text generalizing undecided with
  | nil => rfl
  | cons c rest ih =>
    by_cases hcontinues : undecided = true ∧ c = '\n'
    · obtain ⟨rfl, rfl⟩ := hcontinues
      have hrest := ih false
      simp [doubleContinuations, keptBackslashes, keepsBackslash, isProtected]
      omega
    · have hrest := ih (!undecided && c = '\\')
      simp only [doubleContinuations_cons rest hcontinues, keptBackslashes, List.length_cons]
      omega

theorem count_emit (pending : Text) : (emit pending).flatten.count '\\' = pending.count '\\' := by
  by_cases hblank : Text.isBlank pending = true
  · have hnone : '\\' ∉ pending := by
      intro hmem
      have hspace := List.all_eq_true.1 hblank '\\' hmem
      cases hspace
    simp [emit, hblank, List.count_eq_zero.2 hnone]
  · simp [emit, hblank]

namespace Machine

variable {machine : Machine}

theorem mode_step_ne_quoted (hmode : machine.mode ≠ .quoted) (hc : c ≠ '"') :
    (machine.step c).mode ≠ .quoted := by
  simp [mode_step_eq_quoted_iff, hmode, hc]

/-- Outside of quotes a backslash becomes undecided if there is no undecided one in front of it. -/
theorem undecided_step (hmode : machine.mode ≠ .quoted) (c : Char) :
    decide ((machine.step c).mode = .backslash) =
      (!decide (machine.mode = .backslash) && decide (c = '\\')) := by
  simp [mode_step_eq_backslash_iff, hmode]

/-! ## Reading carriage returns -/

/-- An undecided backslash is collected in front of a carriage return, as in front of another
backslash. -/
theorem step_carriageReturn_of_backslash (hmode : machine.mode = .backslash) :
    (machine.step '\r').step '\n' = (machine.step '\\').step '\n' := by
  have hreturn : isProtected '\r' = false := by decide
  have hbackslash : isProtected '\\' = true := by decide
  simp [step, hmode, hreturn, hbackslash, collect, read, Text.isSpace, Text.isBlank]

/-- Elsewhere a carriage return has done what the line feed would do. -/
theorem step_carriageReturn_of_isOpen (hopen : machine.IsOpen) :
    (machine.step '\r').step '\n' = machine.step '\n' := by
  rw [step_space hopen rfl, step_space (isOpen_settle hopen) rfl, settle_settle hopen,
    step_space hopen rfl]

/-- The machine comes to the same state, so whatever stands behind the text is read alike, too. -/
theorem run_withCarriageReturns (hmode : machine.mode ≠ .quoted) (htext : '"' ∉ text) :
    machine.run text.withCarriageReturns =
      machine.run (doubleContinuations (machine.mode = .backslash) text) := by
  induction text generalizing machine with
  | nil => rfl
  | cons c rest ih =>
    obtain ⟨hc, hrest⟩ : c ≠ '"' ∧ '"' ∉ rest := by simpa [eq_comm] using htext
    by_cases hline : c = '\n'
    · subst hline
      have hnext : ∀ other : Machine, other.mode ≠ .quoted →
          (other.step '\n').run (Text.withCarriageReturns rest) =
            (other.step '\n').run (doubleContinuations false rest) := by
        intro other hother
        have hstep : (other.step '\n').mode ≠ .quoted := mode_step_ne_quoted hother hc
        simpa [undecided_step hother] using ih hstep hrest
      rw [Text.withCarriageReturns_line, run_cons, run_cons]
      -- Behind the line feed nothing is undecided, whatever stood in front of it.
      by_cases hbackslash : machine.mode = .backslash
      · have hcollected : (machine.step '\\').mode ≠ .quoted :=
          mode_step_ne_quoted hmode (by decide)
        rw [step_carriageReturn_of_backslash hbackslash, hnext _ hcollected]
        simp [doubleContinuations, hbackslash]
      · rw [step_carriageReturn_of_isOpen ⟨hmode, hbackslash⟩, hnext _ hmode]
        simp [doubleContinuations, hbackslash]
    · rw [Text.withCarriageReturns_cons hline, run_cons, ih (mode_step_ne_quoted hmode hc) hrest,
        undecided_step hmode]
      rw [doubleContinuations_cons rest (by simp [hline]), run_cons]

/-! ## Counting backslashes -/

/-- The backslashes that have been collected. -/
def backslashes (machine : Machine) : Nat :=
  machine.given.flatten.count '\\' + machine.pending.count '\\'

theorem backslashes_collect (machine : Machine) (c : Char) :
    (machine.collect c).backslashes = machine.backslashes + if c = '\\' then 1 else 0 := by
  by_cases hc : c = '\\' <;> simp [backslashes, collect, hc, Nat.add_assoc]

theorem backslashes_giveOut (machine : Machine) :
    machine.giveOut.backslashes = machine.backslashes := by
  simp [backslashes, giveOut, count_emit]

theorem backslashes_mode (machine : Machine) (mode : Mode) :
    { machine with mode := mode }.backslashes = machine.backslashes := rfl

/-- A backslash that is read is not collected yet. -/
theorem backslashes_read (machine : Machine) (c : Char) :
    (machine.read c).backslashes = machine.backslashes := by
  grind [read, backslashes_collect, backslashes_giveOut, backslashes_mode]

/-- It is collected when the next character decides that it stands for a backslash. -/
theorem backslashes_step (hmode : machine.mode ≠ .quoted) (c : Char) :
    (machine.step c).backslashes =
      machine.backslashes + (machine.mode = .backslash && keepsBackslash c).toNat := by
  cases hcase : machine.mode with
  | quoted => exact absurd hcase hmode
  | normal => simp [step, hcase, backslashes_read]
  | backslash =>
    grind [step, keepsBackslash, isProtected, backslashes_read, backslashes_collect]
  | dollar => grind [step, backslashes_read, backslashes_mode]
  | gap => grind [step, backslashes_read, backslashes_collect, backslashes_giveOut]
  | driveColon => grind [step, backslashes_read, backslashes_collect, backslashes_giveOut]

theorem count_finish (machine : Machine) :
    machine.finish.flatten.count '\\' =
      machine.backslashes + (decide (machine.mode = .backslash)).toNat := by
  have hgiven : ∀ other : Machine, other.giveOut.given.flatten.count '\\' = other.backslashes := by
    intro other
    simp [giveOut, backslashes, count_emit]
  cases hmode : machine.mode <;> simp [finish, hmode, hgiven, backslashes_collect]

/-- How many backslashes the tokens have depends on the text alone. -/
theorem count_finish_run (hmode : machine.mode ≠ .quoted) (htext : '"' ∉ text) :
    (machine.run text).finish.flatten.count '\\' =
      machine.backslashes + keptBackslashes (machine.mode = .backslash) text := by
  induction text generalizing machine with
  | nil => exact count_finish machine
  | cons c rest ih =>
    obtain ⟨hc, hrest⟩ : c ≠ '"' ∧ '"' ∉ rest := by simpa [eq_comm] using htext
    rw [run_cons, ih (mode_step_ne_quoted hmode hc) hrest, backslashes_step hmode,
      undecided_step hmode, keptBackslashes, Nat.add_assoc]

/-! ## Continued lines -/

/-- A text without quotes leaves a backslash undecided if it ends in an odd number of them. -/
theorem mode_after_eq_backslash_iff (hfront : '"' ∉ front) :
    (after front).mode = .backslash ↔ (front.rtakeWhile (· = '\\')).length % 2 = 1 := by
  -- The last character is read last, so the induction takes it off.
  induction front using List.reverseRecOn with
  | nil => simp [after]
  | append_singleton front c ih =>
    obtain ⟨hrest, hc⟩ : '"' ∉ front ∧ c ≠ '"' := by simpa [eq_comm] using hfront
    have hquoted : (after front).mode ≠ .quoted := by
      rw [Ne, after, mode_run_eq_quoted_iff]
      simp [List.count_eq_zero.2 hrest]
    rw [after_append, run_cons, run_nil, mode_step_eq_backslash_iff, Ne, Ne, ih hrest]
    by_cases hbackslash : c = '\\'
    · rw [List.rtakeWhile_concat_pos _ _ _ (by simpa using hbackslash)]
      simp [hquoted, hbackslash]
      omega
    · rw [List.rtakeWhile_concat_neg _ _ _ (by simpa using hbackslash)]
      simp [hbackslash]

theorem doubleContinuations_eq_iff (hmode : machine.mode ≠ .quoted) (htext : '"' ∉ text) :
    doubleContinuations (machine.mode = .backslash) text = text ↔
      ∀ front back, text = front ++ '\n' :: back → (machine.run front).mode ≠ .backslash := by
  induction text generalizing machine with
  | nil => simp [doubleContinuations]
  | cons c rest ih =>
    obtain ⟨hc, hrest⟩ : c ≠ '"' ∧ '"' ∉ rest := by simpa [eq_comm] using htext
    by_cases hcontinues : machine.mode = .backslash ∧ c = '\n'
    · -- The first character is such a line feed, with nothing in front of it.
      obtain ⟨hbackslash, rfl⟩ := hcontinues
      have hne : doubleContinuations (machine.mode = .backslash) ('\n' :: rest) ≠ '\n' :: rest := by
        simp [doubleContinuations, hbackslash]
      have hfirst : ¬∀ front back, '\n' :: rest = front ++ '\n' :: back →
          (machine.run front).mode ≠ .backslash := fun h => h [] rest rfl hbackslash
      exact iff_of_false hne hfirst
    · have hnext := ih (mode_step_ne_quoted hmode hc) hrest
      rw [undecided_step hmode] at hnext
      rw [doubleContinuations_cons rest (by simpa using hcontinues), List.cons_inj_right, hnext]
      constructor
      · intro h front back heq
        cases front with
        | nil =>
          have hline : c = '\n' := (List.cons.inj heq).1
          exact fun hbackslash => hcontinues ⟨hbackslash, hline⟩
        | cons d front =>
          obtain ⟨rfl, hback⟩ := List.cons.inj heq
          exact h front back hback
      · intro h front back heq
        exact h (c :: front) back (congrArg (c :: ·) heq)

end Machine

/-! ## Tokens -/

theorem count_tokenize (htext : '"' ∉ text) :
    (tokenize text).flatten.count '\\' = keptBackslashes false text := by
  have hcount := @Machine.count_finish_run text ⟨[], [], .normal⟩ (by simp) htext
  rw [Machine.tokenize_eq, Machine.after, hcount]
  simp [Machine.backslashes]

/-- Doubling a backslash that continues a line adds one to the tokens. -/
theorem tokenize_doubleContinuations_eq_iff (htext : '"' ∉ text) :
    tokenize (doubleContinuations false text) = tokenize text ↔
      doubleContinuations false text = text := by
  constructor
  · intro heq
    -- The tokens have as many backslashes, so none has been added to the text.
    have hdoubled : '"' ∉ doubleContinuations false text := quote_notMem_doubleContinuations htext
    have hkept : keptBackslashes false (doubleContinuations false text) =
        keptBackslashes false text := by
      rw [← count_tokenize hdoubled, ← count_tokenize htext, heq]
    have hlength := keptBackslashes_doubleContinuations false text
    exact ((sublist_doubleContinuations false text).eq_of_length (by omega)).symm
  · intro heq
    rw [heq]

/-- Without quotes, a text is read with carriage returns as if each backslash that continues a line
were written twice. It is read alike with and without them exactly if no line ends in an odd number
of backslashes. -/
theorem tokenize_withCarriageReturns (hquotes : '"' ∉ text) :
    tokenize (Text.withCarriageReturns text) = tokenize (doubleContinuations false text) ∧
      (tokenize (Text.withCarriageReturns text) = tokenize text ↔
        ∀ front back, text = front ++ '\n' :: back →
          (front.rtakeWhile (· = '\\')).length % 2 = 0) := by
  have hread : tokenize (Text.withCarriageReturns text) =
      tokenize (doubleContinuations false text) := by
    rw [Machine.tokenize_eq, Machine.tokenize_eq]
    exact congrArg Machine.finish (Machine.run_withCarriageReturns (by simp) hquotes)
  refine ⟨hread, ?_⟩
  rw [hread, tokenize_doubleContinuations_eq_iff hquotes]
  refine (@Machine.doubleContinuations_eq_iff text ⟨[], [], .normal⟩ (by simp) hquotes).trans ?_
  refine forall₃_congr fun front back heq => ?_
  have hfront : '"' ∉ front := fun hmem => hquotes (heq ▸ List.mem_append_left _ hmem)
  have hparity := Machine.mode_after_eq_backslash_iff hfront
  change (Machine.after front).mode ≠ .backslash ↔ _
  rw [Ne, hparity]
  omega

theorem tokenize_withCarriageReturns_continued :
    tokenize ['a', '\\', '\r', '\n', 'b'] = tokenize ['a', '\\', '\\', '\n', 'b'] ∧
      tokenize ['a', '\\', '\r', '\n', 'b'] ≠ tokenize ['a', '\\', '\n', 'b'] := by
  have hread := @tokenize_withCarriageReturns ['a', '\\', '\n', 'b'] (by decide)
  refine ⟨hread.1, ?_⟩
  intro heq
  have heven := hread.2.1 heq ['a', '\\'] ['b'] rfl
  exact absurd heven (by decide)

/-- The backslash in front of a carriage return comes into the token. -/
theorem tokenize_continuation_withCarriageReturn :
    Text.withCarriageReturns ['a', '\\', '\n', 'b'] = ['a', '\\', '\r', '\n', 'b'] ∧
      tokenize ['a', '\\', '\r', '\n', 'b'] = [['a', '\\'], ['b']] ∧
      tokenize ['a', '\\', '\n', 'b'] = [['a'], ['b']] := by
  decide

end Token

end Depfile
