import Depfile.Proofs.Token.Machine

/-!
# Whitespace between texts

Whitespace outside of quotes ends a token unless a colon follows, and once the machine has read some
of it, reading more makes no difference (`Machine.run_spaces`). So whitespace runs can be exchanged
for one another, and what stands behind one is read as if nothing stood in front of it
(`tokenize_spaces`). A continued line ends like any other one, except where a token could still
become a target: the backslash comes between it and its colon (`tokenize_continuation`).
-/

namespace Depfile.Token

variable {front back spaces : Text} {c : Char}

namespace Machine

variable {machine : Machine} {given : List Text} {pending : Text}

/-! ## Whitespace -/

/-- The machine after whitespace: a token is kept back, because a colon can still follow. -/
def settle (machine : Machine) : Machine :=
  match machine.mode with
  | .gap => machine
  | .driveColon => (machine.collect ':').giveOut
  | _ =>
    if Text.isBlank machine.pending then
      machine.giveOut
    else
      { machine with mode := .gap }

theorem read_of_isSpace (machine : Machine) (hc : Text.isSpace c = true) :
    machine.read c =
      if Text.isBlank machine.pending then machine.giveOut else { machine with mode := .gap } := by
  simp [read, hc, ne_of_isSpace hc]

theorem step_space (hopen : machine.IsOpen) (hc : Text.isSpace c = true) :
    machine.step c = machine.settle := by
  have hne := ne_of_isSpace hc
  have hdollar := ne_dollar_of_isSpace hc
  cases hmode : machine.mode with
  | quoted => exact absurd hmode hopen.1
  | backslash => exact absurd hmode hopen.2
  | normal => simp [step, settle, hmode, read_of_isSpace machine hc]
  | dollar => simp [step, settle, hmode, hdollar, read_of_isSpace machine hc]
  | gap => simp [step, settle, hmode, hc]
  | driveColon =>
    -- The colon has ended the token, so there is nothing in front of the whitespace any more.
    simp [step, settle, hmode, hne, read_of_isSpace _ hc, giveOut, Text.isBlank, emit_nil]

/-- Whitespace leaves a token that waits for its colon, or nothing at all. -/
theorem settle_cases (hopen : machine.IsOpen) :
    machine.settle = ⟨machine.finish, [], .normal⟩ ∨
      ∃ given pending, machine.settle = ⟨given, pending, .gap⟩ ∧
        machine.finish = given ++ emit pending := by
  rcases machine with ⟨given, pending, mode⟩
  cases mode with
  | quoted => exact absurd rfl hopen.1
  | backslash => exact absurd rfl hopen.2
  | gap => exact .inr ⟨given, pending, rfl, rfl⟩
  | driveColon => exact .inl rfl
  | normal | dollar =>
    by_cases hblank : Text.isBlank pending = true
    · exact .inl (by simp [settle, finish, giveOut, hblank])
    · exact .inr ⟨given, pending, by simp [settle, hblank], rfl⟩

theorem isOpen_settle (hopen : machine.IsOpen) : machine.settle.IsOpen := by
  rcases settle_cases hopen with hsettle | ⟨given, pending, hsettle, _⟩ <;>
    simp [hsettle, IsOpen]

theorem settle_settle (hopen : machine.IsOpen) : machine.settle.settle = machine.settle := by
  rcases settle_cases hopen with hsettle | ⟨given, pending, hsettle, _⟩
  · rw [hsettle]
    simp [settle, giveOut, Text.isBlank, emit_nil]
  · rw [hsettle]
    rfl

/-- However much whitespace there is, the first of it does everything. -/
theorem run_spaces (hopen : machine.IsOpen) (hne : spaces ≠ [])
    (hspaces : ∀ c ∈ spaces, Text.isSpace c = true) : machine.run spaces = machine.settle := by
  induction spaces generalizing machine with
  | nil => exact absurd rfl hne
  | cons c spaces ih =>
    have hfirst := step_space hopen (hspaces c (by simp))
    by_cases hnil : spaces = []
    · simpa [hnil] using hfirst
    · have hothers : ∀ d ∈ spaces, Text.isSpace d = true := fun d hd => hspaces d (by simp [hd])
      rw [run_cons, hfirst, ih (isOpen_settle hopen) hnil hothers, settle_settle hopen]

/-! ## Behind whitespace -/

/-- A token that waits for its colon gets it, or it is given out by anything else. -/
theorem finish_run_gap (given : List Text) (pending back : Text) :
    (run ⟨given, pending, .gap⟩ back).finish =
      given ++ emit (if colonFollows back then ':' :: pending else pending) ++ tokenize back := by
  have hnil : Text.isBlank [] = true := rfl
  -- Whitespace changes neither side. What comes first after it decides.
  induction back with
  | nil => simp [finish, giveOut, colonFollows, tokenize, scan, emit_nil]
  | cons c back ih =>
    by_cases hcolon : c = ':'
    · subst hcolon
      have hfollows : colonFollows (':' :: back) = true := rfl
      have hspace : Text.isSpace ':' = false := rfl
      have hscan : tokenize (':' :: back) = tokenize back := scan_colon_of_isBlank hnil
      have hread : (run ⟨given ++ emit (':' :: pending), [], .normal⟩ back).finish =
          given ++ emit (':' :: pending) ++ tokenize back := finish_run _ [] back
      simpa [step, collect, giveOut, hspace, hfollows, hscan] using hread
    by_cases hc : Text.isSpace c = true
    · have hfollows : colonFollows (c :: back) = colonFollows back := by
        simp [colonFollows, hcolon, hc]
      have hscan : tokenize (c :: back) = tokenize back := scan_space_of_isBlank hc hnil
      simpa [step, hc, hfollows, hscan] using ih
    · have hfollows : colonFollows (c :: back) = false := by simp [colonFollows, hcolon, hc]
      have hread := (agrees back).read ⟨given ++ emit pending, [], .normal⟩ c
      simpa [step, hc, hcolon, hfollows, giveOut, tokenize] using hread

/-- Behind whitespace a text is read as from the start. -/
theorem finish_run_settle (hopen : machine.IsOpen) (hback : colonFollows back = false) :
    (machine.settle.run back).finish = machine.finish ++ tokenize back := by
  rcases settle_cases hopen with hsettle | ⟨given, pending, hsettle, hfinish⟩
  · rw [hsettle]
    exact finish_run machine.finish [] back
  · rw [hsettle, hfinish, finish_run_gap]
    simp [hback]

/-! ## Continued lines -/

/-- A token is complete but for a colon that can still follow, or a colon is complete but for the
path that can still follow on its drive. -/
def AwaitsColon (machine : Machine) : Prop :=
  machine.mode = .gap ∨ machine.mode = .driveColon

/-- This can only be behind whitespace or a colon. -/
theorem awaitsColon_step (hawaits : (machine.step c).AwaitsColon) :
    Text.isSpace c = true ∨ c = ':' := by
  have hread : ∀ other : Machine, (other.read c).AwaitsColon → Text.isSpace c = true ∨ c = ':' := by
    grind [AwaitsColon, read, collect, giveOut]
  cases hmode : machine.mode <;> grind [step, AwaitsColon, collect, giveOut]

/-- Elsewhere a continued line is the whitespace that it ends in. -/
theorem step_continuation (hopen : machine.IsOpen) (hawaits : ¬machine.AwaitsColon) :
    (machine.step '\\').step '\n' = machine.settle := by
  have hline : Text.isSpace '\n' = true := rfl
  have hprotected : isProtected '\n' = false := by decide
  have hread : machine.read '\\' = { machine with mode := .backslash } := by
    simp [read, Text.isSpace]
  cases hmode : machine.mode with
  | quoted => exact absurd hmode hopen.1
  | backslash => exact absurd hmode hopen.2
  | gap => exact absurd (.inl hmode) hawaits
  | driveColon => exact absurd (.inr hmode) hawaits
  | normal | dollar =>
    simp [step, settle, hmode, hread, hprotected, read_of_isSpace _ hline, giveOut]

/-- The backslash comes between a token and its colon, so the token is given out without it. -/
theorem step_continuation_gap (given : List Text) (pending : Text) :
    (step ⟨given, pending, .gap⟩ '\\').step '\n' = ⟨given ++ emit pending, [], .normal⟩ := by
  have hprotected : isProtected '\n' = false := by decide
  simp [step, read, giveOut, Text.isSpace, Text.isBlank, hprotected, emit_nil]

/-- The backslash is taken for the start of a path, so the colon becomes part of the token. -/
theorem step_continuation_driveColon (given : List Text) (pending : Text) :
    (step ⟨given, pending, .driveColon⟩ '\\').step '\n' = ⟨given, ':' :: pending, .gap⟩ := by
  have hprotected : isProtected '\n' = false := by decide
  simp [step, read, collect, Text.isSpace, Text.isBlank, hprotected]

/-- Where no colon follows, a continued line separates like whitespace. -/
theorem finish_run_continuation (hopen : machine.IsOpen) (hback : colonFollows back = false) :
    (((machine.step '\\').step '\n').run back).finish = machine.finish ++ tokenize back := by
  rcases machine with ⟨given, pending, mode⟩
  cases mode with
  | quoted => exact absurd rfl hopen.1
  | backslash => exact absurd rfl hopen.2
  | normal | dollar =>
    rw [step_continuation hopen (by simp [AwaitsColon])]
    exact finish_run_settle hopen hback
  | gap =>
    -- The token is given out one character earlier than behind whitespace, which nothing shows.
    rw [step_continuation_gap]
    exact finish_run (given ++ emit pending) [] back
  | driveColon =>
    -- The token keeps the colon as part of its name and is given out with it all the same.
    rw [step_continuation_driveColon, finish_run_gap]
    simp [hback, finish, collect, giveOut]

/-- A colon always shows. -/
theorem emit_colon_ne (pending : Text) : emit (':' :: pending) ≠ emit pending := by
  have hcolon : Text.isBlank (':' :: pending) = false := by simp [Text.isBlank, Text.isSpace]
  by_cases hblank : Text.isBlank pending = true <;> simp [emit, hcolon, hblank]

/-- Where a colon follows, the token that awaits it gets it behind a line feed. Behind a continued
line it does not, or it gets another one. -/
theorem finish_run_continuation_ne (hawaits : machine.AwaitsColon)
    (hback : colonFollows back = true) :
    (((machine.step '\\').step '\n').run back).finish ≠ ((machine.step '\n').run back).finish := by
  rcases machine with ⟨given, pending, mode⟩
  intro heq
  -- Both ways give out the same tokens first and go on alike behind the next one.
  rcases hawaits with hmode | hmode <;> simp only at hmode <;> subst hmode
  · have hline : step ⟨given, pending, .gap⟩ '\n' = ⟨given, pending, .gap⟩ := rfl
    rw [step_continuation_gap, finish_run, hline, finish_run_gap, List.append_assoc] at heq
    have hemit : emit pending = emit (':' :: pending) := by
      simpa [hback, tokenize] using heq
    exact emit_colon_ne pending hemit.symm
  · have hline : step ⟨given, pending, .driveColon⟩ '\n' =
        ⟨given ++ emit (':' :: pending), [], .normal⟩ := by
      simp [step, read, collect, giveOut, Text.isSpace, Text.isBlank, emit_nil]
    rw [step_continuation_driveColon, finish_run_gap, hline, finish_run, List.append_assoc] at heq
    have hemit : emit (':' :: ':' :: pending) = emit (':' :: pending) := by
      simpa [hback, tokenize] using heq
    exact emit_colon_ne (':' :: pending) hemit

end Machine

/-! ## Tokens -/

/-- The first character that is not whitespace decides whether a colon follows. -/
theorem colonFollows_iff {text : Text} :
    colonFollows text = true ↔ text.find? (fun c => !Text.isSpace c) = some ':' := by
  induction text with
  | nil => simp [colonFollows]
  | cons c text ih =>
    by_cases hcolon : c = ':'
    · simp [colonFollows, hcolon, Text.isSpace]
    · by_cases hc : Text.isSpace c = true <;> simp [colonFollows, hcolon, hc, ih]

/-- Behind a text whose quotes are closed and that does not end in a backslash, it does not matter
which whitespace there is and how much. What comes after it is read on its own, unless it starts
with a colon, which would be the colon of a token in front. -/
theorem tokenize_spaces {spaces' : Text} (hquotes : front.count '"' % 2 = 0)
    (hlast : front.getLast? ≠ some '\\') (hne : spaces ≠ [])
    (hspaces : ∀ c ∈ spaces, Text.isSpace c = true) (hne' : spaces' ≠ [])
    (hspaces' : ∀ c ∈ spaces', Text.isSpace c = true) :
    tokenize (front ++ spaces ++ back) = tokenize (front ++ spaces' ++ back) ∧
      (back.find? (fun c => !Text.isSpace c) ≠ some ':' →
        tokenize (front ++ spaces ++ back) = tokenize front ++ tokenize back) := by
  have hopen := Machine.isOpen_after hquotes hlast
  have hread : ∀ run, run ≠ [] → (∀ c ∈ run, Text.isSpace c = true) →
      tokenize (front ++ run ++ back) = ((Machine.after front).settle.run back).finish := by
    intro run hrun hall
    rw [List.append_assoc, Machine.tokenize_append, Machine.run_append,
      Machine.run_spaces hopen hrun hall]
  refine ⟨(hread spaces hne hspaces).trans (hread spaces' hne' hspaces').symm, ?_⟩
  intro hcolon
  have hback : colonFollows back = false := by
    apply Bool.eq_false_iff.2
    intro hfollows
    exact hcolon (colonFollows_iff.1 hfollows)
  rw [hread spaces hne hspaces, Machine.finish_run_settle hopen hback, Machine.tokenize_eq front]

theorem tokenize_spaces_driveColon :
    tokenize ['c', ':', ' ', '/', 'x'] = tokenize ['c', ':', '\r', '\n', '/', 'x'] ∧
      tokenize ['c', ':', ' ', '/', 'x'] = tokenize ['c', ':'] ++ tokenize ['/', 'x'] := by
  have hspaces := @tokenize_spaces ['c', ':'] ['/', 'x'] [' '] ['\r', '\n'] (by decide)
    (by decide) (by decide) (by simp [Text.isSpace]) (by decide) (by simp [Text.isSpace])
  exact ⟨hspaces.1, hspaces.2 (by decide)⟩

/-- A continued line reads like the line feed in it, with one exception: a colon follows, and the
text in front ends in whitespace behind a token that the colon would make a target, or in a colon
that can belong to a drive letter. -/
theorem tokenize_continuation (hquotes : front.count '"' % 2 = 0)
    (hlast : front.getLast? ≠ some '\\') :
    tokenize (front ++ '\\' :: '\n' :: back) = tokenize (front ++ '\n' :: back) ↔
      ¬((Machine.after front).AwaitsColon ∧
        back.find? (fun c => !Text.isSpace c) = some ':') := by
  have hopen := Machine.isOpen_after hquotes hlast
  have hspace : Text.isSpace '\n' = true := rfl
  rw [Machine.tokenize_append, Machine.tokenize_append, Machine.run_cons, Machine.run_cons,
    Machine.run_cons, ← colonFollows_iff]
  by_cases hback : colonFollows back = true
  -- Only in front of a colon does it matter whether one is awaited.
  · by_cases hawaits : (Machine.after front).AwaitsColon
    · simp [Machine.finish_run_continuation_ne hawaits hback, hawaits, hback]
    · rw [Machine.step_continuation hopen hawaits, Machine.step_space hopen hspace]
      simp [hawaits]
  · have hnone : colonFollows back = false := by simpa using hback
    rw [Machine.step_space hopen hspace, Machine.finish_run_continuation hopen hnone,
      Machine.finish_run_settle hopen hnone]
    simp [hnone]

theorem tokenize_continuation_colonless :
    tokenize ['x', ' ', '\\', '\n', 'y', ':'] = tokenize ['x', ' ', '\n', 'y', ':'] := by
  have hcontinuation := @tokenize_continuation ['x', ' '] ['y', ':'] (by decide) (by decide)
  exact hcontinuation.2 (fun h => absurd h.2 (by decide))

/-- Behind the space the colon belongs to nothing, and behind the drive letter's colon it follows a
token that has got one already. -/
theorem tokenize_continuation_colon :
    (['x', ' '].count '"' % 2 = 0 ∧ ['x', ' '].getLast? ≠ some '\\' ∧
      tokenize (['x', ' '] ++ '\\' :: '\n' :: [':']) = [['x']] ∧
      tokenize (['x', ' '] ++ '\n' :: [':']) = [['x', ':']]) ∧
    (['c', ':'].count '"' % 2 = 0 ∧ ['c', ':'].getLast? ≠ some '\\' ∧
      tokenize (['c', ':'] ++ '\\' :: '\n' :: [':']) = [['c', ':', ':']] ∧
      tokenize (['c', ':'] ++ '\n' :: [':']) = [['c', ':']]) := by
  decide

end Depfile.Token
