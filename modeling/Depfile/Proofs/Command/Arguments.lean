import Depfile.Proofs.Command.Level

/-!
# Arguments with and without a flag

The arguments after the flag for a dry run are read as they would be without it. Arguments that are
accepted both with and without the flag therefore describe the same task, once as a dry run and
once in earnest (`parse_insert_dryRunFlag`). The flag can be given to all arguments that revise a
file, and taken from all that do so as a dry run (`exists_parse_of_revise`).
-/

namespace Depfile.Command

variable {level next result : Level} {pre post texts : List Text} {text depfile : Text}
  {options : Options}

/-- Settling early makes no difference to what is read. -/
theorem readTask_settled {settled : Level} (h : level.settle = .ok settled)
    (texts : List Text) : readTask settled texts = readTask level texts := by
  cases texts with
  | nil => rw [readTask, readTask, h, Level.settle_of_settled h]
  | cons text texts =>
    rw [readTask, readTask, Level.pushArgument_settled h]
    split
    · cases texts with
      | nil => simp [h, Level.settle_of_settled h]
      | cons first others => simp [Level.pushPositional_settled h]
    · rfl

/-! ## Arguments of a task -/

/-- A task that takes one positional argument gets it once. -/
theorem pushPositional_eq_ok (hscheme : level.scheme = .task .revise)
    (h : level.pushPositional text = .ok next) : level.isTaken = false ∧ next.isTaken = true := by
  rw [Level.pushPositional_eq, hscheme] at h
  by_cases htaken : level.isTaken = true
  · simp [htaken] at h
  · simp only [htaken, Bool.false_and, Bool.false_eq_true, if_false] at h
    rcases exists_of_bind_eq_ok h with ⟨settled, _, ⟨⟩⟩
    exact ⟨by simpa using htaken, rfl⟩

theorem positionals_of_settle (hscheme : level.scheme = .task .revise)
    (htaken : level.isTaken = false) (h : level.settle = .ok next) : next.positionals = [] := by
  have htaken' : next.isTaken = false := by
    rw [Level.isTaken_settled h (by simp [hscheme]), htaken]
  simpa [Level.isTaken, (Level.settled_of_settle h).1] using htaken'

/-- Behind the end of the options the flag is a positional argument like any other one, so that
only one of both is complete. -/
theorem foldlM_insert_dryRunFlag {result' : Level} (hscheme : level.scheme = .task .revise)
    (hpending : level.pending ≠ some .dryRun)
    (h : ((pre ++ post).foldlM (fun level text => level.pushPositional text) level >>=
      Level.settle) = .ok result)
    (hresult : result.positionals ≠ [])
    (h' : ((pre ++ dryRunFlag :: post).foldlM (fun level text => level.pushPositional text) level >>=
      Level.settle) = .ok result') : False := by
  -- Each list is at most one argument long, so the shorter one is empty.
  have hone : ∀ {texts : List Text} {next : Level},
      texts.foldlM (fun level text => level.pushPositional text) level = .ok next →
      texts = [] ∨ level.isTaken = false ∧ ∃ text, texts = [text] := by
    intro texts next hfold
    rcases texts with _ | ⟨first, _ | ⟨second, others⟩⟩
    · exact .inl rfl
    · rcases exists_of_bind_eq_ok hfold with ⟨between, hfirst, _⟩
      exact .inr ⟨(pushPositional_eq_ok hscheme hfirst).1, first, rfl⟩
    · rcases exists_of_bind_eq_ok hfold with ⟨between, hfirst, hothers⟩
      rcases exists_of_bind_eq_ok hothers with ⟨_, hsecond, _⟩
      have hscheme' :=
        ((Level.Blind.pushPositional first level hpending).keeps hfirst).1.trans hscheme
      have htaken := (pushPositional_eq_ok hscheme hfirst).2
      rw [(pushPositional_eq_ok hscheme' hsecond).1] at htaken
      cases htaken
  rcases exists_of_bind_eq_ok h with ⟨between, hfold, hsettle⟩
  rcases exists_of_bind_eq_ok h' with ⟨_, hfold', _⟩
  rcases hone hfold' with hnil | ⟨htaken, text, htext⟩
  · simp at hnil
  · have hempty : pre = [] ∧ post = [] := by
      have hlength := congrArg List.length htext
      simp only [List.length_append, List.length_cons, List.length_nil] at hlength
      exact ⟨List.length_eq_zero_iff.1 (by omega), List.length_eq_zero_iff.1 (by omega)⟩
    rw [hempty.1, hempty.2] at hfold
    cases hfold
    exact hresult (positionals_of_settle hscheme htaken hsettle)

/-! ## Reading with the flag -/

/-- Behind the end of the options the flag is nothing special. -/
theorem blind_readPositionals (texts : List Text) :
    Level.Blind (fun level =>
      texts.foldlM (fun level text => level.pushPositional text) level >>= Level.settle) :=
  (Level.Blind.foldlM_pushPositional texts).bind .settle

theorem dryRun_of_readTask (hpending : level.pending ≠ some .dryRun)
    (h : readTask level texts = .ok result) (hdry : level.dryRun = true) :
    result.dryRun = true := by
  induction texts generalizing level with
  | nil => exact ((Level.Blind.settle level hpending).keeps h).2.1.trans hdry
  | cons text texts ih =>
    rw [readTask] at h
    split at h
    · exact ((blind_readPositionals texts level hpending).keeps h).2.1.trans hdry
    · rcases exists_of_bind_eq_ok h with ⟨between, hbetween, hrest⟩
      rcases keeps_pushArgument hpending hbetween with ⟨_, hpending', hdry'⟩
      exact ih hpending' hrest (hdry' hdry)

/-- Arguments that do not ask for a dry run are read the same way if one has been asked for. -/
theorem readTask_withDryRun (hpending : level.pending ≠ some .dryRun)
    (h : readTask level texts = .ok result) (hdry : result.dryRun = false) :
    readTask level.withDryRun texts = .ok result.withDryRun := by
  induction texts generalizing level with
  | nil =>
    rw [readTask] at h
    rw [readTask, (Level.Blind.settle level hpending).withDryRun, h]
    rfl
  | cons text texts ih =>
    rw [readTask] at h ⊢
    split at h
    · rename_i hend
      have hsame := (blind_readPositionals texts level hpending).withDryRun
      rw [h] at hsame
      rw [if_pos hend]
      exact hsame
    · rename_i hend
      rw [if_neg hend]
      rcases exists_of_bind_eq_ok h with ⟨between, hbetween, hrest⟩
      have hpending' := (keeps_pushArgument hpending hbetween).2.1
      by_cases hflag : text = dryRunFlag
      · subst hflag
        rcases exists_of_pushArgument_dryRunFlag hbetween with ⟨settled, _, _, rfl⟩
        rw [dryRun_of_readTask hpending' hrest rfl] at hdry
        cases hdry
      · rw [(Level.Blind.pushArgument hflag level hpending).withDryRun, hbetween]
        exact ih hpending' hrest

/-- Nothing is read after the flag that would not have been read without it. -/
theorem exists_readTask_of_withDryRun (hpending : level.pending ≠ some .dryRun)
    (h : readTask level.withDryRun texts = .ok result) :
    ∃ plain, readTask level texts = .ok plain ∧ plain.dryRun = level.dryRun ∧
      result = plain.withDryRun := by
  induction texts generalizing level with
  | nil =>
    have hsettle := Level.Blind.settle level hpending
    rcases hsettle.exists_of_withDryRun h with ⟨plain, hplain, hresult⟩
    exact ⟨plain, hplain, (hsettle.keeps hplain).2.1, hresult⟩
  | cons text texts ih =>
    rw [readTask] at h ⊢
    split at h
    · rename_i hend
      have hread := blind_readPositionals texts level hpending
      rcases hread.exists_of_withDryRun h with ⟨plain, hplain, hresult⟩
      rw [if_pos hend]
      exact ⟨plain, hplain, (hread.keeps hplain).2.1, hresult⟩
    · rename_i hend
      rw [if_neg hend]
      rcases exists_of_bind_eq_ok h with ⟨between, hbetween, hrest⟩
      by_cases hflag : text = dryRunFlag
      · -- The flag may not be given twice.
        subst hflag
        rcases exists_of_pushArgument_dryRunFlag hbetween with ⟨settled, hsettled, hnew, _⟩
        rw [((Level.Blind.settle level.withDryRun hpending).keeps hsettled).2.1] at hnew
        cases hnew
      · have hpush := Level.Blind.pushArgument hflag level hpending
        rcases hpush.exists_of_withDryRun hbetween with ⟨plain, hplain, rfl⟩
        rcases hpush.keeps hplain with ⟨_, hdry, hpending'⟩
        rcases ih hpending' hrest with ⟨last, hlast, hdry', hresult⟩
        rw [hplain]
        exact ⟨last, hlast, hdry'.trans hdry, hresult⟩

/-- Read with the flag, the arguments of the task give what they give without it and the flag. -/
theorem readTask_insert_dryRunFlag {result' : Level} (hscheme : level.scheme = .task .revise)
    (hpending : level.pending ≠ some .dryRun) (h : readTask level (pre ++ post) = .ok result)
    (hdry : result.dryRun = false) (hresult : result.positionals ≠ [])
    (h' : readTask level (pre ++ dryRunFlag :: post) = .ok result') :
    result' = result.withDryRun := by
  have hne : dryRunFlag ≠ endOfOptions := by decide
  induction pre generalizing level with
  | nil =>
    simp only [List.nil_append, readTask, hne, if_false] at h h'
    rcases exists_of_bind_eq_ok h' with ⟨flagged, hflag, hflagged⟩
    rcases exists_of_pushArgument_dryRunFlag hflag with ⟨settled, hsettled, _, rfl⟩
    have hpending' := ((Level.Blind.settle level hpending).keeps hsettled).2.2
    rw [← readTask_settled hsettled] at h
    have hsame := hflagged.symm.trans (readTask_withDryRun hpending' h hdry)
    cases hsame
    rfl
  | cons text pre ih =>
    simp only [List.cons_append, readTask] at h h'
    split at h
    · rename_i hend
      rw [if_pos hend] at h'
      exact (foldlM_insert_dryRunFlag hscheme hpending h hresult h').elim
    · rename_i hend
      rw [if_neg hend] at h'
      rcases exists_of_bind_eq_ok h with ⟨between, hbetween, hrest⟩
      rcases exists_of_bind_eq_ok h' with ⟨between', hbetween', hrest'⟩
      rw [hbetween] at hbetween'
      cases hbetween'
      rcases keeps_pushArgument hpending hbetween with ⟨hscheme', hpending', _⟩
      exact ih (hscheme'.trans hscheme) hpending' hrest hrest'

/-- In front of all other arguments there is a place for the flag. -/
theorem readTask_dryRunFlag (h : readTask { scheme := .task .revise } texts = .ok result)
    (hdry : result.dryRun = false) :
    readTask { scheme := .task .revise } (dryRunFlag :: texts) = .ok result.withDryRun := by
  have hne : dryRunFlag ≠ endOfOptions := by decide
  have hpush : Level.pushArgument { scheme := .task .revise } dryRunFlag =
      .ok (Level.withDryRun { scheme := .task .revise }) := by
    rw [pushArgument_dryRunFlag]
    rfl
  rw [readTask, if_neg hne, hpush]
  exact readTask_withDryRun (by simp) h hdry

/-- The flag comes only from an argument that can be taken away. -/
theorem exists_readTask_of_dryRun (hpending : level.pending ≠ some .dryRun)
    (hlevel : level.dryRun = false) (h : readTask level texts = .ok result)
    (hdry : result.dryRun = true) :
    ∃ pre post plain, texts = pre ++ dryRunFlag :: post ∧
      readTask level (pre ++ post) = .ok plain ∧ plain.dryRun = false ∧
      result = plain.withDryRun := by
  induction texts generalizing level with
  | nil =>
    rw [((Level.Blind.settle level hpending).keeps h).2.1, hlevel] at hdry
    cases hdry
  | cons text texts ih =>
    rw [readTask] at h
    split at h
    · rw [((blind_readPositionals texts level hpending).keeps h).2.1, hlevel] at hdry
      cases hdry
    · rename_i hend
      rcases exists_of_bind_eq_ok h with ⟨between, hbetween, hrest⟩
      by_cases hflag : text = dryRunFlag
      · subst hflag
        rcases exists_of_pushArgument_dryRunFlag hbetween with ⟨settled, hsettled, hsame, rfl⟩
        have hpending' := ((Level.Blind.settle level hpending).keeps hsettled).2.2
        rcases exists_readTask_of_withDryRun hpending' hrest with ⟨plain, hplain, hplainDry, rfl⟩
        rw [readTask_settled hsettled] at hplain
        exact ⟨[], texts, plain, rfl, hplain, hplainDry.trans hsame, rfl⟩
      · rcases (Level.Blind.pushArgument hflag level hpending).keeps hbetween with
          ⟨_, hsame, hpending'⟩
        rcases ih hpending' (hsame.trans hlevel) hrest with
          ⟨pre, post, plain, rfl, hplain, hplainDry, rfl⟩
        refine ⟨text :: pre, post, plain, rfl, ?_, hplainDry, rfl⟩
        rw [List.cons_append, readTask, if_neg hend, hbetween]
        exact hplain

/-! ## All arguments -/

theorem task?_eq_revise_iff {name : TaskName} {dryRun : Bool} :
    level.task? name = .ok (.revise depfile dryRun) ↔
      name = .revise ∧ level.positionals.head? = some depfile ∧ level.dryRun = dryRun := by
  cases hpositionals : level.positionals with
  | nil => simp [Level.task?, hpositionals]
  | cons first others => cases name <;> simp [Level.task?, hpositionals]

/-- What becomes of the arguments behind a subcommand. -/
def readSubcommand (level : Level) (name : TaskName) (rest : List Text) :
    Except Refusal Invocation := do
  let own ← readTask { scheme := .task name } rest
  let task ← own.task? name
  let level ← level.settle
  return {
    options := {
      config := own.options.config <|> level.options.config
      baseDir := own.options.baseDir <|> level.options.baseDir }
    task := task }

/-- The arguments behind a subcommand revise a file exactly if it is the subcommand for that. -/
theorem readSubcommand_eq_revise_iff {name : TaskName} {dryRun : Bool} :
    readSubcommand level name texts = .ok ⟨options, .revise depfile dryRun⟩ ↔
      name = .revise ∧ ∃ own settled, readTask { scheme := .task .revise } texts = .ok own ∧
        own.positionals.head? = some depfile ∧ own.dryRun = dryRun ∧
        level.settle = .ok settled ∧
        options = ⟨own.options.config <|> settled.options.config,
          own.options.baseDir <|> settled.options.baseDir⟩ := by
  constructor
  · intro h
    rcases exists_of_bind_eq_ok h with ⟨own, hown, h⟩
    rcases exists_of_bind_eq_ok h with ⟨task, htask, h⟩
    rcases exists_of_bind_eq_ok h with ⟨settled, hsettled, ⟨⟩⟩
    rcases task?_eq_revise_iff.1 htask with ⟨rfl, hpositionals, hdry⟩
    exact ⟨rfl, own, settled, hown, hpositionals, hdry, hsettled, rfl⟩
  · rintro ⟨rfl, own, settled, hown, hpositionals, hdry, hsettled, rfl⟩
    have htask := task?_eq_revise_iff.2 ⟨rfl, hpositionals, hdry⟩
    simp only [readSubcommand, hown, htask, hsettled, bind, Except.bind]
    rfl

/-- In front of the subcommand the flag is refused. -/
theorem readRoot_dryRunFlag {invocation : Invocation} (hroot : level.scheme = .root) :
    readRoot level (dryRunFlag :: post) ≠ .ok invocation := by
  have hne : dryRunFlag ≠ endOfOptions := by decide
  have hhelp : dryRunFlag ≠ helpName := by decide +kernel
  have hname : TaskName.ofText? dryRunFlag = none := by decide +kernel
  have hpush : level.pushArgument dryRunFlag = .error .usage := by
    rw [pushArgument_dryRunFlag, hroot]
    rfl
  intro h
  by_cases hawaiting : level.awaiting.isSome = true
  · rw [readRoot, if_neg hne, if_pos hawaiting, hpush] at h
    cases h
  · rw [readRoot, if_neg hne, if_neg hawaiting, if_neg hhelp, hname, hpush] at h
    cases h

/-- If arguments are accepted, the first one belongs to what is in front of the subcommand or it is
the subcommand, whatever follows. -/
theorem readRoot_cons {rest : List Text} {invocation : Invocation}
    (h : readRoot level (text :: rest) = .ok invocation) :
    (∃ next, level.pushArgument text = .ok next ∧
      ∀ rest, readRoot level (text :: rest) = readRoot next rest) ∨
    ∃ name, ∀ rest, readRoot level (text :: rest) = readSubcommand level name rest := by
  by_cases hend : text = endOfOptions
  · rw [readRoot, if_pos hend] at h
    cases h
  by_cases hawaiting : level.awaiting.isSome = true
  · rw [readRoot, if_neg hend, if_pos hawaiting] at h
    rcases exists_of_bind_eq_ok h with ⟨next, hpush, _⟩
    refine .inl ⟨next, hpush, fun rest => ?_⟩
    rw [readRoot, if_neg hend, if_pos hawaiting, hpush]
    rfl
  by_cases hhelp : text = helpName
  · rw [readRoot, if_neg hend, if_neg hawaiting, if_pos hhelp] at h
    cases h
  cases hname : TaskName.ofText? text with
  | none =>
    rw [readRoot, if_neg hend, if_neg hawaiting, if_neg hhelp, hname] at h
    rcases exists_of_bind_eq_ok h with ⟨next, hpush, _⟩
    refine .inl ⟨next, hpush, fun rest => ?_⟩
    rw [readRoot, if_neg hend, if_neg hawaiting, if_neg hhelp, hname]
    simp only [hpush]
    rfl
  | some name =>
    refine .inr ⟨name, fun rest => ?_⟩
    rw [readRoot, if_neg hend, if_neg hawaiting, if_neg hhelp, hname]
    rfl

theorem readRoot_insert_dryRunFlag {invocation : Invocation} (hroot : level.scheme = .root)
    (hpending : level.pending ≠ some .dryRun)
    (h : readRoot level (pre ++ post) = .ok ⟨options, .revise depfile false⟩)
    (h' : readRoot level (pre ++ dryRunFlag :: post) = .ok invocation) :
    invocation = ⟨options, .revise depfile true⟩ := by
  induction pre generalizing level with
  | nil => exact absurd h' (readRoot_dryRunFlag hroot)
  | cons text pre ih =>
    rw [List.cons_append] at h h'
    rcases readRoot_cons h with ⟨next, hpush, hread⟩ | ⟨name, hread⟩
    · rw [hread] at h h'
      rcases keeps_pushArgument hpending hpush with ⟨hscheme, hpending', _⟩
      exact ih (hscheme.trans hroot) hpending' h h'
    · rw [hread] at h h'
      rcases readSubcommand_eq_revise_iff.1 h with
        ⟨rfl, own, settled, hown, hpositionals, hdry, hsettled, hoptions⟩
      rcases exists_of_bind_eq_ok h' with ⟨flagged, hflagged, _⟩
      have hne : own.positionals ≠ [] := by
        intro hnil
        simp [hnil] at hpositionals
      obtain rfl := readTask_insert_dryRunFlag rfl (by simp) hown hdry hne hflagged
      have htrial := readSubcommand_eq_revise_iff.2
        ⟨rfl, _, settled, hflagged, hpositionals, rfl, hsettled, hoptions⟩
      have hsame := h'.symm.trans htrial
      cases hsame
      rfl

/-- Arguments that are accepted with the flag and without it describe the same task, with the same
options, in earnest and as a dry run. -/
theorem parse_insert_dryRunFlag {invocation : Invocation}
    (h : Invocation.parse (pre ++ post) = .ok ⟨options, .revise depfile false⟩)
    (h' : Invocation.parse (pre ++ dryRunFlag :: post) = .ok invocation) :
    invocation = ⟨options, .revise depfile true⟩ :=
  readRoot_insert_dryRunFlag rfl (by simp) h h'

theorem exists_readRoot_of_revise {dryRun : Bool}
    (h : readRoot level texts = .ok ⟨options, .revise depfile dryRun⟩) :
    ∃ pre post, texts = (if dryRun then pre ++ dryRunFlag :: post else pre ++ post) ∧
      readRoot level (pre ++ post) = .ok ⟨options, .revise depfile false⟩ ∧
      readRoot level (pre ++ dryRunFlag :: post) = .ok ⟨options, .revise depfile true⟩ := by
  induction texts generalizing level with
  | nil => cases h
  | cons text rest ih =>
    rcases readRoot_cons h with ⟨next, _, hread⟩ | ⟨name, hread⟩
    · rw [hread] at h
      rcases ih h with ⟨pre, post, hrest, hplain, hflagged⟩
      refine ⟨text :: pre, post, ?_, (hread _).trans hplain, (hread _).trans hflagged⟩
      cases dryRun <;> simpa using hrest
    · rw [hread] at h
      rcases readSubcommand_eq_revise_iff.1 h with
        ⟨rfl, own, settled, hown, hpositionals, hdry, hsettled, hoptions⟩
      cases dryRun with
      | false =>
        have hflagged := readSubcommand_eq_revise_iff.2
          ⟨rfl, _, settled, readTask_dryRunFlag hown hdry, hpositionals, rfl, hsettled, hoptions⟩
        exact ⟨[text], rest, rfl, (hread _).trans h, (hread _).trans hflagged⟩
      | true =>
        rcases exists_readTask_of_dryRun (by simp) rfl hown hdry with
          ⟨pre, post, plain, rfl, hplain, hplainDry, rfl⟩
        have hreal := readSubcommand_eq_revise_iff.2
          ⟨rfl, plain, settled, hplain, hpositionals, hplainDry, hsettled, hoptions⟩
        exact ⟨text :: pre, post, rfl, (hread _).trans hreal, (hread _).trans h⟩

/-- Arguments that revise a file are accepted both with the flag in some place and without it. -/
theorem exists_parse_of_revise {arguments : List Text} {dryRun : Bool}
    (h : Invocation.parse arguments = .ok ⟨options, .revise depfile dryRun⟩) :
    ∃ pre post, arguments = (if dryRun then pre ++ dryRunFlag :: post else pre ++ post) ∧
      Invocation.parse (pre ++ post) = .ok ⟨options, .revise depfile false⟩ ∧
      Invocation.parse (pre ++ dryRunFlag :: post) = .ok ⟨options, .revise depfile true⟩ :=
  exists_readRoot_of_revise h

end Depfile.Command
