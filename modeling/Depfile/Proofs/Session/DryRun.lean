import Depfile.Proofs.Command.Arguments
import Depfile.Proofs.Session.Frame

/-!
# Dry runs

A dry run and a run in earnest find out in the same way what to do, and then each of them goes
through the reasons not to do it on its own. `Foretells` lists which answer of the one goes with
which answer of the other. Whatever there is in memory, and wherever the flag stands among the
arguments, a dry run leaves all files alone and foretells what the same arguments do in earnest
(`Session.dryRun_foretells`).
-/

namespace Depfile

variable {σ : Type} [FileStore σ]

/-! ## Running a dry run -/

/-- A dry run prints the text that a file would have, unless the base directory or the text is
missing. -/
theorem Command.result_runDryRun (config : Config) (cwd path : AbsolutePath) (world : World σ) :
    ((runDryRun config cwd path : StateM (World σ) _).run world).1 =
      if config.baseDir = [] then .error .noBaseDir
      else
        match textIn world.store path with
        | .error e => .error (.read e)
        | .ok text =>
          let shown := ((Layout.revise (config.scope cwd) text).map Layout.Revision.text).getD text
          .ok { stdout := Terminal.strip shown } := by
  by_cases hbase : config.baseDir = []
  · simp [runDryRun, hbase]
  cases htext : textIn world.store path with
  | error e => simp [runDryRun, hbase, htext]
  | ok text =>
    cases hrevise : Layout.revise (config.scope cwd) text <;>
      simp [runDryRun, hbase, htext, hrevise]

/-- A revised file has the text of the revision. -/
theorem Memory.textIn_write {memory after : Memory} {path : AbsolutePath} {text : Text}
    (h : FileStore.write memory path (Utf8.encode text) = .ok after) :
    textIn after path = .ok text := by
  rcases Memory.write_eq_ok_iff.1 h with ⟨_, rfl⟩
  exact Memory.textIn_eq_ok_iff.2 (Memory.contents?_insert_self _ _ _)

/-- What a command line answers. -/
def Answer.ofCommand : Except Command.Failure Command.Printed → Answer
  | .ok lines => .printed lines
  | .error e => .failed e

namespace Session

/-- The answer of a dry run, the answer in earnest, and the files after that. The file is the one
that the arguments name, as seen from the working directory. -/
inductive Foretells (directory : Option AbsolutePath) (depfile : Text) :
    Answer → Answer → Memory → Prop where
  /-- What has been shown is there now. -/
  | shows {cwd : AbsolutePath} {outcome : Outcome} {text : Text} {after : Memory} :
      directory = some cwd → outcome = .revised ∨ outcome = .unchanged →
      textIn after (cwd.append depfile) = .ok text →
      Foretells directory depfile (.printed { stdout := Terminal.strip text })
        (.printed (Command.report outcome (cwd.append depfile))) after
  /-- What has been shown could not be written. -/
  | unwritable {cwd : AbsolutePath} {shown : Text} {after : Memory} :
      directory = some cwd →
      Foretells directory depfile (.printed { stdout := shown })
        (.printed (Command.report .unwritable (cwd.append depfile))) after
  | noDirectory {shown : Text} {after : Memory} :
      Foretells directory depfile (.failed (.badWorkingDirectory shown))
        (.failed (.badWorkingDirectory shown)) after
  | config {e : ConfigError} {after : Memory} :
      Foretells directory depfile (.failed (.config e)) (.failed (.config e)) after
  | disabled {cwd : AbsolutePath} {after : Memory} :
      directory = some cwd →
      Foretells directory depfile (.failed .noBaseDir)
        (.printed (Command.report .disabled (cwd.append depfile))) after
  | unreadable {cwd : AbsolutePath} {e : ReadError} {after : Memory} :
      directory = some cwd →
      Foretells directory depfile (.failed (.read e))
        (.printed (Command.report .unreadable (cwd.append depfile))) after

/-! ## Once the configuration is known -/

variable {config : Config} {cwd : AbsolutePath} {depfile : Text} {outcome : Outcome}
  {directory : Option AbsolutePath} {trial world after : World Memory}

/-- A dry run foretells a normalization that starts with the same files. -/
theorem foretells_of_normalizes (hcwd : directory = some cwd) (hstore : trial.store = world.store)
    (h : Normalizes config cwd (cwd.append depfile) world outcome after) :
    Foretells directory depfile
      (.ofCommand ((Command.runDryRun config cwd (cwd.append depfile) :
        StateM (World Memory) _).run trial).1)
      (.printed (Command.report outcome (cwd.append depfile))) after.store := by
  rw [Command.result_runDryRun, hstore]
  cases h with
  | disabled hbase =>
    rw [if_pos hbase]
    exact .disabled hcwd
  | unreadable hbase htext =>
    rw [if_neg hbase, htext]
    exact .unreadable hcwd
  | unchanged hbase htext hrevise =>
    rw [if_neg hbase, htext]
    simp only [hrevise]
    exact .shows hcwd (.inr rfl) htext
  | revised hbase htext hrevise hwrite =>
    rw [if_neg hbase, htext]
    simp only [hrevise]
    exact .shows hcwd (.inl rfl) (Memory.textIn_write hwrite)
  | unwritable hbase htext _ _ =>
    rw [if_neg hbase, htext]
    exact .unwritable hcwd

/-! ## Whole runs -/

theorem foretells_run (options : Command.Options) (depfile : Text) (world : World Memory) :
    Foretells world.directory? depfile
      (.ofCommand ((Command.run ⟨options, .revise depfile true⟩ :
        StateM (World Memory) _).run world).1)
      (.ofCommand ((Command.run ⟨options, .revise depfile false⟩ :
        StateM (World Memory) _).run world).1)
      ((Command.run ⟨options, .revise depfile false⟩ :
        StateM (World Memory) _).run world).2.store := by
  cases hcwd : world.directory? with
  | none =>
    rw [Command.run_of_not_directory _ hcwd, Command.run_of_not_directory _ hcwd]
    exact .noDirectory
  | some cwd =>
    have hconfigured : ∀ dryRun, (Command.Task.revise depfile dryRun).isConfigured = true :=
      fun _ => rfl
    cases hconfig : ((Command.configure cwd options : StateM (World Memory) _).run world).1 with
    | error e =>
      rw [Command.run_of_isConfigured (hconfigured true) hcwd,
        Command.run_of_isConfigured (hconfigured false) hcwd, hconfig]
      exact .config
    | ok config =>
      -- Both go on with one configuration, and nothing but looks has been recorded.
      rcases Command.exists_run_of_configured (hconfigured true) hcwd hconfig with ⟨events, htrial⟩
      rcases Command.exists_run_of_configured (hconfigured false) hcwd hconfig with ⟨events', hreal⟩
      have hstore : (world.record (Command.setupCalls options cwd) events).store =
          (world.record (Command.setupCalls options cwd) events').store := rfl
      rw [htrial, hreal]
      exact foretells_of_normalizes rfl hstore (normalizes_run _ _ _ _)

/-! ## Command lines -/

theorem command_of_parse (session : Session Memory) {arguments : List Text}
    {invocation : Command.Invocation}
    (hparse : Command.Invocation.parse arguments = .ok invocation) :
    (session.command arguments).1 =
        .ofCommand ((Command.run invocation : StateM (World Memory) _).run session.world).1 ∧
      (session.command arguments).2.world =
        ((Command.run invocation : StateM (World Memory) _).run session.world).2 := by
  simp only [command, hparse, answer_use, world_use, and_true]
  cases ((Command.run invocation : StateM (World Memory) _).run session.world).1 <;> rfl

/-- Arguments that revise a file are accepted with the flag for a dry run in some place and without
it. Whenever they are accepted both ways, those with the flag write nothing and change no file,
and their answer foretells the answer of those without it, given in the same session. -/
theorem dryRun_foretells (session : Session Memory) :
    (∀ arguments options depfile dryRun,
      Command.Invocation.parse arguments = .ok ⟨options, .revise depfile dryRun⟩ →
      ∃ pre post,
        arguments = (if dryRun then pre ++ Command.dryRunFlag :: post else pre ++ post) ∧
        Command.Invocation.parse (pre ++ post) = .ok ⟨options, .revise depfile false⟩ ∧
        Command.Invocation.parse (pre ++ Command.dryRunFlag :: post) =
          .ok ⟨options, .revise depfile true⟩) ∧
    ∀ pre post options depfile invocation,
      Command.Invocation.parse (pre ++ post) = .ok ⟨options, .revise depfile false⟩ →
      Command.Invocation.parse (pre ++ Command.dryRunFlag :: post) = .ok invocation →
      let trial := session.step (.command (pre ++ Command.dryRunFlag :: post))
      let real := session.step (.command (pre ++ post))
      trial.2.world.store = session.world.store ∧
      (∃ made, trial.1.calls = session.world.calls ++ made ∧ ∀ path, Call.write path ∉ made) ∧
      Foretells session.world.directory? depfile trial.1.answer real.1.answer
        real.2.world.store := by
  refine ⟨fun _ _ _ _ h => Command.exists_parse_of_revise h, ?_⟩
  intro pre post options depfile invocation hplain hflagged trial real
  obtain rfl := Command.parse_insert_dryRunFlag hplain hflagged
  rcases command_of_parse session hflagged with ⟨htrial, htrialWorld⟩
  rcases command_of_parse session hplain with ⟨hreal, hrealWorld⟩
  have hobserves : Observes Call.IsLook
      (Command.run ⟨options, .revise depfile true⟩ : StateM (World Memory) _) :=
    Command.observes_run (by simp)
  rcases hobserves.records session.world with ⟨made, events, hmade, hlook⟩
  have hworld := htrialWorld.trans hmade
  have hstore := congrArg World.store hworld
  have hcalls := congrArg World.calls hworld
  refine ⟨hstore, ⟨made, hcalls, fun path hmem => hlook _ hmem path rfl⟩, ?_⟩
  have hforetells := foretells_run options depfile session.world
  rw [← htrial, ← hreal, ← hrealWorld] at hforetells
  exact hforetells

/-- Only what a dry run has shown is told to be revised. -/
theorem Foretells.of_revised {directory : Option AbsolutePath} {shown told : Answer}
    {store : Memory} (h : Foretells directory depfile shown told store)
    (hcwd : directory = some cwd) (htold : told.outcome? (cwd.append depfile) = some .revised) :
    ∃ text, shown = .printed { stdout := Terminal.strip text } ∧
      textIn store (cwd.append depfile) = .ok text := by
  cases h with
  | shows hcwd' _ htext =>
    obtain rfl := Option.some.inj (hcwd.symm.trans hcwd')
    exact ⟨_, rfl, htext⟩
  | unwritable hcwd' | disabled hcwd' | unreadable hcwd' =>
    obtain rfl := Option.some.inj (hcwd.symm.trans hcwd')
    simp [Answer.outcome?, Command.reported?_report] at htold
  | noDirectory | config => cases htold

/-- The file of the sample as its arguments name it. -/
def sampleName : Text :=
  ['o']

/-- The arguments of the sample in front of the name and the flag. -/
def sampleFront : List Text :=
  [['-', '-', 'b', 'a', 's', 'e', '-', 'd', 'i', 'r', '=', '/', 'p'],
    ['r', 'e', 'w', 'r', 'i', 't', 'e']]

theorem step_sampleTrial :
    Command.Invocation.parse (sampleFront ++ [sampleName]) =
        .ok ⟨⟨none, some ['/', 'p']⟩, .revise sampleName false⟩ ∧
      Command.Invocation.parse (sampleFront ++ Command.dryRunFlag :: [sampleName]) =
        .ok ⟨⟨none, some ['/', 'p']⟩, .revise sampleName true⟩ ∧
      (sampleSession.step
          (.command (sampleFront ++ Command.dryRunFlag :: [sampleName]))).2.world.store =
        sampleSession.world.store ∧
      ∃ text, (sampleSession.step
          (.command (sampleFront ++ Command.dryRunFlag :: [sampleName]))).1.answer =
          .printed { stdout := Terminal.strip text } ∧
        textIn (sampleSession.step (.command (sampleFront ++ [sampleName]))).2.world.store
          (AbsolutePath.append ⟨['/', 'p'], rfl⟩ sampleName) = .ok text := by
  have hplain : Command.Invocation.parse (sampleFront ++ [sampleName]) =
      .ok ⟨⟨none, some ['/', 'p']⟩, .revise sampleName false⟩ := rfl
  have hflagged : Command.Invocation.parse (sampleFront ++ Command.dryRunFlag :: [sampleName]) =
      .ok ⟨⟨none, some ['/', 'p']⟩, .revise sampleName true⟩ := rfl
  have hcwd : sampleSession.world.directory? = some ⟨['/', 'p'], rfl⟩ := rfl
  have htold : (sampleSession.step (.command (sampleFront ++ [sampleName]))).1.answer.outcome?
      (AbsolutePath.append ⟨['/', 'p'], rfl⟩ sampleName) = some .revised := by
    decide +kernel
  rcases (dryRun_foretells sampleSession).2 _ _ _ _ _ hplain hflagged with ⟨hstore, _, hforetells⟩
  exact ⟨hplain, hflagged, hstore, hforetells.of_revised hcwd htold⟩

end Session

end Depfile
