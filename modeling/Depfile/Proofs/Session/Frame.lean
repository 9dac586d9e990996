import Depfile.Session
import Depfile.Proofs.Command.Run

/-!
# What a step leaves as it is

Apart from placing a file from outside, a step of a session does one of two things to the files
(`Session.takes_answer`): it leaves them all as they are and writes to none, or it is one
normalization of one file, made after the calls that find out how. From this it follows which
calls a step makes, which file it may change, and that its answer tells whether it did
(`Session.step_frame`).
-/

namespace Depfile

/-- The outcome that an answer tells about a file. -/
def Answer.outcome? (depfile : AbsolutePath) : Answer → Option Outcome
  | .outcome told => some told
  | .printed lines => Command.reported? depfile lines
  | _ => none

namespace Session

variable {σ : Type}

/-! ## What a step is about -/

/-- The dependency file that a step revises in place, if it gets that far. -/
def revisedFile? (session : Session σ) : Step → Option AbsolutePath
  | .normalize depfile _ => some depfile
  | .command arguments =>
    match Command.Invocation.parse arguments with
    | .ok ⟨_, .revise depfile false⟩ =>
      session.world.directory?.map (fun cwd => cwd.append depfile)
    | _ => none
  | _ => none

/-- The configuration file that a step loads. -/
def configFile? (session : Session σ) : Step → Option AbsolutePath
  | .load path => path
  | .command arguments =>
    match Command.Invocation.parse arguments with
    | .ok invocation =>
      session.world.directory?.bind (fun cwd => invocation.options.config.map cwd.append)
    | .error _ => none
  | _ => none

/-- What the paths in the file of a step are made relative to: the session's configuration is that
of the library, and a command line loads its own. -/
def scope? [FileStore σ] (session : Session σ) : Step → Option Scope
  | .normalize _ cwd => (AbsolutePath.check cwd).toOption.map session.config.scope
  | .command arguments =>
    match Command.Invocation.parse arguments with
    | .ok invocation => do
      let cwd ← session.world.directory?
      let config ← ((Command.configure cwd invocation.options : StateM (World σ) _).run
        session.world).1.toOption
      return config.scope cwd
    | .error _ => none
  | _ => none

/-! ## What a step does -/

variable {session : Session Memory} {step : Step} {answer : Answer} {after : World Memory}

/-- A step looks at the system, or it normalizes one file after it has looked. -/
inductive Takes (session : Session Memory) (step : Step) (answer : Answer) :
    World Memory → Prop where
  | looks {after : World Memory} {made : List Call} :
      after.store.files = session.world.store.files →
      after.calls = session.world.calls ++ made →
      (∀ call ∈ made, call.IsLook) →
      (∀ depfile, session.revisedFile? step = some depfile → answer.outcome? depfile = none) →
      Takes session step answer after
  | normalizes (before : List Call) (events : List Event) {config : Config}
      {cwd depfile : AbsolutePath} {outcome : Outcome} {after : World Memory} :
      session.revisedFile? step = some depfile →
      session.scope? step = some (config.scope cwd) →
      answer.outcome? depfile = some outcome →
      (∀ call ∈ before, call.IsLook) →
      (∀ path, Call.read path ∈ before ↔ session.configFile? step = some path) →
      Normalizes config cwd depfile (session.world.record before events) outcome after →
      Takes session step answer after

namespace Takes

/-- A step that asks nothing of the system and changes no file. -/
theorem keeps (hstep : session.revisedFile? step = none)
    (hfiles : after.store.files = session.world.store.files)
    (hcalls : after.calls = session.world.calls) : session.Takes step answer after := by
  have hnone : after.calls = session.world.calls ++ [] := by simpa using hcalls
  exact .looks hfiles hnone (by simp) (by simp [hstep])

/-- A step that uses an action that only looks. -/
theorem observes {α : Type} {action : StateM (World Memory) α}
    (hstep : session.revisedFile? step = none) (haction : Observes Call.IsLook action)
    (hafter : after = (action.run session.world).2) : session.Takes step answer after := by
  rcases haction.records session.world with ⟨made, events, hmade, hlook⟩
  rw [hafter, hmade]
  exact .looks rfl rfl hlook (by simp [hstep])

end Takes

theorem answer_use {α : Type} (action : StateM (World Memory) α) (tell : α → Answer)
    (session : Session Memory) :
    (session.use action tell).1 = tell (action.run session.world).1 := rfl

theorem world_use {α : Type} (action : StateM (World Memory) α) (tell : α → Answer)
    (session : Session Memory) :
    (session.use action tell).2.world = (action.run session.world).2 := rfl

theorem world_adopt (result : Except ConfigError Config) (session : Session Memory) :
    (session.adopt result).2.world = session.world := by
  cases result <;> rfl

theorem takes_load (path : Option AbsolutePath) :
    session.Takes (.load path) (session.load path).1 (session.load path).2.world := by
  have hload : Observes Call.IsLook (Config.load path : StateM (World Memory) _) :=
    (Config.observes_load path).mono (fun call => Config.isLook_of_mem_loadCalls)
  exact .observes rfl hload (world_adopt _ _)

theorem takes_normalize (depfile : AbsolutePath) (cwd : Text) :
    session.Takes (.normalize depfile cwd) (session.normalize depfile cwd).1
      (session.normalize depfile cwd).2.world := by
  cases hcwd : AbsolutePath.check cwd with
  | error e =>
    have hnormalize : session.normalize depfile cwd = (.notAbsolute e, session) := by
      simp [normalize, hcwd]
    rw [hnormalize]
    have hnone : session.world.calls = session.world.calls ++ [] := by simp
    exact .looks rfl hnone (by simp) (by simp [Answer.outcome?])
  | ok directory =>
    have hnormalize : session.normalize depfile cwd =
        session.use (normalizeFile session.config directory depfile) .outcome := by
      simp [normalize, hcwd]
    have hscope : session.scope? (.normalize depfile cwd) =
        some (session.config.scope directory) := by
      simp [scope?, hcwd, Except.toOption]
    have hrun := normalizes_run session.config directory depfile session.world
    simp only [hnormalize, answer_use, world_use]
    exact .normalizes [] [] rfl hscope rfl (by simp) (by simp [configFile?]) (by simpa using hrun)

theorem takes_command_of_looks {arguments : List Text} {invocation : Command.Invocation}
    (hparse : Command.Invocation.parse arguments = .ok invocation)
    (htask : ∀ depfile, invocation.task ≠ .revise depfile false) :
    session.Takes (.command arguments) (session.command arguments).1
      (session.command arguments).2.world := by
  have hstep : session.revisedFile? (.command arguments) = none := by
    rcases invocation with ⟨options, task⟩
    cases task with
    | tokenize | deps | escape => simp [revisedFile?, hparse]
    | revise depfile dryRun =>
      cases dryRun with
      | false => exact absurd rfl (htask depfile)
      | true => simp [revisedFile?, hparse]
  apply Takes.observes hstep (Command.observes_run htask)
  simp only [command, hparse, world_use]

theorem takes_command_of_revises {arguments : List Text} {options : Command.Options}
    {depfile : Text}
    (hparse : Command.Invocation.parse arguments = .ok ⟨options, .revise depfile false⟩) :
    session.Takes (.command arguments) (session.command arguments).1
      (session.command arguments).2.world := by
  have hrevises := Command.revises_run options depfile session.world
  simp only [command, hparse, answer_use, world_use]
  generalize ((Command.run ⟨options, .revise depfile false⟩ : StateM (World Memory) _).run
    session.world) = ending at hrevises ⊢
  rcases ending with ⟨result, after⟩
  cases hrevises with
  | fails hlook => exact .looks rfl rfl hlook (by simp [Answer.outcome?])
  | normalizes hcwd hconfig hnormalizes =>
    refine .normalizes _ _ ?_ ?_ (Command.reported?_report _ _) ?_ ?_ hnormalizes
    · simp [revisedFile?, hparse, hcwd]
    · simp [scope?, hparse, hcwd, hconfig, Except.toOption]
    · exact fun call => Command.isLook_of_mem_setupCalls
    · intro path
      simpa [configFile?, hparse, hcwd] using Command.read_mem_setupCalls

theorem takes_command (arguments : List Text) :
    session.Takes (.command arguments) (session.command arguments).1
      (session.command arguments).2.world := by
  cases hparse : Command.Invocation.parse arguments with
  | error refusal =>
    have hcommand : session.command arguments = (.refused refusal, session) := by
      simp [command, hparse]
    rw [hcommand]
    exact .keeps (by simp [revisedFile?, hparse]) rfl rfl
  | ok invocation =>
    by_cases htask : ∀ depfile, invocation.task ≠ .revise depfile false
    · exact takes_command_of_looks hparse htask
    · rcases invocation with ⟨options, task⟩
      simp only [Classical.not_forall, Classical.not_not] at htask
      rcases htask with ⟨depfile, rfl⟩
      exact takes_command_of_revises hparse

/-- What a step does, if it is not `put`. -/
theorem takes_answer (session : Session Memory) (hput : ∀ path data, step ≠ .put path data) :
    session.Takes step (session.answer step).1 (session.answer step).2.world := by
  cases step with
  | put path data => exact absurd rfl (hput path data)
  | get path => exact .keeps rfl rfl rfl
  | makeDirectory path => exact .keeps rfl rfl rfl
  | protect path => exact .keeps rfl rfl rfl
  | setEnv name value => cases value <;> exact .keeps rfl rfl rfl
  | load path => exact takes_load path
  | setBaseDir value =>
    -- The configuration is taken over or not, but the world is the same.
    have hworld := world_adopt (session.config.withBaseDir value) session
    exact .keeps rfl (congrArg (fun world => world.store.files) hworld)
      (congrArg World.calls hworld)
  | assignBaseDir value => exact .keeps rfl rfl rfl
  | normalize depfile cwd => exact takes_normalize depfile cwd
  | readText path => exact .observes rfl (.readText path (by simp [Call.IsLook])) rfl
  | readEnv name => exact .observes rfl (.readEnv name (by simp [Call.IsLook])) rfl
  | currentDir => exact .observes rfl (.currentDir (by simp [Call.IsLook])) rfl
  | command arguments => exact takes_command arguments

/-! ## What follows for files and calls -/

/-- No step but `put` touches files, apart from the successful revision of its own file. A step
that is not about revising a file writes nothing. One that is writes at most once, last of all and
to that file, which it has just read; it does so exactly if it tells that the file was revised or
could not be written. Contents change only if it tells that the file was revised, only there, and
from a text to its revision. If there is no base directory, no file is read but the configuration
file. -/
theorem step_frame {session after : Session Memory} {step : Step} {record : Record}
    (hput : ∀ path data, step ≠ .put path data) (hstep : session.step step = (record, after)) :
    ∃ made, record.calls = session.world.calls ++ made ∧
      (session.revisedFile? step = none →
        (∀ path, Call.write path ∉ made) ∧
        ∀ location, after.world.store.data? location = session.world.store.data? location) ∧
      ∀ depfile, session.revisedFile? step = some depfile →
        ((∀ path, Call.write path ∉ made) ∨
          ∃ front, made = front ++ [.read depfile, .write depfile] ∧
            ∀ path, Call.write path ∉ front) ∧
        ((∃ path, Call.write path ∈ made) ↔
          record.answer.outcome? depfile = some .revised ∨
            record.answer.outcome? depfile = some .unwritable) ∧
        (∀ location, after.world.store.data? location ≠ session.world.store.data? location →
          record.answer.outcome? depfile = some .revised ∧ location = depfile.location ∧
          ∃ scope text newText, session.scope? step = some scope ∧
            Layout.relativize scope text = .ok (some newText) ∧
            session.world.store.data? location = some (Utf8.encode text) ∧
            after.world.store.data? location = some (Utf8.encode newText)) ∧
        (record.answer.outcome? depfile = some .disabled →
          ∀ path, Call.read path ∈ made ↔ session.configFile? step = some path) := by
  have htakes := takes_answer session hput
  obtain ⟨rfl, rfl⟩ : (session.step step).1 = record ∧ (session.step step).2 = after := by
    simp [hstep]
  have hanswer : (session.step step).1.answer = (session.answer step).1 := rfl
  have hcalls : (session.step step).1.calls = (session.answer step).2.world.calls := rfl
  have hstore : (session.step step).2.world.store = (session.answer step).2.world.store := rfl
  rw [hanswer, hcalls, hstore]
  cases htakes with
  | @looks _ made hfiles hmade hlook hnone =>
    -- Protected locations may change, but contents are found in the list of files alone.
    have hwrite : ∀ path, Call.write path ∉ made := fun path hmem => hlook _ hmem path rfl
    have hdata : ∀ location, (session.answer step).2.world.store.data? location =
        session.world.store.data? location := by
      intro location
      simp only [Memory.data?, hfiles]
    refine ⟨made, hmade, fun _ => ⟨hwrite, hdata⟩, ?_⟩
    intro depfile hdepfile
    have htold := hnone depfile hdepfile
    exact ⟨.inl hwrite, by simp [hwrite, htold], fun location hne => absurd (hdata location) hne,
      by simp [htold]⟩
  | @normalizes before _ _ _ file outcome _ hfile hscope htold hlook hread hnormalizes =>
    have hmade : (session.answer step).2.world.calls =
        session.world.calls ++ (before ++ outcome.calls file) := by
      simpa using hnormalizes.calls_eq
    -- All that can write are the last calls, which the outcome tells.
    have hbefore : ∀ path, Call.write path ∉ before := fun path hmem => hlook _ hmem path rfl
    refine ⟨before ++ outcome.calls file, hmade, fun hnone => by simp [hnone] at hfile, ?_⟩
    intro depfile hdepfile
    obtain rfl : file = depfile := Option.some.inj (hfile.symm.trans hdepfile)
    refine ⟨?_, by simp [hbefore, Outcome.write_mem_calls, htold], ?_, ?_⟩
    · by_cases hwrites : outcome = .revised ∨ outcome = .unwritable
      · exact .inr ⟨before, by rcases hwrites with rfl | rfl <;> rfl, hbefore⟩
      · exact .inl (by simp [hbefore, Outcome.write_mem_calls, hwrites])
    · intro location hne
      rcases hnormalizes.of_data?_ne hne with
        ⟨rfl, hlocation, text, newText, hrelativize, hold, hnew⟩
      exact ⟨htold, hlocation, _, text, newText, hscope, hrelativize, hold, hnew⟩
    · intro hdisabled path
      obtain rfl : outcome = .disabled := Option.some.inj (htold.symm.trans hdisabled)
      simpa [Outcome.calls] using hread path

/-- The directory `/p` with a file that mentions it. -/
def sampleSession : Session Memory :=
  ⟨⟨⟨[(⟨['/', 'p', '/', 'o'], rfl⟩, Utf8.encode ['a', ':', ' ', '/', 'p', '/', 'b'])], []⟩, [],
    Utf8.encode ['/', 'p'], [], []⟩, {}⟩

/-- A command line that revises the file, named as it is seen from the directory. -/
def sampleRevision : Step :=
  .command [['-', '-', 'b', 'a', 's', 'e', '-', 'd', 'i', 'r', '=', '/', 'p'],
    ['r', 'e', 'w', 'r', 'i', 't', 'e'], ['o']]

theorem step_sampleRevision :
    (∀ path data, sampleRevision ≠ .put path data) ∧
      (sampleSession.step sampleRevision).1.answer.outcome? ⟨['/', 'p', '/', 'o'], rfl⟩ =
        some .revised ∧
      ∃ front, (sampleSession.step sampleRevision).1.calls =
          front ++ [.read ⟨['/', 'p', '/', 'o'], rfl⟩, .write ⟨['/', 'p', '/', 'o'], rfl⟩] ∧
        ∀ path, Call.write path ∉ front := by
  have hput : ∀ path data, sampleRevision ≠ .put path data := by simp [sampleRevision]
  have htold : (sampleSession.step sampleRevision).1.answer.outcome? ⟨['/', 'p', '/', 'o'], rfl⟩ =
      some .revised := by decide +kernel
  refine ⟨hput, htold, ?_⟩
  rcases step_frame hput (Prod.eta (sampleSession.step sampleRevision)).symm with
    ⟨made, hmade, _, hfile⟩
  rcases hfile _ rfl with ⟨hlast | ⟨front, hfront, hnone⟩, hwrites, _, _⟩
  · rcases hwrites.2 (.inl htold) with ⟨path, hwrite⟩
    exact absurd hwrite (hlast path)
  · exact ⟨front, hmade.trans hfront, hnone⟩

/-- Without a base directory a dependency file is read after all if it is the configuration file
too. Here it is empty, which is a valid configuration. -/
theorem step_disabled_reads :
    let file : AbsolutePath := ⟨['/', 'o'], rfl⟩
    let session : Session Memory :=
      ⟨⟨⟨[(file, Utf8.encode [])], []⟩, [], Utf8.encode ['/'], [], []⟩, {}⟩
    let step : Step := .command
      [['-', '-', 'c', 'o', 'n', 'f', 'i', 'g'], file.text,
        ['r', 'e', 'w', 'r', 'i', 't', 'e'], file.text]
    session.revisedFile? step = some file ∧
      (session.step step).1.answer.outcome? file = some .disabled ∧
      (session.step step).1.calls = [.cwd, .read file, .env Config.baseDirVariable] := by
  exact ⟨rfl, by decide +kernel, rfl⟩

end Session

end Depfile
