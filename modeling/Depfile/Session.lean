import Depfile.Command.Run
import Depfile.System.World

/-!
# Sessions

A session is a world and a configuration to which steps are applied one after the other. Steps
change the world from outside, change the configuration, use the library, or run a command
line. Each step gives an answer and a record of the calls and events that it caused.

* `Session.step`: what one step does;
* `Session.run`: the records of a list of steps.
-/

namespace Depfile

/-- What can be done in a session. -/
inductive Step where
  | put (path : AbsolutePath) (data : ByteArray)
  | get (path : AbsolutePath)
  | makeDirectory (path : AbsolutePath)
  | protect (path : AbsolutePath)
  | setEnv (name : Text) (value : Option ByteArray)
  | load (path : Option AbsolutePath)
  | setBaseDir (value : Text)
  | assignBaseDir (value : Text)
  | normalize (depfile : AbsolutePath) (cwd : Text)
  | readText (path : AbsolutePath)
  | readEnv (name : Text)
  | currentDir
  | command (arguments : List Text)

/-- What a step answers. -/
inductive Answer where
  | done
  | ok
  | contents (data : Option ByteArray)
  | text (text : Text)
  | variable (value : Option Text)
  | directory (path : Option Text)
  | outcome (outcome : Outcome)
  | printed (printed : Command.Printed)
  | failed (e : Command.Failure)
  | refused (refusal : Command.Refusal)
  | configError (e : ConfigError)
  | readError (e : ReadError)
  | notAbsolute (e : NotAbsolute)

/-- A world with a configuration. -/
structure Session (σ : Type) where
  world : World σ
  config : Config

/-- What is known after a step: its answer, the base directory, and what the step caused. -/
structure Record where
  answer : Answer
  baseDir : Text
  calls : List Call
  events : List Event

namespace Session

variable {σ : Type} [FileStore σ]

/-- A session with an empty configuration and environment. -/
def start (store : σ) (cwd : ByteArray) : Session σ :=
  ⟨⟨store, [], cwd, [], []⟩, {}⟩

/-! ## Steps that use the library -/

/-- Use the system, and make an answer of what comes back. -/
def use {α : Type} (action : StateM (World σ) α) (answer : α → Answer) (session : Session σ) :
    Answer × Session σ :=
  let (result, world) := action.run session.world
  (answer result, { session with world := world })

/-- Take over a configuration, or keep the old one if there is an error. -/
def adopt (result : Except ConfigError Config) (session : Session σ) : Answer × Session σ :=
  match result with
  | .ok config => (.ok, { session with config := config })
  | .error e => (.configError e, session)

/-- Replace the configuration by one that is loaded. -/
def load (path : Option AbsolutePath) (session : Session σ) : Answer × Session σ :=
  let (result, world) := (Config.load path : StateM (World σ) _).run session.world
  adopt result { session with world := world }

/-- Set the base directory whether or not the value is valid, and say whether it is. -/
def assignBaseDir (value : Text) (session : Session σ) : Answer × Session σ :=
  let config : Config := { session.config with baseDir := value }
  let answer :=
    match config.check with
    | .ok _ => Answer.ok
    | .error e => Answer.configError e
  (answer, { session with config := config })

def normalize (depfile : AbsolutePath) (cwd : Text) (session : Session σ) :
    Answer × Session σ :=
  match AbsolutePath.check cwd with
  | .error e => (.notAbsolute e, session)
  | .ok cwd => session.use (normalizeFile session.config cwd depfile) .outcome

/-- Run a command line. It has a configuration of its own. -/
def command (arguments : List Text) (session : Session σ) : Answer × Session σ :=
  match Command.Invocation.parse arguments with
  | .error refusal => (.refused refusal, session)
  | .ok invocation =>
    session.use (Command.run invocation) (fun result =>
      match result with
      | .ok printed => .printed printed
      | .error e => .failed e)

/-! ## All steps -/

/-- Apply a step to the files or the environment from outside. -/
def place (change : World σ → World σ) (session : Session σ) : Answer × Session σ :=
  (.done, { session with world := change session.world })

/-- The answer to a step and the session after it. -/
def answer (session : Session σ) : Step → Answer × Session σ
  | .put path data =>
    session.place (fun world => { world with store := FileStore.place world.store path data })
  | .get path => (.contents (FileStore.read session.world.store path).toOption, session)
  | .makeDirectory path =>
    session.place (fun world => { world with store := FileStore.makeDirectory world.store path })
  | .protect path =>
    session.place (fun world => { world with store := FileStore.protect world.store path })
  | .setEnv name value => session.place (World.setEnv name value)
  | .load path => session.load path
  | .setBaseDir value => session.adopt (session.config.withBaseDir value)
  | .assignBaseDir value => session.assignBaseDir value
  | .normalize depfile cwd => session.normalize depfile cwd
  | .readText path =>
    session.use (Depfile.readText path) (fun result =>
      match result with
      | .ok text => .text text
      | .error e => .readError e)
  | .readEnv name => session.use (Depfile.readEnv name) .variable
  | .currentDir =>
    session.use Depfile.currentDir (fun result => .directory (result.toOption.bind Utf8.decode?))
  | .command arguments => session.command arguments

/-- The record of a step and the session after it, in which nothing is recorded any more. -/
def step (session : Session σ) (step : Step) : Record × Session σ :=
  let (answer, after) := session.answer step
  (⟨answer, after.config.baseDir, after.world.calls, after.world.events⟩,
    { after with world := after.world.forget })

/-- The records of steps in order, and the session after the last one. -/
def run : Session σ → List Step → List Record × Session σ
  | session, [] => ([], session)
  | session, step :: steps =>
    let (record, after) := session.step step
    let (records, last) := after.run steps
    (record :: records, last)

end Session

end Depfile
