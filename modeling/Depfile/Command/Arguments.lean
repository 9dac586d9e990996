import Depfile.Text.Blank

/-!
# Command line arguments

Arguments are read from left to right at two levels: before the subcommand and after it. Options
with a value may stand at both levels, where the value is part of the argument or the next
one.

An option that is complete in one argument is examined at once. A value in an argument of its own
waits until the next option or positional argument at its level has been recognized, or for
the end of the level, and so does a positional argument; what waits before the subcommand is
examined after the subcommand's arguments. This decides whether a request for help or a bad
value comes first.
-/

namespace Depfile.Command

/-- Arguments that do not describe a task: those that cannot be understood, and requests for help
or the version. -/
inductive Refusal where
  | usage
  | help
deriving DecidableEq, Repr

/-- Options that may be given for any task. -/
structure Options where
  config : Option Text := none
  baseDir : Option Text := none
deriving DecidableEq, Repr

/-- The tasks. -/
inductive Task where
  | tokenize (depfile : Text)
  | deps (depfile : Text)
  | revise (depfile : Text) (dryRun : Bool)
  | escape (names : List Text)
deriving DecidableEq, Repr

/-- A task and its options. -/
structure Invocation where
  options : Options
  task : Task
deriving DecidableEq, Repr

/-! ## Names -/

/-- The name of a task. -/
inductive TaskName where
  | tokenize
  | deps
  | revise
  | escape
deriving DecidableEq, Repr

/-- Names have to be written out. -/
def TaskName.ofText? (name : Text) : Option TaskName :=
  if name = "tokenize".toList then some .tokenize
  else if name = "deps".toList then some .deps
  else if name = "rewrite".toList then some .revise
  else if name = "escape".toList then some .escape
  else none

/-- The subcommand that asks for help. -/
def helpName : Text :=
  "help".toList

/-- Options that take a value. -/
inductive ValueName where
  | config
  | baseDir
deriving DecidableEq, Repr

def ValueName.ofText? (name : Text) : Option ValueName :=
  if name = "config".toList then some .config
  else if name = "base-dir".toList then some .baseDir
  else none

/-! ## Levels -/

/-- Something given at a level. -/
inductive Item where
  | value (name : ValueName) (text : Text)
  | dryRun
  | positional (text : Text)
deriving DecidableEq, Repr

/-- Which arguments a level accepts: those before the subcommand, or those of a task. -/
inductive Scheme where
  | root
  | task (name : TaskName)
deriving DecidableEq, Repr

/-- What has been given at a level so far. The last item may be pending until it is examined, and
an option may be waiting for its value. -/
structure Level where
  scheme : Scheme
  options : Options := {}
  dryRun : Bool := false
  positionals : List Text := []
  pending : Option Item := none
  awaiting : Option ValueName := none

namespace Level

/-- Examine an item: a path must not be empty, and nothing but the names to escape may be given
twice. -/
def examine (level : Level) : Item → Except Refusal Level
  | .value .config text =>
    if text.isEmpty || level.options.config.isSome then
      .error .usage
    else
      .ok { level with options := { level.options with config := some text } }
  | .value .baseDir text =>
    if level.options.baseDir.isSome then
      .error .usage
    else
      .ok { level with options := { level.options with baseDir := some text } }
  | .dryRun =>
    if level.dryRun then
      .error .usage
    else
      .ok { level with dryRun := true }
  | .positional text =>
    if level.scheme = .task .escape then
      .ok { level with positionals := level.positionals ++ [text] }
    else if text.isEmpty || !level.positionals.isEmpty then
      .error .usage
    else
      .ok { level with positionals := [text] }

/-- Examine the pending item. An option that still waits for its value does not get one. -/
def settle (level : Level) : Except Refusal Level :=
  if level.awaiting.isSome then
    .error .usage
  else
    match level.pending with
    | none => .ok level
    | some item => { level with pending := none }.examine item

/-- Examine the pending item, and then another one at once. -/
def take (item : Item) (level : Level) : Except Refusal Level := do
  let level ← level.settle
  level.examine item

/-- Examine the pending item and make another one pending. -/
def push (item : Item) (level : Level) : Except Refusal Level := do
  let level ← level.settle
  return { level with pending := some item }

/-- Give a positional argument. One too many is refused without examining what came before. -/
def pushPositional (text : Text) (level : Level) : Except Refusal Level :=
  -- A pending positional argument takes the only place as well.
  let taken : Bool :=
    match level.pending with
    | some (.positional _) => true
    | _ => !level.positionals.isEmpty
  match level.scheme with
  | .root => .error .usage
  | .task name =>
    if taken && name ≠ .escape then
      .error .usage
    else
      level.push (.positional text)

/-- Ask for help or the version. -/
def requestHelp (level : Level) : Except Refusal Level := do
  let _ ← level.settle
  .error .help

/-- Give an option by its name, with the value that an equals sign attaches to it. -/
def pushLong (name : Text) (attached : Option Text) (level : Level) : Except Refusal Level :=
  match ValueName.ofText? name with
  | some name =>
    match attached with
    | some text => level.take (.value name text)
    | none => do
      let level ← level.settle
      return { level with awaiting := some name }
  | none =>
    if attached.isSome then
      .error .usage
    else if name = "help".toList then
      level.requestHelp
    else if name = "version".toList ∧ level.scheme = .root then
      level.requestHelp
    else if name = "dry-run".toList ∧ level.scheme = .task .revise then
      level.take .dryRun
    else
      .error .usage

/-- Give options by letters, of which the first one decides. -/
def pushShort (letter : Char) (level : Level) : Except Refusal Level :=
  if letter = 'h' then
    level.requestHelp
  else if letter = 'V' ∧ level.scheme = .root then
    level.requestHelp
  else
    .error .usage

/-- Give an argument that does not start with a hyphen, or is nothing but one. -/
def pushPlain (text : Text) (level : Level) : Except Refusal Level :=
  match level.awaiting with
  | some name => .ok { level with awaiting := none, pending := some (.value name text) }
  | none => level.pushPositional text

/-- The name and the attached value of an option. -/
def splitOption (text : Text) : Text × Option Text :=
  let name := text.takeWhile (fun c => c ≠ '=')
  match text.dropWhile (fun c => c ≠ '=') with
  | _ :: value => (name, some value)
  | [] => (name, none)

/-- Give one argument. -/
def pushArgument (level : Level) : Text → Except Refusal Level
  | '-' :: '-' :: option => level.pushLong (splitOption option).1 (splitOption option).2
  | '-' :: letter :: _ => level.pushShort letter
  | text => level.pushPlain text

end Level

/-! ## Reading -/

/-- The argument after which all others are positional. -/
def endOfOptions : Text :=
  ['-', '-']

/-- Read the arguments of a task. -/
def readTask : Level → List Text → Except Refusal Level
  | level, [] => level.settle
  | level, text :: rest =>
    if text = endOfOptions then do
      let level ← rest.foldlM (fun level text => level.pushPositional text) level
      level.settle
    else do
      let level ← level.pushArgument text
      readTask level rest

/-- The task that the arguments of a subcommand describe. -/
def Level.task? (name : TaskName) (level : Level) : Except Refusal Task :=
  match name, level.positionals with
  | _, [] => .error .usage
  | .tokenize, depfile :: _ => .ok (.tokenize depfile)
  | .deps, depfile :: _ => .ok (.deps depfile)
  | .revise, depfile :: _ => .ok (.revise depfile level.dryRun)
  | .escape, names => .ok (.escape names)

/-- The answer to `help`: what may follow is at most the name of one subcommand. -/
def helpRefusal : List Text → Refusal
  | [] => .help
  | [name] =>
    if name = helpName ∨ (TaskName.ofText? name).isSome then
      .help
    else
      .usage
  | _ => .usage

/-- Read the arguments before the subcommand, and then the subcommand's. An option after the
subcommand goes before the same option in front of it. -/
def readRoot : Level → List Text → Except Refusal Invocation
  | _, [] => .error .usage
  | level, text :: rest =>
    if text = endOfOptions then
      .error .usage
    else if level.awaiting.isSome then do
      let level ← level.pushArgument text
      readRoot level rest
    else if text = helpName then
      .error (helpRefusal rest)
    else
      match TaskName.ofText? text with
      | some name => do
        let own ← readTask { scheme := .task name } rest
        let task ← own.task? name
        -- Only now is the last value in front of the subcommand examined.
        let level ← level.settle
        return {
          options := {
            config := own.options.config <|> level.options.config
            baseDir := own.options.baseDir <|> level.options.baseDir }
          task := task }
      | none => do
        let level ← level.pushArgument text
        readRoot level rest

/-- The task that the arguments describe. -/
def Invocation.parse (arguments : List Text) : Except Refusal Invocation :=
  readRoot { scheme := .root } arguments

end Depfile.Command
