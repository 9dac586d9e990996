import Depfile.Command.Arguments
import Depfile.Dependencies
import Depfile.Normalization
import Depfile.Terminal.Strip

/-!
# Running tasks

A task prints to two streams or fails. Paths in its arguments are read in the working directory,
which has to be known first, even by tasks that read no file.
-/

namespace Depfile.Command

/-- What a task printed. -/
structure Printed where
  stdout : Text := []
  stderr : Text := []
deriving DecidableEq, Repr

/-- Why a task failed. -/
inductive Failure where
  | noWorkingDirectory (e : FileError)
  /-- The working directory is not an absolute path of text. -/
  | badWorkingDirectory (shown : Text)
  | config (e : ConfigError)
  | noBaseDir
  | read (e : ReadError)

namespace Failure

def message : Failure → String
  | noWorkingDirectory e => e.message
  | badWorkingDirectory shown => String.ofList shown ++ " is not a valid UTF-8 path"
  | config e => e.message
  | noBaseDir => "no base directory configured"
  | read e => e.message

end Failure

/-! ## Printing -/

/-- A line as it is printed. -/
def printLine (line : Text) : Text :=
  Terminal.strip (line ++ ['\n'])

/-- Lines as they are printed one by one. -/
def printLines (lines : List Text) : Text :=
  lines.flatMap printLine

/-- What is told about a dependency file that was to be normalized. -/
def outcomeLine (outcome : Outcome) (depfile : AbsolutePath) : Text :=
  match outcome with
  | .revised => "Rewritten ".toList ++ depfile.text
  | .unchanged => "Unchanged ".toList ++ depfile.text
  | .disabled =>
    "warning: no base directory configured; use --base-dir, `base_dir` in the config file, or ".toList
      ++ Config.baseDirVariable
  | .unreadable => "warning: could not read ".toList ++ depfile.text
  | .unwritable => "warning: could not write ".toList ++ depfile.text

/-! ## Tasks -/

section

variable {m : Type → Type} [Monad m] [MonadSystem m]

/-- The working directory, if it is an absolute path of text. -/
def workingDirectory : m (Except Failure AbsolutePath) := do
  match ← currentDir with
  | .error e => return .error (.noWorkingDirectory e)
  | .ok bytes =>
    match (Utf8.decode? bytes).bind AbsolutePath.of? with
    | some cwd => return .ok cwd
    | none => return .error (.badWorkingDirectory (Utf8.decodeLossy bytes.toList))

/-- The configuration from the file in the options, the environment, and the base directory in
the options. -/
def configure (cwd : AbsolutePath) (options : Options) : m (Except ConfigError Config) := do
  match ← Config.load (options.config.map cwd.append) with
  | .error e => return .error e
  | .ok config =>
    match options.baseDir with
    | none => return .ok config
    | some baseDir => return config.withBaseDir baseDir

def runTokenize (depfile : AbsolutePath) : m (Except Failure Printed) := do
  match ← readText depfile with
  | .error e => return .error (.read e)
  | .ok text => return .ok { stdout := printLines (Token.tokenize text) }

def runDeps (config : Config) (cwd depfile : AbsolutePath) : m (Except Failure Printed) := do
  match ← readText depfile with
  | .error e => return .error (.read e)
  | .ok text =>
    return .ok { stdout := printLines (Dependencies.ofText (config.scope cwd) text).paths }

/-- Print the revised dependency file, or the file itself if there is nothing to revise. -/
def runDryRun (config : Config) (cwd depfile : AbsolutePath) : m (Except Failure Printed) := do
  if config.baseDir.isEmpty then
    return .error .noBaseDir
  else
    match ← readText depfile with
    | .error e => return .error (.read e)
    | .ok text =>
      match Layout.revise (config.scope cwd) text with
      | none => return .ok { stdout := Terminal.strip text }
      | some revision => do
        logAll (revision.replacements.map Event.replaced)
        return .ok { stdout := Terminal.strip revision.text }

def runRevise (config : Config) (cwd depfile : AbsolutePath) : m (Except Failure Printed) := do
  let outcome ← normalizeFile config cwd depfile
  return .ok { stderr := printLine (outcomeLine outcome depfile) }

/-- Run a task in a working directory. Only the tasks that use paths under the base directory
load the configuration. -/
def runIn (cwd : AbsolutePath) (options : Options) : Task → m (Except Failure Printed)
  | .tokenize depfile => runTokenize (cwd.append depfile)
  | .escape names => return .ok { stdout := printLines (names.map Token.escape) }
  | .deps depfile => do
    match ← configure cwd options with
    | .error e => return .error (.config e)
    | .ok config => runDeps config cwd (cwd.append depfile)
  | .revise depfile dryRun => do
    match ← configure cwd options with
    | .error e => return .error (.config e)
    | .ok config =>
      if dryRun then
        runDryRun config cwd (cwd.append depfile)
      else
        runRevise config cwd (cwd.append depfile)

/-- Run a task. -/
def run (invocation : Invocation) : m (Except Failure Printed) := do
  match ← workingDirectory with
  | .error e => return .error e
  | .ok cwd => runIn cwd invocation.options invocation.task

end

end Depfile.Command
