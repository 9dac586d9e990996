import Depfile.Command.Run

/-!
# The program

The command line on the system that the program runs on. Bytes that a task prints go to the
streams as they are. The exit status is zero after success or a request for help, two
after arguments that cannot be understood, and one after any other failure.
-/

namespace Depfile

/-- The error of a file with a given number and description. -/
def FileError.ofNumber (number : UInt32) (details : String) : FileError :=
  -- Some calls report the number with its sign changed.
  let number := min number (0 - number)
  if number = 2 then
    .noSuchEntry
  else if number = 20 then
    .notDirectory
  else if number = 21 then
    .isDirectory
  else if number = 36 then
    .nameTooLong
  else
    .other (details ++ " (os error " ++ toString number ++ ")")

/-- The error of a file as the system reports it. -/
def FileError.ofSystem (e : IO.Error) : FileError :=
  match e with
  | .noFileOrDirectory _ number details => ofNumber number details
  | .inappropriateType _ number details => ofNumber number details
  | .permissionDenied _ number details => ofNumber number details
  | .resourceExhausted _ number details => ofNumber number details
  | e => .other (toString e)

/-- The result of an action on files, with its error as a value. -/
def attempt {α : Type} (action : IO α) : IO (Except FileError α) := do
  match ← action.toBaseIO with
  | .ok result => return .ok result
  | .error e => return .error (FileError.ofSystem e)

/-- The system that the program runs on. It keeps no log. -/
instance : MonadSystem IO where
  readFile path := attempt (IO.FS.readBinFile (String.ofList path.text))
  writeFile path data := attempt (IO.FS.writeBinFile (String.ofList path.text) data)
  readEnv name := do
    let value ← IO.getEnv (String.ofList name)
    return value.map String.toList
  currentDir := attempt (do
    let dir ← IO.currentDir
    return dir.toString.toUTF8)
  log _ := return ()

/-- What a request for help is answered with. -/
def usageText : String :=
  "Usage: depfile [OPTIONS] <COMMAND>\n\n" ++
  "Commands:\n" ++
  "  tokenize <DEPFILE>             Print the targets and prerequisites of a depfile\n" ++
  "  deps <DEPFILE>                 Print the prerequisites of a depfile\n" ++
  "  rewrite [--dry-run] <DEPFILE>  Make paths under the base directory relative\n" ++
  "  escape <NAMES>...              Print file names escaped for use in a depfile\n\n" ++
  "Options:\n" ++
  "      --config <CONFIG>          Path to a TOML config file\n" ++
  "      --base-dir <BASE_DIR>      Make absolute paths under this directory relative\n" ++
  "  -h, --help                     Print help\n"

end Depfile

open Depfile

def main (arguments : List String) : IO UInt32 := do
  let stdout ← IO.getStdout
  let stderr ← IO.getStderr
  match Command.Invocation.parse (arguments.map String.toList) with
  | .error .help => do
    stdout.putStr usageText
    return 0
  | .error .usage => do
    stderr.putStr usageText
    return 2
  | .ok invocation => do
    match ← (Command.run invocation : IO (Except Command.Failure Command.Printed)) with
    | .error e => do
      stderr.putStrLn ("Error: " ++ e.message)
      return 1
    | .ok printed => do
      stdout.putStr (String.ofList printed.stdout)
      stderr.putStr (String.ofList printed.stderr)
      return 0
