import Depfile.System.Event
import Depfile.Text.Utf8

/-!
# Systems

The library reaches files, the environment and the log only through the operations of a system.
Any monad that has them will do, so that the same definitions run on a disk and on files in
memory.
-/

namespace Depfile

/-- The operations of a system. The working directory is given as bytes, because nothing makes
sure that it is text. -/
class MonadSystem (m : Type → Type) where
  readFile : AbsolutePath → m (Except FileError ByteArray)
  writeFile : AbsolutePath → ByteArray → m (Except FileError Unit)
  readEnv : Text → m (Option Text)
  currentDir : m (Except FileError ByteArray)
  log : Event → m Unit

export MonadSystem (readFile writeFile readEnv currentDir log)

variable {m : Type → Type} [Monad m] [MonadSystem m]

/-- Read a dependency file as text. -/
def readText (path : AbsolutePath) : m (Except ReadError Text) := do
  match ← readFile path with
  | .error e => return .error (.file e)
  | .ok bytes =>
    match Utf8.decode? bytes with
    | none => return .error (.notUtf8 path)
    | some text => return .ok text

/-- Log events in order. -/
def logAll : List Event → m Unit
  | [] => return ()
  | event :: events => do
    log event
    logAll events

end Depfile
