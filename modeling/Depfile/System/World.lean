import Depfile.System.Basic

/-!
# Worlds

A world is a system as a value: a store of files, environment variables, a working directory,
and a record of what was asked of it. State transformers of a world are a system, for any
kind of store.
-/

namespace Depfile

/-- The operations of a store of files. Besides reading and writing, which the library does,
files can be placed in a store from outside, whatever protects them. -/
class FileStore (σ : Type) where
  read : σ → AbsolutePath → Except FileError ByteArray
  write : σ → AbsolutePath → ByteArray → Except FileError σ
  place : σ → AbsolutePath → ByteArray → σ
  makeDirectory : σ → AbsolutePath → σ
  protect : σ → AbsolutePath → σ

/-- A call of an operation of the system. -/
inductive Call where
  | read (path : AbsolutePath)
  | write (path : AbsolutePath)
  | env (name : Text)
  | cwd

/-- A system as a value. Calls and events are recorded in order. -/
structure World (σ : Type) where
  store : σ
  env : List (Text × ByteArray)
  cwd : ByteArray
  calls : List Call
  events : List Event

namespace World

variable {σ : Type}

/-- Record a call. -/
def called (call : Call) (world : World σ) : World σ :=
  { world with calls := world.calls ++ [call] }

/-- The value of a variable, if it is set and is text. -/
def getEnv (name : Text) (world : World σ) : Option Text :=
  (world.env.lookup name).bind Utf8.decode?

/-- Set a variable, or remove it. -/
def setEnv (name : Text) (value : Option ByteArray) (world : World σ) : World σ :=
  let others := world.env.filter (fun entry => !decide (entry.1 = name))
  match value with
  | some value => { world with env := (name, value) :: others }
  | none => { world with env := others }

/-- Forget what was recorded. -/
def forget (world : World σ) : World σ :=
  { world with calls := [], events := [] }

end World

instance {σ : Type} [FileStore σ] : MonadSystem (StateM (World σ)) where
  readFile path := fun world =>
    (FileStore.read world.store path, world.called (.read path))
  writeFile path data := fun world =>
    match FileStore.write world.store path data with
    | .ok store => (.ok (), { world.called (.write path) with store := store })
    | .error e => (.error e, world.called (.write path))
  readEnv name := fun world =>
    (world.getEnv name, world.called (.env name))
  currentDir := fun world =>
    (.ok world.cwd, world.called .cwd)
  log event := fun world =>
    ((), { world with events := world.events ++ [event] })

end Depfile
