import Depfile.Config
import Depfile.Layout.Revision

/-!
# Normalizing a dependency file in place

A dependency file that a compiler wrote is read, its paths are made relative, and it is written
back if that changed anything. Nothing that goes wrong is an error: a file that could not be
normalized is only less portable.
-/

namespace Depfile

/-- What happened to a dependency file. -/
inductive Outcome where
  /-- No base directory is set. -/
  | disabled
  | unreadable
  /-- There was nothing to replace, and the file was not written. -/
  | unchanged
  | revised
  | unwritable
deriving DecidableEq, Repr

variable {m : Type → Type} [Monad m] [MonadSystem m]

/-- Normalize the dependency file at a path, as seen from a working directory. -/
def normalizeFile (config : Config) (cwd path : AbsolutePath) : m Outcome := do
  if config.baseDir.isEmpty then
    log .baseDirUnset
    return .disabled
  else
    match ← readText path with
    | .error e => do
      log (.cannotRead path e)
      return .unreadable
    | .ok text =>
      match Layout.revise (config.scope cwd) text with
      | none => do
        log (.unchanged path)
        return .unchanged
      | some revision => do
        logAll (revision.replacements.map Event.replaced)
        match ← writeFile path (Utf8.encode revision.text) with
        | .ok () => do
          log (.revised path)
          return .revised
        | .error e => do
          log (.cannotWrite path e)
          return .unwritable

end Depfile
