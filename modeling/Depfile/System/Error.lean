import Depfile.Path.Absolute

/-!
# Errors of files

Why a file could not be read or written, and why a dependency file could not be read as text.
-/

namespace Depfile

/-- Why a file could not be read or written. The first two are those of files in memory, and the
next five are those of a disk. -/
inductive FileError where
  | missing
  | readOnly
  | noSuchEntry
  | isDirectory
  | notDirectory
  | nameTooLong
  | nulInPath
  | other (text : String)
deriving DecidableEq, Repr

namespace FileError

/-- The text of an error. Errors that a system reports show its number for them; a path with a NUL
is refused before the system sees it. -/
def message : FileError → String
  | missing => "file not found"
  | readOnly => "read-only file"
  | noSuchEntry => "No such file or directory (os error 2)"
  | isDirectory => "Is a directory (os error 21)"
  | notDirectory => "Not a directory (os error 20)"
  | nameTooLong => "File name too long (os error 36)"
  | nulInPath => "file name contained an unexpected NUL byte"
  | other text => text

end FileError

/-- Why a dependency file could not be read. -/
inductive ReadError where
  | file (e : FileError)
  | notUtf8 (path : AbsolutePath)

namespace ReadError

def message : ReadError → String
  | file e => e.message
  | notUtf8 path => String.ofList path.text ++ " is not valid UTF-8"

end ReadError

end Depfile
