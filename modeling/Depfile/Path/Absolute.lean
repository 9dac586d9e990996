import Depfile.Path.Basic

/-!
# Absolute paths

A path that is known to be absolute is a type of its own, so that functions which need one,
such as those that are given a working directory, do not have to check it again. Appending a
path to an absolute one gives an absolute path, whatever is appended.
-/

namespace Depfile

/-- A path that starts at the root. -/
@[ext]
structure AbsolutePath where
  text : Text
  isAbsolute : Path.isAbsolute text = true

namespace AbsolutePath

/-- The path as an absolute one, if it is absolute. -/
def of? (path : Text) : Option AbsolutePath :=
  if h : Path.isAbsolute path = true then
    some ⟨path, h⟩
  else
    none

theorem of?_eq_some {path : Text} {absolute : AbsolutePath} :
    of? path = some absolute ↔ absolute.text = path := by
  constructor
  · intro h
    by_cases hp : Path.isAbsolute path = true
    · rw [of?, dif_pos hp] at h
      cases h
      rfl
    · rw [of?, dif_neg hp] at h
      cases h
  · intro h
    cases h
    rw [of?, dif_pos absolute.isAbsolute]

/-- The root directory. -/
def root : AbsolutePath :=
  ⟨['/'], rfl⟩

end AbsolutePath

namespace Path

theorem isAbsolute_append {path : Text} (h : isAbsolute path = true) (rest : Text) :
    isAbsolute (path ++ rest) = true := by
  cases path with
  | nil => cases h
  | cons c path =>
    by_cases hc : c = '/'
    · subst hc
      rfl
    · simp [isAbsolute, hc] at h

end Path

namespace AbsolutePath

/-- The path that `path` means when it is read in the directory `dir`: an absolute path means
itself, and any other one is appended to the directory, with a separator between them unless
the directory's text ends with one. Nothing is normalized. -/
def append (dir : AbsolutePath) (path : Text) : AbsolutePath :=
  if h : Path.isAbsolute path = true then
    ⟨path, h⟩
  else if dir.text.getLast? = some '/' then
    ⟨dir.text ++ path, Path.isAbsolute_append dir.isAbsolute path⟩
  else
    ⟨dir.text ++ '/' :: path, Path.isAbsolute_append dir.isAbsolute ('/' :: path)⟩

end AbsolutePath

/-- The refusal of a path that was expected to be absolute. -/
structure NotAbsolute where
  path : Text
deriving DecidableEq, Repr

namespace NotAbsolute

/-- The refused path is shown as it is, between double quotes. -/
def message (e : NotAbsolute) : String :=
  "not an absolute path: \"" ++ String.ofList e.path ++ "\""

end NotAbsolute

/-- The path as an absolute one, or the refusal that names it. -/
def AbsolutePath.check (path : Text) : Except NotAbsolute AbsolutePath :=
  match AbsolutePath.of? path with
  | some absolute => .ok absolute
  | none => .error ⟨path⟩

end Depfile
