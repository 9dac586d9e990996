import Depfile.Layout.Revision
import Depfile.System.Error

/-!
# Log events

What the library reports while it works. An event has a level and a text; whether anybody reads
it makes no difference to the work.
-/

namespace Depfile

/-- How much attention an event deserves. -/
inductive Level where
  | trace
  | debug
  | warn
deriving DecidableEq, Repr

/-- Something worth noting in a log. -/
inductive Event where
  | readingConfig (path : AbsolutePath)
  | baseDirOverridden (name value : Text)
  | baseDirUnset
  | cannotRead (path : AbsolutePath) (e : ReadError)
  | replaced (r : Layout.Replacement)
  | unchanged (path : AbsolutePath)
  | revised (path : AbsolutePath)
  | cannotWrite (path : AbsolutePath) (e : FileError)

namespace Event

def level : Event → Level
  | readingConfig _ => .debug
  | baseDirOverridden _ _ => .debug
  | baseDirUnset => .debug
  | cannotRead _ _ => .warn
  | replaced _ => .trace
  | unchanged _ => .debug
  | revised _ => .debug
  | cannotWrite _ _ => .warn

def message : Event → String
  | readingConfig path => "Reading config file: " ++ String.ofList path.text
  | baseDirOverridden name value =>
    String.ofList name ++ " overrides base_dir: " ++ String.ofList value
  | baseDirUnset => "Base dir not set, skip using relative paths"
  | cannotRead path e =>
    "Cannot open dependency file " ++ String.ofList path.text ++ ": " ++ e.message
  | replaced r =>
    "rewrote depfile path: " ++ String.ofList r.old ++ " -> " ++ String.ofList r.new
  | unchanged path =>
    "No paths in dependency file " ++ String.ofList path.text ++ " made relative"
  | revised path => "Made paths relative in " ++ String.ofList path.text
  | cannotWrite path e =>
    "Cannot write dependency file " ++ String.ofList path.text ++ ": " ++ e.message

end Event

end Depfile
