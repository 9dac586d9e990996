import Depfile.System.Basic
import Depfile.Number.Shortest
import Depfile.Toml.Document

/-!
# Configuration

The only setting is the base directory, under which paths are made relative. It is empty, which
switches this off, or absolute. Its value comes from three layers: a configuration file, then the
environment, then whatever the caller sets. A later layer replaces the value of an earlier
one, and the first layer with a bad value decides that there is no configuration.

* `Config.ofToml`: the configuration in the text of a file;
* `Config.load`: the layers of file and environment;
* `Config.withBaseDir`: a value from the caller.
-/

namespace Depfile

/-- The settings. -/
structure Config where
  baseDir : Text := []
deriving DecidableEq, Repr

/-! ## Errors -/

/-- A document that is valid but is no configuration. -/
inductive ShapeError where
  | unknownField (key : Text)
  | notText (found : Toml.Node)

namespace ShapeError

/-- What a value is called that stands where a string was expected. Dates and times are read as
maps of their fields. -/
def describe : Toml.Node → String
  | .text value => "string \"" ++ String.ofList value ++ "\""
  | .integer value => "integer `" ++ toString value ++ "`"
  | .float value => "floating point `" ++ value.text ++ "`"
  | .boolean true => "boolean `true`"
  | .boolean false => "boolean `false`"
  | .moment => "map"
  | .array _ => "sequence"
  | .table _ _ => "map"
  | .tables _ => "sequence"

def message : ShapeError → String
  | unknownField key => "unknown field `" ++ String.ofList key ++ "`, expected `base_dir`"
  | notText found => "invalid type: " ++ describe found ++ ", expected a string"

end ShapeError

/-- Why there is no configuration. -/
inductive ConfigError where
  | unreadable (path : AbsolutePath) (e : FileError)
  | malformed
  | misshapen (e : ShapeError)
  | notAbsolute (e : NotAbsolute)

namespace ConfigError

def message : ConfigError → String
  | unreadable path e =>
    "could not read config file " ++ String.ofList path.text ++ ": " ++ e.message
  | malformed => "invalid config file"
  | misshapen e => e.message
  | notAbsolute e => "invalid base_dir: " ++ e.message

end ConfigError

namespace Config

/-! ## Values of the base directory -/

/-- A base directory is empty or absolute. -/
def isValidBaseDir (baseDir : Text) : Bool :=
  baseDir.isEmpty || Path.isAbsolute baseDir

theorem isValidBaseDir_iff {baseDir : Text} :
    isValidBaseDir baseDir = true ↔ baseDir = [] ∨ Path.isAbsolute baseDir = true := by
  simp [isValidBaseDir]

/-- The configuration, if its base directory is valid. -/
def check (config : Config) : Except ConfigError Config :=
  if isValidBaseDir config.baseDir then
    .ok config
  else
    .error (.notAbsolute ⟨config.baseDir⟩)

/-- The configuration with another base directory, if that is valid. -/
def withBaseDir (baseDir : Text) (config : Config) : Except ConfigError Config :=
  check { config with baseDir := baseDir }

/-- The scope in which paths are made relative to a working directory. -/
def scope (config : Config) (cwd : AbsolutePath) : Scope :=
  ⟨config.baseDir, cwd⟩

/-! ## Configuration files -/

/-- The key of the base directory. -/
def baseDirKey : Text :=
  "base_dir".toList

/-- The configuration in a table, whose keys are looked at in order. -/
def ofEntries : Toml.Entries → Config → Except ShapeError Config
  | [], config => .ok config
  | (key, node) :: entries, config =>
    if key = baseDirKey then
      -- Keys of a table are distinct, so that this happens at most once.
      match node with
      | .text value => ofEntries entries { config with baseDir := value }
      | node => .error (.notText node)
    else
      .error (.unknownField key)

/-- What is wrong with an entry of a table that is to be a configuration: its key, or else a value
that is no text. -/
def shapeError? : Text × Toml.Node → Option ShapeError
  | (key, node) =>
    if key = baseDirKey then
      match node with
      | .text _ => none
      | node => some (.notText node)
    else
      some (.unknownField key)

theorem shapeError?_eq_none_iff {entry : Text × Toml.Node} :
    shapeError? entry = none ↔ ∃ value, entry = (baseDirKey, .text value) := by
  rcases entry with ⟨key, node⟩
  by_cases hkey : key = baseDirKey
  · cases node <;> simp [shapeError?, hkey]
  · simp [shapeError?, hkey]

theorem ofEntries_cons_of_shapeError? {entry : Text × Toml.Node} {entries : Toml.Entries}
    {config : Config} {e : ShapeError} (h : shapeError? entry = some e) :
    ofEntries (entry :: entries) config = .error e := by
  rcases entry with ⟨key, node⟩
  by_cases hkey : key = baseDirKey
  · cases node <;> simp_all [shapeError?, ofEntries]
  · simpa [shapeError?, ofEntries, hkey] using h

/-- The first bad entry decides. -/
theorem ofEntries_of_findSome? {entries : Toml.Entries} {config : Config} {e : ShapeError}
    (h : entries.findSome? shapeError? = some e) : ofEntries entries config = .error e := by
  induction entries generalizing config with
  | nil => cases h
  | cons entry entries ih =>
    cases hentry : shapeError? entry with
    | none =>
      have hrest : entries.findSome? shapeError? = some e := by
        simpa [List.findSome?_cons, hentry] using h
      rcases shapeError?_eq_none_iff.1 hentry with ⟨value, rfl⟩
      simpa [ofEntries] using ih hrest
    | some first =>
      have hfirst : first = e := by
        simpa [List.findSome?_cons, hentry] using h
      exact ofEntries_cons_of_shapeError? (hfirst ▸ hentry)

/-- A table without entries is the default configuration, one whose only entry is the base directory
as text is the configuration with it, and any other one is refused for its first bad entry. -/
theorem ofEntries_cases {entries : Toml.Entries} (hkeys : (entries.map Prod.fst).Nodup) :
    (entries = [] ∧ ofEntries entries {} = .ok {}) ∨
    (∃ value, entries = [(baseDirKey, .text value)] ∧ ofEntries entries {} = .ok ⟨value⟩) ∨
    ∃ e, entries.findSome? shapeError? = some e ∧ ofEntries entries {} = .error e := by
  cases hshape : entries.findSome? shapeError? with
  | some e => exact Or.inr (Or.inr ⟨e, rfl, ofEntries_of_findSome? hshape⟩)
  | none =>
    have hgood := List.findSome?_eq_none_iff.1 hshape
    match entries with
    | [] => exact Or.inl ⟨rfl, rfl⟩
    | [entry] =>
      rcases shapeError?_eq_none_iff.1 (hgood entry (by simp)) with ⟨value, rfl⟩
      exact Or.inr (Or.inl ⟨value, rfl, by simp [ofEntries]⟩)
    | first :: second :: others =>
      -- Both entries would have the same key.
      rcases shapeError?_eq_none_iff.1 (hgood first (by simp)) with ⟨value, rfl⟩
      rcases shapeError?_eq_none_iff.1 (hgood second (by simp)) with ⟨value', rfl⟩
      simp at hkeys

/-- The configuration in the contents of a file. Errors of notation come before errors of
shape, and those before a bad value. -/
def ofToml (data : ByteArray) : Except ConfigError Config :=
  match (Utf8.decode? data).bind Toml.document? with
  | none => .error .malformed
  | some entries =>
    match ofEntries entries {} with
    | .error e => .error (.misshapen e)
    | .ok config => check config

/-! ## Layers -/

/-- The environment variable that overrides the base directory. -/
def baseDirVariable : Text :=
  "DEPFIX_BASEDIR".toList

section

variable {m : Type → Type} [Monad m] [MonadSystem m]

/-- The configuration in a file, or the default one without a file. -/
def readFileLayer : Option AbsolutePath → m (Except ConfigError Config)
  | none => return .ok {}
  | some path => do
    log (.readingConfig path)
    match ← readFile path with
    | .error e => return .error (.unreadable path e)
    | .ok data => return ofToml data

/-- The configuration with the base directory from the environment, if the variable is set. -/
def readEnvLayer (config : Config) : m (Except ConfigError Config) := do
  match ← readEnv baseDirVariable with
  | none => return .ok config
  | some value => do
    log (.baseDirOverridden baseDirVariable value)
    return config.withBaseDir value

/-- The configuration from a file, if one is given, and the environment. -/
def load (path : Option AbsolutePath) : m (Except ConfigError Config) := do
  match ← readFileLayer path with
  | .error e => return .error e
  | .ok config => readEnvLayer config

end

end Config

end Depfile
