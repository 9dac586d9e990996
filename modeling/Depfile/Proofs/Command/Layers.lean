import Depfile.Proofs.Command.Run
import Depfile.Proofs.Toml.Keys

/-!
# The layers of the configuration

A configuration comes from a file, from the environment and from an option, each of which may be
absent. Resolving layers goes through them in order: a layer that gives a value replaces what came
before, and a bad one ends it (`resolve_eq_ok_iff`, `resolve_eq_error_iff`).

The layer of a file is said in terms of the table in it. The table gives nothing if it is empty, and
the base directory if that is its only entry and a text. Any other table is bad
(`Layer.isGood_ofTable_iff`). That a configuration is read off a table in this way is
`Config.ofEntries_cases`, for which no key may have two values.

This is what a task does before it touches its dependency file (`run_configure`), and with a
bad file it does not even ask for the environment (`run_layers`).
-/

namespace Depfile

namespace Config

/-! ## One layer -/

/-- What a layer says of the base directory: nothing, a value, or why it is bad. -/
abbrev Layer := Except ConfigError (Option Text)

theorem hasDistinctKeys_of_table {data : ByteArray} {entries : Toml.Entries}
    (h : (Utf8.decode? data).bind Toml.document? = some entries) : entries.HasDistinctKeys := by
  rcases Option.bind_eq_some_iff.1 h with ⟨text, _, hdocument⟩
  exact Toml.hasDistinctKeys_of_document? hdocument

namespace Layer

/-- A layer that consists of a value or of nothing. The value is bad unless it is empty or an
absolute path. -/
def ofValue : Option Text → Layer
  | none => .ok none
  | some value =>
    if value = [] ∨ Path.isAbsolute value = true then
      .ok (some value)
    else
      .error (.notAbsolute ⟨value⟩)

/-- A table is bad for its first bad entry. If there is none, it gives the value of the base directory,
or nothing. -/
def ofTable (entries : Toml.Entries) : Layer :=
  match entries.findSome? shapeError? with
  | some e => .error (.misshapen e)
  | none =>
    match entries.lookup baseDirKey with
    | some (.text value) => ofValue (some value)
    | _ => .ok none

/-- A file is bad if it cannot be read, if it is no document, or if its table is bad. -/
def ofFile {σ : Type} [FileStore σ] (store : σ) : Option AbsolutePath → Layer
  | none => .ok none
  | some path =>
    match FileStore.read store path with
    | .error e => .error (.unreadable path e)
    | .ok data =>
      match (Utf8.decode? data).bind Toml.document? with
      | none => .error .malformed
      | some entries => ofTable entries

/-- The layer is absent or has a valid value. -/
def IsGood (layer : Layer) : Prop :=
  ∃ value, layer = .ok value

/-- The value of a good layer, if it has one. -/
def value? : Layer → Option Text
  | .ok value => value
  | .error _ => none

theorem isGood_ok (value : Option Text) : IsGood (.ok value) :=
  ⟨value, rfl⟩

theorem not_isGood_error (e : ConfigError) : ¬IsGood (.error e) := by
  rintro ⟨value, ⟨⟩⟩

theorem isGood_ofValue_iff {value : Option Text} :
    IsGood (ofValue value) ↔
      ∀ baseDir, value = some baseDir → baseDir = [] ∨ Path.isAbsolute baseDir = true := by
  cases value with
  | none => simp [ofValue, isGood_ok]
  | some value =>
    by_cases hvalid : value = [] ∨ Path.isAbsolute value = true
    · simp [ofValue, hvalid, isGood_ok]
    · simp [ofValue, hvalid, not_isGood_error]

theorem ofTable_single (value : Text) :
    ofTable [(baseDirKey, .text value)] = ofValue (some value) := by
  simp [ofTable, shapeError?]

theorem ofTable_of_findSome? {entries : Toml.Entries} {e : ShapeError}
    (h : entries.findSome? shapeError? = some e) : ofTable entries = .error (.misshapen e) := by
  simp [ofTable, h]

theorem isGood_ofTable_iff {entries : Toml.Entries} (hkeys : entries.HasDistinctKeys) :
    IsGood (ofTable entries) ↔ entries = [] ∨
      ∃ baseDir, entries = [(baseDirKey, .text baseDir)] ∧
        (baseDir = [] ∨ Path.isAbsolute baseDir = true) := by
  rcases ofEntries_cases hkeys with ⟨rfl, _⟩ | ⟨value, rfl, _⟩ | ⟨e, hshape, herror⟩
  · simp [ofTable, isGood_ok]
  · simp [ofTable_single, isGood_ofValue_iff]
  · -- Neither of the good tables has a bad entry.
    have hbad : ¬IsGood (ofTable entries) := by
      simpa [ofTable_of_findSome? hshape] using not_isGood_error (.misshapen e)
    refine iff_of_false hbad ?_
    rintro (rfl | ⟨baseDir, rfl, _⟩)
    · cases hshape
    · simp [shapeError?] at hshape

theorem isGood_ofFile_iff {σ : Type} [FileStore σ] {store : σ} {path : Option AbsolutePath} :
    IsGood (ofFile store path) ↔ ∀ file, path = some file →
      ∃ data entries, FileStore.read store file = .ok data ∧
        (Utf8.decode? data).bind Toml.document? = some entries ∧
        (entries = [] ∨ ∃ baseDir, entries = [(baseDirKey, .text baseDir)] ∧
          (baseDir = [] ∨ Path.isAbsolute baseDir = true)) := by
  cases path with
  | none => simp [ofFile, isGood_ok]
  | some file =>
    cases hread : FileStore.read store file with
    | error e => simp [ofFile, hread, not_isGood_error]
    | ok data =>
      cases htable : (Utf8.decode? data).bind Toml.document? with
      | none => simp [ofFile, hread, htable, not_isGood_error]
      | some entries =>
        simpa [ofFile, hread, htable] using isGood_ofTable_iff (hasDistinctKeys_of_table htable)

theorem value?_ofValue {value : Option Text} (h : IsGood (ofValue value)) :
    (ofValue value).value? = value := by
  cases value with
  | none => rfl
  | some value =>
    have hvalid := isGood_ofValue_iff.1 h value rfl
    simp [ofValue, hvalid, value?]

end Layer

/-! ## Resolving layers -/

/-- Go through layers, of which each may replace the base directory. -/
def resolve : List Layer → Config → Except ConfigError Config
  | [], config => .ok config
  | .error e :: _, _ => .error e
  | .ok none :: layers, config => resolve layers config
  | .ok (some value) :: layers, config => resolve layers { config with baseDir := value }

/-- The last value that a layer gives. -/
def lastValue? (layers : List Layer) : Option Text :=
  (layers.filterMap Layer.value?).getLast?

/-- Layers give a configuration exactly if all of them are good, and then the last value wins. -/
theorem resolve_eq_ok_iff {layers : List Layer} {config result : Config} :
    resolve layers config = .ok result ↔
      (∀ layer ∈ layers, layer.IsGood) ∧
        result.baseDir = (lastValue? layers).getD config.baseDir := by
  induction layers generalizing config with
  | nil =>
    rcases config with ⟨baseDir⟩
    rcases result with ⟨baseDir'⟩
    simp [resolve, lastValue?, eq_comm]
  | cons layer layers ih =>
    match layer with
    | .error e => simp [resolve, Layer.not_isGood_error]
    | .ok none => simpa [resolve, Layer.isGood_ok, lastValue?, Layer.value?] using ih
    | .ok (some value) =>
      -- The value takes the place of what the configuration had before.
      have hlast : (lastValue? (.ok (some value) :: layers)).getD config.baseDir =
          (lastValue? layers).getD value := by
        simp [lastValue?, Layer.value?, List.getLast?_cons]
      rw [hlast, resolve, ih]
      simp [Layer.isGood_ok]

/-- There is an error exactly if there is a bad layer, and it is the error of the first one. -/
theorem resolve_eq_error_iff {layers : List Layer} {config : Config} {e : ConfigError} :
    resolve layers config = .error e ↔
      ∃ before after, layers = before ++ .error e :: after ∧
        ∀ layer ∈ before, Layer.IsGood layer := by
  induction layers generalizing config with
  | nil => simp [resolve]
  | cons layer layers ih =>
    have hgood : ∀ value, (∃ before after, layers = before ++ .error e :: after ∧
          ∀ layer ∈ before, Layer.IsGood layer) ↔
        ∃ before after, (.ok value :: layers : List Layer) = before ++ .error e :: after ∧
          ∀ layer ∈ before, Layer.IsGood layer := by
      intro value
      constructor
      · rintro ⟨before, after, rfl, hbefore⟩
        exact ⟨.ok value :: before, after, rfl, by simpa [Layer.isGood_ok] using hbefore⟩
      · rintro ⟨before, after, heq, hbefore⟩
        cases before with
        | nil => cases heq
        | cons first before =>
          cases heq
          exact ⟨before, after, rfl, fun layer hlayer => hbefore layer (by simp [hlayer])⟩
    match layer with
    | .error e' =>
      constructor
      · rintro ⟨⟩
        exact ⟨[], layers, rfl, by simp⟩
      · rintro ⟨before, after, heq, hbefore⟩
        cases before with
        | nil =>
          cases heq
          rfl
        | cons first before =>
          cases heq
          exact absurd (hbefore _ (by simp)) (Layer.not_isGood_error e')
    | .ok none =>
      rw [resolve, ih]
      exact hgood none
    | .ok (some value) =>
      rw [resolve, ih]
      exact hgood (some value)

theorem resolve_append (front back : List Layer) (config : Config) :
    resolve (front ++ back) config = resolve front config >>= resolve back := by
  induction front generalizing config with
  | nil => rfl
  | cons layer front ih =>
    match layer with
    | .error e => rfl
    | .ok none => exact ih config
    | .ok (some value) => exact ih { config with baseDir := value }

theorem withBaseDir_eq_resolve (value : Text) (config : Config) :
    config.withBaseDir value = resolve [.ofValue (some value)] config := by
  by_cases hvalid : value = [] ∨ Path.isAbsolute value = true <;>
    simp [withBaseDir, check, isValidBaseDir_iff, Layer.ofValue, resolve, hvalid]

theorem ofToml_eq_resolve (data : ByteArray) :
    ofToml data = match (Utf8.decode? data).bind Toml.document? with
      | none => .error .malformed
      | some entries => resolve [.ofTable entries] {} := by
  unfold ofToml
  cases htable : (Utf8.decode? data).bind Toml.document? with
  | none => rfl
  | some entries =>
    have hkeys := hasDistinctKeys_of_table htable
    rcases ofEntries_cases hkeys with ⟨rfl, hconfig⟩ | ⟨value, rfl, hconfig⟩ | ⟨e, hshape, herror⟩
    · rfl
    · have hcheck : check ⟨value⟩ = resolve [.ofValue (some value)] {} :=
        withBaseDir_eq_resolve value {}
      simpa [hconfig, Layer.ofTable_single] using hcheck
    · simp [herror, Layer.ofTable_of_findSome? hshape, resolve]

/-! ## Layers of a world -/

variable {σ : Type} [FileStore σ]

theorem run_readFileLayer (path : Option AbsolutePath) (world : World σ) :
    ((readFileLayer path : StateM (World σ) _).run world).1 =
      resolve [.ofFile world.store path] {} := by
  cases path with
  | none => rfl
  | some path =>
    cases hread : FileStore.read world.store path with
    | error e => simp [readFileLayer, hread, Layer.ofFile, resolve]
    | ok data =>
      cases htable : (Utf8.decode? data).bind Toml.document? <;>
        simp [readFileLayer, hread, Layer.ofFile, ofToml_eq_resolve, htable, resolve]

theorem run_readEnvLayer (config : Config) (world : World σ) :
    ((readEnvLayer config : StateM (World σ) _).run world).1 =
      resolve [.ofValue (world.getEnv baseDirVariable)] config := by
  cases hvalue : world.getEnv baseDirVariable with
  | none => simp [readEnvLayer, hvalue, Layer.ofValue, resolve]
  | some value => simp [readEnvLayer, hvalue, withBaseDir_eq_resolve]

theorem run_load (path : Option AbsolutePath) (world : World σ) :
    ((load path : StateM (World σ) _).run world).1 =
      resolve [.ofFile world.store path, .ofValue (world.getEnv baseDirVariable)] {} := by
  have hsplit := resolve_append [.ofFile world.store path]
    [.ofValue (world.getEnv baseDirVariable)] {}
  rw [← run_readFileLayer path world] at hsplit
  rcases exists_run_readFileLayer path world with ⟨events, hafter⟩
  cases hfile : ((readFileLayer path : StateM (World σ) _).run world).1 with
  | error e =>
    rw [hfile] at hsplit
    have hresolve : resolve [.ofFile world.store path,
        .ofValue (world.getEnv baseDirVariable)] {} = .error e := hsplit
    simp [load, hfile, hresolve]
  | ok config =>
    rw [hfile] at hsplit
    have hresolve : resolve [.ofFile world.store path,
        .ofValue (world.getEnv baseDirVariable)] {} =
          resolve [.ofValue (world.getEnv baseDirVariable)] config := hsplit
    -- What has been recorded does not change the environment.
    have henv : ((readEnvLayer config : StateM (World σ) _).run
        (world.record (path.toList.map .read) events)).1 =
          resolve [.ofValue (world.getEnv baseDirVariable)] config := run_readEnvLayer config _
    simp [load, hfile, hafter, henv, hresolve]

end Config

namespace Command

open Config (Layer)

variable {σ : Type} [FileStore σ] {world : World σ} {options : Options} {cwd : AbsolutePath}

/-- The layers of a task's configuration: the file, the environment and the option. -/
def layers (world : World σ) (cwd : AbsolutePath) (options : Options) : List Layer :=
  [.ofFile world.store (options.config.map cwd.append),
    .ofValue (world.getEnv Config.baseDirVariable), .ofValue options.baseDir]

theorem run_configure (world : World σ) (cwd : AbsolutePath) (options : Options) :
    ((configure cwd options : StateM (World σ) _).run world).1 =
      Config.resolve (layers world cwd options) {} := by
  have hsplit := Config.resolve_append
    [.ofFile world.store (options.config.map cwd.append),
      .ofValue (world.getEnv Config.baseDirVariable)] [.ofValue options.baseDir] {}
  rw [← Config.run_load] at hsplit
  cases hload : ((Config.load (options.config.map cwd.append) : StateM (World σ) _).run world).1 with
  | error e =>
    rw [hload] at hsplit
    have hresolve : Config.resolve (layers world cwd options) {} = .error e := hsplit
    simp [configure, hload, hresolve]
  | ok config =>
    rw [hload] at hsplit
    have hresolve : Config.resolve (layers world cwd options) {} =
        Config.resolve [.ofValue options.baseDir] config := hsplit
    cases hbase : options.baseDir with
    | none => simp [configure, hload, hbase, hresolve, Layer.ofValue, Config.resolve]
    | some value => simp [configure, hload, hbase, hresolve, Config.withBaseDir_eq_resolve]

theorem lastValue?_layers (h : ∀ layer ∈ layers world cwd options, layer.IsGood) :
    Config.lastValue? (layers world cwd options) =
      (options.baseDir <|> world.getEnv Config.baseDirVariable <|>
        (Layer.ofFile world.store (options.config.map cwd.append)).value?) := by
  have henv := Layer.value?_ofValue (h (.ofValue (world.getEnv Config.baseDirVariable))
    (by simp [layers]))
  have hoption := Layer.value?_ofValue (h (.ofValue options.baseDir) (by simp [layers]))
  simp only [Config.lastValue?, layers, List.filterMap_cons, List.filterMap_nil, henv, hoption]
  cases options.baseDir <;> cases world.getEnv Config.baseDirVariable <;>
    cases (Layer.ofFile world.store (options.config.map cwd.append)).value? <;> rfl

/-- The calls by which a configuration is looked for. A bad file is the last thing looked at. -/
def configureCalls (world : World σ) (cwd : AbsolutePath) (options : Options) : List Call :=
  match Layer.ofFile world.store (options.config.map cwd.append) with
  | .ok _ => Config.loadCalls (options.config.map cwd.append)
  | .error _ => (options.config.map cwd.append).toList.map .read

theorem exists_run_configure_calls (world : World σ) (cwd : AbsolutePath) (options : Options) :
    ∃ events, ((configure cwd options : StateM (World σ) _).run world).2 =
      world.record (configureCalls world cwd options) events := by
  have hfile := Config.run_readFileLayer (options.config.map cwd.append) world
  rw [run_configure_world]
  unfold configureCalls
  split
  · rename_i value hlayer
    cases hresolve : Config.resolve [.ofFile world.store (options.config.map cwd.append)] {} with
    | ok config => exact Config.exists_run_load_of_file (hfile.trans hresolve)
    | error e =>
      rw [hlayer] at hresolve
      cases value <;> cases hresolve
  · rename_i e hlayer
    rw [hlayer] at hfile
    exact Config.exists_run_load_of_error hfile

/-- In a working directory, a task gets its configuration exactly if all layers are good, and then
the option goes before the environment and the environment before the file. A file is good if it holds
a document without entries, or one whose only entry is a valid base directory. Otherwise the task
fails with the error of the first bad layer. By then it has changed nothing, and it has only asked for
what the layers need. Without a working directory it does not even get there. -/
theorem run_layers {task : Task} (htask : task.isConfigured = true) (world : World σ)
    (options : Options) :
    (world.directory? = none →
      (run ⟨options, task⟩ : StateM (World σ) _).run world =
        (.error (.badWorkingDirectory (Utf8.decodeLossy world.cwd.toList)),
          world.record [.cwd] [])) ∧
    ∀ cwd, world.directory? = some cwd →
      ((∃ config, ((configure cwd options : StateM (World σ) _).run world).1 = .ok config) ↔
        (∀ file, options.config.map cwd.append = some file →
          ∃ data entries, FileStore.read world.store file = .ok data ∧
            (Utf8.decode? data).bind Toml.document? = some entries ∧
            (entries = [] ∨ ∃ baseDir, entries = [(Config.baseDirKey, .text baseDir)] ∧
              (baseDir = [] ∨ Path.isAbsolute baseDir = true))) ∧
        (∀ baseDir, world.getEnv Config.baseDirVariable = some baseDir →
          baseDir = [] ∨ Path.isAbsolute baseDir = true) ∧
        (∀ baseDir, options.baseDir = some baseDir →
          baseDir = [] ∨ Path.isAbsolute baseDir = true)) ∧
      (∀ config, ((configure cwd options : StateM (World σ) _).run world).1 = .ok config →
        config.baseDir = (options.baseDir <|> world.getEnv Config.baseDirVariable <|>
          (Layer.ofFile world.store (options.config.map cwd.append)).value?).getD [] ∧
        ∃ events, (run ⟨options, task⟩ : StateM (World σ) _).run world =
          (runConfigured config cwd task).run (world.record (setupCalls options cwd) events)) ∧
      (∀ e, ((configure cwd options : StateM (World σ) _).run world).1 = .error e →
        (∃ before after, layers world cwd options = before ++ .error e :: after ∧
          ∀ layer ∈ before, Layer.IsGood layer) ∧
        ∃ events, (run ⟨options, task⟩ : StateM (World σ) _).run world =
          (.error (.config e),
            world.record (.cwd :: configureCalls world cwd options) events)) := by
  refine ⟨run_of_not_directory _, fun cwd hcwd => ⟨?_, ?_, ?_⟩⟩
  · rw [run_configure, ← Layer.isGood_ofFile_iff, ← Layer.isGood_ofValue_iff,
      ← Layer.isGood_ofValue_iff]
    constructor
    · rintro ⟨config, hconfig⟩
      have hgood := (Config.resolve_eq_ok_iff.1 hconfig).1
      simpa [layers] using hgood
    · intro hgood
      exact ⟨⟨_⟩, Config.resolve_eq_ok_iff.2 ⟨by simpa [layers] using hgood, rfl⟩⟩
  · intro config hconfig
    refine ⟨?_, exists_run_of_configured htask hcwd hconfig⟩
    rw [run_configure] at hconfig
    rcases Config.resolve_eq_ok_iff.1 hconfig with ⟨hgood, hvalue⟩
    rw [hvalue, lastValue?_layers hgood]
  · intro e he
    refine ⟨?_, ?_⟩
    · rw [run_configure] at he
      exact Config.resolve_eq_error_iff.1 he
    · rcases exists_run_configure_calls (world.record [.cwd] []) cwd options with ⟨events, hafter⟩
      refine ⟨events, ?_⟩
      rw [run_of_isConfigured htask hcwd, he, hafter]
      simp [configureCalls]

/-- The line `base_dir='/f'`. -/
def goodSetting : Text :=
  ['b', 'a', 's', 'e', '_', 'd', 'i', 'r', '=', '\x27', '/', 'f', '\x27']

/-- The line `base_dir=true`. -/
def badSetting : Text :=
  ['b', 'a', 's', 'e', '_', 'd', 'i', 'r', '=', 't', 'r', 'u', 'e']

/-- The root as the working directory, a file in it that holds the text, and the variable. -/
def layeredWorld (text : Text) : World Memory where
  store := ⟨[(AbsolutePath.root.append ['c'], Utf8.encode text)], []⟩
  env := [(Config.baseDirVariable, Utf8.encode ['/', 'v'])]
  cwd := Utf8.encode ['/']
  calls := []
  events := []

/-- The options `--config c --base-dir /o`. -/
def layeredOptions : Options :=
  ⟨some ['c'], some ['/', 'o']⟩

theorem directory?_layeredWorld (text : Text) :
    (layeredWorld text).directory? = some .root := by
  simp [World.directory?, layeredWorld, Utf8.decode?_encode, AbsolutePath.of?_eq_some,
    AbsolutePath.root]

theorem read_layeredWorld (text : Text) :
    FileStore.read (layeredWorld text).store (AbsolutePath.root.append ['c']) =
      .ok (Utf8.encode text) := by
  simp [FileStore.read, layeredWorld, Memory.contents?]

theorem getEnv_layeredWorld (text : Text) :
    (layeredWorld text).getEnv Config.baseDirVariable = some ['/', 'v'] := by
  simp [World.getEnv, layeredWorld, Utf8.decode?_encode]

theorem baseDirKey_eq : Config.baseDirKey = ['b', 'a', 's', 'e', '_', 'd', 'i', 'r'] :=
  rfl

theorem document?_goodSetting :
    Toml.document? goodSetting = some [(Config.baseDirKey, .text ['/', 'f'])] := by
  rw [baseDirKey_eq]
  rfl

theorem document?_badSetting :
    Toml.document? badSetting = some [(Config.baseDirKey, .boolean true)] := by
  rw [baseDirKey_eq]
  rfl

theorem ofFile_badSetting :
    Layer.ofFile (layeredWorld badSetting).store (some (AbsolutePath.root.append ['c'])) =
      .error (.misshapen (.notText (.boolean true))) := by
  have htable : Layer.ofTable [(Config.baseDirKey, .boolean true)] =
      .error (.misshapen (.notText (.boolean true))) :=
    Layer.ofTable_of_findSome? (by simp [Config.shapeError?])
  simp [Layer.ofFile, read_layeredWorld, Utf8.decode?_encode, document?_badSetting, htable]

/-- The file, the variable and the option are all given. If all are good, the option wins. If the file
is bad, the error is the file's although the variable and the option are good, and the variable is not
asked for. -/
theorem run_layers_layeredWorld :
    (∃ events, (run ⟨layeredOptions, .deps ['d']⟩ : StateM (World Memory) _).run
        (layeredWorld goodSetting) =
      (runConfigured ⟨['/', 'o']⟩ .root (.deps ['d'])).run ((layeredWorld goodSetting).record
        [.cwd, .read (AbsolutePath.root.append ['c']), .env Config.baseDirVariable] events)) ∧
    ∃ events, (run ⟨layeredOptions, .deps ['d']⟩ : StateM (World Memory) _).run
        (layeredWorld badSetting) =
      (.error (.config (.misshapen (.notText (.boolean true)))),
        (layeredWorld badSetting).record [.cwd, .read (AbsolutePath.root.append ['c'])] events) := by
  have htask : (Task.deps ['d']).isConfigured = true := rfl
  refine ⟨?_, ?_⟩
  · have hlayers := (run_layers htask (layeredWorld goodSetting) layeredOptions).2 .root
      (directory?_layeredWorld goodSetting)
    -- Every layer is good, so there is a configuration.
    have hconfig : ∃ config, ((configure .root layeredOptions : StateM (World Memory) _).run
        (layeredWorld goodSetting)).1 = .ok config := by
      refine hlayers.1.2 ⟨?_, ?_, ?_⟩
      · intro file hfile
        have hfile : AbsolutePath.root.append ['c'] = file := by
          simpa [layeredOptions] using hfile
        subst hfile
        refine ⟨_, _, read_layeredWorld goodSetting, ?_, Or.inr ⟨['/', 'f'], rfl, by decide⟩⟩
        simpa [Utf8.decode?_encode] using document?_goodSetting
      · intro baseDir hbaseDir
        have hbaseDir : ['/', 'v'] = baseDir := by
          simpa [getEnv_layeredWorld] using hbaseDir
        subst hbaseDir
        decide
      · intro baseDir hbaseDir
        have hbaseDir : ['/', 'o'] = baseDir := by
          simpa [layeredOptions] using hbaseDir
        subst hbaseDir
        decide
    rcases hconfig with ⟨config, hconfig⟩
    rcases hlayers.2.1 config hconfig with ⟨hbaseDir, hrun⟩
    have hoption : config = ⟨['/', 'o']⟩ := by
      cases config
      simpa [layeredOptions] using hbaseDir
    subst hoption
    exact hrun
  · have hlayers := (run_layers htask (layeredWorld badSetting) layeredOptions).2 .root
      (directory?_layeredWorld badSetting)
    have hbad : ((configure .root layeredOptions : StateM (World Memory) _).run
        (layeredWorld badSetting)).1 = .error (.misshapen (.notText (.boolean true))) := by
      simp [run_configure, layers, layeredOptions, ofFile_badSetting, Config.resolve]
    rcases (hlayers.2.2 _ hbad).2 with ⟨events, hrun⟩
    refine ⟨events, ?_⟩
    simpa [configureCalls, layeredOptions, ofFile_badSetting] using hrun

end Command

end Depfile
