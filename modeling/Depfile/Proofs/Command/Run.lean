import Depfile.Proofs.Command.Report
import Depfile.Proofs.Normalization.Step

/-!
# What tasks ask for

All tasks but the revision of a file in place only look at the system. That one looks for the
working directory and the configuration, and once it has both it is one normalization
(`revises_run`).
-/

namespace Depfile

variable {σ : Type} {world : World σ}

/-- A call that leaves everything as it is. -/
def Call.IsLook (call : Call) : Prop :=
  ∀ path, call ≠ .write path

/-- The working directory, if it is an absolute path of text. -/
def World.directory? (world : World σ) : Option AbsolutePath :=
  (Utf8.decode? world.cwd).bind AbsolutePath.of?

variable [FileStore σ]

/-! ## Loading the configuration -/

namespace Config

variable {path : Option AbsolutePath} {config : Config}

/-- The calls of loading a configuration, if nothing goes wrong. -/
def loadCalls (path : Option AbsolutePath) : List Call :=
  path.toList.map .read ++ [.env baseDirVariable]

theorem isLook_of_mem_loadCalls {call : Call} (h : call ∈ loadCalls path) : call.IsLook := by
  intro written hwrite
  simp [loadCalls, hwrite] at h

theorem observes_readFileLayer (path : Option AbsolutePath) :
    Observes (fun call => call ∈ path.toList.map .read)
      (readFileLayer path : StateM (World σ) _) := by
  cases path with
  | none => exact .pure _
  | some path =>
    apply (Observes.log _).bind
    intro _
    apply (Observes.readFile path (by simp)).bind
    intro result
    cases result with
    | error e => exact .pure _
    | ok data => exact .pure _

theorem observes_readEnvLayer (config : Config) :
    Observes (fun call => call = .env baseDirVariable)
      (readEnvLayer config : StateM (World σ) _) := by
  refine Observes.bind (Observes.readEnv baseDirVariable rfl) ?_
  intro value
  cases value with
  | none => exact .pure _
  | some value =>
    apply (Observes.log _).bind
    intro _
    exact .pure _

theorem observes_load (path : Option AbsolutePath) :
    Observes (fun call => call ∈ loadCalls path) (load path : StateM (World σ) _) := by
  apply ((observes_readFileLayer path).mono (by simp [loadCalls])).bind
  intro result
  cases result with
  | error e => exact .pure _
  | ok config => exact (observes_readEnvLayer config).mono (by simp [loadCalls])

theorem exists_run_readFileLayer (path : Option AbsolutePath) (world : World σ) :
    ∃ events, ((readFileLayer path : StateM (World σ) _).run world).2 =
      world.record (path.toList.map .read) events := by
  cases path with
  | none => exact ⟨[], by simp [readFileLayer]⟩
  | some path =>
    refine ⟨[.readingConfig path], ?_⟩
    cases hread : FileStore.read world.store path <;> simp [readFileLayer, hread]

theorem exists_run_readEnvLayer (config : Config) (world : World σ) :
    ∃ events, ((readEnvLayer config : StateM (World σ) _).run world).2 =
      world.record [.env baseDirVariable] events := by
  cases hvalue : world.getEnv baseDirVariable with
  | none => exact ⟨[], by simp [readEnvLayer, hvalue]⟩
  | some value =>
    exact ⟨[.baseDirOverridden baseDirVariable value], by simp [readEnvLayer, hvalue]⟩

/-- With a good file the environment is asked for, whatever comes of that. -/
theorem exists_run_load_of_file
    (h : ((readFileLayer path : StateM (World σ) _).run world).1 = .ok config) :
    ∃ events, ((load path : StateM (World σ) _).run world).2 =
      world.record (loadCalls path) events := by
  rcases exists_run_readFileLayer path world with ⟨events, hfile⟩
  rcases exists_run_readEnvLayer config (world.record (path.toList.map .read) events) with
    ⟨events', henv⟩
  exact ⟨events ++ events', by simp [load, h, hfile, henv, loadCalls]⟩

/-- A bad file is the last thing that is looked at. -/
theorem exists_run_load_of_error {e : ConfigError}
    (h : ((readFileLayer path : StateM (World σ) _).run world).1 = .error e) :
    ∃ events, ((load path : StateM (World σ) _).run world).2 =
      world.record (path.toList.map .read) events := by
  rcases exists_run_readFileLayer path world with ⟨events, hfile⟩
  exact ⟨events, by simp [load, h, hfile]⟩

/-- A configuration comes only from a run that has made all calls. -/
theorem exists_run_load (h : ((load path : StateM (World σ) _).run world).1 = .ok config) :
    ∃ events, ((load path : StateM (World σ) _).run world).2 =
      world.record (loadCalls path) events := by
  cases hlayer : ((readFileLayer path : StateM (World σ) _).run world).1 with
  | error e => simp [load, hlayer] at h
  | ok layer => exact exists_run_load_of_file hlayer

end Config

namespace Command

variable {options : Options} {cwd depfile : AbsolutePath} {config : Config}

theorem run_workingDirectory (world : World σ) :
    (workingDirectory : StateM (World σ) _).run world =
      (match world.directory? with
        | some cwd => .ok cwd
        | none => .error (.badWorkingDirectory (Utf8.decodeLossy world.cwd.toList)),
      world.record [.cwd] []) := by
  cases hcwd : (Utf8.decode? world.cwd).bind AbsolutePath.of? <;>
    simp [workingDirectory, World.directory?, hcwd]

/-- The calls of a task before it reads a dependency file, if nothing goes wrong. -/
def setupCalls (options : Options) (cwd : AbsolutePath) : List Call :=
  .cwd :: Config.loadCalls (options.config.map cwd.append)

theorem isLook_of_mem_setupCalls {call : Call} (h : call ∈ setupCalls options cwd) :
    call.IsLook := by
  rcases List.mem_cons.1 h with rfl | hload
  · simp [Call.IsLook]
  · exact Config.isLook_of_mem_loadCalls hload

theorem read_mem_setupCalls {path : AbsolutePath} :
    Call.read path ∈ setupCalls options cwd ↔ options.config.map cwd.append = some path := by
  simp [setupCalls, Config.loadCalls]

theorem observes_workingDirectory :
    Observes (fun call => call = .cwd) (workingDirectory : StateM (World σ) _) := by
  refine Observes.bind (Observes.currentDir rfl) ?_
  intro result
  cases result with
  | error e => exact .pure _
  | ok bytes =>
    cases hcwd : (Utf8.decode? bytes).bind AbsolutePath.of? with
    | none => simpa [hcwd] using Observes.pure _
    | some cwd => simpa [hcwd] using Observes.pure _

theorem observes_configure (options : Options) (cwd : AbsolutePath) :
    Observes (fun call => call ∈ Config.loadCalls (options.config.map cwd.append))
      (configure cwd options : StateM (World σ) _) := by
  apply (Config.observes_load _).bind
  intro result
  cases result with
  | error e => exact .pure _
  | ok config =>
    cases hbase : options.baseDir with
    | none => simpa [hbase] using Observes.pure _
    | some baseDir => simpa [hbase] using Observes.pure _

/-- The option is no part of the world. -/
theorem run_configure_world (options : Options) (cwd : AbsolutePath) (world : World σ) :
    ((configure cwd options : StateM (World σ) _).run world).2 =
      ((Config.load (options.config.map cwd.append) : StateM (World σ) _).run world).2 := by
  cases hload : ((Config.load (options.config.map cwd.append) : StateM (World σ) _).run world).1 with
  | error e => simp [configure, hload]
  | ok loaded => cases hbase : options.baseDir <;> simp [configure, hload, hbase]

theorem exists_run_configure
    (h : ((configure cwd options : StateM (World σ) _).run world).1 = .ok config) :
    ∃ events, ((configure cwd options : StateM (World σ) _).run world).2 =
      world.record (Config.loadCalls (options.config.map cwd.append)) events := by
  rw [run_configure_world]
  cases hload : ((Config.load (options.config.map cwd.append) : StateM (World σ) _).run world).1 with
  | error e => simp [configure, hload] at h
  | ok loaded => exact Config.exists_run_load hload

/-! ## Tasks that only look -/

theorem observes_runTokenize (depfile : AbsolutePath) :
    Observes (fun call => call = .read depfile) (runTokenize depfile : StateM (World σ) _) := by
  refine Observes.bind (Observes.readText depfile rfl) ?_
  intro result
  cases result with
  | error e => exact .pure _
  | ok text => exact .pure _

theorem observes_runDeps (config : Config) (cwd depfile : AbsolutePath) :
    Observes (fun call => call = .read depfile)
      (runDeps config cwd depfile : StateM (World σ) _) := by
  refine Observes.bind (Observes.readText depfile rfl) ?_
  intro result
  cases result with
  | error e => exact .pure _
  | ok text => exact .pure _

theorem observes_runDryRun (config : Config) (cwd depfile : AbsolutePath) :
    Observes (fun call => call = .read depfile)
      (runDryRun config cwd depfile : StateM (World σ) _) := by
  unfold runDryRun
  split
  · exact .pure _
  · refine Observes.bind (Observes.readText depfile rfl) ?_
    intro result
    cases result with
    | error e => exact .pure _
    | ok text =>
      cases hrevise : Layout.revise (config.scope cwd) text with
      | none => simpa [hrevise] using Observes.pure _
      | some revision =>
        simp only [hrevise]
        apply (Observes.logAll _).bind
        intro _
        exact .pure _

/-- All tasks but the revision of a file in place leave everything as it is. -/
theorem observes_runIn {task : Task} (htask : ∀ depfile, task ≠ .revise depfile false)
    (cwd : AbsolutePath) (options : Options) :
    Observes Call.IsLook (runIn cwd options task : StateM (World σ) _) := by
  have hread : ∀ depfile call, call = Call.read depfile → call.IsLook := by
    intro depfile call hcall path hwrite
    cases hcall.symm.trans hwrite
  have hconfigure := (observes_configure (σ := σ) options cwd).mono
    (fun call => Config.isLook_of_mem_loadCalls)
  cases task with
  | tokenize depfile => exact (observes_runTokenize _).mono (hread _)
  | escape names => exact .pure _
  | deps depfile =>
    apply hconfigure.bind
    intro result
    cases result with
    | error e => exact .pure _
    | ok config => exact (observes_runDeps config cwd _).mono (hread _)
  | revise depfile dryRun =>
    cases dryRun with
    | false => exact absurd rfl (htask depfile)
    | true =>
      apply hconfigure.bind
      intro result
      cases result with
      | error e => exact .pure _
      | ok config => exact (observes_runDryRun config cwd _).mono (hread _)

theorem observes_run {invocation : Invocation}
    (htask : ∀ depfile, invocation.task ≠ .revise depfile false) :
    Observes Call.IsLook (run invocation : StateM (World σ) _) := by
  apply (observes_workingDirectory.mono (by rintro _ rfl path ⟨⟩)).bind
  intro result
  cases result with
  | error e => exact .pure _
  | ok cwd => exact observes_runIn htask cwd invocation.options

/-! ## Tasks with a configuration -/

/-- Does the task load the configuration? -/
def Task.isConfigured : Task → Bool
  | .tokenize _ | .escape _ => false
  | .deps _ | .revise _ _ => true

/-- What a task with a configuration does once it has one. -/
def runConfigured (config : Config) (cwd : AbsolutePath) (task : Task) :
    StateM (World σ) (Except Failure Printed) :=
  match task with
  | .tokenize depfile => runTokenize (cwd.append depfile)
  | .escape names => return .ok { stdout := printLines (names.map Token.escape) }
  | .deps depfile => runDeps config cwd (cwd.append depfile)
  | .revise depfile true => runDryRun config cwd (cwd.append depfile)
  | .revise depfile false => runRevise config cwd (cwd.append depfile)

theorem runIn_of_isConfigured {task : Task} (htask : task.isConfigured = true)
    (cwd : AbsolutePath) (options : Options) :
    (runIn cwd options task : StateM (World σ) _) = (do
      match ← configure cwd options with
      | .error e => return .error (.config e)
      | .ok config => runConfigured config cwd task) := by
  cases task with
  | tokenize depfile => cases htask
  | escape names => cases htask
  | deps depfile => rfl
  | revise depfile dryRun => cases dryRun <;> rfl

/-- Such a task fails with the error of the configuration, or it goes on with the configuration in
the world that loading has left. -/
theorem run_of_isConfigured {task : Task} (htask : task.isConfigured = true)
    (hcwd : world.directory? = some cwd) :
    (run ⟨options, task⟩ : StateM (World σ) _).run world =
      match ((configure cwd options : StateM (World σ) _).run world).1 with
      | .error e => (.error (.config e),
          ((configure cwd options : StateM (World σ) _).run (world.record [.cwd] [])).2)
      | .ok config => (runConfigured config cwd task).run
          ((configure cwd options : StateM (World σ) _).run (world.record [.cwd] [])).2 := by
  -- The configuration is loaded in a world that knows of one call more.
  have hload := (observes_configure (σ := σ) options cwd).result_record world [.cwd] []
  cases hconfig : ((configure cwd options : StateM (World σ) _).run world).1 with
  | error e =>
    simp [run, run_workingDirectory, hcwd, runIn_of_isConfigured htask, hload, hconfig]
  | ok config =>
    simp [run, run_workingDirectory, hcwd, runIn_of_isConfigured htask, hload, hconfig]

/-- A task that goes on has made all calls of the setup. -/
theorem exists_run_of_configured {task : Task} (htask : task.isConfigured = true)
    (hcwd : world.directory? = some cwd)
    (hconfig : ((configure cwd options : StateM (World σ) _).run world).1 = .ok config) :
    ∃ events, (run ⟨options, task⟩ : StateM (World σ) _).run world =
      (runConfigured config cwd task).run (world.record (setupCalls options cwd) events) := by
  have hload := (observes_configure (σ := σ) options cwd).result_record world [.cwd] []
  rcases exists_run_configure (hload.trans hconfig) with ⟨events, hafter⟩
  refine ⟨events, ?_⟩
  rw [run_of_isConfigured htask hcwd, hconfig]
  simp only [hafter, World.record_record, setupCalls]
  rfl

theorem run_of_not_directory (invocation : Invocation) (hcwd : world.directory? = none) :
    (run invocation : StateM (World σ) _).run world =
      (.error (.badWorkingDirectory (Utf8.decodeLossy world.cwd.toList)),
        world.record [.cwd] []) := by
  simp [run, run_workingDirectory, hcwd]

/-! ## The task that revises a file -/

/-- What the revision of a file in place comes to, and the world after it: it fails before the file
is looked at, or it is one normalization with the configuration that has been loaded. -/
inductive Revises (options : Options) (depfile : Text) (world : World σ) :
    Except Failure Printed → World σ → Prop where
  | fails {e : Failure} {calls : List Call} {events : List Event} :
      (∀ call ∈ calls, call.IsLook) →
      Revises options depfile world (.error e) (world.record calls events)
  | normalizes {cwd : AbsolutePath} {config : Config} {events : List Event} {outcome : Outcome}
      {after : World σ} :
      world.directory? = some cwd →
      ((configure cwd options : StateM (World σ) _).run world).1 = .ok config →
      Normalizes config cwd (cwd.append depfile)
        (world.record (setupCalls options cwd) events) outcome after →
      Revises options depfile world (.ok (report outcome (cwd.append depfile))) after

theorem revises_run (options : Options) (depfile : Text) (world : World σ) :
    Revises options depfile world
      ((run ⟨options, .revise depfile false⟩ : StateM (World σ) _).run world).1
      ((run ⟨options, .revise depfile false⟩ : StateM (World σ) _).run world).2 := by
  cases hcwd : world.directory? with
  | none =>
    have hlook : ∀ call ∈ [Call.cwd], call.IsLook := by simp [Call.IsLook]
    rw [run_of_not_directory _ hcwd]
    exact .fails hlook
  | some cwd =>
    cases hconfig : ((configure cwd options : StateM (World σ) _).run world).1 with
    | error e =>
      rcases (observes_configure (σ := σ) options cwd).records (world.record [.cwd] []) with
        ⟨calls, events, hafter, hcalls⟩
      have hlook : ∀ call ∈ Call.cwd :: calls, call.IsLook := by
        intro call hcall
        rcases List.mem_cons.1 hcall with rfl | hcall
        · simp [Call.IsLook]
        · exact Config.isLook_of_mem_loadCalls (hcalls call hcall)
      rw [run_of_isConfigured rfl hcwd, hconfig]
      simpa [hafter] using Revises.fails hlook
    | ok config =>
      -- From here on the run is that of the normalization, in a world that knows of the setup.
      have htask : (Task.revise depfile false).isConfigured = true := rfl
      rcases exists_run_of_configured htask hcwd hconfig with ⟨events, hrun⟩
      rw [hrun]
      exact .normalizes hcwd hconfig (normalizes_run _ _ _ _)

end Command

end Depfile
