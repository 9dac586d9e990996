import Depfile.Proofs.Session.Frame

/-!
# The configuration of a session

A session starts with a valid configuration, and whatever checks a value before it takes it over
keeps it so. Only an assignment does not check: it leaves its value behind even if it says that the
value is bad. So the base directory is valid exactly as long as the last step that set it was no
such assignment, whatever has been done in between. A bad base directory does no harm, because no
absolute word can lie under it: normalizing a file then writes nothing (`run_baseDir`).

* `Configures`: what one step does to the configuration;
* `Rests`: what a whole run keeps, a configuration together with the step that set it last.
-/

namespace Depfile

/-! ## Values that are taken over -/

namespace Config

variable {config after : Config} {data : ByteArray}

theorem isValidBaseDir_of_check (h : check config = .ok after) :
    isValidBaseDir after.baseDir = true := by
  by_cases hvalid : isValidBaseDir config.baseDir = true
  · simp only [check, hvalid, if_true] at h
    cases h
    exact hvalid
  · simp [check, hvalid] at h

theorem isValidBaseDir_of_ofToml (h : ofToml data = .ok config) :
    isValidBaseDir config.baseDir = true := by
  unfold ofToml at h
  split at h
  · cases h
  · split at h
    · cases h
    · exact isValidBaseDir_of_check h

variable {σ : Type} [FileStore σ] {world : World σ} {path : Option AbsolutePath}

theorem isValidBaseDir_of_readFileLayer
    (h : ((readFileLayer path : StateM (World σ) _).run world).1 = .ok config) :
    isValidBaseDir config.baseDir = true := by
  cases path with
  | none =>
    cases h
    rfl
  | some path =>
    cases hread : FileStore.read world.store path with
    | error e => simp [readFileLayer, hread] at h
    | ok data =>
      have hparsed : ofToml data = .ok config := by simpa [readFileLayer, hread] using h
      exact isValidBaseDir_of_ofToml hparsed

theorem isValidBaseDir_of_readEnvLayer (hconfig : isValidBaseDir config.baseDir = true)
    (h : ((readEnvLayer config : StateM (World σ) _).run world).1 = .ok after) :
    isValidBaseDir after.baseDir = true := by
  cases hvalue : world.getEnv baseDirVariable with
  | none =>
    have hsame : config = after := by simpa [readEnvLayer, hvalue] using h
    rwa [← hsame]
  | some value =>
    have hchecked : config.withBaseDir value = .ok after := by simpa [readEnvLayer, hvalue] using h
    exact isValidBaseDir_of_check hchecked

/-- Whatever the file and the environment say, what is loaded is valid. -/
theorem isValidBaseDir_of_load
    (h : ((load path : StateM (World σ) _).run world).1 = .ok config) :
    isValidBaseDir config.baseDir = true := by
  cases hfile : ((readFileLayer path : StateM (World σ) _).run world).1 with
  | error e => simp [load, hfile] at h
  | ok layer =>
    have henv : ((readEnvLayer layer : StateM (World σ) _).run
        ((readFileLayer path : StateM (World σ) _).run world).2).1 = .ok config := by
      simpa [load, hfile] using h
    exact isValidBaseDir_of_readEnvLayer (isValidBaseDir_of_readFileLayer hfile) henv

end Config

/-! ## Normalizing under a bad base directory -/

section

variable {σ : Type} [FileStore σ] {config : Config} {cwd depfile : AbsolutePath}

/-- An absolute path does not go on from a text that does not start at the root. -/
theorem revise_eq_none_of_not_valid (hinvalid : Config.isValidBaseDir config.baseDir = false)
    (cwd : AbsolutePath) (text : Text) : Layout.revise (config.scope cwd) text = none := by
  have hbad : config.baseDir ≠ [] ∧ Path.isAbsolute config.baseDir = false := by
    simpa [Config.isValidBaseDir] using hinvalid
  have hbase : (config.scope cwd).base ≠ [] := hbad.1
  apply (Layout.revise_eq_none_iff hbase).2
  rintro word _ ⟨habsolute, hunder⟩
  have hword : Path.isAbsolute word = Path.isAbsolute config.baseDir :=
    Path.isAbsolute_eq_of_isUnder hunder
  exact Bool.false_ne_true (hbad.2.symm.trans (hword.symm.trans habsolute))

/-- Of the five ways in which a normalization can end, two are left. -/
theorem Normalizes.of_not_valid {world after : World σ} {outcome : Outcome}
    (hinvalid : Config.isValidBaseDir config.baseDir = false)
    (h : Normalizes config cwd depfile world outcome after) :
    (outcome = .unreadable ∨ outcome = .unchanged) ∧ after.store = world.store ∧
      after.calls = world.calls ++ [.read depfile] := by
  cases h with
  | disabled hbase => simp [hbase, Config.isValidBaseDir] at hinvalid
  | unreadable => exact ⟨.inl rfl, rfl, rfl⟩
  | unchanged => exact ⟨.inr rfl, rfl, rfl⟩
  | revised _ _ hrevise | unwritable _ _ hrevise =>
    rw [revise_eq_none_of_not_valid hinvalid] at hrevise
    cases hrevise

end

/-! ## Steps that set the configuration -/

/-- Does the step set the configuration, as its answer tells? Loading and setting do so if they
succeed, and an assignment always does. -/
def Step.sets : Step → Answer → Bool
  | .load _, .ok => true
  | .setBaseDir _, .ok => true
  | .assignBaseDir _, _ => true
  | _, _ => false

/-- Is the step of a kind that can set the configuration? -/
def Step.canSet : Step → Bool
  | .load _ | .setBaseDir _ | .assignBaseDir _ => true
  | _ => false

namespace Session

variable {σ : Type} {session : Session σ} {step : Step} {answer : Answer} {before after : Config}

/-- What a step with its answer makes of a configuration. -/
inductive Configures (before : Config) : Step → Answer → Config → Prop where
  | keeps {step : Step} {answer : Answer} {after : Config} :
      step.sets answer = false → after = before → Configures before step answer after
  | takesOver {step : Step} {after : Config} :
      step.sets .ok = true → Config.isValidBaseDir after.baseDir = true →
      Configures before step .ok after
  | rejects {value : Text} :
      Config.isValidBaseDir value = false →
      Configures before (.assignBaseDir value) (.configError (.notAbsolute ⟨value⟩)) ⟨value⟩

theorem configures_setBaseDir (value : Text) (session : Session σ) :
    Configures session.config (.setBaseDir value)
      (session.adopt (session.config.withBaseDir value)).1
      (session.adopt (session.config.withBaseDir value)).2.config := by
  cases hchecked : session.config.withBaseDir value with
  | ok config => exact .takesOver rfl (Config.isValidBaseDir_of_check hchecked)
  | error e => exact .keeps rfl rfl

theorem configures_assignBaseDir (value : Text) (session : Session σ) :
    Configures session.config (.assignBaseDir value) (session.assignBaseDir value).1
      (session.assignBaseDir value).2.config := by
  by_cases hvalid : Config.isValidBaseDir value = true
  · have hanswer : (session.assignBaseDir value).1 = .ok := by
      simp [assignBaseDir, Config.check, hvalid]
    rw [hanswer]
    exact .takesOver rfl hvalid
  · have hinvalid : Config.isValidBaseDir value = false := by simpa using hvalid
    have hanswer : (session.assignBaseDir value).1 = .configError (.notAbsolute ⟨value⟩) := by
      simp [assignBaseDir, Config.check, hinvalid]
    rw [hanswer]
    exact .rejects hinvalid

variable [FileStore σ]

theorem configures_load (path : Option AbsolutePath) (session : Session σ) :
    Configures session.config (.load path) (session.load path).1 (session.load path).2.config := by
  have hvalid : ∀ config,
      ((Config.load path : StateM (World σ) _).run session.world).1 = .ok config →
        Config.isValidBaseDir config.baseDir = true :=
    fun _ h => Config.isValidBaseDir_of_load h
  unfold load
  generalize ((Config.load path : StateM (World σ) _).run session.world) = loaded at hvalid ⊢
  rcases loaded with ⟨result, world⟩
  cases result with
  | ok config => exact .takesOver rfl (hvalid config rfl)
  | error e => exact .keeps rfl rfl

theorem config_normalize (depfile : AbsolutePath) (cwd : Text) (session : Session σ) :
    (session.normalize depfile cwd).2.config = session.config := by
  unfold normalize
  split <;> rfl

/-- A command line has a configuration of its own. -/
theorem config_command (arguments : List Text) (session : Session σ) :
    (session.command arguments).2.config = session.config := by
  unfold command
  split <;> rfl

/-- What a step does to the configuration. -/
theorem configures_answer (session : Session σ) (step : Step) :
    Configures session.config step (session.answer step).1 (session.answer step).2.config := by
  cases step with
  | load path => exact configures_load path session
  | setBaseDir value => exact configures_setBaseDir value session
  | assignBaseDir value => exact configures_assignBaseDir value session
  | normalize depfile cwd => exact .keeps rfl (config_normalize depfile cwd session)
  | command arguments => exact .keeps rfl (config_command arguments session)
  | put | get | makeDirectory | protect | setEnv | readText | readEnv | currentDir =>
    exact .keeps rfl rfl

theorem Configures.eq_of_not_canSet (h : Configures before step answer after)
    (hstep : step.canSet = false) : after = before := by
  cases h with
  | keeps _ hsame => exact hsame
  | takesOver hsets => cases step <;> simp_all [Step.sets, Step.canSet]
  | rejects => cases hstep

/-- Loading or setting keeps the old configuration when it fails. -/
theorem Configures.eq_of_configError {e : ConfigError}
    (h : Configures before step (.configError e) after)
    (hstep : ∀ value, step ≠ .assignBaseDir value) : after = before := by
  cases h with
  | keeps _ hsame => exact hsame
  | rejects => exact absurd rfl (hstep _)

/-! ## Runs -/

/-- The steps of a run in order, each with its answer. -/
def history (session : Session σ) (steps : List Step) : List (Step × Answer) :=
  steps.zip ((session.run steps).1.map Record.answer)

/-- The last step that set the configuration. -/
def lastSetting? (history : List (Step × Answer)) : Option (Step × Answer) :=
  (history.filter (fun entry => entry.1.sets entry.2)).getLast?

/-- The configuration was assigned, and the value was not accepted. -/
def IsRejected (setting : Option (Step × Answer)) : Prop :=
  ∃ value e, setting = some (.assignBaseDir value, .configError e)

/-- A configuration and the step that set it last, if any did. -/
inductive Rests : Option (Step × Answer) → Config → Prop where
  | valid {setting : Option (Step × Answer)} {config : Config} :
      ¬IsRejected setting → Config.isValidBaseDir config.baseDir = true → Rests setting config
  | rejected {value : Text} :
      Config.isValidBaseDir value = false →
      Rests (some (.assignBaseDir value, .configError (.notAbsolute ⟨value⟩))) ⟨value⟩

theorem Rests.isValidBaseDir_iff {setting : Option (Step × Answer)} {config : Config}
    (h : Rests setting config) :
    Config.isValidBaseDir config.baseDir = true ↔ ¬IsRejected setting := by
  cases h with
  | valid hsetting hvalid => simp [hsetting, hvalid]
  | rejected hvalid => simp [hvalid, IsRejected]

theorem lastSetting?_cons (step : Step) (answer : Answer) (history : List (Step × Answer)) :
    lastSetting? ((step, answer) :: history) =
      (lastSetting? history).or (if step.sets answer then some (step, answer) else none) := by
  by_cases hsets : step.sets answer = true
  · cases hlast : (history.filter (fun entry => entry.1.sets entry.2)).getLast? <;>
      simp [lastSetting?, hsets, List.getLast?_cons, hlast]
  · simp [lastSetting?, hsets]

theorem rests_step {setting : Option (Step × Answer)} (h : Rests setting before)
    (hstep : Configures before step answer after) :
    Rests ((if step.sets answer then some (step, answer) else none).or setting) after := by
  cases hstep with
  | keeps hsets hsame =>
    subst hsame
    simpa [hsets] using h
  | takesOver hsets hvalid =>
    have hok : ¬IsRejected (some (step, .ok)) := by simp [IsRejected]
    simpa [hsets] using Rests.valid hok hvalid
  | rejects hinvalid => simpa [Step.sets] using Rests.rejected hinvalid

/-- The step that set the configuration last may be one before the run. -/
theorem rests_run {setting : Option (Step × Answer)} (h : Rests setting session.config)
    (steps : List Step) :
    Rests ((lastSetting? (session.history steps)).or setting) (session.run steps).2.config := by
  induction steps generalizing session setting with
  | nil => simpa [history, run, lastSetting?] using h
  | cons step steps ih =>
    have hafter : Rests _ (session.step step).2.config :=
      rests_step h (configures_answer session step)
    have hrest := ih hafter
    have hhistory : session.history (step :: steps) =
        (step, (session.answer step).1) :: (session.step step).2.history steps := rfl
    rw [hhistory, lastSetting?_cons, Option.or_assoc]
    exact hrest

theorem config_run_append {steps : List Step} {later after : Session σ} {record : Record}
    (hrun : (session.run steps).2 = later) (hstep : later.step step = (record, after)) :
    (session.run (steps ++ [step])).2.config = after.config := by
  induction steps generalizing session with
  | nil =>
    have hsession : session = later := hrun
    simp [run, hsession, hstep]
  | cons first steps ih => exact ih hrun

/-! ## Whole sessions -/

variable {depfile : AbsolutePath}

/-- With such a configuration a file is read at most, whatever is in it. -/
theorem step_normalize_of_not_valid {dir : Text} {after : Session σ} {record : Record}
    (hinvalid : Config.isValidBaseDir session.config.baseDir = false)
    (hstep : session.step (.normalize depfile dir) = (record, after)) :
    after.world.store = session.world.store ∧
      (∃ made, record.calls = session.world.calls ++ made ∧ ∀ path, Call.write path ∉ made) ∧
      (Path.isAbsolute dir = false ∧ record.answer = .notAbsolute ⟨dir⟩ ∨
        Path.isAbsolute dir = true ∧
          (record.answer = .outcome .unreadable ∨ record.answer = .outcome .unchanged)) := by
  obtain ⟨rfl, rfl⟩ : (session.step (.normalize depfile dir)).1 = record ∧
      (session.step (.normalize depfile dir)).2 = after := by
    simp [hstep]
  have hanswer : (session.step (.normalize depfile dir)).1.answer =
      (session.normalize depfile dir).1 := rfl
  have hcalls : (session.step (.normalize depfile dir)).1.calls =
      (session.normalize depfile dir).2.world.calls := rfl
  have hstore : (session.step (.normalize depfile dir)).2.world.store =
      (session.normalize depfile dir).2.world.store := rfl
  rw [hanswer, hcalls, hstore]
  by_cases hdir : Path.isAbsolute dir = true
  · have hcheck : AbsolutePath.check dir = .ok ⟨dir, hdir⟩ := by
      simp [AbsolutePath.check, AbsolutePath.of?, hdir]
    have hnormalize : session.normalize depfile dir =
        session.use (normalizeFile session.config ⟨dir, hdir⟩ depfile) .outcome := by
      simp [normalize, hcheck]
    rcases (normalizes_run session.config ⟨dir, hdir⟩ depfile session.world).of_not_valid hinvalid
      with ⟨houtcome, hkept, hmade⟩
    rw [hnormalize]
    refine ⟨hkept, ⟨_, hmade, by simp⟩, .inr ⟨hdir, ?_⟩⟩
    exact houtcome.imp (congrArg Answer.outcome) (congrArg Answer.outcome)
  · have hcheck : AbsolutePath.check dir = .error ⟨dir⟩ := by
      simp [AbsolutePath.check, AbsolutePath.of?, hdir]
    have hnormalize : session.normalize depfile dir = (.notAbsolute ⟨dir⟩, session) := by
      simp [normalize, hcheck]
    rw [hnormalize]
    exact ⟨rfl, ⟨[], by simp, by simp⟩, .inl ⟨by simpa using hdir, rfl⟩⟩

/-- In a session that starts without a configuration, the base directory is empty or absolute after
every step, unless the last step that set it is an assignment whose value was not accepted. A step
that fails to load or to set a value keeps the configuration, and no other kind of step but an
assignment changes it. After such an assignment, normalizing a file writes nothing and tells at most
that there was nothing to replace, whatever the files and the working directory are. -/
theorem run_baseDir {store : σ} {cwd : ByteArray} {steps : List Step} {step : Step}
    {session after : Session σ} {record : Record}
    (hrun : ((start store cwd).run steps).2 = session)
    (hstep : session.step step = (record, after)) :
    record.baseDir = after.config.baseDir ∧
      (record.baseDir = [] ∨ Path.isAbsolute record.baseDir = true ↔
        ¬IsRejected (lastSetting? ((start store cwd).history (steps ++ [step])))) ∧
      (∀ e, record.answer = .configError e → (∀ value, step ≠ .assignBaseDir value) →
        after.config = session.config) ∧
      (step.canSet = false → after.config = session.config) ∧
      (IsRejected (lastSetting? ((start store cwd).history (steps ++ [step]))) →
        ∀ (world : World σ) (depfile : AbsolutePath) (dir : Text) (trial : Record)
          (later : Session σ),
          Session.step ⟨world, after.config⟩ (.normalize depfile dir) = (trial, later) →
          later.world.store = world.store ∧
          (∃ made, trial.calls = world.calls ++ made ∧ ∀ path, Call.write path ∉ made) ∧
          (Path.isAbsolute dir = false ∧ trial.answer = .notAbsolute ⟨dir⟩ ∨
            Path.isAbsolute dir = true ∧
              (trial.answer = .outcome .unreadable ∨ trial.answer = .outcome .unchanged))) := by
  have hconfigures : Configures session.config step record.answer after.config := by
    obtain ⟨rfl, rfl⟩ := Prod.mk.inj hstep
    exact configures_answer session step
  have hbaseDir : record.baseDir = after.config.baseDir := by
    obtain ⟨rfl, rfl⟩ := Prod.mk.inj hstep
    rfl
  -- The empty configuration at the start is valid, and no step has set it.
  have hstart : Rests none (start store cwd).config := .valid (by simp [IsRejected]) rfl
  have hrests := rests_run hstart (steps ++ [step])
  rw [Option.or_none, config_run_append hrun hstep] at hrests
  have hvalid := hrests.isValidBaseDir_iff
  refine ⟨hbaseDir, ?_, ?_, hconfigures.eq_of_not_canSet, ?_⟩
  · rw [hbaseDir, ← Config.isValidBaseDir_iff, hvalid]
  · intro e he hne
    rw [he] at hconfigures
    exact hconfigures.eq_of_configError hne
  · intro hrejected world depfile dir trial later htrial
    have hinvalid : Config.isValidBaseDir after.config.baseDir = false := by
      simpa [hrejected] using hvalid
    let misled : Session σ := ⟨world, after.config⟩
    have hmisled : Config.isValidBaseDir misled.config.baseDir = false := hinvalid
    exact step_normalize_of_not_valid hmisled htrial

/-- A session in which a relative base directory has been assigned. -/
def misledSession : Session Memory :=
  ((start Memory.empty (Utf8.encode ['/', 'p'])).run [.assignBaseDir ['p']]).2

/-- Setting another bad value fails and mends nothing, and the file of the sample, whose word
`/p/b` mentions the base directory, is read and left alone. -/
theorem run_baseDir_misled :
    (misledSession.step (.setBaseDir ['q'])).1.answer = .configError (.notAbsolute ⟨['q']⟩) ∧
      (misledSession.step (.setBaseDir ['q'])).2.config = misledSession.config ∧
      IsRejected (lastSetting? ((start Memory.empty (Utf8.encode ['/', 'p'])).history
        ([.assignBaseDir ['p']] ++ [.setBaseDir ['q']]))) ∧
      ∃ made, (Session.step ⟨sampleSession.world, (misledSession.step (.setBaseDir ['q'])).2.config⟩
          (.normalize ⟨['/', 'p', '/', 'o'], rfl⟩ ['/', 'p'])).1.calls =
            sampleSession.world.calls ++ made ∧
        ∀ path, Call.write path ∉ made := by
  have hrun : ((start Memory.empty (Utf8.encode ['/', 'p'])).run [.assignBaseDir ['p']]).2 =
      misledSession := rfl
  have hanswer : (misledSession.step (.setBaseDir ['q'])).1.answer =
      .configError (.notAbsolute ⟨['q']⟩) := rfl
  have hrejected : IsRejected (lastSetting? ((start Memory.empty (Utf8.encode ['/', 'p'])).history
      ([.assignBaseDir ['p']] ++ [.setBaseDir ['q']]))) :=
    ⟨['p'], .notAbsolute ⟨['p']⟩, rfl⟩
  rcases run_baseDir hrun (Prod.eta (misledSession.step (.setBaseDir ['q']))).symm with
    ⟨_, _, hfails, _, hharmless⟩
  rcases hharmless hrejected sampleSession.world ⟨['/', 'p', '/', 'o'], rfl⟩ ['/', 'p'] _ _
    (Prod.eta _).symm with ⟨_, hmade, _⟩
  exact ⟨hanswer, hfails _ hanswer (by simp), hrejected, hmade⟩

end Session

end Depfile
