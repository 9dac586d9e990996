import Depfile.System.World

/-!
# Actions that only look

Most of what is done with a system looks at files, variables and the working directory and leaves
them as they are. Such an action is described by the calls that it may make (`Observes`), and its
result depends on what is there, not on what has been recorded before. Both are kept when
actions are put together, so it is known of a program as soon as it is known of its parts.
-/

namespace Depfile

variable {σ α β : Type} {allowed allowed' : Call → Prop}

/-! ## Records -/

namespace World

/-- The world with more calls and events recorded. -/
def record (calls : List Call) (events : List Event) (world : World σ) : World σ :=
  { world with calls := world.calls ++ calls, events := world.events ++ events }

variable (world : World σ) (calls calls' : List Call) (events events' : List Event)

@[simp]
theorem store_record : (world.record calls events).store = world.store := rfl

@[simp]
theorem env_record : (world.record calls events).env = world.env := rfl

@[simp]
theorem cwd_record : (world.record calls events).cwd = world.cwd := rfl

@[simp]
theorem calls_record : (world.record calls events).calls = world.calls ++ calls := rfl

@[simp]
theorem record_nil : world.record [] [] = world := by
  simp [record]

@[simp]
theorem record_record :
    (world.record calls events).record calls' events' =
      world.record (calls ++ calls') (events ++ events') := by
  simp [record]

end World

/-! ## Running the operations -/

section

variable (world : World σ)

@[simp 1100]
theorem run_pure (a : α) : (pure a : StateM (World σ) α).run world = (a, world) := rfl

@[simp 1100]
theorem run_bind (action : StateM (World σ) α) (next : α → StateM (World σ) β) :
    (action >>= next).run world = (next (action.run world).1).run (action.run world).2 := rfl

@[simp 1100]
theorem run_map (f : α → β) (action : StateM (World σ) α) :
    (f <$> action).run world = (f (action.run world).1, (action.run world).2) := rfl

variable [FileStore σ]

@[simp]
theorem run_readFile (path : AbsolutePath) :
    (readFile path : StateM (World σ) _).run world =
      (FileStore.read world.store path, world.record [.read path] []) := by
  simp [readFile, StateT.run, World.called, World.record]

@[simp]
theorem run_readEnv (name : Text) :
    (readEnv name : StateM (World σ) _).run world =
      (world.getEnv name, world.record [.env name] []) := by
  simp [readEnv, StateT.run, World.called, World.record]

@[simp]
theorem run_currentDir :
    (currentDir : StateM (World σ) _).run world = (.ok world.cwd, world.record [.cwd] []) := by
  simp [currentDir, StateT.run, World.called, World.record]

@[simp]
theorem run_log (event : Event) :
    (log event : StateM (World σ) _).run world = ((), world.record [] [event]) := by
  simp [log, StateT.run, World.record]

@[simp]
theorem run_logAll (events : List Event) :
    (logAll events : StateM (World σ) _).run world = ((), world.record [] events) := by
  induction events generalizing world with
  | nil => simp [logAll]
  | cons event events ih => simp [logAll, ih]

end

/-! ## Observing -/

/-- The action changes nothing but the record, to which it adds allowed calls, and its result does
not depend on the record. -/
structure Observes (allowed : Call → Prop) (action : StateM (World σ) α) : Prop where
  records : ∀ world, ∃ calls events, (action.run world).2 = world.record calls events ∧
    ∀ call ∈ calls, allowed call
  result_record : ∀ world calls events,
    (action.run (world.record calls events)).1 = (action.run world).1

namespace Observes

variable {action : StateM (World σ) α} {next : α → StateM (World σ) β}

theorem mono (h : Observes allowed action) (hallowed : ∀ call, allowed call → allowed' call) :
    Observes allowed' action where
  records := by
    intro world
    rcases h.records world with ⟨calls, events, hafter, hcalls⟩
    exact ⟨calls, events, hafter, fun call hcall => hallowed call (hcalls call hcall)⟩
  result_record := h.result_record

theorem pure (a : α) : Observes allowed (Pure.pure a : StateM (World σ) α) where
  records := by
    intro world
    exact ⟨[], [], by simp, by simp⟩
  result_record := by simp

theorem bind (h : Observes allowed action) (hnext : ∀ a, Observes allowed (next a)) :
    Observes allowed (action >>= next) where
  records := by
    intro world
    rcases h.records world with ⟨calls, events, hafter, hcalls⟩
    rcases (hnext (action.run world).1).records (world.record calls events) with
      ⟨calls', events', hafter', hcalls'⟩
    refine ⟨calls ++ calls', events ++ events', ?_, ?_⟩
    · simpa [hafter] using hafter'
    · intro call hcall
      exact (List.mem_append.1 hcall).elim (hcalls call) (hcalls' call)
  result_record := by
    intro world calls events
    rcases h.records world with ⟨_, _, hplain, _⟩
    rcases h.records (world.record calls events) with ⟨_, _, hrecorded, _⟩
    -- Both runs go on with the same result, in worlds that differ in what is recorded.
    simp only [run_bind, h.result_record, hplain, hrecorded, World.record_record,
      (hnext _).result_record]

variable [FileStore σ]

theorem readFile (path : AbsolutePath) (hallowed : allowed (.read path)) :
    Observes allowed (Depfile.readFile path : StateM (World σ) _) where
  records := by
    intro world
    exact ⟨[.read path], [], by simp, by simpa using hallowed⟩
  result_record := by simp

theorem readEnv (name : Text) (hallowed : allowed (.env name)) :
    Observes allowed (Depfile.readEnv name : StateM (World σ) _) where
  records := by
    intro world
    exact ⟨[.env name], [], by simp, by simpa using hallowed⟩
  result_record := by simp [World.getEnv]

theorem currentDir (hallowed : allowed .cwd) :
    Observes allowed (Depfile.currentDir : StateM (World σ) _) where
  records := by
    intro world
    exact ⟨[.cwd], [], by simp, by simpa using hallowed⟩
  result_record := by simp

theorem log (event : Event) : Observes allowed (Depfile.log event : StateM (World σ) _) where
  records := by
    intro world
    exact ⟨[], [event], by simp, by simp⟩
  result_record := by simp

theorem logAll (events : List Event) :
    Observes allowed (Depfile.logAll events : StateM (World σ) _) where
  records := by
    intro world
    exact ⟨[], events, by simp, by simp⟩
  result_record := by simp

/-- Reading a file as text reads only that file. -/
theorem readText (path : AbsolutePath) (hallowed : allowed (.read path)) :
    Observes allowed (Depfile.readText path : StateM (World σ) _) := by
  apply (readFile path hallowed).bind
  intro result
  cases result with
  | error e => exact Observes.pure _
  | ok bytes =>
    cases hdecode : Utf8.decode? bytes with
    | none => simpa [hdecode] using Observes.pure _
    | some text => simpa [hdecode] using Observes.pure _

end Observes

end Depfile
