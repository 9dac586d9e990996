import Depfile.Normalization
import Depfile.Proofs.Layout.Revision
import Depfile.Proofs.System.Memory
import Depfile.Proofs.System.Observation
import Depfile.Proofs.Text.Utf8

/-!
# One normalization

A normalization ends in one of five ways. `Normalizes` says for each of them when it is taken, what
has been asked of the system by then, and what has become of the world; everything about
normalizing files follows from it (`normalizes_run`).

* `Outcome.calls`: the calls that an outcome stands for;
* `Normalizes.of_data?_ne`: what it means that the contents of a file in memory have changed.
-/

namespace Depfile

variable {σ : Type} [FileStore σ]

/-- The text in a file, or why there is none. -/
def textIn (store : σ) (path : AbsolutePath) : Except ReadError Text :=
  match FileStore.read store path with
  | .error e => .error (.file e)
  | .ok bytes =>
    match Utf8.decode? bytes with
    | none => .error (.notUtf8 path)
    | some text => .ok text

@[simp]
theorem run_readText (path : AbsolutePath) (world : World σ) :
    (readText path : StateM (World σ) _).run world =
      (textIn world.store path, world.record [.read path] []) := by
  cases hread : FileStore.read world.store path with
  | error e => simp [readText, textIn, hread]
  | ok bytes => cases hdecode : Utf8.decode? bytes <;> simp [readText, textIn, hread, hdecode]

theorem Memory.textIn_eq_ok_iff {memory : Memory} {path : AbsolutePath} {text : Text} :
    textIn memory path = .ok text ↔ memory.data? path.location = some (Utf8.encode text) := by
  cases hdata : memory.data? path.location with
  | none => simp [textIn, Memory.read_eq, hdata]
  | some data =>
    cases hdecode : Utf8.decode? data with
    | none =>
      have hbytes : data ≠ Utf8.encode text := by
        intro hbytes
        simp [hbytes, Utf8.decode?_encode] at hdecode
      simp [textIn, Memory.read_eq, hdata, hdecode, hbytes]
    | some read =>
      have hbytes : data = Utf8.encode read := Utf8.decode?_eq_some_iff.1 hdecode
      simp [textIn, Memory.read_eq, hdata, hdecode, ← Utf8.decode?_eq_some_iff]

/-- The outcome of normalizing a file, and the world after it. -/
inductive Normalizes (config : Config) (cwd path : AbsolutePath) (world : World σ) :
    Outcome → World σ → Prop where
  | disabled :
      config.baseDir = [] →
      Normalizes config cwd path world .disabled (world.record [] [.baseDirUnset])
  | unreadable {e : ReadError} :
      config.baseDir ≠ [] → textIn world.store path = .error e →
      Normalizes config cwd path world .unreadable
        (world.record [.read path] [.cannotRead path e])
  | unchanged {text : Text} :
      config.baseDir ≠ [] → textIn world.store path = .ok text →
      Layout.revise (config.scope cwd) text = none →
      Normalizes config cwd path world .unchanged (world.record [.read path] [.unchanged path])
  | revised {text : Text} {revision : Layout.Revision} {store : σ} :
      config.baseDir ≠ [] → textIn world.store path = .ok text →
      Layout.revise (config.scope cwd) text = some revision →
      FileStore.write world.store path (Utf8.encode revision.text) = .ok store →
      Normalizes config cwd path world .revised
        { world.record [.read path, .write path]
            (revision.replacements.map .replaced ++ [.revised path]) with store := store }
  | unwritable {text : Text} {revision : Layout.Revision} {e : FileError} :
      config.baseDir ≠ [] → textIn world.store path = .ok text →
      Layout.revise (config.scope cwd) text = some revision →
      FileStore.write world.store path (Utf8.encode revision.text) = .error e →
      Normalizes config cwd path world .unwritable
        (world.record [.read path, .write path]
          (revision.replacements.map .replaced ++ [.cannotWrite path e]))

theorem run_writeFile_ok {world : World σ} {path : AbsolutePath} {data : ByteArray} {store : σ}
    (h : FileStore.write world.store path data = .ok store) :
    (writeFile path data : StateM (World σ) _).run world =
      (.ok (), { world.record [.write path] [] with store := store }) := by
  simp [writeFile, StateT.run, World.called, World.record, h]

theorem run_writeFile_error {world : World σ} {path : AbsolutePath} {data : ByteArray}
    {e : FileError} (h : FileStore.write world.store path data = .error e) :
    (writeFile path data : StateM (World σ) _).run world =
      (.error e, world.record [.write path] []) := by
  simp [writeFile, StateT.run, World.called, World.record, h]

theorem normalizes_run (config : Config) (cwd path : AbsolutePath) (world : World σ) :
    Normalizes config cwd path world
      ((normalizeFile config cwd path : StateM (World σ) _).run world).1
      ((normalizeFile config cwd path : StateM (World σ) _).run world).2 := by
  by_cases hbase : config.baseDir = []
  · have hrun : (normalizeFile config cwd path : StateM (World σ) _).run world =
        (.disabled, world.record [] [.baseDirUnset]) := by
      simp [normalizeFile, hbase]
    simpa [hrun] using Normalizes.disabled hbase
  cases htext : textIn world.store path with
  | error e =>
    have hrun : (normalizeFile config cwd path : StateM (World σ) _).run world =
        (.unreadable, world.record [.read path] [.cannotRead path e]) := by
      simp [normalizeFile, hbase, htext]
    simpa [hrun] using Normalizes.unreadable hbase htext
  | ok text =>
    cases hrevise : Layout.revise (config.scope cwd) text with
    | none =>
      have hrun : (normalizeFile config cwd path : StateM (World σ) _).run world =
          (.unchanged, world.record [.read path] [.unchanged path]) := by
        simp [normalizeFile, hbase, htext, hrevise]
      simpa [hrun] using Normalizes.unchanged hbase htext hrevise
    | some revision =>
      cases hwrite : FileStore.write world.store path (Utf8.encode revision.text) with
      | ok store =>
        have hrun : (normalizeFile config cwd path : StateM (World σ) _).run world =
            (.revised, { world.record [.read path, .write path]
              (revision.replacements.map .replaced ++ [.revised path]) with store := store }) := by
          simp [normalizeFile, hbase, htext, hrevise, run_writeFile_ok, hwrite, World.record]
        simpa [hrun] using Normalizes.revised hbase htext hrevise hwrite
      | error e =>
        have hrun : (normalizeFile config cwd path : StateM (World σ) _).run world =
            (.unwritable, world.record [.read path, .write path]
              (revision.replacements.map .replaced ++ [.cannotWrite path e])) := by
          simp [normalizeFile, hbase, htext, hrevise, run_writeFile_error, hwrite]
        simpa [hrun] using Normalizes.unwritable hbase htext hrevise hwrite

/-! ## What each outcome leaves as it is -/

/-- The calls that have been made when a normalization ends with an outcome. -/
def Outcome.calls (path : AbsolutePath) : Outcome → List Call
  | .disabled => []
  | .unreadable | .unchanged => [.read path]
  | .revised | .unwritable => [.read path, .write path]

theorem Outcome.write_mem_calls {path other : AbsolutePath} {outcome : Outcome} :
    Call.write other ∈ outcome.calls path ↔
      other = path ∧ (outcome = .revised ∨ outcome = .unwritable) := by
  cases outcome <;> simp [Outcome.calls]

namespace Normalizes

variable {config : Config} {cwd path : AbsolutePath} {outcome : Outcome}

theorem calls_eq {world after : World σ} (h : Normalizes config cwd path world outcome after) :
    after.calls = world.calls ++ outcome.calls path := by
  cases h <;> rfl

/-- Only a revision changes a file, which is the one that it is of, from a text to its revision. -/
theorem of_data?_ne {world after : World Memory} {location : Location}
    (h : Normalizes config cwd path world outcome after)
    (hne : after.store.data? location ≠ world.store.data? location) :
    outcome = .revised ∧ location = path.location ∧
      ∃ text newText, Layout.relativize (config.scope cwd) text = .ok (some newText) ∧
        world.store.data? location = some (Utf8.encode text) ∧
        after.store.data? location = some (Utf8.encode newText) := by
  cases h with
  | disabled | unreadable | unchanged | unwritable => exact absurd rfl hne
  | @revised text revision store hbase htext hrevise hwrite =>
    rcases Memory.write_eq_ok_iff.1 hwrite with ⟨_, rfl⟩
    by_cases hlocation : path.location = location
    · subst hlocation
      have hscope : (config.scope cwd).base ≠ [] := hbase
      refine ⟨rfl, rfl, text, revision.text, ?_, Memory.textIn_eq_ok_iff.1 htext, ?_⟩
      · simp [Layout.relativize_eq_revise hscope, hrevise]
      · exact Memory.contents?_insert_self _ _ _
    · exact absurd (Memory.contents?_insert_of_ne _ hlocation) hne

end Normalizes

end Depfile
