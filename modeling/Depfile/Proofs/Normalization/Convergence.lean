import Depfile.Proofs.Layout.Idempotence
import Depfile.Proofs.Normalization.Step
import Depfile.Proofs.System.Memory
import Depfile.Proofs.Text.Utf8

/-!
# Runs of normalizations

Normalizing a file a second time does nothing, wherever it is seen from, and normalizing one file
does nothing to another. So a run of normalizations of files in memory comes to the same as
normalizing each file once, for the first job that names it, whatever the order and however
often a file is named (`normalizeAll_converges`).

* `Job.verdict`: what a job comes to depends on nothing but its file;
* `Settled`: a file for which every job comes to nothing, and which no job changes any more.
-/

namespace Depfile

/-! ## One job -/

/-- A dependency file to normalize, and the directory that its compiler was run in. -/
structure Job where
  depfile : AbsolutePath
  cwd : AbsolutePath

namespace Job

/-- Where the file of the job is. -/
def location (job : Job) : Location :=
  job.depfile.location

/-- What the job comes to: its outcome, and the text that is written. -/
def verdict (config : Config) (memory : Memory) (job : Job) : Outcome × Option Text :=
  match (memory.data? job.location).bind Utf8.decode? with
  | none => (.unreadable, none)
  | some text =>
    match Layout.revise (config.scope job.cwd) text with
    | none => (.unchanged, none)
    | some revision =>
      if job.location ∈ memory.isProtected then
        (.unwritable, none)
      else
        (.revised, some revision.text)

/-- The files after the job. -/
def apply (config : Config) (memory : Memory) (job : Job) : Memory :=
  match (job.verdict config memory).2 with
  | none => memory
  | some text =>
    { memory with files := Memory.insert job.depfile (Utf8.encode text) memory.files }

variable {config : Config} {memory memory' : Memory} {job other : Job} {location : Location}
  {text : Text}

/-- Only the file of the job matters for what it comes to. -/
theorem verdict_congr (hdata : memory'.data? job.location = memory.data? job.location)
    (hprotected : memory'.isProtected = memory.isProtected) :
    job.verdict config memory' = job.verdict config memory := by
  simp only [verdict, hdata, hprotected]

theorem verdict_of_text (h : memory.data? job.location = some (Utf8.encode text)) :
    job.verdict config memory =
      match Layout.revise (config.scope job.cwd) text with
      | none => (.unchanged, none)
      | some revision =>
        if job.location ∈ memory.isProtected then
          (.unwritable, none)
        else
          (.revised, some revision.text) := by
  simp [verdict, h, Utf8.decode?_encode]

/-- A job that writes has found a text in a file that is not protected. -/
theorem of_verdict_eq_some (h : (job.verdict config memory).2 = some text) :
    job.location ∉ memory.isProtected ∧
      ∃ old, memory.data? job.location = some (Utf8.encode old) := by
  cases hdata : memory.data? job.location with
  | none => simp [verdict, hdata] at h
  | some data =>
    cases hold : Utf8.decode? data with
    | none => simp [verdict, hdata, hold] at h
    | some old =>
      have hbytes : data = Utf8.encode old := Utf8.decode?_eq_some_iff.1 hold
      refine ⟨?_, old, by rw [hbytes]⟩
      intro hprotected
      cases hrevise : Layout.revise (config.scope job.cwd) old with
      | none => simp [verdict, hdata, hold, hrevise] at h
      | some revision => simp [verdict, hdata, hold, hrevise, hprotected] at h

@[simp]
theorem isProtected_apply (config : Config) (memory : Memory) (job : Job) :
    (job.apply config memory).isProtected = memory.isProtected := by
  unfold apply
  split <;> rfl

theorem apply_of_none (h : (job.verdict config memory).2 = none) :
    job.apply config memory = memory := by
  simp [apply, h]

theorem apply_of_some (h : (job.verdict config memory).2 = some text) :
    job.apply config memory =
      { memory with files := Memory.insert job.depfile (Utf8.encode text) memory.files } := by
  simp [apply, h]

theorem data?_apply_of_ne (h : job.location ≠ location) :
    (job.apply config memory).data? location = memory.data? location := by
  cases hverdict : (job.verdict config memory).2 with
  | none => rw [apply_of_none hverdict]
  | some text =>
    rw [apply_of_some hverdict]
    exact Memory.contents?_insert_of_ne _ h

theorem data?_apply_of_some (h : (job.verdict config memory).2 = some text) :
    (job.apply config memory).data? job.location = some (Utf8.encode text) := by
  rw [apply_of_some h]
  exact Memory.contents?_insert_self _ _ _

/-- A file that is protected or holds no text stays as it is. -/
theorem data?_apply_of_not_text
    (h : job.location = location →
      location ∈ memory.isProtected ∨ ∀ text, memory.data? location ≠ some (Utf8.encode text)) :
    (job.apply config memory).data? location = memory.data? location := by
  cases hverdict : (job.verdict config memory).2 with
  | none => rw [apply_of_none hverdict]
  | some text =>
    rcases of_verdict_eq_some hverdict with ⟨hfree, old, hold⟩
    apply data?_apply_of_ne
    intro hsame
    subst hsame
    rcases h rfl with hprotected | hnone
    · exact hfree hprotected
    · exact hnone old hold

/-- Jobs on different files do not see each other. -/
theorem apply_comm (hne : job.location ≠ other.location) :
    other.apply config (job.apply config memory) =
      job.apply config (other.apply config memory) := by
  have hother : other.verdict config (job.apply config memory) = other.verdict config memory :=
    verdict_congr (data?_apply_of_ne hne) (isProtected_apply config memory job)
  have hjob : job.verdict config (other.apply config memory) = job.verdict config memory :=
    verdict_congr (data?_apply_of_ne (Ne.symm hne)) (isProtected_apply config memory other)
  cases hnew : (job.verdict config memory).2 with
  | none =>
    have hlast : (job.verdict config (other.apply config memory)).2 = none := by rw [hjob, hnew]
    rw [apply_of_none hnew, apply_of_none hlast]
  | some text =>
    have hlast : (job.verdict config (other.apply config memory)).2 = some text := by
      rw [hjob, hnew]
    cases hnew' : (other.verdict config memory).2 with
    | none =>
      have hlast' : (other.verdict config (job.apply config memory)).2 = none := by
        rw [hother, hnew']
      rw [apply_of_none hnew', apply_of_none hlast']
    | some text' =>
      have hlast' : (other.verdict config (job.apply config memory)).2 = some text' := by
        rw [hother, hnew']
      -- Both write, and what they write replaces contents that are there.
      rcases of_verdict_eq_some hnew with ⟨_, old, hold⟩
      rcases of_verdict_eq_some hnew' with ⟨_, old', hold'⟩
      have hthere : (memory.data? job.location).isSome := by simp [hold]
      have hthere' : (memory.data? other.location).isSome := by simp [hold']
      rw [apply_of_some hlast, apply_of_some hlast', apply_of_some hnew, apply_of_some hnew']
      simp only [Memory.insert_comm hne hthere hthere']

/-! ## Settled files -/

end Job

/-- A file with a text in which there is nothing to revise, wherever it is seen from. -/
def Settled (base : Text) (memory : Memory) (location : Location) : Prop :=
  ∃ text, memory.data? location = some (Utf8.encode text) ∧
    ∀ cwd, Layout.revise ⟨base, cwd⟩ text = none

namespace Settled

variable {config : Config} {memory memory' : Memory} {job : Job} {location : Location}

theorem of_data?_eq (h : Settled config.baseDir memory location)
    (hdata : memory'.data? location = memory.data? location) :
    Settled config.baseDir memory' location := by
  rcases h with ⟨text, htext, hnone⟩
  exact ⟨text, hdata.trans htext, hnone⟩

theorem verdict_eq (h : Settled config.baseDir memory job.location) :
    job.verdict config memory = (.unchanged, none) := by
  rcases h with ⟨text, htext, hnone⟩
  have hrevise : Layout.revise (config.scope job.cwd) text = none := hnone job.cwd
  simp [Job.verdict_of_text htext, hrevise]

/-- No job changes a settled file. -/
theorem data?_apply (h : Settled config.baseDir memory location) (job : Job) :
    (job.apply config memory).data? location = memory.data? location := by
  by_cases hsame : job.location = location
  · subst hsame
    rw [Job.apply_of_none (by simp [h.verdict_eq])]
  · exact Job.data?_apply_of_ne hsame

theorem apply (h : Settled config.baseDir memory location) (job : Job) :
    Settled config.baseDir (job.apply config memory) location :=
  h.of_data?_eq (h.data?_apply job)

end Settled

variable {config : Config} {memory : Memory} {jobs : List Job} {job : Job} {location : Location}
  {text : Text}

/-- A job that could revise its file settles it. -/
theorem settled_of_verdict (hbase : config.baseDir ≠ [])
    (h : (job.verdict config memory).1 = .revised ∨ (job.verdict config memory).1 = .unchanged) :
    Settled config.baseDir (job.apply config memory) job.location := by
  cases hdata : (memory.data? job.location).bind Utf8.decode? with
  | none => simp [Job.verdict, hdata] at h
  | some text =>
    rcases Option.bind_eq_some_iff.1 hdata with ⟨data, hcontents, hdecode⟩
    have htext : memory.data? job.location = some (Utf8.encode text) := by
      rw [hcontents, Utf8.decode?_eq_some_iff.1 hdecode]
    cases hrevise : Layout.revise (config.scope job.cwd) text with
    | none =>
      have hverdict : job.verdict config memory = (.unchanged, none) := by
        simp [Job.verdict_of_text htext, hrevise]
      refine ⟨text, ?_, Layout.revise_eq_none_of_cwd hbase hrevise⟩
      rw [Job.apply_of_none (by simp [hverdict])]
      exact htext
    | some revision =>
      have hfree : job.location ∉ memory.isProtected := by
        intro hprotected
        simp [Job.verdict_of_text htext, hrevise, hprotected] at h
      have hverdict : job.verdict config memory = (.revised, some revision.text) := by
        simp [Job.verdict_of_text htext, hrevise, hfree]
      exact ⟨revision.text, Job.data?_apply_of_some (by simp [hverdict]),
        Layout.revise_revised hbase hrevise⟩

/-- The text of a file after a job that can write it. -/
theorem data?_apply_of_text (hbase : config.baseDir ≠ [])
    (hfree : job.location ∉ memory.isProtected)
    (htext : memory.data? job.location = some (Utf8.encode text)) :
    Settled config.baseDir (job.apply config memory) job.location ∧
      ∃ outcome, Layout.relativize (config.scope job.cwd) text = .ok outcome ∧
        (job.apply config memory).data? job.location = some (Utf8.encode (outcome.getD text)) := by
  have hscope : (config.scope job.cwd).base ≠ [] := hbase
  have hrelativize := Layout.relativize_eq_revise hscope text
  cases hrevise : Layout.revise (config.scope job.cwd) text with
  | none =>
    have hverdict : job.verdict config memory = (.unchanged, none) := by
      simp [Job.verdict_of_text htext, hrevise]
    refine ⟨settled_of_verdict hbase (by simp [hverdict]), none, by simp [hrelativize, hrevise], ?_⟩
    rw [Job.apply_of_none (by simp [hverdict])]
    exact htext
  | some revision =>
    have hverdict : job.verdict config memory = (.revised, some revision.text) := by
      simp [Job.verdict_of_text htext, hrevise, hfree]
    refine ⟨settled_of_verdict hbase (by simp [hverdict]), some revision.text,
      by simp [hrelativize, hrevise], ?_⟩
    exact Job.data?_apply_of_some (by simp [hverdict])

/-! ## Runs of jobs -/

namespace Memory

/-- The outcomes of jobs that are done one after the other, and the files after them. -/
def normalizeAll (config : Config) : List Job → Memory → List Outcome × Memory
  | [], memory => ([], memory)
  | job :: jobs, memory =>
    let (outcomes, last) := normalizeAll config jobs (job.apply config memory)
    ((job.verdict config memory).1 :: outcomes, last)

theorem length_normalizeAll (config : Config) (jobs : List Job) (memory : Memory) :
    (normalizeAll config jobs memory).1.length = jobs.length := by
  induction jobs generalizing memory with
  | nil => rfl
  | cons job jobs ih => simp [normalizeAll, ih]

/-- Later jobs keep a settled file, and find nothing to do there. -/
theorem normalizeAll_of_settled (h : Settled config.baseDir memory location) (jobs : List Job) :
    (normalizeAll config jobs memory).2.data? location = memory.data? location ∧
      ∀ entry ∈ jobs.zip (normalizeAll config jobs memory).1,
        entry.1.location = location → entry.2 = .unchanged := by
  induction jobs generalizing memory with
  | nil => simp [normalizeAll]
  | cons job jobs ih =>
    rcases ih (h.apply job) with ⟨hdata, houtcomes⟩
    refine ⟨hdata.trans (h.data?_apply job), ?_⟩
    intro entry hentry hlocation
    rcases List.mem_cons.1 hentry with rfl | hentry
    · have hsettled : Settled config.baseDir memory job.location := hlocation ▸ h
      simp [hsettled.verdict_eq]
    · exact houtcomes entry hentry hlocation

/-- The first job that names a file decides what it will hold. -/
theorem data?_normalizeAll_of_find? (hbase : config.baseDir ≠ [])
    (hjob : jobs.find? (fun job => job.location = location) = some job)
    (hfree : location ∉ memory.isProtected)
    (htext : memory.data? location = some (Utf8.encode text)) :
    ∃ outcome, Layout.relativize (config.scope job.cwd) text = .ok outcome ∧
      (normalizeAll config jobs memory).2.data? location =
        some (Utf8.encode (outcome.getD text)) := by
  -- The first job that names the file settles it, and the jobs in front of it do not see it.
  induction jobs generalizing memory with
  | nil => cases hjob
  | cons first jobs ih =>
    by_cases hsame : first.location = location
    · have hfirst : first = job := by simpa [hsame] using hjob
      subst hfirst hsame
      rcases data?_apply_of_text hbase hfree htext with ⟨hsettled, outcome, houtcome, hdata⟩
      exact ⟨outcome, houtcome, (normalizeAll_of_settled hsettled jobs).1.trans hdata⟩
    · have hlater : jobs.find? (fun job => job.location = location) = some job := by
        simpa [hsame] using hjob
      have htext' : (first.apply config memory).data? location = some (Utf8.encode text) :=
        (Job.data?_apply_of_ne hsame).trans htext
      exact ih hlater (by simpa using hfree) htext'

/-- A file that no job names, that is protected or that holds no text stays as it is. -/
theorem data?_normalizeAll_of_not_text
    (h : ∀ job ∈ jobs, job.location = location →
      location ∈ memory.isProtected ∨ ∀ text, memory.data? location ≠ some (Utf8.encode text)) :
    (normalizeAll config jobs memory).2.data? location = memory.data? location := by
  induction jobs generalizing memory with
  | nil => rfl
  | cons job jobs ih =>
    have hfirst : (job.apply config memory).data? location = memory.data? location :=
      Job.data?_apply_of_not_text (h job (by simp))
    have hothers : ∀ other ∈ jobs, other.location = location →
        location ∈ (job.apply config memory).isProtected ∨
          ∀ text, (job.apply config memory).data? location ≠ some (Utf8.encode text) := by
      intro other hother hlocation
      simpa [hfirst] using h other (by simp [hother]) hlocation
    exact (ih hothers).trans hfirst

/-- After a job that could revise its file, every job on the same file finds nothing to do. -/
theorem pairwise_normalizeAll (hbase : config.baseDir ≠ []) (jobs : List Job) (memory : Memory) :
    (jobs.zip (normalizeAll config jobs memory).1).Pairwise (fun earlier later =>
      earlier.1.location = later.1.location → earlier.2 = .revised ∨ earlier.2 = .unchanged →
        later.2 = .unchanged) := by
  induction jobs generalizing memory with
  | nil => exact .nil
  | cons job jobs ih =>
    refine .cons ?_ (ih (job.apply config memory))
    intro later hlater hlocation houtcome
    have hsettled := settled_of_verdict hbase houtcome
    exact (normalizeAll_of_settled hsettled jobs).2 later hlater hlocation.symm

theorem normalizeAll_append (front back : List Job) (memory : Memory) :
    normalizeAll config (front ++ back) memory =
      ((normalizeAll config front memory).1 ++
          (normalizeAll config back (normalizeAll config front memory).2).1,
        (normalizeAll config back (normalizeAll config front memory).2).2) := by
  induction front generalizing memory with
  | nil => rfl
  | cons job front ih => simp [normalizeAll, ih]

/-- Two jobs on different files can be exchanged, and all jobs keep their outcomes. -/
theorem normalizeAll_swap {first second : Job} (hne : first.location ≠ second.location)
    (front back : List Job) (memory : Memory) :
    (normalizeAll config (front ++ second :: first :: back) memory).2 =
        (normalizeAll config (front ++ first :: second :: back) memory).2 ∧
      ((front ++ second :: first :: back).zip
          (normalizeAll config (front ++ second :: first :: back) memory).1).Perm
        ((front ++ first :: second :: back).zip
          (normalizeAll config (front ++ first :: second :: back) memory).1) := by
  have hfirst : ∀ memory, first.verdict config (second.apply config memory) =
      first.verdict config memory := by
    intro memory
    exact Job.verdict_congr (Job.data?_apply_of_ne (Ne.symm hne)) (by simp)
  have hsecond : ∀ memory, second.verdict config (first.apply config memory) =
      second.verdict config memory := by
    intro memory
    exact Job.verdict_congr (Job.data?_apply_of_ne hne) (by simp)
  have hlength := length_normalizeAll config front memory
  -- Both orders come to the same files, so the jobs behind the two cannot tell them apart.
  constructor
  · simp [normalizeAll_append, normalizeAll, Job.apply_comm hne]
  · simp only [normalizeAll_append, normalizeAll, Job.apply_comm hne, hfirst, hsecond]
    rw [List.zip_append hlength.symm, List.zip_append hlength.symm]
    exact (List.Perm.swap _ _ _).append_left _

end Memory

/-! ## Running them -/

/-- Normalize files one after the other: the outcomes, and the world after it. -/
def World.normalizeAll (config : Config) (jobs : List Job) (world : World Memory) :
    List Outcome × World Memory :=
  (jobs.mapM (fun job => normalizeFile config job.cwd job.depfile) : StateM (World Memory) _).run
    world

theorem Normalizes.eq_verdict {world after : World Memory} {outcome : Outcome}
    (hbase : config.baseDir ≠ [])
    (h : Normalizes config job.cwd job.depfile world outcome after) :
    outcome = (job.verdict config world.store).1 ∧ after.store = job.apply config world.store := by
  cases h with
  | disabled hnone => exact absurd hnone hbase
  | unreadable _ htext =>
    have hnone : (world.store.data? job.location).bind Utf8.decode? = none := by
      cases hread : (world.store.data? job.location).bind Utf8.decode? with
      | none => rfl
      | some text =>
        rcases Option.bind_eq_some_iff.1 hread with ⟨data, hdata, hdecode⟩
        rw [Utf8.decode?_eq_some_iff.1 hdecode] at hdata
        cases htext.symm.trans (Memory.textIn_eq_ok_iff.2 hdata)
    simp [Job.verdict, Job.apply, hnone]
  | unchanged _ htext hrevise =>
    simp [Job.apply, Job.verdict_of_text (Memory.textIn_eq_ok_iff.1 htext), hrevise]
  | revised _ htext hrevise hwrite =>
    rcases Memory.write_eq_ok_iff.1 hwrite with ⟨hfree, rfl⟩
    have hfree : job.location ∉ world.store.isProtected := hfree
    simp [Job.apply, Job.verdict_of_text (Memory.textIn_eq_ok_iff.1 htext), hrevise, hfree]
  | unwritable _ htext hrevise hwrite =>
    have hprotected : job.location ∈ world.store.isProtected :=
      (Memory.write_eq_error_iff.1 hwrite).1
    simp [Job.apply, Job.verdict_of_text (Memory.textIn_eq_ok_iff.1 htext), hrevise, hprotected]

theorem World.normalizeAll_eq (hbase : config.baseDir ≠ []) (jobs : List Job)
    (world : World Memory) :
    (world.normalizeAll config jobs).1 = (Memory.normalizeAll config jobs world.store).1 ∧
      (world.normalizeAll config jobs).2.store =
        (Memory.normalizeAll config jobs world.store).2 := by
  induction jobs generalizing world with
  | nil => exact ⟨rfl, rfl⟩
  | cons job jobs ih =>
    rcases (normalizes_run config job.cwd job.depfile world).eq_verdict hbase with
      ⟨houtcome, hstore⟩
    rcases ih ((normalizeFile config job.cwd job.depfile : StateM (World Memory) _).run world).2
      with ⟨houtcomes, hlast⟩
    rw [hstore] at houtcomes hlast
    constructor
    · simpa [World.normalizeAll, Memory.normalizeAll, List.mapM_cons, houtcome] using houtcomes
    · simpa [World.normalizeAll, Memory.normalizeAll, List.mapM_cons] using hlast

/-- Whatever the order of jobs and however often they are repeated: a file that holds a text and is
not protected ends up revised once, for the first job that names it, and every other file
stays as it is. Jobs on different files can be exchanged, and once a file is revised, or
needs no revision, every later job finds it unchanged. -/
theorem normalizeAll_converges (hbase : config.baseDir ≠ []) (jobs : List Job)
    (world : World Memory) :
    (∀ location text job, jobs.find? (fun job => job.location = location) = some job →
      location ∉ world.store.isProtected →
      world.store.data? location = some (Utf8.encode text) →
      ∃ outcome, Layout.relativize (config.scope job.cwd) text = .ok outcome ∧
        (world.normalizeAll config jobs).2.store.data? location =
          some (Utf8.encode (outcome.getD text))) ∧
    (∀ location, (∀ job ∈ jobs, job.location = location → location ∈ world.store.isProtected ∨
        ∀ text, world.store.data? location ≠ some (Utf8.encode text)) →
      (world.normalizeAll config jobs).2.store.data? location = world.store.data? location) ∧
    (∀ front first second back, jobs = front ++ first :: second :: back →
      first.location ≠ second.location →
      (world.normalizeAll config (front ++ second :: first :: back)).2.store =
          (world.normalizeAll config jobs).2.store ∧
        ((front ++ second :: first :: back).zip
            (world.normalizeAll config (front ++ second :: first :: back)).1).Perm
          (jobs.zip (world.normalizeAll config jobs).1)) ∧
    (world.normalizeAll config jobs).1.length = jobs.length ∧
    (jobs.zip (world.normalizeAll config jobs).1).Pairwise (fun earlier later =>
      earlier.1.location = later.1.location → earlier.2 = .revised ∨ earlier.2 = .unchanged →
        later.2 = .unchanged) := by
  have hrun := fun jobs => World.normalizeAll_eq hbase jobs world
  refine ⟨?_, ?_, ?_, ?_, ?_⟩
  · intro location text job hjob hfree htext
    rw [(hrun jobs).2]
    exact Memory.data?_normalizeAll_of_find? hbase hjob hfree htext
  · intro location h
    rw [(hrun jobs).2]
    exact Memory.data?_normalizeAll_of_not_text h
  · intro front first second back hjobs hne
    subst hjobs
    simp only [hrun]
    exact Memory.normalizeAll_swap hne front back world.store
  · rw [(hrun jobs).1]
    exact Memory.length_normalizeAll config jobs world.store
  · rw [(hrun jobs).1]
    exact Memory.pairwise_normalizeAll hbase jobs world.store

/-- The first job spells its file in another way, the second one finds a protected file, and the
last one comes too late to decide what its file holds. -/
theorem normalizeAll_respelled_converges :
    let config : Config := { baseDir := ['/', 'p'] }
    let first : Job := ⟨⟨['/', 'p', '/', '/', 'a'], rfl⟩, ⟨['/', 'p', '/', 'd'], rfl⟩⟩
    let second : Job := ⟨⟨['/', 'p', '/', 'b'], rfl⟩, ⟨['/', 'p'], rfl⟩⟩
    let third : Job := ⟨⟨['/', 'p', '/', 'a'], rfl⟩, ⟨['/', 'p'], rfl⟩⟩
    let text : Text := ['a', ':', ' ', '/', 'p', '/', 'x']
    let memory : Memory :=
      ⟨[(third.depfile, Utf8.encode text), (second.depfile, Utf8.encode text)], [second.location]⟩
    let after := (World.normalizeAll config [first, second, third] ⟨memory, [], .empty, [], []⟩).2
    config.baseDir ≠ [] ∧
      after.store.data? third.location =
        some (Utf8.encode ['a', ':', ' ', '.', '.', '/', 'x']) ∧
      after.store.data? second.location = some (Utf8.encode text) := by
  intro config first second third text memory after
  have hbase : config.baseDir ≠ [] := by simp [config]
  rcases normalizeAll_converges hbase [first, second, third] ⟨memory, [], .empty, [], []⟩ with
    ⟨hrevised, hkept, _⟩
  have hrelativize : Layout.relativize (config.scope first.cwd) text =
      .ok (some ['a', ':', ' ', '.', '.', '/', 'x']) := rfl
  refine ⟨hbase, ?_, ?_⟩
  · rcases hrevised third.location text first rfl (by decide) rfl with ⟨outcome, houtcome, hdata⟩
    rw [hrelativize] at houtcome
    cases houtcome
    exact hdata
  · apply (hkept second.location _).trans rfl
    intro job _ _
    exact .inl (by decide)

end Depfile
