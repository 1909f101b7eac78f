import OSPortfolio.Ish.ForkLoop
import OSPortfolio.Ish.JobControl

namespace OSPortfolio.Ish

/-!
# The status of a job

`UpdatedJobStatus` copies the status of one of the processes into `job->status`, where
`PrintInfoJobs` reads the signal that stopped the job, or its exit code.  The loop overwrites
`status` at each process, and the list has the process forked last in front, so what is copied
is the status of the first stage, whether that is a stopped one or not.

* `firstStage`, `lastStage` — the processes at the two ends of the list;
* `updatedJobStatus_status` — what is copied;
* `StatusShown` — what should be: the status of a stopped stage, or of the last stage;
* `statusShown_iff` — **the first stage has to have that status**.
-/

/-- The process of the first stage of a pipeline, and that of the last. -/
def firstStage (ps : List Process) : Option Process := ps.getLast?

def lastStage (ps : List Process) : Option Process := ps.head?

/-- In a job that was just launched they belong to the child forked first and the one forked
    last. -/
theorem LaunchedJob.stages {numJobs : Nat} {children : List Child} {job : Job}
    (h : LaunchedJob numJobs children job) :
    (firstStage job.process).map Process.processId = children.head?.map Child.pid ∧
      (lastStage job.process).map Process.processId = children.getLast?.map Child.pid := by
  rw [h.process, firstStage, lastStage, entriesOf, List.getLast?_reverse, List.head?_reverse,
    List.head?_map, List.getLast?_map, Option.map_map, Option.map_map]
  exact ⟨rfl, rfl⟩

/-- What `UpdatedJobStatus` should leave in `job->status`: for a job that is `STOPPED` the status
    of a process that was stopped and, for one that is `COMPLETED`, that of the last stage. -/
structure StatusShown (job : Job) : Prop where
  stopped : (updatedJobStatus job).1 = .STOPPED → ∃ p ∈ job.process,
    p.stopped = true ∧ p.status.wifstopped = true ∧ (updatedJobStatus job).2.status = p.status
  completed : (updatedJobStatus job).1 = .COMPLETED → ∀ p ∈ lastStage job.process,
    (updatedJobStatus job).2.status = p.status

/-- The first stage has the status of a stopped one, where one is stopped and none is running,
    and that of the last one where all have completed. -/
structure FirstStageShows (ps : List Process) : Prop where
  stopped : (∀ p ∈ ps, p.running = false) → (∃ p ∈ ps, p.stopped = true) →
    ∃ q ∈ firstStage ps, ∃ p ∈ ps,
      p.stopped = true ∧ p.status.wifstopped = true ∧ q.status = p.status
  completed : (∀ p ∈ ps, p.running = false ∧ p.stopped = false) →
    ∀ q ∈ firstStage ps, ∀ p ∈ lastStage ps, q.status = p.status

/-- A job is `STOPPED` if none of its processes is running and one is stopped, -/
theorem classify_eq_stopped_iff (ps : List Process) : classify ps = .STOPPED ↔
    (∀ p ∈ ps, p.running = false) ∧ ∃ p ∈ ps, p.stopped = true := by
  unfold classify
  split
  · next hrun =>
    obtain ⟨p, hp, hflag⟩ := List.any_eq_true.mp hrun
    simp only [reduceCtorEq, false_iff, not_and]
    intro hnone
    rw [hnone p hp] at hflag
    contradiction
  · next hrun =>
    have hnone : ∀ p ∈ ps, p.running = false := by simpa using hrun
    split <;> simp_all

/-- and `COMPLETED` if each has completed. -/
theorem classify_eq_completed_iff (ps : List Process) : classify ps = .COMPLETED ↔
    ∀ p ∈ ps, p.running = false ∧ p.stopped = false := by
  unfold classify
  split
  · next hrun =>
    obtain ⟨p, hp, hflag⟩ := List.any_eq_true.mp hrun
    simp only [reduceCtorEq, false_iff]
    intro hall
    rw [(hall p hp).1] at hflag
    contradiction
  · next hrun =>
    have hnone : ∀ p ∈ ps, p.running = false := by simpa using hrun
    split <;> simp_all

/-- The status that the loop ends with is the one it has read last. -/
theorem scanProcesses_status {ps : List Process} {isStopped isStopped' : Bool}
    {status status' : Option WaitStatus}
    (h : scanProcesses ps isStopped status = some (isStopped', status')) :
    status' = ((firstStage ps).map Process.status).or status := by
  induction ps generalizing isStopped status with
  | nil =>
    obtain ⟨-, rfl⟩ := Prod.mk.inj (Option.some.inj h)
    rfl
  | cons p ps ih =>
    have hrest : ∃ b, scanProcesses ps b (some p.status) = some (isStopped', status') := by
      rw [scanProcesses] at h
      split at h
      · exact absurd h (by simp)
      · split at h
        · exact ⟨_, h⟩
        · exact ⟨_, h⟩
    obtain ⟨b, hb⟩ := hrest
    rw [ih hb, firstStage, firstStage, List.getLast?_cons]
    cases ps.getLast? <;> rfl

/-- **What is copied**, unless a process is still running: the status of the first stage. -/
theorem updatedJobStatus_status {job : Job} (h : (updatedJobStatus job).1 ≠ .RUNNING) {q : Process}
    (hq : q ∈ firstStage job.process) : (updatedJobStatus job).2.status = q.status := by
  have hfirst : firstStage job.process = some q := hq
  unfold updatedJobStatus at h ⊢
  split at h
  · exact absurd rfl h
  · rename_i hscan
    rw [scanProcesses_status hscan, hfirst]
    rfl
  · rename_i hscan
    rw [scanProcesses_status hscan, hfirst]
    rfl

/-- A job with a stopped process has a first stage. -/
theorem exists_firstStage {ps : List Process} {p : Process} (h : p ∈ ps) :
    ∃ q, firstStage ps = some q :=
  ⟨ps.getLast (List.ne_nil_of_mem h), List.getLast?_eq_some_getLast (List.ne_nil_of_mem h)⟩

/-- **Which status a job shows.**  For any number of stages with any flags and statuses, it is the
    one it should be exactly if the first stage has it. -/
theorem statusShown_iff (job : Job) : StatusShown job ↔ FirstStageShows job.process := by
  have hclass := updatedJobStatus_fst job
  constructor
  · rintro ⟨hstopped, hcompleted⟩
    rw [hclass] at hstopped hcompleted
    refine ⟨fun hrun hany => ?_, fun hall q hq p hp => ?_⟩
    · have h := (classify_eq_stopped_iff job.process).mpr ⟨hrun, hany⟩
      obtain ⟨p, hp, hflag, hstop, hstatus⟩ := hstopped h
      obtain ⟨q, hq⟩ := exists_firstStage hp
      refine ⟨q, hq, p, hp, hflag, hstop, ?_⟩
      rw [← hstatus, updatedJobStatus_status (by rw [hclass, h]; decide) hq]
    · have h := (classify_eq_completed_iff job.process).mpr hall
      rw [← hcompleted h p hp, updatedJobStatus_status (by rw [hclass, h]; decide) hq]
  · rintro ⟨hstopped, hcompleted⟩
    refine ⟨fun h => ?_, fun h p hp => ?_⟩
    · obtain ⟨hrun, hany⟩ := (classify_eq_stopped_iff job.process).mp (hclass ▸ h)
      obtain ⟨q, hq, p, hp, hflag, hstop, hstatus⟩ := hstopped hrun hany
      refine ⟨p, hp, hflag, hstop, ?_⟩
      rw [updatedJobStatus_status (by rw [h]; decide) hq, hstatus]
    · have hall := (classify_eq_completed_iff job.process).mp (hclass ▸ h)
      obtain ⟨q, hq⟩ := exists_firstStage (List.mem_of_mem_head? hp)
      rw [updatedJobStatus_status (by rw [h]; decide) hq, hcompleted hall q hq p hp]

/-- `ls | less` when `ls` is done and `less` has been stopped from the terminal. -/
def lsLess : Job where
  jobNum := 1
  jobName := "ls"
  process :=
    [Process.record (.stopped 20) { processId := 11 },
      Process.record (.exited 0) { processId := 10 }]

/-- The job is `STOPPED`, and its status is the exit code of `ls`. -/
theorem lsLess_shows_exit :
    (updatedJobStatus lsLess).1 = .STOPPED ∧ (updatedJobStatus lsLess).2.status = .exited 0 ∧
      ¬ StatusShown lsLess := by
  refine ⟨rfl, rfl, fun h => ?_⟩
  obtain ⟨p, hp, -, hstop, hstatus⟩ := h.stopped rfl
  have hexit : WaitStatus.exited 0 = p.status := hstatus
  rw [← hexit] at hstop
  exact absurd hstop (by decide)

end OSPortfolio.Ish
