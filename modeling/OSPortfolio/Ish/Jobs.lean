import Mathlib.Data.List.Basic

namespace OSPortfolio.Ish

/-!
# The job table of the shell

The data model of `ish.c`'s job control and the two functions every other part of it goes
through:

* `updatedProcessStatus` — record a wait status in the first process entry with that pid;
* `updatedJobStatus` — classify a job by the flags of its processes, updating the job.

The linked lists `job_head` and `job->process` are `List`s, head first, so the job launched
last and the process forked last stand first.  A job that other functions hold a pointer to
is named by its position in the table; no function here moves a job.  The saved terminal
modes (`tmodes`) are left out: nothing that is modelled reads them.

Most facts are about the process entries only, so `procTable` forgets the rest of a table
and `recordStatus` is `updatedProcessStatus` as it acts there.
-/

/-- The result codes `QUIT`, `SUCCESS` and `FAIL`. -/
inductive Ret
  | QUIT
  | SUCCESS
  | FAIL
  deriving DecidableEq, Repr

/-- A wait status, as `waitpid` with `WUNTRACED` delivers it. -/
inductive WaitStatus
  | exited (code : Nat)
  | signaled (sig : Nat) (core : Bool)
  | stopped (sig : Nat)
  deriving DecidableEq, Repr

/-- `WIFSTOPPED(status)`. -/
def WaitStatus.wifstopped : WaitStatus → Bool
  | .stopped _ => true
  | _ => false

/-- The run status of a job: `RUNNING`, `STOPPED` or `COMPLETED`. -/
inductive RunStatus
  | RUNNING
  | STOPPED
  | COMPLETED
  deriving DecidableEq, Repr

/-- `struct Process`; the defaults are those of `calloc`. -/
structure Process where
  processId : Int
  completed : Bool := false
  status : WaitStatus := .exited 0
  stopped : Bool := false
  deriving DecidableEq, Repr

/-- `struct Job`; the defaults are those of `calloc`. -/
structure Job where
  jobNum : Nat
  jobName : String
  notified : Bool := false
  status : WaitStatus := .exited 0
  runStatus : RunStatus := .RUNNING
  foreground : Bool := false
  process : List Process := []
  processGroupId : Int := 0
  deriving DecidableEq, Repr

/-- What one `waitpid` call delivers about a child: its pid and its wait status. -/
structure StatusEvent where
  processId : Int
  status : WaitStatus
  deriving DecidableEq, Repr

/-- The process entries of a job table, job by job. -/
def procTable (jobs : List Job) : List (List Process) :=
  jobs.map Job.process

/-! ### Recording a wait status -/

/-- Record a wait status in one process entry: a stop sets `stopped`, anything else
    `completed`. -/
def Process.record (st : WaitStatus) (p : Process) : Process :=
  if st.wifstopped then { p with status := st, stopped := true }
  else { p with status := st, completed := true }

@[simp] theorem Process.record_processId (st : WaitStatus) (p : Process) :
    (p.record st).processId = p.processId := by
  unfold Process.record; split <;> rfl

/-- The inner loop of `UpdatedProcessStatus`: the first entry with the event's pid, if any,
    takes the status. -/
def recordInProcesses (e : StatusEvent) : List Process → Option (List Process)
  | [] => none
  | p :: ps =>
    -- `return SUCCESS` leaves both loops: a later entry with this pid is not touched
    if p.processId = e.processId then some (p.record e.status :: ps)
    else (recordInProcesses e ps).map (p :: ·)

/-- The outer loop of `UpdatedProcessStatus`, over the jobs of the table. -/
def recordInJobs (e : StatusEvent) : List Job → Option (List Job)
  | [] => none
  | job :: jobs =>
    match recordInProcesses e job.process with
    | some ps => some ({ job with process := ps } :: jobs)
    | none => (recordInJobs e jobs).map (job :: ·)

/-- `UpdatedProcessStatus(process_id, status)`: record a status in the table, `FAIL` for a
    pid that is not positive or that no entry has. -/
def updatedProcessStatus (e : StatusEvent) (jobs : List Job) : Ret × List Job :=
  if 0 < e.processId then
    match recordInJobs e jobs with
    | some jobs' => (.SUCCESS, jobs')
    | none => (.FAIL, jobs)
  -- `waitpid` has returned 0 or -1
  else (.FAIL, jobs)

/-- Where `UpdatedProcessStatus` succeeds, its loops have found an entry. -/
theorem recordInJobs_of_success {e : StatusEvent} {jobs jobs' : List Job}
    (h : updatedProcessStatus e jobs = (.SUCCESS, jobs')) : recordInJobs e jobs = some jobs' := by
  unfold updatedProcessStatus at h
  split at h
  · split at h
    · rename_i found hfound
      obtain ⟨-, rfl⟩ := Prod.mk.inj h
      exact hfound
    · simp at h
  · simp at h

/-- `recordInJobs` as it acts on the process entries alone. -/
def recordInTable (e : StatusEvent) : List (List Process) → Option (List (List Process))
  | [] => none
  | ps :: pss =>
    match recordInProcesses e ps with
    | some ps' => some (ps' :: pss)
    | none => (recordInTable e pss).map (ps :: ·)

/-- The process entries after the event `e` has been recorded; unchanged if no entry has
    its pid. -/
def recordStatus (t : List (List Process)) (e : StatusEvent) : List (List Process) :=
  (recordInTable e t).getD t

/-- The process entries after all events of `es`, oldest first, have been recorded. -/
def recordAll (es : List StatusEvent) (t : List (List Process)) : List (List Process) :=
  es.foldl recordStatus t

@[simp] theorem recordAll_cons (e : StatusEvent) (es : List StatusEvent)
    (t : List (List Process)) : recordAll (e :: es) t = recordAll es (recordStatus t e) := rfl

/-- The table form of `recordInJobs` is its image under `procTable`. -/
theorem recordInJobs_procTable (e : StatusEvent) (jobs : List Job) :
    (recordInJobs e jobs).map procTable = recordInTable e (procTable jobs) := by
  induction jobs with
  | nil => rfl
  | cons job jobs ih =>
    simp only [recordInJobs, procTable, List.map_cons, recordInTable]
    cases recordInProcesses e job.process with
    -- found in this job: neither side looks at the jobs behind it
    | some ps => rfl
    | none =>
      rw [show List.map Job.process jobs = procTable jobs from rfl, ← ih]
      cases recordInJobs e jobs <;> rfl

/-- The pids of a process table. -/
def pidsOf (t : List (List Process)) : List Int :=
  t.flatMap (·.map Process.processId)

/-- The inner loop finds an entry exactly when one has the event's pid. -/
theorem recordInProcesses_isSome (e : StatusEvent) (ps : List Process) :
    (recordInProcesses e ps).isSome ↔ e.processId ∈ ps.map Process.processId := by
  induction ps with
  | nil => simp [recordInProcesses]
  | cons p ps ih =>
    simp only [recordInProcesses, List.map_cons, List.mem_cons]
    by_cases h : p.processId = e.processId
    · simp [h]
    · rw [if_neg h, Option.isSome_map, ih]
      exact ⟨Or.inr, fun hor => hor.resolve_left (fun heq => h heq.symm)⟩

/-- The outer loop finds an entry exactly when one of the table has the event's pid. -/
theorem recordInTable_isSome (e : StatusEvent) (t : List (List Process)) :
    (recordInTable e t).isSome ↔ e.processId ∈ pidsOf t := by
  induction t with
  | nil => simp [recordInTable, pidsOf]
  | cons ps pss ih =>
    have hps := recordInProcesses_isSome e ps
    simp only [recordInTable, pidsOf, List.flatMap_cons, List.mem_append]
    cases hrec : recordInProcesses e ps with
    | some ps' =>
      rw [hrec] at hps
      simp only [Option.isSome_some, true_iff] at hps ⊢
      exact Or.inl hps
    | none =>
      rw [hrec] at hps
      simp only [Option.isSome_none, Bool.false_eq_true, false_iff] at hps
      simp only [Option.isSome_map, ih, hps, false_or]
      rfl

/-- Recording keeps the pids of a job's processes. -/
theorem recordInProcesses_pids {e : StatusEvent} {ps ps' : List Process}
    (h : recordInProcesses e ps = some ps') :
    ps'.map Process.processId = ps.map Process.processId := by
  induction ps generalizing ps' with
  | nil => simp [recordInProcesses] at h
  | cons p ps ih =>
    simp only [recordInProcesses] at h
    split at h
    · obtain rfl := Option.some.inj h
      simp
    · obtain ⟨qs, hqs, rfl⟩ := Option.map_eq_some_iff.mp h
      simp [ih hqs]

/-- Recording keeps the pids of the table. -/
theorem pidsOf_recordStatus (t : List (List Process)) (e : StatusEvent) :
    pidsOf (recordStatus t e) = pidsOf t := by
  -- an event without an entry leaves the table alone, so look at one that is recorded
  have key : ∀ t', recordInTable e t = some t' → pidsOf t' = pidsOf t := by
    induction t with
    | nil => intro t' h; simp [recordInTable] at h
    | cons ps pss ih =>
      intro t' h
      simp only [recordInTable] at h
      cases hrec : recordInProcesses e ps with
      | some ps' =>
        rw [hrec] at h
        obtain rfl := Option.some.inj h
        simp [pidsOf, recordInProcesses_pids hrec]
      | none =>
        rw [hrec] at h
        obtain ⟨qs, hqs, rfl⟩ := Option.map_eq_some_iff.mp h
        have := ih qs hqs
        simp only [pidsOf, List.flatMap_cons] at this ⊢
        rw [this]
  unfold recordStatus
  cases h : recordInTable e t with
  | none => rfl
  | some t' => exact key t' h

/-- **`UpdatedProcessStatus` on an event of the table.** A positive pid that some entry has
    is recorded, and the call succeeds. -/
theorem updatedProcessStatus_found (e : StatusEvent) (jobs : List Job)
    (hpos : 0 < e.processId) (hmem : e.processId ∈ pidsOf (procTable jobs)) :
    ∃ jobs', updatedProcessStatus e jobs = (.SUCCESS, jobs') ∧
      procTable jobs' = recordStatus (procTable jobs) e := by
  have hsome := (recordInTable_isSome e (procTable jobs)).mpr hmem
  have hmap := recordInJobs_procTable e jobs
  cases hrec : recordInJobs e jobs with
  | none => rw [hrec] at hmap; rw [← hmap] at hsome; simp at hsome
  | some jobs' =>
    refine ⟨jobs', by simp [updatedProcessStatus, hpos, hrec], ?_⟩
    rw [hrec] at hmap
    simp [recordStatus, ← hmap]

/-! ### Classifying a job -/

/-- A process that has neither completed nor been reported stopped. -/
def Process.running (p : Process) : Bool :=
  !p.completed && !p.stopped

/-- The loop of `UpdatedJobStatus`: `none` on the early return for a running process, else
    `is_stopped` and the last `status` read.  The C variable `status` starts uninitialised,
    here `none`. -/
def scanProcesses : List Process → Bool → Option WaitStatus → Option (Bool × Option WaitStatus)
  | [], isStopped, status => some (isStopped, status)
  | p :: ps, isStopped, _ =>
    -- the early return: the processes behind are not looked at
    if p.completed = false ∧ p.stopped = false then none
    -- `stopped` is asked first, also of a process that has completed since
    else if p.stopped = true then scanProcesses ps true (some p.status)
    else scanProcesses ps isStopped (some p.status)

/-- `UpdatedJobStatus(job)`: the classification, and the job with its status fields set.
    A job without processes would store the uninitialised `status`; the field is then left
    as it was. -/
def updatedJobStatus (job : Job) : RunStatus × Job :=
  match scanProcesses job.process false none with
  | none =>
    (.RUNNING, { job with
      notified := if job.runStatus ≠ .RUNNING then false else job.notified
      runStatus := .RUNNING })
  | some (true, status) =>
    -- of the three results only this one takes the job off the foreground
    (.STOPPED, { job with
      notified := if job.runStatus ≠ .STOPPED then false else job.notified
      runStatus := .STOPPED
      status := status.getD job.status
      foreground := false })
  | some (false, status) =>
    (.COMPLETED, { job with
      notified := if job.runStatus ≠ .COMPLETED then false else job.notified
      runStatus := .COMPLETED
      status := status.getD job.status })

/-- The classification `UpdatedJobStatus` reads off the process flags. -/
def classify (ps : List Process) : RunStatus :=
  if ps.any Process.running then .RUNNING
  else if ps.any Process.stopped then .STOPPED
  else .COMPLETED

/-- The scan stops early exactly on a running process, and otherwise reports whether a
    stopped flag was seen. -/
theorem scanProcesses_spec (ps : List Process) (isStopped : Bool) (status : Option WaitStatus) :
    (scanProcesses ps isStopped status).map Prod.fst =
      if ps.any Process.running then none else some (isStopped || ps.any Process.stopped) := by
  induction ps generalizing isStopped status with
  | nil => simp [scanProcesses]
  | cons p ps ih =>
    simp only [scanProcesses, List.any_cons]
    cases hc : p.completed <;> cases hs : p.stopped <;> simp [hc, hs, ih, Process.running]

/-- **`UpdatedJobStatus` returns the classification of the process flags.** -/
theorem updatedJobStatus_fst (job : Job) : (updatedJobStatus job).1 = classify job.process := by
  have h := scanProcesses_spec job.process false none
  unfold updatedJobStatus classify
  cases hscan : scanProcesses job.process false none with
  | none =>
    rw [hscan] at h
    by_cases hr : job.process.any Process.running = true
    · simp [hr]
    · simp [hr] at h
  | some r =>
    obtain ⟨isStopped, status⟩ := r
    rw [hscan] at h
    by_cases hr : job.process.any Process.running = true
    · simp [hr] at h
    · rw [if_neg hr, Option.map_some, Bool.false_or, Option.some.injEq] at h
      have h : isStopped = _ := h
      rw [if_neg hr, ← h]
      cases isStopped <;> rfl

/-- `UpdatedJobStatus` leaves the process entries alone. -/
@[simp] theorem updatedJobStatus_process (job : Job) :
    (updatedJobStatus job).2.process = job.process := by
  unfold updatedJobStatus; split <;> rfl

/-- A running process makes the job `RUNNING`. -/
theorem classify_eq_running_iff (ps : List Process) :
    classify ps = .RUNNING ↔ ps.any Process.running = true := by
  unfold classify
  split
  · simp [*]
  · split <;> simp [*]

/-- `UpdatedJobStatus` applied through a pointer to the job at position `i`. -/
def updatedJobStatusAt (i : Nat) (jobs : List Job) : RunStatus × List Job :=
  match jobs[i]? with
  | some job => ((updatedJobStatus job).1, jobs.set i (updatedJobStatus job).2)
  | none => (.COMPLETED, jobs)

@[simp] theorem procTable_updatedJobStatusAt (i : Nat) (jobs : List Job) :
    procTable (updatedJobStatusAt i jobs).2 = procTable jobs := by
  unfold updatedJobStatusAt
  cases h : jobs[i]? with
  | none => rfl
  | some job =>
    obtain ⟨hi, hjob⟩ := List.getElem?_eq_some_iff.mp h
    apply List.ext_getElem?
    intro k
    -- position `i` holds the marked job, which has the same processes
    by_cases hk : i = k
    · subst hk; simp [procTable, hi, hjob]
    · simp [procTable, hk]

/-- The processes of the job at position `i`. -/
def processesAt (i : Nat) (t : List (List Process)) : List Process :=
  t[i]?.getD []

/-- Through a pointer, `UpdatedJobStatus` returns the classification of the job's flags. -/
theorem updatedJobStatusAt_fst (i : Nat) (jobs : List Job) :
    (updatedJobStatusAt i jobs).1 = classify (processesAt i (procTable jobs)) := by
  unfold updatedJobStatusAt processesAt
  cases h : jobs[i]? with
  | none => simp [procTable, h, classify]
  | some job => simp [procTable, h, updatedJobStatus_fst]

end OSPortfolio.Ish
