import OSPortfolio.Ish.JobHeap

namespace OSPortfolio.Ish.OnHeap

open OSPortfolio.Memory OSPortfolio.Posix

/-!
# The blocks of the job table

Which blocks a job is, and what the functions of `JobHeap.lean` do with them.

* `processNode`, `jobNode` — the blocks of a process and of a job;
* `HoldsTable` — the blocks of the table; `HoldsTable.focus`, `HoldsTable.at` — a job of it, and
  the rule for a function that is called with one;
* `triple_updatedProcessStatus`, `triple_updatedJobStatus` — the two functions do what
  `Jobs.lean` says.
-/

/-- The blocks of the job table. -/
abbrev JobBlocks := Multiset (Ptr × JobCell)

/-- A `struct Process`. -/
def processNode : NodeKind JobCell Process where
  Holds p q process m := p ≠ 0 ∧ m = {(p, .process { process with next := q })}
  ne_null h := h.1
  card_pos h := by rw [h.2, Multiset.card_singleton]; exact Nat.one_pos

/-- The fields of a `struct Job`, with its pointers. -/
def jobFields (job : Job) (name next process : Ptr) : JobFields where
  jobNum := job.jobNum
  jobName := name
  notified := job.notified
  status := job.status
  runStatus := job.runStatus
  foreground := job.foreground
  next := next
  process := process
  processGroupId := job.processGroupId

/-- A `struct Job` with its name and its processes. -/
def jobNode : NodeKind JobCell Job where
  Holds p q job m := p ≠ 0 ∧ ∃ name ps xs ms,
    m = {(p, .job (jobFields job name q ps))} + ({(name, .chars job.jobName)} + ms) ∧
      Segment processNode ps xs 0 ms ∧ xs.map Prod.snd = job.process
  ne_null h := h.1
  card_pos h := by
    obtain ⟨-, name, ps, xs, ms, rfl, -⟩ := h
    rw [Multiset.card_add, Multiset.card_singleton]
    omega

section
variable {γ δ σ : Type} {m o : JobBlocks} {p q : Ptr} {job : Job}
  {Q : γ → JobBlocks → Prop}

/-! ### Rules for the fields -/

/-- Read the fields of a `struct Job`. -/
theorem triple_loadJob {f : JobFields → JobProg γ} {c : JobFields} (hm : m = {(p, .job c)} + o)
    (h : Triple m (f c) Q) : Triple m (loadJob p >>= f) Q :=
  triple_loadAs hm rfl h

/-- Read the fields of a `struct Process`. -/
theorem triple_loadProcess {f : ProcessFields → JobProg γ} {c : ProcessFields}
    (hm : m = {(p, .process c)} + o) (h : Triple m (f c) Q) :
    Triple m (loadProcess p >>= f) Q :=
  triple_loadAs hm rfl h

/-- Read the text of a block. -/
theorem triple_loadText {f : String → JobProg γ} {s : String} (hm : m = {(p, .chars s)} + o)
    (h : Triple m (f s) Q) : Triple m (loadText p >>= f) Q :=
  triple_loadAs hm rfl h

/-- Change the fields of a `struct Job`. -/
theorem triple_setJob {f : Unit → JobProg γ} {c : JobFields} {g : JobFields → JobFields}
    (hm : m = {(p, .job c)} + o) (h : Triple ({(p, .job (g c))} + o) (f ()) Q) :
    Triple m (setJob p g >>= f) Q := by
  rw [setJob, bind_assoc]
  exact triple_loadJob hm (triple_store hm h)

/-- Change the fields of a `struct Process`. -/
theorem triple_setProcess {f : Unit → JobProg γ} {c : ProcessFields}
    {g : ProcessFields → ProcessFields} (hm : m = {(p, .process c)} + o)
    (h : Triple ({(p, .process (g c))} + o) (f ()) Q) :
    Triple m (setProcess p g >>= f) Q := by
  rw [setProcess, bind_assoc]
  exact triple_loadProcess hm (triple_store hm h)

/-- A branch, taken or not. -/
theorem triple_whenTrue {b : Bool} {x : JobProg Unit} {f : Unit → JobProg γ}
    (htrue : b = true → Triple m (x >>= f) Q) (hfalse : b = false → Triple m (f ()) Q) :
    Triple m (whenTrue b x >>= f) Q := by
  cases b with
  | true => exact htrue rfl
  | false => exact hfalse rfl

/-- A text that fits is copied into a block. -/
theorem triple_strcpy {f : Unit → JobProg γ} {s t : String} (hm : m = {(p, .chars t)} + o)
    (hs : fitsWord s = true) (h : Triple ({(p, .chars s)} + o) (f ()) Q) :
    Triple m (strcpy p s >>= f) Q := by
  rw [strcpy, bind_assoc]
  refine triple_assert hs ?_
  rw [bind_assoc]
  exact triple_loadText hm (triple_store hm h)

/-- A text that fits is added to a block. -/
theorem triple_strcat {f : Unit → JobProg γ} {s t : String} (hm : m = {(p, .chars t)} + o)
    (hs : fitsWord (t ++ s) = true) (h : Triple ({(p, .chars (t ++ s))} + o) (f ()) Q) :
    Triple m (strcat p s >>= f) Q := by
  rw [strcat, bind_assoc]
  refine triple_loadText hm ?_
  rw [bind_assoc]
  exact triple_assert hs (triple_store hm h)

/-- `process->next` is the next node. -/
theorem readsNext_process : ReadsNext processNode nextProcess := by
  rintro p q process m ⟨hp, rfl⟩
  exact triple_loadProcess (add_zero _).symm (triple_pure ⟨rfl, rfl⟩)

/-- `job->next` is the next node. -/
theorem readsNext_job : ReadsNext jobNode nextJob := by
  rintro p q job m ⟨hp, name, ps, xs, ms, rfl, hxs, hprocess⟩
  exact triple_loadJob rfl (triple_pure ⟨rfl, rfl⟩)

/-! ### Rules for a job -/

/-- Read the fields of a job. -/
theorem triple_jobFields {f : JobFields → JobProg γ} (h : jobNode.Holds p q job m)
    (hf : ∀ name ps, Triple m (f (jobFields job name q ps)) Q) :
    Triple m (loadJob p >>= f) Q := by
  obtain ⟨hp, name, ps, xs, ms, rfl, hxs, hprocess⟩ := h
  exact triple_loadJob rfl (hf name ps)

/-- Assign to a field of a job that is not one of its pointers. -/
theorem triple_modifyJob {f : Unit → JobProg γ} {g : JobFields → JobFields} (k : Job → Job)
    (h : jobNode.Holds p q job m)
    (hg : ∀ name ps, g (jobFields job name q ps) = jobFields (k job) name q ps)
    (hname : (k job).jobName = job.jobName) (hprocess : (k job).process = job.process)
    (hf : ∀ m', jobNode.Holds p q (k job) m' → Triple m' (f ()) Q) :
    Triple m (setJob p g >>= f) Q := by
  obtain ⟨hp, name, ps, xs, ms, rfl, hxs, hxs'⟩ := h
  refine triple_setJob rfl ?_
  rw [hg]
  refine hf _ ⟨hp, name, ps, xs, ms, ?_, hxs, hxs'.trans hprocess.symm⟩
  rw [hname]

/-- A walk along the processes of a job. -/
theorem triple_walkProcesses {body : σ → Ptr → JobProg (δ ⊕ σ)}
    {f : σ → Process → (δ ⊕ σ) × Process} (h : jobNode.Holds p q job m)
    (hbody : DoesTo processNode body fun s x => f s x.2) (s : σ) {k : δ ⊕ σ → JobProg γ}
    (hk : ∀ m', jobNode.Holds p q { job with process := (scan f s job.process).2 } m' →
      Triple m' (k (scan f s job.process).1) Q) :
    Triple m (loadJob p >>= fun c => walk nextProcess body s c.process >>= k) Q := by
  obtain ⟨hp, name, ps, xs, ms, rfl, hxs, hprocess⟩ := h
  refine triple_loadJob rfl ((triple_walk readsNext_process hbody hxs s).call
    (o := {(p, JobCell.job (jobFields job name q ps))} + {(name, .chars job.jobName)}) ?_ ?_)
  · show _ = ms + _
    abel
  · rintro r m' ⟨rfl, hsegment⟩
    obtain ⟨hr, hvalues⟩ := along_values f s xs
    rw [hprocess] at hr hvalues
    rw [hr]
    refine hk _ ⟨hp, name, ps, _, m', ?_, hsegment, hvalues⟩
    show m' + _ = {(p, JobCell.job (jobFields job name q ps))} + _
    abel

end

/-! ### The table -/

/-- The table begins at `head`, and its jobs are at these addresses. -/
def HoldsTable (ptrs : List Ptr) (head : Ptr) (jobs : List Job) (m : JobBlocks) : Prop :=
  ∃ xs, Segment jobNode head xs 0 m ∧ xs.map Prod.fst = ptrs ∧ xs.map Prod.snd = jobs

section
variable {γ : Type} {m : JobBlocks} {ptrs : List Ptr} {head p : Ptr} {jobs : List Job} {i : Nat}

/-- The job at an address of the table. -/
theorem HoldsTable.job_at (h : HoldsTable ptrs head jobs m) (hi : ptrs[i]? = some p) :
    ∃ job, jobs[i]? = some job := by
  obtain ⟨xs, -, rfl, rfl⟩ := h
  rw [List.getElem?_map] at hi
  obtain ⟨x, hx, -⟩ := Option.map_eq_some_iff.mp hi
  exact ⟨x.2, by rw [List.getElem?_map, hx]; rfl⟩

/-- The blocks of a job of the table, and the table when the job has changed. -/
theorem HoldsTable.focus {job : Job} (h : HoldsTable ptrs head jobs m) (hi : ptrs[i]? = some p)
    (hjob : jobs[i]? = some job) :
    ∃ q m₁ o, m = m₁ + o ∧ jobNode.Holds p q job m₁ ∧ ∀ job' m', jobNode.Holds p q job' m' →
      HoldsTable ptrs head (jobs.set i job') (m' + o) := by
  obtain ⟨xs, hxs, rfl, rfl⟩ := h
  have hentry : xs[i]? = some (p, job) := by
    rw [List.getElem?_map] at hi hjob
    obtain ⟨y, hy, rfl⟩ := Option.map_eq_some_iff.mp hi
    rw [hy] at hjob
    obtain rfl := Option.some.inj hjob
    exact hy
  obtain ⟨q, m₁, o, rfl, hnode, hset⟩ := hxs.focus hentry
  refine ⟨q, m₁, o, rfl, hnode, fun job' m' hm' => ⟨_, hset job' m' hm', ?_, ?_⟩⟩
  · obtain ⟨hlt, hget⟩ := List.getElem?_eq_some_iff.mp hi
    rw [List.map_set, show (p, job').1 = (xs.map Prod.fst)[i] from hget.symm,
      List.set_getElem_self]
  · rw [List.map_set]

/-- **A function that is called with a job of the table** leaves the others alone. -/
theorem HoldsTable.at {x : JobProg γ} {job job' : Job} {R : γ → Prop}
    (h : HoldsTable ptrs head jobs m) (hi : ptrs[i]? = some p) (hjob : jobs[i]? = some job)
    (hx : ∀ q m, jobNode.Holds p q job m →
      Triple m x fun r m' => R r ∧ jobNode.Holds p q job' m') :
    Triple m x fun r m' => R r ∧ HoldsTable ptrs head (jobs.set i job') m' := by
  obtain ⟨q, m₁, o, rfl, hnode, hset⟩ := h.focus hi hjob
  exact (hx q m₁ hnode).frame rfl fun r m' hr => ⟨hr.1, hset job' m' hr.2⟩

/-- The same for an assignment. -/
theorem HoldsTable.modify {x : JobProg γ} {f : Job → Job} {R : γ → Prop}
    (h : HoldsTable ptrs head jobs m) (hi : ptrs[i]? = some p)
    (hx : ∀ job q m, jobNode.Holds p q job m →
      Triple m x fun r m' => R r ∧ jobNode.Holds p q (f job) m') :
    Triple m x fun r m' => R r ∧ HoldsTable ptrs head (jobs.modify i f) m' := by
  obtain ⟨job, hjob⟩ := h.job_at hi
  rw [List.modify_eq_set_getElem?, hjob]
  exact h.at hi hjob (hx job)

end

/-! ### Statuses -/

section
variable {m : JobBlocks} {ptrs : List Ptr} {head p q : Ptr} {job : Job} {jobs : List Job} {i : Nat}

/-- What a turn of the inner loop of `UpdatedProcessStatus` does to a process. -/
def recordStep (e : StatusEvent) (_ : Unit) (process : Process) : (Ret ⊕ Unit) × Process :=
  if process.processId = e.processId then (.inl .SUCCESS, process.record e.status)
  else (.inr (), process)

/-- The inner loop of `UpdatedProcessStatus` on one process. -/
theorem doesTo_recordIn (e : StatusEvent) :
    DoesTo processNode (recordIn e) fun s x => recordStep e s x.2 := by
  rintro s p q process m ⟨hp, rfl⟩
  refine triple_loadProcess (add_zero _).symm ?_
  unfold recordStep
  dsimp only
  split
  · refine triple_setProcess (add_zero _).symm ?_
    unfold Process.record
    cases e.status.wifstopped
    · refine triple_setProcess rfl (triple_pure ⟨rfl, hp, ?_⟩)
      rw [add_zero]
      rfl
    · refine triple_setProcess rfl (triple_pure ⟨rfl, hp, ?_⟩)
      rw [add_zero]
      rfl
  · exact triple_pure ⟨rfl, hp, rfl⟩

/-- The walk is the inner loop of `Jobs.lean`. -/
theorem scan_recordStep (e : StatusEvent) (ps : List Process) :
    scan (recordStep e) () ps =
      match recordInProcesses e ps with
      | some ps' => (.inl .SUCCESS, ps')
      | none => (.inr (), ps) := by
  induction ps with
  | nil => rfl
  | cons p ps ih =>
    rw [scan, recordInProcesses, recordStep]
    by_cases h : p.processId = e.processId
    · simp [h]
    · simp only [if_neg h, ih]
      cases recordInProcesses e ps <;> rfl

/-- What a turn of the outer loop does to a job. -/
def recordJobStep (e : StatusEvent) (_ : Unit) (job : Job) : (Ret ⊕ Unit) × Job :=
  match recordInProcesses e job.process with
  | some ps => (.inl .SUCCESS, { job with process := ps })
  | none => (.inr (), job)

/-- The outer loop of `UpdatedProcessStatus` on one job. -/
theorem doesTo_recordJob (e : StatusEvent) :
    DoesTo jobNode (fun _ job => do
      let f ← loadJob job
      walk nextProcess (recordIn e) () f.process) fun s x => recordJobStep e s x.2 := by
  intro s p q job m h
  have hwalk := triple_walkProcesses h (doesTo_recordIn e) () (k := pure)
    (Q := fun r m' => r = (recordJobStep e s job).1 ∧ jobNode.Holds p q (recordJobStep e s job).2 m')
    fun m' hm' => triple_pure ?_
  · simpa only [bind_pure] using hwalk
  · rw [scan_recordStep] at hm' ⊢
    unfold recordJobStep
    cases hrec : recordInProcesses e job.process with
    | some ps => simpa [hrec] using hm'
    | none => simpa [hrec] using hm'

/-- The two loops together record the status in the table. -/
theorem scan_recordJobStep (e : StatusEvent) (jobs : List Job) :
    scan (recordJobStep e) () jobs =
      match recordInJobs e jobs with
      | some jobs' => (.inl .SUCCESS, jobs')
      | none => (.inr (), jobs) := by
  induction jobs with
  | nil => rfl
  | cons job jobs ih =>
    rw [scan, recordInJobs, recordJobStep]
    cases recordInProcesses e job.process with
    | some ps => rfl
    | none =>
      simp only [ih]
      cases recordInJobs e jobs <;> rfl

/-- **`UpdatedProcessStatus`** -/
theorem triple_updatedProcessStatus (e : StatusEvent) (h : HoldsTable ptrs head jobs m) :
    Triple m (updatedProcessStatus e head) fun r m' =>
      r = (Ish.updatedProcessStatus e jobs).1 ∧
        HoldsTable ptrs head (Ish.updatedProcessStatus e jobs).2 m' := by
  obtain ⟨xs, hxs, rfl, rfl⟩ := h
  unfold updatedProcessStatus Ish.updatedProcessStatus
  split
  · refine (triple_walk readsNext_job (doesTo_recordJob e) hxs ()).call (add_zero _).symm ?_
    rintro r m' ⟨rfl, hsegment⟩
    obtain ⟨hr, hvalues⟩ := along_values (recordJobStep e) () xs
    rw [scan_recordJobStep] at hr hvalues
    rw [add_zero]
    refine triple_pure ⟨?_, _, hsegment, map_fst_along _ _ _, ?_⟩
    · rw [hr]
      cases recordInJobs e (xs.map Prod.snd) <;> rfl
    · rw [hvalues]
      cases recordInJobs e (xs.map Prod.snd) <;> rfl
  · exact triple_pure ⟨rfl, xs, hxs, rfl, rfl⟩

/-- What a turn of the loop of `UpdatedJobStatus` does. -/
def lookStep (s : Bool × Option WaitStatus) (process : Process) :
    (Unit ⊕ (Bool × Option WaitStatus)) × Process :=
  (if process.completed = false ∧ process.stopped = false then .inl ()
    else if process.stopped = true then .inr (true, some process.status)
    else .inr (s.1, some process.status), process)

/-- The loop of `UpdatedJobStatus` on one process, which it leaves alone. -/
theorem doesTo_lookAt : DoesTo processNode lookAt fun s x => lookStep s x.2 := by
  rintro s p q process m ⟨hp, rfl⟩
  refine triple_loadProcess (add_zero _).symm ?_
  unfold lookStep
  dsimp only
  split
  · exact triple_pure ⟨rfl, hp, rfl⟩
  · split
    · exact triple_pure ⟨rfl, hp, rfl⟩
    · exact triple_pure ⟨rfl, hp, rfl⟩

/-- That loop finds what `scanProcesses` finds. -/
theorem scan_lookStep (isStopped : Bool) (status : Option WaitStatus) (ps : List Process) :
    scan lookStep (isStopped, status) ps =
      (((scanProcesses ps isStopped status).elim (.inl ()) .inr), ps) := by
  induction ps generalizing isStopped status with
  | nil => rfl
  | cons p ps ih =>
    rw [scan, scanProcesses, lookStep]
    by_cases hrun : p.completed = false ∧ p.stopped = false
    · simp [hrun]
    · by_cases hstop : p.stopped = true
      · simp [hstop, ih]
      · have hcompleted : ¬ p.completed = false := fun h => hrun ⟨h, by simpa using hstop⟩
        simp [hcompleted, hstop, ih]

/-- The fields that `UpdatedJobStatus` sets first. -/
def withRunStatus (job : Job) (status : RunStatus) : Job :=
  { job with
    notified := if job.runStatus ≠ status then false else job.notified
    runStatus := status }

/-- Set `run_status`, and clear `notified` where it changes. -/
theorem triple_setRunStatus {γ : Type} {Q : γ → JobBlocks → Prop} {f : Unit → JobProg γ}
    (h : jobNode.Holds p q job m) (status : RunStatus)
    (hf : ∀ m', jobNode.Holds p q (withRunStatus job status) m' → Triple m' (f ()) Q) :
    Triple m (setRunStatus p status >>= f) Q := by
  rw [setRunStatus, bind_assoc]
  refine triple_jobFields h fun name ps => ?_
  rw [bind_assoc]
  unfold withRunStatus at hf
  refine triple_whenTrue (fun hne => ?_) fun heq => ?_
  · refine triple_modifyJob (fun job => { job with notified := false }) h (fun _ _ => rfl) rfl rfl
      fun m' h' => ?_
    refine triple_modifyJob (fun job => { job with runStatus := status }) h' (fun _ _ => rfl) rfl
      rfl fun m'' h'' => hf m'' ?_
    have hne' : job.runStatus ≠ status := of_decide_eq_true hne
    rw [if_pos hne']
    exact h''
  · refine triple_modifyJob (fun job => { job with runStatus := status }) h (fun _ _ => rfl) rfl
      rfl fun m' h' => hf m' ?_
    have heq' : ¬ job.runStatus ≠ status := of_decide_eq_false heq
    rw [if_neg heq']
    exact h'

/-- **`UpdatedJobStatus`** -/
theorem triple_updatedJobStatus (h : jobNode.Holds p q job m) :
    Triple m (updatedJobStatus p) fun r m' =>
      r = (Ish.updatedJobStatus job).1 ∧ jobNode.Holds p q (Ish.updatedJobStatus job).2 m' := by
  unfold updatedJobStatus Ish.updatedJobStatus
  refine triple_walkProcesses h doesTo_lookAt _ fun m' hm' => ?_
  rw [scan_lookStep] at hm' ⊢
  cases scanProcesses job.process false none with
  | none =>
    refine triple_setRunStatus hm' .RUNNING fun m'' h'' => triple_pure ⟨rfl, h''⟩
  | some r =>
    obtain ⟨isStopped, status⟩ := r
    cases isStopped with
    | true =>
      refine triple_setRunStatus hm' .STOPPED fun m₁ h₁ => ?_
      refine triple_modifyJob (fun job => { job with status := status.getD job.status }) h₁
        (fun _ _ => rfl) rfl rfl fun m₂ h₂ => ?_
      exact triple_modifyJob (fun job => { job with foreground := false }) h₂ (fun _ _ => rfl) rfl
        rfl fun m₃ h₃ => triple_pure ⟨rfl, h₃⟩
    | false =>
      refine triple_setRunStatus hm' .COMPLETED fun m₁ h₁ => ?_
      exact triple_modifyJob (fun job => { job with status := status.getD job.status }) h₁
        (fun _ _ => rfl) rfl rfl fun m₂ h₂ => triple_pure ⟨rfl, h₂⟩

/-- The same for a job of the table. -/
theorem triple_updatedJobStatusAt (h : HoldsTable ptrs head jobs m) (hi : ptrs[i]? = some p) :
    Triple m (updatedJobStatus p) fun r m' =>
      r = (updatedJobStatusAt i jobs).1 ∧ HoldsTable ptrs head (updatedJobStatusAt i jobs).2 m' := by
  obtain ⟨job, hjob⟩ := h.job_at hi
  rw [updatedJobStatusAt, hjob]
  exact h.at hi hjob fun q m hm => triple_updatedJobStatus hm

end

end OSPortfolio.Ish.OnHeap
