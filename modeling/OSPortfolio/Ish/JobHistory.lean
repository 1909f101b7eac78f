import Mathlib.Data.List.Induction
import OSPortfolio.Ish.JobSteps

namespace OSPortfolio.Ish

/-!
# The history of a job

What `UpdatedJobStatus` should say is determined by what has happened to the processes of a
job: which of them have terminated, and which have been reported stopped since they were
last resumed.  This file states that and compares it with the flags.

* `historyOf` — what the log of a run says about one process of a job;
* `ClassifiedByHistory` — the classification the history asks for;
* `processesAt_replay`, `flags_replay` — the flags of a process after a run, from its
  history;
* `updatedJobStatus_history_iff` — the classification is right, and a terminated job swept
  from the table, exactly when no process of a job that has terminated altogether was
  reported stopped after its last resume: recording a termination leaves `stopped` set.
-/

/-! ### Histories -/

/-- What can happen to a process of a job. -/
inductive ProcEvent
  | stopped
  | terminated
  | resumed
  deriving DecidableEq, Repr

/-- A wait status reports a stop or a termination. -/
def WaitStatus.procEvent (st : WaitStatus) : ProcEvent :=
  if st.wifstopped then .stopped else .terminated

/-- A stop has been reported since the last resume. -/
def StopStands (h : List ProcEvent) : Prop :=
  ∃ before after, h = before ++ .stopped :: after ∧ .resumed ∉ after

/-- The part of a log that is about the process `pid` of the job at position `i` of the
    process table `t`.  A status is about the job launched last that has its pid, as pids are
    only used again once the earlier process is gone; jobs launched later stand in front. -/
def historyOf (t : List (List Process)) (i : Nat) (pid : Int) (log : List JobEvent) :
    List ProcEvent :=
  log.filterMap fun
    | .recorded e =>
      if e.processId = pid ∧ pid ∉ pidsOf (t.take i) then some e.status.procEvent else none
    | .resumed j => if j = i then some .resumed else none

/-- `st` is the classification of a job with processes `ps` and histories `hist`:
    `COMPLETED` when every process has terminated, `RUNNING` when some process has neither
    terminated nor been reported stopped since it was last resumed, and else `STOPPED`. -/
structure ClassifiedByHistory (hist : Process → List ProcEvent) (ps : List Process)
    (st : RunStatus) : Prop where
  completed : st = .COMPLETED ↔ ∀ p ∈ ps, .terminated ∈ hist p
  running : st = .RUNNING ↔ ∃ p ∈ ps, .terminated ∉ hist p ∧ ¬ StopStands (hist p)

/-- Nothing has happened, and no stop stands. -/
theorem not_stopStands_nil : ¬ StopStands [] := by
  rintro ⟨before, after, h, -⟩
  simp at h

/-- Behind a stop one stands. -/
theorem stopStands_snoc_stopped (h : List ProcEvent) : StopStands (h ++ [.stopped]) :=
  ⟨h, [], rfl, by simp⟩

/-- Behind a resume none does. -/
theorem not_stopStands_snoc_resumed (h : List ProcEvent) : ¬ StopStands (h ++ [.resumed]) := by
  rintro ⟨before, after, heq, hafter⟩
  -- what follows the stop is empty, or ends in the resume
  rcases List.eq_nil_or_concat after with rfl | ⟨after, ev, rfl⟩
  · exact absurd (List.append_inj_right' heq rfl) (by simp)
  · rw [List.concat_eq_append, ← List.cons_append, ← List.append_assoc] at heq
    obtain rfl : ProcEvent.resumed = ev := by simpa using List.append_inj_right' heq rfl
    exact hafter (by simp)

/-- The end of a process does not take a stop back. -/
theorem stopStands_snoc_terminated (h : List ProcEvent) :
    StopStands (h ++ [.terminated]) ↔ StopStands h := by
  constructor
  · rintro ⟨before, after, heq, hafter⟩
    -- the last event is no stop, so it is one of those behind the stop that stands
    rcases List.eq_nil_or_concat after with rfl | ⟨after, ev, rfl⟩
    · exact absurd (List.append_inj_right' heq rfl) (by simp)
    · rw [List.concat_eq_append, ← List.cons_append, ← List.append_assoc] at heq
      exact ⟨before, after, List.append_inj_left' heq rfl, fun hmem => hafter (by simp [hmem])⟩
  · rintro ⟨before, after, rfl, hafter⟩
    exact ⟨before, after ++ [.terminated], by simp, by simpa using hafter⟩

/-! ### Replaying a log -/

/-- What a logged event does to the process entries. -/
def JobEvent.apply : JobEvent → List (List Process) → List (List Process)
  | .recorded e, t => recordStatus t e
  | .resumed i, t => t.modify i (List.map Process.resume)

/-- The process entries after the events of a log, oldest first. -/
def replay (log : List JobEvent) (t : List (List Process)) : List (List Process) :=
  log.foldl (fun t ev => ev.apply t) t

/-- One part of the log after the other. -/
theorem replay_append (log log' : List JobEvent) (t : List (List Process)) :
    replay (log ++ log') t = replay log' (replay log t) := List.foldl_append

/-- A step changes the process entries as it logs. -/
theorem Touch.replay {s s' : JobControl} (h : Touch s s') :
    ∃ new, s'.log = s.log ++ new ∧
      procTable s'.jobs = OSPortfolio.Ish.replay new (procTable s.jobs) := by
  cases h with
  | text out err => exact ⟨[], by simp, rfl⟩
  | mark jobs hmark =>
    refine ⟨[], by simp, ?_⟩
    show procTable jobs = procTable s.jobs
    generalize s.jobs = jobs₀ at hmark
    induction hmark with
    | nil => rfl
    | cons hjob _ ih => exact List.cons_eq_cons.mpr ⟨hjob.process, ih⟩
  | kill i job sig _ => exact ⟨[], by simp, rfl⟩
  | resume i =>
    refine ⟨[.resumed i], rfl, ?_⟩
    show (s.jobs.modify i _).map Job.process = (s.jobs.map Job.process).modify i _
    exact map_modify (by intro job; rfl) s.jobs i
  | record e jobs hrec =>
    refine ⟨[.recorded e], rfl, ?_⟩
    show procTable jobs = recordStatus (procTable s.jobs) e
    have hmap := recordInJobs_procTable e s.jobs
    rw [recordInJobs_of_success hrec] at hmap
    simp [recordStatus, ← hmap]

/-- A function made of steps changes the process entries as it logs. -/
theorem Touches.replay {s s' : JobControl} (h : Touches s s') :
    ∃ new, s'.log = s.log ++ new ∧
      procTable s'.jobs = OSPortfolio.Ish.replay new (procTable s.jobs) := by
  induction h with
  | refl => exact ⟨[], by simp, rfl⟩
  | tail _ hstep ih =>
    obtain ⟨new, hlog, htab⟩ := ih
    obtain ⟨new', hlog', htab'⟩ := hstep.replay
    exact ⟨new ++ new', by rw [hlog', hlog, List.append_assoc], by
      rw [htab', htab, replay_append]⟩

/-! ### One process -/

/-- What an event does to a process of the job at position `i` of `t`. -/
def Process.after (t : List (List Process)) (i : Nat) (p : Process) : JobEvent → Process
  | .recorded e =>
    if e.processId = p.processId ∧ p.processId ∉ pidsOf (t.take i) then p.record e.status else p
  | .resumed j => if j = i then p.resume else p

@[simp] theorem Process.after_processId (t : List (List Process)) (i : Nat) (p : Process)
    (ev : JobEvent) : (p.after t i ev).processId = p.processId := by
  cases ev with
  | recorded e => simp only [Process.after]; split <;> simp
  | resumed j => simp only [Process.after]; split <;> rfl

/-- With distinct pids, recording in a job's processes is recording in each of them that has
    the pid. -/
theorem recordInProcesses_getD (e : StatusEvent) (ps : List Process)
    (hnodup : (ps.map Process.processId).Nodup) :
    (recordInProcesses e ps).getD ps =
      ps.map (fun p => if e.processId = p.processId then p.record e.status else p) := by
  induction ps with
  | nil => rfl
  | cons p ps ih =>
    rw [List.map_cons, List.nodup_cons] at hnodup
    rw [recordInProcesses, List.map_cons]
    by_cases hp : p.processId = e.processId
    · rw [if_pos hp, if_pos hp.symm, Option.getD_some]
      -- the loop returns at `p`, and no process behind it has this pid
      have hrest : ∀ q ∈ ps, (if e.processId = q.processId then q.record e.status else q) = q := by
        intro q hq
        refine if_neg (fun heq => hnodup.1 ?_)
        rw [hp, heq]
        exact List.mem_map_of_mem hq
      rw [List.map_congr_left hrest, List.map_id']
    · rw [if_neg hp, if_neg (Ne.symm hp), ← ih hnodup.2]
      cases recordInProcesses e ps <;> rfl

/-- A status is recorded in the job at position `i` unless a job in front has its pid. -/
theorem processesAt_recordStatus (t : List (List Process)) (e : StatusEvent) (i : Nat) :
    processesAt i (recordStatus t e) =
      if e.processId ∈ pidsOf (t.take i) then processesAt i t
      else (recordInProcesses e (processesAt i t)).getD (processesAt i t) := by
  induction t generalizing i with
  | nil => simp [recordStatus, recordInTable, processesAt, pidsOf, recordInProcesses]
  | cons ps pss ih =>
    have hps := recordInProcesses_isSome e ps
    unfold recordStatus recordInTable
    cases hrec : recordInProcesses e ps with
    | some ps' =>
      have hmem : e.processId ∈ ps.map Process.processId := by rw [← hps, hrec]; rfl
      -- a status for the front job ends the loop there
      cases i with
      | zero => simp [processesAt, pidsOf, hrec]
      | succ i =>
        rw [if_pos (by simp only [List.take_succ_cons, pidsOf, List.flatMap_cons,
          List.mem_append]; exact Or.inl hmem)]
        simp [processesAt]
    | none =>
      have hmem : e.processId ∉ ps.map Process.processId := by rw [← hps, hrec]; simp
      have hgetD : ((recordInTable e pss).map (ps :: ·)).getD (ps :: pss) =
          ps :: recordStatus pss e := by
        unfold recordStatus; cases recordInTable e pss <;> rfl
      dsimp only
      rw [hgetD]
      cases i with
      | zero => simp [processesAt, pidsOf, hrec]
      | succ i =>
        -- the front job is passed over, so only the jobs between it and `i` can catch the status
        have hfront : e.processId ∈ pidsOf ((ps :: pss).take (i + 1)) ↔
            e.processId ∈ pidsOf (pss.take i) := by
          simp only [List.take_succ_cons, pidsOf, List.flatMap_cons, List.mem_append]
          exact or_iff_right hmem
        simp only [hfront]
        exact ih i

/-- No event changes the pids of a job. -/
theorem pids_apply (ev : JobEvent) (t : List (List Process)) :
    (ev.apply t).map (List.map Process.processId) = t.map (List.map Process.processId) := by
  cases ev with
  | recorded e =>
    show (recordStatus t e).map _ = _
    unfold recordStatus
    induction t with
    | nil => rfl
    | cons ps pss ih =>
      unfold recordInTable
      cases hrec : recordInProcesses e ps with
      | some ps' => simp [recordInProcesses_pids hrec]
      | none => cases h : recordInTable e pss <;> simp_all
  | resumed j =>
    show (t.modify j _).map _ = _
    exact map_modify_same (fun ps => by simp [Process.resume]) t j

/-- The log changes no pid. -/
theorem pids_replay (log : List JobEvent) (t : List (List Process)) :
    (replay log t).map (List.map Process.processId) = t.map (List.map Process.processId) := by
  induction log generalizing t with
  | nil => rfl
  | cons ev log ih => exact (ih (ev.apply t)).trans (pids_apply ev t)

/-- Nor the pids of the first jobs. -/
theorem pidsOf_take_replay (log : List JobEvent) (t : List (List Process)) (i : Nat) :
    pidsOf ((replay log t).take i) = pidsOf (t.take i) := by
  have h := pids_replay log t
  simp only [pidsOf, List.flatMap_def, List.map_take]
  rw [h]

/-- **One event** acts on each process of a job on its own. -/
theorem processesAt_apply (ev : JobEvent) (t : List (List Process)) (i : Nat)
    (hnodup : ((processesAt i t).map Process.processId).Nodup) :
    processesAt i (ev.apply t) = (processesAt i t).map (fun p => p.after t i ev) := by
  cases ev with
  | recorded e =>
    show processesAt i (recordStatus t e) = _
    rw [processesAt_recordStatus]
    -- a job in front with this pid catches the status, and the history says the same
    by_cases hfront : e.processId ∈ pidsOf (t.take i)
    · rw [if_pos hfront]
      have hsame : ∀ p ∈ processesAt i t, p.after t i (.recorded e) = p := by
        intro p _
        refine if_neg ?_
        rintro ⟨heq, hnot⟩
        exact hnot (heq ▸ hfront)
      rw [List.map_congr_left hsame, List.map_id']
    · rw [if_neg hfront, recordInProcesses_getD e _ hnodup]
      refine List.map_congr_left fun p _ => ?_
      by_cases heq : e.processId = p.processId
      · rw [if_pos heq, Process.after, if_pos ⟨heq, heq ▸ hfront⟩]
      · rw [if_neg heq, Process.after, if_neg (fun h => heq h.1)]
  | resumed j =>
    simp only [JobEvent.apply, Process.after, processesAt, List.getElem?_modify]
    by_cases hj : j = i
    · simp only [hj, if_true]
      cases t[i]? <;> rfl
    · simp [hj]

/-- The processes of a job after a run, each after its own events. -/
theorem processesAt_replay (log : List JobEvent) (t : List (List Process)) (i : Nat)
    (hnodup : ((processesAt i t).map Process.processId).Nodup) :
    processesAt i (replay log t) =
      (processesAt i t).map (fun p => log.foldl (Process.after t i) p) := by
  -- by the last event: the ones before it have not moved a pid, so it is about the same process
  induction log using List.reverseRecOn with
  | nil => simp [replay]
  | append_singleton log ev ih =>
    -- whom the event is about is decided by pids, which the run has not changed
    have hafter : ∀ p : Process, p.after (replay log t) i ev = p.after t i ev := by
      intro p
      cases ev with
      | recorded e => simp only [Process.after, pidsOf_take_replay]
      | resumed j => rfl
    have hpids : (processesAt i (replay log t)).map Process.processId =
        (processesAt i t).map Process.processId := by
      have hat := congrArg (·[i]?) (pids_replay log t)
      simp only [List.getElem?_map] at hat
      unfold processesAt
      cases h : (replay log t)[i]? <;> cases h' : t[i]? <;> simp_all
    have hone := processesAt_apply ev (replay log t) i (hpids ▸ hnodup)
    rw [replay_append]
    show processesAt i (ev.apply (replay log t)) = _
    rw [hone, ih, List.map_map]
    refine List.map_congr_left fun p _ => ?_
    rw [Function.comp_apply, hafter, List.foldl_append]
    rfl

@[simp] theorem foldl_after_processId (t : List (List Process)) (i : Nat) (p : Process)
    (log : List JobEvent) : (log.foldl (Process.after t i) p).processId = p.processId := by
  induction log generalizing p with
  | nil => rfl
  | cons ev log ih => exact (ih _).trans (Process.after_processId t i p ev)

/-- The history of a process, one event longer. -/
theorem historyOf_snoc (t : List (List Process)) (i : Nat) (pid : Int) (log : List JobEvent)
    (ev : JobEvent) :
    historyOf t i pid (log ++ [ev]) = historyOf t i pid log ++ historyOf t i pid [ev] :=
  List.filterMap_append

/-- **The flags of a process, from its history**: `completed` says that it has terminated,
    `stopped` that a stop has been reported since the last resume. -/
theorem flags_replay (t : List (List Process)) (i : Nat) (p : Process) (log : List JobEvent)
    (hcompleted : p.completed = false) (hstopped : p.stopped = false) :
    ((log.foldl (Process.after t i) p).completed = true ↔
        .terminated ∈ historyOf t i p.processId log) ∧
      ((log.foldl (Process.after t i) p).stopped = true ↔
        StopStands (historyOf t i p.processId log)) := by
  induction log using List.reverseRecOn with
  | nil => simp [historyOf, hcompleted, hstopped, not_stopStands_nil]
  | append_singleton log ev ih =>
    obtain ⟨ihc, ihs⟩ := ih
    rw [List.foldl_append, List.foldl_cons, List.foldl_nil, historyOf_snoc]
    have hpid := foldl_after_processId t i p log
    -- only the flags before the event matter from here on
    generalize log.foldl (Process.after t i) p = q at ihc ihs hpid
    generalize historyOf t i p.processId log = h at ihc ihs
    cases ev with
    | recorded e =>
      simp only [Process.after, hpid, historyOf, List.filterMap_cons, List.filterMap_nil]
      by_cases habout : e.processId = p.processId ∧ p.processId ∉ pidsOf (t.take i)
      · rw [if_pos habout, if_pos habout]
        unfold Process.record WaitStatus.procEvent
        -- a stop sets `stopped`; a termination sets `completed` and leaves `stopped` as it was
        cases hst : e.status.wifstopped with
        | true => simpa [ihc] using stopStands_snoc_stopped h
        | false => simpa [stopStands_snoc_terminated] using ihs
      · rw [if_neg habout, if_neg habout]
        simpa using ⟨ihc, ihs⟩
    | resumed j =>
      simp only [Process.after, historyOf, List.filterMap_cons, List.filterMap_nil]
      by_cases hj : j = i
      · rw [if_pos hj, if_pos hj]
        simpa [Process.resume, ihc] using not_stopStands_snoc_resumed h
      · rw [if_neg hj, if_neg hj]
        simpa using ⟨ihc, ihs⟩

/-! ### Runs of a job -/

/-- What can act on a job between its launch and its removal: a status handed to
    `UpdatedProcessStatus`, and the three built-ins that resume jobs. -/
inductive JobAction
  | status (e : StatusEvent)
  | fg (pc : Command) (es : List StatusEvent) (childLeft : Bool)
  | bg (pc : Command)
  | kill (pc : Command)
  deriving Repr

section
variable (killError : Nat → Option String) (beyond : List Char)

/-- One action. -/
def JobAction.run : JobAction → JobControl → JobControl
  | .status e, s => recordAvailable [e] s
  | .fg pc es childLeft, s => (funcFg killError beyond pc es childLeft s).2
  | .bg pc, s => funcBg killError beyond pc s
  | .kill pc, s => funcKill killError beyond pc s

/-- A sequence of actions. -/
def runActions (acts : List JobAction) (s : JobControl) : JobControl :=
  acts.foldl (fun s act => act.run killError beyond s) s

/-- An action leaves the jobs in their places. -/
theorem touches_run (act : JobAction) (s : JobControl) :
    Touches s (act.run killError beyond s) := by
  cases act with
  | status e => exact touches_recordAvailable [e] s
  | fg pc es childLeft => exact touches_funcFg killError beyond pc es childLeft s
  | bg pc => exact touches_funcBg killError beyond pc s
  | kill pc => exact touches_funcKill killError beyond pc s

/-- So do several. -/
theorem touches_runActions (acts : List JobAction) (s : JobControl) :
    Touches s (runActions killError beyond acts s) := by
  induction acts generalizing s with
  | nil => exact .refl
  | cons act acts ih => exact (touches_run killError beyond act s).trans (ih _)

/-- The sweep of `func_JobNotification` removes the job at position `i`: the table is what it
    would be if the job had not been there. -/
def SweptAway (i : Nat) (es : List StatusEvent) (s : JobControl) : Prop :=
  (funcJobNotification es s).jobs =
    ((recordAvailable es s).jobs.eraseIdx i).filterMap (fun job => (sweepJob job).2)

/-- A job leaves the table in the sweep exactly when its flags say `COMPLETED`. -/
theorem sweepJob_eq_none_iff (job : Job) :
    (sweepJob job).2 = none ↔ classify job.process = .COMPLETED := by
  rw [← updatedJobStatus_fst]
  unfold sweepJob
  cases h : updatedJobStatus job with | mk st job'
  cases st <;> simp

/-- A job that is completed is swept away. -/
theorem sweptAway_of_completed {i : Nat} {es : List StatusEvent} {s : JobControl} {job : Job}
    (hjob : (recordAvailable es s).jobs[i]? = some job)
    (hcompleted : classify job.process = .COMPLETED) : SweptAway i es s := by
  obtain ⟨hi, hget⟩ := List.getElem?_eq_some_iff.mp hjob
  show (recordAvailable es s).jobs.filterMap _ = _
  generalize (recordAvailable es s).jobs = jobs at hi hget
  rw [List.eraseIdx_eq_take_drop_succ, List.filterMap_append]
  -- split the sweep at the job
  conv_lhs => rw [← List.take_append_drop i jobs, List.drop_eq_getElem_cons hi]
  rw [List.filterMap_append, List.filterMap_cons, hget, (sweepJob_eq_none_iff job).mpr hcompleted]

/-- The job at position `i` is classified by its history, and the notification removes it if
    all its processes have terminated.  The last statuses of the run, `es`, are those that
    the notification takes from `waitpid` itself. -/
def FollowsHistory (t : List (List Process)) (i : Nat) (ps : List Process)
    (es : List StatusEvent) (s : JobControl) : Prop :=
  let hist p := historyOf t i p.processId (recordAvailable es s).log
  (∃ job, (recordAvailable es s).jobs[i]? = some job ∧
      ClassifiedByHistory hist ps (updatedJobStatus job).1) ∧
    ((∀ p ∈ ps, .terminated ∈ hist p) → SweptAway i es s)

/-- After a run from an empty log, a job has its processes, each after its own events. -/
theorem jobAt_touches {s s' : JobControl} {i : Nat} {job : Job} (h : Touches s s')
    (hlog : s.log = []) (hjob : s.jobs[i]? = some job)
    (hnodup : (job.process.map Process.processId).Nodup) :
    ∃ job', s'.jobs[i]? = some job' ∧
      job'.process = job.process.map (fun p => s'.log.foldl (Process.after (procTable s.jobs) i) p)
      := by
  obtain ⟨new, hnew, htab⟩ := h.replay
  rw [hlog, List.nil_append] at hnew
  have hps : processesAt i (procTable s.jobs) = job.process := by
    simp [processesAt, procTable, hjob]
  have hat := processesAt_replay new (procTable s.jobs) i (hps ▸ hnodup)
  rw [← htab, hps, ← hnew] at hat
  -- no step removes a job
  have hlen : i < s'.jobs.length := by
    have hpids := congrArg List.length (pids_replay new (procTable s.jobs))
    rw [← htab] at hpids
    simp only [procTable, List.length_map] at hpids
    rw [hpids]
    exact (List.getElem?_eq_some_iff.mp hjob).1
  refine ⟨s'.jobs[i], List.getElem?_eq_getElem hlen, ?_⟩
  simpa [processesAt, procTable, hlen] using hat

/-- The classification after a run, from the histories of the processes. -/
theorem classify_after (t : List (List Process)) (i : Nat) (ps : List Process)
    (log : List JobEvent) (hfresh : ∀ p ∈ ps, p.completed = false ∧ p.stopped = false) :
    (classify (ps.map (fun p => log.foldl (Process.after t i) p)) = .RUNNING ↔
        ∃ p ∈ ps, .terminated ∉ historyOf t i p.processId log ∧
          ¬ StopStands (historyOf t i p.processId log)) ∧
      (classify (ps.map (fun p => log.foldl (Process.after t i) p)) = .COMPLETED ↔
        (∀ p ∈ ps, .terminated ∈ historyOf t i p.processId log) ∧
          ∀ p ∈ ps, ¬ StopStands (historyOf t i p.processId log)) := by
  have hflags := fun p hp => flags_replay t i p log (hfresh p hp).1 (hfresh p hp).2
  have hrun : (ps.map (fun p => log.foldl (Process.after t i) p)).any Process.running = true ↔
      ∃ p ∈ ps, .terminated ∉ historyOf t i p.processId log ∧
        ¬ StopStands (historyOf t i p.processId log) := by
    rw [List.any_map, List.any_eq_true]
    refine exists_congr fun p => and_congr_right fun hp => ?_
    rw [← (hflags p hp).1, ← (hflags p hp).2]
    simp [Process.running]
  have hstop : (ps.map (fun p => log.foldl (Process.after t i) p)).any Process.stopped = true ↔
      ∃ p ∈ ps, StopStands (historyOf t i p.processId log) := by
    rw [List.any_map, List.any_eq_true]
    exact exists_congr fun p => and_congr_right fun hp => (hflags p hp).2
  refine ⟨(classify_eq_running_iff _).trans hrun, ?_⟩
  -- `COMPLETED` needs the flags `stopped` clear as well: this is where it parts from the history
  rw [classify]
  split
  · rename_i hany
    obtain ⟨p, hp, hterm, -⟩ := hrun.mp hany
    simp only [reduceCtorEq, false_iff, not_and]
    exact fun hall => absurd (hall p hp) hterm
  · rename_i hnone
    rw [hrun] at hnone
    push Not at hnone
    split
    · rename_i hany
      obtain ⟨p, hp, hs⟩ := hstop.mp hany
      simp only [reduceCtorEq, false_iff, not_and]
      exact fun _ hall => hall p hp hs
    · rename_i hnostop
      rw [hstop] at hnostop
      push Not at hnostop
      exact iff_of_true rfl
        ⟨fun p hp => by_contra fun h => hnostop p hp (hnone p hp h), hnostop⟩

/-- **The classification of a job, exactly.**  After any run on a job whose flags start
    clear, the job is classified by its history (and removed once all its processes have
    terminated) exactly when it is not the case that all of them have terminated and one was
    reported stopped after it was last resumed. -/
theorem updatedJobStatus_history_iff (jobs : List Job) (numJobs : Nat) (i : Nat) (job : Job)
    (hjob : jobs[i]? = some job)
    (hfresh : ∀ p ∈ job.process, p.completed = false ∧ p.stopped = false)
    (hnodup : (job.process.map Process.processId).Nodup) (acts : List JobAction)
    (es : List StatusEvent) :
    FollowsHistory (procTable jobs) i job.process es
        (runActions killError beyond acts { jobs := jobs, numJobs := numJobs }) ↔
      ¬ ((∀ p ∈ job.process, .terminated ∈ historyOf (procTable jobs) i p.processId
            (recordAvailable es
              (runActions killError beyond acts { jobs := jobs, numJobs := numJobs })).log) ∧
          ∃ p ∈ job.process, StopStands (historyOf (procTable jobs) i p.processId
            (recordAvailable es
              (runActions killError beyond acts { jobs := jobs, numJobs := numJobs })).log)) := by
  have htouches := (touches_runActions killError beyond acts
    { jobs := jobs, numJobs := numJobs }).trans (touches_recordAvailable es _)
  obtain ⟨job', hjob', hps⟩ := jobAt_touches htouches rfl hjob hnodup
  unfold FollowsHistory
  generalize runActions killError beyond acts { jobs := jobs, numJobs := numJobs } = s
    at hjob' hps ⊢
  obtain ⟨hrun, hdone⟩ :=
    classify_after (procTable jobs) i job.process (recordAvailable es s).log hfresh
  rw [← hps] at hrun hdone
  constructor
  · rintro ⟨⟨job'', hjob'', hclass⟩, -⟩ ⟨hall, p, hp, hstands⟩
    -- the history asks for `COMPLETED`, for which the flags would have to be clear
    obtain rfl : job' = job'' := Option.some.inj (hjob'.symm.trans hjob'')
    rw [updatedJobStatus_fst] at hclass
    exact (hdone.mp (hclass.completed.mpr hall)).2 p hp hstands
  · intro hnot
    have hcompleted : classify job'.process = .COMPLETED ↔
        ∀ p ∈ job.process, .terminated ∈ historyOf (procTable jobs) i p.processId
          (recordAvailable es s).log := by
      refine hdone.trans (and_iff_left_of_imp fun hall p hp hstands => hnot ⟨hall, p, hp, hstands⟩)
    refine ⟨⟨job', hjob', ?_⟩, fun hall => sweptAway_of_completed hjob' (hcompleted.mpr hall)⟩
    rw [updatedJobStatus_fst]
    exact ⟨hcompleted, hrun⟩

end

/-- A table with one job of one process. -/
def oneJob : List Job := [{ jobNum := 1, jobName := "sleep", process := [{ processId := 7 }] }]

/-- A process is stopped and then killed by a signal from outside: the job has terminated
    altogether, counts as `STOPPED`, and the notification keeps it. -/
theorem updatedJobStatus_killed_while_stopped :
    ¬ FollowsHistory (procTable oneJob) 0 [{ processId := 7 }] []
        (runActions (fun _ => none) [] [.status ⟨7, .stopped 20⟩, .status ⟨7, .signaled 9 false⟩]
          { jobs := oneJob, numJobs := 1 }) ∧
      (funcJobNotification [] (runActions (fun _ => none) []
        [.status ⟨7, .stopped 20⟩, .status ⟨7, .signaled 9 false⟩]
          { jobs := oneJob, numJobs := 1 })).jobs.map Job.jobNum = [1] := by
  refine ⟨?_, by decide⟩
  rintro ⟨⟨job, hjob, hclass⟩, -⟩
  obtain rfl := Option.some.inj hjob
  exact absurd (hclass.completed.mpr (by decide)) (by decide)

/-- Stopped, then killed with the shell's own `kill`, which clears the flag first. -/
theorem updatedJobStatus_history_iff_kill :
    FollowsHistory (procTable oneJob) 0 [{ processId := 7 }] [⟨7, .signaled 15 false⟩]
      (runActions (fun _ => none) [] [.status ⟨7, .stopped 20⟩,
        .kill (.mk "kill" ⟨some "kill", ["%1"]⟩ false .null .null)]
        { jobs := oneJob, numJobs := 1 }) := by
  refine (updatedJobStatus_history_iff (fun _ => none) [] oneJob 1 0 oneJob[0] rfl (by decide)
    (by decide) _ _).mpr ?_
  rintro ⟨-, p, hp, hstands⟩
  obtain rfl : p = { processId := 7 } := by simpa [oneJob] using hp
  refine (stopStands_snoc_terminated [.stopped, .resumed]).not.mpr
    (not_stopStands_snoc_resumed [.stopped]) ?_
  exact hstands

end OSPortfolio.Ish
