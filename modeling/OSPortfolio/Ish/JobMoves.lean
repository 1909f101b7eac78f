import OSPortfolio.Ish.ExecCommand

namespace OSPortfolio.Ish

open OSPortfolio.Posix

/-!
# What a command does to each job

`JobSteps.lean` cuts the job-control functions into small steps and forgets which job a step
was for and in what order the steps came.  The marks of a job (`run_status`, `notified`,
`foreground`) depend on both, so this file says what each function does to each job.

* `putInBackground`, `putInForeground` — what `bg`, `kill` and `fg` do to the job they select;
* `executeBuiltInComds_effect` — what a built-in does to the table, as a whole;
* `Everywhere` — a property of the jobs by their positions; `everywhere_foreGroundWait`,
  `everywhere_execCommandWait`, `everywhere_recordAvailable` — the loops keep one that
  recording a status keeps, and for the awaited job `UpdatedJobStatus`;
* `foreGroundWait_fresh`, `execCommandWait_fresh` — the `run_status` of the awaited job is
  its classification when the wait ends;
* `sweepAlong` — what is noted beside the jobs, when the notification has removed some;
* `execCommand_outcome` — all that a call of `ExecCommand` can do.
-/

/-! ### The selected job -/

/-- What `bg` and `kill` do to the job they select. -/
def putInBackground (job : Job) : Job :=
  { job with process := job.process.map Process.resume, notified := false, foreground := false }

/-- What `fg` does to the job it selects, up to the wait loop. -/
def putInForeground (job : Job) : Job :=
  { job with process := job.process.map Process.resume, notified := true, foreground := true }

@[simp] theorem putInBackground_idem (job : Job) :
    putInBackground (putInBackground job) = putInBackground job := by
  simp only [putInBackground, List.map_map]
  rfl

/-- The table after `bg` or `kill` has selected the jobs at the positions `sel`. -/
def backgroundAll (sel : List Nat) (jobs : List Job) : List Job :=
  jobs.mapIdx fun i job => if i ∈ sel then putInBackground job else job

@[simp] theorem backgroundAll_nil (jobs : List Job) : backgroundAll [] jobs = jobs := by
  refine List.ext_getElem? fun j => ?_
  simp [backgroundAll]

/-- The selected jobs are put in the background, and the others stay. -/
theorem getElem?_backgroundAll (sel : List Nat) (jobs : List Job) (j : Nat) :
    (backgroundAll sel jobs)[j]? =
      (jobs[j]?).map fun job => if j ∈ sel then putInBackground job else job := by
  simp [backgroundAll]

/-- One more job; it may be one of those already selected. -/
theorem modify_backgroundAll (sel : List Nat) (jobs : List Job) (i : Nat) :
    (backgroundAll sel jobs).modify i putInBackground = backgroundAll (sel ++ [i]) jobs := by
  refine List.ext_getElem? fun j => ?_
  rw [List.getElem?_modify, getElem?_backgroundAll, getElem?_backgroundAll]
  cases jobs[j]? with
  | none => simp
  | some job =>
    by_cases hj : i = j
    · subst hj
      by_cases hi : i ∈ sel <;> simp [hi]
    · simp [hj, Ne.symm hj]

section
variable (killError : Nat → Option String) (beyond : List Char)

@[simp] theorem signalJob_jobs (i : Nat) (sig : Signal) (s : JobControl) :
    (signalJob killError i sig s).2.jobs = s.jobs := by
  unfold signalJob
  split
  · rfl
  · dsimp only
    split <;> rfl

@[simp] theorem signalJob_log (i : Nat) (sig : Signal) (s : JobControl) :
    (signalJob killError i sig s).2.log = s.log := by
  unfold signalJob
  split
  · rfl
  · dsimp only
    split <;> rfl

@[simp] theorem announceJob_jobs (i : Nat) (s : JobControl) : (announceJob i s).jobs = s.jobs := by
  unfold announceJob
  split <;> rfl

@[simp] theorem announceJob_log (i : Nat) (s : JobControl) : (announceJob i s).log = s.log := by
  unfold announceJob
  split <;> rfl

@[simp] theorem modifyJob_jobs (i : Nat) (f : Job → Job) (s : JobControl) :
    (s.modifyJob i f).jobs = s.jobs.modify i f := rfl

@[simp] theorem modifyJob_log (i : Nat) (f : Job → Job) (s : JobControl) :
    (s.modifyJob i f).log = s.log := rfl

/-- `MakeJobBackGround(job, 1)` after the flags of the job have been cleared. -/
theorem makeJobBackGround_resumed (i : Nat) (s s' : JobControl)
    (hjobs : s'.jobs = (resumeAt i s).jobs.modify i fun job => { job with notified := false })
    (hlog : s'.log = s.log ++ [.resumed i]) :
    (makeJobBackGround killError i true s').jobs = s.jobs.modify i putInBackground ∧
      (makeJobBackGround killError i true s').log = s.log ++ [.resumed i] := by
  refine ⟨?_, by simpa [makeJobBackGround] using hlog⟩
  simp only [makeJobBackGround, if_true, signalJob_jobs, modifyJob_jobs, hjobs, resumeAt,
    List.modify_modify_eq]
  rfl

/-! ### A built-in -/

/-- The job that `fg` selects. -/
def fgJob (pc : Command) (jobs : List Job) : Option Nat :=
  match pc.pa.params with
  | [word] => findJob (jobSpec beyond word) jobs
  | _ => none

/-- The wait of `fg`, for the job at position `i`. -/
def fgWait (i : Nat) (es : List StatusEvent) (childLeft : Bool) (jobs : List Job) : WaitLoop :=
  makeJobForeGroundWait i childLeft es (jobs.modify i putInForeground)

/-- The wait of a built-in, which only `fg` has. -/
def builtInWait (pc : Command) (es : List StatusEvent) (childLeft : Bool) (jobs : List Job) :
    Option WaitLoop :=
  if pc.zCmd = "fg" then (fgJob beyond pc jobs).map fun i => fgWait i es childLeft jobs else none

/-- What a built-in does to the job table `s`: nothing, or it puts jobs in the background, or
    one in the foreground and waits for it. -/
inductive BuiltInEffect (pc : Command) (es : List StatusEvent) (childLeft : Bool)
    (s : JobControl) : Option Ret × JobControl → Prop
  | kept {r : Option Ret × JobControl} (wait : builtInWait beyond pc es childLeft s.jobs = none)
      (jobs : r.2.jobs = s.jobs) (log : r.2.log = s.log) : BuiltInEffect pc es childLeft s r
  | background {r : Option Ret × JobControl} (sel : List Nat) (name : pc.zCmd ≠ "fg")
      (jobs : r.2.jobs = backgroundAll sel s.jobs)
      (log : r.2.log = s.log ++ sel.map .resumed) : BuiltInEffect pc es childLeft s r
  | foreground {r : Option Ret × JobControl} (i : Nat) (name : pc.zCmd = "fg")
      (job : fgJob beyond pc s.jobs = some i)
      (ret : r.1.isSome = (fgWait i es childLeft s.jobs).returned)
      (jobs : r.2.jobs = (fgWait i es childLeft s.jobs).jobs)
      (log : r.2.log = s.log ++ .resumed i ::
        (es.take ((fgWait i es childLeft s.jobs).calls - 1)).map .recorded) :
      BuiltInEffect pc es childLeft s r

/-- `bg` selects at most one job. -/
theorem funcBg_effect (pc : Command) (s : JobControl) :
    ∃ sel : List Nat, (funcBg killError beyond pc s).jobs = backgroundAll sel s.jobs ∧
      (funcBg killError beyond pc s).log = s.log ++ sel.map .resumed := by
  have hcont : ∀ found : Option Nat, ∃ sel : List Nat,
      (found.elim (s.printError "bg : No job found.\n") fun i =>
        makeJobBackGround killError i true (announceJob i
          ((resumeAt i s).modifyJob i fun job => { job with notified := false }))).jobs =
        backgroundAll sel s.jobs ∧
      (found.elim (s.printError "bg : No job found.\n") fun i =>
        makeJobBackGround killError i true (announceJob i
          ((resumeAt i s).modifyJob i fun job => { job with notified := false }))).log =
        s.log ++ sel.map .resumed := by
    intro found
    cases found with
    | none => exact ⟨[], by simp [JobControl.printError], by simp [JobControl.printError]⟩
    | some i =>
      obtain ⟨hjobs, hlog⟩ := makeJobBackGround_resumed killError i s (announceJob i
        ((resumeAt i s).modifyJob i fun job => { job with notified := false }))
        (by simp) (by simp [resumeAt])
      refine ⟨[i], hjobs.trans ?_, hlog⟩
      have hone := modify_backgroundAll [] s.jobs i
      rwa [backgroundAll_nil] at hone
  unfold funcBg
  dsimp only
  split
  · exact ⟨[], by simp [JobControl.printError], by simp [JobControl.printError]⟩
  · exact hcont _
  · exact hcont _

/-- `kill` selects a job for each word that it looks at and that names one. -/
theorem killLoop_effect (words : List String) (s : JobControl) :
    ∃ sel : List Nat, (killLoop killError beyond words s).jobs = backgroundAll sel s.jobs ∧
      (killLoop killError beyond words s).log = s.log ++ sel.map .resumed := by
  -- over the words, from a table in which the jobs `sel₀` have been selected
  suffices hgen : ∀ (words : List String) (sel₀ : List Nat) (s' : JobControl),
      s'.jobs = backgroundAll sel₀ s.jobs → s'.log = s.log ++ sel₀.map .resumed →
      ∃ sel : List Nat, (killLoop killError beyond words s').jobs = backgroundAll sel s.jobs ∧
        (killLoop killError beyond words s').log = s.log ++ sel.map .resumed from
    hgen words [] s (by simp) (by simp)
  intro words
  induction words with
  | nil => intro sel₀ s' hjobs hlog; exact ⟨sel₀, hjobs, hlog⟩
  | cons word words ih =>
    intro sel₀ s' hjobs hlog
    unfold killLoop
    split
    · exact ih sel₀ s' hjobs hlog
    · rename_i i _
      dsimp only
      obtain ⟨hjobs', hlog'⟩ := makeJobBackGround_resumed killError i s'
        ((resumeAt i s').modifyJob i fun job => { job with notified := false }) rfl rfl
      rw [hjobs, modify_backgroundAll] at hjobs'
      rw [hlog, List.append_assoc] at hlog'
      have hlog'' : s.log ++ (sel₀.map .resumed ++ [JobEvent.resumed i]) =
          s.log ++ (sel₀ ++ [i]).map .resumed := by simp
      rw [hlog''] at hlog'
      -- the second signal changes neither the table nor the log
      have hsigJobs := signalJob_jobs killError i .SIGTERM
        (makeJobBackGround killError i true
          ((resumeAt i s').modifyJob i fun job => { job with notified := false }))
      have hsigLog := signalJob_log killError i .SIGTERM
        (makeJobBackGround killError i true
          ((resumeAt i s').modifyJob i fun job => { job with notified := false }))
      split
      · rename_i s'' hsig
        rw [hsig] at hsigJobs hsigLog
        exact ih (sel₀ ++ [i]) s'' (hsigJobs.trans hjobs') (hsigLog.trans hlog')
      · rename_i s'' hsig
        rw [hsig] at hsigJobs hsigLog
        exact ⟨sel₀ ++ [i], hsigJobs.trans hjobs', hsigLog.trans hlog'⟩

/-- `fg` selects at most one job. -/
theorem funcFg_effect (pc : Command) (es : List StatusEvent) (childLeft : Bool)
    (s : JobControl) :
    (fgJob beyond pc s.jobs = none ∧
        ∃ text, funcFg killError beyond pc es childLeft s = (true, s.printError text)) ∨
      ∃ i, fgJob beyond pc s.jobs = some i ∧
        (funcFg killError beyond pc es childLeft s).1 =
            (fgWait i es childLeft s.jobs).returned ∧
          (funcFg killError beyond pc es childLeft s).2.jobs =
            (fgWait i es childLeft s.jobs).jobs ∧
          (funcFg killError beyond pc es childLeft s).2.log = s.log ++ .resumed i ::
            (es.take ((fgWait i es childLeft s.jobs).calls - 1)).map .recorded := by
  cases hparams : pc.pa.params with
  | nil => exact Or.inl ⟨by rw [fgJob, hparams], _, by rw [funcFg, hparams]⟩
  | cons word words =>
    cases words with
    | cons word' words => exact Or.inl ⟨by rw [fgJob, hparams], _, by rw [funcFg, hparams]⟩
    | nil =>
      have hjob : fgJob beyond pc s.jobs = findJob (jobSpec beyond word) s.jobs := by
        rw [fgJob, hparams]
      unfold funcFg
      rw [hparams]
      dsimp only
      cases hfind : findJob (jobSpec beyond word) s.jobs with
      | none => exact Or.inl ⟨hjob.trans hfind, _, rfl⟩
      | some i =>
        refine Or.inr ⟨i, hjob.trans hfind, ?_⟩
        -- the marks set one after the other are those of `putInForeground`
        have hjobs : ((s.jobs.modify i fun job => { job with
              process := job.process.map Process.resume }).modify i fun job =>
            { job with notified := true }).modify i (fun job => { job with foreground := true }) =
            s.jobs.modify i putInForeground := by
          rw [List.modify_modify_eq, List.modify_modify_eq]
          rfl
        simp only [makeJobForeGround, if_true, signalJob_jobs, signalJob_log, modifyJob_jobs,
          modifyJob_log, JobControl.print, resumeAt, hjobs, fgWait]
        exact ⟨trivial, trivial, by simp⟩

/-- **A built-in** does one of the things that `BuiltInEffect` lists. -/
theorem executeBuiltInComds_effect (strsignal : Nat → String) (pc : Command)
    (es : List StatusEvent) (childLeft : Bool) (s : JobControl) :
    BuiltInEffect beyond pc es childLeft s
      (executeBuiltInComds killError beyond strsignal pc es childLeft s) := by
  have hwait : pc.zCmd ≠ "fg" → builtInWait beyond pc es childLeft s.jobs = none :=
    fun hname => if_neg hname
  unfold executeBuiltInComds
  split_ifs with htext hbg hfg hjobs hkill
  · exact .kept (hwait fun hfg => by simp [hfg] at htext) rfl rfl
  · obtain ⟨sel, hjobs, hlog⟩ := funcBg_effect killError beyond pc s
    exact .background sel (by simp [hbg]) hjobs hlog
  · obtain ⟨hnone, text, heq⟩ | ⟨i, hjob, hret, hjobs, hlog⟩ :=
      funcFg_effect killError beyond pc es childLeft s
    · rw [heq]
      exact .kept (by rw [builtInWait, if_pos hfg, hnone, Option.map_none]) rfl rfl
    · cases hcall : funcFg killError beyond pc es childLeft s with | mk returned s'
      rw [hcall] at hret hjobs hlog
      cases returned with
      | true => exact .foreground i hfg hjob hret hjobs hlog
      | false => exact .foreground i hfg hjob hret hjobs hlog
  · exact .kept (hwait hfg) rfl rfl
  · unfold funcKill
    split
    · exact .kept (hwait hfg) rfl rfl
    · obtain ⟨sel, hjobs, hlog⟩ := killLoop_effect killError beyond pc.pa.params s
      exact .background sel hfg hjobs hlog
  · exact .kept (hwait hfg) rfl rfl
  · exact .kept (hwait hfg) rfl rfl

end

/-! ### The wait loops and the jobs -/

/-- Every job of the table has the property, which may depend on its position. -/
def Everywhere (P : Nat → Job → Prop) (jobs : List Job) : Prop :=
  ∀ j job, jobs[j]? = some job → P j job

/-- Recording a status in a job keeps the property. -/
def KeptByRecord (P : Nat → Job → Prop) : Prop :=
  ∀ j job e ps, P j job → recordInProcesses e job.process = some ps →
    P j { job with process := ps }

/-- `UpdatedJobStatus`, for the job at position `i`, keeps the property. -/
def KeptByLook (P : Nat → Job → Prop) (i : Nat) : Prop :=
  ∀ job, P i job → P i (updatedJobStatus job).2

section
variable {P : Nat → Job → Prop}

/-- At the head, and behind it with the positions counted from there. -/
theorem everywhere_cons {job : Job} {jobs : List Job} :
    Everywhere P (job :: jobs) ↔ P 0 job ∧ Everywhere (fun j => P (j + 1)) jobs := by
  constructor
  · exact fun h => ⟨h 0 job rfl, fun j job' hj => h (j + 1) job' hj⟩
  · rintro ⟨hjob, hjobs⟩ j job' hj
    cases j with
    | zero => obtain rfl := Option.some.inj hj; exact hjob
    | succ j => exact hjobs j job' hj

/-- Recording a status keeps a property that it keeps for one job. -/
theorem everywhere_recordInJobs (hrec : KeptByRecord P) {e : StatusEvent} {jobs jobs' : List Job}
    (h : recordInJobs e jobs = some jobs') (hjobs : Everywhere P jobs) : Everywhere P jobs' := by
  induction jobs generalizing jobs' P with
  | nil => exact absurd h (by simp [recordInJobs])
  | cons job jobs ih =>
    obtain ⟨hjob, hrest⟩ := everywhere_cons.mp hjobs
    unfold recordInJobs at h
    split at h
    · rename_i ps hps
      obtain rfl := Option.some.inj h
      exact everywhere_cons.mpr ⟨hrec 0 job e ps hjob hps, hrest⟩
    · obtain ⟨rest, heq, rfl⟩ := Option.map_eq_some_iff.mp h
      exact everywhere_cons.mpr
        ⟨hjob, ih (fun j job e ps hj hps => hrec (j + 1) job e ps hj hps) heq hrest⟩

/-- The same for the call, also when it finds no process. -/
theorem everywhere_updatedProcessStatus (hrec : KeptByRecord P) (e : StatusEvent)
    {jobs : List Job} (hjobs : Everywhere P jobs) :
    Everywhere P (updatedProcessStatus e jobs).2 := by
  unfold updatedProcessStatus
  split
  · split
    · rename_i jobs' h
      exact everywhere_recordInJobs hrec h hjobs
    · exact hjobs
  · exact hjobs

/-- One job is looked at, and the others stay. -/
theorem getElem?_updatedJobStatusAt (i j : Nat) (jobs : List Job) :
    (updatedJobStatusAt i jobs).2[j]? =
      (jobs[j]?).map fun job => if i = j then (updatedJobStatus job).2 else job := by
  unfold updatedJobStatusAt
  cases hi : jobs[i]? with
  | none =>
    by_cases hj : i = j
    · subst hj
      simp [hi]
    · simp [hj]
  | some job =>
    dsimp only
    rw [List.getElem?_set]
    by_cases hj : i = j
    · subst hj
      obtain ⟨hlt, hget⟩ := List.getElem?_eq_some_iff.mp hi
      simp [hlt, hget]
    · simp [hj]

/-- A look at a job keeps a property that it keeps for that job. -/
theorem everywhere_updatedJobStatusAt {i : Nat} (hlook : KeptByLook P i) {jobs : List Job}
    (hjobs : Everywhere P jobs) : Everywhere P (updatedJobStatusAt i jobs).2 := by
  intro j job' hj
  rw [getElem?_updatedJobStatusAt] at hj
  obtain ⟨job, hget, rfl⟩ := Option.map_eq_some_iff.mp hj
  split_ifs with heq
  · subst heq
    exact hlook job (hjobs i job hget)
  · exact hjobs j job hget

/-- One turn of a wait loop for the job at position `i`. -/
theorem everywhere_makeJobForeGroundCond {i : Nat} (hrec : KeptByRecord P)
    (hlook : KeptByLook P i) (e : StatusEvent) {jobs : List Job} (hjobs : Everywhere P jobs) :
    Everywhere P (makeJobForeGroundCond i e jobs).2 := by
  have hmark := everywhere_updatedJobStatusAt hlook hjobs
  unfold makeJobForeGroundCond
  split
  · rename_i h
    rw [h] at hmark
    exact everywhere_updatedProcessStatus hrec e hmark
  · rename_i h
    rwa [h] at hmark

/-- A turn of the loop of `ExecCommand` records and looks. -/
theorem everywhere_execCommandCond {i : Nat} (hrec : KeptByRecord P) (hlook : KeptByLook P i)
    (e : StatusEvent) {jobs : List Job} (hjobs : Everywhere P jobs) :
    Everywhere P (execCommandCond i e jobs).2 := by
  have hupd := everywhere_updatedProcessStatus hrec e hjobs
  unfold execCommandCond
  split
  · rename_i h
    rw [h] at hupd
    exact everywhere_updatedJobStatusAt hlook hupd
  · rename_i h
    rwa [h] at hupd

/-- A wait loop keeps what each of its turns keeps. -/
theorem everywhere_waitWhile {cond : StatusEvent → List Job → Bool × List Job}
    (hcond : ∀ e jobs, Everywhere P jobs → Everywhere P (cond e jobs).2) (childLeft : Bool)
    (es : List StatusEvent) {jobs : List Job} (hjobs : Everywhere P jobs) :
    Everywhere P (waitWhile cond childLeft es jobs).jobs := by
  induction es generalizing jobs with
  | nil =>
    unfold waitWhile
    split
    · exact hjobs
    · exact hcond noChild jobs hjobs
  | cons e es ih =>
    have hturn := hcond e jobs hjobs
    cases h : cond e jobs with | mk again jobs'
    rw [h] at hturn
    cases again with
    | true => rw [waitWhile_again h]; exact ih hturn
    | false => rw [waitWhile_stop h]; exact hturn

/-- **The loop of `MakeJobForeGround`** keeps what a record and a look keep. -/
theorem everywhere_foreGroundWait {i : Nat} (hrec : KeptByRecord P) (hlook : KeptByLook P i)
    (childLeft : Bool) (es : List StatusEvent) {jobs : List Job} (hjobs : Everywhere P jobs) :
    Everywhere P (makeJobForeGroundWait i childLeft es jobs).jobs :=
  everywhere_waitWhile (fun e _ h => everywhere_makeJobForeGroundCond hrec hlook e h) childLeft
    es hjobs

/-- **The loop of `ExecCommand`** does, too. -/
theorem everywhere_execCommandWait {i : Nat} (hrec : KeptByRecord P) (hlook : KeptByLook P i)
    (childLeft : Bool) (es : List StatusEvent) {jobs : List Job} (hjobs : Everywhere P jobs) :
    Everywhere P (execCommandWait i childLeft es jobs).jobs :=
  everywhere_waitWhile (fun e _ h => everywhere_execCommandCond hrec hlook e h) childLeft es hjobs

/-- And so does the first loop of `func_JobNotification`. -/
theorem everywhere_recordAvailable (hrec : KeptByRecord P) (es : List StatusEvent)
    {s : JobControl} (hjobs : Everywhere P s.jobs) : Everywhere P (recordAvailable es s).jobs := by
  induction es generalizing s with
  | nil => exact hjobs
  | cons e es ih =>
    have hupd := everywhere_updatedProcessStatus hrec e hjobs
    unfold recordAvailable
    split
    · rename_i h
      rw [h] at hupd
      exact ih hupd
    · rename_i h
      rwa [h] at hupd

end

/-! ### The awaited job -/

/-- Looking at a job twice is looking at it once. -/
theorem updatedJobStatus_idem (job : Job) :
    (updatedJobStatus (updatedJobStatus job).2).2 = (updatedJobStatus job).2 := by
  cases hscan : scanProcesses job.process false none with
  | none => simp [updatedJobStatus, hscan]
  | some r =>
    obtain ⟨isStopped, status⟩ := r
    cases isStopped <;> cases status <;> simp [updatedJobStatus, hscan]

/-- A look sets `run_status` to what the processes say. -/
theorem updatedJobStatus_runStatus (job : Job) :
    (updatedJobStatus job).2.runStatus = classify job.process := by
  rw [← updatedJobStatus_fst]
  unfold updatedJobStatus
  split <;> rfl

/-- The `run_status` of the job at position `i` is its classification. -/
def FreshAt (i : Nat) (jobs : List Job) : Prop :=
  ∀ job, jobs[i]? = some job → job.runStatus = classify job.process

/-- Behind a look the status of the job is up to date. -/
theorem freshAt_updatedJobStatusAt (i : Nat) (jobs : List Job) :
    FreshAt i (updatedJobStatusAt i jobs).2 := by
  intro job' hjob'
  rw [getElem?_updatedJobStatusAt] at hjob'
  obtain ⟨job, -, rfl⟩ := Option.map_eq_some_iff.mp hjob'
  rw [if_pos rfl, updatedJobStatus_runStatus, updatedJobStatus_process]

/-- The last turn of the wait loop of `MakeJobForeGround` looks at the job and records
    nothing. -/
theorem makeJobForeGroundCond_false {i : Nat} {e : StatusEvent} {jobs jobs' : List Job}
    (h : makeJobForeGroundCond i e jobs = (false, jobs')) :
    jobs' = (updatedJobStatusAt i jobs).2 := by
  unfold makeJobForeGroundCond at h
  split at h
  · rename_i jobs₁ hat
    obtain ⟨hfail, rfl⟩ := Prod.mk.inj h
    rw [hat, updatedProcessStatus_fail (by simpa using hfail)]
  · rename_i jobs₁ _ hat
    obtain ⟨-, rfl⟩ := Prod.mk.inj h
    rw [hat]

/-- When the loop of `MakeJobForeGround` returns it has just looked. -/
theorem foreGroundWait_fresh (i : Nat) (childLeft : Bool) (es : List StatusEvent)
    (jobs : List Job) (hret : (makeJobForeGroundWait i childLeft es jobs).returned = true) :
    FreshAt i (makeJobForeGroundWait i childLeft es jobs).jobs := by
  unfold makeJobForeGroundWait at hret ⊢
  induction es generalizing jobs with
  | nil =>
    cases childLeft with
    | true => exact absurd hret (by simp [waitWhile])
    | false =>
      have hagain := makeJobForeGroundCond_noChild i jobs
      cases hcond : makeJobForeGroundCond i noChild jobs with | mk again jobs'
      rw [hcond] at hagain
      obtain rfl : again = false := hagain
      rw [show waitWhile (makeJobForeGroundCond i) false [] jobs = ⟨jobs', [], 1, true⟩ by
        simp [waitWhile, hcond], makeJobForeGroundCond_false hcond]
      exact freshAt_updatedJobStatusAt i jobs
  | cons e es ih =>
    cases hcond : makeJobForeGroundCond i e jobs with | mk again jobs'
    cases again with
    | true =>
      rw [waitWhile_again hcond] at hret ⊢
      exact ih jobs' hret
    | false =>
      rw [waitWhile_stop hcond, makeJobForeGroundCond_false hcond]
      exact freshAt_updatedJobStatusAt i jobs

/-- The wait of `MakeJobForeGround` starts by looking at the job, before anything is
    recorded. -/
theorem makeJobForeGroundCond_looked (i : Nat) (e : StatusEvent) (jobs : List Job) :
    makeJobForeGroundCond i e (updatedJobStatusAt i jobs).2 = makeJobForeGroundCond i e jobs := by
  have hsame : updatedJobStatusAt i (updatedJobStatusAt i jobs).2 = updatedJobStatusAt i jobs := by
    refine Prod.ext ?_ (List.ext_getElem? fun j => ?_)
    · rw [updatedJobStatusAt_fst, updatedJobStatusAt_fst, procTable_updatedJobStatusAt]
    · rw [getElem?_updatedJobStatusAt, getElem?_updatedJobStatusAt, Option.map_map]
      congr 1
      funext job
      by_cases hj : i = j <;> simp [hj, updatedJobStatus_idem]
  unfold makeJobForeGroundCond
  rw [hsame]

/-- The loop looks first, so a look before it makes no difference. -/
theorem foreGroundWait_looked (i : Nat) (childLeft : Bool) (es : List StatusEvent)
    (jobs : List Job) (hret : (makeJobForeGroundWait i childLeft es jobs).returned = true) :
    makeJobForeGroundWait i childLeft es jobs =
      makeJobForeGroundWait i childLeft es (updatedJobStatusAt i jobs).2 := by
  unfold makeJobForeGroundWait at hret ⊢
  cases es with
  | nil =>
    cases childLeft with
    | true => exact absurd hret (by simp [waitWhile])
    | false => simp [waitWhile, makeJobForeGroundCond_looked]
  | cons e es => simp only [waitWhile, makeJobForeGroundCond_looked]

/-- The loop of `ExecCommand` looks behind each record, so it ends up to date. -/
theorem execCommandWait_fresh (i : Nat) (childLeft : Bool) (es : List StatusEvent)
    (jobs : List Job) (hfresh : FreshAt i jobs)
    (hret : (execCommandWait i childLeft es jobs).returned = true) :
    FreshAt i (execCommandWait i childLeft es jobs).jobs := by
  unfold execCommandWait at hret ⊢
  -- each turn looks at the job after it has recorded a status, or changes nothing
  have hturn : ∀ e jobs, FreshAt i jobs → FreshAt i (execCommandCond i e jobs).2 := by
    intro e jobs hfresh
    by_cases hsucc : (updatedProcessStatus e jobs).1 = .SUCCESS
    · rw [execCommandCond, show updatedProcessStatus e jobs =
        (.SUCCESS, (updatedProcessStatus e jobs).2) from Prod.ext hsucc rfl]
      exact freshAt_updatedJobStatusAt i _
    · rw [execCommandCond_of_fail i hsucc]
      exact hfresh
  induction es generalizing jobs with
  | nil =>
    cases childLeft with
    | true => exact absurd hret (by simp [waitWhile])
    | false => exact hturn noChild jobs hfresh
  | cons e es ih =>
    have hnext := hturn e jobs hfresh
    cases hcond : execCommandCond i e jobs with | mk again jobs'
    rw [hcond] at hnext
    cases again with
    | true =>
      rw [waitWhile_again hcond] at hret ⊢
      exact ih jobs' hnext hret
    | false =>
      rw [waitWhile_stop hcond]
      exact hnext

/-! ### After the fork loop -/

/-- The wait for a new job in the foreground. -/
def ownWait (es : List StatusEvent) (childLeft : Bool) (jobs : List Job) : WaitLoop :=
  makeJobForeGroundWait 0 childLeft es (jobs.modify 0 fun job => { job with foreground := true })

/-- The wait loop at the end of `ExecCommand`, if there is one. -/
def jobWait (interactive : Bool) (pc : Command) (sys : Answers) (jobs : List Job) :
    Option WaitLoop :=
  if interactive = false then some (execCommandWait 0 sys.childLeft sys.events jobs)
  else if pc.fBackground = false then some (ownWait sys.events sys.childLeft jobs)
  else none

/-- What `ExecCommand` does behind the fork loop without a terminal. -/
theorem awaitJob_waiting (pc : Command) (sys : Answers) (s : JobControl) :
    awaitJob false pc sys s =
      ((execCommandWait 0 sys.childLeft sys.events s.jobs).returned, { s with
        jobs := (execCommandWait 0 sys.childLeft sys.events s.jobs).jobs
        log := s.log ++ (recordable s.jobs (sys.events.take
          (execCommandWait 0 sys.childLeft sys.events s.jobs).calls)).map .recorded }) := by
  rw [awaitJob, if_pos rfl]

/-- What it does at a terminal, for a job in the foreground. -/
theorem awaitJob_foreground {pc : Command} (hfg : pc.fBackground = false) (sys : Answers)
    (s : JobControl) :
    awaitJob true pc sys s = ((ownWait sys.events sys.childLeft s.jobs).returned, { s with
      jobs := (ownWait sys.events sys.childLeft s.jobs).jobs
      log := s.log ++ (sys.events.take
        ((ownWait sys.events sys.childLeft s.jobs).calls - 1)).map .recorded }) := by
  have hjobs : (s.jobs.modify 0 fun job => { job with foreground := true }).modify 0
      (fun job => { job with foreground := true }) =
      s.jobs.modify 0 fun job => { job with foreground := true } := by
    rw [List.modify_modify_eq]
    rfl
  simp only [awaitJob, hfg, makeJobForeGround, JobControl.modifyJob, hjobs, ownWait]
  rfl

/-- What it does for one in the background: it does not wait. -/
theorem awaitJob_background {pc : Command} (hbg : pc.fBackground = true) (sys : Answers)
    (s : JobControl) :
    (awaitJob true pc sys s).1 = true ∧
      (awaitJob true pc sys s).2.jobs =
        s.jobs.modify 0 (fun job => { job with notified := true, foreground := false }) ∧
      (awaitJob true pc sys s).2.log = s.log := by
  simp only [awaitJob, hbg, makeJobBackGround, Bool.true_eq_false, Bool.false_eq_true, if_false,
    modifyJob_jobs, modifyJob_log, announceJob_jobs, announceJob_log, List.modify_modify_eq]
  exact ⟨trivial, rfl, trivial⟩

/-! ### The sweep -/

/-- What is noted beside each job of the table, without the entries of the jobs that the
    sweep of `func_JobNotification` removes. -/
def sweepAlong {γ : Type} (jobs : List Job) (notes : List γ) : List γ :=
  (jobs.zip notes).filterMap fun (job, g) => if (sweepJob job).2.isSome then some g else none

/-- The sweep keeps the note of a job that stays. -/
theorem sweepAlong_cons {γ : Type} (job : Job) (jobs : List Job) (g : γ) (notes : List γ) :
    sweepAlong (job :: jobs) (g :: notes) =
      if (sweepJob job).2.isSome then g :: sweepAlong jobs notes else sweepAlong jobs notes := by
  unfold sweepAlong
  rw [List.zip_cons_cons, List.filterMap_cons]
  by_cases h : (sweepJob job).2.isSome = true <;> simp [h]

/-- The sweep drops notes and moves none. -/
theorem sweepAlong_sublist {γ : Type} (jobs : List Job) (notes : List γ) :
    (sweepAlong jobs notes).Sublist notes := by
  induction jobs generalizing notes with
  | nil => simp [sweepAlong]
  | cons job jobs ih =>
    cases notes with
    | nil => simp [sweepAlong]
    | cons g notes =>
      rw [sweepAlong_cons]
      split
      · exact (ih notes).cons_cons g
      · exact (ih notes).cons g

/-- The notes stay beside the jobs they are about. -/
theorem forall₂_sweepAlong {γ : Type} {R R' : Job → γ → Prop}
    (hstay : ∀ job job' g, R job g → (sweepJob job).2 = some job' → R' job' g)
    {jobs : List Job} {notes : List γ} (h : List.Forall₂ R jobs notes) :
    List.Forall₂ R' (jobs.filterMap fun job => (sweepJob job).2) (sweepAlong jobs notes) := by
  induction h with
  | nil => exact .nil
  | @cons job g jobs notes hjob _ ih =>
    rw [sweepAlong_cons]
    cases hsweep : (sweepJob job).2 with
    | none => simpa [hsweep] using ih
    | some job' => simpa [hsweep] using ⟨hstay job job' g hjob hsweep, ih⟩

/-! ### A whole call -/

/-- What a command adds to the log. -/
def newEvents (before after : JobControl) : List JobEvent := after.log.drop before.log.length

/-- The events of a command, read off the two logs. -/
theorem newEvents_of_log {before after : JobControl} {new : List JobEvent}
    (h : after.log = before.log ++ new) : newEvents before after = new := by
  rw [newEvents, h, List.drop_left]

section
variable (A : FdAlloc OpenFile) (beyond : List Char) (strsignal : Nat → String)

/-- The wait loop that runs while `ExecCommand(pc, interactive)` is executed, if one does. -/
def commandWait (pc : Command) (sys : Answers) (s : Shell) : Option WaitLoop :=
  match checkPipelineAmbiguity pc with
  | .error _ => none
  | .ok isPipe =>
    if isPipe = false ∧ pc.fBackground = false ∧ checkBuiltInCommands pc = true then
      match funcIORedirection A sys.openOk pc.prRedirects ⟨-1, -1, 0⟩ s.kernel with
      | (.SUCCESS, _, _) => builtInWait beyond pc sys.events sys.childLeft s.ctl.jobs
      | _ => none
    else
      match execCommandFork A s.interactive sys.outcome sys.uninit s.ctl.numJobs pc s.kernel with
      | .error _ => none
      | .ok f => jobWait s.interactive pc sys (addJob f.job s.ctl).jobs

/-- All that a call of `ExecCommand` can do: it stops in front of the command or after a
    redirection that fails, or runs a built-in, or forks, in full or until a `fork` fails. -/
inductive ExecOutcome (pc : Command) (sys : Answers) (s : Shell) :
    Executed → Option WaitLoop → Prop
  | kept (ret : Ret) (err : List String) (k : Kernel) :
      ExecOutcome pc sys s
        ⟨some ret, { s with ctl := { s.ctl with err := err }, kernel := k }, []⟩ none
  | builtIn (k : Kernel) : ExecOutcome pc sys s
      ⟨(executeBuiltInComds sys.killError beyond strsignal pc sys.events sys.childLeft s.ctl).1,
        { s with
          ctl := (executeBuiltInComds sys.killError beyond strsignal pc sys.events
            sys.childLeft s.ctl).2
          kernel := k }, []⟩
      (builtInWait beyond pc sys.events sys.childLeft s.ctl.jobs)
  | exited (f : ForkState)
      (fork : execCommandFork A s.interactive sys.outcome sys.uninit s.ctl.numJobs pc s.kernel =
        .error f) :
      ExecOutcome pc sys s
        ⟨none, { s with ctl := addJob f.job s.ctl, kernel := f.kernel }, f.children⟩ none
  | forked (f : ForkState)
      (fork : execCommandFork A s.interactive sys.outcome sys.uninit s.ctl.numJobs pc s.kernel =
        .ok f) :
      ExecOutcome pc sys s
        ⟨if (awaitJob s.interactive pc sys (addJob f.job s.ctl)).1 then some .SUCCESS else none,
          { s with
            ctl := (awaitJob s.interactive pc sys (addJob f.job s.ctl)).2
            kernel := f.kernel }, f.children⟩
        (jobWait s.interactive pc sys (addJob f.job s.ctl).jobs)

/-- **`ExecCommand`** ends in one of the ways that `ExecOutcome` lists. -/
theorem execCommand_outcome (pc : Command) (sys : Answers) (s : Shell) :
    ExecOutcome A beyond strsignal pc sys s (execCommand A beyond strsignal pc sys s)
      (commandWait A beyond pc sys s) := by
  unfold execCommand commandWait
  cases checkPipelineAmbiguity pc with
  | error message => exact .kept .FAIL _ s.kernel
  | ok isPipe =>
    dsimp only
    split_ifs
    · unfold execInShell
      cases funcIORedirection A sys.openOk pc.prRedirects ⟨-1, -1, 0⟩ s.kernel with | mk ret rest
      cases ret with
      | SUCCESS => exact .builtIn _
      | FAIL => exact .kept .FAIL s.ctl.err rest.2
      | QUIT => exact .kept .QUIT s.ctl.err rest.2
    · unfold execForked
      cases hfork : execCommandFork A s.interactive sys.outcome sys.uninit s.ctl.numJobs pc
          s.kernel with
      | error f => exact .exited f hfork
      | ok f => exact .forked f hfork

end

end OSPortfolio.Ish
