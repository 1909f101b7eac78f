import OSPortfolio.Ish.JobGroups

namespace OSPortfolio.Ish

open OSPortfolio.Posix OSPortfolio.Lts

/-!
# What a job has gone through

The shell keeps three marks for a job, `run_status`, `notified` and `foreground`, and sets
them in six functions.  This file writes down the life of each job beside a run, as a user at
the terminal sees it, and says what the marks mean in these terms.

* `Life` — how a job was launched, and what has happened to it since;
* `execLives`, `notifyLives` — what a command and a notification add to the lives;
* `Marks`, `LifeOk` — the invariant, while a command runs and after it;
* `Marks.record`, `Marks.look` — recording a status and `UpdatedJobStatus` keep it;
* `lifeOk_exec`, `lifeOk_notify` — the step lemmas;
* `run_iff_lives`, `lifeOk_run` — the runs of the shell with the lives of its jobs, and their
  invariant.
-/

/-! ### Lives -/

/-- The life of a job: how it was launched; whether it has stopped, has been put in the
    background by `bg` or `kill`, or in the foreground by `fg`; whether a prompt has announced
    it as stopped since it was last resumed, and a child of the shell has resumed it since
    then; and the process entries when `UpdatedJobStatus` last looked at them. -/
structure Life where
  interactive : Bool
  background : Bool
  stopped : Bool := false
  backgrounded : Bool := false
  foregrounded : Bool := false
  announced : Bool := false
  resumedBelow : Bool := false
  seen : List Process := []
  deriving DecidableEq, Repr

/-- The shell has at some time not waited for the job: it was started with `&` at a terminal,
    or has stopped, or was put in the background. -/
def Life.notWaited (life : Life) : Bool :=
  (life.interactive && life.background) || life.stopped || life.backgrounded

/-- A built-in has selected the job, or one that ran in a child of the shell has. -/
def Life.select (life : Life) (resumed fg below : Bool) : Life :=
  { life with
    backgrounded := life.backgrounded || (resumed && !fg)
    foregrounded := life.foregrounded || (resumed && fg)
    announced := life.announced && !resumed
    resumedBelow := life.resumedBelow || below }

/-- A command has left the job as it is now, after it has `looked` at it or not. -/
def Life.settle (life : Life) (looked : Bool) (job : Job) : Life :=
  { life with
    stopped := life.stopped || classify job.process = .STOPPED
    seen := if looked then job.process else life.seen }

/-- The sweep prints that the job has stopped. -/
def announcesStopped (job : Job) : Bool :=
  ("[" ++ toString job.jobNum ++ "] stopped\n") ∈ (sweepJob job).1

/-- The sweep prints that the job is done. -/
def announcesDone (job : Job) : Bool :=
  ("[" ++ toString job.jobNum ++ "] done " ++ job.jobName ++ "\n") ∈ (sweepJob job).1

/-- The sweep has looked at the job. -/
def Life.prompt (life : Life) (job : Job) : Life :=
  { life.settle true job with
    announced := life.announced || announcesStopped job
    resumedBelow := life.resumedBelow && !announcesStopped job }

section
variable (A : FdAlloc OpenFile) (beyond : List Char) (strsignal : Nat → String)
  (shellGroup : Bool → Int)

/-- The positions of the jobs that the `n`th child resumes, in a table with the new job in
    front. -/
def childResumes (sys : Answers) (s : Shell) (n : Nat) (c : Child) : List Nat :=
  ((subshell A beyond strsignal sys s n c).elim [] fun ctl => newEvents s.ctl ctl).filterMap fun
    | .recorded _ => none
    | .resumed i => some i

/-- The lives after a command: `launched` says that it was a new job, which then stands in
    front, and `fg` that the jobs it has resumed were put in the foreground. -/
def settleLives (launched fg : Bool) (resumed below : Nat → Bool) (jobs : List Job)
    (lives : List Life) : List Life :=
  (jobs.zip lives).mapIdx fun i (job, life) =>
    -- a job is looked at in its own wait and, when there is none, is as it was launched
    (life.select (resumed i) fg (below i)).settle ((launched && i = 0) || (resumed i && fg)) job

/-- The lives after `ExecCommand(pc, interactive)`. -/
def execLives (pc : Command) (sys : Answers) (s : Shell) (lives : List Life) : List Life :=
  let r := execCommand A beyond strsignal pc sys s
  let log := newEvents s.ctl r.shell.ctl
  let below := r.children.zipIdx.flatMap fun (c, n) => childResumes A beyond strsignal sys s n c
  let launched : Bool := r.children ≠ []
  let new : Life := { interactive := s.interactive, background := pc.fBackground }
  settleLives launched (pc.zCmd = "fg") (fun i => .resumed i ∈ log) (fun i => i ∈ below)
    r.shell.ctl.jobs (if launched then new :: lives else lives)

/-- The lives after a notification. -/
def notifyLives (es : List StatusEvent) (s : JobControl) (lives : List Life) : List Life :=
  let jobs := (recordAvailable es s).jobs
  sweepAlong jobs ((jobs.zip lives).map fun (job, life) => life.prompt job)

end

/-! ### What the marks mean -/

/-- The marks of a job and its life, while a command runs. -/
structure Marks (life : Life) (job : Job) : Prop where
  waited : job.foreground = false → life.notWaited = true ∨ classify job.process = .STOPPED ∨
    (life.interactive = false ∧ life.foregrounded = false)
  unmarked : life.interactive = false → life.foregrounded = false → life.notWaited = false →
    classify job.process ≠ .STOPPED → job.foreground = false ∧ job.notified = false
  silent : job.runStatus = .STOPPED → job.notified = true → life.announced = true
  announced : life.announced = true →
    job.runStatus = .STOPPED ∧ job.notified = true ∧ classify job.process = .STOPPED

/-- The marks of a job and its life, between two commands. -/
structure LifeOk (job : Job) (life : Life) : Prop where
  marks : Marks life job
  stopped : classify job.process = .STOPPED → life.stopped = true
  seen : job.runStatus = classify life.seen

/-- A recorded status does not make a stopped job run. -/
theorem classify_record {e : StatusEvent} {ps ps' : List Process}
    (hrec : recordInProcesses e ps = some ps') (h : classify ps = .STOPPED) :
    classify ps' = .STOPPED := by
  have hmono : ∀ p : Process, ((p.record e.status).running = true → p.running = true) ∧
      (p.stopped = true → (p.record e.status).stopped = true) := by
    intro p
    unfold Process.record Process.running
    split <;> simp +contextual
  have hany : (ps'.any Process.running = true → ps.any Process.running = true) ∧
      (ps.any Process.stopped = true → ps'.any Process.stopped = true) := by
    clear h
    induction ps generalizing ps' with
    | nil => exact absurd hrec (by simp [recordInProcesses])
    | cons p ps ih =>
      obtain ⟨hrun, hstop⟩ := hmono p
      rw [recordInProcesses] at hrec
      split at hrec
      · obtain rfl := Option.some.inj hrec
        simp only [List.any_cons, Bool.or_eq_true]
        exact ⟨Or.imp_left hrun, Or.imp_left hstop⟩
      · obtain ⟨qs, hqs, rfl⟩ := Option.map_eq_some_iff.mp hrec
        obtain ⟨ihrun, ihstop⟩ := ih hqs
        simp only [List.any_cons, Bool.or_eq_true]
        exact ⟨Or.imp_right ihrun, Or.imp_right ihstop⟩
  unfold classify at h ⊢
  split at h
  · exact absurd h (by simp)
  · rename_i hnot
    split at h
    · rename_i hstop
      rw [if_neg (fun hrun => hnot (hany.1 hrun)), if_pos (hany.2 hstop)]
    · exact absurd h (by simp)

/-- A status is recorded for a process of the job. -/
theorem Marks.record {life : Life} {job : Job} (h : Marks life job) {e : StatusEvent}
    {ps : List Process} (hrec : recordInProcesses e job.process = some ps) :
    Marks life { job with process := ps } where
  waited hfg := (h.waited hfg).imp_right fun hor => hor.imp_left (classify_record hrec)
  unmarked hint hfg hnot hstop :=
    h.unmarked hint hfg hnot fun hstopped => hstop (classify_record hrec hstopped)
  silent := h.silent
  announced hann :=
    ⟨(h.announced hann).1, (h.announced hann).2.1, classify_record hrec (h.announced hann).2.2⟩

/-- What `UpdatedJobStatus` does to the marks. -/
theorem updatedJobStatus_marks (job : Job) :
    (updatedJobStatus job).2.notified =
        (if job.runStatus ≠ classify job.process then false else job.notified) ∧
      (updatedJobStatus job).2.foreground =
        (if classify job.process = .STOPPED then false else job.foreground) := by
  rw [← updatedJobStatus_fst]
  unfold updatedJobStatus
  split
  · exact ⟨rfl, rfl⟩
  · exact ⟨rfl, rfl⟩
  · exact ⟨rfl, rfl⟩

/-- A look at the job. -/
theorem Marks.look {life : Life} {job : Job} (h : Marks life job) :
    Marks life (updatedJobStatus job).2 := by
  obtain ⟨hnot, hfg⟩ := updatedJobStatus_marks job
  have hst := updatedJobStatus_runStatus job
  refine ⟨fun hfg' => ?_, fun hint hfore hwait hstop => ?_, fun hst' hnot' => ?_, fun hann => ?_⟩
  · rw [updatedJobStatus_process]
    rw [hfg] at hfg'
    by_cases hstop : classify job.process = .STOPPED
    · exact Or.inr (Or.inl hstop)
    · rw [if_neg hstop] at hfg'
      exact h.waited hfg'
  · rw [updatedJobStatus_process] at hstop
    obtain ⟨hfore', hnot'⟩ := h.unmarked hint hfore hwait hstop
    rw [hfg, hnot, if_neg hstop]
    exact ⟨hfore', by rw [hnot', ite_self]⟩
  · -- classified as before, so the mark is not a new one
    rw [hnot] at hnot'
    rw [hst] at hst'
    split_ifs at hnot' with hsame
    exact h.silent ((not_not.mp hsame).trans hst') hnot'
  · obtain ⟨hrun, hmark, hclass⟩ := h.announced hann
    rw [hst, hnot, updatedJobStatus_process, hclass, hrun]
    exact ⟨rfl, by simpa using hmark, rfl⟩

/-- A command ends; the job is what it is now. -/
theorem Marks.settle {life : Life} {job : Job} (h : Marks life job) {looked : Bool}
    (hseen : job.runStatus = classify (if looked then job.process else life.seen)) :
    LifeOk job (life.settle looked job) := by
  have hnot : (life.settle looked job).notWaited = true ↔
      life.notWaited = true ∨ classify job.process = .STOPPED := by
    simp only [Life.settle, Life.notWaited, Bool.or_eq_true, decide_eq_true_eq]
    tauto
  refine ⟨⟨fun hfg => ?_, fun hint hfore hwait hstop => ?_, h.silent, h.announced⟩, ?_, hseen⟩
  · rw [hnot]
    exact (h.waited hfg).imp_left Or.inl
  · refine h.unmarked hint hfore ?_ hstop
    rw [← Bool.not_eq_true] at hwait ⊢
    exact fun hwaited => hwait (hnot.mpr (Or.inl hwaited))
  · intro hstop
    simp [Life.settle, hstop]

/-! ### Selecting and launching a job -/

/-- The job is not the one that is selected. -/
theorem Marks.notSelected {life : Life} {job : Job} (h : Marks life job) (fg below : Bool) :
    Marks (life.select false fg below) job := by
  have hsame : life.select false fg below =
      { life with resumedBelow := life.resumedBelow || below } := by simp [Life.select]
  rw [hsame]
  exact ⟨h.waited, h.unmarked, h.silent, h.announced⟩

/-- `bg` or `kill` selects the job. -/
theorem Marks.background (life : Life) (job : Job) (below : Bool) :
    Marks (life.select true false below) (putInBackground job) where
  waited _ := Or.inl (by simp [Life.notWaited, Life.select])
  unmarked _ _ hnot := absurd hnot (by simp [Life.notWaited, Life.select])
  silent _ hnotified := absurd hnotified (by simp [putInBackground])
  announced hann := absurd hann (by simp [Life.select])

/-- No process of a job that has been resumed is stopped. -/
theorem classify_resume (ps : List Process) : classify (ps.map Process.resume) ≠ .STOPPED := by
  have hnone : (ps.map Process.resume).any Process.stopped = false := by
    simp [Process.resume]
  unfold classify
  rw [hnone]
  split <;> simp

/-- `fg` selects the job, and its wait looks at it before it records anything. -/
theorem Marks.foreground (life : Life) (job : Job) (below : Bool) :
    Marks (life.select true true below) (updatedJobStatus (putInForeground job)).2 := by
  have hclass : classify (putInForeground job).process ≠ .STOPPED := classify_resume job.process
  have hfg := (updatedJobStatus_marks (putInForeground job)).2
  rw [if_neg hclass] at hfg
  refine ⟨fun hfg' => absurd (hfg.symm.trans hfg') (by simp [putInForeground]),
    fun _ hfore => absurd hfore (by simp [Life.select]), fun hst => ?_,
    fun hann => absurd hann (by simp [Life.select])⟩
  exact absurd ((updatedJobStatus_runStatus _).symm.trans hst) hclass

/-- A new job, as `ExecCommand` has marked it when its wait begins. -/
theorem Marks.launched {numJobs : Nat} {children : List Child} {job : Job} {life : Life}
    (hjob : LaunchedJob numJobs children job) (hann : life.announced = false)
    (hfore : life.foregrounded = false) {fg notified : Bool}
    (hmarks : if life.interactive then fg = !life.background else fg = false ∧ notified = false) :
    Marks life { job with foreground := fg, notified := notified } := by
  refine ⟨fun hfg => ?_, fun hint _ _ _ => ?_, fun hst => ?_, fun hann' => ?_⟩
  · cases hint : life.interactive with
    | false => exact Or.inr (Or.inr ⟨rfl, hfore⟩)
    | true =>
      rw [hint, if_pos rfl, show fg = false from hfg] at hmarks
      have hbg : life.background = true := by simpa using hmarks.symm
      exact Or.inl (by simp [Life.notWaited, hint, hbg])
  · rw [hint] at hmarks
    simpa using hmarks
  · exact absurd (hjob.runStatus.symm.trans hst) (by simp)
  · exact absurd (hann.symm.trans hann') (by simp)

/-- Every process of a new job runs. -/
theorem classify_entriesOf {children : List Child} (hne : children ≠ []) :
    classify (entriesOf children) = .RUNNING := by
  rw [classify_eq_running_iff]
  obtain ⟨c, cs, rfl⟩ := List.exists_cons_of_ne_nil hne
  simp [entriesOf, Process.running]

/-! ### The steps -/

/-- What holds of the job at position `i` while a command runs; its `run_status` may be a new
    one only if its wait looks at it. -/
def Midway (launched fg : Bool) (resumed below : Nat → Bool) (lives : List Life) (i : Nat)
    (job : Job) : Prop :=
  ∀ life, lives[i]? = some life → Marks (life.select (resumed i) fg (below i)) job ∧
    (((launched && i = 0) || (resumed i && fg)) = false → job.runStatus = classify life.seen)

section
variable {launched fg : Bool} {resumed below : Nat → Bool} {lives : List Life}

/-- In the middle of a wait a record keeps what is known. -/
theorem keptByRecord_midway : KeptByRecord (Midway launched fg resumed below lives) :=
  fun _ _ _ _ h hrec life hlife => ⟨(h life hlife).1.record hrec, (h life hlife).2⟩

/-- So does a look at the job that is waited for. -/
theorem keptByLook_midway {i : Nat}
    (hlooked : ((launched && decide (i = 0)) || (resumed i && fg)) = true) :
    KeptByLook (Midway launched fg resumed below lives) i :=
  fun _ h life hlife => ⟨(h life hlife).1.look, fun hnot => absurd (hlooked.symm.trans hnot)
    (by simp)⟩

/-- **Behind a wait** the lives are settled. -/
theorem settleLives_ok {jobs : List Job} (hlen : jobs.length = lives.length)
    (hjobs : Everywhere (Midway launched fg resumed below lives) jobs)
    (hfresh : ∀ i, ((launched && i = 0) || (resumed i && fg)) = true → FreshAt i jobs) :
    List.Forall₂ LifeOk jobs (settleLives launched fg resumed below jobs lives) := by
  refine List.forall₂_iff_get.mpr ⟨by simp [settleLives, hlen], fun i hi hi' => ?_⟩
  have hjob : jobs[i]? = some jobs[i] := List.getElem?_eq_getElem hi
  have hi₂ : i < lives.length := hlen ▸ hi
  have hlife : lives[i]? = some lives[i] := List.getElem?_eq_getElem hi₂
  obtain ⟨hmarks, hseen⟩ := hjobs i jobs[i] hjob _ hlife
  simp only [settleLives, List.get_eq_getElem, List.getElem_mapIdx, List.getElem_zip]
  refine hmarks.settle ?_
  cases hlooked : (launched && decide (i = 0)) || (resumed i && fg) with
  | true => exact hfresh i hlooked jobs[i] hjob
  | false => exact hseen hlooked

end

/-- What is known of the job at one position. -/
theorem lifeOk_at {jobs : List Job} {lives : List Life} (hok : List.Forall₂ LifeOk jobs lives)
    {i : Nat} {job : Job} {life : Life} (hjob : jobs[i]? = some job)
    (hlife : lives[i]? = some life) : LifeOk job life := by
  obtain ⟨hi, rfl⟩ := List.getElem?_eq_some_iff.mp hjob
  obtain ⟨hi', rfl⟩ := List.getElem?_eq_some_iff.mp hlife
  exact hok.get hi hi'

section
variable {jobs : List Job} {lives : List Life} (hok : List.Forall₂ LifeOk jobs lives)
  (below : Nat → Bool)
include hok

/-- `bg` or `kill` has selected the jobs `sel`, or nothing has been done. -/
theorem lifeOk_background (sel : List Nat) {fg : Bool} (hfg : sel ≠ [] → fg = false) :
    List.Forall₂ LifeOk (backgroundAll sel jobs)
      (settleLives false fg (fun i => i ∈ sel) below (backgroundAll sel jobs) lives) := by
  have hlooked : ∀ i : Nat, ((false && decide (i = 0)) || (decide (i ∈ sel) && fg)) = false := by
    intro i
    by_cases hi : i ∈ sel
    · simp [hfg (List.ne_nil_of_mem hi)]
    · simp [hi]
  refine settleLives_ok (by simpa [backgroundAll] using hok.length_eq) (fun i job' hjob' => ?_)
    fun i hi => absurd hi (by rw [hlooked i]; simp)
  intro life hlife
  rw [getElem?_backgroundAll] at hjob'
  obtain ⟨job, hjob, rfl⟩ := Option.map_eq_some_iff.mp hjob'
  have hlook := lifeOk_at hok hjob hlife
  dsimp only
  by_cases hi : i ∈ sel
  · rw [if_pos hi, hfg (List.ne_nil_of_mem hi), decide_eq_true hi]
    exact ⟨Marks.background life job (below i), fun _ => hlook.seen⟩
  · rw [if_neg hi, decide_eq_false hi]
    exact ⟨hlook.marks.notSelected fg (below i), fun _ => hlook.seen⟩

/-- `fg` has selected the job at position `i` and waited for it. -/
theorem lifeOk_foreground (i : Nat) (es : List StatusEvent) (childLeft : Bool)
    (hlen : (fgWait i es childLeft jobs).jobs.length = jobs.length)
    (hret : (fgWait i es childLeft jobs).returned = true) :
    List.Forall₂ LifeOk (fgWait i es childLeft jobs).jobs
      (settleLives false true (fun j => j = i) below (fgWait i es childLeft jobs).jobs lives) := by
  have hfresh := foreGroundWait_fresh i childLeft es _ hret
  have hstart : Everywhere (Midway false true (fun j => j = i) below lives)
      (updatedJobStatusAt i (jobs.modify i putInForeground)).2 := by
    intro j job' hjob' life hlife
    rw [getElem?_updatedJobStatusAt, List.getElem?_modify, Option.map_eq_map,
      Option.map_map] at hjob'
    obtain ⟨job, hjob, rfl⟩ := Option.map_eq_some_iff.mp hjob'
    by_cases hj : i = j
    · subst hj
      simpa using Marks.foreground life job (below i)
    · have hlook := lifeOk_at hok hjob hlife
      simpa [hj, Ne.symm hj] using ⟨hlook.marks.notSelected true (below j), hlook.seen⟩
  refine settleLives_ok (hlen.trans hok.length_eq) ?_ fun j hj => ?_
  · rw [fgWait, foreGroundWait_looked i childLeft es _ hret]
    exact everywhere_foreGroundWait keptByRecord_midway (keptByLook_midway (by simp)) childLeft es
      hstart
  · obtain rfl : j = i := by simpa using hj
    exact hfresh

/-- A new job in front of the table as its wait begins; the jobs behind are as they were. -/
theorem midway_launched {interactive fg : Bool} {pc : Command} {job : Job} {numJobs : Nat}
    {children : List Child} (hjob : LaunchedJob numJobs children job) {fg' notified : Bool}
    (hmarks : if interactive then fg' = !pc.fBackground else fg' = false ∧ notified = false) :
    Everywhere (Midway true fg (fun _ => false) below
      ({ interactive := interactive, background := pc.fBackground } :: lives))
      ({ job with foreground := fg', notified := notified } :: jobs) := by
  refine everywhere_cons.mpr ⟨fun life hlife => ?_, fun i job' hjob' life hlife => ?_⟩
  · obtain rfl := Option.some.inj hlife
    exact ⟨(Marks.launched hjob rfl rfl hmarks).notSelected fg (below 0), by simp⟩
  · have hlook := lifeOk_at hok hjob' hlife
    exact ⟨hlook.marks.notSelected fg (below (i + 1)), fun _ => hlook.seen⟩

/-- A new job has been launched, and waited for if it is not in the background. -/
theorem lifeOk_launched {interactive fg : Bool} {pc : Command} (sys : Answers) {s : JobControl}
    {job : Job} {numJobs : Nat} {children : List Child} (hjobs : s.jobs = job :: jobs)
    (hne : children ≠ []) (hjob : LaunchedJob numJobs children job)
    (hret : (awaitJob interactive pc sys s).1 = true) :
    List.Forall₂ LifeOk (awaitJob interactive pc sys s).2.jobs
      (settleLives true fg (fun _ => false) below (awaitJob interactive pc sys s).2.jobs
        ({ interactive := interactive, background := pc.fBackground } :: lives)) := by
  have hlen : (awaitJob interactive pc sys s).2.jobs.length = jobs.length + 1 := by
    have hmap := (touches_awaitJob interactive pc sys s).map_jobs
      (fun _ _ hmark => hmark.jobNum) (fun _ _ => rfl)
    simpa [hjobs] using congrArg List.length hmap
  have hlook : KeptByLook (Midway true fg (fun _ => false) below
      ({ interactive := interactive, background := pc.fBackground } :: lives)) 0 :=
    keptByLook_midway (by simp)
  have hfresh₀ : job.runStatus = classify job.process := by
    rw [hjob.runStatus, hjob.process, classify_entriesOf hne]
  -- only the new job is looked at
  have hzero : ∀ {jobs' : List Job}, FreshAt 0 jobs' →
      ∀ i, ((true && decide (i = 0)) || ((fun _ => false) i && fg)) = true → FreshAt i jobs' := by
    intro jobs' hfresh i hi
    obtain rfl : i = 0 := by simpa using hi
    exact hfresh
  cases interactive with
  | false =>
    rw [awaitJob_waiting] at hret hlen ⊢
    rw [hjobs] at hret hlen ⊢
    refine settleLives_ok (by simpa [hok.length_eq] using hlen) ?_ (hzero ?_)
    · exact everywhere_execCommandWait keptByRecord_midway hlook _ _
        (midway_launched hok below hjob ⟨hjob.foreground, hjob.notified⟩)
    · refine execCommandWait_fresh 0 _ _ _ (fun job' hjob' => ?_) hret
      obtain rfl := Option.some.inj hjob'
      exact hfresh₀
  | true =>
    by_cases hbg : pc.fBackground = false
    · rw [awaitJob_foreground hbg] at hret hlen ⊢
      rw [hjobs] at hret hlen ⊢
      refine settleLives_ok (by simpa [hok.length_eq] using hlen) ?_ (hzero ?_)
      · exact everywhere_foreGroundWait keptByRecord_midway hlook _ _
          (midway_launched hok below hjob (by simp [hbg]))
      · exact foreGroundWait_fresh 0 _ _ _ hret
    · have hbg' : pc.fBackground = true := by simpa using hbg
      obtain ⟨-, hafter, -⟩ := awaitJob_background hbg' sys s
      rw [hafter, hjobs] at hlen ⊢
      refine settleLives_ok (by simp [hok.length_eq]) ?_ (hzero fun job' hjob' => ?_)
      · exact midway_launched hok below hjob (by simp [hbg'])
      · obtain rfl := Option.some.inj hjob'
        exact hfresh₀

end

/-! ### Whole commands and notifications -/

section
variable (A : FdAlloc OpenFile) (beyond : List Char) (strsignal : Nat → String)
  (shellGroup : Bool → Int)

/-- To record a status resumes nothing. -/
theorem not_resumed_recorded (i : Nat) (es : List StatusEvent) :
    JobEvent.resumed i ∉ es.map JobEvent.recorded := by
  simp

/-- The end of `ExecCommand` resumes no job. -/
theorem awaitJob_log (interactive : Bool) (pc : Command) (sys : Answers) (s : JobControl) :
    ∃ es : List StatusEvent, (awaitJob interactive pc sys s).2.log = s.log ++ es.map .recorded := by
  cases interactive with
  | false => exact ⟨_, by rw [awaitJob_waiting]⟩
  | true =>
    by_cases hbg : pc.fBackground = false
    · exact ⟨_, by rw [awaitJob_foreground hbg]⟩
    · exact ⟨[], by simpa using (awaitJob_background (by simpa using hbg) sys s).2.2⟩

/-- A built-in of the shell. -/
theorem lifeOk_builtIn {pc : Command} (sys : Answers) {s : JobControl} {lives : List Life}
    (hok : List.Forall₂ LifeOk s.jobs lives) (below : Nat → Bool)
    {r : Option Ret × JobControl} (htouch : Touches s r.2)
    (heffect : BuiltInEffect beyond pc sys.events sys.childLeft s r)
    (hret : r.1.isSome = true) :
    List.Forall₂ LifeOk r.2.jobs (settleLives false (pc.zCmd = "fg")
      (fun i => .resumed i ∈ newEvents s r.2) below r.2.jobs lives) := by
  cases heffect with
  | kept _ hjobs hlog =>
    rw [hjobs, show newEvents s r.2 = [] from newEvents_of_log (by simpa using hlog)]
    simpa using @lifeOk_background _ _ hok below [] (pc.zCmd = "fg") (by simp)
  | background sel hname hjobs hlog =>
    rw [hjobs, newEvents_of_log hlog]
    simpa [hname] using lifeOk_background hok below sel (fun _ => rfl)
  | foreground i hname _ hwait hjobs hlog =>
    have hlen := congrArg List.length
      (htouch.map_jobs (fun _ _ hmark => hmark.jobNum) (fun _ _ => rfl))
    rw [hjobs, List.length_map, List.length_map] at hlen
    rw [hjobs, newEvents_of_log hlog]
    simpa only [hname, List.mem_cons, not_resumed_recorded, or_false, JobEvent.resumed.injEq,
      decide_true] using lifeOk_foreground hok below i sys.events sys.childLeft hlen
        (hwait.symm.trans hret)

/-- **Step lemma for a command.** -/
theorem lifeOk_exec {pc : Command} (hpc : pc ≠ .null) (sys : Answers) {s : Shell}
    {lives : List Life} (hok : List.Forall₂ LifeOk s.ctl.jobs lives)
    (hret : (execCommand A beyond strsignal pc sys s).ret.isSome = true) :
    List.Forall₂ LifeOk (execCommand A beyond strsignal pc sys s).shell.ctl.jobs
      (execLives A beyond strsignal pc sys s lives) := by
  have hout := execCommand_outcome A beyond strsignal pc sys s
  unfold execLives
  generalize execCommand A beyond strsignal pc sys s = r, commandWait A beyond pc sys s = w
    at hout hret ⊢
  dsimp only
  generalize (r.children.zipIdx.flatMap fun x =>
    childResumes A beyond strsignal sys s x.2 x.1) = below
  cases hout with
  | kept ret err k =>
    rw [show newEvents s.ctl { s.ctl with err := err } = [] from newEvents_of_log (by simp)]
    simpa using @lifeOk_background _ _ hok (fun i => i ∈ below) [] (pc.zCmd = "fg") (by simp)
  | builtIn k =>
    simpa using lifeOk_builtIn beyond sys hok (fun i => i ∈ below)
      (touches_executeBuiltInComds _ _ _ _ _ _ _)
      (executeBuiltInComds_effect _ _ _ _ _ _ _) hret
  | exited f hfork => exact absurd hret (by simp)
  | forked f hfork =>
    have hne := execCommandFork_children hpc hfork
    have hjob := (execCommandFork_job (Or.inl hfork)).job
    cases hwait : awaitJob s.interactive pc sys (addJob f.job s.ctl) with | mk returned ctl
    obtain ⟨es, hlog⟩ := awaitJob_log s.interactive pc sys (addJob f.job s.ctl)
    have hlaunch := @lifeOk_launched _ _ hok (fun i => i ∈ below) s.interactive (pc.zCmd = "fg") pc
      sys (addJob f.job s.ctl) f.job _ _ rfl hne hjob
    rw [hwait] at hlog hlaunch hret
    have hreturned : returned = true := by simpa using hret
    rw [show newEvents s.ctl ctl = es.map .recorded from newEvents_of_log hlog]
    simpa [hne] using hlaunch hreturned

end

/-! ### The sweep -/

/-- What the sweep prints for a job, by its classification and its marks. -/
theorem sweepJob_fst (job : Job) :
    (sweepJob job).1 = match classify job.process with
      | .RUNNING => []
      | .STOPPED => if job.runStatus = .STOPPED ∧ job.notified = true then []
          else ["[" ++ toString job.jobNum ++ "] stopped\n"]
      | .COMPLETED => if job.foreground = false ∧ ¬(job.runStatus = .COMPLETED ∧
            job.notified = true) then
          ["[" ++ toString job.jobNum ++ "] done " ++ job.jobName ++ "\n"] else [] := by
  obtain ⟨hnot, hfg⟩ := updatedJobStatus_marks job
  obtain ⟨hnum, hname, -, -⟩ := updatedJobStatus_marked job
  have hfst := updatedJobStatus_fst job
  unfold sweepJob
  cases hup : updatedJobStatus job with | mk st job'
  rw [hup] at hnot hfg hnum hname hfst
  obtain rfl : st = classify job.process := hfst
  -- `UpdatedJobStatus` takes a stopped job off the foreground, and clears `notified` when the
  -- status is a new one
  cases hclass : classify job.process with
  | RUNNING => rfl
  | STOPPED =>
    rw [hclass, if_pos rfl] at hfg
    rw [hclass] at hnot
    dsimp only at hnot hfg hnum ⊢
    rw [hnot, hfg, hnum]
    by_cases hold : job.runStatus = .STOPPED <;> simp [hold]
    cases job.notified <;> rfl
  | COMPLETED =>
    rw [hclass, if_neg (by simp)] at hfg
    rw [hclass] at hnot
    dsimp only at hnot hfg hnum hname ⊢
    rw [hnot, hfg, hnum, hname]
    by_cases hold : job.runStatus = .COMPLETED <;> simp [hold]

/-- The two lines differ behind the number. -/
theorem stopped_ne_done (number name : String) :
    "[" ++ number ++ "] stopped\n" ≠ "[" ++ number ++ "] done " ++ name ++ "\n" := by
  intro heq
  have hchars := congrArg String.toList heq
  rw [show "] stopped\n" = "] " ++ "stopped\n" by decide, show "] done " = "] " ++ "done " by decide]
    at hchars
  simp only [String.toList_append, List.append_assoc, List.append_cancel_left_eq] at hchars
  exact absurd (List.cons.inj hchars).1 (by decide)

/-- When the sweep announces that a job has stopped. -/
theorem announcesStopped_iff (job : Job) :
    announcesStopped job = true ↔ classify job.process = .STOPPED ∧
      ¬ (job.runStatus = .STOPPED ∧ job.notified = true) := by
  unfold announcesStopped
  rw [sweepJob_fst, decide_eq_true_eq]
  cases classify job.process with
  | RUNNING => simp
  | STOPPED =>
    dsimp only
    split
    · rename_i h
      exact iff_of_false List.not_mem_nil fun hnot => hnot.2 h
    · rename_i h
      exact iff_of_true List.mem_cons_self ⟨rfl, h⟩
  | COMPLETED =>
    dsimp only
    split <;> simp [stopped_ne_done]

/-- When it announces that a job is done. -/
theorem announcesDone_iff (job : Job) :
    announcesDone job = true ↔ classify job.process = .COMPLETED ∧ job.foreground = false ∧
      ¬ (job.runStatus = .COMPLETED ∧ job.notified = true) := by
  unfold announcesDone
  rw [sweepJob_fst, decide_eq_true_eq]
  cases classify job.process with
  | RUNNING => simp
  | STOPPED =>
    dsimp only
    split <;> simp [Ne.symm (stopped_ne_done _ _)]
  | COMPLETED =>
    dsimp only
    split
    · rename_i h
      exact iff_of_true List.mem_cons_self ⟨rfl, h⟩
    · rename_i h
      exact iff_of_false List.not_mem_nil fun hdone => h hdone.2

/-- A job that stays in the table after a prompt. -/
theorem lifeOk_prompt {job job' : Job} {life : Life} (hmarks : Marks life job)
    (hstay : (sweepJob job).2 = some job') : LifeOk job' (life.prompt job) := by
  have hlook := hmarks.look
  have hproc := updatedJobStatus_process job
  have hst := updatedJobStatus_runStatus job
  have hfst := updatedJobStatus_fst job
  have htext := announcesStopped_iff job
  unfold sweepJob at hstay
  cases hup : updatedJobStatus job with | mk st job₁
  rw [hup] at hlook hproc hst hfst hstay
  dsimp only at hlook hproc hst hfst hstay
  subst hfst
  have hsettle := @Marks.settle life job₁ hlook true (by rw [hst, ← hproc]; rfl)
  rw [show life.settle true job₁ = life.settle true job by simp [Life.settle, hproc]] at hsettle
  cases hclass : classify job.process with
  | COMPLETED =>
    rw [hclass] at hstay
    exact absurd hstay (by simp)
  | RUNNING =>
    -- nothing is announced, so the life is only settled
    rw [hclass] at hstay
    obtain rfl := Option.some.inj hstay
    have hnone : announcesStopped job = false := by
      rw [← Bool.not_eq_true, htext, hclass]
      simp
    have hann : (life.prompt job).announced = life.announced := by simp [Life.prompt, hnone]
    exact ⟨⟨hsettle.marks.waited, hsettle.marks.unmarked, by rw [hann]; exact hlook.silent,
      by rw [hann]; exact hlook.announced⟩, hsettle.stopped, hsettle.seen⟩
  | STOPPED =>
    rw [hclass] at hstay
    obtain rfl := Option.some.inj hstay
    have hann : (life.prompt job).announced = true := by
      simp only [Life.prompt, Bool.or_eq_true, htext]
      by_cases hold : job.runStatus = .STOPPED ∧ job.notified = true
      · exact Or.inl (hmarks.silent hold.1 hold.2)
      · exact Or.inr ⟨hclass, hold⟩
    have hclass₁ : classify job₁.process = .STOPPED := by rw [hproc, hclass]
    exact ⟨⟨fun _ => Or.inr (Or.inl hclass₁), fun _ _ _ hne => absurd hclass₁ hne,
      fun _ _ => hann, fun _ => ⟨hst.trans hclass, rfl, hclass₁⟩⟩, hsettle.stopped, hsettle.seen⟩

/-! ### Whole runs -/

/-- The jobs and their lives when the prompt has recorded the statuses there are. -/
theorem marks_recordAvailable (es : List StatusEvent) {s : JobControl} {lives : List Life}
    (hok : List.Forall₂ LifeOk s.jobs lives) :
    List.Forall₂ (fun job life => Marks life job) (recordAvailable es s).jobs lives := by
  have hlen := congrArg List.length
    ((touches_recordAvailable es s).map_jobs (fun _ _ hmark => hmark.jobNum) (fun _ _ => rfl))
  rw [List.length_map, List.length_map] at hlen
  have hkept : KeptByRecord fun i job => ∀ life, lives[i]? = some life → Marks life job :=
    fun i job e ps h hrec life hlife => (h life hlife).record hrec
  have hjobs := everywhere_recordAvailable hkept es
    fun i job hjob life hlife => (lifeOk_at hok hjob hlife).marks
  refine List.forall₂_iff_get.mpr ⟨hlen.trans hok.length_eq, fun i hi hi' => ?_⟩
  exact hjobs i _ (List.getElem?_eq_getElem hi) _ (List.getElem?_eq_getElem hi')

/-- **Step lemma for a notification.** -/
theorem lifeOk_notify (es : List StatusEvent) {s : JobControl} {lives : List Life}
    (hok : List.Forall₂ LifeOk s.jobs lives) :
    List.Forall₂ LifeOk (funcJobNotification es s).jobs (notifyLives es s lives) := by
  have hmarks := marks_recordAvailable es hok
  refine @forall₂_sweepAlong _ (fun job life' => ∃ life, Marks life job ∧ life' = life.prompt job)
    LifeOk ?_ _ _ ?_
  · rintro job job' life' ⟨life, hlife, rfl⟩ hstay
    exact lifeOk_prompt hlife hstay
  · generalize (recordAvailable es s).jobs = jobs at hmarks
    clear hok
    induction hmarks with
    | nil => exact .nil
    | cons hlife _ ih => exact .cons ⟨_, hlife, rfl⟩ ih

section
variable (A : FdAlloc OpenFile) (beyond : List Char) (strsignal : Nat → String)
  (shellGroup : Bool → Int)

/-- What a step makes of the lives. -/
def livesNote (s : ShellState) (a : ShellAction) (_ : ShellState) (lives : List Life) :
    List Life :=
  match a with
  | .terminal => lives
  | .notify es => notifyLives es s.shell.ctl lives
  | .exec pc sys => execLives A beyond strsignal pc sys s.shell lives

/-- A step of the shell, with the lives of its jobs. -/
abbrev LifeStep : ShellState × List Life → ShellAction → ShellState × List Life → Prop :=
  tracked (ShellStep A beyond strsignal shellGroup) (livesNote A beyond strsignal)

/-- The lives neither take a run of the shell away nor add one. -/
theorem run_iff_lives {k : Kernel} {as : List ShellAction} {s : ShellState} :
    Run (ShellStep A beyond strsignal shellGroup) (shellStart k) as s ↔
      ∃ lives, Run (LifeStep A beyond strsignal shellGroup) (shellStart k, []) as (s, lives) :=
  ⟨fun h => h.track [], fun ⟨_, h⟩ => h.untrack⟩

/-- **One step.** -/
theorem lifeOk_step {s s' : ShellState × List Life} {a : ShellAction}
    (hinv : s.1.returned = true → List.Forall₂ LifeOk s.1.shell.ctl.jobs s.2)
    (h : LifeStep A beyond strsignal shellGroup s a s') (hret' : s'.1.returned = true) :
    List.Forall₂ LifeOk s'.1.shell.ctl.jobs s'.2 := by
  obtain ⟨s, lives⟩ := s
  obtain ⟨s', lives'⟩ := s'
  obtain ⟨⟨hret, hen, hs'⟩, hlives'⟩ := h
  dsimp only at hret hs' hlives' hret' hinv
  subst hs' hlives'
  have hok := hinv hret
  cases a with
  | terminal => exact hok
  | notify es => exact lifeOk_notify es hok
  | exec pc sys => exact lifeOk_exec A beyond strsignal hen.1 sys hok hret'

/-- **The invariant of a run.** -/
theorem lifeOk_run {k : Kernel} {as : List ShellAction} {s : ShellState × List Life}
    (h : Run (LifeStep A beyond strsignal shellGroup) (shellStart k, []) as s) :
    s.1.returned = true → List.Forall₂ LifeOk s.1.shell.ctl.jobs s.2 :=
  @Run.invariant _ _ _ (fun s => s.1.returned = true → List.Forall₂ LifeOk s.1.shell.ctl.jobs s.2)
    (fun _ _ _ hinv hstep => lifeOk_step A beyond strsignal shellGroup hinv hstep) _ _ _ h
    fun _ => .nil

end

end OSPortfolio.Ish
