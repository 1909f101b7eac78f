import OSPortfolio.Ish.JobLives

namespace OSPortfolio.Ish

open OSPortfolio.Posix OSPortfolio.Lts

/-!
# What the shell says about its jobs

What `func_JobNotification` prints at a prompt, and what `jobs` and `bg` read in
`run_status`, against the lives of the jobs in `JobLives.lean`.

* `done_announced_iff` — a job that the shell has waited for is announced as done exactly if
  the start-up file launched it, as `foreground` is only set at a terminal;
* `stopped_announced_iff` — a stopped job is announced once for each time that the shell
  itself has resumed it;
* `runStatus_iff` — `run_status` is the classification of the job exactly as long as the
  flags classify as they did when `UpdatedJobStatus` last looked at them.
-/

section
variable (A : FdAlloc OpenFile) (beyond : List Char) (strsignal : Nat → String)
  (shellGroup : Bool → Int)

/-- **Which jobs are announced as done.**  At a prompt in any run, whatever statuses there
    are, `[n] done` is kept to the jobs that the shell has at some time not waited for, except
    for each job that the start-up file launched and that is over, and that `fg` has never
    selected. -/
theorem done_announced_iff {k : Kernel} {as : List ShellAction} {s : ShellState × List Life}
    (h : Run (LifeStep A beyond strsignal shellGroup) (shellStart k, []) as s)
    (hret : s.1.returned = true) (es : List StatusEvent) :
    List.Forall₂ (fun job life => (announcesDone job = true → life.notWaited = true) ↔
        life.interactive = true ∨ life.foregrounded = true ∨ life.notWaited = true ∨
          (updatedJobStatus job).1 ≠ .COMPLETED)
      (recordAvailable es s.1.shell.ctl).jobs s.2 := by
  have hmarks := marks_recordAvailable es (lifeOk_run A beyond strsignal shellGroup h hret)
  refine hmarks.imp fun job life hlife => ?_
  rw [updatedJobStatus_fst, announcesDone_iff]
  constructor
  · intro hclaim
    by_contra hbad
    simp only [not_or, Bool.not_eq_true, not_not] at hbad
    obtain ⟨hint, hfore, hwait, hdone⟩ := hbad
    -- such a job has no mark, so the line is printed
    obtain ⟨hfg, hnot⟩ := hlife.unmarked hint hfore hwait (by simp [hdone])
    have := hclaim ⟨hdone, hfg, by simp [hnot]⟩
    simp [this] at hwait
  · rintro hgood ⟨hdone, hfg, -⟩
    rcases hlife.waited hfg with hwait | hstop | ⟨hint, hfore⟩
    · exact hwait
    · exact absurd (hdone.symm.trans hstop) (by simp)
    · simpa [hint, hfore, hdone] using hgood

/-- **When a job is announced as stopped.**  At a prompt in any run, whatever statuses there
    are, `[n] stopped` is printed for the jobs that `UpdatedJobStatus` classifies so and that
    no prompt has announced since the shell itself last resumed them. -/
theorem stopped_announced_iff {k : Kernel} {as : List ShellAction}
    {s : ShellState × List Life}
    (h : Run (LifeStep A beyond strsignal shellGroup) (shellStart k, []) as s)
    (hret : s.1.returned = true) (es : List StatusEvent) :
    List.Forall₂ (fun job life => announcesStopped job = true ↔
        (updatedJobStatus job).1 = .STOPPED ∧ life.announced = false)
      (recordAvailable es s.1.shell.ctl).jobs s.2 := by
  have hmarks := marks_recordAvailable es (lifeOk_run A beyond strsignal shellGroup h hret)
  refine hmarks.imp fun job life hlife => ?_
  rw [updatedJobStatus_fst, announcesStopped_iff, ← Bool.not_eq_true]
  refine and_congr_right fun _ => not_congr ⟨fun hold => ?_, fun hann => ?_⟩
  · exact hlife.silent hold.1 hold.2
  · exact ⟨(hlife.announced hann).1, (hlife.announced hann).2.1⟩

/-- The new job in the tables of the children. -/
theorem execCommand_childJob (pc : Command) (sys : Answers) (s : Shell) {n : Nat} {c : Child}
    (hc : (execCommand A beyond strsignal pc sys s).children[n]? = some c) :
    c.job.runStatus = .RUNNING ∧ c.job.process =
      entriesOf ((execCommand A beyond strsignal pc sys s).children.take n) := by
  have hout := execCommand_outcome A beyond strsignal pc sys s
  generalize execCommand A beyond strsignal pc sys s = r, commandWait A beyond pc sys s = w
    at hout hc ⊢
  have hforked : ∀ f : ForkState, ForkedJob s.ctl.numJobs sys.outcome f →
      f.children[n]? = some c →
      c.job.runStatus = .RUNNING ∧ c.job.process = entriesOf (f.children.take n) :=
    fun f hf hc => ⟨(hf.child n c hc).1.runStatus, (hf.child n c hc).1.process⟩
  cases hout with
  | kept ret err k => exact absurd hc (by simp)
  | builtIn k => exact absurd hc (by simp)
  | exited f hfork => exact hforked f (execCommandFork_job (Or.inr hfork)) hc
  | forked f hfork => exact hforked f (execCommandFork_job (Or.inl hfork)) hc

/-- **What `jobs` and `bg` read.**  In every state of a run the `run_status` of a job is the
    classification of its flags exactly if they classify as they did when `UpdatedJobStatus`
    last looked at the job, or when it was launched.  A built-in run by a child reads a copy
    of that table with the new job in front, which is right for all but the first child. -/
theorem runStatus_iff {k : Kernel} {as : List ShellAction} {s : ShellState × List Life}
    (h : Run (LifeStep A beyond strsignal shellGroup) (shellStart k, []) as s)
    (hret : s.1.returned = true) :
    List.Forall₂ (fun job life => job.runStatus = classify job.process ↔
        classify job.process = classify life.seen) s.1.shell.ctl.jobs s.2 ∧
      ∀ (pc : Command) (sys : Answers) (n : Nat) (c : Child),
        (execCommand A beyond strsignal pc sys s.1.shell).children[n]? = some c →
          (c.job.runStatus = classify c.job.process ↔ n ≠ 0) := by
  refine ⟨(lifeOk_run A beyond strsignal shellGroup h hret).imp fun job life hlife => ?_,
    fun pc sys n c hc => ?_⟩
  · rw [hlife.seen]
    exact eq_comm
  · obtain ⟨hst, hproc⟩ := execCommand_childJob A beyond strsignal pc sys s.1.shell hc
    rw [hst, hproc]
    cases n with
    | zero => simp [entriesOf, classify]
    | succ n =>
      have hne : (execCommand A beyond strsignal pc sys s.1.shell).children.take (n + 1) ≠ [] := by
        obtain ⟨hlt, -⟩ := List.getElem?_eq_some_iff.mp hc
        simp [List.ne_nil_of_length_pos (Nat.lt_of_le_of_lt (Nat.zero_le _) hlt)]
      simp [classify_entriesOf hne]

end

/-! ### Runs -/

/-- A step of the shell of `JobGroups.lean` with the lives of its jobs. -/
abbrev lifeStep : ShellState × List Life → ShellAction → ShellState × List Life → Prop :=
  LifeStep FdAlloc.lowest [] (fun _ => "") groupByMode

/-- The state after a step. -/
def lifeNext (s : ShellState × List Life) (a : ShellAction) : ShellState × List Life :=
  (a.run FdAlloc.lowest [] (fun _ => "") groupByMode s.1,
    livesNote FdAlloc.lowest [] (fun _ => "") s.1 a s.1 s.2)

theorem lifeStep_next {s : ShellState × List Life} {a : ShellAction}
    (hret : s.1.returned = true) (hen : a.Enabled groupByMode s.1) :
    lifeStep s a (lifeNext s a) :=
  ⟨⟨hret, hen, rfl⟩, rfl⟩

/-- The start-up file runs `sleep`, and the shell waits until it is over. -/
def scriptDone : ShellState × List Life :=
  lifeNext (lifeNext (shellStart Kernel.std, [])
    (.exec (sleepCommand false) (answering [⟨20, .exited 0⟩]))) .terminal

/-- The first prompt says that this job is done. -/
theorem done_announced_script :
    ∃ as, Run lifeStep (shellStart Kernel.std, []) as scriptDone ∧
      scriptDone.1.shell.interactive = true ∧ scriptDone.2.map Life.notWaited = [false] ∧
      (funcJobNotification [] scriptDone.1.shell.ctl).out = ["[1] done sleep\n"] :=
  ⟨_, (Run.single (lifeStep_next rfl (enabled_answering (by decide) _ _))).snoc
    (lifeStep_next rfl trivial), rfl, rfl, by decide⟩

/-- At a terminal, `sleep &` with the pid 20. -/
def oneLaunched : ShellState × List Life :=
  lifeNext (lifeNext (shellStart Kernel.std, []) .terminal)
    (.exec (sleepCommand true) (answering []))

theorem run_oneLaunched : ∃ as, Run lifeStep (shellStart Kernel.std, []) as oneLaunched :=
  ⟨_, (Run.single (lifeStep_next (a := .terminal) rfl trivial)).snoc
    (lifeStep_next rfl (enabled_answering (by decide) _ _))⟩

/-- The job is over at the next prompt, which says so. -/
theorem done_announced_iff_background :
    ∃ as s, Run lifeStep (shellStart Kernel.std, []) as s ∧
      (recordAvailable [⟨20, .exited 0⟩] s.1.shell.ctl).jobs.map announcesDone = [true] ∧
      List.Forall₂ (fun job life => (announcesDone job = true → life.notWaited = true) ↔
          life.interactive = true ∨ life.foregrounded = true ∨ life.notWaited = true ∨
            (updatedJobStatus job).1 ≠ .COMPLETED)
        (recordAvailable [⟨20, .exited 0⟩] s.1.shell.ctl).jobs s.2 := by
  obtain ⟨as, hrun⟩ := run_oneLaunched
  exact ⟨as, _, hrun, by decide, done_announced_iff _ _ _ _ hrun rfl _⟩

/-- The job has been stopped at the next prompt, which says so. -/
theorem stopped_announced_iff_once :
    ∃ as s, Run lifeStep (shellStart Kernel.std, []) as s ∧
      (recordAvailable [⟨20, .stopped 20⟩] s.1.shell.ctl).jobs.map announcesStopped = [true] ∧
      List.Forall₂ (fun job life => announcesStopped job = true ↔
          (updatedJobStatus job).1 = .STOPPED ∧ life.announced = false)
        (recordAvailable [⟨20, .stopped 20⟩] s.1.shell.ctl).jobs s.2 := by
  obtain ⟨as, hrun⟩ := run_oneLaunched
  exact ⟨as, _, hrun, by decide, stopped_announced_iff _ _ _ _ hrun rfl _⟩

/-- After that prompt. -/
def oneStopped : ShellState × List Life := lifeNext oneLaunched (.notify [⟨20, .stopped 20⟩])

theorem run_oneStopped : ∃ as, Run lifeStep (shellStart Kernel.std, []) as oneStopped := by
  obtain ⟨as, hrun⟩ := run_oneLaunched
  exact ⟨_, hrun.snoc (lifeStep_next rfl rfl)⟩

/-- `bg %1`, with or without `&`. -/
def bgCommand (fBackground : Bool) : Command :=
  .mk "bg" ⟨some "bg", ["%1"]⟩ fBackground .null .null

/-- `bg %1 &` runs in a child, so the job is resumed and the shell does not know.  It stops
    again, and the next prompt does not say so. -/
theorem stopped_unannounced_after_child :
    ∃ as s, Run lifeStep (shellStart Kernel.std, []) as s ∧ s.1.shell.interactive = true ∧
      s.2.map Life.resumedBelow = [false, true] ∧
      let recorded := recordAvailable [⟨30, .exited 0⟩, ⟨20, .stopped 20⟩] s.1.shell.ctl
      recorded.jobs.map (fun job => (updatedJobStatus job).1) = [.COMPLETED, .STOPPED] ∧
      recorded.jobs.map announcesStopped = [false, false] := by
  obtain ⟨as, hrun⟩ := run_oneStopped
  have hrun' := hrun.snoc (lifeStep_next (a := .exec (bgCommand true) (forking 29 [])) rfl
    (enabled_forking (by decide) (by decide) _ _))
  exact ⟨_, _, hrun', rfl, rfl, rfl, by decide⟩

/-- In `bg %1; jobs` the job has been resumed when `jobs` runs, and is printed as stopped; a
    second `bg` would select it again. -/
theorem jobs_prints_stale_status :
    ∃ as s, Run lifeStep (shellStart Kernel.std, []) as s ∧ s.1.shell.interactive = true ∧
      s.1.shell.ctl.jobs.map (fun job => classify job.process) = [.RUNNING] ∧
      s.1.shell.ctl.jobs.map Job.runStatus = [.STOPPED] ∧
      displayActiveJobs (fun _ => "Stopped") s.1.shell.ctl.jobs = ["[1] sleep Stopped\n"] ∧
      findStopped s.1.shell.ctl.jobs = some 0 := by
  obtain ⟨as, hrun⟩ := run_oneStopped
  have hrun' := hrun.snoc (lifeStep_next (a := .exec (bgCommand false) (forking 29 [])) rfl
    (enabled_forking (by decide) (by decide) _ _))
  exact ⟨_, _, hrun', rfl, rfl, rfl, by decide, rfl⟩

/-- At the prompt before, the field was right. -/
theorem runStatus_iff_prompt :
    ∃ as s, Run lifeStep (shellStart Kernel.std, []) as s ∧
      s.1.shell.ctl.jobs.map Job.runStatus = [.STOPPED] ∧
      List.Forall₂ (fun job life => job.runStatus = classify job.process ↔
          classify job.process = classify life.seen) s.1.shell.ctl.jobs s.2 := by
  obtain ⟨as, hrun⟩ := run_oneStopped
  exact ⟨as, _, hrun, rfl, (runStatus_iff _ _ _ _ hrun rfl).1⟩

end OSPortfolio.Ish
