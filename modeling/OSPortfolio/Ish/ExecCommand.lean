import OSPortfolio.Ish.BuiltIn
import OSPortfolio.Ish.ForkLoop
import OSPortfolio.Ish.JobSteps

namespace OSPortfolio.Ish

open OSPortfolio.Posix

/-!
# Executing a command

`ExecCommand` as a whole, put together from the parts of the other files: the tests in front,
the branch for a built-in of the shell, the fork loop, and what the shell does with the new
job afterwards.

* `Shell` — the job table, the shell's descriptors and its mode;
* `Answers` — what the system answers while a command is executed, in the shell and in the
  children;
* `awaitJob` — the end of `ExecCommand`; `execCommand` — the function;
* `subshell` — a built-in run by a child, on the child's copy of the job table;
* `touches_awaitJob` — after the fork loop, only the small steps of `JobSteps.lean` happen.

The messages of `func_IORedirection` and of a failed `fork` are left out, and so are the
environment handed to the children and the terminal calls.
-/

/-! ### State -/

/-- The shell, as far as `ExecCommand` reads and changes it; `interactive` is the argument
    `processCommands` passes on. -/
structure Shell where
  ctl : JobControl
  kernel : Kernel
  interactive : Bool

/-- What the system answers while one command is executed: which files open, which `kill`
    calls fail, what `pipe` and `fork` return, what `waitpid` delivers and whether a child is
    left after that, and the same for the calls of the `n`th child.  `uninit` is what
    `fd_pipe` holds before the first `pipe`. -/
structure Answers where
  openOk : String → OpenFlags → Bool
  killError : Nat → Option String
  outcome : Nat → Outcome
  uninit : Int × Int
  events : List StatusEvent
  childLeft : Bool
  childOpenOk : Nat → String → OpenFlags → Bool
  childKillError : Nat → Nat → Option String

/-- What a call of `ExecCommand` leaves behind: its result (`none` when it does not return,
    as the shell has exited or waits for ever), the shell, and the children it has forked. -/
structure Executed where
  ret : Option Ret
  shell : Shell
  children : List Child

/-! ### After the fork loop -/

/-- The statuses among `es` that `UpdatedProcessStatus` records. -/
def recordable (jobs : List Job) (es : List StatusEvent) : List StatusEvent :=
  es.filter (fun e => 0 < e.processId ∧ e.processId ∈ pidsOf (procTable jobs))

/-- The end of `ExecCommand`, with the new job at the head of the table: the wait of a shell
    that is not interactive, or the job in the foreground, or in the background.  The flag
    says whether the wait ends. -/
def awaitJob (interactive : Bool) (pc : Command) (sys : Answers) (s : JobControl) :
    Bool × JobControl :=
  if interactive = false then
    let r := execCommandWait 0 sys.childLeft sys.events s.jobs
    (r.returned, { s with
      jobs := r.jobs
      log := s.log ++ (recordable s.jobs (sys.events.take r.calls)).map .recorded })
  else if pc.fBackground = false then
    makeJobForeGround sys.killError 0 false sys.events sys.childLeft
      (s.modifyJob 0 fun job => { job with foreground := true })
  else
    (true, makeJobBackGround sys.killError 0 false
      (announceJob 0 (s.modifyJob 0 fun job => { job with notified := true })))

section
variable (A : FdAlloc OpenFile) (beyond : List Char) (strsignal : Nat → String)

/-! ### The function -/

/-- The branch for a built-in of the shell. -/
def execInShell (pc : Command) (sys : Answers) (s : Shell) : Executed :=
  match funcIORedirection A sys.openOk pc.prRedirects ⟨-1, -1, 0⟩ s.kernel with
  | (.SUCCESS, _, _) =>
    -- a built-in opens and closes no descriptor, so the two halves of the branch do not meet
    let r := executeBuiltInComds sys.killError beyond strsignal pc sys.events sys.childLeft s.ctl
    let k := (execBuiltIn A sys.openOk pc.prRedirects .SUCCESS s.kernel).2
    ⟨r.1, { s with ctl := r.2, kernel := k }, []⟩
  -- the built-in is not run when its redirection fails
  | (ret, _, k) => ⟨some ret, { s with kernel := k }, []⟩

/-- The job table once the new job stands at its head. -/
def addJob (job : Job) (s : JobControl) : JobControl :=
  { s with jobs := job :: s.jobs, numJobs := s.numJobs + 1 }

/-- `ExecCommand` from `performing job control` on. -/
def execForked (pc : Command) (sys : Answers) (s : Shell) : Executed :=
  match execCommandFork A s.interactive sys.outcome sys.uninit s.ctl.numJobs pc s.kernel with
  -- `fork` has failed and the shell exits, with the new job in the table
  | .error f => ⟨none, { s with ctl := addJob f.job s.ctl, kernel := f.kernel }, f.children⟩
  | .ok f =>
    let r := awaitJob s.interactive pc sys (addJob f.job s.ctl)
    ⟨if r.1 then some .SUCCESS else none, { s with ctl := r.2, kernel := f.kernel }, f.children⟩

/-- `ExecCommand(pc, interactive)`. -/
def execCommand (pc : Command) (sys : Answers) (s : Shell) : Executed :=
  match checkPipelineAmbiguity pc with
  | .error message => ⟨some .FAIL, { s with ctl := s.ctl.printError message }, []⟩
  | .ok isPipe =>
    if isPipe = false ∧ pc.fBackground = false ∧ checkBuiltInCommands pc = true then
      execInShell A beyond strsignal pc sys s
    else execForked A pc sys s

/-- The `n`th child, when it runs a built-in: the job table it leaves, started from the copy
    it got from the shell `s`.  A child has no children, so its `waitpid` returns -1. -/
def subshell (sys : Answers) (s : Shell) (n : Nat) (c : Child) : Option JobControl :=
  match c.start A (sys.childOpenOk n) with
  | none => none
  | some _ =>
    if checkBuiltInCommands c.pc = true then
      some (executeBuiltInComds (sys.childKillError n) beyond strsignal c.pc [] false
        (addJob c.job s.ctl)).2
    else none

end

/-! ### The wait of a shell that is not interactive -/

/-- `UpdatedProcessStatus` succeeds for the pids of the table. -/
theorem updatedProcessStatus_success_iff (e : StatusEvent) (jobs : List Job) :
    (updatedProcessStatus e jobs).1 = .SUCCESS ↔
      0 < e.processId ∧ e.processId ∈ pidsOf (procTable jobs) := by
  have hsome := recordInTable_isSome e (procTable jobs)
  rw [← recordInJobs_procTable, Option.isSome_map] at hsome
  unfold updatedProcessStatus
  by_cases hpos : 0 < e.processId
  · rw [if_pos hpos]
    cases hrec : recordInJobs e jobs with
    | some jobs' => simpa [hrec, hpos] using hsome
    | none => simpa [hrec, hpos] using hsome
  · simp [hpos]

theorem recordable_cons (e : StatusEvent) (es : List StatusEvent) (jobs : List Job) :
    recordable jobs (e :: es) =
      if (updatedProcessStatus e jobs).1 = .SUCCESS then e :: recordable jobs es
      else recordable jobs es := by
  simp only [recordable, List.filter_cons, decide_eq_true_eq,
    ← updatedProcessStatus_success_iff e jobs]

/-- On a status that is not recorded the loop ends, with the table as it was. -/
theorem execCommandCond_of_fail (i : Nat) {e : StatusEvent} {jobs : List Job}
    (h : (updatedProcessStatus e jobs).1 ≠ .SUCCESS) :
    execCommandCond i e jobs = (false, jobs) := by
  have hsame := updatedProcessStatus_fail h
  unfold execCommandCond
  split
  · rename_i hupd
    exact absurd (by rw [hupd]) h
  · rename_i hupd
    rw [hupd] at hsame
    exact Prod.ext rfl hsame

/-- Recording a status and classifying a job change no pid. -/
theorem recordable_execCommandCond (i : Nat) (e : StatusEvent) (jobs : List Job) :
    recordable (execCommandCond i e jobs).2 = recordable jobs := by
  by_cases hsucc : (updatedProcessStatus e jobs).1 = .SUCCESS
  · obtain ⟨hpos, hmem⟩ := (updatedProcessStatus_success_iff e jobs).mp hsucc
    obtain ⟨jobs', hcond, htab⟩ := execCommandCond_spec i e jobs hpos hmem
    rw [hcond]
    funext es
    simp only [recordable, htab, pidsOf_recordStatus]
  · rw [execCommandCond_of_fail i hsucc]

/-- A turn of the wait loop records its status, if the table has the pid, and marks the
    job. -/
theorem touches_execCommandCond (i : Nat) (e : StatusEvent) (s : JobControl) :
    Touches s { s with
      jobs := (execCommandCond i e s.jobs).2
      log := s.log ++ (recordable s.jobs [e]).map .recorded } := by
  rw [recordable_cons]
  by_cases hsucc : (updatedProcessStatus e s.jobs).1 = .SUCCESS
  · have hupd : updatedProcessStatus e s.jobs = (.SUCCESS, (updatedProcessStatus e s.jobs).2) :=
      Prod.ext hsucc rfl
    generalize (updatedProcessStatus e s.jobs).2 = jobs at hupd
    have hrec := Relation.ReflTransGen.single (Touch.record s e jobs hupd)
    rw [if_pos hsucc, execCommandCond, hupd]
    exact hrec.tail (.mark _ _ (forall₂_marked_updatedJobStatusAt i jobs))
  · rw [if_neg hsucc, execCommandCond_of_fail i hsucc]
    simpa [recordable] using Relation.ReflTransGen.refl

/-- The wait loop of `ExecCommand` records statuses and marks the job. -/
theorem touches_execCommandWait (i : Nat) (childLeft : Bool) (es : List StatusEvent)
    (s : JobControl) :
    Touches s { s with
      jobs := (execCommandWait i childLeft es s.jobs).jobs
      log := s.log ++ (recordable s.jobs
        (es.take (execCommandWait i childLeft es s.jobs).calls)).map .recorded } := by
  induction es generalizing s with
  | nil =>
    have hnone : (execCommandCond i noChild s.jobs).2 = s.jobs := by simp [execCommandCond]
    cases childLeft <;>
      simpa [execCommandWait, waitWhile, recordable, hnone] using Relation.ReflTransGen.refl
  | cons e es ih =>
    have hturn := touches_execCommandCond i e s
    have hpids := recordable_execCommandCond i e s.jobs
    unfold execCommandWait at ih ⊢
    cases hcond : execCommandCond i e s.jobs with | mk again jobs
    rw [hcond] at hturn hpids
    cases again with
    | false => simpa [waitWhile_stop hcond] using hturn
    | true =>
      -- the rest of the loop, from the table this turn leaves
      have hrest := hturn.trans (ih _)
      simp only [hpids] at hrest
      rw [waitWhile_again hcond]
      simp only [List.take_succ_cons]
      -- the log of the rest is filtered by the table after this turn, which has the same pids
      rw [recordable_cons] at hrest ⊢
      split
      · rename_i hsucc
        simpa [hsucc, recordable] using hrest
      · rename_i hfail
        simpa [hfail, recordable] using hrest

theorem touches_awaitJob (interactive : Bool) (pc : Command) (sys : Answers) (s : JobControl) :
    Touches s (awaitJob interactive pc sys s).2 := by
  unfold awaitJob
  split_ifs
  · exact touches_execCommandWait 0 sys.childLeft sys.events s
  · exact (touches_setForeground 0 true s).trans
      (touches_makeJobForeGround sys.killError 0 false sys.events sys.childLeft _)
  · exact ((touches_setNotified 0 true s).trans (touches_announceJob 0 _)).trans
      (touches_makeJobBackGround sys.killError 0 false _)

end OSPortfolio.Ish
