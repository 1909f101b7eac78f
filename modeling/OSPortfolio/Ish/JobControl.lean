import Mathlib.Algebra.Group.Int.Defs
import Mathlib.Algebra.Group.Nat.Defs
import OSPortfolio.Ish.Command
import OSPortfolio.Ish.WaitLoop

namespace OSPortfolio.Ish

/-!
# The job-control built-ins

`fg`, `bg`, `kill` and `jobs`, the two functions they share (`MakeJobBackGround` and
`MakeJobForeGround`) and `func_JobNotification`, as functions on the shell's job table.

* `JobControl` — the table with everything these functions print and signal;
* `JobEvent` — what they do to process entries: record a status, or mark a job as resumed.
  The list `log` of these is the model's own, so that the history of a job can be stated;
* `funcFg`, `funcBg`, `funcKill`, `funcJobNotification` — the functions;
* `executeBuiltInComds` — the built-ins by name, as far as they touch the job table.

What `waitpid` delivers and which `kill` calls fail are inputs.  The terminal calls
(`tcsetpgrp`, `tcsetattr`, `tcgetattr`) are left out.
-/

/-! ### State -/

/-- The signals the shell sends to its jobs. -/
inductive Signal
  | SIGCONT
  | SIGTERM
  deriving DecidableEq, Repr

/-- The name a failed `kill` is reported under. -/
def Signal.name : Signal → String
  | .SIGCONT => "SIGCONT"
  | .SIGTERM => "SIGTERM"

/-- One call `kill(-job->process_group_id, sig)`: the job as it is at the call, and its
    position in the table. -/
structure KillCall where
  slot : Nat
  job : Job
  sig : Signal
  deriving DecidableEq, Repr

/-- The first argument of the call. -/
def KillCall.pid (c : KillCall) : Int := -c.job.processGroupId

/-- A change of process entries: a status recorded, or the `stopped` flags of the job at a
    position cleared. -/
inductive JobEvent
  | recorded (e : StatusEvent)
  | resumed (i : Nat)
  deriving DecidableEq, Repr

/-- `job_head` and `num_jobs`, what has been printed on `stdout` and `stderr`, the `kill`
    calls made and the changes of process entries. -/
structure JobControl where
  jobs : List Job
  numJobs : Nat
  out : List String := []
  err : List String := []
  kills : List KillCall := []
  log : List JobEvent := []
  deriving DecidableEq, Repr

namespace JobControl

/-- `fprintf(stdout, ..)`. -/
def print (text : String) (s : JobControl) : JobControl := { s with out := s.out ++ [text] }

/-- `fprintf(stderr, ..)`. -/
def printError (text : String) (s : JobControl) : JobControl := { s with err := s.err ++ [text] }

/-- Assign fields of the job at position `i`. -/
def modifyJob (i : Nat) (f : Job → Job) (s : JobControl) : JobControl :=
  { s with jobs := s.jobs.modify i f }

end JobControl

/-! ### Finding a job -/

/-- `isspace` in the C locale. -/
def isspace (c : Char) : Bool :=
  c = ' ' || c = '\t' || c = '\n' || c = '\x0b' || c = '\x0c' || c = '\r'

/-- The value of a string of digits. -/
def digitsValue (cs : List Char) : Nat :=
  cs.foldl (fun n c => 10 * n + (c.toNat - '0'.toNat)) 0

/-- `atoi`, as `(int) strtol(s, NULL, 10)`: leading white space, a sign, the digits, clamped
    to `long` and then cut to `int`. -/
def atoi (s : List Char) : Int :=
  let s := s.dropWhile isspace
  let negative := s.head? = some '-'
  -- `strtol` takes one sign and no white space behind it
  let s := if negative ∨ s.head? = some '+' then s.tail else s
  let n : Int := digitsValue (s.takeWhile Char.isDigit)
  let n := if negative then -n else n
  -- an out of range number is clamped to `long`; `int` then keeps the low 32 bits
  (max (-2 ^ 63) (min (2 ^ 63 - 1) n)).bmod (2 ^ 32)

/-- `while (job != NULL) { if (job->job_num == n) break; job = job->next; }` -/
def findJob (n : Int) (jobs : List Job) : Option Nat :=
  jobs.findIdx? (fun job => (job.jobNum : Int) = n)

/-- The loop of `bg` without a parameter: the first job that is `STOPPED`. -/
def findStopped (jobs : List Job) : Option Nat :=
  jobs.findIdx? (fun job => job.runStatus = .STOPPED)

/-- Clear the `stopped` flag of a process. -/
def Process.resume (p : Process) : Process := { p with stopped := false }

/-- Clear the `stopped` flags of the job at position `i`, the loop `fg`, `bg` and `kill`
    start with. -/
def resumeAt (i : Nat) (s : JobControl) : JobControl :=
  { s with
    jobs := s.jobs.modify i (fun job => { job with process := job.process.map Process.resume })
    log := s.log ++ [.resumed i] }

section
-- `killError n` is what `strerror` says after the `n`th `kill` call, `none` if that succeeds;
-- `beyond` is what follows the terminator of an empty word in memory
variable (killError : Nat → Option String) (beyond : List Char)

/-- `atoi(pc->pa->azArgs[i]+1)` for the word `azArgs[i]`; for an empty word the pointer is
    one past its terminator. -/
def jobSpec (word : String) : Int :=
  match word.toList with
  -- `azArgs[i]+1` steps over the terminator
  | [] => atoi beyond
  | _ :: cs => atoi cs

/-- `kill(-job->process_group_id, sig)` for the job at position `i`, and the message of a
    failure. -/
def signalJob (i : Nat) (sig : Signal) (s : JobControl) : Bool × JobControl :=
  match s.jobs[i]? with
  | none => (true, s)
  | some job =>
    let s' := { s with kills := s.kills ++ [⟨i, job, sig⟩] }
    match killError s.kills.length with
    | none => (true, s')
    | some reason => (false, s'.printError ("kill (" ++ sig.name ++ "): " ++ reason ++ "\n"))

/-- `MakeJobBackGround(job, cont)`. -/
def makeJobBackGround (i : Nat) (cont : Bool) (s : JobControl) : JobControl :=
  let s := s.modifyJob i (fun job => { job with foreground := false })
  if cont then (signalJob killError i .SIGCONT s).2 else s

/-- `MakeJobForeGround(job, cont)`, with the statuses `waitpid` delivers; the flag says
    whether the wait loop returns.  The loop goes round again exactly after a status it
    recorded, so it has recorded one status less than it has called `waitpid`. -/
def makeJobForeGround (i : Nat) (cont : Bool) (es : List StatusEvent) (childLeft : Bool)
    (s : JobControl) : Bool × JobControl :=
  let s := s.modifyJob i (fun job => { job with foreground := true })
  -- a `kill` that fails is reported, and the job is waited for all the same
  let s := if cont then (signalJob killError i .SIGCONT s).2 else s
  let r := makeJobForeGroundWait i childLeft es s.jobs
  (r.returned, { s with
    jobs := r.jobs
    log := s.log ++ (es.take (r.calls - 1)).map .recorded })

/-! ### The built-ins -/

/-- `func_fg(pc)`. -/
def funcFg (pc : Command) (es : List StatusEvent) (childLeft : Bool) (s : JobControl) :
    Bool × JobControl :=
  match pc.pa.params with
  | [] => (true, s.printError "fg : Too few arguments\n")
  | _ :: _ :: _ => (true, s.printError "fg : Too many arguments\n")
  | [word] =>
    match findJob (jobSpec beyond word) s.jobs with
    -- the pointer has walked off the list
    | none => (true, s.printError "fg : No job with the specified id found.\n")
    | some i =>
      let s := (resumeAt i s).modifyJob i (fun job => { job with notified := true })
      let s := s.print (((s.jobs[i]?).elim "" Job.jobName) ++ "\n")
      makeJobForeGround killError i true es childLeft s

/-- `DisplayProcessIDs`: the process forked first is printed first. -/
def displayProcessIDs (ps : List Process) : String :=
  String.join (ps.reverse.map fun p => " " ++ toString p.processId)

/-- The lines `bg` (and `ExecCommand`, for a job in the background) prints. -/
def announceJob (i : Nat) (s : JobControl) : JobControl :=
  match s.jobs[i]? with
  | none => s
  | some job =>
    ((s.print ("[" ++ toString job.jobNum ++ "]")).print
      (displayProcessIDs job.process)).print "\n"

/-- `func_bg(pc)`. -/
def funcBg (pc : Command) (s : JobControl) : JobControl :=
  let continueJob (i : Nat) : JobControl :=
    makeJobBackGround killError i true
      (announceJob i ((resumeAt i s).modifyJob i (fun job => { job with notified := false })))
  match pc.pa.params with
  | _ :: _ :: _ => s.printError "bg : Too many arguments\n"
  | [] => (findStopped s.jobs).elim (s.printError "bg : No job found.\n") continueJob
  | [word] =>
    (findJob (jobSpec beyond word) s.jobs).elim (s.printError "bg : No job found.\n") continueJob

/-- The loop of `func_kill` over its parameters; a `SIGTERM` that fails ends it. -/
def killLoop : List String → JobControl → JobControl
  | [], s => s
  | word :: words, s =>
    match findJob (jobSpec beyond word) s.jobs with
    -- no such job: `kill` says nothing and goes on with the next word
    | none => killLoop words s
    | some i =>
      let s := (resumeAt i s).modifyJob i (fun job => { job with notified := false })
      let s := makeJobBackGround killError i true s
      match signalJob killError i .SIGTERM s with
      | (true, s) => killLoop words s
      -- `return` in the middle of the loop, the remaining words are not looked at
      | (false, s) => s

/-- `func_kill(pc)`. -/
def funcKill (pc : Command) (s : JobControl) : JobControl :=
  match pc.pa.params with
  | [] => s.printError "kill : Too few arguments\n"
  | words => killLoop killError beyond words s

end

/-! ### Listing the jobs -/

section
variable (strsignal : Nat → String)

/-- `WSTOPSIG(status)` and `WEXITSTATUS(status)`, which read the same byte. -/
def WaitStatus.wstopsig : WaitStatus → Nat
  | .exited code => code
  | .signaled _ _ => 0
  | .stopped sig => sig

/-- `PrintInfoJobs(job)`. -/
def printInfoJobs (job : Job) : List String :=
  let number := "[" ++ toString job.jobNum ++ "] "
  match job.runStatus with
  | .RUNNING => [number ++ "Running\n"]
  | .STOPPED => [number ++ job.jobName ++ " " ++ strsignal job.status.wstopsig ++ "\n"]
  | .COMPLETED =>
    match job.status with
    | .signaled sig core =>
      [number ++ job.jobName ++ " " ++ strsignal sig, if core then " (Core Dumped)\n" else "\n"]
    | status => [number ++ job.jobName ++ " Exit " ++ toString status.wstopsig ++ "\n"]

/-- `DisplayActiveJobs(job)`: the job launched first is printed first. -/
def displayActiveJobs : List Job → List String
  | [] => []
  | job :: jobs =>
    displayActiveJobs jobs ++ if job.foreground = false then printInfoJobs strsignal job else []

end

/-- `ExecuteBuiltInComds(pc)`, as far as the job table goes; `none` is returned when the
    wait of `fg` does not end. -/
def executeBuiltInComds (killError : Nat → Option String) (beyond : List Char)
    (strsignal : Nat → String) (pc : Command) (es : List StatusEvent) (childLeft : Bool)
    (s : JobControl) : Option Ret × JobControl :=
  if pc.zCmd ∈ ["cd", "alias", "unalias", "setenv", "unsetenv"] then (some .SUCCESS, s)
  else if pc.zCmd = "bg" then (some .SUCCESS, funcBg killError beyond pc s)
  else if pc.zCmd = "fg" then
    match funcFg killError beyond pc es childLeft s with
    | (true, s) => (some .SUCCESS, s)
    | (false, s) => (none, s)
  else if pc.zCmd = "jobs" then
    (some .SUCCESS, { s with out := s.out ++ displayActiveJobs strsignal s.jobs })
  else if pc.zCmd = "kill" then (some .SUCCESS, funcKill killError beyond pc s)
  else if pc.zCmd = "quit" then (some .QUIT, s)
  else (some .FAIL, s)

/-! ### Notification -/

/-- The loop of `func_JobNotification` over `waitpid` with `WNOHANG`: it ends at the first
    status that is not recorded, and when there is none left. -/
def recordAvailable : List StatusEvent → JobControl → JobControl
  | [], s => s
  | e :: es, s =>
    match updatedProcessStatus e s.jobs with
    | (.SUCCESS, jobs) =>
      recordAvailable es { s with jobs := jobs, log := s.log ++ [.recorded e] }
    -- the status has been taken from `waitpid` and is recorded nowhere
    | (_, jobs) => { s with jobs := jobs }

/-- What the sweep of `func_JobNotification` prints for a job and the job it leaves, if the
    job stays in the table. -/
def sweepJob (job : Job) : List String × Option Job :=
  match updatedJobStatus job with
  | (.COMPLETED, job) =>
    (if job.foreground = false ∧ job.notified = false then
      ["[" ++ toString job.jobNum ++ "] done " ++ job.jobName ++ "\n"] else [], none)
  | (.STOPPED, job) =>
    (if job.foreground = false ∧ job.notified = false then
      ["[" ++ toString job.jobNum ++ "] stopped\n"] else [], some { job with notified := true })
  | (.RUNNING, job) => ([], some job)

/-- `func_JobNotification()`, with the statuses `waitpid` has. -/
def funcJobNotification (es : List StatusEvent) (s : JobControl) : JobControl :=
  let s := recordAvailable es s
  let jobs := s.jobs.filterMap (fun job => (sweepJob job).2)
  { s with
    jobs := jobs
    out := s.out ++ s.jobs.flatMap (fun job => (sweepJob job).1)
    -- the numbers start again once the table is empty
    numJobs := if jobs = [] then 0 else s.numJobs }

end OSPortfolio.Ish
