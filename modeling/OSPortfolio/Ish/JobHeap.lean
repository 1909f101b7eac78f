import OSPortfolio.Lib.HeapList
import OSPortfolio.Ish.Env
import OSPortfolio.Ish.ExecCommand

namespace OSPortfolio.Ish.OnHeap

open OSPortfolio.Memory OSPortfolio.Posix

/-!
# The job table on the heap

Job control with the blocks that `ish.c` allocates: a `struct Job` with its name and its list of
`struct Process`, and the strings of `EnvGetVars`.  `JobControl.lean` and `ExecCommand.lean` have
the same functions on lists.

* `JobCell` — the contents of a block; `Globals` — `job_head` and what else is global;
* `updatedProcessStatus`, `updatedJobStatus`, `allocJobMem` — the functions that all others use;
* `funcFg`, `funcBg`, `funcKill`, `displayActiveJobs`, `funcJobNotification` — the functions that
  walk along the table;
* `execCommand` — `ExecCommand`, which allocates a job; `freeTable` — the end of `main`.

The terminal modes in a job are left out, but not the accesses to it that `tcsetattr` and
`tcgetattr` make.
-/

/-- `struct Process` -/
structure ProcessFields extends Process where
  next : Ptr

/-- `struct Job` -/
structure JobFields where
  jobNum : Nat := 0
  jobName : Ptr := 0
  notified : Bool := false
  status : WaitStatus := .exited 0
  runStatus : RunStatus := .RUNNING
  foreground : Bool := false
  next : Ptr := 0
  process : Ptr := 0
  processGroupId : Int := 0

/-- The contents of a block: a structure, or a `char[WORD_SIZE]`. -/
inductive JobCell
  | job (f : JobFields)
  | process (f : ProcessFields)
  | chars (s : String)

/-- A program on these blocks. -/
abbrev JobProg (β : Type) := Mem JobCell β

/-- `job_head`, `num_jobs`, what has been printed, and the calls of `kill`. -/
structure Globals where
  head : Ptr := 0
  numJobs : Nat := 0
  out : List String := []
  err : List String := []
  kills : List (Int × Signal) := []

/-- `fprintf(stdout, ..)`. -/
def Globals.print (text : String) (g : Globals) : Globals := { g with out := g.out ++ [text] }

/-- `fprintf(stderr, ..)`. -/
def Globals.printError (text : String) (g : Globals) : Globals :=
  { g with err := g.err ++ [text] }

/-! ### Fields -/

def loadJob (p : Ptr) : JobProg JobFields := loadAs (fun | .job f => some f | _ => none) p

def loadProcess (p : Ptr) : JobProg ProcessFields :=
  loadAs (fun | .process f => some f | _ => none) p

def loadText (p : Ptr) : JobProg String := loadAs (fun | .chars s => some s | _ => none) p

/-- Assign to a field of a job. -/
def setJob (p : Ptr) (f : JobFields → JobFields) : JobProg Unit := do
  let job ← loadJob p
  store p (.job (f job))

def setProcess (p : Ptr) (f : ProcessFields → ProcessFields) : JobProg Unit := do
  let process ← loadProcess p
  store p (.process (f process))

/-- `if (b) x` -/
def whenTrue (b : Bool) (x : JobProg Unit) : JobProg Unit := if b then x else pure ()

/-- `strcpy(p, s)` -/
def strcpy (p : Ptr) (s : String) : JobProg Unit := do
  assert (fitsWord s = true)
  let _ ← loadText p
  store p (.chars s)

/-- `strcat(p, s)` -/
def strcat (p : Ptr) (s : String) : JobProg Unit := do
  let t ← loadText p
  assert (fitsWord (t ++ s) = true)
  store p (.chars (t ++ s))

/-- `job->next` -/
def nextJob (p : Ptr) : JobProg Ptr := do
  let f ← loadJob p
  pure f.next

/-- `p->next` -/
def nextProcess (p : Ptr) : JobProg Ptr := do
  let f ← loadProcess p
  pure f.next

/-! ### Statuses -/

/-- A turn of the inner loop of `UpdatedProcessStatus`. -/
def recordIn (e : StatusEvent) (_ : Unit) (p : Ptr) : JobProg (Ret ⊕ Unit) := do
  let f ← loadProcess p
  if f.processId = e.processId then do
    setProcess p fun f => { f with status := e.status }
    if e.status.wifstopped then setProcess p fun f => { f with stopped := true }
    else setProcess p fun f => { f with completed := true }
    pure (.inl .SUCCESS)
  else pure (.inr ())

/-- `UpdatedProcessStatus(process_id, status)` -/
def updatedProcessStatus (e : StatusEvent) (head : Ptr) : JobProg Ret :=
  if 0 < e.processId then do
    let r ← walk nextJob (fun _ job => do
      let f ← loadJob job
      walk nextProcess (recordIn e) () f.process) () head
    pure (r.elim id fun _ => .FAIL)
  else pure .FAIL

/-- A turn of the loop of `UpdatedJobStatus`, on `is_stopped` and `status`. -/
def lookAt (s : Bool × Option WaitStatus) (p : Ptr) :
    JobProg (Unit ⊕ (Bool × Option WaitStatus)) := do
  let f ← loadProcess p
  if f.completed = false ∧ f.stopped = false then pure (.inl ())
  else if f.stopped = true then pure (.inr (true, some f.status))
  else pure (.inr (s.1, some f.status))

/-- `if(job->run_status != status) job->notified = 0; job->run_status = status;` -/
def setRunStatus (job : Ptr) (status : RunStatus) : JobProg Unit := do
  let f ← loadJob job
  whenTrue (f.runStatus ≠ status) (setJob job fun f => { f with notified := false })
  setJob job fun f => { f with runStatus := status }

/-- `UpdatedJobStatus(job)` -/
def updatedJobStatus (job : Ptr) : JobProg RunStatus := do
  let f ← loadJob job
  match ← walk nextProcess lookAt (false, none) f.process with
  | .inl () => do
    setRunStatus job .RUNNING
    pure .RUNNING
  | .inr (true, status) => do
    setRunStatus job .STOPPED
    setJob job fun f => { f with status := status.getD f.status }
    setJob job fun f => { f with foreground := false }
    pure .STOPPED
  | .inr (false, status) => do
    setRunStatus job .COMPLETED
    setJob job fun f => { f with status := status.getD f.status }
    pure .COMPLETED

/-- The loop of `AllocJobMem`. -/
def freeProcesses : Nat → Ptr → JobProg Unit
  | 0, _ => failure
  | n + 1, p => whenNonNull p do
    let next ← nextProcess p
    free p
    freeProcesses n next

/-- `AllocJobMem(job)`, which frees it. -/
def allocJobMem (job : Ptr) : JobProg Unit := do
  let f ← loadJob job
  let n ← size
  freeProcesses (n + 1) f.process
  let f ← loadJob job
  free f.jobName
  free job

/-! ### Signals and waiting -/

/-- `while (job != NULL) { if (test) break; job = job->next; }` -/
def searchJob (test : JobFields → Bool) (head : Ptr) : JobProg Ptr := do
  let r ← walk nextJob (fun _ p => do
    let f ← loadJob p
    pure (if test f then .inl p else .inr ())) () head
  pure (r.elim id fun _ => 0)

/-- `for (struct Process *p = job->process; p != NULL; p = p->next) p->stopped = 0;` -/
def resumeJob (job : Ptr) : JobProg Unit := do
  let f ← loadJob job
  let _ ← walk nextProcess (fun _ p => do
    setProcess p fun f => { f with stopped := false }
    pure (.inr () : Unit ⊕ Unit)) () f.process

section
variable (killError : Nat → Option String) (beyond : List Char)

/-- `kill(-job->process_group_id, sig)` -/
def signalJob (job : Ptr) (sig : Signal) (g : Globals) : JobProg (Bool × Globals) := do
  let f ← loadJob job
  let g' := { g with kills := g.kills ++ [(-f.processGroupId, sig)] }
  match killError g.kills.length with
  | none => pure (true, g')
  | some reason =>
    pure (false, g'.printError ("kill (" ++ sig.name ++ "): " ++ reason ++ "\n"))

/-- `MakeJobBackGround(job, cont)` -/
def makeJobBackGround (job : Ptr) (cont : Bool) (g : Globals) : JobProg Globals := do
  setJob job fun f => { f with foreground := false }
  if cont then do
    let r ← signalJob killError job .SIGCONT g
    pure r.2
  else pure g

/-- `do { waitpid(-1, &status, WUNTRACED) } while (cond)`; false when the last call blocks. -/
def waitWhile (cond : StatusEvent → JobProg Bool) (childLeft : Bool) :
    List StatusEvent → JobProg Bool
  | [] => if childLeft then pure false else do
    let _ ← cond noChild
    pure true
  | e :: es => do
    if ← cond e then waitWhile cond childLeft es else pure true

/-- The condition in `MakeJobForeGround`. -/
def makeJobForeGroundCond (job head : Ptr) (e : StatusEvent) : JobProg Bool := do
  match ← updatedJobStatus job with
  | .RUNNING => do
    let r ← updatedProcessStatus e head
    pure (decide (r = .SUCCESS))
  | _ => pure false

/-- The condition in `ExecCommand`. -/
def execCommandCond (job head : Ptr) (e : StatusEvent) : JobProg Bool := do
  match ← updatedProcessStatus e head with
  | .SUCCESS => do
    let r ← updatedJobStatus job
    pure (decide (r = .RUNNING))
  | _ => pure false

/-- The part of `MakeJobForeGround` for a job that is continued. -/
def sendInfo (job : Ptr) (cont : Bool) (g : Globals) : JobProg Globals :=
  if cont then do
    -- `tcsetattr(terminal, TCSADRAIN, &job->tmodes)`
    let _ ← loadJob job
    let r ← signalJob killError job .SIGCONT g
    pure r.2
  else pure g

/-- `MakeJobForeGround(job, cont)` -/
def makeJobForeGround (job : Ptr) (cont : Bool) (es : List StatusEvent) (childLeft : Bool)
    (g : Globals) : JobProg (Bool × Globals) := do
  -- `tcsetpgrp(terminal, job->process_group_id)`
  let _ ← loadJob job
  setJob job fun f => { f with foreground := true }
  let g ← sendInfo killError job cont g
  let returned ← waitWhile (makeJobForeGroundCond job g.head) childLeft es
  -- `tcgetattr(terminal, &job->tmodes)`
  whenTrue returned do
    let _ ← loadJob job
  pure (returned, g)

/-! ### The built-ins -/

/-- `func_fg(pc)` -/
def funcFg (pc : Command) (es : List StatusEvent) (childLeft : Bool) (g : Globals) :
    JobProg (Bool × Globals) :=
  match pc.pa.params with
  | [] => pure (true, g.printError "fg : Too few arguments\n")
  | _ :: _ :: _ => pure (true, g.printError "fg : Too many arguments\n")
  | [word] => do
    let job ← searchJob (fun f => (f.jobNum : Int) = jobSpec beyond word) g.head
    if job = 0 then pure (true, g.printError "fg : No job with the specified id found.\n")
    else do
      resumeJob job
      setJob job fun f => { f with notified := true }
      let f ← loadJob job
      let name ← loadText f.jobName
      makeJobForeGround killError job true es childLeft (g.print (name ++ "\n"))

/-- `DisplayProcessIDs`, to a depth of calls. -/
def displayProcessIDsUpTo : Nat → Ptr → JobProg String
  | 0, _ => failure
  | n + 1, p =>
    if p = 0 then pure ""
    else do
      let f ← loadProcess p
      let before ← displayProcessIDsUpTo n f.next
      let f ← loadProcess p
      pure (before ++ (" " ++ toString f.processId))

/-- `DisplayProcessIDs(p)`, as what it prints. -/
def displayProcessIDs (p : Ptr) : JobProg String := do
  let n ← size
  displayProcessIDsUpTo (n + 1) p

/-- `fprintf(stdout, "[%d]", job->job_num); DisplayProcessIDs(job->process); ..` -/
def announceJob (job : Ptr) (g : Globals) : JobProg Globals := do
  let f ← loadJob job
  let g := g.print ("[" ++ toString f.jobNum ++ "]")
  let ids ← displayProcessIDs f.process
  pure ((g.print ids).print "\n")

/-- What `bg` does with the job that it has found. -/
def continueJob (job : Ptr) (g : Globals) : JobProg Globals :=
  if job = 0 then pure (g.printError "bg : No job found.\n")
  else do
    resumeJob job
    setJob job fun f => { f with notified := false }
    let g ← announceJob job g
    makeJobBackGround killError job true g

/-- `func_bg(pc)` -/
def funcBg (pc : Command) (g : Globals) : JobProg Globals :=
  match pc.pa.params with
  | _ :: _ :: _ => pure (g.printError "bg : Too many arguments\n")
  | [] => do
    let job ← searchJob (fun f => f.runStatus = .STOPPED) g.head
    continueJob killError job g
  | [word] => do
    let job ← searchJob (fun f => (f.jobNum : Int) = jobSpec beyond word) g.head
    continueJob killError job g

/-- The loop of `func_kill`. -/
def killLoop : List String → Globals → JobProg Globals
  | [], g => pure g
  | word :: words, g => do
    let job ← searchJob (fun f => (f.jobNum : Int) = jobSpec beyond word) g.head
    if job = 0 then killLoop words g
    else do
      resumeJob job
      setJob job fun f => { f with notified := false }
      let g ← makeJobBackGround killError job true g
      let r ← signalJob killError job .SIGTERM g
      if r.1 then killLoop words r.2 else pure r.2

/-- `func_kill(pc)` -/
def funcKill (pc : Command) (g : Globals) : JobProg Globals :=
  match pc.pa.params with
  | [] => pure (g.printError "kill : Too few arguments\n")
  | words => killLoop killError beyond words g

end

section
variable (strsignal : Nat → String)

/-- `PrintInfoJobs(job)`, as what it prints. -/
def printInfoJobs (job : Ptr) : JobProg (List String) := do
  let f ← loadJob job
  let number := "[" ++ toString f.jobNum ++ "] "
  match f.runStatus with
  | .RUNNING => pure [number ++ "Running\n"]
  | .STOPPED => do
    let name ← loadText f.jobName
    pure [number ++ name ++ " " ++ strsignal f.status.wstopsig ++ "\n"]
  | .COMPLETED => do
    let name ← loadText f.jobName
    match f.status with
    | .signaled sig core =>
      pure [number ++ name ++ " " ++ strsignal sig, if core then " (Core Dumped)\n" else "\n"]
    | status => pure [number ++ name ++ " Exit " ++ toString status.wstopsig ++ "\n"]

/-- `DisplayActiveJobs`, to a depth of calls. -/
def displayActiveJobsUpTo : Nat → Ptr → JobProg (List String)
  | 0, _ => failure
  | n + 1, job =>
    if job = 0 then pure []
    else do
      let f ← loadJob job
      let before ← displayActiveJobsUpTo n f.next
      let f ← loadJob job
      if f.foreground = false then do
        let texts ← printInfoJobs strsignal job
        pure (before ++ texts)
      else pure before

/-- `DisplayActiveJobs(job_head)`, as what it prints. -/
def displayActiveJobs (job : Ptr) : JobProg (List String) := do
  let n ← size
  displayActiveJobsUpTo strsignal (n + 1) job

end

/-- `ExecuteBuiltInComds(pc)`; `none` is returned when the wait of `fg` does not end. -/
def executeBuiltInComds (killError : Nat → Option String) (beyond : List Char)
    (strsignal : Nat → String) (pc : Command) (es : List StatusEvent) (childLeft : Bool)
    (g : Globals) : JobProg (Option Ret × Globals) :=
  if pc.zCmd ∈ ["cd", "alias", "unalias", "setenv", "unsetenv"] then pure (some .SUCCESS, g)
  else if pc.zCmd = "bg" then do
    let g ← funcBg killError beyond pc g
    pure (some .SUCCESS, g)
  else if pc.zCmd = "fg" then do
    let r ← funcFg killError beyond pc es childLeft g
    pure (if r.1 then some .SUCCESS else none, r.2)
  else if pc.zCmd = "jobs" then do
    let texts ← displayActiveJobs strsignal g.head
    pure (some .SUCCESS, { g with out := g.out ++ texts })
  else if pc.zCmd = "kill" then do
    let g ← funcKill killError beyond pc g
    pure (some .SUCCESS, g)
  else if pc.zCmd = "quit" then pure (some .QUIT, g)
  else pure (some .FAIL, g)

/-! ### Notification -/

/-- The first loop of `func_JobNotification`. -/
def recordAvailable (head : Ptr) : List StatusEvent → JobProg Unit
  | [] => do
    let _ ← updatedProcessStatus noChild head
  | e :: es => do
    match ← updatedProcessStatus e head with
    | .SUCCESS => recordAvailable head es
    | _ => pure ()

/-- What `func_JobNotification` prints of a job that is completed. -/
def announceDone (job : Ptr) (g : Globals) : JobProg Globals := do
  let f ← loadJob job
  if f.foreground = false ∧ f.notified = false then do
    let f ← loadJob job
    let name ← loadText f.jobName
    pure (g.print ("[" ++ toString f.jobNum ++ "] done " ++ name ++ "\n"))
  else pure g

/-- `if (last != NULL) last->next = next; else job_head = next;` -/
def unlinkJob (last next : Ptr) (g : Globals) : JobProg Globals :=
  if last ≠ 0 then do
    setJob last fun f => { f with next := next }
    pure g
  else pure { g with head := next }

/-- The second loop of `func_JobNotification`, from a turn on, with `last` and `job`. -/
def sweepLoop : Nat → Ptr → Ptr → Globals → JobProg Globals
  | 0, _, _, _ => failure
  | n + 1, last, job, g =>
    if job = 0 then pure g
    else do
      let next ← nextJob job
      match ← updatedJobStatus job with
      | .COMPLETED => do
        let g ← announceDone job g
        let g ← unlinkJob last next g
        allocJobMem job
        sweepLoop n last next g
      | .STOPPED => do
        let f ← loadJob job
        let g := if f.foreground = false ∧ f.notified = false then
            g.print ("[" ++ toString f.jobNum ++ "] stopped\n") else g
        setJob job fun f => { f with notified := true }
        sweepLoop n job next g
      | .RUNNING => sweepLoop n job next g

/-- `func_JobNotification()` -/
def funcJobNotification (es : List StatusEvent) (g : Globals) : JobProg Globals := do
  recordAvailable g.head es
  let n ← size
  let g ← sweepLoop (n + 1) 0 g.head g
  pure { g with numJobs := if g.head = 0 then 0 else g.numJobs }

/-! ### Commands -/

variable (M : Allocator)

/-- `EnvGetVars`, on the environment as a list, and the pointers in `env_vars`. -/
def envGetVars : List (String × String) → JobProg (List Ptr)
  | [] => pure []
  | (key, value) :: env => do
    let p ← malloc M (.chars "")
    strcpy p key
    strcat p "="
    -- `strcpy(val, UnixEnv[i].value)` into an array on the stack
    assert (fitsWord value = true)
    strcat p value
    let ps ← envGetVars env
    pure (p :: ps)

/-- The loop at the end of `ExecCommand` that frees them. -/
def freeVars : List Ptr → JobProg Unit
  | [] => pure ()
  | p :: ps => do
    whenNonNull p (free p)
    freeVars ps

/-- The allocation of a job in `ExecCommand`, with its name. -/
def createJob (pc : Command) (g : Globals) : JobProg (Ptr × Globals) := do
  let job ← malloc M (.job {})
  setJob job fun f => { f with jobNum := g.numJobs + 1 }
  let name ← malloc M (.chars "")
  setJob job fun f => { f with jobName := name }
  let f ← loadJob job
  strcpy f.jobName pc.zCmd
  setJob job fun f => { f with next := g.head }
  pure (job, { g with head := job, numJobs := g.numJobs + 1 })

/-- The part of `ExecCommand` after a `fork` that puts the child in the group of the job. -/
def joinGroup (job : Ptr) (pid : Int) : JobProg Unit := do
  let f ← loadJob job
  whenTrue (f.processGroupId = 0) (setJob job fun f => { f with processGroupId := pid })
  -- `setpgid(process_id, job->process_group_id)`
  let _ ← loadJob job

/-- What `ExecCommand` does in the shell after a `fork`. -/
def recordChild (interactive : Bool) (job : Ptr) (pid : Int) : JobProg Unit := do
  let p ← malloc M (.process { processId := 0, next := 0 })
  setProcess p fun f => { f with processId := pid }
  let f ← loadJob job
  let tmp := f.process
  setJob job fun f => { f with process := p }
  let f ← loadJob job
  setProcess f.process fun f => { f with next := tmp }
  whenTrue interactive (joinGroup job pid)

/-- The fork loop of `ExecCommand` for these results of `fork`; false when one fails. -/
def forkLoop (interactive : Bool) (job : Ptr) : List Int → JobProg Bool
  | [] => pure true
  | pid :: pids => do
    -- `job->process_group_id`, an argument of `ExecProcess`
    let _ ← loadJob job
    if pid < 0 then pure false
    else do
      recordChild M interactive job pid
      forkLoop interactive job pids

/-- The end of `ExecCommand`. -/
def awaitJob (interactive : Bool) (pc : Command) (sys : Answers) (job : Ptr) (g : Globals) :
    JobProg (Bool × Globals) :=
  if interactive = false then do
    let returned ← waitWhile (execCommandCond job g.head) sys.childLeft sys.events
    pure (returned, g)
  else if pc.fBackground = false then do
    setJob job fun f => { f with foreground := true }
    makeJobForeGround sys.killError job false sys.events sys.childLeft g
  else do
    setJob job fun f => { f with notified := true }
    -- `tcgetattr(terminal, &job->tmodes)`
    let _ ← loadJob job
    let g ← announceJob job g
    let g ← makeJobBackGround sys.killError job false g
    pure (true, g)

/-- The shell with its globals where `Shell` has the job table. -/
structure ShellGlobals where
  globals : Globals
  kernel : Kernel
  interactive : Bool
  returned : Bool := true

section
variable (A : FdAlloc OpenFile) (beyond : List Char) (strsignal : Nat → String)

/-- The branch of `ExecCommand` for a built-in of the shell. -/
def execInShell (pc : Command) (sys : Answers) (s : ShellGlobals) : JobProg ShellGlobals :=
  match funcIORedirection A sys.openOk pc.prRedirects ⟨-1, -1, 0⟩ s.kernel with
  | (.SUCCESS, _, _) => do
    let r ← executeBuiltInComds sys.killError beyond strsignal pc sys.events sys.childLeft
      s.globals
    pure { s with
      globals := r.2
      kernel := (execBuiltIn A sys.openOk pc.prRedirects .SUCCESS s.kernel).2
      returned := r.1.isSome }
  | (_, _, k) => pure { s with kernel := k }

/-- `ExecCommand` from `performing execve()` on.  The descriptors of the fork loop are those of
    `execCommandFork`. -/
def execForked (env : List (String × String)) (pc : Command) (sys : Answers) (s : ShellGlobals) :
    JobProg ShellGlobals := do
  let envs ← envGetVars M env
  let (job, g) ← createJob M pc s.globals
  let kernel :=
    match execCommandFork A s.interactive sys.outcome sys.uninit s.globals.numJobs pc s.kernel with
    | .error f => f.kernel
    | .ok f => f.kernel
  let forked ← forkLoop M s.interactive job
    ((List.range (stages pc).length).map fun n => (sys.outcome n).pid)
  -- `exit(1)`
  if forked = false then pure { s with globals := g, kernel := kernel, returned := false }
  else do
    let r ← awaitJob s.interactive pc sys job g
    whenTrue r.1 (freeVars envs)
    pure { s with globals := r.2, kernel := kernel, returned := r.1 }

/-- `ExecCommand(pc, interactive)` -/
def execCommand (env : List (String × String)) (pc : Command) (sys : Answers)
    (s : ShellGlobals) : JobProg ShellGlobals :=
  match checkPipelineAmbiguity pc with
  | .error message => pure { s with globals := s.globals.printError message }
  | .ok isPipe =>
    if isPipe = false ∧ pc.fBackground = false ∧ checkBuiltInCommands pc = true then
      execInShell A beyond strsignal pc sys s
    else execForked M A env pc sys s

end

/-- The loop at the end of `main`. -/
def freeJobs : Nat → Globals → JobProg Globals
  | 0, _ => failure
  | n + 1, g =>
    if g.head = 0 then pure g
    else do
      let job := g.head
      let next ← nextJob job
      allocJobMem job
      freeJobs n { g with head := next }

/-- The end of `main`. -/
def freeTable (g : Globals) : JobProg Globals := do
  let n ← size
  freeJobs (n + 1) g

end OSPortfolio.Ish.OnHeap
