import OSPortfolio.Lib.ProcessGroups
import OSPortfolio.Lib.Run
import OSPortfolio.Ish.ExecCommand

namespace OSPortfolio.Ish

open OSPortfolio.ProcessGroups OSPortfolio.Lts

/-!
# The shell, its children and the terminal

An interactive shell and the children it forks run side by side.  Both sides put a child in the
process group of its job, and both give the terminal to that group, in whatever order they come
to it; signals may stop, continue and end a child in between.

* `Phase`, `Launched` — how far a child has come in `ExecProcess`;
* `ShellPc`, `TerminalState` — where the shell is, its job table, and the session;
* `shellEvent` — the shell, from one system call to the next: `func_JobNotification`, the fork
  loop of `ExecCommand` and `MakeJobForeGround`;
* `childEvent` — a child, up to its program; `terminalEvent`, `TerminalStep` — all of it;
* `funcFg_eq` — `func_fg`, cut in two where `MakeJobForeGround` begins.

Behind `ExecProcess` a child runs a program or a built-in, and may call `tcsetpgrp` again: the
built-in `fg` of a child does.  That its program moves it to another group or session is left out,
and so are the terminal modes.
-/

/-! ### State -/

/-- Where a child is in `ExecProcess`. -/
inductive Phase
  /-- in front of `setpgid` -/
  | forked
  /-- in front of `tcsetpgrp` -/
  | grouped
  /-- in front of the calls `signal(.., SIG_DFL)` -/
  | holding
  /-- behind them -/
  | started
  deriving DecidableEq

/-- The arguments `pgid` and `background` of `ExecProcess`, and where the child is.  `first` is
    the model's own: the pid of the process that was forked first for the job. -/
structure Launched where
  pgid : Int
  background : Bool
  first : Int
  phase : Phase := .forked
  deriving DecidableEq

/-- Where the shell is. -/
inductive ShellPc
  /-- between commands, and while it reads a line -/
  | ready
  /-- in the first loop of `func_JobNotification` -/
  | notifying
  /-- at the head of the fork loop, with the stages that are left -/
  | forking (rest : List Command) (background : Bool)
  /-- behind `fork`, in the shell -/
  | recording (pid : Int) (rest : List Command) (background : Bool)
  /-- at the call `MakeJobForeGround(job, cont)` for the job at this position -/
  | giving (i : Nat) (cont : Bool)
  /-- at `waitpid` in `MakeJobForeGround` -/
  | waiting (i : Nat)
  /-- behind the loop of `MakeJobForeGround` -/
  | taking
  | exited

/-- The shell with its children; `session.leader` is `pid_terminal`. -/
structure TerminalState where
  ctl : JobControl
  session : Session Launched WaitStatus
  pc : ShellPc

/-! ### The shell -/

/-- `func_fg(pc)` up to `MakeJobForeGround`, and the job that it is called with. -/
def funcFgSelect (beyond : List Char) (pc : Command) (s : JobControl) : Option Nat × JobControl :=
  match pc.pa.params with
  | [] => (none, s.printError "fg : Too few arguments\n")
  | _ :: _ :: _ => (none, s.printError "fg : Too many arguments\n")
  | [word] =>
    match findJob (jobSpec beyond word) s.jobs with
    | none => (none, s.printError "fg : No job with the specified id found.\n")
    | some i =>
      let s := (resumeAt i s).modifyJob i (fun job => { job with notified := true })
      (some i, s.print (((s.jobs[i]?).elim "" Job.jobName) ++ "\n"))

/-- `func_fg` selects a job, and `MakeJobForeGround` does the rest. -/
theorem funcFg_eq (killError : Nat → Option String) (beyond : List Char) (pc : Command)
    (es : List StatusEvent) (childLeft : Bool) (s : JobControl) :
    funcFg killError beyond pc es childLeft s =
      match funcFgSelect beyond pc s with
      | (none, s) => (true, s)
      | (some i, s) => makeJobForeGround killError i true es childLeft s := by
  rcases hparams : pc.pa.params with _ | ⟨word, _ | ⟨_, _⟩⟩
  · simp only [funcFg, funcFgSelect, hparams]
  · simp only [funcFg, funcFgSelect, hparams]
    cases findJob (jobSpec beyond word) s.jobs <;> rfl
  · simp only [funcFg, funcFgSelect, hparams]

/-- What happens.  A `kill` that fails, a built-in whose redirections fail, and a `setpgid` that
    comes after the child has executed its program, are answers of the system. -/
inductive TerminalEvent
  | prompt
  | poll (pid : Int)
  | polled
  | exec (pc : Command) (openOk : Bool) (killError : Nat → Option String)
  | fork (pid : Int)
  | forkFailed
  | record (executed : Bool)
  | launched
  | give (killError : Nat → Option String)
  | wait (pid : Int)
  | waitNone
  | take
  | child (pid : Int)
  | stop (pid : Int) (sig : Nat)
  | continued (pid : Int)
  | exit (pid : Int) (status : WaitStatus)
  | tcsetpgrp (pid pgid : Int)

section
variable (beyond : List Char) (strsignal : Nat → String)

/-- `ExecCommand(pc, 1)` up to its first fork, or to `MakeJobForeGround` of `fg`, or its end. -/
def execStart (pc : Command) (openOk : Bool) (killError : Nat → Option String)
    (s : TerminalState) : TerminalState :=
  match checkPipelineAmbiguity pc with
  | .error message => { s with ctl := s.ctl.printError message }
  | .ok isPipe =>
    if isPipe = false ∧ pc.fBackground = false ∧ checkBuiltInCommands pc = true then
      if openOk = false then s
      else if pc.zCmd = "fg" then
        match funcFgSelect beyond pc s.ctl with
        | (none, ctl) => { s with ctl := ctl }
        | (some i, ctl) => { s with ctl := ctl, pc := .giving i true }
      else
        match executeBuiltInComds killError beyond strsignal pc [] false s.ctl with
        | (some .QUIT, ctl) => { s with ctl := ctl, pc := .exited }
        | (_, ctl) => { s with ctl := ctl }
    else
      { s with
        ctl := addJob (newJob s.ctl.numJobs pc) s.ctl
        pc := .forking (stages pc) pc.fBackground }

/-- The sweep of `func_JobNotification`. -/
def sweepJobs (s : TerminalState) : TerminalState :=
  { s with ctl := funcJobNotification [] s.ctl, pc := .ready }

/-- `job->process_group_id` for the job at this position. -/
def groupAt (i : Nat) (jobs : List Job) : Int := (jobs[i]?.map Job.processGroupId).getD 0

/-- The process that was forked first for the job at the head of the table. -/
def firstForked (jobs : List Job) : Option Int :=
  (jobs[0]?.bind fun job => job.process.getLast?).map Process.processId

/-- A child as `fork` leaves it, for the job at the head of the table. -/
def launchedChild (pid : Int) (background : Bool) (jobs : List Job) : Launched :=
  { pgid := groupAt 0 jobs
    background := background
    first := (firstForked jobs).getD pid }

/-- The shell, up to its next system call that the children or the kernel have a part in. -/
def shellEvent (s : TerminalState) : TerminalEvent → Option TerminalState
  | .prompt =>
    match s.pc with
    | .ready => some { s with pc := .notifying }
    | _ => none
  | .poll pid =>
    match s.pc with
    | .notifying => (s.session.waitpid WaitStatus.wifstopped pid).map fun r =>
      match updatedProcessStatus ⟨pid, r.1⟩ s.ctl.jobs with
      | (.SUCCESS, jobs) =>
        { s with
          ctl := { s.ctl with jobs := jobs, log := s.ctl.log ++ [.recorded ⟨pid, r.1⟩] }
          session := r.2 }
      | (_, jobs) => sweepJobs { s with ctl := { s.ctl with jobs := jobs }, session := r.2 }
    | _ => none
  | .polled =>
    match s.pc with
    | .notifying =>
      -- `waitpid` returns 0 or -1
      if ∀ p ∈ s.session.procs, p.pending = none then some (sweepJobs s) else none
    | _ => none
  | .exec pc openOk killError =>
    match s.pc with
    | .ready => some (execStart beyond strsignal pc openOk killError s)
    | _ => none
  | .fork pid =>
    match s.pc with
    | .forking (_ :: rest) background =>
      if s.session.Fresh pid then
        some { s with
          session := s.session.fork pid (launchedChild pid background s.ctl.jobs)
          pc := .recording pid rest background }
      else none
    | _ => none
  | .forkFailed =>
    match s.pc with
    | .forking (_ :: _) _ => some { s with pc := .exited }
    | _ => none
  | .record executed =>
    match s.pc with
    | .recording pid rest background =>
      let ctl := s.ctl.modifyJob 0 (recordChild true pid)
      if executed then
        if (s.session.find pid).any (·.data.phase = .started) then
          some { s with ctl := ctl, pc := .forking rest background }
        else none
      else
        some
          { ctl := ctl
            session := s.session.setpgid pid (groupAt 0 ctl.jobs)
            pc := .forking rest background }
    | _ => none
  | .launched =>
    match s.pc with
    | .forking [] false =>
      some { s with
        ctl := s.ctl.modifyJob 0 fun job => { job with foreground := true }
        pc := .giving 0 false }
    | .forking [] true =>
      some { s with
        ctl := makeJobBackGround (fun _ => none) 0 false
          (announceJob 0 (s.ctl.modifyJob 0 fun job => { job with notified := true }))
        pc := .ready }
    | _ => none
  | .give killError =>
    match s.pc with
    | .giving i cont =>
      let ctl := s.ctl.modifyJob i fun job => { job with foreground := true }
      some
        { ctl := if cont then (signalJob killError i .SIGCONT ctl).2 else ctl
          session := s.session.tcsetpgrp (groupAt i s.ctl.jobs)
          pc := .waiting i }
    | _ => none
  | .wait pid =>
    match s.pc with
    | .waiting i => (s.session.waitpid WaitStatus.wifstopped pid).map fun r =>
      match makeJobForeGroundCond i ⟨pid, r.1⟩ s.ctl.jobs with
      | (true, jobs) =>
        { s with
          ctl := { s.ctl with jobs := jobs, log := s.ctl.log ++ [.recorded ⟨pid, r.1⟩] }
          session := r.2 }
      | (false, jobs) => { ctl := { s.ctl with jobs := jobs }, session := r.2, pc := .taking }
    | _ => none
  | .waitNone =>
    match s.pc with
    | .waiting i =>
      if s.session.procs = [] then
        some { s with
          ctl := { s.ctl with jobs := (makeJobForeGroundCond i noChild s.ctl.jobs).2 }
          pc := .taking }
      else none
    | _ => none
  | .take =>
    match s.pc with
    | .taking => some { s with session := s.session.tcsetpgrp s.session.leader, pc := .ready }
    | _ => none
  | _ => none

/-! ### The children -/

/-- A call of a child that runs, up to its program or built-in; what these call is an event of its
    own. -/
def childCall (S : Session Launched WaitStatus) (p : Proc Launched WaitStatus) :
    Option (Session Launched WaitStatus) :=
  match p.data.phase with
  | .forked =>
    let pgid := if p.data.pgid = 0 then p.pid else p.data.pgid
    some ((S.setpgid p.pid pgid).update p.pid fun p =>
      { p with data := { p.data with pgid := pgid, phase := .grouped } })
  | .grouped =>
    -- `SIGTTOU` is ignored, so a process in the background is not stopped here
    let S := if p.data.background then S else S.tcsetpgrp p.data.pgid
    some (S.update p.pid fun p => { p with data := { p.data with phase := .holding } })
  | .holding => some (S.update p.pid fun p => { p with data := { p.data with phase := .started } })
  | .started => none

/-- `SIGSTOP`, the stop signal that cannot be ignored. -/
def SIGSTOP : Nat := 19

/-- A child, a signal or the end of one. -/
def childEvent (S : Session Launched WaitStatus) :
    TerminalEvent → Option (Session Launched WaitStatus)
  | .child pid => (S.find pid).bind fun p =>
    if p.stopped ∨ p.exited then none else childCall S p
  | .stop pid sig => (S.find pid).bind fun p =>
    if p.exited then none
    -- the shell ignores the other stop signals, and a child does until it has started
    else if sig ≠ SIGSTOP ∧ p.data.phase ≠ .started then some S
    else some (S.stop pid (.stopped sig))
  | .continued pid => (S.find pid).bind fun p =>
    if p.exited then none else some (S.continued pid WaitStatus.wifstopped)
  | .exit pid status => (S.find pid).bind fun p =>
    if p.exited ∨ status.wifstopped then none else some (S.exit pid status)
  -- `MakeJobForeGround` of a built-in `fg`, or a program; `SIGTTOU` has its default action again,
  -- so the call has no effect in the background
  | .tcsetpgrp pid pgid => (S.find pid).bind fun p =>
    if p.stopped ∨ p.exited ∨ p.data.phase ≠ .started then none
    else if p.group = S.foreground then some (S.tcsetpgrp pgid)
    else some S
  | _ => none

/-- One step of the shell or of a child. -/
def terminalEvent (s : TerminalState) (e : TerminalEvent) : Option TerminalState :=
  match shellEvent beyond strsignal s e with
  | some t => some t
  | none => (childEvent s.session e).map fun S => { s with session := S }

/-- `terminalEvent` as a relation. -/
def TerminalStep (s : TerminalState) (e : TerminalEvent) (t : TerminalState) : Prop :=
  terminalEvent beyond strsignal s e = some t

end

end OSPortfolio.Ish
