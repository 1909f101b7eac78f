import OSPortfolio.Lib.Run
import OSPortfolio.Ish.JobMoves

namespace OSPortfolio.Ish

open OSPortfolio.Posix OSPortfolio.Lts

/-!
# The process groups of jobs

`fg`, `bg` and `kill` signal a job through `kill(-job->process_group_id, ..)`, which is meant
to be the process group of the job.  `ExecCommand` sets the field in one place only, in an
interactive shell and after the first `fork`.

* `ShellState` — the shell over a whole run, with how each job of its table was launched and
  every signal sent so far;
* `ShellStep` — one step of a run: a command, a notification, or the step from the start-up
  file to the terminal;
* `GroupOk` — a signal goes to the job it is meant for, and not to the shell's own group;
* `Grouped` — the invariant: what the field holds for each job of the table;
* `signals_iff` — in every run, a signal is right exactly when its job was launched while the
  shell was interactive, and the call is not made by the first child of that very job.
-/

/-! ### Runs of the shell -/

/-- How a job was launched: in an interactive shell or not, and the pid of the process that
    was forked first for it. -/
structure Born where
  interactive : Bool
  first : Int

/-- What `ExecCommand` leaves in `process_group_id` of such a job. -/
def Born.group (b : Born) : Int := if b.interactive then b.first else 0

/-- A call of `kill`, with how its job was launched, whether the caller is the first child of
    that very job, and the process groups of the caller and of the shell at that time. -/
structure Signalled where
  call : KillCall
  born : Born
  byFirstChild : Bool
  callerGroup : Int
  shellGroup : Int

/-- The process group `g` gets the signal of `kill(pid, sig)`, called from the group
    `caller`: for -1 every process does. -/
def GroupSignalled (caller pid g : Int) : Prop :=
  pid = 0 ∧ g = caller ∨ pid = -1 ∨ pid < -1 ∧ g = -pid

/-- The group id in the call is not 0 and is the pid of the first process forked for the job,
    and the shell's own group gets no signal. -/
structure GroupOk (g : Signalled) : Prop where
  nonzero : g.call.pid ≠ 0
  first : -g.call.pid = g.born.first
  notShell : ¬ GroupSignalled g.callerGroup g.call.pid g.shellGroup

/-- The shell over a whole run.  `born` lists how the jobs of the table were launched, in the
    order of the table; the shell itself does not have this list, nor `signals`. -/
structure ShellState where
  shell : Shell
  returned : Bool := true
  born : List Born := []
  signals : List Signalled := []

/-- One step: `main` turns from `.ishrc` to a terminal, `processCommands` looks for finished
    jobs, or it executes a command. -/
inductive ShellAction
  | terminal
  | notify (es : List StatusEvent)
  | exec (pc : Command) (sys : Answers)

section
variable (A : FdAlloc OpenFile) (beyond : List Char) (strsignal : Nat → String)
  -- the process group of the shell, by mode: `main` makes a group of its own for a terminal
  (shellGroup : Bool → Int)

/-- The calls of `kill` in `kills` by the shell itself. -/
def shellSignals (interactive : Bool) (born : List Born) (kills : List KillCall) :
    List Signalled :=
  kills.map fun call =>
    -- `slot` is always a position of the table, so the default is never read
    { call := call, born := born.getD call.slot ⟨false, 0⟩, byFirstChild := false
      callerGroup := shellGroup interactive, shellGroup := shellGroup interactive }

/-- The process group of a child: `ExecProcess` calls `setpgid` in an interactive shell. -/
def Child.group (interactive : Bool) (c : Child) : Int :=
  if interactive then (if c.pgid = 0 then c.pid else c.pgid) else shellGroup interactive

/-- The calls of `kill` made by the `n`th child, whose table has the new job in front. -/
def childSignals (sys : Answers) (s : Shell) (born : List Born) (n : Nat) (c : Child) :
    List Signalled :=
  ((subshell A beyond strsignal sys s n c).elim []
      fun ctl => ctl.kills.drop s.ctl.kills.length).map fun call =>
    { call := call, born := born.getD call.slot ⟨false, 0⟩
      byFirstChild := call.slot = 0 && n = 0
      callerGroup := c.group shellGroup s.interactive, shellGroup := shellGroup s.interactive }

/-- Drop the entries of the jobs that the sweep of `func_JobNotification` removes. -/
def sweepBorn (jobs : List Job) (born : List Born) : List Born :=
  (jobs.zip born).filterMap fun (job, b) => if (sweepJob job).2.isSome then some b else none

/-- The state after a step. -/
def ShellAction.run : ShellAction → ShellState → ShellState
  | .terminal, s => { s with shell := { s.shell with interactive := true } }
  | .notify es, s =>
    { s with
      shell := { s.shell with ctl := funcJobNotification es s.shell.ctl }
      born := sweepBorn (recordAvailable es s.shell.ctl).jobs s.born }
  | .exec pc sys, s =>
    let r := execCommand A beyond strsignal pc sys s.shell
    let launched : Born := ⟨s.shell.interactive, (sys.outcome 0).pid⟩
    let own := shellSignals shellGroup s.shell.interactive s.born
      (r.shell.ctl.kills.drop s.shell.ctl.kills.length)
    let below := (r.children.zipIdx.flatMap fun (c, n) =>
      childSignals A beyond strsignal shellGroup sys s.shell (launched :: s.born) n c)
    { shell := r.shell
      returned := r.ret.isSome
      born := if r.children = [] then s.born else launched :: s.born
      signals := s.signals ++ own ++ below }

/-- What a step needs.  A pid that `fork` returns is not that of `init`, nor the process
    group of the shell; the command is one of the parser's; only an interactive shell looks
    for finished jobs. -/
def ShellAction.Enabled : ShellAction → ShellState → Prop
  | .terminal, _ => True
  | .notify _, s => s.shell.interactive = true
  | .exec pc sys, s => pc ≠ .null ∧ ∀ n, 0 < (sys.outcome n).pid →
      1 < (sys.outcome n).pid ∧ (sys.outcome n).pid ≠ shellGroup s.shell.interactive

/-- A step of a run; a shell that has exited or waits for ever takes none. -/
def ShellStep (s : ShellState) (a : ShellAction) (s' : ShellState) : Prop :=
  s.returned = true ∧ a.Enabled shellGroup s ∧ s' = a.run A beyond strsignal shellGroup s

/-- The shell as `main` starts it, with the descriptors `k`. -/
def shellStart (k : Kernel) : ShellState :=
  { shell := { ctl := { jobs := [], numJobs := 0 }, kernel := k, interactive := false } }

end

/-! ### What the small steps keep -/

/-- The field `process_group_id` of each job. -/
def groupIds (jobs : List Job) : List Int := jobs.map Job.processGroupId

/-- Between `s` and `s'`, each call of `kill` was for a job of `s`, with its field. -/
def KillsByGroup (s s' : JobControl) : Prop :=
  ∃ new, s'.kills = s.kills ++ new ∧
    ∀ call ∈ new, (groupIds s.jobs)[call.slot]? = some call.job.processGroupId

/-- Nothing is signalled. -/
theorem KillsByGroup.ofEq {s s' : JobControl} (h : s'.kills = s.kills) : KillsByGroup s s' :=
  ⟨[], by simp [h], by simp⟩

/-- A function keeps the field of every job, and passes the field of a job of the table to
    each `kill` it calls. -/
structure KeepsGroups (s s' : JobControl) : Prop where
  groups : groupIds s'.jobs = groupIds s.jobs
  kills : KillsByGroup s s'

/-- Neither groups nor signals change. -/
theorem KeepsGroups.ofJobs {s s' : JobControl} (hgroups : groupIds s'.jobs = groupIds s.jobs)
    (hkills : s'.kills = s.kills) : KeepsGroups s s' :=
  ⟨hgroups, .ofEq hkills⟩

/-- One step after the other. -/
theorem KeepsGroups.trans {s t u : JobControl} (h₁ : KeepsGroups s t) (h₂ : KeepsGroups t u) :
    KeepsGroups s u := by
  obtain ⟨hgroups, new, hkills, hnew⟩ := h₁
  obtain ⟨hgroups', new', hkills', hnew'⟩ := h₂
  refine ⟨hgroups'.trans hgroups, new ++ new', by rw [hkills', hkills, List.append_assoc], ?_⟩
  intro call hcall
  rcases List.mem_append.mp hcall with hcall | hcall
  · exact hnew call hcall
  -- the later calls see the fields of `t`, which are those of `s`
  · rw [← hgroups]
    exact hnew' call hcall

/-- One small step. -/
theorem Touch.keepsGroups {s s' : JobControl} (h : Touch s s') : KeepsGroups s s' := by
  refine ⟨h.map_jobs (fun _ _ hmark => hmark.processGroupId) (fun _ _ => rfl), ?_⟩
  cases h with
  | kill i job sig hjob =>
    refine ⟨[⟨i, job, sig⟩], rfl, ?_⟩
    intro call hcall
    obtain rfl := List.mem_singleton.mp hcall
    simp [groupIds, hjob]
  | text | mark | resume | record => exact .ofEq rfl

/-- A step that only marks keeps the groups. -/
theorem Touches.keepsGroups {s s' : JobControl} (h : Touches s s') : KeepsGroups s s' := by
  induction h with
  | refl => exact .ofJobs rfl rfl
  | tail _ hstep ih => exact ih.trans hstep.keepsGroups

/-- The sweep of `func_JobNotification` keeps the field of the jobs that stay. -/
theorem groupIds_sweep (jobs : List Job) (born : List Born)
    (h : groupIds jobs = born.map Born.group) :
    groupIds (jobs.filterMap fun job => (sweepJob job).2) =
      (sweepBorn jobs born).map Born.group := by
  have heq : ∀ (jobs : List Job) (born : List Born), groupIds jobs = born.map Born.group ↔
      List.Forall₂ (fun job b => job.processGroupId = b.group) jobs born := by
    intro jobs born
    rw [groupIds, ← List.forall₂_eq_eq_eq, List.forall₂_map_left_iff, List.forall₂_map_right_iff]
  rw [heq] at h ⊢
  refine forall₂_sweepAlong ?_ h
  intro job job' b hjob hsweep
  exact (sweepJob_marked hsweep).processGroupId.trans hjob

/-- The sweep brings no job into being. -/
theorem mem_of_mem_sweepBorn {jobs : List Job} {born : List Born} {b : Born}
    (h : b ∈ sweepBorn jobs born) : b ∈ born :=
  (sweepAlong_sublist jobs born).subset h

/-! ### The fork loop -/

section
variable {A : FdAlloc OpenFile} {interactive : Bool} {outcome : Nat → Outcome}

/-- The field of the new job after `n` children. -/
def groupAfter (interactive : Bool) (outcome : Nat → Outcome) (n : Nat) : Int :=
  if interactive = true ∧ 0 < n then (outcome 0).pid else 0

/-- The field of the new job, and of the copies of the job that the children got. -/
structure LoopGroups (interactive : Bool) (outcome : Nat → Outcome) (s : ForkState) : Prop where
  job : s.job.processGroupId = groupAfter interactive outcome s.children.length
  child : ∀ n c, s.children[n]? = some c →
    c.job.processGroupId = groupAfter interactive outcome n
  first : s.children ≠ [] → 0 < (outcome 0).pid

/-- The group of a job behind one child more. -/
theorem recordChild_processGroupId {n : Nat} {job : Job}
    (h : job.processGroupId = groupAfter interactive outcome n) :
    (recordChild interactive (outcome n).pid job).processGroupId =
      groupAfter interactive outcome (n + 1) := by
  unfold recordChild groupAfter
  rw [h, groupAfter]
  have hne := (outcome 0).pid_ne_zero
  cases interactive with
  | false => simp
  | true =>
    -- the field is set after the first `fork` and then is not 0 any more
    cases n with
    | zero => simp
    | succ n => simp [hne]

/-- **A turn of the fork loop.** -/
theorem LoopGroups.step {s s' : ForkState} {pc : Command}
    (hinv : LoopGroups interactive outcome s)
    (h : forkStage A interactive outcome s pc = .ok s') : LoopGroups interactive outcome s' := by
  obtain ⟨c, hpid, hpos, -, hjob, hchildren, hjob'⟩ := forkStage_ok h
  rw [hpid] at hjob' hpos
  refine ⟨?_, ?_, ?_⟩
  · rw [hjob', hchildren, List.length_append]
    exact recordChild_processGroupId hinv.job
  · intro n c' hc'
    rw [hchildren, List.getElem?_append] at hc'
    split at hc'
    · exact hinv.child n c' hc'
    · -- the new child got the job as it was before the turn
      rename_i hn
      obtain ⟨hlt, heq⟩ := List.getElem?_eq_some_iff.mp hc'
      rw [List.length_singleton] at hlt
      obtain rfl : n = s.children.length := by omega
      simp only [Nat.sub_self, List.getElem_cons_zero] at heq
      rw [← heq, hjob]
      exact hinv.job
  · intro _
    by_cases hnil : s.children = []
    · simpa [hnil] using hpos
    · exact hinv.first hnil

/-- The fork loop begins without a child. -/
theorem loopGroups_forkStart (uninit : Int × Int) (numJobs : Nat) (pc : Command) (k : Kernel) :
    LoopGroups interactive outcome (forkStart uninit numJobs pc k) :=
  ⟨by simp [forkStart, newJob, groupAfter], by simp [forkStart], by simp [forkStart]⟩

end

/-! ### The invariant -/

section
variable (A : FdAlloc OpenFile) (beyond : List Char) (strsignal : Nat → String)
  (shellGroup : Bool → Int)

/-- The signal is right exactly when its job was launched while the shell was interactive,
    and the call is not made by the first child of that very job. -/
def AsExpected (g : Signalled) : Prop :=
  GroupOk g ↔ g.born.interactive = true ∧ g.byFirstChild = false

/-- The first process of a job is not `init`, and for a job launched while the shell is
    interactive it is none of the shell's own group, which the shell then keeps. -/
def Born.Fresh (interactive : Bool) (b : Born) : Prop :=
  1 < b.first ∧ (b.interactive = true → interactive = true ∧ b.first ≠ shellGroup true)

/-- What holds of a run: the field of each job is what its launch says, and every signal is
    as expected. -/
structure Grouped (s : ShellState) : Prop where
  groups : s.returned = true → groupIds s.shell.ctl.jobs = s.born.map Born.group
  fresh : s.returned = true → ∀ b ∈ s.born, b.Fresh shellGroup s.shell.interactive
  signals : ∀ g ∈ s.signals, AsExpected g

variable {shellGroup}

/-- A call whose argument is the first pid of a job launched by an interactive shell, and 0
    otherwise. -/
theorem asExpected_of_group {g : Signalled} {interactive : Bool}
    (hgroup : g.call.job.processGroupId =
      if g.born.interactive = true ∧ g.byFirstChild = false then g.born.first else 0)
    (hshell : g.shellGroup = shellGroup interactive)
    (hfresh : g.born.Fresh shellGroup interactive) : AsExpected g := by
  obtain ⟨hpos, hother⟩ := hfresh
  unfold AsExpected
  -- the field set: a group other than the shell's; the field 0: the caller's own group
  by_cases hcond : g.born.interactive = true ∧ g.byFirstChild = false
  · rw [if_pos hcond] at hgroup
    obtain ⟨rfl, hne⟩ := hother hcond.1
    refine iff_of_true ⟨?_, ?_, ?_⟩ hcond
    · rw [KillCall.pid, hgroup]; omega
    · rw [KillCall.pid, hgroup]; omega
    · rw [GroupSignalled, KillCall.pid, hgroup, hshell]; omega
  · rw [if_neg hcond] at hgroup
    refine iff_of_false (fun hok => hok.nonzero ?_) hcond
    rw [KillCall.pid, hgroup]
    rfl

/-- The launch of a job of the table. -/
theorem born_getD {jobs : List Job} {born : List Born} {interactive : Bool} {i : Nat} {gid : Int}
    (hgroups : groupIds jobs = born.map Born.group)
    (hfresh : ∀ b ∈ born, b.Fresh shellGroup interactive)
    (hi : (groupIds jobs)[i]? = some gid) :
    gid = (born.getD i ⟨false, 0⟩).group ∧
      (born.getD i ⟨false, 0⟩).Fresh shellGroup interactive := by
  rw [hgroups, List.getElem?_map] at hi
  obtain ⟨b, hb, rfl⟩ := Option.map_eq_some_iff.mp hi
  rw [List.getD_eq_getElem?_getD, hb]
  exact ⟨rfl, hfresh b (List.mem_of_getElem? hb)⟩

/-- The signals of a function of the shell. -/
theorem asExpected_shellSignals {s s' : JobControl} {born : List Born} {interactive : Bool}
    (hkills : KillsByGroup s s') (hgroups : groupIds s.jobs = born.map Born.group)
    (hfresh : ∀ b ∈ born, b.Fresh shellGroup interactive) :
    ∀ g ∈ shellSignals shellGroup interactive born (s'.kills.drop s.kills.length),
      AsExpected g := by
  obtain ⟨new, hkills, hnew⟩ := hkills
  rw [hkills, List.drop_left]
  intro g hg
  obtain ⟨call, hcall, rfl⟩ := List.mem_map.mp hg
  obtain ⟨hgid, hfr⟩ := born_getD hgroups hfresh (hnew call hcall)
  exact asExpected_of_group (by simpa [Born.group] using hgid) rfl hfr

/-- The launch of a job of the table of the `n`th child, whose own job stands in front. -/
theorem born_getD_child {jobs : List Job} {born : List Born} {interactive : Bool}
    {outcome : Nat → Outcome} {job : Job} {n i : Nat} {gid : Int}
    (hjob : job.processGroupId = groupAfter interactive outcome n)
    (hgroups : groupIds jobs = born.map Born.group)
    (hfresh : ∀ b ∈ (⟨interactive, (outcome 0).pid⟩ : Born) :: born,
      b.Fresh shellGroup interactive)
    (hi : (groupIds (job :: jobs))[i]? = some gid) :
    let b := ((⟨interactive, (outcome 0).pid⟩ : Born) :: born).getD i ⟨false, 0⟩
    gid = (if b.interactive = true ∧ (i = 0 && n = 0 : Bool) = false then b.first else 0) ∧
      b.Fresh shellGroup interactive := by
  cases i with
  | zero =>
    obtain rfl : job.processGroupId = gid := by simpa [groupIds] using hi
    -- the child's own job: 0 in the first child, as its copy is from before the field was set
    refine ⟨?_, hfresh _ (by simp)⟩
    rw [hjob]
    simp [groupAfter, Nat.pos_iff_ne_zero]
  | succ i =>
    obtain ⟨hgid, hfr⟩ := born_getD hgroups (fun b hb => hfresh b (List.mem_cons_of_mem _ hb)) hi
    exact ⟨by simpa [Born.group] using hgid, hfr⟩

/-- The signals of a child. -/
theorem asExpected_childSignals {sys : Answers} {s : Shell} {born : List Born} {n : Nat}
    {c : Child} (hc : c.job.processGroupId = groupAfter s.interactive sys.outcome n)
    (hgroups : groupIds s.ctl.jobs = born.map Born.group)
    (hfresh : ∀ b ∈ (⟨s.interactive, (sys.outcome 0).pid⟩ : Born) :: born,
      b.Fresh shellGroup s.interactive) :
    ∀ g ∈ childSignals A beyond strsignal shellGroup sys s
        (⟨s.interactive, (sys.outcome 0).pid⟩ :: born) n c, AsExpected g := by
  intro g hg
  unfold childSignals subshell at hg
  cases hstart : c.start A (sys.childOpenOk n) with
  | none => simp [hstart] at hg
  | some k =>
    by_cases hbuiltin : checkBuiltInCommands c.pc = true
    · simp only [hstart, if_pos hbuiltin, Option.elim_some] at hg
      obtain ⟨-, new, hkills, hnew⟩ := (touches_executeBuiltInComds (sys.childKillError n) beyond
        strsignal c.pc [] false (addJob c.job s.ctl)).keepsGroups
      rw [hkills, show (addJob c.job s.ctl).kills = s.ctl.kills from rfl, List.drop_left] at hg
      obtain ⟨call, hcall, rfl⟩ := List.mem_map.mp hg
      obtain ⟨hgid, hfr⟩ := born_getD_child hc hgroups hfresh (hnew call hcall)
      exact asExpected_of_group hgid rfl hfr
    · simp [hstart, if_neg hbuiltin] at hg

/-! ### One command -/

/-- What a call of `ExecCommand` does for the invariant: the calls of `kill` in the shell are
    for jobs of the table before it, the field of a new job is what its launch says, and the
    copy a child got is from before the shell had it set. -/
structure ExecGroups (outcome : Nat → Outcome) (s : Shell) (r : Executed) : Prop where
  interactive : r.shell.interactive = s.interactive
  kills : KillsByGroup s.ctl r.shell.ctl
  groups : r.ret.isSome = true → groupIds r.shell.ctl.jobs =
    if r.children = [] then groupIds s.ctl.jobs
    else Born.group ⟨s.interactive, (outcome 0).pid⟩ :: groupIds s.ctl.jobs
  child : ∀ n c, r.children[n]? = some c →
    c.job.processGroupId = groupAfter s.interactive outcome n
  first : r.children ≠ [] → 0 < (outcome 0).pid

/-- A call that forks no child and changes the job table by small steps. -/
theorem ExecGroups.ofTouches {outcome : Nat → Outcome} {s : Shell} {r : Executed}
    (hint : r.shell.interactive = s.interactive) (hchildren : r.children = [])
    (h : Touches s.ctl r.shell.ctl) : ExecGroups outcome s r where
  interactive := hint
  kills := h.keepsGroups.kills
  groups _ := by rw [if_pos hchildren]; exact h.keepsGroups.groups
  child n c hc := by simp [hchildren] at hc
  first hne := absurd hchildren hne

/-- To announce a job signals nothing. -/
theorem announceJob_kills (i : Nat) (s : JobControl) : (announceJob i s).kills = s.kills := by
  unfold announceJob
  split <;> rfl

/-- After the fork loop the shell calls `kill` for no job. -/
theorem awaitJob_kills (interactive : Bool) (pc : Command) (sys : Answers) (s : JobControl) :
    (awaitJob interactive pc sys s).2.kills = s.kills := by
  unfold awaitJob
  split_ifs
  · rfl
  · rfl
  · exact announceJob_kills 0 _

/-- **`ExecCommand`** gives the new job the group of its first child. -/
theorem execCommand_groups {pc : Command} (hpc : pc ≠ .null) (sys : Answers) (s : Shell) :
    ExecGroups sys.outcome s (execCommand A beyond strsignal pc sys s) := by
  obtain ⟨hok, herror⟩ := @forkLoop_keeps A s.interactive sys.outcome _
    (fun s s' pc hinv hstage => LoopGroups.step hinv hstage) (stages pc) _
    (loopGroups_forkStart sys.uninit s.ctl.numJobs pc s.kernel)
  have hout := execCommand_outcome A beyond strsignal pc sys s
  generalize execCommand A beyond strsignal pc sys s = r, commandWait A beyond pc sys s = w
    at hout ⊢
  cases hout with
  | kept ret err k =>
    exact ⟨rfl, .ofEq rfl, fun _ => by rw [if_pos rfl], fun n c hc => absurd hc (by simp),
      fun hne => absurd rfl hne⟩
  | builtIn k => exact .ofTouches rfl rfl (touches_executeBuiltInComds _ _ _ _ _ _ _)
  | exited f hfork =>
    have hinv := herror f hfork
    exact ⟨rfl, .ofEq rfl, by simp, hinv.child, hinv.first⟩
  | forked f hfork =>
    have hinv := hok f hfork
    have hne : f.children ≠ [] := execCommandFork_children hpc hfork
    have hlen : 0 < f.children.length := List.length_pos_of_ne_nil hne
    refine ⟨rfl, .ofEq (awaitJob_kills _ _ _ _), fun _ => ?_, hinv.child, hinv.first⟩
    rw [if_neg hne]
    refine (touches_awaitJob s.interactive pc sys _).keepsGroups.groups.trans ?_
    show f.job.processGroupId :: groupIds s.ctl.jobs = _
    rw [hinv.job]
    simp [groupAfter, Born.group, hlen]

/-! ### Whole runs -/

/-- **Step lemma.** Every step of a run keeps the invariant. -/
theorem Grouped.step {s s' : ShellState} {a : ShellAction} (hinv : Grouped shellGroup s)
    (h : ShellStep A beyond strsignal shellGroup s a s') : Grouped shellGroup s' := by
  obtain ⟨hret, hen, rfl⟩ := h
  obtain ⟨hgroups, hfresh, hsignals⟩ := hinv
  replace hgroups := hgroups hret
  replace hfresh := hfresh hret
  cases a with
  -- the shell becomes interactive; jobs of the start-up file stay with their field 0
  | terminal =>
    refine ⟨fun _ => hgroups, fun _ b hb => ?_, hsignals⟩
    obtain ⟨hpos, hother⟩ := hfresh b hb
    exact ⟨hpos, fun hb => ⟨rfl, (hother hb).2⟩⟩
  | notify es =>
    have hrec := (touches_recordAvailable es s.shell.ctl).keepsGroups
    refine ⟨fun _ => ?_, fun _ b hb => hfresh b (mem_of_mem_sweepBorn hb), hsignals⟩
    exact groupIds_sweep _ _ (hrec.groups.trans hgroups)
  | exec pc sys =>
    obtain ⟨hpc, hpids⟩ := hen
    have hexec := execCommand_groups A beyond strsignal hpc sys s.shell
    set r := execCommand A beyond strsignal pc sys s.shell with hr
    -- the jobs a child knows are those of the table and its own
    have hlaunched : r.children ≠ [] →
        ∀ b ∈ (⟨s.shell.interactive, (sys.outcome 0).pid⟩ : Born) :: s.born,
          b.Fresh shellGroup s.shell.interactive := by
      intro hne b hb
      rcases List.mem_cons.mp hb with rfl | hb
      · obtain ⟨hpos, hother⟩ := hpids 0 (hexec.first hne)
        refine ⟨hpos, fun hint => ⟨hint, ?_⟩⟩
        rwa [show s.shell.interactive = true from hint] at hother
      · exact hfresh b hb
    refine ⟨fun hr' => ?_, fun _ => ?_, ?_⟩
    · show groupIds r.shell.ctl.jobs =
        (if r.children = [] then s.born else ⟨s.shell.interactive, (sys.outcome 0).pid⟩ ::
          s.born).map Born.group
      rw [hexec.groups hr', hgroups]
      split <;> rfl
    · show ∀ b ∈ (if r.children = [] then s.born
        else (⟨s.shell.interactive, (sys.outcome 0).pid⟩ : Born) :: s.born),
          b.Fresh shellGroup r.shell.interactive
      rw [hexec.interactive]
      split
      · exact hfresh
      · rename_i hne
        exact hlaunched hne
    · intro g hg
      rcases List.mem_append.mp hg with hg | hg
      · rcases List.mem_append.mp hg with hg | hg
        · exact hsignals g hg
        · exact asExpected_shellSignals hexec.kills hgroups hfresh g hg
      · obtain ⟨⟨c, n⟩, hcn, hg⟩ := List.mem_flatMap.mp hg
        have hc : r.children[n]? = some c := List.mem_zipIdx_iff_getElem?.mp hcn
        have hne : r.children ≠ [] := fun hnil => by simp [hnil] at hc
        exact asExpected_childSignals A beyond strsignal (hexec.child n c hc) hgroups
          (hlaunched hne) g hg

/-- **Which signals reach their job.**  In every run of the shell, from the start-up file on,
    a call of `kill` by `fg`, `bg` or `kill` has the pid of the job's first process as its
    process group, and spares the shell's own group, exactly when the job was launched while
    the shell was interactive and the caller is not the first child of that very job. -/
theorem signals_iff {k : Kernel} {as : List ShellAction} {s : ShellState}
    (h : Run (ShellStep A beyond strsignal shellGroup) (shellStart k) as s) :
    ∀ g ∈ s.signals, GroupOk g ↔ g.born.interactive = true ∧ g.byFirstChild = false := by
  have hstart : Grouped shellGroup (shellStart k) :=
    ⟨fun _ => rfl, fun _ b hb => absurd hb (by simp [shellStart]),
      fun g hg => absurd hg (by simp [shellStart])⟩
  exact (h.invariant (fun s a s' hinv hstep => hinv.step A beyond strsignal hstep) hstart).signals

end

/-! ### Two runs -/

/-- Every file opens, every call succeeds, the `n`th child has the pid `20 + n`, and the
    statuses `es` are delivered. -/
def answering (es : List StatusEvent) : Answers where
  openOk _ _ := true
  killError _ := none
  outcome n := ⟨true, 20 + n, by omega⟩
  uninit := (0, 0)
  events := es
  childLeft := false
  childOpenOk _ _ _ := true
  childKillError _ _ := none

/-- A program without arguments. -/
def sleepCommand (fBackground : Bool) : Command :=
  .mk "sleep" ⟨some "sleep", []⟩ fBackground .null .null

/-- `kill %1`. -/
def killCommand : Command := .mk "kill" ⟨some "kill", ["%1"]⟩ false .null .null

/-- A shell with the pid 8 that is started in the process group 7. -/
def groupByMode (interactive : Bool) : Int := if interactive then 8 else 7

/-- A step of that shell. -/
abbrev smallStep : ShellState → ShellAction → ShellState → Prop :=
  ShellStep FdAlloc.lowest [] (fun _ => "") groupByMode

/-- With these pids a command can be executed. -/
theorem enabled_answering {pc : Command} (hpc : pc ≠ .null) (es : List StatusEvent)
    (s : ShellState) : (ShellAction.exec pc (answering es)).Enabled groupByMode s := by
  refine ⟨hpc, fun n _ => ?_⟩
  show 1 < (20 + n : Int) ∧ (20 + n : Int) ≠ if s.shell.interactive then 8 else 7
  split <;> omega

/-- As `answering`, with pids from `first` on for the children. -/
def forking (first : Nat) (es : List StatusEvent) : Answers :=
  { answering es with outcome := fun n => ⟨true, first + n + 1, by omega⟩ }

/-- So it can with pids from some number on. -/
theorem enabled_forking {pc : Command} (hpc : pc ≠ .null) {first : Nat} (hfirst : 8 ≤ first)
    (es : List StatusEvent) (s : ShellState) :
    (ShellAction.exec pc (forking first es)).Enabled groupByMode s := by
  refine ⟨hpc, fun n _ => ?_⟩
  show 1 < (first + n + 1 : Int) ∧ (first + n + 1 : Int) ≠ if s.shell.interactive then 8 else 7
  split <;> omega

/-- A script of `sleep` and `kill %1`: the job of `sleep` has the group id 0, and the signals
    go to the process group of the shell. -/
theorem kill_signals_shell :
    ∃ as s, Run smallStep (shellStart Kernel.std) as s ∧ ∃ g ∈ s.signals,
      g.call.pid = 0 ∧ GroupSignalled g.callerGroup g.call.pid g.shellGroup ∧ ¬ GroupOk g := by
  refine ⟨[.exec (sleepCommand false) (answering [⟨20, .exited 0⟩]),
    .exec killCommand (answering [])], _,
    Run.cons ⟨rfl, enabled_answering (by decide) _ _, rfl⟩
      (Run.single ⟨rfl, enabled_answering (by decide) _ _, rfl⟩), _, List.mem_cons_self,
    rfl, Or.inl ⟨rfl, rfl⟩, fun hok => hok.nonzero rfl⟩

/-- At a terminal, `sleep &` and `kill %1`: both signals go to the process 20 that was forked
    for `sleep`. -/
theorem signals_iff_terminal :
    ∃ as s, Run smallStep (shellStart Kernel.std) as s ∧
      s.signals.map (fun g => g.call.pid) = [-20, -20] ∧
      ∀ g ∈ s.signals, GroupOk g ↔ g.born.interactive = true ∧ g.byFirstChild = false := by
  have hrun : Run smallStep (shellStart Kernel.std)
      [.terminal, .exec (sleepCommand true) (answering []), .exec killCommand (answering [])] _ :=
    Run.cons ⟨rfl, trivial, rfl⟩ (Run.cons ⟨rfl, enabled_answering (by decide) _ _, rfl⟩
      (Run.single ⟨rfl, enabled_answering (by decide) _ _, rfl⟩))
  exact ⟨_, _, hrun, rfl, signals_iff _ _ _ hrun⟩

end OSPortfolio.Ish
