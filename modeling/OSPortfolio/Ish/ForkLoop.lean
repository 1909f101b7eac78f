import OSPortfolio.Ish.Redirection

namespace OSPortfolio.Ish

open OSPortfolio.Posix

/-!
# The fork loop

The middle part of `ExecCommand`: a new job, and one child for each stage of the command's
pipeline.

* `Child` — a child right after `fork`, with its copy of the shell's descriptors and the
  arguments of its call to `ExecProcess`;
* `ForkState` — the variables of the loop, with the children forked so far;
* `forkStage` — one turn; `execCommandFork` — the loop;
* `forkLoop_keeps` — the rule for its invariants;
* `forkLoop_stages` — the children run the stages in order;
* `execCommandFork_job` — the new job after the loop, and the copies the children have of it.

What `pipe` and `fork` return is an input.  `fd_pipe` starts uninitialised, so its first
value is an input too.
-/

/-- What the system does for one stage: whether `pipe` succeeds, if the stage asks for one,
    and what `fork` returns in the shell: the pid of the child or a negative number, and
    never 0. -/
structure Outcome where
  pipeOk : Bool
  pid : Int
  pid_ne_zero : pid ≠ 0

/-- A child as `fork` leaves it: the arguments `ExecProcess` is called with, its descriptors,
    and `job`, the head of its copy of the job table. -/
structure Child where
  pid : Int
  pc : Command
  pgid : Int
  fdOut : Int
  fdIn : Int
  isStderr : Int
  kernel : Kernel
  job : Job

/-- The variables of the loop: the shell's descriptors, the new job, `fd_in`, `fd_pipe` and
    `is_stderr`, and the children. -/
structure ForkState where
  kernel : Kernel
  job : Job
  fdIn : Int
  fdPipe : Int × Int
  isStderr : Int
  children : List Child

/-- The search for the first pipe among the redirects of a stage. -/
def firstPipe : Redirect → Option PipeType
  | .null => none
  | .file _ _ n => firstPipe n
  | .pipe t _ _ => some t

/-- The new job `ExecCommand` puts at the head of the table. -/
def newJob (numJobs : Nat) (pc : Command) : Job := { jobNum := numJobs + 1, jobName := pc.zCmd }

section
variable (A : FdAlloc OpenFile) (interactive : Bool) (outcome : Nat → Outcome)

/-- What `ExecCommand` does in the shell after a `fork` that returned `pid`. -/
def recordChild (pid : Int) (job : Job) : Job :=
  { job with
    process := { processId := pid } :: job.process
    processGroupId := if interactive ∧ job.processGroupId = 0 then pid else job.processGroupId }

/-- One turn of the loop, for the stage `pc`; an error, with the state so far, when `fork`
    fails and the shell exits. -/
def forkStage (s : ForkState) (pc : Command) : Except ForkState ForkState :=
  let o := outcome s.children.length
  let piped := firstPipe pc.prRedirects
  -- set by a `|&` and never cleared: the stages behind inherit it
  let isStderr := if piped = some .PIPE_ERROR then 1 else s.isStderr
  -- a failing `pipe` leaves `fd_pipe` as it was, and the loop does not look
  let made :=
    if piped.isSome ∧ o.pipeOk then s.kernel.pipe A else (s.fdPipe.1, s.fdPipe.2, s.kernel)
  let fdPipe := (made.1, made.2.1)
  let k := made.2.2
  let fdOut := if piped.isSome then fdPipe.2 else 1
  if o.pid < 0 then .error s
  else
    -- the child is a copy of the shell as it is here, with both ends of the pipe open
    let child : Child :=
      { pid := o.pid, pc := pc, pgid := s.job.processGroupId, fdOut := fdOut, fdIn := s.fdIn
        isStderr := isStderr, kernel := k, job := s.job }
    let k := if s.fdIn ≠ 0 then k.close s.fdIn else k
    let k := if fdOut ≠ 1 then k.close fdOut else k
    .ok
      { kernel := k, job := recordChild interactive o.pid s.job, fdIn := fdPipe.1
        fdPipe := fdPipe, isStderr := isStderr, children := s.children ++ [child] }

/-- The variables before the loop. -/
def forkStart (uninit : Int × Int) (numJobs : Nat) (pc : Command) (k : Kernel) : ForkState :=
  { kernel := k, job := newJob numJobs pc, fdIn := 0, fdPipe := uninit, isStderr := 0
    children := [] }

/-- The loop `while (pc != NULL) { ..; pc = NextPipelineCommand(pc); .. }`. -/
def execCommandFork (uninit : Int × Int) (numJobs : Nat) (pc : Command) (k : Kernel) :
    Except ForkState ForkState :=
  (stages pc).foldlM (forkStage A interactive outcome) (forkStart uninit numJobs pc k)

end

/-! ### Invariants of the loop -/

section
variable {A : FdAlloc OpenFile} {interactive : Bool} {outcome : Nat → Outcome}

/-- A turn that forks. -/
theorem forkStage_ok {s s' : ForkState} {pc : Command}
    (h : forkStage A interactive outcome s pc = .ok s') :
    ∃ c : Child, c.pid = (outcome s.children.length).pid ∧ 0 < c.pid ∧ c.pc = pc ∧
      c.job = s.job ∧ s'.children = s.children ++ [c] ∧
      s'.job = recordChild interactive c.pid s.job := by
  have hne := (outcome s.children.length).pid_ne_zero
  unfold forkStage at h
  dsimp only at h
  by_cases hpid : (outcome s.children.length).pid < 0
  · rw [if_pos hpid] at h
    exact absurd h (by simp)
  · rw [if_neg hpid] at h
    obtain rfl := Except.ok.inj h
    exact ⟨_, rfl, by show 0 < (outcome s.children.length).pid; omega, rfl, rfl, rfl, rfl⟩

/-- A turn that does not fork leaves what there was. -/
theorem forkStage_error {s s' : ForkState} {pc : Command}
    (h : forkStage A interactive outcome s pc = .error s') : s' = s := by
  unfold forkStage at h
  dsimp only at h
  by_cases hpid : (outcome s.children.length).pid < 0
  · rw [if_pos hpid] at h
    exact (Except.error.inj h).symm
  · rw [if_neg hpid] at h
    exact absurd h (by simp)

/-- What every turn of the loop keeps holds when the loop ends, and also when a `fork` has
    failed. -/
theorem forkLoop_keeps {P : ForkState → Prop}
    (hstep : ∀ s s' pc, P s → forkStage A interactive outcome s pc = .ok s' → P s')
    (pcs : List Command) {s : ForkState} (hs : P s) :
    (∀ f, pcs.foldlM (forkStage A interactive outcome) s = .ok f → P f) ∧
      ∀ f, pcs.foldlM (forkStage A interactive outcome) s = .error f → P f := by
  induction pcs generalizing s with
  | nil =>
    refine ⟨fun f h => ?_, fun f h => absurd h (by simp [pure, Except.pure])⟩
    obtain rfl := Except.ok.inj h
    exact hs
  | cons pc pcs ih =>
    rw [List.foldlM_cons]
    cases hstage : forkStage A interactive outcome s pc with
    | error s' =>
      refine ⟨fun f h => absurd h (by simp [bind, Except.bind]), fun f h => ?_⟩
      obtain rfl := Except.error.inj h
      rwa [forkStage_error hstage]
    | ok s' => exact ih (hstep s s' pc hs hstage)

/-- The children of the loop run the stages it has come to, in order: all of them when it ends,
    and those in front of a `fork` that fails. -/
theorem forkLoop_stages (pcs : List Command) {s : ForkState} :
    (∀ f, pcs.foldlM (forkStage A interactive outcome) s = .ok f →
        f.children.map Child.pc = s.children.map Child.pc ++ pcs) ∧
      ∀ f, pcs.foldlM (forkStage A interactive outcome) s = .error f →
        ∃ m, f.children.map Child.pc = s.children.map Child.pc ++ pcs.take m := by
  induction pcs generalizing s with
  | nil =>
    refine ⟨fun f h => ?_, fun f h => absurd h (by simp [pure, Except.pure])⟩
    obtain rfl := Except.ok.inj h
    rw [List.append_nil]
  | cons pc pcs ih =>
    rw [List.foldlM_cons]
    cases hstage : forkStage A interactive outcome s pc with
    | error s' =>
      refine ⟨fun f h => absurd h (by simp [bind, Except.bind]), fun f h => ⟨0, ?_⟩⟩
      obtain rfl := Except.error.inj h
      rw [forkStage_error hstage, List.take_zero, List.append_nil]
    | ok s' =>
      obtain ⟨c, -, -, hc, -, hchildren, -⟩ := forkStage_ok hstage
      have hmap : s'.children.map Child.pc = s.children.map Child.pc ++ [pc] := by
        rw [hchildren, List.map_append, List.map_singleton, hc]
      refine ⟨fun f h => ?_, fun f h => ?_⟩
      · rw [(@ih s').1 f h, hmap, List.append_assoc, List.singleton_append]
      · obtain ⟨m, hm⟩ := (@ih s').2 f h
        exact ⟨m + 1, by rw [hm, hmap, List.append_assoc, List.singleton_append,
          List.take_succ_cons]⟩

/-- The stages that get a child when the `n`th `fork` is for the first of them: those in front
    of a `fork` that fails. -/
def forkedStages (outcome : Nat → Outcome) : Nat → List Command → List Command
  | _, [] => []
  | n, pc :: pcs => if (outcome n).pid < 0 then [] else pc :: forkedStages outcome (n + 1) pcs

/-- The children of the loop, whether it ends or a `fork` fails. -/
theorem forkLoop_forked (pcs : List Command) {s f : ForkState}
    (h : pcs.foldlM (forkStage A interactive outcome) s = .ok f ∨
      pcs.foldlM (forkStage A interactive outcome) s = .error f) :
    f.children.map Child.pc =
      s.children.map Child.pc ++ forkedStages outcome s.children.length pcs := by
  induction pcs generalizing s with
  | nil =>
    rcases h with h | h
    · obtain rfl := Except.ok.inj h
      exact (List.append_nil _).symm
    · exact absurd h (by simp [pure, Except.pure])
  | cons pc pcs ih =>
    rw [List.foldlM_cons] at h
    rw [forkedStages]
    cases hstage : forkStage A interactive outcome s pc with
    | error s' =>
      have hpid : (outcome s.children.length).pid < 0 := by
        by_contra hnot
        unfold forkStage at hstage
        dsimp only at hstage
        rw [if_neg hnot] at hstage
        exact absurd hstage (by simp)
      rw [hstage] at h
      obtain rfl : s' = f := by
        rcases h with h | h
        · exact absurd h (by simp [bind, Except.bind])
        · exact Except.error.inj h
      rw [forkStage_error hstage, if_pos hpid, List.append_nil]
    | ok s' =>
      obtain ⟨c, hcpid, hpos, hc, -, hchildren, -⟩ := forkStage_ok hstage
      rw [hstage] at h
      have hlen : s'.children.length = s.children.length + 1 := by simp [hchildren]
      rw [if_neg (by omega), ih h, hchildren, List.map_append, List.map_singleton, hc,
        ← hchildren, hlen, List.append_assoc, List.singleton_append]

/-- The loop ends when no `fork` fails. -/
theorem forkLoop_ends (hfork : ∀ n, 0 < (outcome n).pid) (pcs : List Command) (s : ForkState) :
    ∃ f, pcs.foldlM (forkStage A interactive outcome) s = .ok f := by
  induction pcs generalizing s with
  | nil => exact ⟨s, rfl⟩
  | cons pc pcs ih =>
    have hpid : ¬ (outcome s.children.length).pid < 0 := by
      have hpos := hfork s.children.length
      omega
    rw [List.foldlM_cons]
    cases hstage : forkStage A interactive outcome s pc with
    | error s' =>
      unfold forkStage at hstage
      dsimp only at hstage
      rw [if_neg hpid] at hstage
      exact absurd hstage (by simp)
    | ok s' => exact ih s'

/-- A loop that ends has forked one child for each stage. -/
theorem forkLoop_length (pcs : List Command) {s f : ForkState}
    (h : pcs.foldlM (forkStage A interactive outcome) s = .ok f) :
    f.children.length = s.children.length + pcs.length := by
  have hmap := congrArg List.length ((forkLoop_stages pcs).1 f h)
  simpa using hmap

/-! ### The new job -/

/-- The process entries of the children, the one forked last in front. -/
def entriesOf (children : List Child) : List Process :=
  (children.map fun c => { processId := c.pid }).reverse

/-- The job of a command after it has forked `children`. -/
structure LaunchedJob (numJobs : Nat) (children : List Child) (job : Job) : Prop where
  jobNum : job.jobNum = numJobs + 1
  notified : job.notified = false
  runStatus : job.runStatus = .RUNNING
  foreground : job.foreground = false
  process : job.process = entriesOf children

/-- The job records a child more. -/
theorem LaunchedJob.recordChild {numJobs : Nat} {children : List Child} {job : Job}
    (h : LaunchedJob numJobs children job) (c : Child) :
    LaunchedJob numJobs (children ++ [c]) (recordChild interactive c.pid job) := by
  refine ⟨h.jobNum, h.notified, h.runStatus, h.foreground, ?_⟩
  show { processId := c.pid } :: job.process = entriesOf (children ++ [c])
  rw [h.process, entriesOf, entriesOf, List.map_append, List.reverse_append]
  rfl

/-- The new job at the end of the fork loop, and the copies of it that the children have. -/
structure ForkedJob (numJobs : Nat) (outcome : Nat → Outcome) (f : ForkState) : Prop where
  job : LaunchedJob numJobs f.children f.job
  child : ∀ n c, f.children[n]? = some c →
    LaunchedJob numJobs (f.children.take n) c.job ∧ c.pid = (outcome n).pid ∧ 0 < c.pid

theorem ForkedJob.step {numJobs : Nat} {s s' : ForkState} {pc : Command}
    (hinv : ForkedJob numJobs outcome s)
    (h : forkStage A interactive outcome s pc = .ok s') : ForkedJob numJobs outcome s' := by
  obtain ⟨c, hpid, hpos, -, hjob, hchildren, hjob'⟩ := forkStage_ok h
  refine ⟨by rw [hjob', hchildren]; exact hinv.job.recordChild c, fun n c' hc' => ?_⟩
  rw [hchildren] at hc' ⊢
  rw [List.getElem?_append] at hc'
  split at hc'
  · rename_i hn
    rw [List.take_append_of_le_length (Nat.le_of_lt hn)]
    exact hinv.child n c' hc'
  · -- the new child has the job as it was before the turn
    rename_i hn
    obtain ⟨hlt, heq⟩ := List.getElem?_eq_some_iff.mp hc'
    rw [List.length_singleton] at hlt
    obtain rfl : n = s.children.length := by omega
    simp only [Nat.sub_self, List.getElem_cons_zero] at heq
    subst heq
    rw [List.take_left, hjob]
    exact ⟨hinv.job, hpid, hpos⟩

/-- **The whole loop**, in the shell and in a child. -/
theorem execCommandFork_job {uninit : Int × Int} {numJobs : Nat} {pc : Command} {k : Kernel}
    {f : ForkState}
    (h : execCommandFork A interactive outcome uninit numJobs pc k = .ok f ∨
      execCommandFork A interactive outcome uninit numJobs pc k = .error f) :
    ForkedJob numJobs outcome f := by
  have hstart : ForkedJob numJobs outcome (forkStart uninit numJobs pc k) :=
    ⟨⟨rfl, rfl, rfl, rfl, rfl⟩, fun n c hc => absurd hc (by simp [forkStart])⟩
  obtain ⟨hok, herror⟩ := @forkLoop_keeps A interactive outcome _
    (fun s s' pc hinv hstage => hinv.step hstage) (stages pc) _ hstart
  rcases h with h | h
  · exact hok f h
  · exact herror f h

/-- A command that is not null has a child. -/
theorem execCommandFork_children {uninit : Int × Int} {numJobs : Nat} {pc : Command} {k : Kernel}
    {f : ForkState} (hpc : pc ≠ .null)
    (h : execCommandFork A interactive outcome uninit numJobs pc k = .ok f) :
    f.children ≠ [] := by
  have hlen := forkLoop_length (stages pc) h
  rw [stages_eq pc hpc, List.length_cons] at hlen
  intro hnil
  rw [hnil, List.length_nil] at hlen
  omega

end

/-- The descriptors a child's program or built-in starts with. -/
def Child.start (A : FdAlloc OpenFile) (openOk : String → OpenFlags → Bool) (c : Child) :
    Option Kernel :=
  execProcessDescriptors A openOk c.pc.prRedirects c.fdOut c.fdIn c.isStderr c.kernel

end OSPortfolio.Ish
