import OSPortfolio.Ish.Children

namespace OSPortfolio.Ish

open OSPortfolio.Posix OSPortfolio.Lts

/-!
# Runs in which pids are used again

The shell finds the process a status is about by its pid, and signals a job by the pid of its
first process.  Both are right only as long as the pid still belongs to that process.  This
file follows the children of `Children.lean` through whole runs.

* `Family` — the children, the child behind each entry, every status recorded so far and
  every job signalled so far; the shell has none of this;
* `FamilyStep` — a step of a run in which the kernel gives a new child any pid that no child
  has at the time, and `waitpid` returns statuses of children that are not yet reaped;
* `run_of_family` — which is a run of the shell;
* `recordings_newest` — every status goes to the child it is about, the newest with its pid;
* `signalled_unreaped_iff` — which signals of `fg`, `bg` and `kill` are for a job with a
  process that is not yet reaped.
-/

/-! ### The statuses a command takes -/

/-- The statuses in one part of the log after the other. -/
theorem statusesOf_append (log log' : List JobEvent) :
    statusesOf (log ++ log') = statusesOf log ++ statusesOf log' := List.filterMap_append

@[simp] theorem statusesOf_recorded (es : List StatusEvent) :
    statusesOf (es.map .recorded) = es := by
  induction es with
  | nil => rfl
  | cons e es ih => exact congrArg (e :: ·) ih

@[simp] theorem statusesOf_resumed (sel : List Nat) : statusesOf (sel.map .resumed) = [] := by
  induction sel with
  | nil => rfl
  | cons i sel ih => exact ih

section
variable (A : FdAlloc OpenFile) (beyond : List Char) (strsignal : Nat → String)
  (shellGroup : Bool → Int)

/-- The statuses that `waitpid` returns to the shell while a command is executed. -/
def takenBy (pc : Command) (sys : Answers) (s : Shell) : List StatusEvent :=
  (commandWait A beyond pc sys s).elim [] fun w => sys.events.take w.calls

/-- The log of small steps. -/
theorem replay_newEvents {s s' : JobControl} (h : Touches s s') :
    procTable s'.jobs = replay (newEvents s s') (procTable s.jobs) := by
  obtain ⟨new, hlog, htab⟩ := h.replay
  rw [newEvents_of_log hlog]
  exact htab

/-- No status is recorded. -/
theorem statusesOf_of_eq {s s' : JobControl} (h : s'.log = s.log) (es : List StatusEvent) :
    statusesOf (newEvents s s') <+: es := by
  rw [show newEvents s s' = [] from newEvents_of_log (by simpa using h)]
  exact List.nil_prefix

/-- The statuses recorded by a wait of `MakeJobForeGround`, which takes one more. -/
theorem statusesOf_wait {s s' : JobControl} {new : List JobEvent} {es : List StatusEvent}
    {calls : Nat} (h : s'.log = s.log ++ (new ++ (es.take (calls - 1)).map .recorded))
    (hnew : statusesOf new = []) : statusesOf (newEvents s s') <+: es.take calls := by
  rw [newEvents_of_log h, statusesOf_append, hnew, statusesOf_recorded, List.nil_append]
  exact List.take_prefix_take_left (Nat.sub_le calls 1)

/-- The statuses a built-in records are those it takes, but for the last one of `fg`. -/
theorem builtIn_statuses (pc : Command) (sys : Answers) (s : JobControl) :
    statusesOf (newEvents s (executeBuiltInComds sys.killError beyond strsignal pc sys.events
        sys.childLeft s).2) <+:
      (builtInWait beyond pc sys.events sys.childLeft s.jobs).elim []
        fun w => sys.events.take w.calls := by
  cases executeBuiltInComds_effect sys.killError beyond strsignal pc sys.events sys.childLeft s with
  | kept wait jobs log => exact statusesOf_of_eq log _
  | background sel name jobs log =>
    rw [newEvents_of_log log, statusesOf_resumed]
    exact List.nil_prefix
  | foreground i name job ret jobs log =>
    rw [builtInWait, if_pos name, job]
    exact @statusesOf_wait _ _ [.resumed i] _ _ log rfl

/-- The same for the wait at the end of `ExecCommand`. -/
theorem awaitJob_statuses (interactive : Bool) (pc : Command) (sys : Answers) (s : JobControl)
    (hknown : ∀ e ∈ (jobWait interactive pc sys s.jobs).elim [] (fun w => sys.events.take w.calls),
      0 < e.processId ∧ e.processId ∈ pidsOf (procTable s.jobs)) :
    statusesOf (newEvents s (awaitJob interactive pc sys s).2) <+:
      (jobWait interactive pc sys s.jobs).elim [] fun w => sys.events.take w.calls := by
  unfold jobWait at hknown ⊢
  cases interactive with
  | false =>
    rw [if_pos rfl, Option.elim_some] at hknown ⊢
    have hall : recordable s.jobs (sys.events.take
        (execCommandWait 0 sys.childLeft sys.events s.jobs).calls) = sys.events.take
        (execCommandWait 0 sys.childLeft sys.events s.jobs).calls :=
      List.filter_eq_self.mpr fun e he => by simpa using hknown e he
    have hlog : statusesOf (newEvents s (awaitJob false pc sys s).2) = sys.events.take
        (execCommandWait 0 sys.childLeft sys.events s.jobs).calls := by
      rw [awaitJob_waiting, newEvents_of_log rfl, statusesOf_recorded, hall]
    exact hlog ▸ List.prefix_rfl
  | true =>
    rw [if_neg (by simp)] at hknown ⊢
    by_cases hbg : pc.fBackground = false
    · rw [if_pos hbg, awaitJob_foreground hbg]
      exact @statusesOf_wait _ _ [] _ _ rfl rfl
    · obtain ⟨-, -, hlog⟩ := awaitJob_background (by simpa using hbg) sys s
      exact statusesOf_of_eq hlog _

/-- What a command adds to the log, and the statuses it takes: those recorded come first, and
    the changes logged are those of the table. -/
structure LoggedExec (pc : Command) (sys : Answers) (s : Shell) (r : Executed) : Prop where
  statuses : (∀ e ∈ takenBy A beyond pc sys s,
      0 < e.processId ∧ e.processId ∈ pidsOf (launchTable r.children s.ctl.jobs)) →
    statusesOf (newEvents s.ctl r.shell.ctl) <+: takenBy A beyond pc sys s
  table : r.ret.isSome = true → procTable r.shell.ctl.jobs =
    replay (newEvents s.ctl r.shell.ctl) (launchTable r.children s.ctl.jobs)

/-- **`ExecCommand`** records a part of what it has taken from `waitpid`. -/
theorem execCommand_logged {pc : Command} (hpc : pc ≠ .null) (sys : Answers) (s : Shell) :
    LoggedExec A beyond pc sys s (execCommand A beyond strsignal pc sys s) := by
  have hout := execCommand_outcome A beyond strsignal pc sys s
  refine ⟨?_, ?_⟩
  · unfold takenBy
    generalize execCommand A beyond strsignal pc sys s = r, commandWait A beyond pc sys s = w
      at hout ⊢
    cases hout with
    | kept ret err k => exact fun _ => statusesOf_of_eq rfl _
    | builtIn k => exact fun _ => builtIn_statuses beyond strsignal pc sys s.ctl
    | exited f hfork => exact fun _ => statusesOf_of_eq rfl _
    | forked f hfork =>
      intro hknown
      have htable := procTable_addJob s.ctl (execCommandFork_children hpc hfork)
        (execCommandFork_job (Or.inl hfork)).job.process
      exact awaitJob_statuses s.interactive pc sys (addJob f.job s.ctl)
        (by rw [htable]; exact hknown)
  · generalize execCommand A beyond strsignal pc sys s = r, commandWait A beyond pc sys s = w
      at hout ⊢
    cases hout with
    | kept ret err k =>
      exact fun _ => replay_newEvents (.single (.text s.ctl s.ctl.out err))
    | builtIn k => exact fun _ => replay_newEvents (touches_executeBuiltInComds _ _ _ _ _ _ _)
    | exited f hfork => exact fun hret => absurd hret (by simp)
    | forked f hfork =>
      intro _
      have htable := procTable_addJob s.ctl (execCommandFork_children hpc hfork)
        (execCommandFork_job (Or.inl hfork)).job.process
      rw [← htable]
      exact replay_newEvents (touches_awaitJob s.interactive pc sys (addJob f.job s.ctl))

/-- The statuses the notification records are the first ones of those there are. -/
theorem recordAvailable_log (es : List StatusEvent) (s : JobControl) :
    ∃ pre, pre <+: es ∧ (recordAvailable es s).log = s.log ++ pre.map .recorded := by
  induction es generalizing s with
  | nil => exact ⟨[], List.prefix_rfl, by simp [recordAvailable]⟩
  | cons e es ih =>
    unfold recordAvailable
    split
    · obtain ⟨pre, hpre, hlog⟩ := ih { s with jobs := _, log := s.log ++ [.recorded e] }
      exact ⟨e :: pre, List.cons_prefix_cons.mpr ⟨rfl, hpre⟩, by simpa using hlog⟩
    · exact ⟨[], List.nil_prefix, by simp⟩

/-- Fewer statuses still come from children. -/
theorem HasStatuses.ofPrefix {kids : List Kid} {pre es : List StatusEvent} (hpre : pre <+: es)
    (h : HasStatuses kids es) : HasStatuses kids pre := by
  obtain ⟨rest, rfl⟩ := hpre
  induction pre generalizing kids with
  | nil => trivial
  | cons e pre ih => exact ⟨h.1, ih h.2⟩

/-! ### The children beside a run -/

/-- A job that `fg`, `bg` or `kill` sends a signal to: the call, and the processes of the job
    when the command starts, with the children they are. -/
structure Target where
  call : KillCall
  processes : List Process
  kids : List Kid

/-- The children, the child behind each process entry, the statuses recorded so far and the
    jobs signalled so far. -/
structure Family where
  kids : List Kid := []
  owners : List (List Nat) := []
  recordings : List Recording := []
  targets : List Target := []

/-- The children at the places `ns`. -/
def kidsAt (kids : List Kid) (ns : List Nat) : List Kid := ns.filterMap (kids[·]?)

/-- What a step makes of the family.  The kernel knows of a lost status what it knows of any
    other: the child is reaped. -/
def familyNote (s : ShellState) (a : ShellAction) (_ : ShellState) (fam : Family) : Family :=
  match a with
  | .terminal => fam
  | .notify es =>
    let recorded := recordAvailable es s.shell.ctl
    let log := newEvents s.shell.ctl recorded
    let seen := observe fam.owners log (procTable s.shell.ctl.jobs) fam.kids
    -- the loop ends with the first status it does not record
    let lost := (es.drop (statusesOf log).length).take 1
    { fam with
      kids := lost.foldl (deliver true) seen.1
      owners := sweepAlong recorded.jobs fam.owners
      recordings := fam.recordings ++ seen.2 }
  | .exec pc sys =>
    let r := execCommand A beyond strsignal pc sys s.shell
    let kids := fam.kids ++ r.children.map Child.kid
    let owners := launchOwners fam.kids.length r.children fam.owners
    let log := newEvents s.shell.ctl r.shell.ctl
    let seen := observe owners log (launchTable r.children s.shell.ctl.jobs) kids
    let lost := (takenBy A beyond pc sys s.shell).drop (statusesOf log).length
    { kids := lost.foldl (deliver true) seen.1
      owners := owners
      recordings := fam.recordings ++ seen.2
      targets := fam.targets ++ (r.shell.ctl.kills.drop s.shell.ctl.kills.length).map
        fun call => ⟨call, processesAt call.slot (procTable s.shell.ctl.jobs),
          kidsAt fam.kids (fam.owners.getD call.slot [])⟩ }

/-- What the kernel does in a step: the pids it gives out belong to no child that is not
    reaped, and the statuses `waitpid` returns are those of such children. -/
def KernelOk (s : ShellState × Family) : ShellAction → Prop
  | .terminal => True
  | .notify es => HasStatuses s.2.kids es
  | .exec pc sys =>
    let r := execCommand A beyond strsignal pc sys s.1.shell
    FreshPids s.2.kids r.children ∧
      HasStatuses (s.2.kids ++ r.children.map Child.kid) (takenBy A beyond pc sys s.1.shell)

/-- A step of the shell on such a kernel. -/
abbrev FamilyStep : ShellState × Family → ShellAction → ShellState × Family → Prop :=
  guarded (tracked (ShellStep A beyond strsignal shellGroup) (familyNote A beyond strsignal))
    (KernelOk A beyond strsignal)

/-- Without the children it is a run of the shell. -/
theorem run_of_family {k : Kernel} {as : List ShellAction} {s : ShellState × Family}
    (h : Run (FamilyStep A beyond strsignal shellGroup) (shellStart k, {}) as s) :
    Run (ShellStep A beyond strsignal shellGroup) (shellStart k) as s.1 :=
  (h.mono fun _ _ _ hstep => hstep.2).untrack

/-- The children of a signalled job are those of its processes, and they are reaped as the
    flags say. -/
structure Target.Matches (g : Target) : Prop where
  pids : g.kids.map Kid.pid = g.processes.map Process.processId
  unreaped : (∃ kid ∈ g.kids, kid.reaped = false) ↔
    ∃ x ∈ g.processes.zip g.kids, x.1.completed = false ∧ x.2.lost = false

/-- What holds of a run. -/
structure FamilyInv (s : ShellState × Family) : Prop where
  family : s.1.returned = true →
    FamilyOk s.2.kids s.2.owners (procTable s.1.shell.ctl.jobs)
  recordings : ∀ r ∈ s.2.recordings, r.GoesToNewest
  targets : ∀ g ∈ s.2.targets, g.Matches

section
variable {kids : List Kid} {owners : List (List Nat)} {t : List (List Process)}

/-- Statuses that are taken and recorded nowhere. -/
theorem FamilyOk.loseAll (h : FamilyOk kids owners t) (lost : List StatusEvent) :
    FamilyOk (lost.foldl (deliver true) kids) owners t := by
  induction lost generalizing kids with
  | nil => exact h
  | cons e lost ih => exact ih (h.lose e)

/-- The target of a call has the processes of its job. -/
theorem matches_of_entries (call : KillCall) {ns : List Nat} {ps : List Process}
    (h : List.Forall₂ (EntryOf kids) ns ps) : (⟨call, ps, kidsAt kids ns⟩ : Target).Matches := by
  unfold kidsAt
  induction h with
  | nil => exact ⟨rfl, by simp⟩
  | @cons n p ns ps hent _ ih =>
    obtain ⟨kid, hkid, hpid, hreaped⟩ := hent
    obtain ⟨hpids, hunreaped⟩ := ih
    refine ⟨?_, ?_⟩
    · simpa [hkid] using ⟨hpid, hpids⟩
    · have hone : kid.reaped = false ↔ p.completed = false ∧ kid.lost = false := by
        rw [← Bool.not_eq_true, hreaped, not_or, Bool.not_eq_true, Bool.not_eq_true]
      rw [List.filterMap_cons, hkid]
      dsimp only at hunreaped ⊢
      rw [List.zip_cons_cons, List.exists_mem_cons_iff, List.exists_mem_cons_iff, hone, hunreaped]

/-- The job at a position that is behind the table has no processes and no children. -/
theorem FamilyOk.matches (h : FamilyOk kids owners t) (call : KillCall) :
    (⟨call, processesAt call.slot t, kidsAt kids (owners.getD call.slot [])⟩ :
      Target).Matches := by
  refine matches_of_entries call ?_
  have hlen := h.entries.length_eq
  unfold processesAt
  rw [List.getD_eq_getElem?_getD]
  by_cases hi : call.slot < t.length
  · rw [List.getElem?_eq_getElem hi, List.getElem?_eq_getElem (hlen ▸ hi)]
    exact h.entries.get (hlen ▸ hi) hi
  · rw [List.getElem?_eq_none (by omega), List.getElem?_eq_none (by omega)]
    exact .nil

end

/-- The children have positive pids. -/
theorem execCommand_pids (pc : Command) (sys : Answers) (s : Shell) :
    ∀ c ∈ (execCommand A beyond strsignal pc sys s).children, 0 < c.pid := by
  have hout := execCommand_outcome A beyond strsignal pc sys s
  generalize execCommand A beyond strsignal pc sys s = r, commandWait A beyond pc sys s = w
    at hout ⊢
  have hforked : ∀ f : ForkState, ForkedJob s.ctl.numJobs sys.outcome f →
      ∀ c ∈ f.children, 0 < c.pid := by
    intro f hf c hc
    obtain ⟨n, hn⟩ := List.mem_iff_getElem?.mp hc
    exact (hf.child n c hn).2.2
  cases hout with
  | kept ret err k => exact fun c hc => absurd hc List.not_mem_nil
  | builtIn k => exact fun c hc => absurd hc List.not_mem_nil
  | exited f hfork => exact hforked f (execCommandFork_job (Or.inr hfork))
  | forked f hfork => exact hforked f (execCommandFork_job (Or.inl hfork))

/-! ### Whole runs -/

/-- **Step lemma.** -/
theorem FamilyInv.step {s s' : ShellState × Family} {a : ShellAction} (hinv : FamilyInv s)
    (h : FamilyStep A beyond strsignal shellGroup s a s') : FamilyInv s' := by
  obtain ⟨s, fam⟩ := s
  obtain ⟨s', fam'⟩ := s'
  obtain ⟨hkernel, ⟨hret, hen, hs'⟩, hfam'⟩ := h
  dsimp only at hret hs' hfam'
  subst hs' hfam'
  have hok := hinv.family hret
  cases a with
  | terminal => exact ⟨fun _ => hok, hinv.recordings, hinv.targets⟩
  | notify es =>
    obtain ⟨pre, hpre, hlog⟩ := recordAvailable_log es s.shell.ctl
    have hnew := newEvents_of_log hlog
    have htable := replay_newEvents (touches_recordAvailable es s.shell.ctl)
    obtain ⟨hseen, hright⟩ := observe_ok hok (newEvents s.shell.ctl
      (recordAvailable es s.shell.ctl))
      (by rw [hnew, statusesOf_recorded]; exact HasStatuses.ofPrefix hpre hkernel)
    rw [← htable] at hseen
    refine ⟨fun _ => ?_, fun r hr => ?_, hinv.targets⟩
    · exact (hseen.loseAll _).sweep
    · rcases List.mem_append.mp hr with hr | hr
      · exact hinv.recordings r hr
      · exact hright r hr
  | exec pc sys =>
    obtain ⟨hpc, -⟩ := hen
    obtain ⟨hfresh, hstatuses⟩ := hkernel
    dsimp only at hfresh hstatuses hok
    have hlogged := execCommand_logged A beyond strsignal hpc sys s.shell
    have hlaunch := hok.launch hfresh (execCommand_pids A beyond strsignal pc sys s.shell)
    have hprefix := hlogged.statuses (hlaunch.known hstatuses)
    obtain ⟨hseen, hright⟩ := observe_ok hlaunch _ (HasStatuses.ofPrefix hprefix hstatuses)
    refine ⟨fun hret' => ?_, fun r hr => ?_, fun g hg => ?_⟩
    · -- the command has returned, so the table is the one the log leads to
      show FamilyOk _ _ (procTable (execCommand A beyond strsignal pc sys s.shell).shell.ctl.jobs)
      rw [hlogged.table hret']
      exact hseen.loseAll _
    · rcases List.mem_append.mp hr with hr | hr
      · exact hinv.recordings r hr
      · exact hright r hr
    · rcases List.mem_append.mp hg with hg | hg
      · exact hinv.targets g hg
      · obtain ⟨call, -, rfl⟩ := List.mem_map.mp hg
        exact hok.matches call

/-- **Every run** keeps the invariant. -/
theorem familyInv_run {k : Kernel} {as : List ShellAction} {s : ShellState × Family}
    (h : Run (FamilyStep A beyond strsignal shellGroup) (shellStart k, {}) as s) :
    FamilyInv s := by
  have hstart : FamilyInv (shellStart k, {}) :=
    ⟨fun _ => ⟨.nil, .nil, fun n kid hkid => absurd hkid (by simp),
      fun n m kid kid' _ hkid => absurd hkid (by simp), fun kid hkid => absurd hkid (by simp)⟩,
      fun r hr => absurd hr (by simp), fun g hg => absurd hg (by simp)⟩
  exact h.invariant (fun s a s' hinv hstep => hinv.step A beyond strsignal shellGroup hstep) hstart

/-- **Every status goes to the newest child with its pid.**  In every run in which the kernel
    may use a pid again once `waitpid` has returned the termination of the child that had it,
    each status that `UpdatedProcessStatus` records changes the entry of the child the status
    is about, and no child forked later has the pid. -/
theorem recordings_newest {k : Kernel} {as : List ShellAction} {s : ShellState × Family}
    (h : Run (FamilyStep A beyond strsignal shellGroup) (shellStart k, {}) as s) :
    ∀ r ∈ s.2.recordings, r.GoesToNewest :=
  (familyInv_run A beyond strsignal shellGroup h).recordings

/-- **Which signals are for a living job.**  In every such run, a job that `fg`, `bg` or
    `kill` signals has a process that is not yet reaped exactly when it has one whose entry
    does not say `completed` and whose termination was not lost in an earlier wait. -/
theorem signalled_unreaped_iff {k : Kernel} {as : List ShellAction} {s : ShellState × Family}
    (h : Run (FamilyStep A beyond strsignal shellGroup) (shellStart k, {}) as s) :
    ∀ g ∈ s.2.targets, g.kids.map Kid.pid = g.processes.map Process.processId ∧
      ((∃ kid ∈ g.kids, kid.reaped = false) ↔
        ∃ x ∈ g.processes.zip g.kids, x.1.completed = false ∧ x.2.lost = false) := by
  intro g hg
  have hmatch := (familyInv_run A beyond strsignal shellGroup h).targets g hg
  exact ⟨hmatch.pids, hmatch.unreaped⟩

end

/-! ### Three runs -/

/-- A step of the shell of `JobGroups.lean` with its children. -/
abbrev familyStep : ShellState × Family → ShellAction → ShellState × Family → Prop :=
  FamilyStep FdAlloc.lowest [] (fun _ => "") groupByMode

/-- The state after a step. -/
def familyNext (s : ShellState × Family) (a : ShellAction) : ShellState × Family :=
  (a.run FdAlloc.lowest [] (fun _ => "") groupByMode s.1,
    familyNote FdAlloc.lowest [] (fun _ => "") s.1 a s.1 s.2)

/-- A step of the shell that the kernel allows is one of the family. -/
theorem familyStep_next {s : ShellState × Family} {a : ShellAction}
    (hkernel : KernelOk FdAlloc.lowest [] (fun _ => "") s a) (hret : s.1.returned = true)
    (hen : a.Enabled groupByMode s.1) : familyStep s a (familyNext s a) :=
  ⟨hkernel, ⟨hret, hen, rfl⟩, rfl⟩

/-- At a terminal, `sleep &` with the pid 20. -/
def oneInBackground : ShellState × Family :=
  familyNext (familyNext (shellStart Kernel.std, {}) .terminal)
    (.exec (sleepCommand true) (forking 19 []))

/-- Then a `sleep` with the pid 30, during whose wait both end. -/
def bothEnded : ShellState × Family :=
  familyNext oneInBackground
    (.exec (sleepCommand false) (forking 29 [⟨20, .exited 0⟩, ⟨30, .exited 0⟩]))

/-- A run with one job in the background. -/
theorem run_oneInBackground :
    ∃ as, Run familyStep (shellStart Kernel.std, {}) as oneInBackground :=
  ⟨_, (Run.single (familyStep_next (a := .terminal) trivial rfl trivial)).snoc
    (familyStep_next ⟨⟨by decide, by decide⟩, trivial⟩ rfl
      (enabled_forking (by decide) (by decide) _ _))⟩

/-- A run in which both jobs have ended. -/
theorem run_bothEnded : ∃ as, Run familyStep (shellStart Kernel.std, {}) as bothEnded := by
  obtain ⟨as, hrun⟩ := run_oneInBackground
  exact ⟨_, hrun.snoc (familyStep_next ⟨⟨by decide, by decide⟩, ⟨rfl, rfl, trivial⟩⟩ rfl
    (enabled_forking (by decide) (by decide) _ _))⟩

/-- Before the next prompt a third `sleep` gets the pid 20 again, and its end is recorded for
    it, although the first job still stands in the table with that pid. -/
theorem recordings_newest_reused :
    ∃ as s, Run familyStep (shellStart Kernel.std, {}) as s ∧
      s.2.kids.map Kid.pid = [20, 30, 20] ∧
      (s.2.recordings.map fun r => subjectOf r.kids r.event.processId) =
        [some 0, some 1, some 2] ∧
      ∀ r ∈ s.2.recordings, r.GoesToNewest := by
  obtain ⟨as, hrun⟩ := run_bothEnded
  have hrun' := hrun.snoc (familyStep_next
    (a := .exec (sleepCommand false) (forking 19 [⟨20, .exited 0⟩]))
    ⟨⟨by decide, by decide⟩, ⟨rfl, trivial⟩⟩ rfl (enabled_forking (by decide) (by decide) _ _))
  exact ⟨_, _, hrun', rfl, rfl, recordings_newest _ _ _ _ hrun'⟩

/-- Instead, `kill %1` on the same line: both signals are sent to the group 20, whose only
    process has been reaped. -/
theorem kill_signals_reaped_job :
    ∃ as s, Run familyStep (shellStart Kernel.std, {}) as s ∧ s.1.shell.interactive = true ∧
      ∃ g ∈ s.2.targets, g.call.pid = -20 ∧ g.kids = [⟨20, true, false⟩] ∧
        ¬ ∃ kid ∈ g.kids, kid.reaped = false := by
  obtain ⟨as, hrun⟩ := run_bothEnded
  have hrun' := hrun.snoc (familyStep_next (a := .exec killCommand (forking 39 []))
    ⟨⟨by decide, by decide⟩, trivial⟩ rfl (enabled_forking (by decide) (by decide) _ _))
  exact ⟨_, _, hrun', rfl, _, List.mem_cons_self, rfl, rfl, by decide⟩

/-- `kill %1` while the job runs. -/
theorem signalled_unreaped_iff_running :
    ∃ as s, Run familyStep (shellStart Kernel.std, {}) as s ∧
      s.2.targets.map (fun g => g.kids) = [[⟨20, false, false⟩], [⟨20, false, false⟩]] ∧
      ∀ g ∈ s.2.targets, g.kids.map Kid.pid = g.processes.map Process.processId ∧
        ((∃ kid ∈ g.kids, kid.reaped = false) ↔
          ∃ x ∈ g.processes.zip g.kids, x.1.completed = false ∧ x.2.lost = false) := by
  obtain ⟨as, hrun⟩ := run_oneInBackground
  have hrun' := hrun.snoc (familyStep_next (a := .exec killCommand (forking 39 []))
    ⟨⟨by decide, by decide⟩, trivial⟩ rfl (enabled_forking (by decide) (by decide) _ _))
  exact ⟨_, _, hrun', rfl, signalled_unreaped_iff _ _ _ _ hrun'⟩

end OSPortfolio.Ish
