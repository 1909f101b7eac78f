import OSPortfolio.Ish.JobMoves
import OSPortfolio.Ish.JobNumbers
import OSPortfolio.Ish.Terminal

namespace OSPortfolio.Ish

open OSPortfolio.ProcessGroups OSPortfolio.Lts

/-!
# Who has the terminal

A child and the shell both put it in its group and both give the terminal to that group, so
neither has to wait for the other.  The shell takes the terminal back once the job does not run;
by then every child has passed its own `tcsetpgrp`, unless `SIGSTOP` has stopped it on the way.
A child that calls `tcsetpgrp` once more takes the terminal from its job.

* `JobsKept` — what a step leaves of the job table;
* `Early` — a child that has still to give the terminal to its job;
* `ChildrenOk`, `Stage` — the invariant: the children, and what the place of the shell says about
  the terminal;
* `Undisturbed` — neither of the two happens;
* `terminal_safe` — **at every prompt the terminal is the shell's, and a foreground job has it as
  long as the shell waits**.
-/

/-! ### The entries of the children -/

/-- The job at this position has an entry for the pid that is neither completed nor stopped. -/
def RunningIn (i : Nat) (pid : Int) (jobs : List Job) : Prop :=
  ∃ p ∈ processesAt i (procTable jobs), p.processId = pid ∧ p.running = true

/-- Some job has an entry for the pid that is not completed. -/
def Listed (pid : Int) (jobs : List Job) : Prop :=
  ∃ i, ∃ p ∈ processesAt i (procTable jobs), p.processId = pid ∧ p.completed = false

/-- The job has the same group, and its processes have at most been resumed. -/
structure JobKept (job job' : Job) : Prop where
  group : job'.processGroupId = job.processGroupId
  process : job'.process = job.process ∨ job'.process = job.process.map Process.resume

/-- The same jobs, in the same places. -/
def JobsKept (jobs jobs' : List Job) : Prop :=
  ∀ i : Nat, Option.Rel JobKept jobs[i]? jobs'[i]?

/-- A job that is only marked is kept. -/
theorem Marked.kept {job job' : Job} (h : Marked job job') : JobKept job job' :=
  ⟨h.processGroupId, .inl h.process⟩

/-- Nothing has happened to the table. -/
theorem JobsKept.refl (jobs : List Job) : JobsKept jobs jobs := by
  intro i
  cases jobs[i]? with
  | none => exact .none
  | some job => exact .some ⟨rfl, .inl rfl⟩

/-- One step after the other: to resume a process twice is to resume it. -/
theorem JobKept.trans {a b c : Job} (h : JobKept a b) (h' : JobKept b c) : JobKept a c where
  group := h'.group.trans h.group
  process := by
    have hidem : ∀ ps : List Process,
        (ps.map Process.resume).map Process.resume = ps.map Process.resume := by
      intro ps
      rw [List.map_map]
      rfl
    rcases h.process with hb | hb <;> rcases h'.process with hc | hc
    · exact .inl (hc.trans hb)
    · exact .inr (by rw [hc, hb])
    · exact .inr (hc.trans hb)
    · exact .inr (by rw [hc, hb, hidem])

/-- The same for a whole table. -/
theorem JobsKept.trans {jobs₁ jobs₂ jobs₃ : List Job} (h : JobsKept jobs₁ jobs₂)
    (h' : JobsKept jobs₂ jobs₃) : JobsKept jobs₁ jobs₃ := by
  intro i
  have hi := h i
  have hi' := h' i
  revert hi hi'
  generalize jobs₁[i]? = x, jobs₂[i]? = y, jobs₃[i]? = z
  rintro (hab | _) hi'
  · cases hi' with
    | some hbc => exact .some (hab.trans hbc)
  · cases hi' with
    | none => exact .none

/-- One job is changed in place. -/
theorem JobsKept.modify {i : Nat} {f : Job → Job} (hf : ∀ job, JobKept job (f job))
    (jobs : List Job) : JobsKept jobs (jobs.modify i f) := by
  intro j
  rw [List.getElem?_modify]
  cases jobs[j]? with
  | none => exact .none
  | some job =>
    show Option.Rel JobKept (some job) (some (if i = j then f job else job))
    split
    · exact .some (hf job)
    · exact .some ⟨rfl, .inl rfl⟩

/-- `bg` and `kill` only resume the processes of the jobs they select. -/
theorem jobsKept_backgroundAll (sel : List Nat) (jobs : List Job) :
    JobsKept jobs (backgroundAll sel jobs) := by
  intro j
  rw [getElem?_backgroundAll]
  cases jobs[j]? with
  | none => exact .none
  | some job =>
    show Option.Rel JobKept (some job) (some (if j ∈ sel then putInBackground job else job))
    split
    · exact .some ⟨rfl, .inr rfl⟩
    · exact .some ⟨rfl, .inl rfl⟩

section
variable {jobs jobs' : List Job} (h : JobsKept jobs jobs') {i : Nat} {pid : Int}
include h

/-- The group of a job stays the same. -/
theorem JobsKept.groupAt : groupAt i jobs' = groupAt i jobs := by
  have hi := h i
  unfold Ish.groupAt
  revert hi
  generalize jobs[i]? = a, jobs'[i]? = b
  rintro (hkept | _)
  · exact hkept.group
  · rfl

/-- So do its processes, but for those that are resumed. -/
theorem JobsKept.processesAt :
    processesAt i (procTable jobs') = processesAt i (procTable jobs) ∨
      processesAt i (procTable jobs') = (processesAt i (procTable jobs)).map Process.resume := by
  have hi := h i
  unfold Ish.processesAt procTable
  rw [List.getElem?_map, List.getElem?_map]
  revert hi
  generalize jobs[i]? = a, jobs'[i]? = b
  rintro (hkept | _)
  · exact hkept.process
  · exact .inl rfl

/-- The process that was forked first stays the first. -/
theorem JobsKept.firstForked : firstForked jobs' = firstForked jobs := by
  have h₀ := h 0
  unfold Ish.firstForked
  revert h₀
  generalize jobs[0]? = a, jobs'[0]? = b
  rintro (@⟨job, job', hkept⟩ | _)
  · show job'.process.getLast?.map Process.processId = job.process.getLast?.map Process.processId
    rcases hkept.process with heq | heq
    · rw [heq]
    · rw [heq, List.getLast?_map, Option.map_map]
      rfl
  · rfl

/-- A running process stays one. -/
theorem JobsKept.running (hrun : RunningIn i pid jobs) : RunningIn i pid jobs' := by
  obtain ⟨p, hp, hpid, hrunning⟩ := hrun
  rcases h.processesAt (i := i) with heq | heq
  · exact ⟨p, heq ▸ hp, hpid, hrunning⟩
  · refine ⟨p.resume, heq ▸ List.mem_map_of_mem hp, hpid, ?_⟩
    simp only [Process.running, Bool.and_eq_true, Bool.not_eq_true'] at hrunning ⊢
    exact ⟨hrunning.1, rfl⟩

/-- A child that has an entry keeps it. -/
theorem JobsKept.listed (hlisted : Listed pid jobs) : Listed pid jobs' := by
  obtain ⟨i, p, hp, hpid, hcompleted⟩ := hlisted
  rcases h.processesAt (i := i) with heq | heq
  · exact ⟨i, p, heq ▸ hp, hpid, hcompleted⟩
  · exact ⟨i, p.resume, heq ▸ List.mem_map_of_mem hp, hpid, hcompleted⟩

/-- The table does not become empty. -/
theorem JobsKept.ne_nil (hne : jobs ≠ []) : jobs' ≠ [] := by
  rintro rfl
  have h₀ := h 0
  cases jobs with
  | nil => exact hne rfl
  | cons job jobs => nomatch h₀

end

/-- An entry after a status has been recorded. -/
theorem mem_processesAt_recordStatus {t : List (List Process)} {e : StatusEvent} {i : Nat}
    {p : Process} (hp : p ∈ processesAt i t) :
    p ∈ processesAt i (recordStatus t e) ∨
      p.processId = e.processId ∧ p.record e.status ∈ processesAt i (recordStatus t e) := by
  have hprocs : ∀ {ps ps' : List Process}, recordInProcesses e ps = some ps' → ∀ p ∈ ps,
      p ∈ ps' ∨ p.processId = e.processId ∧ p.record e.status ∈ ps' := by
    intro ps
    induction ps with
    | nil => exact fun _ _ hp => absurd hp List.not_mem_nil
    | cons q ps ih =>
      intro ps' hrec p hp
      rw [recordInProcesses] at hrec
      split at hrec
      · rename_i hpid
        obtain rfl := Option.some.inj hrec
        rcases List.mem_cons.mp hp with rfl | hp
        · exact .inr ⟨hpid, List.mem_cons_self⟩
        · exact .inl (List.mem_cons_of_mem _ hp)
      · obtain ⟨qs, hqs, rfl⟩ := Option.map_eq_some_iff.mp hrec
        rcases List.mem_cons.mp hp with rfl | hp
        · exact .inl List.mem_cons_self
        · rcases ih hqs p hp with hp | ⟨hpid, hp⟩
          · exact .inl (List.mem_cons_of_mem _ hp)
          · exact .inr ⟨hpid, List.mem_cons_of_mem _ hp⟩
  have htable : ∀ {t' : List (List Process)}, recordInTable e t = some t' →
      p ∈ processesAt i t' ∨ p.processId = e.processId ∧ p.record e.status ∈ processesAt i t' := by
    induction t generalizing i with
    | nil =>
      intro t' hrec
      cases hrec
    | cons ps pss ih =>
      intro t' hrec
      rw [recordInTable] at hrec
      cases hps : recordInProcesses e ps with
      | some ps' =>
        rw [hps] at hrec
        obtain rfl := Option.some.inj hrec
        cases i with
        | zero => exact hprocs hps p hp
        | succ i => exact .inl hp
      | none =>
        rw [hps] at hrec
        obtain ⟨qss, hqss, rfl⟩ := Option.map_eq_some_iff.mp hrec
        cases i with
        | zero => exact .inl hp
        | succ i => exact ih hp hqss
  rw [recordStatus]
  cases hrec : recordInTable e t with
  | none => exact .inl hp
  | some t' => exact htable hrec

/-- A status of another child is recorded elsewhere. -/
theorem RunningIn.recordStatus {i : Nat} {pid : Int} {jobs jobs' : List Job}
    (h : RunningIn i pid jobs) {e : StatusEvent} (hne : e.processId ≠ pid)
    (hjobs : procTable jobs' = recordStatus (procTable jobs) e) : RunningIn i pid jobs' := by
  obtain ⟨p, hp, hpid, hrunning⟩ := h
  rcases mem_processesAt_recordStatus (e := e) hp with hp | ⟨heq, -⟩
  · exact ⟨p, by rw [hjobs]; exact hp, hpid, hrunning⟩
  · exact absurd (heq.symm.trans hpid) hne

/-- Only the end of a child completes its entry. -/
theorem Listed.recordStatus {pid : Int} {jobs jobs' : List Job} (h : Listed pid jobs)
    {e : StatusEvent} (hne : e.processId = pid → e.status.wifstopped = true)
    (hjobs : procTable jobs' = recordStatus (procTable jobs) e) : Listed pid jobs' := by
  obtain ⟨i, p, hp, hpid, hcompleted⟩ := h
  rcases mem_processesAt_recordStatus (e := e) hp with hp | ⟨heq, hp⟩
  · exact ⟨i, p, by rw [hjobs]; exact hp, hpid, hcompleted⟩
  · refine ⟨i, p.record e.status, by rw [hjobs]; exact hp, by simpa using hpid, ?_⟩
    rw [Process.record, if_pos (hne (heq.symm.trans hpid))]
    exact hcompleted

/-- A child with an entry is one of the pids of the table. -/
theorem Listed.mem_pids {pid : Int} {jobs : List Job} (h : Listed pid jobs) :
    pid ∈ pidsOf (procTable jobs) := by
  obtain ⟨i, p, hp, rfl, -⟩ := h
  unfold processesAt at hp
  cases hps : (procTable jobs)[i]? with
  | none => rw [hps] at hp; exact absurd hp List.not_mem_nil
  | some ps =>
    rw [hps] at hp
    exact List.mem_flatMap.mpr ⟨ps, List.mem_of_getElem? hps, List.mem_map_of_mem hp⟩

/-! ### The invariant -/

/-- A child in the foreground that lives and has still to call `tcsetpgrp`. -/
def Early (p : Proc Launched WaitStatus) : Prop :=
  p.data.background = false ∧ (p.data.phase = .forked ∨ p.data.phase = .grouped) ∧
    p.exited = false

/-- A child in the foreground that is behind its `tcsetpgrp`. -/
def Past (p : Proc Launched WaitStatus) : Prop :=
  p.data.background = false ∧ (p.data.phase = .holding ∨ p.data.phase = .started)

/-- What is true of every child.  An early one has not been stopped. -/
structure ChildOk (leader : Int) (p : Proc Launched WaitStatus) : Prop where
  first_pos : 0 < p.data.first
  pgid : p.data.pgid = p.data.first ∨
    p.data.pgid = 0 ∧ p.data.first = p.pid ∧ p.data.phase = .forked
  group : p.data.phase ≠ .forked → p.group = p.data.first
  early : Early p → p.stopped = false ∧ p.pending = none
  foreground : p.data.background = false → p.data.first ≠ leader

/-- The children have entries in the table and are in the groups of their jobs, but for the one
    that has just been forked. -/
structure ChildrenOk (newest : Option Int) (jobs : List Job) (S : Session Launched WaitStatus) :
    Prop where
  proper : S.Proper
  child : ∀ p ∈ S.procs, ChildOk S.leader p
  listed : ∀ p ∈ S.procs, newest ≠ some p.pid → Listed p.pid jobs ∧ p.group = p.data.first

/-- No child has still to give the terminal to its job. -/
def NoEarly (S : Session Launched WaitStatus) : Prop := ∀ p ∈ S.procs, ¬ Early p

/-- A job with the group `g` is being launched. -/
structure Launching (g : Int) (background : Bool) (S : Session Launched WaitStatus) : Prop where
  early : ∀ p ∈ S.procs, Early p → background = false ∧ p.data.first = g
  past : ∀ p ∈ S.procs, background = false → p.data.first = g → Past p → S.foreground = g
  foreground : background = true → S.foreground = S.leader

/-- The process that was forked first is there, in its group. -/
def Led (g : Int) (S : Session Launched WaitStatus) : Prop :=
  g = 0 ∨ ∃ p ∈ S.procs, p.pid = g ∧ p.group = g ∧ p.data.first = g

/-- The job at the head of the table has the group of its first process. -/
structure Head (jobs : List Job) : Prop where
  ne_nil : jobs ≠ []
  first : firstForked jobs = if groupAt 0 jobs = 0 then none else some (groupAt 0 jobs)

/-- The group of a job when `pid` has been forked for it. -/
def groupWith (pid g : Int) : Int := if g = 0 then pid else g

/-- The early children are running in the table. -/
def EarlyRunning (jobs : List Job) (S : Session Launched WaitStatus) : Prop :=
  ∀ p ∈ S.procs, Early p → RunningIn 0 p.pid jobs

/-- What is true where the shell is. -/
def Stage : ShellPc → List Job → Session Launched WaitStatus → Prop
  | .ready, _, S | .notifying, _, S => S.foreground = S.leader ∧ NoEarly S
  | .forking _ background, jobs, S =>
    Head jobs ∧ Launching (groupAt 0 jobs) background S ∧ Led (groupAt 0 jobs) S ∧
      EarlyRunning jobs S
  | .recording pid _ background, jobs, S =>
    Head jobs ∧ Launching (groupWith pid (groupAt 0 jobs)) background S ∧
      Led (groupAt 0 jobs) S ∧
      (∃ p ∈ S.procs, p.pid = pid ∧ p.data.first = groupWith pid (groupAt 0 jobs)) ∧
      ∀ p ∈ S.procs, Early p → p.pid ≠ pid → RunningIn 0 p.pid jobs
  | .giving i cont, jobs, S =>
    (cont = true ∧ NoEarly S) ∨
      (i = 0 ∧ Launching (groupAt 0 jobs) false S ∧ EarlyRunning jobs S)
  | .waiting i, jobs, S =>
    (∀ p ∈ S.procs, p.group = groupAt i jobs → S.foreground = groupAt i jobs) ∧
      ∀ p ∈ S.procs, Early p → i = 0 ∧ p.data.first = groupAt 0 jobs ∧ RunningIn 0 p.pid jobs
  | .taking, _, S => NoEarly S
  | .exited, _, _ => True

/-- The child that the shell has not recorded yet. -/
def ShellPc.newest : ShellPc → Option Int
  | .recording pid _ _ => some pid
  | _ => none

/-- The invariant. -/
structure Owned (s : TerminalState) : Prop where
  children : ChildrenOk s.pc.newest s.ctl.jobs s.session
  stage : Stage s.pc s.ctl.jobs s.session

/-! ### Steps that leave the children alone -/

variable {jobs jobs' : List Job} {S T : Session Launched WaitStatus} {newest : Option Int}

/-- What is known of the children does not depend on marks in the table. -/
theorem ChildrenOk.table (h : ChildrenOk newest jobs S) (hk : JobsKept jobs jobs') :
    ChildrenOk newest jobs' S :=
  ⟨h.proper, h.child, fun p hp hne => ⟨hk.listed (h.listed p hp hne).1, (h.listed p hp hne).2⟩⟩

/-- Nor does what is known of the job at its head. -/
theorem Head.table (h : Head jobs) (hk : JobsKept jobs jobs') : Head jobs' :=
  ⟨hk.ne_nil h.ne_nil, by rw [hk.firstForked, hk.groupAt]; exact h.first⟩

/-- Nor that the early children are running. -/
theorem EarlyRunning.table (h : EarlyRunning jobs S) (hk : JobsKept jobs jobs') :
    EarlyRunning jobs' S := fun p hp he => hk.running (h p hp he)

/-- The shell stays where it is, and so do the children. -/
theorem Stage.table {pc : ShellPc} (h : Stage pc jobs S) (hk : JobsKept jobs jobs') :
    Stage pc jobs' S := by
  cases pc with
  | ready => exact h
  | notifying => exact h
  | forking rest background =>
    obtain ⟨hhead, hlaunch, hled, hrun⟩ := h
    refine ⟨hhead.table hk, ?_, ?_, hrun.table hk⟩
    · rw [hk.groupAt]
      exact hlaunch
    · rw [hk.groupAt]
      exact hled
  | recording pid rest background =>
    obtain ⟨hhead, hlaunch, hled, hnew, hrun⟩ := h
    refine ⟨hhead.table hk, ?_, ?_, ?_, fun p hp he hne => hk.running (hrun p hp he hne)⟩
    · rw [hk.groupAt]
      exact hlaunch
    · rw [hk.groupAt]
      exact hled
    · rw [hk.groupAt]
      exact hnew
  | giving i cont =>
    refine h.imp id ?_
    rintro ⟨hi, hlaunch, hrun⟩
    refine ⟨hi, ?_, hrun.table hk⟩
    rw [hk.groupAt]
    exact hlaunch
  | waiting i =>
    obtain ⟨hgroup, hearly⟩ := h
    refine ⟨?_, fun p hp he => ?_⟩
    · rw [hk.groupAt]
      exact hgroup
    · obtain ⟨hi, hfirst, hrun⟩ := hearly p hp he
      exact ⟨hi, by rw [hk.groupAt]; exact hfirst, hk.running hrun⟩
  | taking => exact h
  | exited => trivial

/-! ### Steps of a child -/

/-- A change of one child that puts it in no group but that of its job, and does not make it
    early. -/
structure Advance (S : Session Launched WaitStatus) (p q : Proc Launched WaitStatus) : Prop where
  pid : q.pid = p.pid
  group : q.group = p.group ∨ q.group = p.data.first
  first : q.data.first = p.data.first
  ok : ChildOk S.leader q
  early : Early q → Early p
  past : Past q → Past p ∨ S.foreground = p.data.first

/-- A child that has called `setpgid` knows its group. -/
theorem ChildOk.pgid_eq {leader : Int} {p : Proc Launched WaitStatus} (h : ChildOk leader p)
    (hphase : p.data.phase ≠ .forked) : p.data.pgid = p.data.first :=
  h.pgid.resolve_right fun hforked => hphase hforked.2.2

/-- A child in its group gets behind its `tcsetpgrp`: it is in the background, or was there
    already, or its group has the terminal. -/
theorem Advance.of_phase {p : Proc Launched WaitStatus} {phase : Phase}
    (hok : ChildOk S.leader p) (hforked : p.data.phase ≠ .forked)
    (hphase : phase = .holding ∨ phase = .started)
    (hpast : p.data.background = true ∨ p.data.phase = .holding ∨ S.foreground = p.data.first) :
    Advance S p { p with data := { p.data with phase := phase } } := by
  have hearly : ¬ Early { p with data := { p.data with phase := phase } } := by
    rintro ⟨-, hbefore, -⟩
    rcases hphase with rfl | rfl <;> simp at hbefore
  refine ⟨rfl, .inl rfl, rfl, ⟨hok.first_pos, .inl (hok.pgid_eq hforked),
    fun _ => hok.group hforked, fun he => absurd he hearly, hok.foreground⟩,
    fun he => absurd he hearly, ?_⟩
  rintro ⟨hbg, -⟩
  rcases hpast with hbackground | hholding | hfg
  · exact absurd (hbg.symm.trans hbackground) Bool.false_ne_true
  · exact .inl ⟨hbg, .inl hholding⟩
  · exact .inr hfg

section
variable {pid : Int} {f : Proc Launched WaitStatus → Proc Launched WaitStatus}
  (hf : ∀ p ∈ S.procs, p.pid = pid → Advance S p (f p))
include hf

/-- Every child behind the change comes from one in front of it. -/
theorem update_from {q : Proc Launched WaitStatus} (hq : q ∈ (S.update pid f).procs) :
    ∃ p ∈ S.procs, q.pid = p.pid ∧ (q.group = p.group ∨ q.group = p.data.first) ∧
      q.data.first = p.data.first ∧ (Early q → Early p) ∧
      (Past q → Past p ∨ S.foreground = p.data.first) := by
  rcases Session.mem_update.mp hq with ⟨p, hp, hpid, rfl⟩ | ⟨hq, -⟩
  · have h := hf p hp hpid
    exact ⟨p, hp, h.pid, h.group, h.first, h.early, h.past⟩
  · exact ⟨q, hq, rfl, .inl rfl, rfl, id, .inl⟩

/-- Every child in front of the change is still there. -/
theorem update_to {p : Proc Launched WaitStatus} (hp : p ∈ S.procs) :
    ∃ q ∈ (S.update pid f).procs, q.pid = p.pid ∧ (q.group = p.group ∨ q.group = p.data.first) ∧
      q.data.first = p.data.first := by
  by_cases hpid : p.pid = pid
  · have h := hf p hp hpid
    exact ⟨f p, Session.mem_update.mpr (.inl ⟨p, hp, hpid, rfl⟩), h.pid, h.group, h.first⟩
  · exact ⟨p, Session.mem_update.mpr (.inr ⟨hp, hpid⟩), rfl, .inl rfl, rfl⟩

/-- A child advances: the children are still as they should be. -/
theorem ChildrenOk.update (h : ChildrenOk newest jobs S) (hpid : ∀ p, (f p).pid = p.pid) :
    ChildrenOk newest jobs (S.update pid f) where
  proper := h.proper.update hpid
  child := Session.forall_update h.child (fun p hp hpid _ => (hf p hp hpid).ok) fun _ _ hp => hp
  listed q hq hne := by
    obtain ⟨p, hp, hpid, hgroup, hfirst, -, -⟩ := update_from hf hq
    obtain ⟨hlisted, hg⟩ := h.listed p hp (by rwa [← hpid])
    refine ⟨by rw [hpid]; exact hlisted, ?_⟩
    rcases hgroup with hgroup | hgroup
    · rw [hgroup, hfirst, hg]
    · rw [hgroup, hfirst]

/-- An advance makes no child early. -/
theorem NoEarly.update (h : NoEarly S) : NoEarly (S.update pid f) := by
  intro q hq he
  obtain ⟨p, hp, -, -, -, hearly, -⟩ := update_from hf hq
  exact h p hp (hearly he)

/-- A child of the job that is being launched advances. -/
theorem Launching.update {g : Int} {background : Bool} (h : Launching g background S) :
    Launching g background (S.update pid f) where
  early q hq he := by
    obtain ⟨p, hp, -, -, hfirst, hearly, -⟩ := update_from hf hq
    rw [hfirst]
    exact h.early p hp (hearly he)
  past q hq hbg hg hpast := by
    obtain ⟨p, hp, -, -, hfirst, -, hpast'⟩ := update_from hf hq
    rcases hpast' hpast with hpast | hfg
    · exact h.past p hp hbg (hfirst.symm.trans hg) hpast
    · exact hfg.trans (hfirst.symm.trans hg)
  foreground := h.foreground

/-- The first process of the job stays in its group. -/
theorem Led.update {g : Int} (h : Led g S) : Led g (S.update pid f) := by
  rcases h with hg | ⟨p, hp, hpid, hgroup, hfirst⟩
  · exact .inl hg
  · obtain ⟨q, hq, hqpid, hqgroup, hqfirst⟩ := update_to hf hp
    refine .inr ⟨q, hq, hqpid.trans hpid, ?_, hqfirst.trans hfirst⟩
    rcases hqgroup with hqgroup | hqgroup
    · exact hqgroup.trans hgroup
    · exact hqgroup.trans hfirst

/-- Fewer children are early than before. -/
theorem EarlyRunning.update (h : EarlyRunning jobs S) : EarlyRunning jobs (S.update pid f) := by
  intro q hq he
  obtain ⟨p, hp, hpid, -, -, hearly, -⟩ := update_from hf hq
  rw [hpid]
  exact h p hp (hearly he)

/-- **A child advances**, wherever the shell is. -/
theorem Stage.update {pc : ShellPc} (hchildren : ChildrenOk pc.newest jobs S)
    (h : Stage pc jobs S) :
    Stage pc jobs (S.update pid f) := by
  cases pc with
  | ready => exact ⟨h.1, NoEarly.update hf h.2⟩
  | notifying => exact ⟨h.1, NoEarly.update hf h.2⟩
  | forking rest background =>
    obtain ⟨hhead, hlaunch, hled, hrun⟩ := h
    exact ⟨hhead, Launching.update hf hlaunch, Led.update hf hled, EarlyRunning.update hf hrun⟩
  | recording pid' rest background =>
    obtain ⟨hhead, hlaunch, hled, ⟨p, hp, hpid, hfirst⟩, hrun⟩ := h
    obtain ⟨q, hq, hqpid, -, hqfirst⟩ := update_to hf hp
    refine ⟨hhead, Launching.update hf hlaunch, Led.update hf hled,
      ⟨q, hq, hqpid.trans hpid, hqfirst.trans hfirst⟩, fun q hq he hne => ?_⟩
    obtain ⟨p, hp, hpid, -, -, hearly, -⟩ := update_from hf hq
    rw [hpid] at hne ⊢
    exact hrun p hp (hearly he) hne
  | giving i cont =>
    rcases h with ⟨hcont, hno⟩ | ⟨hi, hlaunch, hrun⟩
    · exact .inl ⟨hcont, NoEarly.update hf hno⟩
    · exact .inr ⟨hi, Launching.update hf hlaunch, EarlyRunning.update hf hrun⟩
  | waiting i =>
    obtain ⟨hgroup, hearly⟩ := h
    refine ⟨fun q hq hg => ?_, fun q hq he => ?_⟩
    · obtain ⟨p, hp, -, hqgroup, -⟩ := update_from hf hq
      refine hgroup p hp ?_
      -- the child was in the group of its job before
      rcases hqgroup with hqgroup | hqgroup
      · exact hqgroup.symm.trans hg
      · exact (hchildren.listed p hp (by simp [ShellPc.newest])).2.trans (hqgroup.symm.trans hg)
    · obtain ⟨p, hp, hpid, -, hfirst, hpearly, -⟩ := update_from hf hq
      rw [hpid, hfirst]
      exact hearly p hp (hpearly he)
  | taking => exact NoEarly.update hf h
  | exited => trivial

end

/-- A child gives the terminal to its job. -/
theorem Stage.tcsetpgrp {pc : ShellPc} (h : Stage pc jobs S) {p : Proc Launched WaitStatus}
    (hp : p ∈ S.procs) (he : Early p) (hgroup : p.group = p.data.first) :
    (S.tcsetpgrp p.data.first).foreground = p.data.first ∧
      Stage pc jobs (S.tcsetpgrp p.data.first) := by
  have hfg : (S.tcsetpgrp p.data.first).foreground = p.data.first :=
    Session.foreground_tcsetpgrp (.inr ⟨p, hp, hgroup⟩)
  have hlaunch : ∀ {g background}, Launching g background S →
      Launching g background (S.tcsetpgrp p.data.first) := by
    intro g background hl
    obtain ⟨hbackground, hfirst⟩ := hl.early p hp he
    refine ⟨fun q hq => ?_, fun _ _ _ _ _ => hfg.trans hfirst, fun hb => ?_⟩
    · rw [Session.procs_tcsetpgrp] at hq
      exact hl.early q hq
    · exact absurd (hbackground.symm.trans hb) Bool.false_ne_true
  have hled : ∀ {g}, Led g S → Led g (S.tcsetpgrp p.data.first) := by
    intro g hl
    rw [Led, Session.procs_tcsetpgrp]
    exact hl
  have hrunning : EarlyRunning jobs S → EarlyRunning jobs (S.tcsetpgrp p.data.first) := by
    intro hr
    rw [EarlyRunning, Session.procs_tcsetpgrp]
    exact hr
  refine ⟨hfg, ?_⟩
  cases pc with
  | ready => exact absurd he (h.2 p hp)
  | notifying => exact absurd he (h.2 p hp)
  | forking rest background =>
    obtain ⟨hhead, hl, hl', hr⟩ := h
    exact ⟨hhead, hlaunch hl, hled hl', hrunning hr⟩
  | recording pid rest background =>
    obtain ⟨hhead, hl, hl', hnew, hr⟩ := h
    refine ⟨hhead, hlaunch hl, hled hl', ?_, ?_⟩
    · rw [Session.procs_tcsetpgrp]
      exact hnew
    · rw [Session.procs_tcsetpgrp]
      exact hr
  | giving i cont =>
    rcases h with ⟨-, hno⟩ | ⟨hi, hl, hr⟩
    · exact absurd he (hno p hp)
    · exact .inr ⟨hi, hlaunch hl, hrunning hr⟩
  | waiting i =>
    obtain ⟨hg, hearly⟩ := h
    obtain ⟨rfl, hfirst, -⟩ := hearly p hp he
    refine ⟨fun _ _ _ => hfg.trans hfirst, ?_⟩
    rw [Session.procs_tcsetpgrp]
    exact hearly
  | taking => exact absurd he (h p hp)
  | exited => trivial

/-- Who has the terminal says nothing about the children. -/
theorem ChildrenOk.tcsetpgrp (h : ChildrenOk newest jobs S) (g : Int) :
    ChildrenOk newest jobs (S.tcsetpgrp g) := by
  refine ⟨h.proper.tcsetpgrp g, ?_, ?_⟩
  · rw [Session.procs_tcsetpgrp, Session.leader_tcsetpgrp]
    exact h.child
  · rw [Session.procs_tcsetpgrp]
    exact h.listed

/-- A child can join the group of its job. -/
theorem Owned.hasGroup {s : TerminalState} (h : Owned s) {p : Proc Launched WaitStatus}
    (hp : p ∈ s.session.procs) : p.data.first = p.pid ∨ s.session.HasGroup p.data.first := by
  by_cases hnew : s.pc.newest = some p.pid
  · -- the child that has just been forked; the first one of the job is there
    obtain ⟨pid, rest, background, hpc⟩ : ∃ pid rest background,
        s.pc = .recording pid rest background := by
      cases hpc : s.pc with
      | recording pid rest background => exact ⟨pid, rest, background, rfl⟩
      | _ => rw [hpc] at hnew; exact absurd hnew (by simp [ShellPc.newest])
    have hstage := h.stage
    rw [hpc] at hnew hstage
    obtain rfl : pid = p.pid := Option.some.inj hnew
    obtain ⟨-, -, hled, ⟨q, hq, hqpid, hfirst⟩, -⟩ := hstage
    obtain rfl := h.children.proper.eq_of_pid hq hp hqpid
    rw [hfirst, groupWith]
    split
    · exact .inl rfl
    · rename_i hne
      rcases hled with hzero | ⟨r, hr, -, hgroup, -⟩
      · exact absurd hzero hne
      · exact .inr (.inr ⟨r, hr, hgroup⟩)
  · exact .inr (.inr ⟨p, hp, (h.children.listed p hp hnew).2⟩)

/-- **A call of a child.** -/
theorem Owned.childCall {s : TerminalState} (h : Owned s) {p : Proc Launched WaitStatus}
    (hp : p ∈ s.session.procs) (hlives : p.exited = false)
    (hcall : childCall s.session p = some T) : Owned { s with session := T } := by
  have hok := h.children.child p hp
  have heq : ∀ q ∈ s.session.procs, q.pid = p.pid → q = p :=
    fun q hq hpid => h.children.proper.eq_of_pid hq hp hpid
  rw [Ish.childCall] at hcall
  cases hphase : p.data.phase with
  | forked =>
    rw [hphase] at hcall
    obtain rfl := Option.some.inj hcall
    have hpgid : (if p.data.pgid = 0 then p.pid else p.data.pgid) = p.data.first := by
      rcases hok.pgid with hpg | ⟨hpg, hfirst, -⟩
      · rw [hpg, if_neg (Int.ne_of_gt hok.first_pos)]
      · rw [if_pos hpg, hfirst]
    have hpid : ∀ q : Proc Launched WaitStatus, { q with group := p.data.first }.pid = q.pid :=
      fun _ => rfl
    rw [hpgid, Session.setpgid, if_pos (h.hasGroup hp), Session.update_update hpid]
    have hadvance : ∀ q ∈ s.session.procs, q.pid = p.pid → Advance s.session q
        { q with
          group := p.data.first
          data := { q.data with pgid := p.data.first, phase := .grouped } } := by
      intro q hq hpid
      obtain rfl := heq q hq hpid
      refine ⟨rfl, .inr rfl, rfl, ⟨hok.first_pos, .inl rfl, fun _ => rfl, ?_, hok.foreground⟩,
        ?_, ?_⟩
      · rintro ⟨hbg, -, hexited⟩
        exact hok.early ⟨hbg, .inl hphase, hexited⟩
      · rintro ⟨hbg, -, hexited⟩
        exact ⟨hbg, .inl hphase, hexited⟩
      · rintro ⟨-, hpast⟩
        exact absurd hpast (by simp)
    exact ⟨ChildrenOk.update hadvance h.children fun _ => rfl,
      Stage.update hadvance h.children h.stage⟩
  | grouped =>
    rw [hphase] at hcall
    obtain rfl := Option.some.inj hcall
    have hforked : p.data.phase ≠ .forked := by rw [hphase]; simp
    cases hbackground : p.data.background with
    | true =>
      have hadvance : ∀ q ∈ s.session.procs, q.pid = p.pid → Advance s.session q
          { q with data := { q.data with phase := .holding } } := by
        intro q hq hpid
        obtain rfl := heq q hq hpid
        exact .of_phase hok hforked (.inl rfl) (.inl hbackground)
      rw [if_pos rfl]
      exact ⟨ChildrenOk.update hadvance h.children fun _ => rfl,
        Stage.update hadvance h.children h.stage⟩
    | false =>
      obtain ⟨hfg, hstage⟩ :=
        h.stage.tcsetpgrp hp ⟨hbackground, .inr hphase, hlives⟩ (hok.group hforked)
      have hchildren := h.children.tcsetpgrp p.data.first
      have hadvance : ∀ q ∈ (s.session.tcsetpgrp p.data.first).procs, q.pid = p.pid →
          Advance (s.session.tcsetpgrp p.data.first) q
            { q with data := { q.data with phase := .holding } } := by
        intro q hq hpid
        rw [Session.procs_tcsetpgrp] at hq
        obtain rfl := heq q hq hpid
        rw [← Session.leader_tcsetpgrp s.session q.data.first] at hok
        exact .of_phase hok hforked (.inl rfl) (.inr (.inr hfg))
      rw [if_neg (by simp), hok.pgid_eq hforked]
      exact ⟨ChildrenOk.update hadvance hchildren fun _ => rfl,
        Stage.update hadvance hchildren hstage⟩
  | holding =>
    rw [hphase] at hcall
    obtain rfl := Option.some.inj hcall
    have hadvance : ∀ q ∈ s.session.procs, q.pid = p.pid → Advance s.session q
        { q with data := { q.data with phase := .started } } := by
      intro q hq hpid
      obtain rfl := heq q hq hpid
      exact .of_phase hok (by rw [hphase]; simp) (.inr rfl) (.inr (.inl hphase))
    exact ⟨ChildrenOk.update hadvance h.children fun _ => rfl,
      Stage.update hadvance h.children h.stage⟩
  | started =>
    rw [hphase] at hcall
    cases hcall

/-! ### Signals and ends -/

/-- `SIGSTOP` comes to no child that has still to give the terminal to its job. -/
def NoEarlyStop (s : TerminalState) (e : TerminalEvent) : Prop :=
  ∀ pid, e = .stop pid SIGSTOP → ∀ p ∈ s.session.procs, p.pid = pid → ¬ Early p

/-- No child is stopped early, and none that has started, a built-in `fg` or a program, calls
    `tcsetpgrp`. -/
structure Undisturbed (s : TerminalState) (e : TerminalEvent) : Prop where
  noEarlyStop : NoEarlyStop s e
  noCall : ∀ pid pgid, e ≠ .tcsetpgrp pid pgid

/-- A change of the state of one child that leaves it where it is in `ExecProcess`. -/
theorem ChildOk.advance {p q : Proc Launched WaitStatus} (hok : ChildOk S.leader p)
    (hpid : q.pid = p.pid) (hgroup : q.group = p.group) (hdata : q.data = p.data)
    (hearly : Early q → Early p ∧ q.stopped = false ∧ q.pending = none) : Advance S p q where
  pid := hpid
  group := .inl hgroup
  first := by rw [hdata]
  ok := by
    refine ⟨?_, ?_, ?_, fun he => (hearly he).2, ?_⟩
    · rw [hdata]
      exact hok.first_pos
    · rw [hdata, hpid]
      exact hok.pgid
    · rw [hdata, hgroup]
      exact hok.group
    · rw [hdata]
      exact hok.foreground
  early he := (hearly he).1
  past hpast := by
    rw [Past, hdata] at hpast
    exact .inl hpast

/-- **A step of a child**, a signal, or its end. -/
theorem Owned.childEvent {s : TerminalState} (h : Owned s) {e : TerminalEvent}
    (hguard : Undisturbed s e) (hstep : childEvent s.session e = some T) :
    Owned { s with session := T } := by
  have hupdate : ∀ {pid : Int} {f : Proc Launched WaitStatus → Proc Launched WaitStatus},
      (∀ p, (f p).pid = p.pid) → (∀ p, (f p).group = p.group) → (∀ p, (f p).data = p.data) →
      (∀ p ∈ s.session.procs, p.pid = pid → Early (f p) →
        Early p ∧ (f p).stopped = false ∧ (f p).pending = none) →
      Owned { s with session := s.session.update pid f } := by
    intro pid f hpid hgroup hdata hearly
    have hadvance : ∀ p ∈ s.session.procs, p.pid = pid → Advance s.session p (f p) :=
      fun p hp hppid => (h.children.child p hp).advance (hpid p) (hgroup p) (hdata p)
        (hearly p hp hppid)
    exact ⟨ChildrenOk.update hadvance h.children hpid, Stage.update hadvance h.children h.stage⟩
  cases e with
  | child pid =>
    obtain ⟨p, hfind, hstep⟩ := Option.bind_eq_some_iff.mp hstep
    obtain ⟨hstill, hcall⟩ := Option.ite_none_left_eq_some.mp hstep
    obtain ⟨-, hlives⟩ := not_or.mp hstill
    exact h.childCall (Session.find_spec hfind).1 (by simpa using hlives) hcall
  | stop pid sig =>
    obtain ⟨p, hfind, hstep⟩ := Option.bind_eq_some_iff.mp hstep
    obtain ⟨-, hstep⟩ := Option.ite_none_left_eq_some.mp hstep
    obtain ⟨hp, hpid⟩ := Session.find_spec hfind
    by_cases hignored : sig ≠ SIGSTOP ∧ p.data.phase ≠ .started
    · rw [if_pos hignored] at hstep
      obtain rfl := Option.some.inj hstep
      exact h
    · rw [if_neg hignored] at hstep
      obtain rfl := Option.some.inj hstep
      refine hupdate (fun _ => rfl) (fun _ => rfl) (fun _ => rfl) fun q hq hqpid he => ?_
      obtain rfl := h.children.proper.eq_of_pid hq hp (hqpid.trans hpid.symm)
      by_cases hsig : sig = SIGSTOP
      · exact absurd he (hguard.noEarlyStop pid (by rw [hsig]) q hq hqpid)
      · have hstarted : q.data.phase = .started := by
          by_contra hne
          exact hignored ⟨hsig, hne⟩
        obtain ⟨-, hphase, -⟩ := he
        rw [show ({ q with stopped := true, pending := some (WaitStatus.stopped sig) } :
          Proc Launched WaitStatus).data = q.data from rfl, hstarted] at hphase
        exact absurd hphase (by simp)
  | continued pid =>
    obtain ⟨p, -, hstep⟩ := Option.bind_eq_some_iff.mp hstep
    obtain ⟨-, hstep⟩ := Option.ite_none_left_eq_some.mp hstep
    obtain rfl := Option.some.inj hstep
    refine hupdate (fun _ => rfl) (fun _ => rfl) (fun _ => rfl) fun q hq _ he => ?_
    obtain ⟨-, hpending⟩ := (h.children.child q hq).early he
    exact ⟨he, rfl, by simp [hpending]⟩
  | exit pid status =>
    obtain ⟨p, -, hstep⟩ := Option.bind_eq_some_iff.mp hstep
    obtain ⟨-, hstep⟩ := Option.ite_none_left_eq_some.mp hstep
    obtain rfl := Option.some.inj hstep
    exact hupdate (fun _ => rfl) (fun _ => rfl) (fun _ => rfl) fun _ _ _ he =>
      absurd he.2.2 (by simp)
  | tcsetpgrp pid pgid => exact absurd rfl (hguard.noCall pid pgid)
  | _ => cases hstep

/-! ### `waitpid` -/

/-- A child behind `waitpid` was there before, with another pid or as one whose stop has been
    reported. -/
theorem ChildrenOk.waitpid (h : ChildrenOk none jobs S) {pid : Int} {status : WaitStatus}
    (hwait : S.waitpid WaitStatus.wifstopped pid = some (status, T)) :
    T.leader = S.leader ∧ T.foreground = S.foreground ∧ 0 < pid ∧ Listed pid jobs ∧
      (∀ q ∈ T.procs, ∃ p ∈ S.procs, q.group = p.group ∧ q.data = p.data ∧ q.pid = p.pid ∧
        (Early q → Early p ∧ q.pid ≠ pid)) ∧
      ∀ table, (∀ pid', (pid = pid' → status.wifstopped = true) → Listed pid' jobs →
        Listed pid' table) → ChildrenOk none table T := by
  obtain ⟨p, hp, hpid, hpending, hleader, hfg, hproper, hmem⟩ := Session.waitpid_spec h.proper hwait
  obtain ⟨hlisted, hgroup⟩ := h.listed p hp (by simp)
  -- a child with a status to report is not an early one
  have hlate : ¬ Early p := by
    intro he
    obtain ⟨-, hnone⟩ := (h.child p hp).early he
    exact absurd (hpending.symm.trans hnone) (by simp)
  refine ⟨hleader, hfg, hpid ▸ h.proper.pos p hp, hpid ▸ hlisted, fun q hq => ?_,
    fun table hkeep => ?_⟩
  · rcases hmem q hq with ⟨hq, hne⟩ | ⟨-, rfl⟩
    · exact ⟨q, hq, rfl, rfl, rfl, fun he => ⟨he, hne⟩⟩
    · exact ⟨p, hp, rfl, rfl, rfl, fun he => absurd he hlate⟩
  · refine ⟨hproper, fun q hq => ?_, fun q hq _ => ?_⟩
    · rw [hleader]
      rcases hmem q hq with ⟨hq, -⟩ | ⟨-, rfl⟩
      · exact h.child q hq
      · obtain ⟨hpos, hpgid, hg, -, hforeground⟩ := h.child p hp
        exact ⟨hpos, hpgid, hg, fun he => absurd he hlate, hforeground⟩
    · rcases hmem q hq with ⟨hq, hne⟩ | ⟨hstop, rfl⟩
      · obtain ⟨hlisted', hgroup'⟩ := h.listed q hq (by simp)
        exact ⟨hkeep q.pid (fun heq => absurd heq.symm hne) hlisted', hgroup'⟩
      · exact ⟨hkeep p.pid (fun _ => hstop) hlisted, hgroup⟩

/-- A status that was recorded, on the table of processes. -/
theorem procTable_of_success {e : StatusEvent} {jobs jobs' : List Job}
    (h : updatedProcessStatus e jobs = (.SUCCESS, jobs')) :
    procTable jobs' = recordStatus (procTable jobs) e := by
  have hmap := recordInJobs_procTable e jobs
  rw [recordInJobs_of_success h, Option.map_some] at hmap
  rw [recordStatus, ← hmap]
  rfl

/-- A turn of the wait loop. -/
theorem makeJobForeGroundCond_cases (i : Nat) (e : StatusEvent) (jobs : List Job) :
    (∃ jobs', makeJobForeGroundCond i e jobs = (true, jobs') ∧
      procTable jobs' = recordStatus (procTable jobs) e ∧
      jobs'.map Job.processGroupId = jobs.map Job.processGroupId) ∨
    (∃ jobs', makeJobForeGroundCond i e jobs = (false, jobs') ∧ JobsKept jobs jobs') := by
  cases hcond : makeJobForeGroundCond i e jobs with | mk again jobs'
  cases again with
  | true =>
    refine .inl ⟨jobs', rfl, ?_, ?_⟩
    · have hproc := procTable_updatedJobStatusAt i jobs
      unfold makeJobForeGroundCond at hcond
      cases hat : updatedJobStatusAt i jobs with | mk st jobs₁
      rw [hat] at hcond hproc
      cases st with
      | RUNNING =>
        obtain ⟨hsucc, rfl⟩ := Prod.mk.inj hcond
        rw [← hproc]
        exact procTable_of_success (Prod.ext (by simpa using hsucc) rfl)
      | STOPPED => exact absurd hcond (by simp)
      | COMPLETED => exact absurd hcond (by simp)
    · exact (touches_waitAgain (s := ⟨jobs, 0, [], [], [], []⟩) hcond).map_jobs
        (fun _ _ hmark => hmark.processGroupId) (fun _ _ => rfl)
  | false =>
    refine .inr ⟨jobs', rfl, ?_⟩
    rw [makeJobForeGroundCond_false hcond]
    intro j
    rw [getElem?_updatedJobStatusAt]
    cases jobs[j]? with
    | none => exact .none
    | some job =>
      show Option.Rel JobKept (some job) (some (if i = j then (updatedJobStatus job).2 else job))
      split
      · exact .some (updatedJobStatus_marked job).kept
      · exact .some ⟨rfl, .inl rfl⟩

/-- The groups of the jobs, read from the list of groups. -/
theorem groupAt_of_map (h : jobs'.map Job.processGroupId = jobs.map Job.processGroupId) (i : Nat) :
    groupAt i jobs' = groupAt i jobs := by
  rw [groupAt, groupAt, ← List.getElem?_map, ← List.getElem?_map, h]

/-- A job with a running process is waited for. -/
theorem makeJobForeGroundCond_of_running {i : Nat} {pid : Int} {e : StatusEvent}
    (hrun : RunningIn i pid jobs) (hpos : 0 < e.processId) (hlisted : Listed e.processId jobs) :
    (makeJobForeGroundCond i e jobs).1 = true := by
  obtain ⟨p, hp, -, hrunning⟩ := hrun
  obtain ⟨jobs', hcond, -⟩ := makeJobForeGroundCond_running i e jobs
    (List.any_eq_true.mpr ⟨p, hp, hrunning⟩) hpos hlisted.mem_pids
  rw [hcond]

/-- **`waitpid` in `MakeJobForeGround`.** -/
theorem Owned.wait {ctl : JobControl} {i : Nat} {pid : Int} {status : WaitStatus}
    (h : Owned ⟨ctl, S, .waiting i⟩)
    (hwait : S.waitpid WaitStatus.wifstopped pid = some (status, T)) :
    (∀ jobs' ctl', makeJobForeGroundCond i ⟨pid, status⟩ ctl.jobs = (true, jobs') →
        ctl'.jobs = jobs' → Owned ⟨ctl', T, .waiting i⟩) ∧
      ∀ jobs' ctl', makeJobForeGroundCond i ⟨pid, status⟩ ctl.jobs = (false, jobs') →
        ctl'.jobs = jobs' → Owned ⟨ctl', T, .taking⟩ := by
  obtain ⟨hchildren, hgroup, hearly⟩ := h
  obtain ⟨hleader, hfg, hpos, hlisted, hmem, hT⟩ := ChildrenOk.waitpid hchildren hwait
  constructor
  · rintro jobs' ctl' hcond rfl
    obtain ⟨jobs₁, hcond', htable, hgroups⟩ | ⟨jobs₁, hcond', -⟩ :=
      makeJobForeGroundCond_cases i ⟨pid, status⟩ ctl.jobs
    · obtain rfl := congrArg Prod.snd (hcond'.symm.trans hcond)
      refine ⟨hT _ fun pid' hstop hl => hl.recordStatus hstop htable, fun q hq hg => ?_,
        fun q hq he => ?_⟩
      · obtain ⟨p, hp, hpgroup, -⟩ := hmem q hq
        rw [groupAt_of_map hgroups] at hg ⊢
        exact hfg.trans (hgroup p hp (hpgroup.symm.trans hg))
      · obtain ⟨p, hp, -, hdata, hppid, hpearly⟩ := hmem q hq
        obtain ⟨hpe, hne⟩ := hpearly he
        obtain ⟨hi, hfirst, hrun⟩ := hearly p hp hpe
        rw [groupAt_of_map hgroups, hdata, hppid]
        rw [hppid] at hne
        exact ⟨hi, hfirst, hrun.recordStatus hne.symm htable⟩
    · exact absurd (congrArg Prod.fst (hcond.symm.trans hcond')) (by simp)
  · rintro jobs' ctl' hcond rfl
    obtain ⟨jobs₁, hcond', -⟩ | ⟨jobs₁, hcond', hk⟩ :=
      makeJobForeGroundCond_cases i ⟨pid, status⟩ ctl.jobs
    · exact absurd (congrArg Prod.fst (hcond.symm.trans hcond')) (by simp)
    · obtain rfl := congrArg Prod.snd (hcond'.symm.trans hcond)
      refine ⟨hT _ fun pid' _ hl => hk.listed hl, fun q hq he => ?_⟩
      -- a job with an early child runs, and the status has an entry to go to
      obtain ⟨p, hp, -, -, -, hpearly⟩ := hmem q hq
      obtain ⟨hi, -, hrun⟩ := hearly p hp (hpearly he).1
      subst hi
      have htrue := makeJobForeGroundCond_of_running (e := ⟨pid, status⟩) hrun hpos hlisted
      rw [hcond] at htrue
      exact absurd htrue (by simp)

/-! ### Steps of the shell -/

/-- A child has an entry in some job of the table. -/
theorem listed_iff {pid : Int} {jobs : List Job} : Listed pid jobs ↔
    ∃ job ∈ jobs, ∃ p ∈ job.process, p.processId = pid ∧ p.completed = false := by
  constructor
  · rintro ⟨i, p, hp, hpid, hcompleted⟩
    unfold processesAt procTable at hp
    rw [List.getElem?_map] at hp
    cases hjob : jobs[i]? with
    | none => rw [hjob] at hp; exact absurd hp List.not_mem_nil
    | some job =>
      rw [hjob] at hp
      exact ⟨job, List.mem_of_getElem? hjob, p, hp, hpid, hcompleted⟩
  · rintro ⟨job, hjob, p, hp, hpid, hcompleted⟩
    obtain ⟨i, hi⟩ := List.mem_iff_getElem?.mp hjob
    refine ⟨i, p, ?_, hpid, hcompleted⟩
    unfold processesAt procTable
    rw [List.getElem?_map, hi]
    exact hp

/-- A job with an entry that is not completed stays in the table. -/
theorem Listed.sweep {pid : Int} {ctl : JobControl} (h : Listed pid ctl.jobs) :
    Listed pid (funcJobNotification [] ctl).jobs := by
  obtain ⟨job, hjob, p, hp, hpid, hcompleted⟩ := listed_iff.mp h
  have hstays : (updatedJobStatus job).1 ≠ .COMPLETED := by
    rw [updatedJobStatus_fst, classify]
    intro hc
    split at hc
    · exact absurd hc (by simp)
    · rename_i hrunning
      split at hc
      · exact absurd hc (by simp)
      · rename_i hstopped
        have hnot : p.running = false := by
          by_contra hne
          exact hrunning (List.any_eq_true.mpr ⟨p, hp, by simpa using hne⟩)
        have hnot' : p.stopped = false := by
          by_contra hne
          exact hstopped (List.any_eq_true.mpr ⟨p, hp, by simpa using hne⟩)
        simp [Process.running, hcompleted, hnot'] at hnot
  have hswept : (sweepJob job).2 = some (sweptJob job) := by
    rw [sweepJob_snd, if_neg hstays]
  refine listed_iff.mpr ⟨sweptJob job, List.mem_filterMap.mpr ⟨job, hjob, hswept⟩, p, ?_, hpid,
    hcompleted⟩
  rw [(sweepJob_marked hswept).process]
  exact hp

/-- **The sweep at the prompt.** -/
theorem Owned.sweep {ctl : JobControl} (hchildren : ChildrenOk none ctl.jobs S)
    (hstage : S.foreground = S.leader ∧ NoEarly S) (pc : ShellPc) :
    Owned (sweepJobs ⟨ctl, S, pc⟩) :=
  ⟨⟨hchildren.proper, hchildren.child, fun p hp hne =>
    ⟨(hchildren.listed p hp (by simp)).1.sweep, (hchildren.listed p hp (by simp)).2⟩⟩, hstage⟩

section
variable (beyond : List Char) (strsignal : Nat → String)

/-- The job that `fg` selects is as it was, but for its marks and `stopped` flags. -/
theorem jobsKept_funcFgSelect (pc : Command) (ctl : JobControl) :
    JobsKept ctl.jobs (funcFgSelect beyond pc ctl).2.jobs := by
  unfold funcFgSelect
  split
  · exact .refl _
  · exact .refl _
  · split
    · exact .refl _
    · rename_i i _
      exact (JobsKept.modify (i := i)
        (f := fun job => { job with process := job.process.map Process.resume })
        (fun _ => ⟨rfl, .inr rfl⟩) ctl.jobs).trans (JobsKept.modify (i := i)
          (f := fun job => { job with notified := true }) (fun _ => ⟨rfl, .inl rfl⟩) _)

/-- A built-in other than `fg` leaves the jobs where they are. -/
theorem jobsKept_executeBuiltInComds (killError : Nat → Option String) {pc : Command}
    (hname : pc.zCmd ≠ "fg") (ctl : JobControl) :
    JobsKept ctl.jobs (executeBuiltInComds killError beyond strsignal pc [] false ctl).2.jobs := by
  cases executeBuiltInComds_effect killError beyond strsignal pc [] false ctl with
  | kept _ hjobs _ => rw [hjobs]; exact .refl _
  | background sel _ hjobs _ => rw [hjobs]; exact jobsKept_backgroundAll sel _
  | foreground i hfg => exact absurd hfg hname

/-- **The start of `ExecCommand`.** -/
theorem Owned.execStart {ctl : JobControl} (h : Owned ⟨ctl, S, .ready⟩) (pc : Command)
    (openOk : Bool) (killError : Nat → Option String) :
    Owned (execStart beyond strsignal pc openOk killError ⟨ctl, S, .ready⟩) := by
  obtain ⟨hchildren, hstage⟩ := h
  obtain ⟨hfg, hno⟩ := hstage
  unfold Ish.execStart
  split
  · exact ⟨hchildren, hfg, hno⟩
  · split_ifs with hbuiltIn hopen hname
    · exact ⟨hchildren, hfg, hno⟩
    · -- `fg`
      have hk := jobsKept_funcFgSelect beyond pc ctl
      cases hsel : funcFgSelect beyond pc ctl with | mk found ctl'
      rw [hsel] at hk
      cases found with
      | none => exact ⟨hchildren.table hk, hfg, hno⟩
      | some i => exact ⟨hchildren.table hk, .inl ⟨rfl, hno⟩⟩
    · -- another built-in
      have hk := jobsKept_executeBuiltInComds beyond strsignal killError hname ctl
      split
      · rename_i ctl' hcall
        rw [hcall] at hk
        exact ⟨hchildren.table hk, trivial⟩
      · rename_i ctl' _ hcall
        rw [hcall] at hk
        exact ⟨hchildren.table hk, hfg, hno⟩
    · -- a new job without processes
      refine ⟨⟨hchildren.proper, hchildren.child, fun p hp hne => ?_⟩, ⟨by simp [addJob], rfl⟩,
        ⟨fun p hp he => absurd he (hno p hp), fun p hp hbg hg _ => ?_, fun _ => hfg⟩, .inl rfl,
        fun p hp he => absurd he (hno p hp)⟩
      · obtain ⟨hlisted, hgroup⟩ := hchildren.listed p hp (by simp [ShellPc.newest])
        obtain ⟨job, hjob, hentry⟩ := listed_iff.mp hlisted
        exact ⟨listed_iff.mpr ⟨job, List.mem_cons_of_mem _ hjob, hentry⟩, hgroup⟩
      · exact absurd hg (Int.ne_of_gt (hchildren.child p hp).first_pos)

end

/-- **`fork`.** -/
theorem Owned.fork {ctl : JobControl} {stage : Command} {rest : List Command}
    {background : Bool} (h : Owned ⟨ctl, S, .forking (stage :: rest) background⟩) {pid : Int}
    (hfresh : S.Fresh pid) :
    Owned ⟨ctl, S.fork pid (launchedChild pid background ctl.jobs),
      .recording pid rest background⟩ := by
  obtain ⟨hchildren, hhead, hlaunch, hled, hrun⟩ := h
  obtain ⟨hpos, hne, hothers⟩ := hfresh
  have hfirst : (launchedChild pid background ctl.jobs).first =
      groupWith pid (groupAt 0 ctl.jobs) := by
    show (firstForked ctl.jobs).getD pid = _
    rw [hhead.first, groupWith]
    split <;> rfl
  -- the group of the job is that of a child, or there is none yet
  have hgroup : groupAt 0 ctl.jobs = 0 ∨
      0 < groupAt 0 ctl.jobs ∧ groupAt 0 ctl.jobs ≠ S.leader ∧ groupAt 0 ctl.jobs ≠ pid := by
    rcases hled with hzero | ⟨p, hp, hppid, -, -⟩
    · exact .inl hzero
    · rw [← hppid]
      exact .inr ⟨hchildren.proper.pos p hp, hchildren.proper.ne_leader p hp, (hothers p hp).1⟩
  have hfirst_pos : 0 < groupWith pid (groupAt 0 ctl.jobs) ∧
      groupWith pid (groupAt 0 ctl.jobs) ≠ S.leader := by
    rw [groupWith]
    split
    · exact ⟨hpos, hne⟩
    · rcases hgroup with hzero | ⟨hg, hgl, -⟩
      · exact absurd hzero ‹_›
      · exact ⟨hg, hgl⟩
  refine ⟨⟨hchildren.proper.fork ⟨hpos, hne, hothers⟩ _, fun p hp => ?_, fun p hp hnew => ?_⟩, hhead,
    ⟨fun p hp he => ?_, fun p hp hbg hg hpast => ?_, hlaunch.foreground⟩, ?_, ?_,
    fun p hp he hpne => ?_⟩
  · rcases Session.mem_fork.mp hp with hp | rfl
    · exact hchildren.child p hp
    · refine ⟨by rw [hfirst]; exact hfirst_pos.1, ?_, fun hph => absurd rfl hph, fun _ => ⟨rfl, rfl⟩,
        fun _ => by rw [hfirst]; exact hfirst_pos.2⟩
      show groupAt 0 ctl.jobs = (launchedChild pid background ctl.jobs).first ∨ _
      rw [hfirst, groupWith]
      split
      · rename_i hzero
        exact .inr ⟨hzero, rfl, rfl⟩
      · exact .inl rfl
  · rcases Session.mem_fork.mp hp with hp | rfl
    · exact hchildren.listed p hp (by simp [ShellPc.newest])
    · exact absurd rfl hnew
  · rcases Session.mem_fork.mp hp with hp | rfl
    · obtain ⟨hbg, hpfirst⟩ := hlaunch.early p hp he
      refine ⟨hbg, ?_⟩
      rw [hpfirst, groupWith, if_neg]
      rw [← hpfirst]
      exact Int.ne_of_gt (hchildren.child p hp).first_pos
    · exact ⟨he.1, hfirst⟩
  · rcases Session.mem_fork.mp hp with hp | rfl
    · -- a child of another job is in another group
      rw [groupWith] at hg ⊢
      split at hg
      · have hpgroup := (hchildren.listed p hp (by simp [ShellPc.newest])).2
        exact absurd (hpgroup.trans hg) (hothers p hp).2
      · rename_i hzero
        rw [if_neg hzero]
        exact hlaunch.past p hp hbg hg hpast
    · exact absurd hpast.2 (by simp [launchedChild])
  · rcases hled with hzero | ⟨p, hp, hled⟩
    · exact .inl hzero
    · exact .inr ⟨p, Session.mem_fork.mpr (.inl hp), hled⟩
  · exact ⟨_, Session.mem_fork.mpr (.inr rfl), rfl, hfirst⟩
  · rcases Session.mem_fork.mp hp with hp | rfl
    · exact hrun p hp he
    · exact absurd rfl hpne

/-- The table when a child has been recorded in the job at its head. -/
structure Recorded (pid : Int) (jobs jobs' : List Job) : Prop where
  group : groupAt 0 jobs' = groupWith pid (groupAt 0 jobs)
  head : pid ≠ 0 → Head jobs → Head jobs'
  listed : ∀ pid', pid' = pid ∨ Listed pid' jobs → Listed pid' jobs'
  running : ∀ pid', pid' = pid ∨ RunningIn 0 pid' jobs → RunningIn 0 pid' jobs'

/-- The shell records the child it has forked, for the job at the head. -/
theorem recorded_recordChild (pid : Int) {jobs : List Job} (hne : jobs ≠ []) :
    Recorded pid jobs (jobs.modify 0 (recordChild true pid)) := by
  cases jobs with
  | nil => exact absurd rfl hne
  | cons job jobs =>
    have hgroup : groupAt 0 ((job :: jobs).modify 0 (recordChild true pid)) =
        groupWith pid (groupAt 0 (job :: jobs)) := by
      show (recordChild true pid job).processGroupId = groupWith pid job.processGroupId
      simp [recordChild, groupWith]
    refine ⟨hgroup, fun hpid hhead => ⟨by simp, ?_⟩, ?_, ?_⟩
    · -- the first process stays the first, or there was none
      rw [hgroup]
      have hfirst := hhead.first
      show ((recordChild true pid job).process.getLast?).map Process.processId = _
      rw [show firstForked (job :: jobs) = job.process.getLast?.map Process.processId from rfl]
        at hfirst
      by_cases hzero : groupAt 0 (job :: jobs) = 0
      · rw [if_pos hzero, Option.map_eq_none_iff, List.getLast?_eq_none_iff] at hfirst
        rw [groupWith, if_pos hzero, if_neg hpid, recordChild, hfirst]
        rfl
      · rw [if_neg hzero] at hfirst
        rw [groupWith, if_neg hzero, if_neg hzero, ← hfirst]
        obtain ⟨p, hp, -⟩ := Option.map_eq_some_iff.mp hfirst
        rw [recordChild, hp, List.getLast?_cons, hp]
        rfl
    · rintro pid' (rfl | hlisted)
      · exact listed_iff.mpr ⟨_, List.mem_cons_self, { processId := pid' }, List.mem_cons_self, rfl,
          rfl⟩
      · obtain ⟨job', hjob', p, hp, hentry⟩ := listed_iff.mp hlisted
        rcases List.mem_cons.mp hjob' with rfl | hjob'
        · exact listed_iff.mpr ⟨_, List.mem_cons_self, p, List.mem_cons_of_mem _ hp, hentry⟩
        · exact listed_iff.mpr ⟨job', List.mem_cons_of_mem _ hjob', p, hp, hentry⟩
    · rintro pid' (rfl | ⟨p, hp, hentry⟩)
      · exact ⟨{ processId := pid' }, List.mem_cons_self, rfl, rfl⟩
      · exact ⟨p, List.mem_cons_of_mem _ hp, hentry⟩

/-- The shell records the child, once that is in its group. -/
theorem Owned.recorded {ctl ctl' : JobControl} {rest : List Command} {background : Bool} {pid : Int}
    (h : Owned ⟨ctl, S, .recording pid rest background⟩)
    (hjoined : ∀ p ∈ S.procs, p.pid = pid → p.group = p.data.first)
    (hjobs : ctl'.jobs = ctl.jobs.modify 0 (recordChild true pid)) :
    Owned ⟨ctl', S, .forking rest background⟩ := by
  obtain ⟨hchildren, hhead, hlaunch, hled, ⟨child, hchild, hpid, hfirst⟩, hrun⟩ := h
  have hrec : Recorded pid ctl.jobs ctl'.jobs := by
    rw [hjobs]
    exact recorded_recordChild pid hhead.ne_nil
  have hpid_ne : pid ≠ 0 := hpid ▸ Int.ne_of_gt (hchildren.proper.pos child hchild)
  refine ⟨⟨hchildren.proper, hchildren.child, fun p hp _ => ?_⟩, hrec.head hpid_ne hhead, ?_, ?_, ?_⟩
  · by_cases hp' : p.pid = pid
    · exact ⟨hrec.listed _ (.inl hp'), hjoined p hp hp'⟩
    · have hne : (ShellPc.recording pid rest background).newest ≠ some p.pid := by
        simpa [ShellPc.newest] using fun heq => hp' heq.symm
      exact ⟨hrec.listed _ (.inr (hchildren.listed p hp hne).1), (hchildren.listed p hp hne).2⟩
  · rw [hrec.group]
    exact hlaunch
  · rw [hrec.group, groupWith]
    split
    · rename_i hzero
      rw [groupWith, if_pos hzero] at hfirst
      exact .inr ⟨child, hchild, hpid, (hjoined child hchild hpid).trans hfirst, hfirst⟩
    · exact hled
  · intro p hp he
    by_cases hp' : p.pid = pid
    · exact hrec.running _ (.inl hp')
    · exact hrec.running _ (.inr (hrun p hp he hp'))

/-- **The shell behind `fork`.** -/
theorem Owned.record {ctl ctl' : JobControl} {rest : List Command} {background : Bool} {pid : Int}
    (h : Owned ⟨ctl, S, .recording pid rest background⟩)
    (hjobs : ctl'.jobs = ctl.jobs.modify 0 (recordChild true pid)) :
    (∀ p, S.find pid = some p → p.data.phase = .started →
        Owned ⟨ctl', S, .forking rest background⟩) ∧
      Owned ⟨ctl', S.setpgid pid (groupAt 0 ctl'.jobs), .forking rest background⟩ := by
  constructor
  · intro p hfind hphase
    obtain ⟨hp, hpid⟩ := Session.find_spec hfind
    refine h.recorded (fun q hq hqpid => ?_) hjobs
    obtain rfl := h.children.proper.eq_of_pid hq hp (hqpid.trans hpid.symm)
    exact (h.children.child q hq).group (by rw [hphase]; simp)
  · obtain ⟨child, hchild, hpid, hfirst⟩ := h.stage.2.2.2.1
    have hgroup : groupAt 0 ctl'.jobs = child.data.first := by
      rw [hjobs, (recorded_recordChild pid h.stage.1.ne_nil).group, hfirst]
    have hhas := h.hasGroup hchild
    rw [hpid] at hhas
    have hadvance : ∀ q ∈ S.procs, q.pid = pid →
      Advance S q { q with group := child.data.first } := by
      intro q hq hqpid
      obtain rfl := h.children.proper.eq_of_pid hq hchild (hqpid.trans hpid.symm)
      obtain ⟨hpos, hpgid, -, hearly, hforeground⟩ := h.children.child q hq
      exact ⟨rfl, .inr rfl, rfl, ⟨hpos, hpgid, fun _ => rfl, hearly, hforeground⟩, id, .inl⟩
    have hjoin : Owned ⟨ctl, S.update pid fun q => { q with group := child.data.first },
        .recording pid rest background⟩ :=
      ⟨ChildrenOk.update hadvance h.children fun _ => rfl, Stage.update hadvance h.children h.stage⟩
    rw [hgroup, Session.setpgid, if_pos hhas]
    refine hjoin.recorded (fun q hq hqpid => ?_) hjobs
    rcases Session.mem_update.mp hq with ⟨p, hp, hppid, rfl⟩ | ⟨-, hne⟩
    · obtain rfl := h.children.proper.eq_of_pid hp hchild (hppid.trans hpid.symm)
      rfl
    · exact absurd hqpid hne

/-- **`waitpid` in `func_JobNotification`.** -/
theorem Owned.poll {ctl : JobControl} {pid : Int} {status : WaitStatus}
    (h : Owned ⟨ctl, S, .notifying⟩)
    (hwait : S.waitpid WaitStatus.wifstopped pid = some (status, T)) :
    (∀ ctl', updatedProcessStatus ⟨pid, status⟩ ctl.jobs = (.SUCCESS, ctl'.jobs) →
        Owned ⟨ctl', T, .notifying⟩) ∧
      ∀ ctl' pc, (updatedProcessStatus ⟨pid, status⟩ ctl.jobs).1 ≠ .SUCCESS →
        ctl'.jobs = (updatedProcessStatus ⟨pid, status⟩ ctl.jobs).2 →
        Owned (sweepJobs ⟨ctl', T, pc⟩) := by
  obtain ⟨hchildren, hfg, hno⟩ := h
  obtain ⟨hleader, hfg', -, -, hmem, hT⟩ := ChildrenOk.waitpid hchildren hwait
  have hstage : T.foreground = T.leader ∧ NoEarly T := by
    refine ⟨by rw [hfg', hleader]; exact hfg, fun q hq he => ?_⟩
    obtain ⟨p, hp, -, -, -, hpearly⟩ := hmem q hq
    exact hno p hp (hpearly he).1
  constructor
  · intro ctl' hsuccess
    exact ⟨hT _ fun pid' hstop hl => hl.recordStatus hstop (procTable_of_success hsuccess), hstage⟩
  · intro ctl' pc hfail hjobs
    refine Owned.sweep ?_ hstage pc
    rw [hjobs, updatedProcessStatus_fail hfail]
    exact hT _ fun _ _ hl => hl

/-- **The end of the fork loop.** -/
theorem Owned.launched {ctl ctl' : JobControl} {background : Bool}
    (h : Owned ⟨ctl, S, .forking [] background⟩) (hk : JobsKept ctl.jobs ctl'.jobs) :
    Owned ⟨ctl', S, if background then .ready else .giving 0 false⟩ := by
  obtain ⟨hchildren, -, hlaunch, -, hrun⟩ := h
  cases background with
  | true =>
    refine ⟨hchildren.table hk, hlaunch.foreground rfl, fun p hp he => ?_⟩
    exact absurd (hlaunch.early p hp he).1 (by simp)
  | false =>
    refine ⟨hchildren.table hk, .inr ⟨rfl, ?_, hrun.table hk⟩⟩
    rw [hk.groupAt]
    exact hlaunch

/-- **`MakeJobForeGround` up to its loop.** -/
theorem Owned.give {ctl ctl' : JobControl} {i : Nat} {cont : Bool}
    (h : Owned ⟨ctl, S, .giving i cont⟩) (hk : JobsKept ctl.jobs ctl'.jobs) :
    Owned ⟨ctl', S.tcsetpgrp (groupAt i ctl.jobs), .waiting i⟩ := by
  obtain ⟨hchildren, hstage⟩ := h
  refine ⟨(hchildren.tcsetpgrp _).table hk, fun p hp hg => ?_, fun p hp he => ?_⟩
  · rw [Session.procs_tcsetpgrp] at hp
    rw [hk.groupAt] at hg ⊢
    exact Session.foreground_tcsetpgrp (.inr ⟨p, hp, hg⟩)
  · rw [Session.procs_tcsetpgrp] at hp
    rcases hstage with ⟨-, hno⟩ | ⟨hi, hlaunch, hrun⟩
    · exact absurd he (hno p hp)
    · refine ⟨hi, ?_, hk.running (hrun p hp he)⟩
      rw [hk.groupAt]
      exact (hlaunch.early p hp he).2

/-- **A step of the shell.** -/
theorem Owned.shellEvent {beyond : List Char} {strsignal : Nat → String} {s t : TerminalState}
    (h : Owned s) {e : TerminalEvent} (hstep : shellEvent beyond strsignal s e = some t) :
    Owned t := by
  obtain ⟨ctl, S, pc⟩ := s
  cases e with
  | prompt =>
    cases pc with
    | ready => obtain rfl := Option.some.inj hstep; exact ⟨h.children, h.stage⟩
    | _ => cases hstep
  | poll pid =>
    cases pc with
    | notifying =>
      obtain ⟨⟨status, T⟩, hwait, rfl⟩ := Option.map_eq_some_iff.mp hstep
      obtain ⟨hsuccess, hfail⟩ := h.poll hwait
      dsimp only
      split
      · rename_i jobs hupd
        exact hsuccess _ hupd
      · rename_i ret jobs hne hupd
        exact hfail _ _ (by rw [hupd]; exact hne) (by rw [hupd])
    | _ => cases hstep
  | polled =>
    cases pc with
    | notifying =>
      obtain ⟨-, heq⟩ := Option.ite_none_right_eq_some.mp hstep
      obtain rfl := Option.some.inj heq
      exact Owned.sweep h.children h.stage _
    | _ => cases hstep
  | exec pc' openOk killError =>
    cases pc with
    | ready => obtain rfl := Option.some.inj hstep; exact h.execStart _ _ pc' openOk killError
    | _ => cases hstep
  | fork pid =>
    cases pc with
    | forking rest background =>
      cases rest with
      | nil => cases hstep
      | cons stage rest =>
        obtain ⟨hfresh, heq⟩ := Option.ite_none_right_eq_some.mp hstep
        obtain rfl := Option.some.inj heq
        exact h.fork hfresh
    | _ => cases hstep
  | forkFailed =>
    cases pc with
    | forking rest background =>
      cases rest with
      | nil => cases hstep
      | cons stage rest => obtain rfl := Option.some.inj hstep; exact ⟨h.children, trivial⟩
    | _ => cases hstep
  | record executed =>
    cases pc with
    | recording pid rest background =>
      obtain ⟨hexecuted, hjoin⟩ := h.record (modifyJob_jobs 0 (recordChild true pid) ctl)
      cases executed with
      | true =>
        obtain ⟨hany, heq⟩ := Option.ite_none_right_eq_some.mp hstep
        obtain rfl := Option.some.inj heq
        cases hfind : S.find pid with
        | none => simp [hfind] at hany
        | some p => exact hexecuted p hfind (by simpa [hfind] using hany)
      | false => obtain rfl := Option.some.inj hstep; exact hjoin
    | _ => cases hstep
  | launched =>
    cases pc with
    | forking rest background =>
      cases rest with
      | nil =>
        cases background with
        | true =>
          obtain rfl := Option.some.inj hstep
          refine h.launched ?_
          rw [makeJobBackGround, if_neg (by simp), modifyJob_jobs, announceJob_jobs, modifyJob_jobs]
          exact (JobsKept.modify (i := 0) (f := fun job => { job with notified := true })
            (fun _ => ⟨rfl, .inl rfl⟩) ctl.jobs).trans (JobsKept.modify (i := 0)
              (f := fun job => { job with foreground := false }) (fun _ => ⟨rfl, .inl rfl⟩) _)
        | false =>
          obtain rfl := Option.some.inj hstep
          exact h.launched (JobsKept.modify (i := 0) (f := fun job => { job with foreground := true })
            (fun _ => ⟨rfl, .inl rfl⟩) ctl.jobs)
      | cons stage rest => cases background <;> cases hstep
    | _ => cases hstep
  | give killError =>
    cases pc with
    | giving i cont =>
      obtain rfl := Option.some.inj hstep
      refine h.give ?_
      have hk : JobsKept ctl.jobs (ctl.modifyJob i fun job => { job with foreground := true }).jobs :=
        JobsKept.modify (i := i) (f := fun job => { job with foreground := true })
          (fun _ => ⟨rfl, .inl rfl⟩) ctl.jobs
      split
      · rw [signalJob_jobs]
        exact hk
      · exact hk
    | _ => cases hstep
  | wait pid =>
    cases pc with
    | waiting i =>
      obtain ⟨⟨status, T⟩, hwait, rfl⟩ := Option.map_eq_some_iff.mp hstep
      obtain ⟨htrue, hfalse⟩ := h.wait hwait
      dsimp only
      split
      · rename_i jobs hcond
        exact htrue jobs _ hcond rfl
      · rename_i jobs hcond
        exact hfalse jobs _ hcond rfl
    | _ => cases hstep
  | waitNone =>
    cases pc with
    | waiting i =>
      obtain ⟨hnil, heq⟩ := Option.ite_none_right_eq_some.mp hstep
      obtain rfl := Option.some.inj heq
      refine ⟨⟨h.children.proper, h.children.child, fun p hp => ?_⟩, fun p hp => ?_⟩
      · rw [show S.procs = [] from hnil] at hp
        exact absurd hp List.not_mem_nil
      · rw [show S.procs = [] from hnil] at hp
        exact absurd hp List.not_mem_nil
    | _ => cases hstep
  | take =>
    cases pc with
    | taking =>
      obtain rfl := Option.some.inj hstep
      refine ⟨h.children.tcsetpgrp _, ?_, ?_⟩
      · rw [Session.leader_tcsetpgrp]
        exact Session.foreground_tcsetpgrp (.inl rfl)
      · show NoEarly _
        rw [NoEarly, Session.procs_tcsetpgrp]
        exact h.stage
    | _ => cases hstep
  | _ => cases hstep

/-- **One step.** -/
theorem Owned.step {beyond : List Char} {strsignal : Nat → String} {s t : TerminalState}
    (h : Owned s) {e : TerminalEvent} (hguard : Undisturbed s e)
    (hstep : TerminalStep beyond strsignal s e t) : Owned t := by
  rw [TerminalStep, terminalEvent] at hstep
  split at hstep
  · rename_i t' hshell
    obtain rfl := Option.some.inj hstep
    exact h.shellEvent hshell
  · obtain ⟨T, hchild, rfl⟩ := Option.map_eq_some_iff.mp hstep
    exact h.childEvent hguard hchild

/-! ### Runs -/

/-- An interactive shell that starts with these children and jobs: those that `.ishrc` has left
    are in the group of the shell, and in the table. -/
structure Started (s : TerminalState) : Prop where
  ready : s.pc = .ready
  foreground : s.session.foreground = s.session.leader
  leader_pos : 0 < s.session.leader
  proper : s.session.Proper
  left : ∀ p ∈ s.session.procs, p.group = s.session.leader ∧ p.data.first = s.session.leader ∧
    p.data.pgid = s.session.leader ∧ p.data.background = true ∧ p.data.phase = .started ∧
    Listed p.pid s.ctl.jobs

/-- The invariant holds at the first prompt. -/
theorem Started.owned {s : TerminalState} (h : Started s) : Owned s := by
  have hlate : NoEarly s.session := by
    intro p hp he
    obtain ⟨-, -, -, hbackground, -⟩ := h.left p hp
    exact absurd (he.1.symm.trans hbackground) Bool.false_ne_true
  refine ⟨⟨h.proper, fun p hp => ?_, fun p hp _ => ?_⟩, ?_⟩
  · obtain ⟨hgroup, hfirst, hpgid, hbackground, hphase, -⟩ := h.left p hp
    refine ⟨by rw [hfirst]; exact h.leader_pos, .inl (hpgid.trans hfirst.symm),
      fun _ => hgroup.trans hfirst.symm, fun he => absurd he (hlate p hp), fun hbg => ?_⟩
    exact absurd (hbg.symm.trans hbackground) Bool.false_ne_true
  · obtain ⟨hgroup, hfirst, -, -, -, hlisted⟩ := h.left p hp
    exact ⟨hlisted, hgroup.trans hfirst.symm⟩
  · rw [h.ready]
    exact ⟨h.foreground, hlate⟩

/-- The group of the job that is launched in the foreground, or that the shell waits for. -/
def TerminalState.foregroundJob (s : TerminalState) : Option Int :=
  match s.pc with
  | .forking _ false => some (groupAt 0 s.ctl.jobs)
  | .recording pid _ false => some (groupWith pid (groupAt 0 s.ctl.jobs))
  | .giving 0 false => some (groupAt 0 s.ctl.jobs)
  | .waiting i => some (groupAt i s.ctl.jobs)
  | _ => none

/-- A shell without jobs. -/
def firstPrompt : TerminalState := ⟨{ jobs := [], numJobs := 0 }, ⟨5, [], 5⟩, .ready⟩

/-- `cat`, or `cat &`. -/
def catCommand (background : Bool) : Command := .mk "cat" ⟨some "cat", []⟩ background .null .null

/-- A shell without jobs is one that starts. -/
theorem firstPrompt_started : Started firstPrompt :=
  ⟨rfl, rfl, by decide, ⟨by simp [firstPrompt], by simp [firstPrompt], by simp [firstPrompt]⟩,
    by simp [firstPrompt]⟩

-- `SIGSTOP` stops a child in front of its own `tcsetpgrp`; continued behind the prompt, it takes
-- the terminal from the shell.
example :
    ([.exec (catCommand true) true (fun _ => none), .fork 11, .record false, .child 11, .child 11,
        .child 11, .launched, .exec (catCommand false) true (fun _ => none), .fork 10,
        .stop 10 SIGSTOP, .record false, .launched, .give fun _ => none, .wait 10,
        .exit 11 (.exited 0), .wait 11, .take, .continued 10, .child 10,
        .child 10].foldlM (terminalEvent [] fun _ => "") firstPrompt).map
      (fun s => (s.session.leader, s.session.foreground)) = some (5, 10) := by rfl

-- `cat &`, and then `fg %1 | cat`: the child that runs `fg` gives the terminal to the first job,
-- and the shell waits for the second one.
example :
    ([.exec (catCommand true) true (fun _ => none), .fork 11, .record false, .child 11, .child 11,
        .child 11, .launched,
        .exec (.mk "fg" ⟨some "fg", ["%1"]⟩ false (.pipe .PIPE (catCommand false) .null) .null) true
          (fun _ => none),
        .fork 10, .record false, .child 10, .child 10, .child 10, .fork 12, .record false,
        .launched, .give (fun _ => none),
        .tcsetpgrp 10 11].foldlM (terminalEvent [] fun _ => "") firstPrompt).map
      (fun s => (groupAt 0 s.ctl.jobs, s.session.foreground)) = some (10, 11) := by rfl

end OSPortfolio.Ish
