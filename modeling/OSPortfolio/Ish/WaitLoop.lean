import OSPortfolio.Lib.ShortestPrefix
import OSPortfolio.Ish.Jobs

namespace OSPortfolio.Ish

open OSPortfolio.Stream

/-!
# The two wait loops

`ish.c` waits for a job in two places: at the end of `ExecCommand` when the shell is not
interactive, and in `MakeJobForeGround`.  Both are `do { waitpid } while (..)` loops over the
same two calls, `UpdatedProcessStatus` and `UpdatedJobStatus`, which the two conditions make
in opposite orders.  A loop is therefore `waitWhile` applied to its condition.

* `execCommandWait_spec` — the loop of `ExecCommand` reads the shortest nonempty prefix of
  the events after which the job is no longer running, and records all of it;
* `makeJobForeGroundWait_spec` — the loop of `MakeJobForeGround` asks `waitpid` once more,
  and what that call delivers is lost;
* `waitWhile_running` — as long as no prefix ends the job, either loop records all it reads;
* `makeJobForeGroundWait_iff` — so the second loop does what a wait is for, and what the first
  one does, only when no prefix of the events ends the job; where one does, it agrees with the
  first loop only when nothing follows the prefix.
-/

/-! ### `waitpid` and the loops -/

/-- What `waitpid` leaves in `process_id` when there is no child; the status variable is not
    read then. -/
def noChild : StatusEvent := ⟨-1, .exited 0⟩

/-- How a wait loop ends: the table, the events not taken, the number of `waitpid` calls,
    and whether the loop returned (the last call may block for ever). -/
structure WaitLoop where
  jobs : List Job
  rest : List StatusEvent
  calls : Nat
  returned : Bool
  deriving DecidableEq, Repr

/-- `do { waitpid(-1, &status, WUNTRACED) } while (cond)`.  The list holds what `waitpid`
    delivers; once it is used up a call blocks if the shell has a child left, and returns
    `-1` otherwise.  Both conditions are false for `-1`, so the loop ends there. -/
def waitWhile (cond : StatusEvent → List Job → Bool × List Job) (childLeft : Bool) :
    List StatusEvent → List Job → WaitLoop
  | [], jobs =>
    if childLeft then ⟨jobs, [], 1, false⟩ else ⟨(cond noChild jobs).2, [], 1, true⟩
  | e :: es, jobs =>
    match cond e jobs with
    | (true, jobs') =>
      let r := waitWhile cond childLeft es jobs'
      { r with calls := r.calls + 1 }
    | (false, jobs') => ⟨jobs', es, 1, true⟩

/-- A turn whose condition holds goes on with the remaining events. -/
theorem waitWhile_again {cond : StatusEvent → List Job → Bool × List Job} {childLeft : Bool}
    {e : StatusEvent} {es : List StatusEvent} {jobs jobs' : List Job}
    (h : cond e jobs = (true, jobs')) :
    waitWhile cond childLeft (e :: es) jobs =
      { waitWhile cond childLeft es jobs' with
        calls := (waitWhile cond childLeft es jobs').calls + 1 } := by
  simp only [waitWhile, h]

/-- A turn whose condition fails is the last one. -/
theorem waitWhile_stop {cond : StatusEvent → List Job → Bool × List Job} {childLeft : Bool}
    {e : StatusEvent} {es : List StatusEvent} {jobs jobs' : List Job}
    (h : cond e jobs = (false, jobs')) :
    waitWhile cond childLeft (e :: es) jobs = ⟨jobs', es, 1, true⟩ := by
  simp only [waitWhile, h]

/-- `UpdatedProcessStatus(process_id, status) == SUCCESS && UpdatedJobStatus(job) == RUNNING`,
    the condition in `ExecCommand`. -/
def execCommandCond (i : Nat) (e : StatusEvent) (jobs : List Job) : Bool × List Job :=
  -- `&&`: the job is only looked at once the status is recorded
  match updatedProcessStatus e jobs with
  | (.SUCCESS, jobs₁) =>
    ((updatedJobStatusAt i jobs₁).1 = .RUNNING, (updatedJobStatusAt i jobs₁).2)
  | (_, jobs₁) => (false, jobs₁)

/-- `UpdatedJobStatus(job) == RUNNING && UpdatedProcessStatus(process_id, status) == SUCCESS`,
    the condition in `MakeJobForeGround`. -/
def makeJobForeGroundCond (i : Nat) (e : StatusEvent) (jobs : List Job) : Bool × List Job :=
  -- `&&`: the status is only recorded while the job was running before it
  match updatedJobStatusAt i jobs with
  | (.RUNNING, jobs₁) =>
    ((updatedProcessStatus e jobs₁).1 = .SUCCESS, (updatedProcessStatus e jobs₁).2)
  | (_, jobs₁) => (false, jobs₁)

/-- The wait loop of `ExecCommand` for a shell that is not interactive. -/
def execCommandWait (i : Nat) : Bool → List StatusEvent → List Job → WaitLoop :=
  waitWhile (execCommandCond i)

/-- The wait loop of `MakeJobForeGround`. -/
def makeJobForeGroundWait (i : Nat) : Bool → List StatusEvent → List Job → WaitLoop :=
  waitWhile (makeJobForeGroundCond i)

@[simp] theorem updatedProcessStatus_noChild (jobs : List Job) :
    updatedProcessStatus noChild jobs = (.FAIL, jobs) := by
  simp [updatedProcessStatus, noChild]

/-- On `-1` the condition of `MakeJobForeGround` leaves the process entries as they are. -/
theorem procTable_makeJobForeGroundCond_noChild (i : Nat) (jobs : List Job) :
    procTable (makeJobForeGroundCond i noChild jobs).2 = procTable jobs := by
  have hproc := procTable_updatedJobStatusAt i jobs
  unfold makeJobForeGroundCond
  split
  · rename_i jobs₁ hat
    rw [hat] at hproc
    simpa using hproc
  · rename_i jobs₁ _ hat
    rw [hat] at hproc
    exact hproc

/-- The loop does not go round again on `-1`. -/
theorem makeJobForeGroundCond_noChild (i : Nat) (jobs : List Job) :
    (makeJobForeGroundCond i noChild jobs).1 = false := by
  unfold makeJobForeGroundCond
  split <;> simp

/-! ### What the loops are for -/

/-- The job at position `i` has a running process. -/
def jobRunning (i : Nat) (t : List (List Process)) : Bool :=
  (processesAt i t).any Process.running

/-- The job at position `i` of `jobs` is no longer running once the events `l` are
    recorded. -/
def EndsJob (i : Nat) (jobs : List Job) (l : List StatusEvent) : Prop :=
  jobRunning i (recordAll l (procTable jobs)) = false

/-- Events `waitpid` can deliver for the children in the table. -/
def Deliverable (t : List (List Process)) (es : List StatusEvent) : Prop :=
  ∀ e ∈ es, 0 < e.processId ∧ e.processId ∈ pidsOf t

/-- A wait loop takes exactly the shortest nonempty prefix of the events that ends the job,
    records each event of it, and calls `waitpid` for no other. -/
def ConsumesExactly (i : Nat) (jobs : List Job) (es : List StatusEvent) (r : WaitLoop) : Prop :=
  ∀ pre, ShortestPrefix (EndsJob i jobs) pre es →
    r.returned = true ∧ es = pre ++ r.rest ∧
      procTable r.jobs = recordAll pre (procTable jobs) ∧ r.calls = pre.length

/-- Two wait loops take the same events and leave the same process entries. -/
def SameWait (r r' : WaitLoop) : Prop :=
  r.returned = r'.returned ∧ r.rest = r'.rest ∧ procTable r.jobs = procTable r'.jobs

/-- What a wait for the job at position `i` is for: the events that end the job are consumed
    exactly, all the events are taken and recorded while none of them ends it, and the loop
    leaves what the loop of `ExecCommand` leaves. -/
structure MeetsWait (i : Nat) (childLeft : Bool) (es : List StatusEvent) (jobs : List Job)
    (r : WaitLoop) : Prop where
  ends : ConsumesExactly i jobs es r
  runs : (∀ pre, ¬ ShortestPrefix (EndsJob i jobs) pre es) →
    r.returned = !childLeft ∧ r.rest = [] ∧
      procTable r.jobs = recordAll es (procTable jobs) ∧ r.calls = es.length + 1
  same : SameWait r (execCommandWait i childLeft es jobs)

/-- The shortest prefix that ends the job, in executable form. -/
def endingEvents (i : Nat) : List (List Process) → List StatusEvent →
    Option (List StatusEvent) :=
  firstStop recordStatus (fun t => !jobRunning i t)

/-- `endingEvents` computes the shortest prefix that ends the job. -/
theorem endingEvents_eq_some_iff (i : Nat) (jobs : List Job) (es pre : List StatusEvent) :
    endingEvents i (procTable jobs) es = some pre ↔ ShortestPrefix (EndsJob i jobs) pre es := by
  have h := firstStop_eq_some_iff recordStatus (fun t => !jobRunning i t) (procTable jobs) es pre
  simp only [Bool.not_eq_true'] at h
  exact h

/-- Without a prefix that ends the job `endingEvents` finds none. -/
theorem endingEvents_eq_none (i : Nat) (jobs : List Job) (es : List StatusEvent)
    (hnone : ∀ pre, ¬ ShortestPrefix (EndsJob i jobs) pre es) :
    endingEvents i (procTable jobs) es = none := by
  cases hend : endingEvents i (procTable jobs) es with
  | none => rfl
  | some pre => exact absurd ((endingEvents_eq_some_iff i jobs es pre).mp hend) (hnone pre)

/-- Recording an event keeps the children, so the later events stay deliverable. -/
theorem Deliverable.tail {t : List (List Process)} {e : StatusEvent} {es : List StatusEvent}
    (h : Deliverable t (e :: es)) : Deliverable (recordStatus t e) es := by
  intro e' he'
  rw [pidsOf_recordStatus]
  exact h e' (List.mem_cons_of_mem e he')

/-! ### One turn of each loop -/

/-- On an event of the table the condition of `ExecCommand` records it and then asks whether
    the job still runs. -/
theorem execCommandCond_spec (i : Nat) (e : StatusEvent) (jobs : List Job)
    (hpos : 0 < e.processId) (hmem : e.processId ∈ pidsOf (procTable jobs)) :
    ∃ jobs', execCommandCond i e jobs = (jobRunning i (procTable jobs'), jobs') ∧
      procTable jobs' = recordStatus (procTable jobs) e := by
  obtain ⟨jobs₁, hupd, htab⟩ := updatedProcessStatus_found e jobs hpos hmem
  refine ⟨(updatedJobStatusAt i jobs₁).2, ?_, by rw [procTable_updatedJobStatusAt, htab]⟩
  rw [execCommandCond, hupd, procTable_updatedJobStatusAt]
  simp only [updatedJobStatusAt_fst, classify_eq_running_iff, jobRunning, Bool.decide_eq_true]

/-- While the job runs, the condition of `MakeJobForeGround` records the event and goes
    round again, whatever the event was. -/
theorem makeJobForeGroundCond_running (i : Nat) (e : StatusEvent) (jobs : List Job)
    (hrun : jobRunning i (procTable jobs) = true)
    (hpos : 0 < e.processId) (hmem : e.processId ∈ pidsOf (procTable jobs)) :
    ∃ jobs', makeJobForeGroundCond i e jobs = (true, jobs') ∧
      procTable jobs' = recordStatus (procTable jobs) e := by
  have hclass : (updatedJobStatusAt i jobs).1 = .RUNNING := by
    rw [updatedJobStatusAt_fst, classify_eq_running_iff]
    exact hrun
  have hproc := procTable_updatedJobStatusAt i jobs
  cases hat : updatedJobStatusAt i jobs with | mk st jobs₁
  rw [hat] at hclass hproc
  obtain rfl : st = .RUNNING := hclass
  obtain ⟨jobs₂, hupd, htab⟩ := updatedProcessStatus_found e jobs₁ hpos (by rw [hproc]; exact hmem)
  refine ⟨jobs₂, ?_, by rw [htab, hproc]⟩
  rw [makeJobForeGroundCond, hat]
  simp [hupd]

/-- Once the job no longer runs, the condition of `MakeJobForeGround` is false and does not
    look at the event. -/
theorem makeJobForeGroundCond_ended (i : Nat) (e : StatusEvent) (jobs : List Job)
    (hend : jobRunning i (procTable jobs) = false) :
    ∃ jobs', makeJobForeGroundCond i e jobs = (false, jobs') ∧
      procTable jobs' = procTable jobs := by
  have hclass : (updatedJobStatusAt i jobs).1 ≠ .RUNNING := by
    rw [updatedJobStatusAt_fst, Ne, classify_eq_running_iff]
    simpa [jobRunning] using hend
  have hproc := procTable_updatedJobStatusAt i jobs
  cases hat : updatedJobStatusAt i jobs with | mk st jobs₁
  rw [hat] at hclass hproc
  refine ⟨jobs₁, ?_, hproc⟩
  rw [makeJobForeGroundCond, hat]
  cases st with
  | RUNNING => exact absurd rfl hclass
  | STOPPED => rfl
  | COMPLETED => rfl

/-! ### Whole loops -/

/-- **The loop of `ExecCommand`** takes and records exactly the events that end the job. -/
theorem execCommandWait_spec (i : Nat) (childLeft : Bool) (es pre : List StatusEvent)
    (jobs : List Job) (hdel : Deliverable (procTable jobs) es)
    (hpre : endingEvents i (procTable jobs) es = some pre) :
    (execCommandWait i childLeft es jobs).returned = true ∧
      es = pre ++ (execCommandWait i childLeft es jobs).rest ∧
      procTable (execCommandWait i childLeft es jobs).jobs = recordAll pre (procTable jobs) ∧
      (execCommandWait i childLeft es jobs).calls = pre.length := by
  -- over the events; `htab` carries that the table holds all those read so far
  induction es generalizing jobs pre with
  -- no events, no ending prefix
  | nil => simp [endingEvents, firstStop] at hpre
  | cons e es ih =>
    obtain ⟨hpos, hmem⟩ := hdel e (by simp)
    obtain ⟨jobs', hcond, htab⟩ := execCommandCond_spec i e jobs hpos hmem
    simp only [endingEvents, firstStop] at hpre
    rw [← htab] at hpre
    cases hrun : jobRunning i (procTable jobs') with
    | false =>
      rw [hrun] at hcond
      simp only [hrun, Bool.not_false, if_true, Option.some.injEq] at hpre
      subst hpre
      rw [execCommandWait, waitWhile_stop hcond]
      exact ⟨rfl, rfl, htab, rfl⟩
    | true =>
      rw [hrun] at hcond
      simp only [hrun, Bool.not_true, Bool.false_eq_true, if_false] at hpre
      obtain ⟨p, hp, rfl⟩ := Option.map_eq_some_iff.mp hpre
      have hdel' : Deliverable (procTable jobs') es := by rw [htab]; exact hdel.tail
      obtain ⟨hret, hrest, hjobs, hcalls⟩ := ih p jobs' hdel' hp
      rw [execCommandWait, waitWhile_again hcond]
      refine ⟨hret, congrArg (e :: ·) hrest, ?_, congrArg (· + 1) hcalls⟩
      rw [recordAll_cons, ← htab]
      exact hjobs

/-- With the job ended, the loop of `MakeJobForeGround` makes one more call and drops what
    it delivers. -/
theorem makeJobForeGroundWait_ended (i : Nat) (childLeft : Bool) (es : List StatusEvent)
    (jobs : List Job) (hend : jobRunning i (procTable jobs) = false) :
    (makeJobForeGroundWait i childLeft es jobs).returned = (!es.isEmpty || !childLeft) ∧
      (makeJobForeGroundWait i childLeft es jobs).rest = es.tail ∧
      procTable (makeJobForeGroundWait i childLeft es jobs).jobs = procTable jobs ∧
      (makeJobForeGroundWait i childLeft es jobs).calls = 1 := by
  cases es with
  | nil =>
    -- nothing to deliver: the extra call blocks, or fails and ends the loop
    obtain ⟨jobs', hcond, htab⟩ := makeJobForeGroundCond_ended i noChild jobs hend
    cases childLeft with
    | true => exact ⟨rfl, rfl, rfl, rfl⟩
    | false => exact ⟨rfl, rfl, by simp [makeJobForeGroundWait, waitWhile, hcond, htab], rfl⟩
  | cons e es =>
    obtain ⟨jobs', hcond, htab⟩ := makeJobForeGroundCond_ended i e jobs hend
    rw [makeJobForeGroundWait, waitWhile_stop hcond]
    exact ⟨rfl, rfl, htab, rfl⟩

/-- **The loop of `MakeJobForeGround`** records the events that end the job, and then makes
    one more call to `waitpid`, whose event (if one comes) is taken and not recorded. -/
theorem makeJobForeGroundWait_spec (i : Nat) (childLeft : Bool) (es pre : List StatusEvent)
    (jobs : List Job) (hrun : jobRunning i (procTable jobs) = true)
    (hdel : Deliverable (procTable jobs) es)
    (hpre : endingEvents i (procTable jobs) es = some pre) :
    (makeJobForeGroundWait i childLeft es jobs).returned =
        (!(es.drop pre.length).isEmpty || !childLeft) ∧
      (makeJobForeGroundWait i childLeft es jobs).rest = (es.drop pre.length).tail ∧
      procTable (makeJobForeGroundWait i childLeft es jobs).jobs =
        recordAll pre (procTable jobs) ∧
      (makeJobForeGroundWait i childLeft es jobs).calls = pre.length + 1 := by
  induction es generalizing jobs pre with
  | nil => simp [endingEvents, firstStop] at hpre
  | cons e es ih =>
    obtain ⟨hpos, hmem⟩ := hdel e (by simp)
    obtain ⟨jobs', hcond, htab⟩ := makeJobForeGroundCond_running i e jobs hrun hpos hmem
    simp only [endingEvents, firstStop] at hpre
    rw [← htab] at hpre
    rw [makeJobForeGroundWait, waitWhile_again hcond]
    cases hrun' : jobRunning i (procTable jobs') with
    | false =>
      -- this event ends the job, but the condition was tested before it was recorded
      simp only [hrun', Bool.not_false, if_true, Option.some.injEq] at hpre
      subst hpre
      obtain ⟨hret, hrest, hjobs, hcalls⟩ :=
        makeJobForeGroundWait_ended i childLeft es jobs' hrun'
      exact ⟨hret, hrest, hjobs.trans htab, congrArg (· + 1) hcalls⟩
    | true =>
      simp only [hrun', Bool.not_true, Bool.false_eq_true, if_false] at hpre
      obtain ⟨p, hp, rfl⟩ := Option.map_eq_some_iff.mp hpre
      have hdel' : Deliverable (procTable jobs') es := by rw [htab]; exact hdel.tail
      obtain ⟨hret, hrest, hjobs, hcalls⟩ := ih p jobs' hrun' hdel' hp
      refine ⟨hret, hrest, ?_, congrArg (· + 1) hcalls⟩
      rw [recordAll_cons, ← htab]
      exact hjobs

/-- **Events that do not end the job.**  A loop whose condition records an event and goes round
    again while the job runs takes and records all of them, and one more call ends it. -/
theorem waitWhile_running {cond : StatusEvent → List Job → Bool × List Job} (i : Nat)
    (hturn : ∀ e jobs, jobRunning i (procTable jobs) = true →
      jobRunning i (recordStatus (procTable jobs) e) = true → 0 < e.processId →
      e.processId ∈ pidsOf (procTable jobs) →
        ∃ jobs', cond e jobs = (true, jobs') ∧ procTable jobs' = recordStatus (procTable jobs) e)
    (hlast : ∀ jobs, procTable (cond noChild jobs).2 = procTable jobs)
    (childLeft : Bool) (es : List StatusEvent) (jobs : List Job)
    (hrun : jobRunning i (procTable jobs) = true) (hdel : Deliverable (procTable jobs) es)
    (hnone : endingEvents i (procTable jobs) es = none) :
    (waitWhile cond childLeft es jobs).returned = !childLeft ∧
      (waitWhile cond childLeft es jobs).rest = [] ∧
      procTable (waitWhile cond childLeft es jobs).jobs = recordAll es (procTable jobs) ∧
      (waitWhile cond childLeft es jobs).calls = es.length + 1 := by
  -- over the events; each leaves the job running, since no prefix ends it
  induction es generalizing jobs with
  | nil =>
    cases childLeft with
    | true => exact ⟨rfl, rfl, rfl, rfl⟩
    | false => exact ⟨rfl, rfl, hlast jobs, rfl⟩
  | cons e es ih =>
    obtain ⟨hpos, hmem⟩ := hdel e (by simp)
    simp only [endingEvents, firstStop] at hnone
    cases hstill : jobRunning i (recordStatus (procTable jobs) e) with
    | false => simp [hstill] at hnone
    | true =>
      obtain ⟨jobs', hcond, htab⟩ := hturn e jobs hrun hstill hpos hmem
      have hnone' : endingEvents i (procTable jobs') es = none := by
        rw [htab]
        simpa [hstill, endingEvents] using hnone
      have hdel' : Deliverable (procTable jobs') es := by rw [htab]; exact hdel.tail
      obtain ⟨hret, hrest, hjobs, hcalls⟩ :=
        ih jobs' (by rw [htab]; exact hstill) hdel' hnone'
      rw [waitWhile_again hcond]
      refine ⟨hret, hrest, ?_, congrArg (· + 1) hcalls⟩
      rw [recordAll_cons, ← htab]
      exact hjobs

/-- `execCommandWait` on events that do not end the job. -/
theorem execCommandWait_running (i : Nat) (childLeft : Bool) (es : List StatusEvent)
    (jobs : List Job) (hrun : jobRunning i (procTable jobs) = true)
    (hdel : Deliverable (procTable jobs) es)
    (hnone : endingEvents i (procTable jobs) es = none) :
    (execCommandWait i childLeft es jobs).returned = !childLeft ∧
      (execCommandWait i childLeft es jobs).rest = [] ∧
      procTable (execCommandWait i childLeft es jobs).jobs = recordAll es (procTable jobs) ∧
      (execCommandWait i childLeft es jobs).calls = es.length + 1 := by
  refine waitWhile_running i (fun e jobs _ hstill hpos hmem => ?_) (fun jobs => ?_) childLeft es
    jobs hrun hdel hnone
  · obtain ⟨jobs', hcond, htab⟩ := execCommandCond_spec i e jobs hpos hmem
    refine ⟨jobs', ?_, htab⟩
    rw [hcond, htab, hstill]
  · simp [execCommandCond]

/-- `makeJobForeGroundWait` on events that do not end the job. -/
theorem makeJobForeGroundWait_running (i : Nat) (childLeft : Bool) (es : List StatusEvent)
    (jobs : List Job) (hrun : jobRunning i (procTable jobs) = true)
    (hdel : Deliverable (procTable jobs) es)
    (hnone : endingEvents i (procTable jobs) es = none) :
    (makeJobForeGroundWait i childLeft es jobs).returned = !childLeft ∧
      (makeJobForeGroundWait i childLeft es jobs).rest = [] ∧
      procTable (makeJobForeGroundWait i childLeft es jobs).jobs =
        recordAll es (procTable jobs) ∧
      (makeJobForeGroundWait i childLeft es jobs).calls = es.length + 1 :=
  waitWhile_running i (fun e jobs hrun _ hpos hmem =>
    makeJobForeGroundCond_running i e jobs hrun hpos hmem)
    (procTable_makeJobForeGroundCond_noChild i) childLeft es jobs hrun hdel hnone

/-- The loop of `ExecCommand` does what a wait loop is for. -/
theorem execCommandWait_meetsWait (i : Nat) (childLeft : Bool) (es : List StatusEvent)
    (jobs : List Job) (hrun : jobRunning i (procTable jobs) = true)
    (hdel : Deliverable (procTable jobs) es) :
    MeetsWait i childLeft es jobs (execCommandWait i childLeft es jobs) where
  ends := fun pre hpre =>
    execCommandWait_spec i childLeft es pre jobs hdel
      ((endingEvents_eq_some_iff i jobs es pre).mpr hpre)
  runs := fun hnone =>
    execCommandWait_running i childLeft es jobs hrun hdel (endingEvents_eq_none i jobs es hnone)
  same := ⟨rfl, rfl, rfl⟩

/-- **The foreground wait, exactly.**  The loop of `MakeJobForeGround` does what a wait is for
    exactly when no prefix of the events ends the job; where one does, the loop takes the same
    events and leaves the same process entries as the loop of `ExecCommand` only when no event
    and no child is left after that prefix. -/
theorem makeJobForeGroundWait_iff (i : Nat) (childLeft : Bool) (es : List StatusEvent)
    (jobs : List Job) (hrun : jobRunning i (procTable jobs) = true)
    (hdel : Deliverable (procTable jobs) es) :
    (MeetsWait i childLeft es jobs (makeJobForeGroundWait i childLeft es jobs) ↔
      ∀ pre, ¬ ShortestPrefix (EndsJob i jobs) pre es) ∧
    ∀ pre, ShortestPrefix (EndsJob i jobs) pre es →
      (SameWait (makeJobForeGroundWait i childLeft es jobs) (execCommandWait i childLeft es jobs) ↔
        es = pre ∧ childLeft = false) := by
  constructor
  · constructor
    · intro hmeets pre hpre
      have hend := (endingEvents_eq_some_iff i jobs es pre).mpr hpre
      -- the count of calls gives it away: one more than the prefix is long
      obtain ⟨-, -, -, hcalls⟩ := makeJobForeGroundWait_spec i childLeft es pre jobs hrun hdel hend
      obtain ⟨-, -, -, hcalls'⟩ := hmeets.ends pre hpre
      omega
    · intro hnone
      have hend := endingEvents_eq_none i jobs es hnone
      obtain ⟨hret, hrest, hjobs, hcalls⟩ :=
        makeJobForeGroundWait_running i childLeft es jobs hrun hdel hend
      obtain ⟨hret', hrest', hjobs', -⟩ :=
        execCommandWait_running i childLeft es jobs hrun hdel hend
      exact ⟨fun pre hpre => absurd hpre (hnone pre), fun _ => ⟨hret, hrest, hjobs, hcalls⟩,
        hret.trans hret'.symm, hrest.trans hrest'.symm, hjobs.trans hjobs'.symm⟩
  · intro pre hpre
    have hend := (endingEvents_eq_some_iff i jobs es pre).mpr hpre
    obtain ⟨hret, hrest, hjobs, -⟩ :=
      makeJobForeGroundWait_spec i childLeft es pre jobs hrun hdel hend
    obtain ⟨hret', hrest', hjobs', -⟩ := execCommandWait_spec i childLeft es pre jobs hdel hend
    -- the entries agree; what is left to compare is the extra call at the end of the prefix
    rw [SameWait, hjobs, hjobs', hrest, hret, hret']
    generalize (execCommandWait i childLeft es jobs).rest = rest at hrest'
    subst hrest'
    rw [List.drop_left]
    cases rest with
    | nil => cases childLeft <;> simp
    -- the extra call has taken `e`, which the other loop left to be delivered
    | cons e rest => simp

/-- Job 2, running in the foreground, and job 1 behind it. -/
def foregroundAndBackground : List Job :=
  [{ jobNum := 2, jobName := "cat", process := [{ processId := 20 }] },
    { jobNum := 1, jobName := "sleep", process := [{ processId := 10 }] }]

/-- Job 2 exits and then job 1 does: the foreground wait for job 2 takes both statuses and
    records only the first. -/
theorem makeJobForeGroundWait_drops_status :
    ¬ MeetsWait 0 false [⟨20, .exited 0⟩, ⟨10, .exited 0⟩] foregroundAndBackground
        (makeJobForeGroundWait 0 false [⟨20, .exited 0⟩, ⟨10, .exited 0⟩]
          foregroundAndBackground) ∧
      (makeJobForeGroundWait 0 false [⟨20, .exited 0⟩, ⟨10, .exited 0⟩]
        foregroundAndBackground).rest = [] ∧
      jobRunning 1 (procTable (makeJobForeGroundWait 0 false
        [⟨20, .exited 0⟩, ⟨10, .exited 0⟩] foregroundAndBackground).jobs) = true := by
  refine ⟨?_, by decide, by decide⟩
  intro hmeets
  have hpre := (endingEvents_eq_some_iff 0 foregroundAndBackground
    [⟨20, .exited 0⟩, ⟨10, .exited 0⟩] [⟨20, .exited 0⟩]).mp (by decide)
  obtain ⟨-, hrest, -⟩ := hmeets.ends _ hpre
  exact absurd hrest (by decide)

/-- The foreground wait at the same table. -/
theorem makeJobForeGroundWait_iff_twoJobs :
    MeetsWait 0 false [⟨20, .exited 0⟩, ⟨10, .exited 0⟩] foregroundAndBackground
        (makeJobForeGroundWait 0 false [⟨20, .exited 0⟩, ⟨10, .exited 0⟩]
          foregroundAndBackground) ↔
      ∀ pre, ¬ ShortestPrefix (EndsJob 0 foregroundAndBackground) pre
        [⟨20, .exited 0⟩, ⟨10, .exited 0⟩] :=
  (makeJobForeGroundWait_iff 0 false [⟨20, .exited 0⟩, ⟨10, .exited 0⟩] foregroundAndBackground
    (by decide) (by unfold Deliverable; decide)).1

end OSPortfolio.Ish
