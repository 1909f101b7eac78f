import Mathlib.Data.List.Forall2
import Mathlib.Logic.Relation
import OSPortfolio.Ish.JobControl

namespace OSPortfolio.Ish

/-!
# What the job-control functions can do

Every function of `JobControl.lean` short of the sweep of `func_JobNotification` is a
sequence of five small steps on the shell's state.  Invariants and histories are proved for
the steps and then hold for the functions.

* `Touch` — one such step; `Touches` — a sequence of them;
* `Touches.map_jobs` — what steps do not change;
* `touches_funcFg`, `touches_funcBg`, `touches_funcKill`, `touches_executeBuiltInComds`,
  `touches_recordAvailable` — the functions are sequences of steps.
-/

/-! ### Steps -/

/-- The job has the same number, name, processes and process group; its marks (`notified`,
    `status`, `run_status`, `foreground`) may differ. -/
structure Marked (job job' : Job) : Prop where
  jobNum : job'.jobNum = job.jobNum
  jobName : job'.jobName = job.jobName
  process : job'.process = job.process
  processGroupId : job'.processGroupId = job.processGroupId

/-- A job that is left alone. -/
theorem Marked.refl (job : Job) : Marked job job := ⟨rfl, rfl, rfl, rfl⟩

/-- One step of a job-control function. -/
inductive Touch : JobControl → JobControl → Prop
  | text (s : JobControl) (out err : List String) : Touch s { s with out := out, err := err }
  | mark (s : JobControl) (jobs : List Job) (h : List.Forall₂ Marked s.jobs jobs) :
      Touch s { s with jobs := jobs }
  | kill (s : JobControl) (i : Nat) (job : Job) (sig : Signal) (h : s.jobs[i]? = some job) :
      Touch s { s with kills := s.kills ++ [⟨i, job, sig⟩] }
  | resume (s : JobControl) (i : Nat) : Touch s (resumeAt i s)
  | record (s : JobControl) (e : StatusEvent) (jobs : List Job)
      (h : updatedProcessStatus e s.jobs = (.SUCCESS, jobs)) :
      Touch s { s with jobs := jobs, log := s.log ++ [.recorded e] }

/-- A sequence of steps. -/
abbrev Touches : JobControl → JobControl → Prop := Relation.ReflTransGen Touch

/-- A change of one element, seen through a map that takes it to another change. -/
theorem map_modify {α β : Type} {f : α → α} {g : β → β} {m : α → β}
    (h : ∀ x, m (f x) = g (m x)) (xs : List α) (i : Nat) :
    (xs.modify i f).map m = (xs.map m).modify i g := by
  induction xs generalizing i with
  | nil => simp
  | cons x xs ih =>
    cases i with
    | zero => simp [h]
    | succ i => simp [ih]

/-- A change of one element that a map does not see. -/
theorem map_modify_same {α β : Type} {f : α → α} {m : α → β} (h : ∀ x, m (f x) = m x)
    (xs : List α) (i : Nat) : (xs.modify i f).map m = xs.map m := by
  rw [map_modify (g := id) h, List.modify_id]

/-- One job is marked. -/
theorem forall₂_marked_modify (jobs : List Job) (i : Nat) {f : Job → Job}
    (hf : ∀ job, Marked job (f job)) : List.Forall₂ Marked jobs (jobs.modify i f) := by
  induction jobs generalizing i with
  | nil => simp
  | cons job jobs ih =>
    cases i with
    -- only the job at this position is touched
    | zero => exact .cons (hf job) (List.forall₂_same.mpr fun job _ => .refl job)
    | succ i => exact .cons (.refl job) (ih i)

/-- A step keeps every field that marking a job and recording in its processes keep. -/
theorem Touch.map_jobs {β : Type} {f : Job → β}
    (hmark : ∀ job job', Marked job job' → f job' = f job)
    (hprocess : ∀ job ps, f { job with process := ps } = f job) {s s' : JobControl}
    (h : Touch s s') : s'.jobs.map f = s.jobs.map f := by
  cases h with
  | text out err => rfl
  | mark jobs hjobs =>
    show jobs.map f = s.jobs.map f
    generalize s.jobs = jobs₀ at hjobs
    induction hjobs with
    | nil => rfl
    | cons hjob _ ih => exact List.cons_eq_cons.mpr ⟨hmark _ _ hjob, ih⟩
  | kill i job sig hjob => rfl
  | resume i =>
    show (s.jobs.modify i _).map f = s.jobs.map f
    exact map_modify_same (fun job => hprocess job _) s.jobs i
  | record e jobs hrec =>
    show jobs.map f = s.jobs.map f
    replace hrec := recordInJobs_of_success hrec
    generalize s.jobs = jobs₀ at hrec
    induction jobs₀ generalizing jobs with
    | nil => exact absurd hrec (by simp [recordInJobs])
    | cons job jobs₀ ih =>
      unfold recordInJobs at hrec
      split at hrec
      · rename_i ps _
        obtain rfl := Option.some.inj hrec
        exact List.cons_eq_cons.mpr ⟨hprocess job ps, rfl⟩
      · obtain ⟨rest, hrest, rfl⟩ := Option.map_eq_some_iff.mp hrec
        exact List.cons_eq_cons.mpr ⟨rfl, ih rest hrest⟩

/-- What neither marks nor processes change is the same for every job. -/
theorem Touches.map_jobs {β : Type} {f : Job → β}
    (hmark : ∀ job job', Marked job job' → f job' = f job)
    (hprocess : ∀ job ps, f { job with process := ps } = f job) {s s' : JobControl}
    (h : Touches s s') : s'.jobs.map f = s.jobs.map f := by
  induction h with
  | refl => rfl
  | tail _ hstep ih => exact (hstep.map_jobs hmark hprocess).trans ih

/-- The counter of the jobs stays. -/
theorem Touches.numJobs {s s' : JobControl} (h : Touches s s') : s'.numJobs = s.numJobs := by
  induction h with
  | refl => rfl
  | tail _ hstep ih => cases hstep <;> exact ih

/-- Printing touches no job. -/
theorem touches_print (text : String) (s : JobControl) : Touches s (s.print text) :=
  .single (.text s _ s.err)

/-- Nor does an error message. -/
theorem touches_printError (text : String) (s : JobControl) : Touches s (s.printError text) :=
  .single (.text s s.out _)

/-- A mark on one job. -/
theorem touches_modifyJob (i : Nat) (f : Job → Job) (hf : ∀ job, Marked job (f job))
    (s : JobControl) : Touches s (s.modifyJob i f) :=
  .single (.mark s _ (forall₂_marked_modify s.jobs i hf))

/-- `job->foreground = b` -/
theorem touches_setForeground (i : Nat) (b : Bool) (s : JobControl) :
    Touches s (s.modifyJob i fun job => { job with foreground := b }) :=
  touches_modifyJob i (fun job => { job with foreground := b })
    (fun _ => ⟨rfl, rfl, rfl, rfl⟩) s

/-- `job->notified = b` -/
theorem touches_setNotified (i : Nat) (b : Bool) (s : JobControl) :
    Touches s (s.modifyJob i fun job => { job with notified := b }) :=
  touches_modifyJob i (fun job => { job with notified := b })
    (fun _ => ⟨rfl, rfl, rfl, rfl⟩) s

/-- The processes of a job are resumed. -/
theorem touches_resumeAt (i : Nat) (s : JobControl) : Touches s (resumeAt i s) :=
  .single (.resume s i)

/-- A job is announced. -/
theorem touches_announceJob (i : Nat) (s : JobControl) : Touches s (announceJob i s) := by
  unfold announceJob
  split
  · exact .refl
  · exact ((touches_print _ _).trans (touches_print _ _)).trans (touches_print _ _)

/-- `UpdatedJobStatus` only marks. -/
theorem updatedJobStatus_marked (job : Job) : Marked job (updatedJobStatus job).2 := by
  unfold updatedJobStatus
  split <;> exact ⟨rfl, rfl, rfl, rfl⟩

/-- A look at a job marks it. -/
theorem forall₂_marked_updatedJobStatusAt (i : Nat) (jobs : List Job) :
    List.Forall₂ Marked jobs (updatedJobStatusAt i jobs).2 := by
  unfold updatedJobStatusAt
  cases h : jobs[i]? with
  | none => exact List.forall₂_same.mpr fun job _ => .refl job
  | some job =>
    obtain ⟨hi, hjob⟩ := List.getElem?_eq_some_iff.mp h
    have hset : jobs.set i (updatedJobStatus job).2 =
        jobs.modify i (fun job => (updatedJobStatus job).2) := by
      rw [List.modify_eq_set_getElem?, h]
      rfl
    simp only [hset]
    exact forall₂_marked_modify jobs i updatedJobStatus_marked

/-- The sweep of `func_JobNotification` only marks a job that stays. -/
theorem sweepJob_marked {job job' : Job} (h : (sweepJob job).2 = some job') :
    Marked job job' := by
  obtain ⟨hnum, hname, hprocess, hgroup⟩ := updatedJobStatus_marked job
  unfold sweepJob at h
  split at h
  · exact absurd h (by simp)
  · rename_i hst
    rw [hst] at hnum hname hprocess hgroup
    obtain rfl := Option.some.inj h
    exact ⟨hnum, hname, hprocess, hgroup⟩
  · rename_i hst
    rw [hst] at hnum hname hprocess hgroup
    obtain rfl := Option.some.inj h
    exact ⟨hnum, hname, hprocess, hgroup⟩

/-! ### The functions -/

section
variable (killError : Nat → Option String) (beyond : List Char)

/-- A signal is noted in the log. -/
theorem touches_signalJob (i : Nat) (sig : Signal) (s : JobControl) :
    Touches s (signalJob killError i sig s).2 := by
  unfold signalJob
  cases h : s.jobs[i]? with
  | none => exact .refl
  | some job =>
    have hkill := Relation.ReflTransGen.single (Touch.kill s i job sig h)
    dsimp only
    cases killError s.kills.length with
    | none => exact hkill
    | some reason => exact hkill.trans (touches_printError _ _)

/-- `MakeJobBackGround` marks the job, and may signal it. -/
theorem touches_makeJobBackGround (i : Nat) (cont : Bool) (s : JobControl) :
    Touches s (makeJobBackGround killError i cont s) := by
  have hmark := touches_setForeground i false s
  unfold makeJobBackGround
  dsimp only
  split
  · exact hmark.trans (touches_signalJob killError i _ _)
  · exact hmark

/-- A failing `UpdatedProcessStatus` leaves the table alone. -/
theorem updatedProcessStatus_fail {e : StatusEvent} {jobs : List Job}
    (h : (updatedProcessStatus e jobs).1 ≠ .SUCCESS) : (updatedProcessStatus e jobs).2 = jobs := by
  unfold updatedProcessStatus at h ⊢
  split
  · split <;> simp_all
  · rfl

/-- A turn of the wait loop that is not the last one marks the job and records a status. -/
theorem touches_waitAgain {i : Nat} {e : StatusEvent} {s : JobControl} {jobs : List Job}
    (h : makeJobForeGroundCond i e s.jobs = (true, jobs)) :
    Touches s { s with jobs := jobs, log := s.log ++ [.recorded e] } := by
  have hmark := forall₂_marked_updatedJobStatusAt i s.jobs
  unfold makeJobForeGroundCond at h
  cases hat : updatedJobStatusAt i s.jobs with | mk st jobs₁
  rw [hat] at h hmark
  cases st with
  -- the job ran before the status, so the loop goes round exactly if that was recorded
  | RUNNING =>
    simp only [Prod.mk.injEq, decide_eq_true_eq] at h
    obtain ⟨hsucc, rfl⟩ := h
    exact (Relation.ReflTransGen.single (.mark s jobs₁ hmark)).tail
      (.record { s with jobs := jobs₁ } e _ (Prod.ext hsucc rfl))
  | STOPPED => simp at h
  | COMPLETED => simp at h

/-- The last turn of the wait loop only marks the job. -/
theorem touches_waitEnd {i : Nat} {e : StatusEvent} {s : JobControl} {jobs : List Job}
    (h : makeJobForeGroundCond i e s.jobs = (false, jobs)) :
    Touches s { s with jobs := jobs } := by
  have hmark := forall₂_marked_updatedJobStatusAt i s.jobs
  unfold makeJobForeGroundCond at h
  cases hat : updatedJobStatusAt i s.jobs with | mk st jobs₁
  rw [hat] at h hmark
  refine .single (.mark s jobs ?_)
  cases st with
  -- the job runs, so the recording must have failed, which leaves the table alone
  | RUNNING =>
    simp only [Prod.mk.injEq, decide_eq_false_iff_not] at h
    obtain ⟨hfail, rfl⟩ := h
    rwa [updatedProcessStatus_fail hfail]
  | STOPPED => obtain ⟨-, rfl⟩ := Prod.mk.inj h; exact hmark
  | COMPLETED => obtain ⟨-, rfl⟩ := Prod.mk.inj h; exact hmark

/-- The wait loop calls `waitpid` at least once. -/
theorem makeJobForeGroundWait_calls_pos (i : Nat) (childLeft : Bool) (es : List StatusEvent)
    (jobs : List Job) : 1 ≤ (makeJobForeGroundWait i childLeft es jobs).calls := by
  unfold makeJobForeGroundWait
  cases es with
  | nil => unfold waitWhile; split <;> exact Nat.le_refl 1
  | cons e es =>
    unfold waitWhile
    split
    · exact Nat.le_add_left 1 _
    · exact Nat.le_refl 1

/-- A turn of the loop that goes on. -/
theorem makeJobForeGroundWait_again {i : Nat} (childLeft : Bool) {e : StatusEvent}
    (es : List StatusEvent) {jobs jobs' : List Job}
    (h : makeJobForeGroundCond i e jobs = (true, jobs')) :
    (makeJobForeGroundWait i childLeft (e :: es) jobs).jobs =
        (makeJobForeGroundWait i childLeft es jobs').jobs ∧
      (makeJobForeGroundWait i childLeft (e :: es) jobs).calls =
        (makeJobForeGroundWait i childLeft es jobs').calls + 1 := by
  unfold makeJobForeGroundWait
  rw [waitWhile_again h]
  exact ⟨rfl, rfl⟩

/-- The wait loop marks the job and records the statuses it goes round again after. -/
theorem touches_wait (i : Nat) (childLeft : Bool) (es : List StatusEvent) (s : JobControl) :
    Touches s { s with
      jobs := (makeJobForeGroundWait i childLeft es s.jobs).jobs
      log := s.log ++
        (es.take ((makeJobForeGroundWait i childLeft es s.jobs).calls - 1)).map .recorded } := by
  induction es generalizing s with
  | nil =>
    cases childLeft with
    | true => simpa [makeJobForeGroundWait, waitWhile] using Relation.ReflTransGen.refl
    | false =>
      have hcond := makeJobForeGroundCond_noChild i s.jobs
      simpa [makeJobForeGroundWait, waitWhile] using
        touches_waitEnd (Prod.ext hcond rfl : makeJobForeGroundCond i noChild s.jobs = (false, _))
  | cons e es ih =>
    cases hcond : makeJobForeGroundCond i e s.jobs with | mk again jobs
    cases again with
    | false =>
      rw [makeJobForeGroundWait, waitWhile_stop hcond]
      simpa using touches_waitEnd hcond
    | true =>
      -- one more call, one more status recorded: `calls - 1` grows as the rest of the loop does
      have hpos := makeJobForeGroundWait_calls_pos i childLeft es jobs
      obtain ⟨hjobs, hcalls⟩ := makeJobForeGroundWait_again childLeft es hcond
      have htake : (makeJobForeGroundWait i childLeft (e :: es) s.jobs).calls - 1 =
          (makeJobForeGroundWait i childLeft es jobs).calls - 1 + 1 := by omega
      rw [htake, hjobs, List.take_succ_cons, List.map_cons, List.append_cons]
      exact (touches_waitAgain hcond).trans
        (ih { s with jobs := jobs, log := s.log ++ [.recorded e] })

/-- `MakeJobForeGround` marks, signals and records. -/
theorem touches_makeJobForeGround (i : Nat) (cont : Bool) (es : List StatusEvent)
    (childLeft : Bool) (s : JobControl) :
    Touches s (makeJobForeGround killError i cont es childLeft s).2 := by
  have hmark := touches_setForeground i true s
  unfold makeJobForeGround
  dsimp only
  refine (hmark.trans ?_).trans (touches_wait i childLeft es _)
  split
  · exact touches_signalJob killError i _ _
  · exact .refl

/-- `func_fg` -/
theorem touches_funcFg (pc : Command) (es : List StatusEvent) (childLeft : Bool)
    (s : JobControl) : Touches s (funcFg killError beyond pc es childLeft s).2 := by
  unfold funcFg
  split
  · exact touches_printError _ _
  · exact touches_printError _ _
  · split
    · exact touches_printError _ _
    · rename_i i _
      exact (((touches_resumeAt i s).trans (touches_setNotified i true _)).trans
        (touches_print _ _)).trans (touches_makeJobForeGround killError i true es childLeft _)

/-- `func_bg` -/
theorem touches_funcBg (pc : Command) (s : JobControl) :
    Touches s (funcBg killError beyond pc s) := by
  -- with and without a parameter `bg` only looks for its job differently
  have hcont : ∀ found : Option Nat, Touches s (found.elim (s.printError "bg : No job found.\n")
      fun i => makeJobBackGround killError i true (announceJob i
        ((resumeAt i s).modifyJob i fun job => { job with notified := false }))) := by
    intro found
    cases found with
    | none => exact touches_printError _ _
    | some i =>
      exact (((touches_resumeAt i s).trans (touches_setNotified i false _)).trans
        (touches_announceJob i _)).trans (touches_makeJobBackGround killError i true _)
  unfold funcBg
  dsimp only
  split
  · exact touches_printError _ _
  · exact hcont _
  · exact hcont _

/-- The loop of `func_kill`. -/
theorem touches_killLoop (words : List String) (s : JobControl) :
    Touches s (killLoop killError beyond words s) := by
  induction words generalizing s with
  | nil => exact .refl
  | cons word words ih =>
    unfold killLoop
    split
    · exact ih s
    · rename_i i _
      dsimp only
      have hcont := ((touches_resumeAt i s).trans (touches_setNotified i false _)).trans
        (touches_makeJobBackGround killError i true _)
      -- the flags are cleared and `SIGCONT` is sent first, so a stopped job gets the `SIGTERM`
      have hterm := hcont.trans (touches_signalJob killError i .SIGTERM _)
      split
      · rename_i s' hsig
        rw [hsig] at hterm
        exact hterm.trans (ih s')
      · rename_i s' hsig
        rwa [hsig] at hterm

/-- `func_kill` -/
theorem touches_funcKill (pc : Command) (s : JobControl) :
    Touches s (funcKill killError beyond pc s) := by
  unfold funcKill
  split
  · exact touches_printError _ _
  · exact touches_killLoop _ _ _ _

/-- **Every built-in** leaves the jobs in their places. -/
theorem touches_executeBuiltInComds (strsignal : Nat → String) (pc : Command)
    (es : List StatusEvent) (childLeft : Bool) (s : JobControl) :
    Touches s (executeBuiltInComds killError beyond strsignal pc es childLeft s).2 := by
  have hfg := touches_funcFg killError beyond pc es childLeft s
  unfold executeBuiltInComds
  split_ifs
  · exact .refl
  · exact touches_funcBg _ _ _ _
  · split <;> simp_all
  · exact .single (.text s _ s.err)
  · exact touches_funcKill _ _ _ _
  · exact .refl
  · exact .refl

/-- So does the first loop of `func_JobNotification`. -/
theorem touches_recordAvailable (es : List StatusEvent) (s : JobControl) :
    Touches s (recordAvailable es s) := by
  induction es generalizing s with
  | nil => exact .refl
  | cons e es ih =>
    unfold recordAvailable
    cases hupd : updatedProcessStatus e s.jobs with | mk ret jobs
    have hfail : ret ≠ .SUCCESS → jobs = s.jobs := by
      intro hne
      have h : (updatedProcessStatus e s.jobs).2 = s.jobs :=
        updatedProcessStatus_fail (by rw [hupd]; exact hne)
      rwa [hupd] at h
    cases ret with
    | SUCCESS => exact (Relation.ReflTransGen.single (.record s e jobs hupd)).trans (ih _)
    | FAIL => rw [hfail (by simp)]
    | QUIT => rw [hfail (by simp)]

end

end OSPortfolio.Ish
