import OSPortfolio.Ish.ChangeDir
import OSPortfolio.Ish.JobBlocks
import OSPortfolio.Ish.JobNumbers

namespace OSPortfolio.Ish.OnHeap

open OSPortfolio.Memory OSPortfolio.Posix OSPortfolio.Lts

/-!
# Job control on the heap

The functions that walk along the job table, allocate a job or free one, and whole runs.

* `Holds` — the globals and the blocks of a job table;
* `HoldsTable.set`, `HoldsTable.read` — the rules for a job that a pointer leads to;
* `triple_executeBuiltInComds`, `triple_funcJobNotification`, `triple_execCommand` — the
  functions do what they do to the table, **no block is used that has been freed**, and none is
  lost;
* `jobs_freed` — **every run on the heap** is one of `JobGroups.lean`, and `main` leaves nothing.
-/

/-- The globals and the blocks of the table, with the addresses of its jobs. -/
structure Holds (g : Globals) (ptrs : List Ptr) (s : JobControl) (m : JobBlocks) : Prop where
  table : HoldsTable ptrs g.head s.jobs m
  numJobs : g.numJobs = s.numJobs
  out : g.out = s.out
  err : g.err = s.err
  kills : g.kills = s.kills.map fun call => (call.pid, call.sig)

section
variable {γ : Type} {m : JobBlocks} {ptrs : List Ptr} {g : Globals} {head p : Ptr}
  {s : JobControl} {jobs : List Job} {job : Job} {i : Nat} {Q : γ → JobBlocks → Prop}

/-- Printing touches no block. -/
theorem Holds.print (h : Holds g ptrs s m) (text : String) :
    Holds (g.print text) ptrs (s.print text) m :=
  ⟨h.table, h.numJobs, by rw [Globals.print, JobControl.print, h.out], h.err, h.kills⟩

/-- Nor does an error message. -/
theorem Holds.printError (h : Holds g ptrs s m) (text : String) :
    Holds (g.printError text) ptrs (s.printError text) m :=
  ⟨h.table, h.numJobs, h.out, by rw [Globals.printError, JobControl.printError, h.err], h.kills⟩

/-- The same globals, where the jobs have changed in their places. -/
theorem Holds.withJobs {m' : JobBlocks} (h : Holds g ptrs s m)
    (htable : HoldsTable ptrs g.head jobs m') : Holds g ptrs { s with jobs := jobs } m' :=
  ⟨htable, h.numJobs, h.out, h.err, h.kills⟩

/-! ### A job that a pointer leads to -/

/-- Read the fields of a job of the table. -/
theorem HoldsTable.read {f : JobFields → JobProg γ} (h : HoldsTable ptrs head jobs m)
    (hi : ptrs[i]? = some p) (hjob : jobs[i]? = some job)
    (hf : ∀ name q ps, Triple m (f (jobFields job name q ps)) Q) :
    Triple m (loadJob p >>= f) Q := by
  obtain ⟨q, m₁, o, rfl, ⟨-, name, ps, ys, ms, rfl, -⟩, -⟩ := h.focus hi hjob
  exact triple_loadJob (add_assoc _ _ _) (hf name q ps)

/-- Read the name of a job of the table. -/
theorem HoldsTable.readName {f : String → JobProg γ} (h : HoldsTable ptrs head jobs m)
    (hi : ptrs[i]? = some p) (hjob : jobs[i]? = some job) (hf : Triple m (f job.jobName) Q) :
    Triple m (loadJob p >>= fun c => loadText c.jobName >>= f) Q := by
  obtain ⟨q, m₁, o, rfl, ⟨-, name, ps, ys, ms, rfl, -⟩, -⟩ := h.focus hi hjob
  refine triple_loadJob (add_assoc _ _ _) (triple_loadText (s := job.jobName)
    (o := {(p, JobCell.job (jobFields job name q ps))} + (ms + o)) ?_ hf)
  show _ = {(name, _)} + _
  abel

/-- Assign to a field of a job of the table. -/
theorem HoldsTable.set {f : Unit → JobProg γ} {a : JobFields → JobFields} (k : Job → Job)
    (h : HoldsTable ptrs head jobs m) (hi : ptrs[i]? = some p)
    (ha : ∀ job name q ps, a (jobFields job name q ps) = jobFields (k job) name q ps)
    (hname : ∀ job, (k job).jobName = job.jobName)
    (hprocess : ∀ job, (k job).process = job.process)
    (hf : ∀ m', HoldsTable ptrs head (jobs.modify i k) m' → Triple m' (f ()) Q) :
    Triple m (setJob p a >>= f) Q := by
  have hset : Triple m (setJob p a) fun _ m' =>
      True ∧ HoldsTable ptrs head (jobs.modify i k) m' :=
    h.modify hi fun job q m hm => Triple.last
      (triple_modifyJob k hm (fun name ps => ha job name q ps) (hname job) (hprocess job)
        fun m' hm' => triple_pure ⟨trivial, hm'⟩)
  exact hset.bind fun _ m' h' => hf m' h'.2

/-! ### Searching -/

/-- A search along the table. -/
theorem along_search (test : Job → Bool) (xs : List (Ptr × Job)) :
    (along (fun (_ : Unit) x => ((if test x.2 then .inl x.1 else .inr ()), x.2)) () xs).2 = xs ∧
      (((xs.map Prod.snd).findIdx? test = none ∧
          (along (fun (_ : Unit) x => ((if test x.2 then Sum.inl x.1 else .inr ()), x.2))
            () xs).1 = .inr ()) ∨
        ∃ i p, (xs.map Prod.snd).findIdx? test = some i ∧ (xs.map Prod.fst)[i]? = some p ∧
          (along (fun (_ : Unit) x => ((if test x.2 then Sum.inl x.1 else .inr ()), x.2))
            () xs).1 = .inl p) := by
  induction xs with
  | nil => exact ⟨rfl, .inl ⟨rfl, rfl⟩⟩
  | cons x xs ih =>
    obtain ⟨hsame, hfound⟩ := ih
    rw [along, List.map_cons, List.findIdx?_cons]
    by_cases htest : test x.2 = true
    · simp only [htest, if_true]
      exact ⟨trivial, .inr ⟨0, x.1, rfl, rfl, rfl⟩⟩
    · simp only [htest, if_false, Bool.false_eq_true]
      refine ⟨by rw [hsame], ?_⟩
      rcases hfound with ⟨hnone, hr⟩ | ⟨i, p, hi, hp, hr⟩
      · exact .inl ⟨by rw [hnone]; rfl, hr⟩
      · exact .inr ⟨i + 1, p, by rw [hi]; rfl, hp, hr⟩

/-- **A search along the table** finds the first job that passes the test. -/
theorem triple_searchJob {test : JobFields → Bool} (t : Job → Bool)
    (ht : ∀ job name q ps, test (jobFields job name q ps) = t job)
    (h : HoldsTable ptrs head jobs m) {f : Ptr → JobProg γ}
    (hnone : ∀ m', HoldsTable ptrs head jobs m' → jobs.findIdx? t = none → Triple m' (f 0) Q)
    (hfound : ∀ m' i p, HoldsTable ptrs head jobs m' → jobs.findIdx? t = some i →
      ptrs[i]? = some p → p ≠ 0 → Triple m' (f p) Q) :
    Triple m (searchJob test head >>= f) Q := by
  obtain ⟨xs, hxs, rfl, rfl⟩ := h
  have hbody : DoesTo jobNode (fun (_ : Unit) p => do
      let c ← loadJob p
      pure (if test c then Sum.inl p else .inr ()))
      fun _ x => ((if t x.2 then .inl x.1 else .inr ()), x.2) := by
    intro _ p q job m hnode
    refine triple_jobFields hnode fun name ps => triple_pure ⟨?_, hnode⟩
    rw [ht]
  obtain ⟨hsame, hr⟩ := along_search t xs
  rw [searchJob, bind_assoc]
  refine (triple_walk readsNext_job hbody hxs ()).bind fun r m' hwalk => ?_
  obtain ⟨rfl, hsegment⟩ := hwalk
  rw [hsame] at hsegment
  rcases hr with ⟨hidx, hr⟩ | ⟨i, p, hidx, hp, hr⟩
  · rw [hr]
    exact hnone m' ⟨xs, hsegment, rfl, rfl⟩ hidx
  · rw [hr]
    refine hfound m' i p ⟨xs, hsegment, rfl, rfl⟩ hidx hp ?_
    rw [List.getElem?_map] at hp
    obtain ⟨x, hx, rfl⟩ := Option.map_eq_some_iff.mp hp
    exact hsegment.ne_null x (List.mem_of_getElem? hx)

/-! ### Resuming -/

/-- A walk that resumes each process. -/
theorem scan_resume (ps : List Process) :
    scan (fun (_ : Unit) process => ((.inr () : Unit ⊕ Unit), process.resume)) () ps =
      (.inr (), ps.map Process.resume) := by
  induction ps with
  | nil => rfl
  | cons p ps ih =>
    show ((scan _ () ps).1, p.resume :: (scan _ () ps).2) = _
    rw [ih]
    rfl

/-- **The loop that clears `stopped`** -/
theorem HoldsTable.resume {f : Unit → JobProg γ} (h : HoldsTable ptrs head jobs m)
    (hi : ptrs[i]? = some p)
    (hf : ∀ m', HoldsTable ptrs head
      (jobs.modify i fun job => { job with process := job.process.map Process.resume }) m' →
        Triple m' (f ()) Q) :
    Triple m (resumeJob p >>= f) Q := by
  have hresume : Triple m (resumeJob p) fun _ m' => True ∧ HoldsTable ptrs head
      (jobs.modify i fun job => { job with process := job.process.map Process.resume }) m' := by
    refine h.modify hi fun job q m hm => ?_
    refine triple_walkProcesses (f := fun _ process => (.inr (), process.resume)) hm ?_ ()
      fun m' hm' => triple_pure ⟨trivial, ?_⟩
    · rintro _ p q process m ⟨hp, rfl⟩
      refine triple_setProcess (add_zero _).symm (triple_pure ⟨rfl, hp, ?_⟩)
      rw [add_zero]
      rfl
    · rw [scan_resume] at hm'
      exact hm'
  exact hresume.bind fun _ m' h' => hf m' h'.2

/-! ### Signals and waiting -/

variable (killError : Nat → Option String) (beyond : List Char)

/-- `SendSignal`: the group is read from the block of the job. -/
theorem triple_signalJob (h : Holds g ptrs s m) (hi : ptrs[i]? = some p) (sig : Signal) :
    Triple m (signalJob killError p sig g) fun r m' =>
      r.1 = (Ish.signalJob killError i sig s).1 ∧
        Holds r.2 ptrs (Ish.signalJob killError i sig s).2 m' := by
  obtain ⟨job, hjob⟩ := h.table.job_at hi
  have hlength : g.kills.length = s.kills.length := by rw [h.kills, List.length_map]
  have hkills : Holds { g with kills := g.kills ++ [(-job.processGroupId, sig)] } ptrs
      { s with kills := s.kills ++ [⟨i, job, sig⟩] } m :=
    ⟨h.table, h.numJobs, h.out, h.err, by simp [h.kills, KillCall.pid]⟩
  unfold signalJob Ish.signalJob
  refine h.table.read hi hjob fun name q ps => ?_
  simp only [hjob, hlength]
  cases killError s.kills.length with
  | none => exact triple_pure ⟨rfl, hkills⟩
  | some reason => exact triple_pure ⟨rfl, hkills.printError _⟩

/-- `MakeJobBackGround(job, cont)` -/
theorem triple_makeJobBackGround (h : Holds g ptrs s m) (hi : ptrs[i]? = some p) (cont : Bool) :
    Triple m (makeJobBackGround killError p cont g) fun g' m' =>
      Holds g' ptrs (Ish.makeJobBackGround killError i cont s) m' := by
  unfold makeJobBackGround Ish.makeJobBackGround
  refine h.table.set (fun job => { job with foreground := false }) hi (fun _ _ _ _ => rfl)
    (fun _ => rfl) (fun _ => rfl) fun m' h' => ?_
  have hset := h.withJobs h'
  cases cont with
  | false => exact triple_pure hset
  | true =>
    exact (triple_signalJob killError hset hi .SIGCONT).bind fun r m'' hr => triple_pure hr.2

/-- **A wait loop**, for a condition that is one of `WaitLoop.lean`. -/
theorem triple_waitWhile {cond : StatusEvent → JobProg Bool}
    {c : StatusEvent → List Job → Bool × List Job}
    (hc : ∀ e jobs m, HoldsTable ptrs head jobs m → Triple m (cond e) fun r m' =>
      r = (c e jobs).1 ∧ HoldsTable ptrs head (c e jobs).2 m')
    (h : HoldsTable ptrs head jobs m) (childLeft : Bool) (es : List StatusEvent) :
    Triple m (waitWhile cond childLeft es) fun r m' =>
      r = (Ish.waitWhile c childLeft es jobs).returned ∧
        HoldsTable ptrs head (Ish.waitWhile c childLeft es jobs).jobs m' := by
  induction es generalizing jobs m with
  | nil =>
    unfold waitWhile Ish.waitWhile
    cases childLeft with
    | true => exact triple_pure ⟨rfl, h⟩
    | false => exact (hc noChild jobs m h).bind fun r m' hr => triple_pure ⟨rfl, hr.2⟩
  | cons e es ih =>
    unfold waitWhile
    refine (hc e jobs m h).bind fun r m' hr => ?_
    obtain ⟨rfl, h'⟩ := hr
    cases hcond : c e jobs with | mk again jobs'
    rw [hcond] at h'
    cases again with
    | true => rw [waitWhile_again hcond]; exact ih h'
    | false => rw [waitWhile_stop hcond]; exact triple_pure ⟨rfl, h'⟩

/-- The condition of the loop of `MakeJobForeGround`. -/
theorem triple_makeJobForeGroundCond (hi : ptrs[i]? = some p) (e : StatusEvent)
    (h : HoldsTable ptrs head jobs m) :
    Triple m (makeJobForeGroundCond p head e) fun r m' =>
      r = (Ish.makeJobForeGroundCond i e jobs).1 ∧
        HoldsTable ptrs head (Ish.makeJobForeGroundCond i e jobs).2 m' := by
  unfold makeJobForeGroundCond Ish.makeJobForeGroundCond
  refine (triple_updatedJobStatusAt h hi).bind fun r m' hr => ?_
  obtain ⟨rfl, h'⟩ := hr
  cases hat : updatedJobStatusAt i jobs with | mk st jobs₁
  rw [hat] at h'
  cases st with
  | RUNNING =>
    refine (triple_updatedProcessStatus e h').bind fun r m'' hr => triple_pure ?_
    obtain ⟨rfl, h''⟩ := hr
    exact ⟨rfl, h''⟩
  | STOPPED => exact triple_pure ⟨rfl, h'⟩
  | COMPLETED => exact triple_pure ⟨rfl, h'⟩

/-- The condition of the loop of `ExecCommand`. -/
theorem triple_execCommandCond (hi : ptrs[i]? = some p) (e : StatusEvent)
    (h : HoldsTable ptrs head jobs m) :
    Triple m (execCommandCond p head e) fun r m' =>
      r = (Ish.execCommandCond i e jobs).1 ∧
        HoldsTable ptrs head (Ish.execCommandCond i e jobs).2 m' := by
  unfold execCommandCond Ish.execCommandCond
  refine (triple_updatedProcessStatus e h).bind fun r m' hr => ?_
  obtain ⟨rfl, h'⟩ := hr
  cases hupd : Ish.updatedProcessStatus e jobs with | mk ret jobs₁
  rw [hupd] at h'
  cases ret with
  | SUCCESS =>
    refine (triple_updatedJobStatusAt h' hi).bind fun r m'' hr => triple_pure ?_
    obtain ⟨rfl, h''⟩ := hr
    exact ⟨rfl, h''⟩
  | QUIT => exact triple_pure ⟨rfl, h'⟩
  | FAIL => exact triple_pure ⟨rfl, h'⟩

/-- `SIGCONT`, if the job is to go on. -/
theorem triple_sendInfo (h : Holds g ptrs s m) (hi : ptrs[i]? = some p) (cont : Bool) :
    Triple m (sendInfo killError p cont g) fun g' m' => Holds g' ptrs
      (if cont then (Ish.signalJob killError i .SIGCONT s).2 else s) m' := by
  unfold sendInfo
  cases cont with
  | false => exact triple_pure h
  | true =>
    obtain ⟨job, hjob⟩ := h.table.job_at hi
    refine h.table.read hi hjob fun name q ps => ?_
    exact (triple_signalJob killError h hi .SIGCONT).bind fun r m' hr => triple_pure hr.2

/-- **`MakeJobForeGround`** -/
theorem triple_makeJobForeGround (h : Holds g ptrs s m) (hi : ptrs[i]? = some p) (cont : Bool)
    (es : List StatusEvent) (childLeft : Bool) :
    Triple m (makeJobForeGround killError p cont es childLeft g) fun r m' =>
      r.1 = (Ish.makeJobForeGround killError i cont es childLeft s).1 ∧
        Holds r.2 ptrs (Ish.makeJobForeGround killError i cont es childLeft s).2 m' := by
  obtain ⟨job, hjob⟩ := h.table.job_at hi
  unfold makeJobForeGround Ish.makeJobForeGround
  refine h.table.read hi hjob fun name q ps => ?_
  refine h.table.set (fun job => { job with foreground := true }) hi (fun _ _ _ _ => rfl)
    (fun _ => rfl) (fun _ => rfl) fun m' h' => ?_
  have hset := h.withJobs h'
  refine (triple_sendInfo killError hset hi cont).bind fun g' m'' hg => ?_
  set t := if cont = true then (Ish.signalJob killError i .SIGCONT
      (s.modifyJob i fun job => { job with foreground := true })).2
    else s.modifyJob i fun job => { job with foreground := true }
  refine (triple_waitWhile (fun e jobs m hm => triple_makeJobForeGroundCond hi e hm) hg.table
    childLeft es).bind fun returned m₃ hr => ?_
  obtain ⟨rfl, h₃⟩ := hr
  have hdone := hg.withJobs h₃
  refine triple_whenTrue (fun hret => ?_) fun hret => ?_
  · obtain ⟨job', hjob'⟩ := h₃.job_at hi
    rw [bind_assoc]
    exact h₃.read hi hjob' fun name q ps => triple_pure
      ⟨rfl, hdone.table, hdone.numJobs, hdone.out, hdone.err, hdone.kills⟩
  · exact triple_pure ⟨rfl, hdone.table, hdone.numJobs, hdone.out, hdone.err, hdone.kills⟩

/-! ### Printing -/

/-- The pids of a job, along `next`. -/
theorem triple_displayProcessIDsUpTo {xs : List (Ptr × Process)}
    (h : Segment processNode p xs 0 m) {n : Nat} (hn : xs.length < n) :
    Triple m (displayProcessIDsUpTo n p) fun r m' =>
      r = Ish.displayProcessIDs (xs.map Prod.snd) ∧ m' = m := by
  induction xs generalizing p m n with
  | nil =>
    obtain ⟨n, rfl⟩ : ∃ k, n = k + 1 := ⟨n - 1, by simp at hn; omega⟩
    obtain rfl := h.eq_null_iff.mpr rfl
    rw [displayProcessIDsUpTo, if_pos rfl]
    exact triple_pure ⟨rfl, rfl⟩
  | cons x xs ih =>
    obtain ⟨n, rfl⟩ : ∃ k, n = k + 1 := ⟨n - 1, by simp at hn; omega⟩
    cases h with
    | @cons _ q _ process _ mp mrest hnode hrest =>
      rw [displayProcessIDsUpTo, if_neg (processNode.ne_null hnode)]
      obtain ⟨hp, rfl⟩ := hnode
      refine triple_loadProcess rfl ?_
      refine (ih hrest (n := n) (by simpa using hn)).call (add_comm _ _) ?_
      rintro before m' ⟨rfl, rfl⟩
      refine triple_loadProcess (add_comm _ _) (triple_pure ⟨?_, add_comm _ _⟩)
      simp [Ish.displayProcessIDs, String.join_append]

/-- **`DisplayProcessIDs`** -/
theorem triple_displayProcessIDs {xs : List (Ptr × Process)} (h : Segment processNode p xs 0 m) :
    Triple m (displayProcessIDs p) fun r m' =>
      r = Ish.displayProcessIDs (xs.map Prod.snd) ∧ m' = m := by
  rw [displayProcessIDs]
  refine triple_size fun n hn => ?_
  have hlength := h.length_le_card
  exact triple_displayProcessIDsUpTo h (by omega)

/-- The line with the number and the pids of a job. -/
theorem triple_announceJob (h : Holds g ptrs s m) (hi : ptrs[i]? = some p) :
    Triple m (announceJob p g) fun g' m' => Holds g' ptrs (Ish.announceJob i s) m' := by
  obtain ⟨job, hjob⟩ := h.table.job_at hi
  have hdone := ((h.print ("[" ++ toString job.jobNum ++ "]")).print
    (Ish.displayProcessIDs job.process)).print "\n"
  obtain ⟨q, m₁, o, rfl, ⟨-, name, ps, xs, ms, rfl, hxs, hprocess⟩, -⟩ := h.table.focus hi hjob
  unfold announceJob Ish.announceJob
  refine triple_loadJob (add_assoc _ _ _) ?_
  refine (triple_displayProcessIDs hxs).call
    (o := {(p, JobCell.job (jobFields job name q ps))} + {(name, .chars job.jobName)} + o) ?_ ?_
  · show _ = ms + _
    abel
  · rintro ids m' ⟨rfl, rfl⟩
    have hsame : m' + ({(p, JobCell.job (jobFields job name q ps))} + {(name, .chars job.jobName)} + o) =
        {(p, JobCell.job (jobFields job name q ps))} + ({(name, .chars job.jobName)} + m') + o := by
      abel
    rw [hsame, hprocess]
    simp only [hjob]
    exact triple_pure hdone

/-- `PrintInfoJobs(job)` -/
theorem triple_printInfoJobs (strsignal : Nat → String) {q : Ptr} (h : jobNode.Holds p q job m) :
    Triple m (printInfoJobs strsignal p) fun r m' =>
      r = Ish.printInfoJobs strsignal job ∧ m' = m := by
  obtain ⟨-, name, ps, xs, ms, rfl, -⟩ := h
  obtain ⟨num, text, notified, status, runStatus, foreground, process, group⟩ := job
  unfold printInfoJobs
  refine triple_loadJob rfl ?_
  cases runStatus with
  | RUNNING => exact triple_pure ⟨rfl, rfl⟩
  | STOPPED => exact triple_loadText (add_left_comm _ _ _) (triple_pure ⟨rfl, rfl⟩)
  | COMPLETED =>
    refine triple_loadText (add_left_comm _ _ _) ?_
    cases status with
    | exited code => exact triple_pure ⟨rfl, rfl⟩
    | signaled sig core => exact triple_pure ⟨rfl, rfl⟩
    | stopped sig => exact triple_pure ⟨rfl, rfl⟩

/-- `DisplayActiveJobs()`, along `next`. -/
theorem triple_displayActiveJobsUpTo (strsignal : Nat → String) {xs : List (Ptr × Job)}
    (h : Segment jobNode p xs 0 m) {n : Nat} (hn : xs.length < n) :
    Triple m (displayActiveJobsUpTo strsignal n p) fun r m' =>
      r = Ish.displayActiveJobs strsignal (xs.map Prod.snd) ∧ m' = m := by
  induction xs generalizing p m n with
  | nil =>
    obtain ⟨n, rfl⟩ : ∃ k, n = k + 1 := ⟨n - 1, by simp at hn; omega⟩
    obtain rfl := h.eq_null_iff.mpr rfl
    rw [displayActiveJobsUpTo, if_pos rfl]
    exact triple_pure ⟨rfl, rfl⟩
  | cons x xs ih =>
    obtain ⟨n, rfl⟩ : ∃ k, n = k + 1 := ⟨n - 1, by simp at hn; omega⟩
    cases h with
    | @cons _ q _ job _ mp mrest hnode hrest =>
      rw [displayActiveJobsUpTo, if_neg (jobNode.ne_null hnode)]
      have hinfo := triple_printInfoJobs strsignal hnode
      obtain ⟨-, name, ps, ys, ms, rfl, -⟩ := hnode
      refine triple_loadJob (add_assoc _ _ _) ?_
      refine (ih hrest (n := n) (by simpa using hn)).call (add_comm _ _) ?_
      rintro before m' ⟨rfl, rfl⟩
      rw [add_comm]
      refine triple_loadJob (add_assoc _ _ _) ?_
      show Triple _ (if job.foreground = false then _ else _) _
      rw [List.map_cons, Ish.displayActiveJobs]
      split
      · refine hinfo.call rfl ?_
        rintro texts m'' ⟨rfl, rfl⟩
        exact triple_pure ⟨rfl, rfl⟩
      · exact triple_pure ⟨(List.append_nil _).symm, rfl⟩

/-- **`DisplayActiveJobs`** -/
theorem triple_displayActiveJobs (strsignal : Nat → String) (h : HoldsTable ptrs head jobs m) :
    Triple m (displayActiveJobs strsignal head) fun r m' =>
      r = Ish.displayActiveJobs strsignal jobs ∧ HoldsTable ptrs head jobs m' := by
  obtain ⟨xs, hxs, rfl, rfl⟩ := h
  rw [displayActiveJobs]
  refine triple_size fun n hn => ?_
  have hlength := hxs.length_le_card
  refine (triple_displayActiveJobsUpTo strsignal hxs (n := n + 1) (by omega)).weaken ?_
  rintro r m' ⟨rfl, rfl⟩
  exact ⟨rfl, xs, hxs, rfl, rfl⟩

/-! ### The built-ins -/

/-- The start of `fg`, `bg` and `kill` on the job that they have found. -/
theorem Holds.resumed {f : Unit → JobProg γ} (h : Holds g ptrs s m) (hi : ptrs[i]? = some p)
    (notified : Bool)
    (hf : ∀ m', Holds g ptrs
      ((resumeAt i s).modifyJob i fun job => { job with notified := notified }) m' →
        Triple m' (f ()) Q) :
    Triple m (resumeJob p >>= fun _ =>
      setJob p (fun c => { c with notified := notified }) >>= f) Q := by
  refine h.table.resume hi fun m₁ h₁ => ?_
  refine h₁.set (fun job => { job with notified := notified }) hi (fun _ _ _ _ => rfl)
    (fun _ => rfl) (fun _ => rfl) fun m₂ h₂ => hf m₂ ?_
  exact ⟨h₂, h.numJobs, h.out, h.err, h.kills⟩

/-- **`func_fg`** -/
theorem triple_funcFg (h : Holds g ptrs s m) (pc : Command) (es : List StatusEvent)
    (childLeft : Bool) :
    Triple m (funcFg killError beyond pc es childLeft g) fun r m' =>
      r.1 = (Ish.funcFg killError beyond pc es childLeft s).1 ∧
        Holds r.2 ptrs (Ish.funcFg killError beyond pc es childLeft s).2 m' := by
  unfold funcFg Ish.funcFg
  rcases pc.pa.params with _ | ⟨word, _ | ⟨_, _⟩⟩
  · exact triple_pure ⟨rfl, h.printError _⟩
  · refine triple_searchJob (fun job => (job.jobNum : Int) = jobSpec beyond word)
      (fun _ _ _ _ => rfl) h.table (fun m' h' hnone => ?_) fun m' i p h' hfound hi hp => ?_
    · have hfind : findJob (jobSpec beyond word) s.jobs = none := hnone
      rw [if_pos rfl]
      simp only [hfind]
      exact triple_pure ⟨rfl, (h.withJobs h').printError _⟩
    · have hfind : findJob (jobSpec beyond word) s.jobs = some i := hfound
      rw [if_neg hp]
      simp only [hfind]
      refine (h.withJobs h').resumed hi true fun m'' h'' => ?_
      obtain ⟨job, hjob⟩ := h''.table.job_at hi
      refine h''.table.readName hi hjob ?_
      have hname : ((((resumeAt i s).modifyJob i fun job => { job with notified := true }).jobs[i]?).elim
          "" Job.jobName) = job.jobName := by rw [hjob]; rfl
      rw [← hname]
      exact triple_makeJobForeGround killError (h''.print _) hi true es childLeft
  · exact triple_pure ⟨rfl, h.printError _⟩

/-- `func_bg` behind the lookup: the job is resumed, announced and signalled. -/
theorem triple_continueJob (h : Holds g ptrs s m) (hi : ptrs[i]? = some p) (hp : p ≠ 0) :
    Triple m (continueJob killError p g) fun g' m' => Holds g' ptrs
      (Ish.makeJobBackGround killError i true (Ish.announceJob i
        ((resumeAt i s).modifyJob i fun job => { job with notified := false }))) m' := by
  rw [continueJob, if_neg hp]
  refine h.resumed hi false fun m₁ h₁ => ?_
  refine (triple_announceJob h₁ hi).bind fun g₂ m₂ h₂ => ?_
  exact triple_makeJobBackGround killError h₂ hi true

/-- What `bg` does behind its search. -/
theorem triple_searchContinue {test : JobFields → Bool} (t : Job → Bool)
    (ht : ∀ job name q ps, test (jobFields job name q ps) = t job) (h : Holds g ptrs s m) :
    Triple m (searchJob test g.head >>= fun job => continueJob killError job g) fun g' m' =>
      Holds g' ptrs ((s.jobs.findIdx? t).elim (s.printError "bg : No job found.\n") fun i =>
        Ish.makeJobBackGround killError i true (Ish.announceJob i
          ((resumeAt i s).modifyJob i fun job => { job with notified := false }))) m' := by
  refine triple_searchJob t ht h.table (fun m' h' hnone => ?_) fun m' i p h' hfound hi hp => ?_
  · rw [hnone, continueJob, if_pos rfl]
    exact triple_pure ((h.withJobs h').printError _)
  · rw [hfound]
    exact triple_continueJob killError (h.withJobs h') hi hp

/-- **`func_bg`** -/
theorem triple_funcBg (h : Holds g ptrs s m) (pc : Command) :
    Triple m (funcBg killError beyond pc g) fun g' m' =>
      Holds g' ptrs (Ish.funcBg killError beyond pc s) m' := by
  unfold funcBg Ish.funcBg
  rcases pc.pa.params with _ | ⟨word, _ | ⟨_, _⟩⟩
  · exact triple_searchContinue killError (fun job => job.runStatus = .STOPPED)
      (fun _ _ _ _ => rfl) h
  · exact triple_searchContinue killError (fun job => (job.jobNum : Int) = jobSpec beyond word)
      (fun _ _ _ _ => rfl) h
  · exact triple_pure (h.printError _)

/-- The loop of `func_kill` over its arguments. -/
theorem triple_killLoop (words : List String) (h : Holds g ptrs s m) :
    Triple m (killLoop killError beyond words g) fun g' m' =>
      Holds g' ptrs (Ish.killLoop killError beyond words s) m' := by
  induction words generalizing g s m with
  | nil => exact triple_pure h
  | cons word words ih =>
    unfold killLoop Ish.killLoop
    refine triple_searchJob (fun job => (job.jobNum : Int) = jobSpec beyond word)
      (fun _ _ _ _ => rfl) h.table (fun m' h' hnone => ?_) fun m' i p h' hfound hi hp => ?_
    · have hfind : findJob (jobSpec beyond word) s.jobs = none := hnone
      rw [if_pos rfl, hfind]
      exact ih (h.withJobs h')
    · have hfind : findJob (jobSpec beyond word) s.jobs = some i := hfound
      rw [if_neg hp, hfind]
      refine (h.withJobs h').resumed hi false fun m₁ h₁ => ?_
      refine (triple_makeJobBackGround killError h₁ hi true).bind fun g₂ m₂ h₂ => ?_
      refine (triple_signalJob killError h₂ hi .SIGTERM).bind fun r m₃ h₃ => ?_
      obtain ⟨hok, h₃⟩ := h₃
      dsimp only
      generalize Ish.signalJob killError i .SIGTERM _ = answer at hok h₃ ⊢
      obtain ⟨ok, t⟩ := answer
      rw [hok]
      cases ok with
      | true => exact ih h₃
      | false => exact triple_pure h₃

/-- **`func_kill`** -/
theorem triple_funcKill (h : Holds g ptrs s m) (pc : Command) :
    Triple m (funcKill killError beyond pc g) fun g' m' =>
      Holds g' ptrs (Ish.funcKill killError beyond pc s) m' := by
  unfold funcKill Ish.funcKill
  cases pc.pa.params with
  | nil => exact triple_pure (h.printError _)
  | cons word words => exact triple_killLoop killError beyond (word :: words) h

/-- **`ExecuteBuiltInComds`** -/
theorem triple_executeBuiltInComds (strsignal : Nat → String) (h : Holds g ptrs s m)
    (pc : Command) (es : List StatusEvent) (childLeft : Bool) :
    Triple m (executeBuiltInComds killError beyond strsignal pc es childLeft g) fun r m' =>
      r.1 = (Ish.executeBuiltInComds killError beyond strsignal pc es childLeft s).1 ∧
        Holds r.2 ptrs
          (Ish.executeBuiltInComds killError beyond strsignal pc es childLeft s).2 m' := by
  unfold executeBuiltInComds Ish.executeBuiltInComds
  split_ifs
  · exact triple_pure ⟨rfl, h⟩
  · exact (triple_funcBg killError beyond h pc).bind fun g' m' h' => triple_pure ⟨rfl, h'⟩
  · refine (triple_funcFg killError beyond h pc es childLeft).bind fun r m' hr => triple_pure ?_
    obtain ⟨hreturned, hr⟩ := hr
    cases hfg : Ish.funcFg killError beyond pc es childLeft s with | mk returned s'
    rw [hfg] at hreturned hr
    rw [hreturned]
    cases returned with
    | true => exact ⟨rfl, hr⟩
    | false => exact ⟨rfl, hr⟩
  · refine (triple_displayActiveJobs strsignal h.table).bind fun texts m' ht => triple_pure ?_
    obtain ⟨rfl, h'⟩ := ht
    exact ⟨rfl, h', h.numJobs, by rw [h.out], h.err, h.kills⟩
  · exact (triple_funcKill killError beyond h pc).bind fun g' m' h' => triple_pure ⟨rfl, h'⟩
  · exact triple_pure ⟨rfl, h⟩
  · exact triple_pure ⟨rfl, h⟩

end

/-! ### Notification -/

section
variable {γ : Type} {m : JobBlocks} {ptrs : List Ptr} {g : Globals} {head p q : Ptr}
  {s : JobControl} {jobs : List Job} {job : Job} {Q : γ → JobBlocks → Prop}

/-- The first loop of `func_JobNotification`. -/
theorem triple_recordAvailable (h : HoldsTable ptrs head s.jobs m) (es : List StatusEvent) :
    Triple m (recordAvailable head es) fun _ m' =>
      HoldsTable ptrs head (Ish.recordAvailable es s).jobs m' := by
  induction es generalizing s m with
  | nil =>
    unfold recordAvailable
    refine (triple_updatedProcessStatus noChild h).bind fun r m' hr => triple_pure ?_
    rw [updatedProcessStatus_noChild] at hr
    exact hr.2
  | cons e es ih =>
    unfold recordAvailable Ish.recordAvailable
    refine (triple_updatedProcessStatus e h).bind fun r m' hr => ?_
    obtain ⟨rfl, h'⟩ := hr
    cases hupd : Ish.updatedProcessStatus e s.jobs with | mk ret jobs
    rw [hupd] at h'
    cases ret with
    | SUCCESS =>
      exact ih (s := { s with jobs := jobs, log := s.log ++ [.recorded e] }) h'
    | QUIT => exact triple_pure h'
    | FAIL => exact triple_pure h'

/-- Recording leaves what is not in the table. -/
theorem recordAvailable_same (es : List StatusEvent) (s : JobControl) :
    ∃ jobs log, Ish.recordAvailable es s = { s with jobs := jobs, log := log } := by
  induction es generalizing s with
  | nil => exact ⟨s.jobs, s.log, rfl⟩
  | cons e es ih =>
    unfold Ish.recordAvailable
    cases Ish.updatedProcessStatus e s.jobs with | mk ret jobs
    cases ret with
    | SUCCESS => exact ih { s with jobs := jobs, log := s.log ++ [.recorded e] }
    | QUIT => exact ⟨jobs, s.log, rfl⟩
    | FAIL => exact ⟨jobs, s.log, rfl⟩

/-- The processes of a job are freed, each once. -/
theorem triple_freeProcesses {xs : List (Ptr × Process)} (h : Segment processNode p xs 0 m)
    {n : Nat} (hn : xs.length < n) :
    Triple m (freeProcesses n p) fun _ m' => m' = 0 := by
  induction xs generalizing p m n with
  | nil =>
    obtain ⟨n, rfl⟩ : ∃ k, n = k + 1 := ⟨n - 1, by simp at hn; omega⟩
    obtain rfl := h.eq_null_iff.mpr rfl
    obtain ⟨-, rfl⟩ := h.nil_of_null
    rw [freeProcesses, whenNonNull, if_pos rfl]
    exact triple_pure rfl
  | cons x xs ih =>
    obtain ⟨n, rfl⟩ : ∃ k, n = k + 1 := ⟨n - 1, by simp at hn; omega⟩
    cases h with
    | @cons _ q _ process _ mp mrest hnode hrest =>
      rw [freeProcesses, whenNonNull, if_neg (processNode.ne_null hnode)]
      refine (readsNext_process hnode).call rfl ?_
      rintro r m' ⟨rfl, rfl⟩
      obtain ⟨-, rfl⟩ := hnode
      exact triple_free rfl (ih hrest (by simpa using hn))

/-- **`AllocJobMem` frees all blocks of a job.** -/
theorem triple_allocJobMem (h : jobNode.Holds p q job m) :
    Triple m (allocJobMem p) fun _ m' => m' = 0 := by
  obtain ⟨-, name, ps, xs, ms, rfl, hxs, -⟩ := h
  rw [allocJobMem]
  refine triple_loadJob rfl (triple_size fun n hn => ?_)
  have hlength := hxs.length_le_card
  rw [Multiset.card_add, Multiset.card_add] at hn
  refine (triple_freeProcesses hxs (n := n + 1) (by omega)).call
    (o := {(p, JobCell.job (jobFields job name q ps))} + {(name, .chars job.jobName)}) ?_ ?_
  · show _ = ms + _
    abel
  · rintro _ m' rfl
    rw [zero_add]
    refine triple_loadJob rfl (triple_free (add_comm _ _) (Triple.last ?_))
    exact triple_free (add_zero _).symm (triple_pure rfl)

/-- The line for a job that is done. -/
theorem triple_announceDone (h : jobNode.Holds p q job m) :
    Triple m (announceDone p g) fun g' m' => m' = m ∧
      g' = { g with out := g.out ++ if job.foreground = false ∧ job.notified = false then
        ["[" ++ toString job.jobNum ++ "] done " ++ job.jobName ++ "\n"] else [] } := by
  rw [announceDone]
  obtain ⟨-, name, ps, xs, ms, rfl, -⟩ := h
  refine triple_loadJob rfl ?_
  show Triple _ (if job.foreground = false ∧ job.notified = false then _ else _) _
  split
  · exact triple_loadJob rfl (triple_loadText (add_left_comm _ _ _) (triple_pure ⟨rfl, rfl⟩))
  · exact triple_pure ⟨rfl, by rw [List.append_nil]⟩

/-- Assign to `job->next`. -/
theorem triple_setNext {f : Unit → JobProg γ} (h : jobNode.Holds p q job m) (next : Ptr)
    (hf : ∀ m', jobNode.Holds p next job m' → Triple m' (f ()) Q) :
    Triple m (setJob p (fun c => { c with next := next }) >>= f) Q := by
  obtain ⟨hp, name, ps, xs, ms, rfl, hxs, hprocess⟩ := h
  exact triple_setJob rfl (hf _ ⟨hp, name, ps, xs, ms, rfl, hxs, hprocess⟩)

/-- A job is taken out of the list: the job `last` in front of it, or `job_head`, is led past
    it. -/
theorem triple_unlinkJob {last next : Ptr} {kept : List (Ptr × Job)}
    (hkept : Segment jobNode g.head kept p m)
    (hlast : last = (kept.getLast?.map Prod.fst).getD 0) :
    Triple m (unlinkJob last next g) fun g' m' =>
      Segment jobNode g'.head kept next m' ∧ g' = { g with head := g'.head } := by
  rcases List.eq_nil_or_concat kept with rfl | ⟨kept, ⟨l, before⟩, rfl⟩
  · cases hkept
    rw [unlinkJob, if_neg (by simp [hlast])]
    exact triple_pure ⟨.nil next, rfl⟩
  · rw [List.concat_eq_append] at hkept hlast ⊢
    obtain ⟨m₁, m₂, rfl, hfront, hnode⟩ := hkept.last
    obtain rfl : last = l := by simpa using hlast
    rw [unlinkJob, if_pos (jobNode.ne_null hnode)]
    have hset : Triple m₂ (setJob last fun c => { c with next := next }) fun _ m' =>
        jobNode.Holds last next before m' :=
      Triple.last (triple_setNext hnode next fun m' hm' => triple_pure hm')
    refine hset.call (add_comm _ _) fun _ m' hm' => triple_pure ⟨?_, rfl⟩
    rw [add_comm]
    exact hfront.snoc hm'

/-- The globals after the sweep of these jobs. -/
structure Swept (rest : List (Ptr × Job)) (g g' : Globals) : Prop where
  numJobs : g'.numJobs = g.numJobs
  out : g'.out = g.out ++ rest.flatMap fun x => (sweepJob x.2).1
  err : g'.err = g.err
  kills : g'.kills = g.kills

/-- The nodes that the sweep leaves, from the head on. -/
theorem sweepNodes_cons (x : Ptr × Job) (rest : List (Ptr × Job)) :
    sweepNodes (x :: rest) =
      ((sweepJob x.2).2.elim [] fun job => [(x.1, job)]) ++ sweepNodes rest := by
  unfold sweepNodes
  rw [List.filterMap_cons]
  cases (sweepJob x.2).2 <;> rfl

/-- **The second loop of `func_JobNotification`.**  The nodes `kept` are in front of the turn's
    job, and `last` is the last of them. -/
theorem triple_sweepLoop {last : Ptr} {mk mr : JobBlocks} {kept rest : List (Ptr × Job)}
    (hkept : Segment jobNode g.head kept p mk) (hrest : Segment jobNode p rest 0 mr)
    (hlast : last = (kept.getLast?.map Prod.fst).getD 0) {n : Nat} (hn : rest.length < n) :
    Triple (mk + mr) (sweepLoop n last p g) fun g' m' =>
      Segment jobNode g'.head (kept ++ sweepNodes rest) 0 m' ∧ Swept rest g g' := by
  induction rest generalizing g p last mk mr kept n with
  | nil =>
    obtain ⟨n, rfl⟩ : ∃ k, n = k + 1 := ⟨n - 1, by simp at hn; omega⟩
    obtain rfl := hrest.eq_null_iff.mpr rfl
    obtain ⟨-, rfl⟩ := hrest.nil_of_null
    rw [sweepLoop, if_pos rfl, add_zero]
    exact triple_pure ⟨by simpa [sweepNodes] using hkept, rfl, by simp, rfl, rfl⟩
  | cons x rest ih =>
    obtain ⟨n, rfl⟩ : ∃ k, n = k + 1 := ⟨n - 1, by simp at hn; omega⟩
    replace hn : rest.length < n := by simpa using hn
    cases hrest with
    | @cons _ next _ job _ mp mrest hnode hrest =>
      rw [sweepLoop, if_neg (jobNode.ne_null hnode)]
      refine (readsNext_job hnode).call (o := mk + mrest) (add_left_comm _ _ _) ?_
      rintro r m' ⟨rfl, rfl⟩
      refine (triple_updatedJobStatus hnode).call (o := mk + mrest) rfl ?_
      rintro r m' ⟨rfl, hlooked⟩
      rw [sweepNodes_cons]
      cases hst : Ish.updatedJobStatus job with | mk st job'
      rw [hst] at hlooked
      cases st with
      | COMPLETED =>
        have hsweep : sweepJob job = (if job'.foreground = false ∧ job'.notified = false then
            ["[" ++ toString job'.jobNum ++ "] done " ++ job'.jobName ++ "\n"] else [], none) := by
          simp only [sweepJob, hst]
        refine (triple_announceDone hlooked).call (o := mk + mrest) rfl ?_
        rintro g₁ m₁ ⟨rfl, hg₁⟩
        have hhead : g₁.head = g.head := by rw [hg₁]
        rw [← hhead] at hkept
        refine (triple_unlinkJob hkept hlast).call (o := m₁ + mrest) (by abel) fun g₂ m₂ hu => ?_
        obtain ⟨hkept', hg₂⟩ := hu
        refine (triple_allocJobMem hlooked).call (o := m₂ + mrest) (by abel) ?_
        rintro _ m₃ rfl
        rw [zero_add]
        refine (ih hkept' hrest hlast hn).weaken fun g' m' hg' => ?_
        refine ⟨by simpa [hsweep] using hg'.1, ?_, ?_, ?_, ?_⟩
        · rw [hg'.2.numJobs, hg₂, hg₁]
        · rw [hg'.2.out, hg₂, hg₁, List.flatMap_cons, hsweep, List.append_assoc]
        · rw [hg'.2.err, hg₂, hg₁]
        · rw [hg'.2.kills, hg₂, hg₁]
      | STOPPED =>
        have hsweep : sweepJob job = (if job'.foreground = false ∧ job'.notified = false then
            ["[" ++ toString job'.jobNum ++ "] stopped\n"] else [],
            some { job' with notified := true }) := by
          simp only [sweepJob, hst]
        refine Triple.call (n := m') (R := fun f m'' => m'' = m' ∧ f.jobNum = job'.jobNum ∧
          f.foreground = job'.foreground ∧ f.notified = job'.notified) (o := mk + mrest) ?_ rfl ?_
        · exact Triple.last (triple_jobFields hlooked fun name ps =>
            triple_pure ⟨rfl, rfl, rfl, rfl⟩)
        rintro f m'' ⟨rfl, hnum, hforeground, hnotified⟩
        have hset : Triple m'' (setJob p fun f => { f with notified := true }) fun _ m =>
            jobNode.Holds p r { job' with notified := true } m :=
          Triple.last (triple_modifyJob (fun job => { job with notified := true }) hlooked
            (fun _ _ => rfl) rfl rfl fun m hm => triple_pure hm)
        refine hset.call (o := mk + mrest) rfl fun _ m₃ h₃ => ?_
        rw [hnum, hforeground, hnotified, show m₃ + (mk + mrest) = mk + m₃ + mrest by abel]
        split
        · rename_i hquiet
          refine (ih (g := g.print _) (hkept.snoc h₃) hrest (by simp) hn).weaken
            fun g' m' hg' => ⟨?_, hg'.2.numJobs, ?_, hg'.2.err, hg'.2.kills⟩
          · simpa [hsweep] using hg'.1
          · rw [hg'.2.out, List.flatMap_cons, hsweep, if_pos hquiet, Globals.print,
              List.append_assoc]
        · rename_i hquiet
          refine (ih (hkept.snoc h₃) hrest (by simp) hn).weaken
            fun g' m' hg' => ⟨?_, hg'.2.numJobs, ?_, hg'.2.err, hg'.2.kills⟩
          · simpa [hsweep] using hg'.1
          · rw [hg'.2.out, List.flatMap_cons, hsweep, if_neg hquiet, List.nil_append]
      | RUNNING =>
        have hsweep : sweepJob job = ([], some job') := by simp only [sweepJob, hst]
        rw [show m' + (mk + mrest) = mk + m' + mrest by abel]
        refine (ih (hkept.snoc hlooked) hrest (by simp) hn).weaken
          fun g' m' hg' => ⟨?_, hg'.2.numJobs, ?_, hg'.2.err, hg'.2.kills⟩
        · simpa [hsweep] using hg'.1
        · rw [hg'.2.out, List.flatMap_cons, hsweep, List.nil_append]

/-- **`func_JobNotification`** -/
theorem triple_funcJobNotification (h : Holds g ptrs s m) (es : List StatusEvent) :
    Triple m (funcJobNotification es g) fun g' m' =>
      ∃ ptrs', Holds g' ptrs' (Ish.funcJobNotification es s) m' := by
  unfold funcJobNotification Ish.funcJobNotification
  refine (triple_recordAvailable h.table es).bind fun _ m₁ h₁ => ?_
  obtain ⟨jobs, log, hrecord⟩ := recordAvailable_same es s
  rw [hrecord] at h₁ ⊢
  obtain ⟨xs, hxs, hptrs, rfl⟩ := h₁
  refine triple_size fun n hn => ?_
  have hlength := hxs.length_le_card
  have hloop := triple_sweepLoop (.nil g.head) hxs rfl (n := n + 1) (by omega)
  rw [zero_add] at hloop
  refine hloop.bind fun g' m' hg' => triple_pure ?_
  obtain ⟨hsegment, hswept⟩ := hg'
  rw [List.nil_append] at hsegment
  refine ⟨_, ⟨_, hsegment, rfl, map_snd_sweepNodes xs⟩, ?_, ?_, hswept.err.trans h.err,
    hswept.kills.trans h.kills⟩
  · show (if g'.head = 0 then 0 else g'.numJobs) =
      if ((xs.map Prod.snd).filterMap fun job => (sweepJob job).2) = [] then 0 else s.numJobs
    have hnil : g'.head = 0 ↔ ((xs.map Prod.snd).filterMap fun job => (sweepJob job).2) = [] := by
      rw [← map_snd_sweepNodes, List.map_eq_nil_iff]
      exact hsegment.eq_null_iff
    by_cases hempty : g'.head = 0
    · rw [if_pos hempty, if_pos (hnil.mp hempty)]
    · rw [if_neg hempty, if_neg (hempty ∘ hnil.mpr), hswept.numJobs, h.numJobs]
  · show g'.out = s.out ++ (xs.map Prod.snd).flatMap fun job => (sweepJob job).1
    rw [hswept.out, h.out, List.flatMap_map]

end

/-! ### The strings of the environment -/

section
variable {γ : Type} {m : JobBlocks} {Q : γ → JobBlocks → Prop} (M : Allocator)

/-- The pointers are to these strings. -/
inductive HoldsVars : List Ptr → List String → JobBlocks → Prop
  | nil : HoldsVars [] [] 0
  | cons {p : Ptr} {ps : List Ptr} {text : String} {texts : List String} {m : JobBlocks}
    (hp : p ≠ 0) (h : HoldsVars ps texts m) :
    HoldsVars (p :: ps) (text :: texts) ({(p, .chars text)} + m)

/-- The string that `EnvGetVars` makes of a variable. -/
def envText (v : String × String) : String := v.1 ++ "=" ++ v.2

/-- **`EnvGetVars`** -/
theorem triple_envGetVars {env : List (String × String)}
    (hfits : ∀ v ∈ env, fitsWord (envText v) = true) :
    Triple 0 (envGetVars M env) fun ps m => HoldsVars ps (env.map envText) m := by
  induction env with
  | nil => exact triple_pure .nil
  | cons v env ih =>
    obtain ⟨key, value⟩ := v
    obtain ⟨hv, henv⟩ := List.forall_mem_cons.mp hfits
    have hkey := fitsWord_of_append hv
    rw [envGetVars]
    refine triple_malloc fun p hp => ?_
    refine triple_strcpy rfl (fitsWord_of_append hkey.1).1 ?_
    refine triple_strcat rfl hkey.1 (triple_assert hkey.2 ?_)
    refine triple_strcat rfl hv ?_
    refine (ih henv).call (o := {(p, JobCell.chars (envText (key, value)))}) ?_ fun ps m hps => ?_
    · show _ + 0 = 0 + _
      rw [add_comm]
      rfl
    · refine triple_pure ?_
      rw [add_comm, List.map_cons]
      exact .cons hp hps

/-- They are freed. -/
theorem triple_freeVars {ps : List Ptr} {texts : List String} (h : HoldsVars ps texts m) :
    Triple m (freeVars ps) fun _ m' => m' = 0 := by
  induction h with
  | nil => exact triple_pure rfl
  | cons hp _ ih =>
    rw [freeVars]
    exact triple_whenNonNull (fun hnull => absurd hnull hp) fun _ => triple_free rfl ih

end

/-! ### Commands -/

section
variable {γ : Type} {m : JobBlocks} {ptrs : List Ptr} {g : Globals} {head p q : Ptr}
  {s : JobControl} {jobs : List Job} {job : Job} {Q : γ → JobBlocks → Prop} (M : Allocator)

/-- **A new job** -/
theorem triple_createJob (h : Holds g ptrs s m) {pc : Command} (hname : fitsWord pc.zCmd = true) :
    Triple m (createJob M pc g) fun r m' =>
      Holds r.2 (r.1 :: ptrs) (addJob (newJob s.numJobs pc) s) m' := by
  obtain ⟨xs, hxs, hptrs, hjobs⟩ := h.table
  rw [createJob]
  refine triple_malloc fun p hp => triple_setJob rfl (triple_malloc fun name _ => ?_)
  refine triple_setJob (add_left_comm _ _ _) ?_
  refine triple_loadJob rfl (triple_strcpy (add_left_comm _ _ _) hname ?_)
  refine triple_setJob (add_left_comm _ _ _) (triple_pure ?_)
  have hnode : jobNode.Holds p g.head (newJob s.numJobs pc)
      ({(p, .job (jobFields (newJob s.numJobs pc) name g.head 0))} +
        ({(name, .chars pc.zCmd)} + 0)) :=
    ⟨hp, name, 0, [], 0, rfl, .nil 0, rfl⟩
  have hsegment := Segment.cons hnode hxs
  rw [add_zero, add_assoc, ← h.numJobs] at hsegment
  rw [← h.numJobs]
  refine ⟨⟨(p, newJob g.numJobs pc) :: xs, hsegment, ?_, ?_⟩, congrArg (· + 1) h.numJobs, h.out,
    h.err, h.kills⟩
  · rw [List.map_cons, hptrs]
  · rw [List.map_cons, hjobs]
    rfl

/-- The first child of a job gives it its group. -/
theorem triple_joinGroup (h : jobNode.Holds p q job m) (pid : Int) :
    Triple m (joinGroup p pid) fun _ m' => jobNode.Holds p q
      { job with processGroupId := if job.processGroupId = 0 then pid else job.processGroupId }
      m' := by
  rw [joinGroup]
  refine triple_jobFields h fun name ps => triple_whenTrue (fun hzero => ?_) fun hzero => ?_
  · have hzero' : job.processGroupId = 0 := of_decide_eq_true hzero
    refine triple_modifyJob (fun job => { job with processGroupId := pid }) h (fun _ _ => rfl) rfl
      rfl fun m' h' => triple_jobFields h' fun name ps => triple_pure ?_
    rw [if_pos hzero']
    exact h'
  · have hzero' : ¬ job.processGroupId = 0 := of_decide_eq_false hzero
    refine triple_jobFields h fun name ps => triple_pure ?_
    rw [if_neg hzero']
    exact h

/-- **A child is recorded** -/
theorem triple_recordChild (h : jobNode.Holds p q job m) (interactive : Bool) (pid : Int) :
    Triple m (recordChild M interactive p pid) fun _ m' =>
      jobNode.Holds p q (Ish.recordChild interactive pid job) m' := by
  obtain ⟨hp, name, ps, xs, ms, rfl, hxs, hprocess⟩ := h
  rw [recordChild]
  refine triple_malloc fun c hc => triple_setProcess rfl ?_
  refine triple_loadJob (add_left_comm _ _ _) (triple_setJob (add_left_comm _ _ _) ?_)
  refine triple_loadJob rfl (triple_setProcess (add_left_comm _ _ _) ?_)
  have hnode : jobNode.Holds p q { job with process := { processId := pid } :: job.process }
      ({(c, .process { processId := pid, next := ps })} +
        ({(p, .job (jobFields job name q c))} + ({(name, .chars job.jobName)} + ms))) := by
    refine ⟨hp, name, c, (c, { processId := pid }) :: xs, _, ?_, .cons ⟨hc, rfl⟩ hxs, ?_⟩
    · show _ = {(p, JobCell.job (jobFields job name q c))} + ({(name, JobCell.chars job.jobName)} +
        ({(c, _)} + ms))
      abel
    · rw [List.map_cons, hprocess]
  refine Triple.last (triple_whenTrue (fun hinteractive => ?_) fun hinteractive => ?_)
  · refine (triple_joinGroup hnode pid).bind fun _ m' h' => triple_pure ?_
    simpa [Ish.recordChild, hinteractive] using h'
  · have hsame : Ish.recordChild interactive pid job =
        { job with process := { processId := pid } :: job.process } := by
      simp [Ish.recordChild, hinteractive]
    rw [hsame]
    exact triple_pure hnode

/-- The job after the forks that return these pids, up to one that fails. -/
def launchAll (interactive : Bool) : List Int → Job → Bool × Job
  | [], job => (true, job)
  | pid :: pids, job =>
    if pid < 0 then (false, job) else launchAll interactive pids (Ish.recordChild interactive pid job)

/-- **The fork loop of `ExecCommand`** on the heap. -/
theorem triple_forkLoop (interactive : Bool) (pids : List Int)
    (h : HoldsTable (p :: ptrs) head (job :: jobs) m) :
    Triple m (forkLoop M interactive p pids) fun r m' =>
      r = (launchAll interactive pids job).1 ∧
        HoldsTable (p :: ptrs) head ((launchAll interactive pids job).2 :: jobs) m' := by
  induction pids generalizing job m with
  | nil => exact triple_pure ⟨rfl, h⟩
  | cons pid pids ih =>
    rw [forkLoop, launchAll]
    refine h.read (i := 0) rfl rfl fun name q ps => ?_
    split
    · exact triple_pure ⟨rfl, h⟩
    · have hrecord : Triple m (recordChild M interactive p pid) fun _ m' => True ∧
          HoldsTable (p :: ptrs) head (Ish.recordChild interactive pid job :: jobs) m' :=
        h.at (i := 0) rfl rfl fun q m hm =>
          (triple_recordChild M hm interactive pid).weaken fun _ _ h' => ⟨trivial, h'⟩
      exact hrecord.bind fun _ m' h' => ih h'.2

/-- A turn that does not fork. -/
theorem outcome_of_forkStage_error {A : FdAlloc OpenFile} {interactive : Bool}
    {outcome : Nat → Outcome} {f f' : ForkState} {pc : Command}
    (h : forkStage A interactive outcome f pc = .error f') :
    (outcome f.children.length).pid < 0 := by
  by_contra hpid
  unfold forkStage at h
  dsimp only at h
  rw [if_neg hpid] at h
  exact nomatch h

/-- The fork loop of `ForkLoop.lean` does the same to the job. -/
theorem launchAll_forkLoop (A : FdAlloc OpenFile) (interactive : Bool) (outcome : Nat → Outcome)
    (pcs : List Command) (f : ForkState) :
    launchAll interactive
        ((List.range' f.children.length pcs.length).map fun n => (outcome n).pid) f.job =
      match pcs.foldlM (forkStage A interactive outcome) f with
      | .ok f' => (true, f'.job)
      | .error f' => (false, f'.job) := by
  induction pcs generalizing f with
  | nil => rfl
  | cons pc pcs ih =>
    rw [List.foldlM_cons, List.length_cons, List.range'_succ, List.map_cons, launchAll]
    cases hstage : forkStage A interactive outcome f pc with
    | error f' =>
      rw [if_pos (outcome_of_forkStage_error hstage), forkStage_error hstage]
      rfl
    | ok f' =>
      obtain ⟨c, hpid, hpos, -, -, hchildren, hjob⟩ := forkStage_ok hstage
      rw [if_neg (by omega)]
      have hrest := ih f'
      rw [hchildren, hjob, List.length_append, List.length_singleton, hpid] at hrest
      exact hrest

/-- **The end of `ExecCommand`** -/
theorem triple_awaitJob (interactive : Bool) (pc : Command) (sys : Answers)
    (h : Holds g (p :: ptrs) s m) :
    Triple m (awaitJob interactive pc sys p g) fun r m' =>
      r.1 = (Ish.awaitJob interactive pc sys s).1 ∧
        Holds r.2 (p :: ptrs) (Ish.awaitJob interactive pc sys s).2 m' := by
  unfold awaitJob Ish.awaitJob
  split_ifs
  · refine (triple_waitWhile (fun e jobs m hm => triple_execCommandCond (i := 0) rfl e hm) h.table
      sys.childLeft sys.events).bind fun returned m' hr => triple_pure ?_
    obtain ⟨rfl, h'⟩ := hr
    exact ⟨rfl, h', h.numJobs, h.out, h.err, h.kills⟩
  · refine h.table.set (i := 0) (fun job => { job with foreground := true }) rfl
      (fun _ _ _ _ => rfl) (fun _ => rfl) (fun _ => rfl) fun m' h' => ?_
    exact triple_makeJobForeGround sys.killError (h.withJobs h') (i := 0) rfl false sys.events
      sys.childLeft
  · refine h.table.set (i := 0) (fun job => { job with notified := true }) rfl
      (fun _ _ _ _ => rfl) (fun _ => rfl) (fun _ => rfl) fun m' h' => ?_
    have hset := h.withJobs h'
    obtain ⟨job, hjob⟩ := h'.job_at (i := 0) rfl
    refine h'.read (i := 0) rfl hjob fun name q ps => ?_
    refine (triple_announceJob hset (i := 0) rfl).bind fun g₁ m₁ h₁ => ?_
    exact (triple_makeJobBackGround sys.killError h₁ (i := 0) rfl false).bind
      fun g₂ m₂ h₂ => triple_pure ⟨rfl, h₂⟩

/-- The blocks of the table of a shell, with the strings that are lost when it exits or waits
    for ever. -/
def HoldsShell (t : ShellGlobals) (s : Shell) (returned : Bool) (m : JobBlocks) : Prop :=
  ∃ ptrs held lost, m = held + lost ∧ Holds t.globals ptrs s.ctl held ∧ t.kernel = s.kernel ∧
    t.interactive = s.interactive ∧ t.returned = returned ∧ (returned = true → lost = 0)

variable (A : FdAlloc OpenFile) (beyond : List Char) (strsignal : Nat → String)

/-- The branch for a built-in of the shell. -/
theorem triple_execInShell {t : ShellGlobals} {s : Shell} (h : HoldsShell t s true m)
    (pc : Command) (sys : Answers) :
    Triple m (execInShell A beyond strsignal pc sys t) fun t' m' =>
      HoldsShell t' (Ish.execInShell A beyond strsignal pc sys s).shell
        (Ish.execInShell A beyond strsignal pc sys s).ret.isSome m' := by
  obtain ⟨ptrs, held, lost, rfl, hholds, hkernel, hinteractive, hreturned, hlost⟩ := h
  obtain rfl := hlost rfl
  rw [add_zero]
  unfold execInShell Ish.execInShell
  rw [hkernel]
  rcases funcIORedirection A sys.openOk pc.prRedirects ⟨-1, -1, 0⟩ s.kernel with ⟨ret, vars, k⟩
  have hkept : HoldsShell { t with kernel := k } { s with kernel := k } true held :=
    ⟨ptrs, held, 0, (add_zero _).symm, hholds, rfl, hinteractive, hreturned, fun _ => rfl⟩
  cases ret with
  | SUCCESS =>
    refine (triple_executeBuiltInComds sys.killError beyond strsignal hholds pc sys.events
      sys.childLeft).bind fun r m' hr => triple_pure ?_
    obtain ⟨hret, hr⟩ := hr
    exact ⟨ptrs, m', 0, (add_zero _).symm, hr, rfl, hinteractive, congrArg Option.isSome hret,
      fun _ => rfl⟩
  | QUIT => exact triple_pure hkept
  | FAIL => exact triple_pure hkept

/-- What a command needs: its name fits `job_name`, and the strings of the environment fit their
    buffers. -/
structure CommandFits (env : List (String × String)) (pc : Command) : Prop where
  name : fitsWord pc.zCmd = true
  env : ∀ v ∈ env, fitsWord (envText v) = true

/-- The rest of `ExecCommand`. -/
theorem triple_execForked {t : ShellGlobals} {s : Shell} (h : HoldsShell t s true m)
    {env : List (String × String)} {pc : Command} (hfits : CommandFits env pc) (sys : Answers) :
    Triple m (execForked M A env pc sys t) fun t' m' =>
      HoldsShell t' (Ish.execForked A pc sys s).shell
        (Ish.execForked A pc sys s).ret.isSome m' := by
  obtain ⟨ptrs, held, lost, rfl, hholds, hkernel, hinteractive, hreturned, hlost⟩ := h
  obtain rfl := hlost rfl
  rw [add_zero]
  unfold execForked Ish.execForked
  refine (triple_envGetVars M hfits.env).call (zero_add _).symm fun envs me henvs => ?_
  refine (triple_createJob M hholds hfits.name).call (o := me) (add_comm _ _) ?_
  rintro ⟨p, g⟩ mj hcreated
  dsimp only at hcreated ⊢
  rw [hkernel, hinteractive, hholds.numJobs]
  have hlaunch := launchAll_forkLoop A s.interactive sys.outcome (stages pc)
    (forkStart sys.uninit s.ctl.numJobs pc s.kernel)
  rw [show (forkStart sys.uninit s.ctl.numJobs pc s.kernel).children.length = 0 from rfl,
    ← List.range_eq_range'] at hlaunch
  refine (triple_forkLoop M s.interactive ((List.range (stages pc).length).map fun n =>
    (sys.outcome n).pid) hcreated.table).call (o := me) rfl fun forked m₁ hforked => ?_
  obtain ⟨rfl, h₁⟩ := hforked
  rw [show newJob s.ctl.numJobs pc = (forkStart sys.uninit s.ctl.numJobs pc s.kernel).job from rfl,
    hlaunch] at h₁ ⊢
  rw [execCommandFork]
  generalize (stages pc).foldlM (forkStage A s.interactive sys.outcome)
    (forkStart sys.uninit s.ctl.numJobs pc s.kernel) = result at h₁ ⊢
  cases result with
  | error f =>
    -- the shell exits, and the strings stay
    refine triple_pure ⟨p :: ptrs, m₁, me, rfl, ?_, rfl, rfl, rfl, fun h => nomatch h⟩
    exact ⟨h₁, hcreated.numJobs, hcreated.out, hcreated.err, hcreated.kills⟩
  | ok f =>
    have hadded : Holds g (p :: ptrs) (addJob f.job s.ctl) m₁ :=
      ⟨h₁, hcreated.numJobs, hcreated.out, hcreated.err, hcreated.kills⟩
    refine (triple_awaitJob s.interactive pc sys hadded).call (o := me) rfl fun r m₂ hr => ?_
    obtain ⟨hret, h₂⟩ := hr
    refine triple_whenTrue (fun hdone => ?_) fun hdone => ?_
    · refine (triple_freeVars henvs).call (o := m₂) (add_comm _ _) ?_
      rintro _ m₃ rfl
      refine triple_pure ⟨p :: ptrs, m₂, 0, add_comm _ _, h₂, rfl, rfl, ?_, fun _ => rfl⟩
      dsimp only
      rw [← hret, hdone]
      rfl
    · refine triple_pure ⟨p :: ptrs, m₂, me, rfl, h₂, rfl, rfl, ?_, fun h => ?_⟩
      · dsimp only
        rw [← hret, hdone]
        rfl
      · dsimp only at h
        rw [← hret, hdone] at h
        exact nomatch h

/-- **`ExecCommand`** -/
theorem triple_execCommand {t : ShellGlobals} {s : Shell} (h : HoldsShell t s true m)
    {env : List (String × String)} {pc : Command} (hfits : CommandFits env pc) (sys : Answers) :
    Triple m (execCommand M A beyond strsignal env pc sys t) fun t' m' =>
      HoldsShell t' (Ish.execCommand A beyond strsignal pc sys s).shell
        (Ish.execCommand A beyond strsignal pc sys s).ret.isSome m' := by
  unfold execCommand Ish.execCommand
  cases checkPipelineAmbiguity pc with
  | error message =>
    obtain ⟨ptrs, held, lost, rfl, hholds, hkernel, hinteractive, hreturned, hlost⟩ := h
    exact triple_pure ⟨ptrs, held, lost, rfl, hholds.printError _, hkernel, hinteractive,
      hreturned, hlost⟩
  | ok isPipe =>
    dsimp only
    split_ifs
    · exact triple_execInShell A beyond strsignal h pc sys
    · exact triple_execForked M A h hfits sys

/-! ### Runs -/

/-- **The last loop of `main`** frees the jobs with their processes and names. -/
theorem triple_freeJobs {xs : List (Ptr × Job)} (h : Segment jobNode g.head xs 0 m) {n : Nat}
    (hn : xs.length < n) : Triple m (freeJobs n g) fun _ m' => m' = 0 := by
  induction xs generalizing g m n with
  | nil =>
    obtain ⟨n, rfl⟩ : ∃ k, n = k + 1 := ⟨n - 1, by simp at hn; omega⟩
    have hhead := h.eq_null_iff.mpr rfl
    rw [hhead] at h
    obtain ⟨-, rfl⟩ := h.nil_of_null
    rw [freeJobs, if_pos hhead]
    exact triple_pure rfl
  | cons x xs ih =>
    obtain ⟨n, rfl⟩ : ∃ k, n = k + 1 := ⟨n - 1, by simp at hn; omega⟩
    have hhead : g.head ≠ 0 := fun hnull => nomatch h.eq_null_iff.mp hnull
    obtain ⟨next, job, ys, m₁, m₂, heq, rfl, hnode, hrest⟩ := h.cons_of_ne_null hhead
    obtain ⟨rfl, rfl⟩ := List.cons.inj heq
    rw [freeJobs, if_neg hhead]
    refine (readsNext_job hnode).call rfl ?_
    rintro r m' ⟨rfl, rfl⟩
    refine (triple_allocJobMem hnode).call rfl ?_
    rintro _ m'' rfl
    rw [zero_add]
    exact ih hrest (by simpa using hn)

/-- **The end of `main` frees the table.** -/
theorem triple_freeTable (h : Holds g ptrs s m) : Triple m (freeTable g) fun _ m' => m' = 0 := by
  obtain ⟨xs, hxs, -, -⟩ := h.table
  rw [freeTable]
  refine triple_size fun n hn => ?_
  have hlength := hxs.length_le_card
  exact triple_freeJobs hxs (by omega)

/-- A step of the shell, and the environment at that time. -/
abbrev ActionIn := ShellAction × List (String × String)

/-- One step. -/
def stepOnHeap (t : ShellGlobals) : ActionIn → JobProg ShellGlobals
  | (.terminal, _) => pure { t with interactive := true }
  | (.notify es, _) => do
    let g ← funcJobNotification es t.globals
    pure { t with globals := g }
  | (.exec pc sys, env) => execCommand M A beyond strsignal env pc sys t

/-- The shell as `main` starts it, and these steps. -/
def runOnHeap (k : Kernel) (as : List ActionIn) : JobProg ShellGlobals :=
  as.foldlM (stepOnHeap M A beyond strsignal) ⟨{}, k, false, true⟩

/-- What a step needs. -/
def ActionIn.Fits (a : ActionIn) : Prop := ∀ pc sys, a.1 = .exec pc sys → CommandFits a.2 pc

/-- **Step lemma.** -/
theorem triple_stepOnHeap (shellGroup : Bool → Int) {t : ShellGlobals} {s s' : ShellState}
    {a : ActionIn} (h : HoldsShell t s.shell s.returned m) (hfits : a.Fits)
    (hstep : ShellStep A beyond strsignal shellGroup s a.1 s') :
    Triple m (stepOnHeap M A beyond strsignal t a) fun t' m' =>
      HoldsShell t' s'.shell s'.returned m' := by
  obtain ⟨hreturned, -, rfl⟩ := hstep
  rw [hreturned] at h
  obtain ⟨action, env⟩ := a
  cases action with
  | terminal =>
    obtain ⟨ptrs, held, lost, rfl, hholds, hkernel, -, ht, hlost⟩ := h
    exact triple_pure ⟨ptrs, held, lost, rfl, hholds, hkernel, rfl, ht.trans hreturned.symm,
      fun _ => hlost rfl⟩
  | notify es =>
    obtain ⟨ptrs, held, lost, rfl, hholds, hkernel, hinteractive, ht, hlost⟩ := h
    refine (triple_funcJobNotification hholds es).call rfl fun g' m' hg' => triple_pure ?_
    obtain ⟨ptrs', hg'⟩ := hg'
    exact ⟨ptrs', m', lost, rfl, hg', hkernel, hinteractive, ht.trans hreturned.symm,
      fun _ => hlost rfl⟩
  | exec pc sys => exact triple_execCommand M A beyond strsignal h (hfits pc sys rfl) sys

/-- **Run lemma.** -/
theorem triple_runOnHeap {shellGroup : Bool → Int} {k : Kernel} {as : List ActionIn}
    {s : ShellState} (hfits : ∀ a ∈ as, a.Fits)
    (h : Run (ShellStep A beyond strsignal shellGroup) (shellStart k) (as.map Prod.fst) s) :
    Triple 0 (runOnHeap M A beyond strsignal k as) fun t m =>
      HoldsShell t s.shell s.returned m := by
  refine h.invariantTrace (fun labels s => ∀ as : List ActionIn, as.map Prod.fst = labels →
    (∀ a ∈ as, a.Fits) → Triple 0 (runOnHeap M A beyond strsignal k as) fun t m =>
      HoldsShell t s.shell s.returned m) ?_ ?_ as rfl hfits
  · intro labels s a s' ih hstep as hlabels hfits
    obtain ⟨as, bs, rfl, has, hbs⟩ := List.map_eq_append_iff.mp hlabels
    obtain ⟨b, rfl, rfl⟩ := List.map_eq_singleton_iff.mp hbs
    rw [runOnHeap, List.foldlM_append]
    refine (ih as has fun a ha => hfits a (List.mem_append_left _ ha)).bind fun t m ht => ?_
    rw [List.foldlM_cons]
    exact (triple_stepOnHeap M A beyond strsignal shellGroup ht (hfits b (by simp)) hstep).bind
      fun t' m' ht' => triple_pure ht'
  · intro as hlabels hfits
    obtain rfl := List.map_eq_nil_iff.mp hlabels
    exact triple_pure ⟨[], 0, 0, (add_zero _).symm,
      ⟨⟨[], .nil 0, rfl, rfl⟩, rfl, rfl, rfl, rfl⟩, rfl, rfl, rfl, fun _ => rfl⟩

/-- **The memory of job control.**  In every run of the shell and with every allocator that does
    not run out of memory, job control on the heap prints and signals what it does on the table
    and holds that in its blocks; it uses no block that is not allocated or no longer is.  When the
    shell returns, the blocks of the table are all that there is beside those from before, and
    `main` frees them. -/
theorem jobs_freed {shellGroup : Bool → Int} {k : Kernel} {as : List ActionIn} {s : ShellState}
    (hfits : ∀ a ∈ as, a.Fits)
    (h : Run (ShellStep A beyond strsignal shellGroup) (shellStart k) (as.map Prod.fst) s)
    (heap : Heap JobCell) :
    ∃ t heap' m, runOnHeap M A beyond strsignal k as heap = some (t, heap') ∧
      HoldsShell t s.shell s.returned m ∧ heap'.contents = m + heap.contents ∧
        (s.returned = true → ∃ g heap'', freeTable t.globals heap' = some (g, heap'') ∧
          heap''.contents = heap.contents) := by
  obtain ⟨t, heap', m, hrun, hholds, hcontents⟩ :=
    triple_runOnHeap M A beyond strsignal hfits h heap.contents heap (zero_add _).symm
  refine ⟨t, heap', m, hrun, hholds, hcontents, fun hreturned => ?_⟩
  obtain ⟨ptrs, held, lost, rfl, hglobals, -, -, -, hlost⟩ := hholds
  obtain rfl := hlost hreturned
  rw [add_zero] at hcontents
  obtain ⟨g, heap'', m', hfree, rfl, hafter⟩ :=
    triple_freeTable hglobals heap.contents heap' hcontents
  exact ⟨g, heap'', hfree, hafter.trans (zero_add _)⟩

end

/-- Two jobs in the background, of which the second one is over at the prompt. -/
def twoJobs : List ActionIn :=
  [(.terminal, []), (.exec (sleepCommand true) (answering []), [("PATH", "/bin")]),
    (.exec (sleepCommand true) (answering []), []), (.notify [⟨20, .exited 0⟩], [])]

/-- Two jobs, one of which ends: what is printed, and no block is left. -/
theorem jobs_freed_twoJobs :
    ∃ t heap' g heap'', runOnHeap .above FdAlloc.lowest [] (fun _ => "") Kernel.std twoJobs
        (Heap.empty JobCell) = some (t, heap') ∧
      t.globals.out = ["[1]", " 20", "\n", "[2]", " 20", "\n", "[2] done sleep\n"] ∧
      freeTable t.globals heap' = some (g, heap'') ∧ heap''.contents = 0 := by
  have hrun : Run smallStep (shellStart Kernel.std) (twoJobs.map Prod.fst) _ :=
    Run.cons ⟨rfl, trivial, rfl⟩ (Run.cons ⟨rfl, enabled_answering (by decide) _ _, rfl⟩
      (Run.cons ⟨rfl, enabled_answering (by decide) _ _, rfl⟩ (Run.single ⟨rfl, rfl, rfl⟩)))
  have hfits : ∀ a ∈ twoJobs, a.Fits := by
    intro a ha pc sys heq
    simp only [twoJobs, List.mem_cons, List.not_mem_nil, or_false] at ha
    rcases ha with rfl | rfl | rfl | rfl
    · exact nomatch heq
    · obtain ⟨rfl, -⟩ := ShellAction.exec.inj heq
      exact ⟨by decide, by decide⟩
    · obtain ⟨rfl, -⟩ := ShellAction.exec.inj heq
      exact ⟨by decide, by decide⟩
    · exact nomatch heq
  obtain ⟨t, heap', m, ht, ⟨ptrs, held, lost, -, hholds, -⟩, -, hfreed⟩ := jobs_freed .above
    FdAlloc.lowest [] (fun _ => "") hfits hrun (Heap.empty JobCell)
  obtain ⟨g, heap'', hfree, hcontents⟩ := hfreed rfl
  exact ⟨t, heap', g, heap'', ht, hholds.out, hfree, hcontents⟩

end OSPortfolio.Ish.OnHeap
