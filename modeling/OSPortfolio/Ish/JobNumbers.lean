import OSPortfolio.Lib.LinkedList
import OSPortfolio.Ish.JobGroups

namespace OSPortfolio.Ish

open OSPortfolio.Posix OSPortfolio.Lts OSPortfolio.Pointers

/-!
# Job numbers and the sweep

`ExecCommand` numbers a job with `++num_jobs` and `func_JobNotification` sets the counter
back once the list is empty.  The same function unlinks the completed jobs while it walks
along the list, with a pointer `last` to the job before.

* `sweepLoop` — the walk of `func_JobNotification`, on nodes and pointers;
* `sweepLoop_spec` — it ends, prints what `funcJobNotification` prints and leaves the list
  that `funcJobNotification` leaves;
* `Numbered` — the invariant: the numbers fall from head to tail, and none is above the
  counter;
* `job_numbers` — both, for every state of a run.
-/

/-! ### The walk along the list -/

/-- The loop `for (job = job_head; job != NULL; job = next)` of `func_JobNotification` from a
    turn on: the memory, `job_head`, `last`, `job` and what has been printed.  `none` when
    the pointer leads nowhere, or after `fuel` turns. -/
def sweepLoop : Nat → Memory Job → Option Nat → Option Nat → Option Nat → List String →
    Option (Memory Job × Option Nat × List String)
  | 0, _, _, _, _, _ => none
  | _ + 1, m, head, _, none, out => some (m, head, out)
  | fuel + 1, m, head, last, some p, out =>
    (m p).bind fun node =>
      -- read before the node may be freed
      let next := node.next
      match sweepJob node.data with
      | (texts, some job) =>
        sweepLoop fuel (m.write p (some ⟨job, next⟩)) head (some p) next (out ++ texts)
      | (texts, none) =>
        match last with
        | none => sweepLoop fuel (m.write p none) next none next (out ++ texts)
        | some l =>
          (m l).bind fun before =>
            sweepLoop fuel ((m.write l (some ⟨before.data, next⟩)).write p none) head (some l)
              next (out ++ texts)

/-- The jobs that stay, at their addresses. -/
def sweepNodes (xs : List (Nat × Job)) : List (Nat × Job) :=
  xs.filterMap fun x => (sweepJob x.2).2.map (x.1, ·)

/-- The jobs the sweep leaves. -/
theorem map_snd_sweepNodes (xs : List (Nat × Job)) :
    (sweepNodes xs).map Prod.snd = (xs.map Prod.snd).filterMap fun job => (sweepJob job).2 := by
  induction xs with
  | nil => rfl
  | cons x xs ih =>
    unfold sweepNodes at ih ⊢
    cases h : (sweepJob x.2).2 with
    | none => simpa [h] using ih
    | some job => simpa [h] using ih

/-- The walk in the middle of the list: the nodes `kept` lie in front of the turn's node, the
    last of them is where `last` points, and the nodes `rest` follow. -/
structure Walk (m : Memory Job) (head last cur : Option Nat) (kept rest : List (Nat × Job)) :
    Prop where
  front : Segment m head kept cur
  back : Segment m cur rest none
  last : last = (addresses kept).getLast?
  nodup : (addresses (kept ++ rest)).Nodup

variable {m : Memory Job} {head last next : Option Nat} {p : Nat} {job : Job}
  {kept rest : List (Nat × Job)}

/-- The node the loop stands at is none of the others. -/
theorem Walk.not_mem (h : Walk m head last (some p) kept ((p, job) :: rest)) :
    p ∉ addresses kept ∧ p ∉ addresses rest := by
  have hnodup := h.nodup
  unfold addresses at hnodup ⊢
  rw [List.map_append, List.map_cons, List.nodup_middle, List.nodup_cons, List.mem_append] at hnodup
  exact not_or.mp hnodup.1

/-- A turn that keeps its job. -/
theorem Walk.keep (h : Walk m head last (some p) kept ((p, job) :: rest))
    (hnode : m p = some ⟨job, next⟩) (job' : Job) :
    Walk (m.write p (some ⟨job', next⟩)) head (some p) next (kept ++ [(p, job')]) rest := by
  obtain ⟨hfront, hback⟩ := h.not_mem
  refine ⟨(h.front.write_other hfront _).snoc (Function.update_self ..), ?_, by simp [addresses],
    by simpa [addresses] using h.nodup⟩
  cases h.back with
  | cons hnode' hrest =>
    rw [hnode] at hnode'
    obtain rfl : next = _ := congrArg Node.next (Option.some.inj hnode')
    exact hrest.write_other hback _

/-- What follows the node of a turn, when that is freed. -/
theorem Walk.rest_freed (h : Walk m head last (some p) kept ((p, job) :: rest))
    (hnode : m p = some ⟨job, next⟩) : Segment (m.write p none) next rest none := by
  cases h.back with
  | cons hnode' hrest =>
    rw [hnode] at hnode'
    obtain rfl : next = _ := congrArg Node.next (Option.some.inj hnode')
    exact hrest.write_other h.not_mem.2 _

/-- Without it, the addresses are still distinct. -/
theorem Walk.nodup_tail (h : Walk m head last (some p) kept ((p, job) :: rest)) :
    (addresses (kept ++ rest)).Nodup := by
  refine h.nodup.sublist ?_
  unfold addresses
  exact ((List.sublist_cons_self (p, job) rest).append_left kept).map Prod.fst

/-- A turn that removes the job at the head of the list. -/
theorem Walk.drop_head (h : Walk m head last (some p) [] ((p, job) :: rest))
    (hnode : m p = some ⟨job, next⟩) : Walk (m.write p none) next none next [] rest :=
  ⟨.nil next, h.rest_freed hnode, rfl, h.nodup_tail⟩

/-- A turn that removes a job with the node `l` in front of it. -/
theorem Walk.drop {l : Nat} {before : Job}
    (h : Walk m head last (some p) (kept ++ [(l, before)]) ((p, job) :: rest))
    (hnode : m p = some ⟨job, next⟩) :
    Walk ((m.write l (some ⟨before, next⟩)).write p none) head (some l) next
      (kept ++ [(l, before)]) rest := by
  have hnodup := h.nodup
  have hp := h.not_mem
  have hl : l ∉ addresses kept ∧ l ∉ addresses rest := by
    unfold addresses at hnodup ⊢
    rw [List.append_assoc, List.singleton_append, List.map_append, List.map_cons, List.map_cons,
      List.nodup_middle, List.nodup_cons, List.mem_append, List.mem_cons] at hnodup
    exact ⟨fun hmem => hnodup.1 (Or.inl hmem), fun hmem => hnodup.1 (Or.inr (Or.inr hmem))⟩
  refine ⟨(h.front.relink hl.1 next).write_other hp.1 _, ?_, by simp [addresses], h.nodup_tail⟩
  cases h.back with
  | cons hnode' hrest =>
    rw [hnode] at hnode'
    obtain rfl : next = _ := congrArg Node.next (Option.some.inj hnode')
    exact (hrest.write_other hl.2 _).write_other hp.2 _

/-- **The walk.**  It ends at the end of the list, and leaves the jobs that stay, each at its
    address, and what is printed for them all. -/
theorem Walk.run {cur : Option Nat} (h : Walk m head last cur kept rest) {fuel : Nat}
    (hfuel : rest.length < fuel) (out : List String) :
    ∃ m' head', sweepLoop fuel m head last cur out =
        some (m', head', out ++ rest.flatMap fun x => (sweepJob x.2).1) ∧
      Chain m' head' (kept ++ sweepNodes rest) := by
  -- over the nodes that are left; `Walk` carries where `last` points
  induction rest generalizing m head last cur kept fuel out with
  | nil =>
    obtain ⟨fuel, rfl⟩ : ∃ n, fuel = n + 1 := ⟨fuel - 1, by simp at hfuel; omega⟩
    obtain rfl : cur = none := by cases h.back; rfl
    refine ⟨m, head, by simp [sweepLoop], ?_⟩
    simpa [sweepNodes] using (⟨h.front, by simpa using h.nodup⟩ : Chain m head kept)
  | cons x rest ih =>
    obtain ⟨p, job⟩ := x
    obtain ⟨fuel, rfl⟩ : ∃ n, fuel = n + 1 := ⟨fuel - 1, by simp at hfuel; omega⟩
    obtain ⟨next, rfl, hnode⟩ : ∃ next, cur = some p ∧ m p = some ⟨job, next⟩ := by
      cases h.back with
      | cons hnode _ => exact ⟨_, rfl, hnode⟩
    replace hfuel : rest.length < fuel := by simpa using hfuel
    cases hsweep : sweepJob job with | mk texts stays
    cases stays with
    | some job' =>
      obtain ⟨m', head', hloop, hchain⟩ := ih (h.keep hnode job') hfuel (out ++ texts)
      refine ⟨m', head', ?_, by simpa [sweepNodes, hsweep] using hchain⟩
      simpa [sweepLoop, hnode, hsweep] using hloop
    | none =>
      -- the completed job is the first of the list, or has the node `l` in front of it
      rcases List.eq_nil_or_concat kept with rfl | ⟨kept, ⟨l, before⟩, rfl⟩
      · obtain ⟨m', head', hloop, hchain⟩ := ih (h.drop_head hnode) hfuel (out ++ texts)
        refine ⟨m', head', ?_, by simpa [sweepNodes, hsweep] using hchain⟩
        simpa [sweepLoop, hnode, hsweep, h.last, addresses] using hloop
      · rw [List.concat_eq_append] at h ⊢
        have hlast : last = some l := by rw [h.last]; simp [addresses]
        obtain ⟨m', head', hloop, hchain⟩ := ih (h.drop hnode) hfuel (out ++ texts)
        refine ⟨m', head', ?_, by simpa [sweepNodes, hsweep] using hchain⟩
        simpa [sweepLoop, hnode, hsweep, hlast, h.front.last] using hloop

/-- The list from the pointer `head` on is the job table `jobs`. -/
def HoldsJobs (m : Memory Job) (head : Option Nat) (jobs : List Job) : Prop :=
  ∃ xs, Chain m head xs ∧ xs.map Prod.snd = jobs

/-- **The sweep of `func_JobNotification`.**  On nodes and pointers it does what
    `funcJobNotification` says of the table. -/
theorem sweepLoop_spec {jobs : List Job} (h : HoldsJobs m head jobs) :
    ∃ m' head', sweepLoop (jobs.length + 1) m head none head [] =
        some (m', head', jobs.flatMap fun job => (sweepJob job).1) ∧
      HoldsJobs m' head' (jobs.filterMap fun job => (sweepJob job).2) := by
  obtain ⟨xs, hchain, rfl⟩ := h
  have hwalk : Walk m head none head [] xs :=
    ⟨.nil head, hchain.segment, rfl, by simpa using hchain.nodup⟩
  obtain ⟨m', head', hloop, hchain'⟩ :=
    hwalk.run (show xs.length < (xs.map Prod.snd).length + 1 by simp) []
  refine ⟨m', head', ?_, sweepNodes xs, by simpa using hchain', map_snd_sweepNodes xs⟩
  rw [hloop, List.flatMap_map]
  rfl

/-! ### Which jobs stay -/

/-- A job that stays, after the sweep has looked at it. -/
def sweptJob (job : Job) : Job :=
  match updatedJobStatus job with
  | (.STOPPED, job) => { job with notified := true }
  | (_, job) => job

/-- The sweep drops a completed job and updates another. -/
theorem sweepJob_snd (job : Job) :
    (sweepJob job).2 =
      if (updatedJobStatus job).1 = .COMPLETED then none else some (sweptJob job) := by
  unfold sweepJob sweptJob
  cases h : updatedJobStatus job with | mk st job'
  cases st <;> simp

/-- The jobs that are kept, in their order. -/
theorem filterMap_sweepJob (jobs : List Job) :
    (jobs.filterMap fun job => (sweepJob job).2) =
      (jobs.filter fun job => (updatedJobStatus job).1 ≠ .COMPLETED).map sweptJob := by
  induction jobs with
  | nil => rfl
  | cons job jobs ih =>
    rw [List.filterMap_cons, List.filter_cons, sweepJob_snd, ih]
    by_cases h : (updatedJobStatus job).1 = .COMPLETED <;> simp [h]

/-- A sweep of the table `s` with the statuses `es` leaves exactly the jobs that are not
    `COMPLETED` once the statuses are recorded, in their order and each with its number, name
    and processes; and so it is on any list of nodes that holds the table. -/
def SweepsCompleted (es : List StatusEvent) (s : JobControl) : Prop :=
  let jobs := (recordAvailable es s).jobs
  let left := (jobs.filter fun job => (updatedJobStatus job).1 ≠ .COMPLETED).map sweptJob
  (∀ job ∈ jobs, (updatedJobStatus job).1 ≠ .COMPLETED → Marked job (sweptJob job)) ∧
    (funcJobNotification es s).jobs = left ∧
    ∀ m head, HoldsJobs m head jobs → ∃ m' head',
      sweepLoop (jobs.length + 1) m head none head [] =
          some (m', head', jobs.flatMap fun job => (sweepJob job).1) ∧
        HoldsJobs m' head' left

/-- **The sweep removes the completed jobs and no others.** -/
theorem sweepsCompleted (es : List StatusEvent) (s : JobControl) : SweepsCompleted es s := by
  refine ⟨fun job _ hne => ?_, filterMap_sweepJob _, fun m head hholds => ?_⟩
  · exact sweepJob_marked (by rw [sweepJob_snd, if_neg hne])
  · rw [← filterMap_sweepJob]
    exact sweepLoop_spec hholds

/-! ### The counter -/

/-- The job numbers fall from head to tail and lie between 1 and `num_jobs`. -/
structure Numbered (s : JobControl) : Prop where
  decreasing : (s.jobs.map Job.jobNum).Pairwise (· > ·)
  range : ∀ n ∈ s.jobs.map Job.jobNum, 1 ≤ n ∧ n ≤ s.numJobs

/-- A step that only changes the states of jobs keeps the numbers. -/
theorem Numbered.touches {s s' : JobControl} (hinv : Numbered s) (h : Touches s s') :
    Numbered s' := by
  have hnums := h.map_jobs (fun _ _ hmark => hmark.jobNum) (fun _ _ => rfl)
  exact ⟨hnums ▸ hinv.decreasing, by rw [hnums, h.numJobs]; exact hinv.range⟩

/-- A new job has a number above all the others. -/
theorem Numbered.addJob {s : JobControl} (hinv : Numbered s) {job : Job}
    (hnum : job.jobNum = s.numJobs + 1) : Numbered (addJob job s) := by
  refine ⟨List.pairwise_cons.mpr ⟨fun n hn => ?_, hinv.decreasing⟩, fun n hn => ?_⟩
  · have := (hinv.range n hn).2
    omega
  · show 1 ≤ n ∧ n ≤ s.numJobs + 1
    rcases List.mem_cons.mp hn with rfl | hn
    · omega
    · have := hinv.range n hn
      omega

/-- The jobs that stay keep their numbers; the counter starts again only without any. -/
theorem Numbered.notify {s : JobControl} (hinv : Numbered s) (es : List StatusEvent) :
    Numbered (funcJobNotification es s) := by
  have hrec := hinv.touches (touches_recordAvailable es s)
  have hnum := (touches_recordAvailable es s).numJobs
  have hsub : ((funcJobNotification es s).jobs.map Job.jobNum).Sublist
      ((recordAvailable es s).jobs.map Job.jobNum) := by
    show (((recordAvailable es s).jobs.filterMap _).map _).Sublist _
    generalize (recordAvailable es s).jobs = jobs
    induction jobs with
    | nil => exact .slnil
    | cons job jobs ih =>
      cases h : (sweepJob job).2 with
      | none => simpa [h] using ih.cons job.jobNum
      | some job' => simpa [h, (sweepJob_marked h).jobNum] using ih.cons_cons job.jobNum
  refine ⟨hrec.decreasing.sublist hsub, fun n hn => ?_⟩
  have hrange := hrec.range n (hsub.subset hn)
  show 1 ≤ n ∧ n ≤ if (funcJobNotification es s).jobs = [] then 0 else (recordAvailable es s).numJobs
  split
  · rename_i hnil
    rw [hnil] at hn
    exact absurd hn (by simp)
  · exact hrange

section
variable (A : FdAlloc OpenFile) (beyond : List Char) (strsignal : Nat → String)
  (shellGroup : Bool → Int)

/-- **A command keeps the numbers.** -/
theorem Numbered.exec {s : Shell} (hinv : Numbered s.ctl) (pc : Command) (sys : Answers) :
    Numbered (execCommand A beyond strsignal pc sys s).shell.ctl := by
  have hout := execCommand_outcome A beyond strsignal pc sys s
  generalize execCommand A beyond strsignal pc sys s = r, commandWait A beyond pc sys s = w
    at hout ⊢
  cases hout with
  | kept ret err k => exact ⟨hinv.decreasing, hinv.range⟩
  | builtIn k => exact hinv.touches (touches_executeBuiltInComds _ _ _ _ _ _ _)
  | exited f hfork => exact hinv.addJob (execCommandFork_job (Or.inr hfork)).job.jobNum
  | forked f hfork =>
    exact (hinv.addJob (execCommandFork_job (Or.inl hfork)).job.jobNum).touches
      (touches_awaitJob _ _ _ _)

/-- **Job numbers.**  In every state of a run of the shell the job numbers fall from head to
    tail and lie between 1 and `num_jobs`, and a sweep there leaves exactly the jobs that are
    not completed. -/
theorem job_numbers {k : Kernel} {as : List ShellAction} {s : ShellState}
    (h : Run (ShellStep A beyond strsignal shellGroup) (shellStart k) as s) :
    (s.shell.ctl.jobs.map Job.jobNum).Pairwise (· > ·) ∧
      (∀ job ∈ s.shell.ctl.jobs, 1 ≤ job.jobNum ∧ job.jobNum ≤ s.shell.ctl.numJobs) ∧
      ∀ es, SweepsCompleted es s.shell.ctl := by
  have hstart : Numbered (shellStart k).shell.ctl := ⟨.nil, by simp [shellStart]⟩
  have hstep : ∀ s a s', Numbered s.shell.ctl → ShellStep A beyond strsignal shellGroup s a s' →
      Numbered s'.shell.ctl := by
    rintro s a s' hinv ⟨-, -, rfl⟩
    cases a with
    | terminal => exact hinv
    | notify es => exact hinv.notify es
    | exec pc sys => exact hinv.exec A beyond strsignal pc sys
  have hinv := h.invariant hstep hstart
  exact ⟨hinv.decreasing, fun job hjob => hinv.range _ (List.mem_map_of_mem hjob),
    fun es => sweepsCompleted es s.shell.ctl⟩

end

/-- Two jobs in the background, of which the second one is over at the prompt. -/
theorem job_numbers_twoJobs :
    ∃ as s, Run smallStep (shellStart Kernel.std) as s ∧
      s.shell.ctl.jobs.map Job.jobNum = [2, 1] ∧
      (funcJobNotification [⟨20, .exited 0⟩] s.shell.ctl).jobs.map Job.jobNum = [1] ∧
      (s.shell.ctl.jobs.map Job.jobNum).Pairwise (· > ·) ∧
      ∀ es, SweepsCompleted es s.shell.ctl := by
  have hrun : Run smallStep (shellStart Kernel.std)
      [.terminal, .exec (sleepCommand true) (answering []),
        .exec (sleepCommand true) (answering [])] _ :=
    Run.cons ⟨rfl, trivial, rfl⟩ (Run.cons ⟨rfl, enabled_answering (by decide) _ _, rfl⟩
      (Run.single ⟨rfl, enabled_answering (by decide) _ _, rfl⟩))
  obtain ⟨hdecreasing, -, hsweep⟩ := job_numbers _ _ _ _ hrun
  exact ⟨_, _, hrun, rfl, rfl, hdecreasing, hsweep⟩

end OSPortfolio.Ish
