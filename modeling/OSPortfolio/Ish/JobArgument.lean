import Mathlib.Data.List.TakeWhile
import OSPortfolio.Ish.JobMoves

namespace OSPortfolio.Ish

/-!
# The argument of `fg`, `bg` and `kill`

A job is named by a `%` and its number.  The three built-ins step over the first character of
the argument, whatever it is, and compare the number of each job with what `atoi` makes of the
rest.

* `namedJob` — the job that an argument names;
* `selectJob` — the loop of the three functions, with its reads;
* `ActsOn` — what the functions should do with an argument;
* `atoi_toDigits` — `atoi` reads the digits of a number as the number;
* `actsOn_iff` — **a job is only acted on by its name exactly if the argument is one, or `atoi`
  reads no job's number in it**.
-/

/-! ### Names of jobs -/

/-- The first job of the list that the word names: a `%` and the digits of its number. -/
def namedJob (word : String) (jobs : List Job) : Option Nat :=
  jobs.findIdx? fun job => word = "%" ++ toString job.jobNum

/-- `atoi(pc->pa->azArgs[i]+1)`, or `none` for an empty word: the first character that is read
    is then behind the terminator. -/
def argumentNumber (word : String) : Option Int :=
  match word.toList with
  | [] => none
  | _ :: cs => some (atoi cs)

/-- The loop that looks for a job, which reads the word again for each; `none` if a read goes
    beyond its terminator. -/
def selectJob (word : String) : List Job → Option (Option Nat)
  | [] => some none
  | job :: jobs => do
    let n ← argumentNumber word
    if job.jobNum = n then return some 0 else return (← selectJob word jobs).map (· + 1)

/-- The positions of the jobs that a command has acted on, from `s` to `s'`. -/
def actedOn (s s' : JobControl) : List Nat :=
  (s'.log.drop s.log.length).filterMap fun
    | .resumed i => some i
    | .recorded _ => none

/-- What `fg`, `bg` and `kill` should do with the argument `word`: read nothing beyond it, and
    act on the job that it names and on no other.  `kill` has other arguments behind the word,
    and goes on with these or stops at a signal that fails. -/
structure ActsOn (jobs : List Job) (word : String) : Prop where
  inside : (selectJob word jobs).isSome
  fg : ∀ killError beyond pc es childLeft, ∀ s : JobControl, s.jobs = jobs →
    pc.pa.params = [word] →
      actedOn s (funcFg killError beyond pc es childLeft s).2 = (namedJob word jobs).toList
  bg : ∀ killError beyond pc, ∀ s : JobControl, s.jobs = jobs → pc.pa.params = [word] →
    actedOn s (funcBg killError beyond pc s) = (namedJob word jobs).toList
  kill : ∀ killError beyond words, ∀ s : JobControl, s.jobs = jobs →
    ∃ s', actedOn s s' = (namedJob word jobs).toList ∧
      s'.jobs.map Job.jobNum = jobs.map Job.jobNum ∧
      (killLoop killError beyond (word :: words) s = killLoop killError beyond words s' ∨
        killLoop killError beyond (word :: words) s = s')

/-! ### The loop -/

/-- A word that names a job is read as the number of it. -/
theorem argumentNumber_eq_some {word : String} {n : Int} (h : argumentNumber word = some n)
    (beyond : List Char) : jobSpec beyond word = n := by
  unfold argumentNumber at h
  unfold jobSpec
  cases hword : word.toList with
  | nil => simp [hword] at h
  | cons c cs => simpa [hword] using h

/-- The loop finds what the functions find, if it stays inside the word. -/
theorem selectJob_eq_some {word : String} {jobs : List Job} {r : Option Nat}
    (h : selectJob word jobs = some r) (beyond : List Char) :
    findJob (jobSpec beyond word) jobs = r := by
  induction jobs generalizing r with
  | nil => exact Option.some.inj h
  | cons job jobs ih =>
    obtain ⟨n, hn, h⟩ := Option.bind_eq_some_iff.mp h
    rw [argumentNumber_eq_some hn, findJob, List.findIdx?_cons]
    by_cases hjob : (job.jobNum : Int) = n
    · rw [if_pos hjob] at h
      rw [if_pos (by simpa using hjob)]
      exact Option.some.inj h
    · rw [if_neg hjob] at h
      obtain ⟨r', hr', h⟩ := Option.bind_eq_some_iff.mp h
      rw [if_neg (by simpa using hjob), ← Option.some.inj h, ← ih hr',
        argumentNumber_eq_some hn]
      rfl

/-- **Where the loop reads**: beyond the terminator exactly if the word is empty and there is a
    job. -/
theorem selectJob_isSome_iff (word : String) (jobs : List Job) :
    (selectJob word jobs).isSome ↔ jobs = [] ∨ word ≠ "" := by
  cases jobs with
  | nil => exact iff_of_true rfl (Or.inl rfl)
  | cons job jobs =>
    cases hword : word.toList with
    | nil =>
      have hempty : word = "" := String.toList_inj.mp hword
      refine iff_of_false ?_ (by simp [hempty])
      simp [selectJob, argumentNumber, hword]
    | cons c cs =>
      have hne : word ≠ "" := by
        rintro rfl
        exact absurd hword (by simp)
      refine iff_of_true ?_ (Or.inr hne)
      have hall : ∀ jobs, (selectJob word jobs).isSome := by
        intro jobs
        induction jobs with
        | nil => rfl
        | cons job jobs ih =>
          obtain ⟨r, hr⟩ := Option.isSome_iff_exists.mp ih
          by_cases hjob : (job.jobNum : Int) = atoi cs
          · simp [selectJob, argumentNumber, hword, hjob]
          · simp [selectJob, argumentNumber, hword, hjob, hr]
      exact hall _

/-! ### The functions -/

/-- A log that has grown by the job at one position, if there is one, and by statuses. -/
theorem actedOn_eq {s s' : JobControl} {r : Option Nat} {es : List StatusEvent}
    (h : s'.log = s.log ++ (r.toList.map .resumed ++ es.map .recorded)) :
    actedOn s s' = r.toList := by
  have hrecorded : (es.map JobEvent.recorded).filterMap (fun
      | .resumed i => some i
      | .recorded _ => none) = ([] : List Nat) := by
    simp [List.filterMap_map]
  unfold actedOn
  rw [h, List.drop_left, List.filterMap_append, hrecorded, List.append_nil, List.filterMap_map]
  simp

/-- The job acted on, from the new part of the log. -/
theorem actedOn_of_log {s s' : JobControl} {r : Option Nat}
    (h : s'.log = s.log ++ r.toList.map .resumed) : actedOn s s' = r.toList :=
  @actedOn_eq s s' r [] (by simpa using h)

section

variable (killError : Nat → Option String) (beyond : List Char)

/-- `fg` acts on the job with the number that is read. -/
theorem actedOn_funcFg {pc : Command} {word : String} (hparams : pc.pa.params = [word])
    (es : List StatusEvent) (childLeft : Bool) (s : JobControl) :
    actedOn s (funcFg killError beyond pc es childLeft s).2 =
      (findJob (jobSpec beyond word) s.jobs).toList := by
  have hjob : fgJob beyond pc s.jobs = findJob (jobSpec beyond word) s.jobs := by
    rw [fgJob, hparams]
  rw [← hjob]
  obtain ⟨hnone, text, heq⟩ | ⟨i, hi, -, -, hlog⟩ :=
    funcFg_effect killError beyond pc es childLeft s
  · rw [hnone]
    exact actedOn_of_log (by simp [heq, JobControl.printError])
  · rw [hi]
    exact actedOn_eq hlog

theorem actedOn_funcBg {pc : Command} {word : String} (hparams : pc.pa.params = [word])
    (s : JobControl) : actedOn s (funcBg killError beyond pc s) =
      (findJob (jobSpec beyond word) s.jobs).toList := by
  unfold funcBg
  rw [hparams]
  dsimp only
  cases findJob (jobSpec beyond word) s.jobs with
  | none => exact actedOn_of_log (by simp [JobControl.printError])
  | some i =>
    have hresumed := (makeJobBackGround_resumed killError i s (announceJob i
      ((resumeAt i s).modifyJob i fun job => { job with notified := false }))
      (by simp) (by simp [resumeAt])).2
    exact actedOn_of_log (by simpa using hresumed)

/-- One word of `kill`. -/
theorem killLoop_cons (word : String) (words : List String) (s : JobControl) :
    ∃ s', actedOn s s' = (findJob (jobSpec beyond word) s.jobs).toList ∧
      s'.jobs.map Job.jobNum = s.jobs.map Job.jobNum ∧
      (killLoop killError beyond (word :: words) s = killLoop killError beyond words s' ∨
        killLoop killError beyond (word :: words) s = s') := by
  rw [killLoop]
  cases findJob (jobSpec beyond word) s.jobs with
  | none => exact ⟨s, actedOn_of_log (by simp), rfl, Or.inl rfl⟩
  | some i =>
    dsimp only
    obtain ⟨hjobs, hlog⟩ := makeJobBackGround_resumed killError i s
      ((resumeAt i s).modifyJob i fun job => { job with notified := false }) rfl rfl
    generalize makeJobBackGround killError i true
      ((resumeAt i s).modifyJob i fun job => { job with notified := false }) = t at hjobs hlog ⊢
    -- the second signal changes neither the table nor the log
    have hsigJobs := signalJob_jobs killError i .SIGTERM t
    have hsigLog := signalJob_log killError i .SIGTERM t
    have hnums : (s.jobs.modify i putInBackground).map Job.jobNum = s.jobs.map Job.jobNum :=
      map_modify_same (f := putInBackground) (fun _ => rfl) _ _
    cases hsig : signalJob killError i .SIGTERM t with | mk sent s' =>
    rw [hsig] at hsigJobs hsigLog
    refine ⟨s', actedOn_of_log ?_, ?_, ?_⟩
    · rw [show s'.log = t.log from hsigLog, hlog]
      rfl
    · rw [show s'.jobs = t.jobs from hsigJobs, hjobs, hnums]
    · cases sent with
      | true => exact Or.inl rfl
      | false => exact Or.inr rfl

end

/-! ### Numbers -/

/-- A digit is no white space and no sign. -/
theorem isspace_of_isDigit {c : Char} (h : c.isDigit = true) :
    isspace c = false ∧ c ≠ '-' ∧ c ≠ '+' := by
  refine ⟨?_, ?_, ?_⟩
  · by_contra hspace
    rw [Bool.not_eq_false] at hspace
    simp only [isspace, Bool.or_eq_true, decide_eq_true_eq] at hspace
    rcases hspace with ((((rfl | rfl) | rfl) | rfl) | rfl) | rfl <;> exact absurd h (by decide)
  · rintro rfl
    exact absurd h (by decide)
  · rintro rfl
    exact absurd h (by decide)

/-- **`atoi` reads a number of type `int` from its digits.** -/
theorem atoi_toDigits {n : Nat} (h : n < 2 ^ 31) : atoi (Nat.toDigits 10 n) = n := by
  have hdigits : ∀ c ∈ Nat.toDigits 10 n, c.isDigit = true := fun c hc =>
    Nat.isDigit_of_mem_toDigits (by decide) (by decide) hc
  have hvalue : digitsValue (Nat.toDigits 10 n) = n :=
    Nat.ofDigitChars_eq_foldl.symm.trans Nat.ofDigitChars_ten_toDigits
  have htake : (Nat.toDigits 10 n).takeWhile Char.isDigit = Nat.toDigits 10 n :=
    List.takeWhile_eq_self_iff.mpr hdigits
  obtain ⟨c, cs, hcons⟩ := List.exists_cons_of_ne_nil (@Nat.toDigits_ne_nil n 10)
  rw [hcons] at hdigits hvalue htake ⊢
  obtain ⟨hspace, hminus, hplus⟩ := isspace_of_isDigit (hdigits c List.mem_cons_self)
  unfold atoi
  rw [List.dropWhile_cons_of_neg (by simp [hspace])]
  have hfirst : (c :: cs).head? = some c := rfl
  simp only [hfirst, Option.some.injEq, hminus, hplus, or_self, if_false, htake, hvalue]
  have hclamp : max (-2 ^ 63) (min (2 ^ 63 - 1) (n : Int)) = n := by omega
  rw [hclamp]
  exact Int.bmod_eq_of_le (by omega) (by omega)

/-- The characters of a job reference. -/
theorem toList_number (n : Nat) : ("%" ++ toString n).toList = '%' :: Nat.toDigits 10 n := by
  rw [String.toList_append, Nat.toString_eq_repr, Nat.toList_repr]
  rfl

/-- Two numbers are not written alike. -/
theorem number_injective {m n : Nat} (h : "%" ++ toString m = "%" ++ toString n) : m = n := by
  have hlists := congrArg String.toList h
  rw [toList_number, toList_number] at hlists
  have hvalues := congrArg (fun ds => Nat.ofDigitChars 10 ds 0) (List.cons.inj hlists).2
  simpa using hvalues

/-! ### The argument -/

theorem exists_toList {s : String} (h : s ≠ "") : ∃ c cs, s.toList = c :: cs :=
  List.exists_cons_of_ne_nil fun hnil => h (String.toList_inj.mp hnil)

theorem findIdx?_congr {α : Type} {l : List α} {p q : α → Bool} (h : ∀ x ∈ l, p x = q x) :
    l.findIdx? p = l.findIdx? q := by
  induction l with
  | nil => rfl
  | cons x l ih =>
    obtain ⟨hx, hl⟩ := List.forall_mem_cons.mp h
    rw [List.findIdx?_cons, List.findIdx?_cons, hx, ih hl]

/-- The functions find the job that the word names, if it names one, or if they find none. -/
theorem findJob_eq_namedJob_iff {jobs : List Job} (hint : ∀ job ∈ jobs, job.jobNum < 2 ^ 31)
    {word : String} {c : Char} {cs : List Char} (hword : word.toList = c :: cs) :
    findJob (atoi cs) jobs = namedJob word jobs ↔
      (∃ job ∈ jobs, word = "%" ++ toString job.jobNum) ∨
        ∀ job ∈ jobs, (job.jobNum : Int) ≠ atoi cs := by
  -- behind the `%` of a name there is the number
  have hnumber : ∀ job ∈ jobs, word = "%" ++ toString job.jobNum → atoi cs = job.jobNum := by
    rintro job hjob rfl
    rw [toList_number] at hword
    rw [← (List.cons.inj hword).2]
    exact atoi_toDigits (hint job hjob)
  constructor
  · intro h
    cases hnamed : namedJob word jobs with
    | none =>
      rw [hnamed, findJob, List.findIdx?_eq_none_iff] at h
      exact Or.inr fun job hjob => by simpa using h job hjob
    | some i =>
      obtain ⟨hi, hname, -⟩ := List.findIdx?_eq_some_iff_getElem.mp hnamed
      exact Or.inl ⟨jobs[i], List.getElem_mem hi, by simpa using hname⟩
  · rintro (⟨job, hjob, hname⟩ | hnone)
    · refine findIdx?_congr fun job' hjob' => ?_
      rw [hnumber job hjob hname, hname, decide_eq_decide]
      constructor
      · intro heq
        rw [Int.ofNat_inj.mp heq]
      · intro heq
        rw [number_injective heq]
    · have hfind : findJob (atoi cs) jobs = none :=
        List.findIdx?_eq_none_iff.mpr fun job hjob => by simpa using hnone job hjob
      rw [hfind, eq_comm, namedJob, List.findIdx?_eq_none_iff]
      intro job hjob
      rw [decide_eq_false_iff_not]
      exact fun hname => hnone job hjob (hnumber job hjob hname).symm

/-- **When an argument is a job's name.**  For every list of jobs, whose numbers are of type
    `int`, and every word: the three built-ins do with it what they should exactly if there is no
    job, or the word is not empty, and is the name of a job or has no job's number behind its
    first character. -/
theorem actsOn_iff {jobs : List Job} (hint : ∀ job ∈ jobs, job.jobNum < 2 ^ 31)
    (word : String) :
    ActsOn jobs word ↔ jobs = [] ∨ (word ≠ "" ∧
      ((∃ job ∈ jobs, word = "%" ++ toString job.jobNum) ∨
        ∀ job ∈ jobs, (job.jobNum : Int) ≠ atoi word.toList.tail)) := by
  have hfound : ∀ {c cs}, word.toList = c :: cs → ∀ beyond, jobSpec beyond word = atoi cs :=
    fun hword beyond => argumentNumber_eq_some (by rw [argumentNumber, hword]) beyond
  constructor
  · intro h
    rcases (selectJob_isSome_iff word jobs).mp h.inside with hnil | hne
    · exact Or.inl hnil
    · refine Or.inr ⟨hne, ?_⟩
      obtain ⟨c, cs, hword⟩ := exists_toList hne
      rw [hword, List.tail_cons, ← findJob_eq_namedJob_iff hint hword]
      -- what `bg` acts on is what the loop finds
      let pc : Command := .mk "bg" ⟨some "bg", [word]⟩ false .null .null
      have hbg := h.bg (fun _ => none) [] pc { jobs, numJobs := 0 } rfl rfl
      rw [actedOn_funcBg _ _ rfl, hfound hword] at hbg
      simpa using congrArg List.head? hbg
  · intro h
    have hsame : ∀ beyond, findJob (jobSpec beyond word) jobs = namedJob word jobs := by
      intro beyond
      rcases h with rfl | ⟨hne, h⟩
      · rfl
      · obtain ⟨c, cs, hword⟩ := exists_toList hne
        rw [hfound hword, findJob_eq_namedJob_iff hint hword]
        rwa [hword, List.tail_cons] at h
    refine ⟨(selectJob_isSome_iff word jobs).mpr (h.imp_right And.left), ?_, ?_, ?_⟩
    · rintro killError beyond pc es childLeft s rfl hparams
      rw [actedOn_funcFg killError beyond hparams, hsame]
    · rintro killError beyond pc s rfl hparams
      rw [actedOn_funcBg killError beyond hparams, hsame]
    · rintro killError beyond words s rfl
      rw [← hsame beyond]
      exact killLoop_cons killError beyond word words s

/-- Two jobs in the background, the second one first. -/
def twoJobs : List Job := [{ jobNum := 2, jobName := "b" }, { jobNum := 1, jobName := "a" }]

theorem actsOn_iff_two : ActsOn twoJobs "%2" := by
  refine (actsOn_iff ?_ "%2").mpr (Or.inr ⟨by decide, Or.inl ⟨twoJobs[0], by decide, by decide⟩⟩)
  decide

/-- `kill 12` acts on the job with the number 2, and `kill ""` reads beyond the argument. -/
theorem kill_takes_number :
    actedOn ⟨twoJobs, 2, [], [], [], []⟩
        (funcKill (fun _ => none) [] (.mk "kill" ⟨some "kill", ["12"]⟩ false .null .null)
          ⟨twoJobs, 2, [], [], [], []⟩) = [0] ∧
      namedJob "12" twoJobs = none ∧ selectJob "" twoJobs = none ∧
      ¬ ActsOn twoJobs "12" ∧ ¬ ActsOn twoJobs "" := by
  refine ⟨by decide, by decide, by decide, fun h => ?_, fun h => ?_⟩
  · have hbg := h.bg (fun _ => none) [] (.mk "bg" ⟨some "bg", ["12"]⟩ false .null .null)
      ⟨twoJobs, 2, [], [], [], []⟩ rfl rfl
    exact absurd hbg (by decide)
  · exact absurd h.inside (by decide)

end OSPortfolio.Ish
