import OSPortfolio.Ish.Pipeline

namespace OSPortfolio.Ish

open OSPortfolio.Posix

/-!
# Standard error in a pipeline

A `|&` sends the standard error of the stage in front of it into the pipe as well.  The fork
loop remembers one in `is_stderr`, which it never clears.

* `StderrAsWritten` — what the separators ask for;
* `forkLoop_stderr` — where the standard error of each stage goes, from any stage on;
* `stderrAsWritten_iff` — **it goes where the separators say exactly if no `|` comes after a
  `|&`**.
-/

/-- The separators behind the stages of a pipeline; there is none behind the last. -/
def separatorsOf (pc : Command) : List (Option PipeType) :=
  (stages pc).map fun c => firstPipe c.prRedirects

/-- The standard error of each child goes into the pipe behind its stage exactly if this
    separator is `|&`, and otherwise where that of the shell goes. -/
def StderrAsWritten (A : FdAlloc OpenFile) (openOk : String → OpenFlags → Bool) (k : Kernel)
    (pc : Command) (s : ForkState) : Prop :=
  s.children.length = (stages pc).length ∧
  ∀ (i : Nat) (c : Child), s.children[i]? = some c → ∃ k', c.start A openOk = some k' ∧
    k'.get 2 = if (separatorsOf pc)[i]? = some (some .PIPE_ERROR)
      then some (pipeEnd k i .pipeWrite) else k.get 2

/-! ### One stage -/

section
variable (A : FdAlloc OpenFile) (interactive : Bool) (openOk : String → OpenFlags → Bool)
  {outcome : Nat → Outcome} {k : Kernel} {i : Nat} {s : ForkState}

/-- Descriptor 2 of a stage with a pipe. -/
theorem HasPipe.get_two {r w : Int} {kp : Kernel} (hp : HasPipe k i s r w kp)
    (hinv : LoopInv k i s) (hstd : k.StdOpen) (e : Int) :
    (moveOut w e (moveIn s.fdIn kp)).get 2 =
      if e = 1 then some (pipeEnd k i .pipeWrite) else k.get 2 := by
  obtain ⟨d, hd⟩ := upstream_isSome hstd i
  have hfd : s.fdIn = 0 ∨ 2 < s.fdIn := by rcases hinv.fdIn with h | h <;> omega
  have hrgt := hp.read_gt
  have hwgt := hp.write_gt
  have hkpin : kp.get s.fdIn = some d := by
    rw [hp.get_other (Ne.symm hp.write_new.1) (Ne.symm hp.read_new.1), hinv.source, hd]
  have hother : ∀ x, x ≠ s.fdIn → x ≠ 0 → (moveIn s.fdIn kp).get x = kp.get x := by
    intro x hx hx0
    rw [get_moveIn hkpin, if_neg hx, if_neg hx0, ite_self]
  have hwopen : (moveIn s.fdIn kp).get w = some (pipeEnd k i .pipeWrite) := by
    rw [hother w hp.write_new.1 (by omega), hp.get_write]
  rw [get_moveOut (by omega) hwopen]
  by_cases he : e = 1
  · rw [if_pos ⟨he, rfl⟩, if_pos he]
  · rw [if_neg (fun h => he h.1), if_neg he, if_neg (by omega), if_neg (by omega),
      hother 2 (by omega) (by omega), hp.get_other (by omega) (by omega),
      hinv.frame 2 (by omega)]

/-- A child that a turn forks, with its descriptor 2 and the `is_stderr` the turn leaves. -/
theorem forkStage_piped_stderr (hinv : LoopInv k i s) (hstd : k.StdOpen)
    (hok : (outcome i).pipeOk = true) (hpid : 0 < (outcome i).pid)
    (z : String) (pa : Args) (b : Bool) (t : PipeType) (pcPipe next : Command) {s' : ForkState}
    (h : forkStage A interactive outcome s (.mk z pa b (.pipe t pcPipe .null) next) = .ok s') :
    ∃ c k', s'.children = s.children ++ [c] ∧ c.start A openOk = some k' ∧
      s'.isStderr = (if t = .PIPE_ERROR then 1 else s.isStderr) ∧
      k'.get 2 = if s'.isStderr = 1 then some (pipeEnd k i .pipeWrite) else k.get 2 := by
  obtain ⟨r, w, kp, hpipe, hp⟩ := hinv.pipe A hstd
  have hnot : ¬ (outcome i).pid < 0 := by omega
  simp only [forkStage, hinv.length, firstPipe, hok, hnot, hpipe, Command.prRedirects,
    Option.isSome_some, and_self, if_true, if_false, Except.ok.injEq] at h
  obtain rfl := h
  refine ⟨_, _, rfl, execProcessDescriptors_noFile A openOk
    (⟨rfl, rfl⟩ : NoFile (.pipe t pcPipe .null)) _ _ _ _, ?_, ?_⟩
  · simp
  · exact hp.get_two hinv hstd _

end

/-! ### The loop -/

theorem separatorsOf_last (z : String) (pa : Args) (b : Bool) (next : Command) :
    separatorsOf (.mk z pa b .null next) = [none] := rfl

theorem separatorsOf_pipe (z : String) (pa : Args) (b : Bool) (t : PipeType)
    (c next : Command) :
    separatorsOf (.mk z pa b (.pipe t c .null) next) = some t :: separatorsOf c := rfl

/-- **Where standard error goes**, from stage `i` on: into the pipe behind a stage, if this or
    an earlier separator is `|&`. -/
theorem forkLoop_stderr (A : FdAlloc OpenFile) (interactive : Bool) (outcome : Nat → Outcome)
    (openOk : String → OpenFlags → Bool) {k : Kernel} (hstd : k.StdOpen) {pc : Command}
    (hpc : PlainPipeline pc) {i : Nat} {s s' : ForkState} (hinv : LoopInv k i s)
    (hok : ∀ j, i ≤ j → j < i + (stages pc).length →
      (outcome j).pipeOk = true ∧ 0 < (outcome j).pid)
    (h : (stages pc).foldlM (forkStage A interactive outcome) s = .ok s') :
    ∃ cs, s'.children = s.children ++ cs ∧
      ∀ j c, cs[j]? = some c → ∃ k', c.start A openOk = some k' ∧
        k'.get 2 = if j + 1 < (stages pc).length ∧
            (s.isStderr = 1 ∨ some .PIPE_ERROR ∈ (separatorsOf pc).take (j + 1))
          then some (pipeEnd k (i + j) .pipeWrite) else k.get 2 := by
  induction hpc generalizing i s with
  | last z pa b next =>
    obtain ⟨s₁, c, hstage, hforked, ⟨k', hstart, htable⟩, -, -⟩ :=
      forkStage_last A interactive openOk hinv hstd
        (hok i (by omega) (by simp [stages, stagesBelow])).2 z pa b next
    obtain rfl : s₁ = s' := by simpa [stages, stagesBelow, hstage] using h
    refine ⟨[c], hforked.children, fun j c' hc' => ?_⟩
    obtain ⟨rfl, rfl⟩ : j = 0 ∧ c = c' := by cases j <;> simp_all
    refine ⟨k', hstart, ?_⟩
    -- there is no pipe behind the last stage
    rw [if_neg (by simp [stages, stagesBelow])]
    rcases htable.stderr with htwo | ⟨hne, -⟩
    · exact htwo
    · exact absurd rfl hne
  | @pipe z pa b t pcPipe next hpipe ih =>
    have hlen : (stages (.mk z pa b (.pipe t pcPipe .null) next)).length =
        (stages pcPipe).length + 1 := by simp [stages, stagesBelow]
    obtain ⟨hpipeOk, hpid⟩ := hok i (by omega) (by omega)
    obtain ⟨s₁, -, hstage, -, -, hinv₁, -⟩ :=
      forkStage_piped A interactive openOk hinv hstd hpipeOk hpid z pa b t pcPipe next
    obtain ⟨c, k', hchildren, hstart, hflag, htwo⟩ :=
      forkStage_piped_stderr A interactive openOk hinv hstd hpipeOk hpid z pa b t pcPipe next
        hstage
    have hloop : (stages pcPipe).foldlM (forkStage A interactive outcome) s₁ = .ok s' := by
      rwa [stages, stagesBelow, List.foldlM_cons, hstage] at h
    obtain ⟨cs, hcs, hbelow⟩ := ih hinv₁ (fun j h₁ h₂ => hok j (by omega) (by omega)) hloop
    -- the flag after this turn
    have hset : s₁.isStderr = 1 ↔ s.isStderr = 1 ∨ t = .PIPE_ERROR := by
      rw [hflag]
      by_cases ht : t = .PIPE_ERROR <;> simp [ht]
    have hpos := hpipe.stages_pos
    refine ⟨c :: cs, by rw [hcs, hchildren, List.append_assoc]; rfl, fun j c' hc' => ?_⟩
    cases j with
    | zero =>
      obtain rfl : c = c' := by simpa using hc'
      refine ⟨k', hstart, htwo.trans (if_congr ?_ rfl rfl)⟩
      rw [hset, hlen, separatorsOf_pipe]
      simp [hpos, eq_comm]
    | succ j =>
      obtain ⟨k'', hstart', htwo'⟩ := hbelow j c' (by simpa using hc')
      refine ⟨k'', hstart', htwo'.trans (if_congr ?_ ?_ rfl)⟩
      · rw [hset, hlen, separatorsOf_pipe, List.take_succ_cons, List.mem_cons]
        simp [or_assoc, eq_comm]
      · rw [show i + 1 + j = i + (j + 1) by omega]

/-- There is a separator behind each stage but the last. -/
theorem separatorsOf_get {pc : Command} (hpc : PlainPipeline pc) :
    (separatorsOf pc).length = (stages pc).length ∧
      ∀ i, i < (stages pc).length →
        (i + 1 < (stages pc).length ↔ ∃ t, (separatorsOf pc)[i]? = some (some t)) := by
  refine ⟨by rw [separatorsOf, List.length_map], ?_⟩
  induction hpc with
  | last z pa b next =>
    intro i hi
    have hi : i = 0 := by simpa [stages, stagesBelow] using hi
    subst hi
    simp [separatorsOf_last, stages, stagesBelow]
  | @pipe z pa b t pcPipe next hpipe ih =>
    have hlen : (stages (.mk z pa b (.pipe t pcPipe .null) next)).length =
        (stages pcPipe).length + 1 := by simp [stages, stagesBelow]
    have hpos := hpipe.stages_pos
    intro i hi
    rw [hlen] at hi ⊢
    rw [separatorsOf_pipe]
    cases i with
    | zero => exact iff_of_true (by omega) ⟨t, rfl⟩
    | succ i =>
      rw [List.getElem?_cons_succ, ← ih i (by omega)]
      omega

/-- No `|` comes after a `|&`. -/
def ErrorPipesLast (pc : Command) : Prop :=
  (separatorsOf pc).Pairwise fun a b => ¬ (a = some .PIPE_ERROR ∧ b = some .PIPE)

/-- A separator from an earlier stage on is `|&` only where the separator of the stage is. -/
theorem errorPipesLast_iff {pc : Command} (hpc : PlainPipeline pc) :
    ErrorPipesLast pc ↔ ∀ i < (stages pc).length,
      (i + 1 < (stages pc).length ∧ some .PIPE_ERROR ∈ (separatorsOf pc).take (i + 1) ↔
        (separatorsOf pc)[i]? = some (some .PIPE_ERROR)) := by
  obtain ⟨hlen, hget⟩ := separatorsOf_get hpc
  rw [ErrorPipesLast, List.pairwise_iff_getElem]
  constructor
  · intro hlast i hi
    rw [hget i hi]
    constructor
    · rintro ⟨⟨t, ht⟩, hmem⟩
      obtain ⟨j, hj, hjerror⟩ := List.getElem_of_mem hmem
      rw [List.length_take] at hj
      rw [List.getElem_take] at hjerror
      obtain ⟨hi', hti⟩ := List.getElem?_eq_some_iff.mp ht
      rw [ht]
      cases t with
      | PIPE_ERROR => rfl
      | PIPE =>
        -- the `|&` is not this separator, so it stands in front of it
        have hne : j ≠ i := by
          rintro rfl
          rw [hti] at hjerror
          exact absurd hjerror (by decide)
        exact absurd ⟨hjerror, hti⟩ (hlast j i (by omega) (by omega) (by omega))
    · intro herror
      refine ⟨⟨_, herror⟩, ?_⟩
      obtain ⟨hi', hti⟩ := List.getElem?_eq_some_iff.mp herror
      exact List.mem_take_iff_getElem.mpr ⟨i, by omega, hti⟩
  · rintro hall i j hi hj hij ⟨herror, hpipe⟩
    have hj' : (separatorsOf pc)[j]? = some (some .PIPE) := by
      rw [List.getElem?_eq_getElem hj, hpipe]
    have hsame := (hall j (by omega)).mp ⟨(hget j (by omega)).mpr ⟨_, hj'⟩,
      List.mem_take_iff_getElem.mpr ⟨i, by omega, herror⟩⟩
    rw [hj'] at hsame
    exact absurd hsame (by decide)

/-- **Where standard error goes.**  In a pipeline without file redirections it goes where the
    separators say, for every stage, exactly if no `|` comes after a `|&`. -/
theorem stderrAsWritten_iff (A : FdAlloc OpenFile) (interactive : Bool)
    (outcome : Nat → Outcome) (openOk : String → OpenFlags → Bool) (uninit : Int × Int)
    (numJobs : Nat) {pc : Command} (hpc : PlainPipeline pc) {k : Kernel} (hstd : k.StdOpen)
    (hok : ∀ i < (stages pc).length, (outcome i).pipeOk = true ∧ 0 < (outcome i).pid) :
    ∃ s, execCommandFork A interactive outcome uninit numJobs pc k = .ok s ∧
      (StderrAsWritten A openOk k pc s ↔ ErrorPipesLast pc) := by
  obtain ⟨s, hs, hw⟩ :=
    execCommandFork_spec A interactive outcome openOk uninit numJobs hpc hstd hok
  have hlen : s.children.length = (stages pc).length := by rw [← hw.pcs, List.length_map]
  have hinv : LoopInv k 0 (forkStart uninit numJobs pc k) :=
    ⟨rfl, rfl, Or.inl ⟨rfl, rfl⟩, rfl, fun _ _ => rfl⟩
  obtain ⟨cs, hcs, htwo⟩ := forkLoop_stderr A interactive outcome openOk hstd hpc hinv
    (fun j _ h => hok j (by omega)) hs
  obtain rfl : s.children = cs := hcs
  -- the flag is clear before the loop
  have hflag : (forkStart uninit numJobs pc k).isStderr ≠ 1 := by
    show (0 : Int) ≠ 1
    decide
  have hsent : ∀ (i : Nat) (c : Child), s.children[i]? = some c →
      ∃ k', c.start A openOk = some k' ∧ k'.get 2 =
        if i + 1 < (stages pc).length ∧ some .PIPE_ERROR ∈ (separatorsOf pc).take (i + 1)
          then some (pipeEnd k i .pipeWrite) else k.get 2 := by
    intro i c hc
    obtain ⟨k', hstart, hget⟩ := htwo i c hc
    rw [Nat.zero_add] at hget
    exact ⟨k', hstart, hget.trans (if_congr (by rw [or_iff_right hflag]) rfl rfl)⟩
  -- the end of a pipe is none of the files that were open before
  have hends : ∀ (i : Nat) (P Q : Prop) [Decidable P] [Decidable Q],
      ((if P then some (pipeEnd k i .pipeWrite) else k.get 2) =
        if Q then some (pipeEnd k i .pipeWrite) else k.get 2) ↔ (P ↔ Q) := by
    intro i P Q _ _
    have hne : k.get 2 ≠ some (pipeEnd k i .pipeWrite) :=
      fun h => ne_pipeEnd h i .pipeWrite rfl
    by_cases hP : P <;> by_cases hQ : Q <;> simp [hP, hQ, hne, hne.symm]
  refine ⟨s, hs, ?_⟩
  rw [StderrAsWritten, and_iff_right hlen, errorPipesLast_iff hpc]
  constructor
  · intro hwritten i hi
    have hc := List.getElem?_eq_getElem (hlen ▸ hi : i < s.children.length)
    obtain ⟨k₁, hstart₁, hsent₁⟩ := hsent i _ hc
    obtain ⟨k₂, hstart₂, hwritten₂⟩ := hwritten i _ hc
    obtain rfl : k₁ = k₂ := Option.some.inj (hstart₁.symm.trans hstart₂)
    exact (hends i _ _).mp (hsent₁.symm.trans hwritten₂)
  · intro hall i c hc
    obtain ⟨k', hstart, hget⟩ := hsent i c hc
    have hi : i < (stages pc).length := hlen ▸ (List.getElem?_eq_some_iff.mp hc).1
    exact ⟨k', hstart, hget.trans ((hends i _ _).mpr (hall i hi))⟩

/-- `make |& tee | wc`: the separator behind `tee` is a plain `|`. -/
def makeTee : Command :=
  .mk "make" ⟨some "make", []⟩ false
    (.pipe .PIPE_ERROR (.mk "tee" ⟨some "tee", []⟩ false
      (.pipe .PIPE (.mk "wc" ⟨some "wc", []⟩ false .null .null) .null) .null) .null) .null

theorem makeTee_plain : PlainPipeline makeTee := .pipe _ _ _ _ _ (.pipe _ _ _ _ _ (.last _ _ _ _))

/-- The condition excludes it. -/
theorem stderrAsWritten_iff_makeTee :
    ∃ s, execCommandFork FdAlloc.lowest true yesHeadOutcome (0, 0) 0 makeTee
        Kernel.std = .ok s ∧
      (StderrAsWritten FdAlloc.lowest (fun _ _ => true) Kernel.std makeTee s ↔
        ErrorPipesLast makeTee) :=
  stderrAsWritten_iff FdAlloc.lowest true yesHeadOutcome (fun _ _ => true) (0, 0) 0
    makeTee_plain (k := Kernel.std) (by unfold Kernel.StdOpen FdTable.StdOpen; decide)
    (fun i _ => ⟨rfl, by simp only [yesHeadOutcome]; omega⟩)

/-- The standard error of `tee` goes to `wc`. -/
theorem tee_stderr_in_pipe :
    ∃ s c k', execCommandFork FdAlloc.lowest true yesHeadOutcome (0, 0) 0 makeTee
        Kernel.std = .ok s ∧ s.children[1]? = some c ∧
      c.start FdAlloc.lowest (fun _ _ => true) = some k' ∧
      (separatorsOf makeTee)[1]? = some (some .PIPE) ∧
      k'.get 2 = some (pipeEnd Kernel.std 1 .pipeWrite) ∧
      ¬ StderrAsWritten FdAlloc.lowest (fun _ _ => true) Kernel.std makeTee s := by
  refine ⟨_, _, _, rfl, rfl, rfl, rfl, by decide, ?_⟩
  rintro ⟨-, hwritten⟩
  obtain ⟨k', hstart, htwo⟩ := hwritten 1 _ rfl
  obtain rfl := Option.some.inj hstart
  exact absurd htwo (by decide)

end OSPortfolio.Ish
