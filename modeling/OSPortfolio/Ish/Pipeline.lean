import Mathlib.Data.List.Nodup
import OSPortfolio.Ish.ForkLoop

namespace OSPortfolio.Ish

open OSPortfolio.Posix

/-!
# Pipelines

The fork loop on a pipeline without file redirects, when `pipe` and `fork` succeed.  One
invariant describes the shell before each stage: its descriptors are those it started with,
and the read end of the pipe from the stage before.

* `PlainPipeline` — the pipelines, as the parser builds them;
* `forkStage_last`, `forkStage_piped` — one turn of the loop;
* `forkLoop_spec` — the loop, from any stage on;
* `execCommandFork_wired` — one child per stage, wired in order, and every pipe descriptor
  of the shell closed once;
* `stage_onlyOwnEnds_iff` — a stage holds no pipe descriptor but its own two ends exactly
  when it is the last one: every other stage keeps the read end of the pipe it writes to.
-/

/-- A pipeline without file redirects. -/
inductive PlainPipeline : Command → Prop
  | last (z : String) (pa : Args) (b : Bool) (next : Command) :
      PlainPipeline (.mk z pa b .null next)
  | pipe (z : String) (pa : Args) (b : Bool) (t : PipeType) {c : Command} (next : Command)
      (h : PlainPipeline c) : PlainPipeline (.mk z pa b (.pipe t c .null) next)

/-- An end of the pipe between the stages `i` and `i + 1` of a command that the shell starts
    with the descriptors `k`. -/
def pipeEnd (k : Kernel) (i : Nat) (resource : Resource) : OpenFile := ⟨k.stamp + i, resource⟩

/-- What stage `i` is to read from. -/
def upstream (k : Kernel) (i : Nat) : Option OpenFile :=
  if i = 0 then k.get 0 else some (pipeEnd k (i - 1) .pipeRead)

/-- What stage `i` of `n` is to write to. -/
def downstream (k : Kernel) (i n : Nat) : Option OpenFile :=
  if i + 1 = n then k.get 1 else some (pipeEnd k i .pipeWrite)

/-- The calls of `close` the shell makes for the ends of the `n` pipes from stage `i` on. -/
def pipeCloses (k : Kernel) (i n : Nat) : List (Option OpenFile) :=
  (List.range' i n).flatMap
    (fun j => [some (pipeEnd k j .pipeWrite), some (pipeEnd k j .pipeRead)])

/-- The descriptors `k'` of stage `i` of `n`, started from the descriptors `k`.  A stage
    before the last has a descriptor `r` for the read end of its own pipe. -/
structure StageTable (k : Kernel) (i n : Nat) (k' : Kernel) : Prop where
  stdin : k'.get 0 = upstream k i
  stdout : k'.get 1 = downstream k i n
  stderr : k'.get 2 = k.get 2 ∨ i + 1 ≠ n ∧ k'.get 2 = some (pipeEnd k i .pipeWrite)
  others : if i + 1 = n then ∀ x, x ≠ 0 → x ≠ 1 → x ≠ 2 → k'.get x = k.get x
    else ∃ r, 2 < r ∧ k'.get r = some (pipeEnd k i .pipeRead)

/-- The shell before stage `i`: `fd_in` is what the stage is to read from, and the other
    descriptors are those of `k`. -/
structure LoopInv (k : Kernel) (i : Nat) (s : ForkState) : Prop where
  length : s.children.length = i
  stamp : s.kernel.stamp = k.stamp + i
  fdIn : i = 0 ∧ s.fdIn = 0 ∨ 0 < i ∧ 2 < s.fdIn ∧ k.get s.fdIn = none
  source : s.kernel.get s.fdIn = upstream k i
  frame : ∀ x, x ≠ s.fdIn → s.kernel.get x = k.get x

/-! ### One stage -/

section
variable (A : FdAlloc OpenFile) (interactive : Bool) (openOk : String → OpenFlags → Bool)
  {outcome : Nat → Outcome} {k : Kernel} {i : Nat} {s : ForkState}

/-- Every stage has something to read from. -/
theorem upstream_isSome (hstd : k.StdOpen) (i : Nat) : ∃ d, upstream k i = some d := by
  unfold upstream
  split
  · exact Option.isSome_iff_exists.mp hstd.1
  · exact ⟨_, rfl⟩

/-- What `close(fd_in)` does to the shell before stage `i`. -/
theorem LoopInv.closeIn (hinv : LoopInv k i s) {k' : Kernel}
    (hk' : k' = if s.fdIn ≠ 0 then s.kernel.close s.fdIn else s.kernel) :
    (∀ x, k'.get x = k.get x) ∧
      k'.closeLog = s.kernel.closeLog ++ (if i = 0 then [] else [upstream k i]) := by
  subst hk'
  -- the first stage has nothing to close; later `fd_in` is a pipe end that `k` does not have
  rcases hinv.fdIn with ⟨rfl, h0⟩ | ⟨hi, hgt, hnone⟩
  · refine ⟨fun x => ?_, by simp [h0]⟩
    rw [if_neg (by simp [h0])]
    by_cases hx : x = s.fdIn
    · rw [hx, hinv.source, h0]; rfl
    · exact hinv.frame x hx
  · have hne : s.fdIn ≠ 0 := by omega
    rw [if_pos hne, if_neg (by omega), Kernel.closeLog_close, hinv.source]
    refine ⟨fun x => ?_, rfl⟩
    rw [Kernel.get_close]
    split
    · rename_i hx; rw [hx, hnone]
    · rename_i hx; exact hinv.frame x hx

/-- The loop leaves 0, 1 and 2 open. -/
theorem LoopInv.stdOpen (hinv : LoopInv k i s) (hstd : k.StdOpen) : s.kernel.StdOpen := by
  have key : ∀ x, x = 0 ∨ x ≠ s.fdIn → (k.get x).isSome → (s.kernel.get x).isSome := by
    intro x hx hk
    by_cases heq : x = s.fdIn
    · obtain ⟨d, hd⟩ := upstream_isSome hstd i
      rw [heq, hinv.source, hd]
      rfl
    · rw [hinv.frame x heq]
      exact hk
  have hin : s.fdIn = 0 ∨ 2 < s.fdIn := by rcases hinv.fdIn with h | h <;> omega
  exact ⟨key 0 (Or.inl rfl) hstd.1, key 1 (Or.inr (by omega)) hstd.2.1,
    key 2 (Or.inr (by omega)) hstd.2.2⟩

/-- What every turn does that forks a child: it records the child in the job. -/
structure Forked (pc : Command) (pid : Int) (s s' : ForkState) (c : Child) : Prop where
  children : s'.children = s.children ++ [c]
  childPc : c.pc = pc
  childPid : c.pid = pid
  process : s'.job.process = { processId := pid } :: s.job.process

/-- **The last stage.** -/
theorem forkStage_last (hinv : LoopInv k i s) (hstd : k.StdOpen) (hpid : 0 < (outcome i).pid)
    (z : String) (pa : Args) (b : Bool) (next : Command) :
    ∃ s' c, forkStage A interactive outcome s (.mk z pa b .null next) = .ok s' ∧
      Forked (.mk z pa b .null next) (outcome i).pid s s' c ∧
      (∃ k', c.start A openOk = some k' ∧ StageTable k i (i + 1) k') ∧
      (∀ x, s'.kernel.get x = k.get x) ∧
      s'.kernel.closeLog = s.kernel.closeLog ++ (if i = 0 then [] else [upstream k i]) := by
  obtain ⟨hget, hlog⟩ := hinv.closeIn rfl
  let c : Child :=
    { pid := (outcome i).pid, pc := .mk z pa b .null next, pgid := s.job.processGroupId
      fdOut := 1, fdIn := s.fdIn, isStderr := s.isStderr, kernel := s.kernel, job := s.job }
  let s' : ForkState :=
    { kernel := if s.fdIn ≠ 0 then s.kernel.close s.fdIn else s.kernel
      job := recordChild interactive (outcome i).pid s.job, fdIn := s.fdPipe.1
      fdPipe := s.fdPipe, isStderr := s.isStderr, children := s.children ++ [c] }
  have hstage : forkStage A interactive outcome s (.mk z pa b .null next) = .ok s' := by
    have hnot : ¬ (outcome i).pid < 0 := by omega
    simp [forkStage, hinv.length, firstPipe, hnot, s', c]
  have hstart : c.start A openOk = some (moveIn s.fdIn s.kernel) := by
    simp [c, Child.start, execProcessDescriptors_noFile A openOk (⟨rfl, rfl⟩ : NoFile .null),
      moveOut]
  obtain ⟨d, hd⟩ := upstream_isSome hstd i
  have hin := get_moveIn (hinv.source.trans hd)
  have hfd : s.fdIn = 0 ∨ 2 < s.fdIn := by rcases hinv.fdIn with h | h <;> omega
  refine ⟨s', c, hstage, ⟨rfl, rfl, rfl, rfl⟩, ⟨_, hstart, ?_, ?_, Or.inl ?_, ?_⟩, hget, hlog⟩
  · rw [hin, hd]
    -- the inherited descriptor 0 stays where it is, a pipe end is moved there
    split
    · rename_i h0; rw [← hd, ← hinv.source, h0]
    · rw [if_neg (by omega), if_pos rfl]
  · rw [hin, downstream, if_pos rfl, hinv.frame 1 (by omega)]
    simp [show (1 : Int) ≠ s.fdIn by omega]
  · rw [hin, hinv.frame 2 (by omega)]
    simp [show (2 : Int) ≠ s.fdIn by omega]
  · rw [if_pos rfl]
    intro x hx0 _ _
    rw [hin]
    -- the only other descriptor that differs is `fd_in`, closed after the move
    by_cases hx : x = s.fdIn
    · rcases hinv.fdIn with ⟨-, h0⟩ | ⟨-, -, hnone⟩
      · exact absurd (hx.trans h0) hx0
      · rw [if_neg (by omega), if_pos hx, hx, hnone]
    · rw [if_neg hx, if_neg hx0, hinv.frame x hx, ite_self]

/-- The descriptors `kp` behind the `pipe` of stage `i`, whose ends are on `r` and `w`. -/
structure HasPipe (k : Kernel) (i : Nat) (s : ForkState) (r w : Int) (kp : Kernel) : Prop where
  read_gt : 2 < r
  write_gt : 2 < w
  ends_ne : w ≠ r
  read_new : r ≠ s.fdIn ∧ k.get r = none
  write_new : w ≠ s.fdIn ∧ k.get w = none
  get : ∀ x, kp.get x = if x = w then some (pipeEnd k i .pipeWrite)
    else if x = r then some (pipeEnd k i .pipeRead) else s.kernel.get x
  stamp : kp.stamp = k.stamp + i + 1
  closeLog : kp.closeLog = s.kernel.closeLog

/-- The `pipe` of a stage. -/
theorem LoopInv.pipe (hinv : LoopInv k i s) (hstd : k.StdOpen) :
    ∃ r w kp, s.kernel.pipe A = (r, w, kp) ∧ HasPipe k i s r w kp := by
  obtain ⟨d, hd⟩ := upstream_isSome hstd i
  obtain ⟨r, w, kp, hpipe, ⟨hrgt, hwgt, hwr⟩, ⟨hr, hw⟩, hget, hstamp, hlog⟩ :=
    (hinv.stdOpen hstd).pipe_spec A
  rw [hinv.stamp] at hget hstamp
  -- `fd_in` is open, so neither end is it, and what is not `fd_in` is closed in `k` as well
  have hnew : ∀ x, s.kernel.get x = none → x ≠ s.fdIn ∧ k.get x = none := by
    intro x hx
    have hne : x ≠ s.fdIn := by
      rintro rfl
      exact absurd (hx.symm.trans (hinv.source.trans hd)) (by simp)
    exact ⟨hne, by rw [← hinv.frame x hne, hx]⟩
  exact ⟨r, w, kp, hpipe, hrgt, hwgt, hwr, hnew r hr, hnew w hw, hget, hstamp, hlog⟩

theorem HasPipe.get_write {r w : Int} {kp : Kernel} (hp : HasPipe k i s r w kp) :
    kp.get w = some (pipeEnd k i .pipeWrite) := by
  rw [hp.get, if_pos rfl]

theorem HasPipe.get_read {r w : Int} {kp : Kernel} (hp : HasPipe k i s r w kp) :
    kp.get r = some (pipeEnd k i .pipeRead) := by
  rw [hp.get, if_neg (Ne.symm hp.ends_ne), if_pos rfl]

/-- The other descriptors are those in front of the `pipe`. -/
theorem HasPipe.get_other {r w : Int} {kp : Kernel} (hp : HasPipe k i s r w kp) {x : Int}
    (hw : x ≠ w) (hr : x ≠ r) : kp.get x = s.kernel.get x := by
  rw [hp.get, if_neg hw, if_neg hr]

/-- The child moves `fd_in` and `fd_out`, and keeps the read end. -/
theorem HasPipe.stageTable {r w : Int} {kp : Kernel} (hp : HasPipe k i s r w kp)
    (hinv : LoopInv k i s) (hstd : k.StdOpen) (e : Int) {n : Nat} (hn : i + 1 ≠ n) :
    StageTable k i n (moveOut w e (moveIn s.fdIn kp)) := by
  obtain ⟨d, hd⟩ := upstream_isSome hstd i
  have hfd : s.fdIn = 0 ∨ 2 < s.fdIn := by rcases hinv.fdIn with h | h <;> omega
  have hrgt := hp.read_gt
  have hwgt := hp.write_gt
  have hkpin : kp.get s.fdIn = some d := by
    rw [hp.get_other (Ne.symm hp.write_new.1) (Ne.symm hp.read_new.1), hinv.source, hd]
  have hin := get_moveIn hkpin
  have hother : ∀ x, x ≠ s.fdIn → x ≠ 0 → (moveIn s.fdIn kp).get x = kp.get x := by
    intro x hx hx0
    rw [hin, if_neg hx, if_neg hx0, ite_self]
  have hwopen : (moveIn s.fdIn kp).get w = some (pipeEnd k i .pipeWrite) := by
    rw [hother w hp.write_new.1 (by omega), hp.get_write]
  have hout := @get_moveOut w e _ _ (by omega) hwopen
  refine ⟨?_, ?_, ?_, ?_⟩
  · rw [hout, if_neg (by omega), if_neg (by omega), if_neg (by omega), hin, hd]
    -- the inherited descriptor 0 stays where it is, a pipe end is moved there
    split
    · rename_i h0
      rw [hp.get_other (by omega) (by omega), ← hd, ← hinv.source, h0]
    · rw [if_neg (by omega), if_pos rfl]
  · rw [hout, if_neg (by omega), if_neg (by omega), if_pos rfl, downstream, if_neg hn]
  · rw [hout]
    -- 2 follows 1 for a `|&` of this stage or of one before
    by_cases he : e = 1
    · rw [if_pos ⟨he, rfl⟩]; exact Or.inr ⟨hn, rfl⟩
    · rw [if_neg (fun h => he h.1), if_neg (by omega), if_neg (by omega),
        hother 2 (by omega) (by omega), hp.get_other (by omega) (by omega),
        hinv.frame 2 (by omega)]
      exact Or.inl rfl
  · rw [if_neg hn]
    refine ⟨r, hrgt, ?_⟩
    rw [hout, if_neg (by omega), if_neg (Ne.symm hp.ends_ne), if_neg (by omega),
      hother r hp.read_new.1 (by omega), hp.get_read]

/-- What `close(fd_in)` does to the shell behind the `pipe`. -/
theorem HasPipe.closeIn {r w : Int} {kp : Kernel} (hp : HasPipe k i s r w kp)
    (hinv : LoopInv k i s) {kc : Kernel}
    (hkc : kc = if s.fdIn ≠ 0 then kp.close s.fdIn else kp) :
    kc.get w = some (pipeEnd k i .pipeWrite) ∧ kc.get r = some (pipeEnd k i .pipeRead) ∧
      (∀ x, x ≠ w → x ≠ r → kc.get x = k.get x) ∧ kc.stamp = k.stamp + i + 1 ∧
      kc.closeLog = s.kernel.closeLog ++ (if i = 0 then [] else [upstream k i]) := by
  subst hkc
  rcases hinv.fdIn with ⟨rfl, h0⟩ | ⟨hi, hgt, hnone⟩
  · -- the first stage has nothing to close, and its `fd_in` is the descriptor 0 of `k`
    rw [if_neg (by simp [h0])]
    refine ⟨hp.get_write, hp.get_read, fun x hw hr => ?_, hp.stamp, by simp [hp.closeLog]⟩
    rw [hp.get_other hw hr]
    by_cases hx : x = s.fdIn
    · rw [hx, hinv.source, h0]; rfl
    · exact hinv.frame x hx
  · rw [if_pos (by omega), if_neg (by omega), Kernel.closeLog_close, hp.closeLog,
      hp.get_other (Ne.symm hp.write_new.1) (Ne.symm hp.read_new.1), hinv.source]
    refine ⟨?_, ?_, fun x hw hr => ?_, hp.stamp, rfl⟩
    · rw [Kernel.get_close, if_neg hp.write_new.1, hp.get_write]
    · rw [Kernel.get_close, if_neg hp.read_new.1, hp.get_read]
    · -- a pipe end that is closed, which `k` does not have either
      rw [Kernel.get_close]
      by_cases hx : x = s.fdIn
      · rw [if_pos hx, hx, hnone]
      · rw [if_neg hx, hp.get_other hw hr, hinv.frame x hx]

/-- **A stage with a pipe**, which leaves the shell ready for the next stage. -/
theorem forkStage_piped (hinv : LoopInv k i s) (hstd : k.StdOpen)
    (hok : (outcome i).pipeOk = true) (hpid : 0 < (outcome i).pid)
    (z : String) (pa : Args) (b : Bool) (t : PipeType) (pcPipe next : Command) :
    ∃ s' c, forkStage A interactive outcome s (.mk z pa b (.pipe t pcPipe .null) next) = .ok s' ∧
      Forked (.mk z pa b (.pipe t pcPipe .null) next) (outcome i).pid s s' c ∧
      (∃ k', c.start A openOk = some k' ∧ ∀ n, i + 1 ≠ n → StageTable k i n k') ∧
      LoopInv k (i + 1) s' ∧
      s'.kernel.closeLog = s.kernel.closeLog ++ (if i = 0 then [] else [upstream k i]) ++
        [some (pipeEnd k i .pipeWrite)] := by
  obtain ⟨r, w, kp, hpipe, hp⟩ := hinv.pipe A hstd
  have hwr := hp.ends_ne
  have hrgt := hp.read_gt
  have hwgt := hp.write_gt
  -- the child and the shell after the turn
  let e : Int := if t = .PIPE_ERROR then 1 else s.isStderr
  let kc := if s.fdIn ≠ 0 then kp.close s.fdIn else kp
  let c : Child :=
    { pid := (outcome i).pid, pc := .mk z pa b (.pipe t pcPipe .null) next
      pgid := s.job.processGroupId, fdOut := w, fdIn := s.fdIn, isStderr := e, kernel := kp
      job := s.job }
  let s' : ForkState :=
    { kernel := kc.close w, job := recordChild interactive (outcome i).pid s.job, fdIn := r
      fdPipe := (r, w), isStderr := e, children := s.children ++ [c] }
  have hstage : forkStage A interactive outcome s (.mk z pa b (.pipe t pcPipe .null) next) =
      .ok s' := by
    have hnot : ¬ (outcome i).pid < 0 := by omega
    have hw1 : w ≠ 1 := by omega
    simp [forkStage, hinv.length, firstPipe, hok, hnot, hpipe, hw1, s', c, e, kc]
  have hstart : c.start A openOk = some (moveOut w e (moveIn s.fdIn kp)) :=
    execProcessDescriptors_noFile A openOk (⟨rfl, rfl⟩ : NoFile (.pipe t pcPipe .null)) _ _ _ _
  have hkc : kc = if s.fdIn ≠ 0 then kp.close s.fdIn else kp := rfl
  obtain ⟨hkw, hkr, hkother, hkstamp, hklog⟩ := hp.closeIn hinv hkc
  refine ⟨s', c, hstage, ⟨rfl, rfl, rfl, rfl⟩,
    ⟨_, hstart, fun n hn => hp.stageTable hinv hstd e hn⟩, ?_, ?_⟩
  · -- the shell keeps the read end alone
    refine ⟨by simp [s', hinv.length], hkstamp, Or.inr ⟨by omega, hrgt, hp.read_new.2⟩, ?_, ?_⟩
    · show (kc.close w).get r = _
      rw [Kernel.get_close, if_neg (Ne.symm hwr), hkr, upstream, if_neg (by omega),
        Nat.add_sub_cancel]
    · intro x hxr
      show (kc.close w).get x = _
      rw [Kernel.get_close]
      by_cases hxw : x = w
      · rw [if_pos hxw, hxw, hp.write_new.2]
      · rw [if_neg hxw]
        exact hkother x hxw hxr
  · show (kc.close w).closeLog = _
    rw [Kernel.closeLog_close, hkw, hklog]

end

/-! ### The loop -/

theorem PlainPipeline.stages_pos {pc : Command} (h : PlainPipeline pc) :
    0 < (stages pc).length := by
  cases h <;> simp [stages]

/-- The shell with its children from stage `i` of `n` on, after the loop has run over the
    commands `cmds` from the state `s`. -/
structure Wired (A : FdAlloc OpenFile) (openOk : String → OpenFlags → Bool)
    (outcome : Nat → Outcome) (k : Kernel) (i n : Nat) (cmds : List Command)
    (s s' : ForkState) (cs : List Child) : Prop where
  children : s'.children = s.children ++ cs
  pcs : cs.map Child.pc = cmds
  pids : cs.map Child.pid = (List.range' i cmds.length).map (fun j => (outcome j).pid)
  process : s'.job.process.map Process.processId =
    (cs.map Child.pid).reverse ++ s.job.process.map Process.processId
  tables : ∀ j c, cs[j]? = some c →
    ∃ k', c.start A openOk = some k' ∧ StageTable k (i + j) n k'
  shell : ∀ x, s'.kernel.get x = k.get x
  closes : s'.kernel.closeLog = s.kernel.closeLog ++ (if i = 0 then [] else [upstream k i]) ++
    pipeCloses k i (cmds.length - 1)

/-- **The loop**, from the stage `pc` on, which is the `i`th. -/
theorem forkLoop_spec (A : FdAlloc OpenFile) (interactive : Bool) (outcome : Nat → Outcome)
    (openOk : String → OpenFlags → Bool) {k : Kernel} (hstd : k.StdOpen) {pc : Command}
    (hpc : PlainPipeline pc) {i : Nat} {s : ForkState} (hinv : LoopInv k i s)
    (hok : ∀ j, i ≤ j → j < i + (stages pc).length →
      (outcome j).pipeOk = true ∧ 0 < (outcome j).pid) :
    ∃ s' cs, (stages pc).foldlM (forkStage A interactive outcome) s = .ok s' ∧
      Wired A openOk outcome k i (i + (stages pc).length) (stages pc) s s' cs := by
  induction hpc generalizing i s with
  | last z pa b next =>
    obtain ⟨s', c, hstage, hforked, ⟨k', hstart, htable⟩, hshell, hcloses⟩ :=
      forkStage_last A interactive openOk hinv hstd
        (hok i (by omega) (by simp [stages, stagesBelow])).2 z pa b next
    refine ⟨s', [c], by simp [stages, stagesBelow, hstage], ?_⟩
    refine ⟨hforked.children, by simp [stages, stagesBelow, hforked.childPc],
      by simp [stages, stagesBelow, hforked.childPid], by simp [hforked.process, hforked.childPid],
      ?_, hshell, by simpa [stages, stagesBelow, pipeCloses] using hcloses⟩
    intro j c' hc'
    obtain ⟨rfl, rfl⟩ : j = 0 ∧ c = c' := by cases j <;> simp_all
    exact ⟨k', hstart, by simpa [stages, stagesBelow] using htable⟩
  | pipe z pa b t next hpipe ih =>
    rename_i pcPipe
    have hlen : (stages (.mk z pa b (.pipe t pcPipe .null) next)).length =
        (stages pcPipe).length + 1 := by simp [stages, stagesBelow]
    -- one turn, and the loop over the rest from the state it leaves
    have hpos := hpipe.stages_pos
    obtain ⟨hpipeOk, hpid⟩ := hok i (by omega) (by omega)
    obtain ⟨s₁, c, hstage, hforked, ⟨k', hstart, htable⟩, hinv₁, hcloses⟩ :=
      forkStage_piped A interactive openOk hinv hstd
        hpipeOk hpid z pa b t pcPipe next
    obtain ⟨s', cs, hloop, hw⟩ := ih hinv₁ (fun j h₁ h₂ => hok j (by omega) (by omega))
    have hn : i + 1 + (stages pcPipe).length =
        i + (stages (.mk z pa b (.pipe t pcPipe .null) next)).length := by omega
    refine ⟨s', c :: cs, ?_, ?_, ?_, ?_, ?_, ?_, hw.shell, ?_⟩
    · simp only [stages, stagesBelow, List.foldlM_cons]
      rw [hstage]
      exact hloop
    · rw [hw.children, hforked.children, List.append_assoc]
      rfl
    · simp [stages, stagesBelow, hforked.childPc, hw.pcs]
    · simp [hlen, List.range'_succ, hforked.childPid, hw.pids]
    · simp [hw.process, hforked.process, hforked.childPid]
    · intro j c' hc'
      cases j with
      | zero =>
        obtain rfl : c = c' := by simpa using hc'
        exact ⟨k', hstart, htable _ (by omega)⟩
      | succ j =>
        obtain ⟨k'', hstart', htable'⟩ := hw.tables j c' (by simpa using hc')
        rw [hn, show i + 1 + j = i + (j + 1) by omega] at htable'
        exact ⟨k'', hstart', htable'⟩
    · -- this stage closes its own write end, the next one its read end
      rw [hw.closes, hcloses, hlen, Nat.add_sub_cancel, if_neg (Nat.succ_ne_zero i)]
      obtain ⟨m, hm⟩ := Nat.exists_eq_succ_of_ne_zero (Nat.pos_iff_ne_zero.mp hpos)
      rw [hm, Nat.succ_sub_one]
      simp [pipeCloses, List.range'_succ, upstream]

/-- No `close` of a pipe end happens twice. -/
theorem nodup_pipeCloses (k : Kernel) (i n : Nat) : (pipeCloses k i n).Nodup := by
  unfold pipeCloses
  rw [List.nodup_flatMap]
  refine ⟨fun j _ => by simp [pipeEnd], ?_⟩
  refine (List.nodup_range' (s := i) (n := n)).imp fun {a b} hab => ?_
  simp [Function.onFun, List.disjoint_left, pipeEnd, hab]

section
variable (A : FdAlloc OpenFile) (interactive : Bool) (outcome : Nat → Outcome)
  (openOk : String → OpenFlags → Bool) (uninit : Int × Int) (numJobs : Nat)

/-- The loop of `ExecCommand` over a whole pipeline. -/
theorem execCommandFork_spec {pc : Command} (hpc : PlainPipeline pc) {k : Kernel}
    (hstd : k.StdOpen)
    (hok : ∀ i < (stages pc).length, (outcome i).pipeOk = true ∧ 0 < (outcome i).pid) :
    ∃ s, execCommandFork A interactive outcome uninit numJobs pc k = .ok s ∧
      Wired A openOk outcome k 0 (stages pc).length (stages pc)
        (forkStart uninit numJobs pc k) s s.children := by
  have hinv : LoopInv k 0 (forkStart uninit numJobs pc k) :=
    ⟨rfl, rfl, Or.inl ⟨rfl, rfl⟩, rfl, fun _ _ => rfl⟩
  obtain ⟨s, cs, hloop, hw⟩ := forkLoop_spec A interactive outcome openOk hstd hpc hinv
    (fun j _ h => hok j (by omega))
  obtain rfl : s.children = cs := hw.children
  rw [Nat.zero_add] at hw
  exact ⟨s, hloop, hw⟩

/-- **A pipeline is wired in order.**  The loop forks one child for each stage, records them
    all in the new job, connects each to the next by a pipe, and leaves the shell with the
    descriptors it had: each end of each pipe has been closed once, and no other `close` has
    been made. -/
theorem execCommandFork_wired {pc : Command} (hpc : PlainPipeline pc) {k : Kernel}
    (hstd : k.StdOpen)
    (hok : ∀ i < (stages pc).length, (outcome i).pipeOk = true ∧ 0 < (outcome i).pid) :
    ∃ s, execCommandFork A interactive outcome uninit numJobs pc k = .ok s ∧
      s.children.map Child.pc = stages pc ∧
      s.children.map Child.pid =
        (List.range (stages pc).length).map (fun i => (outcome i).pid) ∧
      s.job.process.map Process.processId = (s.children.map Child.pid).reverse ∧
      (∀ i c, s.children[i]? = some c → ∃ k', c.start A openOk = some k' ∧
        k'.get 0 = upstream k i ∧ k'.get 1 = downstream k i (stages pc).length) ∧
      (∀ x, s.kernel.get x = k.get x) ∧
      s.kernel.closeLog = k.closeLog ++ pipeCloses k 0 ((stages pc).length - 1) ∧
      (pipeCloses k 0 ((stages pc).length - 1)).Nodup := by
  obtain ⟨s, hs, hw⟩ :=
    execCommandFork_spec A interactive outcome openOk uninit numJobs hpc hstd hok
  refine ⟨s, hs, hw.pcs, by rw [hw.pids, List.range_eq_range'], ?_, ?_, hw.shell, ?_,
    nodup_pipeCloses _ _ _⟩
  · simpa [forkStart, newJob] using hw.process
  · intro i c hc
    obtain ⟨k', hstart, htable⟩ := hw.tables i c hc
    rw [Nat.zero_add] at htable
    exact ⟨k', hstart, htable.stdin, htable.stdout⟩
  · simpa [forkStart] using hw.closes

/-- Stage `i` of `n` holds no descriptor of a pipe of the pipeline but 0, for the read end of
    the pipe from the stage before, and 1 and 2, for the write end of the pipe to the next. -/
def OnlyOwnEnds (k : Kernel) (i n : Nat) (k' : Kernel) : Prop :=
  ∀ x d, k'.get x = some d →
    (∃ j, j + 1 < n ∧ (d = pipeEnd k j .pipeRead ∨ d = pipeEnd k j .pipeWrite)) →
    x = 0 ∧ 0 < i ∧ d = pipeEnd k (i - 1) .pipeRead ∨
      (x = 1 ∨ x = 2) ∧ i + 1 < n ∧ d = pipeEnd k i .pipeWrite

/-- An open file from before the pipeline is no end of a pipe of it. -/
theorem ne_pipeEnd {k : Kernel} {x : Int} {d : OpenFile} (h : k.get x = some d) (j : Nat)
    (resource : Resource) : d ≠ pipeEnd k j resource := by
  rintro rfl
  have := k.stamp_lt h
  simp only [pipeEnd] at this
  omega

/-- Which tables have this property. -/
theorem StageTable.onlyOwnEnds_iff {k : Kernel} {i n : Nat} {k' : Kernel} (hi : i < n)
    (h : StageTable k i n k') : OnlyOwnEnds k i n k' ↔ i + 1 = n := by
  have hothers := h.others
  by_cases hlast : i + 1 = n
  · rw [if_pos hlast] at hothers
    refine iff_of_true (fun x d hd hpipe => ?_) hlast
    -- a descriptor that was open before the pipeline refers to no end of it
    have hold : ∀ y, k.get y = some d → False := by
      rintro y hy
      obtain ⟨j, -, rfl | rfl⟩ := hpipe <;> exact ne_pipeEnd hy j _ rfl
    by_cases h0 : x = 0
    · subst h0
      rw [h.stdin, upstream] at hd
      split at hd
      · exact (hold 0 hd).elim
      · exact Or.inl ⟨rfl, by omega, (Option.some.inj hd).symm⟩
    · by_cases h1 : x = 1
      · subst h1
        rw [h.stdout, downstream, if_pos hlast] at hd
        exact (hold 1 hd).elim
      · by_cases h2 : x = 2
        · subst h2
          rcases h.stderr with h2 | ⟨hne, -⟩
          · exact (hold 2 (h2 ▸ hd)).elim
          · exact absurd hlast hne
        · exact (hold x (hothers x h0 h1 h2 ▸ hd)).elim
  · rw [if_neg hlast] at hothers
    -- the read end of its own pipe, above 2, belongs to the stage after
    obtain ⟨r, hr, hread⟩ := hothers
    refine iff_of_false (fun honly => ?_) hlast
    rcases honly r _ hread ⟨i, by omega, Or.inl rfl⟩ with ⟨h0, -⟩ | ⟨h12, -⟩ <;> omega

/-- **Which stages hold only their own ends.**  In every pipeline it is the last stage and no
    other: each stage before it keeps open the read end of the pipe it writes to. -/
theorem stage_onlyOwnEnds_iff {pc : Command} (hpc : PlainPipeline pc) {k : Kernel}
    (hstd : k.StdOpen)
    (hok : ∀ i < (stages pc).length, (outcome i).pipeOk = true ∧ 0 < (outcome i).pid) :
    ∃ s, execCommandFork A interactive outcome uninit numJobs pc k = .ok s ∧
      s.children.length = (stages pc).length ∧
      ∀ i c, s.children[i]? = some c → ∃ k', c.start A openOk = some k' ∧
        (OnlyOwnEnds k i (stages pc).length k' ↔ i + 1 = (stages pc).length) := by
  obtain ⟨s, hs, hw⟩ :=
    execCommandFork_spec A interactive outcome openOk uninit numJobs hpc hstd hok
  have hlen : s.children.length = (stages pc).length := by rw [← hw.pcs, List.length_map]
  refine ⟨s, hs, hlen, fun i c hc => ?_⟩
  obtain ⟨k', hstart, htable⟩ := hw.tables i c hc
  rw [Nat.zero_add] at htable
  have hi : i < (stages pc).length := hlen ▸ (List.getElem?_eq_some_iff.mp hc).1
  exact ⟨k', hstart, htable.onlyOwnEnds_iff hi⟩

end

/-- `yes | head`. -/
def yesHead : Command :=
  .mk "yes" ⟨some "yes", []⟩ false
    (.pipe .PIPE (.mk "head" ⟨some "head", []⟩ false .null .null) .null) .null

theorem yesHead_plain : PlainPipeline yesHead := .pipe _ _ _ _ _ (.last _ _ _ _)

/-- The children get the pids 10, 11, … -/
def yesHeadOutcome (i : Nat) : Outcome := ⟨true, 10 + i, by omega⟩

/-- `yes | head`, with the children 10 and 11. -/
theorem execCommandFork_wired_yesHead :
    ∃ s, execCommandFork FdAlloc.lowest true yesHeadOutcome (0, 0) 0 yesHead
        Kernel.std = .ok s ∧
      s.children.map Child.pid = [10, 11] ∧ (∀ x, s.kernel.get x = Kernel.std.get x) := by
  obtain ⟨s, hs, -, hpids, -, -, hshell, -⟩ :=
    execCommandFork_wired FdAlloc.lowest true yesHeadOutcome (fun _ _ => true) (0, 0) 0
      yesHead_plain (k := Kernel.std) (by unfold Kernel.StdOpen FdTable.StdOpen; decide)
      (fun i _ => ⟨rfl, by simp only [yesHeadOutcome]; omega⟩)
  exact ⟨s, hs, hpids, hshell⟩

/-- The stages of `yes | head` on their own ends. -/
theorem stage_onlyOwnEnds_iff_yesHead :
    ∃ s, execCommandFork FdAlloc.lowest true yesHeadOutcome (0, 0) 0 yesHead
        Kernel.std = .ok s ∧ s.children.length = 2 ∧
      ∀ i c, s.children[i]? = some c → ∃ k', c.start FdAlloc.lowest (fun _ _ => true) = some k' ∧
        (OnlyOwnEnds Kernel.std i 2 k' ↔ i + 1 = 2) :=
  stage_onlyOwnEnds_iff FdAlloc.lowest true yesHeadOutcome (fun _ _ => true) (0, 0) 0
    yesHead_plain (k := Kernel.std) (by unfold Kernel.StdOpen FdTable.StdOpen; decide)
    (fun i _ => ⟨rfl, by simp only [yesHeadOutcome]; omega⟩)

/-- `yes` starts with the read end of its own pipe on descriptor 3, so it gets no error when
    `head` exits. -/
theorem stage_keeps_own_read_end :
    ∃ s c k', execCommandFork FdAlloc.lowest true yesHeadOutcome (0, 0) 0 yesHead
        Kernel.std = .ok s ∧ s.children[0]? = some c ∧
      c.start FdAlloc.lowest (fun _ _ => true) = some k' ∧
      k'.get 3 = some (pipeEnd Kernel.std 0 .pipeRead) ∧ ¬ OnlyOwnEnds Kernel.std 0 2 k' := by
  refine ⟨_, _, _, rfl, rfl, rfl, by decide, ?_⟩
  intro honly
  have := honly 3 (pipeEnd Kernel.std 0 .pipeRead) (by decide) ⟨0, by decide, Or.inl rfl⟩
  revert this
  decide

end OSPortfolio.Ish
