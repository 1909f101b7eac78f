import OSPortfolio.Lib.Descriptors
import OSPortfolio.Ish.Command
import OSPortfolio.Ish.Jobs

namespace OSPortfolio.Ish

open OSPortfolio.Posix

/-!
# Redirections of a program

`func_IORedirection` opens the files of a redirect list and hands three values back through
pointers: a flag for stderr and two descriptors.  Its declaration takes the pointers in the
order flag, input, output; `ExecProcess` (and `ExecCommand`, see `BuiltIn.lean`) pass them in
the order input, output, flag.  The model keeps both orders, so the mix-up is part of it.

* `funcIORedirection` — the function as it is declared, on `RedirVars`;
* `moveIn`, `moveOut` — the `dup2` and `close` steps of `ExecProcess`;
* `execProcessDescriptors` — both, with the pointers as `ExecProcess` passes them: the table
  a program or built-in starts with;
* `StdAsRequested` — what the redirects of a command ask for;
* `execProcessDescriptors_iff` — they get it exactly when the command redirects no file (and
  the descriptors inherited from the pipeline do not collide with 0, 1 and 2).
-/

/-! ### Opening the files -/

/-- The `open` flags of each kind of redirect. -/
def FileType.openFlags : FileType → OpenFlags
  | .REDIRECT_IN => {}
  | .REDIRECT_OUT => { wronly := true, creat := true }
  | .REDIRECT_ERROR => { wronly := true, creat := true }
  | .APPEND => { wronly := true, append := true }
  | .APPEND_ERROR => { wronly := true, append := true }

/-- The kinds of redirect that set `*check_stderror`. -/
def FileType.setsStderror : FileType → Bool
  | .REDIRECT_ERROR => true
  | .APPEND_ERROR => true
  | _ => false

/-- The variables behind the pointers `check_stderror`, `fd_in` and `fd_out` of
    `func_IORedirection`. -/
structure RedirVars where
  checkStderror : Int
  fdIn : Int
  fdOut : Int
  deriving DecidableEq, Repr

section
variable (A : FdAlloc OpenFile) (openOk : String → OpenFlags → Bool)

/-- `func_IORedirection(redir, check_stderror, fd_in, fd_out)`; `openOk` says which files
    open.  After a failed `open` the descriptor of the other direction is closed, if that
    variable holds one. -/
def funcIORedirection : Redirect → RedirVars → Kernel → Ret × RedirVars × Kernel
  | .null, v, k => (.SUCCESS, v, k)
  | .pipe _ _ n, v, k => funcIORedirection n v k
  | .file t f n, v, k =>
    let fd := (k.openFile A (openOk f t.openFlags) f t.openFlags).1
    let k₁ := (k.openFile A (openOk f t.openFlags) f t.openFlags).2
    if t = .REDIRECT_IN then
      -- the variable is set before the test, so it holds -1 on a failure
      let v₁ := { v with fdIn := fd }
      if fd = -1 then (.FAIL, v₁, if v₁.fdOut ≠ -1 then k₁.close v₁.fdOut else k₁)
      else funcIORedirection n v₁ k₁
    else
      let v₁ := { v with
        checkStderror := if t.setsStderror then 1 else v.checkStderror
        fdOut := fd }
      -- the same the other way round: what `*fd_in` holds is closed
      if fd = -1 then (.FAIL, v₁, if v₁.fdIn ≠ -1 then k₁.close v₁.fdIn else k₁)
      else funcIORedirection n v₁ k₁

/-! ### The descriptors of `ExecProcess` -/

/-- `if (fd_in != STDIN_FILENO) { dup2(fd_in, STDIN_FILENO); close(fd_in); }` -/
def moveIn (fdIn : Int) (k : Kernel) : Kernel :=
  if fdIn ≠ 0 then (k.dup2 fdIn 0).close fdIn else k

/-- `if (fd_out != STDOUT_FILENO) { dup2(fd_out, STDOUT_FILENO); close(fd_out); .. }`, with
    the `dup2` onto `STDERR_FILENO` when `is_stderr` is 1. -/
def moveOut (fdOut isStderr : Int) (k : Kernel) : Kernel :=
  if fdOut ≠ 1 then
    if isStderr = 1 then ((k.dup2 fdOut 1).close fdOut).dup2 1 2
    else (k.dup2 fdOut 1).close fdOut
  else k

/-- `ExecProcess` up to `execute process`: `none` when the redirection fails and the process
    exits.  The call passes `&lookup_fd_in` for `check_stderror`, `&lookup_fd_out` for
    `fd_in` and `&lookup_stderr` for `fd_out`. -/
def execProcessDescriptors (redirs : Redirect) (fdOut fdIn isStderr : Int) (k : Kernel) :
    Option Kernel :=
  match funcIORedirection A openOk redirs ⟨-1, -1, 0⟩ k with
  | (.SUCCESS, ⟨lookupFdIn, lookupFdOut, lookupStderr⟩, k₁) =>
    let fdIn := if lookupFdIn ≠ -1 then lookupFdIn else fdIn
    -- before `fd_out` is set, as both are guarded by `lookup_fd_out`
    let isStderr := if lookupFdOut ≠ -1 then lookupStderr else isStderr
    let fdOut := if lookupFdOut ≠ -1 then lookupFdOut else fdOut
    some (moveOut fdOut isStderr (moveIn fdIn k₁))
  | _ => none

end

/-! ### What the redirects ask for -/

/-- A redirect list without file redirects, as the parser builds it: empty, or one pipe. -/
inductive PipeTail : Redirect → Prop
  | null : PipeTail .null
  | pipe (t : PipeType) (c : Command) : PipeTail (.pipe t c .null)

/-- The redirect lists the parser builds: at most one input and one output redirect, in
    either order, and then at most one pipe. -/
inductive ParserBuilt : Redirect → Prop
  | tail {r : Redirect} (h : PipeTail r) : ParserBuilt r
  | input {r : Redirect} (f : String) (h : PipeTail r) : ParserBuilt (.file .REDIRECT_IN f r)
  | output {r : Redirect} (t : FileType) (f : String) (ht : t ≠ .REDIRECT_IN) (h : PipeTail r) :
      ParserBuilt (.file t f r)
  | inputOutput {r : Redirect} (f : String) (t : FileType) (g : String) (ht : t ≠ .REDIRECT_IN)
      (h : PipeTail r) : ParserBuilt (.file .REDIRECT_IN f (.file t g r))
  | outputInput {r : Redirect} (t : FileType) (g : String) (f : String) (ht : t ≠ .REDIRECT_IN)
      (h : PipeTail r) : ParserBuilt (.file t g (.file .REDIRECT_IN f r))

/-- The file of the first `<` redirect. -/
def inputFile : Redirect → Option String
  | .null => none
  | .pipe _ _ n => inputFile n
  | .file t f n => if t = .REDIRECT_IN then some f else inputFile n

/-- The kind and file of the first output redirect. -/
def outputFile : Redirect → Option (FileType × String)
  | .null => none
  | .pipe _ _ n => outputFile n
  | .file t f n => if t = .REDIRECT_IN then outputFile n else some (t, f)

/-- `d` is an open file of `f` made since `k`. -/
def OpenedSince (k : Kernel) (f : String) (d : Option OpenFile) : Prop :=
  ∃ s flag, d = some ⟨s, .file f flag⟩ ∧ k.stamp ≤ s

/-- Descriptor 2 is to follow descriptor 1. -/
def stderrFollows (redirs : Redirect) (fdOut isStderr : Int) : Bool :=
  match outputFile redirs with
  | some (t, _) => t.setsStderror
  | none => fdOut ≠ 1 && isStderr = 1

/-- What a command asks for, with `k` before and `k'` after: its files on 0 and 1, or else
    what `fdIn` and `fdOut` referred to, and 2 on 1 or else unchanged. -/
structure StdAsRequested (redirs : Redirect) (fdIn fdOut isStderr : Int) (k k' : Kernel) :
    Prop where
  stdin : match inputFile redirs with
    | some f => OpenedSince k f (k'.get 0)
    | none => k'.get 0 = k.get fdIn
  stdout : match outputFile redirs with
    | some (_, f) => OpenedSince k f (k'.get 1)
    | none => k'.get 1 = k.get fdOut
  stderr : if stderrFollows redirs fdOut isStderr then k'.get 2 = k'.get 1
    else k'.get 2 = k.get 2

/-- The inherited descriptors do not collide with 0, 1 and 2, nor with each other, in a way
    that the `dup2` and `close` steps destroy. -/
def PairSafe (k : Kernel) (fdIn fdOut isStderr : Int) : Prop :=
  fdOut ≠ 0 ∧ (fdOut = 1 → fdIn ≠ 1 ∧ fdIn ≠ 2) ∧
    (fdOut ≠ 1 → isStderr ≠ 1 → fdIn ≠ 2 ∧ fdOut ≠ 2) ∧
    (fdOut ≠ 1 → fdIn = fdOut → k.get 1 = k.get fdOut)

/-- The command redirects no file. -/
def NoFile (redirs : Redirect) : Prop :=
  inputFile redirs = none ∧ outputFile redirs = none

/-! ### The moves, descriptor by descriptor -/

/-- The descriptors once the input is moved to 0. -/
theorem get_moveIn {fdIn : Int} {k : Kernel} {d : OpenFile} (h : k.get fdIn = some d) (x : Int) :
    (moveIn fdIn k).get x =
      if fdIn = 0 then k.get x else if x = fdIn then none
      else if x = 0 then some d else k.get x := by
  unfold moveIn
  by_cases h0 : fdIn = 0
  · simp [h0]
  · simp [h0, Kernel.get_dup2 k 0 h]

/-- With a closed descriptor `moveIn` changes nothing that can be read. -/
theorem get_moveIn_closed {fdIn : Int} {k : Kernel} (h : k.get fdIn = none) (x : Int) :
    (moveIn fdIn k).get x = k.get x := by
  unfold moveIn
  split
  · rw [Kernel.dup2_closed k 0 h, Kernel.get_close]
    split
    · subst x; exact h.symm
    · rfl
  · rfl

/-- With a closed descriptor other than 1, `moveOut` only lets 2 follow 1. -/
theorem get_moveOut_closed {fdOut isStderr : Int} {k : Kernel} (hne : fdOut ≠ 1)
    (h : k.get fdOut = none) (x : Int) :
    (moveOut fdOut isStderr k).get x =
      if isStderr = 1 ∧ x = 2 ∧ (k.get 1).isSome then k.get 1 else k.get x := by
  -- the `dup2` and the `close` both fail
  have hclose : ∀ y, ((k.dup2 fdOut 1).close fdOut).get y = k.get y := by
    intro y
    rw [Kernel.dup2_closed k 1 h, Kernel.get_close]
    split
    · subst y; exact h.symm
    · rfl
  unfold moveOut
  rw [if_pos hne]
  by_cases he : isStderr = 1
  · rw [if_pos he]
    cases h1 : k.get 1 with
    | none =>
      rw [Kernel.dup2_closed _ 2 ((hclose 1).trans h1), hclose]
      simp
    | some d =>
      rw [Kernel.get_dup2 _ 2 ((hclose 1).trans h1), hclose]
      by_cases hx : x = 2 <;> simp [hx, he]
  · rw [if_neg he, hclose]
    simp [he]

/-- The descriptors once the output is moved to 1, and to 2 with the flag. -/
theorem get_moveOut {fdOut isStderr : Int} {k : Kernel} {d : OpenFile} (hne : fdOut ≠ 1)
    (h : k.get fdOut = some d) (x : Int) :
    (moveOut fdOut isStderr k).get x =
      if isStderr = 1 ∧ x = 2 then some d
      else if x = fdOut then none else if x = 1 then some d else k.get x := by
  have hclose : ∀ y, ((k.dup2 fdOut 1).close fdOut).get y =
      if y = fdOut then none else if y = 1 then some d else k.get y := by
    intro y
    simp [Kernel.get_dup2 k 1 h]
  unfold moveOut
  rw [if_pos hne]
  by_cases he : isStderr = 1
  · have h1 : ((k.dup2 fdOut 1).close fdOut).get 1 = some d := by
      rw [hclose, if_neg (Ne.symm hne), if_pos rfl]
    rw [if_pos he, Kernel.get_dup2 _ 2 h1, hclose]
    -- after the move 1 refers to `d`, and 2 is made to follow it
    by_cases hx : x = 2 <;> simp [hx, he]
  · rw [if_neg he, hclose]
    simp [he]

/-- What `moveIn` leaves on a descriptor was there before, or came from `fdIn`. -/
theorem get_moveIn_source (fdIn : Int) (k : Kernel) (x : Int) :
    (moveIn fdIn k).get x = none ∨ (moveIn fdIn k).get x = k.get x ∨
      x = 0 ∧ (moveIn fdIn k).get x = k.get fdIn := by
  cases h : k.get fdIn with
  | none => exact Or.inr (Or.inl (get_moveIn_closed h x))
  | some d =>
    rw [get_moveIn h]
    split
    · exact Or.inr (Or.inl rfl)
    · split
      · exact Or.inl rfl
      · split
        · rename_i hx; exact Or.inr (Or.inr ⟨hx, rfl⟩)
        · exact Or.inr (Or.inl rfl)

/-- What `moveOut` leaves on 0 or 1 was there before, or came from `fdOut`. -/
theorem get_moveOut_source (fdOut isStderr : Int) (k : Kernel) {x : Int} (hx : x ≠ 2) :
    (moveOut fdOut isStderr k).get x = none ∨ (moveOut fdOut isStderr k).get x = k.get x ∨
      x = 1 ∧ (moveOut fdOut isStderr k).get x = k.get fdOut := by
  by_cases hne : fdOut = 1
  · exact Or.inr (Or.inl (by simp [moveOut, hne]))
  · cases h : k.get fdOut with
    | none =>
      rw [get_moveOut_closed hne h, if_neg (by tauto)]
      exact Or.inr (Or.inl rfl)
    | some d =>
      rw [get_moveOut hne h, if_neg (by tauto)]
      split
      · exact Or.inl rfl
      · split
        · rename_i hx; exact Or.inr (Or.inr ⟨hx, rfl⟩)
        · exact Or.inr (Or.inl rfl)

/-- An open file that was there before was not opened since. -/
theorem not_openedSince {k : Kernel} {f : String} {d : Option OpenFile} {x : Int}
    (h : d = none ∨ d = k.get x) : ¬ OpenedSince k f d := by
  rintro ⟨s, flag, hd, hs⟩
  rcases h with rfl | rfl
  · exact absurd hd (by simp)
  · have := k.stamp_lt hd
    exact absurd hs (by simpa using this)

/-! ### The moves for an inherited pair -/

theorem moves_one_iff {k : Kernel} {fdIn e : Int} {dIn dOut : OpenFile}
    (hin : k.get fdIn = some dIn) (hout : k.get 1 = some dOut) :
    ((moveIn fdIn k).get 0 = some dIn ∧ (moveIn fdIn k).get 1 = some dOut ∧
        (moveIn fdIn k).get 2 = k.get 2) ↔ PairSafe k fdIn 1 e := by
  simp only [get_moveIn hin, PairSafe]
  by_cases h0 : fdIn = 0
  · subst h0; simp [hin, hout]
  -- `fd_in` is closed after its move: an output on that descriptor is lost
  · by_cases h1 : fdIn = 1
    · subst h1; simp
    · by_cases h2 : fdIn = 2
      · subst h2; simp [hin]
      · simp [h0, h1, h2, hout, Ne.symm h0, Ne.symm h1, Ne.symm h2]

theorem moves_ne_iff {k : Kernel} {fdIn fdOut e : Int} {dIn dOut : OpenFile}
    (hin : k.get fdIn = some dIn) (hout : k.get fdOut = some dOut) (hne : fdOut ≠ 1) :
    ((moveOut fdOut e (moveIn fdIn k)).get 0 = some dIn ∧
        (moveOut fdOut e (moveIn fdIn k)).get 1 = some dOut ∧
        if e = 1 then
          (moveOut fdOut e (moveIn fdIn k)).get 2 = (moveOut fdOut e (moveIn fdIn k)).get 1
        else (moveOut fdOut e (moveIn fdIn k)).get 2 = k.get 2) ↔ PairSafe k fdIn fdOut e := by
  -- moving `fd_out` from 0 to 1 closes 0, and the program has no standard input
  by_cases h0 : fdOut = 0
  · have hopen : ∃ d, (moveIn fdIn k).get fdOut = some d := by
      rw [get_moveIn hin]
      subst h0
      by_cases hi : fdIn = 0
      · subst hi; exact ⟨_, by simp [hin]; rfl⟩
      · exact ⟨dIn, by simp [hi, Ne.symm hi]⟩
    obtain ⟨d, hd⟩ := hopen
    subst h0
    simp [get_moveOut hne hd, PairSafe]
  -- moving `fd_in` has closed `fd_out`, so 1 keeps what it referred to
  · by_cases hsame : fdIn = fdOut
    · subst hsame
      obtain rfl : dIn = dOut := Option.some.inj (hin.symm.trans hout)
      have hclosed : (moveIn fdIn k).get fdIn = none := by simp [get_moveIn hin, h0]
      simp only [get_moveOut_closed hne hclosed, get_moveIn hin, PairSafe]
      by_cases h2 : fdIn = 2
      · subst h2
        by_cases he : e = 1
        · cases k.get 1 <;> simp [he, hin]
        · simp [he, hin]
      · by_cases he : e = 1
        · cases k.get 1 <;> simp [he, hin, h0, hne, h2, Ne.symm h0, Ne.symm hne, Ne.symm h2]
        · simp [he, hin, h0, hne, h2, Ne.symm h0, Ne.symm hne, Ne.symm h2]
    · have hopen : (moveIn fdIn k).get fdOut = some dOut := by
        rw [get_moveIn hin]
        simp [h0, Ne.symm hsame, hout]
      -- both moves take place; 2 may be one of the two descriptors that they close
      simp only [get_moveOut hne hopen, get_moveIn hin, PairSafe]
      by_cases h2 : fdOut = 2
      · subst h2
        by_cases he : e = 1
        · by_cases hi : fdIn = 0
          · subst hi; simp [he, hin]
          · simp [he, hi, hsame, Ne.symm hi]
        · simp [he, hout]
      · by_cases hi : fdIn = 0
        · subst hi
          by_cases he : e = 1 <;>
            simp [he, hin, hsame, h0, hne, h2, Ne.symm hne, Ne.symm h2]
        · by_cases hi2 : fdIn = 2
          · subst hi2
            by_cases he : e = 1 <;>
              simp [he, hin, hsame, hne, h0, Ne.symm h0, Ne.symm hne]
          · by_cases he : e = 1 <;>
              simp [he, hne, h0, h2, hi, hi2, hsame, Ne.symm h0, Ne.symm hne, Ne.symm h2,
                Ne.symm hi, Ne.symm hi2]

/-! ### A whole redirection -/

variable (A : FdAlloc OpenFile)

/-- Without files nothing is opened. -/
theorem funcIORedirection_noFile (openOk : String → OpenFlags → Bool) {r : Redirect}
    (h : NoFile r) (v : RedirVars) (k : Kernel) :
    funcIORedirection A openOk r v k = (.SUCCESS, v, k) := by
  induction r using Redirect.nextInduction with
  | null => rfl
  | pipe _ _ n ih => exact ih h
  | file t f n _ =>
    obtain ⟨hin, hout⟩ := h
    simp only [inputFile, outputFile] at hin hout
    split at hin
    · exact absurd hin (by simp)
    · rename_i ht; simp [ht] at hout

/-- **If every file can be opened**, the descriptors that were open stay what they are. -/
theorem funcIORedirection_opens (hA : ∀ T, 2 < A.next T) (r : Redirect) (v : RedirVars)
    (k : Kernel) :
    ∃ v' k', funcIORedirection A (fun _ _ => true) r v k = (.SUCCESS, v', k') ∧
      (∀ x d, k.get x = some d → k'.get x = some d) ∧ (∀ x ≤ 2, k'.get x = k.get x) ∧
      (v'.checkStderror = v.checkStderror ∨ v'.checkStderror = 1) ∧
      (inputFile r = none → v'.fdIn = v.fdIn) := by
  induction r using Redirect.nextInduction generalizing v k with
  | null => exact ⟨v, k, rfl, fun _ _ h => h, fun _ _ => rfl, Or.inl rfl, fun _ => rfl⟩
  | pipe _ _ n ih => exact ih v k
  | file t f n ih =>
    have hnew := hA k.fds
    have hkeep : ∀ x d, k.get x = some d →
        (k.install (A.next k.fds) ⟨k.stamp, .file f t.openFlags⟩).get x = some d := by
      intro x d hx
      rw [Kernel.get_install, if_neg (Ne.symm (Kernel.next_ne A hx)), hx]
    have hlow : ∀ x : Int, x ≤ 2 →
        (k.install (A.next k.fds) ⟨k.stamp, .file f t.openFlags⟩).get x = k.get x := by
      intro x hx
      rw [Kernel.get_install, if_neg (by omega)]
    -- the new descriptor is not the -1 of a failed `open`
    have hfd : (A.next k.fds : Int) ≠ -1 := by omega
    by_cases ht : t = .REDIRECT_IN
    · obtain ⟨v', k', heq, hk, hl, hc, -⟩ := ih
        { v with fdIn := A.next k.fds } (k.install (A.next k.fds) ⟨k.stamp, .file f t.openFlags⟩)
      refine ⟨v', k', ?_, fun x d hx => hk x d (hkeep x d hx),
        fun x hx => (hl x hx).trans (hlow x hx), hc, ?_⟩
      · simp only [funcIORedirection, Kernel.openFile, if_true, ht, hfd, if_false]
        rw [ht] at heq
        exact heq
      · simp [inputFile, ht]
    · obtain ⟨v', k', heq, hk, hl, hc, hi⟩ := ih
        { v with
          checkStderror := if t.setsStderror then 1 else v.checkStderror
          fdOut := A.next k.fds } (k.install (A.next k.fds) ⟨k.stamp, .file f t.openFlags⟩)
      refine ⟨v', k', ?_, fun x d hx => hk x d (hkeep x d hx),
        fun x hx => (hl x hx).trans (hlow x hx), ?_, ?_⟩
      · simp only [funcIORedirection, Kernel.openFile, if_true, ht, hfd, if_false]
        exact heq
      · rcases hc with hc | hc
        · by_cases hs : t.setsStderror <;> simp [hs] at hc
          · exact Or.inr hc
          · exact Or.inl hc
        · exact Or.inr hc
      · intro hnone
        rw [inputFile, if_neg ht] at hnone
        exact hi hnone

/-- `ExecProcess` for a command without file redirects. -/
theorem execProcessDescriptors_noFile (openOk : String → OpenFlags → Bool) {redirs : Redirect}
    (h : NoFile redirs) (fdOut fdIn isStderr : Int) (k : Kernel) :
    execProcessDescriptors A openOk redirs fdOut fdIn isStderr k =
      some (moveOut fdOut isStderr (moveIn fdIn k)) := by
  simp [execProcessDescriptors, funcIORedirection_noFile A openOk h]

/-- The pairs that the fork loop of `ExecCommand` hands over are safe. -/
theorem PairSafe.of_pipeline {k : Kernel} {fdIn fdOut isStderr : Int}
    (hin : fdIn = 0 ∨ 2 < fdIn) (hout : fdOut = 1 ∨ 2 < fdOut) (hne : fdIn ≠ fdOut) :
    PairSafe k fdIn fdOut isStderr := by
  refine ⟨by omega, fun _ => by omega, fun _ _ => by omega, fun _ h => absurd h hne⟩

/-- Behind the move of `fd_in` an old descriptor is still not a file opened since: what is moved
    is the caller's `fd_in` or descriptor 1, and both are old. -/
theorem not_openedSince_moveIn {k k₁ : Kernel} {f : String} {fdIn check : Int}
    (hin : k₁.get fdIn = k.get fdIn) (hone : k₁.get 1 = k.get 1)
    (hcheck : check = -1 ∨ check = 1) {x : Int} (hx : k₁.get x = k.get x) :
    ¬ OpenedSince k f ((moveIn (if check ≠ -1 then check else fdIn) k₁).get x) := by
  rcases get_moveIn_source (if check ≠ -1 then check else fdIn) k₁ x with h | h | ⟨-, h⟩
  · exact not_openedSince (x := 0) (Or.inl h)
  · exact not_openedSince (x := x) (Or.inr (h.trans hx))
  · rcases hcheck with hc | hc
    · rw [hc, if_neg (by simp)] at h ⊢
      exact not_openedSince (x := fdIn) (Or.inr (h.trans hin))
    · rw [hc, if_pos (by decide)] at h ⊢
      exact not_openedSince (x := 1) (Or.inr (h.trans hone))

/-- Descriptor 0 is never a file that a redirect of the command opened. -/
theorem not_stdin_openedSince (hA : ∀ T, 2 < A.next T) {redirs : Redirect} {f : String}
    {fdIn fdOut isStderr : Int} {k k' : Kernel} (hin : (k.get fdIn).isSome)
    (h : execProcessDescriptors A (fun _ _ => true) redirs fdOut fdIn isStderr k = some k') :
    ¬ OpenedSince k f (k'.get 0) := by
  obtain ⟨dIn, hin⟩ := Option.isSome_iff_exists.mp hin
  obtain ⟨v, k₁, heq, hkeep, hlow, hcheck, -⟩ :=
    funcIORedirection_opens A hA redirs ⟨-1, -1, 0⟩ k
  simp only [execProcessDescriptors, heq, Option.some.injEq] at h
  subst h
  have hold : k₁.get fdIn = k.get fdIn := (hkeep fdIn dIn hin).trans hin.symm
  -- descriptor 0 comes from 0 or from `fd_in`, which is the caller's or 1: all older
  rcases get_moveOut_source _ _ _ (x := 0) (by decide) with h | h | ⟨h, -⟩
  · exact not_openedSince (x := 0) (Or.inl h)
  · rw [h]
    exact not_openedSince_moveIn hold (hlow 1 (by decide)) hcheck (hlow 0 (by decide))
  · exact absurd h (by decide)

/-- Without an input redirect, descriptor 1 is not a file that a redirect opened either. -/
theorem not_stdout_openedSince (hA : ∀ T, 2 < A.next T) {redirs : Redirect} {f : String}
    (hnone : inputFile redirs = none) {fdIn fdOut isStderr : Int} {k k' : Kernel}
    (hin : (k.get fdIn).isSome) (hout : (k.get fdOut).isSome)
    (h : execProcessDescriptors A (fun _ _ => true) redirs fdOut fdIn isStderr k = some k') :
    ¬ OpenedSince k f (k'.get 1) := by
  obtain ⟨dIn, hin⟩ := Option.isSome_iff_exists.mp hin
  obtain ⟨dOut, hout⟩ := Option.isSome_iff_exists.mp hout
  obtain ⟨v, k₁, heq, hkeep, hlow, hcheck, hfd⟩ :=
    funcIORedirection_opens A hA redirs ⟨-1, -1, 0⟩ k
  simp only [execProcessDescriptors, heq, Option.some.injEq] at h
  subst h
  rw [hfd hnone]
  simp only [ne_eq, not_true_eq_false, if_false]
  -- descriptor 1 comes from 1, `fdOut` or (when `fdOut` is 0) from `fd_in`: all older
  have hold : ∀ x d, k.get x = some d → k₁.get x = k.get x := fun x d hx =>
    (hkeep x d hx).trans hx.symm
  rcases get_moveOut_source fdOut isStderr
      (moveIn (if v.checkStderror ≠ -1 then v.checkStderror else fdIn) k₁) (x := 1) (by decide)
    with h | h | ⟨-, h⟩
  · exact not_openedSince (x := 0) (Or.inl h)
  · rw [h]
    exact not_openedSince_moveIn (hold fdIn dIn hin) (hlow 1 (by decide)) hcheck
      (hlow 1 (by decide))
  · rw [h]
    exact not_openedSince_moveIn (hold fdIn dIn hin) (hlow 1 (by decide)) hcheck
      (hold fdOut dOut hout)

/-- **The descriptors of a program, exactly.**  When every named file opens, a program starts
    with the descriptors its command asks for exactly when the command redirects no file and
    the inherited pair is safe: the files of a `<`, `>`, `>>`, `>&` or `>>&` redirect never
    get where they were asked for. -/
theorem execProcessDescriptors_iff (hA : ∀ T, 2 < A.next T) (redirs : Redirect)
    (fdIn fdOut isStderr : Int) (k : Kernel) (hin : (k.get fdIn).isSome)
    (hout : (k.get fdOut).isSome) :
    (∃ k', execProcessDescriptors A (fun _ _ => true) redirs fdOut fdIn isStderr k = some k' ∧
        StdAsRequested redirs fdIn fdOut isStderr k k') ↔
      NoFile redirs ∧ PairSafe k fdIn fdOut isStderr := by
  by_cases hno : NoFile redirs
  · rw [execProcessDescriptors_noFile A _ hno]
    obtain ⟨dIn, hin⟩ := Option.isSome_iff_exists.mp hin
    obtain ⟨dOut, hout⟩ := Option.isSome_iff_exists.mp hout
    have hstd : ∀ k', StdAsRequested redirs fdIn fdOut isStderr k k' ↔
        k'.get 0 = some dIn ∧ k'.get 1 = some dOut ∧
          if fdOut ≠ 1 ∧ isStderr = 1 then k'.get 2 = k'.get 1 else k'.get 2 = k.get 2 := by
      intro k'
      constructor
      · rintro ⟨h0, h1, h2⟩
        rw [hno.1] at h0
        rw [hno.2] at h1
        simp only [stderrFollows, hno.2, Bool.and_eq_true, decide_eq_true_eq] at h2
        exact ⟨h0.trans hin, h1.trans hout, h2⟩
      · rintro ⟨h0, h1, h2⟩
        refine ⟨?_, ?_, ?_⟩
        · rw [hno.1]; exact h0.trans hin.symm
        · rw [hno.2]; exact h1.trans hout.symm
        · simpa only [stderrFollows, hno.2, Bool.and_eq_true, decide_eq_true_eq] using h2
    simp only [Option.some.injEq, exists_eq_left', hstd, hno, true_and]
    by_cases h1 : fdOut = 1
    · subst h1
      simpa [moveOut] using moves_one_iff (e := isStderr) hin hout
    · simpa [h1] using moves_ne_iff (e := isStderr) hin hout h1
  · refine ⟨?_, fun h => absurd h.1 hno⟩
    rintro ⟨k', hk', hreq⟩
    exfalso
    -- with a `<` it is descriptor 0 that has the wrong file, and else descriptor 1
    cases hf : inputFile redirs with
    | some f =>
      have h0 := hreq.stdin
      rw [hf] at h0
      exact not_stdin_openedSince A hA hin hk' h0
    | none =>
      have h1 := hreq.stdout
      cases hg : outputFile redirs with
      | none => exact hno ⟨hf, hg⟩
      | some g =>
        rw [hg] at h1
        exact not_stdout_openedSince A hA hf hin hout hk' h1

/-- A shell that has made two pipes: 3 and 4, 5 and 6. -/
def twoPipes : Kernel :=
  (Kernel.pipe FdAlloc.lowestAboveStd (Kernel.pipe FdAlloc.lowestAboveStd Kernel.std).2.2).2.2

/-- A command without redirects between two pipes, behind `|&`. -/
theorem execProcessDescriptors_iff_std :
    ∃ k', execProcessDescriptors FdAlloc.lowestAboveStd (fun _ _ => true) .null 6 3 1
        twoPipes = some k' ∧ StdAsRequested .null 3 6 1 twoPipes k' :=
  (execProcessDescriptors_iff FdAlloc.lowestAboveStd (fun T => T.lowestFrom_ge 3) .null 3 6 1
    twoPipes (by decide) (by decide)).mpr
    ⟨⟨rfl, rfl⟩, PairSafe.of_pipeline (Or.inr (by decide)) (Or.inr (by decide)) (by decide)⟩

/-- `cat < in`: the file is opened, and then put on descriptor 1. -/
theorem execProcessDescriptors_input_on_stdout :
    (¬ ∃ k', execProcessDescriptors FdAlloc.lowestAboveStd (fun _ _ => true)
        (.file .REDIRECT_IN "in" .null) 1 0 0 Kernel.std = some k' ∧
      StdAsRequested (.file .REDIRECT_IN "in" .null) 0 1 0 Kernel.std k') ∧
    (execProcessDescriptors FdAlloc.lowestAboveStd (fun _ _ => true)
        (.file .REDIRECT_IN "in" .null) 1 0 0 Kernel.std).map (fun k' => (k'.get 0, k'.get 1)) =
      some (some ⟨0, .inherited⟩, some ⟨3, .file "in" {}⟩) := by
  have hget : (execProcessDescriptors FdAlloc.lowestAboveStd (fun _ _ => true)
      (.file .REDIRECT_IN "in" .null) 1 0 0 Kernel.std).map (fun k' => (k'.get 0, k'.get 1)) =
        some (some ⟨0, .inherited⟩, some ⟨3, .file "in" {}⟩) := by decide
  refine ⟨?_, hget⟩
  rintro ⟨k', hk', hreq⟩
  rw [hk', Option.map_some, Option.some.injEq, Prod.mk.injEq] at hget
  obtain ⟨s, flag, h0, -⟩ := hreq.stdin
  rw [hget.1] at h0
  exact absurd h0 (by simp)

end OSPortfolio.Ish
