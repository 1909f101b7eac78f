import OSPortfolio.Ish.Redirection

namespace OSPortfolio.Ish

open OSPortfolio.Posix

/-!
# Redirections of a built-in run by the shell itself

A built-in that is neither in a pipeline nor in the background runs inside the shell, so
`ExecCommand` saves the shell's standard descriptors, installs the redirects, runs the
built-in, and puts everything back.  It calls `func_IORedirection` with the pointers in the
same wrong order as `ExecProcess` does, which is why descriptors leak or get lost:

* `checkPipelineAmbiguity`, `checkBuiltInCommands` — the tests in front of that branch;
* `execBuiltIn` — the branch, with the result of `ExecuteBuiltInComds` as a parameter (no
  built-in opens or closes a descriptor);
* `isSome_aroundBuiltIn` — a descriptor that is open behind the redirection stays open, up to
  the one that `fd_out` holds;
* `execBuiltIn_restores_iff` — the shell's descriptors are as before exactly when no leading
  `<` fails to open and no output redirect comes through with every file open; where some of
  0, 1 and 2 were closed before, the condition says which of them matter.
-/

/-! ### The tests in front of the branch -/

mutual

/-- The loop of `CheckPipelineAmbiguity`, with `*is_pipe` and `is_redir_out`: the value of
    `*is_pipe`, or the message it prints when it returns `FAIL`. -/
def checkRedirects : Redirect → Bool → Bool → Except String Bool
  | .null, isPipe, _ => .ok isPipe
  | .pipe _ c _, _, isRedirOut =>
    if isRedirOut then .error "ambiguous output redirect.\n" else checkBelow c true isRedirOut
  | .file t _ n, isPipe, isRedirOut =>
    -- `REDIRECT_ERROR` is tested in the place of an input redirect here
    if t = .REDIRECT_IN ∨ t = .REDIRECT_ERROR then
      if isPipe then .error "Ambiguous input redirect.\n" else checkRedirects n isPipe isRedirOut
    -- any other redirect to a file sets `is_redir_out`, and the walk goes on behind it
    else checkRedirects n isPipe true

/-- The step `redir = redir->u.pcPipe->prRedirects`. -/
def checkBelow : Command → Bool → Bool → Except String Bool
  | .null, isPipe, _ => .ok isPipe
  | .mk _ _ _ r _, isPipe, isRedirOut => checkRedirects r isPipe isRedirOut

end

/-- `CheckPipelineAmbiguity(pc, &is_pipe)` with `is_pipe` 0 before the call. -/
def checkPipelineAmbiguity (pc : Command) : Except String Bool :=
  checkRedirects pc.prRedirects false false

/-- `CheckBuiltInCommands(pc)`. -/
def checkBuiltInCommands (pc : Command) : Bool :=
  pc.zCmd ∈ ["alias", "unalias", "unsetenv", "cd", "setenv", "quit", "bg", "fg", "jobs", "kill"]

/-- The redirect list has a pipe in it. -/
def hasPipe : Redirect → Bool
  | .null => false
  | .pipe _ _ _ => true
  | .file _ _ n => hasPipe n

/-- Without a pipe in it, a redirect list is never ambiguous. -/
theorem checkRedirects_noPipe (r : Redirect) (isRedirOut : Bool) (h : hasPipe r = false) :
    checkRedirects r false isRedirOut = .ok false := by
  induction r using Redirect.nextInduction generalizing isRedirOut with
  | null => rfl
  | pipe t c n _ => exact absurd h (by simp [hasPipe])
  | file t f n ih =>
    rw [hasPipe] at h
    rw [checkRedirects]
    split
    · rw [if_neg (by simp)]
      exact ih isRedirOut h
    · exact ih true h

mutual

/-- Behind a pipe `*is_pipe` stays set. -/
theorem checkRedirects_isPipe {isRedirOut p : Bool} :
    ∀ {r : Redirect}, checkRedirects r true isRedirOut = .ok p → p = true
  | .null, h => (Except.ok.inj h).symm
  | .file t _ n, h => by
    rw [checkRedirects] at h
    split at h
    · rw [if_pos rfl] at h
      exact absurd h (by simp)
    · exact checkRedirects_isPipe h
  | .pipe _ c _, h => by
    rw [checkRedirects] at h
    split at h
    · exact absurd h (by simp)
    · exact checkBelow_isPipe h

/-- Below a pipe the answer is that there is one. -/
theorem checkBelow_isPipe {isRedirOut p : Bool} :
    ∀ {c : Command}, checkBelow c true isRedirOut = .ok p → p = true
  | .null, h => (Except.ok.inj h).symm
  | .mk _ _ _ r _, h => checkRedirects_isPipe (r := r) (by rwa [checkBelow] at h)

end

/-- The test finds the pipe of a list that has one. -/
theorem checkRedirects_hasPipe {r : Redirect} {isRedirOut p : Bool} (hpipe : hasPipe r = true)
    (h : checkRedirects r false isRedirOut = .ok p) : p = true := by
  induction r using Redirect.nextInduction generalizing isRedirOut with
  | null => exact absurd hpipe (by simp [hasPipe])
  | pipe t c n _ =>
    rw [checkRedirects] at h
    split at h
    · exact absurd h (by simp)
    · exact checkBelow_isPipe h
  | file t f n ih =>
    rw [hasPipe] at hpipe
    rw [checkRedirects] at h
    split at h
    · rw [if_neg (by simp)] at h
      exact ih hpipe h
    · exact ih hpipe h

/-- Without a pipe there is no next stage. -/
theorem nextPipelineRedirect_noPipe {r : Redirect} (h : hasPipe r = false) :
    nextPipelineRedirect r = .null := by
  induction r using Redirect.nextInduction with
  | null => rfl
  | pipe t c n _ => exact absurd h (by simp [hasPipe])
  | file t f n ih => exact ih h

/-- A command without a pipe has no further stage. -/
theorem nextPipelineCommand_of_noPipe {pc : Command}
    (hok : checkPipelineAmbiguity pc = .ok false) : nextPipelineCommand pc = .null := by
  cases hpipe : hasPipe pc.prRedirects with
  | false => exact nextPipelineRedirect_noPipe hpipe
  | true => exact absurd (checkRedirects_hasPipe hpipe hok) (by simp)

/-! ### The branch -/

/-- The two conditional moves of the branch, which test for -1 where `ExecProcess` tests
    for the standard descriptor. -/
def moveBuiltIn (fdIn fdOut isStderr : Int) (k : Kernel) : Kernel :=
  let k := if fdIn ≠ -1 then (k.dup2 fdIn 0).close fdIn else k
  if fdOut ≠ -1 then
    if isStderr = 1 then ((k.dup2 fdOut 1).close fdOut).dup2 1 2
    else (k.dup2 fdOut 1).close fdOut
  else k

/-- Put the saved standard descriptors back. -/
def restoreStd (savedStdin savedStdout savedStderr : Int) (k : Kernel) : Kernel :=
  let k := (k.dup2 savedStdin 0).close savedStdin
  let k := (k.dup2 savedStdout 1).close savedStdout
  (k.dup2 savedStderr 2).close savedStderr

section
variable (A : FdAlloc OpenFile) (openOk : String → OpenFlags → Bool)

/-- Save the standard descriptors: the copies of 1, 0 and 2, in the order of the calls. -/
def saveStd (k : Kernel) : (Int × Int × Int) × Kernel :=
  let (savedStdout, k) := k.dup A 1
  let (savedStdin, k) := k.dup A 0
  let (savedStderr, k) := k.dup A 2
  ((savedStdout, savedStdin, savedStderr), k)

/-- The branch of `ExecCommand` for a built-in of the shell; `ret` is what
    `ExecuteBuiltInComds` returns.  The call passes `&fd_in` for `check_stderror`, `&fd_out`
    for `fd_in` and `&is_stderr` for `fd_out`. -/
def execBuiltIn (redirs : Redirect) (ret : Ret) (k : Kernel) : Ret × Kernel :=
  match funcIORedirection A openOk redirs ⟨-1, -1, 0⟩ k with
  | (.SUCCESS, ⟨fdIn, fdOut, isStderr⟩, k₁) =>
    let ((savedStdout, savedStdin, savedStderr), k₂) := saveStd A k₁
    (ret, restoreStd savedStdin savedStdout savedStderr (moveBuiltIn fdIn fdOut isStderr k₂))
  | (r, _, k₁) => (r, k₁)

/-- `ExecCommand` down to the comment `performing execve()`: what it returns there, if it
    does not go on to fork. -/
def execCommandInShell (pc : Command) (ret : Ret) (k : Kernel) : Option (Ret × Kernel) :=
  match checkPipelineAmbiguity pc with
  | .error _ => some (.FAIL, k)
  | .ok isPipe =>
    if isPipe = false ∧ pc.fBackground = false ∧ checkBuiltInCommands pc = true then
      some (execBuiltIn A openOk pc.prRedirects ret k)
    else none

end

/-! ### What the branch should leave -/

/-- The standard descriptors refer to what they did, and the same descriptors are open. -/
structure DescriptorsRestored (k k' : Kernel) : Prop where
  std : ∀ fd, fd = 0 ∨ fd = 1 ∨ fd = 2 → k'.get fd = k.get fd
  sameOpen : ∀ fd, (k'.get fd).isSome = (k.get fd).isSome

/-- The first redirect is a `<` whose file does not open. -/
def leadingInputFails (openOk : String → OpenFlags → Bool) : Redirect → Bool
  | .file .REDIRECT_IN f _ => !openOk f FileType.REDIRECT_IN.openFlags
  | _ => false

/-- Every file of the redirect list opens. -/
def allOpen (openOk : String → OpenFlags → Bool) : Redirect → Bool
  | .null => true
  | .pipe _ _ n => allOpen openOk n
  | .file t f n => openOk f t.openFlags && allOpen openOk n

/-- What the branch needs of the redirects and of the table before it: descriptor 0 is closed
    where a leading `<` fails, and where every file opens no output is redirected, an input
    redirect finds 0, 1 and 2 open, and 2 is open if 1 is. -/
structure RestoresGuard (openOk : String → OpenFlags → Bool) (redirs : Redirect) (k : Kernel) :
    Prop where
  leading : leadingInputFails openOk redirs = true → k.get 0 = none
  noOutput : allOpen openOk redirs = true → outputFile redirs = none
  stdOpen : allOpen openOk redirs = true → (inputFile redirs).isSome → k.StdOpen
  stderr : allOpen openOk redirs = true → (k.get 1).isSome → (k.get 2).isSome

/-- The guard as a conjunction. -/
theorem restoresGuard_iff {openOk : String → OpenFlags → Bool} {redirs : Redirect} {k : Kernel} :
    RestoresGuard openOk redirs k ↔
      (leadingInputFails openOk redirs = true → k.get 0 = none) ∧
      (allOpen openOk redirs = true → outputFile redirs = none) ∧
      (allOpen openOk redirs = true → (inputFile redirs).isSome → k.StdOpen) ∧
      (allOpen openOk redirs = true → (k.get 1).isSome → (k.get 2).isSome) :=
  ⟨fun ⟨h, h', h'', h'''⟩ => ⟨h, h', h'', h'''⟩, fun ⟨h, h', h'', h'''⟩ => ⟨h, h', h'', h'''⟩⟩

/-! ### The branch, descriptor by descriptor -/

/-- What the moves do to a descriptor other than 0, 1 and 2. -/
theorem get_moveBuiltIn (fdIn fdOut isStderr : Int) (k : Kernel) {x : Int} (hx : 2 < x ∨ x < 0) :
    (moveBuiltIn fdIn fdOut isStderr k).get x =
      if fdIn ≠ -1 ∧ x = fdIn ∨ fdOut ≠ -1 ∧ x = fdOut then none else k.get x := by
  have h0 : x ≠ 0 := by omega
  have h1 : x ≠ 1 := by omega
  have h2 : x ≠ 2 := by omega
  unfold moveBuiltIn
  -- no descriptor but 0, 1, 2 and the two that are moved is touched
  by_cases hi : fdIn = -1 <;> by_cases ho : fdOut = -1 <;> by_cases he : isStderr = 1 <;>
    by_cases hxi : x = fdIn <;> by_cases hxo : x = fdOut <;> simp_all

/-- **The copies come back** to 0, 1 and 2, and are closed. -/
theorem get_restoreStd {k : Kernel} {s₀ s₁ s₂ : Int} {d₀ d₁ d₂ : OpenFile}
    (h₀ : k.get s₀ = some d₀) (h₁ : k.get s₁ = some d₁) (h₂ : k.get s₂ = some d₂)
    (hs₀ : 2 < s₀) (hs₁ : 2 < s₁) (hs₂ : 2 < s₂)
    (h₁₀ : s₁ ≠ s₀) (h₂₀ : s₂ ≠ s₀) (h₂₁ : s₂ ≠ s₁) (x : Int) :
    (restoreStd s₀ s₁ s₂ k).get x =
      if x = 0 then some d₀ else if x = 1 then some d₁ else if x = 2 then some d₂
      else if x = s₀ ∨ x = s₁ ∨ x = s₂ then none else k.get x := by
  have ha : ∀ y, ((k.dup2 s₀ 0).close s₀).get y =
      if y = s₀ then none else if y = 0 then some d₀ else k.get y := by
    intro y; simp [Kernel.get_dup2 k 0 h₀]
  generalize hka : (k.dup2 s₀ 0).close s₀ = ka at ha
  have h₁' : ka.get s₁ = some d₁ := by rw [ha, if_neg h₁₀, if_neg (by omega), h₁]
  have hb : ∀ y, ((ka.dup2 s₁ 1).close s₁).get y =
      if y = s₁ then none else if y = 1 then some d₁ else ka.get y := by
    intro y; simp [Kernel.get_dup2 ka 1 h₁']
  generalize hkb : (ka.dup2 s₁ 1).close s₁ = kb at hb
  have h₂' : kb.get s₂ = some d₂ := by
    rw [hb, if_neg h₂₁, if_neg (by omega), ha, if_neg h₂₀, if_neg (by omega), h₂]
  -- `ka` and `kb` are the tables after one and two of the three steps
  have hunfold : restoreStd s₀ s₁ s₂ k = (kb.dup2 s₂ 2).close s₂ := by
    simp only [restoreStd, hka, hkb]
  rw [hunfold, Kernel.get_close, Kernel.get_dup2 kb 2 h₂', hb, ha]
  by_cases hx0 : x = 0
  · subst hx0
    simp [show (0 : Int) ≠ s₂ by omega, show (0 : Int) ≠ s₁ by omega,
      show (0 : Int) ≠ s₀ by omega]
  · by_cases hx1 : x = 1
    · subst hx1
      simp [show (1 : Int) ≠ s₂ by omega, show (1 : Int) ≠ s₁ by omega]
    · by_cases hx2 : x = 2
      · subst hx2
        simp [show (2 : Int) ≠ s₂ by omega]
      -- above 2 only the three copies are closed
      · grind

/-- Saving the standard descriptors puts copies of them on three new descriptors. -/
theorem saveStd_spec (A : FdAlloc OpenFile) {k : Kernel} (hstd : k.StdOpen) :
    ∃ s₀ s₁ s₂ k', saveStd A k = ((s₁, s₀, s₂), k') ∧
      (2 < s₀ ∧ 2 < s₁ ∧ 2 < s₂) ∧ (s₁ ≠ s₀ ∧ s₂ ≠ s₀ ∧ s₂ ≠ s₁) ∧
      (k.get s₀ = none ∧ k.get s₁ = none ∧ k.get s₂ = none) ∧
      (k'.get s₀ = k.get 0 ∧ k'.get s₁ = k.get 1 ∧ k'.get s₂ = k.get 2) ∧
      ∀ x, x ≠ s₀ → x ≠ s₁ → x ≠ s₂ → k'.get x = k.get x := by
  obtain ⟨d₀, d₁, d₂, h₀, h₁, h₂⟩ := hstd.exists_get
  obtain ⟨s₁, ka, hdup₁, hgt₁, hn₁, ha, hstda⟩ := hstd.dup_spec A h₁
  have h₀a : ka.get 0 = some d₀ := by rw [ha, if_neg (by omega), h₀]
  obtain ⟨s₀, kb, hdup₀, hgt₀, hn₀, hb, hstdb⟩ := hstda.dup_spec A h₀a
  have h₂b : kb.get 2 = some d₂ := by rw [hb, if_neg (by omega), ha, if_neg (by omega), h₂]
  obtain ⟨s₂, kc, hdup₂, hgt₂, hn₂, hc, -⟩ := hstdb.dup_spec A h₂b
  -- each copy is made on a descriptor that is closed by then, so on none of the copies before
  have h₁₀ : s₁ ≠ s₀ := by
    rintro rfl
    rw [ha, if_pos rfl] at hn₀
    exact absurd hn₀ (by simp)
  have h₂₀ : s₂ ≠ s₀ := by
    rintro rfl
    rw [hb, if_pos rfl] at hn₂
    exact absurd hn₂ (by simp)
  rw [hb, if_neg h₂₀] at hn₂
  have h₂₁ : s₂ ≠ s₁ := by
    rintro rfl
    rw [ha, if_pos rfl] at hn₂
    exact absurd hn₂ (by simp)
  rw [ha, if_neg h₁₀.symm] at hn₀
  rw [ha, if_neg h₂₁] at hn₂
  refine ⟨s₀, s₁, s₂, kc, by simp only [saveStd, hdup₁, hdup₀, hdup₂], ⟨hgt₀, hgt₁, hgt₂⟩,
    ⟨h₁₀, h₂₀, h₂₁⟩, ⟨hn₀, hn₁, hn₂⟩, ⟨?_, ?_, ?_⟩, ?_⟩
  · rw [hc, if_neg h₂₀.symm, hb, if_pos rfl, h₀]
  · rw [hc, if_neg h₂₁.symm, hb, if_neg h₁₀, ha, if_pos rfl, h₁]
  · rw [hc, if_pos rfl, h₂]
  · intro x hx₀ hx₁ hx₂
    rw [hc, if_neg hx₂, hb, if_neg hx₀, ha, if_neg hx₁]

/-- Save, move, restore: the standard descriptors come back, the copies are gone, and so is
    the descriptor `fdOut`, if there is one. -/
theorem get_aroundBuiltIn (A : FdAlloc OpenFile) {k k₂ : Kernel} (hstd : k.StdOpen)
    {fdIn fdOut isStderr s₀ s₁ s₂ : Int} (hsave : saveStd A k = ((s₁, s₀, s₂), k₂))
    (hin : fdIn = -1 ∨ fdIn = 1) (hout : fdOut = -1 ∨ 2 < fdOut ∧ (k.get fdOut).isSome) (x : Int) :
    (restoreStd s₀ s₁ s₂ (moveBuiltIn fdIn fdOut isStderr k₂)).get x =
      if fdOut ≠ -1 ∧ x = fdOut then none else k.get x := by
  obtain ⟨d₀, d₁, d₂, h₀, h₁, h₂⟩ := hstd.exists_get
  obtain ⟨s₀', s₁', s₂', k', hsave', ⟨hgt₀, hgt₁, hgt₂⟩, ⟨h₁₀, h₂₀, h₂₁⟩, ⟨hn₀, hn₁, hn₂⟩,
    ⟨hc₀, hc₁, hc₂⟩, hother⟩ := saveStd_spec A hstd
  rw [hsave'] at hsave
  simp only [Prod.mk.injEq] at hsave
  obtain ⟨⟨rfl, rfl, rfl⟩, rfl⟩ := hsave
  -- a copy is none of the descriptors that are moved
  have hcopy : ∀ s, 2 < s → k.get s = none →
      ¬ (fdIn ≠ -1 ∧ s = fdIn ∨ fdOut ≠ -1 ∧ s = fdOut) := by
    rintro s hs hnone (⟨_, rfl⟩ | ⟨hne, rfl⟩)
    · omega
    · rcases hout with h | ⟨-, h⟩
      · exact hne h
      · rw [hnone] at h
        exact absurd h (by simp)
  have hm : ∀ s d, 2 < s → k.get s = none → k'.get s = some d →
      (moveBuiltIn fdIn fdOut isStderr k').get s = some d := by
    intro s d hs hnone hd
    rw [get_moveBuiltIn _ _ _ _ (Or.inl hs), if_neg (hcopy s hs hnone), hd]
  rw [get_restoreStd (hm s₀' d₀ hgt₀ hn₀ (hc₀.trans h₀)) (hm s₁' d₁ hgt₁ hn₁ (hc₁.trans h₁))
    (hm s₂' d₂ hgt₂ hn₂ (hc₂.trans h₂)) hgt₀ hgt₁ hgt₂ h₁₀ h₂₀ h₂₁]
  by_cases hx0 : x = 0
  · subst hx0; rw [if_pos rfl, if_neg (by omega), h₀]
  by_cases hx1 : x = 1
  · subst hx1; rw [if_neg (by omega), if_pos rfl, if_neg (by omega), h₁]
  by_cases hx2 : x = 2
  · subst hx2; rw [if_neg (by omega), if_neg (by omega), if_pos rfl, if_neg (by omega), h₂]
  rw [if_neg hx0, if_neg hx1, if_neg hx2]
  -- a copy was closed before, and is closed again
  by_cases hxs : x = s₀' ∨ x = s₁' ∨ x = s₂'
  · rw [if_pos hxs]
    have hnone : k.get x = none := by rcases hxs with rfl | rfl | rfl <;> assumption
    split
    · rfl
    · exact hnone.symm
  · rw [if_neg hxs]
    have hkx : k'.get x = k.get x := hother x (by tauto) (by tauto) (by tauto)
    rw [get_moveBuiltIn _ _ _ _ (by omega), hkx]
    by_cases hxo : fdOut ≠ -1 ∧ x = fdOut
    · rw [if_pos (Or.inr hxo), if_pos hxo]
    · have hnot : ¬ (fdIn ≠ -1 ∧ x = fdIn ∨ fdOut ≠ -1 ∧ x = fdOut) := by
        rintro (⟨h, h'⟩ | h)
        · omega
        · exact hxo h
      rw [if_neg hnot, if_neg hxo]

/-- The moves close `fd_in` and `fd_out` and nothing else. -/
theorem isSome_moveBuiltIn {fdIn fdOut isStderr : Int} {k : Kernel} {y : Int}
    (hy : (k.get y).isSome) (hin : fdIn = -1 ∨ y ≠ fdIn) (hout : fdOut = -1 ∨ y ≠ fdOut) :
    ((moveBuiltIn fdIn fdOut isStderr k).get y).isSome := by
  have hfirst : ((if fdIn ≠ -1 then (k.dup2 fdIn 0).close fdIn else k).get y).isSome := by
    split
    · rename_i hi
      exact k.isSome_move 0 hy (hin.resolve_left hi)
    · exact hy
  unfold moveBuiltIn
  generalize (if fdIn ≠ -1 then (k.dup2 fdIn 0).close fdIn else k) = k₁ at hfirst
  simp only
  split
  · rename_i ho
    have hsecond := k₁.isSome_move 1 hfirst (hout.resolve_left ho)
    split
    · exact Kernel.isSome_dup2 _ 1 2 hsecond
    · exact hsecond
  · exact hfirst

/-- Descriptor 2 is open behind `restoreStd` if its copy was open and is not one that an
    earlier step closes. -/
theorem isSome_restoreStd_stderr {k : Kernel} {s₀ s₁ s₂ : Int} (h : (k.get s₂).isSome)
    (hne₀ : s₂ ≠ s₀) (hne₁ : s₂ ≠ s₁) (h₂ : 2 ≠ s₂) :
    ((restoreStd s₀ s₁ s₂ k).get 2).isSome :=
  Kernel.isSome_move_target _ (Kernel.isSome_move _ 1 (k.isSome_move 0 h hne₀) hne₁) h₂

/-- A descriptor is open behind `restoreStd` if it was open before, or if it is a standard one
    whose copy was open and is not one that an earlier step closes. -/
theorem isSome_restoreStd {k : Kernel} {s₀ s₁ s₂ x : Int} (h₀ : x ≠ s₀) (h₁ : x ≠ s₁)
    (h₂ : x ≠ s₂)
    (hopen : (k.get x).isSome ∨ x = 0 ∧ (k.get s₀).isSome ∨
      x = 1 ∧ (k.get s₁).isSome ∧ s₁ ≠ s₀ ∨
      x = 2 ∧ (k.get s₂).isSome ∧ s₂ ≠ s₀ ∧ s₂ ≠ s₁) :
    ((restoreStd s₀ s₁ s₂ k).get x).isSome := by
  rcases hopen with h | ⟨rfl, h⟩ | ⟨rfl, h, hne⟩ | ⟨rfl, h, hne₀, hne₁⟩
  · exact Kernel.isSome_move _ 2 (Kernel.isSome_move _ 1 (k.isSome_move 0 h h₀) h₁) h₂
  · exact Kernel.isSome_move _ 2 (Kernel.isSome_move _ 1 (k.isSome_move_target h h₀) h₁) h₂
  -- the copy is still there when its turn comes
  · exact Kernel.isSome_move _ 2 (Kernel.isSome_move_target _ (k.isSome_move 0 h hne) h₁) h₂
  · exact isSome_restoreStd_stderr h hne₀ hne₁ h₂

/-- What `saveStd` leaves at `s₀`, `s₁` and `s₂`, whichever of 0, 1 and 2 are open: what is
    open stays open and is none of the three, and the copies of open descriptors are open and
    on different descriptors. -/
structure SavedStd (k k' : Kernel) (s₀ s₁ s₂ : Int) : Prop where
  keeps : ∀ y, (k.get y).isSome → (k'.get y).isSome ∧ y ≠ s₀ ∧ y ≠ s₁ ∧ y ≠ s₂
  stdin : (k.get 0).isSome → (k'.get s₀).isSome
  stdout : (k.get 1).isSome → (k'.get s₁).isSome ∧ s₁ ≠ s₀
  stderr : (k.get 2).isSome → (k'.get s₂).isSome ∧ s₂ ≠ s₀ ∧ s₂ ≠ s₁

/-- **Saving the standard descriptors**, whichever of them are open. -/
theorem savedStd_of_saveStd (A : FdAlloc OpenFile) {k k' : Kernel} {s₀ s₁ s₂ : Int}
    (hsave : saveStd A k = ((s₁, s₀, s₂), k')) : SavedStd k k' s₀ s₁ s₂ := by
  -- `ka` and `kb` are the tables after the first and the second `dup`
  obtain ⟨ka, hka⟩ : ∃ ka, ka = (k.dup A 1).2 := ⟨_, rfl⟩
  obtain ⟨kb, hkb⟩ : ∃ kb, kb = (ka.dup A 0).2 := ⟨_, rfl⟩
  simp only [saveStd, ← hka, ← hkb, Prod.mk.injEq] at hsave
  obtain ⟨⟨rfl, rfl, rfl⟩, rfl⟩ := hsave
  have ha : ∀ y, (k.get y).isSome → (ka.get y).isSome := fun y hy => by
    rw [hka, k.get_dup_of_open A 1 hy]; exact hy
  have hb : ∀ y, (ka.get y).isSome → (kb.get y).isSome := fun y hy => by
    rw [hkb, ka.get_dup_of_open A 0 hy]; exact hy
  have hc : ∀ y, (kb.get y).isSome → ((kb.dup A 2).2.get y).isSome := fun y hy => by
    rw [kb.get_dup_of_open A 2 hy]; exact hy
  -- a descriptor that is open is not the one the next copy goes to
  have hne : ∀ (k : Kernel) (fd y : Int), (k.get y).isSome → y ≠ (k.dup A fd).1 := by
    rintro k fd y hy rfl
    rw [k.get_dup_fst] at hy
    exact absurd hy (by simp)
  have hcopy : ∀ (k : Kernel) (fd : Int), (k.get fd).isSome →
      ((k.dup A fd).2.get (k.dup A fd).1).isSome := fun k fd hfd => by
    rw [k.get_dup_copy A hfd]; exact hfd
  refine ⟨fun y hy => ⟨hc y (hb y (ha y hy)), hne ka 0 y (ha y hy), hne k 1 y hy,
    hne kb 2 y (hb y (ha y hy))⟩, fun h0 => ?_, fun h1 => ?_, fun h2 => ?_⟩
  · apply hc
    rw [hkb]
    exact hcopy ka 0 (ha 0 h0)
  · have hs₁ : (ka.get (k.dup A 1).1).isSome := by rw [hka]; exact hcopy k 1 h1
    exact ⟨hc _ (hb _ hs₁), hne ka 0 _ hs₁⟩
  · have hs₂ := hcopy kb 2 (hb 2 (ha 2 h2))
    -- the other two are open by now, or -1
    have hother : ∀ s, s = -1 ∨ (kb.get s).isSome → (kb.dup A 2).1 ≠ s := by
      rintro s (rfl | hs) heq
      · rw [heq] at hs₂
        simp at hs₂
      · exact hne kb 2 s hs heq.symm
    refine ⟨hs₂, hother _ ?_, hother _ ?_⟩
    · rw [hkb]
      exact ka.isSome_dup_fst A 0
    · refine (k.isSome_dup_fst A 1).imp_right fun h => hb _ ?_
      rw [hka]
      exact h

/-- A descriptor that is open when the standard ones are saved is open behind the whole branch,
    unless it is the one in `fd_out` and not a standard one. -/
theorem isSome_aroundBuiltIn (A : FdAlloc OpenFile) {k k' : Kernel}
    {fdIn fdOut isStderr s₀ s₁ s₂ x : Int} (hsave : saveStd A k = ((s₁, s₀, s₂), k'))
    (hin : fdIn = -1 ∨ fdIn = 1) (hout : fdOut = -1 ∨ (k.get fdOut).isSome)
    (hx : (k.get x).isSome)
    (hmove : x ≠ fdOut ∨ fdIn = -1 ∧ (x = 0 ∨ x = 1 ∨ x = 2)) :
    ((restoreStd s₀ s₁ s₂ (moveBuiltIn fdIn fdOut isStderr k')).get x).isSome := by
  have hsaved := savedStd_of_saveStd A hsave
  obtain ⟨hx', hx₀, hx₁, hx₂⟩ := hsaved.keeps x hx
  -- `x` survives the moves when it is neither `fd_in` nor `fd_out`
  have hkeep : x ≠ fdIn → x ≠ fdOut → ((moveBuiltIn fdIn fdOut isStderr k').get x).isSome :=
    fun hne hne' => isSome_moveBuiltIn hx' (Or.inr hne) (Or.inr hne')
  -- its copy does when it is not `fd_in`; it is never `fd_out`, which is open before the copy
  have hcopy : ∀ s, (k'.get s).isSome → x ≠ s → (fdOut ≠ -1 → fdOut ≠ s) →
      ((moveBuiltIn fdIn fdOut isStderr k').get s).isSome ∨
        ((moveBuiltIn fdIn fdOut isStderr k').get x).isSome := by
    intro s hs hxs hfree
    have hs' : fdOut = -1 ∨ s ≠ fdOut := by
      by_cases ho : fdOut = -1
      · exact Or.inl ho
      · exact Or.inr (hfree ho).symm
    by_cases hsin : s = fdIn
    · subst hsin
      have hs1 : s ≠ -1 := by
        rintro rfl
        simp at hs
      exact Or.inr (hkeep hxs (hmove.resolve_right fun h => hs1 h.1))
    · exact Or.inl (isSome_moveBuiltIn hs (Or.inr hsin) hs')
  have hfree : ∀ ho : fdOut ≠ -1, fdOut ≠ s₀ ∧ fdOut ≠ s₁ ∧ fdOut ≠ s₂ := fun ho =>
    (hsaved.keeps fdOut (hout.resolve_left ho)).2
  refine isSome_restoreStd hx₀ hx₁ hx₂ ?_
  by_cases h0 : x = 0
  · subst h0
    rcases hcopy s₀ (hsaved.stdin hx) hx₀ (fun ho => (hfree ho).1) with h | h
    · exact Or.inr (Or.inl ⟨rfl, h⟩)
    · exact Or.inl h
  by_cases h1 : x = 1
  · subst h1
    obtain ⟨hs₁, hne⟩ := hsaved.stdout hx
    rcases hcopy s₁ hs₁ hx₁ (fun ho => (hfree ho).2.1) with h | h
    · exact Or.inr (Or.inr (Or.inl ⟨rfl, h, hne⟩))
    · exact Or.inl h
  by_cases h2 : x = 2
  · subst h2
    obtain ⟨hs₂, hne⟩ := hsaved.stderr hx
    rcases hcopy s₂ hs₂ hx₂ (fun ho => (hfree ho).2.2) with h | h
    · exact Or.inr (Or.inr (Or.inr ⟨rfl, h, hne⟩))
    · exact Or.inl h
  · refine Or.inl (hkeep ?_ (hmove.resolve_right (by tauto)))
    rcases hin with rfl | rfl
    · rintro rfl
      simp at hx
    · exact h1

/-- When the redirection succeeds with kernel `k₁`, the branch leaves `k₁` without the
    descriptor in `fd_out`. -/
theorem get_execBuiltIn_success (A : FdAlloc OpenFile) (openOk : String → OpenFlags → Bool)
    {redirs : Redirect} (ret : Ret) {k k₁ : Kernel} {v : RedirVars}
    (h : funcIORedirection A openOk redirs ⟨-1, -1, 0⟩ k = (.SUCCESS, v, k₁))
    (hstd : k₁.StdOpen) (hin : v.checkStderror = -1 ∨ v.checkStderror = 1)
    (hout : v.fdIn = -1 ∨ 2 < v.fdIn ∧ (k₁.get v.fdIn).isSome) (x : Int) :
    (execBuiltIn A openOk redirs ret k).2.get x =
      if v.fdIn ≠ -1 ∧ x = v.fdIn then none else k₁.get x := by
  obtain ⟨s₀, s₁, s₂, k₂, hsave, -⟩ := saveStd_spec A hstd
  simp only [execBuiltIn, h, hsave]
  exact get_aroundBuiltIn A hstd hsave hin hout x

/-- When the redirection succeeds with kernel `k₁`, what is open in `k₁` is open behind the
    branch, unless it is the one in `fd_out` and not a standard one. -/
theorem isSome_execBuiltIn_success (A : FdAlloc OpenFile) (openOk : String → OpenFlags → Bool)
    {redirs : Redirect} (ret : Ret) {k k₁ : Kernel} {v : RedirVars}
    (h : funcIORedirection A openOk redirs ⟨-1, -1, 0⟩ k = (.SUCCESS, v, k₁))
    (hin : v.checkStderror = -1 ∨ v.checkStderror = 1)
    (hout : v.fdIn = -1 ∨ (k₁.get v.fdIn).isSome) {x : Int} (hx : (k₁.get x).isSome)
    (hmove : x ≠ v.fdIn ∨ v.checkStderror = -1 ∧ (x = 0 ∨ x = 1 ∨ x = 2)) :
    ((execBuiltIn A openOk redirs ret k).2.get x).isSome := by
  cases hsave : saveStd A k₁ with | mk saved k₂
  obtain ⟨s₁, s₀, s₂⟩ := saved
  simp only [execBuiltIn, h, hsave]
  exact isSome_aroundBuiltIn A hsave hin hout hx hmove

/-! ### One redirect at a time -/

section
variable (A : FdAlloc OpenFile) (openOk : String → OpenFlags → Bool)

/-- `k` with the file of a redirect opened. -/
def opened (k : Kernel) (t : FileType) (f : String) : Kernel :=
  k.install (A.next k.fds) ⟨k.stamp, .file f t.openFlags⟩

variable {A openOk}

/-- A file is opened on a new descriptor. -/
theorem get_opened (k : Kernel) (t : FileType) (f : String) (x : Int) :
    (opened A k t f).get x =
      if x = A.next k.fds then some ⟨k.stamp, .file f t.openFlags⟩ else k.get x := rfl

/-- Nothing is redirected to a file. -/
theorem funcIORedirection_tail {r : Redirect} (h : PipeTail r) (v : RedirVars) (k : Kernel) :
    funcIORedirection A openOk r v k = (.SUCCESS, v, k) := by
  cases h <;> rfl

/-- An input file that opens. -/
theorem funcIORedirection_input {f : String} {n : Redirect} (v : RedirVars) (k : Kernel)
    (h : openOk f FileType.REDIRECT_IN.openFlags = true) :
    funcIORedirection A openOk (.file .REDIRECT_IN f n) v k =
      funcIORedirection A openOk n { v with fdIn := A.next k.fds } (opened A k .REDIRECT_IN f) := by
  have hfd : (A.next k.fds : Int) ≠ -1 := by omega
  simp [funcIORedirection, Kernel.openFile, h, hfd, opened]

/-- An input file that does not open. -/
theorem funcIORedirection_input_fail {f : String} {n : Redirect} (v : RedirVars) (k : Kernel)
    (h : openOk f FileType.REDIRECT_IN.openFlags = false) :
    funcIORedirection A openOk (.file .REDIRECT_IN f n) v k =
      (.FAIL, { v with fdIn := -1 }, if v.fdOut ≠ -1 then k.close v.fdOut else k) := by
  simp [funcIORedirection, Kernel.openFile, h]

/-- An output file that opens. -/
theorem funcIORedirection_output {t : FileType} {f : String} {n : Redirect} (v : RedirVars)
    (k : Kernel) (ht : t ≠ .REDIRECT_IN) (h : openOk f t.openFlags = true) :
    funcIORedirection A openOk (.file t f n) v k =
      funcIORedirection A openOk n
        { v with
          checkStderror := if t.setsStderror then 1 else v.checkStderror
          fdOut := A.next k.fds } (opened A k t f) := by
  have hfd : (A.next k.fds : Int) ≠ -1 := by omega
  simp [funcIORedirection, Kernel.openFile, h, ht, hfd, opened]

/-- An output file that does not open. -/
theorem funcIORedirection_output_fail {t : FileType} {f : String} {n : Redirect} (v : RedirVars)
    (k : Kernel) (ht : t ≠ .REDIRECT_IN) (h : openOk f t.openFlags = false) :
    funcIORedirection A openOk (.file t f n) v k =
      (.FAIL, { v with
          checkStderror := if t.setsStderror then 1 else v.checkStderror
          fdOut := -1 }, if v.fdIn ≠ -1 then k.close v.fdIn else k) := by
  simp [funcIORedirection, Kernel.openFile, h, ht]

/-- The redirection succeeds exactly when every file opens. -/
theorem funcIORedirection_success_iff (r : Redirect) (v : RedirVars) (k : Kernel) :
    (funcIORedirection A openOk r v k).1 = .SUCCESS ↔ allOpen openOk r = true := by
  induction r using Redirect.nextInduction generalizing v k with
  | null => exact iff_of_true rfl rfl
  | pipe t c n ih => exact ih v k
  | file t f n ih =>
    rw [allOpen, Bool.and_eq_true]
    cases hopen : openOk f t.openFlags with
    | true =>
      rw [eq_self_iff_true, true_and]
      by_cases ht : t = .REDIRECT_IN
      · subst ht
        rw [funcIORedirection_input v k hopen]
        exact ih _ _
      · rw [funcIORedirection_output v k ht hopen]
        exact ih _ _
    | false =>
      refine iff_of_false ?_ (by simp)
      by_cases ht : t = .REDIRECT_IN
      · subst ht
        rw [funcIORedirection_input_fail v k hopen]
        simp
      · rw [funcIORedirection_output_fail v k ht hopen]
        simp

/-- `ExecProcess` goes on behind the redirection exactly when every file opens. -/
theorem execProcessDescriptors_isSome (r : Redirect) (fdOut fdIn isStderr : Int) (k : Kernel) :
    (execProcessDescriptors A openOk r fdOut fdIn isStderr k).isSome = allOpen openOk r := by
  have hiff := @funcIORedirection_success_iff A openOk r ⟨-1, -1, 0⟩ k
  unfold execProcessDescriptors
  cases hred : funcIORedirection A openOk r ⟨-1, -1, 0⟩ k with | mk ret rest
  rw [hred] at hiff
  cases ret with
  | SUCCESS => rw [hiff.mp rfl]; rfl
  | FAIL => exact ((Bool.not_eq_true _).mp fun h => absurd (hiff.mpr h) (by simp)).symm
  | QUIT => exact ((Bool.not_eq_true _).mp fun h => absurd (hiff.mpr h) (by simp)).symm

/-- Behind the files there is none for the output. -/
theorem outputFile_tail {r : Redirect} (h : PipeTail r) : outputFile r = none := by
  cases h <;> rfl

/-- Behind the files there is nothing to open. -/
theorem allOpen_tail {r : Redirect} (h : PipeTail r) : allOpen openOk r = true := by
  cases h <;> rfl

/-! ### The branch, case by case -/

variable {ret : Ret} {k k' : Kernel}

/-- A table that reads as before is restored. -/
theorem DescriptorsRestored.of_get (h : ∀ x, k'.get x = k.get x) : DescriptorsRestored k k' :=
  ⟨fun fd _ => h fd, fun fd => by rw [h fd]⟩

/-- A leaked descriptor. -/
theorem not_restored_of_leak {x : Int} (hk : k.get x = none) (hk' : (k'.get x).isSome) :
    ¬ DescriptorsRestored k k' := by
  intro h
  rw [h.sameOpen x, hk] at hk'
  exact absurd hk' (by simp)

/-- Closing standard input loses it, unless it was closed. -/
theorem restored_close_stdin_iff : DescriptorsRestored k (k.close 0) ↔ k.get 0 = none := by
  constructor
  · intro h
    rw [← h.std 0 (Or.inl rfl), Kernel.get_close, if_pos rfl]
  · intro h
    apply DescriptorsRestored.of_get
    intro x
    rw [Kernel.get_close]
    split
    · subst x; exact h.symm
    · rfl

/-- Without a redirect to a file, and with 0, 1 and 2 open, all of it comes back. -/
theorem execBuiltIn_tail (hstd : k.StdOpen) {r : Redirect} (h : PipeTail r) :
    DescriptorsRestored k (execBuiltIn A openOk r ret k).2 := by
  apply DescriptorsRestored.of_get
  intro x
  rw [get_execBuiltIn_success A openOk ret (funcIORedirection_tail h _ _) hstd (Or.inl rfl)
    (Or.inl rfl), if_neg (by simp)]

/-- A leading `<` that fails closes descriptor 0: `fd_out` is the caller's `is_stderr`. -/
theorem execBuiltIn_input_fail {r : Redirect} {f : String}
    (hf : openOk f FileType.REDIRECT_IN.openFlags = false) :
    (execBuiltIn A openOk (.file .REDIRECT_IN f r) ret k).2 = k.close 0 := by
  rw [execBuiltIn, funcIORedirection_input_fail _ _ hf]
  rfl

/-- An output redirect that fails first changes nothing. -/
theorem execBuiltIn_output_fail {r : Redirect} {t : FileType} {g : String}
    (ht : t ≠ .REDIRECT_IN) (hg : openOk g t.openFlags = false) :
    (execBuiltIn A openOk (.file t g r) ret k).2 = k := by
  rw [execBuiltIn, funcIORedirection_output_fail _ _ ht hg]
  rfl

/-- An input redirect alone, with 0, 1 and 2 open. -/
theorem execBuiltIn_input (hstd : k.StdOpen) {r : Redirect} {f : String} (h : PipeTail r)
    (hok : openOk f FileType.REDIRECT_IN.openFlags = true) :
    DescriptorsRestored k (execBuiltIn A openOk (.file .REDIRECT_IN f r) ret k).2 := by
  apply DescriptorsRestored.of_get
  intro x
  have heq := (funcIORedirection_input (n := r) ⟨-1, -1, 0⟩ k hok).trans
    (funcIORedirection_tail (A := A) h _ _)
  have hgt := hstd.next_gt A
  rw [get_execBuiltIn_success A openOk ret heq (hstd.install _ _) (Or.inl rfl)
    (Or.inr ⟨by show (2 : Int) < (A.next k.fds : Int); omega, by simp [get_opened]⟩)]
  simp only [get_opened]
  by_cases hx : x = A.next k.fds
  · subst hx
    rw [if_pos ⟨by omega, rfl⟩, k.get_next A]
  · rw [if_neg (by tauto), if_neg hx]

/-- An output redirect alone is restored exactly when its file does not open: its descriptor
    is in `is_stderr`, and nothing closes it. -/
theorem execBuiltIn_output {r : Redirect} {t : FileType} (g : String) (ht : t ≠ .REDIRECT_IN)
    (h : PipeTail r) :
    DescriptorsRestored k (execBuiltIn A openOk (.file t g r) ret k).2 ↔
      openOk g t.openFlags = false := by
  cases hok : openOk g t.openFlags with
  | false =>
    rw [execBuiltIn_output_fail ht hok]
    exact iff_of_true (DescriptorsRestored.of_get fun _ => rfl) rfl
  | true =>
    refine iff_of_false ?_ (by simp)
    have heq := (funcIORedirection_output (n := r) ⟨-1, -1, 0⟩ k ht hok).trans
      (funcIORedirection_tail (A := A) h _ _)
    refine not_restored_of_leak (k.get_next A) (isSome_execBuiltIn_success A openOk ret heq
      (by by_cases t.setsStderror <;> simp [*]) (Or.inl rfl) (by simp [get_opened]) (Or.inl ?_))
    show (A.next k.fds : Int) ≠ -1
    omega

/-- Opening a file and closing it again. -/
theorem get_opened_close (k : Kernel) (t : FileType) (f : String) (x : Int) :
    ((opened A k t f).close (A.next k.fds)).get x = k.get x := by
  rw [Kernel.get_close, get_opened]
  by_cases hx : x = A.next k.fds
  · subst hx; rw [if_pos rfl, k.get_next A]
  · rw [if_neg hx, if_neg hx]

/-- A second file gets another descriptor than the first, one that was closed before. -/
theorem next_opened (k : Kernel) (t : FileType) (f : String) :
    (A.next (opened A k t f).fds : Int) ≠ A.next k.fds ∧
      k.get (A.next (opened A k t f).fds) = none := by
  have hnone := (opened A k t f).get_next A
  rw [get_opened] at hnone
  split at hnone
  · exact absurd hnone (by simp)
  · rename_i hne
    exact ⟨hne, hnone⟩

/-- An input redirect and then an output redirect. -/
theorem execBuiltIn_inputOutput {r : Redirect} {t : FileType} (f g : String)
    (ht : t ≠ .REDIRECT_IN) (h : PipeTail r) :
    DescriptorsRestored k (execBuiltIn A openOk (.file .REDIRECT_IN f (.file t g r)) ret k).2 ↔
      (openOk f FileType.REDIRECT_IN.openFlags = false → k.get 0 = none) ∧
        ¬ (openOk f FileType.REDIRECT_IN.openFlags = true ∧ openOk g t.openFlags = true) := by
  cases hf : openOk f FileType.REDIRECT_IN.openFlags with
  | false =>
    rw [execBuiltIn_input_fail hf, restored_close_stdin_iff]
    simp
  | true =>
    have hin := funcIORedirection_input (A := A) (n := .file t g r) ⟨-1, -1, 0⟩ k hf
    cases hg : openOk g t.openFlags with
    | false =>
      refine iff_of_true ?_ (by simp)
      apply DescriptorsRestored.of_get
      intro x
      rw [execBuiltIn, hin, funcIORedirection_output_fail _ _ ht hg]
      have hfd : (A.next k.fds : Int) ≠ -1 := by omega
      simp only [ne_eq, hfd, not_false_eq_true, if_true]
      exact get_opened_close k .REDIRECT_IN f x
    | true =>
      -- both files open; the second descriptor ends up in `is_stderr` and stays open
      refine iff_of_false ?_ (by simp)
      have heq := (hin.trans (funcIORedirection_output _ _ ht hg)).trans
        (funcIORedirection_tail (A := A) h _ _)
      obtain ⟨hne, hnone⟩ := next_opened (A := A) k .REDIRECT_IN f
      exact not_restored_of_leak hnone (isSome_execBuiltIn_success A openOk ret heq
        (by by_cases t.setsStderror <;> simp [*]) (Or.inr (by simp [get_opened, Ne.symm hne]))
        (by simp [get_opened]) (Or.inl hne))

/-- An output redirect and then an input redirect. -/
theorem execBuiltIn_outputInput {r : Redirect} {t : FileType} (g f : String)
    (ht : t ≠ .REDIRECT_IN) (h : PipeTail r) :
    DescriptorsRestored k (execBuiltIn A openOk (.file t g (.file .REDIRECT_IN f r)) ret k).2 ↔
      ¬ (openOk g t.openFlags = true ∧ openOk f FileType.REDIRECT_IN.openFlags = true) := by
  cases hg : openOk g t.openFlags with
  | false =>
    rw [execBuiltIn_output_fail ht hg]
    exact iff_of_true (DescriptorsRestored.of_get fun _ => rfl) (by simp)
  | true =>
    have hout := funcIORedirection_output (A := A) (n := .file .REDIRECT_IN f r) ⟨-1, -1, 0⟩ k ht hg
    cases hf : openOk f FileType.REDIRECT_IN.openFlags with
    | false =>
      refine iff_of_true ?_ (by simp)
      apply DescriptorsRestored.of_get
      intro x
      rw [execBuiltIn, hout, funcIORedirection_input_fail _ _ hf]
      have hfd : (A.next k.fds : Int) ≠ -1 := by omega
      simp only [ne_eq, hfd, not_false_eq_true, if_true]
      exact get_opened_close k t g x
    | true =>
      -- the output file was opened first, and its descriptor is the one that stays open
      refine iff_of_false ?_ (by simp)
      have heq := (hout.trans (funcIORedirection_input _ _ hf)).trans
        (funcIORedirection_tail (A := A) h _ _)
      obtain ⟨hne, -⟩ := next_opened (A := A) k t g
      exact not_restored_of_leak (k.get_next A) (isSome_execBuiltIn_success A openOk ret heq
        (by by_cases t.setsStderror <;> simp [*]) (Or.inr (by simp [get_opened]))
        (by simp [get_opened, Ne.symm hne]) (Or.inl (Ne.symm hne)))

/-! ### Closed standard descriptors

Under the policy of POSIX a new descriptor is the lowest closed one, so where 0, 1 or 2 is
closed an opened file, or one of the saved copies, is put there. -/

/-- Without a redirect to a file the branch saves and restores. -/
theorem execBuiltIn_tail_eq {r : Redirect} (h : PipeTail r) {s₀ s₁ s₂ : Int} {k₁ : Kernel}
    (hsave : saveStd A k = ((s₁, s₀, s₂), k₁)) :
    (execBuiltIn A openOk r ret k).2 = restoreStd s₀ s₁ s₂ k₁ := by
  rw [execBuiltIn, funcIORedirection_tail h]
  simp only [hsave]
  rfl

/-- With 0 closed and 1 and 2 open, the copy of 1 goes to 0 and comes back from there. -/
theorem restored_of_closed_stdin (h0 : k.get 0 = none) (h1 : (k.get 1).isSome)
    (h2 : (k.get 2).isSome) {r : Redirect} (h : PipeTail r) :
    DescriptorsRestored k (execBuiltIn FdAlloc.lowest openOk r ret k).2 := by
  obtain ⟨d₁, hd₁⟩ := Option.isSome_iff_exists.mp h1
  obtain ⟨d₂, hd₂⟩ := Option.isSome_iff_exists.mp h2
  have hdup₁ := Kernel.dup_lowest (n := 0) hd₁ h0 (by omega)
  have hstd : (k.install 0 d₁).StdOpen := ⟨rfl, h1, h2⟩
  obtain ⟨s₀, kb, hdup₀, hgt₀, hn₀, hb, hstdb⟩ := hstd.dup_spec FdAlloc.lowest
    (show (k.install 0 d₁).get 0 = some d₁ by simp)
  have h₂b : kb.get 2 = some d₂ := by rw [hb, if_neg (by omega)]; simpa using hd₂
  obtain ⟨s₂, kc, hdup₂, hgt₂, hn₂, hc, -⟩ := hstdb.dup_spec FdAlloc.lowest h₂b
  rw [execBuiltIn_tail_eq h (show saveStd FdAlloc.lowest k = ((((0 : Nat) : Int), s₀, s₂), kc) by
    simp only [saveStd, hdup₁, hdup₀, hdup₂])]
  apply DescriptorsRestored.of_get
  intro x
  simp only [Kernel.get_install] at hn₀ hb
  simp only [restoreStd, Kernel.get_close, Kernel.get_dup2_or, hc, hb]
  grind

/-- With 1 closed there is no copy of it, and those of 0 and 2 find their way back. -/
theorem restored_of_closed_stdout (h1 : k.get 1 = none) {r : Redirect} (h : PipeTail r) :
    DescriptorsRestored k (execBuiltIn FdAlloc.lowest openOk r ret k).2 := by
  have hdup₁ := Kernel.dup_closed FdAlloc.lowest k h1
  apply DescriptorsRestored.of_get
  intro x
  cases h0 : k.get 0 with
  | none =>
    have hdup₀ := Kernel.dup_closed FdAlloc.lowest k h0
    cases h2 : k.get 2 with
    | none =>
      have hdup₂ := Kernel.dup_closed FdAlloc.lowest k h2
      rw [execBuiltIn_tail_eq h (show saveStd FdAlloc.lowest k = ((-1, -1, -1), k) by
        simp only [saveStd, hdup₁, hdup₀, hdup₂])]
      simp only [restoreStd, Kernel.get_close, Kernel.get_dup2_or]
      grind [Kernel.get_neg_one]
    | some d₂ =>
      -- the copy of 2 goes to 0
      have hdup₂ := Kernel.dup_lowest (n := 0) h2 h0 (by omega)
      rw [execBuiltIn_tail_eq h (show saveStd FdAlloc.lowest k =
        ((-1, -1, ((0 : Nat) : Int)), k.install 0 d₂) by simp only [saveStd, hdup₁, hdup₀, hdup₂])]
      simp only [restoreStd, Kernel.get_close, Kernel.get_dup2_or, Kernel.get_install]
      grind [Kernel.get_neg_one]
  | some d₀ =>
    -- the copy of 0 goes to 1
    have hdup₀ := Kernel.dup_lowest (n := 1) h0 h1 (fun m hm => by
      obtain rfl : m = 0 := by omega
      exact Option.isSome_of_eq_some h0)
    cases h2 : k.get 2 with
    | none =>
      have hdup₂ := Kernel.dup_closed FdAlloc.lowest (k.install 1 d₀)
        (show (k.install 1 d₀).get 2 = none by simp [h2])
      rw [execBuiltIn_tail_eq h (show saveStd FdAlloc.lowest k =
        ((-1, ((1 : Nat) : Int), -1), k.install 1 d₀) by simp only [saveStd, hdup₁, hdup₀, hdup₂])]
      simp only [restoreStd, Kernel.get_close, Kernel.get_dup2_or, Kernel.get_install]
      grind [Kernel.get_neg_one]
    | some d₂ =>
      have hstd : (k.install 1 d₀).StdOpen :=
        ⟨Option.isSome_of_eq_some h0, rfl, Option.isSome_of_eq_some h2⟩
      obtain ⟨s₂, kc, hdup₂, hgt₂, hn₂, hc, -⟩ := hstd.dup_spec FdAlloc.lowest
        (show (k.install 1 d₀).get 2 = some d₂ by simp [h2])
      rw [execBuiltIn_tail_eq h (show saveStd FdAlloc.lowest k =
        ((-1, ((1 : Nat) : Int), s₂), kc) by simp only [saveStd, hdup₁, hdup₀, hdup₂])]
      simp only [Kernel.get_install] at hn₂ hc
      simp only [restoreStd, Kernel.get_close, Kernel.get_dup2_or, hc]
      grind [Kernel.get_neg_one]

/-- With 1 open and 2 closed, a copy is made on 2, copied again, and stays there. -/
theorem not_restored_of_closed_stderr (h1 : (k.get 1).isSome) (h2 : k.get 2 = none)
    {r : Redirect} (h : PipeTail r) :
    ¬ DescriptorsRestored k (execBuiltIn FdAlloc.lowest openOk r ret k).2 := by
  obtain ⟨d₁, hd₁⟩ := Option.isSome_iff_exists.mp h1
  cases h0 : k.get 0 with
  | none =>
    have hdup₁ := Kernel.dup_lowest (n := 0) hd₁ h0 (by omega)
    have hdup₀ := Kernel.dup_lowest (k := k.install 0 d₁) (n := 2) (x := 0) (d := d₁) (by simp)
      (by simpa using h2) (fun m hm => by
        obtain rfl | rfl : m = 0 ∨ m = 1 := by omega
        · rfl
        · exact h1)
    have hstd : ((k.install 0 d₁).install 2 d₁).StdOpen := ⟨rfl, h1, rfl⟩
    obtain ⟨s₂, kc, hdup₂, hgt₂, -, hc, -⟩ := hstd.dup_spec FdAlloc.lowest
      (show ((k.install 0 d₁).install 2 d₁).get 2 = some d₁ by simp)
    rw [execBuiltIn_tail_eq h (show saveStd FdAlloc.lowest k =
      ((((0 : Nat) : Int), ((2 : Nat) : Int), s₂), kc) by simp only [saveStd, hdup₁, hdup₀, hdup₂])]
    exact not_restored_of_leak h2
      (isSome_restoreStd_stderr (by simp [hc]) (by omega) (by omega) (by omega))
  | some d₀ =>
    have hdup₁ := Kernel.dup_lowest (n := 2) hd₁ h2 (fun m hm => by
      obtain rfl | rfl : m = 0 ∨ m = 1 := by omega
      · exact Option.isSome_of_eq_some h0
      · exact h1)
    have hstd : (k.install 2 d₁).StdOpen := ⟨Option.isSome_of_eq_some h0, h1, rfl⟩
    obtain ⟨s₀, kb, hdup₀, hgt₀, -, hb, hstdb⟩ := hstd.dup_spec FdAlloc.lowest
      (show (k.install 2 d₁).get 0 = some d₀ by simp [h0])
    have h₂b : kb.get 2 = some d₁ := by rw [hb, if_neg (by omega)]; simp
    obtain ⟨s₂, kc, hdup₂, hgt₂, hn₂, hc, -⟩ := hstdb.dup_spec FdAlloc.lowest h₂b
    have hne : s₂ ≠ s₀ := by
      rintro rfl
      rw [hb, if_pos rfl] at hn₂
      exact absurd hn₂ (by simp)
    rw [execBuiltIn_tail_eq h (show saveStd FdAlloc.lowest k =
      ((((2 : Nat) : Int), s₀, s₂), kc) by simp only [saveStd, hdup₁, hdup₀, hdup₂])]
    exact not_restored_of_leak h2
      (isSome_restoreStd_stderr (by simp [hc]) hne (by omega) (by omega))

/-- **No redirect to a file.**  All comes back unless 1 is open and 2 is closed. -/
theorem execBuiltIn_tail_iff {r : Redirect} (h : PipeTail r) :
    DescriptorsRestored k (execBuiltIn FdAlloc.lowest openOk r ret k).2 ↔
      ((k.get 1).isSome → (k.get 2).isSome) := by
  cases h1 : k.get 1 with
  | none => exact iff_of_true (restored_of_closed_stdout h1 h) (by simp)
  | some d₁ =>
    cases h2 : k.get 2 with
    | none =>
      exact iff_of_false
        (not_restored_of_closed_stderr (Option.isSome_of_eq_some h1) h2 h) (by simp)
    | some d₂ =>
      refine iff_of_true ?_ (by simp)
      cases h0 : k.get 0 with
      | none =>
        exact restored_of_closed_stdin h0 (Option.isSome_of_eq_some h1)
          (Option.isSome_of_eq_some h2) h
      | some d₀ =>
        exact execBuiltIn_tail ⟨Option.isSome_of_eq_some h0, Option.isSome_of_eq_some h1,
          Option.isSome_of_eq_some h2⟩ h

/-- **An input redirect alone.**  With its file open all comes back exactly when 0, 1 and 2
    were open: else the file is opened on one of them. -/
theorem execBuiltIn_input_iff {r : Redirect} {f : String} (h : PipeTail r) :
    DescriptorsRestored k
        (execBuiltIn FdAlloc.lowest openOk (.file .REDIRECT_IN f r) ret k).2 ↔
      if openOk f FileType.REDIRECT_IN.openFlags then k.StdOpen else k.get 0 = none := by
  cases hok : openOk f FileType.REDIRECT_IN.openFlags with
  | false =>
    rw [execBuiltIn_input_fail hok, restored_close_stdin_iff]
    simp
  | true =>
    rw [if_pos rfl]
    refine ⟨fun hres => ?_, fun hstd => execBuiltIn_input hstd h hok⟩
    by_contra hstd
    have heq := (funcIORedirection_input (n := r) ⟨-1, -1, 0⟩ k hok).trans
      (funcIORedirection_tail (A := FdAlloc.lowest) h _ _)
    have hlow : (FdAlloc.lowest.next k.fds : Int) = 0 ∨ (FdAlloc.lowest.next k.fds : Int) = 1 ∨
        (FdAlloc.lowest.next k.fds : Int) = 2 := by
      have hnext := FdAlloc.lowest_next_le hstd
      omega
    exact not_restored_of_leak (k.get_next FdAlloc.lowest)
      (isSome_execBuiltIn_success FdAlloc.lowest openOk ret heq (Or.inl rfl)
        (Or.inr (by simp [get_opened])) (by simp [get_opened]) (Or.inr ⟨rfl, hlow⟩)) hres

end

/-! ### What the branch restores -/

/-- **The shell's descriptors after a built-in, exactly.**  They are as before unless a `<`
    that comes first fails to open (which closes standard input) or an output redirect comes
    through with every file open (which leaves its file open); where 0, 1 or 2 was closed
    already, `RestoresGuard` says what else goes wrong, and what no longer does. -/
theorem execBuiltIn_restores_iff (openOk : String → OpenFlags → Bool) (pc : Command) (ret : Ret)
    (k : Kernel) (hbuiltin : checkBuiltInCommands pc = true) (hfg : pc.fBackground = false)
    (hbuilt : ParserBuilt pc.prRedirects) (hpipe : hasPipe pc.prRedirects = false) :
    ∃ r k', execCommandInShell FdAlloc.lowest openOk pc ret k = some (r, k') ∧
      (DescriptorsRestored k k' ↔ RestoresGuard openOk pc.prRedirects k) := by
  have hcheck : checkPipelineAmbiguity pc = .ok false := checkRedirects_noPipe _ false hpipe
  refine ⟨(execBuiltIn FdAlloc.lowest openOk pc.prRedirects ret k).1,
    (execBuiltIn FdAlloc.lowest openOk pc.prRedirects ret k).2,
    by simp [execCommandInShell, hcheck, hfg, hbuiltin], ?_⟩
  -- one case for each shape of redirect list
  generalize pc.prRedirects = redirs at hbuilt
  rw [restoresGuard_iff]
  cases hbuilt with
  | tail h =>
    rw [execBuiltIn_tail_iff h]
    cases h <;> simp [leadingInputFails, outputFile, inputFile, allOpen]
  | input f h =>
    rw [execBuiltIn_input_iff h]
    -- 2 open where 1 is: part of 0, 1 and 2 being open
    have hstderr : k.StdOpen → (k.get 1).isSome → (k.get 2).isSome := fun hstd _ => hstd.2.2
    cases hok : openOk f FileType.REDIRECT_IN.openFlags with
    | false => simp [leadingInputFails, outputFile, inputFile, allOpen, outputFile_tail h, hok]
    | true =>
      simpa [leadingInputFails, outputFile, inputFile, allOpen, outputFile_tail h,
        allOpen_tail h, hok] using hstderr
  | output t f ht h =>
    rw [execBuiltIn_output f ht h]
    cases t <;> simp_all [leadingInputFails, outputFile, allOpen, allOpen_tail h]
  | inputOutput f t g ht h =>
    rw [execBuiltIn_inputOutput f g ht h]
    simp only [leadingInputFails, outputFile, ht, allOpen, allOpen_tail h, if_true, if_false]
    cases openOk f FileType.REDIRECT_IN.openFlags <;> cases openOk g t.openFlags <;> simp
  | outputInput t g f ht h =>
    rw [execBuiltIn_outputInput g f ht h]
    cases t <;> simp_all [leadingInputFails, outputFile, allOpen, allOpen_tail h]

/-- `cd < in`, with a file that does not open, at the shell's own descriptors: nothing of the
    kind holds, and standard input is closed. -/
theorem execBuiltIn_closes_stdin :
    (∃ r k', execCommandInShell FdAlloc.lowest (fun _ _ => false)
        (.mk "cd" ⟨some "cd", []⟩ false (.file .REDIRECT_IN "in" .null) .null) .SUCCESS
        Kernel.std = some (r, k') ∧ k'.get 0 = none ∧ ¬ DescriptorsRestored Kernel.std k') := by
  refine ⟨_, _, rfl, by decide, ?_⟩
  exact fun h => absurd (h.std 0 (Or.inl rfl)) (by decide)

/-- The description at `cd > out`: the file opens, so its descriptor leaks. -/
theorem execBuiltIn_restores_iff_output :
    ∃ r k', execCommandInShell FdAlloc.lowest (fun _ _ => true)
        (.mk "cd" ⟨some "cd", []⟩ false (.file .REDIRECT_OUT "out" .null) .null) .SUCCESS
        Kernel.std = some (r, k') ∧
      (DescriptorsRestored Kernel.std k' ↔
        RestoresGuard (fun _ _ => true) (.file .REDIRECT_OUT "out" .null) Kernel.std) :=
  execBuiltIn_restores_iff (fun _ _ => true)
    (.mk "cd" ⟨some "cd", []⟩ false (.file .REDIRECT_OUT "out" .null) .null) .SUCCESS Kernel.std
    (by decide) rfl (.output .REDIRECT_OUT "out" (by decide) .null) rfl

end OSPortfolio.Ish
