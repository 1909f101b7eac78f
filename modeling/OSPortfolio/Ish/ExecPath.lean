import OSPortfolio.Ish.ExecProcess

namespace OSPortfolio.Ish

open OSPortfolio.PathNames

/-!
# The search for a program

`GetExecPath` with the buffers of `WORD_SIZE` that it puts a path together in, and the calls of
`strtok` that take `PATH` apart.  `getExecPath` is the same function without the buffers.

* `getExecPathBuffer`, `searchTokens` — the function and its loop;
* `pathDirs` — the nonempty pieces of `PATH` between its colons;
* `TriedFit` — each path that the loop tries fits;
* `searchTokens_eq` — the loop goes through the pieces in turn;
* `searchDirs_cases` — it finds the first that qualifies, or overruns a buffer;
* `getExecPath_first` — **the path found is that of the first piece that qualifies**.
-/

/-! ### `GetExecPath` -/

/-- One path to try: the token, a `/` if it does not end in one, and the name. -/
def tmpPath (token : List Char) (zCmd : String) : Except BufferFault Buffer := do
  let tmp_path ← strcpy (String.ofList token)
  let tmp_path ← addSlash tmp_path
  let tmp_cmd ← strcpy zCmd
  strcat tmp_path tmp_cmd.text

/-- The loop over the tokens of `PATH`, from a call of `strtok` on. -/
def searchTokens (env : ExecEnv) (zCmd : String) (PATH : List Char) :
    Except BufferFault (Option Buffer) :=
  match _h : strtok ':' PATH with
  | none => .ok none
  | some (token, rest) => do
    let tmp_path ← tmpPath token zCmd
    if env.accessError tmp_path.text = none then return some (← strcpy tmp_path.text)
    else searchTokens env zCmd rest
termination_by PATH.length
decreasing_by exact length_strtok ':' _h

/-- `GetExecPath(pc, path)` for the name `zCmd`: what is in `path` when it returns `SUCCESS`, or
    `none` when it returns `FAIL`. -/
def getExecPathBuffer (env : ExecEnv) (zCmd : String) : Except BufferFault (Option Buffer) :=
  if Absolute zCmd then return some (← strcpy zCmd)
  else if zCmd.toList.take 2 = ['.', '/'] then do
    let path ← strcpy env.curr_directory
    let path ← addSlash path
    -- the characters behind the `./`, one after the other
    return some (← strcat path (String.ofList (zCmd.toList.drop 2)))
  else do
    let PATH ← strcpy (pathValue env.UnixEnv)
    if PATH.text = "" then return none else searchTokens env zCmd PATH.text.toList

/-! ### The pieces of `PATH` -/

/-- The nonempty pieces of the value of `PATH` between its colons. -/
def pathDirs (env : ExecEnv) : List String :=
  (components ':' (pathValue env.UnixEnv).toList).map String.ofList

/-- The name in a directory. -/
def inDir (zCmd d : String) : String := withSlash d ++ zCmd

/-- In none of the directories there is a program of that name. -/
def Misses (env : ExecEnv) (zCmd : String) (dirs : List String) : Prop :=
  ∀ d ∈ dirs, env.accessError (inDir zCmd d) ≠ none

/-- Each path that is tried fits: those of the directories up to the first with a program of
    that name. -/
def TriedFit (env : ExecEnv) (zCmd : String) (dirs : List String) : Prop :=
  ∀ before d after, dirs = before ++ d :: after → Misses env zCmd before →
    fitsWord (inDir zCmd d) = true

/-- The loop over the directories themselves. -/
def searchDirs (env : ExecEnv) (zCmd : String) : List String → Except BufferFault (Option Buffer)
  | [] => .ok none
  | d :: dirs => do
    let path ← strcpy (inDir zCmd d)
    if env.accessError path.text = none then return some path else searchDirs env zCmd dirs

/-- A path to try is put together in two buffers, and faults if it does not fit. -/
theorem tmpPath_eq {token : List Char} (hne : token ≠ []) (zCmd : String) :
    tmpPath token zCmd = strcpy (inDir zCmd (String.ofList token)) := by
  have hdir : String.ofList token ≠ "" := by
    intro h
    exact hne (by simpa using congrArg String.toList h)
  unfold tmpPath
  rw [← bind_assoc, strcpy_addSlash hdir]
  have hcmd : ∀ tmp_path : Buffer,
      (strcpy zCmd >>= fun tmp_cmd => strcat tmp_path tmp_cmd.text) =
        strcpy (tmp_path.text ++ zCmd) := fun tmp_path =>
    strcpy_strcpy (g := fun name => tmp_path.text ++ name) fun h => (fitsWord_of_append h).2
  simp only [hcmd]
  exact strcpy_strcpy (g := fun dir => dir ++ zCmd) fun h => (fitsWord_of_append h).1

/-- **The calls of `strtok` meet the directories in turn.** -/
theorem searchTokens_eq (env : ExecEnv) (zCmd : String) (PATH : List Char) :
    searchTokens env zCmd PATH =
      searchDirs env zCmd ((components ':' PATH).map String.ofList) := by
  fun_induction searchTokens env zCmd PATH with
  | case1 PATH h => rw [components_of_strtok_none ':' h]; rfl
  | case2 PATH token rest h ih =>
    have hcomponents := components_of_strtok ':' h
    have hmem : token ∈ components ':' PATH := by
      rw [hcomponents]
      exact List.mem_cons_self
    rw [hcomponents, List.map_cons, searchDirs, tmpPath_eq (mem_components ':' hmem).1, ih]
    -- the copy to `path` fits, as `tmp_path` is as long
    have hcopy : ∀ path : Buffer, strcpy path.text = .ok path := fun path => strcpy_ok rfl
    simp only [hcopy]
    rfl

/-! ### What the loop finds -/

theorem triedFit_cons {env : ExecEnv} {zCmd d : String} {dirs : List String} :
    TriedFit env zCmd (d :: dirs) ↔ fitsWord (inDir zCmd d) = true ∧
      (env.accessError (inDir zCmd d) ≠ none → TriedFit env zCmd dirs) := by
  constructor
  · intro h
    refine ⟨h [] d dirs rfl fun _ hmem => absurd hmem List.not_mem_nil, ?_⟩
    rintro hmiss before e after rfl hbefore
    exact h (d :: before) e after rfl (List.forall_mem_cons.mpr ⟨hmiss, hbefore⟩)
  · rintro ⟨hfits, hrest⟩ before e after heq hbefore
    cases before with
    | nil =>
      obtain ⟨rfl, -⟩ := List.cons.inj heq
      exact hfits
    | cons b before =>
      obtain ⟨rfl, rfl⟩ := List.cons.inj heq
      obtain ⟨hmiss, hbefore⟩ := List.forall_mem_cons.mp hbefore
      exact hrest hmiss before e after rfl hbefore

/-- **What the loop finds**: the first path that qualifies, if those it tries fit. -/
theorem searchDirs_ok {env : ExecEnv} {zCmd : String} {dirs : List String}
    (h : TriedFit env zCmd dirs) :
    ∃ r, searchDirs env zCmd dirs = .ok r ∧
      r.map Buffer.text =
        (dirs.map (inDir zCmd)).find? fun path => env.accessError path = none := by
  induction dirs with
  | nil => exact ⟨none, rfl, rfl⟩
  | cons d dirs ih =>
    obtain ⟨hfits, hrest⟩ := triedFit_cons.mp h
    rw [searchDirs, strcpy_ok (b := ⟨_, hfits⟩) rfl, List.map_cons]
    by_cases hfound : env.accessError (inDir zCmd d) = none
    · refine ⟨some ⟨_, hfits⟩, if_pos hfound, ?_⟩
      rw [List.find?_cons_of_pos (by simpa using hfound)]
      rfl
    · obtain ⟨r, hr, htext⟩ := ih (hrest hfound)
      refine ⟨r, (if_neg hfound).trans hr, ?_⟩
      rw [List.find?_cons_of_neg (by simpa using hfound), htext]

/-- A path that is tried and does not fit is put together all the same. -/
theorem searchDirs_overflow {env : ExecEnv} {zCmd : String} {dirs : List String}
    (h : ¬ TriedFit env zCmd dirs) : searchDirs env zCmd dirs = .error .overflow := by
  induction dirs with
  | nil => exact absurd (fun before d after heq => absurd heq (by simp)) h
  | cons d dirs ih =>
    rw [triedFit_cons, not_and_or, Bool.not_eq_true] at h
    rw [searchDirs]
    cases hfits : fitsWord (inDir zCmd d) with
    | false => rw [strcpy_overflow hfits]; rfl
    | true =>
      obtain ⟨hmiss, hrest⟩ := Classical.not_imp.mp (h.resolve_left (by simp [hfits]))
      rw [strcpy_ok (b := ⟨_, hfits⟩) rfl]
      exact (if_neg hmiss).trans (ih hrest)

/-! ### What the function returns -/

section

variable {env : ExecEnv} {zCmd : String}

/-- A name without a directory is looked for in those of `PATH`. -/
theorem getExecPathBuffer_name (habs : ¬ Absolute zCmd)
    (hdot : zCmd.toList.take 2 ≠ ['.', '/']) (hvalue : fitsWord (pathValue env.UnixEnv) = true) :
    getExecPathBuffer env zCmd = searchDirs env zCmd (pathDirs env) := by
  unfold getExecPathBuffer
  rw [if_neg habs, if_neg hdot, strcpy_ok (b := ⟨_, hvalue⟩) rfl]
  show (if pathValue env.UnixEnv = "" then .ok none else searchTokens env zCmd _) = _
  by_cases hempty : pathValue env.UnixEnv = ""
  · rw [if_pos hempty, pathDirs, hempty]
    rfl
  · rw [if_neg hempty]
    exact searchTokens_eq env zCmd _

/-- A name below `./` is put behind the working directory. -/
theorem getExecPathBuffer_dot (habs : ¬ Absolute zCmd)
    (hdot : zCmd.toList.take 2 = ['.', '/']) (hcurr : env.curr_directory ≠ "") :
    getExecPathBuffer env zCmd =
      (strcpy (withSlash env.curr_directory ++ String.ofList (zCmd.toList.drop 2))).map some := by
  unfold getExecPathBuffer
  rw [if_neg habs, if_pos hdot, ← bind_assoc, strcpy_addSlash hcurr]
  rw [← strcpy_strcpy (s := withSlash env.curr_directory)
    (g := fun dir => dir ++ String.ofList (zCmd.toList.drop 2))
    fun h => (fitsWord_of_append h).1]
  show (strcpy (withSlash env.curr_directory) >>= _) = _
  cases strcpy (withSlash env.curr_directory) with
  | error e => rfl
  | ok path =>
    show (strcat path _ >>= _) = (strcat path _).map some
    cases strcat path (String.ofList (zCmd.toList.drop 2)) <;> rfl

/-- **Where no buffer is overrun, the function is `getExecPath`.** -/
theorem getExecPathBuffer_text {r : Option Buffer} (h : getExecPathBuffer env zCmd = .ok r) :
    r.map Buffer.text = getExecPath env zCmd := by
  unfold getExecPath
  by_cases habs : Absolute zCmd
  · rw [getExecPathBuffer, if_pos habs] at h
    rw [if_pos habs]
    obtain ⟨path, hpath, hr⟩ := bind_eq_ok h
    obtain rfl := Except.ok.inj hr
    exact congrArg some (text_of_strcpy hpath)
  · rw [if_neg habs]
    by_cases hdot : zCmd.toList.take 2 = ['.', '/']
    · rw [if_pos hdot]
      by_cases hcurr : env.curr_directory = ""
      · -- `path[-1]` is read
        rw [getExecPathBuffer, if_neg habs, if_pos hdot, hcurr] at h
        cases h
      · rw [getExecPathBuffer_dot habs hdot hcurr] at h
        cases hpath : strcpy (withSlash env.curr_directory ++
            String.ofList (zCmd.toList.drop 2)) with
        | error e =>
          rw [hpath] at h
          cases h
        | ok path =>
          rw [hpath] at h
          obtain rfl := Except.ok.inj h
          exact congrArg some (text_of_strcpy hpath)
    · rw [if_neg hdot]
      cases hvalue : fitsWord (pathValue env.UnixEnv) with
      | false =>
        rw [getExecPathBuffer, if_neg habs, if_neg hdot, strcpy_overflow hvalue] at h
        cases h
      | true =>
        rw [getExecPathBuffer_name habs hdot hvalue] at h
        by_cases hfit : TriedFit env zCmd (pathDirs env)
        · obtain ⟨r', hr', htext⟩ := searchDirs_ok hfit
          obtain rfl := Except.ok.inj (h.symm.trans hr')
          rw [htext, pathDirs, List.map_map]
          rfl
        · rw [searchDirs_overflow hfit] at h
          cases h

/-- **The search of `PATH`.**  Where the paths that are tried fit their buffers, `GetExecPath`
    returns the path of the first directory in `PATH` with a program of that name, and fails
    exactly when `PATH` is not set or empty, or none of its directories has one. -/
theorem getExecPath_first (habs : ¬ Absolute zCmd) (hdot : zCmd.toList.take 2 ≠ ['.', '/'])
    (hvalue : fitsWord (pathValue env.UnixEnv) = true)
    (hfits : TriedFit env zCmd (pathDirs env)) :
    ∃ r, getExecPathBuffer env zCmd = .ok r ∧
      (∀ path, r.map Buffer.text = some path ↔
        ∃ before d after, pathDirs env = before ++ d :: after ∧ Misses env zCmd before ∧
          env.accessError (inDir zCmd d) = none ∧ path = inDir zCmd d) ∧
      (r = none ↔ env.UnixEnv.find "PATH" = none ∨ pathValue env.UnixEnv = "" ∨
        Misses env zCmd (pathDirs env)) := by
  obtain ⟨r, hr, htext⟩ := searchDirs_ok hfits
  refine ⟨r, (getExecPathBuffer_name habs hdot hvalue).trans hr, fun path => ?_, ?_⟩
  · rw [htext, List.find?_map, Option.map_eq_some_iff]
    constructor
    · rintro ⟨d, hfind, rfl⟩
      obtain ⟨hd, before, after, hdirs, hbefore⟩ := List.find?_eq_some_iff_append.mp hfind
      exact ⟨before, d, after, hdirs, by simpa [Misses] using hbefore, by simpa using hd, rfl⟩
    · rintro ⟨before, d, after, hdirs, hbefore, hd, rfl⟩
      refine ⟨d, List.find?_eq_some_iff_append.mpr ⟨by simpa using hd, before, after, hdirs, ?_⟩,
        rfl⟩
      simpa [Misses] using hbefore
  · have hnone : r = none ↔ Misses env zCmd (pathDirs env) := by
      rw [← Option.map_eq_none_iff (f := Buffer.text), htext, List.find?_eq_none]
      simp [Misses]
    rw [hnone]
    constructor
    · exact fun h => Or.inr (Or.inr h)
    · -- without a value there are no directories
      have hempty : pathValue env.UnixEnv = "" → Misses env zCmd (pathDirs env) := by
        intro h d hd
        rw [pathDirs, h] at hd
        exact absurd hd List.not_mem_nil
      rintro (h | h | h)
      · exact hempty (by rw [pathValue, h])
      · exact hempty h
      · exact h

end

/-- A system with `ls` in `/usr/bin`, and a `PATH` with empty pieces. -/
def usrBin : ExecEnv where
  UnixEnv := ⟨fun _ => ("PATH", ":/bin::/usr/bin/:/opt"), 1⟩
  curr_directory := "/"
  accessError path := if path = "/usr/bin/ls" then none else some "No such file or directory"

theorem getExecPath_first_ls : ∃ r, getExecPathBuffer usrBin "ls" = .ok r ∧
    r.map Buffer.text = some "/usr/bin/ls" := by
  have hdirs : pathDirs usrBin = ["/bin", "/usr/bin/", "/opt"] := by decide
  have hfits : TriedFit usrBin "ls" (pathDirs usrBin) := by
    rw [hdirs]
    exact triedFit_cons.mpr ⟨by decide, fun _ => triedFit_cons.mpr
      ⟨by decide, fun hmiss => absurd (by decide) hmiss⟩⟩
  obtain ⟨r, hr, hpath, -⟩ := getExecPath_first (by decide) (by decide) (by decide) hfits
  refine ⟨r, hr, (hpath _).mpr ⟨["/bin"], "/usr/bin/", ["/opt"], hdirs, ?_, by decide, by decide⟩⟩
  simp only [Misses, List.forall_mem_singleton]
  decide

end OSPortfolio.Ish
