import OSPortfolio.Ish.ChangeDir
import OSPortfolio.Ish.JobMoves

namespace OSPortfolio.Ish

open OSPortfolio.Posix OSPortfolio.PathNames

/-!
# Executing a program

What a child does once `fork` has made it: its redirections, then a built-in if it has the name
of one, and else a program that `GetExecPath` looks for.

* `getExecPath` — the path of the program for a name;
* `execProcess` — what becomes of a child;
* `execProcess_execve_iff` — when it calls `execve`, and with what;
* `getExecPath_reaches` — every name leads to a program somewhere;
* `execCommand_child` — the `n`th child of a command runs the `n`th stage of its pipeline;
* `execCommand_stages` — a command whose stages are forked, when no `fork` fails.

The buffers that the paths are put together in are in `ExecPath.lean`, and the environment that
`execve` gets is in `EnvVars.lean`.
-/

/-! ### `GetExecPath` -/

/-- What a child looks for a program with: its copies of `UnixEnv` and `curr_directory`, and the
    answers of `access(path, X_OK)`, with the message of an error. -/
structure ExecEnv where
  UnixEnv : EnvTable
  curr_directory : String
  accessError : String → Option String

/-- The value of `PATH`, or no text. -/
def pathValue (t : EnvTable) : String :=
  match t.find "PATH" with
  | some i => (t.entry i).2
  | none => ""

/-- Append a `/` to a directory that does not end in one. -/
def withSlash (dir : String) : String := if Closed dir then dir else dir ++ "/"

/-- `GetExecPath(pc, path)` for the name `zCmd`: the path, or `none` when it returns `FAIL`. -/
def getExecPath (env : ExecEnv) (zCmd : String) : Option String :=
  if Absolute zCmd then some zCmd
  else if zCmd.toList.take 2 = ['.', '/'] then
    some (withSlash env.curr_directory ++ String.ofList (zCmd.toList.drop 2))
  else
    -- the tokens of `strtok(PATH, ":")`; without a `PATH` there are none
    ((components ':' (pathValue env.UnixEnv).toList).map
      fun token => withSlash (String.ofList token) ++ zCmd).find?
        fun path => env.accessError path = none

/-! ### `ExecProcess` -/

/-- What becomes of a child: it exits as a redirection has failed, it runs a built-in and exits,
    it prints a message and exits, or it calls `execve`. -/
inductive ExecAct
  | exits
  | builtIn (pc : Command)
  | message (err : String)
  | execve (path : String) (argv : Args)
  deriving DecidableEq, Repr

/-- `ExecProcess` from `execute process` on. -/
def execute (env : ExecEnv) (pc : Command) : ExecAct :=
  if checkBuiltInCommands pc = true then .builtIn pc
  else
    match getExecPath env pc.zCmd with
    | none => .message (pc.zCmd ++ " : Command not found\n")
    | some path =>
      match env.accessError path with
      | none => .execve path pc.pa
      | some error => .message (pc.zCmd ++ " : Error : " ++ error ++ "\n")

/-- `ExecProcess(pc, ..)` in the child `c`, behind its job control. -/
def execProcess (A : FdAlloc OpenFile) (openOk : String → OpenFlags → Bool) (env : ExecEnv)
    (c : Child) : ExecAct :=
  match c.start A openOk with
  | none => .exits
  | some _ => execute env c.pc

/-- **What is handed to `execve`.**  A child calls it with the arguments of its command, if the
    redirections go through, the name is no built-in, and the path found for it can be
    executed. -/
theorem execProcess_execve_iff {A : FdAlloc OpenFile} {openOk : String → OpenFlags → Bool}
    {env : ExecEnv} {c : Child} {path : String} {argv : Args} :
    execProcess A openOk env c = .execve path argv ↔
      (c.start A openOk).isSome ∧ checkBuiltInCommands c.pc = false ∧
        getExecPath env c.pc.zCmd = some path ∧ env.accessError path = none ∧ argv = c.pc.pa := by
  unfold execProcess execute
  cases c.start A openOk with
  | none => simp
  | some k =>
    cases checkBuiltInCommands c.pc with
    | true => simp
    | false =>
      cases getExecPath env c.pc.zCmd with
      | none => simp
      | some found =>
        cases haccess : env.accessError found with
        | none =>
          simp only [haccess, Option.isSome_some, Bool.false_eq_true, if_false, true_and,
            ExecAct.execve.injEq, Option.some.injEq]
          constructor
          · rintro ⟨rfl, rfl⟩
            exact ⟨rfl, haccess, rfl⟩
          · rintro ⟨rfl, -, rfl⟩
            exact ⟨rfl, rfl⟩
        | some error =>
          simp only [haccess, Option.isSome_some, Bool.false_eq_true, if_false, true_and,
            Option.some.injEq, reduceCtorEq, false_iff]
          rintro ⟨rfl, hnone, -⟩
          rw [hnone] at haccess
          exact absurd haccess (by simp)

/-- A system on which every path can be executed, with `PATH` set to `/bin`. -/
def everyPath : ExecEnv := ⟨⟨fun _ => ("PATH", "/bin"), 1⟩, "/", fun _ => none⟩

/-- There every name leads to a program. -/
theorem getExecPath_reaches (zCmd : String) : ∃ path, getExecPath everyPath zCmd = some path := by
  unfold getExecPath
  split_ifs
  · exact ⟨_, rfl⟩
  · exact ⟨_, rfl⟩
  · exact ⟨"/bin/" ++ zCmd, rfl⟩

/-- With every file open a child gets past its redirections. -/
theorem Child.start_opens (c : Child) :
    (c.start FdAlloc.lowestAboveStd fun _ _ => true).isSome := by
  obtain ⟨v, k, heq, -⟩ := funcIORedirection_opens FdAlloc.lowestAboveStd
    (fun T => T.lowestFrom_ge 3) c.pc.prRedirects ⟨-1, -1, 0⟩ c.kernel
  unfold Child.start execProcessDescriptors
  rw [heq]
  rfl

/-- So a child whose name is no built-in calls `execve` there. -/
theorem execProcess_reaches {c : Child} (hname : checkBuiltInCommands c.pc = false) :
    ∃ path, execProcess FdAlloc.lowestAboveStd (fun _ _ => true) everyPath c =
      .execve path c.pc.pa := by
  obtain ⟨path, hpath⟩ := getExecPath_reaches c.pc.zCmd
  exact ⟨path, execProcess_execve_iff.mpr ⟨c.start_opens, hname, hpath, rfl, rfl⟩⟩

/-! ### The children of a command -/

section
variable {A : FdAlloc OpenFile} {beyond : List Char} {strsignal : Nat → String}

/-- **Each child runs its stage.** -/
theorem execCommand_child {pc : Command} {sys : Answers} {s : Shell} {n : Nat} {c : Child}
    (h : (execCommand A beyond strsignal pc sys s).children[n]? = some c) :
    (stages pc)[n]? = some c.pc := by
  -- the children are those of the fork loop, which stops early when a `fork` fails
  have hprefix : ∃ m, (execCommand A beyond strsignal pc sys s).children.map Child.pc =
      (stages pc).take m := by
    have hout := execCommand_outcome A beyond strsignal pc sys s
    generalize execCommand A beyond strsignal pc sys s = r, commandWait A beyond pc sys s = w
      at hout ⊢
    cases hout with
    | kept ret err k => exact ⟨0, rfl⟩
    | builtIn k => exact ⟨0, rfl⟩
    | exited f hfork => exact (forkLoop_stages (stages pc)).2 f hfork
    | forked f hfork =>
      have hall := (forkLoop_stages (stages pc)).1 f hfork
      exact ⟨(stages pc).length, by rw [hall, List.take_length]; rfl⟩
  obtain ⟨m, hm⟩ := hprefix
  have hget : ((stages pc).take m)[n]? = some c.pc := by
    rw [← hm, List.getElem?_map, h]
    rfl
  rw [List.getElem?_take] at hget
  split at hget
  · exact hget
  · exact absurd hget (by simp)

/-- The branch of `ExecCommand` for a built-in of the shell is taken. -/
def RunsInShell (isPipe : Bool) (pc : Command) : Prop :=
  isPipe = false ∧ pc.fBackground = false ∧ checkBuiltInCommands pc = true

/-- A command that is neither ambiguous nor run by the shell forks all its stages. -/
theorem execCommand_stages {pc : Command} {isPipe : Bool} {sys : Answers}
    (hok : checkPipelineAmbiguity pc = .ok isPipe) (hnot : ¬ RunsInShell isPipe pc)
    (hfork : ∀ n, 0 < (sys.outcome n).pid) (s : Shell) :
    (execCommand A beyond strsignal pc sys s).children.map Child.pc = stages pc := by
  obtain ⟨f, hf⟩ := @forkLoop_ends A s.interactive sys.outcome hfork (stages pc)
    (forkStart sys.uninit s.ctl.numJobs pc s.kernel)
  have hstages := (forkLoop_stages (stages pc)).1 f hf
  unfold RunsInShell at hnot
  unfold execCommand
  rw [hok]
  dsimp only
  rw [if_neg hnot]
  unfold execForked execCommandFork
  rw [hf]
  exact hstages

end

end OSPortfolio.Ish
