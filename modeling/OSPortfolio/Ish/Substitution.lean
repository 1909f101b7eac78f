import OSPortfolio.Ish.Alias
import OSPortfolio.Ish.EnvVars
import OSPortfolio.Ish.ExecProcess
import OSPortfolio.Ish.JobGroups

namespace OSPortfolio.Ish

open OSPortfolio.Posix

/-!
# Aliases and the stages of a pipeline

`processCommands` calls `func_aliasing` on each command of a line, and that replaces `zCmd` and
nothing else.  It does not come to the later stages of a pipeline, which hang in the redirects
of the command, and it leaves `azArgs[0]`, which the parser has made from the written name.

* `stageNames` — the names of the stages;
* `LooksUp`, `looksUp_iff` — the names that are looked up for the stages are those in `zCmd`;
* `stageNames_funcAliasing` — the substitution changes the name of the first stage;
* `substitutesNames_iff` — so every stage is looked up under the substituted name exactly when
  no later stage has an alias, or the pipeline is ambiguous and nothing runs;
* `DerivesCmdSeq.argv` — every stage is parsed with the short name of its command in
  `azArgs[0]`;
* `execsShortName_iff` — it is executed with it exactly when the alias of the first stage has
  the short name of what it replaces, or is no program.
-/

/-! ### Names -/

/-- The names of the stages of a pipeline. -/
def stageNames (pc : Command) : List String := (stages pc).map Command.zCmd

/-- An alias changes a command into a command. -/
theorem funcAliasing_ne_null (aliases : List (String × String)) {pc : Command} (hpc : pc ≠ .null) :
    funcAliasing aliases pc ≠ .null := by
  cases pc with
  | null => exact absurd rfl hpc
  | mk z pa b r n => rw [funcAliasing_mk]; simp

/-- An alias changes no redirect. -/
theorem checkPipelineAmbiguity_funcAliasing (aliases : List (String × String)) (pc : Command) :
    checkPipelineAmbiguity (funcAliasing aliases pc) = checkPipelineAmbiguity pc := by
  cases pc with
  | null => rfl
  | mk z pa b r n => rw [funcAliasing_mk]; rfl

/-- **What the substitution changes.**  Only the first of the names. -/
theorem stageNames_funcAliasing (aliases : List (String × String)) (pc : Command) :
    stageNames (funcAliasing aliases pc) = (stageNames pc).modifyHead (aliased aliases) := by
  cases pc with
  | null => rfl
  | mk z pa b r n => rw [funcAliasing_mk]; rfl

/-- Nothing is executed of an ambiguous pipeline. -/
def Ambiguous (pc : Command) : Prop := ∃ message, checkPipelineAmbiguity pc = .error message

@[simp] theorem ambiguous_funcAliasing (aliases : List (String × String)) (pc : Command) :
    Ambiguous (funcAliasing aliases pc) ↔ Ambiguous pc := by
  unfold Ambiguous
  rw [checkPipelineAmbiguity_funcAliasing]

/-- The check passes, or it does not. -/
theorem not_ambiguous_iff (pc : Command) :
    ¬ Ambiguous pc ↔ ∃ isPipe, checkPipelineAmbiguity pc = .ok isPipe := by
  unfold Ambiguous
  cases checkPipelineAmbiguity pc <;> simp

/-! ### What is looked up -/

/-- In some execution of `ExecCommand(pc, interactive)` the name is looked up as that of a
    built-in or a program, for the `n`th stage: by the shell, or by the stage's child once its
    redirections are in place. -/
inductive LooksUp (pc : Command) : Nat → String → Prop
  | shell (hok : checkPipelineAmbiguity pc = .ok false) (hfore : pc.fBackground = false) :
      LooksUp pc 0 pc.zCmd
  | child {A : FdAlloc OpenFile} {beyond : List Char} {strsignal : Nat → String} {sys : Answers}
      {s : Shell} {n : Nat} {c : Child}
      (hchild : (execCommand A beyond strsignal pc sys s).children[n]? = some c)
      (hstart : (c.start A (sys.childOpenOk n)).isSome) : LooksUp pc n c.pc.zCmd

/-- An ambiguous pipeline starts no child. -/
theorem execCommand_ambiguous {A : FdAlloc OpenFile} {beyond : List Char}
    {strsignal : Nat → String} {pc : Command} (h : Ambiguous pc) (sys : Answers) (s : Shell) :
    (execCommand A beyond strsignal pc sys s).children = [] := by
  obtain ⟨message, hmessage⟩ := h
  unfold execCommand
  rw [hmessage]

/-- When every call succeeds, each stage of a pipeline that is forked has its child. -/
theorem exists_child {pc : Command} {isPipe : Bool}
    (hok : checkPipelineAmbiguity pc = .ok isPipe) (hnot : ¬ RunsInShell isPipe pc)
    {n : Nat} {stage : Command} (h : (stages pc)[n]? = some stage) :
    ∃ c, (execCommand FdAlloc.lowestAboveStd [] (fun _ => "") pc (answering [])
        (shellStart Kernel.std).shell).children[n]? = some c ∧ c.pc = stage := by
  have hall := @execCommand_stages FdAlloc.lowestAboveStd [] (fun _ => "") pc isPipe (answering [])
    hok hnot (fun n => by show (0 : Int) < 20 + n; omega) (shellStart Kernel.std).shell
  rw [← hall, List.getElem?_map, Option.map_eq_some_iff] at h
  exact h

/-- **Every stage is looked up under the name in its `zCmd`.** -/
theorem looksUp_iff {pc : Command} (hpc : pc ≠ .null) (n : Nat) (name : String) :
    LooksUp pc n name ↔ ¬ Ambiguous pc ∧ (stageNames pc)[n]? = some name := by
  rw [stageNames, List.getElem?_map]
  constructor
  · rintro (⟨hok, -⟩ | ⟨hchild, -⟩)
    · refine ⟨(not_ambiguous_iff pc).mpr ⟨_, hok⟩, ?_⟩
      rw [stages_eq pc hpc]
      rfl
    · refine ⟨fun hamb => ?_, by rw [execCommand_child hchild]; rfl⟩
      rw [execCommand_ambiguous hamb] at hchild
      exact absurd hchild (by simp)
  · rintro ⟨hnot, hname⟩
    obtain ⟨isPipe, hok⟩ := (not_ambiguous_iff pc).mp hnot
    obtain ⟨stage, hstage, rfl⟩ := Option.map_eq_some_iff.mp hname
    by_cases hshell : RunsInShell isPipe pc
    · -- the shell runs a built-in that has no pipe, so there is one stage
      obtain ⟨rfl, hfore, -⟩ := hshell
      have hsingle : stages pc = [pc] := by
        rw [stages_eq pc hpc, nextPipelineCommand_of_noPipe hok]
        rfl
      rw [hsingle] at hstage
      cases n with
      | zero =>
        obtain rfl := Option.some.inj hstage
        exact .shell hok hfore
      | succ n => exact absurd hstage (by simp)
    · obtain ⟨c, hchild, rfl⟩ := exists_child hok hshell hstage
      exact .child hchild c.start_opens

/-- Each stage of the pipeline `pc` is looked up under its written name with its alias, if it
    has one, put in its place. -/
def SubstitutesNames (aliases : List (String × String)) (pc : Command) : Prop :=
  ∀ n name, LooksUp (funcAliasing aliases pc) n name →
    ∃ written, (stageNames pc)[n]? = some written ∧ name = aliased aliases written

/-- No later stage of the pipeline has an alias that is another name. -/
def PlainBehind (aliases : List (String × String)) (pc : Command) : Prop :=
  ∀ written ∈ (stageNames pc).tail, aliased aliases written = written

/-- All stages are substituted, if those behind the first need nothing. -/
theorem substitutesNames_iff_plainBehind (aliases : List (String × String)) {pc : Command}
    (hpc : pc ≠ .null) :
    SubstitutesNames aliases pc ↔ Ambiguous pc ∨ PlainBehind aliases pc := by
  unfold SubstitutesNames PlainBehind
  simp only [looksUp_iff (funcAliasing_ne_null aliases hpc), ambiguous_funcAliasing,
    stageNames_funcAliasing]
  constructor
  · intro h
    refine or_iff_not_imp_left.mpr fun hnot written hmem => ?_
    -- a later stage is looked up under its written name
    obtain ⟨n, hn⟩ := List.mem_iff_getElem?.mp hmem
    rw [List.getElem?_tail] at hn
    obtain ⟨name, hname, heq⟩ := h (n + 1) written ⟨hnot, by
      rw [List.getElem?_modifyHead_succ, hn]⟩
    rw [hn] at hname
    obtain rfl := Option.some.inj hname
    exact heq.symm
  · rintro (hyes | hplain) n name ⟨hnot, hname⟩
    · exact absurd hyes hnot
    · cases n with
      | zero =>
        rw [List.getElem?_modifyHead_zero, Option.map_eq_some_iff] at hname
        obtain ⟨written, hwritten, rfl⟩ := hname
        exact ⟨written, hwritten, rfl⟩
      | succ n =>
        rw [List.getElem?_modifyHead_succ] at hname
        refine ⟨name, hname, (hplain name ?_).symm⟩
        exact List.mem_iff_getElem?.mpr ⟨n, by rw [List.getElem?_tail, hname]⟩

/-- `NULL` is no element of a list. -/
theorem ne_null_of_mem_commands {head pc : Command} (h : pc ∈ head.commands) : pc ≠ .null := by
  induction head using Command.nextInduction with
  | null => exact absurd h List.not_mem_nil
  | mk z pa b r n ih =>
    rcases List.mem_cons.mp h with rfl | h
    · simp
    · exact ih h

/-- **Which pipelines are looked up under the substituted names.**  For every command of a line
    and every table of aliases: exactly those that are ambiguous, of which nothing is executed,
    and those whose later stages have no alias that is another name. -/
theorem substitutesNames_iff (aliases : List (String × String)) {head pc : Command}
    (hpc : pc ∈ head.commands) :
    SubstitutesNames aliases pc ↔ Ambiguous pc ∨ PlainBehind aliases pc :=
  substitutesNames_iff_plainBehind aliases (ne_null_of_mem_commands hpc)

/-- The command of the line `A | B`. -/
def pipeOf (first second : String) : Command :=
  .mk first ⟨some first, []⟩ false
    (.pipe .PIPE (.mk second ⟨some second, []⟩ false .null .null) .null) .null

/-- The line `ls | foo`, with `echo` as the alias of `foo`: `foo` is looked up. -/
theorem later_stage_keeps_name :
    linesOf ⟨.INITIAL, "ls | foo\n".toList⟩ = [[.COMMAND "ls", .PIPE, .COMMAND "foo"], []] ∧
      parseLine [.COMMAND "ls", .PIPE, .COMMAND "foo"] = some (pipeOf "ls" "foo") ∧
      LooksUp (funcAliasing [("foo", "echo")] (pipeOf "ls" "foo")) 1 "foo" ∧
      ¬ SubstitutesNames [("foo", "echo")] (pipeOf "ls" "foo") := by
  have hlooks : LooksUp (funcAliasing [("foo", "echo")] (pipeOf "ls" "foo")) 1 "foo" :=
    (looksUp_iff (by decide) 1 "foo").mpr
      ⟨(not_ambiguous_iff _).mpr ⟨true, by decide⟩, by decide⟩
  refine ⟨by decide, by decide, hlooks, fun h => ?_⟩
  obtain ⟨written, hwritten, hname⟩ := h 1 "foo" hlooks
  obtain rfl : "foo" = written := Option.some.inj hwritten
  exact absurd hname (by decide)

/-- The line `ll | sort`, with `ls` as the alias of `ll`. -/
theorem substitutesNames_iff_first :
    parseLine [.COMMAND "ll", .PIPE, .COMMAND "sort"] = some (pipeOf "ll" "sort") ∧
      SubstitutesNames [("ll", "ls")] (pipeOf "ll" "sort") :=
  ⟨by decide, (@substitutesNames_iff [("ll", "ls")] (pipeOf "ll" "sort") (pipeOf "ll" "sort")
    List.mem_cons_self).mpr
      (Or.inr (show ∀ w ∈ ["sort"], aliased [("ll", "ls")] w = w by decide))⟩

/-! ### `azArgs[0]` -/

/-- `azArgs[0]` is the short name of the command. -/
def HasShortArgv (pc : Command) : Prop := pc.pa.zero = some (shortName pc.zCmd)

/-- Redirects to files hold no stage. -/
theorem DerivesRedirectFile.noPipe {ts : List Token} {r : Redirect}
    (h : DerivesRedirectFile ts r) (tail : Redirect) :
    stagesBelow (appendRedirect r tail) = stagesBelow tail := by
  cases h with
  | redirectIn h => cases h; rfl
  | redirectOut h => cases h <;> rfl
  | inOut h₁ h₂ => cases h₁; cases h₂ <;> rfl
  | outIn h₁ h₂ => cases h₂; cases h₁ <;> rfl

mutual

/-- The stages behind a redirect have the short names in `azArgs[0]`. -/
theorem DerivesRedirect.argv {ts : List Token} {r : Redirect} :
    DerivesRedirect ts r → ∀ stage ∈ stagesBelow r, HasShortArgv stage
  | .file h => by
    have hnone := h.noPipe .null
    rw [appendRedirect_null] at hnone
    rw [hnone]
    simp [stagesBelow]
  | .pipe h => h.argv
  | .filePipe h₁ h₂ => by
    rw [h₁.noPipe]
    exact h₂.argv
  | .empty => by simp [stagesBelow]

/-- The same behind a pipe. -/
theorem DerivesRedirectPipe.argv {ts : List Token} {r : Redirect} :
    DerivesRedirectPipe ts r → ∀ stage ∈ stagesBelow r, HasShortArgv stage
  | .pipe _ h => h.argv

/-- **Each stage of a parsed command has its short name in `azArgs[0]`.** -/
theorem DerivesCommand.argv {ts : List Token} {pc : Command} :
    DerivesCommand ts pc → ∀ stage ∈ stages pc, HasShortArgv stage
  | .command z _ h => by
    intro stage hstage
    rcases List.mem_cons.mp hstage with rfl | hstage
    · rfl
    · exact h.argv stage hstage

end

/-- The stages are the command and those below it. -/
theorem stages_hasShortArgv_iff (z : String) (pa : Args) (b : Bool) (r : Redirect) (n : Command) :
    (∀ stage ∈ stages (.mk z pa b r n), HasShortArgv stage) ↔
      pa.zero = some (shortName z) ∧ ∀ stage ∈ stagesBelow r, HasShortArgv stage := by
  rw [stages, List.forall_mem_cons]
  rfl

/-- **What the parser puts into `azArgs[0]`.**  In each command of a line, every stage has the
    short name of its command there. -/
theorem DerivesCmdSeq.argv {ts : List Token} {head : Command} (h : DerivesCmdSeq ts head) :
    ∀ pc ∈ head.commands, ∀ stage ∈ stages pc, HasShortArgv stage := by
  induction h with
  | @sequence ts₁ ts₂ t b pc₁ pc₂ h₁ h₂ h₃ ih =>
    have hfirst := h₁.argv
    obtain ⟨z, pa, r, rfl⟩ := h₁.shape
    have hcommands : (backgroundIf b (appendCommand (.mk z pa false r .null) pc₂)).commands =
        .mk z pa b r pc₂ :: pc₂.commands := by
      cases b <;> rfl
    rw [stages_hasShortArgv_iff] at hfirst
    intro pc hpc
    rw [hcommands] at hpc
    rcases List.mem_cons.mp hpc with rfl | hpc
    · rwa [stages_hasShortArgv_iff]
    · exact ih pc hpc
  | @separator ts t b pc h₁ h₂ =>
    have hfirst := h₁.argv
    obtain ⟨z, pa, r, rfl⟩ := h₁.shape
    have hcommands : (backgroundIf b (.mk z pa false r .null)).commands =
        [.mk z pa b r .null] := by
      cases b <;> rfl
    rw [stages_hasShortArgv_iff] at hfirst
    intro pc hpc
    rw [hcommands, List.mem_singleton] at hpc
    rwa [hpc, stages_hasShortArgv_iff]
  | command h =>
    have hfirst := h.argv
    obtain ⟨z, pa, r, rfl⟩ := h.shape
    intro pc hpc
    obtain rfl := List.mem_singleton.mp hpc
    exact hfirst

/-- Whenever a child of the pipeline `pc` calls `execve`, it hands over the short name of its
    command in `azArgs[0]`. -/
def ExecsShortName (aliases : List (String × String)) (pc : Command) : Prop :=
  ∀ (A : FdAlloc OpenFile) (beyond : List Char) (strsignal : Nat → String) (sys : Answers)
    (s : Shell) (n : Nat) (c : Child) (env : ExecEnv) (path : String) (argv : Args),
    (execCommand A beyond strsignal (funcAliasing aliases pc) sys s).children[n]? = some c →
    execProcess A (sys.childOpenOk n) env c = .execve path argv →
    argv.zero = some (shortName c.pc.zCmd)

/-- The alias of the first stage, if it has one, has the short name of what it replaces, or is
    the name of a built-in. -/
def KeepsShortName (aliases : List (String × String)) (pc : Command) : Prop :=
  shortName (aliased aliases pc.zCmd) = shortName pc.zCmd ∨
    checkBuiltInCommands (funcAliasing aliases pc) = true

/-- When every call succeeds, the first stage of a pipeline comes to its `execve`. -/
theorem exists_execve {pc : Command} (hpc : pc ≠ .null) (hnot : ¬ Ambiguous pc)
    (hname : checkBuiltInCommands pc = false) :
    ∃ c path, (execCommand FdAlloc.lowestAboveStd [] (fun _ => "") pc (answering [])
        (shellStart Kernel.std).shell).children[0]? = some c ∧ c.pc = pc ∧
      execProcess FdAlloc.lowestAboveStd (fun _ _ => true) everyPath c = .execve path pc.pa := by
  obtain ⟨isPipe, hok⟩ := (not_ambiguous_iff pc).mp hnot
  have hshell : ¬ RunsInShell isPipe pc := by
    rintro ⟨-, -, hbuiltIn⟩
    rw [hname] at hbuiltIn
    exact absurd hbuiltIn (by simp)
  obtain ⟨c, hchild, hc⟩ := @exists_child pc isPipe hok hshell 0 pc (by rw [stages_eq pc hpc]; rfl)
  obtain ⟨path, hexec⟩ := @execProcess_reaches c (by rw [hc]; exact hname)
  exact ⟨c, path, hchild, hc, by rw [hexec, hc]⟩

/-- The short names are right, if the alias of the first stage keeps them. -/
theorem execsShortName_iff_keeps (aliases : List (String × String)) {pc : Command}
    (hpc : pc ≠ .null) (hargv : ∀ stage ∈ stages pc, HasShortArgv stage) :
    ExecsShortName aliases pc ↔ Ambiguous pc ∨ KeepsShortName aliases pc := by
  cases pc with
  | null => exact absurd rfl hpc
  | mk z pa b r next =>
    rw [stages_hasShortArgv_iff] at hargv
    obtain ⟨hzero, hbelow⟩ := hargv
    have hrename := funcAliasing_mk aliases z pa b r next
    unfold KeepsShortName
    constructor
    · intro h
      refine or_iff_not_imp_left.mpr fun hnot => or_iff_not_imp_right.mpr fun hname => ?_
      rw [Bool.not_eq_true] at hname
      rw [← ambiguous_funcAliasing aliases] at hnot
      obtain ⟨c, path, hchild, hc, hexec⟩ := exists_execve (funcAliasing_ne_null aliases hpc) hnot
        hname
      have hshort := h _ _ _ _ _ _ c _ path _ hchild hexec
      rw [hc, hrename] at hshort
      exact Option.some.inj (hshort.symm.trans hzero)
    · intro h A beyond strsignal sys s n c env path argv hchild hexec
      obtain ⟨-, hname, -, -, rfl⟩ := execProcess_execve_iff.mp hexec
      have hstage := execCommand_child hchild
      rcases h with hamb | hkeep
      · rw [execCommand_ambiguous ((ambiguous_funcAliasing aliases _).mpr hamb)] at hchild
        exact absurd hchild (by simp)
      · rw [hrename, stages] at hstage
        cases n with
        | zero =>
          have hc := Option.some.inj hstage
          rw [← hc] at hname ⊢
          rcases hkeep with hshort | hbuiltIn
          · exact hzero.trans (congrArg some hshort.symm)
          · rw [hrename, hname] at hbuiltIn
            exact absurd hbuiltIn (by simp)
        | succ n => exact hbelow _ (List.mem_of_getElem? hstage)

/-- **Which pipelines are executed with short names.**  For every command of a line that the
    parser accepts and every table of aliases: exactly those that are ambiguous, of which
    nothing is executed, and those whose first stage has no alias with another short name,
    unless that is the name of a built-in. -/
theorem execsShortName_iff (aliases : List (String × String)) {line : List Token}
    {head pc : Command} (hline : parseLine line = some head) (hpc : pc ∈ head.commands) :
    ExecsShortName aliases pc ↔ Ambiguous pc ∨ KeepsShortName aliases pc :=
  execsShortName_iff_keeps aliases (ne_null_of_mem_commands hpc)
    (((parseLine_iff line head).mp hline).argv pc hpc)

/-- The line `foo FOO!`, with `/bin/echo` as the alias of `foo`: `/bin/echo` is executed with
    `foo` in `azArgs[0]`. -/
theorem execs_written_name :
    linesOf ⟨.INITIAL, "foo FOO!\n".toList⟩ = [wordsLine "foo" ["FOO!"], []] ∧
      parseLine (wordsLine "foo" ["FOO!"]) = some (wordsCommand "foo" ["FOO!"]) ∧
      (∃ c argv, (execCommand FdAlloc.lowest [] (fun _ => "")
          (funcAliasing [("foo", "/bin/echo")] (wordsCommand "foo" ["FOO!"])) (answering [])
          (shellStart Kernel.std).shell).children[0]? = some c ∧
        execProcess FdAlloc.lowest (fun _ _ => true) everyPath c = .execve "/bin/echo" argv ∧
        argv.zero = some "foo" ∧ shortName c.pc.zCmd = "echo") ∧
      ¬ ExecsShortName [("foo", "/bin/echo")] (wordsCommand "foo" ["FOO!"]) := by
  have hrun : ∃ c argv, (execCommand FdAlloc.lowest [] (fun _ => "")
        (funcAliasing [("foo", "/bin/echo")] (wordsCommand "foo" ["FOO!"])) (answering [])
        (shellStart Kernel.std).shell).children[0]? = some c ∧
      execProcess FdAlloc.lowest (fun _ _ => true) everyPath c = .execve "/bin/echo" argv ∧
      argv.zero = some "foo" ∧ shortName c.pc.zCmd = "echo" :=
    ⟨_, _, rfl, rfl, rfl, by decide⟩
  refine ⟨by decide, by decide, hrun, fun h => ?_⟩
  obtain ⟨c, argv, hchild, hexec, hzero, hshort⟩ := hrun
  have heq := h _ _ _ _ _ 0 c everyPath _ argv hchild hexec
  rw [hzero, hshort] at heq
  exact absurd heq (by decide)

/-- The line `echo FOO!`, with `/bin/echo` as the alias of `echo`. -/
theorem execsShortName_iff_echo :
    ExecsShortName [("echo", "/bin/echo")] (wordsCommand "echo" ["FOO!"]) :=
  (@execsShortName_iff [("echo", "/bin/echo")] (wordsLine "echo" ["FOO!"])
    (wordsCommand "echo" ["FOO!"]) (wordsCommand "echo" ["FOO!"]) (by decide)
    List.mem_cons_self).mpr (Or.inr (Or.inl (by decide)))

end OSPortfolio.Ish
