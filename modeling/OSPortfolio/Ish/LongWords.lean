import OSPortfolio.Ish.Alias
import OSPortfolio.Ish.EnvVars
import OSPortfolio.Ish.ExecProcess
import OSPortfolio.Ish.FixPath
import OSPortfolio.Ish.JobGroups
import OSPortfolio.Ish.PrintCommand

namespace OSPortfolio.Ish

open OSPortfolio.FixedTable OSPortfolio.Lts OSPortfolio.PathNames OSPortfolio.Posix

/-!
# Words that are too long

The parser hands on words of any length, and the shell copies them into buffers of `WORD_SIZE`
bytes: the fields of `UnixEnv` and `arr_aliases`, `curr_directory`, and the name of each job.
Every one of these copies is a `strcpy` or `strcat`, and none of them looks at the length.

* `Tables`, `builtInTables` — the tables, and what the built-ins copy into them;
* `execTables`, `childTables` — the copies of `ExecCommand`, in the shell and in a child;
* `WordStep` — one turn of the command loop that copies nothing out of its buffer;
* `MeetsWords` — what a command should do: copy only what fits, and reject a word that does
  not fit with the tables as they are;
* `WordsGuard` — all that the command copies fits, and a `setenv` of a new key without a value
  finds room;
* `words_run_iff` — after any run, **the next command does what it should exactly when it
  meets `WordsGuard`**.

The copies that `EnvGetVars` and `GetExecPath` make for a child go to buffers of their own, see
`Composed.lean`.
-/

/-! ### `cd` -/

/-- The path that `cd` builds fits, and so does the one that `FixDirPath` writes, which is
    longer only where it adds the last `/` and there is no `..`. -/
def CdFits (s : DirState) (pc : Command) (outcome : Option String) : Prop :=
  match pc.pa.params with
  | [arg] => arg ≠ "" → fitsWord (cdPath s arg) = true ∧
      (outcome = none → fitsWord (spelled (pathNames (cdPath s arg))) = true ∨
        ".." ∈ pathNames (cdPath s arg))
  | _ => True

/-- A path that does not fit is built all the same. -/
theorem filePath_overflow {s : DirState} {arg : String} (hne : arg ≠ "")
    (h : fitsWord (cdPath s arg) = false) :
    filePath s.curr_directory arg = .error .overflow := by
  rw [filePath_eq_strcpy hne]
  exact strcpy_overflow h

/-- The three ways a `cd` with an argument ends. -/
theorem funcCd_arg {pc : Command} {arg : String} (hparams : pc.pa.params = [arg])
    (outcome : Option String) (s : DirState) :
    funcCd pc outcome s = (filePath s.curr_directory arg).bind fun path =>
      match outcome with
      | none => (fixDirPath path.text).bind fun fixed =>
          .ok { state := { s with
            curr_directory := fixed, cwd := chdir path.text none s.cwd } }
      | some reason => .ok
          { state := { s with cwd := chdir path.text outcome s.cwd }
            err := ["cd " ++ pc.zCmd ++ " : " ++ reason ++ "\n"] } := by
  simp only [funcCd, hparams]
  cases outcome <;> rfl

/-- **When `cd` copies too much.** -/
theorem funcCd_overflow_iff (pc : Command) (outcome : Option String) (s : DirState) :
    funcCd pc outcome s ≠ .error .overflow ↔ CdFits s pc outcome := by
  match hparams : pc.pa.params with
  | [] =>
    rw [funcCd_home hparams]
    exact iff_of_true (by simp) (by simp [CdFits, hparams])
  | _ :: _ :: _ =>
    rw [funcCd_tooMany hparams]
    exact iff_of_true (by simp) (by simp [CdFits, hparams])
  | [arg] =>
    simp only [CdFits, hparams]
    by_cases hne : arg = ""
    · subst hne
      rw [funcCd_arg hparams, filePath_empty]
      exact iff_of_true (by simp [Except.bind]) (fun h => absurd rfl h)
    · rw [forall_prop_of_true hne]
      cases hfits : fitsWord (cdPath s arg) with
      | false =>
        rw [funcCd_arg hparams, filePath_overflow hne hfits]
        exact iff_of_false (fun h => h rfl) (by simp)
      | true =>
        have hfile := filePath_eq hne hfits
        rw [eq_self_iff_true, true_and]
        cases outcome with
        | some reason =>
          rw [funcCd_failed hparams hfile]
          exact iff_of_true (by simp) (by simp)
        | none =>
          rw [forall_prop_of_true rfl, funcCd_arg hparams, hfile]
          have hover := fixDirPath_overflow_iff hfits
          show (fixDirPath (cdPath s arg)).bind _ ≠ _ ↔ _
          cases hfix : fixDirPath (cdPath s arg) with
          | ok fixed =>
            rw [hfix] at hover
            refine iff_of_true (by simp [Except.bind]) ?_
            by_contra hnot
            rw [not_or, Bool.not_eq_true] at hnot
            exact absurd (hover.mpr hnot) (by simp)
          | error e =>
            rw [hfix, Except.error.injEq] at hover
            show Except.error e ≠ _ ↔ _
            rw [ne_eq, Except.error.injEq, hover, not_and_or, Bool.not_eq_false, not_not]

/-- A `cd` to a path that does not fit has copied it, so one that goes through with a word
    that is too long has done nothing. -/
theorem funcCd_long {pc : Command} {outcome : Option String} {s : DirState} {r : CdResult}
    (hlong : ∃ w ∈ pc.pa.params, fitsWord w = false) (h : funcCd pc outcome s = .ok r) :
    r.state = s := by
  obtain ⟨w, hw, hfits⟩ := hlong
  match hparams : pc.pa.params with
  | [] =>
    rw [hparams] at hw
    exact absurd hw List.not_mem_nil
  | _ :: _ :: _ =>
    rw [funcCd_tooMany hparams] at h
    rw [← Except.ok.inj h]
  | [arg] =>
    rw [hparams, List.mem_singleton] at hw
    subst hw
    have hne : w ≠ "" := by
      rintro rfl
      exact absurd hfits (by decide)
    have hpath : fitsWord (cdPath s w) = false := by
      by_contra hnot
      rw [Bool.not_eq_false, cdPath] at hnot
      by_cases habs : Absolute w
      · rw [if_pos habs, hfits] at hnot
        exact absurd hnot (by simp)
      · rw [if_neg habs] at hnot
        have hrest := (fitsWord_of_append hnot).2
        by_cases hclosed : Closed w
        · rw [if_pos hclosed, hfits] at hrest
          exact absurd hrest (by simp)
        · rw [if_neg hclosed] at hrest
          rw [(fitsWord_of_append hrest).1] at hfits
          exact absurd hfits (by simp)
    rw [funcCd_arg hparams, filePath_overflow hne hpath] at h
    exact absurd h (by simp [Except.bind])

/-! ### `setenv` and `alias` -/

/-- The command of an action. -/
def EnvAction.pc : EnvAction → Command
  | .setenv pc => pc
  | .unsetenv pc => pc

def AliasAction.pc : AliasAction → Command
  | .aliasCmd pc => pc
  | .unaliasCmd pc => pc

/-- The fields hold no key that is too long, and a new one would have been copied, so a command
    that goes through with a word that is too long has changed nothing. -/
theorem EnvAction.exec_long {t : EnvTable} {act : EnvAction} {r : EnvResult}
    (hinv : Inv envBounds t) (hlong : ∃ w ∈ act.pc.pa.params, fitsWord w = false)
    (h : act.exec t = .ok r) : r.table = t := by
  have hguard := (EnvAction.exec_goesThrough_iff hinv act).mp ⟨r, h⟩
  have hnew : ∀ key, fitsWord key = false → t.find key = none :=
    fun key hkey => find_eq_none_of_not_fits hinv hkey
  obtain ⟨w, hw, hfits⟩ := hlong
  cases act with
  | setenv pc =>
    simp only [EnvAction.pc] at hw
    rcases hparams : pc.pa.params with _ | ⟨key, _ | ⟨value, _ | ⟨extra, rest⟩⟩⟩
    · simp [hparams] at hw
    · simp only [hparams, List.mem_singleton] at hw
      subst hw
      simp only [EnvGuard, hparams] at hguard
      rw [(hguard (hnew w hfits)).2] at hfits
      exact absurd hfits (by simp)
    · simp only [EnvGuard, hparams] at hguard
      simp only [hparams, List.mem_cons, List.not_mem_nil, or_false] at hw
      have hpair : fitsWord key = false ∨ fitsWord value = false := by
        rcases hw with rfl | rfl
        · exact Or.inl hfits
        · exact Or.inr hfits
      obtain ⟨hmissing, hfull⟩ := full_of_not_fits hinv hpair hguard.1 hguard.2
      exact @EnvAction.exec_full t (.setenv pc) r hfull ⟨key, Or.inr ⟨value, hparams⟩, hmissing⟩ h
    · simp only [EnvAction.exec, funcSetenv, hparams] at h
      rw [← Except.ok.inj h]
  | unsetenv pc =>
    simp only [EnvAction.pc] at hw
    rcases hparams : pc.pa.params with _ | ⟨key, _ | ⟨extra, rest⟩⟩
    · simp [hparams] at hw
    · simp only [hparams, List.mem_singleton] at hw
      subst hw
      simp only [EnvAction.exec, funcUnsetenv, hparams, hnew w hfits] at h
      rw [← Except.ok.inj h]
    · simp only [EnvAction.exec, funcUnsetenv, hparams] at h
      rw [← Except.ok.inj h]

/-- A parameter that does not fit: where the command goes through it changes nothing. -/
theorem AliasAction.exec_long {t : AliasTable} {act : AliasAction} {r : AliasResult}
    (hinv : Inv aliasBounds t) (hlong : ∃ w ∈ act.pc.pa.params, fitsWord w = false)
    (h : act.exec t = .ok r) : r.table = t := by
  have hguard := (AliasAction.exec_goesThrough_iff hinv act).mp ⟨r, h⟩
  have hnew : ∀ name, fitsWord name = false → t.find name = none :=
    fun name hname => find_eq_none_of_not_fits hinv hname
  obtain ⟨w, hw, hfits⟩ := hlong
  cases act with
  | aliasCmd pc =>
    simp only [AliasAction.pc] at hw
    rcases hparams : pc.pa.params with _ | ⟨name, _ | ⟨value, _ | ⟨extra, rest⟩⟩⟩
    · simp [hparams] at hw
    · simp only [hparams, List.mem_singleton] at hw
      subst hw
      simp only [AliasAction.exec, funcAlias, hparams, hnew w hfits] at h
      rw [← Except.ok.inj h]
    · simp only [AliasGuard, hparams] at hguard
      simp only [hparams, List.mem_cons, List.not_mem_nil, or_false] at hw
      have hpair : fitsWord name = false ∨ fitsWord value = false := by
        rcases hw with rfl | rfl
        · exact Or.inl hfits
        · exact Or.inr hfits
      obtain ⟨hmissing, hfull⟩ := full_of_not_fits hinv hpair hguard.1 hguard.2
      replace hfull : t.count = WORD_LIMIT := hfull
      simp only [AliasAction.exec, funcAlias, hparams, hmissing, hfull, if_true] at h
      rw [← Except.ok.inj h]
    · simp only [AliasAction.exec, funcAlias, hparams] at h
      rw [← Except.ok.inj h]
  | unaliasCmd pc =>
    simp only [AliasAction.pc] at hw
    rcases hparams : pc.pa.params with _ | ⟨name, _ | ⟨extra, rest⟩⟩
    · simp [hparams] at hw
    · simp only [hparams, List.mem_singleton] at hw
      subst hw
      simp only [AliasAction.exec, funcUnalias, hparams, hnew w hfits] at h
      rw [← Except.ok.inj h]
    · simp only [AliasAction.exec, funcUnalias, hparams] at h
      rw [← Except.ok.inj h]

/-! ### The built-ins -/

/-- What a copy can run into: it leaves its buffer, or `cd` uses an index outside one of its
    own arrays. -/
inductive CopyFault
  | outside
  | index
  deriving DecidableEq, Repr

def bufferFault : BufferFault → CopyFault
  | .overflow => .outside
  | .index _ => .index

/-- The tables of the shell that words are copied to. -/
structure Tables where
  env : EnvTable
  aliases : AliasTable
  dirs : DirState

/-- `ExecuteBuiltInComds(pc)`, as far as these tables go; `outcome` is that of the call of
    `chdir`. -/
def builtInTables (pc : Command) (outcome : Option String) (t : Tables) :
    Except CopyFault Tables :=
  if pc.zCmd = "cd" then
    ((funcCd pc outcome t.dirs).mapError bufferFault).map fun r => { t with dirs := r.state }
  else if pc.zCmd = "alias" then
    ((funcAlias pc t.aliases).mapError fun _ => .outside).map
      fun r => { t with aliases := r.table }
  else if pc.zCmd = "unalias" then
    ((funcUnalias pc t.aliases).mapError fun _ => .outside).map
      fun r => { t with aliases := r.table }
  else if pc.zCmd = "setenv" then
    ((funcSetenv pc t.env).mapError fun _ => .outside).map fun r => { t with env := r.table }
  else if pc.zCmd = "unsetenv" then
    ((funcUnsetenv pc t.env).mapError fun _ => .outside).map fun r => { t with env := r.table }
  -- the others copy no word
  else .ok t

/-- The strings in the tables fit their buffers. -/
structure FitsTables (t : Tables) : Prop where
  env : ∀ i < t.env.count,
    fitsWord (t.env.entry i).1 = true ∧ fitsWord (t.env.entry i).2 = true
  aliases : ∀ i < t.aliases.count,
    fitsWord (t.aliases.entry i).1 = true ∧ fitsWord (t.aliases.entry i).2 = true
  directory : fitsWord t.dirs.curr_directory.text = true

/-- No copy has left its buffer.  A wrong index of `cd` into an array of its own is no copy into
    these buffers. -/
def CopiesInside (x : Except CopyFault Tables) : Prop :=
  x ≠ .error .outside ∧ ∀ t, x = .ok t → FitsTables t

/-- What a built-in copies fits, and there is an entry to copy it to. -/
def BuiltInFits (pc : Command) (outcome : Option String) (t : Tables) : Prop :=
  if pc.zCmd = "cd" then CdFits t.dirs pc outcome
  else if pc.zCmd = "alias" then AliasGuard t.aliases (.aliasCmd pc)
  else if pc.zCmd = "setenv" then EnvGuard t.env (.setenv pc)
  else True

/-- The invariant of the tables. -/
structure TablesOk (t : Tables) : Prop where
  env : Inv envBounds t.env
  aliases : Inv aliasBounds t.aliases

/-- The words of the tables fit. -/
theorem TablesOk.fits {t : Tables} (h : TablesOk t) : FitsTables t where
  env i hi := ⟨h.env.keyFits i hi, h.env.valueFits i hi⟩
  aliases i hi := ⟨h.aliases.keyFits i hi, h.aliases.valueFits i hi⟩
  directory := t.dirs.curr_directory.fits

/-- What `builtInTables` makes of the result of a built-in. -/
theorem mapError_map_eq_ok {ε ε' α β : Type} {x : Except ε α} {f : ε → ε'} {g : α → β} {b : β} :
    (x.mapError f).map g = .ok b ↔ ∃ a, x = .ok a ∧ g a = b := by
  cases x with
  | error e => simp [Except.mapError, Except.map]
  | ok a => simp [Except.mapError, Except.map]

/-- A fault that was renamed. -/
theorem mapError_map_eq_error {ε ε' α β : Type} {x : Except ε α} {f : ε → ε'} {g : α → β}
    {e' : ε'} : (x.mapError f).map g = .error e' ↔ ∃ e, x = .error e ∧ f e = e' := by
  cases x with
  | error e => simp [Except.mapError, Except.map]
  | ok a => simp [Except.mapError, Except.map]

/-- A built-in whose every fault is a copy out of its buffer. -/
theorem outside_iff_goesThrough {ε α β : Type} {x : Except ε α} {g : α → β} :
    (x.mapError fun _ => CopyFault.outside).map g ≠ .error .outside ↔ ∃ a, x = .ok a := by
  rw [ne_eq, mapError_map_eq_error]
  cases x with
  | error e => simp
  | ok a => simp

/-- `cd` leaves its buffer where a copy overflows. -/
theorem cd_outside_iff {x : Except BufferFault CdResult} {g : CdResult → Tables} :
    (x.mapError bufferFault).map g = .error .outside ↔ x = .error .overflow := by
  rw [mapError_map_eq_error]
  constructor
  · rintro ⟨e, rfl, he⟩
    cases e with
    | overflow => rfl
    | index i => cases he
  · rintro rfl
    exact ⟨_, rfl, rfl⟩

/-- **When a built-in copies nothing out of its buffer.** -/
theorem builtInTables_outside_iff {t : Tables} (h : TablesOk t) (pc : Command)
    (outcome : Option String) :
    builtInTables pc outcome t ≠ .error .outside ↔ BuiltInFits pc outcome t := by
  unfold builtInTables BuiltInFits
  by_cases hcd : pc.zCmd = "cd"
  · rw [if_pos hcd, if_pos hcd, ne_eq, cd_outside_iff]
    exact funcCd_overflow_iff pc outcome t.dirs
  rw [if_neg hcd, if_neg hcd]
  by_cases halias : pc.zCmd = "alias"
  · rw [if_pos halias, if_pos halias, outside_iff_goesThrough]
    exact AliasAction.exec_goesThrough_iff h.aliases (.aliasCmd pc)
  rw [if_neg halias, if_neg halias]
  by_cases hunalias : pc.zCmd = "unalias"
  · rw [if_pos hunalias, outside_iff_goesThrough]
    have hset : pc.zCmd ≠ "setenv" := by rw [hunalias]; decide
    rw [if_neg hset]
    exact AliasAction.exec_goesThrough_iff h.aliases (.unaliasCmd pc)
  rw [if_neg hunalias]
  by_cases hset : pc.zCmd = "setenv"
  · rw [if_pos hset, if_pos hset, outside_iff_goesThrough]
    exact EnvAction.exec_goesThrough_iff h.env (.setenv pc)
  rw [if_neg hset, if_neg hset]
  by_cases hunset : pc.zCmd = "unsetenv"
  · rw [if_pos hunset, outside_iff_goesThrough]
    exact EnvAction.exec_goesThrough_iff h.env (.unsetenv pc)
  · rw [if_neg hunset]
    exact iff_of_true (by simp) trivial

/-- All that a built-in that goes through can have done to the tables. -/
inductive TablesEffect (pc : Command) (outcome : Option String) (t : Tables) : Tables → Prop
  | cd (r : CdResult) (h : funcCd pc outcome t.dirs = .ok r) :
      TablesEffect pc outcome t { t with dirs := r.state }
  | aliasing (act : AliasAction) (hpc : act.pc = pc) (r : AliasResult)
      (h : act.exec t.aliases = .ok r) : TablesEffect pc outcome t { t with aliases := r.table }
  | environment (act : EnvAction) (hpc : act.pc = pc) (r : EnvResult)
      (h : act.exec t.env = .ok r) : TablesEffect pc outcome t { t with env := r.table }
  | other : TablesEffect pc outcome t t

/-- **A built-in** does to the tables what `TablesEffect` says. -/
theorem builtInTables_effect {pc : Command} {outcome : Option String} {t t' : Tables}
    (h : builtInTables pc outcome t = .ok t') : TablesEffect pc outcome t t' := by
  unfold builtInTables at h
  split at h
  · obtain ⟨r, hr, rfl⟩ := mapError_map_eq_ok.mp h
    exact .cd r hr
  split at h
  · obtain ⟨r, hr, rfl⟩ := mapError_map_eq_ok.mp h
    exact .aliasing (.aliasCmd pc) rfl r hr
  split at h
  · obtain ⟨r, hr, rfl⟩ := mapError_map_eq_ok.mp h
    exact .aliasing (.unaliasCmd pc) rfl r hr
  split at h
  · obtain ⟨r, hr, rfl⟩ := mapError_map_eq_ok.mp h
    exact .environment (.setenv pc) rfl r hr
  split at h
  · obtain ⟨r, hr, rfl⟩ := mapError_map_eq_ok.mp h
    exact .environment (.unsetenv pc) rfl r hr
  · obtain rfl := Except.ok.inj h
    exact .other

/-- **Step lemma.**  A built-in keeps the invariant of the tables. -/
theorem TablesOk.builtIn {pc : Command} {outcome : Option String} {t t' : Tables}
    (hok : TablesOk t) (h : builtInTables pc outcome t = .ok t') : TablesOk t' := by
  cases builtInTables_effect h with
  | cd r hr => exact ⟨hok.env, hok.aliases⟩
  | aliasing act hpc r hr => exact ⟨hok.env, (AliasAction.exec_change hr).inv hok.aliases⟩
  | environment act hpc r hr => exact ⟨(EnvAction.exec_change hr).inv hok.env, hok.aliases⟩
  | other => exact hok

/-- **A built-in** copies inside its buffers exactly if its words fit. -/
theorem copiesInside_builtIn_iff {t : Tables} (h : TablesOk t) (pc : Command)
    (outcome : Option String) :
    CopiesInside (builtInTables pc outcome t) ↔ BuiltInFits pc outcome t := by
  rw [← builtInTables_outside_iff h]
  exact and_iff_left fun t' ht' => (h.builtIn ht').fits

/-- A built-in that goes through with a word that is too long has changed nothing. -/
theorem builtInTables_long {pc : Command} {outcome : Option String} {t t' : Tables}
    (hok : TablesOk t) (hlong : ∃ w ∈ pc.pa.params, fitsWord w = false)
    (h : builtInTables pc outcome t = .ok t') : t' = t := by
  cases builtInTables_effect h with
  | cd r hr => rw [funcCd_long hlong hr]
  | aliasing act hpc r hr => rw [AliasAction.exec_long hok.aliases (hpc ▸ hlong) hr]
  | environment act hpc r hr => rw [EnvAction.exec_long hok.env (hpc ▸ hlong) hr]
  | other => rfl

/-! ### `ExecCommand` -/

/-- The shell with its tables. -/
structure WordState where
  shell : Shell
  tables : Tables

/-- What the system answers while a command is executed, with how `chdir` ends in the shell and
    in the `n`th child. -/
structure WordAnswers extends Answers where
  chdir : Option String
  childChdir : Nat → Option String

/-- One thing that the command loop does: `main` turns from `.ishrc` to a terminal, the loop
    looks for finished jobs, or it hands a command to `func_aliasing` and `ExecCommand`. -/
inductive WordAction
  | terminal
  | notify (es : List StatusEvent)
  | command (pc : Command) (sys : WordAnswers)

section
variable (A : FdAlloc OpenFile) (beyond : List Char) (strsignal : Nat → String)

/-- The copies of `ExecCommand(pc, interactive)` in the shell. -/
def execTables (pc : Command) (sys : WordAnswers) (s : WordState) : Except CopyFault Tables :=
  match checkPipelineAmbiguity pc with
  | .error _ => .ok s.tables
  | .ok isPipe =>
    if isPipe = false ∧ pc.fBackground = false ∧ checkBuiltInCommands pc = true then
      match (funcIORedirection A sys.openOk pc.prRedirects ⟨-1, -1, 0⟩ s.shell.kernel).1 with
      | .SUCCESS => builtInTables pc sys.chdir s.tables
      | _ => .ok s.tables
    -- `strcpy(job->job_name, pc->zCmd)`, with nothing in front of it
    else if fitsWord pc.zCmd = true then .ok s.tables else .error .outside

/-- The copies of the `n`th child, when it runs a built-in, to its own tables. -/
def childTables (sys : WordAnswers) (t : Tables) (n : Nat) (c : Child) :
    Option (Except CopyFault Tables) :=
  match c.start A (sys.childOpenOk n) with
  | none => none
  | some _ =>
    if checkBuiltInCommands c.pc = true then some (builtInTables c.pc (sys.childChdir n) t)
    else none

/-- The command as `ExecCommand` gets it. -/
def WordState.aliasing (s : WordState) (pc : Command) : Command :=
  funcAliasing s.tables.aliases.pairs pc

/-- One turn in which the shell copies nothing out of its buffer; what a child does stays with
    the child. -/
def WordStep (s : WordState) (a : WordAction) (s' : WordState) : Prop :=
  match a with
  | .terminal => s' = { s with shell := { s.shell with interactive := true } }
  | .notify es =>
    s' = { s with shell := { s.shell with ctl := funcJobNotification es s.shell.ctl } }
  | .command pc sys => ∃ t, execTables A (s.aliasing pc) sys s = .ok t ∧
      s' = ⟨(execCommand A beyond strsignal (s.aliasing pc) sys.toAnswers s.shell).shell, t⟩

/-- The shell as `main` starts it, in some directories. -/
def wordStart (k : Kernel) (dirs : DirState) : WordState :=
  { shell := (shellStart k).shell
    tables := { env := emptyEnv, aliases := emptyAliases, dirs } }

end

/-! ### What a command should do -/

/-- The names of the jobs in the table. -/
def jobNames (s : JobControl) : List String := s.jobs.map Job.jobName

/-- A word that would be copied as it is does not fit: the command's name, which becomes that
    of a job, or an argument of a built-in that the shell runs itself. -/
def HasLongWord (pc : Command) : Prop :=
  fitsWord pc.zCmd = false ∨
    ∃ isPipe, checkPipelineAmbiguity pc = .ok isPipe ∧ RunsInShell isPipe pc ∧
      ∃ w ∈ pc.pa.params, fitsWord w = false

section
variable (A : FdAlloc OpenFile) (beyond : List Char) (strsignal : Nat → String)

/-- What a call of `ExecCommand` should do: in the shell and in each child no copy leaves its
    buffer and the strings in the tables fit; so do the names of the jobs; and a command with a
    word that is too long is rejected, with the tables as they were. -/
structure ExecMeetsWords (pc : Command) (sys : WordAnswers) (s : WordState) : Prop where
  shell : CopiesInside (execTables A pc sys s)
  children : ∀ n c x,
    (execCommand A beyond strsignal pc sys.toAnswers s.shell).children[n]? = some c →
      childTables A sys s.tables n c = some x → CopiesInside x
  names : ∀ t, execTables A pc sys s = .ok t →
    ∀ name ∈ jobNames (execCommand A beyond strsignal pc sys.toAnswers s.shell).shell.ctl,
      fitsWord name = true
  rejects : HasLongWord pc → ∀ t, execTables A pc sys s = .ok t → t = s.tables ∧
    jobNames (execCommand A beyond strsignal pc sys.toAnswers s.shell).shell.ctl =
      jobNames s.shell.ctl

/-- What a turn of the loop should do; only a command copies words. -/
def MeetsWords (s : WordState) : WordAction → Prop
  | .command pc sys => ExecMeetsWords A beyond strsignal (s.aliasing pc) sys s
  | _ => True

end

/-- What a call of `ExecCommand` copies fits, and there is an entry to copy it to.  An
    ambiguous command copies nothing; the shell runs a built-in when the files of its redirects
    open; any other command copies its name, and each stage that gets a child and is a built-in
    is run by that child when its files open. -/
def ExecFits (pc : Command) (sys : WordAnswers) (t : Tables) : Prop :=
  ∀ isPipe, checkPipelineAmbiguity pc = .ok isPipe →
    (RunsInShell isPipe pc → allOpen sys.openOk pc.prRedirects = true →
      BuiltInFits pc sys.chdir t) ∧
    (¬ RunsInShell isPipe pc → fitsWord pc.zCmd = true ∧
      ∀ n stage, (forkedStages sys.outcome 0 (stages pc))[n]? = some stage →
        allOpen (sys.childOpenOk n) stage.prRedirects = true →
          checkBuiltInCommands stage = true → BuiltInFits stage (sys.childChdir n) t)

/-- All that the turn copies fits, and there is an entry to copy it to. -/
def WordsGuard (s : WordState) : WordAction → Prop
  | .command pc sys => ExecFits (s.aliasing pc) sys s.tables
  | _ => True

/-! ### One command -/

section
variable {A : FdAlloc OpenFile} {beyond : List Char} {strsignal : Nat → String}

/-- Marks leave the names of the jobs alone. -/
theorem jobNames_touches {s s' : JobControl} (h : Touches s s') : jobNames s' = jobNames s :=
  h.map_jobs (fun _ _ hmarked => hmarked.jobName) fun _ _ => rfl

/-- A command that is ambiguous or run by the shell itself launches nothing. -/
theorem execCommand_stays {pc : Command} (sys : Answers) (s : Shell)
    (h : ∀ isPipe, checkPipelineAmbiguity pc = .ok isPipe → RunsInShell isPipe pc) :
    jobNames (execCommand A beyond strsignal pc sys s).shell.ctl = jobNames s.ctl ∧
      (execCommand A beyond strsignal pc sys s).children = [] := by
  unfold execCommand
  cases hok : checkPipelineAmbiguity pc with
  | error message => exact ⟨rfl, rfl⟩
  | ok isPipe =>
    have hshell := h isPipe hok
    unfold RunsInShell at hshell
    dsimp only
    rw [if_pos hshell]
    unfold execInShell
    cases funcIORedirection A sys.openOk pc.prRedirects ⟨-1, -1, 0⟩ s.kernel with | mk ret rest
    cases ret with
    | SUCCESS => exact ⟨jobNames_touches (touches_executeBuiltInComds _ _ _ _ _ _ _), rfl⟩
    | FAIL => exact ⟨rfl, rfl⟩
    | QUIT => exact ⟨rfl, rfl⟩

/-- The new job keeps the name it gets. -/
theorem execCommandFork_jobName {interactive : Bool} {outcome : Nat → Outcome}
    {uninit : Int × Int} {numJobs : Nat} {pc : Command} {k : Kernel} {f : ForkState}
    (h : execCommandFork A interactive outcome uninit numJobs pc k = .ok f ∨
      execCommandFork A interactive outcome uninit numJobs pc k = .error f) :
    f.job.jobName = pc.zCmd := by
  have hstep : ∀ (s s' : ForkState) (stage : Command), s.job.jobName = pc.zCmd →
      forkStage A interactive outcome s stage = .ok s' → s'.job.jobName = pc.zCmd := by
    intro s s' stage hs hstage
    obtain ⟨c, -, -, -, -, -, hjob⟩ := forkStage_ok hstage
    rw [hjob]
    exact hs
  have hkeeps := @forkLoop_keeps A interactive outcome (fun s => s.job.jobName = pc.zCmd) hstep
    (stages pc) (forkStart uninit numJobs pc k) rfl
  rcases h with h | h
  · exact hkeeps.1 f h
  · exact hkeeps.2 f h

/-- Any other command launches a job under its name, with a child for each stage that is
    forked. -/
theorem execCommand_launches {pc : Command} {isPipe : Bool} (sys : Answers) (s : Shell)
    (hok : checkPipelineAmbiguity pc = .ok isPipe) (hnot : ¬ RunsInShell isPipe pc) :
    jobNames (execCommand A beyond strsignal pc sys s).shell.ctl =
        pc.zCmd :: jobNames s.ctl ∧
      (execCommand A beyond strsignal pc sys s).children.map Child.pc =
        forkedStages sys.outcome 0 (stages pc) := by
  unfold RunsInShell at hnot
  unfold execCommand
  rw [hok]
  dsimp only
  rw [if_neg hnot]
  unfold execForked
  cases hfork : execCommandFork A s.interactive sys.outcome sys.uninit s.ctl.numJobs pc
      s.kernel with
  | error f =>
    exact ⟨congrArg (· :: jobNames s.ctl) (execCommandFork_jobName (Or.inr hfork)),
      forkLoop_forked (stages pc) (Or.inr hfork)⟩
  | ok f =>
    refine ⟨?_, forkLoop_forked (stages pc) (Or.inl hfork)⟩
    have hwait := jobNames_touches (touches_awaitJob s.interactive pc sys (addJob f.job s.ctl))
    exact hwait.trans
      (congrArg (· :: jobNames s.ctl) (execCommandFork_jobName (Or.inl hfork)))

/-- `func_JobNotification` only removes names. -/
theorem mem_jobNames_notify {es : List StatusEvent} {s : JobControl} {name : String}
    (h : name ∈ jobNames (funcJobNotification es s)) : name ∈ jobNames s := by
  obtain ⟨job', hjob', rfl⟩ := List.mem_map.mp h
  obtain ⟨job, hjob, hsweep⟩ := List.mem_filterMap.mp hjob'
  rw [(sweepJob_marked hsweep).jobName, ← jobNames_touches (touches_recordAvailable es s)]
  exact List.mem_map_of_mem hjob

/-- Nothing is copied. -/
theorem TablesOk.copiesInside {t : Tables} (h : TablesOk t) :
    CopiesInside (.ok t : Except CopyFault Tables) :=
  ⟨by simp, fun _ ht => Except.ok.inj ht ▸ h.fits⟩

/-- An ambiguous command leaves the tables alone. -/
theorem execTables_ambiguous {pc : Command} {message : String}
    (h : checkPipelineAmbiguity pc = .error message) (sys : WordAnswers) (s : WordState) :
    execTables A pc sys s = .ok s.tables := by
  rw [execTables, h]

/-- A built-in of the shell itself, if its redirects open. -/
theorem execTables_inShell {pc : Command} {isPipe : Bool}
    (hok : checkPipelineAmbiguity pc = .ok isPipe) (hshell : RunsInShell isPipe pc)
    (sys : WordAnswers) (s : WordState) :
    execTables A pc sys s =
      if allOpen sys.openOk pc.prRedirects = true then builtInTables pc sys.chdir s.tables
      else .ok s.tables := by
  have hiff := @funcIORedirection_success_iff A sys.openOk pc.prRedirects ⟨-1, -1, 0⟩
    s.shell.kernel
  unfold RunsInShell at hshell
  rw [execTables, hok]
  dsimp only
  rw [if_pos hshell]
  by_cases hopen : allOpen sys.openOk pc.prRedirects = true
  · rw [if_pos hopen, hiff.mpr hopen]
  · rw [if_neg hopen]
    split
    · exact absurd (hiff.mp ‹_›) hopen
    · rfl

/-- A command that is forked: its name is copied for the job. -/
theorem execTables_forked {pc : Command} {isPipe : Bool}
    (hok : checkPipelineAmbiguity pc = .ok isPipe) (hnot : ¬ RunsInShell isPipe pc)
    (sys : WordAnswers) (s : WordState) :
    execTables A pc sys s =
      if fitsWord pc.zCmd = true then .ok s.tables else .error .outside := by
  unfold RunsInShell at hnot
  rw [execTables, hok]
  dsimp only
  rw [if_neg hnot]

/-- A child copies something when it is to run a built-in and its files open. -/
theorem childTables_eq_some_iff {sys : WordAnswers} {t : Tables} {n : Nat} {c : Child}
    {x : Except CopyFault Tables} :
    childTables A sys t n c = some x ↔
      allOpen (sys.childOpenOk n) c.pc.prRedirects = true ∧
        checkBuiltInCommands c.pc = true ∧ builtInTables c.pc (sys.childChdir n) t = x := by
  have hopen : (c.start A (sys.childOpenOk n)).isSome =
      allOpen (sys.childOpenOk n) c.pc.prRedirects := execProcessDescriptors_isSome _ _ _ _ _
  rw [← hopen]
  unfold childTables
  cases c.start A (sys.childOpenOk n) with
  | none => simp
  | some k =>
    by_cases hbuiltIn : checkBuiltInCommands c.pc = true
    · simp [hbuiltIn]
    · simp [hbuiltIn]

/-- A command that launches nothing is a matter of the shell's own copies. -/
theorem execMeetsWords_stays {pc : Command} {sys : WordAnswers} {s : WordState}
    (hstays : ∀ isPipe, checkPipelineAmbiguity pc = .ok isPipe → RunsInShell isPipe pc)
    (hnames : ∀ name ∈ jobNames s.shell.ctl, fitsWord name = true)
    (hsame : HasLongWord pc → ∀ t, execTables A pc sys s = .ok t → t = s.tables) :
    ExecMeetsWords A beyond strsignal pc sys s ↔ CopiesInside (execTables A pc sys s) := by
  obtain ⟨hjobs, hchildren⟩ :=
    @execCommand_stays A beyond strsignal pc sys.toAnswers s.shell hstays
  constructor
  · exact fun h => h.shell
  · intro h
    refine ⟨h, fun n c x hc => ?_, fun t _ => by rwa [hjobs],
      fun hlong t ht => ⟨hsame hlong t ht, hjobs⟩⟩
    rw [hchildren] at hc
    exact absurd hc (by simp)

/-- The names of the built-ins fit. -/
theorem fitsWord_of_builtIn {pc : Command} (h : checkBuiltInCommands pc = true) :
    fitsWord pc.zCmd = true := by
  have hmem : pc.zCmd ∈ ["alias", "unalias", "unsetenv", "cd", "setenv", "quit", "bg", "fg",
      "jobs", "kill"] := by simpa [checkBuiltInCommands] using h
  exact List.all_eq_true.mp (by decide : ["alias", "unalias", "unsetenv", "cd", "setenv",
    "quit", "bg", "fg", "jobs", "kill"].all fitsWord = true) _ hmem

/-- `CheckPipelineAmbiguity` has one result. -/
theorem execFits_iff {pc : Command} {isPipe : Bool} (hamb : checkPipelineAmbiguity pc = .ok isPipe)
    (sys : WordAnswers) (t : Tables) :
    ExecFits pc sys t ↔
      (RunsInShell isPipe pc → allOpen sys.openOk pc.prRedirects = true →
        BuiltInFits pc sys.chdir t) ∧
      (¬ RunsInShell isPipe pc → fitsWord pc.zCmd = true ∧
        ∀ n stage, (forkedStages sys.outcome 0 (stages pc))[n]? = some stage →
          allOpen (sys.childOpenOk n) stage.prRedirects = true →
            checkBuiltInCommands stage = true → BuiltInFits stage (sys.childChdir n) t) := by
  constructor
  · exact fun h => h isPipe hamb
  · intro h isPipe' hok'
    obtain rfl : isPipe' = isPipe := Except.ok.inj (hok'.symm.trans hamb)
    exact h

/-- A built-in that the shell runs itself. -/
theorem execMeetsWords_inShell {pc : Command} {isPipe : Bool} {s : WordState} {sys : WordAnswers}
    (hok : TablesOk s.tables) (hnames : ∀ name ∈ jobNames s.shell.ctl, fitsWord name = true)
    (hamb : checkPipelineAmbiguity pc = .ok isPipe) (hshell : RunsInShell isPipe pc) :
    ExecMeetsWords A beyond strsignal pc sys s ↔
      (allOpen sys.openOk pc.prRedirects = true → BuiltInFits pc sys.chdir s.tables) := by
  have hexec := @execTables_inShell A pc isPipe hamb hshell sys s
  rw [execMeetsWords_stays (fun _ h => Except.ok.inj (h.symm.trans hamb) ▸ hshell) hnames, hexec]
  · by_cases hopen : allOpen sys.openOk pc.prRedirects = true
    · rw [if_pos hopen, forall_prop_of_true hopen]
      exact copiesInside_builtIn_iff hok pc sys.chdir
    · rw [if_neg hopen]
      exact iff_of_true hok.copiesInside fun h => absurd h hopen
  · -- a word that is too long was rejected, or the redirection had failed
    intro hlong t ht
    rw [hexec] at ht
    split at ht
    · rcases hlong with hname | ⟨-, -, -, hword⟩
      · rw [fitsWord_of_builtIn hshell.2.2] at hname
        exact absurd hname (by simp)
      · exact builtInTables_long hok hword ht
    · exact (Except.ok.inj ht).symm

/-- A command that is launched: its name, and the built-ins that its children run. -/
theorem execMeetsWords_forked {pc : Command} {isPipe : Bool} {s : WordState} {sys : WordAnswers}
    (hok : TablesOk s.tables) (hnames : ∀ name ∈ jobNames s.shell.ctl, fitsWord name = true)
    (hamb : checkPipelineAmbiguity pc = .ok isPipe) (hshell : ¬ RunsInShell isPipe pc) :
    ExecMeetsWords A beyond strsignal pc sys s ↔ fitsWord pc.zCmd = true ∧
      ∀ n stage, (forkedStages sys.outcome 0 (stages pc))[n]? = some stage →
        allOpen (sys.childOpenOk n) stage.prRedirects = true →
          checkBuiltInCommands stage = true →
            BuiltInFits stage (sys.childChdir n) s.tables := by
  obtain ⟨hjobs, hchildren⟩ :=
    @execCommand_launches A beyond strsignal pc isPipe sys.toAnswers s.shell hamb hshell
  have hexec := @execTables_forked A pc isPipe hamb hshell sys s
  have hstage : ∀ (n : Nat) stage, (forkedStages sys.outcome 0 (stages pc))[n]? = some stage ↔
      ∃ c : Child, (execCommand A beyond strsignal pc sys.toAnswers
        s.shell).children[n]? = some c ∧ c.pc = stage := by
    intro n stage
    rw [← hchildren, List.getElem?_map, Option.map_eq_some_iff]
  constructor
  · intro h
    refine ⟨?_, fun n stage hn hopen hbuiltIn => ?_⟩
    · have hinside := h.shell.1
      rw [hexec] at hinside
      by_contra hnot
      rw [if_neg hnot] at hinside
      exact hinside rfl
    · obtain ⟨c, hc, rfl⟩ := (hstage n stage).mp hn
      exact (copiesInside_builtIn_iff hok c.pc (sys.childChdir n)).mp
        (h.children n c _ hc (childTables_eq_some_iff.mpr ⟨hopen, hbuiltIn, rfl⟩))
  · rintro ⟨hname, hstages⟩
    rw [if_pos hname] at hexec
    refine ⟨by rw [hexec]; exact hok.copiesInside, fun n c x hc hx => ?_, fun t _ => ?_,
      fun hlong => ?_⟩
    · obtain ⟨hopen, hbuiltIn, rfl⟩ := childTables_eq_some_iff.mp hx
      exact (copiesInside_builtIn_iff hok c.pc (sys.childChdir n)).mpr
        (hstages n c.pc ((hstage n c.pc).mpr ⟨c, hc, rfl⟩) hopen hbuiltIn)
    · rw [hjobs]
      exact List.forall_mem_cons.mpr ⟨hname, hnames⟩
    · -- no word is too long: the name fits, and the shell runs nothing itself
      rcases hlong with hlong | ⟨isPipe', hok', hyes, -⟩
      · rw [hname] at hlong
        exact absurd hlong (by simp)
      · exact absurd (Except.ok.inj (hok'.symm.trans hamb) ▸ hyes) hshell

/-- **One command, exactly.** -/
theorem execMeetsWords_iff {s : WordState} (hok : TablesOk s.tables)
    (hnames : ∀ name ∈ jobNames s.shell.ctl, fitsWord name = true) (pc : Command)
    (sys : WordAnswers) :
    ExecMeetsWords A beyond strsignal pc sys s ↔ ExecFits pc sys s.tables := by
  cases hamb : checkPipelineAmbiguity pc with
  | error message =>
    -- nothing is copied, and nothing is launched
    have hexec := @execTables_ambiguous A pc message hamb sys s
    have hnone : ∀ {isPipe : Bool} {P : Prop}, checkPipelineAmbiguity pc = .ok isPipe → P := by
      intro isPipe P h
      rw [hamb] at h
      cases h
    rw [execMeetsWords_stays (fun _ h => hnone h) hnames, hexec]
    · exact iff_of_true hok.copiesInside fun _ h => hnone h
    · intro _ t ht
      rw [hexec] at ht
      exact (Except.ok.inj ht).symm
  | ok isPipe =>
    rw [execFits_iff hamb]
    by_cases hshell : RunsInShell isPipe pc
    · rw [execMeetsWords_inShell hok hnames hamb hshell, forall_prop_of_true hshell]
      exact (and_iff_left fun hnot => absurd hshell hnot).symm
    · rw [execMeetsWords_forked hok hnames hamb hshell, forall_prop_of_true hshell]
      exact (and_iff_right fun hyes => absurd hyes hshell).symm

/-! ### Every run -/

/-- The invariant of a run: the tables are good, and the names of the jobs fit. -/
structure WordsOk (s : WordState) : Prop where
  tables : TablesOk s.tables
  names : ∀ name ∈ jobNames s.shell.ctl, fitsWord name = true

/-- A turn that copies nothing out of its buffer keeps the invariant. -/
theorem WordsOk.step {s s' : WordState} {a : WordAction} (h : WordsOk s)
    (hstep : WordStep A beyond strsignal s a s') : WordsOk s' := by
  cases a with
  | terminal =>
    obtain rfl := hstep
    exact ⟨h.tables, h.names⟩
  | notify es =>
    obtain rfl := hstep
    exact ⟨h.tables, fun name hname => h.names name (mem_jobNames_notify hname)⟩
  | command pc sys =>
    obtain ⟨t, hexec, rfl⟩ := hstep
    generalize s.aliasing pc = pc at hexec ⊢
    cases hamb : checkPipelineAmbiguity pc with
    | error message =>
      rw [execTables_ambiguous hamb] at hexec
      obtain ⟨hjobs, -⟩ := @execCommand_stays A beyond strsignal pc sys.toAnswers s.shell
        (fun isPipe hok => by rw [hamb] at hok; cases hok)
      exact ⟨Except.ok.inj hexec ▸ h.tables, by rw [hjobs]; exact h.names⟩
    | ok isPipe =>
      by_cases hshell : RunsInShell isPipe pc
      · rw [execTables_inShell hamb hshell] at hexec
        obtain ⟨hjobs, -⟩ := @execCommand_stays A beyond strsignal pc sys.toAnswers s.shell
          (fun isPipe' hok => Except.ok.inj (hok.symm.trans hamb) ▸ hshell)
        refine ⟨?_, by rw [hjobs]; exact h.names⟩
        split at hexec
        · exact h.tables.builtIn hexec
        · exact Except.ok.inj hexec ▸ h.tables
      · rw [execTables_forked hamb hshell] at hexec
        obtain ⟨hjobs, -⟩ :=
          @execCommand_launches A beyond strsignal pc isPipe sys.toAnswers s.shell hamb hshell
        split at hexec
        · rename_i hname
          exact ⟨Except.ok.inj hexec ▸ h.tables,
            by rw [hjobs]; exact List.forall_mem_cons.mpr ⟨hname, h.names⟩⟩
        · cases hexec

/-- **Words of any length.**  After any run of the shell in which it has copied nothing out of
    its buffers, the strings in the tables and the names of the jobs fit, and the next command
    does what it should exactly when all that it copies fits. -/
theorem words_run_iff {k : Kernel} {dirs : DirState} {as : List WordAction} {s : WordState}
    (h : Run (WordStep A beyond strsignal) (wordStart k dirs) as s) :
    FitsTables s.tables ∧ (∀ name ∈ jobNames s.shell.ctl, fitsWord name = true) ∧
      ∀ a, MeetsWords A beyond strsignal s a ↔ WordsGuard s a := by
  have hstart : WordsOk (wordStart k dirs) :=
    ⟨⟨emptyEnv_inv, emptyAliases_inv⟩, fun name hname => absurd hname List.not_mem_nil⟩
  have hok := h.invariant (fun _ _ _ hinv hstep => hinv.step hstep) hstart
  refine ⟨hok.tables.fits, hok.names, fun a => ?_⟩
  cases a with
  | terminal => exact Iff.rfl
  | notify es => exact Iff.rfl
  | command pc sys => exact execMeetsWords_iff hok.tables hok.names (s.aliasing pc) sys

end

/-! ### Two lines of `setenv` -/

/-- Every call succeeds. -/
def wordAnswers : WordAnswers :=
  { answering [] with chdir := none, childChdir := fun _ => none }

/-- The line `setenv a b`. -/
theorem words_run_iff_setenv : ∃ s : WordState, s.tables.env.pairs = [("a", "b")] ∧
    FitsTables s.tables ∧ (∀ name ∈ jobNames s.shell.ctl, fitsWord name = true) ∧
      ∀ a, MeetsWords FdAlloc.lowest [] (fun _ => "") s a ↔ WordsGuard s a := by
  have hstep : WordStep FdAlloc.lowest [] (fun _ => "") (wordStart Kernel.std atRoot)
      (.command (wordsCommand "setenv" ["a", "b"]) wordAnswers) _ := ⟨_, rfl, rfl⟩
  exact ⟨_, rfl, words_run_iff (Run.single hstep)⟩

/-- A name of `n` letters. -/
theorem plainName_letters {n : Nat} (hn : 0 < n) : PlainName (letters n) := by
  have hchars : ∀ n, (letters n).toList = List.replicate n 'a' := by
    intro n
    induction n with
    | zero => rfl
    | succ n ih => rw [letters, String.toList_append, ih, List.replicate_succ']; rfl
  refine ⟨fun hempty => ?_, fun c hc => ?_⟩
  · have hsize := congrArg String.utf8ByteSize hempty
    rw [utf8ByteSize_letters] at hsize
    exact absurd hsize (Nat.ne_of_gt hn)
  · rw [hchars] at hc
    rw [List.eq_of_mem_replicate hc]
    decide

/-- The line `setenv a aa..a` with a value of `WORD_SIZE` letters is read and executed, and the
    value is written behind its field. -/
theorem setenv_overruns_value :
    nextCommand (resetParser .INITIAL
        (printCommand (wordsCommand "setenv" ["a", letters WORD_SIZE]) ++ ['\n'])) =
      (wordsCommand "setenv" ["a", letters WORD_SIZE], false, ⟨.INITIAL, []⟩) ∧
    execTables FdAlloc.lowest (wordsCommand "setenv" ["a", letters WORD_SIZE]) wordAnswers
        (wordStart Kernel.std atRoot) = .error .outside ∧
    ¬ MeetsWords FdAlloc.lowest [] (fun _ => "") (wordStart Kernel.std atRoot)
        (.command (wordsCommand "setenv" ["a", letters WORD_SIZE]) wordAnswers) := by
  have hsetenv : PlainName "setenv" := ⟨by decide, List.all_eq_true.mp (by decide)⟩
  have ha : PlainName "a" := ⟨by decide, List.all_eq_true.mp (by decide)⟩
  have hplain : PlainName (letters WORD_SIZE) := plainName_letters (by decide)
  have hlong : fitsWord (letters WORD_SIZE) = false := by simp [fitsWord]
  -- nothing below depends on the letters
  generalize letters WORD_SIZE = value at hplain hlong ⊢
  have hexec : execTables FdAlloc.lowest (wordsCommand "setenv" ["a", value]) wordAnswers
      (wordStart Kernel.std atRoot) = .error .outside := by
    have hset : funcSetenv (wordsCommand "setenv" ["a", value]) emptyEnv = .error .overflow := by
      have hfind : emptyEnv.find "a" = none := rfl
      have hins : insertBack envBounds "a" value emptyEnv = .error .overflow := by
        have ha' : fitsWord "a" = true := by decide
        simp [insertBack, writeKey, writeValue, envBounds, emptyEnv, ha', hlong, WORD_LIMIT, bind,
          Except.bind]
      have hroom : emptyEnv.count ≠ WORD_LIMIT := by decide
      simp [funcSetenv, wordsCommand, hfind, hroom, hins, Except.map]
    have hname : (wordsCommand "setenv" ["a", value]).zCmd = "setenv" := rfl
    have hopen : allOpen wordAnswers.openOk (wordsCommand "setenv" ["a", value]).prRedirects =
        true := rfl
    rw [@execTables_inShell FdAlloc.lowest _ false rfl
      ⟨rfl, rfl, by simp [checkBuiltInCommands, hname]⟩, if_pos hopen]
    show builtInTables (wordsCommand "setenv" ["a", value]) none ⟨emptyEnv, emptyAliases, atRoot⟩ = _
    simp [builtInTables, hname, hset, Except.mapError, Except.map]
  refine ⟨?_, hexec, fun h => h.shell.1 hexec⟩
  refine @nextCommand_printed (wordsCommand "setenv" ["a", value]) ⟨hsetenv, ?_, trivial, trivial⟩
    ((parseLine_iff _ _).mpr ?_) []
  · intro w hw
    rcases List.mem_cons.mp hw with rfl | hw
    · exact ha
    · rwa [List.mem_singleton.mp hw]
  · exact .command (.command "setenv" (@derivesParameters_words ⟨none, ["a", value]⟩ rfl) .empty)

end OSPortfolio.Ish
