import OSPortfolio.Ish.EnvVars
import OSPortfolio.Ish.ExecPath

namespace OSPortfolio.Ish

open OSPortfolio.FixedTable OSPortfolio.PathNames

/-!
# Strings that are put together

`EnvGetVars`, `func_cd` and `GetExecPath` put two or three strings together in a buffer of
`WORD_SIZE`.  Each of the strings fits such a buffer, and nothing looks at their sum.

* `Within` — the keys, the values and the words of the command fit;
* `ComposedFit` — so does what the three functions put together;
* `SizesFit` — the sums of the sizes are below `WORD_SIZE`;
* `envGetVars_ok_iff`, `filePath_overflow_iff`, `getExecPath_overflow_iff` — one function each;
* `composedFit_iff` — **in every state, the strings fit exactly when the sums do**.
-/

/-- The strings that the shell has, and the words of the command, fit.  `curr_directory` fits by
    its type. -/
structure Within (t : EnvTable) (pc : Command) : Prop where
  key : ∀ i < t.count, fitsWord (t.entry i).1 = true
  value : ∀ i < t.count, fitsWord (t.entry i).2 = true
  name : fitsWord pc.zCmd = true
  params : ∀ w ∈ pc.pa.params, fitsWord w = true

/-- What a child looks for the program of its command with. -/
def execEnv (t : EnvTable) (s : DirState) (accessError : String → Option String) : ExecEnv :=
  ⟨t, s.curr_directory.text, accessError⟩

/-- What the shell puts together fits its buffers: the strings of the environment, the path of a
    `cd`, and the paths that are tried for a program. -/
structure ComposedFit (t : EnvTable) (s : DirState) (accessError : String → Option String)
    (pc : Command) : Prop where
  vars : ∃ vars, envGetVars t = .ok vars
  cd : pc.zCmd = "cd" → ∀ arg, pc.pa.params = [arg] →
    filePath s.curr_directory arg ≠ .error .overflow
  path : checkBuiltInCommands pc = false →
    getExecPathBuffer (execEnv t s accessError) pc.zCmd ≠ .error .overflow

/-- The `/` that a directory gets if it does not end in one. -/
def slashSize (dir : String) : Nat := if Closed dir then 0 else 1

/-- The sums of the sizes are below `WORD_SIZE`: of a key, its value and the `=`; of
    `curr_directory`, a relative argument of `cd` and its `/`; and, for a program, of
    `curr_directory`, its `/` and what follows the `./` of the name, or else of the name and each
    directory of `PATH` up to the first that has the program. -/
structure SizesFit (t : EnvTable) (s : DirState) (accessError : String → Option String)
    (pc : Command) : Prop where
  vars : ∀ i < t.count,
    (t.entry i).1.utf8ByteSize + (t.entry i).2.utf8ByteSize + 1 < WORD_SIZE
  cd : pc.zCmd = "cd" → ∀ arg, pc.pa.params = [arg] → arg ≠ "" → ¬ Absolute arg →
    s.curr_directory.text.utf8ByteSize + arg.utf8ByteSize + slashSize arg < WORD_SIZE
  dot : checkBuiltInCommands pc = false → pc.zCmd.toList.take 2 = ['.', '/'] →
    s.curr_directory.text ≠ "" →
    s.curr_directory.text.utf8ByteSize + slashSize s.curr_directory.text +
      (pc.zCmd.utf8ByteSize - 2) < WORD_SIZE
  path : checkBuiltInCommands pc = false → ¬ Absolute pc.zCmd →
    pc.zCmd.toList.take 2 ≠ ['.', '/'] →
    ∀ before d after, pathDirs (execEnv t s accessError) = before ++ d :: after →
      Misses (execEnv t s accessError) pc.zCmd before →
      d.utf8ByteSize + slashSize d + pc.zCmd.utf8ByteSize < WORD_SIZE

/-! ### Sizes -/

/-- The size of a directory with its slash. -/
theorem utf8ByteSize_withSlash (dir : String) :
    (withSlash dir).utf8ByteSize = dir.utf8ByteSize + slashSize dir := by
  unfold withSlash slashSize
  by_cases h : Closed dir
  · rw [if_pos h, if_pos h]
    rfl
  · rw [if_neg h, if_neg h, String.utf8ByteSize_append]
    rfl

theorem fitsWord_iff {s : String} : fitsWord s = true ↔ s.utf8ByteSize < WORD_SIZE := by
  rw [fitsWord, decide_eq_true_eq]

/-- A path fits if its parts, the slash and the terminator do. -/
theorem fitsWord_inDir_iff (zCmd d : String) : fitsWord (inDir zCmd d) = true ↔
    d.utf8ByteSize + slashSize d + zCmd.utf8ByteSize < WORD_SIZE := by
  rw [fitsWord_iff, inDir, String.utf8ByteSize_append, utf8ByteSize_withSlash]

/-- What follows the `./` is two bytes shorter. -/
theorem utf8ByteSize_drop_dot {name : String} (h : name.toList.take 2 = ['.', '/']) :
    (String.ofList (name.toList.drop 2)).utf8ByteSize = name.utf8ByteSize - 2 := by
  have hname : "./" ++ String.ofList (name.toList.drop 2) = name := by
    rw [← String.toList_inj, String.toList_append, @String.toList_ofList (name.toList.drop 2)]
    exact (congrArg (· ++ name.toList.drop 2) h.symm).trans (List.take_append_drop 2 _)
  have hsize := congrArg String.utf8ByteSize hname
  rw [String.utf8ByteSize_append] at hsize
  have hdot : "./".utf8ByteSize = 2 := rfl
  omega

/-- `strcpy` stays inside the table exactly if the string fits. -/
theorem strcpy_overflow_iff (s : String) : strcpy s ≠ .error .overflow ↔ fitsWord s = true := by
  cases h : fitsWord s with
  | true => rw [strcpy_ok (b := ⟨s, h⟩) rfl]; simp
  | false => rw [strcpy_overflow h]; simp

/-! ### The three functions -/

/-- A loop goes through if it goes through at each item. -/
theorem mapM_ok_iff {ε α β : Type} {f : α → Except ε β} {l : List α} :
    (∃ bs, l.mapM f = .ok bs) ↔ ∀ a ∈ l, ∃ b, f a = .ok b := by
  induction l with
  | nil => exact iff_of_true ⟨[], rfl⟩ fun a ha => absurd ha List.not_mem_nil
  | cons a l ih =>
    rw [List.forall_mem_cons, ← ih, List.mapM_cons]
    constructor
    · rintro ⟨bs, h⟩
      obtain ⟨b, hb, h⟩ := bind_eq_ok h
      obtain ⟨bs', hbs, -⟩ := bind_eq_ok h
      exact ⟨⟨b, hb⟩, bs', hbs⟩
    · rintro ⟨⟨b, hb⟩, bs, hbs⟩
      exact ⟨b :: bs, by rw [hb, hbs]; rfl⟩

/-- **`EnvGetVars`** goes through exactly when each string fits. -/
theorem envGetVars_ok_iff (t : EnvTable) : (∃ vars, envGetVars t = .ok vars) ↔
    ∀ i < t.count, (t.entry i).1.utf8ByteSize + (t.entry i).2.utf8ByteSize + 1 < WORD_SIZE := by
  have hstring : ∀ p : String × String, (∃ b, envString p = .ok b) ↔
      p.1.utf8ByteSize + p.2.utf8ByteSize + 1 < WORD_SIZE := by
    intro p
    have hsize : fitsWord (p.1 ++ "=" ++ p.2) = true ↔
        p.1.utf8ByteSize + p.2.utf8ByteSize + 1 < WORD_SIZE := by
      have heq : "=".utf8ByteSize = 1 := rfl
      rw [fitsWord_iff, String.utf8ByteSize_append, String.utf8ByteSize_append, heq,
        Nat.add_right_comm]
    rw [← hsize, envString]
    split
    · exact iff_of_true ⟨_, rfl⟩ ‹_›
    · exact iff_of_false (by simp) ‹_›
  have hloop : (∃ vars, envGetVars t = .ok vars) ↔
      ∃ vars, ((List.range t.count).mapM fun i => envString (t.entry i)) = .ok vars := by
    unfold envGetVars
    constructor
    · rintro ⟨vars, h⟩
      obtain ⟨vars', h', -⟩ := bind_eq_ok h
      exact ⟨vars', h'⟩
    · rintro ⟨vars, h⟩
      rw [h]
      exact ⟨_, rfl⟩
  rw [hloop, mapM_ok_iff]
  simp only [List.mem_range, hstring]

/-- **The path of a `cd`** is too long exactly when the sum of its parts is.  An absolute
    argument fits as it is, and an empty one goes wrong before anything is put together. -/
theorem filePath_overflow_iff (s : DirState) {arg : String} (harg : fitsWord arg = true) :
    filePath s.curr_directory arg ≠ .error .overflow ↔ (arg ≠ "" → ¬ Absolute arg →
      s.curr_directory.text.utf8ByteSize + arg.utf8ByteSize + slashSize arg < WORD_SIZE) := by
  by_cases hne : arg = ""
  · subst hne
    exact iff_of_true (by rw [filePath_empty]; simp) fun h => absurd rfl h
  · rw [filePath_eq_strcpy hne, strcpy_overflow_iff, cdPath]
    by_cases habs : Absolute arg
    · rw [if_pos habs]
      exact iff_of_true harg fun _ h => absurd habs h
    · have hsize : fitsWord (s.curr_directory.text ++ withSlash arg) = true ↔
          s.curr_directory.text.utf8ByteSize + arg.utf8ByteSize + slashSize arg < WORD_SIZE := by
        rw [fitsWord_iff, String.utf8ByteSize_append, utf8ByteSize_withSlash, Nat.add_assoc]
      rw [if_neg habs, forall_prop_of_true hne, forall_prop_of_true habs]
      exact hsize

section

variable {env : ExecEnv} {zCmd : String}

/-- A name that is a path is copied as it is. -/
theorem getExecPathBuffer_absolute (habs : Absolute zCmd) (hname : fitsWord zCmd = true) :
    getExecPathBuffer env zCmd = .ok (some ⟨zCmd, hname⟩) := by
  rw [getExecPathBuffer, if_pos habs, strcpy_ok (b := ⟨_, hname⟩) rfl]
  rfl

/-- The path below `curr_directory`.  Without one `path[-1]` is read, and nothing put together. -/
theorem getExecPathBuffer_dot_iff (habs : ¬ Absolute zCmd)
    (hdot : zCmd.toList.take 2 = ['.', '/']) :
    getExecPathBuffer env zCmd ≠ .error .overflow ↔ (env.curr_directory ≠ "" →
      env.curr_directory.utf8ByteSize + slashSize env.curr_directory +
        (zCmd.utf8ByteSize - 2) < WORD_SIZE) := by
  by_cases hcurr : env.curr_directory = ""
  · have hindex : getExecPathBuffer env zCmd = .error (.index (-1)) := by
      rw [getExecPathBuffer, if_neg habs, if_pos hdot, hcurr]
      rfl
    exact iff_of_true (by rw [hindex]; simp) fun h => absurd hcurr h
  · have hsize := String.utf8ByteSize_append (s := withSlash env.curr_directory)
      (t := String.ofList (zCmd.toList.drop 2))
    rw [utf8ByteSize_withSlash, utf8ByteSize_drop_dot hdot] at hsize
    rw [getExecPathBuffer_dot habs hdot hcurr, forall_prop_of_true hcurr, ← hsize,
      ← fitsWord_iff, ← strcpy_overflow_iff]
    cases strcpy (withSlash env.curr_directory ++ String.ofList (zCmd.toList.drop 2)) with
    | error e => simp [Except.map]
    | ok path => exact iff_of_true (by simp [Except.map]) (by simp)

/-- The paths in the directories of `PATH`. -/
theorem getExecPathBuffer_name_iff (habs : ¬ Absolute zCmd)
    (hdot : zCmd.toList.take 2 ≠ ['.', '/']) (hvalue : fitsWord (pathValue env.UnixEnv) = true) :
    getExecPathBuffer env zCmd ≠ .error .overflow ↔
      ∀ before d after, pathDirs env = before ++ d :: after → Misses env zCmd before →
        d.utf8ByteSize + slashSize d + zCmd.utf8ByteSize < WORD_SIZE := by
  have hsizes : TriedFit env zCmd (pathDirs env) ↔
      ∀ before d after, pathDirs env = before ++ d :: after → Misses env zCmd before →
        d.utf8ByteSize + slashSize d + zCmd.utf8ByteSize < WORD_SIZE := by
    simp only [TriedFit, fitsWord_inDir_iff]
  rw [getExecPathBuffer_name habs hdot hvalue, ← hsizes]
  by_cases hfit : TriedFit env zCmd (pathDirs env)
  · obtain ⟨r, hr, -⟩ := searchDirs_ok hfit
    exact iff_of_true (by rw [hr]; simp) hfit
  · exact iff_of_false (fun h => h (searchDirs_overflow hfit)) hfit

/-- A path from the root does not start with a `./`. -/
theorem not_dot_of_absolute (habs : Absolute zCmd) : zCmd.toList.take 2 ≠ ['.', '/'] := by
  intro h
  have hhead := congrArg List.head? h
  rw [List.head?_take, if_neg (by decide), show zCmd.toList.head? = some '/' from habs] at hhead
  exact absurd hhead (by decide)

/-- **The paths of `GetExecPath`** for a name that fits: one of those that are put together is
    too long exactly when the sum of its parts is. -/
theorem getExecPath_overflow_iff (hname : fitsWord zCmd = true)
    (hvalue : fitsWord (pathValue env.UnixEnv) = true) :
    getExecPathBuffer env zCmd ≠ .error .overflow ↔
      (zCmd.toList.take 2 = ['.', '/'] → env.curr_directory ≠ "" →
        env.curr_directory.utf8ByteSize + slashSize env.curr_directory +
          (zCmd.utf8ByteSize - 2) < WORD_SIZE) ∧
      (¬ Absolute zCmd → zCmd.toList.take 2 ≠ ['.', '/'] →
        ∀ before d after, pathDirs env = before ++ d :: after → Misses env zCmd before →
          d.utf8ByteSize + slashSize d + zCmd.utf8ByteSize < WORD_SIZE) := by
  by_cases habs : Absolute zCmd
  · rw [getExecPathBuffer_absolute habs hname]
    exact iff_of_true (by simp)
      ⟨fun h => absurd h (not_dot_of_absolute habs), fun h => absurd habs h⟩
  · by_cases hdot : zCmd.toList.take 2 = ['.', '/']
    · rw [getExecPathBuffer_dot_iff habs hdot, forall_prop_of_true hdot,
        and_iff_left fun _ hne => absurd hdot hne]
    · rw [getExecPathBuffer_name_iff habs hdot hvalue, and_iff_right fun h => absurd h hdot,
        forall_prop_of_true habs, forall_prop_of_true hdot]

end

/-! ### Every state -/

/-- The value of `PATH` is one of the values. -/
theorem Within.pathValue {t : EnvTable} {pc : Command} (h : Within t pc) :
    fitsWord (pathValue t) = true := by
  unfold Ish.pathValue
  split
  · rename_i i hfind
    exact h.value i (find_some hfind).1
  · exact fitsWord_empty

/-- **Which states and commands are safe.**  Where the strings and the words of the command fit,
    what the shell puts together fits exactly when the sums of the sizes are below
    `WORD_SIZE`. -/
theorem composedFit_iff {t : EnvTable} {pc : Command} (h : Within t pc) (s : DirState)
    (accessError : String → Option String) :
    ComposedFit t s accessError pc ↔ SizesFit t s accessError pc := by
  have hcd : ∀ arg, pc.pa.params = [arg] → fitsWord arg = true := fun arg hparams =>
    h.params arg (by rw [hparams]; exact List.mem_singleton_self _)
  have hpath := @getExecPath_overflow_iff (execEnv t s accessError) pc.zCmd h.name h.pathValue
  constructor
  · intro hfit
    exact ⟨(envGetVars_ok_iff t).mp hfit.vars,
      fun hname arg hparams =>
        (filePath_overflow_iff s (hcd arg hparams)).mp (hfit.cd hname arg hparams),
      fun hprog => (hpath.mp (hfit.path hprog)).1, fun hprog => (hpath.mp (hfit.path hprog)).2⟩
  · intro hsizes
    exact ⟨(envGetVars_ok_iff t).mpr hsizes.vars,
      fun hname arg hparams =>
        (filePath_overflow_iff s (hcd arg hparams)).mpr (hsizes.cd hname arg hparams),
      fun hprog => hpath.mpr ⟨hsizes.dot hprog, hsizes.path hprog⟩⟩

/-- The line `ls` in a shell with one short variable. -/
theorem composedFit_ls : ComposedFit ⟨fun _ => ("PATH", "/bin"), 1⟩ atRoot (fun _ => none)
    (wordsCommand "ls" []) := by
  have hwithin : Within ⟨fun _ => ("PATH", "/bin"), 1⟩ (wordsCommand "ls" []) :=
    ⟨fun _ _ => (by decide : fitsWord "PATH" = true),
      fun _ _ => (by decide : fitsWord "/bin" = true), by decide,
      fun _ hw => absurd hw List.not_mem_nil⟩
  have hvars : "PATH".utf8ByteSize + "/bin".utf8ByteSize + 1 < WORD_SIZE := by decide
  refine (composedFit_iff hwithin atRoot _).mpr ⟨fun _ _ => hvars, fun h => absurd h (by decide),
    fun _ h => absurd h (by decide), fun _ _ _ before d after heq _ => ?_⟩
  have hd : d ∈ ["/bin"] := by
    rw [show ["/bin"] = before ++ d :: after from heq]
    exact List.mem_append_right _ List.mem_cons_self
  rw [List.mem_singleton.mp hd]
  decide

/-- After `setenv` with a key and a value of 600 letters each, which both fit, the string for
    them does not. -/
theorem setenv_overruns_env_vars :
    ∃ t, EnvStep emptyEnv (.setenv (wordsCommand "setenv" [letters 600, letters 600])) t ∧
      Within t (wordsCommand "ls" []) ∧ envGetVars t = .error .overflow ∧
      ¬ ComposedFit t atRoot (fun _ => none) (wordsCommand "ls" []) := by
  have hfits : fitsWord (letters 600) = true := by simp [fitsWord, WORD_SIZE]
  have hlong : fitsWord (letters 600 ++ "=" ++ letters 600) = false := by
    have heq : "=".utf8ByteSize = 1 := rfl
    simp [fitsWord, WORD_SIZE, heq]
  -- nothing below depends on the letters
  generalize letters 600 = w at hfits hlong ⊢
  let t : EnvTable := { emptyEnv.set 0 (w, w) with count := 1 }
  have hvars : envGetVars t = .error .overflow := by
    show ((List.range 1).mapM fun i => envString (t.entry i)) >>= _ = _
    have hstring : envString (w, w) = .error .overflow := if_neg (by simp [hlong])
    have hentry : t.entry 0 = (w, w) := rfl
    simp [List.range_succ, hentry, hstring, bind, Except.bind]
  have hinsert : insertBack envBounds w w emptyEnv = .ok t :=
    insertBack_eq_ok_iff.mpr ⟨by decide, hfits, hfits, rfl⟩
  refine ⟨t, ⟨{ table := t }, ?_, rfl⟩, ?_, hvars, fun h => ?_⟩
  · have hfind : emptyEnv.find w = none := rfl
    have hroom : emptyEnv.count ≠ WORD_LIMIT := by decide
    simp [EnvAction.exec, funcSetenv, wordsCommand, hfind, hroom, hinsert, Except.map]
  · have hentry : ∀ i < t.count, t.entry i = (w, w) := by
      intro i hi
      obtain rfl : i = 0 := Nat.lt_one_iff.mp hi
      rfl
    exact ⟨fun i hi => by rwa [hentry i hi], fun i hi => by rwa [hentry i hi], by decide,
      fun _ hw => absurd hw List.not_mem_nil⟩
  · obtain ⟨vars, hok⟩ := h.vars
    rw [hvars] at hok
    cases hok

end OSPortfolio.Ish
