import OSPortfolio.Lib.FixedTable
import OSPortfolio.Lib.Run
import OSPortfolio.Ish.Command

namespace OSPortfolio.Ish

open OSPortfolio.FixedTable OSPortfolio.Lts

/-!
# Environment variables

`setenv` and `unsetenv` keep the environment in the array `UnixEnv` with the counter
`num_env`.  Both have a path for each number of arguments; the path of `setenv` with a value
tests for a full array, the one without a value does not.

* `funcSetenv`, `funcUnsetenv` — the two commands; a `strcpy` out of the array, or of a word
  that is too long for its field, is a `Fault`;
* `EnvStep` — one command that goes through;
* `MeetsEnv` — what a command should leave: the counter within the array, distinct keys, and
  no change where a new key finds the array full;
* `env_run_iff` — after any run of commands that all meet `EnvGuard`, the next command leaves
  that exactly when it meets `EnvGuard` too: its words fit, and it is not a `setenv` of a new
  key without a value when the array is full.
-/

/-- The length of `UnixEnv`. -/
def WORD_LIMIT : Nat := 1024

/-- The length of the buffer of a key or a value. -/
def WORD_SIZE : Nat := 1024

/-- The word and its terminator fit into a buffer. -/
def fitsWord (s : String) : Bool := s.utf8ByteSize < WORD_SIZE

/-- `UnixEnv` and `num_env`. -/
abbrev EnvTable := Table String String

/-- The array `UnixEnv`. -/
def envBounds : Bounds String String := ⟨WORD_LIMIT, fitsWord, fitsWord⟩

/-- The shell starts with no variables; the array is zeroed. -/
def emptyEnv : EnvTable := ⟨fun _ => ("", ""), 0⟩

/-- The table a command leaves and the lines it prints on `stdout` and `stderr`. -/
structure EnvResult where
  table : EnvTable
  out : List String := []
  err : List String := []

/-- The lines `setenv` prints without arguments. -/
def printEnv (t : EnvTable) : List String :=
  (List.range t.count).map (fun i => (t.entry i).1 ++ " = " ++ (t.entry i).2 ++ "\n")

/-- `func_setenv(pc)`. -/
def funcSetenv (pc : Command) (t : EnvTable) : Except Fault EnvResult :=
  match pc.pa.params with
  | [] => .ok { table := t, out := printEnv t }
  | [key] =>
    match t.find key with
    | some i => (writeValue envBounds i "" t).map (fun t => { table := t })
    -- no test for a full array on this path
    | none => (insertBack envBounds key "" t).map (fun t => { table := t })
  | [key, value] =>
    match t.find key with
    | some i => (writeValue envBounds i value t).map (fun t => { table := t })
    | none =>
      if t.count = WORD_LIMIT then
        .ok { table := t, err := ["setenv : Maximum limit reached\n"] }
      else (insertBack envBounds key value t).map (fun t => { table := t })
  | _ => .ok { table := t, err := ["setenv : Too many arguments\n"] }

/-- `func_unsetenv(pc)`. -/
def funcUnsetenv (pc : Command) (t : EnvTable) : Except Fault EnvResult :=
  match pc.pa.params with
  | [] => .ok { table := t, err := ["unsetenv: Too few arguments\n"] }
  | [key] =>
    match t.find key with
    | some i => (removeAt envBounds i t).map (fun t => { table := t })
    -- a key that is not there is no error
    | none => .ok { table := t }
  | _ => .ok { table := t, err := ["unsetenv : Too many arguments\n"] }

/-! ### Runs -/

/-- A command line that starts with `setenv` or `unsetenv`. -/
inductive EnvAction
  | setenv (pc : Command)
  | unsetenv (pc : Command)
  deriving Repr

/-- What the command does. -/
def EnvAction.exec : EnvAction → EnvTable → Except Fault EnvResult
  | .setenv pc, t => funcSetenv pc t
  | .unsetenv pc, t => funcUnsetenv pc t

/-- One command that goes through. -/
def EnvStep (t : EnvTable) (act : EnvAction) (t' : EnvTable) : Prop :=
  ∃ r, act.exec t = .ok r ∧ r.table = t'

/-- The command is a `setenv` of a key that is not in the table, with a value or without. -/
def SetsNewKey (t : EnvTable) : EnvAction → Prop
  | .setenv pc => ∃ key, (pc.pa.params = [key] ∨ ∃ value, pc.pa.params = [key, value]) ∧
      t.find key = none
  | .unsetenv _ => False

/-- The counter is within the array and the keys in use are distinct. -/
def EnvOk (t : EnvTable) : Prop :=
  t.count ≤ WORD_LIMIT ∧
    ∀ i j, i < t.count → j < t.count → (t.entry i).1 = (t.entry j).1 → i = j

/-- What a command on the table `t` should do: no write out of the array, a good table, and
    nothing at all for a new key when the array is full. -/
def MeetsEnv (t : EnvTable) (act : EnvAction) : Prop :=
  ∃ r, act.exec t = .ok r ∧ EnvOk r.table ∧
    (t.count = WORD_LIMIT → SetsNewKey t act → r.table = t)

/-- The words that the command copies into the table fit, and the command does not add a key
    without a value to a full table. -/
def EnvGuard (t : EnvTable) : EnvAction → Prop
  | .setenv pc =>
    match pc.pa.params with
    | [key] => t.find key = none → t.count < WORD_LIMIT ∧ fitsWord key = true
    | [key, value] =>
      (t.find key ≠ none → fitsWord value = true) ∧
        (t.find key = none → t.count < WORD_LIMIT → fitsWord key = true ∧ fitsWord value = true)
    | _ => True
  | .unsetenv _ => True

/-! ### One command -/

theorem envOk_of_inv {t : EnvTable} (h : Inv envBounds t) : EnvOk t := ⟨h.count_le, h.distinct⟩

theorem fitsWord_empty : fitsWord "" = true := by decide

/-- **When a command goes through.** -/
theorem EnvAction.exec_goesThrough_iff {t : EnvTable} (hinv : Inv envBounds t) (act : EnvAction) :
    (∃ r, act.exec t = .ok r) ↔ EnvGuard t act := by
  cases act with
  | unsetenv pc =>
    refine iff_of_true ?_ trivial
    rcases hparams : pc.pa.params with _ | ⟨key, _ | ⟨extra, rest⟩⟩
    · exact ⟨_, by simp [EnvAction.exec, funcUnsetenv, hparams]; rfl⟩
    · cases hfind : t.find key with
      | none => exact ⟨_, by simp [EnvAction.exec, funcUnsetenv, hparams, hfind]; rfl⟩
      | some i =>
        obtain ⟨t', hrem, -⟩ := removeAt_spec hinv (find_some hfind).1
        exact ⟨_, by simp [EnvAction.exec, funcUnsetenv, hparams, hfind, hrem, Except.map]; rfl⟩
    · exact ⟨_, by simp [EnvAction.exec, funcUnsetenv, hparams]; rfl⟩
  | setenv pc =>
    rcases hparams : pc.pa.params with _ | ⟨key, _ | ⟨value, _ | ⟨extra, rest⟩⟩⟩
    · simp [EnvAction.exec, funcSetenv, EnvGuard, hparams]
    · cases hfind : t.find key with
      | some i =>
        simp only [EnvAction.exec, funcSetenv, EnvGuard, hparams, hfind, exists_map_eq_ok,
          exists_writeValue_iff hinv hfind]
        exact iff_of_true fitsWord_empty (fun hnone => absurd hnone (by simp))
      | none =>
        -- a new key without a value: nothing has asked whether there is room
        simp only [EnvAction.exec, funcSetenv, EnvGuard, hparams, hfind, exists_map_eq_ok,
          exists_insertBack_iff, true_implies]
        show _ ∧ _ ∧ fitsWord "" = true ↔ _
        rw [fitsWord_empty, eq_self_iff_true, and_true]
        rfl
    · cases hfind : t.find key with
      | some i =>
        simp only [EnvAction.exec, funcSetenv, EnvGuard, hparams, hfind, exists_map_eq_ok,
          exists_writeValue_iff hinv hfind]
        simp [envBounds]
      | none =>
        -- a new key with a value: a full array is left alone, with a message
        by_cases hfull : t.count = WORD_LIMIT
        · simp [EnvAction.exec, funcSetenv, EnvGuard, hparams, hfind, hfull]
        · have hlt : t.count < WORD_LIMIT := Nat.lt_of_le_of_ne hinv.count_le hfull
          simp only [EnvAction.exec, funcSetenv, EnvGuard, hparams, hfind, hfull, if_false,
            exists_map_eq_ok, exists_insertBack_iff]
          simp [envBounds, hlt]
    · simp [EnvAction.exec, funcSetenv, EnvGuard, hparams]

/-- A new key finds the table full: it stays as it is. -/
theorem EnvAction.exec_full {t : EnvTable} {act : EnvAction} {r : EnvResult}
    (hfull : t.count = WORD_LIMIT) (hnew : SetsNewKey t act) (h : act.exec t = .ok r) :
    r.table = t := by
  cases act with
  | unsetenv pc => exact hnew.elim
  | setenv pc =>
    obtain ⟨key, hparams | ⟨value, hparams⟩, hfind⟩ := hnew
    · have hins : insertBack envBounds key "" t = .error (.outOfBounds t.count) :=
        insertBack_full (Nat.le_of_eq hfull.symm)
      simp [EnvAction.exec, funcSetenv, hparams, hfind, hins, Except.map] at h
    · simp only [EnvAction.exec, funcSetenv, hparams, hfind, hfull, if_true] at h
      rw [← Except.ok.inj h]

/-- What a command that goes through can have done to the table. -/
theorem EnvAction.exec_change {t : EnvTable} {act : EnvAction} {r : EnvResult}
    (h : act.exec t = .ok r) : Change envBounds t r.table := by
  -- a branch that writes leaves the table of the write, and any other the old one
  have hsame : ∀ {r' : EnvResult}, r'.table = t → (Except.ok r' : Except Fault EnvResult) = .ok r →
      Change envBounds t r.table := by
    intro r' hr' heq
    rw [← Except.ok.inj heq, hr']
    exact .same
  cases act with
  | setenv pc =>
    simp only [EnvAction.exec, funcSetenv] at h
    split at h
    · exact hsame rfl h
    · split at h
      · exact .write _ _ (eq_ok_of_map (fun _ => rfl) h)
      · exact .insert _ _ ‹_› (eq_ok_of_map (fun _ => rfl) h)
    · split at h
      · exact .write _ _ (eq_ok_of_map (fun _ => rfl) h)
      · split at h
        · exact hsame rfl h
        · exact .insert _ _ ‹_› (eq_ok_of_map (fun _ => rfl) h)
    · exact hsame rfl h
  | unsetenv pc =>
    simp only [EnvAction.exec, funcUnsetenv] at h
    split at h
    · exact hsame rfl h
    · split at h
      · exact .remove _ (find_some ‹_›).1 (eq_ok_of_map (fun _ => rfl) h)
      · exact hsame rfl h
    · exact hsame rfl h

/-- A command that goes through keeps the invariant of the table. -/
theorem EnvStep.inv {t t' : EnvTable} {act : EnvAction} (hinv : Inv envBounds t)
    (h : EnvStep t act t') : Inv envBounds t' := by
  obtain ⟨r, hexec, rfl⟩ := h
  exact (EnvAction.exec_change hexec).inv hinv

/-- **One command, exactly.** -/
theorem meetsEnv_iff {t : EnvTable} (hinv : Inv envBounds t) (act : EnvAction) :
    MeetsEnv t act ↔ EnvGuard t act := by
  rw [← EnvAction.exec_goesThrough_iff hinv act]
  constructor
  · rintro ⟨r, hexec, -⟩
    exact ⟨r, hexec⟩
  · rintro ⟨r, hexec⟩
    exact ⟨r, hexec, envOk_of_inv (EnvStep.inv hinv ⟨r, hexec, rfl⟩),
      fun hfull hnew => EnvAction.exec_full hfull hnew hexec⟩

/-! ### Every run -/

theorem emptyEnv_inv : Inv envBounds emptyEnv := by
  refine ⟨Nat.zero_le _, ?_, ?_, ?_⟩
  · intro i j hi
    exact absurd hi (Nat.not_lt_zero i)
  · intro i hi
    exact absurd hi (Nat.not_lt_zero i)
  · intro i hi
    exact absurd hi (Nat.not_lt_zero i)

/-- **The environment after any run**: the table is good, and what the next command should do
    it does exactly when its words fit and it is not a `setenv` of a new key without a value
    on a full table. -/
theorem env_run_iff {acts : List EnvAction} {t : EnvTable}
    (h : Run EnvStep emptyEnv acts t) :
    EnvOk t ∧ ∀ act, MeetsEnv t act ↔ EnvGuard t act := by
  have hinv : Inv envBounds t :=
    h.invariant (fun _ _ _ hs hstep => EnvStep.inv hs hstep) emptyEnv_inv
  exact ⟨envOk_of_inv hinv, meetsEnv_iff hinv⟩

/-- `setenv key`. -/
def setenvKey (key : String) : EnvAction :=
  .setenv (.mk "setenv" ⟨some "setenv", [key]⟩ false .null .null)

/-- `setenv key` for a new key that fits, with room in the table. -/
theorem setenvKey_step {t : EnvTable} {key : String} (hnew : t.find key = none)
    (hroom : t.count < WORD_LIMIT) (hfits : fitsWord key = true) :
    EnvStep t (setenvKey key) { t.set t.count (key, "") with count := t.count + 1 } := by
  have hins : insertBack envBounds key "" t =
      .ok { t.set t.count (key, "") with count := t.count + 1 } :=
    insertBack_eq_ok_iff.mpr ⟨hroom, hfits, fitsWord_empty, rfl⟩
  refine ⟨{ table := { t.set t.count (key, "") with count := t.count + 1 } }, ?_, rfl⟩
  simp only [setenvKey, EnvAction.exec, funcSetenv, Command.pa_mk, hnew, hins]
  rfl

/-- The table after `setenv a`. -/
theorem env_run_iff_one : ∃ t : EnvTable, t.count = 1 ∧ (t.entry 0).1 = "a" ∧
    EnvOk t ∧ ∀ act, MeetsEnv t act ↔ EnvGuard t act :=
  ⟨{ emptyEnv.set 0 ("a", "") with count := 1 }, rfl, rfl,
    env_run_iff (Run.single (setenvKey_step rfl (by decide) (by decide)))⟩

/-! ### Filling the table -/

/-- The word of `n` letters. -/
def letters : Nat → String
  | 0 => ""
  | n + 1 => letters n ++ "a"

@[simp] theorem utf8ByteSize_letters (n : Nat) : (letters n).utf8ByteSize = n := by
  induction n with
  | zero => rfl
  | succ n ih => rw [letters, String.utf8ByteSize_append, ih]; rfl

/-- Up to the limit, a run can put as many keys into the table as one likes. -/
theorem exists_run_filling (n : Nat) (hn : n ≤ WORD_LIMIT) :
    ∃ acts t, Run EnvStep emptyEnv acts t ∧ t.count = n ∧
      ∀ i < n, (t.entry i).1 = letters i := by
  -- the keys are words of different lengths, so each is new
  induction n with
  | zero => exact ⟨[], emptyEnv, .nil _, rfl, fun i hi => absurd hi (Nat.not_lt_zero i)⟩
  | succ n ih =>
    obtain ⟨acts, t, hrun, hcount, hkeys⟩ := ih (by omega)
    have hnew : t.find (letters n) = none := by
      rw [find_eq_none_iff]
      intro i hi heq
      rw [hkeys i (by omega)] at heq
      have := congrArg String.utf8ByteSize heq
      simp only [utf8ByteSize_letters] at this
      omega
    have hfits : fitsWord (letters n) = true := by
      simp only [fitsWord, utf8ByteSize_letters, decide_eq_true_eq]
      exact hn
    refine ⟨acts ++ [setenvKey (letters n)], _,
      .snoc hrun (setenvKey_step hnew (by omega) hfits), by simp [hcount], ?_⟩
    intro i hi
    show ((t.set t.count (letters n, "")).entry i).1 = letters i
    rw [Table.entry_set]
    by_cases hin : i = t.count
    · rw [if_pos hin, hin, hcount]
    · rw [if_neg hin]
      exact hkeys i (by omega)

/-- With the table full, `setenv b` writes the entry behind the array. -/
theorem setenv_overruns_table :
    ∃ acts t, Run EnvStep emptyEnv acts t ∧ t.count = WORD_LIMIT ∧
      (setenvKey "b").exec t = .error (.outOfBounds WORD_LIMIT) ∧ ¬ MeetsEnv t (setenvKey "b") := by
  obtain ⟨acts, t, hrun, hcount, hkeys⟩ := exists_run_filling WORD_LIMIT (Nat.le_refl _)
  have hnew : t.find "b" = none := by
    rw [find_eq_none_iff]
    intro i hi heq
    rw [hkeys i (by omega)] at heq
    have hlen := congrArg String.utf8ByteSize heq
    rw [utf8ByteSize_letters] at hlen
    -- `b` is as long as the second key, and another word
    obtain rfl : i = 1 := hlen
    exact absurd heq (by decide)
  have hexec : (setenvKey "b").exec t = .error (.outOfBounds WORD_LIMIT) := by
    have hins : insertBack envBounds "b" "" t = .error (.outOfBounds t.count) :=
      insertBack_full (Nat.le_of_eq hcount.symm)
    rw [hcount] at hins
    simp [setenvKey, EnvAction.exec, funcSetenv, hnew, hins, Except.map]
  refine ⟨acts, t, hrun, hcount, hexec, ?_⟩
  rintro ⟨r, hr, -⟩
  rw [hexec] at hr
  exact absurd hr (by simp)

end OSPortfolio.Ish
