import Mathlib.Data.List.Induction
import OSPortfolio.Lib.OrderedMap
import OSPortfolio.Ish.Env
import OSPortfolio.Ish.ProcessCommands

namespace OSPortfolio.Ish

open OSPortfolio.FixedTable

/-!
# Aliases

`alias` and `unalias` keep the array `arr_aliases` with the counter `num_alias`, in the same
way as the environment.  Only the path that adds a name tests for a full array, and there is
no other.

* `funcAlias`, `funcUnalias` — the two commands;
* `aliasHistory` — the map that a sequence of them sets up, with at most `WORD_LIMIT` names;
* `aliasExec_represents`, `runAliases_represents` — the array holds that map;
* `lookup_aliasCmd`, `lookup_unaliasCmd` — what a command changes for a name;
* `alias_history` — so `func_aliasing` replaces a name by what the map has for it.
-/

/-- `arr_aliases` and `num_alias`. -/
abbrev AliasTable := Table String String

/-- The array `arr_aliases`. -/
def aliasBounds : Bounds String String := ⟨WORD_LIMIT, fitsWord, fitsWord⟩

/-- The shell starts with no aliases; the array is zeroed. -/
def emptyAliases : AliasTable := ⟨fun _ => ("", ""), 0⟩

/-- The table a command leaves and the lines it prints on `stdout` and `stderr`. -/
structure AliasResult where
  table : AliasTable
  out : List String := []
  err : List String := []

/-- `fprintf(stdout, "aliasing %s = %s\n", ..)` -/
def printAlias (p : String × String) : String := "aliasing " ++ p.1 ++ " = " ++ p.2 ++ "\n"

/-- `func_alias(pc)`. -/
def funcAlias (pc : Command) (t : AliasTable) : Except Fault AliasResult :=
  match pc.pa.params with
  | [] => .ok { table := t, out := (List.range t.count).map fun i => printAlias (t.entry i) }
  | [name] =>
    match t.find name with
    | some i => .ok { table := t, out := [printAlias (t.entry i)] }
    | none => .ok { table := t }
  | [name, value] =>
    match t.find name with
    | some i => (writeValue aliasBounds i value t).map fun t => { table := t }
    | none =>
      if t.count = WORD_LIMIT then
        .ok { table := t, err := ["aliasing : Maximum limit reached\n"] }
      else (insertBack aliasBounds name value t).map fun t => { table := t }
  | _ => .ok { table := t, err := ["aliasing : Too many arguments\n"] }

/-- `func_unalias(pc)`. -/
def funcUnalias (pc : Command) (t : AliasTable) : Except Fault AliasResult :=
  match pc.pa.params with
  | [] => .ok { table := t, err := ["unaliasing: Too few arguments.\n"] }
  | [name] =>
    match t.find name with
    | some i => (removeAt aliasBounds i t).map fun t => { table := t }
    -- a name that is not there is no error
    | none => .ok { table := t }
  | _ => .ok { table := t, err := ["unaliasing : Too many arguments\n"] }

/-! ### Runs -/

/-- A command `alias` or `unalias`. -/
inductive AliasAction
  | aliasCmd (pc : Command)
  | unaliasCmd (pc : Command)

/-- What the command does. -/
def AliasAction.exec : AliasAction → AliasTable → Except Fault AliasResult
  | .aliasCmd pc, t => funcAlias pc t
  | .unaliasCmd pc, t => funcUnalias pc t

/-- The table after the commands. -/
def runAliases (acts : List AliasAction) (t : AliasTable) : Except Fault AliasTable :=
  acts.foldlM (fun t act => (act.exec t).map AliasResult.table) t

/-- What the command does to the map: a new name is only bound while there is room, and other
    numbers of arguments change nothing. -/
def AliasAction.update : AliasAction → OrderedMap String String → OrderedMap String String
  | .aliasCmd pc, m =>
    match pc.pa.params with
    | [name, value] => if name ∈ m.keys ∨ m.size < WORD_LIMIT then m.bind name value else m
    | _ => m
  | .unaliasCmd pc, m =>
    match pc.pa.params with
    | [name] => m.unbind name
    | _ => m

/-- The map that the commands set up, oldest first. -/
def aliasHistory (acts : List AliasAction) : OrderedMap String String :=
  acts.foldl (fun m act => act.update m) .empty

theorem aliasHistory_snoc (acts : List AliasAction) (act : AliasAction) :
    aliasHistory (acts ++ [act]) = act.update (aliasHistory acts) := by
  simp [aliasHistory]

/-- The strings that a command copies into the table fit their buffers. -/
def AliasAction.Fits : AliasAction → Prop
  | .aliasCmd pc =>
    match pc.pa.params with
    | [name, value] => fitsWord name = true ∧ fitsWord value = true
    | _ => True
  | .unaliasCmd _ => True

/-- **Step lemma.**  A command does to the table what it does to the map. -/
theorem aliasExec_represents {t : AliasTable} {m : OrderedMap String String}
    (h : Represents aliasBounds t m) {act : AliasAction} (hfits : act.Fits) :
    ∃ r, act.exec t = .ok r ∧ Represents aliasBounds r.table (act.update m) := by
  have hcount := h.count
  have hle : t.count ≤ WORD_LIMIT := h.inv.count_le
  cases act with
  | aliasCmd pc =>
    -- one case for each number of arguments
    rcases hparams : pc.pa.params with _ | ⟨name, _ | ⟨value, _ | ⟨extra, rest⟩⟩⟩
    · simp only [AliasAction.exec, funcAlias, AliasAction.update, hparams]
      exact ⟨_, rfl, h⟩
    · simp only [AliasAction.exec, funcAlias, AliasAction.update, hparams]
      cases t.find name with
      | some i => exact ⟨_, rfl, h⟩
      | none => exact ⟨_, rfl, h⟩
    · simp only [AliasAction.Fits, hparams] at hfits
      simp only [AliasAction.exec, funcAlias, AliasAction.update, hparams]
      cases hfind : t.find name with
      | some i =>
        rw [if_pos (Or.inl (h.mem_keys hfind))]
        obtain ⟨t', hok, hrep⟩ := h.writeValue hfind hfits.2
        exact ⟨{ table := t' }, by simp [hok, Except.map], hrep⟩
      | none =>
        have hnew := h.find_none.mp hfind
        by_cases hfull : t.count = WORD_LIMIT
        · -- a new name and a full array: a message, and nothing else
          have hno : ¬ (name ∈ m.keys ∨ m.size < WORD_LIMIT) := by
            rw [not_or]
            exact ⟨hnew, by omega⟩
          rw [if_neg hno]
          simp only [hfull, if_true]
          exact ⟨_, rfl, h⟩
        · have hroom : t.count < WORD_LIMIT := by omega
          rw [if_pos (Or.inr (hcount ▸ hroom))]
          obtain ⟨t', hok, hrep⟩ := h.insertBack hfind hroom hfits.1 hfits.2
          exact ⟨{ table := t' }, by simp [hok, hfull, Except.map], hrep⟩
    · simp only [AliasAction.exec, funcAlias, AliasAction.update, hparams]
      exact ⟨_, rfl, h⟩
  | unaliasCmd pc =>
    rcases hparams : pc.pa.params with _ | ⟨name, _ | ⟨value, rest⟩⟩
    · simp only [AliasAction.exec, funcUnalias, AliasAction.update, hparams]
      exact ⟨_, rfl, h⟩
    · simp only [AliasAction.exec, funcUnalias, AliasAction.update, hparams]
      cases hfind : t.find name with
      | some i =>
        obtain ⟨t', hok, hrep⟩ := h.removeAt hfind
        exact ⟨{ table := t' }, by simp [hok, Except.map], hrep⟩
      | none =>
        rw [OrderedMap.unbind_of_not_mem (h.find_none.mp hfind)]
        exact ⟨_, rfl, h⟩
    · simp only [AliasAction.exec, funcUnalias, AliasAction.update, hparams]
      exact ⟨_, rfl, h⟩

theorem emptyAliases_inv : Inv aliasBounds emptyAliases := emptyEnv_inv

/-- **Run lemma.** -/
theorem runAliases_represents {acts : List AliasAction} (hfits : ∀ act ∈ acts, act.Fits) :
    ∃ t, runAliases acts emptyAliases = .ok t ∧ Represents aliasBounds t (aliasHistory acts) := by
  induction acts using List.reverseRecOn with
  | nil => exact ⟨emptyAliases, rfl, emptyAliases_inv, rfl⟩
  | append_singleton acts act ih =>
    obtain ⟨t, hrun, hrep⟩ := ih fun act hact => hfits act (by simp [hact])
    obtain ⟨r, hexec, hrep'⟩ := aliasExec_represents hrep (hfits act (by simp))
    refine ⟨r.table, ?_, by rw [aliasHistory_snoc]; exact hrep'⟩
    unfold runAliases at hrun ⊢
    rw [List.foldlM_append, hrun]
    simp [hexec, Except.map, bind, Except.bind, pure, Except.pure]

/-! ### What one command can do -/

/-- The strings that an `alias` copies into the table `t` fit. -/
def AliasGuard (t : AliasTable) : AliasAction → Prop
  | .aliasCmd pc =>
    match pc.pa.params with
    | [name, value] =>
      (t.find name ≠ none → fitsWord value = true) ∧
        (t.find name = none → t.count < WORD_LIMIT →
          fitsWord name = true ∧ fitsWord value = true)
    | _ => True
  | .unaliasCmd _ => True

/-- **When a command goes through.** -/
theorem AliasAction.exec_goesThrough_iff {t : AliasTable} (hinv : Inv aliasBounds t)
    (act : AliasAction) : (∃ r, act.exec t = .ok r) ↔ AliasGuard t act := by
  cases act with
  | unaliasCmd pc =>
    refine iff_of_true ?_ trivial
    rcases hparams : pc.pa.params with _ | ⟨name, _ | ⟨extra, rest⟩⟩
    · exact ⟨_, by simp [AliasAction.exec, funcUnalias, hparams]; rfl⟩
    · cases hfind : t.find name with
      | none => exact ⟨_, by simp [AliasAction.exec, funcUnalias, hparams, hfind]; rfl⟩
      | some i =>
        obtain ⟨t', hrem, -⟩ := removeAt_spec hinv (find_some hfind).1
        exact ⟨_, by simp [AliasAction.exec, funcUnalias, hparams, hfind, hrem, Except.map]; rfl⟩
    · exact ⟨_, by simp [AliasAction.exec, funcUnalias, hparams]; rfl⟩
  | aliasCmd pc =>
    rcases hparams : pc.pa.params with _ | ⟨name, _ | ⟨value, _ | ⟨extra, rest⟩⟩⟩
    · simp [AliasAction.exec, funcAlias, AliasGuard, hparams]
    · cases hfind : t.find name <;>
        simp [AliasAction.exec, funcAlias, AliasGuard, hparams, hfind]
    · cases hfind : t.find name with
      | some i =>
        simp only [AliasAction.exec, funcAlias, AliasGuard, hparams, hfind, exists_map_eq_ok,
          exists_writeValue_iff hinv hfind]
        simp [aliasBounds]
      | none =>
        -- a full array is left alone, with a message
        by_cases hfull : t.count = WORD_LIMIT
        · simp [AliasAction.exec, funcAlias, AliasGuard, hparams, hfind, hfull]
        · have hlt : t.count < WORD_LIMIT := Nat.lt_of_le_of_ne hinv.count_le hfull
          simp only [AliasAction.exec, funcAlias, AliasGuard, hparams, hfind, hfull, if_false,
            exists_map_eq_ok, exists_insertBack_iff]
          simp [aliasBounds, hlt]
    · simp [AliasAction.exec, funcAlias, AliasGuard, hparams]

/-- What a command that goes through can have done to the table. -/
theorem AliasAction.exec_change {t : AliasTable} {act : AliasAction} {r : AliasResult}
    (h : act.exec t = .ok r) : Change aliasBounds t r.table := by
  have hsame : ∀ {r' : AliasResult}, r'.table = t →
      (Except.ok r' : Except Fault AliasResult) = .ok r → Change aliasBounds t r.table := by
    intro r' hr' heq
    rw [← Except.ok.inj heq, hr']
    exact .same
  cases act with
  | aliasCmd pc =>
    simp only [AliasAction.exec, funcAlias] at h
    split at h
    · exact hsame rfl h
    · split at h
      · exact hsame rfl h
      · exact hsame rfl h
    · split at h
      · exact .write _ _ (eq_ok_of_map (fun _ => rfl) h)
      · split at h
        · exact hsame rfl h
        · exact .insert _ _ ‹_› (eq_ok_of_map (fun _ => rfl) h)
    · exact hsame rfl h
  | unaliasCmd pc =>
    simp only [AliasAction.exec, funcUnalias] at h
    split at h
    · exact hsame rfl h
    · split at h
      · exact .remove _ (find_some ‹_›).1 (eq_ok_of_map (fun _ => rfl) h)
      · exact hsame rfl h
    · exact hsame rfl h

/-! ### The map of the aliases -/

/-- A name with its alias, if it has one, put in its place. -/
def aliased (aliases : List (String × String)) (name : String) : String :=
  ((aliases.find? fun a => a.1 = name).map Prod.snd).getD name

theorem funcAliasing_mk (aliases : List (String × String)) (z : String) (pa : Args) (b : Bool)
    (r : Redirect) (n : Command) :
    funcAliasing aliases (.mk z pa b r n) = .mk (aliased aliases z) pa b r n := by
  simp only [funcAliasing, aliased]
  cases aliases.find? fun a => a.1 = z with
  | none => rfl
  | some a => rfl

/-- `func_aliasing` with the aliases of a map. -/
theorem funcAliasing_lookup (m : OrderedMap String String) (z : String) (pa : Args) (b : Bool)
    (r : Redirect) (n : Command) :
    funcAliasing m.pairs (.mk z pa b r n) = .mk ((m.lookup z).getD z) pa b r n :=
  funcAliasing_mk m.pairs z pa b r n

/-- `alias F T` binds `F` to `T`, if `F` is bound or there is room, and leaves other names. -/
theorem lookup_aliasCmd {pc : Command} {m : OrderedMap String String} {name value : String}
    (hparams : pc.pa.params = [name, value]) (hroom : name ∈ m.keys ∨ m.size < WORD_LIMIT)
    (z : String) :
    ((AliasAction.aliasCmd pc).update m).lookup z = if z = name then some value else m.lookup z := by
  simp only [AliasAction.update, hparams, if_pos hroom]
  exact OrderedMap.lookup_bind name z value m

/-- `unalias F` leaves `F` without an alias. -/
theorem lookup_unaliasCmd {pc : Command} {m : OrderedMap String String} {name : String}
    (hparams : pc.pa.params = [name]) (z : String) :
    ((AliasAction.unaliasCmd pc).update m).lookup z = if z = name then none else m.lookup z := by
  simp only [AliasAction.update, hparams]
  exact OrderedMap.lookup_unbind name z m

/-- **The aliases are a map.**  After any `alias` and `unalias` commands whose strings fit, no
    write has left the array, the table holds the map of the history, with distinct names and
    at most `WORD_LIMIT` of them, and `func_aliasing` replaces the name of a command by the
    value that the map has for it, if it has one. -/
theorem alias_history {acts : List AliasAction} (hfits : ∀ act ∈ acts, act.Fits) :
    ∃ t, runAliases acts emptyAliases = .ok t ∧ t.pairs = (aliasHistory acts).pairs ∧
      (aliasHistory acts).size ≤ WORD_LIMIT ∧
      (∀ i j, i < t.count → j < t.count → (t.entry i).1 = (t.entry j).1 → i = j) ∧
      ∀ z pa b r n, funcAliasing t.pairs (.mk z pa b r n) =
        .mk (((aliasHistory acts).lookup z).getD z) pa b r n := by
  obtain ⟨t, hrun, hrep⟩ := runAliases_represents hfits
  refine ⟨t, hrun, hrep.pairs, ?_, hrep.inv.distinct, fun z pa b r n => ?_⟩
  · rw [← hrep.count]
    exact hrep.inv.count_le
  · rw [hrep.pairs]
    exact funcAliasing_lookup (aliasHistory acts) z pa b r n

/-- `alias F T` and `unalias F`. -/
def aliasWords (words : List String) : AliasAction :=
  .aliasCmd (.mk "alias" ⟨some "alias", words⟩ false .null .null)

def unaliasWords (words : List String) : AliasAction :=
  .unaliasCmd (.mk "unalias" ⟨some "unalias", words⟩ false .null .null)

/-- Three names, of which the middle one is removed and the first one changed. -/
theorem alias_history_three :
    ∃ t, runAliases [aliasWords ["a", "x"], aliasWords ["b", "y"], aliasWords ["c", "z"],
        unaliasWords ["b"], aliasWords ["a", "w"]] emptyAliases = .ok t ∧
      t.pairs = [("a", "w"), ("c", "z")] := by
  obtain ⟨t, hrun, hpairs, -⟩ := @alias_history [aliasWords ["a", "x"], aliasWords ["b", "y"],
    aliasWords ["c", "z"], unaliasWords ["b"], aliasWords ["a", "w"]] (by
      intro act hact
      simp only [List.mem_cons, List.not_mem_nil, or_false] at hact
      rcases hact with rfl | rfl | rfl | rfl | rfl
      · exact ⟨by decide, by decide⟩
      · exact ⟨by decide, by decide⟩
      · exact ⟨by decide, by decide⟩
      · trivial
      · exact ⟨by decide, by decide⟩)
  exact ⟨t, hrun, hpairs.trans (by decide)⟩

end OSPortfolio.Ish
