import OSPortfolio.Lib.OrderedMap
import OSPortfolio.Ish.Env
import OSPortfolio.Ish.ProcessCommands
import OSPortfolio.Ish.Words

namespace OSPortfolio.Ish

open Computability OSPortfolio.FixedTable OSPortfolio.Lexing

/-!
# The environment that programs get

`EnvGetVars` joins each key and value of `UnixEnv` with an `=`, for `execve`.  A program that
splits the strings again gets the map that the command lines have set up, as no word of a
command line contains an `=`.

* `envGetVars` — the function; `splitAtEquals` — what a program makes of a string;
* `envHistory` — the map that a sequence of `setenv` and `unsetenv` commands sets up;
* `exec_represents`, `runEnv_represents` — the table holds that map;
* `noEquals_word`, `noEquals_readCommand` — there is no `=` in a word of the lexer, nor in a
  parameter of a parsed command;
* `envGetVars_history` — the strings decode to the map.
-/

/-! ### `EnvGetVars` -/

/-- One string, in a buffer of `WORD_SIZE`; `val`, which the value goes through, is as long as
    the field it comes from. -/
def envString (p : String × String) : Except Fault String :=
  if fitsWord (p.1 ++ "=" ++ p.2) then .ok (p.1 ++ "=" ++ p.2) else .error .overflow

/-- `EnvGetVars(env_vars)`: what it leaves in the array, which the caller has made one longer
    than the table. -/
def envGetVars (t : EnvTable) : Except Fault (List (Option String)) := do
  let vars ← (List.range t.count).mapM fun i => envString (t.entry i)
  return vars.map some ++ [none]

/-- Split a string at its first `=`, if it has one. -/
def splitAtEquals (s : String) : Option (String × String) :=
  match s.toList.dropWhile (· ≠ '=') with
  | [] => none
  | _ :: value => some (String.ofList (s.toList.takeWhile (· ≠ '=')), String.ofList value)

/-- There is no `=` in the string. -/
def NoEquals (s : String) : Prop := '=' ∉ s.toList

/-- A string of the environment is cut where it was put together. -/
theorem splitAtEquals_join {key : String} (hkey : NoEquals key) (value : String) :
    splitAtEquals (key ++ "=" ++ value) = some (key, value) := by
  have hall : ∀ c ∈ key.toList, (decide (c ≠ '=')) = true := by
    intro c hc
    exact decide_eq_true fun heq => hkey (heq ▸ hc)
  have hjoin : (key ++ "=" ++ value).toList = key.toList ++ '=' :: value.toList := by simp
  unfold splitAtEquals
  rw [hjoin, List.dropWhile_append_of_pos hall, List.takeWhile_append_of_pos hall]
  simp

/-! ### The map of a history -/

/-- What a command binds or removes; other numbers of arguments change nothing. -/
def EnvAction.update : EnvAction → OrderedMap String String → OrderedMap String String
  | .setenv pc, m =>
    match pc.pa.params with
    | [key] => m.bind key ""
    | [key, value] => m.bind key value
    | _ => m
  | .unsetenv pc, m =>
    match pc.pa.params with
    | [key] => m.unbind key
    | _ => m

/-- The map that the commands set up, oldest first. -/
def envHistory (acts : List EnvAction) : OrderedMap String String :=
  acts.foldl (fun m act => act.update m) .empty

/-- One action more. -/
theorem envHistory_snoc (acts : List EnvAction) (act : EnvAction) :
    envHistory (acts ++ [act]) = act.update (envHistory acts) := by
  simp [envHistory]

/-- The table after the commands. -/
def runEnv (acts : List EnvAction) (t : EnvTable) : Except Fault EnvTable :=
  acts.foldlM (fun t act => (act.exec t).map EnvResult.table) t

/-- The words that a command copies into the table fit their buffers. -/
def EnvAction.Fits : EnvAction → Prop
  | .setenv pc =>
    match pc.pa.params with
    | [key] => fitsWord key = true
    | [key, value] => fitsWord key = true ∧ fitsWord value = true
    | _ => True
  | .unsetenv _ => True

/-- **Step lemma.**  With room in the table, a command does to it what it does to the map. -/
theorem exec_represents {t : EnvTable} {m : OrderedMap String String}
    (h : Represents envBounds t m) (hroom : m.size < WORD_LIMIT) {act : EnvAction}
    (hfits : act.Fits) :
    ∃ r, act.exec t = .ok r ∧ Represents envBounds r.table (act.update m) := by
  have hcount : t.count < WORD_LIMIT := h.count ▸ hroom
  have hnotFull : ¬ t.count = WORD_LIMIT := Nat.ne_of_lt hcount
  have hempty : envBounds.fitsValue "" = true := fitsWord_empty
  cases act with
  | setenv pc =>
    -- one case for each number of arguments
    rcases hparams : pc.pa.params with _ | ⟨key, _ | ⟨value, _ | ⟨extra, rest⟩⟩⟩
    · simp only [EnvAction.exec, funcSetenv, EnvAction.update, hparams]
      exact ⟨_, rfl, h⟩
    · simp only [EnvAction.Fits, hparams] at hfits
      simp only [EnvAction.exec, funcSetenv, EnvAction.update, hparams]
      cases hfind : t.find key with
      | some i =>
        obtain ⟨t', hok, hrep⟩ := h.writeValue hfind hempty
        exact ⟨{ table := t' }, by simp [hok, Except.map], hrep⟩
      | none =>
        obtain ⟨t', hok, hrep⟩ := h.insertBack hfind hcount hfits hempty
        exact ⟨{ table := t' }, by simp [hok, Except.map], hrep⟩
    · simp only [EnvAction.Fits, hparams] at hfits
      simp only [EnvAction.exec, funcSetenv, EnvAction.update, hparams, hnotFull, if_false]
      cases hfind : t.find key with
      | some i =>
        obtain ⟨t', hok, hrep⟩ := h.writeValue hfind hfits.2
        exact ⟨{ table := t' }, by simp [hok, Except.map], hrep⟩
      | none =>
        obtain ⟨t', hok, hrep⟩ := h.insertBack hfind hcount hfits.1 hfits.2
        exact ⟨{ table := t' }, by simp [hok, Except.map], hrep⟩
    · simp only [EnvAction.exec, funcSetenv, EnvAction.update, hparams]
      exact ⟨_, rfl, h⟩
  | unsetenv pc =>
    rcases hparams : pc.pa.params with _ | ⟨key, _ | ⟨value, rest⟩⟩
    · simp only [EnvAction.exec, funcUnsetenv, EnvAction.update, hparams]
      exact ⟨_, rfl, h⟩
    · simp only [EnvAction.exec, funcUnsetenv, EnvAction.update, hparams]
      cases hfind : t.find key with
      | some i =>
        obtain ⟨t', hok, hrep⟩ := h.removeAt hfind
        exact ⟨{ table := t' }, by simp [hok, Except.map], hrep⟩
      | none =>
        -- removing a key that is not there changes nothing
        rw [OrderedMap.unbind_of_not_mem (h.find_none.mp hfind)]
        exact ⟨_, rfl, h⟩
    · simp only [EnvAction.exec, funcUnsetenv, EnvAction.update, hparams]
      exact ⟨_, rfl, h⟩

/-- **Run lemma.**  As long as the table is never full, it holds the map of the history. -/
theorem runEnv_represents {acts : List EnvAction} (hfits : ∀ act ∈ acts, act.Fits)
    (hroom : ∀ n ≤ acts.length, (envHistory (acts.take n)).size < WORD_LIMIT) :
    ∃ t, runEnv acts emptyEnv = .ok t ∧ Represents envBounds t (envHistory acts) := by
  induction acts using List.reverseRecOn with
  | nil => exact ⟨emptyEnv, rfl, emptyEnv_inv, rfl⟩
  | append_singleton acts act ih =>
    obtain ⟨t, hrun, hrep⟩ := ih (fun act hact => hfits act (by simp [hact])) fun n hn => by
      have := hroom n (by simp; omega)
      rwa [List.take_append_of_le_length hn] at this
    have hsize := hroom acts.length (by simp)
    rw [List.take_left] at hsize
    obtain ⟨r, hexec, hrep'⟩ := exec_represents hrep hsize (hfits act (by simp))
    refine ⟨r.table, ?_, by rw [envHistory_snoc]; exact hrep'⟩
    unfold runEnv at hrun ⊢
    rw [List.foldlM_append, hrun]
    simp [hexec, Except.map, bind, Except.bind, pure, Except.pure]

/-- What the array of strings is for a table that holds a map. -/
theorem envGetVars_represents {t : EnvTable} {m : OrderedMap String String}
    (h : Represents envBounds t m) (hfits : ∀ p ∈ m.pairs, fitsWord (p.1 ++ "=" ++ p.2) = true) :
    envGetVars t = .ok ((m.pairs.map fun p => some (p.1 ++ "=" ++ p.2)) ++ [none]) := by
  have hall : ∀ pairs : List (String × String),
      (∀ p ∈ pairs, fitsWord (p.1 ++ "=" ++ p.2) = true) →
      pairs.mapM envString = .ok (pairs.map fun p => p.1 ++ "=" ++ p.2) := by
    intro pairs
    induction pairs with
    | nil => intro _; rfl
    | cons p pairs ih =>
      intro hfits
      rw [List.mapM_cons, ih fun q hq => hfits q (List.mem_cons_of_mem p hq), envString,
        if_pos (hfits p List.mem_cons_self)]
      rfl
  unfold envGetVars
  have hmap : ((List.range t.count).mapM fun i => envString (t.entry i)) =
      m.pairs.mapM envString := by
    rw [← h.pairs, Table.pairs, List.mapM_map]
    rfl
  rw [hmap, hall m.pairs hfits]
  simp [bind, Except.bind, pure, Except.pure]

/-! ### No `=` in a word -/

/-- No `=` stands inside of quotes. -/
theorem noEquals_quoteItem {q : Char} (hq : isQuotes q = true) {w : List Char}
    (hw : w ∈ quoteItem q) : '=' ∉ w := by
  rcases (mem_quoteItem hq).mp hw with ⟨c, hc, -, rfl⟩ | ⟨d, hd, rfl⟩
  · rintro hmem
    obtain rfl : '=' = c := by simpa using hmem
    exact absurd hc (by decide)
  · rintro hmem
    obtain rfl : '=' = d := by simpa using hmem
    exact absurd hd (by decide)

/-- Nor in a sequence of pieces without one. -/
theorem noEquals_kstar {L : Language Char} (hL : ∀ w ∈ L, '=' ∉ w) {w : List Char}
    (hw : w ∈ L∗) : '=' ∉ w := by
  obtain ⟨ws, rfl, hws⟩ := Language.mem_kstar.mp hw
  simp only [List.mem_flatten, not_exists, not_and]
  exact fun u hu => hL u (hws u hu)

/-- Nor in a piece of a word. -/
theorem noEquals_wordItem {w : List Char} (hw : w ∈ wordItem) : '=' ∉ w := by
  rcases mem_wordItem.mp hw with ⟨c, hc, rfl⟩ | ⟨d, hd, rfl⟩ | ⟨q, hq, b, hb, rfl⟩
  · rintro hmem
    obtain rfl : '=' = c := by simpa using hmem
    exact absurd hc (by decide)
  · rintro hmem
    obtain rfl : '=' = d := by simpa using hmem
    exact absurd hd (by decide)
  · have hinner := noEquals_kstar (fun u hu => noEquals_quoteItem hq hu) hb
    have hne : '=' ≠ q := by
      rintro rfl
      exact absurd hq (by decide)
    simp [hne, hinner]

/-- What `copyEscapedString` copies comes from the word. -/
theorem copyEscaped_subset (quote : Option Char) (cs : List Char) : copyEscaped quote cs ⊆ cs := by
  fun_induction copyEscaped quote cs <;> simp_all

/-- The words of a token. -/
def Token.words : Token → List String
  | .WORD s => [s]
  | .COMMAND s => [s]
  | .FILENAME s => [s]
  | .STRING s => [s]
  | _ => []

/-- The tokens of the operators have no words. -/
theorem operatorRule_words {cs : List Char} {t : Token} {n : Nat} {start : StartCond}
    (h : operatorRule cs = some (t, n, start)) : t.words = [] := by
  unfold operatorRule at h
  split at h
  all_goals simp only [Option.some.injEq, Prod.mk.injEq, reduceCtorEq] at h
  all_goals
    obtain ⟨rfl, -⟩ := h
    rfl

/-- **No word of the lexer has an `=` in it.** -/
theorem noEquals_yylex (start : StartCond) (cs : List Char) :
    ∀ s ∈ (yylexFrom start cs).1.words, NoEquals s := by
  induction cs with
  | nil => simp [yylexFrom, Token.words]
  | cons c cs ih =>
    unfold yylexFrom
    split
    · intro s hs
      have hword := noEquals_kstar (fun w hw => noEquals_wordItem hw)
        (wordLength_spec (c :: cs)).take_mem
      obtain rfl : s = copyEscapedString ((c :: cs).take (wordLength (c :: cs))) := by
        cases start <;> simpa [wordRule, Token.words] using hs
      exact fun hmem => hword (copyEscaped_subset none _ (by simpa [copyEscapedString] using hmem))
    · split
      · rename_i hop
        simp [operatorRule_words hop]
      · exact ih

/-- **No word that the lexer reads holds a `=`.** -/
theorem noEquals_tokens (lexer : Scanner) : ∀ t ∈ tokens lexer, ∀ s ∈ t.words, NoEquals s := by
  have hfuel : ∀ (fuel : Nat) (lexer : Scanner), ∀ t ∈ tokensUpTo fuel lexer,
      ∀ s ∈ t.words, NoEquals s := by
    intro fuel
    induction fuel with
    | zero => simp [tokensUpTo]
    | succ fuel ih =>
      intro lexer t ht
      unfold tokensUpTo at ht
      split at ht
      · exact absurd ht List.not_mem_nil
      · rcases List.mem_cons.mp ht with rfl | ht
        · exact noEquals_yylex lexer.start lexer.text
        · exact ih _ t ht
  exact hfuel _ lexer

/-! ### No `=` in a parameter -/

/-- The parameters of the commands of a list. -/
def Command.allParams (pc : Command) : List String := pc.commands.flatMap fun c => c.pa.params

/-- The parameters of two lists of commands. -/
theorem allParams_appendCommand (pc₁ pc₂ : Command) :
    (appendCommand pc₁ pc₂).allParams = pc₁.allParams ++ pc₂.allParams := by
  unfold Command.allParams
  induction pc₁ using Command.nextInduction with
  | null => rfl
  | mk z pa b r n ih => simp [appendCommand, Command.commands, ih]

/-- A `&` changes no parameter. -/
theorem allParams_backgroundIf (b : Bool) (pc : Command) :
    (backgroundIf b pc).allParams = pc.allParams := by
  cases b <;> cases pc <;> rfl

/-- A parameter is a word of a token. -/
theorem DerivesParameters.words {ts : List Token} {pa : Args} (h : DerivesParameters ts pa) :
    ∀ s ∈ pa.params, ∃ t ∈ ts, s ∈ t.words := by
  induction h with
  | empty => simp [createArguments]
  | @append ts t pa s _ h₂ ih =>
    intro s' hs'
    rcases List.mem_append.mp (show s' ∈ pa.params ++ [s] from hs') with hs' | hs'
    · obtain ⟨t', ht', hword⟩ := ih s' hs'
      exact ⟨t', by simp [ht'], hword⟩
    · obtain rfl := List.mem_singleton.mp hs'
      refine ⟨t, by simp, ?_⟩
      cases h₂ <;> exact List.mem_singleton_self _

/-- The parameters of a command are words of its tokens. -/
theorem DerivesCommand.words {ts : List Token} {pc : Command} (h : DerivesCommand ts pc) :
    ∀ s ∈ pc.allParams, ∃ t ∈ ts, s ∈ t.words := by
  cases h with
  | command z h₁ h₂ =>
    intro s hs
    obtain ⟨t, ht, hword⟩ := h₁.words s
      (by simpa [Command.allParams, createCommand, Command.commands, setArgument] using hs)
    exact ⟨t, by simp [ht], hword⟩

/-- So are those of a line. -/
theorem DerivesCmdSeq.words {ts : List Token} {pc : Command} (h : DerivesCmdSeq ts pc) :
    ∀ s ∈ pc.allParams, ∃ t ∈ ts, s ∈ t.words := by
  induction h with
  | sequence h₁ _ _ ih =>
    intro s hs
    rw [allParams_backgroundIf, allParams_appendCommand] at hs
    rcases List.mem_append.mp hs with hs | hs
    · obtain ⟨t, ht, hword⟩ := h₁.words s hs
      exact ⟨t, by simp [ht], hword⟩
    · obtain ⟨t, ht, hword⟩ := ih s hs
      exact ⟨t, by simp [ht], hword⟩
  | separator h₁ _ =>
    intro s hs
    rw [allParams_backgroundIf] at hs
    obtain ⟨t, ht, hword⟩ := h₁.words s hs
    exact ⟨t, by simp [ht], hword⟩
  | command h => exact h.words

/-- The command is one of a line of some text, as the lexer and the parser read it. -/
def ReadCommand (pc : Command) : Prop :=
  ∃ (lexer : Scanner) (line : List Token) (head : Command),
    line ∈ linesOf lexer ∧ parseLine line = some head ∧ pc ∈ head.commands

/-- A line has no tokens of its own. -/
theorem subset_of_mem_splitOn {ts line : List Token} {sep : Token} (h : line ∈ ts.splitOn sep) :
    line ⊆ ts := by
  induction ts generalizing line with
  | nil =>
    obtain rfl : line = [] := by simpa using h
    exact List.nil_subset _
  | cons t ts ih =>
    rw [List.splitOn_cons_eq_if_modifyHead] at h
    split at h
    · rcases List.mem_cons.mp h with rfl | h
      · exact List.nil_subset _
      · exact List.subset_cons_of_subset t (ih h)
    · -- the first line of the rest gets the token
      obtain ⟨first, rest, hlines⟩ := List.exists_cons_of_ne_nil (List.splitOn_ne_nil sep ts)
      rw [hlines, List.modifyHead_cons] at h
      rcases List.mem_cons.mp h with rfl | h
      · exact List.cons_subset_cons t (ih (by rw [hlines]; exact List.mem_cons_self))
      · exact List.subset_cons_of_subset t (ih (by rw [hlines]; exact List.mem_cons_of_mem _ h))

/-- **No parameter of a command that was read has an `=` in it.** -/
theorem noEquals_readCommand {pc : Command} (h : ReadCommand pc) :
    ∀ s ∈ pc.pa.params, NoEquals s := by
  obtain ⟨lexer, line, head, hline, hparse, hpc⟩ := h
  intro s hs
  obtain ⟨t, ht, hword⟩ := ((parseLine_iff line head).mp hparse).words s
    (List.mem_flatMap.mpr ⟨pc, hpc, hs⟩)
  exact noEquals_tokens lexer t (subset_of_mem_splitOn hline ht) s hword

/-! ### The strings and the history -/

/-- The command was read from a command line, under its name. -/
def EnvAction.Read : EnvAction → Prop
  | .setenv pc => ReadCommand pc ∧ pc.zCmd = "setenv"
  | .unsetenv pc => ReadCommand pc ∧ pc.zCmd = "unsetenv"

/-- A command binds no key but one of its parameters. -/
theorem mem_keys_update {act : EnvAction} {m : OrderedMap String String} {key : String}
    (h : key ∈ (act.update m).keys) :
    key ∈ m.keys ∨ ∃ pc, act = .setenv pc ∧ key ∈ pc.pa.params := by
  have hbind : ∀ {k v : String}, key ∈ (m.bind k v).keys → key ∈ m.keys ∨ key = k := by
    intro k v hkey
    rw [OrderedMap.keys_bind] at hkey
    split at hkey
    · exact Or.inl hkey
    · simpa using hkey
  cases act with
  | setenv pc =>
    simp only [EnvAction.update] at h
    split at h
    · rename_i hparams
      exact (hbind h).imp_right fun heq => ⟨pc, rfl, by simp [hparams, heq]⟩
    · rename_i hparams
      exact (hbind h).imp_right fun heq => ⟨pc, rfl, by simp [hparams, heq]⟩
    · exact Or.inl h
  | unsetenv pc =>
    simp only [EnvAction.update] at h
    split at h
    · rw [OrderedMap.keys_unbind] at h
      exact Or.inl (List.mem_of_mem_filter h)
    · exact Or.inl h

/-- The keys of the environment hold no `=`. -/
theorem noEquals_envHistory {acts : List EnvAction} (hread : ∀ act ∈ acts, act.Read) :
    ∀ key ∈ (envHistory acts).keys, NoEquals key := by
  induction acts using List.reverseRecOn with
  | nil => exact fun key hkey => absurd hkey List.not_mem_nil
  | append_singleton acts act ih =>
    intro key hkey
    rw [envHistory_snoc] at hkey
    rcases mem_keys_update hkey with hkey | ⟨pc, rfl, hparam⟩
    · exact ih (fun act hact => hread act (by simp [hact])) key hkey
    · exact noEquals_readCommand (hread (.setenv pc) (by simp)).1 key hparam

/-- **The environment of a program is the map of the history.**  After any `setenv` and
    `unsetenv` commands read from command lines, as long as the table is never full and all
    strings fit their buffers, the strings of `EnvGetVars`, split at their first `=`, are the
    pairs of the map in its order, with `NULL` behind them. -/
theorem envGetVars_history {acts : List EnvAction} (hread : ∀ act ∈ acts, act.Read)
    (hfits : ∀ act ∈ acts, act.Fits)
    (hroom : ∀ n ≤ acts.length, (envHistory (acts.take n)).size < WORD_LIMIT)
    (hjoined : ∀ p ∈ (envHistory acts).pairs, fitsWord (p.1 ++ "=" ++ p.2) = true) :
    ∃ (t : EnvTable) (vars : List String), runEnv acts emptyEnv = .ok t ∧
      envGetVars t = .ok (vars.map some ++ [none]) ∧
      vars.map splitAtEquals = (envHistory acts).pairs.map some := by
  obtain ⟨t, hrun, hrep⟩ := runEnv_represents hfits hroom
  refine ⟨t, (envHistory acts).pairs.map fun p => p.1 ++ "=" ++ p.2, hrun, ?_, ?_⟩
  · rw [envGetVars_represents hrep hjoined, List.map_map]
    rfl
  · rw [List.map_map]
    refine List.map_congr_left fun p hp => ?_
    exact splitAtEquals_join (noEquals_envHistory hread p.1 (List.mem_map_of_mem hp)) p.2

/-! ### A script -/

/-- A command with the name `name` and the words `params`. -/
def wordsCommand (name : String) (params : List String) : Command :=
  .mk name ⟨some name, params⟩ false .null .null

/-- The lines `setenv A b`, `setenv C`, `unsetenv A` and `setenv A d`. -/
def envScript : List EnvAction :=
  [.setenv (wordsCommand "setenv" ["A", "b"]), .setenv (wordsCommand "setenv" ["C"]),
    .unsetenv (wordsCommand "unsetenv" ["A"]), .setenv (wordsCommand "setenv" ["A", "d"])]

/-- The tokens of its line. -/
def wordsLine (name : String) (params : List String) : List Token :=
  .COMMAND name :: params.map .WORD

/-- A command of one line, as it is read from a text. -/
theorem readCommand_of_line {text : List Char} {name : String} {params : List String}
    (hline : linesOf ⟨.INITIAL, text⟩ = [wordsLine name params, []])
    (hparse : parseLine (wordsLine name params) = some (wordsCommand name params)) :
    ReadCommand (wordsCommand name params) :=
  ⟨⟨.INITIAL, text⟩, _, _, by rw [hline]; exact List.mem_cons_self, hparse, List.mem_cons_self⟩

/-- A program started after this script gets `C=` and `A=d`. -/
theorem envGetVars_history_script :
    ∃ (t : EnvTable) (vars : List String), runEnv envScript emptyEnv = .ok t ∧
      envGetVars t = .ok (vars.map some ++ [none]) ∧
      vars.map splitAtEquals = [some ("C", ""), some ("A", "d")] := by
  refine @envGetVars_history envScript ?_ ?_ (by decide) (by decide)
  · intro act hact
    simp only [envScript, List.mem_cons, List.not_mem_nil, or_false] at hact
    rcases hact with rfl | rfl | rfl | rfl
    · exact ⟨@readCommand_of_line "setenv A b\n".toList _ _ (by decide) (by decide), rfl⟩
    · exact ⟨@readCommand_of_line "setenv C\n".toList _ _ (by decide) (by decide), rfl⟩
    · exact ⟨@readCommand_of_line "unsetenv A\n".toList _ _ (by decide) (by decide), rfl⟩
    · exact ⟨@readCommand_of_line "setenv A d\n".toList _ _ (by decide) (by decide), rfl⟩
  · intro act hact
    simp only [envScript, List.mem_cons, List.not_mem_nil, or_false] at hact
    rcases hact with rfl | rfl | rfl | rfl
    · exact ⟨by decide, by decide⟩
    · show fitsWord "C" = true
      decide
    · trivial
    · exact ⟨by decide, by decide⟩

end OSPortfolio.Ish
