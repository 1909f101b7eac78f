import OSPortfolio.Ish.Jobs
import OSPortfolio.Ish.Parser

namespace OSPortfolio.Ish

/-!
# The command loop

`processCommands` reads line after line with `nextCommand` and hands the commands of each to
`ExecCommand`.  At the end of the file it leaves the loop before it looks at the command of
the line that the end of the file has ended.

* `ShellParts` — the parts of the shell that the loop calls;
* `processCommands` — the loop, with the calls of `ExecCommand` and their results;
* `UpToQuit`, `ValidCommands` — the commands that are to be executed, from the grammar;
* `commandLoop_log` — the loop executes the lines that a newline has ended;
* `processCommands_log_iff` — it executes all that it should exactly when the last line is no
  command, or an earlier one quits.
-/

universe u

/-! ### The loop -/

/-- The parts of the shell that the loop calls, on the state of the shell: the table of
    aliases, what `func_JobNotification` and the prompt do, and `ExecCommand(pc, interactive)`
    with the value it returns. -/
structure ShellParts (σ : Type u) where
  aliases : σ → List (String × String)
  notify : σ → σ
  execCommand : Command → Bool → σ → Ret × σ

/-- `func_aliasing(pc)`: the first alias for the command's name replaces the name. -/
def funcAliasing (aliases : List (String × String)) : Command → Command
  | .null => .null
  | .mk z pa b r n =>
    match aliases.find? (fun a => a.1 = z) with
    | some a => .mk a.2 pa b r n
    | none => .mk z pa b r n

section
variable {σ : Type u} (S : ShellParts σ) (interactive : Bool)

/-- The calls of `ExecCommand`, each with its command as it was parsed and its result, the
    variable `ret`, and the state of the shell. -/
structure Processed (σ : Type u) where
  log : List (Command × Ret)
  ret : Option Ret
  state : σ

/-- The loop over the commands of a line.  The variable `ret` is `none` as long as it holds
    none of the three results. -/
def executeCommands : Command → Option Ret → σ → Processed σ
  | .null, ret, s => ⟨[], ret, s⟩
  | .mk z pa b r n, _, s =>
    let pc := .mk z pa b r n
    -- `func_aliasing` renames the command just before it is executed
    let (ret, s) := S.execCommand (funcAliasing (S.aliases s) pc) interactive s
    if ret = .QUIT then ⟨[(pc, ret)], some ret, s⟩
    else
      let rest := executeCommands n (some ret) s
      { rest with log := (pc, ret) :: rest.log }

/-- What the loop does before it reads a line. -/
def beforeLine (s : σ) : σ := if interactive then S.notify s else s

/-- The loop `while(1)`, for at most `fuel` lines. -/
def commandLoop : Nat → Option Ret → Scanner → σ → Processed σ
  | 0, ret, _, s => ⟨[], ret, s⟩
  | fuel + 1, ret, lexer, s =>
    let s := beforeLine S interactive s
    let (pc, eof, lexer) := nextCommand lexer
    -- `break` in front of the test for a command: that of this line is dropped
    if eof then ⟨[], ret, s⟩
    else
      let line := executeCommands S interactive pc ret s
      if line.ret = some .QUIT then line
      else
        let rest := commandLoop fuel line.ret lexer line.state
        { rest with log := line.log ++ rest.log }

/-- `processCommands(pf, interactive)` for a file with this text, from any start condition of
    the lexer and any value of the variable `ret`; each turn takes a line, so there are no
    more turns than characters and the end of the file. -/
def processCommands (start : StartCond) (ret : Option Ret) (text : List Char) (s : σ) :
    Processed σ :=
  commandLoop S interactive (text.length + 1) ret (resetParser start text) s

/-! ### What is to be executed -/

/-- `log` hands on the commands in order and each once, up to the first whose result is `QUIT`
    and with it, or all of them if there is none. -/
inductive UpToQuit : List Command → List (Command × Ret) → Prop
  | done : UpToQuit [] []
  | quit (pc : Command) (pcs : List Command) : UpToQuit (pc :: pcs) [(pc, .QUIT)]
  | next {pcs : List Command} {log : List (Command × Ret)} (pc : Command) {ret : Ret}
      (hret : ret ≠ .QUIT) (h : UpToQuit pcs log) : UpToQuit (pc :: pcs) ((pc, ret) :: log)

/-- The lines of a text: what stands in front of each newline, and last what stands in front
    of the end of the file. -/
def linesOf (lexer : Scanner) : List (List Token) := (tokens lexer).splitOn .EOLN

/-- The commands of the syntactically valid lines among `lines`. -/
inductive ValidCommands : List (List Token) → List Command → Prop
  | nil : ValidCommands [] []
  | valid {line : List Token} {lines : List (List Token)} {pc : Command} {pcs : List Command}
      (h : DerivesCmdSeq line pc) (hrest : ValidCommands lines pcs) :
      ValidCommands (line :: lines) (pc.commands ++ pcs)
  | invalid {line : List Token} {lines : List (List Token)} {pcs : List Command}
      (h : ∀ pc, ¬ DerivesCmdSeq line pc) (hrest : ValidCommands lines pcs) :
      ValidCommands (line :: lines) pcs

/-- The calls in `log` are those for the commands of the valid lines of the text. -/
def ExecutesText (lexer : Scanner) (log : List (Command × Ret)) : Prop :=
  ∃ pcs, ValidCommands (linesOf lexer) pcs ∧ UpToQuit pcs log

/-- Execute a list of lines, one after the other, until a command quits. -/
def executeLines : List (List Token) → Option Ret → σ → Processed σ
  | [], ret, s => ⟨[], ret, s⟩
  | line :: lines, ret, s =>
    let r := executeCommands S interactive ((parseLine line).getD .null) ret
      (beforeLine S interactive s)
    if r.ret = some .QUIT then r
    else
      let rest := executeLines lines r.ret r.state
      { rest with log := r.log ++ rest.log }

/-- Some call has returned `QUIT`. -/
def HasQuit (log : List (Command × Ret)) : Prop := ∃ e ∈ log, e.2 = .QUIT

/-! ### Logs -/

/-- Without a `QUIT` all commands are handed on. -/
theorem UpToQuit.of_noQuit {pcs : List Command} {log : List (Command × Ret)}
    (h : UpToQuit pcs log) (hnot : ¬ HasQuit log) : log.map Prod.fst = pcs := by
  induction h with
  | done => rfl
  | quit pc pcs => exact absurd ⟨_, List.mem_singleton_self _, rfl⟩ hnot
  | next pc hret h ih =>
    rw [List.map_cons, ih]
    rintro ⟨e, he, hquit⟩
    exact hnot ⟨e, List.mem_cons_of_mem _ he, hquit⟩

/-- A call that has returned `QUIT` is the last one, whatever commands come after it. -/
theorem UpToQuit.append_of_quit {pcs : List Command} {log : List (Command × Ret)}
    (h : UpToQuit pcs log) (hquit : HasQuit log) (more : List Command) :
    UpToQuit (pcs ++ more) log := by
  induction h with
  | done => obtain ⟨e, he, -⟩ := hquit; exact absurd he (by simp)
  | quit pc pcs => exact .quit pc (pcs ++ more)
  | next pc hret h ih =>
    obtain ⟨e, he, heq⟩ := hquit
    rcases List.mem_cons.mp he with rfl | he
    · exact absurd heq hret
    · exact .next pc hret (ih ⟨e, he, heq⟩)

/-- Without a `QUIT` the calls for more commands follow. -/
theorem UpToQuit.append {pcs more : List Command} {log log' : List (Command × Ret)}
    (h : UpToQuit pcs log) (hnot : ¬ HasQuit log) (hmore : UpToQuit more log') :
    UpToQuit (pcs ++ more) (log ++ log') := by
  induction h with
  | done => exact hmore
  | quit pc pcs => exact absurd ⟨_, List.mem_singleton_self _, rfl⟩ hnot
  | next pc hret h ih =>
    refine .next pc hret (ih ?_)
    rintro ⟨e, he, hquit⟩
    exact hnot ⟨e, List.mem_cons_of_mem _ he, hquit⟩

/-! ### The commands of a line -/

/-- What the parser makes of a line: commands if it is valid, and else `NULL`. -/
theorem parseLine_getD (line : List Token) :
    DerivesCmdSeq line ((parseLine line).getD .null) ∨
      (∀ pc, ¬ DerivesCmdSeq line pc) ∧ (parseLine line).getD .null = .null := by
  cases hline : parseLine line with
  | some pc => exact Or.inl ((parseLine_iff line pc).mp hline)
  | none =>
    refine Or.inr ⟨fun pc hder => ?_, rfl⟩
    rw [(parseLine_iff line pc).mpr hder] at hline
    simp at hline

/-- The commands of the valid lines are those of the values that the parser finds. -/
theorem validCommands_iff (lines : List (List Token)) (pcs : List Command) :
    ValidCommands lines pcs ↔
      pcs = lines.flatMap fun line => ((parseLine line).getD .null).commands := by
  constructor
  · intro h
    induction h with
    | nil => rfl
    | @valid line lines pc pcs hder hrest ih =>
      rw [List.flatMap_cons, (parseLine_iff line pc).mpr hder, ← ih]
      rfl
    | @invalid line lines pcs hnot hrest ih =>
      rcases parseLine_getD line with hder | ⟨-, hnull⟩
      · exact absurd hder (hnot _)
      · rw [List.flatMap_cons, hnull, ← ih]
        rfl
  · rintro rfl
    induction lines with
    | nil => exact .nil
    | cons line lines ih =>
      rw [List.flatMap_cons]
      rcases parseLine_getD line with hder | ⟨hnot, hnull⟩
      · exact .valid hder ih
      · rw [hnull]
        exact .invalid hnot ih

/-- Only the null command has no commands. -/
theorem commands_eq_nil_iff (pc : Command) : pc.commands = [] ↔ pc = .null := by
  cases pc <;> simp [Command.commands]

theorem not_hasQuit_nil : ¬ HasQuit [] := by
  rintro ⟨e, he, -⟩
  exact absurd he (by simp)

/-- A call that returned something else does not matter. -/
theorem hasQuit_cons {e : Command × Ret} (he : e.2 ≠ .QUIT) (log : List (Command × Ret)) :
    HasQuit (e :: log) ↔ HasQuit log := by
  simp [HasQuit, he]

theorem hasQuit_append (log log' : List (Command × Ret)) :
    HasQuit (log ++ log') ↔ HasQuit log ∨ HasQuit log' := by
  simp [HasQuit, or_and_right, exists_or]

/-- What a part of the loop does for the commands `pcs`: it hands them on up to the first
    that quits, and `ret` says afterwards whether one has. -/
structure Executes (pcs : List Command) (r : Processed σ) : Prop where
  upToQuit : UpToQuit pcs r.log
  ret : r.ret = some .QUIT ↔ HasQuit r.log

/-- The loop over the commands of a line. -/
theorem executeCommands_spec (pc : Command) {ret : Option Ret} (hret : ret ≠ some .QUIT) (s : σ) :
    Executes pc.commands (executeCommands S interactive pc ret s) := by
  induction pc using Command.nextInduction generalizing ret s with
  | null => exact ⟨.done, iff_of_false hret not_hasQuit_nil⟩
  | mk z pa b r n ih =>
    rw [executeCommands, Command.commands]
    -- a `QUIT` ends the loop with this command; any other result is overwritten by the next
    cases hexec : S.execCommand (funcAliasing (S.aliases s) (.mk z pa b r n)) interactive s with
    | mk ret' s'
    dsimp only
    by_cases hquit : ret' = .QUIT
    · subst hquit
      exact ⟨.quit _ _, iff_of_true rfl ⟨_, List.mem_singleton_self _, rfl⟩⟩
    · rw [if_neg hquit]
      have hret' : some ret' ≠ some .QUIT := by simpa using hquit
      obtain ⟨hup, hiff⟩ := ih hret' s'
      exact ⟨.next _ hquit hup, hiff.trans (hasQuit_cons hquit _).symm⟩

/-- A list of lines. -/
theorem executeLines_spec (lines : List (List Token)) {ret : Option Ret}
    (hret : ret ≠ some .QUIT) (s : σ) :
    Executes (lines.flatMap fun line => ((parseLine line).getD .null).commands)
      (executeLines S interactive lines ret s) := by
  induction lines generalizing ret s with
  | nil => exact ⟨.done, iff_of_false hret not_hasQuit_nil⟩
  | cons line lines ih =>
    rw [executeLines, List.flatMap_cons]
    obtain ⟨hup, hiff⟩ := executeCommands_spec S interactive ((parseLine line).getD .null) hret
      (beforeLine S interactive s)
    generalize executeCommands S interactive ((parseLine line).getD .null) ret
      (beforeLine S interactive s) = r at hup hiff
    dsimp only
    by_cases hquit : r.ret = some .QUIT
    · rw [if_pos hquit]
      exact ⟨hup.append_of_quit (hiff.mp hquit) _, hiff⟩
    · rw [if_neg hquit]
      have hnot : ¬ HasQuit r.log := fun h => hquit (hiff.mpr h)
      obtain ⟨hup', hiff'⟩ := ih hquit r.state
      refine ⟨hup.append hnot hup', hiff'.trans ?_⟩
      rw [hasQuit_append]
      exact (or_iff_right hnot).symm

/-! ### The loop over the lines -/

/-- The first line of a text, and the lines behind it unless it is the last. -/
theorem linesOf_eq (lexer : Scanner) :
    linesOf lexer = (readLine lexer).tokens ::
      if (readLine lexer).eof = true then [] else linesOf (readLine lexer).rest := by
  obtain ⟨htokens, hmem, -, -⟩ := readLine_spec lexer
  rw [linesOf, htokens]
  by_cases heof : (readLine lexer).eof = true
  · rw [if_pos heof, if_pos heof, List.append_nil]
    exact List.splitOn_eq_singleton hmem
  · rw [if_neg heof, if_neg heof]
    exact List.splitOn_append_cons_self_of_not_mem hmem _

/-- The loop executes the lines that a newline has ended, and no other. -/
theorem commandLoop_log {fuel : Nat} (lexer : Scanner) {ret : Option Ret}
    (hfuel : lexer.text.length < fuel) (s : σ) :
    (commandLoop S interactive fuel ret lexer s).log =
      (executeLines S interactive (linesOf lexer).dropLast ret s).log := by
  induction fuel generalizing lexer ret s with
  | zero => omega
  | succ fuel ih =>
    have hshort := (readLine_spec lexer).shorter
    have hlines := linesOf_eq lexer
    set l := readLine lexer with hl
    rw [commandLoop]
    simp only [nextCommand, yyparse, ← hl]
    by_cases heof : l.eof = true
    · -- the last line: the loop leaves before it looks at the command
      rw [if_pos heof] at hlines
      rw [if_pos heof, hlines]
      rfl
    · rw [if_neg heof] at hlines
      have hne : linesOf l.rest ≠ [] := List.splitOn_ne_nil _ _
      have hlt := hshort (by simpa using heof)
      rw [if_neg heof, hlines, List.dropLast_cons_of_ne_nil hne, executeLines]
      dsimp only
      split
      · rfl
      · rw [ih l.rest (by omega)]

/-- **Which texts are executed completely.**  The loop executes what it should, in order and
    each command once, exactly when the last line, the one that the end of the file has ended,
    is no valid line, or a command of an earlier line returns `QUIT`. -/
theorem processCommands_log_iff (start : StartCond) {ret : Option Ret} (hret : ret ≠ some .QUIT)
    (text : List Char) (s : σ) :
    ExecutesText (resetParser start text) (processCommands S interactive start ret text s).log ↔
      (∀ line ∈ (linesOf (resetParser start text)).getLast?, ∀ pc, ¬ DerivesCmdSeq line pc) ∨
        HasQuit (executeLines S interactive (linesOf (resetParser start text)).dropLast ret s).log
    := by
  have hlog : (commandLoop S interactive (text.length + 1) ret (resetParser start text) s).log =
      (executeLines S interactive (linesOf (resetParser start text)).dropLast ret s).log :=
    commandLoop_log S interactive _ (Nat.lt_succ_self _) s
  have hup := (executeLines_spec S interactive (linesOf (resetParser start text)).dropLast hret
    s).upToQuit
  have hne : linesOf (resetParser start text) ≠ [] := List.splitOn_ne_nil _ _
  unfold ExecutesText processCommands
  rw [hlog]
  generalize (executeLines S interactive (linesOf (resetParser start text)).dropLast ret s).log =
    log at hup
  generalize linesOf (resetParser start text) = lines at hup hne
  -- the lines with a newline, and the one that the end of the file has ended
  obtain ⟨ended, last, rfl⟩ : ∃ ended last, lines = ended ++ [last] :=
    ⟨_, _, (List.dropLast_append_getLast hne).symm⟩
  rw [List.dropLast_concat] at hup
  simp only [List.getLast?_concat, Option.mem_some_iff, forall_eq', validCommands_iff,
    exists_eq_left, List.flatMap_append, List.flatMap_singleton]
  generalize ended.flatMap (fun line => ((parseLine line).getD .null).commands) = pcs at hup
  rcases parseLine_getD last with hder | ⟨hnot, hnull⟩
  · have hsome : ((parseLine last).getD .null).commands ≠ [] := by
      rw [Ne, commands_eq_nil_iff]
      exact hder.ne_null
    constructor
    · intro hall
      refine Or.inr (by_contra fun hquit => hsome ?_)
      -- without a `QUIT` the log would have to hold the commands of the last line
      have heq := (hall.of_noQuit hquit).symm.trans (hup.of_noQuit hquit)
      simpa using heq
    · rintro (hnot | hquit)
      · exact absurd hder (hnot _)
      · exact hup.append_of_quit hquit _
  · rw [hnull]
    refine iff_of_true ?_ (Or.inl hnot)
    rwa [show Command.null.commands = [] from rfl, List.append_nil]

end

/-- A shell without aliases whose commands all succeed. -/
def succeeding : ShellParts Unit where
  aliases _ := []
  notify s := s
  execCommand _ _ s := (.SUCCESS, s)

/-- The line `ls`, with no newline behind it: it is valid, and nothing is executed. -/
theorem skips_last_line :
    (processCommands succeeding false .INITIAL none ['l', 's'] ()).log = [] ∧
      ¬ ExecutesText (resetParser .INITIAL ['l', 's'])
        (processCommands succeeding false .INITIAL none ['l', 's'] ()).log := by
  have hlog : (processCommands succeeding false .INITIAL none ['l', 's'] ()).log = [] := by decide
  refine ⟨hlog, ?_⟩
  rintro ⟨pcs, hvalid, hup⟩
  rw [hlog] at hup
  rw [validCommands_iff] at hvalid
  cases hup
  exact absurd hvalid (by decide)

end OSPortfolio.Ish
