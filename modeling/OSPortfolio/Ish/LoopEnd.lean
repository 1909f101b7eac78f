import OSPortfolio.Ish.ProcessCommands

namespace OSPortfolio.Ish

/-!
# Where the command loop ends

`processCommands` leaves its loop at the end of the file, and after a command that returned
`QUIT`.  The second test looks at `ret`, which is set by `ExecCommand` alone: on a line
without a command it holds what it held before, and on the first line that is anything.

* `commandLoopStop` — the loop, with the `break` by which it ends; `commandLoopStop_fst`;
* `StopsAtQuit` — the loop ends at the end of the file or because a command of the text quits;
* `stopsAtQuit_processCommandsStop` — **it does unless `ret` happens to hold `QUIT`** and the
  first line ends with a newline and holds no command.
-/

universe u

/-- The two `break` statements of the loop. -/
inductive Stop
  | eof
  | quit
  deriving DecidableEq, Repr

section
variable {σ : Type u} (S : ShellParts σ) (interactive : Bool)

/-- `commandLoop`, with the `break` that ends it; `none` if the turns are used up. -/
def commandLoopStop : Nat → Option Ret → Scanner → σ → Processed σ × Option Stop
  | 0, ret, _, s => (⟨[], ret, s⟩, none)
  | fuel + 1, ret, lexer, s =>
    let s := beforeLine S interactive s
    let (pc, eof, lexer) := nextCommand lexer
    if eof then (⟨[], ret, s⟩, some .eof)
    else
      let line := executeCommands S interactive pc ret s
      if line.ret = some .QUIT then (line, some .quit)
      else
        let rest := commandLoopStop fuel line.ret lexer line.state
        ({ rest.1 with log := line.log ++ rest.1.log }, rest.2)

/-- It is the loop. -/
theorem commandLoopStop_fst (fuel : Nat) (ret : Option Ret) (lexer : Scanner) (s : σ) :
    (commandLoopStop S interactive fuel ret lexer s).1 =
      commandLoop S interactive fuel ret lexer s := by
  induction fuel generalizing ret lexer s with
  | zero => rfl
  | succ fuel ih =>
    rw [commandLoopStop, commandLoop]
    dsimp only
    split
    · rfl
    · split
      · rfl
      · dsimp only
        rw [ih]

/-- The call is for a command of a line of the text. -/
def IsCommandOf (lexer : Scanner) (pc : Command) : Prop :=
  ∃ line ∈ linesOf lexer, ∃ pcs, DerivesCmdSeq line pcs ∧ pc ∈ pcs.commands

/-- The loop ends at the end of the file, or after a command of the text has returned
    `QUIT`. -/
def StopsAtQuit (lexer : Scanner) (r : Processed σ × Option Stop) : Prop :=
  r.2 = some .eof ∨
    r.2 = some .quit ∧ ∃ e ∈ r.1.log, e.2 = .QUIT ∧ IsCommandOf lexer e.1

/-! ### The calls -/

theorem executeCommands_mem (pc : Command) (ret : Option Ret) (s : σ) :
    ∀ e ∈ (executeCommands S interactive pc ret s).log, e.1 ∈ pc.commands := by
  induction pc using Command.nextInduction generalizing ret s with
  | null => exact fun e he => absurd he (by simp [executeCommands])
  | mk z pa b r n ih =>
    intro e he
    rw [executeCommands] at he
    cases hexec : S.execCommand (funcAliasing (S.aliases s) (.mk z pa b r n)) interactive s with
    | mk ret' s'
    rw [hexec] at he
    dsimp only at he
    split at he
    · obtain rfl := List.mem_singleton.mp he
      exact List.mem_cons_self
    · rcases List.mem_cons.mp he with rfl | he
      · exact List.mem_cons_self
      · exact List.mem_cons_of_mem _ (ih _ _ e he)

/-- The calls of `executeLines` are for commands of the lines. -/
theorem executeLines_mem (lines : List (List Token)) (ret : Option Ret) (s : σ) :
    ∀ e ∈ (executeLines S interactive lines ret s).log,
      ∃ line ∈ lines, ∃ pcs, DerivesCmdSeq line pcs ∧ e.1 ∈ pcs.commands := by
  induction lines generalizing ret s with
  | nil => exact fun e he => absurd he (by simp [executeLines])
  | cons line lines ih =>
    intro e he
    have hfirst : ∀ e ∈ (executeCommands S interactive ((parseLine line).getD .null) ret
        (beforeLine S interactive s)).log,
        ∃ line' ∈ line :: lines, ∃ pcs, DerivesCmdSeq line' pcs ∧ e.1 ∈ pcs.commands := by
      intro e he
      have hmem := executeCommands_mem S interactive _ _ _ e he
      rcases parseLine_getD line with hder | ⟨-, hnull⟩
      · exact ⟨line, List.mem_cons_self, _, hder, hmem⟩
      · rw [hnull] at hmem
        exact absurd hmem (by simp [Command.commands])
    rw [executeLines] at he
    dsimp only at he
    split at he
    · exact hfirst e he
    · rcases List.mem_append.mp he with he | he
      · exact hfirst e he
      · obtain ⟨line', hline', hrest⟩ := ih _ _ e he
        exact ⟨line', List.mem_cons_of_mem line hline', hrest⟩

/-- Every call of the loop is for a command of the text. -/
theorem commandLoop_mem {fuel : Nat} (lexer : Scanner) (ret : Option Ret)
    (hfuel : lexer.text.length < fuel) (s : σ) :
    ∀ e ∈ (commandLoop S interactive fuel ret lexer s).log, IsCommandOf lexer e.1 := by
  intro e he
  rw [commandLoop_log S interactive lexer hfuel] at he
  obtain ⟨line, hline, hrest⟩ := executeLines_mem S interactive _ _ _ e he
  exact ⟨line, List.dropLast_subset _ hline, hrest⟩

/-! ### The end of the loop -/

/-- Behind a call of `ExecCommand` the variable does not matter any more. -/
theorem executeCommands_ret {pc : Command} (hpc : pc ≠ .null) (ret ret' : Option Ret) (s : σ) :
    executeCommands S interactive pc ret s = executeCommands S interactive pc ret' s := by
  cases pc with
  | null => exact absurd rfl hpc
  | mk z pa b r n => rfl

/-- One turn, on the line that `nextCommand` reads. -/
theorem commandLoopStop_succ (fuel : Nat) (ret : Option Ret) (lexer : Scanner) (s : σ) :
    commandLoopStop S interactive (fuel + 1) ret lexer s =
      if (readLine lexer).eof = true then (⟨[], ret, beforeLine S interactive s⟩, some .eof)
      else
        let line := executeCommands S interactive ((parseLine (readLine lexer).tokens).getD .null)
          ret (beforeLine S interactive s)
        if line.ret = some .QUIT then (line, some .quit)
        else
          let rest := commandLoopStop S interactive fuel line.ret (readLine lexer).rest line.state
          ({ rest.1 with log := line.log ++ rest.1.log }, rest.2) := rfl

/-- **The end of the loop**, when `ret` does not hold `QUIT` before it. -/
theorem commandLoopStop_end {fuel : Nat} (lexer : Scanner) {ret : Option Ret}
    (hret : ret ≠ some .QUIT) (hfuel : lexer.text.length < fuel) (s : σ) :
    (commandLoopStop S interactive fuel ret lexer s).2 = some .eof ∨
      (commandLoopStop S interactive fuel ret lexer s).2 = some .quit ∧
        HasQuit (commandLoopStop S interactive fuel ret lexer s).1.log := by
  induction fuel generalizing lexer ret s with
  | zero => omega
  | succ fuel ih =>
    have hshort := (readLine_spec lexer).shorter
    rw [commandLoopStop_succ]
    generalize readLine lexer = l at hshort ⊢
    by_cases heof : l.eof = true
    · rw [if_pos heof]
      exact Or.inl rfl
    · rw [if_neg heof]
      have hlt := hshort (by simpa using heof)
      obtain ⟨-, hquit⟩ := executeCommands_spec S interactive ((parseLine l.tokens).getD .null)
        hret (beforeLine S interactive s)
      generalize executeCommands S interactive ((parseLine l.tokens).getD .null) ret
        (beforeLine S interactive s) = line at hquit ⊢
      dsimp only
      by_cases hline : line.ret = some .QUIT
      · rw [if_pos hline]
        exact Or.inr ⟨rfl, hquit.mp hline⟩
      · rw [if_neg hline]
        rcases ih l.rest hline (by omega) line.state with hend | ⟨hend, hlog⟩
        · exact Or.inl hend
        · exact Or.inr ⟨hend, (hasQuit_append _ _).mpr (Or.inr hlog)⟩

/-- So then it ends as it should: the calls of the loop are for commands of the text. -/
theorem stopsAtQuit_of_ret {fuel : Nat} (lexer : Scanner) {ret : Option Ret}
    (hret : ret ≠ some .QUIT) (hfuel : lexer.text.length < fuel) (s : σ) :
    StopsAtQuit lexer (commandLoopStop S interactive fuel ret lexer s) := by
  rcases commandLoopStop_end S interactive lexer hret hfuel s with hend | ⟨hend, e, he, hquit⟩
  · exact Or.inl hend
  · refine Or.inr ⟨hend, e, he, hquit, ?_⟩
    rw [commandLoopStop_fst] at he
    exact commandLoop_mem S interactive lexer ret hfuel s e he

/-- `processCommands`, with the `break` that ends it. -/
def processCommandsStop (start : StartCond) (ret : Option Ret) (text : List Char) (s : σ) :
    Processed σ × Option Stop :=
  commandLoopStop S interactive (text.length + 1) ret (resetParser start text) s

/-- **Where the loop ends.**  For every text it is at the end of the file or after a command of
    the text that has returned `QUIT`, exactly if `ret` does not happen to hold `QUIT` before
    the loop or the first line, if a newline ends it, holds a command. -/
theorem stopsAtQuit_processCommandsStop (start : StartCond) (ret : Option Ret) (text : List Char)
    (s : σ) :
    StopsAtQuit (resetParser start text) (processCommandsStop S interactive start ret text s) ↔
      (ret = some .QUIT → ∀ line ∈ (linesOf (resetParser start text)).dropLast.head?,
        ∃ pc, DerivesCmdSeq line pc) := by
  have hfuel : (resetParser start text).text.length < text.length + 1 := Nat.lt_succ_self _
  unfold processCommandsStop
  generalize resetParser start text = lexer at hfuel ⊢
  generalize text.length + 1 = fuel at hfuel ⊢
  by_cases hret : ret = some .QUIT
  · subst hret
    rw [forall_prop_of_true rfl, linesOf_eq]
    obtain ⟨fuel, rfl⟩ : ∃ n, fuel = n + 1 := ⟨fuel - 1, by omega⟩
    by_cases heof : (readLine lexer).eof = true
    · -- the end of the file comes before the second test
      rw [if_pos heof]
      refine iff_of_true (Or.inl ?_) (by simp)
      rw [commandLoopStop_succ, if_pos heof]
    · have hne : linesOf (readLine lexer).rest ≠ [] := List.splitOn_ne_nil _ _
      rw [if_neg heof, List.dropLast_cons_of_ne_nil hne, List.head?_cons]
      rcases parseLine_getD (readLine lexer).tokens with hder | ⟨hnot, hnull⟩
      · -- the first command sets the variable
        refine iff_of_true ?_ (by simpa using ⟨_, hder⟩)
        have hsame : commandLoopStop S interactive (fuel + 1) (some .QUIT) lexer s =
            commandLoopStop S interactive (fuel + 1) none lexer s := by
          rw [commandLoopStop_succ, commandLoopStop_succ, if_neg heof, if_neg heof,
            executeCommands_ret S interactive hder.ne_null (some .QUIT) none]
        rw [hsame]
        exact stopsAtQuit_of_ret S interactive lexer (by simp) hfuel s
      · refine iff_of_false ?_ (by simpa using hnot)
        have hend : commandLoopStop S interactive (fuel + 1) (some .QUIT) lexer s =
            (⟨[], some .QUIT, beforeLine S interactive s⟩, some .quit) := by
          rw [commandLoopStop_succ, if_neg heof, hnull]
          exact if_pos rfl
        rw [hend]
        rintro (hstop | ⟨-, e, he, -⟩)
        · exact absurd (show some Stop.quit = some Stop.eof from hstop) (by decide)
        · exact absurd he (by simp)
  · exact iff_of_true (stopsAtQuit_of_ret S interactive lexer hret hfuel s)
      fun h => absurd h hret

end

/-- A blank line and the line `ls`, when the variable happens to hold `QUIT`: the loop ends at
    the blank line, and nothing is executed. -/
theorem blank_line_stop :
    (processCommandsStop succeeding false .INITIAL (some .QUIT) ['\n', 'l', 's', '\n'] ()).2 =
        some .quit ∧
      (processCommandsStop succeeding false .INITIAL (some .QUIT)
        ['\n', 'l', 's', '\n'] ()).1.log = [] ∧
      ¬ StopsAtQuit (resetParser .INITIAL ['\n', 'l', 's', '\n'])
        (processCommandsStop succeeding false .INITIAL (some .QUIT)
          ['\n', 'l', 's', '\n'] ()) := by
  have hend : (processCommandsStop succeeding false .INITIAL (some .QUIT)
      ['\n', 'l', 's', '\n'] ()).2 = some .quit := by decide
  have hlog : (processCommandsStop succeeding false .INITIAL (some .QUIT)
      ['\n', 'l', 's', '\n'] ()).1.log = [] := by decide
  refine ⟨hend, hlog, ?_⟩
  rintro (hstop | ⟨-, e, he, -⟩)
  · rw [hend] at hstop
    exact absurd hstop (by decide)
  · rw [hlog] at he
    exact absurd he (by simp)

end OSPortfolio.Ish
