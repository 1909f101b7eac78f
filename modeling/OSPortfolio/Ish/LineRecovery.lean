import Mathlib.Data.List.Forall2
import OSPortfolio.Ish.ParserRuns

namespace OSPortfolio.Ish

open OSPortfolio.LR

/-!
# Calls of `nextCommand` and the lines of the text

After an error the generated parser drops the tokens up to the next terminator, and where it
accepts it has not looked at a token behind the terminator.  So a call takes one line, and
nothing of it is left for the next call.

* `accepts_line` — the machine on one line: derivable, empty, or with an error anywhere;
* `nextCommandTab_eq` — a call whose stack stays below `YYMAXDEPTH` is one of `nextCommand`;
* `stackFits_of_length_lt` — only a line of thousands of tokens can reach that bound;
* `readsLines_of_stackFits` — **the calls after `resetParser` take one line each**;
* `not_readsLines_deep` — a line of 5000 commands comes to `YYMAXDEPTH`, and its call returns
  what was in `pcGlobalCommand` before.
-/

/-! ### Lines of the text -/

/-- The token that ends a line. -/
def Line.terminator (l : Line) : Token := if l.eof = true then .YEOF else .EOLN

/-- The tokens of a line with the one that ends it. -/
def Line.allTokens (l : Line) : List Token := l.tokens ++ [l.terminator]

theorem Line.terminator_cases (l : Line) : l.terminator = .EOLN ∨ l.terminator = .YEOF := by
  rw [Line.terminator]
  cases l.eof
  · exact Or.inl rfl
  · exact Or.inr rfl

/-- The first `i` lines that the lexer has. -/
def firstLines : Nat → Scanner → List Line
  | 0, _ => []
  | i + 1, s => readLine s :: firstLines i (readLine s).rest

/-- The tokens of a line are the ones that the calls of `yylex` return up to a terminator. -/
theorem reads_readLine (s : Scanner) :
    Parser.Reads yylex s (readLine s).allTokens (readLine s).rest ∧
      (∀ t ∈ (readLine s).tokens, Inside t) ∧ (readLine s).rest.start = .INITIAL := by
  induction hn : s.text.length using Nat.strongRecOn generalizing s with
  | _ n ih =>
    rw [readLine_eq]
    by_cases heof : (yylex s).1 = .YEOF
    · rw [if_pos heof]
      exact ⟨⟨heof, rfl⟩, by simp, by rw [yylex_eof heof]⟩
    · rw [if_neg heof]
      by_cases heoln : (yylex s).1 = .EOLN
      · rw [if_pos heoln]
        exact ⟨⟨heoln, rfl⟩, by simp, yylex_eoln heoln⟩
      · rw [if_neg heoln]
        obtain ⟨hreads, hinside, hstart⟩ := ih _ (hn ▸ yylex_shorter heof) (yylex s).2 rfl
        exact ⟨⟨rfl, hreads⟩, List.forall_mem_cons.mpr ⟨⟨heoln, heof⟩, hinside⟩, hstart⟩

/-! ### Recovery from an error -/

/-- Only the start state can shift `error`. -/
theorem errorShift_eq_none {q : Nat} (hq : q ≠ 0) : parserTables.errorShift q = none := by
  by_cases hlt : q < 42
  · have hall : ∀ p < 42, p ≠ 0 → parserTables.errorShift p = none := by decide
    exact hall q hlt hq
  -- there is no state behind the tables
  · have hpact : parserTables.pact.getD q 0 = 0 :=
      List.getD_eq_default _ _ (Nat.le_of_not_lt hlt)
    rw [Tables.errorShift, Tables.consistent, hpact]
    rfl

/-- Behind the token `error` the tokens of the line are dropped. -/
theorem accepts_behind_error {us : List Token} (hus : ∀ u ∈ us, Inside u) (v : YYSTYPE)
    (g : Globals) {t : Token} (ht : t = .EOLN ∨ t = .YEOF) :
    ishParser.Accepts ⟨[(1, v)], 3, us ++ [t], g⟩ ⟨.null, t = .YEOF⟩ := by
  induction us generalizing v with
  | nil =>
    rcases ht with rfl | rfl
    · exact ⟨_, reaches_step rfl (Parser.Reaches.single rfl), rfl⟩
    · exact ⟨_, reaches_step rfl (Parser.Reaches.single rfl), rfl⟩
  | cons u us ih =>
    obtain ⟨⟨heoln, heof⟩, hus⟩ := List.forall_mem_cons.mp hus
    have hfails : ishParser.Fails ⟨[(1, v)], 3, u :: us ++ [t], g⟩ := by
      refine ⟨rfl, u, us ++ [t], rfl, ?_⟩
      cases u <;> first | rfl | exact absurd rfl heoln | exact absurd rfl heof
    exact Parser.Accepts.of_reaches (Parser.Reaches.single
      (@Parser.step_of_fails _ _ _ ishParser _ 1 [] hfails rfl (by decide))) (ih hus .none)

/-- **A syntax error** anywhere in the line: the rest of it is dropped. -/
theorem accepts_of_fails {stack : List (Nat × YYSTYPE)} {us : List Token} {g : Globals}
    {t : Token} (h : ishParser.Fails ⟨stack, 0, us ++ [t], g⟩)
    (hstack : ∀ e ∈ stack, e.1 ≠ 0) (hus : ∀ u ∈ us, Inside u) (ht : t = .EOLN ∨ t = .YEOF) :
    ishParser.Accepts ⟨stack, 0, us ++ [t], g⟩ ⟨.null, t = .YEOF⟩ := by
  have hrecover : ishParser.recover stack = some (1, []) := by
    rw [ishParser.recover_eq fun e he => errorShift_eq_none (hstack e he)]
    rfl
  exact Parser.Accepts.of_reaches (Parser.Reaches.single
    (ishParser.step_of_fails h hrecover (by decide))) (accepts_behind_error hus .none g ht)

/-! ### One line -/

/-- A state that shifts a terminator: at the start of the line, behind an error, or behind
    `cmd_seq`. -/
theorem top_of_shifts {stack : List (Nat × YYSTYPE)} {cs : List Token} {t : Token}
    {g : Globals} (h : Spells ishCertificate DerivesSymbol stack cs)
    (ht : t = .EOLN ∨ t = .YEOF) (hshift : ishParser.Shifts ⟨stack, 0, [t], g⟩) :
    top stack = 0 ∨ top stack = 1 ∨ top stack = 7 := by
  have hall : ∀ p < 42, ∀ q ∈ ishCertificate.next p,
      ishCertificate.symbol q = 18 ∨ ishCertificate.symbol q = 19 → p = 0 ∨ p = 1 ∨ p = 7 := by
    decide
  obtain ⟨hlook, u, us, q, hinput, haction⟩ := hshift
  obtain ⟨rfl, -⟩ := List.cons.inj hinput
  have hok := h.actionOk ishCertificate_valid (yytranslate_lt t).1 (yytranslate_lt t).2 hlook
  have haction' : parserTables.action (top stack) (yytranslate t) = .shift q := haction
  rw [haction'] at hok
  simp only [Certificate.actionOk, Bool.and_eq_true, List.contains_eq_mem, decide_eq_true_eq] at hok
  obtain ⟨⟨hmem, hsymbol⟩, -⟩ := hok
  refine hall (top stack) (Certificate.lt_of_mem_next hmem) q hmem ?_
  rw [hsymbol]
  rcases ht with rfl | rfl
  · exact Or.inl rfl
  · exact Or.inr rfl

/-- Where a terminator is shifted, all tokens of the line are read: there are none, or they
    are derived from `cmd_seq`. -/
theorem nil_or_derives {stack : List (Nat × YYSTYPE)} {cs : List Token}
    (h : Spells ishCertificate DerivesSymbol stack cs)
    (htop : top stack = 0 ∨ top stack = 1 ∨ top stack = 7) :
    stack = [] ∧ cs = [] ∨ ∃ pc, DerivesCmdSeq cs pc := by
  cases h with
  | nil => exact Or.inl ⟨rfl, rfl⟩
  | @cons stack cs us q v h hedge hq =>
    have hne := (h.cons hedge hq).ne_zero ishCertificate_valid
    obtain ⟨hzero, hbelow⟩ := List.forall_mem_cons.mp hne
    rcases htop with htop | htop | htop
    · exact absurd htop hzero
    -- nothing derives the token `error`
    · obtain rfl : q = 1 := htop
      obtain ⟨t, -, ht, -⟩ : ∃ t, us = [t] ∧ yytranslate t = 1 ∧ v = yylval t := hq
      cases t <;> simp [yytranslate] at ht
    · obtain rfl : q = 7 := htop
      have hfirst : ∀ p < 42, 7 ∈ ishCertificate.next p → p = 0 := by decide
      have htop' := hfirst _ (Certificate.lt_of_mem_next hedge) hedge
      obtain ⟨pc, -, hder⟩ := hq
      -- the sequence is the only entry of the stack
      cases h with
      | nil => exact Or.inr ⟨pc, hder⟩
      | cons h hedge' hq' => exact absurd htop' (hbelow _ List.mem_cons_self)

/-- **The machine on one line.**  A derivable line is accepted with its value, and an empty
    line or one with an error without a command. -/
theorem accepts_line {ts : List Token} (hts : ∀ u ∈ ts, Inside u) {t : Token}
    (ht : t = .EOLN ∨ t = .YEOF) (g : Globals) :
    ishParser.Accepts (tabConf [] (ts ++ [t]) g) ⟨(parseLine ts).getD .null, t = .YEOF⟩ := by
  by_cases hder : ∃ pc, DerivesCmdSeq ts pc
  · obtain ⟨pc, hpc⟩ := hder
    rw [(parseLine_iff ts pc).mpr hpc]
    exact accepts_cmdSeq hpc ht
  · have hnone : parseLine ts = none := by
      rw [Option.eq_none_iff_forall_ne_some]
      exact fun pc h => hder ⟨pc, (parseLine_iff ts pc).mp h⟩
    rw [hnone]
    obtain ⟨stack, cs, us, hreach, hsplit, hspells, hend⟩ :=
      ishParser_certified.reads_or_fails t [] g .nil (by simp) hts
    rw [List.nil_append] at hsplit
    refine Parser.Accepts.of_reaches hreach ?_
    rcases hend with hfails | ⟨rfl, hshift⟩
    · refine accepts_of_fails hfails (hspells.ne_zero ishCertificate_valid) ?_ ht
      exact fun u hu => hts u (hsplit ▸ List.mem_append_right cs hu)
    · rw [List.append_nil] at hsplit
      rcases nil_or_derives hspells (top_of_shifts hspells ht hshift) with ⟨rfl, rfl⟩ | hcmd
      · exact accepts_nil ht
      · exact absurd (hsplit ▸ hcmd) hder

/-! ### Calls -/

/-- The stack of the parser stays below `YYMAXDEPTH` on the line. -/
def StackFits (l : Line) : Prop :=
  ∀ g a, ishParser.Reaches (tabConf [] l.allTokens g) a → a.stack.length + 1 < YYMAXDEPTH

/-- **Short lines fit**: with less than 2498 tokens a line does not fill the stack. -/
theorem stackFits_of_length_lt {l : Line} (h : 4 * l.tokens.length + 9 < YYMAXDEPTH) :
    StackFits l := by
  intro g a ha
  have hdepth := @Budget.length_le_depth _ _ _ ishBudget ishParser a ishBudget_valid
    (fun t => (yytranslate_lt t).2) l.allTokens g ha
  have hlen : ishBudget.depth l.allTokens.length = 4 * l.tokens.length + 8 := by
    simp only [Line.allTokens, List.length_append, List.length_singleton, Budget.depth, ishBudget]
    omega
  omega

/-- The result of a call for a line: the list of the line if `cmd_seq` derives it, else `NULL`,
    and whether the end of the file ended it. -/
structure LineResult (l : Line) (r : Globals) : Prop where
  derivable : ∀ pc, DerivesCmdSeq l.tokens pc → r.pcGlobalCommand = pc
  other : (∀ pc, ¬ DerivesCmdSeq l.tokens pc) → r.pcGlobalCommand = .null
  eof : r.fEndOfFile = true ↔ l.terminator = .YEOF

/-- **The tables parse as the grammar says.**  On a line that fits, a call of the generated parser
    ends, with the command, the flag and the lexer of `nextCommand`. -/
theorem nextCommandTab_eq {s : Scanner} (hfits : StackFits (readLine s)) (g : Globals) :
    ∃ fuel, ∀ fuel' ≥ fuel, nextCommandTab fuel' g s =
      some (⟨(nextCommand s).1, (nextCommand s).2.1⟩, (nextCommand s).2.2) := by
  obtain ⟨hreads, hinside, -⟩ := reads_readLine s
  have haccepts := accepts_line hinside (readLine s).terminator_cases g
  have hfollows : Parser.Follows yylex ⟨[], 0, none, s, g⟩
      (tabConf [] (readLine s).allTokens g) (readLine s).rest :=
    ⟨rfl, rfl, rfl, hreads, List.nil_prefix⟩
  obtain ⟨fuel, hrun⟩ := Parser.run_of_accepts (fun t => (yytranslate_lt t).1) hfollows haccepts
    (hfits g)
  refine ⟨fuel, fun fuel' hle => ?_⟩
  have heof : decide ((readLine s).terminator = .YEOF) = (readLine s).eof := by
    rw [Line.terminator]
    cases (readLine s).eof <;> rfl
  rw [nextCommandTab, yyparseTab, Parser.run_mono ishParser yylex YYMAXDEPTH hle hrun, heof]
  rfl

/-- The result of `nextCommand` is the one of its line. -/
theorem nextCommand_lineResult (s : Scanner) :
    LineResult (readLine s) ⟨(nextCommand s).1, (nextCommand s).2.1⟩ := by
  refine ⟨fun pc hpc => ?_, fun hnone => ?_, ?_⟩
  · show (parseLine (readLine s).tokens).getD .null = pc
    rw [(parseLine_iff _ pc).mpr hpc]
    rfl
  · show (parseLine (readLine s).tokens).getD .null = .null
    rw [Option.eq_none_iff_forall_ne_some.mpr fun pc h => hnone pc ((parseLine_iff _ pc).mp h)]
    rfl
  · show (readLine s).eof = true ↔ _
    rw [Line.terminator]
    cases (readLine s).eof <;> simp

/-- **One call** takes the next line. -/
theorem nextCommandTab_line {s : Scanner} (hfits : StackFits (readLine s)) (g : Globals) :
    ∃ fuel r, (∀ fuel' ≥ fuel, nextCommandTab fuel' g s = some (r, (readLine s).rest)) ∧
      LineResult (readLine s) r := by
  obtain ⟨fuel, hcall⟩ := nextCommandTab_eq hfits g
  exact ⟨fuel, _, hcall, nextCommand_lineResult s⟩

/-- After `resetParser`, the first `i` calls of `nextCommand` take the first `i` lines of the
    text: they return, have read the tokens of these lines with their terminators and no
    other, have the results of these lines, and leave the lexer in `INITIAL`. -/
def ReadsLines (g : Globals) (start : StartCond) (text : List Char) (i : Nat) : Prop :=
  ∃ fuel results last s,
    (∀ fuel' ≥ fuel,
      callsTab fuel' i (resetParserTab g start text) = some (results, last, s)) ∧
    Parser.Reads yylex ⟨start, text⟩
      ((firstLines i ⟨start, text⟩).flatMap Line.allTokens) s ∧
    (∀ l ∈ firstLines i ⟨start, text⟩, ∀ t ∈ l.tokens, Inside t) ∧
    List.Forall₂ LineResult (firstLines i ⟨start, text⟩) results ∧
    (i ≠ 0 → s.start = .INITIAL)

/-- The calls from any state of the globals and of the lexer on. -/
theorem callsTab_lines (i : Nat) (g : Globals) (s : Scanner)
    (hfits : ∀ l ∈ firstLines i s, StackFits l) :
    ∃ fuel results last s',
      (∀ fuel' ≥ fuel, callsTab fuel' i (g, s) = some (results, last, s')) ∧
      Parser.Reads yylex s ((firstLines i s).flatMap Line.allTokens) s' ∧
      (∀ l ∈ firstLines i s, ∀ t ∈ l.tokens, Inside t) ∧
      List.Forall₂ LineResult (firstLines i s) results ∧ (i ≠ 0 → s'.start = .INITIAL) := by
  induction i generalizing g s with
  | zero => exact ⟨0, [], g, s, fun _ _ => rfl, rfl, by simp [firstLines], .nil, by simp⟩
  | succ i ih =>
    obtain ⟨hfirst, hrest⟩ := List.forall_mem_cons.mp hfits
    obtain ⟨fuel₁, r, hcall, hresult⟩ := nextCommandTab_line hfirst g
    obtain ⟨fuel₂, results, last, s', hcalls, hreads, hinside, hresults, hstart⟩ :=
      ih r (readLine s).rest hrest
    obtain ⟨hline, htokens, hinitial⟩ := reads_readLine s
    refine ⟨max fuel₁ fuel₂, r :: results, last, s', fun fuel' hle => ?_, ?_, ?_,
      .cons hresult hresults, fun _ => ?_⟩
    · rw [callsTab, hcall fuel' (by omega), Option.bind_some, hcalls fuel' (by omega)]
      rfl
    · rw [firstLines, List.flatMap_cons, Parser.reads_append]
      exact ⟨_, hline, hreads⟩
    · exact List.forall_mem_cons.mpr ⟨htokens, hinside⟩
    -- the last call leaves `INITIAL`, be it this one or a later one
    · by_cases hi : i = 0
      · subst hi
        obtain rfl : (readLine s).rest = s' := hreads
        exact hinitial
      · exact hstart hi

/-- **The calls of `nextCommand` take one line each**, whatever the text is, as long as the stack
    of the parser stays below `YYMAXDEPTH`: a syntax error loses its own line only. -/
theorem readsLines_of_stackFits (g : Globals) (start : StartCond) (text : List Char) (i : Nat)
    (hfits : ∀ l ∈ firstLines i ⟨start, text⟩, StackFits l) : ReadsLines g start text i :=
  callsTab_lines i _ _ hfits

/-- A line with an error, and the end of the file. -/
theorem readsLines_of_stackFits_error :
    ReadsLines ⟨.null, false⟩ .INITIAL ['|', '\n'] 2 := by
  refine readsLines_of_stackFits _ _ _ 2 ?_
  have hlines : firstLines 2 ⟨.INITIAL, ['|', '\n']⟩ =
      [⟨[.PIPE], false, ⟨.INITIAL, []⟩⟩, ⟨[], true, ⟨.INITIAL, []⟩⟩] := by
    decide
  rw [hlines]
  intro l hl
  simp only [List.mem_cons, List.not_mem_nil, or_false] at hl
  rcases hl with rfl | rfl
  · exact stackFits_of_length_lt (by decide)
  · exact stackFits_of_length_lt (by decide)

/-! ### A line that is too long -/

/-- No step of the machine sets `pcGlobalCommand`; the actions that do accept. -/
theorem pcGlobalCommand_of_reaches {a b : Conf Token YYSTYPE Globals}
    (h : ishParser.Reaches a b) : b.globals.pcGlobalCommand = a.globals.pcGlobalCommand := by
  have hact : ∀ n vs g, (userAction n vs g).2.2 = true ∨
      (userAction n vs g).2.1.pcGlobalCommand = g.pcGlobalCommand := by
    intro n vs g
    unfold userAction
    split <;> first | exact Or.inr rfl | exact Or.inl rfl
  induction h with
  | refl => rfl
  | tail _ hstep ih =>
    refine Eq.trans ?_ ih
    cases ishParser.turn_of_step hstep with
    | reduce _ hreduce =>
      rw [Parser.reduce] at hreduce
      split at hreduce
      · simp at hreduce
      · rename_i hgo
        obtain rfl := Sum.inl.inj hreduce
        exact (hact _ _ _).resolve_left hgo
    | shift _ _ _ _ => rfl
    | recover _ _ _ => rfl

/-- The text `a;a;…` and its tokens. -/
def manyCommands (n : Nat) : List Char := (List.replicate n ['a', ';']).flatten

def manyTokens (n : Nat) : List Token := (List.replicate n [.COMMAND "a", .SEMICOLON]).flatten

theorem readLine_manyCommands (n : Nat) :
    readLine ⟨.INITIAL, manyCommands n ++ ['\n']⟩ = ⟨manyTokens n, false, ⟨.INITIAL, []⟩⟩ := by
  induction n with
  | zero => decide
  | succ n ih =>
    have hname : yylex ⟨.INITIAL, 'a' :: ';' :: (manyCommands n ++ ['\n'])⟩ =
        (.COMMAND "a", ⟨.PARAM, ';' :: (manyCommands n ++ ['\n'])⟩) := rfl
    have hsemicolon : yylex ⟨.PARAM, ';' :: (manyCommands n ++ ['\n'])⟩ =
        (.SEMICOLON, ⟨.INITIAL, manyCommands n ++ ['\n']⟩) := rfl
    show readLine ⟨.INITIAL, 'a' :: ';' :: (manyCommands n ++ ['\n'])⟩ = _
    rw [readLine_eq, hname, if_neg (by simp), if_neg (by simp), readLine_eq, hsemicolon,
      if_neg (by simp), if_neg (by simp), ih]
    rfl

/-- The command `a`. -/
theorem derives_a : DerivesCommand [.COMMAND "a"] (commandValue "a" (createArguments none) .null) :=
  .command "a" .empty .empty

theorem derives_manyTokens (n : Nat) : ∃ pc, DerivesCmdSeq (manyTokens (n + 1)) pc := by
  induction n with
  | zero =>
    have hone := DerivesCmdSeq.separator derives_a .semicolon
    exact ⟨_, hone⟩
  | succ n ih =>
    obtain ⟨pc, hpc⟩ := ih
    have hmore := DerivesCmdSeq.sequence derives_a .semicolon hpc
    exact ⟨_, hmore⟩

/-- Each command and each separator stays on the stack up to the end of the line. -/
theorem reaches_manyTokens (n : Nat) (rest : List Token) (g : Globals)
    {stack : List (Nat × YYSTYPE)} (hstack : ExpectsCmdSeq stack) :
    ∃ stack', stack'.length = stack.length + 2 * n ∧
      ishParser.Reaches (tabConf stack (manyTokens n ++ rest) g) (tabConf stack' rest g) := by
  induction n generalizing stack with
  | zero => exact ⟨stack, rfl, .refl⟩
  | succ n ih =>
    have hfirst := reaches_separator (g := g) derives_a .semicolon hstack (manyTokens n ++ rest)
    have hnext : ∀ v w, ExpectsCmdSeq ((15, v) :: (8, w) :: stack) := fun v w => Or.inr rfl
    obtain ⟨stack', hlength, hreach⟩ := ih (hnext _ _)
    refine ⟨stack', ?_, hfirst.trans hreach⟩
    simp only [hlength, List.length_cons]
    omega

/-- **A line that comes to `YYMAXDEPTH`.**  The parser gives up, and the call returns what was in
    `pcGlobalCommand` before. -/
theorem callsTab_deep {n : Nat} (hn : YYMAXDEPTH ≤ 2 * n + 1) (g : Globals) :
    ∃ fuel r s, r.pcGlobalCommand = g.pcGlobalCommand ∧ ∀ fuel' ≥ fuel,
      callsTab fuel' 1 (resetParserTab g .INITIAL (manyCommands n ++ ['\n'])) =
        some ([r], r, s) := by
  obtain ⟨hreads, -, -⟩ := reads_readLine ⟨.INITIAL, manyCommands n ++ ['\n']⟩
  rw [readLine_manyCommands n] at hreads
  obtain ⟨stack, hlength, hreach⟩ := reaches_manyTokens n [.EOLN]
    { g with fEndOfFile := false } (show ExpectsCmdSeq [] from Or.inl rfl)
  have hfollows : Parser.Follows yylex
      ⟨[], 0, none, ⟨.INITIAL, manyCommands n ++ ['\n']⟩, { g with fEndOfFile := false }⟩
      (tabConf [] (manyTokens n ++ [.EOLN]) { g with fEndOfFile := false }) ⟨.INITIAL, []⟩ :=
    ⟨rfl, rfl, rfl, hreads, List.nil_prefix⟩
  have hdeep : YYMAXDEPTH ≤ stack.length + 1 := by
    rw [hlength, List.length_nil]
    omega
  obtain ⟨fuel, d, l, hd, hrun⟩ := Parser.run_of_deep (fun t => (yytranslate_lt t).1) hfollows
    hreach hdeep (show 0 + 1 < YYMAXDEPTH by decide)
  refine ⟨fuel, d.globals, l, pcGlobalCommand_of_reaches hd, fun fuel' hle => ?_⟩
  have hcall : nextCommandTab fuel' { g with fEndOfFile := false }
      ⟨.INITIAL, manyCommands n ++ ['\n']⟩ = some (d.globals, l) := by
    rw [nextCommandTab, yyparseTab, Parser.run_mono ishParser yylex YYMAXDEPTH hle hrun]
    rfl
  rw [callsTab, resetParserTab]
  dsimp only
  rw [hcall]
  rfl

/-- **5000 commands in one line.**  The line is derivable, and its call returns the `NULL` that was
    in `pcGlobalCommand` before. -/
theorem not_readsLines_deep :
    ¬ ReadsLines ⟨.null, false⟩ .INITIAL (manyCommands 5000 ++ ['\n']) 1 := by
  rintro ⟨fuel, results, last, s, hcalls, -, -, hresults, -⟩
  obtain ⟨fuel', r, s', hnull, hcalls'⟩ := callsTab_deep (n := 5000) (by decide) ⟨.null, false⟩
  have hsame := (hcalls _ (Nat.le_max_left fuel fuel')).symm.trans
    (hcalls' _ (Nat.le_max_right fuel fuel'))
  obtain ⟨rfl, -⟩ := Prod.mk.inj (Option.some.inj hsame)
  obtain ⟨pc, hpc⟩ := derives_manyTokens 4999
  rw [firstLines, readLine_manyCommands] at hresults
  obtain ⟨hresult, -⟩ := List.forall₂_cons.mp hresults
  rw [hresult.derivable pc hpc] at hnull
  exact hpc.ne_null hnull

end OSPortfolio.Ish
