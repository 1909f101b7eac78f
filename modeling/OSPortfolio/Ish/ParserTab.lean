import OSPortfolio.Lib.LRSoundness
import OSPortfolio.Ish.Parser

namespace OSPortfolio.Ish

open OSPortfolio.LR

/-!
# The generated parser

`parser.tab.c`: the tables that Bison computed from `parser.y`, the actions of the rules, and
`yyparse` as the skeleton around them.  The tables keep their order in the file.

* `parserTables`, `userAction`, `ishParser` — the parser;
* `yyparseTab`, `nextCommandTab`, `callsTab` — one call, and the calls after `resetParser`;
* `ishCertificate` — the edges of the automaton, checked against the tables;
* `ishBudget` — what a token adds to the stack, checked against the tables;
* `DerivesSymbol`, `userAction_derives` — **each action keeps the meaning of its rule**.

The messages of `yyerror`, and a failing `malloc` when the stacks grow, are left out.
-/

/-! ### The tables -/

/-- The tables of `parser.tab.c`. -/
def parserTables : Tables where
  final := 11
  ntokens := 22
  pactNinf := -9
  tableNinf := -1
  r1 :=
    [0, 22, 23, 23, 23, 24, 24, 25, 25, 25, 26, 27, 27, 27, 27, 28, 28, 28, 28, 29, 30, 30, 30,
      30, 31, 32, 32, 33, 33, 34, 34, 35, 35]
  r2 :=
    [0, 2, 2, 1, 2, 1, 1, 3, 2, 1, 3, 1, 1, 2, 0, 1, 1, 2, 2, 2, 2, 2, 2, 2, 2, 1, 1, 1, 1, 2,
      0, 1, 1]
  defact :=
    [0, 0, 30, 6, 5, 0, 3, 0, 9, 4, 14, 1, 2, 25, 26, 8, 31, 27, 28, 0, 0, 0, 0, 0, 32, 10, 11,
      15, 16, 12, 0, 29, 7, 19, 20, 21, 22, 23, 13, 17, 18, 24]
  defgoto := [-1, 5, 6, 7, 8, 25, 26, 27, 28, 29, 15, 30, 10, 31]
  pact :=
    [-1, -3, -9, -9, -9, 2, -9, -3, 19, -9, -2, -9, -9, -9, -9, 0, -9, -9, -9, 14, 21, 26, 27,
      28, -9, -9, 22, 10, 17, -9, 0, -9, -9, -9, -9, -9, -9, -9, -9, -9, -9, -9]
  pgoto := [-9, -9, 13, -8, 4, -9, -9, 7, 9, 11, -9, -9, -9, -9]
  table :=
    [1, 16, 11, 2, 2, 17, 18, 32, 19, 20, 21, 22, 23, 24, 9, 3, 4, 3, 4, 33, 12, 20, 21, 22, 23,
      13, 34, 19, 14, 17, 18, 35, 36, 37, 41, 40, 39, 38]
  check :=
    [1, 3, 0, 4, 4, 7, 8, 15, 10, 11, 12, 13, 14, 15, 1, 18, 19, 18, 19, 5, 7, 11, 12, 13, 14, 6,
      5, 10, 9, 7, 8, 5, 5, 5, 30, 28, 27, 26]

/-- `YYMAXDEPTH` -/
def YYMAXDEPTH : Nat := 10000

/-- `YYTRANSLATE` of the number of a token. -/
def yytranslate : Token → Nat
  | .WORD _ => 3
  | .COMMAND _ => 4
  | .FILENAME _ => 5
  | .BACKGROUND => 6
  | .PIPE => 7
  | .PIPE_ERROR => 8
  | .SEMICOLON => 9
  | .REDIRECT_IN => 10
  | .REDIRECT_OUT => 11
  | .REDIRECT_ERROR => 12
  | .APPEND => 13
  | .APPEND_ERROR => 14
  | .STRING _ => 15
  | .LOGICAL_AND => 16
  | .LOGICAL_OR => 17
  | .EOLN => 18
  | .YEOF => 19

/-! ### The actions -/

/-- `YYSTYPE`; `none` is a value that no action reads. -/
inductive YYSTYPE
  | cmd (pc : Command)
  | redir (pr : Redirect)
  | arg (pa : Args)
  | string (z : String)
  | integer (n : Nat)
  | none
  deriving DecidableEq, Repr

/-- `yylval` behind a token; the other tokens leave it as it is, and no action reads it. -/
def yylval : Token → YYSTYPE
  | .WORD s => .string s
  | .COMMAND s => .string s
  | .FILENAME s => .string s
  | .STRING s => .string s
  | _ => .none

/-- The numbers of `enum yytokentype` that the actions use as values. -/
def tokBACKGROUND : Nat := 261
def tokPIPE : Nat := 262
def tokPIPE_ERROR : Nat := 263
def tokSEMICOLON : Nat := 264

/-- The kind of pipe that `createRedirect` is called for; the rule for `pipe` has the two
    values only. -/
def pipeTypeOfTok (n : Nat) : PipeType := if n = tokPIPE then .PIPE else .PIPE_ERROR

/-- The variables of the parser that its callers read. -/
structure Globals where
  pcGlobalCommand : Command
  fEndOfFile : Bool
  deriving DecidableEq, Repr

/-- The `switch` of `yyreduce`: from `$1`, `$2`, … of a rule its `$$`, the globals, and whether
    the action is a `YYACCEPT`. -/
def userAction : Nat → List YYSTYPE → Globals → YYSTYPE × Globals × Bool
  | 2, [.cmd pc, _], g => (.cmd pc, { g with pcGlobalCommand := pc }, true)
  | 3, [_], g => (.cmd .null, { g with pcGlobalCommand := .null }, true)
  | 4, [_, _], g => (.cmd .null, { g with pcGlobalCommand := .null }, true)
  | 5, [v], g => (v, { g with fEndOfFile := true }, false)
  | 6, [v], g => (v, { g with fEndOfFile := false }, false)
  | 7, [.cmd pc₁, .integer n, .cmd pc₂], g =>
    (.cmd (backgroundIf (n = tokBACKGROUND) (appendCommand pc₁ pc₂)), g, false)
  | 8, [.cmd pc, .integer n], g => (.cmd (backgroundIf (n = tokBACKGROUND) pc), g, false)
  | 10, [.string z, .arg pa, .redir r], g => (.cmd (commandValue z pa r), g, false)
  | 13, [.redir r₁, .redir r₂], g => (.redir (appendRedirect r₁ r₂), g, false)
  | 14, [], g => (.redir .null, g, false)
  | 17, [.redir r₁, .redir r₂], g => (.redir (appendRedirect r₁ r₂), g, false)
  | 18, [.redir r₁, .redir r₂], g => (.redir (appendRedirect r₁ r₂), g, false)
  | 19, [_, .string f], g => (.redir (createRedirectFile .REDIRECT_IN f .null), g, false)
  | 20, [_, .string f], g => (.redir (createRedirectFile .REDIRECT_OUT f .null), g, false)
  | 21, [_, .string f], g => (.redir (createRedirectFile .REDIRECT_ERROR f .null), g, false)
  | 22, [_, .string f], g => (.redir (createRedirectFile .APPEND f .null), g, false)
  | 23, [_, .string f], g => (.redir (createRedirectFile .APPEND_ERROR f .null), g, false)
  | 24, [.integer n, .cmd pc], g =>
    (.redir (createRedirectPipe (pipeTypeOfTok n) pc .null), g, false)
  | 25, [_], g => (.integer tokBACKGROUND, g, false)
  | 26, [_], g => (.integer tokSEMICOLON, g, false)
  | 27, [_], g => (.integer tokPIPE, g, false)
  | 28, [_], g => (.integer tokPIPE_ERROR, g, false)
  | 29, [.arg pa, .string s], g => (.arg (appendArgument pa s), g, false)
  | 30, [], g => (.arg (createArguments none), g, false)
  -- `$$ = $1` for the rules 9, 11, 12, 15 and 16, and for those without an action
  | _, v :: _, g => (v, g, false)
  | _, [], g => (.none, g, false)

/-- The parser of `parser.tab.c`. -/
def ishParser : LR.Parser Token YYSTYPE Globals where
  tables := parserTables
  kind := yytranslate
  value := yylval
  junk := .none
  act := userAction

/-! ### Calls -/

/-- `yyparse()`, at most `fuel` steps of it. -/
def yyparseTab (fuel : Nat) (g : Globals) (s : Scanner) : Option (Finished Globals Scanner) :=
  ishParser.run yylex YYMAXDEPTH fuel ⟨[], 0, none, s, g⟩

/-- `nextCommand(&eof)`: what `yyparse` returns is not looked at; the result of the call is what
    is in the globals then. -/
def nextCommandTab (fuel : Nat) (g : Globals) (s : Scanner) : Option (Globals × Scanner) :=
  (yyparseTab fuel g s).map fun r => (r.globals, r.lexer)

/-- `resetParser(pf)`, for a file with this text, when the lexer is in `start`. -/
def resetParserTab (g : Globals) (start : StartCond) (text : List Char) : Globals × Scanner :=
  ({ g with fEndOfFile := false }, ⟨start, text⟩)

/-- The results of `i` calls of `nextCommand`, and what they leave behind. -/
def callsTab (fuel : Nat) : Nat → Globals × Scanner → Option (List Globals × Globals × Scanner)
  | 0, s => some ([], s)
  | i + 1, s =>
    (nextCommandTab fuel s.1 s.2).bind fun s' =>
      (callsTab fuel i s').map fun r => (s'.1 :: r.1, r.2)

/-! ### The automaton -/

/-- The edges of the automaton (without the one for the end of the input, which the lexer does
    not return), the symbols and the rules of `parser.y`, and weights under which every
    reduction loses. -/
def ishCertificate : Certificate where
  successors :=
    [[1, 2, 3, 4, 5, 6, 7, 8], [3, 4, 9], [10], [], [], [], [], [3, 4, 12], [13, 14, 15], [],
      [16, 17, 18, 19, 20, 21, 22, 23, 24, 25, 26, 27, 28, 29, 30, 31], [], [], [], [], [2, 8, 32],
      [], [], [], [33], [34], [35], [36], [37], [], [], [17, 18, 30, 38], [20, 21, 22, 23, 39],
      [19, 40], [], [2, 41], [], [], [], [], [], [], [], [], [], [], []]
  symbols :=
    [0, 1, 4, 18, 19, 23, 24, 25, 26, 24, 34, 0, 24, 6, 9, 32, 3, 7, 8, 10, 11, 12, 13, 14, 15, 27,
      28, 29, 30, 31, 33, 35, 25, 5, 5, 5, 5, 5, 31, 30, 29, 26]
  rhs :=
    [[], [23, 0], [25, 24], [24], [1, 24], [19], [18], [26, 32, 25], [26, 32], [26], [4, 34, 27],
      [28], [31], [28, 31], [], [29], [30], [29, 30], [30, 29], [10, 5], [11, 5], [12, 5], [13, 5],
      [14, 5], [33, 26], [6], [9], [7], [8], [34, 35], [], [3], [15]]
  weights :=
    [0, 1, 0, 3, 2, 0, 1, 2, 2, 1, 3, 3, 3, 3, 3, 3, 0, 0, 2, 2, 0, 0, 0, 0, 1, 0, 1, 0, 1, 2, 2, 1,
      0, 1, 0, 2]
  extras :=
    [0, 0, 0, 0, 2, 0, 0, 0, 0, 0, 0, 0, 0, 0, 0, 0, 0, 0, 0, 0, 0, 0, 0, 0, 0, 0, 0, 0, 0, 0, 0, 0,
      0, 0, 1, 0]
  bound := 5

/-- The certificate is checked against the tables. -/
theorem ishCertificate_valid : ishCertificate.valid parserTables = true := by decide +kernel

/-- `YYFINAL` is no state of a run. -/
theorem ishCertificate_final (q : Nat) : parserTables.final ∉ ishCertificate.next q := by
  intro h
  have hmem := Certificate.mem_nodes_of_next h
  exact absurd hmem (by decide)

/-- Every token is a terminal of the tables, and none is the end. -/
theorem yytranslate_lt (t : Token) : yytranslate t ≠ 0 ∧ yytranslate t < parserTables.ntokens := by
  cases t <;> simp [yytranslate, parserTables]

/-- A token pays for its own entry, for those of the empty `parameters` and `redirect` behind a
    command's name, which its state keeps, and for the next error. -/
def ishBudget : Budget where
  advance :=
    [0, 0, 2, 0, 0, 0, 0, 0, 0, 0, 1, 0, 0, 0, 0, 0, 0, 0, 0, 0, 0, 0, 0, 0, 0, 0, 0, 0, 0, 0, 0, 0,
      0, 0, 0, 0, 0, 0, 0, 0, 0, 0]
  most := 2
  charge :=
    [1, 1, 1, 1, 1, 1, 1, 1, 1, 1, 1, 1, 1, 1, 1, 1, 1, 1, 1, 1, 1, 1, 1, 1, 1, 1, 1, 1, 1, 2, 2, 1,
      1]
  token := 4
  error := 1

/-- The budget is checked against the tables. -/
theorem ishBudget_valid : ishBudget.valid parserTables = true := by decide +kernel

/-! ### The meaning of the symbols -/

/-- A token that does not end a line. -/
def Inside (t : Token) : Prop := t ≠ .EOLN ∧ t ≠ .YEOF

/-- The symbol with the number `x` derives the tokens `ts` with the value `v`: a nonterminal
    as its relation in the grammar says, and a token itself. -/
def DerivesSymbol (x : Nat) (ts : List Token) (v : YYSTYPE) : Prop :=
  match x with
  | 0 => True
  | 24 => ts = [.YEOF] ∨ ts = [.EOLN]
  | 25 => ∃ pc, v = .cmd pc ∧ DerivesCmdSeq ts pc
  | 26 => ∃ pc, v = .cmd pc ∧ DerivesCommand ts pc
  | 27 => ∃ r, v = .redir r ∧ DerivesRedirect ts r
  | 28 => ∃ r, v = .redir r ∧ DerivesRedirectFile ts r
  | 29 => ∃ r, v = .redir r ∧ DerivesRedirectIn ts r
  | 30 => ∃ r, v = .redir r ∧ DerivesRedirectOut ts r
  | 31 => ∃ r, v = .redir r ∧ DerivesRedirectPipe ts r
  | 32 => ∃ t b, ts = [t] ∧ DerivesSeparator t b ∧
      v = .integer (if b = true then tokBACKGROUND else tokSEMICOLON)
  | 33 => ∃ t p, ts = [t] ∧ DerivesPipe t p ∧
      v = .integer (if p = .PIPE then tokPIPE else tokPIPE_ERROR)
  | 34 => ∃ pa, v = .arg pa ∧ DerivesParameters ts pa
  | 35 => ∃ t s, ts = [t] ∧ v = .string s ∧ DerivesParameter t s
  | x => ∃ t, ts = [t] ∧ yytranslate t = x ∧ v = yylval t

/-- A token derives itself. -/
theorem derivesSymbol_token (t : Token) (us : List Token) (v : YYSTYPE) :
    DerivesSymbol (yytranslate t) us v ↔
      ∃ u, us = [u] ∧ yytranslate u = yytranslate t ∧ v = yylval u := by
  cases t <;> rfl

/-- The rules of `cmd_line` and `terminator` need a token that ends a line. -/
theorem not_inside_terminator {us : List Token} {v : YYSTYPE} (h : DerivesSymbol 24 us v) :
    ¬ ∀ t ∈ us, Inside t := by
  rcases h with rfl | rfl
  · exact fun hus => (hus .YEOF List.mem_cons_self).2 rfl
  · exact fun hus => (hus .EOLN List.mem_cons_self).1 rfl

/-- A token without a value is known by its number. -/
theorem eq_of_yytranslate {t u : Token} (ht : yylval t = .none)
    (h : yytranslate u = yytranslate t) : u = t := by
  cases t <;> simp [yylval] at ht <;> cases u <;> simp [yytranslate] at h <;> rfl

/-- A redirect to a file: its token and the name. -/
theorem derivesAll_file {t : Token} (ht : yylval t = .none) {us : List Token}
    {vs : List YYSTYPE}
    (h : DerivesAll DerivesSymbol [yytranslate t, 5] us vs) :
    ∃ f v, us = [t, .FILENAME f] ∧ vs = [v, .string f] := by
  obtain ⟨u₁, u₂, v₁, v₂, rfl, rfl, h₁, t₂, rfl, ht₂, rfl⟩ := derivesAll_two h
  obtain ⟨t₁, rfl, ht₁, -⟩ := (derivesSymbol_token t u₁ v₁).mp h₁
  obtain rfl := eq_of_yytranslate ht ht₁
  cases t₂ <;> simp [yytranslate] at ht₂
  exact ⟨_, v₁, rfl, rfl⟩

/-- **Each action keeps the meaning of its rule.**  On tokens that do not end a line, no action
    accepts or touches the globals. -/
theorem userAction_derives (n : Nat) (us : List Token) (vs : List YYSTYPE) (g : Globals)
    (hus : ∀ t ∈ us, Inside t) (h : DerivesAll DerivesSymbol (ishCertificate.right n) us vs) :
    ∃ v, userAction n vs g = (v, g, false) ∧ DerivesSymbol (parserTables.r1.getD n 0) us v := by
  match n, h with
  | 0, h =>
    obtain ⟨⟩ := h
    exact ⟨.none, rfl, trivial⟩
  | 1, h =>
    obtain ⟨u₁, u₂, v₁, v₂, -, -, ⟨t, -, ht, -⟩, -⟩ := derivesAll_two h
    cases t <;> simp [yytranslate] at ht
  | 2, h =>
    obtain ⟨u₁, u₂, v₁, v₂, rfl, -, -, h₂⟩ := derivesAll_two h
    exact absurd (fun t ht => hus t (List.mem_append_right u₁ ht)) (not_inside_terminator h₂)
  | 3, h =>
    obtain ⟨v, -, h₁⟩ := derivesAll_one h
    exact absurd hus (not_inside_terminator h₁)
  | 4, h =>
    obtain ⟨u₁, u₂, v₁, v₂, rfl, -, -, h₂⟩ := derivesAll_two h
    exact absurd (fun t ht => hus t (List.mem_append_right u₁ ht)) (not_inside_terminator h₂)
  | 5, h =>
    obtain ⟨v, -, ⟨t, rfl, ht, -⟩⟩ := derivesAll_one h
    cases t <;> simp [yytranslate] at ht
    exact absurd rfl (hus _ List.mem_cons_self).2
  | 6, h =>
    obtain ⟨v, -, ⟨t, rfl, ht, -⟩⟩ := derivesAll_one h
    cases t <;> simp [yytranslate] at ht
    exact absurd rfl (hus _ List.mem_cons_self).1
  | 7, h =>
    obtain ⟨u₁, u₂, u₃, v₁, v₂, v₃, rfl, rfl, ⟨pc₁, rfl, h₁⟩, ⟨t, b, rfl, h₂, rfl⟩, pc₂, rfl, h₃⟩ :=
      derivesAll_three h
    refine ⟨_, rfl, _, rfl, ?_⟩
    have hseq := DerivesCmdSeq.sequence h₁ h₂ h₃
    cases b <;> exact hseq
  | 8, h =>
    obtain ⟨u₁, u₂, v₁, v₂, rfl, rfl, ⟨pc, rfl, h₁⟩, t, b, rfl, h₂, rfl⟩ := derivesAll_two h
    refine ⟨_, rfl, _, rfl, ?_⟩
    have hseq := DerivesCmdSeq.separator h₁ h₂
    cases b <;> exact hseq
  | 9, h =>
    obtain ⟨v, rfl, pc, rfl, h₁⟩ := derivesAll_one h
    exact ⟨_, rfl, pc, rfl, .command h₁⟩
  | 10, h =>
    obtain ⟨u₁, u₂, u₃, v₁, v₂, v₃, rfl, rfl, ⟨t, rfl, ht, rfl⟩, ⟨pa, rfl, h₂⟩, r, rfl, h₃⟩ :=
      derivesAll_three h
    have hcommand := fun z => DerivesCommand.command z h₂ h₃
    cases t <;> simp [yytranslate] at ht
    exact ⟨_, rfl, _, rfl, hcommand _⟩
  | 11, h =>
    obtain ⟨v, rfl, r, rfl, h₁⟩ := derivesAll_one h
    exact ⟨_, rfl, r, rfl, .file h₁⟩
  | 12, h =>
    obtain ⟨v, rfl, r, rfl, h₁⟩ := derivesAll_one h
    exact ⟨_, rfl, r, rfl, .pipe h₁⟩
  | 13, h =>
    obtain ⟨u₁, u₂, v₁, v₂, rfl, rfl, ⟨r₁, rfl, h₁⟩, r₂, rfl, h₂⟩ := derivesAll_two h
    exact ⟨_, rfl, _, rfl, .filePipe h₁ h₂⟩
  | 14, h =>
    obtain ⟨⟩ := h
    exact ⟨_, rfl, _, rfl, .empty⟩
  | 15, h =>
    obtain ⟨v, rfl, r, rfl, h₁⟩ := derivesAll_one h
    exact ⟨_, rfl, r, rfl, .redirectIn h₁⟩
  | 16, h =>
    obtain ⟨v, rfl, r, rfl, h₁⟩ := derivesAll_one h
    exact ⟨_, rfl, r, rfl, .redirectOut h₁⟩
  | 17, h =>
    obtain ⟨u₁, u₂, v₁, v₂, rfl, rfl, ⟨r₁, rfl, h₁⟩, r₂, rfl, h₂⟩ := derivesAll_two h
    exact ⟨_, rfl, _, rfl, .inOut h₁ h₂⟩
  | 18, h =>
    obtain ⟨u₁, u₂, v₁, v₂, rfl, rfl, ⟨r₁, rfl, h₁⟩, r₂, rfl, h₂⟩ := derivesAll_two h
    exact ⟨_, rfl, _, rfl, .outIn h₁ h₂⟩
  | 19, h =>
    obtain ⟨f, v, rfl, rfl⟩ := derivesAll_file (t := .REDIRECT_IN) rfl h
    exact ⟨_, rfl, _, rfl, .redirectIn f⟩
  | 20, h =>
    obtain ⟨f, v, rfl, rfl⟩ := derivesAll_file (t := .REDIRECT_OUT) rfl h
    exact ⟨_, rfl, _, rfl, .redirectOut f⟩
  | 21, h =>
    obtain ⟨f, v, rfl, rfl⟩ := derivesAll_file (t := .REDIRECT_ERROR) rfl h
    exact ⟨_, rfl, _, rfl, .redirectError f⟩
  | 22, h =>
    obtain ⟨f, v, rfl, rfl⟩ := derivesAll_file (t := .APPEND) rfl h
    exact ⟨_, rfl, _, rfl, .append f⟩
  | 23, h =>
    obtain ⟨f, v, rfl, rfl⟩ := derivesAll_file (t := .APPEND_ERROR) rfl h
    exact ⟨_, rfl, _, rfl, .appendError f⟩
  | 24, h =>
    obtain ⟨u₁, u₂, v₁, v₂, rfl, rfl, ⟨t, p, rfl, h₁, rfl⟩, pc, rfl, h₂⟩ := derivesAll_two h
    refine ⟨_, rfl, _, rfl, ?_⟩
    have hpipe := DerivesRedirectPipe.pipe h₁ h₂
    cases p <;> exact hpipe
  | 25, h =>
    obtain ⟨v, rfl, t, rfl, ht, rfl⟩ := derivesAll_one h
    cases t <;> simp [yytranslate] at ht
    exact ⟨_, rfl, _, true, rfl, .background, rfl⟩
  | 26, h =>
    obtain ⟨v, rfl, t, rfl, ht, rfl⟩ := derivesAll_one h
    cases t <;> simp [yytranslate] at ht
    exact ⟨_, rfl, _, false, rfl, .semicolon, rfl⟩
  | 27, h =>
    obtain ⟨v, rfl, t, rfl, ht, rfl⟩ := derivesAll_one h
    cases t <;> simp [yytranslate] at ht
    exact ⟨_, rfl, _, .PIPE, rfl, .pipe, rfl⟩
  | 28, h =>
    obtain ⟨v, rfl, t, rfl, ht, rfl⟩ := derivesAll_one h
    cases t <;> simp [yytranslate] at ht
    exact ⟨_, rfl, _, .PIPE_ERROR, rfl, .pipeError, rfl⟩
  | 29, h =>
    obtain ⟨u₁, u₂, v₁, v₂, rfl, rfl, ⟨pa, rfl, h₁⟩, t, s, rfl, rfl, h₂⟩ := derivesAll_two h
    exact ⟨_, rfl, _, rfl, .append h₁ h₂⟩
  | 30, h =>
    obtain ⟨⟩ := h
    exact ⟨_, rfl, _, rfl, .empty⟩
  | 31, h =>
    obtain ⟨v, rfl, t, rfl, ht, rfl⟩ := derivesAll_one h
    cases t <;> simp [yytranslate] at ht
    exact ⟨_, rfl, _, _, rfl, rfl, .word _⟩
  | 32, h =>
    obtain ⟨v, rfl, t, rfl, ht, rfl⟩ := derivesAll_one h
    cases t <;> simp [yytranslate] at ht
    exact ⟨_, rfl, _, _, rfl, rfl, .string _⟩
  | n + 33, h =>
    have hright : ishCertificate.right (n + 33) = [] := rfl
    rw [hright] at h
    obtain ⟨⟩ := h
    exact ⟨.none, rfl, trivial⟩

/-- **The actions give what the grammar asks for.** -/
theorem ishParser_certified : ishParser.Certified ishCertificate DerivesSymbol Inside where
  valid := ishCertificate_valid
  kind := yytranslate_lt
  final := ishCertificate_final
  token t _ := (derivesSymbol_token t [t] (yylval t)).mpr ⟨t, rfl, rfl, rfl⟩
  act := userAction_derives

end OSPortfolio.Ish
