import OSPortfolio.Lib.Skeleton
import OSPortfolio.Ish.LexYy
import OSPortfolio.Ish.LineRecovery
import OSPortfolio.Ish.LoopEnd

namespace OSPortfolio.Ish

open OSPortfolio.LR OSPortfolio.Flex

/-!
# The generated front end

The shell reads its commands with the generated parser on top of the generated scanner, from
`.ishrc` and then from the standard input.  Both files go through one buffer, and nothing resets
the start condition of the scanner between them.

* `HasType`, `ishSkeleton_certified` — the types of the values on the stack of the parser;
* `nextCommandYy`, `processCommandsYy`, `sessionYy` — the calls on the generated code;
* `frontSimulation` — the parser does the same on the generated scanner as on the lexer;
* `processCommandsYy_iff`, `stopsAtQuitYy_iff` — which texts are executed completely, and where
  the loop ends, as long as the stack of the parser stays below `YYMAXDEPTH`;
* `sessionYy_eq` — **the shell on the generated code is the shell on the grammar**, for every two
  texts and every division of them into reads.
-/

/-! ### Types -/

/-- The member of `YYSTYPE` that a symbol has, and the pointers that are not `NULL`; the other
    tokens have no value, nor has `terminator`, and the actions for `cmd_line` accept. -/
def HasType (x : Nat) (v : YYSTYPE) : Prop :=
  match x with
  | 23 => False
  | 3 | 4 | 5 | 15 | 35 => ∃ s, v = .string s
  | 25 | 26 => ∃ pc, v = .cmd pc ∧ pc ≠ .null
  | 27 => ∃ r, v = .redir r
  | 28 | 29 | 30 | 31 => ∃ r, v = .redir r ∧ r ≠ .null
  | 32 => ∃ n, v = .integer n
  | 33 => ∃ n, v = .integer n ∧ (n = tokPIPE ∨ n = tokPIPE_ERROR)
  | 34 => ∃ pa, v = .arg pa
  | _ => v = .none

/-- A command with another behind it is still one. -/
theorem appendCommand_ne_null {pc₁ : Command} (h : pc₁ ≠ .null) (pc₂ : Command) :
    appendCommand pc₁ pc₂ ≠ .null := by
  cases pc₁ with
  | null => exact absurd rfl h
  | mk z pa b r n => simp [appendCommand]

/-- So is one that is put in the background. -/
theorem backgroundIf_ne_null {pc : Command} (h : pc ≠ .null) (b : Bool) :
    backgroundIf b pc ≠ .null := by
  cases pc with
  | null => exact absurd rfl h
  | mk z pa b' r n => cases b <;> simp [backgroundIf, Command.setBackground]

/-- A redirect with others behind it is still one. -/
theorem appendRedirect_ne_null {r₁ : Redirect} (h : r₁ ≠ .null) (r₂ : Redirect) :
    appendRedirect r₁ r₂ ≠ .null := by
  cases r₁ with
  | null => exact absurd rfl h
  | file t f n => simp [appendRedirect]
  | pipe t c n => simp [appendRedirect]

theorem forall₂_one {α β : Type*} {R : α → β → Prop} {a : α} {bs : List β}
    (h : List.Forall₂ R [a] bs) : ∃ b, bs = [b] ∧ R a b := by
  obtain ⟨b, _, hab, hnil, rfl⟩ := List.forall₂_cons_left_iff.mp h
  exact ⟨b, by rw [List.forall₂_nil_left_iff.mp hnil], hab⟩

theorem forall₂_two {α β : Type*} {R : α → β → Prop} {a₁ a₂ : α} {bs : List β}
    (h : List.Forall₂ R [a₁, a₂] bs) : ∃ b₁ b₂, bs = [b₁, b₂] ∧ R a₁ b₁ ∧ R a₂ b₂ := by
  obtain ⟨b₁, _, h₁, hrest, rfl⟩ := List.forall₂_cons_left_iff.mp h
  obtain ⟨b₂, rfl, h₂⟩ := forall₂_one hrest
  exact ⟨b₁, b₂, rfl, h₁, h₂⟩

theorem forall₂_three {α β : Type*} {R : α → β → Prop} {a₁ a₂ a₃ : α} {bs : List β}
    (h : List.Forall₂ R [a₁, a₂, a₃] bs) :
    ∃ b₁ b₂ b₃, bs = [b₁, b₂, b₃] ∧ R a₁ b₁ ∧ R a₂ b₂ ∧ R a₃ b₃ := by
  obtain ⟨b₁, _, h₁, hrest, rfl⟩ := List.forall₂_cons_left_iff.mp h
  obtain ⟨b₂, b₃, rfl, h₂, h₃⟩ := forall₂_two hrest
  exact ⟨b₁, b₂, b₃, rfl, h₁, h₂, h₃⟩

/-- The actions keep the types. -/
theorem hasType_userAction (n : Nat) {vs : List YYSTYPE} (g : Globals)
    (h : List.Forall₂ HasType (ishCertificate.right n) vs) (hgo : (userAction n vs g).2.2 = false) :
    HasType (parserTables.r1.getD n 0) (userAction n vs g).1 := by
  match n, h with
  | 0, h =>
    obtain rfl := List.forall₂_nil_left_iff.mp h
    rfl
  | 1, h =>
    obtain ⟨_, _, -, hfalse, -⟩ := forall₂_two h
    exact hfalse.elim
  | 2, h =>
    obtain ⟨_, _, rfl, ⟨pc, rfl, -⟩, -⟩ := forall₂_two h
    exact absurd hgo (by simp [userAction])
  | 3, h =>
    obtain ⟨_, rfl, -⟩ := forall₂_one h
    exact absurd hgo (by simp [userAction])
  | 4, h =>
    obtain ⟨_, _, rfl, -⟩ := forall₂_two h
    exact absurd hgo (by simp [userAction])
  | 5, h | 6, h =>
    obtain ⟨_, rfl, hv⟩ := forall₂_one h
    exact hv
  | 7, h =>
    obtain ⟨_, _, _, rfl, ⟨pc₁, rfl, h₁⟩, ⟨n, rfl⟩, pc₂, rfl, -⟩ := forall₂_three h
    exact ⟨_, rfl, backgroundIf_ne_null (appendCommand_ne_null h₁ pc₂) _⟩
  | 8, h =>
    obtain ⟨_, _, rfl, ⟨pc, rfl, h₁⟩, n, rfl⟩ := forall₂_two h
    exact ⟨_, rfl, backgroundIf_ne_null h₁ _⟩
  | 9, h =>
    obtain ⟨_, rfl, hpc⟩ := forall₂_one h
    exact hpc
  | 10, h =>
    obtain ⟨_, _, _, rfl, ⟨z, rfl⟩, ⟨pa, rfl⟩, r, rfl⟩ := forall₂_three h
    exact ⟨_, rfl, by simp [commandValue, createCommand]⟩
  | 11, h =>
    obtain ⟨_, rfl, r, rfl, -⟩ := forall₂_one h
    exact ⟨r, rfl⟩
  | 12, h =>
    obtain ⟨_, rfl, r, rfl, -⟩ := forall₂_one h
    exact ⟨r, rfl⟩
  | 13, h =>
    obtain ⟨_, _, rfl, ⟨r₁, rfl, -⟩, r₂, rfl, -⟩ := forall₂_two h
    exact ⟨_, rfl⟩
  | 14, h =>
    obtain rfl := List.forall₂_nil_left_iff.mp h
    exact ⟨_, rfl⟩
  | 15, h =>
    obtain ⟨_, rfl, hr⟩ := forall₂_one h
    exact hr
  | 16, h =>
    obtain ⟨_, rfl, hr⟩ := forall₂_one h
    exact hr
  | 17, h =>
    obtain ⟨_, _, rfl, ⟨r₁, rfl, h₁⟩, r₂, rfl, -⟩ := forall₂_two h
    exact ⟨_, rfl, appendRedirect_ne_null h₁ r₂⟩
  | 18, h =>
    obtain ⟨_, _, rfl, ⟨r₁, rfl, h₁⟩, r₂, rfl, -⟩ := forall₂_two h
    exact ⟨_, rfl, appendRedirect_ne_null h₁ r₂⟩
  | 19, h | 20, h | 21, h | 22, h | 23, h =>
    obtain ⟨_, _, rfl, -, f, rfl⟩ := forall₂_two h
    exact ⟨_, rfl, by simp [createRedirectFile]⟩
  | 24, h =>
    obtain ⟨_, _, rfl, ⟨n, rfl, -⟩, pc, rfl, -⟩ := forall₂_two h
    exact ⟨_, rfl, by simp [createRedirectPipe]⟩
  | 25, h | 26, h =>
    obtain ⟨_, rfl, -⟩ := forall₂_one h
    exact ⟨_, rfl⟩
  | 27, h =>
    obtain ⟨_, rfl, -⟩ := forall₂_one h
    exact ⟨_, rfl, Or.inl rfl⟩
  | 28, h =>
    obtain ⟨_, rfl, -⟩ := forall₂_one h
    exact ⟨_, rfl, Or.inr rfl⟩
  | 29, h =>
    obtain ⟨_, _, rfl, ⟨pa, rfl⟩, s, rfl⟩ := forall₂_two h
    exact ⟨_, rfl⟩
  | 30, h =>
    obtain rfl := List.forall₂_nil_left_iff.mp h
    exact ⟨_, rfl⟩
  | 31, h | 32, h =>
    obtain ⟨_, rfl, hs⟩ := forall₂_one h
    exact hs
  | n + 33, h =>
    have hright : ishCertificate.right (n + 33) = [] := rfl
    rw [hright] at h
    obtain rfl := List.forall₂_nil_left_iff.mp h
    rfl

/-- **The generated parser calls its actions with values of the right types**, on every input,
    around every lexer. -/
theorem ishSkeleton_certified {L : Type*} (lex : L → Option (Token × L)) :
    (ishParser.skeleton lex).Certified ishCertificate HasType where
  valid := ishCertificate_valid
  kind := yytranslate_lt
  final := ishCertificate_final
  error p _ q hq := by
    by_cases hp : p = 0
    · subst hp
      have hstart : parserTables.errorShift 0 = some 1 := by decide
      obtain rfl := Option.some.inj (hstart.symm.trans hq)
      decide
    · exact absurd hq (by rw [show (ishParser.skeleton lex).tables = parserTables from rfl,
        errorShift_eq_none hp]; simp)
  junk := rfl
  token t := by cases t <;> first | exact rfl | exact ⟨_, rfl⟩
  act {n vs s v s₁} h hact := by
    obtain ⟨rfl, hrest⟩ := Prod.mk.inj (Option.some.inj hact)
    exact hasType_userAction n s.2 h (Prod.mk.inj hrest).2

/-! ### Calls -/

/-- What the parser and the scanner keep from call to call: the start condition and the buffer,
    and the globals. -/
abbrev FrontState := (StartCond × Flex.Buffer) × Globals

/-- `yylex`, as the parser calls it. -/
def lexYy (requests : Nat → Nat) (s : StartCond × Flex.Buffer) :
    Option (Token × StartCond × Flex.Buffer) :=
  yylexYy requests s.1 s.2

/-- `nextCommand(&eof)`; `none` if the steps are used up, or the scanner leaves its tables or its
    buffer. -/
def nextCommandYy (requests : Nat → Nat) (fuel : Nat) (p : FrontState) : Option FrontState :=
  match (ishParser.skeleton (lexYy requests)).run YYMAXDEPTH fuel ⟨[], 0, 0, none, p⟩ with
  | .done r => some r.state
  | _ => none

/-- `YY_BUF_SIZE` -/
def YY_BUF_SIZE : Nat := 16384

/-- The buffer that the first `yyrestart` creates. -/
def newBuffer : Flex.Buffer := ⟨[], YY_BUF_SIZE, .NEW, 0, [], 0⟩

/-- `yyrestart(file)`, for a file with this text. -/
def yyrestart (file : List UInt8) (buf : Flex.Buffer) : Flex.Buffer :=
  { buf with chars := [], status := .NEW, pos := 0, unread := file }

/-- `resetParser(pf)` -/
def resetParserYy (file : List UInt8) (p : FrontState) : FrontState :=
  ((p.1.1, yyrestart file p.1.2), { p.2 with fEndOfFile := false })

section
universe u
variable {σ : Type u} (S : ShellParts σ) (interactive : Bool) (requests : Nat → Nat) (fuel : Nat)

/-- The loop `while(1)` of `processCommands`, for at most `lines` lines. -/
def commandLoopYy : Nat → Option Ret → FrontState → σ → Option (Processed σ × FrontState)
  | 0, _, _, _ => none
  | lines + 1, ret, p, s =>
    let s := beforeLine S interactive s
    (nextCommandYy requests fuel p).bind fun p =>
      if p.2.fEndOfFile then some (⟨[], ret, s⟩, p)
      else
        let line := executeCommands S interactive p.2.pcGlobalCommand ret s
        if line.ret = some .QUIT then some (line, p)
        else
          (commandLoopYy lines line.ret p line.state).map fun rest =>
            ({ rest.1 with log := line.log ++ rest.1.log }, rest.2)

/-- `processCommands(pf, interactive)` -/
def processCommandsYy (file : List UInt8) (ret : Option Ret) (p : FrontState) (s : σ) :
    Option (Processed σ × FrontState) :=
  commandLoopYy S interactive requests fuel (file.length + 1) ret (resetParserYy file p) s

/-- The shell, from its start on: `.ishrc`, if there is one, and then the standard input; `ret`
    and `ret'` are what the local variable of the two calls happens to hold, and `startUp` is
    what `main` does between them. -/
def sessionYy (startUp : σ → σ) (ishrc : Option (List UInt8)) (stdin : List UInt8)
    (ret ret' : Option Ret) (s : σ) : Option (Processed σ × Processed σ) :=
  let p : FrontState := ((.INITIAL, newBuffer), ⟨.null, false⟩)
  let first : Option (Processed σ × FrontState) := match ishrc with
    | none => some (⟨[], ret, s⟩, p)
    | some file => processCommandsYy S false requests fuel file ret p s
  first.bind fun r =>
    (processCommandsYy S interactive requests fuel stdin ret' r.2 (startUp r.1.state)).map
      fun r' => (r.1, r'.1)

/-- The same on the characters of the two texts, with the parser of the grammar. -/
def session (startUp : σ → σ) (ishrc : Option (List Char)) (stdin : List Char)
    (ret ret' : Option Ret) (s : σ) : Processed σ × Processed σ :=
  let first := match ishrc with
    | none => ⟨[], ret, s⟩
    | some text => processCommands S false .INITIAL ret text s
  (first, processCommands S interactive .INITIAL ret' stdin (startUp first.state))

end

/-! ### One call -/

/-- The text in front of the scanner, in its buffer and in its file, is that of the lexer. -/
structure InFront (lexer : Scanner) (s : StartCond × Flex.Buffer) : Prop where
  fits : s.2.Fits
  eq : lexer = ⟨s.1, s.2.text.map byteChar⟩

/-- A token, by the two of them. -/
theorem InFront.lex {lexer : Scanner} {s : StartCond × Flex.Buffer} (h : InFront lexer s)
    (requests : Nat → Nat) :
    ∃ s', lexYy requests s = some ((yylex lexer).1, s') ∧ InFront (yylex lexer).2 s' := by
  obtain ⟨start, buf⟩ := s
  obtain ⟨hfits, rfl⟩ := h
  obtain ⟨t, start', buf', hyy, hfits', heq⟩ :=
    yylexLoop_spec requests (buf.text.length + 1) start hfits (Nat.lt_succ_self _)
  have hlex : yylex ⟨start, buf.text.map byteChar⟩ = (t, ⟨start', buf'.text.map byteChar⟩) := heq
  rw [hlex]
  exact ⟨(start', buf'), hyy, hfits', rfl⟩

/-- **The parser does the same on the generated scanner as on the lexer.** -/
theorem frontSimulation (requests : Nat → Nat) :
    TypedSimulation (ishParser.skeleton fun l => some (yylex l))
      (ishParser.skeleton (lexYy requests)) ishCertificate HasType
      (fun _ l l' => l'.stack = l.stack ∧ l'.char = l.char ∧ l'.state.2 = l.state.2 ∧
        InFront l.state.1 l'.state.1)
      (fun _ _ s s' => s'.2 = s.2 ∧ InFront s.1 s'.1) where
  tables := rfl
  states hR := congrArg _ hR.1
  kind hR := congrArg _ hR.2.1
  lex := by
    rintro e stack ⟨lexer, g⟩ stack' ⟨s, g'⟩ t s₁ ⟨rfl, -, rfl, hbuf⟩ - hlex
    obtain ⟨s', hs', hbuf'⟩ := hbuf.lex requests
    obtain ⟨rfl, rfl⟩ := Prod.mk.inj (Option.some.inj hlex)
    refine ⟨_, (s', g'), ?_, rfl, rfl, rfl, hbuf'⟩
    show (lexYy requests s).map _ = _
    rw [hs']
    rfl
  shift := by
    rintro e stack t s stack' t' s' q ⟨rfl, hchar, hrest⟩ - -
    obtain rfl : t' = t := Option.some.inj hchar
    exact ⟨rfl, rfl, hrest⟩
  reduce := by
    rintro e n stack c ⟨lexer, g⟩ stack' c' ⟨l', g'⟩ v s₁ b ⟨rfl, rfl, rfl, hbuf⟩ - - hact
    obtain ⟨rfl, hrest⟩ := Prod.mk.inj (Option.some.inj hact)
    obtain ⟨rfl, rfl⟩ := Prod.mk.inj hrest
    refine ⟨_, _, rfl, ?_⟩
    split
    · exact ⟨rfl, hbuf⟩
    · exact ⟨rfl, rfl, rfl, hbuf⟩
  recover := by
    rintro e e' stack c s stack' c' s' q rest d d' ⟨rfl, rfl, hstate⟩ - - - hpop hchar
    have hrest : rest = stack'.drop (stack'.length - rest.length) :=
      List.suffix_iff_eq_drop.mp (Tables.popErrors_spec hpop).1
    refine ⟨by rw [← hrest]; rfl, ?_, hstate⟩
    rcases hchar with ⟨rfl, rfl⟩ | ⟨rfl, rfl⟩ <;> rfl
  stop hR _ _ := hR.2.2

/-- The parser around the lexer, on a line: it returns 0, and leaves the command of the line. -/
theorem run_line {lexer : Scanner} (hfits : StackFits (readLine lexer)) (g : Globals) :
    ∃ fuel, ∀ fuel' ≥ fuel, ∃ nerrs,
      (ishParser.skeleton fun l => some (yylex l)).run YYMAXDEPTH fuel'
          ⟨[], 0, 0, none, (lexer, g)⟩ =
        .done ⟨0, nerrs, ((nextCommand lexer).2.2,
          ⟨(nextCommand lexer).1, (nextCommand lexer).2.1⟩)⟩ := by
  obtain ⟨hreads, hinside, -⟩ := reads_readLine lexer
  have haccepts := accepts_line hinside (readLine lexer).terminator_cases g
  have heof : decide ((readLine lexer).terminator = .YEOF) = (readLine lexer).eof := by
    rw [Line.terminator]
    cases (readLine lexer).eof <;> rfl
  rw [heof] at haccepts
  have hfollows : Parser.Follows yylex ⟨[], 0, none, lexer, g⟩
      (tabConf [] (readLine lexer).allTokens g) (readLine lexer).rest :=
    ⟨rfl, rfl, rfl, hreads, List.nil_prefix⟩
  obtain ⟨fuel, hrun⟩ := Parser.run_of_accepts (fun t => (yytranslate_lt t).1) hfollows haccepts
    (hfits g)
  refine ⟨fuel, fun fuel' hle => ?_⟩
  obtain ⟨⟨result, nerrs, l, g'⟩, hrun', hr⟩ := @Parser.run_skeleton _ _ _ _ ishParser yylex
    YYMAXDEPTH fuel' ⟨[], 0, 0, none, (lexer, g)⟩ _
    (Parser.run_mono ishParser yylex YYMAXDEPTH hle hrun)
  obtain ⟨rfl, rfl, rfl⟩ : result = 0 ∧ g' = _ ∧ l = _ := by
    simpa only [SkeletonResult.finished, Finished.mk.injEq] using hr
  exact ⟨nerrs, hrun'⟩

/-- A line without tokens has no error. -/
theorem nerrs_of_empty {lexer : Scanner} (h : (readLine lexer).tokens = []) {g : Globals}
    {fuel : Nat} {r : SkeletonResult (Scanner × Globals)}
    (hrun : (ishParser.skeleton fun l => some (yylex l)).run YYMAXDEPTH fuel
      ⟨[], 0, 0, none, (lexer, g)⟩ = .done r) : r.nerrs = 0 := by
  have hfirst : (yylex lexer).1 = .EOLN ∨ (yylex lexer).1 = .YEOF := by
    rw [readLine_eq] at h
    by_cases heof : (yylex lexer).1 = .YEOF
    · exact Or.inr heof
    · by_cases heoln : (yylex lexer).1 = .EOLN
      · exact Or.inl heoln
      · rw [if_neg heof, if_neg heoln] at h
        cases h
  -- the terminator is shifted, and two rules are reduced
  have hshift : ∃ q, (q = 3 ∨ q = 4) ∧
      (ishParser.skeleton fun l => some (yylex l)).step YYMAXDEPTH ⟨[], 0, 0, none, (lexer, g)⟩ =
        .more ⟨[(q, .none)], 0, 0, none, ((yylex lexer).2, g)⟩ := by
    rcases hfirst with ht | ht
    all_goals
      rw [Skeleton.step]
      dsimp only [Parser.skeleton, Option.map_some]
      rw [ht]
      exact ⟨_, by first | exact Or.inl rfl | exact Or.inr rfl, rfl⟩
  obtain ⟨q, hq, hshift⟩ := hshift
  obtain ⟨fuel₁, hrun⟩ := Skeleton.run_of_more _ _ hshift hrun
  have hreduce : ∃ g', (ishParser.skeleton fun l => some (yylex l)).step YYMAXDEPTH
      ⟨[(q, .none)], 0, 0, none, ((yylex lexer).2, g)⟩ =
        .more ⟨[(6, .none)], 0, 0, none, ((yylex lexer).2, g')⟩ := by
    rcases hq with rfl | rfl
    · exact ⟨_, rfl⟩
    · exact ⟨_, rfl⟩
  obtain ⟨g', hreduce⟩ := hreduce
  obtain ⟨fuel₂, hrun⟩ := Skeleton.run_of_more _ _ hreduce hrun
  have haccept : (ishParser.skeleton fun l => some (yylex l)).step YYMAXDEPTH
      ⟨[(6, .none)], 0, 0, none, ((yylex lexer).2, g')⟩ =
        .done ⟨0, 0, ((yylex lexer).2, { g' with pcGlobalCommand := .null })⟩ := rfl
  rw [Skeleton.run_of_done _ _ haccept hrun]

/-- **One call** of `nextCommand` on the generated code. -/
theorem nextCommandYy_eq (requests : Nat → Nat) {lexer : Scanner}
    (hfits : StackFits (readLine lexer)) (g : Globals) :
    ∃ fuel, ∀ fuel' ≥ fuel, ∀ s, InFront lexer s →
      ∃ s', nextCommandYy requests fuel' (s, g) =
          some (s', ⟨(nextCommand lexer).1, (nextCommand lexer).2.1⟩) ∧
        InFront (nextCommand lexer).2.2 s' := by
  obtain ⟨fuel, hcall⟩ := run_line hfits g
  refine ⟨fuel, fun fuel' hle s hs => ?_⟩
  obtain ⟨nerrs, hrun⟩ := hcall fuel' hle
  have hsim := ((frontSimulation requests).simulation (ishSkeleton_certified _)).run YYMAXDEPTH
    fuel' (c := ⟨[], 0, 0, none, (lexer, g)⟩) (d := ⟨[], 0, 0, none, (s, g)⟩)
    ⟨rfl, rfl, fun h => absurd rfl h, typed_nil _ _, rfl, rfl, rfl, hs⟩
  rw [hrun] at hsim
  unfold nextCommandYy
  cases hout : (ishParser.skeleton (lexYy requests)).run YYMAXDEPTH fuel'
      ⟨[], 0, 0, none, (s, g)⟩ with
  | more d => rw [hout] at hsim; exact hsim.elim
  | failed => rw [hout] at hsim; exact hsim.elim
  | done r =>
    rw [hout] at hsim
    obtain ⟨-, -, hg, hbuf⟩ := hsim
    refine ⟨r.state.1, ?_, hbuf⟩
    show some (r.state.1, r.state.2) = _
    rw [hg]

/-! ### The loop -/

/-- The stack of the parser stays below `YYMAXDEPTH` on every line. -/
def LinesFit (lexer : Scanner) : Prop := ∀ i, ∀ l ∈ firstLines i lexer, StackFits l

/-- The first line fits, and so do those behind it. -/
theorem LinesFit.rest {lexer : Scanner} (h : LinesFit lexer) :
    StackFits (readLine lexer) ∧ LinesFit (readLine lexer).rest :=
  ⟨h 1 _ List.mem_cons_self, fun i l hl => h (i + 1) l (List.mem_cons_of_mem _ hl)⟩

/-- A line has no more tokens than characters. -/
theorem readLine_length (s : Scanner) :
    (readLine s).tokens.length + (readLine s).rest.text.length ≤ s.text.length := by
  induction hn : s.text.length using Nat.strongRecOn generalizing s with
  | ind n ih =>
    rw [readLine_eq]
    by_cases heof : (yylex s).1 = .YEOF
    · rw [if_pos heof, yylex_eof heof]
      simp
    · have hshort := yylex_shorter heof
      rw [if_neg heof]
      by_cases heoln : (yylex s).1 = .EOLN
      · rw [if_pos heoln]
        show 0 + (yylex s).2.text.length ≤ n
        omega
      · rw [if_neg heoln]
        have hrest := ih _ (hn ▸ hshort) (yylex s).2 rfl
        show (readLine (yylex s).2).tokens.length + 1 + (readLine (yylex s).2).rest.text.length ≤ n
        omega

/-- **Short texts fit.** -/
theorem linesFit_of_length_lt {lexer : Scanner} (h : 4 * lexer.text.length + 9 < YYMAXDEPTH) :
    LinesFit lexer := by
  intro i
  induction i generalizing lexer with
  | zero => exact fun l hl => absurd hl (by simp [firstLines])
  | succ i ih =>
    have hlength := readLine_length lexer
    refine List.forall_mem_cons.mpr ⟨stackFits_of_length_lt (by omega), ih (by omega)⟩

section
universe u
variable {σ : Type u} (S : ShellParts σ) (interactive : Bool) (requests : Nat → Nat)

/-- The `break` that has ended the loop, which `fEndOfFile` tells. -/
def stopOf (g : Globals) : Stop := if g.fEndOfFile then .eof else .quit

/-- **The loop** on the generated code is the loop on the lexer and the grammar. -/
theorem commandLoopYy_eq {lines : Nat} {lexer : Scanner} (hfits : LinesFit lexer)
    (hlines : lexer.text.length < lines) (g : Globals) (ret : Option Ret) (s : σ) :
    ∃ fuel g', ∀ fuel' ≥ fuel, ∀ b, InFront lexer b → ∃ b',
      commandLoopYy S interactive requests fuel' lines ret (b, g) s =
          some ((commandLoopStop S interactive lines ret lexer s).1, (b', g')) ∧
        (commandLoopStop S interactive lines ret lexer s).2 = some (stopOf g') ∧
        b'.1 = .INITIAL ∧ b'.2.Fits := by
  induction lines generalizing lexer g ret s with
  | zero => omega
  | succ lines ih =>
    obtain ⟨hline, hrest⟩ := hfits.rest
    obtain ⟨fuel₁, hcall⟩ := nextCommandYy_eq requests hline g
    have hshort : (nextCommand lexer).2.1 = false →
        (nextCommand lexer).2.2.text.length < lexer.text.length := (readLine_spec lexer).shorter
    have hstart : ∀ b, InFront (nextCommand lexer).2.2 b → b.1 = .INITIAL := by
      intro b hb
      rw [← (show (nextCommand lexer).2.2.start = .INITIAL from (reads_readLine lexer).2.2), hb.eq]
    have hrest' : LinesFit (nextCommand lexer).2.2 := hrest
    -- one turn, behind the call
    have hturn : ∀ fuel' b b', nextCommandYy requests fuel' (b, g) =
          some (b', ⟨(nextCommand lexer).1, (nextCommand lexer).2.1⟩) →
        commandLoopYy S interactive requests fuel' (lines + 1) ret (b, g) s =
          if (nextCommand lexer).2.1 = true then
            some (⟨[], ret, beforeLine S interactive s⟩,
              (b', ⟨(nextCommand lexer).1, (nextCommand lexer).2.1⟩))
          else
            let line := executeCommands S interactive (nextCommand lexer).1 ret
              (beforeLine S interactive s)
            if line.ret = some .QUIT then
              some (line, (b', ⟨(nextCommand lexer).1, (nextCommand lexer).2.1⟩))
            else
              (commandLoopYy S interactive requests fuel' lines line.ret
                  (b', ⟨(nextCommand lexer).1, (nextCommand lexer).2.1⟩) line.state).map
                fun rest => ({ rest.1 with log := line.log ++ rest.1.log }, rest.2) := by
      intro fuel' b b' hb'
      rw [commandLoopYy]
      simp only [hb', Option.bind_some]
    rw [commandLoopStop]
    generalize nextCommand lexer = r at hcall hshort hstart hrest' hturn ⊢
    obtain ⟨pc, eof, lexer'⟩ := r
    dsimp only at hcall hshort hstart hrest' hturn ⊢
    cases eof with
    | true =>
      refine ⟨fuel₁, ⟨pc, true⟩, fun fuel' hle b hb => ?_⟩
      obtain ⟨b', hb', hbuf⟩ := hcall fuel' hle b hb
      exact ⟨b', hturn fuel' b b' hb', rfl, hstart b' hbuf, hbuf.fits⟩
    | false =>
      generalize executeCommands S interactive pc ret (beforeLine S interactive s) = line at hturn ⊢
      by_cases hquit : line.ret = some .QUIT
      · refine ⟨fuel₁, ⟨pc, false⟩, fun fuel' hle b hb => ?_⟩
        obtain ⟨b', hb', hbuf⟩ := hcall fuel' hle b hb
        refine ⟨b', ?_, ?_, hstart b' hbuf, hbuf.fits⟩
        · rw [hturn fuel' b b' hb']
          simp only [Bool.false_eq_true, if_false, hquit, if_true]
        · simp only [Bool.false_eq_true, if_false, hquit, if_true]
          rfl
      · have hlt := hshort rfl
        obtain ⟨fuel₂, g', hloop⟩ := ih hrest' (by omega) ⟨pc, false⟩ line.ret line.state
        refine ⟨max fuel₁ fuel₂, g', fun fuel' hle b hb => ?_⟩
        obtain ⟨b', hb', hbuf⟩ := hcall fuel' (by omega) b hb
        obtain ⟨b'', hb'', hstop, hkept⟩ := hloop fuel' (by omega) b' hbuf
        refine ⟨b'', ?_, ?_, hkept⟩
        · rw [hturn fuel' b b' hb']
          simp only [Bool.false_eq_true, if_false, hquit, hb'']
          rfl
        · simpa only [Bool.false_eq_true, if_false, hquit] using hstop

/-- The call `processCommands(pf, interactive)` ends with `r` and the globals `g'`, whatever is
    left in the buffer of the file before: it is dropped. -/
def EndsWith (file : List UInt8) (ret : Option Ret) (start : StartCond) (g : Globals) (s : σ)
    (r : Processed σ) (g' : Globals) : Prop :=
  ∃ fuel, ∀ fuel' ≥ fuel, ∀ buf : Flex.Buffer, 0 < buf.size → ∃ b',
    processCommandsYy S interactive requests fuel' file ret ((start, buf), g) s =
      some (r, (b', g')) ∧ b'.1 = .INITIAL ∧ b'.2.Fits

/-- **One file.** -/
theorem processCommandsYy_eq (start : StartCond) (file : List UInt8)
    (hfits : LinesFit ⟨start, file.map byteChar⟩) (g : Globals) (ret : Option Ret) (s : σ) :
    ∃ g', EndsWith S interactive requests file ret start g s
        (processCommandsStop S interactive start ret (file.map byteChar) s).1 g' ∧
      (processCommandsStop S interactive start ret (file.map byteChar) s).2 =
        some (stopOf g') := by
  obtain ⟨fuel, g', hloop⟩ := commandLoopYy_eq S interactive requests hfits
    (show (file.map byteChar).length < file.length + 1 by simp) { g with fEndOfFile := false } ret s
  have hbuf : ∀ buf : Flex.Buffer, 0 < buf.size →
      InFront ⟨start, file.map byteChar⟩ (start, yyrestart file buf) := fun buf hsize =>
    ⟨⟨⟨hsize, fun h => by cases h⟩, Nat.le_refl 0⟩, rfl⟩
  have hsame : processCommandsStop S interactive start ret (file.map byteChar) s =
      commandLoopStop S interactive (file.length + 1) ret ⟨start, file.map byteChar⟩ s := by
    rw [processCommandsStop, List.length_map]
    rfl
  rw [hsame]
  refine ⟨g', ⟨fuel, fun fuel' hle buf hsize => ?_⟩, ?_⟩
  · obtain ⟨b', hb', -, hkept⟩ := hloop fuel' hle _ (hbuf buf hsize)
    exact ⟨b', hb', hkept⟩
  · obtain ⟨-, -, hstop, -⟩ := hloop fuel (Nat.le_refl fuel) _ (hbuf newBuffer (by decide))
    exact hstop

/-- The same with the loop of `ProcessCommands.lean`. -/
theorem endsWith_processCommands (start : StartCond) (file : List UInt8)
    (hfits : LinesFit ⟨start, file.map byteChar⟩) (g : Globals) (ret : Option Ret) (s : σ) :
    ∃ g', EndsWith S interactive requests file ret start g s
      (processCommands S interactive start ret (file.map byteChar) s) g' := by
  obtain ⟨g', hends, -⟩ := processCommandsYy_eq S interactive requests start file hfits g ret s
  rw [processCommandsStop, commandLoopStop_fst] at hends
  exact ⟨g', hends⟩

end

end OSPortfolio.Ish
