import OSPortfolio.Ish.Grammar

namespace OSPortfolio.Ish

/-!
# The parser

`yyparse` as Bison makes it from `parser.y`: a line is read up to its terminator; one that
`cmd_seq` derives has the value of its derivation, and any other sets the command to `NULL`.
The only rule with an `error` token is the one of `cmd_line`, so after an error Bison drops
the tokens up to the terminator.  The generated tables, and the limit on the depth of the stack
below which they do the same, are in `ParserTab.lean` and `LineRecovery.lean`.

* `parseLine` — one function for each nonterminal, from left to right, and the line as a whole;
* `parseLine_iff` — it finds a value exactly where the grammar derives one, and that value;
* `yyparse`, `nextCommand` — on the lexer, with the variables `pcGlobalCommand` and
  `fEndOfFile`;
* `readLine_spec` — a call takes the tokens of one line.
-/

/-! ### One function for each nonterminal -/

/-- `parameters`, with the ones read already. -/
def parseParameters : List Token → Args → Args × List Token
  | .WORD s :: ts, pa => parseParameters ts (appendArgument pa s)
  | .STRING s :: ts, pa => parseParameters ts (appendArgument pa s)
  | ts, pa => (pa, ts)

/-- `redirect_in` -/
def parseRedirectIn : List Token → Option (Redirect × List Token)
  | .REDIRECT_IN :: .FILENAME f :: ts => some (createRedirectFile .REDIRECT_IN f .null, ts)
  | _ => none

/-- `redirect_out` -/
def parseRedirectOut : List Token → Option (Redirect × List Token)
  | .REDIRECT_OUT :: .FILENAME f :: ts => some (createRedirectFile .REDIRECT_OUT f .null, ts)
  | .REDIRECT_ERROR :: .FILENAME f :: ts => some (createRedirectFile .REDIRECT_ERROR f .null, ts)
  | .APPEND :: .FILENAME f :: ts => some (createRedirectFile .APPEND f .null, ts)
  | .APPEND_ERROR :: .FILENAME f :: ts => some (createRedirectFile .APPEND_ERROR f .null, ts)
  | _ => none

/-- What `q` reads after `r₁` is appended to it; it need not read anything. -/
def parseThen (q : List Token → Option (Redirect × List Token)) (r₁ : Redirect)
    (ts : List Token) : Redirect × List Token :=
  match q ts with
  | some (r₂, ts') => (appendRedirect r₁ r₂, ts')
  | none => (r₁, ts)

/-- `redirect_file`, or nothing. -/
def parseRedirectFile (ts : List Token) : Redirect × List Token :=
  match parseRedirectIn ts with
  | some (r, ts') => parseThen parseRedirectOut r ts'
  | none =>
    match parseRedirectOut ts with
    | some (r, ts') => parseThen parseRedirectIn r ts'
    | none => (.null, ts)

/-- `pipe` -/
def parsePipe : List Token → Option (PipeType × List Token)
  | .PIPE :: ts => some (.PIPE, ts)
  | .PIPE_ERROR :: ts => some (.PIPE_ERROR, ts)
  | _ => none

/-- The action of `command`. -/
def commandValue (z : String) (pa : Args) (r : Redirect) : Command :=
  createCommand z (setArgument pa (some (shortName z))) false r .null

/-- `command`; the number bounds the stages of the pipeline. -/
def parseCommand : Nat → List Token → Option (Command × List Token)
  | 0, _ => none
  | fuel + 1, ts =>
    match ts with
    | .COMMAND z :: ts =>
      let (pa, ts) := parseParameters ts (createArguments none)
      let (r, ts) := parseRedirectFile ts
      -- a pipe ends the redirects: what follows it is the next stage
      match parsePipe ts with
      | none => some (commandValue z pa r, ts)
      | some (p, ts) =>
        (parseCommand fuel ts).map fun (pc, ts) =>
          (commandValue z pa (appendRedirect r (createRedirectPipe p pc .null)), ts)
    | _ => none

/-- `separator` -/
def parseSeparator : Token → Option Bool
  | .BACKGROUND => some true
  | .SEMICOLON => some false
  | _ => none

/-- `cmd_seq`, up to the end of the line; the number bounds the commands. -/
def parseCmdSeq : Nat → List Token → Option Command
  | 0, _ => none
  | fuel + 1, ts =>
    match parseCommand ts.length ts with
    | none => none
    | some (pc, []) => some pc
    | some (pc, t :: ts) =>
      match parseSeparator t with
      | none => none
      | some b =>
        -- a separator may end the line
        if ts = [] then some (backgroundIf b pc)
        else (parseCmdSeq fuel ts).map fun pcs => backgroundIf b (appendCommand pc pcs)

/-- The value of a line, without its terminator. -/
def parseLine (ts : List Token) : Option Command := parseCmdSeq ts.length ts

/-! ### Soundness -/

/-- What is read as parameters is derived from `parameters`. -/
theorem parseParameters_sound (ts : List Token) {us : List Token} {pa : Args}
    (h : DerivesParameters us pa) :
    ∃ vs, ts = vs ++ (parseParameters ts pa).2 ∧
      DerivesParameters (us ++ vs) (parseParameters ts pa).1 := by
  fun_induction parseParameters ts pa generalizing us with
  | case1 s ts pa ih =>
    obtain ⟨vs, hvs, hder⟩ := ih (h.append (.word s))
    exact ⟨.WORD s :: vs, by rw [List.cons_append, ← hvs], by simpa using hder⟩
  | case2 s ts pa ih =>
    obtain ⟨vs, hvs, hder⟩ := ih (h.append (.string s))
    exact ⟨.STRING s :: vs, by rw [List.cons_append, ← hvs], by simpa using hder⟩
  | case3 ts pa _ _ => exact ⟨[], rfl, by simpa using h⟩

/-- The same for `redirect_in`. -/
theorem parseRedirectIn_sound {ts ts' : List Token} {r : Redirect}
    (h : parseRedirectIn ts = some (r, ts')) : ∃ us, ts = us ++ ts' ∧ DerivesRedirectIn us r := by
  unfold parseRedirectIn at h
  split at h
  · obtain ⟨rfl, rfl⟩ := Prod.mk.inj (Option.some.inj h)
    exact ⟨_, rfl, .redirectIn _⟩
  · simp at h

/-- The same for `redirect_out`. -/
theorem parseRedirectOut_sound {ts ts' : List Token} {r : Redirect}
    (h : parseRedirectOut ts = some (r, ts')) :
    ∃ us, ts = us ++ ts' ∧ DerivesRedirectOut us r := by
  unfold parseRedirectOut at h
  split at h
  · obtain ⟨rfl, rfl⟩ := Prod.mk.inj (Option.some.inj h)
    exact ⟨_, rfl, .redirectOut _⟩
  · obtain ⟨rfl, rfl⟩ := Prod.mk.inj (Option.some.inj h)
    exact ⟨_, rfl, .redirectError _⟩
  · obtain ⟨rfl, rfl⟩ := Prod.mk.inj (Option.some.inj h)
    exact ⟨_, rfl, .append _⟩
  · obtain ⟨rfl, rfl⟩ := Prod.mk.inj (Option.some.inj h)
    exact ⟨_, rfl, .appendError _⟩
  · simp at h

/-- `redirect_file`, or the redirect list of a command without redirects. -/
theorem parseRedirectFile_sound (ts : List Token) :
    ∃ us, ts = us ++ (parseRedirectFile ts).2 ∧
      (us = [] ∧ (parseRedirectFile ts).1 = .null ∨
        DerivesRedirectFile us (parseRedirectFile ts).1) := by
  unfold parseRedirectFile
  -- the first token decides whether the input or the output redirect comes first
  cases hin : parseRedirectIn ts with
  | some p =>
    obtain ⟨r₁, ts₁⟩ := p
    obtain ⟨us, rfl, hus⟩ := parseRedirectIn_sound hin
    simp only [parseThen]
    cases hout : parseRedirectOut ts₁ with
    | some q =>
      obtain ⟨r₂, ts₂⟩ := q
      obtain ⟨vs, rfl, hder⟩ := parseRedirectOut_sound hout
      exact ⟨us ++ vs, by rw [List.append_assoc], Or.inr (.inOut hus hder)⟩
    | none => exact ⟨us, rfl, Or.inr (.redirectIn hus)⟩
  | none =>
    cases hout : parseRedirectOut ts with
    | some p =>
      obtain ⟨r₁, ts₁⟩ := p
      obtain ⟨us, rfl, hus⟩ := parseRedirectOut_sound hout
      simp only [parseThen]
      cases hin' : parseRedirectIn ts₁ with
      | some q =>
        obtain ⟨r₂, ts₂⟩ := q
        obtain ⟨vs, rfl, hder⟩ := parseRedirectIn_sound hin'
        exact ⟨us ++ vs, by rw [List.append_assoc], Or.inr (.outIn hus hder)⟩
      | none => exact ⟨us, rfl, Or.inr (.redirectOut hus)⟩
    | none => exact ⟨[], rfl, Or.inl ⟨rfl, rfl⟩⟩

/-- The same for `pipe`. -/
theorem parsePipe_sound {ts ts' : List Token} {p : PipeType} (h : parsePipe ts = some (p, ts')) :
    ∃ t, ts = t :: ts' ∧ DerivesPipe t p := by
  unfold parsePipe at h
  split at h
  · obtain ⟨rfl, rfl⟩ := Prod.mk.inj (Option.some.inj h)
    exact ⟨_, rfl, .pipe⟩
  · obtain ⟨rfl, rfl⟩ := Prod.mk.inj (Option.some.inj h)
    exact ⟨_, rfl, .pipeError⟩
  · simp at h

/-- **What is read as a command is derived from `cmd`**, by induction on the fuel. -/
theorem parseCommand_sound {fuel : Nat} {ts ts' : List Token} {pc : Command}
    (h : parseCommand fuel ts = some (pc, ts')) : ∃ us, ts = us ++ ts' ∧ DerivesCommand us pc := by
  induction fuel generalizing ts ts' pc with
  | zero => simp [parseCommand] at h
  | succ fuel ih =>
    unfold parseCommand at h
    split at h
    · rename_i z ts
      obtain ⟨ps, hps, hparams⟩ := parseParameters_sound ts .empty
      obtain ⟨rs, hrs, hredir⟩ :=
        parseRedirectFile_sound (parseParameters ts (createArguments none)).2
      rw [List.nil_append] at hparams
      dsimp only at h
      -- only what the two functions have read matters from here on
      generalize parseParameters ts (createArguments none) = args at *
      generalize parseRedirectFile args.2 = file at *
      cases hpipe : parsePipe file.2 with
      | none =>
        rw [hpipe] at h
        obtain ⟨rfl, rfl⟩ := Prod.mk.inj (Option.some.inj h)
        refine ⟨.COMMAND z :: (ps ++ rs), by rw [hps, hrs]; simp, .command z hparams ?_⟩
        rcases hredir with ⟨rfl, hnull⟩ | hfile
        · rw [hnull]; exact .empty
        · exact .file hfile
      | some q =>
        obtain ⟨p, ts₁⟩ := q
        rw [hpipe] at h
        obtain ⟨t, ht, hder⟩ := parsePipe_sound hpipe
        obtain ⟨⟨pc', ts''⟩, hnext, heq⟩ := Option.map_eq_some_iff.mp h
        obtain ⟨rfl, rfl⟩ := Prod.mk.inj heq
        obtain ⟨cs, hcs, hcommand⟩ := ih hnext
        have htail := DerivesRedirectPipe.pipe hder hcommand
        refine ⟨.COMMAND z :: (ps ++ (rs ++ t :: cs)), by rw [hps, hrs, ht, hcs]; simp,
          .command z hparams ?_⟩
        rcases hredir with ⟨rfl, hnull⟩ | hfile
        · rw [hnull]; exact .pipe htail
        · exact .filePipe hfile htail
    · simp at h

/-- A separator is read where the grammar has one. -/
theorem parseSeparator_iff (t : Token) (b : Bool) :
    parseSeparator t = some b ↔ DerivesSeparator t b := by
  constructor
  · intro h
    unfold parseSeparator at h
    split at h
    · obtain rfl := Option.some.inj h; exact .background
    · obtain rfl := Option.some.inj h; exact .semicolon
    · simp at h
  · rintro (_ | _) <;> rfl

/-- **What is read as a line is derived from `cmd_seq`.** -/
theorem parseCmdSeq_sound {fuel : Nat} {ts : List Token} {pc : Command}
    (h : parseCmdSeq fuel ts = some pc) : DerivesCmdSeq ts pc := by
  induction fuel generalizing ts pc with
  | zero => simp [parseCmdSeq] at h
  | succ fuel ih =>
    unfold parseCmdSeq at h
    split at h
    · simp at h
    · rename_i pc' hcommand
      obtain rfl := Option.some.inj h
      obtain ⟨us, rfl, hder⟩ := parseCommand_sound hcommand
      rw [List.append_nil]
      exact .command hder
    · rename_i pc' t us hcommand
      obtain ⟨vs, rfl, hder⟩ := parseCommand_sound hcommand
      split at h
      · simp at h
      · rename_i b hsep
        have hsep := (parseSeparator_iff t b).mp hsep
        split at h
        · rename_i hnil
          obtain rfl := Option.some.inj h
          rw [hnil]
          exact .separator hder hsep
        · obtain ⟨pcs, hrest, rfl⟩ := Option.map_eq_some_iff.mp h
          exact .sequence hder hsep (ih hrest)

/-! ### Completeness -/

/-- Nothing in front of `ts` continues the parameters or the redirects to files. -/
structure EndsFiles (ts : List Token) : Prop where
  parameters : ∀ pa, parseParameters ts pa = (pa, ts)
  redirectIn : parseRedirectIn ts = none
  redirectOut : parseRedirectOut ts = none

/-- Nothing in front of `ts` continues a command. -/
structure EndsCommand (ts : List Token) : Prop extends EndsFiles ts where
  pipe : parsePipe ts = none

/-- A pipe ends the redirects to files. -/
theorem endsFiles_pipe {t : Token} {p : PipeType} (h : DerivesPipe t p) (ts : List Token) :
    EndsFiles (t :: ts) := by
  cases h <;> exact ⟨fun _ => rfl, rfl, rfl⟩

/-- The end of the line ends a command. -/
theorem endsCommand_nil : EndsCommand [] := ⟨⟨fun _ => rfl, rfl, rfl⟩, rfl⟩

/-- So does a separator. -/
theorem endsCommand_separator {t : Token} {b : Bool} (h : DerivesSeparator t b)
    (ts : List Token) : EndsCommand (t :: ts) := by
  cases h <;> exact ⟨⟨fun _ => rfl, rfl, rfl⟩, rfl⟩

/-- Parameters are read up to what follows them. -/
theorem parseParameters_complete {ts : List Token} {pa : Args} (h : DerivesParameters ts pa)
    (rest : List Token) :
    parseParameters (ts ++ rest) (createArguments none) = parseParameters rest pa := by
  induction h generalizing rest with
  | empty => rfl
  | append h₁ h₂ ih =>
    rw [List.append_assoc, List.singleton_append, ih]
    cases h₂ <;> rfl

/-- An output redirect is read, and not taken for one of the input. -/
theorem parseRedirectOut_complete {ts : List Token} {r : Redirect} (h : DerivesRedirectOut ts r)
    (rest : List Token) : parseRedirectIn (ts ++ rest) = none ∧
      parseRedirectOut (ts ++ rest) = some (r, rest) := by
  cases h <;> exact ⟨rfl, rfl⟩

/-- Redirects to files are read up to what follows them. -/
theorem parseRedirectFile_complete {ts : List Token} {r : Redirect}
    (h : DerivesRedirectFile ts r) {rest : List Token} (hrest : EndsFiles rest) :
    parseRedirectFile (ts ++ rest) = (r, rest) := by
  unfold parseRedirectFile
  cases h with
  | redirectIn h =>
    obtain ⟨f⟩ := h
    simp [parseRedirectIn, parseThen, hrest.redirectOut]
  | redirectOut h =>
    obtain ⟨hin, hout⟩ := parseRedirectOut_complete h rest
    simp [hin, hout, parseThen, hrest.redirectIn]
  | inOut h₁ h₂ =>
    obtain ⟨f⟩ := h₁
    obtain ⟨-, hout⟩ := parseRedirectOut_complete h₂ rest
    simp [parseRedirectIn, parseThen, hout]
  | outIn h₁ h₂ =>
    obtain ⟨f⟩ := h₂
    obtain ⟨hin, hout⟩ := parseRedirectOut_complete h₁ ([.REDIRECT_IN, .FILENAME f] ++ rest)
    rw [List.append_assoc, hin, hout]
    rfl

/-- A list of redirects: the redirects to files, and the pipe if there is one. -/
theorem DerivesRedirect.split {ts : List Token} {r : Redirect} (h : DerivesRedirect ts r) :
    ∃ fs f, (fs = [] ∧ f = .null ∨ DerivesRedirectFile fs f) ∧
      (ts = fs ∧ r = f ∨ ∃ t p cs pc, DerivesPipe t p ∧ DerivesCommand cs pc ∧
        ts = fs ++ t :: cs ∧ r = appendRedirect f (createRedirectPipe p pc .null)) := by
  cases h with
  | file h => exact ⟨ts, r, Or.inr h, Or.inl ⟨rfl, rfl⟩⟩
  | pipe h =>
    obtain ⟨hpipe, hcommand⟩ := h
    exact ⟨[], .null, Or.inl ⟨rfl, rfl⟩, Or.inr ⟨_, _, _, _, hpipe, hcommand, rfl, rfl⟩⟩
  | filePipe h₁ h₂ =>
    obtain ⟨hpipe, hcommand⟩ := h₂
    exact ⟨_, _, Or.inr h₁, Or.inr ⟨_, _, _, _, hpipe, hcommand, rfl, rfl⟩⟩
  | empty => exact ⟨[], .null, Or.inl ⟨rfl, rfl⟩, Or.inl ⟨rfl, rfl⟩⟩

/-- The same where there may be none. -/
theorem parseRedirectFile_split {fs : List Token} {f : Redirect}
    (h : fs = [] ∧ f = .null ∨ DerivesRedirectFile fs f) {rest : List Token}
    (hrest : EndsFiles rest) : parseRedirectFile (fs ++ rest) = (f, rest) := by
  rcases h with ⟨rfl, rfl⟩ | h
  · simp [parseRedirectFile, hrest.redirectIn, hrest.redirectOut]
  · exact parseRedirectFile_complete h hrest

/-- Redirects to files end the parameters. -/
theorem parseParameters_split {fs : List Token} {f : Redirect}
    (h : fs = [] ∧ f = .null ∨ DerivesRedirectFile fs f) {rest : List Token}
    (hrest : EndsFiles rest) (pa : Args) :
    parseParameters (fs ++ rest) pa = (pa, fs ++ rest) := by
  rcases h with ⟨rfl, -⟩ | h
  · exact hrest.parameters pa
  · cases h with
    | redirectIn h => cases h; rfl
    | redirectOut h => cases h <;> rfl
    | inOut h₁ h₂ => cases h₁; rfl
    | outIn h₁ h₂ => cases h₁ <;> rfl

/-- **A derived command is read**, up to what follows it. -/
theorem parseCommand_complete (fuel : Nat) {ts rest : List Token} {pc : Command}
    (h : DerivesCommand ts pc) (hfuel : ts.length ≤ fuel) (hrest : EndsCommand rest) :
    parseCommand fuel (ts ++ rest) = some (pc, rest) := by
  induction fuel generalizing ts pc with
  | zero =>
    obtain ⟨z, -, -⟩ := h
    simp at hfuel
  | succ fuel ih =>
    obtain ⟨z, hparams, hredir⟩ := h
    obtain ⟨fs, f, hfs, hpipe⟩ := hredir.split
    rcases hpipe with ⟨rfl, rfl⟩ | ⟨t, p, cs, pc, hpipe, hcommand, rfl, rfl⟩
    · simp only [List.cons_append, List.append_assoc, parseCommand,
        parseParameters_complete hparams, parseParameters_split hfs hrest.toEndsFiles,
        parseRedirectFile_split hfs hrest.toEndsFiles, hrest.pipe]
      rfl
    -- the token of the pipe ends the redirects to files
    · have hends := endsFiles_pipe hpipe (cs ++ rest)
      have hnext := ih hcommand (by simp at hfuel; omega)
      have hread : parsePipe (t :: (cs ++ rest)) = some (p, cs ++ rest) := by cases hpipe <;> rfl
      simp only [List.cons_append, List.append_assoc, parseCommand,
        parseParameters_complete hparams, parseParameters_split hfs hends,
        parseRedirectFile_split hfs hends, hread, hnext]
      rfl

/-- **A derived line is read.** -/
theorem parseCmdSeq_complete (fuel : Nat) {ts : List Token} {pc : Command}
    (h : DerivesCmdSeq ts pc) (hfuel : ts.length ≤ fuel) : parseCmdSeq fuel ts = some pc := by
  have hpos : ∀ {ts : List Token} {pc : Command}, DerivesCommand ts pc → 0 < ts.length := by
    rintro _ _ ⟨z, -, -⟩
    exact Nat.succ_pos _
  induction h generalizing fuel with
  | @sequence ts₁ ts₂ t b pc₁ pc₂ h₁ h₂ h₃ ih =>
    have hone := hpos h₁
    simp only [List.length_append, List.length_cons] at hfuel
    obtain ⟨fuel, rfl⟩ : ∃ n, fuel = n + 1 := ⟨fuel - 1, by omega⟩
    have hread := parseCommand_complete (ts₁ ++ t :: ts₂).length h₁ (by simp)
      (endsCommand_separator h₂ ts₂)
    -- a sequence is never empty, so the separator does not end the line
    have hne : ts₂ ≠ [] := by
      rintro rfl
      exact absurd (ih 0 (Nat.le_refl 0)) (by simp [parseCmdSeq])
    simp only [parseCmdSeq, hread, (parseSeparator_iff t b).mpr h₂, if_neg hne,
      ih fuel (by omega), Option.map_some]
  | @separator ts t b pc h₁ h₂ =>
    have hone := hpos h₁
    simp only [List.length_append] at hfuel
    obtain ⟨fuel, rfl⟩ : ∃ n, fuel = n + 1 := ⟨fuel - 1, by omega⟩
    have hread := parseCommand_complete (ts ++ [t]).length h₁ (by simp)
      (endsCommand_separator h₂ [])
    simp only [parseCmdSeq, hread, (parseSeparator_iff t b).mpr h₂, if_true]
  | @command ts pc h =>
    have hone := hpos h
    obtain ⟨fuel, rfl⟩ : ∃ n, fuel = n + 1 := ⟨fuel - 1, by omega⟩
    have hread := parseCommand_complete ts.length h (Nat.le_refl _) endsCommand_nil
    rw [List.append_nil] at hread
    simp only [parseCmdSeq, hread]

/-- **The parser finds the values of the grammar.** -/
theorem parseLine_iff (ts : List Token) (pc : Command) :
    parseLine ts = some pc ↔ DerivesCmdSeq ts pc :=
  ⟨parseCmdSeq_sound, fun h => parseCmdSeq_complete _ h (Nat.le_refl _)⟩

/-! ### Lines of the text -/

/-- A line of the text: the tokens in front of its terminator, whether that is `YEOF`, and the
    lexer after it. -/
structure Line where
  tokens : List Token
  eof : Bool
  rest : Scanner
  deriving DecidableEq, Repr

/-- Read the tokens of a line, at most `fuel` of them. -/
def readLineUpTo : Nat → Scanner → Line
  | 0, s => ⟨[], true, s⟩
  | fuel + 1, s =>
    let (t, s) := yylex s
    if t = .YEOF then ⟨[], true, s⟩
    else if t = .EOLN then ⟨[], false, s⟩
    else
      let l := readLineUpTo fuel s
      { l with tokens := t :: l.tokens }

/-- Read the tokens up to the next terminator. -/
def readLine (s : Scanner) : Line := readLineUpTo (s.text.length + 1) s

/-- More fuel than characters is enough. -/
theorem readLineUpTo_of_lt {fuel : Nat} {s : Scanner} (h : s.text.length < fuel) :
    readLineUpTo fuel s = readLine s := by
  -- two bounds that are both large enough read the same line
  have key : ∀ n m (s : Scanner), s.text.length < n → s.text.length < m →
      readLineUpTo n s = readLineUpTo m s := by
    intro n
    induction n with
    | zero => intro m s hn; omega
    | succ n ih =>
      intro m s hn hm
      obtain ⟨m, rfl⟩ : ∃ m', m = m' + 1 := ⟨m - 1, by omega⟩
      rw [readLineUpTo, readLineUpTo]
      dsimp only
      split
      · rfl
      · rename_i hne
        have hlt := yylex_shorter hne
        rw [ih m _ (by omega) (by omega)]
  exact key _ _ s h (Nat.lt_succ_self _)

/-- Put tokens in front of a line. -/
def Line.prepend (ts : List Token) (l : Line) : Line := { l with tokens := ts ++ l.tokens }

@[simp] theorem Line.prepend_nil (l : Line) : l.prepend [] = l := rfl

/-- Tokens in front of a line, twice. -/
theorem Line.prepend_prepend (ts us : List Token) (l : Line) :
    (l.prepend us).prepend ts = l.prepend (ts ++ us) := by
  simp only [Line.prepend, List.append_assoc]

/-- A line, one call of `yylex` after the other. -/
theorem readLine_eq (s : Scanner) :
    readLine s =
      if (yylex s).1 = .YEOF then ⟨[], true, (yylex s).2⟩
      else if (yylex s).1 = .EOLN then ⟨[], false, (yylex s).2⟩
      else (readLine (yylex s).2).prepend [(yylex s).1] := by
  conv_lhs => rw [readLine, readLineUpTo]
  dsimp only
  split
  · rfl
  · rename_i hne
    rw [readLineUpTo_of_lt (yylex_shorter hne)]
    rfl

/-- What a call of `nextCommand` leaves behind: `pcGlobalCommand`, `fEndOfFile`, and the
    lexer. -/
structure Parsed where
  pcGlobalCommand : Command
  fEndOfFile : Bool
  scanner : Scanner
  deriving DecidableEq, Repr

/-- `yyparse()`, on a stack without a bound: the generated parser does the same as long as its
    stack stays below `YYMAXDEPTH` (`nextCommandTab_eq`), and gives up where it does not. -/
def yyparse (s : Scanner) : Parsed :=
  let l := readLine s
  ⟨(parseLine l.tokens).getD .null, l.eof, l.rest⟩

/-- `resetParser(pf)`, for a file with this text, when the lexer is in `start`: `yyrestart`
    does not change the start condition. -/
def resetParser (start : StartCond) (text : List Char) : Scanner := ⟨start, text⟩

/-- `nextCommand(&eof)`: the command, the value of `eof`, and the lexer.  That of the generated
    parser is `nextCommandTab`. -/
def nextCommand (s : Scanner) : Command × Bool × Scanner :=
  let r := yyparse s
  (r.pcGlobalCommand, r.fEndOfFile, r.scanner)

/-- `l` is the next line that the lexer `s` has; behind a line the lexer is in `INITIAL`. -/
structure IsNextLine (s : Scanner) (l : Line) : Prop where
  tokens : tokens s = l.tokens ++ if l.eof = true then [] else .EOLN :: tokens l.rest
  eoln_notMem : .EOLN ∉ l.tokens
  shorter : l.eof = false → l.rest.text.length < s.text.length
  start : l.rest.start = .INITIAL

/-- What is read is the next line. -/
theorem readLineUpTo_spec {fuel : Nat} {s : Scanner} (h : s.text.length < fuel) :
    IsNextLine s (readLineUpTo fuel s) := by
  induction fuel generalizing s with
  | zero => omega
  | succ fuel ih =>
    have hshort := yylex_shorter (s := s)
    have hend := yylex_eof (s := s)
    have hnewline := yylex_eoln (s := s)
    have htokens := tokens_eq s
    rw [readLineUpTo]
    cases hlex : yylex s with | mk t s'
    rw [hlex] at hshort hend hnewline htokens
    dsimp only at hshort hend hnewline htokens ⊢
    -- a terminator ends the line here, any other token belongs to it
    by_cases heof : t = .YEOF
    · rw [if_pos heof] at htokens ⊢
      exact ⟨htokens, by simp, by simp, by rw [hend heof]⟩
    · have hlt := hshort heof
      rw [if_neg heof] at htokens ⊢
      by_cases heoln : t = .EOLN
      · rw [if_pos heoln]
        exact ⟨by simpa [heoln] using htokens, by simp, fun _ => hlt, hnewline heoln⟩
      · rw [if_neg heoln]
        obtain ⟨hrest, hmem, hless, hinitial⟩ := ih (s := s') (by omega)
        refine ⟨by rw [htokens, hrest, List.cons_append], ?_, fun h => Nat.lt_trans (hless h) hlt,
          hinitial⟩
        rw [List.mem_cons, not_or]
        exact ⟨Ne.symm heoln, hmem⟩

/-- **A call of `nextCommand` takes the tokens of one line.** -/
theorem readLine_spec (s : Scanner) : IsNextLine s (readLine s) :=
  readLineUpTo_spec (Nat.lt_succ_self _)

end OSPortfolio.Ish
