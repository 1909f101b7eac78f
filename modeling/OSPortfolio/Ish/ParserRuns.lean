import OSPortfolio.Ish.ParserTab

namespace OSPortfolio.Ish

open OSPortfolio.LR

/-!
# Runs of the generated parser on derivable lines

For each nonterminal of the grammar: from the states in which the automaton expects it, the
machine reads its tokens and puts its value on the stack.  The stack below is arbitrary.

* `reaches_command`, `reaches_cmdSeq` — by induction on the derivation;
* `accepts_cmdSeq` — **a derivable line is accepted with the value of its derivation**.
-/

/-- The machine in front of the tokens `us`, where no error has occurred. -/
def tabConf (stack : List (Nat × YYSTYPE)) (us : List Token) (g : Globals) :
    Conf Token YYSTYPE Globals := ⟨stack, 0, us, g⟩

/-- One step and then a run. -/
theorem reaches_step {a b c : Conf Token YYSTYPE Globals} (h : ishParser.step a = some (.inl b))
    (hb : ishParser.Reaches b c) : ishParser.Reaches a c :=
  (Parser.Reaches.single h).trans hb

/-- A run and then one step. -/
theorem step_reaches {a b c : Conf Token YYSTYPE Globals} (hb : ishParser.Reaches a b)
    (h : ishParser.step b = some (.inl c)) : ishParser.Reaches a c :=
  hb.trans (Parser.Reaches.single h)

variable {stack : List (Nat × YYSTYPE)} {g : Globals}

/-! ### Parameters and redirects to files -/

/-- One more parameter: the token is shifted, reduced to `parameter`, and appended. -/
theorem reaches_parameter {t : Token} {s : String} (h : DerivesParameter t s) (pa : Args)
    (z : YYSTYPE) (rest : List Token) :
    ishParser.Reaches (tabConf ((10, .arg pa) :: (2, z) :: stack) (t :: rest) g)
      (tabConf ((10, .arg (appendArgument pa s)) :: (2, z) :: stack) rest g) := by
  have happend : ishParser.step
      (tabConf ((31, .string s) :: (10, .arg pa) :: (2, z) :: stack) rest g) =
        some (.inl (tabConf ((10, .arg (appendArgument pa s)) :: (2, z) :: stack) rest g)) := rfl
  have hparameter : ∀ q, q = 16 ∨ q = 24 → ishParser.step
      (tabConf ((q, .string s) :: (10, .arg pa) :: (2, z) :: stack) rest g) =
        some (.inl (tabConf ((31, .string s) :: (10, .arg pa) :: (2, z) :: stack) rest g)) := by
    rintro q (rfl | rfl) <;> rfl
  have hshift : ∃ q, (q = 16 ∨ q = 24) ∧ ishParser.step
      (tabConf ((10, .arg pa) :: (2, z) :: stack) (t :: rest) g) =
        some (.inl (tabConf ((q, .string s) :: (10, .arg pa) :: (2, z) :: stack) rest g)) := by
    cases h with
    | word => exact ⟨16, Or.inl rfl, rfl⟩
    | string => exact ⟨24, Or.inr rfl, rfl⟩
  obtain ⟨q, hq, hshift⟩ := hshift
  exact reaches_step hshift (reaches_step (hparameter q hq) (Parser.Reaches.single happend))

/-- `parameters`: from behind the name of the command. -/
theorem reaches_parameters {ts : List Token} {pa : Args} (h : DerivesParameters ts pa)
    (z : YYSTYPE) (rest : List Token) :
    ishParser.Reaches (tabConf ((2, z) :: stack) (ts ++ rest) g)
      (tabConf ((10, .arg pa) :: (2, z) :: stack) rest g) := by
  induction h generalizing rest with
  | empty => exact Parser.Reaches.single rfl
  | @append ts t pa s h₁ h₂ ih =>
    rw [List.append_assoc]
    exact (ih (t :: rest)).trans (reaches_parameter h₂ pa z rest)

/-- `redirect_in`: behind the parameters, or behind `redirect_out`. -/
theorem reaches_redirectIn {ts : List Token} {r : Redirect} (h : DerivesRedirectIn ts r)
    {q : Nat} (hq : q = 10 ∨ q = 28) (v : YYSTYPE) (rest : List Token) :
    ishParser.Reaches (tabConf ((q, v) :: stack) (ts ++ rest) g)
      (tabConf ((parserTables.goto q 19, .redir r) :: (q, v) :: stack) rest g) := by
  obtain ⟨f⟩ := h
  rcases hq with rfl | rfl
  · exact reaches_step rfl (reaches_step rfl (Parser.Reaches.single rfl))
  · exact reaches_step rfl (reaches_step rfl (Parser.Reaches.single rfl))

/-- `redirect_out`: behind the parameters, or behind `redirect_in`. -/
theorem reaches_redirectOut {ts : List Token} {r : Redirect} (h : DerivesRedirectOut ts r)
    {q : Nat} (hq : q = 10 ∨ q = 27) (v : YYSTYPE) (rest : List Token) :
    ishParser.Reaches (tabConf ((q, v) :: stack) (ts ++ rest) g)
      (tabConf ((parserTables.goto q 20, .redir r) :: (q, v) :: stack) rest g) := by
  rcases hq with rfl | rfl
  · cases h <;> exact reaches_step rfl (reaches_step rfl (Parser.Reaches.single rfl))
  · cases h <;> exact reaches_step rfl (reaches_step rfl (Parser.Reaches.single rfl))

/-- A token that may follow a command: a separator, or one that ends the line. -/
def EndsCommandToken (t : Token) : Prop :=
  t = .BACKGROUND ∨ t = .SEMICOLON ∨ t = .EOLN ∨ t = .YEOF

/-- What may follow the redirects to files: a pipe, or what may follow a command. -/
def EndsFilesInput (us : List Token) : Prop :=
  ∃ t us', us = t :: us' ∧ (t = .PIPE ∨ t = .PIPE_ERROR ∨ EndsCommandToken t)

/-- `redirect_file`: behind the parameters, up to a token that continues no redirect. -/
theorem reaches_redirectFile {ts : List Token} {r : Redirect} (h : DerivesRedirectFile ts r)
    (v : YYSTYPE) {us : List Token} (hus : EndsFilesInput us) :
    ishParser.Reaches (tabConf ((10, v) :: stack) (ts ++ us) g)
      (tabConf ((26, .redir r) :: (10, v) :: stack) us g) := by
  cases h with
  | redirectIn h =>
    refine step_reaches (reaches_redirectIn h (Or.inl rfl) v us) ?_
    obtain ⟨t, us', rfl, rfl | rfl | rfl | rfl | rfl | rfl⟩ := hus <;> rfl
  | redirectOut h =>
    refine step_reaches (reaches_redirectOut h (Or.inl rfl) v us) ?_
    obtain ⟨t, us', rfl, rfl | rfl | rfl | rfl | rfl | rfl⟩ := hus <;> rfl
  | inOut h₁ h₂ =>
    rw [List.append_assoc]
    exact step_reaches ((reaches_redirectIn h₁ (Or.inl rfl) v _).trans
      (reaches_redirectOut h₂ (Or.inr rfl) _ us)) rfl
  | outIn h₁ h₂ =>
    rw [List.append_assoc]
    exact step_reaches ((reaches_redirectOut h₁ (Or.inl rfl) v _).trans
      (reaches_redirectIn h₂ (Or.inr rfl) _ us)) rfl

/-- A pipe ends the redirects to files. -/
theorem DerivesRedirectPipe.endsFilesInput {ts : List Token} {r : Redirect}
    (h : DerivesRedirectPipe ts r) (us : List Token) : EndsFilesInput (ts ++ us) := by
  obtain ⟨hpipe, -⟩ := h
  exact ⟨_, _, rfl, by cases hpipe <;> simp⟩

/-! ### Commands -/

/-- The machine expects a command: at the start of the line, behind a separator, or behind a
    pipe. -/
def ExpectsCommand (stack : List (Nat × YYSTYPE)) : Prop :=
  top stack = 0 ∨ top stack = 15 ∨ top stack = 30

/-- There it shifts the name of a command. -/
theorem step_command (h : ExpectsCommand stack) (z : String) (us : List Token) :
    ishParser.step (tabConf stack (.COMMAND z :: us) g) =
      some (.inl (tabConf ((2, .string z) :: stack) us g)) := by
  refine Parser.step_shift ishParser ?_ ?_ (by decide)
  · rcases h with h | h | h <;> rw [h] <;> rfl
  · rcases h with h | h | h <;> rw [h] <;> rfl

mutual

/-- `redirect`: behind the parameters, up to the end of the command. -/
theorem reaches_redirect {ts : List Token} {r : Redirect} (h : DerivesRedirect ts r)
    (stack : List (Nat × YYSTYPE)) (v : YYSTYPE) {t : Token} (ht : EndsCommandToken t)
    (rest : List Token) :
    ishParser.Reaches (tabConf ((10, v) :: stack) (ts ++ t :: rest) g)
      (tabConf ((25, .redir r) :: (10, v) :: stack) (t :: rest) g) := by
  match h with
  | .file h =>
    refine step_reaches (reaches_redirectFile h v ⟨t, rest, rfl, Or.inr (Or.inr ht)⟩) ?_
    rcases ht with rfl | rfl | rfl | rfl <;> rfl
  | .pipe h => exact step_reaches (reaches_redirectPipe h stack (Or.inl rfl) v ht rest) rfl
  | .filePipe h₁ h₂ =>
    rw [List.append_assoc]
    exact step_reaches ((reaches_redirectFile h₁ v (h₂.endsFilesInput (t :: rest))).trans
      (reaches_redirectPipe h₂ ((10, v) :: stack) (Or.inr rfl) _ ht rest)) rfl
  | .empty =>
    refine Parser.Reaches.single ?_
    rcases ht with rfl | rfl | rfl | rfl <;> rfl

/-- `redirect_pipe`: behind the parameters, or behind `redirect_file`. -/
theorem reaches_redirectPipe {ts : List Token} {r : Redirect} (h : DerivesRedirectPipe ts r)
    (stack : List (Nat × YYSTYPE)) {q : Nat} (hq : q = 10 ∨ q = 26) (v : YYSTYPE) {t : Token}
    (ht : EndsCommandToken t) (rest : List Token) :
    ishParser.Reaches (tabConf ((q, v) :: stack) (ts ++ t :: rest) g)
      (tabConf ((parserTables.goto q 24, .redir r) :: (q, v) :: stack) (t :: rest) g) := by
  match h with
  | @DerivesRedirectPipe.pipe u us p pc h₁ h₂ =>
    -- the pipe is state 30, and the command behind it state 41
    have hcommand := fun w => reaches_command h₂ ((30, w) :: (q, v) :: stack)
      (Or.inr (Or.inr rfl)) ht rest
    rcases hq with rfl | rfl
    · cases h₁ <;> exact reaches_step rfl (reaches_step rfl (step_reaches (hcommand _) rfl))
    · cases h₁ <;> exact reaches_step rfl (reaches_step rfl (step_reaches (hcommand _) rfl))

/-- **`command`**: where it is expected, up to a separator or the end of the line. -/
theorem reaches_command {ts : List Token} {pc : Command} (h : DerivesCommand ts pc)
    (stack : List (Nat × YYSTYPE)) (hstack : ExpectsCommand stack) {t : Token}
    (ht : EndsCommandToken t) (rest : List Token) :
    ishParser.Reaches (tabConf stack (ts ++ t :: rest) g)
      (tabConf ((parserTables.goto (top stack) 10, .cmd pc) :: stack) (t :: rest) g) := by
  match h with
  | @DerivesCommand.command z ts₁ ts₂ pa r h₁ h₂ =>
    rw [List.cons_append, List.append_assoc]
    exact reaches_step (step_command hstack z _) (step_reaches
      ((reaches_parameters h₁ (.string z) _).trans (reaches_redirect h₂ _ _ ht rest)) rfl)

end

/-! ### Lines -/

/-- The machine expects `cmd_seq`: at the start of the line, or behind a separator. -/
def ExpectsCmdSeq (stack : List (Nat × YYSTYPE)) : Prop := top stack = 0 ∨ top stack = 15

/-- A command of a line is state 8. -/
theorem reaches_lineCommand {ts : List Token} {pc : Command} (h : DerivesCommand ts pc)
    (hstack : ExpectsCmdSeq stack) {t : Token} (ht : EndsCommandToken t) (rest : List Token) :
    ishParser.Reaches (tabConf stack (ts ++ t :: rest) g)
      (tabConf ((8, .cmd pc) :: stack) (t :: rest) g) := by
  have hgoto : parserTables.goto (top stack) 10 = 8 := by
    rcases hstack with h | h <;> rw [h] <;> rfl
  have hreach := reaches_command h stack (hstack.imp_right Or.inl) ht rest (g := g)
  rwa [hgoto] at hreach

/-- A command with a separator behind it is state 15. -/
theorem reaches_separator {ts : List Token} {t : Token} {b : Bool} {pc : Command}
    (h₁ : DerivesCommand ts pc) (h₂ : DerivesSeparator t b) (hstack : ExpectsCmdSeq stack)
    (rest : List Token) :
    ishParser.Reaches (tabConf stack (ts ++ t :: rest) g)
      (tabConf ((15, .integer (if b = true then tokBACKGROUND else tokSEMICOLON)) ::
        (8, .cmd pc) :: stack) rest g) := by
  have ht : EndsCommandToken t := by cases h₂ <;> simp [EndsCommandToken]
  refine (reaches_lineCommand h₁ hstack ht rest).trans ?_
  cases h₂ <;> exact reaches_step rfl (Parser.Reaches.single rfl)

/-- **`cmd_seq`**: where it is expected, up to the end of the line. -/
theorem reaches_cmdSeq {ts : List Token} {pc : Command} (h : DerivesCmdSeq ts pc)
    (hstack : ExpectsCmdSeq stack) {t : Token} (ht : t = .EOLN ∨ t = .YEOF) :
    ishParser.Reaches (tabConf stack (ts ++ [t]) g)
      (tabConf ((parserTables.goto (top stack) 9, .cmd pc) :: stack) [t] g) := by
  have hends : EndsCommandToken t := Or.inr (Or.inr ht)
  induction h generalizing stack with
  | @sequence ts₁ ts₂ u b pc₁ pc₂ h₁ h₂ h₃ ih =>
    have hfirst := reaches_separator h₁ h₂ hstack (ts₂ ++ [t]) (g := g)
    have hbehind : ExpectsCmdSeq ((15, .integer (if b = true then tokBACKGROUND
      else tokSEMICOLON)) :: (8, .cmd pc₁) :: stack) := Or.inr rfl
    have hrest := ih hbehind
    rw [List.append_assoc, List.cons_append]
    refine (hfirst.trans hrest).trans ?_
    cases b <;> exact Parser.Reaches.single rfl
  | @separator ts u b pc h₁ h₂ =>
    rw [List.append_assoc]
    refine (reaches_separator h₁ h₂ hstack [t]).trans ?_
    cases b <;> rcases ht with rfl | rfl <;> exact Parser.Reaches.single rfl
  | @command ts pc h =>
    refine step_reaches (reaches_lineCommand h hstack hends []) ?_
    rcases ht with rfl | rfl <;> rfl

/-- **A derivable line is accepted** with its value. -/
theorem accepts_cmdSeq {ts : List Token} {pc : Command} (h : DerivesCmdSeq ts pc) {t : Token}
    (ht : t = .EOLN ∨ t = .YEOF) :
    ishParser.Accepts (tabConf [] (ts ++ [t]) g) ⟨pc, t = .YEOF⟩ := by
  refine Parser.Accepts.of_reaches (reaches_cmdSeq h (Or.inl rfl) ht) ?_
  rcases ht with rfl | rfl
  · exact ⟨_, reaches_step rfl (Parser.Reaches.single rfl), rfl⟩
  · exact ⟨_, reaches_step rfl (Parser.Reaches.single rfl), rfl⟩

/-- An empty line is accepted without a command. -/
theorem accepts_nil {t : Token} (ht : t = .EOLN ∨ t = .YEOF) :
    ishParser.Accepts (tabConf [] [t] g) ⟨.null, t = .YEOF⟩ := by
  rcases ht with rfl | rfl
  · exact ⟨_, reaches_step rfl (Parser.Reaches.single rfl), rfl⟩
  · exact ⟨_, reaches_step rfl (Parser.Reaches.single rfl), rfl⟩

end OSPortfolio.Ish
