import OSPortfolio.Ish.FrontEnd

namespace OSPortfolio.Ish

open OSPortfolio.LR

/-!
# Parameters on their way to a command

Between the lexer and the array of arguments a parameter is in `yychar`, or on the stack of the
parser above the arguments it will be appended to.  The array has room for 14 of them, and no
command gets more if the line has no more in a row.

* `ShortLine`, `LinesShort` — a line, and each line of a text, has at most 14 parameters in a row;
* `lexLine`, `run_lexLine` — the lexer of one line, and the parser around it;
* `Awaited` — the parameters that are read and those that come next are at most 14;
* `Awaited.lex`, `Awaited.shift`, `Awaited.reduce`, `Awaited.recover` — the parser keeps that;
* `linesShort_of_length_le` — a text of 14 characters has no more.
-/

/-- What `parameter` derives. -/
def isParameter : Token → Bool
  | .WORD _ => true
  | .STRING _ => true
  | _ => false

/-- The array of the arguments has room for that many, behind the name of the command. -/
def MAXPARAMS : Nat := 14

/-- At most 14 parameters in a row. -/
def ShortLine (l : Line) : Prop :=
  ∀ i, ((l.tokens.drop i).takeWhile isParameter).length ≤ MAXPARAMS

/-- At most 14 parameters in a row on every line. -/
def LinesShort (lexer : Scanner) : Prop := ∀ i, ∀ l ∈ firstLines i lexer, ShortLine l

/-- At most `n` parameters come next on the line, behind which `rest` characters are left. -/
def Room (rest : Nat) : Nat → Scanner → Prop
  | 0, s => rest ≤ (yylex s).2.text.length → isParameter (yylex s).1 = false
  | n + 1, s =>
    rest ≤ (yylex s).2.text.length → isParameter (yylex s).1 = true → Room rest n (yylex s).2

/-- The lexer behind `i` tokens. -/
def lexerAfter (i : Nat) (s : Scanner) : Scanner := (fun s => (yylex s).2)^[i] s

/-- At most 14 parameters in a row, up to the last `rest` characters. -/
def ShortRuns (rest : Nat) (s : Scanner) : Prop := ∀ i, Room rest MAXPARAMS (lexerAfter i s)

/-- The lexer of a line: it does not read the last `rest` characters. -/
def lexLine (rest : Nat) (s : Scanner) : Option (Token × Scanner) :=
  if rest ≤ (yylex s).2.text.length then some (yylex s) else none

/-- The parameters on the stack that go to the same command as the next one. -/
def pending : List (Nat × YYSTYPE) → Nat
  | (_, .arg pa) :: _ => pa.params.length
  | (_, .string _) :: (_, .arg pa) :: _ => pa.params.length + 1
  | _ => 0

/-- The parameters of a command, on the stack, in `yychar` and on the line, are at most 14. -/
structure Awaited (rest : Nat) (stack : List (Nat × YYSTYPE)) (char : Option Token)
    (s : Scanner) : Prop where
  runs : ShortRuns rest s
  pending_le : pending stack ≤ MAXPARAMS
  next : char = none → Room rest (MAXPARAMS - pending stack) s
  read : ∀ t, char = some t → isParameter t = true →
    pending stack < MAXPARAMS ∧ Room rest (MAXPARAMS - (pending stack + 1)) s

/-! ### Short texts -/

/-- The first line, and the lines behind it. -/
theorem LinesShort.rest {lexer : Scanner} (h : LinesShort lexer) :
    ShortLine (readLine lexer) ∧ LinesShort (readLine lexer).rest :=
  ⟨h 1 _ List.mem_cons_self, fun i l hl => h (i + 1) l (List.mem_cons_of_mem _ hl)⟩

/-- A line of 14 tokens has no more parameters. -/
theorem shortLine_of_length_le {l : Line} (h : l.tokens.length ≤ MAXPARAMS) : ShortLine l := by
  intro i
  have htake := (List.takeWhile_sublist (p := isParameter) (l := l.tokens.drop i)).length_le
  rw [List.length_drop] at htake
  omega

/-- **A text of 14 characters** has no more parameters. -/
theorem linesShort_of_length_le {lexer : Scanner} (h : lexer.text.length ≤ MAXPARAMS) :
    LinesShort lexer := by
  intro i
  induction i generalizing lexer with
  | zero => exact fun l hl => absurd hl (by simp [firstLines])
  | succ i ih =>
    have hlength := readLine_length lexer
    refine List.forall_mem_cons.mpr ⟨shortLine_of_length_le (by omega), ih (by omega)⟩

/-! ### Room -/

variable {rest : Nat}

/-- Room for `n` parameters is room for more. -/
theorem Room.mono {n m : Nat} {s : Scanner} (h : Room rest n s) (hle : n ≤ m) : Room rest m s := by
  induction n generalizing m s with
  | zero =>
    cases m with
    | zero => exact h
    | succ m => exact fun hin ht => absurd ht (by rw [h hin]; simp)
  | succ n ih =>
    cases m with
    | zero => omega
    | succ m => exact fun hin ht => ih (h hin ht) (by omega)

/-- Behind a token the parameters are no more. -/
theorem ShortRuns.behind {s : Scanner} (h : ShortRuns rest s) : ShortRuns rest (yylex s).2 :=
  fun i => h (i + 1)

/-- The lexer does not go back. -/
theorem length_yylex_le (s : Scanner) : (yylex s).2.text.length ≤ s.text.length := by
  by_cases heof : (yylex s).1 = .YEOF
  · rw [yylex_eof heof]
    simp
  · exact Nat.le_of_lt (yylex_shorter heof)

/-- Nor over several tokens. -/
theorem length_lexerAfter_le (i : Nat) (s : Scanner) :
    (lexerAfter i s).text.length ≤ s.text.length := by
  induction i generalizing s with
  | zero => exact Nat.le_refl _
  | succ i ih => exact Nat.le_trans (ih (yylex s).2) (length_yylex_le s)

/-- Behind the line only the end of the file leaves `rest` characters. -/
theorem room_of_text_le {n : Nat} {s : Scanner} (h : s.text.length ≤ rest) : Room rest n s := by
  have heof : rest ≤ (yylex s).2.text.length → isParameter (yylex s).1 = false := by
    intro hin
    have ht : (yylex s).1 = .YEOF := by
      by_contra hne
      have hshort := yylex_shorter hne
      omega
    rw [ht]
    rfl
  cases n with
  | zero => exact heof
  | succ n => exact fun hin ht => absurd ht (by rw [heof hin]; simp)

/-- The parameters in front of the tokens of a line need room, and nothing else does. -/
theorem room_of_reads {ts : List Token} {s s' : Scanner} {n : Nat}
    (hreads : Parser.Reads yylex s ts s') (h : (ts.takeWhile isParameter).length ≤ n) :
    Room s'.text.length n s := by
  induction ts generalizing s n with
  | nil =>
    obtain rfl : s = s' := hreads
    exact room_of_text_le (Nat.le_refl _)
  | cons t ts ih =>
    obtain ⟨rfl, hrest⟩ := hreads
    rw [List.takeWhile_cons] at h
    cases hparam : isParameter (yylex s).1 with
    | false =>
      cases n with
      | zero => exact fun _ => hparam
      | succ n => exact fun _ ht => absurd ht (by rw [hparam]; simp)
    | true =>
      rw [if_pos hparam, List.length_cons] at h
      cases n with
      | zero => omega
      | succ n => exact fun _ _ => ih hrest (by omega)

/-- What is said of the tokens of a line, for the lexer in front of it. -/
theorem shortRuns_of_reads {ts : List Token} {s s' : Scanner}
    (hreads : Parser.Reads yylex s ts s')
    (h : ∀ i, ((ts.drop i).takeWhile isParameter).length ≤ MAXPARAMS) :
    ShortRuns s'.text.length s := by
  intro i
  induction i generalizing s ts with
  | zero => exact room_of_reads hreads (h 0)
  | succ i ih =>
    cases ts with
    | nil =>
      obtain rfl : s = s' := hreads
      exact room_of_text_le (length_lexerAfter_le (i + 1) s)
    | cons t ts => exact ih hreads.2 fun i => h (i + 1)

/-- **The lexer in front of a short line.** -/
theorem ShortLine.shortRuns {s : Scanner} (h : ShortLine (readLine s)) :
    ShortRuns (readLine s).rest.text.length s := by
  refine shortRuns_of_reads (reads_readLine s).1 fun i => ?_
  -- the terminator is no parameter
  have hterminator : isParameter (readLine s).terminator = false := by
    rcases (readLine s).terminator_cases with ht | ht <;> rw [ht] <;> rfl
  have hlength : ((((readLine s).tokens.drop i) ++ [(readLine s).terminator].drop
      (i - (readLine s).tokens.length)).takeWhile isParameter).length ≤
      (((readLine s).tokens.drop i).takeWhile isParameter).length := by
    rw [List.takeWhile_append]
    split
    · have hnil : ([(readLine s).terminator].drop
          (i - (readLine s).tokens.length)).takeWhile isParameter = [] := by
        cases i - (readLine s).tokens.length with
        | zero => simp [hterminator]
        | succ k => simp
      rw [hnil, List.append_nil]
      exact Nat.le_of_eq (Eq.symm ‹_›)
    · exact Nat.le_refl _
  rw [Line.allTokens, List.drop_append]
  exact Nat.le_trans hlength (h i)

/-! ### The lexer of a line -/

/-- **The parser reads its line and no more**, so that it does with the lexer of the line what it
    does with the one of the text. -/
theorem run_lexLine {maxDepth fuel : Nat} {c : SkeletonConfig Token YYSTYPE (Scanner × Globals)}
    {r : SkeletonResult (Scanner × Globals)}
    (h : (ishParser.skeleton fun l => some (yylex l)).run maxDepth fuel c = .done r) :
    (ishParser.skeleton (lexLine r.state.1.text.length)).run maxDepth fuel c = .done r := by
  refine (ishParser.run_of_keeps maxDepth (fun s => r.state.1.text.length ≤ s.text.length) ?_ h
    (Nat.le_refl _)).1
  intro s t s' hs hkeep
  have hs' : yylex s = (t, s') := Option.some.inj hs
  have hlength := length_yylex_le s
  rw [hs'] at hlength
  refine ⟨?_, Nat.le_trans hkeep hlength⟩
  rw [lexLine, hs', if_pos hkeep]

/-- The lexer of a line does what the one of the text does, where it does anything. -/
theorem lexLine_eq_some {s : Scanner} {r : Token × Scanner} (h : lexLine rest s = some r) :
    r = yylex s ∧ rest ≤ (yylex s).2.text.length := by
  rw [lexLine] at h
  split at h
  · exact ⟨(Option.some.inj h).symm, ‹_›⟩
  · cases h

/-! ### What the parser does -/

/-- **A token is read** from the line. -/
theorem Awaited.lex {stack : List (Nat × YYSTYPE)} {s : Scanner} (h : Awaited rest stack none s)
    (hin : rest ≤ (yylex s).2.text.length) :
    Awaited rest stack (some (yylex s).1) (yylex s).2 := by
  refine ⟨h.runs.behind, h.pending_le, fun hnone => absurd hnone (by simp), ?_⟩
  intro t ht hparam
  obtain rfl := Option.some.inj ht
  have hroom := h.next rfl
  have hle := h.pending_le
  -- a parameter needs room
  cases hn : MAXPARAMS - pending stack with
  | zero =>
    rw [hn] at hroom
    exact absurd hparam (by rw [hroom hin]; simp)
  | succ n =>
    rw [hn] at hroom
    exact ⟨by omega, (hroom hin hparam).mono (by omega)⟩

/-- With less on the stack there is more room. -/
theorem Awaited.of_pending_le {stack stack' : List (Nat × YYSTYPE)} {c : Option Token} {s : Scanner}
    (h : Awaited rest stack c s) (hle : pending stack' ≤ pending stack) : Awaited rest stack' c s where
  runs := h.runs
  pending_le := Nat.le_trans hle h.pending_le
  next hc := (h.next hc).mono (by omega)
  read t ht hparam := by
    obtain ⟨hlt, hroom⟩ := h.read t ht hparam
    exact ⟨by omega, hroom.mono (by omega)⟩

/-- Behind an error the token is kept or dropped. -/
theorem Awaited.recover {stack stack' : List (Nat × YYSTYPE)} {c c' : Option Token} {s : Scanner}
    (h : Awaited rest stack c s) (hzero : pending stack' = 0) (hc : c' = c ∨ c' = none) :
    Awaited rest stack' c' s := by
  rcases hc with rfl | rfl
  · exact h.of_pending_le (by omega)
  · refine ⟨h.runs, by omega, fun _ => ?_, fun t ht => absurd ht (by simp)⟩
    rw [hzero]
    exact h.runs 0

/-- Only `parameters` has arguments as its value. -/
theorem symbol_of_hasType_arg {x : Nat} {pa : Args} (h : HasType x (.arg pa)) : x = 34 := by
  unfold HasType at h
  split at h <;> simp_all

/-- Only these symbols have a string as their value. -/
theorem symbol_of_hasType_string {x : Nat} {z : String} (h : HasType x (.string z)) :
    x = 3 ∨ x = 4 ∨ x = 5 ∨ x = 15 ∨ x = 35 := by
  unfold HasType at h
  split at h <;> simp_all

/-- Behind `parameters` neither a name of a command nor one of a file is shifted. -/
theorem isParameter_of_shift {p q : Nat} {t : Token} {z : String}
    (hp : ishCertificate.symbol p = 34) (hq : q ∈ ishCertificate.next p)
    (hsymbol : ishCertificate.symbol q = yytranslate t) (hz : yylval t = .string z) :
    isParameter t = true := by
  have hall : ∀ p < 42, ishCertificate.symbol p = 34 → ∀ q ∈ ishCertificate.next p,
      ishCertificate.symbol q ≠ 4 ∧ ishCertificate.symbol q ≠ 5 := by
    decide
  obtain ⟨hcommand, hfile⟩ := hall p (Certificate.lt_of_mem_next hq) hp q hq
  rw [hsymbol] at hcommand hfile
  cases t with
  | COMMAND s => exact absurd rfl hcommand
  | FILENAME s => exact absurd rfl hfile
  | WORD s => rfl
  | STRING s => rfl
  | _ => cases hz

/-- A shift waits with one parameter more, or with none. -/
theorem pending_shift {stack : List (Nat × YYSTYPE)} {t : Token} {q : Nat}
    (htyped : Typed ishCertificate HasType ((q, yylval t) :: stack))
    (hsymbol : ishCertificate.symbol q = yytranslate t) :
    pending ((q, yylval t) :: stack) = 0 ∨
      pending ((q, yylval t) :: stack) = pending stack + 1 ∧ isParameter t = true := by
  cases hz : yylval t with
  | arg pa => cases t <;> cases hz
  | cmd pc => exact Or.inl rfl
  | redir r => exact Or.inl rfl
  | integer n => exact Or.inl rfl
  | none => exact Or.inl rfl
  | string z =>
    cases stack with
    | nil => exact Or.inl rfl
    | cons e stack =>
      obtain ⟨p, v⟩ := e
      cases v with
      | arg pa =>
        refine Or.inr ⟨rfl, ?_⟩
        obtain ⟨hbelow, hedge, -⟩ := htyped.last
        exact isParameter_of_shift (symbol_of_hasType_arg hbelow.last.2.2) hedge hsymbol hz
      | _ => exact Or.inl rfl

/-- **A token is shifted.** -/
theorem Awaited.shift {stack : List (Nat × YYSTYPE)} {t : Token} {s : Scanner} {q : Nat}
    (h : Awaited rest stack (some t) s)
    (htyped : Typed ishCertificate HasType ((q, yylval t) :: stack))
    (hsymbol : ishCertificate.symbol q = yytranslate t) :
    Awaited rest ((q, yylval t) :: stack) none s := by
  rcases pending_shift htyped hsymbol with hzero | ⟨hsucc, hparam⟩
  · refine ⟨h.runs, by omega, fun _ => ?_, fun t ht => absurd ht (by simp)⟩
    rw [hzero]
    exact h.runs 0
  · obtain ⟨hlt, hroom⟩ := h.read t rfl hparam
    refine ⟨h.runs, by omega, fun _ => ?_, fun t ht => absurd ht (by simp)⟩
    rw [hsucc]
    exact hroom

/-- Which parameter is on top does not matter. -/
theorem pending_string (p q : Nat) (y z : String) (stack : List (Nat × YYSTYPE)) :
    pending ((p, .string y) :: stack) = pending ((q, .string z) :: stack) := by
  cases stack with
  | nil => rfl
  | cons e stack =>
    obtain ⟨r, v⟩ := e
    cases v <;> rfl

/-- The top of a stack, from its value. -/
theorem stack_of_values_one {V : Type*} {stack : List (Nat × V)} {v : V}
    (h : (stack.take 1).reverse.map Prod.snd = [v]) : ∃ q below, stack = (q, v) :: below := by
  cases stack with
  | nil => cases h
  | cons e stack =>
    obtain ⟨q, v'⟩ := e
    obtain ⟨rfl, -⟩ := List.cons.inj h
    exact ⟨q, stack, rfl⟩

/-- The two upper entries of a stack, from their values. -/
theorem stack_of_values_two {V : Type*} {stack : List (Nat × V)} {v₁ v₂ : V}
    (h : (stack.take 2).reverse.map Prod.snd = [v₁, v₂]) :
    ∃ q₂ q₁ below, stack = (q₂, v₂) :: (q₁, v₁) :: below := by
  match stack, h with
  | (q₂, v₂') :: (q₁, v₁') :: below, h =>
    obtain ⟨rfl, h'⟩ := List.cons.inj h
    obtain ⟨rfl, -⟩ := List.cons.inj h'
    exact ⟨q₂, q₁, below, rfl⟩

/-- The rules for `parameters` and for `parameter`. -/
theorem rule_of_r1 {n : Nat} :
    (parserTables.r1.getD n 0 = 34 → n = 29 ∨ n = 30) ∧
      (parserTables.r1.getD n 0 = 3 ∨ parserTables.r1.getD n 0 = 4 ∨ parserTables.r1.getD n 0 = 5 ∨
        parserTables.r1.getD n 0 = 15 ∨ parserTables.r1.getD n 0 = 35 → n = 31 ∨ n = 32) := by
  by_cases hn : n < 33
  · have hall : ∀ n < 33, (parserTables.r1.getD n 0 = 34 → n = 29 ∨ n = 30) ∧
        (parserTables.r1.getD n 0 = 3 ∨ parserTables.r1.getD n 0 = 4 ∨
          parserTables.r1.getD n 0 = 5 ∨ parserTables.r1.getD n 0 = 15 ∨
          parserTables.r1.getD n 0 = 35 → n = 31 ∨ n = 32) := by
      decide
    exact hall n hn
  · have hzero : parserTables.r1.getD n 0 = 0 := List.getD_eq_default _ _ (Nat.le_of_not_lt hn)
    rw [hzero]
    omega

section
variable {L : Type*} {lex : L → Option (Token × L)} {n : Nat} {stack : List (Nat × YYSTYPE)}
  {g : Globals}

/-- A reduction makes of a parameter on the stack one of the arguments. -/
theorem pending_reduced (h : (ishParser.skeleton lex).Popped ishCertificate HasType n stack)
    (hgo : (userAction n ((ishParser.skeleton lex).values n stack) g).2.2 = false) :
    pending ((ishParser.skeleton lex).reduced n
      (userAction n ((ishParser.skeleton lex).values n stack) g).1 stack) ≤ pending stack := by
  have hv := hasType_userAction n g h.values hgo
  have hvalues := h.values
  generalize hvs : (ishParser.skeleton lex).values n stack = vs at hv hvalues
  rw [Skeleton.values] at hvs
  rw [Skeleton.reduced]
  cases hact : (userAction n vs g).1 with
  | arg pa =>
    rw [hact] at hv
    rcases rule_of_r1.1 (symbol_of_hasType_arg hv) with rfl | rfl
    · obtain ⟨_, _, rfl, ⟨pa₁, rfl⟩, s, rfl⟩ := forall₂_two hvalues
      obtain ⟨q₂, q₁, below, rfl⟩ := stack_of_values_two hvs
      obtain rfl : appendArgument pa₁ s = pa := YYSTYPE.arg.inj hact
      show (pa₁.params ++ [s]).length ≤ pa₁.params.length + 1
      rw [List.length_append, List.length_singleton]
    · obtain rfl := List.forall₂_nil_left_iff.mp hvalues
      obtain rfl : createArguments none = pa := YYSTYPE.arg.inj hact
      exact Nat.zero_le _
  | string z =>
    rw [hact] at hv
    -- the value stays what it is
    rcases rule_of_r1.2 (symbol_of_hasType_string hv) with rfl | rfl
    · obtain ⟨_, rfl, s, rfl⟩ := forall₂_one hvalues
      obtain ⟨q, below, rfl⟩ := stack_of_values_one hvs
      exact Nat.le_of_eq (pending_string _ q z s below)
    · obtain ⟨_, rfl, s, rfl⟩ := forall₂_one hvalues
      obtain ⟨q, below, rfl⟩ := stack_of_values_one hvs
      exact Nat.le_of_eq (pending_string _ q z s below)
  | _ => exact Nat.zero_le _

/-- **A reduction** waits with no more parameters. -/
theorem Awaited.reduce {c : Option Token} {s : Scanner} (hstack : Awaited rest stack c s)
    (h : (ishParser.skeleton lex).Popped ishCertificate HasType n stack)
    (hgo : (userAction n ((ishParser.skeleton lex).values n stack) g).2.2 = false) :
    Awaited rest ((ishParser.skeleton lex).reduced n
      (userAction n ((ishParser.skeleton lex).values n stack) g).1 stack) c s :=
  hstack.of_pending_le (pending_reduced h hgo)

/-- **There is room** for the parameter that is appended. -/
theorem Awaited.params_lt {c : Option Token} {s : Scanner} (hstack : Awaited rest stack c s)
    {pa : Args} {z : String}
    (hvalues : (ishParser.skeleton lex).values 29 stack = [.arg pa, .string z]) :
    pa.params.length < MAXPARAMS := by
  obtain ⟨q₂, q₁, below, rfl⟩ := stack_of_values_two hvalues
  exact hstack.pending_le

end

end OSPortfolio.Ish
