import Mathlib.Data.List.Basic

namespace OSPortfolio.Ish

/-!
# The lexer

`lexer.l`: the character classes, the pattern `word`, the rules with their start conditions,
and `copyEscapedString`.

* `Token` — the tokens of `parser.y`, with the string the lexer leaves in `yylval`;
* `scanWord` — the longest prefix of the text that the pattern `word` matches;
* `yylex` — one call: the longest match wins, and of two rules that match it the first;
* `tokens` — what repeated calls return up to the end of the file.

The line an invalid character prints is left out.
-/

/-! ### Tokens -/

/-- The tokens of `parser.y`. -/
inductive Token
  | WORD (s : String)
  | COMMAND (s : String)
  | FILENAME (s : String)
  | BACKGROUND
  | PIPE
  | PIPE_ERROR
  | SEMICOLON
  | REDIRECT_IN
  | REDIRECT_OUT
  | REDIRECT_ERROR
  | APPEND
  | APPEND_ERROR
  | STRING (s : String)
  | LOGICAL_AND
  | LOGICAL_OR
  | EOLN
  | YEOF
  deriving DecidableEq, Repr

/-- The start conditions of the lexer. -/
inductive StartCond
  | INITIAL
  | PARAM
  | FNAME
  deriving DecidableEq, Repr

/-- The lexer between two calls: its start condition and the text not read yet. -/
structure Scanner where
  start : StartCond
  text : List Char
  deriving DecidableEq, Repr

/-! ### Character classes -/

def isSeparator (c : Char) : Bool := c = '&' || c = '|' || c = ';'

def isSpaces (c : Char) : Bool := c = ' ' || c = '\t'

def isQuotes (c : Char) : Bool := c = '"' || c = '\''

def isRedirect (c : Char) : Bool := c = '<' || c = '>'

/-- `[+,%_#@$.*/:!?-]` -/
def isOthers (c : Char) : Bool :=
  c ∈ ['+', ',', '%', '_', '#', '@', '$', '.', '*', '/', ':', '!', '?', '-']

/-- `{alpha}|{number}|{others}`: what stands in a word as it is. -/
def isPlain (c : Char) : Bool := c.isAlpha || c.isDigit || isOthers c

/-- What may follow the backslash of `backspecial`. -/
def isBackspecial (c : Char) : Bool :=
  isSeparator c || isRedirect c || c = '\n' || isSpaces c || isPlain c || c = '\\' || isQuotes c

/-- The single characters of `{nonquotes}|{sq}` and of `{nonquotes}|{dq}`: what may stand
    between two quotes, of either kind. -/
def isQuotable (c : Char) : Bool :=
  isPlain c || isSpaces c || c = '\n' || isRedirect c || isQuotes c

/-! ### Words -/

/-- The length of the longest prefix of the text that ends a word, inside a sequence quoted
    with `q` or, for `none`, outside; there is none if the quote is not closed.  Outside, the
    word may end anywhere. -/
def scanWord : Option Char → List Char → Option Nat
  | none, [] => some 0
  | some _, [] => none
  | none, '\\' :: d :: cs => if isBackspecial d then (scanWord none cs).map (· + 2) else some 0
  | some q, '\\' :: d :: cs =>
    if isBackspecial d then (scanWord (some q) cs).map (· + 2) else none
  | none, c :: cs =>
    if isPlain c then (scanWord none cs).map (· + 1)
    -- a quote that is not closed is not part of the word
    else if isQuotes c then some (((scanWord (some c) cs).map (· + 1)).getD 0)
    else some 0
  | some q, c :: cs =>
    if c = q then (scanWord none cs).map (· + 1)
    else if isQuotable c then (scanWord (some q) cs).map (· + 1)
    else none

/-- The length of the longest prefix that the pattern `word` matches. -/
def wordLength (cs : List Char) : Nat := (scanWord none cs).getD 0

/-- The loop of `copyEscapedString` at a character, with `quotechar` (0 is `none`).  At the
    terminator nothing but a terminator is copied. -/
def copyEscaped : Option Char → List Char → List Char
  | _, [] => []
  -- a backslash in front of the terminator: the terminator is copied, and the loop ends
  | none, ['\\'] => []
  | none, '\\' :: d :: cs => d :: copyEscaped none cs
  | none, c :: cs => if isQuotes c then copyEscaped (some c) cs else c :: copyEscaped none cs
  | some q, c :: cs => if c = q then copyEscaped none cs else c :: copyEscaped (some q) cs

/-- `copyEscapedString(yytext)`. -/
def copyEscapedString (yytext : List Char) : String := String.ofList (copyEscaped none yytext)

/-! ### The rules -/

/-- The three rules for `{word}`: the token, and the start condition they begin. -/
def wordRule : StartCond → String → Token × StartCond
  | .INITIAL, s => (.COMMAND s, .PARAM)
  | .FNAME, s => (.FILENAME s, .PARAM)
  | .PARAM, s => (.WORD s, .PARAM)

/-- The rules from `[>][>][&]` to `\n`, longest first: the token, the length of the match, and
    the start condition it begins. -/
def operatorRule : List Char → Option (Token × Nat × StartCond)
  | '>' :: '>' :: '&' :: _ => some (.APPEND_ERROR, 3, .FNAME)
  | '>' :: '>' :: _ => some (.APPEND, 2, .FNAME)
  | '|' :: '&' :: _ => some (.PIPE_ERROR, 2, .INITIAL)
  | '>' :: '&' :: _ => some (.REDIRECT_ERROR, 2, .FNAME)
  | '<' :: _ => some (.REDIRECT_IN, 1, .FNAME)
  | '>' :: _ => some (.REDIRECT_OUT, 1, .FNAME)
  | '|' :: '|' :: _ => some (.LOGICAL_OR, 2, .INITIAL)
  | '&' :: '&' :: _ => some (.LOGICAL_AND, 2, .INITIAL)
  | '&' :: _ => some (.BACKGROUND, 1, .INITIAL)
  | '|' :: _ => some (.PIPE, 1, .INITIAL)
  | ';' :: _ => some (.SEMICOLON, 1, .INITIAL)
  | '\n' :: _ => some (.EOLN, 1, .INITIAL)
  | _ => none

/-- `yylex()` in the start condition `start`.  No operator starts a word, so the order of the
    two tests does not matter; a character that starts neither is a blank or invalid, and is
    passed over. -/
def yylexFrom (start : StartCond) : List Char → Token × Scanner
  | [] => (.YEOF, ⟨.INITIAL, []⟩)
  | c :: cs =>
    if wordLength (c :: cs) ≠ 0 then
      let n := wordLength (c :: cs)
      let r := wordRule start (copyEscapedString ((c :: cs).take n))
      (r.1, ⟨r.2, (c :: cs).drop n⟩)
    else
      match operatorRule (c :: cs) with
      | some (t, n, start') => (t, ⟨start', (c :: cs).drop n⟩)
      | none => yylexFrom start cs

/-- `yylex()`. -/
def yylex (s : Scanner) : Token × Scanner := yylexFrom s.start s.text

/-! ### The tokens of a text -/

/-- No rule but the one for the end of the file returns `YEOF`, and each takes a character. -/
theorem operatorRule_spec {cs : List Char} {t : Token} {n : Nat} {start : StartCond}
    (h : operatorRule cs = some (t, n, start)) : t ≠ .YEOF ∧ 0 < n := by
  unfold operatorRule at h
  split at h
  all_goals simp only [Option.some.injEq, Prod.mk.injEq, reduceCtorEq] at h
  all_goals
    obtain ⟨rfl, rfl, -⟩ := h
    decide

theorem wordRule_ne_YEOF (start : StartCond) (s : String) : (wordRule start s).1 ≠ .YEOF := by
  cases start <;> simp [wordRule]

/-- A call reads something, or returns `YEOF` with the text used up. -/
theorem yylexFrom_progress (start : StartCond) (cs : List Char) :
    (yylexFrom start cs).1 = .YEOF ∧ (yylexFrom start cs).2 = ⟨.INITIAL, []⟩ ∨
      (yylexFrom start cs).1 ≠ .YEOF ∧ (yylexFrom start cs).2.text.length < cs.length := by
  induction cs with
  | nil => exact Or.inl ⟨rfl, rfl⟩
  | cons c cs ih =>
    unfold yylexFrom
    split
    · rename_i hword
      refine Or.inr ⟨wordRule_ne_YEOF _ _, ?_⟩
      simp only [List.length_drop, List.length_cons]
      omega
    · split
      · rename_i t n start' hop
        obtain ⟨hne, hpos⟩ := operatorRule_spec hop
        refine Or.inr ⟨hne, ?_⟩
        simp only [List.length_drop, List.length_cons]
        omega
      -- a character passed over makes the text shorter as well
      · rcases ih with h | ⟨hne, hlt⟩
        · exact Or.inl h
        · exact Or.inr ⟨hne, Nat.lt_succ_of_lt hlt⟩

/-- A call that returns another token than `YEOF` shortens the text. -/
theorem yylex_shorter {s : Scanner} (h : (yylex s).1 ≠ .YEOF) :
    (yylex s).2.text.length < s.text.length := by
  rcases yylexFrom_progress s.start s.text with ⟨heof, -⟩ | ⟨-, hlt⟩
  · exact absurd heof h
  · exact hlt

/-- A newline begins `INITIAL`. -/
theorem yylexFrom_eoln {start : StartCond} {cs : List Char}
    (h : (yylexFrom start cs).1 = .EOLN) : (yylexFrom start cs).2.start = .INITIAL := by
  induction cs with
  | nil => rfl
  | cons c cs ih =>
    unfold yylexFrom at h ⊢
    split at h
    · cases start <;> simp [wordRule] at h
    · rename_i hword
      rw [if_neg hword]
      split at h
      · rename_i t n start' hop
        obtain rfl : t = .EOLN := h
        unfold operatorRule at hop
        split at hop <;> simp_all
      · exact ih h

theorem yylex_eoln {s : Scanner} (h : (yylex s).1 = .EOLN) : (yylex s).2.start = .INITIAL :=
  yylexFrom_eoln h

/-- At the end of the file the lexer is back in `INITIAL`. -/
theorem yylex_eof {s : Scanner} (h : (yylex s).1 = .YEOF) : (yylex s).2 = ⟨.INITIAL, []⟩ := by
  rcases yylexFrom_progress s.start s.text with ⟨-, heof⟩ | ⟨hne, -⟩
  · exact heof
  · exact absurd h hne

/-- The first `fuel` tokens before `YEOF`. -/
def tokensUpTo : Nat → Scanner → List Token
  | 0, _ => []
  | fuel + 1, s =>
    if (yylex s).1 = .YEOF then [] else (yylex s).1 :: tokensUpTo fuel (yylex s).2

/-- The tokens that repeated calls return, up to the `YEOF` at the end of the file. -/
def tokens (s : Scanner) : List Token := tokensUpTo (s.text.length + 1) s

theorem tokensUpTo_of_lt {fuel : Nat} {s : Scanner} (h : s.text.length < fuel) :
    tokensUpTo fuel s = tokens s := by
  -- two bounds that are both large enough give the same tokens
  have key : ∀ n m (s : Scanner), s.text.length < n → s.text.length < m →
      tokensUpTo n s = tokensUpTo m s := by
    intro n
    induction n with
    | zero => intro m s hn; omega
    | succ n ih =>
      intro m s hn hm
      obtain ⟨m, rfl⟩ : ∃ m', m = m' + 1 := ⟨m - 1, by omega⟩
      unfold tokensUpTo
      split
      · rfl
      · rename_i hne
        have hlt := yylex_shorter hne
        rw [ih m _ (by omega) (by omega)]
  exact key _ _ s h (Nat.lt_succ_self _)

/-- The tokens of a text, one call after the other. -/
theorem tokens_eq (s : Scanner) :
    tokens s = if (yylex s).1 = .YEOF then [] else (yylex s).1 :: tokens (yylex s).2 := by
  conv_lhs => rw [tokens, tokensUpTo]
  split
  · rfl
  · rename_i hne
    rw [tokensUpTo_of_lt (yylex_shorter hne)]

end OSPortfolio.Ish
