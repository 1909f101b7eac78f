import OSPortfolio.Lib.Flex
import OSPortfolio.Ish.Words

namespace OSPortfolio.Ish

open OSPortfolio.Flex

/-!
# The generated scanner

`lex.yy.c`: the tables that flex computed from `lexer.l`, and the actions of the rules.  The
scanner around them is the one of `Lib/Flex.lean`; the tables keep their order in the file.

* `lexTables`, `lexTables_valid` — the tables, and their check;
* `lexAction`, `yylexYy` — the actions, and one call of `yylex`;
* `Mode`, `longest_mode` — what the states inside of words match;
* `longest_spec` — **the tables find the match that the rules of `lexer.l` ask for**;
* `yylexYy_spec` — **the generated scanner reads what the lexer reads**, however the reads
  divide the text.
-/

/-! ### The tables -/

/-- The tables of `lex.yy.c`. -/
def lexTables : Tables where
  accept :=
    table [[1, 1, 3, 3, 2, 2, 19, 17, 16, 15], [1, 17, 12, 17, 14, 8, 9, 17, 13, 3],
      [17, 17, 17, 2, 17, 17, 17, 16, 1, 0], [0, 0, 0, 0, 11, 0, 0, 7, 5, 1],
      [1, 6, 10, 3, 0, 0, 0, 0, 0, 0], [0, 3, 3, 2, 0, 0, 0, 0, 0, 0],
      [0, 2, 2, 0, 0, 0, 0, 4, 0, 0], [0, 0, 0, 0, 0, 0, 0]]
  ec :=
    table [[1, 1, 1, 1, 1, 1, 1, 1, 2, 3], [1, 1, 1, 1, 1, 1, 1, 1, 1, 1],
      [1, 1, 1, 1, 1, 1, 1, 1, 1, 1], [1, 2, 4, 5, 4, 4, 4, 6, 7, 1],
      [1, 4, 4, 4, 4, 4, 4, 8, 8, 8], [8, 8, 8, 8, 8, 8, 8, 4, 9, 10],
      [1, 11, 4, 4, 12, 12, 12, 12, 12, 12], [12, 12, 12, 12, 12, 12, 12, 12, 12, 12],
      [12, 12, 12, 12, 12, 12, 12, 12, 12, 12], [1, 13, 1, 1, 4, 1, 12, 12, 12, 12],
      [12, 12, 12, 12, 12, 12, 12, 12, 12, 12], [12, 12, 12, 12, 12, 12, 12, 12, 12, 12],
      [12, 12, 1, 14, 1, 1, 1, 1, 1, 1], [1, 1, 1, 1, 1, 1, 1, 1, 1, 1],
      [1, 1, 1, 1, 1, 1, 1, 1, 1, 1], [1, 1, 1, 1, 1, 1, 1, 1, 1, 1],
      [1, 1, 1, 1, 1, 1, 1, 1, 1, 1], [1, 1, 1, 1, 1, 1, 1, 1, 1, 1],
      [1, 1, 1, 1, 1, 1, 1, 1, 1, 1], [1, 1, 1, 1, 1, 1, 1, 1, 1, 1],
      [1, 1, 1, 1, 1, 1, 1, 1, 1, 1], [1, 1, 1, 1, 1, 1, 1, 1, 1, 1],
      [1, 1, 1, 1, 1, 1, 1, 1, 1, 1], [1, 1, 1, 1, 1, 1, 1, 1, 1, 1],
      [1, 1, 1, 1, 1, 1, 1, 1, 1, 1], [1, 1, 1, 1, 1]]
  metaEc :=
    table [[1, 1, 1, 1, 1, 1, 1, 1, 1, 1], [1, 1, 1, 1]]
  base :=
    table [[0, 0, 11, 0, 21, 0, 31, 254, 28, 254], [31, 43, 21, 55, 254, 254, 11, 67, 26, 78],
      [90, 102, 114, 125, 137, 149, 161, 19, 0, 0], [0, 0, 0, 174, 254, 0, 187, 254, 14, 0],
      [0, 254, 254, 0, 0, 0, 0, 0, 200, 0], [213, 0, 0, 0, 0, 0, 0, 0, 226, 0],
      [239, 0, 0, 0, 0, 0, 0, 254, 0, 0], [0, 0, 0, 0, 0, 0, 254]]
  dflt :=
    table [[77, 1, 1, 3, 3, 5, 77, 77, 77, 77], [77, 77, 77, 77, 77, 77, 77, 77, 77, 77],
      [77, 77, 77, 77, 77, 77, 77, 77, 11, 12], [14, 18, 12, 77, 77, 14, 77, 77, 77, 11],
      [11, 77, 77, 20, 21, 22, 23, 21, 77, 22], [77, 20, 20, 24, 25, 26, 27, 25, 77, 26],
      [77, 24, 24, 12, 12, 14, 14, 77, 21, 21], [22, 22, 25, 25, 26, 26, 0]]
  nxt :=
    table [[8, 9, 10, 11, 12, 13, 14, 11, 15, 16], [17, 11, 18, 19, 20, 21, 38, 22, 20, 68],
      [28, 39, 20, 23, 24, 25, 35, 26, 24, 28], [77, 42, 24, 27, 29, 30, 77, 31, 29, 43],
      [77, 77, 29, 32, 33, 33, 33, 29, 77, 33], [33, 77, 33, 33, 33, 34, 36, 36, 36, 36],
      [77, 29, 36, 77, 36, 36, 36, 37, 40, 40], [40, 40, 41, 40, 40, 40, 40, 40, 40, 40],
      [40, 44, 45, 77, 46, 44, 77, 77, 77, 44], [47, 48, 48, 48, 44, 77, 48, 48, 77, 48],
      [48, 48, 49, 50, 50, 50, 50, 77, 44, 50], [77, 50, 50, 50, 51, 52, 52, 52, 52, 53],
      [52, 52, 52, 52, 52, 52, 52, 52, 54, 55], [77, 56, 54, 77, 77, 77, 54, 57, 58, 58],
      [58, 54, 77, 58, 58, 77, 58, 58, 58, 59], [60, 60, 60, 60, 77, 54, 60, 77, 60, 60],
      [60, 61, 62, 62, 62, 62, 63, 62, 62, 62], [62, 62, 62, 62, 62, 64, 64, 64, 64, 65],
      [64, 64, 64, 64, 64, 64, 64, 64, 66, 66], [66, 66, 67, 66, 66, 66, 66, 66, 66, 66],
      [66, 69, 69, 69, 69, 70, 69, 69, 69, 69], [69, 69, 69, 69, 71, 71, 71, 71, 72, 71],
      [71, 71, 71, 71, 71, 71, 71, 73, 73, 73], [73, 74, 73, 73, 73, 73, 73, 73, 73, 73],
      [75, 75, 75, 75, 76, 75, 75, 75, 75, 75], [75, 75, 75, 7, 77, 77, 77, 77, 77, 77],
      [77, 77, 77, 77, 77, 77, 77, 77]]
  chk :=
    table [[1, 1, 1, 1, 1, 1, 1, 1, 1, 1], [1, 1, 1, 1, 3, 3, 17, 3, 3, 39],
      [28, 17, 3, 3, 5, 5, 13, 5, 5, 9], [7, 19, 5, 5, 11, 11, 0, 11, 11, 19],
      [0, 0, 11, 11, 12, 12, 12, 12, 0, 12], [12, 0, 12, 12, 12, 12, 14, 14, 14, 14],
      [0, 14, 14, 0, 14, 14, 14, 14, 18, 18], [18, 18, 18, 18, 18, 18, 18, 18, 18, 18],
      [18, 20, 20, 0, 20, 20, 0, 0, 0, 20], [20, 21, 21, 21, 21, 0, 21, 21, 0, 21],
      [21, 21, 21, 22, 22, 22, 22, 0, 22, 22], [0, 22, 22, 22, 22, 23, 23, 23, 23, 23],
      [23, 23, 23, 23, 23, 23, 23, 23, 24, 24], [0, 24, 24, 0, 0, 0, 24, 24, 25, 25],
      [25, 25, 0, 25, 25, 0, 25, 25, 25, 25], [26, 26, 26, 26, 0, 26, 26, 0, 26, 26],
      [26, 26, 27, 27, 27, 27, 27, 27, 27, 27], [27, 27, 27, 27, 27, 34, 34, 34, 34, 34],
      [34, 34, 34, 34, 34, 34, 34, 34, 37, 37], [37, 37, 37, 37, 37, 37, 37, 37, 37, 37],
      [37, 49, 49, 49, 49, 49, 49, 49, 49, 49], [49, 49, 49, 49, 51, 51, 51, 51, 51, 51],
      [51, 51, 51, 51, 51, 51, 51, 59, 59, 59], [59, 59, 59, 59, 59, 59, 59, 59, 59, 59],
      [61, 61, 61, 61, 61, 61, 61, 61, 61, 61], [61, 61, 61, 77, 77, 77, 77, 77, 77, 77],
      [77, 77, 77, 77, 77, 77, 77, 77]]
  lastDfa := 78
  classes := 15
  tableSize := 269
  jamState := 77
  jamBase := 254
  endOfBuffer := 19

/-- `1 + 2 * start`: the state for a start condition. -/
def StartCond.state : StartCond → Nat
  | .INITIAL => 1
  | .PARAM => 3
  | .FNAME => 5

/-- The tables are well formed in each start condition. -/
theorem lexTables_valid : lexTables.Valid [1, 3, 5] := by decide +kernel

/-! ### The actions -/

/-- A character as the lexer of `Lexer.lean` has it. -/
def byteChar (b : UInt8) : Char := Char.ofNat b.toNat

/-- The `switch` over `yy_act`: the token that the action returns, if it does, and the start
    condition it leaves. -/
def lexAction (start : StartCond) (yytext : List Char) : Nat → Option Token × StartCond
  | 1 => (some (.COMMAND (copyEscapedString yytext)), .PARAM)
  | 2 => (some (.FILENAME (copyEscapedString yytext)), .PARAM)
  | 3 => (some (.WORD (copyEscapedString yytext)), start)
  | 4 => (some .APPEND_ERROR, .FNAME)
  | 5 => (some .APPEND, .FNAME)
  | 6 => (some .PIPE_ERROR, .INITIAL)
  | 7 => (some .REDIRECT_ERROR, .FNAME)
  | 8 => (some .REDIRECT_IN, .FNAME)
  | 9 => (some .REDIRECT_OUT, .FNAME)
  | 10 => (some .LOGICAL_OR, .INITIAL)
  | 11 => (some .LOGICAL_AND, .INITIAL)
  | 12 => (some .BACKGROUND, .INITIAL)
  | 13 => (some .PIPE, .INITIAL)
  | 14 => (some .SEMICOLON, .INITIAL)
  | 15 => (some .EOLN, .INITIAL)
  -- blanks, an invalid character, and the default rule
  | _ => (none, start)

/-- The loop of `yylex`, at most `fuel` rounds of it. -/
def yylexLoop (requests : Nat → Nat) : Nat → StartCond → Buffer →
    Option (Token × StartCond × Buffer)
  | 0, _, _ => none
  | fuel + 1, start, buf =>
    match lexTables.scan requests start.state buf with
    | none => none
    | some (.eof buf) => some (.YEOF, .INITIAL, buf)
    | some (.rule act yytext buf) =>
      match lexAction start (yytext.map byteChar) act with
      | (some t, start) => some (t, start, buf)
      | (none, start) => yylexLoop requests fuel start buf

/-- `yylex()`: each round but the last passes over a character. -/
def yylexYy (requests : Nat → Nat) (start : StartCond) (buf : Buffer) :
    Option (Token × StartCond × Buffer) :=
  yylexLoop requests (buf.text.length + 1) start buf

/-! ### The characters -/

/-- The class of a character says what the rules ask about it. -/
structure CharClass (c : Nat) (d : Char) : Prop where
  range : 0 < c ∧ c < 15
  isSpaces : isSpaces d = true ↔ c = 2
  eoln : d = '\n' ↔ c = 3
  amp : d = '&' ↔ c = 6
  semicolon : d = ';' ↔ c = 9
  lt : d = '<' ↔ c = 10
  gt : d = '>' ↔ c = 11
  bar : d = '|' ↔ c = 14
  isPlain : isPlain d = true ↔ c = 4 ∨ c = 8 ∨ c = 12
  dq : d = '"' ↔ c = 5
  sq : d = '\'' ↔ c = 7
  backslash : d = '\\' ↔ c = 13
  isBackspecial : isBackspecial d = true ↔ c ≠ 1
  isQuotable : isQuotable d = true ↔ c ∈ [2, 3, 4, 5, 7, 8, 10, 11, 12]

instance (c : Nat) (d : Char) : Decidable (CharClass c d) :=
  decidable_of_iff (_ ∧ _ ∧ _ ∧ _ ∧ _ ∧ _ ∧ _ ∧ _ ∧ _ ∧ _ ∧ _ ∧ _ ∧ _ ∧ _)
    ⟨fun ⟨h₁, h₂, h₃, h₄, h₅, h₆, h₇, h₈, h₉, h₁₀, h₁₁, h₁₂, h₁₃, h₁₄⟩ =>
      ⟨h₁, h₂, h₃, h₄, h₅, h₆, h₇, h₈, h₉, h₁₀, h₁₁, h₁₂, h₁₃, h₁₄⟩,
    fun ⟨h₁, h₂, h₃, h₄, h₅, h₆, h₇, h₈, h₉, h₁₀, h₁₁, h₁₂, h₁₃, h₁₄⟩ =>
      ⟨h₁, h₂, h₃, h₄, h₅, h₆, h₇, h₈, h₉, h₁₀, h₁₁, h₁₂, h₁₃, h₁₄⟩⟩

/-- The class of a byte says what its character is. -/
theorem charClass (b : UInt8) : CharClass (lexTables.classOf b) (byteChar b) := by
  have h : ∀ n < 256, CharClass (lexTables.classOf (UInt8.ofNat n)) (byteChar (UInt8.ofNat n)) := by
    decide +kernel
  have hb := h b.toNat b.toNat_lt
  rwa [UInt8.ofNat_toNat] at hb

/-! ### The states inside of words -/

/-- What a state inside of a word is in: the word itself, a sequence quoted with `q`, or either
    behind a backslash. -/
inductive Mode
  | word
  | escape
  | quoted (q : Char)
  | quotedEscape (q : Char)
  deriving DecidableEq, Repr

namespace Mode

/-- The mode behind a character, if the word can go on with it. -/
def next : Mode → Char → Option Mode
  | word, c =>
    if isPlain c then some word
    else if isQuotes c then some (quoted c)
    else if c = '\\' then some escape
    else none
  | escape, c => if isBackspecial c then some word else none
  | quoted q, c =>
    if c = q then some word
    else if c = '\\' then some (quotedEscape q)
    else if isQuotable c then some (quoted q)
    else none
  | quotedEscape q, c => if isBackspecial c then some (quoted q) else none

/-- The same for a character of class `c`. -/
def step : Mode → Nat → Option Mode
  | word, c =>
    if c = 4 ∨ c = 8 ∨ c = 12 then some word
    else if c = 5 then some (quoted '"')
    else if c = 7 then some (quoted '\'')
    else if c = 13 then some escape
    else none
  | escape, c => if c = 1 then none else some word
  | quoted q, c =>
    if c = (if q = '"' then 5 else 7) then some word
    else if c = 13 then some (quotedEscape q)
    else if c ∈ [2, 3, 4, 5, 7, 8, 10, 11, 12] then some (quoted q)
    else none
  | quotedEscape q, c => if c = 1 then none else some (quoted q)

/-- A word may end outside of quotes. -/
def stop : Mode → Option Nat
  | word => some 0
  | _ => none

/-- What is left of the word: `scanWord`, from any mode. -/
def scan : Mode → List Char → Option Nat
  | word, cs => scanWord none cs
  | quoted q, cs => scanWord (some q) cs
  | escape, [] => none
  | escape, d :: cs => if isBackspecial d then (scanWord none cs).map (· + 1) else none
  | quotedEscape _, [] => none
  | quotedEscape q, d :: cs => if isBackspecial d then (scanWord (some q) cs).map (· + 1) else none

@[simp] theorem scan_word (cs : List Char) : word.scan cs = scanWord none cs := rfl

@[simp] theorem scan_quoted (q : Char) (cs : List Char) :
    (quoted q).scan cs = scanWord (some q) cs := rfl

@[simp] theorem scan_escape (d : Char) (cs : List Char) :
    escape.scan (d :: cs) =
      if isBackspecial d then (scanWord none cs).map (· + 1) else none := rfl

@[simp] theorem scan_quotedEscape (q d : Char) (cs : List Char) :
    (quotedEscape q).scan (d :: cs) =
      if isBackspecial d then (scanWord (some q) cs).map (· + 1) else none := rfl

/-- The quotes of a mode are quotes. -/
def Quoting : Mode → Prop
  | quoted q => q = '"' ∨ q = '\''
  | quotedEscape q => q = '"' ∨ q = '\''
  | _ => True

end Mode

/-- Outside of quotes there is always an end. -/
theorem scanWord_none_isSome (cs : List Char) : ∃ n, scanWord none cs = some n := by
  obtain ⟨n, h, -⟩ := scanWord_spec none cs (by simp)
  exact ⟨n, h⟩

/-- A character more, in each mode. -/
theorem Mode.scan_cons {m : Mode} (hm : m.Quoting) (c : Char) (cs : List Char) :
    m.scan (c :: cs) =
      match m.next c with
      | some m' => ((m'.scan cs).map (· + 1)).or m.stop
      | none => m.stop := by
  have hback : isPlain '\\' = false ∧ isQuotes '\\' = false ∧ isQuotable '\\' = false := by decide
  have hor : ∀ r : Option Nat, r.or none = r := fun r => by cases r <;> rfl
  obtain ⟨n, hn⟩ := scanWord_none_isSome cs
  cases m with
  | word =>
    simp only [scan_word, next, stop]
    by_cases hc : c = '\\'
    · subst hc
      simp only [hback, Bool.false_eq_true, if_false, if_true]
      cases cs with
      | nil => rfl
      | cons d cs =>
        obtain ⟨n, hn⟩ := scanWord_none_isSome cs
        simp only [scanWord, scan_escape, hn]
        split <;> rfl
    · rw [scanWord]
      · split
        · simp only [scan_word, hn, Option.map_some, Option.some_or]
        · split
          · simp only [scan_quoted]
            cases scanWord (some c) cs <;> rfl
          · rfl
      · intro d ds h
        exact absurd h hc
  | escape =>
    simp only [scan_escape, next, stop]
    split <;> simp only [scan_word, hor]
  | quoted q =>
    have hq : q ≠ '\\' := by rcases hm with rfl | rfl <;> decide
    simp only [scan_quoted, next, stop, hor]
    by_cases hc : c = '\\'
    · subst hc
      rw [if_neg (Ne.symm hq), if_pos rfl]
      cases cs with
      | nil => simp [scanWord, hback, Ne.symm hq, scan]
      | cons d cs =>
        simp only [scanWord, scan_quotedEscape]
        split
        · rw [Option.map_map]
          rfl
        · rfl
    · rw [scanWord, if_neg hc]
      · split
        · rfl
        · split <;> rfl
      · intro d ds h
        exact absurd h hc
  | quotedEscape q =>
    simp only [scan_quotedEscape, next, stop]
    split <;> simp only [scan_quoted, hor]

/-- The class of a character decides about the mode behind it. -/
theorem Mode.next_eq_step {m : Mode} (hm : m.Quoting) {c : Nat} {d : Char} (h : CharClass c d) :
    m.next d = m.step c := by
  obtain ⟨-, -, -, -, -, -, -, -, hplain, hdq, hsq, hback, hspecial, hquotable⟩ := h
  have hquotes : isQuotes d = true ↔ d = '"' ∨ d = '\'' := by
    rw [isQuotes, Bool.or_eq_true, decide_eq_true_eq, decide_eq_true_eq]
  cases m with
  | word =>
    simp only [next, step, hplain, hquotes, hback]
    split
    · rfl
    · by_cases h5 : c = 5
      · rw [if_pos (Or.inl (hdq.mpr h5)), if_pos h5, hdq.mpr h5]
      · rw [if_neg h5]
        by_cases h7 : c = 7
        · rw [if_pos (Or.inr (hsq.mpr h7)), if_pos h7, hsq.mpr h7]
        · rw [if_neg h7, if_neg (by rw [hdq, hsq]; omega)]
  | escape =>
    simp only [next, step, hspecial]
    split <;> simp_all
  | quoted q =>
    have hclose : d = q ↔ c = if q = '"' then 5 else 7 := by
      rcases hm with rfl | rfl
      · simpa using hdq
      · simpa using hsq
    simp only [next, step, hclose, hback, hquotable]
  | quotedEscape q =>
    simp only [next, step, hspecial]
    split <;> simp_all

/-- The number of the rule for words. -/
def StartCond.wordAct : StartCond → Nat
  | .INITIAL => 1
  | .PARAM => 3
  | .FNAME => 2

/-- The states of each mode, those for the first character of a token first. -/
def Mode.states : Mode → StartCond → List Nat
  | word, .INITIAL => [11, 29, 40, 41]
  | word, .PARAM => [20, 44, 52, 53]
  | word, .FNAME => [24, 54, 62, 63]
  | escape, .INITIAL => [18, 32]
  | escape, .PARAM => [23, 47]
  | escape, .FNAME => [27, 57]
  | quoted '"', .INITIAL => [12, 30, 33, 64, 65]
  | quoted '"', .PARAM => [21, 45, 48, 69, 70]
  | quoted '"', .FNAME => [25, 55, 58, 73, 74]
  | quoted '\'', .INITIAL => [14, 31, 36, 66, 67]
  | quoted '\'', .PARAM => [22, 46, 50, 71, 72]
  | quoted '\'', .FNAME => [26, 56, 60, 75, 76]
  | quotedEscape '"', .INITIAL => [34]
  | quotedEscape '"', .PARAM => [49]
  | quotedEscape '"', .FNAME => [59]
  | quotedEscape '\'', .INITIAL => [37]
  | quotedEscape '\'', .PARAM => [51]
  | quotedEscape '\'', .FNAME => [61]
  | _, _ => []

/-- The rule that a mode accepts behind the first character. -/
def Mode.act (m : Mode) (start : StartCond) : Nat := if m = word then start.wordAct else 0

/-- The state `q` is one of the mode, behind the first character; or jams, for no mode. -/
def IsModeState (start : StartCond) (q : Nat) : Option Mode → Prop
  | some m => q ∈ m.states start ∧ lexTables.accept q = m.act start
  | none => q = lexTables.jamState

instance (start : StartCond) (q : Nat) : (m : Option Mode) → Decidable (IsModeState start q m)
  | some _ => inferInstanceAs (Decidable (_ ∧ _))
  | none => inferInstanceAs (Decidable (_ = _))

/-- **The transitions between the states of words** are those between their modes. -/
theorem states_next (start : StartCond) {m : Mode} (hm : m.Quoting) {q c : Nat}
    (hq : q ∈ m.states start) (hc : 0 < c ∧ c < 15) :
    IsModeState start (lexTables.next q c) (m.step c) := by
  have h : ∀ start ∈ [StartCond.INITIAL, .PARAM, .FNAME],
      ∀ m ∈ [Mode.word, .escape, .quoted '"', .quoted '\'', .quotedEscape '"',
        .quotedEscape '\''], ∀ q ∈ m.states start, ∀ c < 15, 0 < c →
      IsModeState start (lexTables.next q c) (m.step c) := by
    decide +kernel
  refine h start (by cases start <;> decide) m ?_ q hq c hc.2 hc.1
  cases m with
  | word => decide
  | escape => decide
  | quoted q => rcases hm with rfl | rfl <;> decide
  | quotedEscape q => rcases hm with rfl | rfl <;> decide

/-- A mode goes on with its quotes. -/
theorem Mode.Quoting.step {m m' : Mode} (hm : m.Quoting) {c : Nat} (h : m.step c = some m') :
    m'.Quoting := by
  cases m with
  | word => grind [Mode.step, Mode.Quoting]
  | escape => grind [Mode.step, Mode.Quoting]
  | quoted q =>
    have hq : q = '"' ∨ q = '\'' := hm
    grind [Mode.step, Mode.Quoting]
  | quotedEscape q =>
    have hq : q = '"' ∨ q = '\'' := hm
    grind [Mode.step, Mode.Quoting]

/-- The rule for words is an action of the tables. -/
theorem StartCond.wordAct_ne (start : StartCond) : start.wordAct ≠ 0 := by
  cases start <;> decide

/-- A word that ends here is accepted. -/
theorem stop_or_accepted (start : StartCond) {m : Mode} {q : Nat}
    (hword : m = .word → lexTables.accept q = start.wordAct) :
    (m.stop.map fun n => (n, start.wordAct)).or (lexTables.accepted q) =
      lexTables.accepted q := by
  cases m with
  | word =>
    rw [Tables.accepted, hword rfl, if_neg start.wordAct_ne]
    rfl
  | _ => rfl

/-- Behind the first character only the end of a word is accepted. -/
theorem scan_or_accepted (start : StartCond) {m : Mode} {q : Nat}
    (haccept : lexTables.accept q = m.act start) (cs : List Char) :
    ((m.scan cs).map fun n => (n, start.wordAct)).or (lexTables.accepted q) =
      (m.scan cs).map fun n => (n, start.wordAct) := by
  by_cases hword : m = .word
  · obtain ⟨n, hn⟩ := scanWord_none_isSome cs
    rw [hword, Mode.scan_word, hn]
    rfl
  · have hnone : lexTables.accepted q = none := by
      rw [Tables.accepted, haccept, Mode.act, if_neg hword, if_pos rfl]
    rw [hnone]
    cases m.scan cs <;> rfl

/-- **What a state inside of a word matches**: what is left of the word, or itself. -/
theorem longest_mode (start : StartCond) {m : Mode} (hm : m.Quoting) {q : Nat}
    (hq : q ∈ m.states start) (hword : m = .word → lexTables.accept q = start.wordAct)
    (t : List UInt8) :
    lexTables.longest q t =
      ((m.scan (t.map byteChar)).map fun n => (n, start.wordAct)).or (lexTables.accepted q) := by
  induction t generalizing m q with
  | nil =>
    rw [Tables.longest, List.map_nil, show m.scan [] = m.stop by cases m <;> rfl,
      stop_or_accepted start hword]
  | cons b t ih =>
    have hclass := charClass b
    have hnext := states_next start hm hq hclass.range
    have hstop := stop_or_accepted start hword
    rw [List.map_cons, m.scan_cons hm, m.next_eq_step hm hclass, Tables.longest]
    cases hstep : m.step (lexTables.classOf b) with
    | none =>
      rw [hstep] at hnext
      have hjam : lexTables.delta q b = lexTables.jamState := hnext
      dsimp only
      rw [hjam, lexTables_valid.longest_jam, hstop]
      rfl
    | some m' =>
      rw [hstep] at hnext
      obtain ⟨hmem, haccept⟩ := hnext
      have hrec := ih (hm.step hstep) hmem fun h => by rw [haccept, Mode.act, if_pos h]
      rw [scan_or_accepted start haccept] at hrec
      dsimp only
      rw [Tables.delta, hrec]
      cases m'.scan (t.map byteChar) with
      | none => exact hstop.symm
      | some n => rfl

/-! ### The rules -/

/-- From the start of a token a character of a word leads into a word. -/
theorem states_start (start : StartCond) {c : Nat} (hc : c < 15) {m : Mode}
    (hstep : Mode.word.step c = some m) :
    lexTables.next start.state c ∈ m.states start ∧
      lexTables.accept (lexTables.next start.state c) =
        if m = .word then start.wordAct else 17 := by
  have h : ∀ start ∈ [StartCond.INITIAL, .PARAM, .FNAME], ∀ c < 15,
      ∀ m ∈ (Mode.word.step c).toList,
      lexTables.next start.state c ∈ m.states start ∧
        lexTables.accept (lexTables.next start.state c) =
          if m = .word then start.wordAct else 17 := by
    decide
  exact h start (by cases start <;> decide) c hc m (by simp [hstep])

/-- The others lead to the same states from each start. -/
theorem next_start (start : StartCond) {c : Nat} (hc : c < 15) (hstep : Mode.word.step c = none) :
    lexTables.next start.state c = lexTables.next 1 c := by
  have h : ∀ start ∈ [StartCond.INITIAL, .PARAM, .FNAME], ∀ c < 15, Mode.word.step c = none →
      lexTables.next start.state c = lexTables.next 1 c := by
    decide
  exact h start (by cases start <;> decide) c hc hstep

/-- At the start of a token the empty word is accepted. -/
theorem accepted_start (start : StartCond) :
    lexTables.accepted start.state = some (0, start.wordAct) := by
  cases start <;> decide

/-- A character that no word begins with. -/
theorem longest_start (start : StartCond) {b : UInt8}
    (hstep : Mode.word.step (lexTables.classOf b) = none) (t : List UInt8) :
    lexTables.longest start.state (b :: t) =
      ((lexTables.longest (lexTables.next 1 (lexTables.classOf b)) t).map
        fun r => (r.1 + 1, r.2)).or (some (0, start.wordAct)) := by
  rw [Tables.longest, Tables.delta, next_start start (charClass b).range.2 hstep,
    accepted_start start]

/-- What the lexer makes of a match: the action of its rule, and the text behind it. -/
def lexMatch (start : StartCond) (t : List UInt8) (n act : Nat) : Token × Scanner :=
  match lexAction start ((t.take n).map byteChar) act with
  | (some tok, start) => (tok, ⟨start, (t.drop n).map byteChar⟩)
  | (none, start) => yylexFrom start ((t.drop n).map byteChar)

/-- No operator begins with the character. -/
theorem operatorRule_eq_none {c : Nat} {d : Char} (h : CharClass c d)
    (hc : c ∉ [3, 6, 9, 10, 11, 14]) (cs : List Char) : operatorRule (d :: cs) = none := by
  have hgt : d ≠ '>' := fun hd => hc (by rw [h.gt.mp hd]; decide)
  have hbar : d ≠ '|' := fun hd => hc (by rw [h.bar.mp hd]; decide)
  have hlt : d ≠ '<' := fun hd => hc (by rw [h.lt.mp hd]; decide)
  have hamp : d ≠ '&' := fun hd => hc (by rw [h.amp.mp hd]; decide)
  have hsemicolon : d ≠ ';' := fun hd => hc (by rw [h.semicolon.mp hd]; decide)
  have heoln : d ≠ '\n' := fun hd => hc (by rw [h.eoln.mp hd]; decide)
  unfold operatorRule
  split <;> simp_all

/-- A class of characters of words is none of operators. -/
theorem not_operator {c : Nat} {m : Mode} (hstep : Mode.word.step c = some m) :
    c ∉ [3, 6, 9, 10, 11, 14] := by
  intro hc
  simp only [List.mem_cons, List.not_mem_nil, or_false] at hc
  rcases hc with rfl | rfl | rfl | rfl | rfl | rfl <;> simp [Mode.step] at hstep

/-- A text in which a word begins. -/
theorem wordLength_cons {b : UInt8} {m : Option Mode}
    (hstep : Mode.word.step (lexTables.classOf b) = m) (t : List UInt8) :
    wordLength ((b :: t).map byteChar) =
      (m.bind fun m => (m.scan (t.map byteChar)).map (· + 1)).getD 0 := by
  have hscan := Mode.scan_cons (show Mode.word.Quoting from trivial) (byteChar b)
    (t.map byteChar)
  rw [Mode.next_eq_step (show Mode.word.Quoting from trivial) (charClass b), hstep,
    Mode.scan_word] at hscan
  rw [wordLength, List.map_cons, hscan]
  cases m with
  | none => rfl
  | some m =>
    simp only [Option.bind_some]
    cases m.scan (t.map byteChar) <;> rfl

/-- The match at a character that can be in a word. -/
theorem lexMatch_word (start : StartCond) {b : UInt8} {m : Mode}
    (hstep : Mode.word.step (lexTables.classOf b) = some m) (t : List UInt8) :
    ∃ n act, lexTables.longest start.state (b :: t) = some (n, act) ∧
      yylexFrom start ((b :: t).map byteChar) = lexMatch start (b :: t) n act := by
  have hclass := charClass b
  have hquoting := Mode.Quoting.step (show Mode.word.Quoting from trivial) hstep
  obtain ⟨hmem, haccept⟩ := states_start start hclass.range.2 hstep
  have hlongest := longest_mode start hquoting hmem (fun h => by rw [haccept, if_pos h]) t
  have hlength := wordLength_cons hstep t
  rw [Option.bind_some] at hlength
  rw [Tables.longest, Tables.delta, hlongest]
  cases hscan : m.scan (t.map byteChar) with
  | some k =>
    rw [hscan, Option.map_some, Option.getD_some] at hlength
    refine ⟨k + 1, start.wordAct, rfl, ?_⟩
    have htake : ((b :: t).map byteChar).take (k + 1) = ((b :: t).take (k + 1)).map byteChar :=
      List.map_take.symm
    have hdrop : ((b :: t).map byteChar).drop (k + 1) = ((b :: t).drop (k + 1)).map byteChar :=
      List.map_drop.symm
    rw [List.map_cons] at hlength htake hdrop ⊢
    rw [yylexFrom, hlength, if_pos (Nat.succ_ne_zero k)]
    dsimp only
    rw [htake, hdrop, lexMatch]
    cases start <;> rfl
  | none =>
    rw [hscan] at hlength
    have hword : m ≠ .word := by
      rintro rfl
      obtain ⟨n, hn⟩ := scanWord_none_isSome (t.map byteChar)
      rw [Mode.scan_word, hn] at hscan
      simp at hscan
    refine ⟨1, 17, ?_, ?_⟩
    · rw [Tables.accepted, haccept, if_neg hword]
      rfl
    · rw [List.map_cons] at hlength ⊢
      rw [yylexFrom, hlength, if_neg (by simp), operatorRule_eq_none hclass (not_operator hstep)]
      rfl

/-- Where no word can begin, the lexer looks for an operator. -/
theorem yylexFrom_of_operator (start : StartCond) {b : UInt8}
    (hstep : Mode.word.step (lexTables.classOf b) = none) {t : List UInt8} {tok : Token}
    {n act : Nat}
    {start' : StartCond} (hrule : operatorRule ((b :: t).map byteChar) = some (tok, n, start'))
    (haction : ∀ yytext, lexAction start yytext act = (some tok, start')) :
    yylexFrom start ((b :: t).map byteChar) = lexMatch start (b :: t) n act := by
  have hlength := wordLength_cons hstep t
  rw [Option.bind_none] at hlength
  rw [List.map_cons] at hlength hrule ⊢
  rw [yylexFrom, hlength, if_neg (by simp), hrule, lexMatch, haction]
  dsimp only
  rw [List.map_drop]
  rfl

/-- A character that leads to a state with no way out. -/
theorem longest_cons_dead {q q' : Nat} {b : UInt8} (t : List UInt8)
    (hnext : lexTables.next q (lexTables.classOf b) = q')
    (hdead : lexTables.IsState q' ∧ lexTables.dead q' = true ∧ lexTables.accept q' ≠ 0) :
    lexTables.longest q (b :: t) = some (1, lexTables.accept q') := by
  rw [Tables.longest, Tables.delta, hnext, lexTables_valid.longest_dead hdead.1 hdead.2.1,
    Tables.accepted, if_neg hdead.2.2]
  rfl

/-- A character that the state cannot go on with. -/
theorem longest_cons_jam {q : Nat} {b : UInt8} (t : List UInt8)
    (hnext : lexTables.next q (lexTables.classOf b) = lexTables.jamState) :
    lexTables.longest q (b :: t) = lexTables.accepted q := by
  rw [Tables.longest, Tables.delta, hnext, lexTables_valid.longest_jam]
  rfl

/-- The class of the first character; 0 if there is none. -/
def nextClass : List UInt8 → Nat
  | [] => 0
  | b :: _ => lexTables.classOf b

/-- Whether a character comes next is whether its class does. -/
theorem head?_eq_iff {d : Char} {c : Nat} (hd : ∀ b, byteChar b = d ↔ lexTables.classOf b = c)
    (hc : c ≠ 0) (t : List UInt8) : (t.map byteChar).head? = some d ↔ nextClass t = c := by
  cases t with
  | nil => simp [nextClass, Ne.symm hc]
  | cons b t => simp [nextClass, hd b]

/-- The rules that go on behind `&`, `|` and `>>`, by the class of the next character. -/
def pairAct : Nat → Nat → Option Nat
  | 13, 6 => some 11
  | 19, 6 => some 6
  | 19, 14 => some 10
  | 39, 6 => some 4
  | _, _ => none

/-- The states behind `&`, `|` and `>>` match one more character, or none. -/
theorem longest_pair {q : Nat} (hq : q ∈ [13, 19, 39]) (t : List UInt8) :
    lexTables.longest q t =
      some (((pairAct q (nextClass t)).map (1, ·)).getD (0, lexTables.accept q)) := by
  have hself : ∀ q ∈ [13, 19, 39], lexTables.accepted q = some (0, lexTables.accept q) := by
    decide
  have hnext : ∀ q ∈ [13, 19, 39], ∀ c < 15, 0 < c →
      if pairAct q c = none then lexTables.next q c = lexTables.jamState
      else lexTables.IsState (lexTables.next q c) ∧ lexTables.dead (lexTables.next q c) = true ∧
        lexTables.accept (lexTables.next q c) ≠ 0 ∧
        pairAct q c = some (lexTables.accept (lexTables.next q c)) := by
    decide
  cases t with
  | nil =>
    rw [Tables.longest, hself q hq]
    simp only [List.mem_cons, List.not_mem_nil, or_false] at hq
    rcases hq with rfl | rfl | rfl <;> rfl
  | cons b t =>
    have hclass := (charClass b).range
    have hb := hnext q hq _ hclass.2 hclass.1
    rw [nextClass]
    split at hb
    · rename_i hnone
      rw [longest_cons_jam t hb, hself q hq, hnone]
      rfl
    · obtain ⟨hstate, hdead, haccept, hact⟩ := hb
      rw [longest_cons_dead t rfl ⟨hstate, hdead, haccept⟩, hact]
      rfl

/-- After `&`: `&&` or `&`. -/
theorem longest_amp (t : List UInt8) :
    lexTables.longest 13 t = some (if nextClass t = 6 then (1, 11) else (0, 12)) := by
  rw [longest_pair (by decide), show lexTables.accept 13 = 12 from rfl]
  unfold pairAct
  split <;> simp_all

/-- After `|`: `|&`, `||` or `|`. -/
theorem longest_bar (t : List UInt8) :
    lexTables.longest 19 t =
      some (if nextClass t = 6 then (1, 6) else if nextClass t = 14 then (1, 10) else (0, 13)) := by
  rw [longest_pair (by decide), show lexTables.accept 19 = 13 from rfl]
  unfold pairAct
  split <;> simp_all

/-- After `>>`: `>>&` or `>>`. -/
theorem longest_append (t : List UInt8) :
    lexTables.longest 39 t = some (if nextClass t = 6 then (1, 4) else (0, 5)) := by
  rw [longest_pair (by decide), show lexTables.accept 39 = 5 from rfl]
  unfold pairAct
  split <;> simp_all

/-- The state behind `>`. -/
theorem longest_gt (t : List UInt8) :
    lexTables.longest 17 t =
      some (if nextClass t = 6 then (1, 7)
        else if nextClass t = 11 then if nextClass t.tail = 6 then (2, 4) else (1, 5)
        else (0, 9)) := by
  have hjam : ∀ c < 15, 0 < c → c ≠ 6 → c ≠ 11 → lexTables.next 17 c = lexTables.jamState := by
    decide
  have hamp : lexTables.next 17 6 = 38 ∧ lexTables.IsState 38 ∧ lexTables.dead 38 = true ∧
      lexTables.accept 38 = 7 := by
    decide
  have hgt : lexTables.next 17 11 = 39 := by decide
  have hself : lexTables.accepted 17 = some (0, 9) := by decide
  cases t with
  | nil => exact hself
  | cons b t =>
    have hclass := (charClass b).range
    rw [nextClass, List.tail_cons]
    by_cases h6 : lexTables.classOf b = 6
    · rw [if_pos h6, longest_cons_dead t (h6 ▸ hamp.1)
        ⟨hamp.2.1, hamp.2.2.1, by rw [hamp.2.2.2]; decide⟩,
        hamp.2.2.2]
    · rw [if_neg h6]
      by_cases h11 : lexTables.classOf b = 11
      · rw [if_pos h11, Tables.longest, Tables.delta, h11, hgt, longest_append]
        split <;> rfl
      · rw [if_neg h11, longest_cons_jam t (hjam _ hclass.2 hclass.1 h6 h11), hself]

/-- The operators by their next characters. -/
theorem operatorRule_amp (cs : List Char) :
    operatorRule ('&' :: cs) =
      if cs.head? = some '&' then some (.LOGICAL_AND, 2, .INITIAL)
      else some (.BACKGROUND, 1, .INITIAL) := by
  cases cs with
  | nil => rfl
  | cons d cs =>
    by_cases hd : d = '&'
    · subst hd
      rfl
    · rw [if_neg (by simpa using hd)]
      unfold operatorRule
      split <;> simp_all

/-- The rules for `|`. -/
theorem operatorRule_bar (cs : List Char) :
    operatorRule ('|' :: cs) =
      if cs.head? = some '&' then some (.PIPE_ERROR, 2, .INITIAL)
      else if cs.head? = some '|' then some (.LOGICAL_OR, 2, .INITIAL)
      else some (.PIPE, 1, .INITIAL) := by
  cases cs with
  | nil => rfl
  | cons d cs =>
    by_cases hamp : d = '&'
    · subst hamp
      rfl
    · rw [if_neg (by simpa using hamp)]
      by_cases hbar : d = '|'
      · subst hbar
        rfl
      · rw [if_neg (by simpa using hbar)]
        unfold operatorRule
        split <;> simp_all

/-- The rules for `>`. -/
theorem operatorRule_gt (cs : List Char) :
    operatorRule ('>' :: cs) =
      if cs.head? = some '&' then some (.REDIRECT_ERROR, 2, .FNAME)
      else if cs.head? = some '>' then
        if cs.tail.head? = some '&' then some (.APPEND_ERROR, 3, .FNAME)
        else some (.APPEND, 2, .FNAME)
      else some (.REDIRECT_OUT, 1, .FNAME) := by
  cases cs with
  | nil => rfl
  | cons d cs =>
    by_cases hamp : d = '&'
    · subst hamp
      rfl
    · rw [if_neg (by simpa using hamp)]
      by_cases hgt : d = '>'
      · subst hgt
        cases cs with
        | nil => rfl
        | cons e cs =>
          by_cases he : e = '&'
          · subst he
            rfl
          · rw [List.head?_cons, if_pos rfl, List.tail_cons, if_neg (by simpa using he)]
            unfold operatorRule
            grind
      · rw [if_neg (by simpa using hgt)]
        unfold operatorRule
        split <;> simp_all

/-- The match at an operator. -/
theorem lexMatch_operator (start : StartCond) {b : UInt8}
    (hb : lexTables.classOf b ∈ [3, 6, 9, 10, 11, 14]) (t : List UInt8) :
    ∃ n act, lexTables.longest start.state (b :: t) = some (n, act) ∧
      yylexFrom start ((b :: t).map byteChar) = lexMatch start (b :: t) n act := by
  have hclass := charClass b
  have hstep : Mode.word.step (lexTables.classOf b) = none := by
    simp only [List.mem_cons, List.not_mem_nil, or_false] at hb
    rcases hb with h | h | h | h | h | h <;> rw [h] <;> rfl
  have hlongest := longest_start start hstep t
  -- the rule that a match one character shorter is of, from the state behind the first
  have hmatch : ∀ {q n act : Nat} {tok : Token} {start' : StartCond},
      lexTables.next 1 (lexTables.classOf b) = q → lexTables.longest q t = some (n, act) →
      operatorRule ((b :: t).map byteChar) = some (tok, n + 1, start') →
      (∀ yytext, lexAction start yytext act = (some tok, start')) →
      ∃ n act, lexTables.longest start.state (b :: t) = some (n, act) ∧
        yylexFrom start ((b :: t).map byteChar) = lexMatch start (b :: t) n act := by
    intro q n act tok start' hq hn hrule haction
    refine ⟨n + 1, act, ?_, yylexFrom_of_operator start hstep hrule haction⟩
    rw [hlongest, hq, hn]
    rfl
  have hamp := head?_eq_iff (fun b => (charClass b).amp) (by decide) t
  have hbar := head?_eq_iff (fun b => (charClass b).bar) (by decide) t
  have hgt := head?_eq_iff (fun b => (charClass b).gt) (by decide) t
  have hdead : ∀ q ∈ [10, 15, 16], lexTables.longest q t = some (0, lexTables.accept q) := by
    intro q hq
    have h : ∀ q ∈ [10, 15, 16], lexTables.IsState q ∧ lexTables.dead q = true ∧
        lexTables.accepted q = some (0, lexTables.accept q) := by
      decide
    obtain ⟨hstate, hdead, haccept⟩ := h q hq
    rw [lexTables_valid.longest_dead hstate hdead, haccept]
  simp only [List.mem_cons, List.not_mem_nil, or_false] at hb
  rw [List.map_cons] at hmatch ⊢
  rcases hb with h | h | h | h | h | h
  · -- a newline
    rw [hclass.eoln.mpr h] at hmatch ⊢
    exact hmatch (by rw [h]; decide) (hdead 10 (by decide)) rfl fun _ => rfl
  · -- `&` and `&&`
    have hq : lexTables.next 1 (lexTables.classOf b) = 13 := by rw [h]; decide
    rw [hclass.amp.mpr h, operatorRule_amp] at hmatch
    rw [hclass.amp.mpr h]
    by_cases h6 : nextClass t = 6
    · rw [if_pos (hamp.mpr h6)] at hmatch
      exact hmatch hq (by rw [longest_amp, if_pos h6]) rfl fun _ => rfl
    · rw [if_neg (mt hamp.mp h6)] at hmatch
      exact hmatch hq (by rw [longest_amp, if_neg h6]) rfl fun _ => rfl
  · -- `;`
    rw [hclass.semicolon.mpr h] at hmatch ⊢
    exact hmatch (by rw [h]; decide) (hdead 15 (by decide)) rfl fun _ => rfl
  · -- `<`
    rw [hclass.lt.mpr h] at hmatch ⊢
    exact hmatch (by rw [h]; decide) (hdead 16 (by decide)) rfl fun _ => rfl
  · -- `>`, `>&`, `>>` and `>>&`
    have hq : lexTables.next 1 (lexTables.classOf b) = 17 := by rw [h]; decide
    have htail := head?_eq_iff (fun b => (charClass b).amp) (by decide) t.tail
    rw [List.map_tail] at htail
    rw [hclass.gt.mpr h, operatorRule_gt] at hmatch
    rw [hclass.gt.mpr h]
    by_cases h6 : nextClass t = 6
    · rw [if_pos (hamp.mpr h6)] at hmatch
      exact hmatch hq (by rw [longest_gt, if_pos h6]) rfl fun _ => rfl
    · rw [if_neg (mt hamp.mp h6)] at hmatch
      by_cases h11 : nextClass t = 11
      · rw [if_pos (hgt.mpr h11)] at hmatch
        by_cases ht : nextClass t.tail = 6
        · rw [if_pos (htail.mpr ht)] at hmatch
          exact hmatch hq (by rw [longest_gt, if_neg h6, if_pos h11, if_pos ht]) rfl fun _ => rfl
        · rw [if_neg (mt htail.mp ht)] at hmatch
          exact hmatch hq (by rw [longest_gt, if_neg h6, if_pos h11, if_neg ht]) rfl fun _ => rfl
      · rw [if_neg (mt hgt.mp h11)] at hmatch
        exact hmatch hq (by rw [longest_gt, if_neg h6, if_neg h11]) rfl fun _ => rfl
  · -- `|`, `|&` and `||`
    have hq : lexTables.next 1 (lexTables.classOf b) = 19 := by rw [h]; decide
    rw [hclass.bar.mpr h, operatorRule_bar] at hmatch
    rw [hclass.bar.mpr h]
    by_cases h6 : nextClass t = 6
    · rw [if_pos (hamp.mpr h6)] at hmatch
      exact hmatch hq (by rw [longest_bar, if_pos h6]) rfl fun _ => rfl
    · rw [if_neg (mt hamp.mp h6)] at hmatch
      by_cases h14 : nextClass t = 14
      · rw [if_pos (hbar.mpr h14)] at hmatch
        exact hmatch hq (by rw [longest_bar, if_neg h6, if_pos h14]) rfl fun _ => rfl
      · rw [if_neg (mt hbar.mp h14)] at hmatch
        exact hmatch hq (by rw [longest_bar, if_neg h6, if_neg h14]) rfl fun _ => rfl

/-- A character that begins neither a word nor an operator is passed over. -/
theorem yylexFrom_skip (start : StartCond) {b : UInt8} (hb : lexTables.classOf b ∈ [1, 2])
    (t : List UInt8) :
    yylexFrom start ((b :: t).map byteChar) = yylexFrom start (t.map byteChar) := by
  have hnone : lexTables.classOf b ∉ [3, 6, 9, 10, 11, 14] ∧
      Mode.word.step (lexTables.classOf b) = none := by
    simp only [List.mem_cons, List.not_mem_nil, or_false] at hb
    rcases hb with h | h <;> rw [h] <;> decide
  have hlength := wordLength_cons hnone.2 t
  rw [Option.bind_none] at hlength
  rw [List.map_cons] at hlength ⊢
  rw [yylexFrom, hlength, if_neg (by simp), operatorRule_eq_none (charClass b) hnone.1]

/-- Behind a blank all blanks are matched, which the lexer passes over. -/
theorem longest_blanks (start : StartCond) {q : Nat} (hq : q = 9 ∨ q = 28) (t : List UInt8) :
    ∃ n, lexTables.longest q t = some (n, 16) ∧
      yylexFrom start (t.map byteChar) = yylexFrom start ((t.drop n).map byteChar) := by
  have hself : ∀ q, q = 9 ∨ q = 28 → lexTables.accepted q = some (0, 16) := by
    rintro q (rfl | rfl) <;> decide
  have hnext : ∀ q, q = 9 ∨ q = 28 → ∀ c < 15, 0 < c →
      lexTables.next q c = if c = 2 then 28 else lexTables.jamState := by
    rintro q (rfl | rfl) <;> decide
  induction t generalizing q with
  | nil => exact ⟨0, hself q hq, rfl⟩
  | cons b t ih =>
    have hclass := (charClass b).range
    have hb := hnext q hq _ hclass.2 hclass.1
    by_cases h2 : lexTables.classOf b = 2
    · obtain ⟨n, hn, hskip⟩ := ih (Or.inr rfl)
      rw [if_pos h2] at hb
      refine ⟨n + 1, ?_, ?_⟩
      · rw [Tables.longest, Tables.delta, hb, hn]
        rfl
      · rw [yylexFrom_skip start (by simp [h2]), hskip]
        rfl
    · rw [if_neg h2] at hb
      exact ⟨0, by rw [longest_cons_jam t hb, hself q hq], rfl⟩

/-- **The tables find the match that the rules of `lexer.l` ask for**, at every character and in
    every start condition. -/
theorem longest_spec (start : StartCond) (b : UInt8) (t : List UInt8) :
    ∃ n act, lexTables.longest start.state (b :: t) = some (n, act) ∧
      yylexFrom start ((b :: t).map byteChar) = lexMatch start (b :: t) n act := by
  have hclass := (charClass b).range
  cases hstep : Mode.word.step (lexTables.classOf b) with
  | some m => exact lexMatch_word start hstep t
  | none =>
    by_cases hop : lexTables.classOf b ∈ [3, 6, 9, 10, 11, 14]
    · exact lexMatch_operator start hop t
    · have hlongest := longest_start start hstep t
      have hrest : lexTables.classOf b = 1 ∨ lexTables.classOf b = 2 := by
        have h : ∀ c < 15, 0 < c ∧ Mode.word.step c = none ∧ c ∉ [3, 6, 9, 10, 11, 14] →
            c = 1 ∨ c = 2 := by
          decide
        exact h _ hclass.2 ⟨hclass.1, hstep, hop⟩
      have hskip := yylexFrom_skip start (show lexTables.classOf b ∈ [1, 2] by simpa using hrest) t
      rcases hrest with h | h
      · -- an invalid character
        refine ⟨1, 17, ?_, hskip⟩
        rw [hlongest, h, show lexTables.next 1 1 = 8 from rfl,
          lexTables_valid.longest_dead (by decide) (by decide),
          show lexTables.accepted 8 = some (0, 17) from rfl]
        rfl
      · -- blanks
        obtain ⟨n, hn, hblanks⟩ := longest_blanks start (Or.inl rfl) t
        refine ⟨n + 1, 16, ?_, hskip.trans hblanks⟩
        rw [hlongest, h, show lexTables.next 1 2 = 9 from rfl, hn]
        rfl

/-! ### One call -/

/-- Each start condition has a state of the tables. -/
theorem StartCond.state_mem (start : StartCond) : start.state ∈ [1, 3, 5] := by
  cases start <;> decide

/-- The rounds of the loop. -/
theorem yylexLoop_spec (requests : Nat → Nat) (fuel : Nat) (start : StartCond) {buf : Buffer}
    (hbuf : buf.Fits) (hfuel : buf.text.length < fuel) :
    ∃ t start' buf', yylexLoop requests fuel start buf = some (t, start', buf') ∧ buf'.Fits ∧
      yylexFrom start (buf.text.map byteChar) = (t, ⟨start', buf'.text.map byteChar⟩) := by
  induction fuel generalizing start buf with
  | zero => omega
  | succ fuel ih =>
    obtain ⟨r, hscan, hscanned⟩ := lexTables_valid.scan_spec start.state_mem hbuf requests
    rw [yylexLoop, hscan]
    cases hscanned with
    | @eof buf' htext hfits hrest =>
      refine ⟨_, _, _, rfl, hfits, ?_⟩
      rw [htext, hrest]
      rfl
    | @rule n act buf' hlongest hpos hfits hrest =>
      obtain ⟨b, t, hb⟩ : ∃ b t, buf.text = b :: t := by
        refine List.exists_cons_of_ne_nil fun hnil => ?_
        rw [hnil, Tables.longest, accepted_start start] at hlongest
        obtain ⟨rfl, -⟩ := Prod.mk.inj (Option.some.inj hlongest)
        exact Nat.lt_irrefl 0 hpos
      obtain ⟨n', act', hlongest', hmatch⟩ := longest_spec start b t
      rw [← hb] at hlongest' hmatch
      obtain ⟨rfl, rfl⟩ := Prod.mk.inj (Option.some.inj (hlongest.symm.trans hlongest'))
      rw [hmatch, lexMatch, ← hrest]
      dsimp only
      cases lexAction start ((buf.text.take n).map byteChar) act with
      | mk tok start' =>
        cases tok with
        | some tok => exact ⟨tok, start', buf', rfl, hfits, rfl⟩
        | none =>
          have hlength : 0 < buf.text.length := by rw [hb]; exact Nat.succ_pos _
          refine ih start' hfits ?_
          rw [hrest, List.length_drop]
          omega

/-- **The generated scanner reads what the lexer reads**: the same token, for every text and every
    division of it into reads, with the same start condition and the same text left.  It stays
    inside its tables and its buffer. -/
theorem yylexYy_spec (requests : Nat → Nat) (start : StartCond) {buf : Buffer} (hbuf : buf.Fits) :
    ∃ t start' buf', yylexYy requests start buf = some (t, start', buf') ∧ buf'.Fits ∧
      yylex ⟨start, buf.text.map byteChar⟩ = (t, ⟨start', buf'.text.map byteChar⟩) :=
  yylexLoop_spec requests (buf.text.length + 1) start hbuf (Nat.lt_succ_self _)

/-- The first token of `ls` and a newline, in reads of one character. -/
theorem yylexYy_spec_ls :
    ∃ t start' buf', yylexYy (fun _ => 0) .INITIAL ⟨[], 16384, .NEW, 0, [108, 115, 10], 0⟩ =
        some (t, start', buf') ∧ buf'.Fits ∧
      yylex ⟨.INITIAL, ['l', 's', '\n']⟩ = (t, ⟨start', buf'.text.map byteChar⟩) :=
  @yylexYy_spec (fun _ => 0) .INITIAL ⟨[], 16384, .NEW, 0, [108, 115, 10], 0⟩
    ⟨⟨by decide, fun h => by cases h⟩, Nat.le_refl 0⟩

end OSPortfolio.Ish
