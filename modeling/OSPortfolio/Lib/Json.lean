import Mathlib.Data.List.Basic
import OSPortfolio.Lib.Utf8

namespace OSPortfolio.Json

open OSPortfolio.Utf8

/-!
# JSON texts

Values are read by a scanner that takes one character at a time and keeps a stack of the
arrays and objects that are still open.  Objects whose members are strings can be written.

* `Scanner.step` — what the scanner does with a character; none if it cannot take it;
* `scan` — read characters as long as the scanner takes them;
* `decode`, `unmarshal` — the value a byte string begins with, and the value it is;
* `quote`, `marshalObject` — write a string and an object of strings;
* `unquote_flatMap_quoteRune`, `unmarshal_marshalObject` — reading what was written gives back
  the text, with U+FFFD for bytes that are no text.
-/

/-- A JSON value; of a number only that it is one. -/
inductive Value
  | null
  | bool (b : Bool)
  | number
  | string (s : List Char)
  | array (elements : List Value)
  | object (members : List (List Char × Value))

/-! ### String literals -/

/-- The space between tokens. -/
def isSpace (c : Char) : Bool := c = ' ' || c = '\t' || c = '\r' || c = '\n'

/-- The value of a hexadecimal digit. -/
def hexVal? (c : Char) : Option Nat :=
  if '0' ≤ c ∧ c ≤ '9' then some (c.toNat - '0'.toNat)
  else if 'a' ≤ c ∧ c ≤ 'f' then some (c.toNat - 'a'.toNat + 10)
  else if 'A' ≤ c ∧ c ≤ 'F' then some (c.toNat - 'A'.toNat + 10)
  else none

/-- The number that four hexadecimal digits write. -/
def hex4 (a b c d : Char) : Nat :=
  [a, b, c, d].foldl (fun n c => 16 * n + (hexVal? c).getD 0) 0

/-- Half of a surrogate pair. -/
def isSurrogate (r : Nat) : Bool := 0xD800 ≤ r && r < 0xE000

/-- The character a surrogate pair stands for. -/
def decodePair (r s : Nat) : Option Char :=
  if 0xD800 ≤ r ∧ r < 0xDC00 ∧ 0xDC00 ≤ s ∧ s < 0xE000 then
    some (Char.ofNat ((r - 0xD800) * 0x400 + (s - 0xDC00) + 0x10000))
  else none

/-- What a backslash and a character other than `u` stand for. -/
def unescape (c : Char) : Char :=
  match c with
  | 'b' => '\x08'
  | 'f' => '\x0c'
  | 'n' => '\n'
  | 'r' => '\r'
  | 't' => '\t'
  | c => c

/-- The replacement for half a pair that was left without its other half. -/
def unpaired : Option Nat → List Char → List Char
  | none, s => s
  | some _, s => replacementChar :: s

/-- Read a string literal without its quotes, where `half` is half a surrogate pair that was
    just read. -/
def unquoteFrom (half : Option Nat) : List Char → List Char
  | '\\' :: 'u' :: a :: b :: c :: d :: s =>
    let r := hex4 a b c d
    match half.bind (decodePair · r) with
    | some ch => ch :: unquoteFrom none s
    | none =>
      unpaired half
        (if isSurrogate r then unquoteFrom (some r) s else Char.ofNat r :: unquoteFrom none s)
  | '\\' :: c :: s => unpaired half (unescape c :: unquoteFrom none s)
  | c :: s => unpaired half (c :: unquoteFrom none s)
  | [] => unpaired half []

/-- The text of a string literal, given without its quotes. -/
def unquote (s : List Char) : List Char := unquoteFrom none s

/-! ### The scanner -/

/-- Where the scanner is in a number. -/
inductive NumberState
  | neg | zero | digits | dot | fraction | e | sign | exponent
  deriving DecidableEq

def isDigit (c : Char) : Bool := '0' ≤ c && c ≤ '9'

/-- A character that goes on with a number. -/
def NumberState.step (st : NumberState) (c : Char) : Option NumberState :=
  match st with
  | .neg => if c = '0' then some .zero else if isDigit c then some .digits else none
  | .digits =>
    if isDigit c then some .digits else if c = '.' then some .dot
    else if c = 'e' ∨ c = 'E' then some .e else none
  | .zero =>
    if c = '.' then some .dot else if c = 'e' ∨ c = 'E' then some .e else none
  | .dot => if isDigit c then some .fraction else none
  | .fraction =>
    if isDigit c then some .fraction else if c = 'e' ∨ c = 'E' then some .e else none
  | .e =>
    if c = '+' ∨ c = '-' then some .sign else if isDigit c then some .exponent else none
  | .sign => if isDigit c then some .exponent else none
  | .exponent => if isDigit c then some .exponent else none

/-- The number may end here. -/
def NumberState.final (st : NumberState) : Bool :=
  st = .zero || st = .digits || st = .fraction || st = .exponent

/-- Where the scanner is in a string literal. -/
inductive StringState
  | plain
  | escape
  | hex (left : Nat)

/-- What the scanner is reading. -/
inductive Mode
  | beginValue
  | beginValueOrEmpty
  | beginString
  | beginStringOrEmpty
  /-- a string literal, with what was read of it, latest first -/
  | inString (st : StringState) (raw : List Char)
  | inNumber (st : NumberState)
  /-- one of the words `true`, `false`, `null` -/
  | inLiteral (rest : List Char) (v : Value)
  /-- behind a value or a key -/
  | endValue (v : Value)

/-- An array or object that is open, with its content so far, latest first. -/
inductive Frame
  | array (elements : List Value)
  | objectKey (members : List (List Char × Value))
  | objectValue (members : List (List Char × Value)) (key : List Char)

/-- The state of the scanner. -/
structure Scanner where
  mode : Mode
  stack : List Frame

/-- How many arrays and objects may be open. -/
def maxNestingDepth : Nat := 10000

/-- Open an array or object. -/
def push (mode : Mode) (f : Frame) (stack : List Frame) : Option Scanner :=
  if stack.length < maxNestingDepth then some ⟨mode, f :: stack⟩ else none

/-- A character where a value must begin. -/
def stateBeginValue (stack : List Frame) (c : Char) : Option Scanner :=
  match c with
  | '{' => push .beginStringOrEmpty (.objectKey []) stack
  | '[' => push .beginValueOrEmpty (.array []) stack
  | '"' => some ⟨.inString .plain [], stack⟩
  | '-' => some ⟨.inNumber .neg, stack⟩
  | '0' => some ⟨.inNumber .zero, stack⟩
  | 't' => some ⟨.inLiteral ['r', 'u', 'e'] (.bool true), stack⟩
  | 'f' => some ⟨.inLiteral ['a', 'l', 's', 'e'] (.bool false), stack⟩
  | 'n' => some ⟨.inLiteral ['u', 'l', 'l'] .null, stack⟩
  | c =>
    if isSpace c then some ⟨.beginValue, stack⟩
    else if isDigit c then some ⟨.inNumber .digits, stack⟩
    else none

/-- A character behind a value or a key. -/
def stateEndValue (v : Value) (stack : List Frame) (c : Char) : Option Scanner :=
  if isSpace c then some ⟨.endValue v, stack⟩
  else
    match stack, v, c with
    | .objectKey ms :: fs, .string k, ':' => some ⟨.beginValue, .objectValue ms k :: fs⟩
    | .objectValue ms k :: fs, v, ',' => some ⟨.beginString, .objectKey ((k, v) :: ms) :: fs⟩
    | .objectValue ms k :: fs, v, '}' => some ⟨.endValue (.object ((k, v) :: ms).reverse), fs⟩
    | .array es :: fs, v, ',' => some ⟨.beginValue, .array (v :: es) :: fs⟩
    | .array es :: fs, v, ']' => some ⟨.endValue (.array (v :: es).reverse), fs⟩
    | _, _, _ => none

/-- A character of a string literal. -/
def stateInString (st : StringState) (raw : List Char) (stack : List Frame) (c : Char) :
    Option Scanner :=
  match st with
  | .plain =>
    if c = '"' then some ⟨.endValue (.string (unquote raw.reverse)), stack⟩
    else if c = '\\' then some ⟨.inString .escape (c :: raw), stack⟩
    else if c.toNat < 0x20 then none
    else some ⟨.inString .plain (c :: raw), stack⟩
  | .escape =>
    if c = 'u' then some ⟨.inString (.hex 3) (c :: raw), stack⟩
    else if c ∈ ['b', 'f', 'n', 'r', 't', '\\', '/', '"'] then
      some ⟨.inString .plain (c :: raw), stack⟩
    else none
  | .hex left =>
    if (hexVal? c).isSome then
      match left with
      | 0 => some ⟨.inString .plain (c :: raw), stack⟩
      | left + 1 => some ⟨.inString (.hex left) (c :: raw), stack⟩
    else none

/-- Take one character. -/
def Scanner.step (s : Scanner) (c : Char) : Option Scanner :=
  match s.mode with
  | .beginValue => stateBeginValue s.stack c
  | .beginValueOrEmpty =>
    if isSpace c then some s
    else
      match s.stack, c with
      | .array es :: fs, ']' => some ⟨.endValue (.array es.reverse), fs⟩
      | stack, c => stateBeginValue stack c
  | .beginString =>
    if isSpace c then some s
    else if c = '"' then some ⟨.inString .plain [], s.stack⟩
    else none
  | .beginStringOrEmpty =>
    if isSpace c then some s
    else if c = '"' then some ⟨.inString .plain [], s.stack⟩
    else
      match s.stack, c with
      | .objectKey ms :: fs, '}' => some ⟨.endValue (.object ms.reverse), fs⟩
      | _, _ => none
  | .inString st raw => stateInString st raw s.stack c
  | .inNumber st =>
    match st.step c with
    | some st => some ⟨.inNumber st, s.stack⟩
    | none => if st.final then stateEndValue .number s.stack c else none
  | .inLiteral [] v => stateEndValue v s.stack c
  | .inLiteral (d :: rest) v => if c = d then some ⟨.inLiteral rest v, s.stack⟩ else none
  | .endValue v => stateEndValue v s.stack c

/-- The value that was read, if one is complete. -/
def Scanner.complete (s : Scanner) : Option Value :=
  if s.stack.isEmpty then
    match s.mode with
    | .endValue v => some v
    | .inLiteral [] v => some v
    | .inNumber st => if st.final then some .number else none
    | _ => none
  else none

/-- Before the first character. -/
def Scanner.start : Scanner := ⟨.beginValue, []⟩

/-- Read as long as the scanner takes the characters: the value, and what is left. -/
def scan (s : Scanner) : List Char → Option (Value × List Char)
  | [] => s.complete.map (·, [])
  | c :: cs =>
    match s.step c with
    | some t => scan t cs
    | none => s.complete.map (·, c :: cs)

/-- The value at the front of a byte string; what follows it is not looked at. -/
def decode (b : Bytes) : Option Value := (scan .start (text b)).map Prod.fst

/-- The value a whole byte string is. -/
def unmarshal (b : Bytes) : Option Value :=
  match scan .start (text b) with
  | some (v, []) => some v
  | _ => none

/-! ### Writing -/

/-- A hexadecimal digit. -/
def hexDigit (d : Nat) : Char :=
  if d < 10 then Char.ofNat ('0'.toNat + d) else Char.ofNat ('a'.toNat + (d - 10))

/-- A character or stray byte inside a string literal. -/
def quoteRune : Option Char → List Char
  | none => ['\\', 'u', 'f', 'f', 'f', 'd']
  | some c =>
    if c = '"' then ['\\', '"']
    else if c = '\\' then ['\\', '\\']
    else if c = '\n' then ['\\', 'n']
    else if c = '\r' then ['\\', 'r']
    else if c = '\t' then ['\\', 't']
    -- the other control characters, and the ones that mean something in HTML
    else if c.toNat < 0x20 ∨ c = '<' ∨ c = '>' ∨ c = '&' then
      ['\\', 'u', '0', '0', hexDigit (c.toNat / 16), hexDigit (c.toNat % 16)]
    else if c = '\u2028' then ['\\', 'u', '2', '0', '2', '8']
    else if c = '\u2029' then ['\\', 'u', '2', '0', '2', '9']
    else [c]

/-- A byte string as a string literal. -/
def quote (s : Bytes) : List Char := '"' :: ((runes s).flatMap quoteRune ++ ['"'])

/-- The members of an object, behind its opening brace. -/
def membersText : List (Bytes × Bytes) → List Char
  | [] => ['}']
  | [e] => quote e.1 ++ ':' :: quote e.2 ++ ['}']
  | e :: e' :: es => quote e.1 ++ ':' :: quote e.2 ++ ',' :: membersText (e' :: es)

/-- An object whose members are strings, in the given order. -/
def marshalObject (es : List (Bytes × Bytes)) : Bytes := encode ('{' :: membersText es)

/-! ### Reading what was written -/

/-- A hexadecimal digit is read back. -/
theorem hexVal?_hexDigit : ∀ d < 16, hexVal? (hexDigit d) = some d := by decide

/-- An escape of a small number is its character. -/
theorem unquote_escape {n : Nat} (hn : n < 0x80) (s : List Char) :
    unquote ('\\' :: 'u' :: '0' :: '0' :: hexDigit (n / 16) :: hexDigit (n % 16) :: s)
      = Char.ofNat n :: unquote s := by
  have hhex : hex4 '0' '0' (hexDigit (n / 16)) (hexDigit (n % 16)) = n := by
    rw [hex4]
    simp only [List.foldl_cons, List.foldl_nil, hexVal?_hexDigit (n / 16) (by omega),
      hexVal?_hexDigit (n % 16) (by omega)]
    show 16 * (16 * (16 * (16 * 0 + 0) + 0) + n / 16) + n % 16 = n
    omega
  have hsur : isSurrogate n = false := by
    rw [isSurrogate, Bool.and_eq_false_iff, decide_eq_false_iff_not]
    exact Or.inl (by omega)
  rw [unquote, unquoteFrom, hhex]
  show (if isSurrogate n then _ else _) = _
  rw [hsur]
  rfl

/-- Reading a character that was written. -/
theorem unquote_quoteRune (r : Option Char) (s : List Char) :
    unquote (quoteRune r ++ s) = r.getD replacementChar :: unquote s := by
  cases r with
  | none => rfl
  | some c =>
    show unquote (quoteRune (some c) ++ s) = c :: unquote s
    rw [quoteRune]
    split_ifs with h1 h2 h3 h4 h5 h6 h7 h8
    · subst h1; rfl
    · subst h2; rfl
    · subst h3; rfl
    · subst h4; rfl
    · subst h5; rfl
    · have hlt : c.toNat < 0x80 := by
        rcases h6 with h | rfl | rfl | rfl
        · omega
        all_goals decide
      rw [← Char.ofNat_toNat c]
      simpa using unquote_escape hlt s
    · subst h7; rfl
    · subst h8; rfl
    · rw [List.singleton_append, unquote, unquoteFrom.eq_def]
      split
      · simp_all
      · simp_all
      · simp_all [unpaired, unquote]
      · simp_all

/-- What is quoted is read back, with U+FFFD for an invalid byte. -/
theorem unquote_flatMap_quoteRune (rs : List (Option Char)) :
    unquote (rs.flatMap quoteRune) = rs.map (·.getD replacementChar) := by
  induction rs with
  | nil => rfl
  | cons r rs ih => rw [List.flatMap_cons, unquote_quoteRune, ih, List.map_cons]

/-- Take several characters. -/
def Scanner.run (s : Scanner) (cs : List Char) : Option Scanner := cs.foldlM Scanner.step s

theorem Scanner.run_append (s : Scanner) (cs ds : List Char) :
    s.run (cs ++ ds) = (s.run cs).bind (·.run ds) := List.foldlM_append

theorem Scanner.run_cons (s : Scanner) (c : Char) (cs : List Char) :
    s.run (c :: cs) = (s.step c).bind (·.run cs) := List.foldlM_cons

/-- What was read needs no second look. -/
theorem scan_append {s t : Scanner} {cs : List Char} (h : s.run cs = some t) (ds : List Char) :
    scan s (cs ++ ds) = scan t ds := by
  induction cs generalizing s with
  | nil => obtain rfl := Option.some.inj h; rfl
  | cons c cs ih =>
    rw [Scanner.run_cons] at h
    obtain ⟨u, hstep, hrest⟩ := Option.bind_eq_some_iff.mp h
    rw [List.cons_append, scan, hstep]
    exact ih hrest

/-- A digit of an escape that is not its last. -/
theorem step_hex {c : Char} {d : Nat} (h : hexVal? c = some d) (left : Nat) (raw : List Char)
    (stack : List Frame) :
    Scanner.step ⟨.inString (.hex (left + 1)) raw, stack⟩ c
      = some ⟨.inString (.hex left) (c :: raw), stack⟩ := by
  show stateInString (.hex (left + 1)) raw stack c = _
  rw [stateInString, if_pos (by rw [h]; rfl)]

/-- The last digit of an escape. -/
theorem step_hex_last {c : Char} {d : Nat} (h : hexVal? c = some d) (raw : List Char)
    (stack : List Frame) :
    Scanner.step ⟨.inString (.hex 0) raw, stack⟩ c = some ⟨.inString .plain (c :: raw), stack⟩ := by
  show stateInString (.hex 0) raw stack c = _
  rw [stateInString, if_pos (by rw [h]; rfl)]

/-- The scanner takes what was written for a character. -/
theorem run_quoteRune (r : Option Char) (raw : List Char) (stack : List Frame) :
    Scanner.run ⟨.inString .plain raw, stack⟩ (quoteRune r)
      = some ⟨.inString .plain ((quoteRune r).reverse ++ raw), stack⟩ := by
  cases r with
  | none => rfl
  | some c =>
    rw [quoteRune]
    split_ifs with h1 h2 h3 h4 h5 h6 h7 h8
    · rfl
    · rfl
    · rfl
    · rfl
    · rfl
    · have hlt : c.toNat < 0x80 := by
        rcases h6 with h | rfl | rfl | rfl
        · omega
        all_goals decide
      -- the first four characters are fixed, the last two are digits
      show Scanner.run ⟨.inString (.hex 1) ('0' :: '0' :: 'u' :: '\\' :: raw), stack⟩
        [hexDigit (c.toNat / 16), hexDigit (c.toNat % 16)] = _
      rw [Scanner.run_cons, step_hex (hexVal?_hexDigit _ (by omega)), Option.bind_some,
        Scanner.run_cons, step_hex_last (hexVal?_hexDigit _ (by omega))]
      rfl
    · rfl
    · rfl
    · have hstep : Scanner.step ⟨.inString .plain raw, stack⟩ c
          = some ⟨.inString .plain (c :: raw), stack⟩ := by
        show stateInString .plain raw stack c = _
        rw [stateInString, if_neg h1, if_neg h2, if_neg (fun h => h6 (Or.inl h))]
      rw [Scanner.run_cons, hstep]
      rfl

/-- Inside a string the scanner takes every quoted rune. -/
theorem run_flatMap_quoteRune (rs : List (Option Char)) (raw : List Char) (stack : List Frame) :
    Scanner.run ⟨.inString .plain raw, stack⟩ (rs.flatMap quoteRune)
      = some ⟨.inString .plain ((rs.flatMap quoteRune).reverse ++ raw), stack⟩ := by
  induction rs generalizing raw with
  | nil => rfl
  | cons r rs ih =>
    rw [List.flatMap_cons, Scanner.run_append, run_quoteRune, Option.bind_some, ih,
      List.reverse_append, List.append_assoc]

/-- The scanner reads a string literal from its opening quote on. -/
theorem run_quote {m : Mode} {stack : List Frame}
    (hm : Scanner.step ⟨m, stack⟩ '"' = some ⟨.inString .plain [], stack⟩) (s : Bytes) :
    Scanner.run ⟨m, stack⟩ (quote s) = some ⟨.endValue (.string (text s)), stack⟩ := by
  rw [quote, Scanner.run_cons, hm, Option.bind_some, Scanner.run_append, run_flatMap_quoteRune,
    Option.bind_some, List.append_nil]
  show some (⟨.endValue (.string (unquote _)), stack⟩ : Scanner) = _
  rw [List.reverse_reverse, unquote_flatMap_quoteRune]
  rfl

/-- A member as it is read. -/
def readMember (e : Bytes × Bytes) : List Char × Value := (text e.1, .string (text e.2))

/-- The scanner reads a key and its string. -/
theorem run_member {m : Mode} (ms : List (List Char × Value)) (stack : List Frame)
    (hm : Scanner.step ⟨m, .objectKey ms :: stack⟩ '"'
      = some ⟨.inString .plain [], .objectKey ms :: stack⟩) (e : Bytes × Bytes) :
    Scanner.run ⟨m, .objectKey ms :: stack⟩ (quote e.1 ++ ':' :: quote e.2)
      = some ⟨.endValue (.string (text e.2)), .objectValue ms (text e.1) :: stack⟩ := by
  rw [Scanner.run_append, run_quote hm, Option.bind_some, Scanner.run_cons]
  show Scanner.run ⟨.beginValue, .objectValue ms (text e.1) :: stack⟩ (quote e.2) = _
  exact run_quote rfl e.2

/-- The scanner reads the members of an object and its closing brace. -/
theorem run_membersText (e : Bytes × Bytes) (es : List (Bytes × Bytes)) {m : Mode}
    (ms : List (List Char × Value)) (stack : List Frame)
    (hm : Scanner.step ⟨m, .objectKey ms :: stack⟩ '"'
      = some ⟨.inString .plain [], .objectKey ms :: stack⟩) :
    Scanner.run ⟨m, .objectKey ms :: stack⟩ (membersText (e :: es))
      = some ⟨.endValue (.object (ms.reverse ++ (e :: es).map readMember)), stack⟩ := by
  induction es generalizing e ms m with
  | nil =>
    rw [membersText, Scanner.run_append, run_member ms stack hm, Option.bind_some]
    show some (⟨.endValue (.object (readMember e :: ms).reverse), stack⟩ : Scanner) = _
    rw [List.reverse_cons]
    rfl
  | cons e' es ih =>
    rw [membersText, Scanner.run_append, run_member ms stack hm, Option.bind_some,
      Scanner.run_cons]
    show Scanner.run ⟨.beginString, .objectKey (readMember e :: ms) :: stack⟩
      (membersText (e' :: es)) = _
    rw [ih e' (readMember e :: ms) rfl, List.reverse_cons, List.append_assoc]
    rfl

/-- **What was written is read back**, with the text of each key and value. -/
theorem scan_marshalObject (es : List (Bytes × Bytes)) :
    scan .start (text (marshalObject es)) = some (.object (es.map readMember), []) := by
  have hrun : Scanner.start.run ('{' :: membersText es)
      = some ⟨.endValue (.object (es.map readMember)), []⟩ := by
    cases es with
    | nil => rfl
    | cons e es => exact run_membersText e es [] [] rfl
  rw [marshalObject, text_encode]
  have h := scan_append hrun []
  rw [List.append_nil] at h
  rw [h]
  rfl

/-- What is marshalled is read as one object. -/
theorem decode_marshalObject (es : List (Bytes × Bytes)) :
    decode (marshalObject es) = some (.object (es.map readMember)) := by
  rw [decode, scan_marshalObject]
  rfl

/-- **A marshalled object is unmarshalled again**, member by member. -/
theorem unmarshal_marshalObject (es : List (Bytes × Bytes)) :
    unmarshal (marshalObject es) = some (.object (es.map readMember)) := by
  rw [unmarshal, scan_marshalObject]

example : decode (encode "\x7b\"a\" : \"\\ud83d\\ude00\\n\"\x7d x".toList)
    = some (.object [(['a'], .string ['😀', '\n'])]) := rfl

end OSPortfolio.Json
