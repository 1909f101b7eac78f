import OSPortfolio.Ish.Words

namespace OSPortfolio.Ish

open OSPortfolio.Lexing

/-!
# Quotes in a word

The pattern `word` and the loop of `copyEscapedString` describe the same quoting, one for the
length of a word and the other for its value.  The pieces of the pattern are a prefix code
(`prefixCode_wordItem`), so a word has one decomposition into pieces, and each character of it
has one role there.

* `pieceRoles`, `pieceMeaning` — the roles and the value of a piece in the pattern;
* `copySteps` — the loop, with what it does at each character and the quote it ends in;
* `copyEscaped_eq` — it copies what `copyEscaped` copies;
* `copiesPieces_iff` — **the two agree on a word exactly if no quoted piece of it has its own
  delimiter inside**, behind a backslash.
-/

/-- What becomes of a character of a word. -/
inductive Role
  | copied
  | escapes
  | opens
  | closes
  deriving DecidableEq, Repr

/-! ### The pattern -/

/-- The roles of the characters of a piece: a plain character stands for itself, a backslash
    escapes the next one, and what stands between quotes is copied. -/
def pieceRoles : List Char → List Role
  | ['\\', _] => [.escapes, .copied]
  | c :: cs =>
    if isQuotes c then .opens :: (cs.dropLast.map fun _ => .copied) ++ [.closes]
    else .copied :: cs.map fun _ => .copied
  | [] => []

/-- The value of a piece. -/
def pieceMeaning : List Char → List Char
  | ['\\', d] => [d]
  | c :: cs => if isQuotes c then cs.dropLast else c :: cs
  | [] => []

/-! ### The loop -/

/-- The loop of `copyEscapedString` with `quotechar`: what it does at each character, and
    `quotechar` when it comes to the terminator. -/
def copySteps : Option Char → List Char → List Role × Option Char
  | quote, [] => ([], quote)
  | none, ['\\'] => ([.escapes], none)
  | none, '\\' :: _ :: cs => (.escapes :: .copied :: (copySteps none cs).1, (copySteps none cs).2)
  | none, c :: cs =>
    if isQuotes c then (.opens :: (copySteps (some c) cs).1, (copySteps (some c) cs).2)
    else (.copied :: (copySteps none cs).1, (copySteps none cs).2)
  | some q, c :: cs =>
    if c = q then (.closes :: (copySteps none cs).1, (copySteps none cs).2)
    else (.copied :: (copySteps (some q) cs).1, (copySteps (some q) cs).2)

/-- The characters that are copied. -/
def copiedChars (roles : List Role) (cs : List Char) : List Char :=
  ((roles.zip cs).filter (·.1 = .copied)).map Prod.snd

/-- What is copied of a string, from its first character. -/
theorem copiedChars_cons (r : Role) (rs : List Role) (c : Char) (cs : List Char) :
    copiedChars (r :: rs) (c :: cs) =
      if r = .copied then c :: copiedChars rs cs else copiedChars rs cs := by
  by_cases hr : r = .copied <;> simp [copiedChars, hr]

/-- The loop copies what `copyEscaped` copies. -/
theorem copyEscaped_eq (quote : Option Char) (cs : List Char) :
    copyEscaped quote cs = copiedChars (copySteps quote cs).1 cs := by
  fun_induction copySteps quote cs with
  | case1 quote => cases quote <;> rfl
  | case2 => rfl
  | case3 d cs ih =>
    rw [copiedChars_cons, copiedChars_cons, ← ih]
    rfl
  | case4 c cs hlast hescape hquote ih =>
    rw [copiedChars_cons, ← ih, copyEscaped, if_pos hquote]
    · rfl
    · exact hlast
    · exact hescape
  | case5 c cs hlast hescape hquote ih =>
    rw [copiedChars_cons, ← ih, copyEscaped, if_neg hquote]
    · rfl
    · exact hlast
    · exact hescape
  | case6 c cs ih =>
    rw [copiedChars_cons, ← ih, copyEscaped, if_pos rfl]
    rfl
  | case7 q c cs hne ih =>
    rw [copiedChars_cons, ← ih, copyEscaped, if_neg hne]
    rfl

/-! ### One piece -/

/-- Between two quotes the loop copies up to the next one of the same kind. -/
theorem copySteps_quoted {q : Char} {b : List Char} (h : q ∉ b) (rest : List Char) :
    copySteps (some q) (b ++ q :: rest) =
      (b.map (fun _ => .copied) ++ .closes :: (copySteps none rest).1, (copySteps none rest).2) := by
  induction b with
  | nil => rw [List.nil_append, copySteps, if_pos rfl]; rfl
  | cons c b ih =>
    have hc : c ≠ q := fun heq => h (heq ▸ List.mem_cons_self)
    rw [List.cons_append, copySteps, if_neg hc, ih fun hmem => h (List.mem_cons_of_mem c hmem)]
    rfl

/-- A plain character outside quotes is copied. -/
theorem copySteps_char {c : Char} (hplain : isPlain c = true) (rest : List Char) :
    copySteps none (c :: rest) = (.copied :: (copySteps none rest).1, (copySteps none rest).2) := by
  have hquote : ¬ isQuotes c = true := fun h => by
    rw [(quote_cases h).1] at hplain
    exact absurd hplain (by decide)
  have hback : c ≠ '\\' := by
    rintro rfl
    exact absurd hplain (by decide)
  rw [copySteps, if_neg hquote]
  · exact fun h _ => hback h
  · exact fun d cs h => absurd h hback

/-- A quote outside quotes opens a string. -/
theorem copySteps_opens {q : Char} (hq : isQuotes q = true) (rest : List Char) :
    copySteps none (q :: rest) =
      (.opens :: (copySteps (some q) rest).1, (copySteps (some q) rest).2) := by
  have hback := (quote_cases hq).2.2.2.2
  rw [copySteps, if_pos hq]
  · exact fun h _ => hback h
  · exact fun d cs h => absurd h hback

/-- A plain character means itself. -/
theorem pieceRoles_char {c : Char} (hplain : isPlain c = true) :
    pieceRoles [c] = [.copied] ∧ pieceMeaning [c] = [c] := by
  have hquote : ¬ isQuotes c = true := fun h => by
    rw [(quote_cases h).1] at hplain
    exact absurd hplain (by decide)
  simp [pieceRoles, pieceMeaning, hquote]

/-- A quoted string means what stands between the quotes. -/
theorem pieceRoles_quoted {q : Char} (hq : isQuotes q = true) (b : List Char) :
    pieceRoles (q :: (b ++ [q])) = .opens :: (b.map fun _ => .copied) ++ [.closes] ∧
      pieceMeaning (q :: (b ++ [q])) = b := by
  have hback := (quote_cases hq).2.2.2.2
  constructor
  · rw [pieceRoles, if_pos hq, List.dropLast_concat]
    exact fun d h => absurd h hback
  · rw [pieceMeaning, if_pos hq, List.dropLast_concat]
    exact fun d h => absurd h hback

/-- A quoted piece whose own delimiter does not stand between its ends. -/
def NoDelimiterInside (u : List Char) : Prop :=
  ∀ q b, isQuotes q = true → u = q :: (b ++ [q]) → q ∉ b

/-- **A piece without its own delimiter inside** is copied as the pattern reads it. -/
theorem copySteps_piece {u : List Char} (hu : u ∈ wordItem) (h : NoDelimiterInside u)
    (rest : List Char) : copySteps none (u ++ rest) =
      (pieceRoles u ++ (copySteps none rest).1, (copySteps none rest).2) := by
  rcases mem_wordItem.mp hu with ⟨c, hc, rfl⟩ | ⟨d, -, rfl⟩ | ⟨q, hq, b, -, rfl⟩
  · rw [(pieceRoles_char hc).1]
    exact copySteps_char hc rest
  · show copySteps none ('\\' :: d :: rest) = _
    rw [copySteps]
    rfl
  · rw [(pieceRoles_quoted hq b).1, List.cons_append, List.append_assoc, List.singleton_append,
      copySteps_opens hq, copySteps_quoted (h q b hq rfl)]
    simp

/-- A quoted piece with its own delimiter inside: there the loop closes the quote. -/
theorem copySteps_delimiter {q : Char} {b : List Char} (hq : isQuotes q = true) (hmem : q ∈ b)
    (rest : List Char) (rs : List Role) :
    (copySteps none (q :: (b ++ [q]) ++ rest)).1 ≠ pieceRoles (q :: (b ++ [q])) ++ rs := by
  obtain ⟨b₁, b₂, rfl, hnot⟩ := List.eq_append_cons_of_mem hmem
  intro h
  have hleft : q :: (b₁ ++ q :: b₂ ++ [q]) ++ rest = q :: (b₁ ++ q :: (b₂ ++ [q] ++ rest)) := by
    simp
  rw [hleft, copySteps_opens hq, copySteps_quoted hnot, (pieceRoles_quoted hq _).1] at h
  -- up to that delimiter both copy
  simp only [List.map_append, List.map_cons, List.cons_append, List.append_assoc,
    List.cons.injEq, true_and, List.append_cancel_left_eq] at h
  exact absurd h.1 (by decide)

/-! ### A word -/

/-- What is copied of a string, from its parts. -/
theorem copiedChars_append {rs₁ : List Role} {cs₁ : List Char} (h : rs₁.length = cs₁.length)
    (rs₂ : List Role) (cs₂ : List Char) :
    copiedChars (rs₁ ++ rs₂) (cs₁ ++ cs₂) = copiedChars rs₁ cs₁ ++ copiedChars rs₂ cs₂ := by
  rw [copiedChars, List.zip_append h, List.filter_append, List.map_append]
  rfl

/-- If all characters are copied, the string is. -/
theorem copiedChars_map (b : List Char) : copiedChars (b.map fun _ => .copied) b = b := by
  induction b with
  | nil => rfl
  | cons c b ih => rw [List.map_cons, copiedChars_cons, if_pos rfl, ih]

/-- The roles of a piece copy its value. -/
theorem copiedChars_piece {u : List Char} (hu : u ∈ wordItem) :
    (pieceRoles u).length = u.length ∧ copiedChars (pieceRoles u) u = pieceMeaning u := by
  rcases mem_wordItem.mp hu with ⟨c, hc, rfl⟩ | ⟨d, -, rfl⟩ | ⟨q, hq, b, -, rfl⟩
  · obtain ⟨hroles, hmeaning⟩ := pieceRoles_char hc
    rw [hroles, hmeaning]
    exact ⟨rfl, rfl⟩
  · exact ⟨rfl, rfl⟩
  · obtain ⟨hroles, hmeaning⟩ := pieceRoles_quoted hq b
    rw [hroles, hmeaning, List.cons_append, copiedChars_cons, if_neg (by decide),
      copiedChars_append (by simp), copiedChars_map]
    exact ⟨by simp, by simp [copiedChars]⟩

/-- `copyEscapedString` returns the values of the pieces one after the other, opens and closes
    quotes where the pieces do, and has none open at the end. -/
structure CopiesPieces (ws : List (List Char)) : Prop where
  value : copyEscapedString ws.flatten = String.ofList (ws.flatMap pieceMeaning)
  roles : (copySteps none ws.flatten).1 = ws.flatMap pieceRoles
  closed : (copySteps none ws.flatten).2 = none

/-- **The copy takes the pieces one by one** if and only if no piece has its delimiter inside. -/
theorem copySteps_flatten {ws : List (List Char)} (hws : ∀ u ∈ ws, u ∈ wordItem) :
    ((∀ u ∈ ws, NoDelimiterInside u) →
        copySteps none ws.flatten = (ws.flatMap pieceRoles, none)) ∧
      ((copySteps none ws.flatten).1 = ws.flatMap pieceRoles → ∀ u ∈ ws, NoDelimiterInside u) := by
  induction ws with
  | nil => exact ⟨fun _ => rfl, fun _ u hu => absurd hu (by simp)⟩
  | cons u ws ih =>
    obtain ⟨hu, hws⟩ := List.forall_mem_cons.mp hws
    obtain ⟨hagree, hinside⟩ := ih hws
    rw [List.flatten_cons, List.flatMap_cons]
    constructor
    · intro h
      obtain ⟨hfirst, hrest⟩ := List.forall_mem_cons.mp h
      rw [copySteps_piece hu hfirst, hagree hrest]
    · intro h
      have hfirst : NoDelimiterInside u := by
        rintro q b hq rfl hmem
        exact copySteps_delimiter hq hmem _ _ h
      rw [copySteps_piece hu hfirst] at h
      exact List.forall_mem_cons.mpr ⟨hfirst, hinside (List.append_cancel_left h)⟩

/-- What the pieces mean, one after the other. -/
theorem copiedChars_flatten {ws : List (List Char)} (hws : ∀ u ∈ ws, u ∈ wordItem) :
    copiedChars (ws.flatMap pieceRoles) ws.flatten = ws.flatMap pieceMeaning := by
  induction ws with
  | nil => rfl
  | cons u ws ih =>
    obtain ⟨hu, hws⟩ := List.forall_mem_cons.mp hws
    obtain ⟨hlength, hvalue⟩ := copiedChars_piece hu
    rw [List.flatten_cons, List.flatMap_cons, List.flatMap_cons, copiedChars_append hlength,
      hvalue, ih hws]

/-- **Where the lexer and the copier agree.**  On a word of these pieces they do exactly if no
    quoted piece has its own delimiter inside. -/
theorem copiesPieces_iff {ws : List (List Char)} (hws : ∀ u ∈ ws, u ∈ wordItem) :
    CopiesPieces ws ↔ ∀ u ∈ ws, NoDelimiterInside u := by
  obtain ⟨hagree, hinside⟩ := copySteps_flatten hws
  constructor
  · exact fun h => hinside h.roles
  · intro h
    have hsteps := hagree h
    refine ⟨?_, by rw [hsteps], by rw [hsteps]⟩
    rw [copyEscapedString, copyEscaped_eq, hsteps, copiedChars_flatten hws]

/-- A quoted piece, from its inner pieces. -/
theorem quoted_mem_wordItem {q : Char} (hq : isQuotes q = true) {vs : List (List Char)}
    (hvs : ∀ v ∈ vs, v ∈ quoteItem q) : q :: (vs.flatten ++ [q]) ∈ wordItem :=
  mem_wordItem.mpr (Or.inr (Or.inr ⟨q, hq, vs.flatten, Language.mem_kstar.mpr ⟨vs, rfl, hvs⟩, rfl⟩))

/-- `a\ 'x'`: a plain character, an escaped blank and a quoted character. -/
theorem copiesPieces_iff_three :
    CopiesPieces [['a'], ['\\', ' '], ['\'', 'x', '\'']] ↔
      ∀ u ∈ [['a'], ['\\', ' '], ['\'', 'x', '\'']], NoDelimiterInside u := by
  have hquoted : ['\'', 'x', '\''] ∈ wordItem := by
    refine @quoted_mem_wordItem '\'' (by decide) [['x']] ?_
    rintro v hv
    obtain rfl := List.mem_singleton.mp hv
    exact (mem_quoteItem (by decide)).mpr (Or.inl ⟨'x', by decide, by decide, rfl⟩)
  refine copiesPieces_iff (List.forall_mem_cons.mpr ⟨mem_wordItem.mpr (Or.inl ⟨'a', by decide, rfl⟩),
    List.forall_mem_cons.mpr ⟨mem_wordItem.mpr (Or.inr (Or.inl ⟨' ', by decide, rfl⟩)),
      List.forall_mem_cons.mpr ⟨hquoted, by simp⟩⟩⟩)

/-- `"a\"b"`: one quoted piece for the lexer; the copier loses two quotes, and the last one
    opens a sequence that nothing closes. -/
theorem escaped_delimiter_closes :
    ['"', 'a', '\\', '"', 'b', '"'] ∈ wordItem ∧
      wordLength ['"', 'a', '\\', '"', 'b', '"'] = 6 ∧
      copyEscapedString ['"', 'a', '\\', '"', 'b', '"'] = "a\\b" ∧
      (copySteps none ['"', 'a', '\\', '"', 'b', '"']).2 = some '"' ∧
      ¬ CopiesPieces [['"', 'a', '\\', '"', 'b', '"']] := by
  refine ⟨?_, by decide, by decide, by decide, fun h => absurd h.closed (by decide)⟩
  refine @quoted_mem_wordItem '"' (by decide) [['a'], ['\\', '"'], ['b']] ?_
  simp only [List.mem_cons, List.not_mem_nil, or_false, forall_eq_or_imp, forall_eq,
    mem_quoteItem (q := '"') (by decide)]
  exact ⟨Or.inl ⟨'a', by decide, by decide, rfl⟩, Or.inr ⟨'"', by decide, rfl⟩,
    Or.inl ⟨'b', by decide, by decide, rfl⟩⟩

end OSPortfolio.Ish
