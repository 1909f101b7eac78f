import OSPortfolio.Lib.PrefixCode
import OSPortfolio.Ish.Lexer

namespace OSPortfolio.Ish

open Computability OSPortfolio.Lexing

/-!
# Words

The definitions of `lexer.l` as languages, in the words of that file, and what the scanner of
`Lexer.lean` has to do with them: it finds the longest prefix that the pattern `word` matches.

* `nonquotes`, `dquoteseq`, `squoteseq`, `word` — the definitions;
* `prefixCode_wordItem` — the pieces of a word are a prefix code;
* `scanWord_spec` — the scanner, outside and inside of quotes;
* `wordLength_spec` — the scanner finds the longest match.
-/

/-! ### The definitions of `lexer.l` -/

/-- A character class. -/
def oneOf (p : Char → Bool) : Language Char := {w | ∃ c, p c = true ∧ w = [c]}

/-- `{backslash}({separator}|{redirect}|{eoln}|{spaces}|{number}|{alpha}|..)` -/
def backspecial : Language Char := oneOf (· = '\\') * oneOf isBackspecial

/-- `({alpha}|{number}|{backspecial}|{others}|{spaces}|{eoln}|{redirect})` -/
def nonquotes : Language Char :=
  oneOf Char.isAlpha + oneOf Char.isDigit + backspecial + oneOf isOthers + oneOf isSpaces +
    oneOf (· = '\n') + oneOf isRedirect

/-- `{dq}(({nonquotes}|{sq})*){dq}` -/
def dquoteseq : Language Char :=
  oneOf (· = '"') * (nonquotes + oneOf (· = '\''))∗ * oneOf (· = '"')

/-- `{sq}(({nonquotes}|{dq})*){sq}` -/
def squoteseq : Language Char :=
  oneOf (· = '\'') * (nonquotes + oneOf (· = '"'))∗ * oneOf (· = '\'')

/-- `{alpha}|{number}|{backspecial}|{others}|{dquoteseq}|{squoteseq}` -/
def wordItem : Language Char :=
  oneOf Char.isAlpha + oneOf Char.isDigit + backspecial + oneOf isOthers + dquoteseq + squoteseq

/-- `({alpha}|{number}|{backspecial}|{others}|{dquoteseq}|{squoteseq})*` -/
def word : Language Char := wordItem∗

/-! ### The pieces -/

theorem mem_oneOf {p : Char → Bool} {w : List Char} : w ∈ oneOf p ↔ ∃ c, p c = true ∧ w = [c] :=
  Iff.rfl

theorem mem_backspecial {w : List Char} :
    w ∈ backspecial ↔ ∃ d, isBackspecial d = true ∧ w = ['\\', d] := by
  simp only [backspecial, Language.mem_mul, mem_oneOf, decide_eq_true_eq]
  constructor
  · rintro ⟨_, ⟨_, rfl, rfl⟩, _, ⟨d, hd, rfl⟩, rfl⟩
    exact ⟨d, hd, rfl⟩
  · rintro ⟨d, hd, rfl⟩
    exact ⟨['\\'], ⟨'\\', rfl, rfl⟩, [d], ⟨d, hd, rfl⟩, rfl⟩

/-- The pieces between two quotes `q`. -/
def quoteItem (q : Char) : Language Char :=
  nonquotes + oneOf (fun c => isQuotes c && c ≠ q)

/-- A quote is nothing else. -/
theorem quote_cases {q : Char} (hq : isQuotes q = true) :
    isPlain q = false ∧ isSpaces q = false ∧ q ≠ '\n' ∧ isRedirect q = false ∧ q ≠ '\\' := by
  simp only [isQuotes, Bool.or_eq_true, decide_eq_true_eq] at hq
  rcases hq with rfl | rfl <;> decide

/-- The words of `NONQUOTES`. -/
theorem mem_nonquotes {w : List Char} :
    w ∈ nonquotes ↔
      (∃ c, (isPlain c || isSpaces c || c = '\n' || isRedirect c) = true ∧ w = [c]) ∨
        ∃ d, isBackspecial d = true ∧ w = ['\\', d] := by
  simp only [nonquotes, Language.mem_add, mem_oneOf, mem_backspecial, isPlain, Bool.or_eq_true,
    decide_eq_true_eq]
  constructor
  · rintro ((((((⟨c, hc, rfl⟩ | ⟨c, hc, rfl⟩) | h) | ⟨c, hc, rfl⟩) | ⟨c, hc, rfl⟩) |
      ⟨c, hc, rfl⟩) | ⟨c, hc, rfl⟩)
    · exact Or.inl ⟨c, by simp [hc], rfl⟩
    · exact Or.inl ⟨c, by simp [hc], rfl⟩
    · exact Or.inr h
    · exact Or.inl ⟨c, by simp [hc], rfl⟩
    · exact Or.inl ⟨c, by simp [hc], rfl⟩
    · exact Or.inl ⟨c, by simp [hc], rfl⟩
    · exact Or.inl ⟨c, by simp [hc], rfl⟩
  · rintro (⟨c, (((((hc | hc) | hc) | hc) | hc) | hc), rfl⟩ | h)
    · simp [hc]
    · simp [hc]
    · simp [hc]
    · simp [hc]
    · simp [hc]
    · simp [hc]
    · exact Or.inl (Or.inl (Or.inl (Or.inl (Or.inr h))))

/-- What stands between two quotes is a quotable character or an escaped one. -/
theorem mem_quoteItem {q : Char} (hq : isQuotes q = true) {w : List Char} :
    w ∈ quoteItem q ↔
      (∃ c, isQuotable c = true ∧ c ≠ q ∧ w = [c]) ∨
        ∃ d, isBackspecial d = true ∧ w = ['\\', d] := by
  obtain ⟨hplain, hspaces, heoln, hredirect, -⟩ := quote_cases hq
  rw [quoteItem, Language.mem_add, mem_nonquotes, mem_oneOf]
  -- the quote `q` is in none of the classes but the one for quotes
  have hchar : ∀ c, isQuotable c = true ∧ c ≠ q ↔
      (isPlain c || isSpaces c || c = '\n' || isRedirect c) = true ∨
        (isQuotes c && c ≠ q) = true := by
    intro c
    by_cases hc : c = q
    · subst hc
      simp [hplain, hspaces, heoln, hredirect]
    · simp [isQuotable, hc]
  constructor
  · rintro ((⟨c, hc, rfl⟩ | h) | ⟨c, hc, rfl⟩)
    · obtain ⟨hquot, hne⟩ := (hchar c).mpr (Or.inl hc)
      exact Or.inl ⟨c, hquot, hne, rfl⟩
    · exact Or.inr h
    · obtain ⟨hquot, hne⟩ := (hchar c).mpr (Or.inr hc)
      exact Or.inl ⟨c, hquot, hne, rfl⟩
  · rintro (⟨c, hquot, hne, rfl⟩ | h)
    · rcases (hchar c).mp ⟨hquot, hne⟩ with hc | hc
      · exact Or.inl (Or.inl ⟨c, hc, rfl⟩)
      · exact Or.inr ⟨c, hc, rfl⟩
    · exact Or.inl (Or.inr h)

/-- `dquoteseq` and `squoteseq` have one shape. -/
theorem mem_quoted {q : Char} {B : Language Char} {w : List Char} :
    w ∈ oneOf (· = q) * B∗ * oneOf (· = q) ↔ ∃ b ∈ B∗, w = q :: (b ++ [q]) := by
  simp only [Language.mem_mul, mem_oneOf, decide_eq_true_eq]
  constructor
  · rintro ⟨_, ⟨_, ⟨_, rfl, rfl⟩, b, hb, rfl⟩, _, ⟨_, rfl, rfl⟩, rfl⟩
    exact ⟨b, hb, rfl⟩
  · rintro ⟨b, hb, rfl⟩
    exact ⟨q :: b, ⟨[q], ⟨q, rfl, rfl⟩, b, hb, rfl⟩, [q], ⟨q, rfl, rfl⟩, rfl⟩

/-- `DQUOTESEQ` is its delimiters around items. -/
theorem dquoteseq_eq : dquoteseq = oneOf (· = '"') * (quoteItem '"')∗ * oneOf (· = '"') := by
  have hother : (fun c => isQuotes c && c ≠ '"') = fun c => decide (c = '\'') := by
    funext c
    by_cases hc : c = '"'
    · subst hc; rfl
    · simp [isQuotes, hc]
  rw [dquoteseq, quoteItem, hother]

theorem squoteseq_eq : squoteseq = oneOf (· = '\'') * (quoteItem '\'')∗ * oneOf (· = '\'') := by
  have hother : (fun c => isQuotes c && c ≠ '\'') = fun c => decide (c = '"') := by
    funext c
    by_cases hc : c = '\''
    · subst hc; rfl
    · simp [isQuotes, hc]
  rw [squoteseq, quoteItem, hother]

/-- **The pieces of a word**: a plain character, an escaped one, or a quoted string. -/
theorem mem_wordItem {w : List Char} :
    w ∈ wordItem ↔
      (∃ c, isPlain c = true ∧ w = [c]) ∨ (∃ d, isBackspecial d = true ∧ w = ['\\', d]) ∨
        ∃ q, isQuotes q = true ∧ ∃ b ∈ (quoteItem q)∗, w = q :: (b ++ [q]) := by
  simp only [wordItem, Language.mem_add, mem_oneOf, mem_backspecial, dquoteseq_eq, squoteseq_eq,
    mem_quoted, isPlain, isQuotes, Bool.or_eq_true, decide_eq_true_eq]
  constructor
  · rintro (((((⟨c, hc, rfl⟩ | ⟨c, hc, rfl⟩) | h) | ⟨c, hc, rfl⟩) | h) | h)
    · exact Or.inl ⟨c, by simp [hc], rfl⟩
    · exact Or.inl ⟨c, by simp [hc], rfl⟩
    · exact Or.inr (Or.inl h)
    · exact Or.inl ⟨c, by simp [hc], rfl⟩
    · exact Or.inr (Or.inr ⟨'"', Or.inl rfl, h⟩)
    · exact Or.inr (Or.inr ⟨'\'', Or.inr rfl, h⟩)
  · rintro (⟨c, ((hc | hc) | hc), rfl⟩ | h | ⟨q, (rfl | rfl), h⟩)
    · simp [hc]
    · simp [hc]
    · simp [hc]
    · exact Or.inl (Or.inl (Or.inl (Or.inr h)))
    · exact Or.inl (Or.inr h)
    · exact Or.inr h

/-- What is quoted does not begin with the delimiter. -/
theorem quoteItem_head {q : Char} (hq : isQuotes q = true) {u : List Char}
    (hu : u ∈ quoteItem q) : u.head? ≠ some q := by
  obtain ⟨-, -, -, -, hback⟩ := quote_cases hq
  rcases (mem_quoteItem hq).mp hu with ⟨c, -, hne, rfl⟩ | ⟨d, -, rfl⟩
  · simpa using hne
  · simpa using hback.symm

/-- No item of a quoted string begins another. -/
theorem prefixCode_quoteItem {q : Char} (hq : isQuotes q = true) : PrefixCode (quoteItem q) := by
  refine ⟨by simp [mem_quoteItem hq], fun {u v x y} hu hv h => ?_⟩
  have hback : ¬ isQuotable '\\' = true := by decide
  rcases (mem_quoteItem hq).mp hu with ⟨c, hc, -, rfl⟩ | ⟨d, -, rfl⟩
  · rcases (mem_quoteItem hq).mp hv with ⟨c', -, -, rfl⟩ | ⟨d', -, rfl⟩
    · exact congrArg (fun c => [c]) (List.cons.inj h).1
    · obtain ⟨rfl, -⟩ := List.cons.inj h
      exact absurd hc hback
  · rcases (mem_quoteItem hq).mp hv with ⟨c', hc', -, rfl⟩ | ⟨d', -, rfl⟩
    · obtain ⟨rfl, -⟩ := List.cons.inj h
      exact absurd hc' hback
    · exact congrArg (fun d => ['\\', d]) (List.cons.inj (List.cons.inj h).2).1

/-- The first character says what kind of piece it is. -/
theorem prefixCode_wordItem : PrefixCode wordItem := by
  refine ⟨by simp [mem_wordItem], fun {u v x y} hu hv h => ?_⟩
  have hback : ¬ isPlain '\\' = true := by decide
  have hquote : ∀ {q}, isQuotes q = true → ¬ isPlain q = true ∧ q ≠ '\\' := fun hq =>
    ⟨by simp [(quote_cases hq).1], (quote_cases hq).2.2.2.2⟩
  -- plain, escaped or quoted: two pieces of different kinds begin with different characters
  rcases mem_wordItem.mp hu with ⟨c, hc, rfl⟩ | ⟨d, -, rfl⟩ | ⟨q, hq, b, hb, rfl⟩
  · rcases mem_wordItem.mp hv with ⟨c', -, rfl⟩ | ⟨d', -, rfl⟩ | ⟨q', hq', b', -, rfl⟩
    · exact congrArg (fun c => [c]) (List.cons.inj h).1
    · obtain ⟨rfl, -⟩ := List.cons.inj h
      exact absurd hc hback
    · obtain ⟨rfl, -⟩ := List.cons.inj h
      exact absurd hc (hquote hq').1
  · rcases mem_wordItem.mp hv with ⟨c', hc', rfl⟩ | ⟨d', -, rfl⟩ | ⟨q', hq', b', -, rfl⟩
    · obtain ⟨rfl, -⟩ := List.cons.inj h
      exact absurd hc' hback
    · exact congrArg (fun d => ['\\', d]) (List.cons.inj (List.cons.inj h).2).1
    · obtain ⟨rfl, -⟩ := List.cons.inj h
      exact absurd rfl (hquote hq').2
  · rcases mem_wordItem.mp hv with ⟨c', hc', rfl⟩ | ⟨d', -, rfl⟩ | ⟨q', -, b', hb', rfl⟩
    · obtain ⟨rfl, -⟩ := List.cons.inj h
      exact absurd hc' (hquote hq).1
    · obtain ⟨rfl, -⟩ := List.cons.inj h
      exact absurd rfl (hquote hq).2
    · -- the same quote opens both, so they close at the same place
      rw [List.cons_append, List.cons_append, List.append_assoc, List.append_assoc] at h
      obtain ⟨rfl, hrest⟩ := List.cons.inj h
      obtain rfl := (prefixCode_quoteItem hq).cancel_closed (fun u hu => quoteItem_head hq hu)
        hb hb' hrest
      rfl

/-! ### The scanner -/

/-- What the scanner is to find: outside of quotes the longest match of `word`, and inside of
    a sequence quoted with `q` its end and the longest match behind it, unless nothing ends
    it. -/
def Scans : Option Char → List Char → Option Nat → Prop
  | none, cs, r => ∃ n, r = some n ∧ LongestPrefix word cs n
  | some q, cs, some n => ∃ b rest m, b ∈ (quoteItem q)∗ ∧ cs = b ++ q :: rest ∧
      LongestPrefix word rest m ∧ n = b.length + 1 + m
  | some q, cs, none => ∀ b ∈ (quoteItem q)∗, ¬ b ++ [q] <+: cs

/-- A piece of a word in front of what is scanned outside of quotes. -/
theorem Scans.append {u cs : List Char} {r : Option Nat} (hu : u ∈ wordItem)
    (h : Scans none cs r) : Scans none (u ++ cs) (r.map (· + u.length)) := by
  obtain ⟨n, rfl, hn⟩ := h
  refine ⟨n + u.length, rfl, ?_⟩
  rw [Nat.add_comm]
  exact hn.append prefixCode_wordItem hu

/-- A piece in front of what is scanned inside of quotes. -/
theorem Scans.appendQuoted {q : Char} (hq : isQuotes q = true) {u cs : List Char}
    {r : Option Nat} (hu : u ∈ quoteItem q) (h : Scans (some q) cs r) :
    Scans (some q) (u ++ cs) (r.map (· + u.length)) := by
  cases r with
  | some n =>
    obtain ⟨b, rest, m, hb, rfl, hm, rfl⟩ := h
    refine ⟨u ++ b, rest, m, append_mem_kstar hu hb, by rw [List.append_assoc], hm, ?_⟩
    show b.length + 1 + m + u.length = (u ++ b).length + 1 + m
    rw [List.length_append]
    omega
  | none =>
    rintro b hb ⟨rest, hrest⟩
    rw [List.append_assoc, List.singleton_append] at hrest
    -- a sequence closed in the longer text starts with `u`, and then closes in the shorter one
    rcases eq_nil_or_append hb with rfl | ⟨v, hv, w, hw, rfl⟩
    · exact (prefixCode_quoteItem hq).append_ne_cons (fun u hu => quoteItem_head hq hu) hu _ _
        hrest.symm
    · rw [List.append_assoc] at hrest
      obtain rfl := (prefixCode_quoteItem hq).cancel hv hu hrest
      exact h w hw ⟨rest, by simpa using List.append_cancel_left hrest⟩

/-- Nothing that ends the word here: no piece stands in front. -/
theorem scans_zero {cs : List Char} (h : ∀ u ∈ wordItem, ¬ u <+: cs) :
    Scans none cs (some 0) := ⟨0, rfl, longestPrefix_zero h⟩

/-- Inside of quotes, with neither a quote nor a piece in front. -/
theorem scans_none {q : Char} {cs : List Char} (hq : ¬ [q] <+: cs)
    (h : ∀ u ∈ quoteItem q, ¬ u <+: cs) : Scans (some q) cs none := by
  intro b hb hprefix
  rcases eq_nil_or_append hb with rfl | ⟨v, hv, w, -, rfl⟩
  · exact hq hprefix
  · rw [List.append_assoc] at hprefix
    exact h v hv ((List.prefix_append v _).trans hprefix)

/-- The pieces that a text can begin with. -/
theorem wordItem_prefix {u cs : List Char} {c : Char} (hu : u ∈ wordItem) (h : u <+: c :: cs) :
    isPlain c = true ∨ (∃ d ds, c = '\\' ∧ cs = d :: ds ∧ isBackspecial d = true) ∨
      isQuotes c = true ∧ ∃ b ∈ (quoteItem c)∗, b ++ [c] <+: cs := by
  rcases mem_wordItem.mp hu with ⟨c', hc, rfl⟩ | ⟨d, hd, rfl⟩ | ⟨q, hq, b, hb, rfl⟩
  · obtain ⟨rfl, -⟩ := List.cons_prefix_cons.mp h
    exact Or.inl hc
  · obtain ⟨rfl, ds, hds⟩ := List.cons_prefix_cons.mp h
    exact Or.inr (Or.inl ⟨d, ds, rfl, hds.symm, hd⟩)
  · obtain ⟨rfl, hprefix⟩ := List.cons_prefix_cons.mp h
    exact Or.inr (Or.inr ⟨hq, b, hb, hprefix⟩)

theorem quoteItem_prefix {q : Char} (hq : isQuotes q = true) {u cs : List Char} {c : Char}
    (hu : u ∈ quoteItem q) (h : u <+: c :: cs) :
    isQuotable c = true ∨ ∃ d ds, c = '\\' ∧ cs = d :: ds ∧ isBackspecial d = true := by
  rcases (mem_quoteItem hq).mp hu with ⟨c', hc, -, rfl⟩ | ⟨d, hd, rfl⟩
  · obtain ⟨rfl, -⟩ := List.cons_prefix_cons.mp h
    exact Or.inl hc
  · obtain ⟨rfl, ds, hds⟩ := List.cons_prefix_cons.mp h
    exact Or.inr ⟨d, ds, rfl, hds.symm, hd⟩

/-- **The scanner**, outside and inside of quotes. -/
theorem scanWord_spec (quote : Option Char) (cs : List Char)
    (hquote : ∀ q ∈ quote, isQuotes q = true) : Scans quote cs (scanWord quote cs) := by
  have hback : ¬ isPlain '\\' = true ∧ ¬ isQuotes '\\' = true ∧ ¬ isQuotable '\\' = true := by
    decide
  fun_induction scanWord quote cs with
  -- outside of quotes, at the end of the text
  | case1 =>
    refine scans_zero fun u hu hprefix => prefixCode_wordItem.nil_notMem ?_
    rwa [List.prefix_nil.mp hprefix] at hu
  -- inside of quotes, at the end of the text: the quote stays open
  | case2 q =>
    have hq := hquote q rfl
    refine scans_none (by simp) fun u hu hprefix => (prefixCode_quoteItem hq).nil_notMem ?_
    rwa [List.prefix_nil.mp hprefix] at hu
  -- an escaped character, outside and inside of quotes
  | case3 d cs hd ih =>
    exact (ih hquote).append (mem_wordItem.mpr (Or.inr (Or.inl ⟨d, hd, rfl⟩)))
  | case4 d cs hd =>
    refine scans_zero fun u hu hprefix => ?_
    rcases wordItem_prefix hu hprefix with hc | ⟨d', ds, -, heq, hd'⟩ | ⟨hc, -⟩
    · exact hback.1 hc
    · obtain ⟨rfl, -⟩ := List.cons.inj heq
      exact hd hd'
    · exact hback.2.1 hc
  | case5 q d cs hd ih =>
    have hq := hquote q rfl
    exact (ih hquote).appendQuoted hq ((mem_quoteItem hq).mpr (Or.inr ⟨d, hd, rfl⟩))
  | case6 q d cs hd =>
    have hq := hquote q rfl
    refine scans_none ?_ fun u hu hprefix => ?_
    · intro hprefix
      obtain ⟨rfl, -⟩ := List.cons_prefix_cons.mp hprefix
      exact hback.2.1 hq
    · rcases quoteItem_prefix hq hu hprefix with hc | ⟨d', ds, -, heq, hd'⟩
      · exact hback.2.2 hc
      · obtain ⟨rfl, -⟩ := List.cons.inj heq
        exact hd hd'
  | case7 c cs _ hplain ih =>
    exact (ih hquote).append (mem_wordItem.mpr (Or.inl ⟨c, hplain, rfl⟩))
  -- an opening quote: a piece of the word if the scan inside finds its end
  | case8 c cs hslash hplain hq ih =>
    have hscan := ih (by simpa using hq)
    cases hr : scanWord (some c) cs with
    | some n =>
      -- the quote is closed: a quoted piece, and the longest match behind it
      rw [hr] at hscan
      obtain ⟨b, rest, m, hb, rfl, hm, rfl⟩ := hscan
      have hpiece := mem_wordItem.mpr (Or.inr (Or.inr ⟨c, hq, b, hb, rfl⟩))
      refine ⟨_, rfl, ?_⟩
      have happend := hm.append prefixCode_wordItem hpiece
      show LongestPrefix (wordItem∗) _ _
      simpa [Nat.add_right_comm, Nat.add_comm, Nat.add_left_comm] using happend
    | none =>
      rw [hr] at hscan
      refine scans_zero fun u hu hprefix => ?_
      rcases wordItem_prefix hu hprefix with hc | ⟨d, ds, hc, heq, -⟩ | ⟨-, b, hb, hclose⟩
      · exact hplain hc
      · exact hslash d ds hc heq
      · exact hscan b hb hclose
  | case9 c cs hslash hplain hq =>
    refine scans_zero fun u hu hprefix => ?_
    rcases wordItem_prefix hu hprefix with hc | ⟨d, ds, hc, heq, -⟩ | ⟨hc, -⟩
    · exact hplain hc
    · exact hslash d ds hc heq
    · exact hq hc
  -- the closing quote
  | case10 c cs hslash ih =>
    obtain ⟨n, hr, hn⟩ := ih (by simp)
    rw [hr]
    exact ⟨[], cs, n, Language.nil_mem_kstar _, rfl, hn, Nat.add_comm n 1⟩
  | case11 q c cs hslash hne hc ih =>
    have hq := hquote q rfl
    exact (ih hquote).appendQuoted hq ((mem_quoteItem hq).mpr (Or.inl ⟨c, hc, hne, rfl⟩))
  | case12 q c cs hslash hne hc =>
    have hq := hquote q rfl
    refine scans_none ?_ fun u hu hprefix => ?_
    · intro hprefix
      obtain ⟨rfl, -⟩ := List.cons_prefix_cons.mp hprefix
      exact hne rfl
    · rcases quoteItem_prefix hq hu hprefix with hquot | ⟨d, ds, hd, heq, -⟩
      · exact hc hquot
      · exact hslash d ds hd heq

/-- **The scanner finds the longest match of the pattern `word`.** -/
theorem wordLength_spec (cs : List Char) : LongestPrefix word cs (wordLength cs) := by
  obtain ⟨n, hr, hn⟩ := scanWord_spec none cs (by simp)
  rw [wordLength, hr]
  exact hn

end OSPortfolio.Ish
