import Mathlib.Algebra.Group.Int.Defs
import Mathlib.Algebra.Group.Nat.Defs
import Mathlib.Data.List.GetD
import OSPortfolio.Lib.Block
import OSPortfolio.Ish.EnvVars

namespace OSPortfolio.Ish

open OSPortfolio.Memory

/-!
# The copy of a word

`copyEscapedString` with its memory: the indexes of its loop, and the block it copies to, whose
size goes through an `int`.  `copyEscaped` is the same loop on lists.

* `CString` — a string without its terminator;
* `copyLoop`, `copyEscapedStringMem` — the function; a read behind the terminator or a write
  outside of the block is a fault;
* `CopyOk` — the function makes no such access and returns a string of characters of its
  argument that is not longer;
* `CopyState` — the invariant of the loop, with a lemma for each of its branches;
* `copyLoop_spec` — the loop writes what `copyEscaped` gives;
* `copyOk_iff` — **it does so exactly for the strings whose size is an `int`**.
-/

/-! ### The function -/

/-- A string, up to its terminator. -/
structure CString where
  chars : List Char
  noNul : '\x00' ∉ chars

/-- `strlen` -/
def CString.strlen (z : CString) : Nat := z.chars.length

/-- `z[i]`, up to the terminator. -/
def CString.read (z : CString) (i : Nat) : Option Char := (z.chars ++ ['\x00'])[i]?

/-- The value `m` of an `int` that `v` is assigned to: a value that does not fit is converted as
    the implementation likes. -/
def IntOf (v : Nat) (m : Int) : Prop := (-2 ^ 31 ≤ m ∧ m < 2 ^ 31) ∧ (v < 2 ^ 31 → m = v)

/-- The loop, from its test on; `none` is an access out of bounds. -/
def copyLoop (zSrc : CString) (maxlen : Int) (quotechar : Char) (iSrc iDest : Nat)
    (zDest : Block Char 1) : Option (Block Char 1) :=
  if _h : iSrc < maxlen then do
    let c ← zSrc.read iSrc
    if c = quotechar then copyLoop zSrc maxlen '\x00' (iSrc + 1) iDest zDest
    else if (c = '"' ∨ c = '\'') ∧ quotechar = '\x00' then
      copyLoop zSrc maxlen c (iSrc + 1) iDest zDest
    else if c = '\\' ∧ quotechar = '\x00' then do
      let d ← zSrc.read (iSrc + 1)
      let zDest ← zDest.store iDest d
      copyLoop zSrc maxlen quotechar (iSrc + 2) (iDest + 1) zDest
    else do
      let zDest ← zDest.store iDest c
      copyLoop zSrc maxlen quotechar (iSrc + 1) (iDest + 1) zDest
  else some zDest
termination_by (maxlen - iSrc).toNat

/-- `copyEscapedString(zSrc)`, with the value of `maxlen`; a block, or `some none` for `NULL`. -/
def copyEscapedStringMem (zSrc : CString) (maxlen : Int) : Option (Option (Block Char 1)) :=
  -- `calloc` takes a negative number for one that is too large, and the loop ends at once
  if maxlen < 0 then some none
  else (copyLoop zSrc maxlen '\x00' 0 0 (.calloc maxlen.toNat '\x00')).map some

/-- The block contains the string `s` with its terminator. -/
structure HasString (b : Block Char 1) (s : List Char) : Prop where
  char : ∀ i c, s[i]? = some c → b.load i = some c
  terminator : b.load s.length = some '\x00'
  noNul : '\x00' ∉ s

/-- Whatever value `maxlen` gets, the function reads and writes within bounds and returns a
    string that is not longer than `zSrc` and has only characters of it. -/
def CopyOk (zSrc : CString) : Prop :=
  ∀ maxlen, IntOf (zSrc.strlen + 1) maxlen →
    ∃ b s, copyEscapedStringMem zSrc maxlen = some (some b) ∧ HasString b s ∧
      s.length ≤ zSrc.strlen ∧ s ⊆ zSrc.chars

/-! ### Reads and writes -/

/-- The character behind those that are done. -/
theorem CString.read_char {z : CString} {done rest : List Char} {c : Char}
    (h : z.chars = done ++ c :: rest) : z.read done.length = some c := by
  rw [CString.read, h, List.append_assoc, List.getElem?_append_right (Nat.le_refl _), Nat.sub_self]
  rfl

/-- Behind all of them stands the terminator. -/
theorem CString.read_terminator {z : CString} {done : List Char} (h : z.chars = done) :
    z.read done.length = some '\x00' := by
  rw [CString.read, h, List.getElem?_append_right (Nat.le_refl _), Nat.sub_self]
  rfl

/-- A character of a string is not the terminator. -/
theorem CString.ne_nul {z : CString} {done rest : List Char} {c : Char}
    (h : z.chars = done ++ c :: rest) : c ≠ '\x00' := by
  rintro rfl
  exact z.noNul (by simp [h])

/-- The block has `n` slots, with `s` and then zeros. -/
structure Filled (b : Block Char 1) (n : Nat) (s : List Char) : Prop where
  slots : b.slots = n
  load : ∀ j < n, b.load j = some (s.getD j '\x00')

/-- A write behind the text. -/
theorem Filled.store {b : Block Char 1} {n : Nat} {s : List Char} (h : Filled b n s)
    (hroom : s.length < n) (c : Char) :
    ∃ b', b.store s.length c = some b' ∧ Filled b' n (s ++ [c]) := by
  obtain ⟨b', hb'⟩ := Block.exists_store (h.slots.symm ▸ hroom) c
  refine ⟨b', hb', (Block.store_eq_some hb').2.trans h.slots, fun j hj => ?_⟩
  rw [Block.load_store hb']
  by_cases hjs : j = s.length
  · rw [if_pos hjs, hjs, List.getD_append_right _ _ _ _ (Nat.le_refl _), Nat.sub_self]
    rfl
  · rw [if_neg hjs, h.load j hj]
    rcases Nat.lt_or_gt_of_ne hjs with hlt | hgt
    · rw [List.getD_append _ _ _ _ hlt]
    · rw [List.getD_eq_default _ _ hgt.le, List.getD_eq_default _ _ (by simp; omega)]

/-- A terminator behind the text is there already. -/
theorem Filled.store_nul {b : Block Char 1} {n : Nat} {s : List Char} (h : Filled b n s)
    (hroom : s.length < n) :
    ∃ b', b.store s.length '\x00' = some b' ∧ Filled b' n s := by
  obtain ⟨b', hb', hfilled⟩ := h.store hroom '\x00'
  refine ⟨b', hb', hfilled.slots, fun j hj => (hfilled.load j hj).trans ?_⟩
  by_cases hjs : j < s.length
  · rw [List.getD_append _ _ _ _ hjs]
  · rw [List.getD_append_right _ _ _ _ (by omega), List.getD_eq_default s _ (by omega)]
    cases j - s.length <;> rfl

/-- A block that is filled with a string and zeros holds it. -/
theorem Filled.hasString {b : Block Char 1} {n : Nat} {s : List Char} (h : Filled b n s)
    (hlen : s.length < n) (hnul : '\x00' ∉ s) : HasString b s := by
  refine ⟨fun i c hi => ?_, ?_, hnul⟩
  · obtain ⟨hlt, -⟩ := List.getElem?_eq_some_iff.mp hi
    rw [h.load i (by omega), List.getD_eq_getElem?_getD, hi]
    rfl
  · rw [h.load _ hlen, List.getD_eq_getElem?_getD, List.getElem?_eq_none (Nat.le_refl _)]
    rfl

/-! ### The loop -/

/-- The copy is no longer than the string. -/
theorem length_copyEscaped_le (quote : Option Char) (cs : List Char) :
    (copyEscaped quote cs).length ≤ cs.length := by
  fun_induction copyEscaped quote cs <;> simp only [List.length_cons, List.length_nil] <;> omega

section

variable {zSrc : CString} {maxlen : Int} {quotechar c d : Char} {iSrc iDest : Nat}
  {b b' : Block Char 1}

/-- The character that ends a quote, or the terminator outside of quotes. -/
theorem copyLoop_quotechar (h : iSrc < maxlen) (hread : zSrc.read iSrc = some quotechar) :
    copyLoop zSrc maxlen quotechar iSrc iDest b =
      copyLoop zSrc maxlen '\x00' (iSrc + 1) iDest b := by
  rw [copyLoop, dif_pos h, hread]
  exact if_pos rfl

/-- The character that starts a quote. -/
theorem copyLoop_quote (h : iSrc < maxlen) (hread : zSrc.read iSrc = some c)
    (hc : c = '"' ∨ c = '\'') :
    copyLoop zSrc maxlen '\x00' iSrc iDest b = copyLoop zSrc maxlen c (iSrc + 1) iDest b := by
  have hne : c ≠ '\x00' := by rcases hc with rfl | rfl <;> decide
  rw [copyLoop, dif_pos h, hread]
  exact (if_neg hne).trans (if_pos ⟨hc, rfl⟩)

/-- A backslash outside of quotes, with the character behind it. -/
theorem copyLoop_backslash (h : iSrc < maxlen) (hread : zSrc.read iSrc = some '\\')
    (hnext : zSrc.read (iSrc + 1) = some d) (hstore : b.store iDest d = some b') :
    copyLoop zSrc maxlen '\x00' iSrc iDest b =
      copyLoop zSrc maxlen '\x00' (iSrc + 2) (iDest + 1) b' := by
  rw [copyLoop, dif_pos h, hread]
  -- the tests are all about the backslash itself
  show (zSrc.read (iSrc + 1)).bind _ = _
  rw [hnext]
  show (b.store iDest d).bind _ = _
  rw [hstore]
  rfl

/-- Any other character. -/
theorem copyLoop_char (h : iSrc < maxlen) (hread : zSrc.read iSrc = some c)
    (hne : c ≠ quotechar) (hplain : quotechar = '\x00' → c ≠ '"' ∧ c ≠ '\'' ∧ c ≠ '\\')
    (hstore : b.store iDest c = some b') :
    copyLoop zSrc maxlen quotechar iSrc iDest b =
      copyLoop zSrc maxlen quotechar (iSrc + 1) (iDest + 1) b' := by
  have hquote : ¬ ((c = '"' ∨ c = '\'') ∧ quotechar = '\x00') := fun hq =>
    hq.1.elim (hplain hq.2).1 (hplain hq.2).2.1
  have hslash : ¬ (c = '\\' ∧ quotechar = '\x00') := fun hq => (hplain hq.2).2.2 hq.1
  rw [copyLoop, dif_pos h, hread]
  refine (if_neg hne).trans ((if_neg hquote).trans ((if_neg hslash).trans ?_))
  show (b.store iDest c).bind _ = _
  rw [hstore]
  rfl

/-- Behind the terminator the loop ends. -/
theorem copyLoop_end (h : ¬ iSrc < maxlen) :
    copyLoop zSrc maxlen quotechar iSrc iDest b = some b := by
  rw [copyLoop, dif_neg h]

end

theorem isQuotes_iff {c : Char} : isQuotes c = true ↔ c = '"' ∨ c = '\'' := by
  simp only [isQuotes, Bool.or_eq_true, decide_eq_true_eq]

/-- Where the loop is: `done` is behind it and `rest` in front, it has written `s`, and inside of
    quotes at least one character less than it has read. -/
structure CopyState (zSrc : CString) (quote : Option Char) (done s : List Char)
    (b : Block Char 1) (rest : List Char) : Prop where
  chars : zSrc.chars = done ++ rest
  quoted : ∀ q, quote = some q → isQuotes q = true
  filled : Filled b (zSrc.strlen + 1) s
  room : s.length + quote.toList.length ≤ done.length

/-- The loop from there on. -/
def copyFrom (zSrc : CString) (quote : Option Char) (done s : List Char) (b : Block Char 1) :
    Option (Block Char 1) :=
  copyLoop zSrc (zSrc.strlen + 1 : Nat) (quote.getD '\x00') done.length s.length b

namespace CopyState

variable {zSrc : CString} {quote : Option Char} {done s rest cs : List Char} {b : Block Char 1}
  {c d q : Char}

theorem strlen (h : CopyState zSrc quote done s b rest) :
    zSrc.strlen = done.length + rest.length := by
  rw [CString.strlen, h.chars, List.length_append]

/-- The loop reads inside the source. -/
theorem inside (h : CopyState zSrc quote done s b rest) :
    (done.length : Int) < (zSrc.strlen + 1 : Nat) := by
  have hlen := h.strlen
  omega

theorem hasRoom (h : CopyState zSrc quote done s b rest) : s.length < zSrc.strlen + 1 := by
  have hlen := h.strlen
  have hroom := h.room
  omega

/-- A quote that is open is no terminator. -/
theorem ne_nul (h : CopyState zSrc (some q) done s b rest) : q ≠ '\x00' := by
  rcases isQuotes_iff.mp (h.quoted q rfl) with rfl | rfl <;> decide

/-- A quote closes. -/
theorem closes (h : CopyState zSrc (some q) done s b (q :: cs)) :
    copyFrom zSrc (some q) done s b = copyFrom zSrc none (done ++ [q]) s b ∧
      CopyState zSrc none (done ++ [q]) s b cs := by
  have hroom := h.room
  rw [Option.toList_some, List.length_singleton] at hroom
  refine ⟨?_, by simp [h.chars], fun _ heq => absurd heq (by simp), h.filled,
    by simp; omega⟩
  rw [copyFrom, copyFrom, Option.getD_some, copyLoop_quotechar h.inside (CString.read_char h.chars),
    List.length_append]
  rfl

/-- A quote opens. -/
theorem opens (h : CopyState zSrc none done s b (c :: cs)) (hc : isQuotes c = true) :
    copyFrom zSrc none done s b = copyFrom zSrc (some c) (done ++ [c]) s b ∧
      CopyState zSrc (some c) (done ++ [c]) s b cs := by
  have hroom := h.room
  rw [Option.toList_none, List.length_nil] at hroom
  refine ⟨?_, by simp [h.chars], fun q heq => Option.some.inj heq ▸ hc, h.filled,
    by simp; omega⟩
  rw [copyFrom, copyFrom, Option.getD_none,
    copyLoop_quote h.inside (CString.read_char h.chars) (isQuotes_iff.mp hc), List.length_append]
  rfl

/-- A backslash outside of quotes, and the character behind it. -/
theorem escapes (h : CopyState zSrc none done s b ('\\' :: d :: cs)) :
    ∃ b', copyFrom zSrc none done s b = copyFrom zSrc none (done ++ ['\\', d]) (s ++ [d]) b' ∧
      CopyState zSrc none (done ++ ['\\', d]) (s ++ [d]) b' cs := by
  have hroom := h.room
  rw [Option.toList_none, List.length_nil] at hroom
  have hnext : zSrc.read (done.length + 1) = some d := by
    have hd := CString.read_char
      (show zSrc.chars = (done ++ ['\\']) ++ d :: cs by simp [h.chars])
    rwa [List.length_append, List.length_singleton] at hd
  obtain ⟨b', hstore, hb'⟩ := h.filled.store h.hasRoom d
  refine ⟨b', ?_, by simp [h.chars], h.quoted, hb', by simp; omega⟩
  rw [copyFrom, copyFrom, Option.getD_none,
    copyLoop_backslash h.inside (CString.read_char h.chars) hnext hstore, List.length_append,
    List.length_append]
  rfl

/-- Any other character. -/
theorem copies (h : CopyState zSrc quote done s b (c :: cs)) (hne : c ≠ quote.getD '\x00')
    (hplain : quote = none → c ≠ '"' ∧ c ≠ '\'' ∧ c ≠ '\\') :
    ∃ b', copyFrom zSrc quote done s b = copyFrom zSrc quote (done ++ [c]) (s ++ [c]) b' ∧
      CopyState zSrc quote (done ++ [c]) (s ++ [c]) b' cs := by
  have hroom := h.room
  obtain ⟨b', hstore, hb'⟩ := h.filled.store h.hasRoom c
  refine ⟨b', ?_, by simp [h.chars], h.quoted, hb', by simp; omega⟩
  have hoption : quote.getD '\x00' = '\x00' → quote = none := by
    intro hnul
    cases quote with
    | none => rfl
    | some q => exact absurd hnul h.ne_nul
  rw [copyFrom, copyFrom, copyLoop_char h.inside (CString.read_char h.chars) hne
    (fun hnul => hplain (hoption hnul)) hstore, List.length_append, List.length_append]
  rfl

/-- At the terminator, which a quote that is still open does not know. -/
theorem ends (h : CopyState zSrc quote done s b []) :
    ∃ b', copyFrom zSrc quote done s b = some b' ∧ Filled b' (zSrc.strlen + 1) s := by
  have hlen := h.strlen
  have hread := CString.read_terminator (h.chars.trans (List.append_nil done))
  rw [List.length_nil] at hlen
  cases quote with
  | none =>
    refine ⟨b, ?_, h.filled⟩
    rw [copyFrom, Option.getD_none, copyLoop_quotechar h.inside hread, copyLoop_end (by omega)]
  | some q =>
    obtain ⟨b', hstore, hb'⟩ := h.filled.store_nul h.hasRoom
    refine ⟨b', ?_, hb'⟩
    rw [copyFrom, Option.getD_some, copyLoop_char h.inside hread h.ne_nul.symm
      (fun hnul => absurd hnul h.ne_nul) hstore, copyLoop_end (by omega)]

/-- A backslash in front of the terminator. -/
theorem ends_backslash (h : CopyState zSrc none done s b ['\\']) :
    ∃ b', copyFrom zSrc none done s b = some b' ∧ Filled b' (zSrc.strlen + 1) s := by
  have hlen := h.strlen
  rw [List.length_singleton] at hlen
  have hnext : zSrc.read (done.length + 1) = some '\x00' := by
    have hterminator := CString.read_terminator h.chars
    rwa [List.length_append, List.length_singleton] at hterminator
  obtain ⟨b', hstore, hb'⟩ := h.filled.store_nul h.hasRoom
  refine ⟨b', ?_, hb'⟩
  rw [copyFrom, Option.getD_none,
    copyLoop_backslash h.inside (CString.read_char h.chars) hnext hstore, copyLoop_end (by omega)]

end CopyState

/-- **What the loop writes**: what `copyEscaped` makes of the characters in front of it. -/
theorem copyLoop_spec {zSrc : CString} {quote : Option Char} {done s rest : List Char}
    {b : Block Char 1} (h : CopyState zSrc quote done s b rest) :
    ∃ b', copyFrom zSrc quote done s b = some b' ∧
      Filled b' (zSrc.strlen + 1) (s ++ copyEscaped quote rest) := by
  fun_induction copyEscaped quote rest generalizing done s b with
  | case1 quote =>
    rw [List.append_nil]
    exact h.ends
  | case2 =>
    rw [List.append_nil]
    exact h.ends_backslash
  | case3 d cs ih =>
    obtain ⟨b', hstep, h'⟩ := h.escapes
    rw [List.append_cons, hstep]
    exact ih h'
  | case4 c cs _ _ hq ih =>
    obtain ⟨hstep, h'⟩ := h.opens hq
    rw [hstep]
    exact ih h'
  | case5 c cs hlast hescape hq ih =>
    have hslash : c ≠ '\\' := by
      intro heq
      cases cs with
      | nil => exact hlast heq rfl
      | cons d cs => exact hescape d cs heq rfl
    rw [isQuotes_iff, not_or] at hq
    obtain ⟨b', hstep, h'⟩ := h.copies (CString.ne_nul h.chars) fun _ => ⟨hq.1, hq.2, hslash⟩
    rw [List.append_cons, hstep]
    exact ih h'
  | case6 q cs ih =>
    obtain ⟨hstep, h'⟩ := h.closes
    rw [hstep]
    exact ih h'
  | case7 q c cs hne ih =>
    obtain ⟨b', hstep, h'⟩ := h.copies hne fun hnone => absurd hnone (by simp)
    rw [List.append_cons, hstep]
    exact ih h'

/-! ### The function -/

/-- **With room for the terminator** the function returns what `copyEscaped` makes of the
    string. -/
theorem copyEscapedStringMem_eq (zSrc : CString) :
    ∃ b, copyEscapedStringMem zSrc (zSrc.strlen + 1 : Nat) = some (some b) ∧
      HasString b (copyEscaped none zSrc.chars) := by
  have hfilled : Filled (.calloc (zSrc.strlen + 1) '\x00') (zSrc.strlen + 1) [] :=
    ⟨Block.slots_calloc (by decide) _ _, fun j hj => Block.load_calloc (by decide) hj _⟩
  obtain ⟨b, hloop, hb⟩ := copyLoop_spec
    (⟨rfl, fun _ heq => absurd heq (by simp), hfilled, Nat.le_refl 0⟩ :
      CopyState zSrc none [] [] _ zSrc.chars)
  rw [List.nil_append] at hb
  refine ⟨b, ?_, hb.hasString (Nat.lt_succ_of_le (length_copyEscaped_le none zSrc.chars))
    fun hmem => zSrc.noNul (copyEscaped_subset none _ hmem)⟩
  rw [copyEscapedStringMem, if_neg (by omega)]
  exact congrArg (Option.map some) hloop

/-- **Which strings are copied within bounds.**  For every string, with quotes that are open or a
    backslash at the end too: exactly if its length and one more is an `int`. -/
theorem copyOk_iff (zSrc : CString) : CopyOk zSrc ↔ zSrc.strlen + 1 < 2 ^ 31 := by
  constructor
  · intro h
    by_contra hlong
    -- a negative `maxlen` is possible, and `calloc` fails
    obtain ⟨b, s, hcopy, -⟩ := h (-1) ⟨by decide, fun hfits => absurd hfits hlong⟩
    rw [copyEscapedStringMem, if_pos (by decide)] at hcopy
    cases hcopy
  · intro hfits maxlen hint
    obtain rfl := hint.2 hfits
    obtain ⟨b, hcopy, hstring⟩ := copyEscapedStringMem_eq zSrc
    exact ⟨b, _, hcopy, hstring, length_copyEscaped_le none _, copyEscaped_subset none _⟩

/-- The string of `n` letters. -/
def lettersOf (n : Nat) : CString where
  chars := List.replicate n 'a'
  noNul h := absurd (List.eq_of_mem_replicate h) (by decide)

/-- `2 ^ 31 - 1` letters: where the low 32 bits are kept `maxlen` is negative, and `NULL` is
    returned. -/
theorem copy_of_long_string :
    IntOf ((lettersOf (2 ^ 31 - 1)).strlen + 1) (-2 ^ 31) ∧
      copyEscapedStringMem (lettersOf (2 ^ 31 - 1)) (-2 ^ 31) = some none ∧
      ¬ CopyOk (lettersOf (2 ^ 31 - 1)) := by
  have hlen : (lettersOf (2 ^ 31 - 1)).strlen = 2 ^ 31 - 1 := List.length_replicate
  have hint : IntOf ((lettersOf (2 ^ 31 - 1)).strlen + 1) (-2 ^ 31) := by
    rw [hlen]
    exact ⟨by decide, fun h => absurd h (by decide)⟩
  generalize lettersOf (2 ^ 31 - 1) = zSrc at hint ⊢
  have hnull : copyEscapedStringMem zSrc (-2 ^ 31) = some none := if_pos (by decide)
  refine ⟨hint, hnull, fun h => ?_⟩
  obtain ⟨b, s, hcopy, -⟩ := h _ hint
  rw [hnull] at hcopy
  cases hcopy

end OSPortfolio.Ish
