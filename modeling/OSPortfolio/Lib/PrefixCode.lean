import Mathlib.Computability.Language

namespace OSPortfolio.Lexing

open Computability

/-!
# Prefix codes and longest matches

A scanner looks for the longest prefix of its input that a pattern matches.  When the pattern
is the star of a prefix code, the prefix can be built up one code word after the other, with
no need to look back.

* `PrefixCode` — no code word is empty, and how a text begins with one is determined;
* `LongestPrefix` — the length of the longest prefix in a language;
* `LongestPrefix.append`, `longestPrefix_zero` — the two steps of a scanner for the star of a
  prefix code.
-/

universe u

variable {α : Type u}

/-! ### Prefix codes -/

/-- No word is empty, and a text begins with at most one word. -/
structure PrefixCode (U : Language α) : Prop where
  nil_notMem : [] ∉ U
  cancel : ∀ {u v x y : List α}, u ∈ U → v ∈ U → u ++ x = v ++ y → u = v

/-- A text made of words is empty, or begins with a word. -/
theorem eq_nil_or_append {U : Language α} {x : List α} (h : x ∈ U∗) :
    x = [] ∨ ∃ u ∈ U, ∃ w ∈ U∗, x = u ++ w := by
  obtain ⟨ws, rfl, hws⟩ := Language.mem_kstar.mp h
  cases ws with
  | nil => exact Or.inl rfl
  | cons u ws =>
    refine Or.inr ⟨u, hws u List.mem_cons_self, ws.flatten, ?_, rfl⟩
    exact Language.join_mem_kstar fun w hw => hws w (List.mem_cons_of_mem u hw)

theorem append_mem_kstar {U : Language α} {u w : List α} (hu : u ∈ U) (hw : w ∈ U∗) :
    u ++ w ∈ U∗ := by
  obtain ⟨ws, rfl, hws⟩ := Language.mem_kstar.mp hw
  refine Language.mem_kstar.mpr ⟨u :: ws, rfl, ?_⟩
  intro v hv
  rcases List.mem_cons.mp hv with rfl | hv
  · exact hu
  · exact hws v hv

/-- A word in front of a text can be taken off. -/
theorem PrefixCode.of_append_mem {U : Language α} (hU : PrefixCode U) {u w : List α}
    (hu : u ∈ U) (h : u ++ w ∈ U∗) : w ∈ U∗ := by
  rcases eq_nil_or_append h with hnil | ⟨v, hv, x, hx, heq⟩
  · obtain ⟨rfl, -⟩ := List.append_eq_nil_iff.mp hnil
    exact absurd hu hU.nil_notMem
  · obtain rfl := hU.cancel hu hv heq
    rwa [List.append_cancel_left heq]

/-- A text that begins with a word does not begin with a letter that starts no word. -/
theorem PrefixCode.append_ne_cons {U : Language α} (hU : PrefixCode U) {q : α}
    (hq : ∀ u ∈ U, u.head? ≠ some q) {u : List α} (hu : u ∈ U) (x y : List α) :
    u ++ x ≠ q :: y := by
  cases u with
  | nil => exact absurd hu hU.nil_notMem
  | cons a u =>
    intro h
    obtain ⟨rfl, -⟩ := List.cons.inj h
    exact hq (a :: u) hu rfl

/-- Texts made of words, each closed by a letter `q` that starts no word, begin alike only if
    they are the same. -/
theorem PrefixCode.cancel_closed {U : Language α} (hU : PrefixCode U) {q : α}
    (hq : ∀ u ∈ U, u.head? ≠ some q) {b b' x y : List α} (hb : b ∈ U∗) (hb' : b' ∈ U∗)
    (h : b ++ q :: x = b' ++ q :: y) : b = b' := by
  obtain ⟨ws, rfl, hws⟩ := Language.mem_kstar.mp hb
  clear hb
  -- word by word: where one text is at its `q`, the other cannot begin another word
  induction ws generalizing b' with
  | nil =>
    rcases eq_nil_or_append hb' with rfl | ⟨v, hv, w, -, rfl⟩
    · rfl
    · rw [List.append_assoc] at h
      exact absurd h.symm (hU.append_ne_cons hq hv _ _)
  | cons u ws ih =>
    have hu := hws u List.mem_cons_self
    rw [List.flatten_cons, List.append_assoc] at h
    rcases eq_nil_or_append hb' with rfl | ⟨v, hv, w, hw, rfl⟩
    · exact absurd h (hU.append_ne_cons hq hu _ _)
    · rw [List.append_assoc] at h
      obtain rfl := hU.cancel hu hv h
      rw [List.flatten_cons,
        ih hw (fun y hy => hws y (List.mem_cons_of_mem u hy)) (List.append_cancel_left h)]

/-! ### Longest matches -/

/-- `n` is the length of the longest prefix of `xs` that is in `L`. -/
structure LongestPrefix (L : Language α) (xs : List α) (n : Nat) : Prop where
  le_length : n ≤ xs.length
  take_mem : xs.take n ∈ L
  longest : ∀ m ≤ xs.length, xs.take m ∈ L → m ≤ n

theorem LongestPrefix.unique {L : Language α} {xs : List α} {m n : Nat}
    (hm : LongestPrefix L xs m) (hn : LongestPrefix L xs n) : m = n :=
  Nat.le_antisymm (hn.longest m hm.le_length hm.take_mem) (hm.longest n hn.le_length hn.take_mem)

/-- With no word in front, nothing is matched. -/
theorem longestPrefix_zero {U : Language α} {xs : List α} (h : ∀ u ∈ U, ¬ u <+: xs) :
    LongestPrefix (U∗) xs 0 := by
  refine ⟨Nat.zero_le _, by rw [List.take_zero]; exact Language.nil_mem_kstar U, ?_⟩
  intro m hm hmem
  rcases eq_nil_or_append hmem with hnil | ⟨u, hu, w, -, heq⟩
  · rcases List.take_eq_nil_iff.mp hnil with rfl | rfl
    · exact Nat.le_refl 0
    · exact hm
  · exact absurd ((List.prefix_append u w).trans (heq ▸ List.take_prefix m xs)) (h u hu)

/-- A word in front is taken, and the rest matched as before. -/
theorem LongestPrefix.append {U : Language α} (hU : PrefixCode U) {u xs : List α} {n : Nat}
    (hu : u ∈ U) (h : LongestPrefix (U∗) xs n) : LongestPrefix (U∗) (u ++ xs) (u.length + n) := by
  obtain ⟨hle, htake, hlongest⟩ := h
  refine ⟨by rw [List.length_append]; omega, ?_, ?_⟩
  · rw [List.take_length_add_append]
    exact append_mem_kstar hu htake
  · intro m hm hmem
    rw [List.length_append] at hm
    -- a match that ends within `u` is shorter; a longer one begins with `u`, which can be taken off
    rcases Nat.le_total m u.length with hle' | hle'
    · omega
    · obtain ⟨k, rfl⟩ := Nat.exists_eq_add_of_le hle'
      rw [List.take_length_add_append] at hmem
      have := hlongest k (by omega) (hU.of_append_mem hu hmem)
      omega

end OSPortfolio.Lexing
