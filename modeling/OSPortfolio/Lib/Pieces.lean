import Mathlib.Data.List.Basic

namespace OSPortfolio.Lists

/-!
# Pieces of a list between marked elements

A function `f` marks some elements of a list with a value.  They cut the list into pieces, and
a piece is kept together with the mark that ends it.  No piece follows a mark at the end.

* `pieces` — the pieces, from left to right;
* `pieces_unmarked`, `pieces_append` — a list without marks, and the first piece of a list.
-/

universe u v

variable {α : Type u} {β : Type v} (f : α → Option β)

/-- The pieces of a list, each with the mark behind it. -/
def pieces : List α → List (List α × Option β)
  | [] => []
  | a :: as =>
    match f a with
    | some b => ([], some b) :: pieces as
    | none =>
      match pieces as with
      | [] => [([a], none)]
      | (bs, m) :: rest => (a :: bs, m) :: rest

variable {f}

/-- A list in which nothing is marked is one piece. -/
theorem pieces_unmarked {as : List α} (h : ∀ a ∈ as, f a = none) (hne : as ≠ []) :
    pieces f as = [(as, none)] := by
  induction as with
  | nil => exact absurd rfl hne
  | cons a as ih =>
    rw [pieces, h a List.mem_cons_self]
    cases as with
    | nil => rfl
    | cons b bs => rw [ih (fun c hc => h c (List.mem_cons_of_mem a hc)) (List.cons_ne_nil b bs)]

/-- The first mark of a list ends its first piece. -/
theorem pieces_append {as : List α} {a : α} {b : β} (h : ∀ a ∈ as, f a = none)
    (hmark : f a = some b) (rest : List α) :
    pieces f (as ++ a :: rest) = (as, some b) :: pieces f rest := by
  induction as with
  | nil => rw [List.nil_append, pieces, hmark]
  | cons c cs ih =>
    rw [List.cons_append, pieces, h c List.mem_cons_self,
      ih (fun d hd => h d (List.mem_cons_of_mem c hd))]

end OSPortfolio.Lists
