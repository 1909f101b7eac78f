import Mathlib.Logic.Function.Basic
import Mathlib.Data.List.Nodup

namespace OSPortfolio.Pointers

/-!
# Singly linked lists in memory

A memory maps addresses to nodes, a node holds a value and the address of the next node, and
`none` is the null pointer.  Linked-list code is verified against the list of values that a
pointer leads to:

* `Segment m p xs q` — the nodes `xs` lie in a row from `p` on, and `q` comes behind them;
* `Chain m p xs` — the nodes `xs` are a whole list that starts at `p`, at different addresses;
* `Segment.write_other` — a write elsewhere does not change it;
* `Segment.relink` — a new link in its last node changes what comes behind it.
-/

universe u

variable {α : Type u}

/-- A node: its value and the pointer to the next node. -/
structure Node (α : Type u) where
  data : α
  next : Option Nat

/-- What stands at each address, `none` where nothing is allocated. -/
abbrev Memory (α : Type u) := Nat → Option (Node α)

/-- Write a node, or free one. -/
abbrev Memory.write (m : Memory α) (p : Nat) (n : Option (Node α)) : Memory α :=
  Function.update m p n

/-- The nodes `xs`, with their addresses, lie in a row from `p` on, and the pointer in the
    last one is `q`. -/
inductive Segment (m : Memory α) : Option Nat → List (Nat × α) → Option Nat → Prop
  | nil (p : Option Nat) : Segment m p [] p
  | cons {p : Nat} {x : α} {next q : Option Nat} {xs : List (Nat × α)} :
      m p = some ⟨x, next⟩ → Segment m next xs q → Segment m (some p) ((p, x) :: xs) q

/-- The addresses of nodes. -/
def addresses (xs : List (Nat × α)) : List Nat := xs.map Prod.fst

/-- A whole list: it ends in the null pointer and no node stands in it twice. -/
structure Chain (m : Memory α) (p : Option Nat) (xs : List (Nat × α)) : Prop where
  segment : Segment m p xs none
  nodup : (addresses xs).Nodup

variable {m : Memory α} {p q : Option Nat} {xs ys : List (Nat × α)}

/-- Two segments in a row are one. -/
theorem Segment.append {r : Option Nat} (h₁ : Segment m p xs q) (h₂ : Segment m q ys r) :
    Segment m p (xs ++ ys) r := by
  induction h₁ with
  | nil => exact h₂
  | cons hnode _ ih => exact .cons hnode (ih h₂)

/-- A segment that ends at a node, and this node. -/
theorem Segment.snoc {a : Nat} {x : α} {next : Option Nat} (h : Segment m p xs (some a))
    (hnode : m a = some ⟨x, next⟩) : Segment m p (xs ++ [(a, x)]) next :=
  h.append (.cons hnode (.nil next))

/-- A segment can be cut in two. -/
theorem Segment.split (h : Segment m p (xs ++ ys) q) :
    ∃ r, Segment m p xs r ∧ Segment m r ys q := by
  induction xs generalizing p with
  | nil => exact ⟨p, .nil p, h⟩
  | cons x xs ih =>
    cases h with
    | cons hnode hrest =>
      obtain ⟨r, hxs, hys⟩ := ih hrest
      exact ⟨r, .cons hnode hxs, hys⟩

/-- **Frame rule.** A write to an address that is not one of the segment's does not change
    it. -/
theorem Segment.write_other {a : Nat} (h : Segment m p xs q) (ha : a ∉ addresses xs)
    (n : Option (Node α)) : Segment (m.write a n) p xs q := by
  induction h with
  | nil p => exact .nil p
  | @cons b x next q xs hnode _ ih =>
    obtain ⟨hne, hrest⟩ := List.ne_and_not_mem_of_not_mem_cons ha
    exact .cons (by rw [Memory.write, Function.update_of_ne (Ne.symm hne)]; exact hnode)
      (ih hrest)

/-- **Link rule.** A new pointer in the last node of a segment changes what comes behind. -/
theorem Segment.relink {a : Nat} {x : α} (h : Segment m p (xs ++ [(a, x)]) q)
    (ha : a ∉ addresses xs) (r : Option Nat) :
    Segment (m.write a (some ⟨x, r⟩)) p (xs ++ [(a, x)]) r := by
  obtain ⟨b, hxs, hlast⟩ := h.split
  cases hlast with
  | cons _ _ => exact (hxs.write_other ha _).snoc (Function.update_self ..)

/-- What the last node of a segment holds. -/
theorem Segment.last {a : Nat} {x : α} (h : Segment m p (xs ++ [(a, x)]) q) :
    m a = some ⟨x, q⟩ := by
  obtain ⟨b, -, hlast⟩ := h.split
  cases hlast with
  | cons hnode hend => cases hend; exact hnode

end OSPortfolio.Pointers
