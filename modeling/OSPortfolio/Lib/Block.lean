import Mathlib.Data.Nat.Basic

namespace OSPortfolio.Memory

/-!
# Allocated blocks

A block from `calloc` or `realloc` that is used as an array: it has a size in bytes, and as
many whole slots as elements fit into it.  A slot behind the part that `realloc` has copied is
not initialised.

* `Block` — the size and the slots, for elements of `w` bytes;
* `calloc`, `realloc`, `load`, `store` — the operations; a `store` outside the whole slots
  fails;
* `load_calloc`, `load_realloc`, `load_store` — what is in the slots after each of them.

Allocations succeed.
-/

universe u

/-- A block for elements of `w` bytes: its size, and the contents of its slots, `none` for one
    that is not initialised. -/
structure Block (α : Type u) (w : Nat) where
  bytes : Nat
  cell : Nat → Option α

namespace Block

variable {α : Type u} {w : Nat}

/-- The number of whole slots. -/
def slots (b : Block α w) : Nat := b.bytes / w

/-- `calloc(n, w)`, with `z` for an element whose bytes are all 0. -/
def calloc (n : Nat) (z : α) : Block α w := ⟨n * w, fun _ => some z⟩

/-- `realloc(b, bytes)` -/
def realloc (b : Block α w) (bytes : Nat) : Block α w :=
  ⟨bytes, fun i => if i < b.slots then b.cell i else none⟩

/-- Read slot `i`. -/
def load (b : Block α w) (i : Nat) : Option α := if i < b.slots then b.cell i else none

/-- Write slot `i`. -/
def store (b : Block α w) (i : Nat) (v : α) : Option (Block α w) :=
  if i < b.slots then some ⟨b.bytes, fun j => if j = i then some v else b.cell j⟩ else none

/-- A new block has the slots asked for. -/
theorem slots_calloc (hw : 0 < w) (n : Nat) (z : α) : (calloc n z : Block α w).slots = n :=
  Nat.mul_div_cancel n hw

/-- Each of them is zero. -/
theorem load_calloc (hw : 0 < w) {n i : Nat} (h : i < n) (z : α) :
    (calloc n z : Block α w).load i = some z := by
  rw [load, slots_calloc hw, if_pos h]
  rfl

/-- A block with a few bytes too much, but not enough for another slot. -/
theorem slots_realloc_add (b : Block α w) (n : Nat) {r : Nat} (h : r < w) :
    (b.realloc (w * n + r)).slots = n := by
  show (w * n + r) / w = n
  rw [Nat.mul_add_div (by omega), Nat.div_eq_of_lt h, Nat.add_zero]

/-- `realloc` keeps what fits into both blocks. -/
theorem load_realloc {b : Block α w} {bytes i : Nat} (hold : i < b.slots)
    (hnew : i < (b.realloc bytes).slots) : (b.realloc bytes).load i = b.load i := by
  rw [load, load, if_pos hnew, if_pos hold]
  exact if_pos hold

/-- A store that succeeds is inside the block. -/
theorem store_eq_some {b b' : Block α w} {i : Nat} {v : α} (h : b.store i v = some b') :
    i < b.slots ∧ b'.slots = b.slots := by
  unfold store at h
  split at h
  · rename_i hi
    obtain rfl := Option.some.inj h
    exact ⟨hi, rfl⟩
  · exact absurd h (by simp)

/-- A store inside the block succeeds. -/
theorem exists_store {b : Block α w} {i : Nat} (h : i < b.slots) (v : α) :
    ∃ b', b.store i v = some b' :=
  ⟨_, if_pos h⟩

/-- A `store` changes its own slot. -/
theorem load_store {b b' : Block α w} {i : Nat} {v : α} (h : b.store i v = some b') (j : Nat) :
    b'.load j = if j = i then some v else b.load j := by
  unfold store at h
  split at h
  · rename_i hi
    obtain rfl := Option.some.inj h
    by_cases hj : j = i
    · rw [if_pos hj, hj, load, slots]
      exact (if_pos hi).trans (if_pos rfl)
    · show (if j < b.slots then (if j = i then some v else b.cell j) else none) = _
      rw [if_neg hj, if_neg hj]
      rfl
  · exact absurd h (by simp)

end Block

end OSPortfolio.Memory
