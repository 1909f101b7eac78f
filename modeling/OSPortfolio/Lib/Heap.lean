import Mathlib.Algebra.Order.BigOperators.Group.List
import Mathlib.Algebra.Order.Group.Multiset
import Mathlib.Algebra.Order.Group.Nat
import Mathlib.Tactic.Abel

namespace OSPortfolio.Memory

/-!
# A heap of blocks, and what is proved of programs on it

`malloc`, `realloc` and `free` as C has them, on blocks whose contents are values of any type,
with an allocator that may give out any address that is not in use.  A program that reads or
writes through a pointer to no block, or frees one, has no result.

* `Heap`, `Allocator` — the blocks; `malloc`, `load`, `store`, `free`, `realloc` on them;
* `Triple` — what a program does with the blocks it is given, whatever else is in the heap;
* `triple_load`, `triple_store`, `triple_free`, `triple_malloc`, `triple_realloc`,
  `Triple.call`, `Triple.bind`, `Triple.frame` — its rules.

The blocks that a program owns are a multiset, so the sum of two of them says that they are
apart.  Allocations succeed.
-/

/-- An address; 0 is `NULL`. -/
abbrev Ptr := Nat

/-- The blocks with their addresses, and the number of allocations so far. -/
structure Heap (α : Type) where
  blocks : List (Ptr × α)
  count : Nat
  nodup : (blocks.map Prod.fst).Nodup
  ne_null : ∀ e ∈ blocks, e.1 ≠ 0

/-- Where the next block is put, when these addresses are in use. -/
structure Allocator where
  address : Nat → List Ptr → Ptr
  fresh : ∀ n ps, address n ps ∉ ps
  ne_null : ∀ n ps, address n ps ≠ 0

/-- The next block is put above all others. -/
def Allocator.above : Allocator where
  address _ ps := ps.sum + 1
  fresh _ _ h := Nat.not_succ_le_self _ (List.le_sum_of_mem h)
  ne_null _ _ := Nat.succ_ne_zero _

/-- The contents of a heap. -/
def Heap.contents {α : Type} (h : Heap α) : Multiset (Ptr × α) := h.blocks

/-- The empty heap. -/
def Heap.empty (α : Type) : Heap α := ⟨[], 0, .nil, by simp⟩

/-- A program on a heap, which may have no result. -/
abbrev Mem (α β : Type) := StateT (Heap α) Option β

section
variable {α β γ : Type}

/-! ### Operations -/

/-- `assert(c)` -/
def assert (c : Prop) [Decidable c] : Mem α Unit := fun h => if c then some ((), h) else none

/-- `malloc`, with what is written to the block at once. -/
def malloc (A : Allocator) (c : α) : Mem α Ptr := fun h =>
  let p := A.address h.count (h.blocks.map Prod.fst)
  some (p,
    { blocks := (p, c) :: h.blocks
      count := h.count + 1
      nodup := List.nodup_cons.mpr ⟨A.fresh _ _, h.nodup⟩
      ne_null := List.forall_mem_cons.mpr ⟨A.ne_null _ _, h.ne_null⟩ })

/-- Read the block at `p`. -/
def load (p : Ptr) : Mem α α := fun h => (h.blocks.lookup p).map fun c => (c, h)

/-- The blocks with another one at `p`. -/
def update (p : Ptr) (c : α) (blocks : List (Ptr × α)) : List (Ptr × α) :=
  blocks.map fun e => if e.1 = p then (p, c) else e

/-- An update moves no block. -/
theorem map_fst_update (p : Ptr) (c : α) (blocks : List (Ptr × α)) :
    (update p c blocks).map Prod.fst = blocks.map Prod.fst := by
  rw [update, List.map_map]
  refine List.map_congr_left fun e _ => ?_
  by_cases he : e.1 = p
  · simp [he]
  · simp [he]

/-- Write the block at `p`. -/
def store (p : Ptr) (c : α) : Mem α Unit := fun h =>
  if p ∈ h.blocks.map Prod.fst then
    some ((),
      { h with
        blocks := update p c h.blocks
        nodup := by rw [map_fst_update]; exact h.nodup
        ne_null := by
          intro e he
          have hmem := List.mem_map_of_mem (f := Prod.fst) he
          rw [map_fst_update] at hmem
          obtain ⟨e', he', heq⟩ := List.mem_map.mp hmem
          exact heq ▸ h.ne_null e' he' })
  else none

/-- `free(p)` -/
def free (p : Ptr) : Mem α Unit := fun h =>
  if p = 0 then some ((), h)
  else if p ∈ h.blocks.map Prod.fst then
    some ((),
      { h with
        blocks := h.blocks.filter fun e => e.1 ≠ p
        nodup := h.nodup.sublist (List.filter_sublist.map _)
        ne_null := fun e he => h.ne_null e (List.mem_of_mem_filter he) })
  else none

/-- Read the block at `p`, which has to be of the kind that `get` asks for. -/
def loadAs (get : α → Option β) (p : Ptr) : Mem α β := do
  let c ← load p
  match get c with
  | some b => pure b
  | none => failure

/-- `if (p) x` -/
def whenNonNull (p : Ptr) (x : Mem α Unit) : Mem α Unit := if p = 0 then pure () else x

/-- The number of blocks, which bounds the loops along pointers. -/
def size : Mem α Nat := fun h => some (h.blocks.length, h)

/-- `realloc(p, …)`: `f` says what is in the block then; it may be another one. -/
def realloc (A : Allocator) (p : Ptr) (f : α → α) : Mem α Ptr := do
  let c ← load p
  free p
  malloc A (f c)

/-! ### What a heap owns -/

theorem mem_of_contents {h : Heap α} {p : Ptr} {c : α} {m : Multiset (Ptr × α)}
    (hm : h.contents = {(p, c)} + m) : (p, c) ∈ h.blocks := by
  have hmem : (p, c) ∈ h.contents := by
    rw [hm]
    exact Multiset.mem_add.mpr (Or.inl (Multiset.mem_singleton_self _))
  exact Multiset.mem_coe.mp hmem

theorem lookup_of_contents {h : Heap α} {p : Ptr} {c : α} {m : Multiset (Ptr × α)}
    (hm : h.contents = {(p, c)} + m) : h.blocks.lookup p = some c := by
  have hmem := mem_of_contents hm
  have hnodup := h.nodup
  generalize h.blocks = bs at hmem hnodup
  induction bs with
  | nil => simp at hmem
  | cons e bs ih =>
    obtain ⟨q, d⟩ := e
    rw [List.map_cons, List.nodup_cons] at hnodup
    rcases List.mem_cons.mp hmem with heq | hrest
    · obtain ⟨rfl, rfl⟩ := Prod.mk.inj heq
      exact List.lookup_cons_self
    · have hmem' : p ∈ bs.map Prod.fst := List.mem_map_of_mem (f := Prod.fst) hrest
      have hne : p ≠ q := fun heq => hnodup.1 (heq ▸ hmem')
      rw [List.lookup_cons, beq_false_of_ne hne]
      exact ih hrest hnodup.2

/-- The address is in use, and is not `NULL`. -/
theorem mem_fst_of_contents {h : Heap α} {p : Ptr} {c : α} {m : Multiset (Ptr × α)}
    (hm : h.contents = {(p, c)} + m) : p ∈ h.blocks.map Prod.fst ∧ p ≠ 0 :=
  ⟨List.mem_map_of_mem (f := Prod.fst) (mem_of_contents hm), h.ne_null _ (mem_of_contents hm)⟩

/-- No other block has this address. -/
theorem ne_of_contents {h : Heap α} {p : Ptr} {c : α} {m : Multiset (Ptr × α)}
    (hm : h.contents = {(p, c)} + m) : ∀ e ∈ m, e.1 ≠ p := by
  have hnodup : (h.contents.map Prod.fst).Nodup := h.nodup
  rw [hm, Multiset.map_add, Multiset.map_singleton, Multiset.singleton_add,
    Multiset.nodup_cons] at hnodup
  intro e he heq
  have hmem := Multiset.mem_map_of_mem Prod.fst he
  rw [heq] at hmem
  exact hnodup.1 hmem

/-! ### Triples -/

/-- On the blocks `m` the program ends with a result and with blocks as `Q` says, and it leaves
    all other blocks alone. -/
def Triple (m : Multiset (Ptr × α)) (x : Mem α β) (Q : β → Multiset (Ptr × α) → Prop) : Prop :=
  ∀ o (h : Heap α), h.contents = m + o →
    ∃ b h' m', x h = some (b, h') ∧ Q b m' ∧ h'.contents = m' + o

variable {m o : Multiset (Ptr × α)} {p : Ptr} {c : α} {Q : γ → Multiset (Ptr × α) → Prop}

theorem triple_pure {b : γ} (h : Q b m) : Triple m (pure b : Mem α γ) Q :=
  fun _ h' hm => ⟨b, h', m, rfl, h, hm⟩

/-- A call on a part of the blocks, and what comes behind it. -/
theorem Triple.call {x : Mem α β} {f : β → Mem α γ} {n : Multiset (Ptr × α)}
    {R : β → Multiset (Ptr × α) → Prop} (hx : Triple n x R) (hm : m = n + o)
    (h : ∀ b m', R b m' → Triple (m' + o) (f b) Q) : Triple m (x >>= f) Q := by
  subst hm
  intro other h₁ h₁m
  obtain ⟨b, h₂, m', hrun, hR, h₂m⟩ := hx (o + other) h₁ (by rw [h₁m, add_assoc])
  obtain ⟨b', h₃, m'', hrun', hQ, h₃m⟩ := h b m' hR other h₂ (by rw [h₂m, add_assoc])
  refine ⟨b', h₃, m'', ?_, hQ, h₃m⟩
  show (x h₁).bind _ = _
  rw [hrun]
  exact hrun'

/-- One program behind another. -/
theorem Triple.bind {x : Mem α β} {f : β → Mem α γ} {R : β → Multiset (Ptr × α) → Prop}
    (hx : Triple m x R) (h : ∀ b m', R b m' → Triple m' (f b) Q) : Triple m (x >>= f) Q :=
  hx.call (add_zero m).symm fun b m' hR => by rw [add_zero]; exact h b m' hR

/-- **The rest of the heap is left alone.** -/
theorem Triple.frame {x : Mem α γ} {n : Multiset (Ptr × α)}
    {R : γ → Multiset (Ptr × α) → Prop} (hx : Triple n x R) (hm : m = n + o)
    (h : ∀ b m', R b m' → Q b (m' + o)) : Triple m x Q := by
  subst hm
  intro other h₁ h₁m
  obtain ⟨b, h₂, m', hrun, hR, h₂m⟩ := hx (o + other) h₁ (by rw [h₁m, add_assoc])
  exact ⟨b, h₂, m' + o, hrun, h b m' hR, by rw [h₂m, add_assoc]⟩

/-- A postcondition may say less. -/
theorem Triple.weaken {x : Mem α γ} {R : γ → Multiset (Ptr × α) → Prop} (hx : Triple m x R)
    (h : ∀ b m', R b m' → Q b m') : Triple m x Q := by
  intro other h₁ h₁m
  obtain ⟨b, h₂, m', hrun, hR, h₂m⟩ := hx other h₁ h₁m
  exact ⟨b, h₂, m', hrun, h b m' hR, h₂m⟩

/-- An assertion that holds does nothing. -/
theorem triple_assert {a : Prop} [Decidable a] {f : Unit → Mem α γ} (ha : a)
    (h : Triple m (f ()) Q) : Triple m (assert a >>= f) Q := by
  have hrun : ∀ h' : Heap α, (assert a : Mem α Unit) h' = some ((), h') := fun h' => if_pos ha
  intro other h₁ h₁m
  obtain ⟨b, h₂, m', hrun', hQ, h₂m⟩ := h other h₁ h₁m
  refine ⟨b, h₂, m', ?_, hQ, h₂m⟩
  show ((assert a : Mem α Unit) h₁).bind _ = _
  rw [hrun]
  exact hrun'

/-- `load` -/
theorem triple_load {f : α → Mem α γ} (hm : m = {(p, c)} + o) (h : Triple m (f c) Q) :
    Triple m (load p >>= f) Q := by
  intro other h₁ h₁m
  obtain ⟨b, h₂, m', hrun, hQ, h₂m⟩ := h other h₁ h₁m
  refine ⟨b, h₂, m', ?_, hQ, h₂m⟩
  rw [hm, add_assoc] at h₁m
  show ((h₁.blocks.lookup p).map fun c => (c, h₁)).bind _ = _
  rw [lookup_of_contents h₁m]
  exact hrun

/-- Read a part of a block. -/
theorem triple_loadAs {get : α → Option β} {f : β → Mem α γ} {b : β}
    (hm : m = {(p, c)} + o) (hget : get c = some b) (h : Triple m (f b) Q) :
    Triple m (loadAs get p >>= f) Q := by
  rw [loadAs, bind_assoc]
  refine triple_load hm ?_
  simp only [hget, pure_bind]
  exact h

/-- The two cases of a guard against `NULL`. -/
theorem triple_whenNonNull {x : Mem α Unit} {f : Unit → Mem α γ}
    (hnull : p = 0 → Triple m (f ()) Q) (h : p ≠ 0 → Triple m (x >>= f) Q) :
    Triple m (whenNonNull p x >>= f) Q := by
  rw [whenNonNull]
  by_cases hp : p = 0
  · rw [if_pos hp, pure_bind]
    exact hnull hp
  · rw [if_neg hp]
    exact h hp

/-- There are at least as many blocks as the program owns. -/
theorem triple_size {f : Nat → Mem α γ} (h : ∀ n, m.card ≤ n → Triple m (f n) Q) :
    Triple m (size >>= f) Q := by
  intro other h₁ h₁m
  have hcard : m.card ≤ h₁.blocks.length := by
    rw [← Multiset.coe_card h₁.blocks, show (h₁.blocks : Multiset (Ptr × α)) = m + other from h₁m,
      Multiset.card_add]
    exact Nat.le_add_right _ _
  exact h _ hcard other h₁ h₁m

/-- The last operation of a program. -/
theorem Triple.last {x : Mem α γ} (h : Triple m (x >>= pure) Q) : Triple m x Q := by
  rwa [bind_pure] at h

/-- `store` -/
theorem triple_store {f : Unit → Mem α γ} {c' : α} (hm : m = {(p, c)} + o)
    (h : Triple ({(p, c')} + o) (f ()) Q) : Triple m (store p c' >>= f) Q := by
  refine Triple.call (n := {(p, c)}) (R := fun _ m' => m' = {(p, c')}) ?_ hm ?_
  · intro other h₁ h₁m
    refine ⟨(), _, _, if_pos (mem_fst_of_contents h₁m).1, rfl, ?_⟩
    show ((update p c' h₁.blocks : List (Ptr × α)) : Multiset (Ptr × α)) = _
    have hupdate : ((update p c' h₁.blocks : List (Ptr × α)) : Multiset (Ptr × α)) =
        h₁.contents.map fun e => if e.1 = p then (p, c') else e := rfl
    rw [hupdate, h₁m, Multiset.map_add, Multiset.map_singleton, if_pos rfl]
    congr 1
    conv_rhs => rw [← Multiset.map_id other]
    exact Multiset.map_congr rfl fun e he => if_neg (ne_of_contents h₁m e he)
  · rintro b m' rfl
    exact h

/-- `free` of a block -/
theorem triple_free {f : Unit → Mem α γ} (hm : m = {(p, c)} + o) (h : Triple o (f ()) Q) :
    Triple m (free p >>= f) Q := by
  refine Triple.call (n := {(p, c)}) (R := fun _ m' => m' = 0) ?_ hm ?_
  · intro other h₁ h₁m
    obtain ⟨hmem, hne⟩ := mem_fst_of_contents h₁m
    refine ⟨(), _, _, (if_neg hne).trans (if_pos hmem), rfl, ?_⟩
    show ((h₁.blocks.filter fun e => e.1 ≠ p : List (Ptr × α)) : Multiset (Ptr × α)) = _
    have hfilter : ((h₁.blocks.filter fun e => e.1 ≠ p : List (Ptr × α)) : Multiset (Ptr × α)) =
        h₁.contents.filter fun e => e.1 ≠ p := rfl
    rw [hfilter, h₁m, Multiset.filter_add, Multiset.filter_singleton, if_neg (by simp)]
    refine congrArg (0 + ·) (Multiset.filter_eq_self.mpr ?_)
    exact ne_of_contents h₁m
  · rintro b m' rfl
    rwa [zero_add]

/-- `malloc` -/
theorem triple_malloc {A : Allocator} {f : Ptr → Mem α γ}
    (h : ∀ p, p ≠ 0 → Triple ({(p, c)} + m) (f p) Q) : Triple m (malloc A c >>= f) Q := by
  intro other h₁ h₁m
  obtain ⟨b, h₂, m', hrun, hQ, h₂m⟩ := h (A.address h₁.count (h₁.blocks.map Prod.fst))
    (A.ne_null _ _) other ⟨(_, c) :: h₁.blocks, h₁.count + 1,
      List.nodup_cons.mpr ⟨A.fresh _ _, h₁.nodup⟩,
      List.forall_mem_cons.mpr ⟨A.ne_null _ _, h₁.ne_null⟩⟩ (by
        show (((_, c) :: h₁.blocks : List (Ptr × α)) : Multiset (Ptr × α)) = _
        rw [← Multiset.cons_coe, add_assoc, ← h₁m, Multiset.singleton_add]
        rfl)
  exact ⟨b, h₂, m', hrun, hQ, h₂m⟩

/-- `realloc` -/
theorem triple_realloc {A : Allocator} {g : α → α} {f : Ptr → Mem α γ}
    (hm : m = {(p, c)} + o) (h : ∀ q, q ≠ 0 → Triple ({(q, g c)} + o) (f q) Q) :
    Triple m (realloc A p g >>= f) Q := by
  refine Triple.call (n := {(p, c)}) (R := fun q m' => q ≠ 0 ∧ m' = {(q, g c)}) ?_ hm ?_
  · rw [realloc]
    refine triple_load (add_zero _).symm (triple_free (add_zero _).symm ?_)
    rw [← bind_pure (malloc A (g c))]
    exact triple_malloc fun q hq => triple_pure ⟨hq, add_zero _⟩
  · rintro q m' ⟨hq, rfl⟩
    exact h q hq

end

end OSPortfolio.Memory
