import OSPortfolio.Lib.Heap

namespace OSPortfolio.Memory

/-!
# Linked lists on the heap

Lists of blocks with a pointer to the next one in each, for any kind of node: a node may own
further blocks, and lists of its own.

* `NodeKind` — which blocks a node is;
* `Segment` — the nodes in a row from one pointer to another;
* `Segment.focus` — one node of a list, and the list when it has changed;
* `along`, `scan` — what a body that may return does along a list;
* `walk` — `for (p = head; p != NULL; p = p->next)`, with such a body;
* `triple_walk` — **its rule**: a walk does to the list what its body does to a node.
-/

/-- A kind of node: the blocks of a node at a pointer, with the pointer in it to the next one and
    its value. -/
structure NodeKind (α β : Type) where
  Holds : Ptr → Ptr → β → Multiset (Ptr × α) → Prop
  ne_null : ∀ {p q b m}, Holds p q b m → p ≠ 0
  card_pos : ∀ {p q b m}, Holds p q b m → 0 < m.card

variable {α β γ σ : Type} {N : NodeKind α β}

/-- The nodes, with their addresses, lie in a row from `p` on, and the pointer in the last one is
    `q`. -/
inductive Segment (N : NodeKind α β) : Ptr → List (Ptr × β) → Ptr → Multiset (Ptr × α) → Prop
  | nil (p : Ptr) : Segment N p [] p 0
  | cons {p next q : Ptr} {b : β} {xs : List (Ptr × β)} {m m' : Multiset (Ptr × α)} :
    N.Holds p next b m → Segment N next xs q m' → Segment N p ((p, b) :: xs) q (m + m')

variable {p q r : Ptr} {b : β} {xs ys : List (Ptr × β)} {m m' o : Multiset (Ptr × α)}

theorem Segment.append (h : Segment N p xs q m) (h' : Segment N q ys r m') :
    Segment N p (xs ++ ys) r (m + m') := by
  induction h with
  | nil p => rwa [zero_add, List.nil_append]
  | cons hnode _ ih =>
    rw [add_assoc]
    exact .cons hnode (ih h')

/-- One node more at the end. -/
theorem Segment.snoc (h : Segment N p xs q m) (hnode : N.Holds q r b m') :
    Segment N p (xs ++ [(q, b)]) r (m + m') := by
  have hlast := Segment.cons hnode (.nil r)
  rw [add_zero] at hlast
  exact h.append hlast

/-- A segment, cut in two. -/
theorem Segment.split (h : Segment N p (xs ++ ys) q m) :
    ∃ r m₁ m₂, m = m₁ + m₂ ∧ Segment N p xs r m₁ ∧ Segment N r ys q m₂ := by
  induction xs generalizing p m with
  | nil => exact ⟨p, 0, m, (zero_add m).symm, .nil p, h⟩
  | cons x xs ih =>
    cases h with
    | cons hnode hrest =>
      obtain ⟨r, m₁, m₂, rfl, hxs, hys⟩ := ih hrest
      exact ⟨r, _, m₂, (add_assoc _ _ _).symm, .cons hnode hxs, hys⟩

/-- The last node of a segment, and what comes in front of it. -/
theorem Segment.last (h : Segment N p (xs ++ [(q, b)]) r m) :
    ∃ m₁ m₂, m = m₁ + m₂ ∧ Segment N p xs q m₁ ∧ N.Holds q r b m₂ := by
  obtain ⟨r', m₁, m₂, rfl, hxs, hlast⟩ := h.split
  cases hlast with
  | @cons _ next _ _ _ m₂ m₃ hnode hend =>
    cases hend
    exact ⟨m₁, m₂, by rw [add_zero], hxs, hnode⟩

/-- A list that begins with `NULL` is empty. -/
theorem Segment.nil_of_null (h : Segment N 0 xs 0 m) : xs = [] ∧ m = 0 := by
  cases h with
  | nil => exact ⟨rfl, rfl⟩
  | cons hnode _ => exact absurd rfl (N.ne_null hnode)

/-- A list that does not begin with `NULL` has a first node. -/
theorem Segment.cons_of_ne_null (h : Segment N p xs 0 m) (hp : p ≠ 0) :
    ∃ next b ys m₁ m₂, xs = (p, b) :: ys ∧ m = m₁ + m₂ ∧ N.Holds p next b m₁ ∧
      Segment N next ys 0 m₂ := by
  cases h with
  | nil => exact absurd rfl hp
  | cons hnode hrest => exact ⟨_, _, _, _, _, rfl, rfl, hnode, hrest⟩

/-- The pointer to a list is `NULL` exactly when the list is empty. -/
theorem Segment.eq_null_iff (h : Segment N p xs 0 m) : p = 0 ↔ xs = [] := by
  cases h with
  | nil => simp
  | cons hnode _ => simpa using N.ne_null hnode

/-- There is at least one block for each node. -/
theorem Segment.length_le_card (h : Segment N p xs q m) : xs.length ≤ m.card := by
  induction h with
  | nil => exact Nat.le_refl 0
  | cons hnode _ ih =>
    have hpos := N.card_pos hnode
    rw [List.length_cons, Multiset.card_add]
    omega

theorem Segment.ne_null (h : Segment N p xs q m) : ∀ x ∈ xs, x.1 ≠ 0 := by
  induction h with
  | nil => simp
  | cons hnode _ ih => exact List.forall_mem_cons.mpr ⟨N.ne_null hnode, ih⟩

/-- **One node of a list**, and the list when this node has changed. -/
theorem Segment.focus (h : Segment N p xs q m) {i : Nat} {x : Ptr} (hx : xs[i]? = some (x, b)) :
    ∃ next m₁ o, m = m₁ + o ∧ N.Holds x next b m₁ ∧
      ∀ b' m', N.Holds x next b' m' → Segment N p (xs.set i (x, b')) q (m' + o) := by
  induction h generalizing i with
  | nil p => simp at hx
  | @cons p next q c xs mp mrest hnode hrest ih =>
    cases i with
    | zero =>
      obtain ⟨rfl, rfl⟩ := Prod.mk.inj (Option.some.inj hx)
      exact ⟨next, mp, mrest, rfl, hnode, fun b' m' hb => .cons hb hrest⟩
    | succ i =>
      obtain ⟨next', m₁, o, rfl, hfound, hset⟩ := ih hx
      refine ⟨next', m₁, mp + o, by rw [add_left_comm], hfound, fun b' m' hb => ?_⟩
      rw [add_left_comm]
      exact .cons hnode (hset b' m' hb)

/-! ### Loops along a list -/

/-- What a body that changes the variables `s` and the value of a node, or returns, does along a
    list. -/
def along (f : σ → Ptr × β → (γ ⊕ σ) × β) : σ → List (Ptr × β) → (γ ⊕ σ) × List (Ptr × β)
  | s, [] => (.inr s, [])
  | s, x :: xs =>
    match f s x with
    | (.inl r, b) => (.inl r, (x.1, b) :: xs)
    | (.inr s, b) => ((along f s xs).1, (x.1, b) :: (along f s xs).2)

/-- A walk moves no node. -/
theorem map_fst_along (f : σ → Ptr × β → (γ ⊕ σ) × β) (s : σ) (xs : List (Ptr × β)) :
    (along f s xs).2.map Prod.fst = xs.map Prod.fst := by
  induction xs generalizing s with
  | nil => rfl
  | cons x xs ih =>
    rw [along]
    cases hx : f s x with | mk r b
    cases r with
    | inl r => rfl
    | inr s => simp [ih]

/-- The same along a list of values. -/
def scan (f : σ → β → (γ ⊕ σ) × β) : σ → List β → (γ ⊕ σ) × List β
  | s, [] => (.inr s, [])
  | s, b :: bs =>
    match f s b with
    | (.inl r, b) => (.inl r, b :: bs)
    | (.inr s, b) => ((scan f s bs).1, b :: (scan f s bs).2)

/-- A body that does not look at the addresses. -/
theorem along_values (f : σ → β → (γ ⊕ σ) × β) (s : σ) (xs : List (Ptr × β)) :
    (along (fun s x => f s x.2) s xs).1 = (scan f s (xs.map Prod.snd)).1 ∧
      (along (fun s x => f s x.2) s xs).2.map Prod.snd = (scan f s (xs.map Prod.snd)).2 := by
  induction xs generalizing s with
  | nil => exact ⟨rfl, rfl⟩
  | cons x xs ih =>
    rw [along, List.map_cons, scan]
    cases hx : f s x.2 with | mk r b
    cases r with
    | inl r => exact ⟨rfl, rfl⟩
    | inr s =>
      obtain ⟨hr, hvalues⟩ := ih s
      exact ⟨hr, by rw [List.map_cons, hvalues]⟩

/-- The loop `for (; p != NULL; p = p->next)`, for a number of turns. -/
def walkUpTo (next : Ptr → Mem α Ptr) (body : σ → Ptr → Mem α (γ ⊕ σ)) :
    Nat → σ → Ptr → Mem α (γ ⊕ σ)
  | 0, _, _ => failure
  | n + 1, s, p =>
    if p = 0 then pure (.inr s)
    else do
      match ← body s p with
      | .inl r => pure (.inl r)
      | .inr s => do
        let q ← next p
        walkUpTo next body n s q

/-- `for (p = head; p != NULL; p = p->next)`; there are no more turns than blocks. -/
def walk (next : Ptr → Mem α Ptr) (body : σ → Ptr → Mem α (γ ⊕ σ)) (s : σ) (head : Ptr) :
    Mem α (γ ⊕ σ) := do
  let n ← size
  walkUpTo next body (n + 1) s head

/-- `p->next` of a node. -/
def ReadsNext (N : NodeKind α β) (next : Ptr → Mem α Ptr) : Prop :=
  ∀ {p q b m}, N.Holds p q b m → Triple m (next p) fun r m' => r = q ∧ m' = m

/-- The body of a loop does `f` to a node. -/
def DoesTo (N : NodeKind α β) (body : σ → Ptr → Mem α (γ ⊕ σ))
    (f : σ → Ptr × β → (γ ⊕ σ) × β) : Prop :=
  ∀ s {p q b m}, N.Holds p q b m →
    Triple m (body s p) fun r m' => r = (f s (p, b)).1 ∧ N.Holds p q (f s (p, b)).2 m'

variable {next : Ptr → Mem α Ptr} {body : σ → Ptr → Mem α (γ ⊕ σ)}
  {f : σ → Ptr × β → (γ ⊕ σ) × β}

/-- **A walk over the list** does to each node what the body does. -/
theorem triple_walkUpTo (hnext : ReadsNext N next) (hbody : DoesTo N body f)
    (h : Segment N p xs 0 m) {n : Nat} (hn : xs.length < n) (s : σ) :
    Triple m (walkUpTo next body n s p) fun r m' =>
      r = (along f s xs).1 ∧ Segment N p (along f s xs).2 0 m' := by
  -- over the nodes; a turn that returns leaves the rest as it is
  induction xs generalizing p m n s with
  | nil =>
    obtain ⟨n, rfl⟩ : ∃ k, n = k + 1 := ⟨n - 1, by simp at hn; omega⟩
    obtain rfl := h.eq_null_iff.mpr rfl
    obtain ⟨-, rfl⟩ := h.nil_of_null
    rw [walkUpTo, if_pos rfl]
    exact triple_pure ⟨rfl, .nil 0⟩
  | cons x xs ih =>
    obtain ⟨n, rfl⟩ : ∃ k, n = k + 1 := ⟨n - 1, by simp at hn; omega⟩
    cases h with
    | @cons _ q _ b _ mp mrest hnode hrest =>
      rw [walkUpTo, if_neg (N.ne_null hnode), along]
      refine (hbody s hnode).call rfl fun r m' hr => ?_
      obtain ⟨rfl, hnode'⟩ := hr
      cases hf : f s (p, b) with | mk r b'
      rw [hf] at hnode'
      cases r with
      | inl r => exact triple_pure ⟨rfl, .cons hnode' hrest⟩
      | inr s =>
        refine (hnext hnode').call rfl fun r m'' hr => ?_
        obtain ⟨rfl, rfl⟩ := hr
        have hloop := ih hrest (n := n) (by simpa using hn) s
        refine hloop.frame (add_comm _ _) fun r' m'' hr => ?_
        rw [add_comm]
        exact ⟨hr.1, .cons hnode' hr.2⟩

/-- **The rule of a walk.** -/
theorem triple_walk (hnext : ReadsNext N next) (hbody : DoesTo N body f)
    (h : Segment N p xs 0 m) (s : σ) :
    Triple m (walk next body s p) fun r m' =>
      r = (along f s xs).1 ∧ Segment N p (along f s xs).2 0 m' := by
  rw [walk]
  refine triple_size fun n hn => ?_
  have hlength := h.length_le_card
  exact triple_walkUpTo hnext hbody h (by omega) s

end OSPortfolio.Memory
