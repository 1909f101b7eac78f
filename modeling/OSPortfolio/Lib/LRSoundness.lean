import Mathlib.Data.List.GetD
import OSPortfolio.Lib.Bison

namespace OSPortfolio.LR

/-!
# What the stack of an LR parser spells

The states on the stack of a parser are a path of its automaton, and a state is entered behind
one symbol only.  A certificate lists the edges of the automaton; a finite check of the tables
then shows, for stacks of any height, that a reduction finds the right side of its rule on the
stack, and that no sequence of reductions goes on for ever.

* `Certificate.valid` — the check;
* `Spells` — a stack and the tokens it stands for, with the meaning of each symbol as a
  parameter;
* `Spells.shift`, `Spells.reduce` — **what the two kinds of steps do to it**;
* `Certificate.potential` — decreases with each reduction, and by a shift grows less than
  `bound`;
* `Parser.Certified.reads_or_fails` — **a certified parser reads its tokens** up to an error.
-/

universe u v w

variable {τ : Type u} {V : Type v} {G : Type w}

/-! ### Certificates -/

/-- The successors of each state, the symbol in front of it, the right sides of the rules, and
    weights of the symbols: on the stack, and in addition on top of it. -/
structure Certificate where
  successors : List (List Nat)
  symbols : List Nat
  rhs : List (List Nat)
  weights : List Nat
  extras : List Nat
  bound : Nat

namespace Certificate

variable (C : Certificate)

/-- The states behind `q`. -/
def next (q : Nat) : List Nat := C.successors.getD q []

/-- The symbol in front of `q`. -/
def symbol (q : Nat) : Nat := C.symbols.getD q 0

/-- The right side of rule `n`. -/
def right (n : Nat) : List Nat := C.rhs.getD n []

def weight (x : Nat) : Nat := C.weights.getD x 0

def extra (x : Nat) : Nat := C.extras.getD x 0

/-- The weight of a list of symbols. -/
def total : List Nat → Nat
  | [] => 0
  | x :: xs => C.weight x + total xs

theorem total_append (xs ys : List Nat) : C.total (xs ++ ys) = C.total xs + C.total ys := by
  induction xs with
  | nil => exact (Nat.zero_add _).symm
  | cons x xs ih => rw [List.cons_append, total, ih, total, Nat.add_assoc]

/-- The order of the symbols does not matter for their weight. -/
theorem total_reverse (xs : List Nat) : C.total xs.reverse = C.total xs := by
  induction xs with
  | nil => rfl
  | cons x xs ih =>
    rw [List.reverse_cons, total_append, ih, total, Nat.add_comm]
    rfl

/-- The start state, and the states that have an edge to them. -/
def nodes : List Nat := 0 :: C.successors.flatten

/-- On every path to `q` the last symbols are `xs`, the last one first, and the path in front of
    them ends in a state that is `ok`. -/
def popsTo (ok : Nat → Bool) : List Nat → Nat → Bool
  | [], q => ok q
  | x :: xs, q =>
    q ≠ 0 && C.symbol q = x &&
      (List.range C.successors.length).all fun p => !(C.next p).contains q || popsTo ok xs p

variable (T : Tables)

/-- In state `q` the right side of rule `n` is on the stack, the goto is an edge for its left
    side, and the left side weighs less. -/
def reduceOk (q n : Nat) : Bool :=
  (C.right n).length = T.r2.getD n 0 &&
    C.popsTo (fun p => (C.next p).contains (T.goto p n) &&
      C.symbol (T.goto p n) = T.r1.getD n 0) (C.right n).reverse q &&
    C.weight (T.r1.getD n 0) + C.extra (T.r1.getD n 0) <
      C.total (C.right n) + C.extra (C.symbol q)

/-- An action of state `q` on the symbol `x`. -/
def actionOk (q x : Nat) : Action → Bool
  | .shift q' =>
    (C.next q).contains q' && C.symbol q' = x && C.weight x + C.extra x < C.bound
  | .reduce n => C.reduceOk T q n
  | .error => true

/-- The certificate fits the tables. -/
def valid : Bool :=
  C.nodes.all fun q =>
    (C.next q).all (· ≠ 0) &&
      if T.consistent q = true then
        match T.defaultAction q with
        | .reduce n => C.reduceOk T q n
        | _ => false
      else
        (List.range T.ntokens).all fun x => x = 0 || C.actionOk T q x (T.action q x)

/-- The weight of a stack. -/
def potential (stack : List (Nat × V)) : Nat :=
  C.total (stack.map fun e => C.symbol e.1) + C.extra (C.symbol (top stack))

/-- The potential of a stack, from its top. -/
theorem potential_cons (q : Nat) (v : V) (stack : List (Nat × V)) :
    C.potential ((q, v) :: stack) = C.weight (C.symbol q) + C.extra (C.symbol q) +
      C.total (stack.map fun e => C.symbol e.1) := by
  show C.weight (C.symbol q) + C.total (stack.map fun e => C.symbol e.1) +
    C.extra (C.symbol q) = _
  omega

end Certificate

/-! ### Stacks and the tokens they stand for -/

/-- `us` is the concatenation of tokens that the symbols `xs` derive with the values `vs`. -/
inductive DerivesAll (D : Nat → List τ → V → Prop) : List Nat → List τ → List V → Prop
  | nil : DerivesAll D [] [] []
  | cons {x : Nat} {u : List τ} {v : V} {xs : List Nat} {us : List τ} {vs : List V}
      (h : D x u v) (hs : DerivesAll D xs us vs) : DerivesAll D (x :: xs) (u ++ us) (v :: vs)

/-- One symbol more at the end. -/
theorem DerivesAll.concat {D : Nat → List τ → V → Prop} {xs : List Nat} {us : List τ}
    {vs : List V} (h : DerivesAll D xs us vs) {x : Nat} {u : List τ} {v : V} (hx : D x u v) :
    DerivesAll D (xs ++ [x]) (us ++ u) (vs ++ [v]) := by
  induction h with
  | nil =>
    rw [List.nil_append, List.nil_append, List.nil_append, ← List.append_nil u]
    exact .cons hx .nil
  | cons hy hs ih =>
    rw [List.append_assoc]
    exact .cons hy ih

theorem derivesAll_one {D : Nat → List τ → V → Prop} {x : Nat} {us : List τ} {vs : List V}
    (h : DerivesAll D [x] us vs) : ∃ v, vs = [v] ∧ D x us v := by
  cases h with
  | cons h hs =>
    cases hs with
    | nil => exact ⟨_, rfl, by rwa [List.append_nil]⟩

theorem derivesAll_two {D : Nat → List τ → V → Prop} {x y : Nat} {us : List τ} {vs : List V}
    (h : DerivesAll D [x, y] us vs) :
    ∃ u₁ u₂ v₁ v₂, us = u₁ ++ u₂ ∧ vs = [v₁, v₂] ∧ D x u₁ v₁ ∧ D y u₂ v₂ := by
  cases h with
  | cons h hs =>
    obtain ⟨v₂, rfl, h₂⟩ := derivesAll_one hs
    exact ⟨_, _, _, v₂, rfl, rfl, h, h₂⟩

theorem derivesAll_three {D : Nat → List τ → V → Prop} {x y z : Nat} {us : List τ} {vs : List V}
    (h : DerivesAll D [x, y, z] us vs) :
    ∃ u₁ u₂ u₃ v₁ v₂ v₃, us = u₁ ++ (u₂ ++ u₃) ∧ vs = [v₁, v₂, v₃] ∧ D x u₁ v₁ ∧ D y u₂ v₂ ∧
      D z u₃ v₃ := by
  cases h with
  | cons h hs =>
    obtain ⟨u₂, u₃, v₂, v₃, rfl, rfl, h₂, h₃⟩ := derivesAll_two hs
    exact ⟨_, u₂, u₃, _, v₂, v₃, rfl, rfl, h, h₂, h₃⟩

/-- The stack is a path of the automaton, and its entries derive the tokens `cs`. -/
inductive Spells (C : Certificate) (D : Nat → List τ → V → Prop) :
    List (Nat × V) → List τ → Prop
  | nil : Spells C D [] []
  | cons {stack : List (Nat × V)} {cs us : List τ} {q : Nat} {v : V}
      (h : Spells C D stack cs) (hedge : q ∈ C.next (top stack)) (hq : D (C.symbol q) us v) :
      Spells C D ((q, v) :: stack) (cs ++ us)

section
variable {C : Certificate} {T : Tables} {D : Nat → List τ → V → Prop}

theorem Certificate.lt_of_mem_next {p q : Nat} (h : q ∈ C.next p) :
    p < C.successors.length := by
  by_contra hp
  rw [Certificate.next, List.getD_eq_default _ _ (Nat.le_of_not_lt hp)] at h
  simp at h

theorem Certificate.mem_nodes_of_next {p q : Nat} (h : q ∈ C.next p) : q ∈ C.nodes := by
  refine List.mem_cons_of_mem 0 (List.mem_flatten.mpr ⟨C.next p, ?_, h⟩)
  rw [Certificate.next, List.getD_eq_getElem _ _ (Certificate.lt_of_mem_next h)]
  exact List.getElem_mem _

/-- The state on top is a node of the automaton. -/
theorem Spells.mem_nodes {stack : List (Nat × V)} {cs : List τ} (h : Spells C D stack cs) :
    top stack ∈ C.nodes := by
  cases h with
  | nil => exact List.mem_cons_self
  | cons h hedge hq => exact Certificate.mem_nodes_of_next hedge

/-- **A certified pop.**  What the check found on all paths is on the stack, and derives the
    last of its tokens. -/
theorem Spells.pop {ok : Nat → Bool} {xs : List Nat} {stack : List (Nat × V)} {cs : List τ}
    (h : Spells C D stack cs) (hpop : C.popsTo ok xs (top stack) = true) :
    ∃ cs' us, cs = cs' ++ us ∧ Spells C D (stack.drop xs.length) cs' ∧
      DerivesAll D xs.reverse us ((stack.take xs.length).reverse.map Prod.snd) ∧
      ok (top (stack.drop xs.length)) = true ∧
      C.total (stack.map fun e => C.symbol e.1) = C.total xs +
        C.total ((stack.drop xs.length).map fun e => C.symbol e.1) := by
  induction xs generalizing stack cs with
  | nil => exact ⟨cs, [], (List.append_nil cs).symm, h, .nil, hpop, (Nat.zero_add _).symm⟩
  | cons x xs ih =>
    rw [Certificate.popsTo, Bool.and_eq_true, Bool.and_eq_true, decide_eq_true_eq,
      decide_eq_true_eq, List.all_eq_true] at hpop
    obtain ⟨⟨hne, hsymbol⟩, hall⟩ := hpop
    cases h with
    | nil => exact absurd rfl hne
    | @cons stack cs us q v h hedge hq =>
      -- the state below is one of those the check went on with
      have hbelow := hall (top stack) (List.mem_range.mpr (Certificate.lt_of_mem_next hedge))
      rw [Bool.or_eq_true, Bool.not_eq_true', List.contains_eq_mem, decide_eq_false_iff_not] at hbelow
      obtain ⟨cs', us', rfl, hrest, hder, hok, hsum⟩ :=
        ih h (hbelow.resolve_left (not_not_intro hedge))
      refine ⟨cs', us' ++ us, by rw [List.append_assoc], hrest, ?_, hok, ?_⟩
      · have hx : D x us v := by rwa [← hsymbol]
        rw [List.reverse_cons, List.length_cons, List.take_succ_cons, List.reverse_cons,
          List.map_append]
        exact hder.concat hx
      · have hx : C.symbol q = x := hsymbol
        rw [List.map_cons, Certificate.total, hsum, hx, List.length_cons, List.drop_succ_cons,
          Certificate.total, Nat.add_assoc]

/-- **A reduction.**  The right side of the rule is on the stack and derives the last tokens;
    with a value for the left side the stack stands for the same tokens, and has less weight. -/
theorem Spells.reduce {stack : List (Nat × V)} {cs : List τ} {n : Nat}
    (h : Spells C D stack cs) (hok : C.reduceOk T (top stack) n = true) :
    ∃ cs' us, cs = cs' ++ us ∧
      DerivesAll D (C.right n) us ((stack.take (T.r2.getD n 0)).reverse.map Prod.snd) ∧
      ∀ v, D (T.r1.getD n 0) us v →
        Spells C D ((T.goto (top (stack.drop (T.r2.getD n 0))) n, v) ::
          stack.drop (T.r2.getD n 0)) cs ∧
        C.potential ((T.goto (top (stack.drop (T.r2.getD n 0))) n, v) ::
          stack.drop (T.r2.getD n 0)) < C.potential stack := by
  simp only [Certificate.reduceOk, Bool.and_eq_true, decide_eq_true_eq] at hok
  obtain ⟨⟨hlength, hpop⟩, hweight⟩ := hok
  obtain ⟨cs', us, hcs, hrest, hder, hgoto, hsum⟩ := h.pop hpop
  rw [List.length_reverse, hlength] at hrest hder hgoto hsum
  rw [List.reverse_reverse] at hder
  simp only [Bool.and_eq_true, List.contains_eq_mem, decide_eq_true_eq] at hgoto
  obtain ⟨hedge, hsymbol⟩ := hgoto
  refine ⟨cs', us, hcs, hder, fun v hv => ⟨?_, ?_⟩⟩
  · rw [hcs]
    exact .cons hrest hedge (by rwa [hsymbol])
  · rw [Certificate.potential_cons, hsymbol, Certificate.potential, hsum,
      Certificate.total_reverse]
    omega

/-- A consistent state reduces. -/
theorem Spells.default (hC : C.valid T = true) {stack : List (Nat × V)} {cs : List τ}
    (h : Spells C D stack cs) (hconsistent : T.consistent (top stack) = true) :
    ∃ n, T.defaultAction (top stack) = .reduce n ∧ C.reduceOk T (top stack) n = true := by
  have hnode := List.all_eq_true.mp hC _ h.mem_nodes
  rw [Bool.and_eq_true, if_pos hconsistent] at hnode
  cases hdefault : T.defaultAction (top stack) with
  | reduce n => rw [hdefault] at hnode; exact ⟨n, rfl, hnode.2⟩
  | shift q => rw [hdefault] at hnode; exact absurd hnode.2 (by simp)
  | error => rw [hdefault] at hnode; exact absurd hnode.2 (by simp)

/-- What a state does with a token is an edge or a certified reduction. -/
theorem Spells.actionOk (hC : C.valid T = true) {stack : List (Nat × V)} {cs : List τ} {x : Nat}
    (h : Spells C D stack cs) (hx : x ≠ 0) (hlt : x < T.ntokens)
    (hlook : T.consistent (top stack) = false) :
    C.actionOk T (top stack) x (T.action (top stack) x) = true := by
  have hnode := List.all_eq_true.mp hC _ h.mem_nodes
  rw [Bool.and_eq_true, if_neg (by simp [hlook])] at hnode
  have haction := List.all_eq_true.mp hnode.2 x (List.mem_range.mpr hlt)
  rw [Bool.or_eq_true, decide_eq_true_eq] at haction
  exact haction.resolve_left hx

/-- No state of the stack is the start state. -/
theorem Spells.ne_zero (hC : C.valid T = true) {stack : List (Nat × V)} {cs : List τ}
    (h : Spells C D stack cs) : ∀ e ∈ stack, e.1 ≠ 0 := by
  induction h with
  | nil => simp
  | cons h hedge hq ih =>
    have hnode := List.all_eq_true.mp hC _ h.mem_nodes
    rw [Bool.and_eq_true, List.all_eq_true] at hnode
    exact List.forall_mem_cons.mpr ⟨by simpa using hnode.1 _ hedge, ih⟩

/-- A shift puts the token on the stack. -/
theorem Spells.shift {stack : List (Nat × V)} {cs : List τ} {t : τ} {v : V} {q x : Nat}
    (h : Spells C D stack cs) (hok : C.actionOk T (top stack) x (.shift q) = true)
    (ht : D x [t] v) :
    Spells C D ((q, v) :: stack) (cs ++ [t]) ∧
      C.potential ((q, v) :: stack) < C.potential stack + C.bound := by
  simp only [Certificate.actionOk, Bool.and_eq_true, List.contains_eq_mem,
    decide_eq_true_eq] at hok
  obtain ⟨⟨hmem, hsymbol⟩, hbound⟩ := hok
  refine ⟨.cons h hmem (by rwa [hsymbol]), ?_⟩
  rw [Certificate.potential_cons, hsymbol, Certificate.potential]
  omega

end

/-! ### Runs of the machine -/

section
variable {P : Parser τ V G} {C : Certificate} {D : Nat → List τ → V → Prop}

/-- The machine shifts the token in front of it. -/
def Parser.Shifts (P : Parser τ V G) (a : Conf τ V G) : Prop :=
  P.tables.consistent (top a.stack) = false ∧
    ∃ t us q, a.input = t :: us ∧ P.tables.action (top a.stack) (P.kind t) = .shift q

/-- The tables have the certificate, the tokens of the class `ok` have a meaning, and on such
    tokens the actions of the rules keep the meaning and neither accept nor touch the globals. -/
structure Parser.Certified (P : Parser τ V G) (C : Certificate) (D : Nat → List τ → V → Prop)
    (ok : τ → Prop) : Prop where
  valid : C.valid P.tables = true
  kind : ∀ t, P.kind t ≠ 0 ∧ P.kind t < P.tables.ntokens
  final : ∀ q, P.tables.final ∉ C.next q
  token : ∀ t, ok t → D (P.kind t) [t] (P.value t)
  act : ∀ n us vs g, (∀ t ∈ us, ok t) → DerivesAll D (C.right n) us vs →
    ∃ v, P.act n vs g = (v, g, false) ∧ D (P.tables.r1.getD n 0) us v

namespace Parser.Certified

variable {ok : τ → Prop} (hP : P.Certified C D ok)
include hP

/-- **One turn.**  The machine is at an error, or it shifts, or it reduces: then the stack stands
    for the same tokens, and has less weight. -/
theorem turn {stack : List (Nat × V)} {cs : List τ} (h : Spells C D stack cs)
    (hcs : ∀ t ∈ cs, ok t) (t : τ) (us : List τ) (g : G) :
    P.Fails ⟨stack, 0, t :: us, g⟩ ∨ P.Shifts ⟨stack, 0, t :: us, g⟩ ∨
      ∃ stack', P.Reaches ⟨stack, 0, t :: us, g⟩ ⟨stack', 0, t :: us, g⟩ ∧
        Spells C D stack' cs ∧ C.potential stack' < C.potential stack := by
  -- a reduction is the same with and without a look at the token
  have hreduction : ∀ {n}, P.Reduces ⟨stack, 0, t :: us, g⟩ n →
      C.reduceOk P.tables (top stack) n = true →
      ∃ stack', P.Reaches ⟨stack, 0, t :: us, g⟩ ⟨stack', 0, t :: us, g⟩ ∧
        Spells C D stack' cs ∧ C.potential stack' < C.potential stack := by
    intro n hn hok
    obtain ⟨cs', vs, hsplit, hder, hnext⟩ := h.reduce hok
    obtain ⟨v, hv, hleft⟩ := hP.act n vs _ g
      (fun u hu => hcs u (hsplit ▸ List.mem_append_right cs' hu)) hder
    exact ⟨_, Parser.Reaches.single (P.step_reduce hn hv), hnext v hleft⟩
  cases hlook : P.tables.consistent (top stack) with
  | true =>
    obtain ⟨n, hdefault, hok⟩ := h.default hP.valid hlook
    exact Or.inr (Or.inr (hreduction (Or.inl ⟨hlook, hdefault⟩) hok))
  | false =>
    have hok := h.actionOk hP.valid (hP.kind t).1 (hP.kind t).2 hlook
    cases haction : P.tables.action (top stack) (P.kind t) with
    | error => exact Or.inl ⟨hlook, t, us, rfl, haction⟩
    | shift q => exact Or.inr (Or.inl ⟨hlook, t, us, q, rfl, haction⟩)
    | reduce n =>
      rw [haction] at hok
      exact Or.inr (Or.inr (hreduction (Or.inr ⟨hlook, t, us, rfl, haction⟩) hok))

/-- **A shift** of a token that has a meaning. -/
theorem shift {stack : List (Nat × V)} {cs us : List τ} {t : τ} {g : G}
    (h : Spells C D stack cs) (ht : ok t) (hshift : P.Shifts ⟨stack, 0, t :: us, g⟩) :
    ∃ stack', P.Reaches ⟨stack, 0, t :: us, g⟩ ⟨stack', 0, us, g⟩ ∧
      Spells C D stack' (cs ++ [t]) ∧ C.potential stack' < C.potential stack + C.bound := by
  obtain ⟨hlook, t', us', q, hinput, haction⟩ := hshift
  obtain ⟨rfl, rfl⟩ := List.cons.inj hinput
  have hok := h.actionOk hP.valid (hP.kind t).1 (hP.kind t).2 hlook
  rw [haction] at hok
  have hmem : q ∈ C.next (top stack) := by
    simp only [Certificate.actionOk, Bool.and_eq_true, List.contains_eq_mem,
      decide_eq_true_eq] at hok
    exact hok.1.1
  exact ⟨_, Parser.Reaches.single
    (P.step_shift hlook haction fun heq => hP.final _ (heq ▸ hmem)),
    h.shift hok (hP.token t ht)⟩

/-- **Reading tokens.**  The machine reads the tokens of the class in front of a token `t`, up to
    where it shifts `t`, unless it comes to an error. -/
theorem reads_or_fails (t : τ) (rest : List τ) (g : G) {stack : List (Nat × V)} {cs us : List τ}
    (h : Spells C D stack cs) (hcs : ∀ t ∈ cs, ok t) (hus : ∀ t ∈ us, ok t) :
    ∃ stack' cs' us', P.Reaches ⟨stack, 0, us ++ t :: rest, g⟩
        ⟨stack', 0, us' ++ t :: rest, g⟩ ∧
      cs' ++ us' = cs ++ us ∧ Spells C D stack' cs' ∧
      (P.Fails ⟨stack', 0, us' ++ t :: rest, g⟩ ∨
        us' = [] ∧ P.Shifts ⟨stack', 0, t :: rest, g⟩) := by
  -- by induction on the weight of the stack and of the tokens to come
  induction hn : C.potential stack + C.bound * us.length using Nat.strongRecOn
    generalizing stack cs us with
  | _ n ih =>
    obtain ⟨u, vs, hinput⟩ : ∃ u vs, us ++ t :: rest = u :: vs := by
      cases us with
      | nil => exact ⟨t, rest, rfl⟩
      | cons u us => exact ⟨u, us ++ t :: rest, rfl⟩
    have hturn := hP.turn h hcs u vs g
    rw [← hinput] at hturn
    rcases hturn with hfails | hshift | ⟨stack₁, hreach₁, hspells, hless⟩
    · exact ⟨stack, cs, us, .refl, rfl, h, Or.inl hfails⟩
    · cases us with
      | nil => exact ⟨stack, cs, [], .refl, rfl, h, Or.inr ⟨rfl, hshift⟩⟩
      | cons u us =>
        obtain ⟨hu, hus⟩ := List.forall_mem_cons.mp hus
        obtain ⟨stack₁, hreach₁, hspells, hless⟩ := hP.shift h hu hshift
        have hcs' : ∀ t ∈ cs ++ [u], ok t :=
          List.forall_mem_append.mpr ⟨hcs, List.forall_mem_singleton.mpr hu⟩
        have hsmaller : C.potential stack₁ + C.bound * us.length < n := by
          rw [List.length_cons, Nat.mul_succ] at hn
          omega
        obtain ⟨stack', cs', us', hreach, hsplit, hend⟩ := ih _ hsmaller hspells hcs' hus rfl
        refine ⟨stack', cs', us', hreach₁.trans hreach, ?_, hend⟩
        rw [hsplit, List.append_assoc, List.singleton_append]
    · obtain ⟨stack', cs', us', hreach, hend⟩ := ih _ (by omega) hspells hcs hus rfl
      exact ⟨stack', cs', us', hreach₁.trans hreach, hend⟩

end Parser.Certified

end

end OSPortfolio.LR
