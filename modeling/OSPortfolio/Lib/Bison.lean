import Mathlib.Data.List.Basic
import Mathlib.Logic.Relation

namespace OSPortfolio.LR

/-!
# Parsers driven by the tables of Bison

The skeleton that Bison puts around its tables, for any tables, tokens, values and actions, and
the machine behind it, which reads a list of tokens on a stack without a bound.

* `Tables` — the tables, and what they say for a state and a token;
* `Parser.step` — the machine: shift, reduce, and the recovery from an error;
* `Parser.yystep`, `Parser.run` — the skeleton: a look-ahead token that is read when it is
  needed, and a bound on the stack;
* `Parser.run_of_accepts` — **what the machine accepts the skeleton returns**, if the stack
  stays below the bound, and it reads no token more;
* `Budget`, `Budget.length_le_depth` — a check of the tables, and the bound on the stack that
  it gives for every input.
-/

universe u v w x

/-! ### The tables -/

/-- The tables of a parser. -/
structure Tables where
  final : Nat
  ntokens : Nat
  pactNinf : Int
  tableNinf : Int
  r1 : List Nat
  r2 : List Nat
  defact : List Nat
  defgoto : List Int
  pact : List Int
  pgoto : List Int
  table : List Int
  check : List Int

/-- What to do in a state. -/
inductive Action
  | shift (q : Nat)
  | reduce (n : Nat)
  | error
  deriving DecidableEq, Repr

namespace Tables

variable (T : Tables)

/-- `yytable[n]`, if `n` is in range and `yycheck[n]` is `x`. -/
def entry (n : Int) (x : Nat) : Option Int :=
  if n < 0 ∨ T.table.length ≤ n ∨ T.check.getD n.toNat 0 ≠ x then none
  else some (T.table.getD n.toNat 0)

/-- The state decides without a look-ahead token. -/
def consistent (q : Nat) : Bool := T.pact.getD q 0 = T.pactNinf

/-- `yydefault`: the default action of a state. -/
def defaultAction (q : Nat) : Action :=
  if T.defact.getD q 0 = 0 then .error else .reduce (T.defact.getD q 0)

/-- The action of a state on a look-ahead token. -/
def action (q x : Nat) : Action :=
  match T.entry (T.pact.getD q 0 + x) x with
  | none => T.defaultAction q
  | some m =>
    if m ≤ 0 then if m = 0 ∨ m = T.tableNinf then .error else .reduce (-m).toNat
    else .shift m.toNat

/-- The state behind the left side of rule `n`, entered from state `q`. -/
def goto (q n : Nat) : Nat :=
  match T.entry (T.pgoto.getD (T.r1.getD n 0 - T.ntokens) 0 + q) q with
  | some m => m.toNat
  | none => (T.defgoto.getD (T.r1.getD n 0 - T.ntokens) 0).toNat

/-- The state behind the token `error` (number 1), if it can be shifted. -/
def errorShift (q : Nat) : Option Nat :=
  if T.consistent q then none
  else
    match T.entry (T.pact.getD q 0 + 1) 1 with
    | some m => if 0 < m then some m.toNat else none
    | none => none

end Tables

/-- The state on top of a stack; the start state, 0, is below it. -/
def top {V : Type v} : List (Nat × V) → Nat
  | [] => 0
  | e :: _ => e.1

@[simp] theorem top_cons {V : Type v} (e : Nat × V) (stack : List (Nat × V)) :
    top (e :: stack) = e.1 := rfl

/-- The state on top is one of the table, if those on the stack are. -/
theorem top_lt {V : Type v} {k : Nat} {stack : List (Nat × V)} (hpos : 0 < k)
    (h : ∀ e ∈ stack, e.1 < k) : top stack < k := by
  cases stack with
  | nil => exact hpos
  | cons e stack => exact h e List.mem_cons_self

/-- A parser: its tables, the internal number and the value of a token, the value that is
    pushed with the token `error`, and the actions of its rules, which may accept. -/
structure Parser (τ : Type u) (V : Type v) (G : Type w) where
  tables : Tables
  kind : τ → Nat
  value : τ → V
  junk : V
  act : Nat → List V → G → V × G × Bool

variable {τ : Type u} {V : Type v} {G : Type w} {L : Type x}

namespace Parser

variable (P : Parser τ V G)

/-- The stack after a reduction with rule `n`, the globals, and whether its action accepts. -/
def reduced (n : Nat) (stack : List (Nat × V)) (g : G) : List (Nat × V) × G × Bool :=
  let k := P.tables.r2.getD n 0
  let r := P.act n ((stack.take k).reverse.map Prod.snd) g
  ((P.tables.goto (top (stack.drop k)) n, r.1) :: stack.drop k, r.2)

/-- Pop until `error` can be shifted; the state behind it and the stack that is left. -/
def recover : List (Nat × V) → Option (Nat × List (Nat × V))
  | [] => (P.tables.errorShift 0).map (·, [])
  | e :: stack =>
    match P.tables.errorShift e.1 with
    | some q => some (q, e :: stack)
    | none => recover stack

/-! ### The machine -/

end Parser

/-- The machine: its stack, `yyerrstatus`, the tokens it has not shifted, and the globals. -/
structure Conf (τ : Type u) (V : Type v) (G : Type w) where
  stack : List (Nat × V)
  status : Nat
  input : List τ
  globals : G

namespace Parser

variable (P : Parser τ V G)

/-- A reduction of the machine. -/
def reduce (n : Nat) (a : Conf τ V G) : Conf τ V G ⊕ G × List τ :=
  let r := P.reduced n a.stack a.globals
  if r.2.2 = true then .inr (r.2.1, a.input)
  else .inl { a with stack := r.1, globals := r.2.1 }

/-- One step of the machine: the next configuration, or the globals and the tokens left where
    it accepts.  It stops where it needs a token and there is none. -/
def step (a : Conf τ V G) : Option (Conf τ V G ⊕ G × List τ) :=
  if P.tables.consistent (top a.stack) = true then
    match P.tables.defaultAction (top a.stack) with
    | .reduce n => some (P.reduce n a)
    | _ => none
  else
    match a.input with
    | [] => none
    | t :: us =>
      match P.tables.action (top a.stack) (P.kind t) with
      | .shift q =>
        if q = P.tables.final then none
        else some (.inl ⟨(q, P.value t) :: a.stack, a.status - 1, us, a.globals⟩)
      | .reduce n => some (P.reduce n a)
      | .error =>
        match P.recover a.stack with
        | none => none
        | some (q, stack) =>
          if q = P.tables.final then none
          -- after an error that no shift has followed the token is dropped
          else some (.inl ⟨(q, P.junk) :: stack, 3, if a.status = 3 then us else t :: us,
            a.globals⟩)

/-- A shift of the machine. -/
theorem step_shift {stack : List (Nat × V)} {status q : Nat} {t : τ} {us : List τ} {g : G}
    (hlook : P.tables.consistent (top stack) = false)
    (haction : P.tables.action (top stack) (P.kind t) = .shift q) (hfinal : q ≠ P.tables.final) :
    P.step ⟨stack, status, t :: us, g⟩ =
      some (.inl ⟨(q, P.value t) :: stack, status - 1, us, g⟩) := by
  simp only [step, hlook, haction, if_neg hfinal]
  rfl

/-- The machine is about to reduce with rule `n`, for lack of another action or because of the
    token in front of it. -/
def Reduces (a : Conf τ V G) (n : Nat) : Prop :=
  P.tables.consistent (top a.stack) = true ∧
      P.tables.defaultAction (top a.stack) = .reduce n ∨
    P.tables.consistent (top a.stack) = false ∧
      ∃ t us, a.input = t :: us ∧ P.tables.action (top a.stack) (P.kind t) = .reduce n

theorem step_of_reduces {a : Conf τ V G} {n : Nat} (h : P.Reduces a n) :
    P.step a = some (P.reduce n a) := by
  rcases h with ⟨hconsistent, hdefault⟩ | ⟨hlook, t, us, hinput, haction⟩
  · simp only [step, hconsistent, if_true, hdefault]
  · simp only [step, hlook, hinput, haction]
    rfl

/-- A reduction of the machine whose action does not accept. -/
theorem step_reduce {stack : List (Nat × V)} {status n : Nat} {input : List τ} {g g' : G} {v : V}
    (h : P.Reduces ⟨stack, status, input, g⟩ n)
    (hact : P.act n ((stack.take (P.tables.r2.getD n 0)).reverse.map Prod.snd) g =
      (v, g', false)) :
    P.step ⟨stack, status, input, g⟩ =
      some (.inl ⟨(P.tables.goto (top (stack.drop (P.tables.r2.getD n 0))) n, v) ::
        stack.drop (P.tables.r2.getD n 0), status, input, g'⟩) := by
  rw [P.step_of_reduces h, reduce, reduced]
  dsimp only
  rw [hact]
  rfl

/-- Where no state of the stack can shift `error`, all of it is popped. -/
theorem recover_eq {stack : List (Nat × V)}
    (h : ∀ e ∈ stack, P.tables.errorShift e.1 = none) :
    P.recover stack = (P.tables.errorShift 0).map (·, []) := by
  induction stack with
  | nil => rfl
  | cons e stack ih =>
    obtain ⟨he, hstack⟩ := List.forall_mem_cons.mp h
    rw [recover, he]
    exact ih hstack

/-- The machine is at an error: it has no action for the token in front of it. -/
def Fails (a : Conf τ V G) : Prop :=
  P.tables.consistent (top a.stack) = false ∧
    ∃ t us, a.input = t :: us ∧ P.tables.action (top a.stack) (P.kind t) = .error

/-- The recovery of the machine from an error. -/
theorem step_of_fails {a : Conf τ V G} {q : Nat} {stack : List (Nat × V)} (h : P.Fails a)
    (hrecover : P.recover a.stack = some (q, stack)) (hfinal : q ≠ P.tables.final) :
    P.step a = some (.inl ⟨(q, P.junk) :: stack, 3,
      if a.status = 3 then a.input.tail else a.input, a.globals⟩) := by
  obtain ⟨hlook, t, us, hinput, haction⟩ := h
  simp only [step, hlook, hinput, haction, hrecover, if_neg hfinal]
  rfl

/-- What one step of the machine is: a reduction, a shift, or the recovery from an error. -/
inductive Turn (a : Conf τ V G) : Conf τ V G ⊕ G × List τ → Prop
  | reduce {n : Nat} {r : Conf τ V G ⊕ G × List τ} (hreduces : P.Reduces a n)
      (hr : P.reduce n a = r) : Turn a r
  | shift {q : Nat} {t : τ} {us : List τ} (hlook : P.tables.consistent (top a.stack) = false)
      (hinput : a.input = t :: us)
      (haction : P.tables.action (top a.stack) (P.kind t) = .shift q)
      (hfinal : q ≠ P.tables.final) :
      Turn a (.inl ⟨(q, P.value t) :: a.stack, a.status - 1, us, a.globals⟩)
  | recover {q : Nat} {stack : List (Nat × V)} (hfails : P.Fails a)
      (hrecover : P.recover a.stack = some (q, stack)) (hfinal : q ≠ P.tables.final) :
      Turn a (.inl ⟨(q, P.junk) :: stack, 3, if a.status = 3 then a.input.tail else a.input,
        a.globals⟩)

theorem turn_of_step {a : Conf τ V G} {r : Conf τ V G ⊕ G × List τ} (h : P.step a = some r) :
    P.Turn a r := by
  rw [step] at h
  split at h
  · rename_i hconsistent
    split at h
    · rename_i n hdefault
      exact .reduce (Or.inl ⟨hconsistent, hdefault⟩) (Option.some.inj h)
    · simp at h
  · rename_i hlook
    rw [Bool.not_eq_true] at hlook
    split at h
    · simp at h
    · rename_i t us hinput
      split at h
      · rename_i q haction
        split at h
        · simp at h
        · rename_i hfinal
          obtain rfl := Option.some.inj h
          exact .shift hlook hinput haction hfinal
      · rename_i n haction
        exact .reduce (Or.inr ⟨hlook, t, us, hinput, haction⟩) (Option.some.inj h)
      · rename_i haction
        split at h
        · simp at h
        · rename_i q stack hrecover
          split at h
          · simp at h
          · rename_i hfinal
            obtain rfl := Option.some.inj h
            have hturn := Turn.recover (P := P) ⟨hlook, t, us, hinput, haction⟩ hrecover hfinal
            rw [hinput] at hturn
            exact hturn

/-- The machine comes from the one configuration to the other. -/
def Reaches : Conf τ V G → Conf τ V G → Prop :=
  Relation.ReflTransGen fun a a' => P.step a = some (.inl a')

/-- The machine accepts with these globals, when all tokens are used up. -/
def Accepts (a : Conf τ V G) (g : G) : Prop :=
  ∃ a', P.Reaches a a' ∧ P.step a' = some (.inr (g, []))

variable {P}

theorem Accepts.of_reaches {a b : Conf τ V G} {g : G} (h : P.Reaches a b) (hb : P.Accepts b g) :
    P.Accepts a g := by
  obtain ⟨b', hreach, hstep⟩ := hb
  exact ⟨b', h.trans hreach, hstep⟩

theorem Reaches.single {a b : Conf τ V G} (h : P.step a = some (.inl b)) : P.Reaches a b :=
  Relation.ReflTransGen.single h

/-- The stack that is left is a part of the stack, and its state shifts `error`. -/
theorem recover_spec {stack rest : List (Nat × V)} {q : Nat}
    (h : P.recover stack = some (q, rest)) :
    rest <:+ stack ∧ P.tables.errorShift (top rest) = some q := by
  induction stack with
  | nil =>
    obtain ⟨q', hq', heq⟩ := Option.map_eq_some_iff.mp h
    obtain ⟨rfl, rfl⟩ := Prod.mk.inj heq
    exact ⟨List.suffix_rfl, hq'⟩
  | cons e stack ih =>
    rw [recover] at h
    split at h
    · rename_i q' hq'
      obtain ⟨rfl, rfl⟩ := Prod.mk.inj (Option.some.inj h)
      exact ⟨List.suffix_rfl, hq'⟩
    · obtain ⟨hsuffix, hq⟩ := ih h
      exact ⟨hsuffix.trans (List.suffix_cons e stack), hq⟩

end Parser

/-! ### The skeleton -/

/-- The local variables of `yyparse`: the stacks, `yyerrstatus` and `yychar` (`none` is
    `YYEMPTY`), with the lexer and the globals. -/
structure Config (τ : Type u) (V : Type v) (G : Type w) (L : Type x) where
  stack : List (Nat × V)
  status : Nat
  char : Option τ
  lexer : L
  globals : G

/-- What `yyparse` leaves behind, with `yyresult`. -/
structure Finished (G : Type w) (L : Type x) where
  result : Nat
  globals : G
  lexer : L
  deriving DecidableEq, Repr

namespace Parser

variable (P : Parser τ V G) (lex : L → τ × L) (maxDepth : Nat)

/-- `yynewstate`: the stack of states, with the start state, must stay shorter than
    `YYMAXDEPTH`. -/
def enter (c : Config τ V G L) : Except (Finished G L) (Config τ V G L) :=
  if maxDepth ≤ c.stack.length + 1 then .error ⟨2, c.globals, c.lexer⟩ else .ok c

/-- `yyreduce` -/
def yyreduce (n : Nat) (c : Config τ V G L) : Except (Finished G L) (Config τ V G L) :=
  let r := P.reduced n c.stack c.globals
  if r.2.2 = true then .error ⟨0, r.2.1, c.lexer⟩
  else enter maxDepth { c with stack := r.1, globals := r.2.1 }

/-- `yyerrlab1` -/
def yyerrlab1 (c : Config τ V G L) : Except (Finished G L) (Config τ V G L) :=
  match P.recover c.stack with
  | none => .error ⟨1, c.globals, c.lexer⟩
  | some (q, stack) =>
    if q = P.tables.final then .error ⟨0, c.globals, c.lexer⟩
    else enter maxDepth { c with stack := (q, P.junk) :: stack, status := 3 }

/-- `yyerrlab`: a token that was tried again after an error is dropped, but not the end of the
    input. -/
def yyerrlab (c : Config τ V G L) : Except (Finished G L) (Config τ V G L) :=
  if c.status = 3 then
    match c.char with
    | none => P.yyerrlab1 maxDepth c
    | some t =>
      if P.kind t = 0 then .error ⟨1, c.globals, c.lexer⟩
      else P.yyerrlab1 maxDepth { c with char := none }
  else P.yyerrlab1 maxDepth c

/-- `yybackup`, up to the next state that is entered. -/
def yystep (c : Config τ V G L) : Except (Finished G L) (Config τ V G L) :=
  if P.tables.consistent (top c.stack) = true then
    match P.tables.defaultAction (top c.stack) with
    | .reduce n => P.yyreduce maxDepth n c
    | _ => P.yyerrlab maxDepth c
  else
    let (t, l) := match c.char with
      | some t => (t, c.lexer)
      | none => lex c.lexer
    let c := { c with char := some t, lexer := l }
    match P.tables.action (top c.stack) (P.kind t) with
    | .shift q =>
      if q = P.tables.final then .error ⟨0, c.globals, c.lexer⟩
      else
        enter maxDepth { c with
          stack := (q, P.value t) :: c.stack
          status := c.status - 1
          char := if P.kind t = 0 then some t else none }
    | .reduce n => P.yyreduce maxDepth n c
    | .error => P.yyerrlab maxDepth c

/-- The loop of `yyparse`; `none` if the steps are used up. -/
def run : Nat → Config τ V G L → Option (Finished G L)
  | 0, _ => none
  | fuel + 1, c =>
    match P.yystep lex maxDepth c with
    | .error r => some r
    | .ok c => run fuel c

/-- More steps do not change what is returned. -/
theorem run_mono {fuel fuel' : Nat} (hle : fuel ≤ fuel') {c : Config τ V G L}
    {r : Finished G L} (h : P.run lex maxDepth fuel c = some r) :
    P.run lex maxDepth fuel' c = some r := by
  induction fuel generalizing fuel' c with
  | zero => exact absurd h (by simp [run])
  | succ fuel ih =>
    obtain ⟨fuel', rfl⟩ : ∃ m, fuel' = m + 1 := ⟨fuel' - 1, by omega⟩
    rw [run] at h ⊢
    split
    · rename_i r' hstep
      rw [hstep] at h
      exact h
    · rename_i c' hstep
      rw [hstep] at h
      exact ih (by omega) h

/-! ### The skeleton follows the machine -/

/-- From `l` on, the lexer returns these tokens, and is then `l'`. -/
def Reads : L → List τ → L → Prop
  | l, [], l' => l = l'
  | l, t :: us, l' => (lex l).1 = t ∧ Reads (lex l).2 us l'

theorem reads_append {l l' : L} {us vs : List τ} :
    Reads lex l (us ++ vs) l' ↔ ∃ m, Reads lex l us m ∧ Reads lex m vs l' := by
  induction us generalizing l with
  | nil => exact ⟨fun h => ⟨l, rfl, h⟩, fun ⟨_, hm, h⟩ => hm ▸ h⟩
  | cons t us ih =>
    constructor
    · rintro ⟨ht, h⟩
      obtain ⟨m, hus, hvs⟩ := ih.mp h
      exact ⟨m, ⟨ht, hus⟩, hvs⟩
    · rintro ⟨m, ⟨ht, hus⟩, hvs⟩
      exact ⟨ht, ih.mpr ⟨m, hus, hvs⟩⟩

/-- The skeleton stands where the machine does, and the tokens that the machine has not
    shifted end at `l'`; the first of them may be in `yychar` already. -/
structure Follows (c : Config τ V G L) (a : Conf τ V G) (l' : L) : Prop where
  stack : c.stack = a.stack
  status : c.status = a.status
  globals : c.globals = a.globals
  input : Reads lex c.lexer (a.input.drop c.char.toList.length) l' ∧
    c.char.toList <+: a.input

variable {P lex maxDepth}

/-- The token that the skeleton looks at is the first one that the machine has not shifted. -/
theorem Follows.lookahead {c : Config τ V G L} {a : Conf τ V G} {l' : L} {t : τ} {us : List τ}
    (h : Follows lex c a l') (ha : a.input = t :: us) :
    ∃ l, (match c.char with
      | some t => (t, c.lexer)
      | none => lex c.lexer) = (t, l) ∧ Reads lex l us l' := by
  obtain ⟨hreads, hprefix⟩ := h.input
  rw [ha] at hreads hprefix
  cases hchar : c.char with
  | none =>
    rw [hchar] at hreads
    obtain ⟨ht, hus⟩ := hreads
    exact ⟨(lex c.lexer).2, by rw [← ht], hus⟩
  | some t' =>
    rw [hchar] at hreads hprefix
    obtain rfl : t' = t := (List.cons_prefix_cons.mp hprefix).1
    exact ⟨c.lexer, rfl, hreads⟩

/-- Where the state needs a token the skeleton reads it into `yychar` first. -/
theorem Follows.yystep_look {c : Config τ V G L} {a : Conf τ V G} {l' : L} {t : τ}
    {us : List τ} (h : Follows lex c a l') (hlook : P.tables.consistent (top a.stack) = false)
    (hinput : a.input = t :: us) :
    ∃ l, P.yystep lex maxDepth c =
        (match P.tables.action (top a.stack) (P.kind t) with
        | .shift q =>
          if q = P.tables.final then .error ⟨0, c.globals, l⟩
          else
            enter maxDepth ⟨(q, P.value t) :: a.stack, c.status - 1,
              if P.kind t = 0 then some t else none, l, c.globals⟩
        | .reduce n => P.yyreduce maxDepth n ⟨a.stack, c.status, some t, l, c.globals⟩
        | .error => P.yyerrlab maxDepth ⟨a.stack, c.status, some t, l, c.globals⟩) ∧
      Follows lex ⟨a.stack, c.status, some t, l, c.globals⟩ a l' := by
  obtain ⟨l, hl, hreads⟩ := h.lookahead hinput
  refine ⟨l, ?_, rfl, h.status, h.globals, by rw [hinput]; exact hreads, by simp [hinput]⟩
  rw [yystep, h.stack, if_neg (by simp [hlook]), hl]

variable (maxDepth) in
/-- Where the machine reduces, so does the skeleton, with the token it has looked at in
    `yychar`. -/
theorem Follows.reduces {c : Config τ V G L} {a : Conf τ V G} {l' : L} {n : Nat}
    (h : Follows lex c a l') (hn : P.Reduces a n) :
    ∃ c', P.yystep lex maxDepth c = P.yyreduce maxDepth n c' ∧ Follows lex c' a l' := by
  rcases hn with ⟨hconsistent, hdefault⟩ | ⟨hlook, t, us, hinput, haction⟩
  · refine ⟨c, ?_, h⟩
    rw [yystep, h.stack, if_pos hconsistent, hdefault]
  · obtain ⟨l, hstep, hfollows⟩ := h.yystep_look hlook hinput
    exact ⟨_, by rw [hstep, haction], hfollows⟩

/-- **A reduction of the machine is followed.** -/
theorem Follows.reduce {c : Config τ V G L} {a a' : Conf τ V G} {l' : L} {n : Nat}
    (h : Follows lex c a l') (ha : P.reduce n a = .inl a') :
    ∃ c', P.yyreduce maxDepth n c = enter maxDepth c' ∧ Follows lex c' a' l' := by
  rw [Parser.reduce] at ha
  rw [yyreduce, h.stack, h.globals]
  split at ha
  · simp at ha
  · rename_i hgo
    obtain rfl := Sum.inl.inj ha
    rw [if_neg hgo]
    exact ⟨_, rfl, rfl, h.status, rfl, h.input⟩

/-- The recovery of the skeleton, with the token that was tried in `yychar`: it is dropped
    where the machine drops it. -/
theorem Follows.recover {c : Config τ V G L} {a : Conf τ V G} {l' : L} {t : τ} {q : Nat}
    {stack : List (Nat × V)} (h : Follows lex c a l') (hchar : c.char = some t)
    (hkind : P.kind t ≠ 0) (hrecover : P.recover a.stack = some (q, stack))
    (hfinal : q ≠ P.tables.final) :
    ∃ c', P.yyerrlab maxDepth c = enter maxDepth c' ∧
      Follows lex c' ⟨(q, P.junk) :: stack, 3, if a.status = 3 then a.input.tail else a.input,
        a.globals⟩ l' := by
  have hinput := h.input
  rw [yyerrlab, h.status, hchar]
  dsimp only
  by_cases hstatus : a.status = 3
  · rw [if_pos hstatus, if_neg hkind, yyerrlab1, h.stack, hrecover]
    dsimp only
    rw [if_neg hfinal]
    refine ⟨_, rfl, rfl, rfl, h.globals, ?_⟩
    rw [hchar] at hinput
    rw [if_pos hstatus, ← List.drop_one]
    exact ⟨hinput.1, List.nil_prefix⟩
  · rw [if_neg hstatus, yyerrlab1, h.stack, hrecover]
    dsimp only
    rw [if_neg hfinal]
    refine ⟨_, rfl, rfl, rfl, h.globals, ?_⟩
    rw [if_neg hstatus]
    exact hinput

/-- **One step** of the machine is one turn of the skeleton, up to the test of the depth. -/
theorem Follows.step (hkind : ∀ t, P.kind t ≠ 0) {c : Config τ V G L} {a a' : Conf τ V G}
    {l' : L} (h : Follows lex c a l') (ha : P.step a = some (.inl a')) :
    ∃ c', P.yystep lex maxDepth c = enter maxDepth c' ∧ Follows lex c' a' l' := by
  cases P.turn_of_step ha with
  | reduce hreduces hr =>
    obtain ⟨c₁, hstep, hfollows⟩ := h.reduces maxDepth hreduces
    rw [hstep]
    exact hfollows.reduce hr
  | @shift q t us hlook hinput haction hfinal =>
    obtain ⟨l, hstep, hfollows⟩ := h.yystep_look hlook hinput
    have hreads := hfollows.input.1
    rw [hinput] at hreads
    rw [hstep, haction]
    dsimp only
    rw [if_neg hfinal, if_neg (hkind t), h.status]
    exact ⟨_, rfl, rfl, rfl, h.globals, hreads, List.nil_prefix⟩
  | recover hfails hrecover hfinal =>
    obtain ⟨hlook, t, us, hinput, haction⟩ := hfails
    obtain ⟨l, hstep, hfollows⟩ := h.yystep_look hlook hinput
    rw [hstep, haction]
    exact hfollows.recover rfl (hkind t) hrecover hfinal

/-- Where the machine accepts with all tokens used up, so does the skeleton, with no token
    in `yychar`. -/
theorem Follows.accept {c : Config τ V G L} {a : Conf τ V G} {l' : L} {g : G}
    (h : Follows lex c a l') (ha : P.step a = some (.inr (g, []))) :
    P.yystep lex maxDepth c = .error ⟨0, g, l'⟩ := by
  cases P.turn_of_step ha with
  | @reduce n r hreduces hr =>
    obtain ⟨c₁, hstep, hfollows⟩ := h.reduces maxDepth hreduces
    rw [Parser.reduce] at hr
    split at hr
    · rename_i haccept
      obtain ⟨hg, hinput⟩ := Prod.mk.inj (Sum.inr.inj hr)
      obtain ⟨hreads, -⟩ := hfollows.input
      rw [hinput, List.drop_nil] at hreads
      obtain rfl : c₁.lexer = l' := hreads
      rw [hstep, yyreduce, hfollows.stack, hfollows.globals, if_pos haccept, hg]
    · simp at hr

/-- A stack below the bound is entered. -/
theorem enter_of_lt {c : Config τ V G L} (h : c.stack.length + 1 < maxDepth) :
    enter maxDepth c = .ok c := if_neg (Nat.not_le.mpr h)

/-- **What the machine accepts the skeleton returns**, if its stack stays below the bound; the
    lexer is then behind the last token that was shifted. -/
theorem run_of_accepts (hkind : ∀ t, P.kind t ≠ 0) {c : Config τ V G L} {a : Conf τ V G}
    {l' : L} {g : G} (h : Follows lex c a l') (ha : P.Accepts a g)
    (hdepth : ∀ b, P.Reaches a b → b.stack.length + 1 < maxDepth) :
    ∃ fuel, P.run lex maxDepth fuel c = some ⟨0, g, l'⟩ := by
  obtain ⟨b, hreach, hstep⟩ := ha
  -- by induction along the run of the machine, from its first step on
  induction hreach using Relation.ReflTransGen.head_induction_on generalizing c with
  | refl => exact ⟨1, by rw [run, h.accept hstep]⟩
  | @head a a' hfirst hrest ih =>
    obtain ⟨c', hc', hfollows⟩ := h.step hkind hfirst
    have hlt : c'.stack.length + 1 < maxDepth := by
      rw [hfollows.stack]
      exact hdepth a' (Reaches.single hfirst)
    obtain ⟨fuel, hfuel⟩ := ih hfollows fun b hb =>
      hdepth b (Relation.ReflTransGen.head hfirst hb)
    exact ⟨fuel + 1, by rw [run, hc', enter_of_lt hlt]; exact hfuel⟩

/-- **Where the stack of the machine comes to the bound the skeleton gives up**, with the
    globals as they are then. -/
theorem run_of_deep (hkind : ∀ t, P.kind t ≠ 0) {c : Config τ V G L} {a b : Conf τ V G} {l' : L}
    (h : Follows lex c a l') (hreach : P.Reaches a b) (hdeep : maxDepth ≤ b.stack.length + 1)
    (hlt : a.stack.length + 1 < maxDepth) :
    ∃ fuel d l, P.Reaches a d ∧ P.run lex maxDepth fuel c = some ⟨2, d.globals, l⟩ := by
  induction hreach using Relation.ReflTransGen.head_induction_on generalizing c with
  | refl => omega
  | @head a a' hfirst hrest ih =>
    obtain ⟨c', hc', hfollows⟩ := h.step hkind hfirst
    by_cases hlt' : a'.stack.length + 1 < maxDepth
    · obtain ⟨fuel, d, l, hd, hrun⟩ := ih hfollows hlt'
      have henter : enter maxDepth c' = .ok c' := enter_of_lt (by rwa [hfollows.stack])
      exact ⟨fuel + 1, d, l, (Reaches.single hfirst).trans hd, by rw [run, hc', henter]; exact hrun⟩
    · have henter : enter maxDepth c' = .error ⟨2, c'.globals, c'.lexer⟩ :=
        if_pos (by rw [hfollows.stack]; omega)
      refine ⟨1, a', c'.lexer, Reaches.single hfirst, ?_⟩
      rw [run, hc', henter, hfollows.globals]

end Parser

/-! ### A bound on the depth -/

/-- What the entries of a stack are paid with: a token pays `token` and an error `error`, a
    state keeps its `advance`, of at most `most`, and a rule is charged for what it pushes. -/
structure Budget where
  advance : List Nat
  most : Nat
  charge : List Nat
  token : Nat
  error : Nat

namespace Budget

variable (b : Budget) (T : Tables)

/-- What the state keeps. -/
def advanceOf (q : Nat) : Nat := b.advance.getD q 0

/-- The state can pay for what it does. -/
def pays (q : Nat) : Action → Bool
  | .shift q' => q' < b.advance.length && 1 + b.advanceOf q' + b.error ≤ b.token + b.advanceOf q
  | .reduce n =>
    n < b.charge.length && b.charge.getD n 0 ≤ T.r2.getD n 0 + b.advanceOf q
  | .error => true

/-- The check of the tables. -/
def valid : Bool :=
  0 < b.advance.length && b.error ≤ b.token &&
    (List.range b.advance.length).all fun q =>
      b.advanceOf q ≤ b.most && b.pays T q (T.defaultAction q) &&
      ((List.range T.ntokens).all fun x => b.pays T q (T.action q x)) &&
      ((List.range b.charge.length).all fun n =>
        T.goto q n < b.advance.length && 1 + b.advanceOf (T.goto q n) ≤ b.charge.getD n 0) &&
      match T.errorShift q with
      | none => true
      | some q' => q' < b.advance.length && 1 + b.advanceOf q' ≤ b.error

/-- What has been paid for, and what is still to spend. -/
def owned (a : Conf τ V G) : Nat :=
  a.stack.length + b.advanceOf (top a.stack) + b.token * a.input.length +
    if a.status = 3 then 0 else b.error

/-- The deepest stack on `n` tokens. -/
def depth (n : Nat) : Nat := b.token * n + b.error + 1 + b.most

/-- The invariant of a run on `n` tokens. -/
structure Keeps (n : Nat) (a : Conf τ V G) : Prop where
  states : ∀ e ∈ a.stack, e.1 < b.advance.length
  input : a.input.length ≤ n
  owned : b.owned a ≤ b.depth n

variable {b T}

/-- What the check says of one state. -/
theorem valid_spec (h : b.valid T = true) :
    0 < b.advance.length ∧ b.error ≤ b.token ∧ ∀ q < b.advance.length,
      b.advanceOf q ≤ b.most ∧ b.pays T q (T.defaultAction q) = true ∧
      (∀ x < T.ntokens, b.pays T q (T.action q x) = true) ∧
      (∀ n < b.charge.length, T.goto q n < b.advance.length ∧
        1 + b.advanceOf (T.goto q n) ≤ b.charge.getD n 0) ∧
      ∀ q', T.errorShift q = some q' →
        q' < b.advance.length ∧ 1 + b.advanceOf q' ≤ b.error := by
  simp only [valid, Bool.and_eq_true, decide_eq_true_eq, List.all_eq_true, List.mem_range] at h
  obtain ⟨⟨hpos, hle⟩, hstates⟩ := h
  refine ⟨hpos, hle, fun q hq => ?_⟩
  obtain ⟨⟨⟨⟨hmost, hdefault⟩, hactions⟩, hgotos⟩, herror⟩ := hstates q hq
  refine ⟨hmost, hdefault, hactions, hgotos, fun q' hq' => ?_⟩
  rw [hq'] at herror
  simpa using herror

variable {P : Parser τ V G} {n : Nat} {a a' : Conf τ V G}

/-- A reduction pays for its state from the entries it pops and the advance of the top. -/
theorem Keeps.reduce (h : b.Keeps n a) (hvalid : b.valid P.tables = true) {r : Nat}
    (hpays : b.pays P.tables (top a.stack) (.reduce r) = true) (ha : P.reduce r a = .inl a') :
    b.Keeps n a' := by
  obtain ⟨hpos, -, hstates⟩ := valid_spec hvalid
  simp only [pays, Bool.and_eq_true, decide_eq_true_eq] at hpays
  obtain ⟨hr, hcharge⟩ := hpays
  rw [Parser.reduce] at ha
  split at ha
  · simp at ha
  · obtain rfl := Sum.inl.inj ha
    have hrest : ∀ e ∈ a.stack.drop (P.tables.r2.getD r 0), e.1 < b.advance.length :=
      fun e he => h.states e (List.mem_of_mem_drop he)
    obtain ⟨hgoto, hadvance⟩ := (hstates _ (top_lt hpos hrest)).2.2.2.1 r hr
    have hmost := (hstates _ hgoto).1
    have hinput := Nat.mul_le_mul_left b.token h.input
    have howned := h.owned
    refine ⟨List.forall_mem_cons.mpr ⟨hgoto, hrest⟩, h.input, ?_⟩
    have herror : (if a.status = 3 then 0 else b.error) ≤ b.error := by split <;> omega
    simp only [Budget.owned, depth, Parser.reduced, top_cons, List.length_cons,
      List.length_drop] at *
    -- where the stack is shorter than the rule, what is left is a single entry
    omega

/-- A recovery is paid by the token that is dropped, or by the share of the error. -/
theorem Keeps.recover (h : b.Keeps n a) (hvalid : b.valid P.tables = true) {t : τ} {us : List τ}
    (hcons : a.input = t :: us) {q : Nat} {stack : List (Nat × V)}
    (hrecover : P.recover a.stack = some (q, stack)) :
    b.Keeps n ⟨(q, P.junk) :: stack, 3, if a.status = 3 then a.input.tail else a.input,
      a.globals⟩ := by
  obtain ⟨hpos, herror, hstates⟩ := valid_spec hvalid
  obtain ⟨hsuffix, hq⟩ := Parser.recover_spec hrecover
  have hrest : ∀ e ∈ stack, e.1 < b.advance.length :=
    fun e he => h.states e (hsuffix.mem he)
  obtain ⟨hlt, hadvance⟩ := (hstates _ (top_lt hpos hrest)).2.2.2.2 q hq
  have hlen := hsuffix.length_le
  have howned := h.owned
  have hle := h.input
  refine ⟨List.forall_mem_cons.mpr ⟨hlt, hrest⟩, ?_, ?_⟩
  · rw [hcons, List.tail_cons]
    rw [hcons, List.length_cons] at hle
    split
    · exact Nat.le_of_succ_le hle
    · exact hle
  · simp only [Budget.owned, depth, top_cons, hcons, List.tail_cons, List.length_cons,
      if_true] at *
    -- the second error in a row takes a token, and the first one its own share
    by_cases hstatus : a.status = 3
    · simp only [hstatus, if_true, Nat.mul_add, Nat.mul_one] at *
      omega
    · simp only [hstatus, if_false, List.length_cons] at *
      omega

/-- **Step lemma.** -/
theorem Keeps.step (h : b.Keeps n a) (hvalid : b.valid P.tables = true)
    (hkind : ∀ t, P.kind t < P.tables.ntokens) (ha : P.step a = some (.inl a')) :
    b.Keeps n a' := by
  obtain ⟨hpos, herror, hstates⟩ := valid_spec hvalid
  obtain ⟨-, hdefault, hactions, -⟩ := hstates _ (top_lt hpos h.states)
  cases P.turn_of_step ha with
  | reduce hreduces hreduce =>
    refine h.reduce hvalid ?_ hreduce
    rcases hreduces with ⟨-, hr⟩ | ⟨-, t, us, -, hr⟩
    · rw [← hr]
      exact hdefault
    · rw [← hr]
      exact hactions _ (hkind t)
  | @shift q t us _ hinput hshift _ =>
    have hpays := hactions _ (hkind t)
    rw [hshift] at hpays
    simp only [pays, Bool.and_eq_true, decide_eq_true_eq] at hpays
    have howned := h.owned
    have hle := h.input
    rw [hinput, List.length_cons] at hle
    refine ⟨List.forall_mem_cons.mpr ⟨hpays.1, h.states⟩, Nat.le_of_succ_le hle, ?_⟩
    -- behind a shift the next error is to be paid again
    have herror' : (if a.status - 1 = 3 then 0 else b.error) ≤ b.error := by split <;> omega
    simp only [Budget.owned, depth, top_cons, hinput, List.length_cons, Nat.mul_add,
      Nat.mul_one] at *
    omega
  | recover hfails hrecover _ =>
    obtain ⟨-, t, us, hcons, -⟩ := hfails
    exact h.recover hvalid hcons hrecover

/-- **The stack of the machine stays in its budget**: on `n` tokens it is at most `depth n`. -/
theorem length_le_depth (hvalid : b.valid P.tables = true)
    (hkind : ∀ t, P.kind t < P.tables.ntokens) {input : List τ} {g : G}
    (h : P.Reaches ⟨[], 0, input, g⟩ a) : a.stack.length ≤ b.depth input.length := by
  obtain ⟨hpos, -, hstates⟩ := valid_spec hvalid
  have hstart : b.Keeps input.length (⟨[], 0, input, g⟩ : Conf τ V G) := by
    refine ⟨by simp, Nat.le_refl _, ?_⟩
    have hmost := (hstates 0 hpos).1
    simp only [Budget.owned, depth, top, List.length_nil]
    rw [if_neg (by decide)]
    omega
  have hkeeps : b.Keeps input.length a := by
    induction h with
    | refl => exact hstart
    | tail _ hstep ih => exact ih.step hvalid hkind hstep
  have howned := hkeeps.owned
  unfold Budget.owned at howned
  omega

end Budget

end OSPortfolio.LR
