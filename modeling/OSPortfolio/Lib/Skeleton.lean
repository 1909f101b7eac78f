import OSPortfolio.Lib.LRSoundness

namespace OSPortfolio.LR

/-!
# Skeletons with a state

The skeleton of Bison around a lexer and actions that work on one state and may fail, as C code
does that shares a heap.  It counts the errors, as `yynerrs` does.

* `Skeleton.step`, `Skeleton.run` — the skeleton;
* `Parser.skeleton`, `Parser.run_skeleton` — that of a parser with a lexer of its own;
* `Parser.run_of_keeps` — **a run does not read behind its end**;
* `Simulation`, `Simulation.run` — **a skeleton simulates another one** if its lexer and its
  actions keep a relation between the two stacks and states;
* `Skeleton.Certified`, `TypedSimulation.simulation` — with a certificate for the tables, the
  actions are called with values of the right types.
-/

universe u v w x y z

/-- A skeleton: the tables, the tokens, the value that is pushed with the token `error`, and the
    lexer and the actions of the rules; these fail where their behaviour is undefined. -/
structure Skeleton (τ : Type u) (V : Type v) (S : Type w) where
  tables : Tables
  kind : τ → Nat
  value : τ → V
  junk : V
  lex : S → Option (τ × S)
  act : Nat → List V → S → Option (V × S × Bool)

/-- The local variables of `yyparse`, `yynerrs` among them, and the state. -/
structure SkeletonConfig (τ : Type u) (V : Type v) (S : Type w) where
  stack : List (Nat × V)
  status : Nat
  nerrs : Nat
  char : Option τ
  state : S

/-- What `yyparse` leaves behind, with `yyresult` and `yynerrs`. -/
structure SkeletonResult (S : Type w) where
  result : Nat
  nerrs : Nat
  state : S

/-- The next configuration, or the end; `failed` where the lexer or an action fails. -/
inductive Outcome (τ : Type u) (V : Type v) (S : Type w)
  | more (c : SkeletonConfig τ V S)
  | done (r : SkeletonResult S)
  | failed

/-- Pop until `error` can be shifted. -/
def Tables.popErrors {V : Type v} (T : Tables) :
    List (Nat × V) → Option (Nat × List (Nat × V))
  | [] => (T.errorShift 0).map (·, [])
  | e :: stack =>
    match T.errorShift e.1 with
    | some q => some (q, e :: stack)
    | none => popErrors T stack

/-- Stacks of the same states have the same state on top. -/
theorem top_of_states {V : Type v} {V' : Type w} {stack : List (Nat × V)}
    {stack' : List (Nat × V')} (h : stack'.map Prod.fst = stack.map Prod.fst) :
    top stack' = top stack := by
  cases stack with
  | nil =>
    rw [List.map_nil, List.map_eq_nil_iff] at h
    rw [h]
    rfl
  | cons x stack =>
    rw [List.map_cons] at h
    obtain ⟨y, below, rfl, hfst, -⟩ := List.map_eq_cons_iff.mp h
    exact hfst

/-- What is left is a part of the stack, and its state shifts `error`. -/
theorem Tables.popErrors_spec {V : Type v} {T : Tables} {stack rest : List (Nat × V)} {q : Nat}
    (h : T.popErrors stack = some (q, rest)) :
    rest <:+ stack ∧ T.errorShift (top rest) = some q := by
  induction stack with
  | nil =>
    obtain ⟨q', hq', heq⟩ := Option.map_eq_some_iff.mp h
    obtain ⟨rfl, rfl⟩ := Prod.mk.inj heq
    exact ⟨List.suffix_rfl, hq'⟩
  | cons e stack ih =>
    rw [popErrors] at h
    split at h
    · rename_i q' hq'
      obtain ⟨rfl, rfl⟩ := Prod.mk.inj (Option.some.inj h)
      exact ⟨List.suffix_rfl, hq'⟩
    · obtain ⟨hsuffix, hq⟩ := ih h
      exact ⟨hsuffix.trans (List.suffix_cons e stack), hq⟩

/-- The states alone decide about it. -/
theorem Tables.popErrors_of_states {V : Type v} {V' : Type w} (T : Tables)
    {stack : List (Nat × V)} {stack' : List (Nat × V')}
    (h : stack'.map Prod.fst = stack.map Prod.fst) :
    T.popErrors stack' =
      (T.popErrors stack).map fun r => (r.1, stack'.drop (stack.length - r.2.length)) := by
  induction stack generalizing stack' with
  | nil =>
    obtain rfl : stack' = [] := List.map_eq_nil_iff.mp h
    rw [popErrors, popErrors, Option.map_map]
    rfl
  | cons e stack ih =>
    obtain ⟨e', rest', rfl, hfst, hrest⟩ := List.map_eq_cons_iff.mp h
    rw [popErrors, popErrors, hfst]
    cases hq : T.errorShift e.1 with
    | some q => simp
    | none =>
      dsimp only
      rw [ih hrest]
      cases hpop : T.popErrors stack with
      | none => rfl
      | some r =>
        have hlength := (popErrors_spec hpop).1.length_le
        have hsub : (e :: stack).length - r.2.length = stack.length - r.2.length + 1 := by
          rw [List.length_cons]
          omega
        simp only [Option.map_some, hsub, List.drop_succ_cons]

namespace Skeleton

variable {τ : Type u} {V : Type v} {S : Type w} (K : Skeleton τ V S) (maxDepth : Nat)

/-- `yynewstate` -/
def enter (c : SkeletonConfig τ V S) : Outcome τ V S :=
  if maxDepth ≤ c.stack.length + 1 then .done ⟨2, c.nerrs, c.state⟩ else .more c

/-- `yyreduce` -/
def yyreduce (n : Nat) (c : SkeletonConfig τ V S) : Outcome τ V S :=
  let k := K.tables.r2.getD n 0
  match K.act n ((c.stack.take k).reverse.map Prod.snd) c.state with
  | none => .failed
  | some (v, s, accepts) =>
    if accepts = true then .done ⟨0, c.nerrs, s⟩
    else
      enter maxDepth { c with
        stack := (K.tables.goto (top (c.stack.drop k)) n, v) :: c.stack.drop k
        state := s }

/-- `yyerrlab1` -/
def yyerrlab1 (c : SkeletonConfig τ V S) : Outcome τ V S :=
  match K.tables.popErrors c.stack with
  | none => .done ⟨1, c.nerrs, c.state⟩
  | some (q, stack) =>
    if q = K.tables.final then .done ⟨0, c.nerrs, c.state⟩
    else enter maxDepth { c with stack := (q, K.junk) :: stack, status := 3 }

/-- `yyerrlab` -/
def yyerrlab (c : SkeletonConfig τ V S) : Outcome τ V S :=
  let c := if c.status = 0 then { c with nerrs := c.nerrs + 1 } else c
  if c.status = 3 then
    match c.char with
    | none => K.yyerrlab1 maxDepth c
    | some t =>
      if K.kind t = 0 then .done ⟨1, c.nerrs, c.state⟩
      else K.yyerrlab1 maxDepth { c with char := none }
  else K.yyerrlab1 maxDepth c

/-- `yybackup` behind the look at the token. -/
def yybackup (t : τ) (s : S) (c : SkeletonConfig τ V S) : Outcome τ V S :=
  let c := { c with char := some t, state := s }
  match K.tables.action (top c.stack) (K.kind t) with
  | .shift q =>
    if q = K.tables.final then .done ⟨0, c.nerrs, c.state⟩
    else
      enter maxDepth { c with
        stack := (q, K.value t) :: c.stack
        status := c.status - 1
        char := if K.kind t = 0 then some t else none }
  | .reduce n => K.yyreduce maxDepth n c
  | .error => K.yyerrlab maxDepth c

/-- `yybackup`, up to the next state that is entered. -/
def step (c : SkeletonConfig τ V S) : Outcome τ V S :=
  if K.tables.consistent (top c.stack) = true then
    match K.tables.defaultAction (top c.stack) with
    | .reduce n => K.yyreduce maxDepth n c
    | _ => K.yyerrlab maxDepth c
  else
    match c.char with
    | some t => K.yybackup maxDepth t c.state c
    | none =>
      match K.lex c.state with
      | none => .failed
      | some (t, s) => K.yybackup maxDepth t s c

/-- The loop of `yyparse`, for at most `fuel` steps. -/
def run : Nat → SkeletonConfig τ V S → Outcome τ V S
  | 0, c => .more c
  | fuel + 1, c =>
    match K.step maxDepth c with
    | .more c => run fuel c
    | r => r

/-- A run goes on behind its first step. -/
theorem run_of_more {fuel : Nat} {c c' : SkeletonConfig τ V S} {r : SkeletonResult S}
    (hstep : K.step maxDepth c = .more c') (hrun : K.run maxDepth fuel c = .done r) :
    ∃ fuel', K.run maxDepth fuel' c' = .done r := by
  cases fuel with
  | zero => cases hrun
  | succ fuel =>
    rw [run, hstep] at hrun
    exact ⟨fuel, hrun⟩

/-- A run ends with the step that does. -/
theorem run_of_done {fuel : Nat} {c : SkeletonConfig τ V S} {r r' : SkeletonResult S}
    (hstep : K.step maxDepth c = .done r') (hrun : K.run maxDepth fuel c = .done r) : r = r' := by
  cases fuel with
  | zero => cases hrun
  | succ fuel =>
    rw [run, hstep] at hrun
    exact (Outcome.done.inj hrun).symm

end Skeleton

/-! ### Parsers -/

section
variable {τ : Type u} {V : Type v} {G : Type w} {L : Type x}

/-- The skeleton of a parser, around a lexer that does not touch the globals. -/
def Parser.skeleton (P : Parser τ V G) (lex : L → Option (τ × L)) : Skeleton τ V (L × G) where
  tables := P.tables
  kind := P.kind
  value := P.value
  junk := P.junk
  lex s := (lex s.1).map fun r => (r.1, r.2, s.2)
  act n vs s := some ((P.act n vs s.2).1, (s.1, (P.act n vs s.2).2.1), (P.act n vs s.2).2.2)

/-- Without the count of the errors. -/
def SkeletonConfig.config (c : SkeletonConfig τ V (L × G)) : Config τ V G L :=
  ⟨c.stack, c.status, c.char, c.state.1, c.state.2⟩

def SkeletonResult.finished (r : SkeletonResult (L × G)) : Finished G L :=
  ⟨r.result, r.state.2, r.state.1⟩

/-- What the one skeleton does is what the other does. -/
def Agrees : Except (Finished G L) (Config τ V G L) → Outcome τ V (L × G) → Prop
  | .ok c, .more d => c = d.config
  | .error r, .done r' => r = r'.finished
  | _, _ => False

namespace Parser

variable (P : Parser τ V G) (lex : L → τ × L) (maxDepth : Nat)

/-- The recovery of a parser, on the tables alone. -/
theorem recover_eq_popErrors (stack : List (Nat × V)) :
    P.recover stack = P.tables.popErrors stack := by
  induction stack with
  | nil => rfl
  | cons e stack ih =>
    rw [recover, Tables.popErrors]
    cases P.tables.errorShift e.1 with
    | some q => rfl
    | none => exact ih

/-- The check of the stack agrees. -/
theorem enter_agrees (c : SkeletonConfig τ V (L × G)) :
    Agrees (enter maxDepth c.config) (Skeleton.enter maxDepth c) := by
  unfold enter Skeleton.enter
  show Agrees (if maxDepth ≤ c.stack.length + 1 then _ else _) _
  split <;> rfl

/-- A reduction agrees. -/
theorem yyreduce_agrees (lex : L → Option (τ × L)) (n : Nat) (c : SkeletonConfig τ V (L × G)) :
    Agrees (P.yyreduce maxDepth n c.config) ((P.skeleton lex).yyreduce maxDepth n c) := by
  obtain ⟨stack, status, nerrs, char, l, g⟩ := c
  unfold yyreduce Skeleton.yyreduce
  simp only [SkeletonConfig.config, show (P.skeleton lex).tables = P.tables from rfl]
  obtain ⟨v, g', accepts, hact⟩ : ∃ v g' b,
      P.act n ((stack.take (P.tables.r2.getD n 0)).reverse.map Prod.snd) g = (v, g', b) :=
    ⟨_, _, _, rfl⟩
  have hskeleton : (P.skeleton lex).act n
      ((stack.take (P.tables.r2.getD n 0)).reverse.map Prod.snd) (l, g) =
      some (v, (l, g'), accepts) := by
    simp only [skeleton, hact]
  simp only [reduced, hact, hskeleton]
  cases accepts with
  | true => rfl
  | false => exact enter_agrees maxDepth ⟨_, status, nerrs, char, l, g'⟩

/-- The recovery agrees. -/
theorem yyerrlab1_agrees (lex : L → Option (τ × L)) (c : SkeletonConfig τ V (L × G)) :
    Agrees (P.yyerrlab1 maxDepth c.config) ((P.skeleton lex).yyerrlab1 maxDepth c) := by
  unfold yyerrlab1 Skeleton.yyerrlab1
  rw [recover_eq_popErrors]
  simp only [SkeletonConfig.config, show (P.skeleton lex).tables = P.tables from rfl]
  cases P.tables.popErrors c.stack with
  | none => rfl
  | some r =>
    dsimp only
    by_cases hfinal : r.1 = P.tables.final
    · rw [if_pos hfinal, if_pos hfinal]
      rfl
    · rw [if_neg hfinal, if_neg hfinal]
      exact enter_agrees maxDepth ⟨_, 3, c.nerrs, c.char, c.state⟩

/-- The error agrees. -/
theorem yyerrlab_agrees (lex : L → Option (τ × L)) (c : SkeletonConfig τ V (L × G)) :
    Agrees (P.yyerrlab maxDepth c.config) ((P.skeleton lex).yyerrlab maxDepth c) := by
  unfold yyerrlab Skeleton.yyerrlab
  -- the count is no part of what the parser does
  by_cases hzero : c.status = 0
  · rw [if_neg (show ¬ c.config.status = 3 by rw [show c.config.status = 0 from hzero]; decide)]
    simp only [if_pos hzero, if_neg (show ¬ c.status = 3 by rw [hzero]; decide)]
    exact P.yyerrlab1_agrees maxDepth lex { c with nerrs := c.nerrs + 1 }
  · simp only [if_neg hzero]
    by_cases hthree : c.status = 3
    · rw [if_pos (show c.config.status = 3 from hthree), if_pos hthree]
      obtain ⟨stack, status, nerrs, char, state⟩ := c
      cases char with
      | none => exact P.yyerrlab1_agrees maxDepth lex ⟨stack, status, nerrs, none, state⟩
      | some t =>
        show Agrees (if P.kind t = 0 then _ else _) (if P.kind t = 0 then _ else _)
        by_cases hkind : P.kind t = 0
        · rw [if_pos hkind, if_pos hkind]
          rfl
        · rw [if_neg hkind, if_neg hkind]
          exact P.yyerrlab1_agrees maxDepth lex ⟨stack, status, nerrs, none, state⟩
    · rw [if_neg (show ¬ c.config.status = 3 from hthree), if_neg hthree]
      exact P.yyerrlab1_agrees maxDepth lex c

/-- **One step** of the parser is one of its skeleton. -/
theorem step_agrees (c : SkeletonConfig τ V (L × G)) :
    Agrees (P.yystep lex maxDepth c.config)
      ((P.skeleton fun l => some (lex l)).step maxDepth c) := by
  -- behind the look at the token, which `yychar` or the lexer has
  have hbackup : ∀ t l, Agrees
      (match P.tables.action (top c.stack) (P.kind t) with
      | .shift q =>
        if q = P.tables.final then .error ⟨0, c.state.2, l⟩
        else
          enter maxDepth ⟨(q, P.value t) :: c.stack, c.status - 1,
            if P.kind t = 0 then some t else none, l, c.state.2⟩
      | .reduce n => P.yyreduce maxDepth n ⟨c.stack, c.status, some t, l, c.state.2⟩
      | .error => P.yyerrlab maxDepth ⟨c.stack, c.status, some t, l, c.state.2⟩)
      ((P.skeleton fun l => some (lex l)).yybackup maxDepth t (l, c.state.2) c) := by
    intro t l
    unfold Skeleton.yybackup
    simp only [show (P.skeleton fun l => some (lex l)).tables = P.tables from rfl,
      show (P.skeleton fun l => some (lex l)).kind = P.kind from rfl]
    cases P.tables.action (top c.stack) (P.kind t) with
    | shift q =>
      by_cases hfinal : q = P.tables.final
      · simp only [if_pos hfinal]
        rfl
      · simp only [if_neg hfinal]
        exact enter_agrees maxDepth ⟨_, _, c.nerrs, _, (l, c.state.2)⟩
    | reduce n =>
      exact P.yyreduce_agrees maxDepth _ n ⟨c.stack, c.status, c.nerrs, some t, (l, c.state.2)⟩
    | error =>
      exact P.yyerrlab_agrees maxDepth _ ⟨c.stack, c.status, c.nerrs, some t, (l, c.state.2)⟩
  unfold yystep Skeleton.step
  simp only [show (P.skeleton fun l => some (lex l)).tables = P.tables from rfl]
  by_cases hconsistent : P.tables.consistent (top c.stack) = true
  · rw [if_pos (show P.tables.consistent (top c.config.stack) = true from hconsistent),
      if_pos hconsistent]
    show Agrees (match P.tables.defaultAction (top c.stack) with
      | .reduce n => P.yyreduce maxDepth n c.config
      | _ => P.yyerrlab maxDepth c.config) _
    cases P.tables.defaultAction (top c.stack) with
    | reduce n => exact P.yyreduce_agrees maxDepth _ n c
    | shift q => exact P.yyerrlab_agrees maxDepth _ c
    | error => exact P.yyerrlab_agrees maxDepth _ c
  · rw [if_neg (show ¬ P.tables.consistent (top c.config.stack) = true from hconsistent),
      if_neg hconsistent]
    obtain ⟨stack, status, nerrs, char, l, g⟩ := c
    cases char with
    | some t => exact hbackup t l
    | none => exact hbackup (lex l).1 (lex l).2

/-- **The parser is its skeleton.** -/
theorem run_skeleton {fuel : Nat} {c : SkeletonConfig τ V (L × G)} {r : Finished G L}
    (h : P.run lex maxDepth fuel c.config = some r) :
    ∃ r', (P.skeleton fun l => some (lex l)).run maxDepth fuel c = .done r' ∧
      r'.finished = r := by
  induction fuel generalizing c with
  | zero => exact absurd h (by simp [run])
  | succ fuel ih =>
    have hstep := P.step_agrees lex maxDepth c
    rw [run] at h
    rw [Skeleton.run]
    split at h
    · rename_i r' hr
      rw [hr] at hstep
      obtain rfl := Option.some.inj h
      split
      · rename_i hmore
        rw [hmore] at hstep
        exact hstep.elim
      · rename_i hnot
        cases hout : (P.skeleton fun l => some (lex l)).step maxDepth c with
        | more d => exact absurd hout (hnot d)
        | done r' =>
          rw [hout] at hstep
          exact ⟨r', rfl, hstep.symm⟩
        | failed =>
          rw [hout] at hstep
          exact hstep.elim
    · rename_i c' hc'
      rw [hc'] at hstep
      cases hout : (P.skeleton fun l => some (lex l)).step maxDepth c with
      | more d =>
        rw [hout] at hstep
        rw [show c' = d.config from hstep] at h
        exact ih h
      | done r' =>
        rw [hout] at hstep
        exact hstep.elim
      | failed =>
        rw [hout] at hstep
        exact hstep.elim

/-! ### What a run reads -/

variable {lex lex' : L → Option (τ × L)} {keep : L → Prop}

/-- What comes next is a configuration or a result whose lexer is one of `keep`. -/
def Keeps (keep : L → Prop) : Outcome τ V (L × G) → Prop
  | .more c => keep c.state.1
  | .done r => keep r.state.1
  | .failed => False

/-- A new state does not read. -/
theorem keeps_enter {c : SkeletonConfig τ V (L × G)}
    (h : Keeps keep (Skeleton.enter maxDepth c)) : keep c.state.1 := by
  rw [Skeleton.enter] at h
  split at h <;> exact h

/-- A reduction does not read. -/
theorem keeps_yyreduce {n : Nat} {c : SkeletonConfig τ V (L × G)}
    (h : Keeps keep ((P.skeleton lex).yyreduce maxDepth n c)) : keep c.state.1 := by
  rw [Skeleton.yyreduce] at h
  dsimp only [skeleton] at h
  split at h
  · exact h
  · exact (keeps_enter maxDepth h :)

/-- The recovery does not read. -/
theorem keeps_yyerrlab1 {c : SkeletonConfig τ V (L × G)}
    (h : Keeps keep ((P.skeleton lex).yyerrlab1 maxDepth c)) : keep c.state.1 := by
  rw [Skeleton.yyerrlab1] at h
  split at h
  · exact h
  · split at h
    · exact h
    · exact (keeps_enter maxDepth h :)

/-- Neither the count nor a token that is dropped matters. -/
theorem keeps_yyerrlab {c : SkeletonConfig τ V (L × G)}
    (h : Keeps keep ((P.skeleton lex).yyerrlab maxDepth c)) : keep c.state.1 := by
  have hcount : (if c.status = 0 then { c with nerrs := c.nerrs + 1 } else c).state = c.state := by
    split <;> rfl
  rw [Skeleton.yyerrlab] at h
  rw [← hcount]
  generalize (if c.status = 0 then { c with nerrs := c.nerrs + 1 } else c) = d at h ⊢
  split at h
  · split at h
    · exact (P.keeps_yyerrlab1 maxDepth h :)
    · split at h
      · exact h
      · exact (P.keeps_yyerrlab1 maxDepth h :)
  · exact (P.keeps_yyerrlab1 maxDepth h :)

/-- Behind the look at the token nothing more is read. -/
theorem keeps_yybackup {t : τ} {s : L × G} {c : SkeletonConfig τ V (L × G)}
    (h : Keeps keep ((P.skeleton lex).yybackup maxDepth t s c)) : keep s.1 := by
  rw [Skeleton.yybackup] at h
  dsimp only at h
  split at h
  · split at h
    · exact h
    · exact (keeps_enter maxDepth h :)
  · exact (P.keeps_yyreduce maxDepth h :)
  · exact (P.keeps_yyerrlab maxDepth h :)

/-- A step that keeps: the other lexer does the same. -/
theorem step_of_keeps (hlex : ∀ l t l', lex l = some (t, l') → keep l' →
      lex' l = some (t, l') ∧ keep l) {c : SkeletonConfig τ V (L × G)}
    (h : Keeps keep ((P.skeleton lex).step maxDepth c)) :
    (P.skeleton lex').step maxDepth c = (P.skeleton lex).step maxDepth c ∧ keep c.state.1 := by
  obtain ⟨stack, status, nerrs, char, l, g⟩ := c
  unfold Skeleton.step at h ⊢
  simp only [show (P.skeleton lex).tables = P.tables from rfl,
    show (P.skeleton lex').tables = P.tables from rfl] at h ⊢
  by_cases hconsistent : P.tables.consistent (top stack) = true
  · simp only [if_pos hconsistent] at h ⊢
    cases hdefault : P.tables.defaultAction (top stack) with
    | reduce n =>
      rw [hdefault] at h
      exact ⟨rfl, P.keeps_yyreduce maxDepth h⟩
    | shift q =>
      rw [hdefault] at h
      exact ⟨rfl, P.keeps_yyerrlab maxDepth h⟩
    | error =>
      rw [hdefault] at h
      exact ⟨rfl, P.keeps_yyerrlab maxDepth h⟩
  · simp only [if_neg hconsistent] at h ⊢
    cases char with
    | some t => exact ⟨rfl, P.keeps_yybackup maxDepth h⟩
    | none =>
      -- the token is read, and what is kept behind it was so in front of it
      dsimp only [skeleton] at h ⊢
      cases hl : lex l with
      | none =>
        rw [hl] at h
        exact h.elim
      | some r =>
        obtain ⟨t, l'⟩ := r
        rw [hl] at h
        obtain ⟨hl', hkeep⟩ := hlex l t l' hl (P.keeps_yybackup maxDepth h)
        rw [hl']
        exact ⟨rfl, hkeep⟩

/-- **A run does not read behind its end.**  Another lexer that agrees up to there gives the same
    run; `keep` says of a lexer that it is not behind the end. -/
theorem run_of_keeps (keep : L → Prop) (hlex : ∀ l t l', lex l = some (t, l') → keep l' →
      lex' l = some (t, l') ∧ keep l) {fuel : Nat} {c : SkeletonConfig τ V (L × G)}
    {r : SkeletonResult (L × G)} (h : (P.skeleton lex).run maxDepth fuel c = .done r)
    (hkeep : keep r.state.1) :
    (P.skeleton lex').run maxDepth fuel c = .done r ∧ keep c.state.1 := by
  induction fuel generalizing c with
  | zero => cases h
  | succ fuel ih =>
    rw [Skeleton.run] at h ⊢
    cases hstep : (P.skeleton lex).step maxDepth c with
    | more c' =>
      rw [hstep] at h
      obtain ⟨hrun, hc'⟩ := ih h
      obtain ⟨hsame, hc⟩ := P.step_of_keeps maxDepth hlex (c := c) (hstep ▸ hc')
      rw [hsame, hstep]
      exact ⟨hrun, hc⟩
    | done r' =>
      rw [hstep] at h
      obtain rfl : r' = r := Outcome.done.inj h
      obtain ⟨hsame, hc⟩ := P.step_of_keeps maxDepth hlex (c := c) (hstep ▸ hkeep)
      rw [hsame, hstep]
      exact ⟨rfl, hc⟩
    | failed =>
      rw [hstep] at h
      cases h

end Parser

end

/-! ### Simulation -/

/-- What a simulation looks at: the stack, `yychar`, and the state. -/
structure Local (τ : Type u) (V : Type v) (S : Type w) where
  stack : List (Nat × V)
  char : Option τ
  state : S

def SkeletonConfig.local {τ : Type u} {V : Type v} {S : Type w} (c : SkeletonConfig τ V S) :
    Local τ V S :=
  ⟨c.stack, c.char, c.state⟩

/-- The skeleton is about to reduce with rule `n`. -/
def Skeleton.Reduces {τ : Type u} {V : Type v} {S : Type w} (K : Skeleton τ V S)
    (l : Local τ V S) (n : Nat) : Prop :=
  K.tables.consistent (top l.stack) = true ∧ K.tables.defaultAction (top l.stack) = .reduce n ∨
    K.tables.consistent (top l.stack) = false ∧
      ∃ t, l.char = some t ∧ K.tables.action (top l.stack) (K.kind t) = .reduce n

section
variable {τ : Type u} {V : Type v} {S : Type w} {τ' : Type x} {V' : Type y} {S' : Type z}

/-- The stack behind a reduction with rule `n`. -/
def Skeleton.reduced (K : Skeleton τ V S) (n : Nat) (v : V) (stack : List (Nat × V)) :
    List (Nat × V) :=
  (K.tables.goto (top (stack.drop (K.tables.r2.getD n 0))) n, v) ::
    stack.drop (K.tables.r2.getD n 0)

/-- The values of the right side of rule `n`, as its action sees them. -/
def Skeleton.values (K : Skeleton τ V S) (n : Nat) (stack : List (Nat × V)) : List V :=
  (stack.take (K.tables.r2.getD n 0)).reverse.map Prod.snd

/-- `B` simulates `A`: with the number of errors so far, `R` relates what they work on, and each
    thing that the skeleton does keeps it; `F` relates the states at the end, with the result.
    The recovery from an error pops entries and may drop the token. -/
structure Simulation (A : Skeleton τ V S) (B : Skeleton τ' V' S')
    (R : Nat → Local τ V S → Local τ' V' S' → Prop) (F : Nat → Nat → S → S' → Prop) :
    Prop where
  tables : B.tables = A.tables
  kind_ne_zero : ∀ t, A.kind t ≠ 0
  states : ∀ {e l l'}, R e l l' → l'.stack.map Prod.fst = l.stack.map Prod.fst
  kind : ∀ {e l l'}, R e l l' → l'.char.map B.kind = l.char.map A.kind
  lex : ∀ {e stack s stack' s' t s₁}, R e ⟨stack, none, s⟩ ⟨stack', none, s'⟩ →
    A.tables.consistent (top stack) = false → A.lex s = some (t, s₁) →
      ∃ t' s₁', B.lex s' = some (t', s₁') ∧
        R e ⟨stack, some t, s₁⟩ ⟨stack', some t', s₁'⟩
  shift : ∀ {e stack t s stack' t' s' q}, R e ⟨stack, some t, s⟩ ⟨stack', some t', s'⟩ →
    A.tables.consistent (top stack) = false →
    A.tables.action (top stack) (A.kind t) = .shift q → q ≠ A.tables.final ∧
      R e ⟨(q, A.value t) :: stack, none, s⟩ ⟨(q, B.value t') :: stack', none, s'⟩
  reduce : ∀ {e n stack c s stack' c' s' v s₁ b}, R e ⟨stack, c, s⟩ ⟨stack', c', s'⟩ →
    A.Reduces ⟨stack, c, s⟩ n → A.act n (A.values n stack) s = some (v, s₁, b) →
      ∃ v' s₁', B.act n (B.values n stack') s' = some (v', s₁', b) ∧
        if b = true then F 0 e s₁ s₁'
        else R e ⟨A.reduced n v stack, c, s₁⟩ ⟨B.reduced n v' stack', c', s₁'⟩
  recover : ∀ {e e' stack c s stack' c' s' q rest d d'}, R e ⟨stack, c, s⟩ ⟨stack', c', s'⟩ →
    e ≤ e' → 0 < e' → A.tables.popErrors stack = some (q, rest) →
    (d = c ∧ d' = c' ∨ d = none ∧ d' = none) → q ≠ A.tables.final ∧
      R e' ⟨(q, A.junk) :: rest, d, s⟩
        ⟨(q, B.junk) :: stack'.drop (stack.length - rest.length), d', s'⟩
  stop : ∀ {e e' r l l'}, R e l l' → e ≤ e' → r ≠ 0 → F r e' l.state l'.state

/-- The configurations are related. -/
structure Related (R : Nat → Local τ V S → Local τ' V' S' → Prop) (c : SkeletonConfig τ V S)
    (d : SkeletonConfig τ' V' S') : Prop where
  status : d.status = c.status
  nerrs : d.nerrs = c.nerrs
  counted : c.status ≠ 0 → 0 < c.nerrs
  rel : R c.nerrs c.local d.local

/-- The outcomes are related; where the one fails, nothing is said of the other. -/
def Simulated (R : Nat → Local τ V S → Local τ' V' S' → Prop) (F : Nat → Nat → S → S' → Prop) :
    Outcome τ V S → Outcome τ' V' S' → Prop
  | .more c, .more d => Related R c d
  | .done r, .done r' =>
    r'.result = r.result ∧ r'.nerrs = r.nerrs ∧ F r.result r.nerrs r.state r'.state
  | .failed, _ => True
  | _, _ => False

namespace Simulation

variable {A : Skeleton τ V S} {B : Skeleton τ' V' S'}
  {R : Nat → Local τ V S → Local τ' V' S' → Prop} {F : Nat → Nat → S → S' → Prop}
  (h : Simulation A B R F) (maxDepth : Nat)
include h

/-- The two stacks have the same state on top. -/
theorem top_eq {e : Nat} {l : Local τ V S} {l' : Local τ' V' S'} (hR : R e l l') :
    top l'.stack = top l.stack :=
  top_of_states (h.states hR)

/-- A new state is entered by both, or by none. -/
theorem enter {c : SkeletonConfig τ V S} {d : SkeletonConfig τ' V' S'} (hrel : Related R c d) :
    Simulated R F (Skeleton.enter maxDepth c) (Skeleton.enter maxDepth d) := by
  have hlength : d.stack.length = c.stack.length := by
    have hstates := congrArg List.length (h.states hrel.rel)
    rwa [List.length_map, List.length_map] at hstates
  unfold Skeleton.enter
  rw [hlength]
  split
  · exact ⟨rfl, hrel.nerrs, h.stop hrel.rel (Nat.le_refl _) (show 2 ≠ 0 by decide)⟩
  · exact hrel

/-- **A reduction** is simulated. -/
theorem yyreduce {n : Nat} {c : SkeletonConfig τ V S} {d : SkeletonConfig τ' V' S'}
    (hrel : Related R c d) (hn : A.Reduces c.local n) :
    Simulated R F (A.yyreduce maxDepth n c) (B.yyreduce maxDepth n d) := by
  unfold Skeleton.yyreduce
  dsimp only
  cases hact : A.act n (A.values n c.stack) c.state with
  | none =>
    rw [Skeleton.values] at hact
    rw [hact]
    trivial
  | some r =>
    obtain ⟨v, s, accepts⟩ := r
    obtain ⟨v', s', hact', hnext⟩ := h.reduce hrel.rel hn hact
    rw [Skeleton.values] at hact hact'
    rw [hact, hact']
    dsimp only
    cases accepts with
    | true => exact ⟨rfl, hrel.nerrs, hnext⟩
    | false =>
      refine h.enter maxDepth ⟨hrel.status, hrel.nerrs, hrel.counted, ?_⟩
      exact hnext

/-- The recovery, with the token that was in `yychar` before it. -/
theorem yyerrlab1 {e : Nat} {c : SkeletonConfig τ V S} {d : SkeletonConfig τ' V' S'} {t : Option τ}
    {t' : Option τ'} (hR : R e ⟨c.stack, t, c.state⟩ ⟨d.stack, t', d.state⟩) (he : e ≤ c.nerrs)
    (hpos : 0 < c.nerrs) (hnerrs : d.nerrs = c.nerrs)
    (hchar : c.char = t ∧ d.char = t' ∨ c.char = none ∧ d.char = none) :
    Simulated R F (A.yyerrlab1 maxDepth c) (B.yyerrlab1 maxDepth d) := by
  have hpop := A.tables.popErrors_of_states (h.states hR)
  unfold Skeleton.yyerrlab1
  rw [h.tables]
  cases hstack : A.tables.popErrors c.stack with
  | none =>
    rw [hstack] at hpop
    rw [hpop]
    exact ⟨rfl, hnerrs, h.stop hR he (show 1 ≠ 0 by decide)⟩
  | some r =>
    obtain ⟨q, rest⟩ := r
    rw [hstack] at hpop
    obtain ⟨hfinal, hR⟩ := h.recover hR he hpos hstack hchar
    simp only [hpop, Option.map_some, if_neg hfinal]
    exact h.enter maxDepth ⟨rfl, hnerrs, fun _ => hpos, hR⟩

/-- **An error** is simulated, and counted by both. -/
theorem yyerrlab {c : SkeletonConfig τ V S} {d : SkeletonConfig τ' V' S'}
    (hrel : Related R c d) : Simulated R F (A.yyerrlab maxDepth c) (B.yyerrlab maxDepth d) := by
  obtain ⟨stack, status, nerrs, char, s⟩ := c
  obtain ⟨stack', status', nerrs', char', s'⟩ := d
  obtain ⟨rfl, rfl, hcounted, hR⟩ := hrel
  unfold Skeleton.yyerrlab
  by_cases hzero : status' = 0
  · subst hzero
    -- an error that is counted
    exact @yyerrlab1 _ _ _ _ _ _ _ _ _ _ h maxDepth nerrs' ⟨stack, 0, nerrs' + 1, char, s⟩
      ⟨stack', 0, nerrs' + 1, char', s'⟩ char char' hR (Nat.le_succ _) (Nat.succ_pos _) rfl
      (Or.inl ⟨rfl, rfl⟩)
  · have hpos : 0 < nerrs' := hcounted hzero
    simp only [if_neg hzero]
    by_cases hthree : status' = 3
    · subst hthree
      have hkind := h.kind hR
      cases char with
      | none =>
        obtain rfl : char' = none := Option.map_eq_none_iff.mp hkind
        exact h.yyerrlab1 maxDepth hR (Nat.le_refl _) hpos rfl (Or.inl ⟨rfl, rfl⟩)
      | some t =>
        obtain ⟨t', rfl, ht'⟩ := Option.map_eq_some_iff.mp hkind
        simp only [if_true, ht', if_neg (h.kind_ne_zero t)]
        exact h.yyerrlab1 maxDepth hR (Nat.le_refl _) hpos rfl (Or.inr ⟨rfl, rfl⟩)
    · simp only [if_neg hthree]
      exact h.yyerrlab1 maxDepth hR (Nat.le_refl _) hpos rfl (Or.inl ⟨rfl, rfl⟩)

/-- **A look at the token** is simulated. -/
theorem yybackup {c : SkeletonConfig τ V S} {d : SkeletonConfig τ' V' S'} {t : τ} {s : S} {t' : τ'}
    {s' : S'} (hlook : A.tables.consistent (top c.stack) = false)
    (hrel : Related R { c with char := some t, state := s }
    { d with char := some t', state := s' }) :
    Simulated R F (A.yybackup maxDepth t s c) (B.yybackup maxDepth t' s' d) := by
  have htop : top d.stack = top c.stack := h.top_eq hrel.rel
  have hkind : B.kind t' = A.kind t := Option.some.inj (h.kind hrel.rel)
  unfold Skeleton.yybackup
  simp only [h.tables, htop, hkind]
  cases haction : A.tables.action (top c.stack) (A.kind t) with
  | shift q =>
    obtain ⟨hfinal, hR⟩ := h.shift hrel.rel hlook haction
    simp only [if_neg hfinal, if_neg (h.kind_ne_zero t)]
    refine h.enter maxDepth ⟨?_, hrel.nerrs, fun hne => hrel.counted fun h0 => hne ?_, hR⟩
    · show d.status - 1 = c.status - 1
      rw [show d.status = c.status from hrel.status]
    · show c.status - 1 = 0
      rw [show c.status = 0 from h0]
  | reduce n => exact h.yyreduce maxDepth hrel (Or.inr ⟨hlook, t, rfl, haction⟩)
  | error => exact h.yyerrlab maxDepth hrel

/-- **One step.** -/
theorem step {c : SkeletonConfig τ V S} {d : SkeletonConfig τ' V' S'} (hrel : Related R c d) :
    Simulated R F (A.step maxDepth c) (B.step maxDepth d) := by
  have htop : top d.stack = top c.stack := h.top_eq hrel.rel
  unfold Skeleton.step
  simp only [h.tables, htop]
  by_cases hconsistent : A.tables.consistent (top c.stack) = true
  · simp only [if_pos hconsistent]
    cases hdefault : A.tables.defaultAction (top c.stack) with
    | reduce n => exact h.yyreduce maxDepth hrel (Or.inl ⟨hconsistent, hdefault⟩)
    | shift q => exact h.yyerrlab maxDepth hrel
    | error => exact h.yyerrlab maxDepth hrel
  · simp only [if_neg hconsistent]
    obtain ⟨stack, status, nerrs, char, s⟩ := c
    obtain ⟨stack', status', nerrs', char', s'⟩ := d
    have hlook : A.tables.consistent (top stack) = false := Bool.not_eq_true _ ▸ hconsistent
    have hkind := h.kind hrel.rel
    cases char with
    | some t =>
      obtain ⟨t', rfl, -⟩ := Option.map_eq_some_iff.mp hkind
      exact h.yybackup maxDepth hlook hrel
    | none =>
      obtain rfl : char' = none := Option.map_eq_none_iff.mp hkind
      dsimp only
      cases hlex : A.lex s with
      | none => trivial
      | some r =>
        obtain ⟨t', s₁', hlex', hR⟩ := h.lex hrel.rel hlook hlex
        rw [hlex']
        exact h.yybackup maxDepth hlook ⟨hrel.status, hrel.nerrs, hrel.counted, hR⟩

/-- **A run**, for any number of steps. -/
theorem run (fuel : Nat) {c : SkeletonConfig τ V S} {d : SkeletonConfig τ' V' S'}
    (hrel : Related R c d) : Simulated R F (A.run maxDepth fuel c) (B.run maxDepth fuel d) := by
  induction fuel generalizing c d with
  | zero => exact hrel
  | succ fuel ih =>
    have hstep := h.step maxDepth hrel
    rw [Skeleton.run, Skeleton.run]
    cases hA : A.step maxDepth c with
    | more c' =>
      cases hB : B.step maxDepth d with
      | more d' => rw [hA, hB] at hstep; exact ih hstep
      | done r' => rw [hA, hB] at hstep; exact hstep.elim
      | failed => rw [hA, hB] at hstep; exact hstep.elim
    | done r =>
      cases hB : B.step maxDepth d with
      | more d' => rw [hA, hB] at hstep; exact hstep.elim
      | done r' => rw [hA, hB] at hstep; exact hstep
      | failed => rw [hA, hB] at hstep; exact hstep.elim
    | failed => trivial

end Simulation

/-! ### Certified skeletons -/

/-- The stack is a path of the automaton, and each value is one for the symbol in front of its
    state. -/
def Typed (C : Certificate) (D : Nat → V → Prop) (stack : List (Nat × V)) : Prop :=
  Spells C (fun x (us : List Unit) v => us = [] ∧ D x v) stack []

/-- The empty stack is typed. -/
theorem typed_nil (C : Certificate) (D : Nat → V → Prop) : Typed C D [] := .nil

/-- One entry more, behind an edge. -/
theorem Typed.cons {C : Certificate} {D : Nat → V → Prop} {stack : List (Nat × V)} {q : Nat} {v : V}
    (h : Typed C D stack) (hedge : q ∈ C.next (top stack)) (hv : D (C.symbol q) v) :
    Typed C D ((q, v) :: stack) := by
  have hcons := Spells.cons h hedge (⟨rfl, hv⟩ : ([] : List Unit) = [] ∧ D (C.symbol q) v)
  exact hcons

/-- The last entry of a path. -/
theorem Typed.last {C : Certificate} {D : Nat → V → Prop} {q : Nat} {v : V}
    {stack : List (Nat × V)} (h : Typed C D ((q, v) :: stack)) :
    Typed C D stack ∧ q ∈ C.next (top stack) ∧ D (C.symbol q) v := by
  have hall : ∀ cs, Spells C (fun x (us : List Unit) v => us = [] ∧ D x v) ((q, v) :: stack) cs →
      cs = [] → Typed C D stack ∧ q ∈ C.next (top stack) ∧ D (C.symbol q) v := by
    intro cs h hcs
    cases h with
    | cons h hedge hq =>
      obtain ⟨rfl, rfl⟩ := List.append_eq_nil_iff.mp hcs
      exact ⟨h, hedge, hq.2⟩
  exact hall [] h rfl

/-- What a reduction with rule `n` finds on a typed stack: values of the types of the right side,
    and below them a typed stack with an edge for the left side. -/
structure Skeleton.Popped (K : Skeleton τ V S) (C : Certificate) (D : Nat → V → Prop) (n : Nat)
    (stack : List (Nat × V)) : Prop where
  path : Typed C D stack
  values : List.Forall₂ D (C.right n) (K.values n stack)
  rest : Typed C D (stack.drop (K.tables.r2.getD n 0))
  edge : K.tables.goto (top (stack.drop (K.tables.r2.getD n 0))) n ∈
    C.next (top (stack.drop (K.tables.r2.getD n 0)))
  symbol : C.symbol (K.tables.goto (top (stack.drop (K.tables.r2.getD n 0))) n) =
    K.tables.r1.getD n 0

/-- With a value for the left side the stack is typed again. -/
theorem Skeleton.Popped.typed {K : Skeleton τ V S} {C : Certificate} {D : Nat → V → Prop} {n : Nat}
    {stack : List (Nat × V)} (h : K.Popped C D n stack) {v : V} (hv : D (K.tables.r1.getD n 0) v) :
    Typed C D (K.reduced n v stack) :=
  h.rest.cons h.edge (h.symbol ▸ hv)

/-- The tables have the certificate, an error leads over an edge, and tokens, actions and the
    value of `error` are of the types that `D` gives to the symbols. -/
structure Skeleton.Certified (K : Skeleton τ V S) (C : Certificate) (D : Nat → V → Prop) :
    Prop where
  valid : C.valid K.tables = true
  kind : ∀ t, K.kind t ≠ 0 ∧ K.kind t < K.tables.ntokens
  final : ∀ q, K.tables.final ∉ C.next q
  error : ∀ p ∈ C.nodes, ∀ q, K.tables.errorShift p = some q → q ∈ C.next p ∧ C.symbol q = 1
  junk : D 1 K.junk
  token : ∀ t, D (K.kind t) (K.value t)
  act : ∀ {n vs s v s₁}, List.Forall₂ D (C.right n) vs → K.act n vs s = some (v, s₁, false) →
    D (K.tables.r1.getD n 0) v

namespace Skeleton.Certified

variable {K : Skeleton τ V S} {C : Certificate} {D : Nat → V → Prop} (hK : K.Certified C D)
include hK

/-- **A shift** puts a value of the right type on the stack. -/
theorem shift {stack : List (Nat × V)} {t : τ} {q : Nat} (h : Typed C D stack)
    (hlook : K.tables.consistent (top stack) = false)
    (haction : K.tables.action (top stack) (K.kind t) = .shift q) :
    q ≠ K.tables.final ∧ C.symbol q = K.kind t ∧ Typed C D ((q, K.value t) :: stack) := by
  have hok := Spells.actionOk hK.valid h (hK.kind t).1 (hK.kind t).2 hlook
  rw [haction] at hok
  simp only [Certificate.actionOk, Bool.and_eq_true, List.contains_eq_mem,
    decide_eq_true_eq] at hok
  obtain ⟨⟨hmem, hsymbol⟩, -⟩ := hok
  exact ⟨fun hq => hK.final _ (hq ▸ hmem), hsymbol, h.cons hmem (hsymbol ▸ hK.token t)⟩

/-- **The recovery** leaves a typed stack. -/
theorem recover {stack rest : List (Nat × V)} {q : Nat} (h : Typed C D stack)
    (hpop : K.tables.popErrors stack = some (q, rest)) :
    q ≠ K.tables.final ∧ Typed C D ((q, K.junk) :: rest) := by
  obtain ⟨⟨popped, rfl⟩, hq⟩ := Tables.popErrors_spec hpop
  have hrest : Typed C D rest := by
    clear hpop
    induction popped with
    | nil => exact h
    | cons e popped ih => exact ih h.last.1
  obtain ⟨hmem, hsymbol⟩ := hK.error _ hrest.mem_nodes q hq
  exact ⟨fun hfinal => hK.final _ (hfinal ▸ hmem), hrest.cons hmem (hsymbol ▸ hK.junk)⟩

/-- **A reduction** finds values of the types of the right side. -/
theorem reduce {l : Local τ V S} {n : Nat} (h : Typed C D l.stack) (hn : K.Reduces l n) :
    K.Popped C D n l.stack := by
  have hok : C.reduceOk K.tables (top l.stack) n = true := by
    rcases hn with ⟨hconsistent, hdefault⟩ | ⟨hlook, t, -, haction⟩
    · obtain ⟨n', hdefault', hok⟩ := Spells.default hK.valid h hconsistent
      rw [hdefault] at hdefault'
      exact (Action.reduce.inj hdefault') ▸ hok
    · have hok := Spells.actionOk hK.valid h (hK.kind t).1 (hK.kind t).2 hlook
      rwa [haction] at hok
  simp only [Certificate.reduceOk, Bool.and_eq_true, decide_eq_true_eq] at hok
  obtain ⟨⟨hlength, hpop⟩, -⟩ := hok
  obtain ⟨cs, us, hcs, hrest, hder, hgoto, -⟩ := Spells.pop h hpop
  obtain ⟨rfl, rfl⟩ := List.append_eq_nil_iff.mp hcs.symm
  rw [List.length_reverse, hlength] at hrest hder hgoto
  rw [List.reverse_reverse] at hder
  simp only [Bool.and_eq_true, List.contains_eq_mem, decide_eq_true_eq] at hgoto
  have hall : ∀ {xs : List Nat} {us : List Unit} {vs : List V},
      DerivesAll (fun x us v => us = [] ∧ D x v) xs us vs → List.Forall₂ D xs vs := by
    intro xs us vs hder
    induction hder with
    | nil => exact .nil
    | cons hx _ ih => exact .cons hx.2 ih
  exact ⟨h, hall hder, hrest, hgoto.1, hgoto.2⟩

end Skeleton.Certified

/-- What is to be shown for a simulation of a certified skeleton: an action may rely on the
    types of the values it is called with. -/
structure TypedSimulation (A : Skeleton τ V S) (B : Skeleton τ' V' S') (C : Certificate)
    (D : Nat → V → Prop) (R : Nat → Local τ V S → Local τ' V' S' → Prop)
    (F : Nat → Nat → S → S' → Prop) : Prop where
  tables : B.tables = A.tables
  states : ∀ {e l l'}, R e l l' → l'.stack.map Prod.fst = l.stack.map Prod.fst
  kind : ∀ {e l l'}, R e l l' → l'.char.map B.kind = l.char.map A.kind
  lex : ∀ {e stack s stack' s' t s₁}, R e ⟨stack, none, s⟩ ⟨stack', none, s'⟩ →
    A.tables.consistent (top stack) = false → A.lex s = some (t, s₁) →
      ∃ t' s₁', B.lex s' = some (t', s₁') ∧
        R e ⟨stack, some t, s₁⟩ ⟨stack', some t', s₁'⟩
  shift : ∀ {e stack t s stack' t' s' q}, R e ⟨stack, some t, s⟩ ⟨stack', some t', s'⟩ →
    Typed C D ((q, A.value t) :: stack) → C.symbol q = A.kind t →
      R e ⟨(q, A.value t) :: stack, none, s⟩ ⟨(q, B.value t') :: stack', none, s'⟩
  reduce : ∀ {e n stack c s stack' c' s' v s₁ b}, R e ⟨stack, c, s⟩ ⟨stack', c', s'⟩ →
    A.Reduces ⟨stack, c, s⟩ n → A.Popped C D n stack →
    A.act n (A.values n stack) s = some (v, s₁, b) →
      ∃ v' s₁', B.act n (B.values n stack') s' = some (v', s₁', b) ∧
        if b = true then F 0 e s₁ s₁'
        else R e ⟨A.reduced n v stack, c, s₁⟩ ⟨B.reduced n v' stack', c', s₁'⟩
  recover : ∀ {e e' stack c s stack' c' s' q rest d d'}, R e ⟨stack, c, s⟩ ⟨stack', c', s'⟩ →
    Typed C D stack → e ≤ e' → 0 < e' → A.tables.popErrors stack = some (q, rest) →
    (d = c ∧ d' = c' ∨ d = none ∧ d' = none) →
      R e' ⟨(q, A.junk) :: rest, d, s⟩
        ⟨(q, B.junk) :: stack'.drop (stack.length - rest.length), d', s'⟩
  stop : ∀ {e e' r l l'}, R e l l' → e ≤ e' → r ≠ 0 → F r e' l.state l'.state

/-- **The stack of the certified skeleton stays typed**, next to what the simulation keeps. -/
theorem TypedSimulation.simulation {A : Skeleton τ V S} {B : Skeleton τ' V' S'} {C : Certificate}
    {D : Nat → V → Prop} {R : Nat → Local τ V S → Local τ' V' S' → Prop}
    {F : Nat → Nat → S → S' → Prop} (h : TypedSimulation A B C D R F) (hA : A.Certified C D) :
    Simulation A B (fun e l l' => Typed C D l.stack ∧ R e l l') F where
  tables := h.tables
  kind_ne_zero t := (hA.kind t).1
  states hR := h.states hR.2
  kind hR := h.kind hR.2
  lex hR hlook ht := by
    obtain ⟨t', s', hlex, hR'⟩ := h.lex hR.2 hlook ht
    exact ⟨t', s', hlex, hR.1, hR'⟩
  shift hR hlook haction := by
    obtain ⟨hfinal, hsymbol, htyped⟩ := hA.shift hR.1 hlook haction
    exact ⟨hfinal, htyped, h.shift hR.2 htyped hsymbol⟩
  reduce {e n stack c s stack' c' s' v s₁ b} hR hn hact := by
    have hpopped := hA.reduce hR.1 hn
    obtain ⟨v', s₁', hact', hR'⟩ := h.reduce hR.2 hn hpopped hact
    refine ⟨v', s₁', hact', ?_⟩
    cases b with
    | true => exact hR'
    | false => exact ⟨hpopped.typed (hA.act hpopped.values hact), hR'⟩
  recover hR he hpos hpop hchar := by
    obtain ⟨hfinal, htyped⟩ := hA.recover hR.1 hpop
    exact ⟨hfinal, htyped, h.recover hR.2 hR.1 he hpos hpop hchar⟩
  stop hR he hr := h.stop hR.2 he hr

end

end OSPortfolio.LR
