import OSPortfolio.Ish.CommandHeap
import OSPortfolio.Ish.Parameters

namespace OSPortfolio.Ish.OnHeap

open OSPortfolio.Memory OSPortfolio.LR OSPortfolio.Flex

/-!
# The generated front end on the heap

The lexer allocates a string for each word, the actions of the parser build the command from
these strings and free them, and what is left on the stack when an error is found is lost.

* `userAction`, `heapSkeleton` — the actions and the lexer on the heap;
* `HoldsValue`, `triple_userAction` — **each action builds what its value says**, from the
  blocks of the right side and no others;
* `Mirrors`, `heapSimulation` — the parser on the heap does what the parser on values does, and
  owns the blocks of the values on its stack;
* `nextCommandHeap_spec` — **a call builds the blocks of its command**, and loses others only
  behind an error.
-/

/-- `YYSTYPE`, with pointers. -/
inductive HeapValue
  | cmd (p : Ptr)
  | redir (p : Ptr)
  | arg (p : Ptr)
  | string (p : Ptr)
  | integer (n : Nat)
  | none
  deriving DecidableEq, Repr

/-- The variables of the parser that its callers read. -/
structure HeapGlobals where
  pcGlobalCommand : Ptr
  fEndOfFile : Bool
  deriving DecidableEq, Repr

variable {w : Nat} (A : Allocator)

/-! ### The actions -/

/-- `if (b) p->fBackground = 1` -/
def setBackgroundIf (b : Bool) (p : Ptr) : Prog w Unit :=
  if b = true then setCommand p fun f => { f with fBackground := true } else pure ()

/-- The rules for a redirect to a file: the name is copied, and then freed. -/
def redirectTo (t : FileType) (f : Ptr) (g : HeapGlobals) :
    Prog w (HeapValue × HeapGlobals × Bool) := do
  let pr ← createRedirectFile A t f 0
  free f
  pure (.redir pr, g, false)

/-- The rules that link two redirects. -/
def redirectBoth (r₁ r₂ : Ptr) (g : HeapGlobals) : Prog w (HeapValue × HeapGlobals × Bool) := do
  appendRedirect r₁ r₂
  pure (.redir r₁, g, false)

/-- The `switch` of `yyreduce`. -/
def userAction (n : Nat) (vs : List HeapValue) (g : HeapGlobals) :
    Prog w (HeapValue × HeapGlobals × Bool) :=
  match n, vs with
  | 2, [.cmd pc, _] => pure (.cmd pc, { g with pcGlobalCommand := pc }, true)
  | 3, [_] => pure (.cmd 0, { g with pcGlobalCommand := 0 }, true)
  | 4, [_, _] => pure (.cmd 0, { g with pcGlobalCommand := 0 }, true)
  | 5, [v] => pure (v, { g with fEndOfFile := true }, false)
  | 6, [v] => pure (v, { g with fEndOfFile := false }, false)
  | 7, [.cmd pc₁, .integer n, .cmd pc₂] => do
    appendCommand pc₁ pc₂
    setBackgroundIf (n = tokBACKGROUND) pc₁
    pure (.cmd pc₁, g, false)
  | 8, [.cmd pc, .integer n] => do
    setBackgroundIf (n = tokBACKGROUND) pc
    pure (.cmd pc, g, false)
  | 10, [.string z, .arg pa, .redir r] => do
    let s ← loadChars z
    setArgument A pa 0 (shortName s)
    let pc ← createCommand A z pa false r 0
    free z
    pure (.cmd pc, g, false)
  | 13, [.redir r₁, .redir r₂] => redirectBoth r₁ r₂ g
  | 14, [] => pure (.redir 0, g, false)
  | 17, [.redir r₁, .redir r₂] => redirectBoth r₁ r₂ g
  | 18, [.redir r₁, .redir r₂] => redirectBoth r₁ r₂ g
  | 19, [_, .string f] => redirectTo A .REDIRECT_IN f g
  | 20, [_, .string f] => redirectTo A .REDIRECT_OUT f g
  | 21, [_, .string f] => redirectTo A .REDIRECT_ERROR f g
  | 22, [_, .string f] => redirectTo A .APPEND f g
  | 23, [_, .string f] => redirectTo A .APPEND_ERROR f g
  | 24, [.integer n, .cmd pc] => do
    let pr ← createRedirectPipe A (pipeTypeOfTok n) pc 0
    pure (.redir pr, g, false)
  | 25, [_] => pure (.integer tokBACKGROUND, g, false)
  | 26, [_] => pure (.integer tokSEMICOLON, g, false)
  | 27, [_] => pure (.integer tokPIPE, g, false)
  | 28, [_] => pure (.integer tokPIPE_ERROR, g, false)
  | 29, [.arg pa, .string s] => do
    appendArgument A pa s
    free s
    pure (.arg pa, g, false)
  | 30, [] => do
    let pa ← createArguments A
    pure (.arg pa, g, false)
  | _, v :: _ => pure (v, g, false)
  | _, [] => pure (.none, g, false)

/-! ### Values -/

/-- The blocks of a value. -/
def HoldsValue : HeapValue → YYSTYPE → Blocks w → Prop
  | .cmd p, .cmd pc, m => HoldsCommand p pc m
  | .redir p, .redir r, m => HoldsRedirect p r m
  | .arg p, .arg pa, m => HoldsArgs p pa m
  | .string p, .string s, m => m = {(p, .chars s)}
  | .integer n, .integer n', m => n = n' ∧ m = 0
  | .none, .none, m => m = 0
  | _, _, _ => False

/-- The blocks of a list of values, all apart. -/
inductive HoldsValues : List HeapValue → List YYSTYPE → Blocks w → Prop
  | nil : HoldsValues [] [] 0
  | cons {x : HeapValue} {v : YYSTYPE} {xs : List HeapValue} {vs : List YYSTYPE} {m ms : Blocks w}
    (h : HoldsValue x v m) (hs : HoldsValues xs vs ms) : HoldsValues (x :: xs) (v :: vs) (m + ms)

/-- One value more, at the end. -/
theorem HoldsValues.concat {xs : List HeapValue} {vs : List YYSTYPE} {m ms : Blocks w}
    (hs : HoldsValues xs vs ms) {x : HeapValue} {v : YYSTYPE} (h : HoldsValue x v m) :
    HoldsValues (xs ++ [x]) (vs ++ [v]) (ms + m) := by
  induction hs with
  | nil =>
    rw [zero_add, ← add_zero m]
    exact .cons h .nil
  | cons h' _ ih =>
    rw [add_assoc]
    exact .cons h' ih

/-- The order does not matter to the blocks. -/
theorem HoldsValues.reverse {xs : List HeapValue} {vs : List YYSTYPE} {m : Blocks w}
    (h : HoldsValues xs vs m) : HoldsValues xs.reverse vs.reverse m := by
  induction h with
  | nil => exact .nil
  | cons h _ ih =>
    rw [List.reverse_cons, List.reverse_cons, add_comm]
    exact ih.concat h

/-- The blocks of the first `k` values, and those of the others. -/
theorem HoldsValues.split (k : Nat) {xs : List HeapValue} {vs : List YYSTYPE} {m : Blocks w}
    (h : HoldsValues xs vs m) : ∃ m₁ m₂, m = m₁ + m₂ ∧
      HoldsValues (xs.take k) (vs.take k) m₁ ∧ HoldsValues (xs.drop k) (vs.drop k) m₂ := by
  induction h generalizing k with
  | nil =>
    rw [List.take_nil, List.drop_nil, List.take_nil, List.drop_nil]
    exact ⟨0, 0, (add_zero 0).symm, .nil, .nil⟩
  | cons h hs ih =>
    cases k with
    | zero => exact ⟨0, _, (zero_add _).symm, .nil, .cons h hs⟩
    | succ k =>
      obtain ⟨m₁, m₂, rfl, h₁, h₂⟩ := ih k
      exact ⟨_, m₂, (add_assoc _ _ _).symm, .cons h h₁, h₂⟩

/-- No values have no blocks. -/
theorem holdsValues_nil {xs : List HeapValue} {m : Blocks w} (h : HoldsValues xs [] m) :
    xs = [] ∧ m = 0 := by
  cases h
  exact ⟨rfl, rfl⟩

/-- The blocks of one value. -/
theorem holdsValues_one {xs : List HeapValue} {v : YYSTYPE} {m : Blocks w}
    (h : HoldsValues xs [v] m) : ∃ x, xs = [x] ∧ HoldsValue x v m := by
  cases h with
  | cons h hs =>
    obtain ⟨rfl, rfl⟩ := holdsValues_nil hs
    exact ⟨_, rfl, by rwa [add_zero]⟩

/-- The blocks of two values, apart. -/
theorem holdsValues_two {xs : List HeapValue} {v₁ v₂ : YYSTYPE} {m : Blocks w}
    (h : HoldsValues xs [v₁, v₂] m) :
    ∃ x₁ x₂ m₁ m₂, xs = [x₁, x₂] ∧ m = m₁ + m₂ ∧ HoldsValue x₁ v₁ m₁ ∧ HoldsValue x₂ v₂ m₂ := by
  cases h with
  | cons h hs =>
    obtain ⟨x₂, rfl, h₂⟩ := holdsValues_one hs
    exact ⟨_, x₂, _, _, rfl, rfl, h, h₂⟩

/-- The blocks of three values, apart. -/
theorem holdsValues_three {xs : List HeapValue} {v₁ v₂ v₃ : YYSTYPE} {m : Blocks w}
    (h : HoldsValues xs [v₁, v₂, v₃] m) :
    ∃ x₁ x₂ x₃ m₁ m₂ m₃, xs = [x₁, x₂, x₃] ∧ m = m₁ + (m₂ + m₃) ∧ HoldsValue x₁ v₁ m₁ ∧
      HoldsValue x₂ v₂ m₂ ∧ HoldsValue x₃ v₃ m₃ := by
  cases h with
  | cons h hs =>
    obtain ⟨x₂, x₃, m₂, m₃, rfl, rfl, h₂, h₃⟩ := holdsValues_two hs
    exact ⟨_, x₂, x₃, _, m₂, m₃, rfl, rfl, h, h₂, h₃⟩

/-- The value of a command is its pointer. -/
theorem holdsValue_cmd {x : HeapValue} {pc : Command} {m : Blocks w}
    (h : HoldsValue x (.cmd pc) m) :
    ∃ p, x = .cmd p ∧ HoldsCommand p pc m := by
  cases x <;> first | exact h.elim | exact ⟨_, rfl, h⟩

/-- The value of a redirect is its pointer. -/
theorem holdsValue_redir {x : HeapValue} {r : Redirect} {m : Blocks w}
    (h : HoldsValue x (.redir r) m) : ∃ p, x = .redir p ∧ HoldsRedirect p r m := by
  cases x <;> first | exact h.elim | exact ⟨_, rfl, h⟩

/-- The value of arguments is their pointer. -/
theorem holdsValue_arg {x : HeapValue} {pa : Args} {m : Blocks w} (h : HoldsValue x (.arg pa) m) :
    ∃ p, x = .arg p ∧ HoldsArgs p pa m := by
  cases x <;> first | exact h.elim | exact ⟨_, rfl, h⟩

/-- The value of a string is a block with its text. -/
theorem holdsValue_string {x : HeapValue} {s : String} {m : Blocks w}
    (h : HoldsValue x (.string s) m) : ∃ p, x = .string p ∧ m = {(p, .chars s)} := by
  cases x <;> first | exact h.elim | exact ⟨_, rfl, h⟩

/-- A number has no block. -/
theorem holdsValue_integer {x : HeapValue} {n : Nat} {m : Blocks w}
    (h : HoldsValue x (.integer n) m) : x = .integer n ∧ m = 0 := by
  cases x <;> first | exact h.elim | exact ⟨h.1 ▸ rfl, h.2⟩

/-- Nor has a token without a value. -/
theorem holdsValue_none {x : HeapValue} {m : Blocks w} (h : HoldsValue x .none m) :
    x = .none ∧ m = 0 := by
  cases x <;> first | exact h.elim | exact ⟨rfl, h⟩

/-! ### What the actions do -/

/-- What an action leaves: the value `v` with its blocks, or, where it accepts, the command that is
    now in `pcGlobalCommand`. -/
structure ActionResult (r : HeapValue × HeapGlobals × Bool) (r' : YYSTYPE × Ish.Globals × Bool)
    (m : Blocks w) : Prop where
  accepts : r.2.2 = r'.2.2
  eof : r.2.1.fEndOfFile = r'.2.1.fEndOfFile
  value : r'.2.2 = false → HoldsValue r.1 r'.1 m
  command : r'.2.2 = true → HoldsCommand r.2.1.pcGlobalCommand r'.2.1.pcGlobalCommand m

/-- The action for a separator sets the flag of the first command. -/
theorem triple_setBackgroundIf {γ : Type} {m o : Blocks w} {Q : γ → Blocks w → Prop}
    {k : Unit → Prog w γ} {p : Ptr} {pc : Command} {mc : Blocks w} (b : Bool) (hm : m = mc + o)
    (hc : HoldsCommand p pc mc) (hne : pc ≠ .null)
    (h : ∀ m', HoldsCommand p (backgroundIf b pc) m' → Triple (m' + o) (k ()) Q) :
    Triple m (setBackgroundIf b p >>= k) Q := by
  subst hm
  cases b with
  | false => exact h _ hc
  | true =>
    cases pc with
    | null => exact absurd rfl hne
    | mk z pa b r n =>
      obtain ⟨hp, f, ma, mr, mn, rfl, hz, hb, hargs⟩ := hc
      rw [setBackgroundIf, if_pos rfl]
      refine triple_setCommand (c := f) (o := {(f.zCmd, .chars z)} + ma + mr + mn + o)
        (by abel) ?_
      rw [← add_assoc, ← add_assoc, ← add_assoc, ← add_assoc]
      exact h _ ⟨hp, { f with fBackground := true }, ma, mr, mn, rfl, hz, rfl, hargs⟩

/-- The action for a redirect to a file copies the name and frees it. -/
theorem triple_redirectTo {f : Ptr} {s : String} (t : FileType) (g : HeapGlobals) :
    Triple ({(f, .chars s)} : Blocks w) (redirectTo A t f g) fun r m =>
      r.2 = (g, false) ∧ HoldsValue r.1 (.redir (Ish.createRedirectFile t s .null)) m := by
  rw [redirectTo]
  refine triple_createRedirectFile A t (add_zero _).symm fun q m' hq => ?_
  rw [add_zero]
  exact triple_free (c := .chars s) (add_comm _ _) (triple_pure ⟨rfl, hq⟩)

/-- The action for two redirects links them. -/
theorem triple_redirectBoth {p q : Ptr} {r₁ r₂ : Redirect} {m₁ m₂ : Blocks w}
    (h₁ : HoldsRedirect p r₁ m₁) (hne : r₁ ≠ .null) (h₂ : HoldsRedirect q r₂ m₂) (g : HeapGlobals) :
    Triple (m₁ + m₂) (redirectBoth p q g) fun r m =>
      r.2 = (g, false) ∧ HoldsValue r.1 (.redir (Ish.appendRedirect r₁ r₂)) m := by
  rw [redirectBoth]
  refine triple_appendRedirect (add_zero _).symm h₁ hne h₂ fun m' hm' => ?_
  rw [add_zero]
  exact triple_pure ⟨rfl, hm'⟩

/-- An action that neither accepts nor touches the globals. -/
theorem actionResult_value {x : HeapValue} {v : YYSTYPE} {m : Blocks w} {g : HeapGlobals}
    {g' : Ish.Globals} (hg : g.fEndOfFile = g'.fEndOfFile) (h : HoldsValue x v m) :
    ActionResult (x, g, false) (v, g', false) m :=
  ⟨rfl, hg, fun _ => h, fun hb => absurd hb (by simp)⟩

/-- **Each action builds the blocks of its value** from those of the right side, and no others
    are left or touched: what it has copied it frees. -/
theorem triple_userAction (hw : 1 < w) (n : Nat) {vs : List YYSTYPE} {xs : List HeapValue}
    {m : Blocks w} {g : HeapGlobals} {g' : Ish.Globals} (hg : g.fEndOfFile = g'.fEndOfFile)
    (htypes : List.Forall₂ HasType (ishCertificate.right n) vs) (h : HoldsValues xs vs m)
    (hroom : ∀ pa z, n = 29 → vs = [.arg pa, .string z] → pa.params.length < MAXPARAMS) :
    Triple m (userAction A n xs g) fun r m' => ActionResult r (Ish.userAction n vs g') m' := by
  match n, htypes with
  | 0, htypes =>
    obtain rfl := List.forall₂_nil_left_iff.mp htypes
    obtain ⟨rfl, rfl⟩ := holdsValues_nil h
    exact triple_pure (actionResult_value hg rfl)
  | 1, htypes =>
    obtain ⟨_, _, -, hfalse, -⟩ := forall₂_two htypes
    exact hfalse.elim
  | 2, htypes =>
    obtain ⟨_, _, rfl, ⟨pc, rfl, -⟩, rfl⟩ := forall₂_two htypes
    obtain ⟨_, _, m₁, _, rfl, rfl, h₁, h₂⟩ := holdsValues_two h
    obtain ⟨p, rfl, h₁⟩ := holdsValue_cmd h₁
    obtain ⟨rfl, rfl⟩ := holdsValue_none h₂
    rw [add_zero]
    exact triple_pure ⟨rfl, hg, fun hb => absurd hb (by simp [Ish.userAction]), fun _ => h₁⟩
  | 3, htypes =>
    obtain ⟨_, rfl, rfl⟩ := forall₂_one htypes
    obtain ⟨_, rfl, h₁⟩ := holdsValues_one h
    obtain ⟨rfl, rfl⟩ := holdsValue_none h₁
    exact triple_pure ⟨rfl, hg, fun hb => absurd hb (by simp [Ish.userAction]), fun _ => ⟨rfl, rfl⟩⟩
  | 4, htypes =>
    obtain ⟨_, _, rfl, rfl, rfl⟩ := forall₂_two htypes
    obtain ⟨_, _, _, _, rfl, rfl, h₁, h₂⟩ := holdsValues_two h
    obtain ⟨rfl, rfl⟩ := holdsValue_none h₁
    obtain ⟨rfl, rfl⟩ := holdsValue_none h₂
    exact triple_pure ⟨rfl, hg, fun hb => absurd hb (by simp [Ish.userAction]), fun _ => ⟨rfl, rfl⟩⟩
  | 5, htypes | 6, htypes =>
    obtain ⟨_, rfl, rfl⟩ := forall₂_one htypes
    obtain ⟨_, rfl, h₁⟩ := holdsValues_one h
    exact triple_pure ⟨rfl, rfl, fun _ => h₁, fun hb => absurd hb (by simp [Ish.userAction])⟩
  | 7, htypes =>
    obtain ⟨_, _, _, rfl, ⟨pc₁, rfl, hne₁⟩, ⟨k, rfl⟩, pc₂, rfl, hne₂⟩ := forall₂_three htypes
    obtain ⟨_, _, _, m₁, _, m₃, rfl, rfl, h₁, h₂, h₃⟩ := holdsValues_three h
    obtain ⟨p₁, rfl, h₁⟩ := holdsValue_cmd h₁
    obtain ⟨rfl, rfl⟩ := holdsValue_integer h₂
    obtain ⟨p₂, rfl, h₃⟩ := holdsValue_cmd h₃
    refine triple_appendCommand (o := 0) (by abel) h₁ hne₁ h₃ hne₂ fun m' hm' => ?_
    refine triple_setBackgroundIf _ rfl hm' (appendCommand_ne_null hne₁ _) fun m'' hm'' => ?_
    rw [add_zero]
    exact triple_pure (actionResult_value hg hm'')
  | 8, htypes =>
    obtain ⟨_, _, rfl, ⟨pc, rfl, hne⟩, k, rfl⟩ := forall₂_two htypes
    obtain ⟨_, _, m₁, _, rfl, rfl, h₁, h₂⟩ := holdsValues_two h
    obtain ⟨p, rfl, h₁⟩ := holdsValue_cmd h₁
    obtain ⟨rfl, rfl⟩ := holdsValue_integer h₂
    refine triple_setBackgroundIf _ rfl h₁ hne fun m' hm' => ?_
    rw [add_zero]
    exact triple_pure (actionResult_value hg hm')
  | 10, htypes =>
    obtain ⟨_, _, _, rfl, ⟨z, rfl⟩, ⟨pa, rfl⟩, r, rfl⟩ := forall₂_three htypes
    obtain ⟨_, _, _, _, m₂, m₃, rfl, rfl, h₁, h₂, h₃⟩ := holdsValues_three h
    obtain ⟨zp, rfl, rfl⟩ := holdsValue_string h₁
    obtain ⟨p, rfl, h₂⟩ := holdsValue_arg h₂
    obtain ⟨q, rfl, h₃⟩ := holdsValue_redir h₃
    refine triple_loadChars rfl ?_
    refine Triple.call (o := {(zp, .chars z)} + m₃) (triple_setArgument A h₂ (shortName z))
      (by abel) fun _ m' hm' => ?_
    refine triple_createCommand A (o := 0) (by abel) hm' h₃ fun pc m'' hm'' => ?_
    rw [add_zero]
    exact triple_free (c := .chars z) (add_comm _ _) (triple_pure (actionResult_value hg hm''))
  | 9, htypes =>
    obtain ⟨v, rfl, pc, rfl, -⟩ := forall₂_one htypes
    obtain ⟨x, rfl, h₁⟩ := holdsValues_one h
    exact triple_pure (actionResult_value hg h₁)
  | 11, htypes | 12, htypes | 15, htypes | 16, htypes =>
    obtain ⟨v, rfl, -⟩ := forall₂_one htypes
    obtain ⟨x, rfl, h₁⟩ := holdsValues_one h
    exact triple_pure (actionResult_value hg h₁)
  | 13, htypes =>
    obtain ⟨_, _, rfl, ⟨r₁, rfl, hne⟩, r₂, rfl, -⟩ := forall₂_two htypes
    obtain ⟨_, _, m₁, m₂, rfl, rfl, h₁, h₂⟩ := holdsValues_two h
    obtain ⟨p₁, rfl, h₁⟩ := holdsValue_redir h₁
    obtain ⟨p₂, rfl, h₂⟩ := holdsValue_redir h₂
    refine (triple_redirectBoth h₁ hne h₂ g).weaken fun r m' hr => ?_
    obtain ⟨x, g₁, b⟩ := r
    obtain ⟨rfl, rfl⟩ := Prod.mk.inj hr.1
    exact actionResult_value hg hr.2
  | 14, htypes =>
    obtain rfl := List.forall₂_nil_left_iff.mp htypes
    obtain ⟨rfl, rfl⟩ := holdsValues_nil h
    exact triple_pure (actionResult_value hg ⟨rfl, rfl⟩)
  | 17, htypes | 18, htypes =>
    obtain ⟨_, _, rfl, ⟨r₁, rfl, hne⟩, r₂, rfl, -⟩ := forall₂_two htypes
    obtain ⟨_, _, m₁, m₂, rfl, rfl, h₁, h₂⟩ := holdsValues_two h
    obtain ⟨p₁, rfl, h₁⟩ := holdsValue_redir h₁
    obtain ⟨p₂, rfl, h₂⟩ := holdsValue_redir h₂
    refine (triple_redirectBoth h₁ hne h₂ g).weaken fun r m' hr => ?_
    obtain ⟨x, g₁, b⟩ := r
    obtain ⟨rfl, rfl⟩ := Prod.mk.inj hr.1
    exact actionResult_value hg hr.2
  | 19, htypes | 20, htypes | 21, htypes | 22, htypes | 23, htypes =>
    obtain ⟨_, _, rfl, rfl, f, rfl⟩ := forall₂_two htypes
    obtain ⟨_, _, _, _, rfl, rfl, h₁, h₂⟩ := holdsValues_two h
    obtain ⟨rfl, rfl⟩ := holdsValue_none h₁
    obtain ⟨q, rfl, rfl⟩ := holdsValue_string h₂
    rw [zero_add]
    refine (triple_redirectTo A _ g).weaken fun r m' hr => ?_
    obtain ⟨x, g₁, b⟩ := r
    obtain ⟨rfl, rfl⟩ := Prod.mk.inj hr.1
    exact actionResult_value hg hr.2
  | 24, htypes =>
    obtain ⟨_, _, rfl, ⟨k, rfl, -⟩, pc, rfl, hne⟩ := forall₂_two htypes
    obtain ⟨_, _, _, m₂, rfl, rfl, h₁, h₂⟩ := holdsValues_two h
    obtain ⟨rfl, rfl⟩ := holdsValue_integer h₁
    obtain ⟨p, rfl, h₂⟩ := holdsValue_cmd h₂
    refine triple_createRedirectPipe A _ (o := 0) (by abel) h₂ hne fun q m' hm' => ?_
    rw [add_zero]
    exact triple_pure (actionResult_value hg hm')
  | 25, htypes | 26, htypes | 27, htypes | 28, htypes =>
    obtain ⟨_, rfl, rfl⟩ := forall₂_one htypes
    obtain ⟨_, rfl, h₁⟩ := holdsValues_one h
    obtain ⟨rfl, rfl⟩ := holdsValue_none h₁
    exact triple_pure (actionResult_value hg ⟨rfl, rfl⟩)
  | 29, htypes =>
    obtain ⟨_, _, rfl, ⟨pa, rfl⟩, s, rfl⟩ := forall₂_two htypes
    obtain ⟨_, _, m₁, _, rfl, rfl, h₁, h₂⟩ := holdsValues_two h
    obtain ⟨p, rfl, h₁⟩ := holdsValue_arg h₁
    obtain ⟨q, rfl, rfl⟩ := holdsValue_string h₂
    refine Triple.call (o := 0) (triple_appendArgument A hw h₁ (hroom pa s rfl rfl) q s)
      (add_zero _).symm
      fun _ m' hm' => ?_
    obtain ⟨m'', rfl, hm''⟩ := hm'
    rw [add_zero]
    exact triple_free (c := .chars s) (add_comm _ _) (triple_pure (actionResult_value hg hm''))
  | 30, htypes =>
    obtain rfl := List.forall₂_nil_left_iff.mp htypes
    obtain ⟨rfl, rfl⟩ := holdsValues_nil h
    refine Triple.call (o := 0) (triple_createArguments A (by omega)) (add_zero _).symm
      fun p m' hm' => ?_
    rw [add_zero]
    exact triple_pure (actionResult_value hg hm')
  | 31, htypes | 32, htypes =>
    obtain ⟨_, rfl, s, rfl⟩ := forall₂_one htypes
    obtain ⟨x, rfl, h₁⟩ := holdsValues_one h
    exact triple_pure (actionResult_value hg h₁)
  | n + 33, htypes =>
    have hright : ishCertificate.right (n + 33) = [] := rfl
    rw [hright] at htypes
    obtain rfl := List.forall₂_nil_left_iff.mp htypes
    obtain ⟨rfl, rfl⟩ := holdsValues_nil h
    exact triple_pure (actionResult_value hg rfl)

/-! ### The parser -/

/-- What the lexer and the actions share: the scanner, the heap and the globals. -/
structure FrontHeap (w : Nat) where
  scanner : StartCond × Flex.Buffer
  heap : Heap (Cell w)
  globals : HeapGlobals

/-- The string that `copyEscapedString` allocates for a token. -/
def tokenString : Token → Option String
  | .WORD z => some z
  | .COMMAND z => some z
  | .FILENAME z => some z
  | .STRING z => some z
  | _ => none

/-- `yylval` of a token. -/
def makeValue (t : Token) : Prog w HeapValue :=
  match tokenString t with
  | some z => do
    let p ← strdup A z
    pure (.string p)
  | none => pure .none

/-- `yylex`: the number of the token, and `yylval`. -/
def lexHeap (requests : Nat → Nat) (s : FrontHeap w) :
    Option ((Nat × HeapValue) × FrontHeap w) := do
  let (t, scanner) ← lexYy requests s.scanner
  let (v, heap) ← makeValue A t s.heap
  some ((yytranslate t, v), ⟨scanner, heap, s.globals⟩)

/-- `yyparse`. -/
def heapSkeleton (requests : Nat → Nat) :
    Skeleton (Nat × HeapValue) HeapValue (FrontHeap w) where
  tables := parserTables
  kind := Prod.fst
  value := Prod.snd
  junk := .none
  lex := lexHeap A requests
  act n vs s := (userAction A n vs s.globals s.heap).map fun r =>
    (r.1.1, ⟨s.scanner, r.2, r.1.2.1⟩, r.1.2.2)

/-- `nextCommand(&eof)` -/
def nextCommandHeap (requests : Nat → Nat) (fuel : Nat) (s : FrontHeap w) :
    Option (FrontHeap w) :=
  match (heapSkeleton A requests).run YYMAXDEPTH fuel ⟨[], 0, 0, none, s⟩ with
  | .done r => some r.state
  | _ => none

/-! ### The simulation -/

/-- The blocks of the token in `yychar`. -/
def HoldsChar : Option (Nat × HeapValue) → Option Token → Blocks w → Prop
  | none, none, m => m = 0
  | some x, some t, m => x.1 = yytranslate t ∧ HoldsValue x.2 (yylval t) m
  | _, _, _ => False

/-- The stack behind an error: `error`, and the terminator behind it. -/
def BehindError (stack : List (Nat × YYSTYPE)) : Prop :=
  (∃ v, stack = [(1, v)]) ∨ ∃ q v v', stack = [(q, v), (1, v')] ∧ q ∈ ishCertificate.next 1

/-- The parser on the heap, next to that on values, with `e` errors so far: it owns the blocks of
    the stack and of `yychar`, and behind an error also blocks that it has lost; the blocks
    `base` it has found. -/
structure Mirrors (rest : Nat) (base : Blocks w) (e : Nat)
    (l : Local Token YYSTYPE (Scanner × Ish.Globals))
    (l' : Local (Nat × HeapValue) HeapValue (FrontHeap w)) : Prop where
  states : l'.stack.map Prod.fst = l.stack.map Prod.fst
  blocks : ∃ ms mc lost, HoldsValues (l'.stack.map Prod.snd) (l.stack.map Prod.snd) ms ∧
    HoldsChar l'.char l.char mc ∧ l'.state.heap.contents = ms + mc + lost + base ∧
    (e = 0 → lost = 0)
  front : InFront l.state.1 l'.state.scanner
  eof : l'.state.globals.fEndOfFile = l.state.2.fEndOfFile
  awaited : Awaited rest l.stack l.char l.state.1
  ended : ishCertificate.symbol (top l.stack) ∈ [18, 19, 24] → l.char = none
  behind : 0 < e → BehindError l.stack

/-- What a call leaves: the blocks of the command, and lost blocks only behind an error. -/
structure Built (base : Blocks w) (e : Nat) (s : Scanner × Ish.Globals) (s' : FrontHeap w) :
    Prop where
  blocks : ∃ m lost, HoldsCommand s'.globals.pcGlobalCommand s.2.pcGlobalCommand m ∧
    s'.heap.contents = m + lost + base ∧ (e = 0 → lost = 0)
  front : InFront s.1 s'.scanner
  eof : s'.globals.fEndOfFile = s.2.fEndOfFile
  null : 0 < e → s.2.pcGlobalCommand = .null

/-- The actions that end a line, and the states that they are for. -/
def reducesAt (p n : Nat) : Bool :=
  (n ≠ 5 && n ≠ 6 || (ishCertificate.symbol p = 18 || ishCertificate.symbol p = 19)) &&
    (n ≠ 2 && n ≠ 3 && n ≠ 4 || ishCertificate.symbol p = 24) &&
    p ≠ 1 && (!(ishCertificate.next 1).contains p || n = 4 || n = 5 || n = 6)

def actionAt (p : Nat) : Action → Bool
  | .reduce n => reducesAt p n
  | _ => true

/-- What the tables reduce in a state of the automaton, checked once for all of them. -/
theorem reducesAt_of_reduces {L : Type} {lex : L → Option (Token × L)}
    {l : Local Token YYSTYPE (L × Ish.Globals)} {n : Nat} (h : (ishParser.skeleton lex).Reduces l n)
    (hp : top l.stack ∈ ishCertificate.nodes) : reducesAt (top l.stack) n = true := by
  have hdefault : ∀ p ∈ ishCertificate.nodes, parserTables.consistent p = true →
      actionAt p (parserTables.defaultAction p) = true := by
    decide
  have haction : ∀ p ∈ ishCertificate.nodes, parserTables.consistent p = false →
      ∀ x < parserTables.ntokens, actionAt p (parserTables.action p x) = true := by
    decide
  rcases h with ⟨hconsistent, hreduce⟩ | ⟨hlook, t, -, hreduce⟩
  · have hok := hdefault _ hp hconsistent
    rwa [show parserTables.defaultAction _ = _ from hreduce] at hok
  · have hok := haction _ hp hlook _ (yytranslate_lt t).2
    rwa [show parserTables.action _ (yytranslate t) = _ from hreduce] at hok

/-- Behind a terminator no token is read. -/
theorem consistent_of_ended {p : Nat} (h : ishCertificate.symbol p ∈ [18, 19, 24]) :
    parserTables.consistent p = true := by
  have hall : ∀ p < 42, ishCertificate.symbol p ∈ [18, 19, 24] →
      parserTables.consistent p = true := by
    decide
  by_cases hp : p < 42
  · exact hall p hp h
  · have hzero : ishCertificate.symbol p = 0 := List.getD_eq_default _ _ (Nat.le_of_not_lt hp)
    rw [hzero] at h
    exact absurd h (by decide)

/-- The lexer allocates a string for a token that has one. -/
theorem triple_makeValue (t : Token) :
    Triple (0 : Blocks w) (makeValue A t) fun v m => HoldsValue v (yylval t) m := by
  have hstring : ∀ z, Triple (0 : Blocks w) (strdup A z >>= fun p => pure (HeapValue.string p))
      fun v m => HoldsValue v (.string z) m :=
    fun z => triple_malloc fun p _ => triple_pure (add_zero _)
  cases t with
  | WORD z | COMMAND z | FILENAME z | STRING z => exact hstring z
  | _ => exact triple_pure rfl

section
variable {rest : Nat} {base : Blocks w} {e : Nat} {stack : List (Nat × YYSTYPE)} {lexer : Scanner}
    {g : Ish.Globals}
  {stack' : List (Nat × HeapValue)} {s : FrontHeap w}

/-- **A token of the line is read.** -/
theorem Mirrors.lex (requests : Nat → Nat)
    (h : Mirrors rest base e ⟨stack, none, (lexer, g)⟩ ⟨stack', none, s⟩)
    (hlook : parserTables.consistent (top stack) = false)
    (hin : rest ≤ (yylex lexer).2.text.length) :
    ∃ x s₁, lexHeap A requests s = some (x, s₁) ∧
      Mirrors rest base e ⟨stack, some (yylex lexer).1, ((yylex lexer).2, g)⟩
      ⟨stack', some x, s₁⟩ := by
  obtain ⟨hstates, ⟨ms, mc, lost, hms, hmc, hcontents, hlost⟩, hfront, heof, hawaited, -,
    hbehind⟩ := h
  obtain ⟨scanner, hlex, hfront'⟩ := hfront.lex requests
  obtain ⟨v, heap, m, hmake, hv, hheap⟩ := triple_makeValue A (yylex lexer).1 s.heap.contents s.heap
    (zero_add _).symm
  obtain rfl : mc = 0 := hmc
  refine ⟨(yytranslate (yylex lexer).1, v), ⟨scanner, heap, s.globals⟩, ?_, hstates,
    ⟨ms, m, lost, hms, ⟨rfl, hv⟩, ?_, hlost⟩, hfront', heof, hawaited.lex hin, fun hended => ?_,
    hbehind⟩
  · show (lexYy requests s.scanner).bind _ = _
    rw [hlex]
    show (makeValue A (yylex lexer).1 s.heap).bind _ = _
    rw [hmake]
    rfl
  · show heap.contents = _
    rw [hheap, hcontents]
    abel
  · rw [consistent_of_ended hended] at hlook
    cases hlook

/-- **A token is shifted**, with its block. -/
theorem Mirrors.shift {t : Token} {x : Nat × HeapValue} {q : Nat}
    (h : Mirrors rest base e ⟨stack, some t, (lexer, g)⟩ ⟨stack', some x, s⟩)
    (htyped : Typed ishCertificate HasType ((q, yylval t) :: stack))
    (hsymbol : ishCertificate.symbol q = yytranslate t) :
    Mirrors rest base e ⟨(q, yylval t) :: stack, none, (lexer, g)⟩
    ⟨(q, x.2) :: stack', none, s⟩ := by
  obtain ⟨hstates, ⟨ms, mc, lost, hms, ⟨-, hmc⟩, hcontents, hlost⟩, hfront, heof, hawaited, -,
    hbehind⟩ := h
  refine ⟨congrArg (q :: ·) hstates, ⟨mc + ms, 0, lost, .cons hmc hms, rfl, ?_, hlost⟩, hfront,
    heof,
    hawaited.shift htyped hsymbol, fun _ => rfl, fun he => ?_⟩
  · rw [hcontents]
    abel
  · have hedge := htyped.last.2.1
    rcases hbehind he with ⟨v, rfl⟩ | ⟨p, v, v', rfl, hp⟩
    · exact Or.inr ⟨q, _, v, rfl, hedge⟩
    -- nothing comes behind the terminator
    · have hall : ∀ p ∈ ishCertificate.next 1, ∀ q, q ∉ ishCertificate.next p := by decide
      exact absurd hedge (hall p hp q)

/-- The recovery drops the stack. -/
theorem popErrors_typed {V : Type*} {D : Nat → V → Prop} {stack below : List (Nat × V)} {q : Nat}
    (h : Typed ishCertificate D stack) (hpop : parserTables.popErrors stack = some (q, below)) :
    q = 1 ∧ below = [] := by
  obtain ⟨⟨popped, rfl⟩, hq⟩ := Tables.popErrors_spec hpop
  have hne := Spells.ne_zero ishCertificate_valid h
  cases below with
  | nil => exact ⟨(Option.some.inj hq).symm, rfl⟩
  | cons x below =>
    rw [top_cons, errorShift_eq_none (hne x (by simp))] at hq
    cases hq

/-- **An error**: what was on the stack is lost. -/
theorem Mirrors.recover {e' : Nat} {c : Option Token} {c' : Option (Nat × HeapValue)} {q : Nat}
    {below : List (Nat × YYSTYPE)} {d : Option Token} {d' : Option (Nat × HeapValue)}
    (h : Mirrors rest base e ⟨stack, c, (lexer, g)⟩ ⟨stack', c', s⟩)
    (htyped : Typed ishCertificate HasType stack) (he' : 0 < e')
    (hpop : parserTables.popErrors stack = some (q, below))
    (hchar : d = c ∧ d' = c' ∨ d = none ∧ d' = none) :
    Mirrors rest base e' ⟨(q, .none) :: below, d, (lexer, g)⟩
      ⟨(q, .none) :: stack'.drop (stack.length - below.length), d', s⟩ := by
  obtain ⟨hstates, ⟨ms, mc, lost, hms, hmc, hcontents, -⟩, hfront, heof, hawaited, -, -⟩ := h
  obtain ⟨rfl, rfl⟩ := popErrors_typed htyped hpop
  have hlength : stack'.length = stack.length := by
    have hlengths := congrArg List.length hstates
    rwa [List.length_map, List.length_map] at hlengths
  have hdrop : stack'.drop (stack.length - ([] : List (Nat × YYSTYPE)).length) = [] :=
    List.drop_eq_nil_of_le (by simp [hlength])
  rw [hdrop]
  have hone : HoldsValues [HeapValue.none] [YYSTYPE.none] (0 : Blocks w) := by
    rw [← add_zero (0 : Blocks w)]
    exact .cons rfl .nil
  have hawaited' : Awaited rest [(1, .none)] d lexer :=
    hawaited.recover rfl (hchar.imp And.left And.left)
  have hended : ∀ d : Option Token, ishCertificate.symbol 1 ∈ [18, 19, 24] → d = none :=
    fun _ h => absurd h (by decide)
  rcases hchar with ⟨rfl, rfl⟩ | ⟨rfl, rfl⟩
  · refine ⟨rfl, ⟨0, mc, ms + lost, hone, hmc, ?_, by omega⟩, hfront, heof, hawaited', hended _,
      fun _ => Or.inl ⟨_, rfl⟩⟩
    rw [hcontents]
    abel
  · refine ⟨rfl, ⟨0, 0, ms + mc + lost, hone, rfl, ?_, by omega⟩, hfront, heof, hawaited', hended _,
      fun _ => Or.inl ⟨_, rfl⟩⟩
    rw [hcontents]
    abel

/-- What an action does, next to the one on values. -/
theorem Mirrors.act (hw : 1 < w) {c : Option Token} {c' : Option (Nat × HeapValue)} {n : Nat}
    {L : Type} {lex : L → Option (Token × L)}
    (h : Mirrors rest base e ⟨stack, c, (lexer, g)⟩ ⟨stack', c', s⟩)
    (hpopped : (ishParser.skeleton lex).Popped ishCertificate HasType n stack) :
    ∃ r heap m ms mc lost,
      userAction A n (((stack'.take (parserTables.r2.getD n 0)).reverse).map Prod.snd) s.globals
        s.heap = some (r, heap) ∧
      ActionResult r (Ish.userAction n ((ishParser.skeleton lex).values n stack) g) m ∧
      HoldsValues ((stack'.drop (parserTables.r2.getD n 0)).map Prod.snd)
        ((stack.drop (parserTables.r2.getD n 0)).map Prod.snd) ms ∧
      HoldsChar c' c mc ∧ heap.contents = m + (ms + mc + lost + base) ∧ (e = 0 → lost = 0) := by
  obtain ⟨-, ⟨ms, mc, lost, hms, hmc, hcontents, hlost⟩, -, heof, hawaited, -, -⟩ := h
  obtain ⟨m₁, m₂, rfl, h₁, h₂⟩ := hms.split (parserTables.r2.getD n 0)
  have hvalues := h₁.reverse
  rw [← List.map_take, ← List.map_take, ← List.map_reverse, ← List.map_reverse] at hvalues
  rw [← List.map_drop, ← List.map_drop] at h₂
  have hroom : ∀ pa z, n = 29 → (ishParser.skeleton lex).values n stack = [.arg pa, .string z] →
      pa.params.length < MAXPARAMS := by
    rintro pa z rfl heq
    exact hawaited.params_lt heq
  obtain ⟨r, heap, m, hrun, hresult, hheap⟩ := triple_userAction A hw n heof hpopped.values hvalues
    hroom (m₂ + mc + lost + base) s.heap (by rw [hcontents]; abel)
  exact ⟨r, heap, m, m₂, mc, lost, hrun, hresult, h₂, hmc, hheap, hlost⟩

/-- The actions of `cmd_line` accept, and no others. -/
theorem userAction_accepts {n : Nat} {vs : List YYSTYPE} {g : Ish.Globals}
    (h : (Ish.userAction n vs g).2.2 = true) : n = 2 ∨ n = 3 ∨ n = 4 := by
  unfold Ish.userAction at h
  split at h <;> first | omega | cases h

/-- What the states say about the end of a line. -/
structure LineEnd (stack : List (Nat × YYSTYPE)) (n : Nat) : Prop where
  terminator : n = 5 ∨ n = 6 →
    ishCertificate.symbol (top stack) = 18 ∨ ishCertificate.symbol (top stack) = 19
  accepts : n = 2 ∨ n = 3 ∨ n = 4 → ishCertificate.symbol (top stack) = 24
  behind : BehindError stack →
    (n = 4 ∨ n = 5 ∨ n = 6) ∧ ∃ q v v', stack = [(q, v), (1, v')]

/-- What the tables say about the end of a line holds where they reduce. -/
theorem lineEnd_of_reduces {L : Type} {lex : L → Option (Token × L)} {n : Nat}
    {c : Option Token} {l : L × Ish.Globals}
    (hpopped : (ishParser.skeleton lex).Popped ishCertificate HasType n stack)
    (h : (ishParser.skeleton lex).Reduces ⟨stack, c, l⟩ n) : LineEnd stack n := by
  have hat := reducesAt_of_reduces h (Spells.mem_nodes hpopped.path)
  simp only [reducesAt, Bool.and_eq_true, Bool.or_eq_true, decide_eq_true_eq, Bool.not_eq_true',
    List.contains_eq_mem, decide_eq_false_iff_not] at hat
  obtain ⟨⟨⟨hterminator, haccepts⟩, hone⟩, hbehind⟩ := hat
  refine ⟨fun hn => hterminator.resolve_left (by omega), fun hn => haccepts.resolve_left (by omega),
    ?_⟩
  rintro (⟨v, rfl⟩ | ⟨q, v, v', rfl, hq⟩)
  · exact absurd rfl hone
  · refine ⟨?_, q, v, v', rfl⟩
    rcases hbehind with ((hnot | h4) | h5) | h6
    · exact absurd hq hnot
    · exact Or.inl h4
    · exact Or.inr (Or.inl h5)
    · exact Or.inr (Or.inr h6)

variable {c : Option Token} {c' : Option (Nat × HeapValue)} {n : Nat} {L : Type}
  {lex : L → Option (Token × L)}

/-- **The parser accepts.**  Nothing but the right side was on the stack. -/
theorem Mirrors.accept (hw : 1 < w)
    (h : Mirrors rest base e ⟨stack, c, (lexer, g)⟩ ⟨stack', c', s⟩) (hend : LineEnd stack n)
    (hpopped : (ishParser.skeleton lex).Popped ishCertificate HasType n stack)
    (haccepts : (Ish.userAction n ((ishParser.skeleton lex).values n stack) g).2.2 = true)
    (requests : Nat → Nat) :
    ∃ v s₁, (heapSkeleton A requests).act n
        (((stack'.take (parserTables.r2.getD n 0)).reverse).map Prod.snd) s = some (v, s₁, true) ∧
      Built base e (lexer, (Ish.userAction n ((ishParser.skeleton lex).values n stack) g).2.1) s₁ := by
  obtain ⟨r, heap, m, ms, mc, lost, hrun, hresult, hms, hmc, hcontents, hlost⟩ :=
    h.act A hw hpopped
  have hn := userAction_accepts haccepts
  -- the goto for `cmd_line` is one of the start state
  have hbelow : stack.drop (parserTables.r2.getD n 0) = [] := by
    have hgoto : ∀ p < 42, ∀ q ∈ ishCertificate.next p, ishCertificate.symbol q = 23 → p = 0 := by
      decide
    have hr1 : parserTables.r1.getD n 0 = 23 := by rcases hn with rfl | rfl | rfl <;> rfl
    have htop := hgoto _ (Certificate.lt_of_mem_next hpopped.edge) _ hpopped.edge
      (hpopped.symbol.trans hr1)
    cases hdrop : stack.drop (parserTables.r2.getD n 0) with
    | nil => rfl
    | cons x below =>
      rw [show (ishParser.skeleton lex).tables = parserTables from rfl, hdrop] at htop
      have hrest := hpopped.rest
      rw [show (ishParser.skeleton lex).tables = parserTables from rfl, hdrop] at hrest
      exact absurd htop (Spells.ne_zero ishCertificate_valid hrest x List.mem_cons_self)
  rw [hbelow] at hms
  obtain ⟨-, rfl⟩ := holdsValues_nil hms
  obtain rfl : c = none := h.ended (by rw [hend.accepts hn]; decide)
  have hmc' : mc = 0 := by
    cases c' with
    | none => exact hmc
    | some x => exact hmc.elim
  subst hmc'
  refine ⟨r.1, ⟨s.scanner, heap, r.2.1⟩, ?_, ⟨m, lost, hresult.command haccepts, ?_, hlost⟩,
    h.front,
    hresult.eof, fun he => ?_⟩
  · show (userAction A n _ s.globals s.heap).map _ = _
    rw [hrun]
    exact congrArg (fun b => some (r.1, _, b)) (hresult.accepts.trans haccepts)
  · show heap.contents = _
    rw [hcontents]
    abel
  · obtain rfl : n = 4 := by have hfour := (hend.behind (h.behind he)).1; omega
    obtain ⟨_, _, hvs, -, -⟩ := forall₂_two hpopped.values
    rw [hvs]
    rfl

/-- **The parser goes on**, with the value of the left side. -/
theorem Mirrors.reduce (hw : 1 < w)
    (h : Mirrors rest base e ⟨stack, c, (lexer, g)⟩ ⟨stack', c', s⟩) (hend : LineEnd stack n)
    (hpopped : (ishParser.skeleton lex).Popped ishCertificate HasType n stack)
    (hgo : (Ish.userAction n ((ishParser.skeleton lex).values n stack) g).2.2 = false)
    (requests : Nat → Nat) :
    ∃ v s₁, (heapSkeleton A requests).act n
        (((stack'.take (parserTables.r2.getD n 0)).reverse).map Prod.snd) s = some (v, s₁, false) ∧
      Mirrors rest base e
        ⟨(ishParser.skeleton lex).reduced n
            (Ish.userAction n ((ishParser.skeleton lex).values n stack) g).1 stack, c,
          (lexer, (Ish.userAction n ((ishParser.skeleton lex).values n stack) g).2.1)⟩
        ⟨(heapSkeleton A requests : Skeleton _ _ (FrontHeap w)).reduced n v stack', c', s₁⟩ := by
  obtain ⟨r, heap, m, ms, mc, lost, hrun, hresult, hms, hmc, hcontents, hlost⟩ :=
    h.act A hw hpopped
  have hdrop : (stack'.drop (parserTables.r2.getD n 0)).map Prod.fst =
      (stack.drop (parserTables.r2.getD n 0)).map Prod.fst := by
    rw [List.map_drop, List.map_drop]
    exact congrArg _ h.states
  refine ⟨r.1, ⟨s.scanner, heap, r.2.1⟩, ?_, ?_,
    ⟨m + ms, mc, lost, .cons (hresult.value hgo) hms, hmc,
    ?_, hlost⟩, h.front, hresult.eof, h.awaited.reduce hpopped hgo, ?_, fun he => ?_⟩
  · show (userAction A n _ s.globals s.heap).map _ = _
    rw [hrun]
    exact congrArg (fun b => some (r.1, _, b)) (hresult.accepts.trans hgo)
  · show parserTables.goto (top (stack'.drop (parserTables.r2.getD n 0))) n ::
        (stack'.drop (parserTables.r2.getD n 0)).map Prod.fst =
      parserTables.goto (top (stack.drop (parserTables.r2.getD n 0))) n ::
        (stack.drop (parserTables.r2.getD n 0)).map Prod.fst
    rw [top_of_states hdrop, hdrop]
  · show heap.contents = _
    rw [hcontents]
    abel
  · -- only a terminator is reduced to `terminator`
    intro hended
    have hsymbol : ishCertificate.symbol
        (top ((ishParser.skeleton lex).reduced n
          (Ish.userAction n ((ishParser.skeleton lex).values n stack) g).1 stack)) =
        parserTables.r1.getD n 0 := hpopped.symbol
    rw [hsymbol] at hended
    refine h.ended ?_
    have hn : n = 5 ∨ n = 6 := by
      by_cases hlt : n < 33
      · have hall : ∀ n < 33, parserTables.r1.getD n 0 ∈ [18, 19, 24] → n = 5 ∨ n = 6 := by decide
        exact hall n hlt hended
      · rw [show parserTables.r1.getD n 0 = 0 from
          List.getD_eq_default _ _ (Nat.le_of_not_lt hlt)] at hended
        exact absurd hended (by decide)
    rcases hend.terminator hn with heq | heq
    · rw [heq]
      decide
    · rw [heq]
      decide
  · obtain ⟨hn, q, v, v', rfl⟩ := hend.behind (h.behind he)
    have hedge := hpopped.edge
    rcases hn with rfl | rfl | rfl
    · obtain ⟨_, _, hvs, -, -⟩ := forall₂_two hpopped.values
      rw [hvs] at hgo
      cases hgo
    · exact Or.inr ⟨_, _, v', rfl, hedge⟩
    · exact Or.inr ⟨_, _, v', rfl, hedge⟩

end

/-- **The parser on the heap** does what the parser on values does, on one line. -/
theorem heapSimulation (hw : 1 < w) (requests : Nat → Nat) (rest : Nat) (base : Blocks w) :
    TypedSimulation (ishParser.skeleton (lexLine rest)) (heapSkeleton A requests)
      ishCertificate HasType (Mirrors rest base) (fun r e s s' => r = 0 → Built base e s s') where
  tables := rfl
  states h := h.states
  kind {e l l'} h := by
    obtain ⟨ms, mc, lost, -, hmc, -, -⟩ := h.blocks
    match l.char, l'.char, hmc with
    | none, none, _ => rfl
    | some t, some x, hx => exact congrArg some hx.1
  lex := by
    rintro e stack ⟨lexer, g⟩ stack' s t s₁ h hlook hlex
    obtain ⟨r, hread, hr⟩ := Option.map_eq_some_iff.mp hlex
    obtain ⟨rfl, hin⟩ := lexLine_eq_some hread
    obtain ⟨rfl, rfl⟩ := Prod.mk.inj hr
    exact h.lex A requests hlook hin
  shift h htyped hsymbol := h.shift htyped hsymbol
  reduce := by
    rintro e n stack c ⟨lexer, g⟩ stack' c' s v s₁ b h hn hpopped hact
    have hend := lineEnd_of_reduces hpopped hn
    obtain ⟨rfl, hrest⟩ := Prod.mk.inj (Option.some.inj hact)
    obtain ⟨rfl, rfl⟩ := Prod.mk.inj hrest
    have hb : (ishParser.act n ((ishParser.skeleton (lexLine rest)).values n stack) g).2.2 =
        (Ish.userAction n ((ishParser.skeleton (lexLine rest)).values n stack) g).2.2 := rfl
    cases haccepts : (Ish.userAction n
        ((ishParser.skeleton (lexLine rest)).values n stack) g).2.2 with
    | true =>
      obtain ⟨v, s₁, hact', hbuilt⟩ := h.accept A hw hend hpopped haccepts requests
      dsimp only
      rw [hb, haccepts]
      exact ⟨v, s₁, hact', fun _ => hbuilt⟩
    | false =>
      obtain ⟨v, s₁, hact', hR⟩ := h.reduce A hw hend hpopped haccepts requests
      dsimp only
      rw [hb, haccepts]
      exact ⟨v, s₁, hact', hR⟩
  recover h htyped _ he hpop hchar := h.recover htyped he hpop hchar
  stop _ _ hr hzero := absurd hzero hr

/-! ### One call -/

/-- The line is empty, or `cmd_seq` derives it. -/
def Parses (l : Line) : Prop := l.tokens = [] ∨ ∃ pc, DerivesCmdSeq l.tokens pc

/-- **One call** of `nextCommand` on the heap: the command of the line is at `pcGlobalCommand`, in
    blocks of its own, the blocks from before are as they were, and others are left only if the
    line has a syntax error. -/
theorem nextCommandHeap_spec (hw : 1 < w) (requests : Nat → Nat) {lexer : Scanner}
    (hfits : StackFits (readLine lexer)) (hshort : ShortLine (readLine lexer)) :
    ∃ fuel, ∀ fuel' ≥ fuel, ∀ s : FrontHeap w, InFront lexer s.scanner →
      s.globals.fEndOfFile = false → ∃ s' m lost, nextCommandHeap A requests fuel' s = some s' ∧
        InFront (nextCommand lexer).2.2 s'.scanner ∧
        s'.globals.fEndOfFile = (nextCommand lexer).2.1 ∧
        HoldsCommand s'.globals.pcGlobalCommand (nextCommand lexer).1 m ∧
        s'.heap.contents = m + lost + s.heap.contents ∧ (Parses (readLine lexer) → lost = 0) := by
  obtain ⟨fuel, hcall⟩ := run_line hfits ⟨.null, false⟩
  refine ⟨fuel, fun fuel' hle s hfront heof => ?_⟩
  obtain ⟨nerrs, hrun⟩ := hcall fuel' hle
  have hruns := hshort.shortRuns
  have hawaited : Awaited (readLine lexer).rest.text.length [] none lexer :=
    ⟨hruns, Nat.zero_le _, fun _ => hruns 0, fun t ht => absurd ht (by simp)⟩
  have hmirrors : Mirrors (readLine lexer).rest.text.length s.heap.contents 0
      ⟨[], none, (lexer, ⟨.null, false⟩)⟩ ⟨[], none, s⟩ :=
    ⟨rfl, ⟨0, 0, 0, .nil, rfl, by simp, fun _ => rfl⟩, hfront, heof, hawaited, fun _ => rfl,
      fun h => absurd h (Nat.lt_irrefl 0)⟩
  have hsim := ((heapSimulation A hw requests (readLine lexer).rest.text.length
      s.heap.contents).simulation (ishSkeleton_certified _)).run YYMAXDEPTH fuel'
    (c := ⟨[], 0, 0, none, (lexer, ⟨.null, false⟩)⟩) (d := ⟨[], 0, 0, none, s⟩)
    ⟨rfl, rfl, fun h => absurd rfl h, typed_nil _ _, hmirrors⟩
  rw [show (ishParser.skeleton (lexLine (readLine lexer).rest.text.length)).run YYMAXDEPTH fuel'
    ⟨[], 0, 0, none, (lexer, ⟨.null, false⟩)⟩ = _ from run_lexLine hrun] at hsim
  unfold nextCommandHeap
  cases hout : (heapSkeleton A requests).run YYMAXDEPTH fuel' ⟨[], 0, 0, none, s⟩ with
  | more d => rw [hout] at hsim; exact hsim.elim
  | failed => rw [hout] at hsim; exact hsim.elim
  | done r =>
    rw [hout] at hsim
    obtain ⟨-, -, hbuilt⟩ := hsim
    obtain ⟨⟨m, lost, hcommand, hcontents, hlost⟩, hfront', heof', hnull⟩ := hbuilt rfl
    refine ⟨r.state, m, lost, rfl, hfront', heof', hcommand, hcontents, fun hparses => hlost ?_⟩
    rcases hparses with hempty | ⟨pc, hpc⟩
    · exact nerrs_of_empty hempty hrun
    · by_contra hne
      have hpc' := (nextCommand_lineResult lexer).derivable pc hpc
      exact hpc.ne_null (hpc' ▸ hnull (Nat.pos_of_ne_zero hne))

end OSPortfolio.Ish.OnHeap
