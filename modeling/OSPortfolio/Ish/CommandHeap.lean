import OSPortfolio.Lib.Heap
import OSPortfolio.Ish.Arguments

namespace OSPortfolio.Ish.OnHeap

open OSPortfolio.Memory

/-!
# `command.c` on the heap

The structures of `command.h` as blocks with pointers to each other, and the functions that
build and destroy them, where `Command.lean` has the trees and `Arguments.lean` one array.

* `Cell` — the contents of a block; `createCommand`, `appendCommand`, `destroyCommand` and
  their like for redirects and arguments;
* `HoldsCommand`, `HoldsRedirect`, `HoldsArgs` — the blocks of a tree, from its pointer on;
* `triple_createCommand`, `triple_appendCommand`, … — **the functions build the trees** of
  `Command.lean`;
* `triple_destroyCommand` — **the blocks of a tree are freed, each once, and no other**.

The loops along pointers, and the depth of a recursion, are bounded by the number of blocks.
-/

/-- `struct _command`, without `fType`, which is always `COMMAND`. -/
structure CommandFields where
  zCmd : Ptr
  pa : Ptr
  fBackground : Bool
  prRedirects : Ptr
  pcNext : Ptr

/-- `fType`, which says what the union `u` is. -/
inductive RedirectType
  | file (t : FileType)
  | pipe (t : PipeType)
  deriving DecidableEq, Repr

/-- `struct _redirect` -/
structure RedirectFields where
  fType : RedirectType
  u : Ptr
  prNext : Ptr

/-- `struct _args` -/
structure ArgsFields where
  nArgs : Nat
  nMaxArgs : Nat
  azArgs : Ptr

/-- The contents of a block: a string with its terminator, one of the structures, or an array of
    pointers of `w` bytes. -/
inductive Cell (w : Nat)
  | chars (s : String)
  | command (f : CommandFields)
  | redirect (f : RedirectFields)
  | args (f : ArgsFields)
  | array (b : Block Ptr w)

/-- A program on these blocks. -/
abbrev Prog (w : Nat) (β : Type) := Mem (Cell w) β

/-- Blocks with their addresses. -/
abbrev Blocks (w : Nat) := Multiset (Ptr × Cell w)

variable {w : Nat} (A : Allocator)

/-! ### Fields -/

def loadChars (p : Ptr) : Prog w String :=
  loadAs (fun | .chars s => some s | _ => none) p

def loadCommand (p : Ptr) : Prog w CommandFields :=
  loadAs (fun | .command f => some f | _ => none) p

def loadRedirect (p : Ptr) : Prog w RedirectFields :=
  loadAs (fun | .redirect f => some f | _ => none) p

def loadArgs (p : Ptr) : Prog w ArgsFields :=
  loadAs (fun | .args f => some f | _ => none) p

def loadArray (p : Ptr) : Prog w (Block Ptr w) :=
  loadAs (fun | .array b => some b | _ => none) p

/-- Assign to a field of a command. -/
def setCommand (p : Ptr) (g : CommandFields → CommandFields) : Prog w Unit := do
  let f ← loadCommand p
  store p (.command (g f))

def setRedirect (p : Ptr) (g : RedirectFields → RedirectFields) : Prog w Unit := do
  let f ← loadRedirect p
  store p (.redirect (g f))

def setArgs (p : Ptr) (g : ArgsFields → ArgsFields) : Prog w Unit := do
  let f ← loadArgs p
  store p (.args (g f))

/-- `azArgs[i]` -/
def loadSlot (azArgs : Ptr) (i : Nat) : Prog w Ptr := do
  let b ← loadArray azArgs
  match b.load i with
  | some q => pure q
  | none => failure

/-- `azArgs[i] = q` -/
def storeSlot (azArgs : Ptr) (i : Nat) (q : Ptr) : Prog w Unit := do
  let b ← loadArray azArgs
  match b.store i q with
  | some b => store azArgs (.array b)
  | none => failure

/-! ### Arguments -/

/-- `strdup`, of the string `s` -/
def strdup (s : String) : Prog w Ptr := malloc A (.chars s)

/-- `createArguments(NULL)`: the test in front of the `strdup` finds a `NULL`. -/
def createArguments : Prog w Ptr := do
  let pa ← malloc A (.args ⟨0, 0, 0⟩)
  let azArgs ← malloc A (.array (Block.calloc (ArgArray.DEFAULT_MAXARGS + 1) 0))
  setArgs pa fun _ => ⟨1, ArgArray.DEFAULT_MAXARGS, azArgs⟩
  let q ← loadSlot azArgs 0
  whenNonNull q failure
  storeSlot azArgs 1 0
  pure pa

/-- `setArgument(pa, n, zArg)`, with the string behind `zArg`. -/
def setArgument (pa : Ptr) (n : Nat) (zArg : String) : Prog w Unit := do
  assert (pa ≠ 0)
  let f ← loadArgs pa
  assert (n ≤ f.nMaxArgs)
  let q ← loadSlot f.azArgs n
  whenNonNull q (free q)
  let z ← strdup A zArg
  storeSlot f.azArgs n z

/-- The branch of `appendArgument` that makes room. -/
def growArgs (pa : Ptr) : Prog w Unit := do
  let f ← loadArgs pa
  if f.nArgs = f.nMaxArgs then do
    setArgs pa fun f => { f with nMaxArgs := f.nMaxArgs * 2 }
    let azArgs ← realloc A f.azArgs fun
      | .array b => .array (b.realloc (w * (f.nMaxArgs * 2) + 1))
      | c => c
    setArgs pa fun f => { f with azArgs := azArgs }
  else assert (f.nArgs < f.nMaxArgs)

/-- `appendArgument(pa, zArg)` -/
def appendArgument (pa zArg : Ptr) : Prog w Unit := do
  assert (pa ≠ 0)
  growArgs A pa
  let f ← loadArgs pa
  let s ← loadChars zArg
  let z ← strdup A s
  storeSlot f.azArgs f.nArgs z
  setArgs pa fun f => { f with nArgs := f.nArgs + 1 }
  storeSlot f.azArgs (f.nArgs + 1) 0

/-- The loop of `destroyArguments`, from `i` on. -/
def destroyArgumentsLoop (pa : Ptr) : Nat → Nat → Prog w Unit
  | 0, _ => pure ()
  | n + 1, i => do
    let f ← loadArgs pa
    let q ← loadSlot f.azArgs i
    whenNonNull q do
      free q
      storeSlot f.azArgs i 0
    destroyArgumentsLoop pa n (i + 1)

/-- `destroyArguments(pa)` -/
def destroyArguments (pa : Ptr) : Prog w Unit := do
  let f ← loadArgs pa
  destroyArgumentsLoop pa f.nArgs 0
  let f ← loadArgs pa
  free f.azArgs
  free pa

/-! ### Redirects and commands -/

/-- `createRedirect(fType, p, prNext)`, for a file whose name is at `p`. -/
def createRedirectFile (fType : FileType) (p prNext : Ptr) : Prog w Ptr := do
  let pr ← malloc A (.redirect ⟨.file fType, 0, 0⟩)
  let s ← loadChars p
  let z ← strdup A s
  setRedirect pr fun f => { f with u := z }
  setRedirect pr fun f => { f with prNext := prNext }
  pure pr

/-- `createRedirect(fType, p, prNext)`, for the command `p`. -/
def createRedirectPipe (fType : PipeType) (p prNext : Ptr) : Prog w Ptr := do
  let pr ← malloc A (.redirect ⟨.pipe fType, 0, 0⟩)
  setRedirect pr fun f => { f with u := p }
  setRedirect pr fun f => { f with prNext := prNext }
  pure pr

/-- The loop of `appendRedirect`. -/
def appendRedirectLoop : Nat → Ptr → Ptr → Prog w Unit
  | 0, _, _ => failure
  | n + 1, pr1, pr2 => do
    let f ← loadRedirect pr1
    if f.prNext = 0 then setRedirect pr1 fun f => { f with prNext := pr2 }
    else appendRedirectLoop n f.prNext pr2

/-- `appendRedirect(pr1, pr2)` -/
def appendRedirect (pr1 pr2 : Ptr) : Prog w Unit := do
  let n ← size
  appendRedirectLoop n pr1 pr2

/-- `createCommand(COMMAND, zCommand, pa, fBackground, prRedirects, pcNext)` -/
def createCommand (zCommand pa : Ptr) (fBackground : Bool) (prRedirects pcNext : Ptr) :
    Prog w Ptr := do
  let pc ← malloc A (.command ⟨0, 0, false, 0, 0⟩)
  let s ← loadChars zCommand
  let z ← strdup A s
  setCommand pc fun _ => ⟨z, pa, fBackground, prRedirects, pcNext⟩
  pure pc

/-- The loop of `appendCommand`. -/
def appendCommandLoop : Nat → Ptr → Ptr → Prog w Unit
  | 0, _, _ => failure
  | n + 1, pc1, pc2 => do
    let f ← loadCommand pc1
    if f.pcNext = 0 then setCommand pc1 fun f => { f with pcNext := pc2 }
    else appendCommandLoop n f.pcNext pc2

/-- `appendCommand(pc1, pc2)` -/
def appendCommand (pc1 pc2 : Ptr) : Prog w Unit := do
  assert (pc1 ≠ 0 ∧ pc2 ≠ 0)
  let n ← size
  appendCommandLoop n pc1 pc2

mutual

/-- `destroyCommand`, to a depth of calls. -/
def destroyCommandUpTo : Nat → Ptr → Prog w Unit
  | 0, _ => failure
  | n + 1, pc => do
    assert (pc ≠ 0)
    let f ← loadCommand pc
    assert (f.zCmd ≠ 0)
    free f.zCmd
    setCommand pc fun f => { f with zCmd := 0 }
    let f ← loadCommand pc
    whenNonNull f.pcNext do
      destroyCommandUpTo n f.pcNext
      setCommand pc fun f => { f with pcNext := 0 }
    let f ← loadCommand pc
    whenNonNull f.prRedirects do
      destroyRedirectUpTo n f.prRedirects
      setCommand pc fun f => { f with prRedirects := 0 }
    let f ← loadCommand pc
    assert (f.pa ≠ 0)
    destroyArguments f.pa
    setCommand pc fun f => { f with pa := 0 }
    free pc

/-- `destroyRedirect`, to a depth of calls. -/
def destroyRedirectUpTo : Nat → Ptr → Prog w Unit
  | 0, _ => failure
  | n + 1, pr => do
    assert (pr ≠ 0)
    let f ← loadRedirect pr
    whenNonNull f.prNext do
      destroyRedirectUpTo n f.prNext
      setRedirect pr fun f => { f with prNext := 0 }
    let f ← loadRedirect pr
    match f.fType with
    | .file _ => free f.u
    | .pipe _ => destroyCommandUpTo n f.u
    free pr

end

/-- `destroyCommand(pc)` -/
def destroyCommand (pc : Ptr) : Prog w Unit := do
  let n ← size
  destroyCommandUpTo n pc

/-! ### Rules for the fields -/

section
variable {γ : Type} {m o : Blocks w} {p : Ptr} {Q : γ → Blocks w → Prop}

/-- Read the string of a block. -/
theorem triple_loadChars {f : String → Prog w γ} {s : String} (hm : m = {(p, .chars s)} + o)
    (h : Triple m (f s) Q) : Triple m (loadChars p >>= f) Q :=
  triple_loadAs hm rfl h

/-- Read the fields of a `struct _command`. -/
theorem triple_loadCommand {f : CommandFields → Prog w γ} {c : CommandFields}
    (hm : m = {(p, .command c)} + o) (h : Triple m (f c) Q) :
    Triple m (loadCommand p >>= f) Q :=
  triple_loadAs hm rfl h

/-- Read the fields of a `struct _redirect`. -/
theorem triple_loadRedirect {f : RedirectFields → Prog w γ} {c : RedirectFields}
    (hm : m = {(p, .redirect c)} + o) (h : Triple m (f c) Q) :
    Triple m (loadRedirect p >>= f) Q :=
  triple_loadAs hm rfl h

/-- Read the fields of a `struct _args`. -/
theorem triple_loadArgs {f : ArgsFields → Prog w γ} {c : ArgsFields}
    (hm : m = {(p, .args c)} + o) (h : Triple m (f c) Q) : Triple m (loadArgs p >>= f) Q :=
  triple_loadAs hm rfl h

/-- Change the fields of a `struct _command`. -/
theorem triple_setCommand {f : Unit → Prog w γ} {c : CommandFields}
    {g : CommandFields → CommandFields} (hm : m = {(p, .command c)} + o)
    (h : Triple ({(p, .command (g c))} + o) (f ()) Q) : Triple m (setCommand p g >>= f) Q := by
  rw [setCommand, bind_assoc]
  exact triple_loadCommand hm (triple_store hm h)

/-- Change the fields of a `struct _redirect`. -/
theorem triple_setRedirect {f : Unit → Prog w γ} {c : RedirectFields}
    {g : RedirectFields → RedirectFields} (hm : m = {(p, .redirect c)} + o)
    (h : Triple ({(p, .redirect (g c))} + o) (f ()) Q) :
    Triple m (setRedirect p g >>= f) Q := by
  rw [setRedirect, bind_assoc]
  exact triple_loadRedirect hm (triple_store hm h)

/-- Change the fields of a `struct _args`. -/
theorem triple_setArgs {f : Unit → Prog w γ} {c : ArgsFields} {g : ArgsFields → ArgsFields}
    (hm : m = {(p, .args c)} + o) (h : Triple ({(p, .args (g c))} + o) (f ()) Q) :
    Triple m (setArgs p g >>= f) Q := by
  rw [setArgs, bind_assoc]
  exact triple_loadArgs hm (triple_store hm h)

/-- Read a slot of `azArgs`. -/
theorem triple_loadSlot {f : Ptr → Prog w γ} {b : Block Ptr w} {i : Nat} {q : Ptr}
    (hm : m = {(p, .array b)} + o) (hq : b.load i = some q) (h : Triple m (f q) Q) :
    Triple m (loadSlot p i >>= f) Q := by
  rw [loadSlot, bind_assoc]
  refine triple_loadAs hm rfl ?_
  simp only [hq, pure_bind]
  exact h

/-- A write to one of the whole slots. -/
theorem triple_storeSlot {f : Unit → Prog w γ} {b : Block Ptr w} {i : Nat} {q : Ptr}
    (hm : m = {(p, .array b)} + o) (hi : i < b.slots)
    (h : ∀ b' : Block Ptr w, b'.slots = b.slots →
      (∀ j, b'.load j = if j = i then some q else b.load j) →
        Triple ({(p, .array b')} + o) (f ()) Q) :
    Triple m (storeSlot p i q >>= f) Q := by
  obtain ⟨b', hb'⟩ := Block.exists_store hi q
  rw [storeSlot, bind_assoc]
  refine triple_loadAs hm rfl ?_
  simp only [hb']
  exact triple_store hm (h b' (Block.store_eq_some hb').2 (Block.load_store hb'))

end

/-! ### Arguments -/

/-- The pointers are to these strings, and `NULL` where there is none. -/
inductive HoldsSlots : List Ptr → List (Option String) → Blocks w → Prop
  | nil : HoldsSlots [] [] 0
  | null {qs : List Ptr} {ss : List (Option String)} {m : Blocks w} (h : HoldsSlots qs ss m) :
    HoldsSlots (0 :: qs) (none :: ss) m
  | chars {q : Ptr} {s : String} {qs : List Ptr} {ss : List (Option String)} {m : Blocks w}
    (hq : q ≠ 0) (h : HoldsSlots qs ss m) :
    HoldsSlots (q :: qs) (some s :: ss) ({(q, .chars s)} + m)

/-- The array holds these pointers, with a `NULL` behind them, and is one that `createArguments`
    has allocated, or that has grown once. -/
structure ArrayHolds (f : ArgsFields) (b : Block Ptr w) (qs : List Ptr) : Prop where
  nArgs : f.nArgs = qs.length
  slots : ∀ i q, qs[i]? = some q → b.load i = some q
  last : b.load qs.length = some 0
  capacity : f.nMaxArgs = 8 ∧ b.slots = 9 ∧ qs.length ≤ 8 ∨
    f.nMaxArgs = 16 ∧ b.slots = 16 ∧ 9 ≤ qs.length

/-- The blocks of a `struct _args`. -/
def HoldsArgs (p : Ptr) (pa : Args) (m : Blocks w) : Prop :=
  p ≠ 0 ∧ ∃ f b qs ms, m = {(p, .args f)} + {(f.azArgs, .array b)} + ms ∧ ArrayHolds f b qs ∧
    HoldsSlots qs (pa.zero :: pa.params.map some) ms

/-- There is a slot for each argument. -/
theorem HoldsSlots.length_eq {qs : List Ptr} {ss : List (Option String)} {m : Blocks w}
    (h : HoldsSlots qs ss m) : qs.length = ss.length := by
  induction h with
  | nil => rfl
  | null _ ih => rw [List.length_cons, List.length_cons, ih]
  | chars _ _ ih => rw [List.length_cons, List.length_cons, ih]

/-- One argument more, in the slot behind the others. -/
theorem HoldsSlots.concat {qs : List Ptr} {ss : List (Option String)} {m : Blocks w}
    (h : HoldsSlots qs ss m) {q : Ptr} (hq : q ≠ 0) (s : String) :
    HoldsSlots (qs ++ [q]) (ss ++ [some s]) (m + {(q, .chars s)}) := by
  induction h with
  | nil =>
    rw [zero_add, ← add_zero {(q, Cell.chars s)}]
    exact .chars hq .nil
  | null _ ih => exact .null ih
  | chars hq' _ ih =>
    rw [add_assoc]
    exact .chars hq' ih

/-- **A new structure** has no arguments. -/
theorem triple_createArguments (hw : 0 < w) :
    Triple 0 (createArguments A : Prog w Ptr) fun p m => HoldsArgs p ⟨none, []⟩ m := by
  have hslots : (Block.calloc (ArgArray.DEFAULT_MAXARGS + 1) 0 : Block Ptr w).slots = 9 :=
    Block.slots_calloc hw _ _
  have hload : ∀ i < 9, (Block.calloc (ArgArray.DEFAULT_MAXARGS + 1) 0 : Block Ptr w).load i =
      some 0 := fun i hi => Block.load_calloc hw hi _
  rw [createArguments]
  refine triple_malloc fun pa hpa => triple_malloc fun azArgs _ => ?_
  refine triple_setArgs (c := ⟨0, 0, 0⟩) (by rw [add_left_comm]) ?_
  refine triple_loadSlot (b := Block.calloc (ArgArray.DEFAULT_MAXARGS + 1) 0) (by
    rw [add_left_comm]) (hload 0 (by decide)) ?_
  refine triple_whenNonNull (fun _ => ?_) fun h => absurd rfl h
  refine triple_storeSlot (b := Block.calloc (ArgArray.DEFAULT_MAXARGS + 1) 0) (by
    rw [add_left_comm]) (by rw [hslots]; decide) fun b hb hbload => triple_pure ?_
  refine ⟨hpa, ⟨1, ArgArray.DEFAULT_MAXARGS, azArgs⟩, b, [0], 0, ?_,
    ⟨rfl, ?_, ?_, Or.inl ⟨rfl, hb.trans hslots, by decide⟩⟩, .null .nil⟩
  · abel
  · intro i q hi
    obtain ⟨hlt, hget⟩ := List.getElem?_eq_some_iff.mp hi
    obtain rfl : i = 0 := by simpa using hlt
    obtain rfl : 0 = q := hget
    rw [hbload, if_neg (by decide), hload 0 (by decide)]
  · rw [hbload]
    exact if_pos rfl

/-- **`setArgument(pa, 0, zArg)`** -/
theorem triple_setArgument {p : Ptr} {pa : Args} {m : Blocks w} (h : HoldsArgs p pa m)
    (s : String) :
    Triple m (setArgument A p 0 s) fun _ m' => HoldsArgs p (Ish.setArgument pa (some s)) m' := by
  obtain ⟨zero, params⟩ := pa
  obtain ⟨hp, f, b, qs, ms, rfl, harray, hslots⟩ := h
  have hpos : 0 < b.slots := by
    rcases harray.capacity with ⟨-, hb, -⟩ | ⟨-, hb, -⟩ <;> omega
  obtain ⟨q, qs, mq, m₀, rfl, hmq, hq, hrest⟩ : ∃ q qs' mq m₀, qs = q :: qs' ∧ ms = mq + m₀ ∧
      (q = 0 ∧ mq = 0 ∨ ∃ s', mq = {(q, Cell.chars s')}) ∧
      HoldsSlots qs' (params.map some) m₀ := by
    cases hslots with
    | null h => exact ⟨_, _, 0, _, rfl, (zero_add _).symm, Or.inl ⟨rfl, rfl⟩, h⟩
    | chars hq h => exact ⟨_, _, _, _, rfl, rfl, Or.inr ⟨_, rfl⟩, h⟩
  subst hmq
  rw [setArgument]
  refine triple_assert hp (triple_loadArgs (c := f) (add_assoc _ _ _) ?_)
  refine triple_assert (Nat.zero_le _) ?_
  refine triple_loadSlot (b := b) (i := 0) (q := q) (o := {(p, .args f)} + (mq + m₀)) (by abel)
    (harray.slots 0 q rfl) ?_
  -- behind the `free` the blocks are those of the others
  have hset : Triple ({(p, .args f)} + {(f.azArgs, .array b)} + m₀) (do
      let z ← strdup A s
      storeSlot f.azArgs 0 z) fun _ m' => HoldsArgs p ⟨some s, params⟩ m' := by
    refine triple_malloc fun z hz => Triple.last ?_
    refine triple_storeSlot (b := b) (o := {(z, .chars s)} + ({(p, .args f)} + m₀)) (by abel)
      hpos fun b' hb' hload => triple_pure ?_
    refine ⟨hp, f, b', z :: qs, {(z, .chars s)} + m₀, by abel, ⟨?_, ?_, ?_, ?_⟩, .chars hz hrest⟩
    · exact harray.nArgs
    · intro i q' hi
      rw [hload]
      cases i with
      | zero => exact (if_pos rfl).trans hi
      | succ i =>
        rw [if_neg (Nat.succ_ne_zero i)]
        exact harray.slots (i + 1) q' hi
    · rw [hload, if_neg (by simp)]
      exact harray.last
    · rw [hb']
      exact harray.capacity
  rcases hq with ⟨rfl, rfl⟩ | ⟨s', rfl⟩
  · refine triple_whenNonNull (fun _ => ?_) fun h => absurd rfl h
    rw [zero_add]
    exact hset
  · have hm : {(p, Cell.args f)} + {(f.azArgs, .array b)} + ({(q, .chars s')} + m₀) =
        {(q, .chars s')} + ({(p, .args f)} + {(f.azArgs, .array b)} + m₀) := by abel
    refine triple_whenNonNull (fun h0 => ?_) fun _ => triple_free hm hset
    -- a block is not at `NULL`
    intro other h₁ h₁m
    rw [hm, add_assoc] at h₁m
    exact absurd h0 (mem_fst_of_contents h₁m).2

/-- The array with room for one more pointer and the terminator behind it. -/
structure HasRoom (f : ArgsFields) (b : Block Ptr w) (qs : List Ptr) : Prop where
  nArgs : f.nArgs = qs.length
  slots : ∀ i q, qs[i]? = some q → b.load i = some q
  room : qs.length + 1 < b.slots
  capacity : f.nMaxArgs = 8 ∧ b.slots = 9 ∧ qs.length + 1 ≤ 8 ∨
    f.nMaxArgs = 16 ∧ b.slots = 16 ∧ 9 ≤ qs.length + 1

/-- Making room keeps the pointers. -/
theorem triple_growArgs (hw : 1 < w) {γ : Type} {m o : Blocks w} {p : Ptr}
    {Q : γ → Blocks w → Prop} {k : Unit → Prog w γ} {f : ArgsFields} {b : Block Ptr w}
    {qs : List Ptr} (hm : m = {(p, .args f)} + {(f.azArgs, .array b)} + o)
    (harray : ArrayHolds f b qs) (hlen : qs.length < 15)
    (h : ∀ f' (b' : Block Ptr w), HasRoom f' b' qs →
      Triple ({(p, .args f')} + {(f'.azArgs, .array b')} + o) (k ()) Q) :
    Triple m (growArgs A p >>= k) Q := by
  have hn := harray.nArgs
  subst hm
  rw [growArgs, bind_assoc]
  refine triple_loadArgs (add_assoc _ _ _) ?_
  by_cases hfull : f.nArgs = f.nMaxArgs
  · -- the ninth argument: 16 slots and a byte
    obtain ⟨hmax, hslots⟩ : f.nMaxArgs = 8 ∧ b.slots = 9 := by
      rcases harray.capacity with ⟨hmax, hslots, -⟩ | ⟨hmax, -, -⟩
      · exact ⟨hmax, hslots⟩
      · omega
    have hnew : (b.realloc (w * (f.nMaxArgs * 2) + 1)).slots = 16 := by
      rw [Block.slots_realloc_add _ _ hw, hmax]
    simp only [if_pos hfull, bind_assoc]
    refine triple_setArgs (c := f) (add_assoc _ _ _) ?_
    refine triple_realloc (c := .array b)
      (o := {(p, .args { f with nMaxArgs := f.nMaxArgs * 2 })} + o) (by abel) fun arr _ => ?_
    refine triple_setArgs (c := { f with nMaxArgs := f.nMaxArgs * 2 })
      (o := {(arr, .array (b.realloc (w * (f.nMaxArgs * 2) + 1)))} + o) (by abel) ?_
    rw [← add_assoc]
    refine h _ _ ⟨hn, fun i q hi => ?_, by omega, Or.inr ⟨?_, hnew, by omega⟩⟩
    · obtain ⟨hlt, -⟩ := List.getElem?_eq_some_iff.mp hi
      rw [Block.load_realloc (by omega) (by omega)]
      exact harray.slots i q hi
    · show f.nMaxArgs * 2 = 16
      omega
  · rw [if_neg hfull]
    refine triple_assert ?_ (h f b ⟨hn, harray.slots, ?_, ?_⟩)
    · rcases harray.capacity with ⟨hmax, -, hle⟩ | ⟨hmax, -, -⟩ <;> omega
    · rcases harray.capacity with ⟨hmax, hslots, hle⟩ | ⟨hmax, hslots, -⟩ <;> omega
    · rcases harray.capacity with ⟨hmax, hslots, hle⟩ | ⟨hmax, hslots, hge⟩
      · exact Or.inl ⟨hmax, hslots, by omega⟩
      · exact Or.inr ⟨hmax, hslots, by omega⟩

/-- **`appendArgument(pa, zArg)`** of one of the first 14 parameters; the string is copied. -/
theorem triple_appendArgument (hw : 1 < w) {p : Ptr} {pa : Args} {m : Blocks w}
    (h : HoldsArgs p pa m) (hlen : pa.params.length < 14) (zArg : Ptr) (s : String) :
    Triple (m + {(zArg, .chars s)}) (appendArgument A p zArg) fun _ m' =>
      ∃ m₁, m' = m₁ + {(zArg, .chars s)} ∧ HoldsArgs p (Ish.appendArgument pa s) m₁ := by
  obtain ⟨zero, params⟩ := pa
  obtain ⟨hp, f, b, qs, ms, rfl, harray, hslots⟩ := h
  have hqs : qs.length = params.length + 1 := by
    rw [hslots.length_eq, List.length_cons, List.length_map]
  have hlen' : params.length < 14 := hlen
  rw [appendArgument]
  refine triple_assert hp ?_
  refine triple_growArgs A hw (o := ms + {(zArg, .chars s)}) (add_assoc _ _ _) harray (by omega)
    fun f b hroom => ?_
  refine triple_loadArgs (c := f) (add_assoc _ _ _) ?_
  refine triple_loadChars (s := s)
    (o := {(p, .args f)} + {(f.azArgs, .array b)} + ms) (by abel) ?_
  refine triple_malloc fun z hz => ?_
  have hn := hroom.nArgs
  have hlast := hroom.room
  refine triple_storeSlot (b := b)
    (o := {(z, .chars s)} + ({(p, .args f)} + (ms + {(zArg, .chars s)}))) (by abel)
    (by omega) fun b₁ hb₁ hload₁ => ?_
  refine triple_setArgs (c := f) (o := {(f.azArgs, .array b₁)} +
    ({(z, .chars s)} + (ms + {(zArg, .chars s)}))) (by abel) ?_
  refine Triple.last (triple_storeSlot (b := b₁) (o := {(p, .args { f with nArgs := f.nArgs + 1 })} +
    ({(z, .chars s)} + (ms + {(zArg, .chars s)}))) (by abel) (by omega)
    fun b₂ hb₂ hload₂ => triple_pure ?_)
  refine ⟨{(p, .args { f with nArgs := f.nArgs + 1 })} + {(f.azArgs, .array b₂)} +
    (ms + {(z, .chars s)}), by abel, hp, { f with nArgs := f.nArgs + 1 }, b₂, qs ++ [z],
    ms + {(z, .chars s)}, rfl, ⟨?_, ?_, ?_, ?_⟩, ?_⟩
  · rw [List.length_append, ← hn]
    rfl
  · intro i q hi
    rw [hload₂, hload₁]
    -- the new pointer, or one that was there
    by_cases heq : i = qs.length
    · rw [heq, List.getElem?_concat_length] at hi
      rw [if_neg (by omega), if_pos (by omega), ← hi]
    · have hlt : i < (qs ++ [z]).length := (List.getElem?_eq_some_iff.mp hi).1
      rw [List.length_append, List.length_singleton] at hlt
      rw [if_neg (by omega), if_neg (by omega)]
      rw [List.getElem?_append_left (by omega)] at hi
      exact hroom.slots i q hi
  · rw [hload₂, List.length_append, List.length_singleton, if_pos (by omega)]
  · rw [List.length_append, List.length_singleton, hb₂, hb₁]
    exact hroom.capacity
  · show HoldsSlots (qs ++ [z]) (zero :: (params ++ [s]).map some) _
    rw [List.map_append, ← List.cons_append]
    exact hslots.concat hz s

/-- The loop of `destroyArguments`: the strings from `i` on are freed. -/
theorem triple_destroyArgumentsLoop {γ : Type} {m o : Blocks w} {p : Ptr}
    {Q : γ → Blocks w → Prop} {k : Unit → Prog w γ} {f : ArgsFields} {b : Block Ptr w}
    {qs : List Ptr} {ss : List (Option String)} {ms : Blocks w} (i : Nat)
    (hm : m = {(p, .args f)} + {(f.azArgs, .array b)} + ms + o) (hslots : HoldsSlots qs ss ms)
    (hload : ∀ j q, qs[j]? = some q → b.load (i + j) = some q) (hlt : i + qs.length ≤ b.slots)
    (h : ∀ b' : Block Ptr w, Triple ({(p, .args f)} + {(f.azArgs, .array b')} + o) (k ()) Q) :
    Triple m (destroyArgumentsLoop p qs.length i >>= k) Q := by
  induction hslots generalizing i m b with
  | nil =>
    rw [add_zero] at hm
    subst hm
    exact h b
  | @null qs ss ms hslots ih =>
    rw [List.length_cons] at hlt ⊢
    rw [destroyArgumentsLoop]
    simp only [bind_assoc]
    subst hm
    refine triple_loadArgs (c := f) (o := {(f.azArgs, .array b)} + ms + o) (by abel) ?_
    refine triple_loadSlot (b := b) (q := 0) (o := {(p, .args f)} + ms + o) (by abel)
      (hload 0 0 rfl) ?_
    refine triple_whenNonNull (fun _ => ?_) fun h0 => absurd rfl h0
    refine ih (b := b) (i + 1) rfl (fun j q hj => ?_) (by omega)
    rw [Nat.add_right_comm, Nat.add_assoc]
    exact hload (j + 1) q hj
  | @chars q s qs ss ms hq hslots ih =>
    rw [List.length_cons] at hlt ⊢
    rw [destroyArgumentsLoop]
    simp only [bind_assoc]
    subst hm
    refine triple_loadArgs (c := f) (o := {(f.azArgs, .array b)} + ({(q, .chars s)} + ms) + o)
      (by abel) ?_
    refine triple_loadSlot (b := b) (q := q)
      (o := {(p, .args f)} + ({(q, .chars s)} + ms) + o) (by abel) (hload 0 q rfl) ?_
    refine triple_whenNonNull (fun h0 => absurd h0 hq) fun _ => ?_
    rw [bind_assoc]
    refine triple_free (c := .chars s)
      (o := {(p, .args f)} + {(f.azArgs, .array b)} + ms + o) (by abel) ?_
    refine triple_storeSlot (b := b) (o := {(p, .args f)} + ms + o) (by abel) (by omega)
      fun b' hb' hload' => ?_
    refine ih (b := b') (i + 1) (by abel) (fun j q' hj => ?_) (by omega)
    rw [hload', if_neg (by omega), Nat.add_right_comm, Nat.add_assoc]
    exact hload (j + 1) q' hj

/-- **`destroyArguments(pa)`** frees the blocks of the structure. -/
theorem triple_destroyArguments {γ : Type} {m ma o : Blocks w} {p : Ptr} {pa : Args}
    {Q : γ → Blocks w → Prop} {k : Unit → Prog w γ} (hm : m = ma + o) (hargs : HoldsArgs p pa ma)
    (h : Triple o (k ()) Q) : Triple m (destroyArguments p >>= k) Q := by
  obtain ⟨hp, f, b, qs, ms, rfl, harray, hslots⟩ := hargs
  have hlt : qs.length ≤ b.slots := by
    rcases harray.capacity with ⟨-, hb, hle⟩ | ⟨-, hb, -⟩
    · omega
    · -- the terminator is in a slot
      have hlast := harray.last
      rw [Block.load] at hlast
      by_contra hge
      rw [if_neg (by omega)] at hlast
      exact absurd hlast (by simp)
  rw [destroyArguments]
  simp only [bind_assoc]
  subst hm
  refine triple_loadArgs (c := f) (o := {(f.azArgs, .array b)} + ms + o) (by abel) ?_
  rw [harray.nArgs]
  refine triple_destroyArgumentsLoop 0 rfl hslots (fun j q hj => ?_) (by omega) fun b' => ?_
  · rw [Nat.zero_add]
    exact harray.slots j q hj
  · refine triple_loadArgs (c := f) (o := {(f.azArgs, .array b')} + o) (by abel) ?_
    refine triple_free (c := .array b') (o := {(p, .args f)} + o) (by abel) ?_
    exact triple_free rfl h

/-! ### Trees -/

mutual

/-- The blocks of a tree, from the pointer to it on; all of them are apart. -/
def HoldsCommand : Ptr → Command → Blocks w → Prop
  | p, .null, m => p = 0 ∧ m = 0
  | p, .mk z pa b r n, m => p ≠ 0 ∧ ∃ f ma mr mn,
      m = {(p, .command f)} + {(f.zCmd, .chars z)} + ma + mr + mn ∧ f.zCmd ≠ 0 ∧
        f.fBackground = b ∧ HoldsArgs f.pa pa ma ∧ HoldsRedirect f.prRedirects r mr ∧
        HoldsCommand f.pcNext n mn

def HoldsRedirect : Ptr → Redirect → Blocks w → Prop
  | p, .null, m => p = 0 ∧ m = 0
  | p, .file t s n, m => p ≠ 0 ∧ ∃ f mn,
      m = {(p, .redirect f)} + {(f.u, .chars s)} + mn ∧ f.fType = .file t ∧
        HoldsRedirect f.prNext n mn
  | p, .pipe t c n, m => p ≠ 0 ∧ ∃ f mc mn,
      m = {(p, .redirect f)} + mc + mn ∧ f.fType = .pipe t ∧ f.u ≠ 0 ∧ HoldsCommand f.u c mc ∧
        HoldsRedirect f.prNext n mn

end

/-- Only `NULL` is a `NULL` pointer. -/
theorem HoldsCommand.eq_null {p : Ptr} {pc : Command} {m : Blocks w} (h : HoldsCommand p pc m) :
    p = 0 ↔ pc = .null := by
  cases pc with
  | null => exact iff_of_true h.1 rfl
  | mk z pa b r n => exact iff_of_false h.1 (by simp)

/-- `NULL` is the empty list. -/
theorem HoldsRedirect.eq_null {p : Ptr} {r : Redirect} {m : Blocks w} (h : HoldsRedirect p r m) :
    p = 0 ↔ r = .null := by
  cases r with
  | null => exact iff_of_true h.1 rfl
  | file t s n => exact iff_of_false h.1 (by simp)
  | pipe t c n => exact iff_of_false h.1 (by simp)

mutual

/-- The depth of the calls that destroy a tree. -/
def commandDepth : Command → Nat
  | .null => 0
  | .mk _ _ _ r n => max (redirectDepth r) (commandDepth n) + 1

def redirectDepth : Redirect → Nat
  | .null => 0
  | .file _ _ n => redirectDepth n + 1
  | .pipe _ c n => max (commandDepth c) (redirectDepth n) + 1

end

mutual

/-- Each call has a block of its own. -/
theorem HoldsCommand.depth_le {p : Ptr} {pc : Command} {m : Blocks w} (h : HoldsCommand p pc m) :
    commandDepth pc ≤ m.card := by
  match pc, h with
  | .null, _ => exact Nat.zero_le _
  | .mk z pa b r n, ⟨_, f, ma, mr, mn, hm, _, _, _, hr, hn⟩ =>
    have hdepth := HoldsRedirect.depth_le hr
    have hdepth' := HoldsCommand.depth_le hn
    rw [commandDepth, hm]
    simp only [Multiset.card_add, Multiset.card_singleton]
    omega

/-- A tree is no deeper than it has blocks, so these bound the recursion. -/
theorem HoldsRedirect.depth_le {p : Ptr} {r : Redirect} {m : Blocks w} (h : HoldsRedirect p r m) :
    redirectDepth r ≤ m.card := by
  match r, h with
  | .null, _ => exact Nat.zero_le _
  | .file t s n, ⟨_, f, mn, hm, _, hn⟩ =>
    have hdepth := HoldsRedirect.depth_le hn
    rw [redirectDepth, hm]
    simp only [Multiset.card_add, Multiset.card_singleton]
    omega
  | .pipe t c n, ⟨_, f, mc, mn, hm, _, _, hc, hn⟩ =>
    have hdepth := HoldsCommand.depth_le hc
    have hdepth' := HoldsRedirect.depth_le hn
    rw [redirectDepth, hm]
    simp only [Multiset.card_add, Multiset.card_singleton]
    omega

end

/-! ### Building -/

section
variable {γ : Type} {m o : Blocks w} {Q : γ → Blocks w → Prop}

/-- **`createRedirect`** for a file: the name is copied. -/
theorem triple_createRedirectFile {k : Ptr → Prog w γ} {p : Ptr} {s : String} (t : FileType)
    (hm : m = {(p, .chars s)} + o)
    (h : ∀ q m', HoldsRedirect q (Ish.createRedirectFile t s .null) m' →
      Triple (m' + {(p, .chars s)} + o) (k q) Q) :
    Triple m (createRedirectFile A t p 0 >>= k) Q := by
  rw [createRedirectFile]
  simp only [bind_assoc]
  subst hm
  refine triple_malloc fun pr hpr => ?_
  refine triple_loadChars (s := s) (o := {(pr, .redirect ⟨.file t, 0, 0⟩)} + o) (by abel) ?_
  refine triple_malloc fun z hz => ?_
  refine triple_setRedirect (c := ⟨.file t, 0, 0⟩)
    (o := {(z, .chars s)} + ({(p, .chars s)} + o)) (by abel) ?_
  refine triple_setRedirect (c := ⟨.file t, z, 0⟩) rfl ?_
  rw [pure_bind]
  have hnew : {(pr, Cell.redirect ⟨.file t, z, 0⟩)} + ({(z, .chars s)} + ({(p, .chars s)} + o)) =
      {(pr, Cell.redirect ⟨.file t, z, 0⟩)} + {(z, .chars s)} + {(p, .chars s)} + o := by abel
  rw [hnew]
  exact h pr _ ⟨hpr, ⟨.file t, z, 0⟩, 0, (add_zero _).symm, rfl, rfl, rfl⟩

/-- **`createRedirect`** for a pipe: the command is taken over. -/
theorem triple_createRedirectPipe {k : Ptr → Prog w γ} {p : Ptr} {pc : Command} {mc : Blocks w}
    (t : PipeType) (hm : m = mc + o) (hc : HoldsCommand p pc mc) (hne : pc ≠ .null)
    (h : ∀ q m', HoldsRedirect q (Ish.createRedirectPipe t pc .null) m' →
      Triple (m' + o) (k q) Q) :
    Triple m (createRedirectPipe A t p 0 >>= k) Q := by
  rw [createRedirectPipe]
  simp only [bind_assoc]
  subst hm
  refine triple_malloc fun pr hpr => ?_
  refine triple_setRedirect (c := ⟨.pipe t, 0, 0⟩) rfl ?_
  refine triple_setRedirect (c := ⟨.pipe t, p, 0⟩) rfl ?_
  rw [pure_bind, ← add_assoc]
  exact h pr _ ⟨hpr, ⟨.pipe t, p, 0⟩, mc, 0, (add_zero _).symm, rfl,
    fun h0 => hne (hc.eq_null.mp h0), hc, rfl, rfl⟩

/-- **`createCommand`**: the name is copied, the rest taken over. -/
theorem triple_createCommand {k : Ptr → Prog w γ} {p pa pr : Ptr} {z : String} {a : Args}
    {r : Redirect} {ma mr : Blocks w} (hm : m = {(p, .chars z)} + (ma + mr) + o)
    (ha : HoldsArgs pa a ma) (hr : HoldsRedirect pr r mr)
    (h : ∀ q m', HoldsCommand q (Ish.createCommand z a false r .null) m' →
      Triple (m' + {(p, .chars z)} + o) (k q) Q) :
    Triple m (createCommand A p pa false pr 0 >>= k) Q := by
  rw [createCommand]
  simp only [bind_assoc]
  subst hm
  refine triple_malloc fun pc hpc => ?_
  refine triple_loadChars (s := z)
    (o := {(pc, .command ⟨0, 0, false, 0, 0⟩)} + (ma + mr) + o) (by abel) ?_
  refine triple_malloc fun q hq => ?_
  refine triple_setCommand (c := ⟨0, 0, false, 0, 0⟩)
    (o := {(q, .chars z)} + ({(p, .chars z)} + (ma + mr) + o)) (by abel) ?_
  rw [pure_bind]
  have hnew : {(pc, Cell.command ⟨q, pa, false, pr, 0⟩)} +
        ({(q, .chars z)} + ({(p, .chars z)} + (ma + mr) + o)) =
      {(pc, Cell.command ⟨q, pa, false, pr, 0⟩)} + {(q, .chars z)} + ma + mr + 0 +
        {(p, .chars z)} + o := by abel
  rw [hnew]
  exact h pc _ ⟨hpc, ⟨q, pa, false, pr, 0⟩, ma, mr, 0, rfl, hq, rfl, ha, hr, rfl, rfl⟩

/-- The loop of `appendRedirect`. -/
theorem triple_appendRedirectLoop {k : Unit → Prog w γ} {n : Nat} {p q : Ptr} {r₁ r₂ : Redirect}
    {m₁ m₂ : Blocks w} (hm : m = m₁ + m₂ + o) (h₁ : HoldsRedirect p r₁ m₁) (hne : r₁ ≠ .null)
    (h₂ : HoldsRedirect q r₂ m₂) (hn : redirectDepth r₁ ≤ n)
    (h : ∀ m', HoldsRedirect p (Ish.appendRedirect r₁ r₂) m' → Triple (m' + o) (k ()) Q) :
    Triple m (appendRedirectLoop n p q >>= k) Q := by
  induction r₁ using Redirect.nextInduction generalizing m o n p m₁ with
  | null => exact absurd rfl hne
  | file t s r ih =>
    obtain ⟨hp, f, mn, rfl, htype, hnext⟩ := h₁
    rw [redirectDepth] at hn
    obtain ⟨n, rfl⟩ : ∃ j, n = j + 1 := ⟨n - 1, by omega⟩
    rw [appendRedirectLoop, bind_assoc]
    subst hm
    refine triple_loadRedirect (c := f) (o := {(f.u, .chars s)} + mn + m₂ + o) (by abel) ?_
    by_cases hnull : f.prNext = 0
    · obtain rfl := hnext.eq_null.mp hnull
      obtain ⟨-, rfl⟩ := hnext
      rw [if_pos hnull]
      refine triple_setRedirect (c := f) (o := {(f.u, .chars s)} + m₂ + o) (by abel) ?_
      rw [← add_assoc, ← add_assoc]
      exact h _ ⟨hp, { f with prNext := q }, m₂, rfl, htype, h₂⟩
    · rw [if_neg hnull]
      refine ih (o := {(p, .redirect f)} + {(f.u, .chars s)} + o) (by abel) hnext
        (fun h0 => hnull (hnext.eq_null.mpr h0)) (by omega) fun m' hm' => ?_
      have hsum : m' + ({(p, .redirect f)} + {(f.u, .chars s)} + o) =
          {(p, .redirect f)} + {(f.u, .chars s)} + m' + o := by abel
      rw [hsum]
      exact h _ ⟨hp, f, m', rfl, htype, hm'⟩
  | pipe t c r ih =>
    obtain ⟨hp, f, mc, mn, rfl, htype, hu, hc, hnext⟩ := h₁
    rw [redirectDepth] at hn
    obtain ⟨n, rfl⟩ : ∃ j, n = j + 1 := ⟨n - 1, by omega⟩
    rw [appendRedirectLoop, bind_assoc]
    subst hm
    refine triple_loadRedirect (c := f) (o := mc + mn + m₂ + o) (by abel) ?_
    by_cases hnull : f.prNext = 0
    · obtain rfl := hnext.eq_null.mp hnull
      obtain ⟨-, rfl⟩ := hnext
      rw [if_pos hnull]
      refine triple_setRedirect (c := f) (o := mc + m₂ + o) (by abel) ?_
      rw [← add_assoc, ← add_assoc]
      exact h _ ⟨hp, { f with prNext := q }, mc, m₂, rfl, htype, hu, hc, h₂⟩
    · rw [if_neg hnull]
      refine ih (o := {(p, .redirect f)} + mc + o) (by abel) hnext
        (fun h0 => hnull (hnext.eq_null.mpr h0)) (by omega) fun m' hm' => ?_
      have hsum : m' + ({(p, .redirect f)} + mc + o) =
          {(p, .redirect f)} + mc + m' + o := by abel
      rw [hsum]
      exact h _ ⟨hp, f, mc, m', rfl, htype, hu, hc, hm'⟩

/-- **`appendRedirect`** links the second list behind the first. -/
theorem triple_appendRedirect {k : Unit → Prog w γ} {p q : Ptr} {r₁ r₂ : Redirect}
    {m₁ m₂ : Blocks w} (hm : m = m₁ + m₂ + o) (h₁ : HoldsRedirect p r₁ m₁) (hne : r₁ ≠ .null)
    (h₂ : HoldsRedirect q r₂ m₂)
    (h : ∀ m', HoldsRedirect p (Ish.appendRedirect r₁ r₂) m' → Triple (m' + o) (k ()) Q) :
    Triple m (appendRedirect p q >>= k) Q := by
  rw [appendRedirect, bind_assoc]
  refine triple_size fun n hn => ?_
  have hdepth := h₁.depth_le
  rw [hm, Multiset.card_add, Multiset.card_add] at hn
  exact triple_appendRedirectLoop hm h₁ hne h₂ (by omega) h

/-- The loop of `appendCommand`. -/
theorem triple_appendCommandLoop {k : Unit → Prog w γ} {n : Nat} {p q : Ptr} {pc₁ pc₂ : Command}
    {m₁ m₂ : Blocks w} (hm : m = m₁ + m₂ + o) (h₁ : HoldsCommand p pc₁ m₁) (hne : pc₁ ≠ .null)
    (h₂ : HoldsCommand q pc₂ m₂) (hn : commandDepth pc₁ ≤ n)
    (h : ∀ m', HoldsCommand p (Ish.appendCommand pc₁ pc₂) m' → Triple (m' + o) (k ()) Q) :
    Triple m (appendCommandLoop n p q >>= k) Q := by
  induction pc₁ using Command.nextInduction generalizing m o n p m₁ with
  | null => exact absurd rfl hne
  | mk z pa b r next ih =>
    obtain ⟨hp, f, ma, mr, mn, rfl, hz, hb, ha, hr, hnext⟩ := h₁
    rw [commandDepth] at hn
    obtain ⟨n, rfl⟩ : ∃ j, n = j + 1 := ⟨n - 1, by omega⟩
    rw [appendCommandLoop, bind_assoc]
    subst hm
    refine triple_loadCommand (c := f) (o := {(f.zCmd, .chars z)} + ma + mr + mn + m₂ + o)
      (by abel) ?_
    by_cases hnull : f.pcNext = 0
    · obtain rfl := hnext.eq_null.mp hnull
      obtain ⟨-, rfl⟩ := hnext
      rw [if_pos hnull]
      refine triple_setCommand (c := f) (o := {(f.zCmd, .chars z)} + ma + mr + m₂ + o)
        (by abel) ?_
      rw [← add_assoc, ← add_assoc, ← add_assoc, ← add_assoc]
      exact h _ ⟨hp, { f with pcNext := q }, ma, mr, m₂, rfl, hz, hb, ha, hr, h₂⟩
    · rw [if_neg hnull]
      refine ih (o := {(p, .command f)} + {(f.zCmd, .chars z)} + ma + mr + o) (by abel) hnext
        (fun h0 => hnull (hnext.eq_null.mpr h0)) (by omega) fun m' hm' => ?_
      have hsum : m' + ({(p, .command f)} + {(f.zCmd, .chars z)} + ma + mr + o) =
          {(p, .command f)} + {(f.zCmd, .chars z)} + ma + mr + m' + o := by abel
      rw [hsum]
      exact h _ ⟨hp, f, ma, mr, m', rfl, hz, hb, ha, hr, hm'⟩

/-- **`appendCommand`** does so for commands. -/
theorem triple_appendCommand {k : Unit → Prog w γ} {p q : Ptr} {pc₁ pc₂ : Command}
    {m₁ m₂ : Blocks w} (hm : m = m₁ + m₂ + o) (h₁ : HoldsCommand p pc₁ m₁) (hne : pc₁ ≠ .null)
    (h₂ : HoldsCommand q pc₂ m₂) (hne₂ : pc₂ ≠ .null)
    (h : ∀ m', HoldsCommand p (Ish.appendCommand pc₁ pc₂) m' → Triple (m' + o) (k ()) Q) :
    Triple m (appendCommand p q >>= k) Q := by
  rw [appendCommand, bind_assoc]
  refine triple_assert ⟨fun h0 => hne (h₁.eq_null.mp h0), fun h0 => hne₂ (h₂.eq_null.mp h0)⟩ ?_
  rw [bind_assoc]
  refine triple_size fun n hn => ?_
  have hdepth := h₁.depth_le
  rw [hm, Multiset.card_add, Multiset.card_add] at hn
  exact triple_appendCommandLoop hm h₁ hne h₂ (by omega) h

end

/-! ### Destroying -/

mutual

/-- `destroyCommand` frees the tree. -/
theorem triple_destroyCommandUpTo {γ : Type} {m o mc : Blocks w} {Q : γ → Blocks w → Prop}
    {k : Unit → Prog w γ} {n : Nat} {p : Ptr} {pc : Command} (hm : m = mc + o)
    (hc : HoldsCommand p pc mc) (hne : pc ≠ .null) (hn : commandDepth pc ≤ n)
    (h : Triple o (k ()) Q) : Triple m (destroyCommandUpTo n p >>= k) Q := by
  match pc, hc, hn with
  | .null, _, _ => exact absurd rfl hne
  | .mk z pa b r next, ⟨hp, f, ma, mr, mn, hmc, hz, hb, ha, hr, hnext⟩, hn =>
    rw [commandDepth] at hn
    obtain ⟨n, rfl⟩ : ∃ j, n = j + 1 := ⟨n - 1, by omega⟩
    subst hm hmc
    rw [destroyCommandUpTo]
    simp only [bind_assoc]
    refine triple_assert hp ?_
    refine triple_loadCommand (c := f) (o := {(f.zCmd, .chars z)} + ma + mr + mn + o)
      (by abel) ?_
    refine triple_assert hz ?_
    refine triple_free (c := .chars z) (o := {(p, .command f)} + ma + mr + mn + o)
      (by abel) ?_
    refine triple_setCommand (c := f) (o := ma + mr + mn + o) (by abel) ?_
    refine triple_loadCommand rfl ?_
    -- what is left to do when the commands behind this one are destroyed
    have hredirects : Triple ({(p, .command ⟨0, f.pa, f.fBackground, f.prRedirects, 0⟩)} +
        (ma + mr + o)) (do
          let f ← loadCommand p
          whenNonNull f.prRedirects do
            destroyRedirectUpTo n f.prRedirects
            setCommand p fun f => { f with prRedirects := 0 }
          let f ← loadCommand p
          assert (f.pa ≠ 0)
          destroyArguments f.pa
          setCommand p fun f => { f with pa := 0 }
          free p
          k ()) Q := by
      refine triple_loadCommand rfl ?_
      have hargs : Triple ({(p, .command ⟨0, f.pa, f.fBackground, 0, 0⟩)} + (ma + o)) (do
          let f ← loadCommand p
          assert (f.pa ≠ 0)
          destroyArguments f.pa
          setCommand p fun f => { f with pa := 0 }
          free p
          k ()) Q := by
        refine triple_loadCommand rfl (triple_assert ha.1 ?_)
        refine triple_destroyArguments
          (o := {(p, .command ⟨0, f.pa, f.fBackground, 0, 0⟩)} + o) (by abel) ha ?_
        exact triple_setCommand rfl (triple_free rfl h)
      refine triple_whenNonNull (fun hnull => ?_) fun hnn => ?_
      · -- there are no redirects
        obtain rfl := hr.eq_null.mp hnull
        obtain ⟨-, rfl⟩ := hr
        rw [add_zero, show f.prRedirects = 0 from hnull]
        exact hargs
      · rw [bind_assoc]
        refine triple_destroyRedirectUpTo
          (o := {(p, .command ⟨0, f.pa, f.fBackground, f.prRedirects, 0⟩)} + (ma + o))
          (by abel) hr (fun h0 => hnn (hr.eq_null.mpr h0)) (by omega) ?_
        exact triple_setCommand rfl hargs
    refine triple_whenNonNull (fun hnull => ?_) fun hnn => ?_
    · obtain rfl := hnext.eq_null.mp hnull
      obtain ⟨-, rfl⟩ := hnext
      rw [add_zero, show f.pcNext = 0 from hnull]
      exact hredirects
    · rw [bind_assoc]
      refine triple_destroyCommandUpTo
        (o := {(p, .command ⟨0, f.pa, f.fBackground, f.prRedirects, f.pcNext⟩)} +
          (ma + mr + o)) (by abel) hnext (fun h0 => hnn (hnext.eq_null.mpr h0)) (by omega) ?_
      exact triple_setCommand rfl hredirects

/-- `destroyRedirect` frees the list. -/
theorem triple_destroyRedirectUpTo {γ : Type} {m o mr : Blocks w} {Q : γ → Blocks w → Prop}
    {k : Unit → Prog w γ} {n : Nat} {p : Ptr} {r : Redirect} (hm : m = mr + o)
    (hr : HoldsRedirect p r mr) (hne : r ≠ .null) (hn : redirectDepth r ≤ n)
    (h : Triple o (k ()) Q) : Triple m (destroyRedirectUpTo n p >>= k) Q := by
  match r, hr, hn with
  | .null, _, _ => exact absurd rfl hne
  | .file t s next, ⟨hp, f, mn, hmr, htype, hnext⟩, hn =>
    rw [redirectDepth] at hn
    obtain ⟨n, rfl⟩ : ∃ j, n = j + 1 := ⟨n - 1, by omega⟩
    subst hm hmr
    rw [destroyRedirectUpTo]
    simp only [bind_assoc]
    refine triple_assert hp ?_
    refine triple_loadRedirect (c := f) (o := {(f.u, .chars s)} + mn + o) (by abel) ?_
    have hfile : Triple ({(p, .redirect ⟨f.fType, f.u, 0⟩)} + ({(f.u, .chars s)} + o)) (loadRedirect p >>=
        fun f => (match f.fType with
          | .file _ => do
            free f.u
            free p
          | .pipe _ => do
            destroyCommandUpTo n f.u
            free p) >>= k) Q := by
      refine triple_loadRedirect rfl ?_
      simp only [htype, bind_assoc]
      refine triple_free (c := .chars s) (o := {(p, .redirect ⟨f.fType, f.u, 0⟩)} + o)
        (by rw [htype]; abel) ?_
      exact triple_free rfl h
    refine triple_whenNonNull (fun hnull => ?_) fun hnn => ?_
    · obtain rfl := hnext.eq_null.mp hnull
      obtain ⟨-, rfl⟩ := hnext
      rw [add_zero, add_assoc]
      have hf : f = ⟨f.fType, f.u, 0⟩ := by rw [← hnull]
      rw [← hf] at hfile
      exact hfile
    · rw [bind_assoc]
      refine triple_destroyRedirectUpTo
        (o := {(p, .redirect f)} + ({(f.u, .chars s)} + o)) (by abel) hnext
        (fun h0 => hnn (hnext.eq_null.mpr h0)) (by omega) ?_
      exact triple_setRedirect rfl hfile
  | .pipe t c next, ⟨hp, f, mc, mn, hmr, htype, hu, hc, hnext⟩, hn =>
    rw [redirectDepth] at hn
    obtain ⟨n, rfl⟩ : ∃ j, n = j + 1 := ⟨n - 1, by omega⟩
    subst hm hmr
    rw [destroyRedirectUpTo]
    simp only [bind_assoc]
    refine triple_assert hp ?_
    refine triple_loadRedirect (c := f) (o := mc + mn + o) (by abel) ?_
    have hpipe : Triple ({(p, .redirect ⟨f.fType, f.u, 0⟩)} + (mc + o)) (loadRedirect p >>=
        fun f => (match f.fType with
          | .file _ => do
            free f.u
            free p
          | .pipe _ => do
            destroyCommandUpTo n f.u
            free p) >>= k) Q := by
      refine triple_loadRedirect rfl ?_
      simp only [htype, bind_assoc]
      refine triple_destroyCommandUpTo (o := {(p, .redirect ⟨f.fType, f.u, 0⟩)} + o)
        (by rw [htype]; abel) hc (fun h0 => hu (hc.eq_null.mpr h0)) (by omega) ?_
      exact triple_free rfl h
    refine triple_whenNonNull (fun hnull => ?_) fun hnn => ?_
    · obtain rfl := hnext.eq_null.mp hnull
      obtain ⟨-, rfl⟩ := hnext
      rw [add_zero, add_assoc]
      have hf : f = ⟨f.fType, f.u, 0⟩ := by rw [← hnull]
      rw [← hf] at hpipe
      exact hpipe
    · rw [bind_assoc]
      refine triple_destroyRedirectUpTo
        (o := {(p, .redirect f)} + (mc + o)) (by abel) hnext
        (fun h0 => hnn (hnext.eq_null.mpr h0)) (by omega) ?_
      exact triple_setRedirect rfl hpipe

end

/-- **`destroyCommand` frees the blocks of the tree**, each once, and touches no other block. -/
theorem triple_destroyCommand {γ : Type} {m o mc : Blocks w} {Q : γ → Blocks w → Prop}
    {k : Unit → Prog w γ} {p : Ptr} {pc : Command} (hm : m = mc + o) (hc : HoldsCommand p pc mc)
    (hne : pc ≠ .null) (h : Triple o (k ()) Q) : Triple m (destroyCommand p >>= k) Q := by
  rw [destroyCommand, bind_assoc]
  refine triple_size fun n hn => ?_
  have hdepth := hc.depth_le
  rw [hm, Multiset.card_add] at hn
  exact triple_destroyCommandUpTo hm hc hne (by omega) h

end OSPortfolio.Ish.OnHeap
