import Mathlib.Data.List.Basic
import OSPortfolio.Lib.Block
import OSPortfolio.Ish.Command

namespace OSPortfolio.Ish

open OSPortfolio.Memory

/-!
# The argument array

`struct _args` with its array, where `Command.lean` has the strings in it.  `nMaxArgs` counts
slots and leaves one for the terminator out; `createArguments` allocates this slot as well,
while the `realloc` of `appendArgument` adds a single byte to the size in bytes.

* `ArgArray` — the structure; `createArguments`, `setArgument`, `appendArgument` on it;
* `HoldsArgs` — the array holds the strings of an `Args`, with `NULL` behind them;
* `HoldsArgs.append`, `appendArgument_full` — one call;
* `keepsArguments_iff` — **the writes stay inside the block for up to 14 arguments**.
-/

/-- What a call can run into: an index outside the block, or an assertion. -/
inductive ArgFault
  | outside (n : Nat)
  | assertion
  deriving DecidableEq, Repr

/-- `struct _args`, with pointers of `w` bytes; a slot holds `NULL` or a copy of a string. -/
structure ArgArray (w : Nat) where
  nArgs : Nat
  nMaxArgs : Nat
  azArgs : Block (Option String) w

namespace ArgArray

variable {w : Nat}

/-- `#define DEFAULT_MAXARGS 8` -/
def DEFAULT_MAXARGS : Nat := 8

/-- `azArgs[n] = zArg` -/
def write (azArgs : Block (Option String) w) (n : Nat) (zArg : Option String) :
    Except ArgFault (Block (Option String) w) :=
  match azArgs.store n zArg with
  | some azArgs => .ok azArgs
  | none => .error (.outside n)

/-- `createArguments(zArg)` -/
def createArguments (zArg : Option String) : Except ArgFault (ArgArray w) := do
  let azArgs := Block.calloc (DEFAULT_MAXARGS + 1) none
  let azArgs ← if azArgs.load 0 ≠ some none then write azArgs 0 zArg else .ok azArgs
  let azArgs ← write azArgs 1 none
  .ok ⟨1, DEFAULT_MAXARGS, azArgs⟩

/-- `setArgument(pa, n, zArg)` -/
def setArgument (pa : ArgArray w) (n : Nat) (zArg : Option String) :
    Except ArgFault (ArgArray w) :=
  if n ≤ pa.nMaxArgs then do
    let azArgs ← write pa.azArgs n zArg
    .ok { pa with azArgs := azArgs }
  else .error .assertion

/-- The branch of `appendArgument` that makes room: `nMaxArgs` and `azArgs` after it. -/
def grow (pa : ArgArray w) : Except ArgFault (Nat × Block (Option String) w) :=
  if pa.nArgs = pa.nMaxArgs then
    let nMaxArgs := pa.nMaxArgs * 2
    .ok (nMaxArgs, pa.azArgs.realloc (w * nMaxArgs + 1))
  else if pa.nArgs < pa.nMaxArgs then .ok (pa.nMaxArgs, pa.azArgs)
  else .error .assertion

/-- `appendArgument(pa, zArg)` -/
def appendArgument (pa : ArgArray w) (zArg : String) : Except ArgFault (ArgArray w) := do
  let (nMaxArgs, azArgs) ← grow pa
  let azArgs ← write azArgs pa.nArgs (some zArg)
  let azArgs ← write azArgs (pa.nArgs + 1) none
  .ok ⟨pa.nArgs + 1, nMaxArgs, azArgs⟩

end ArgArray

/-! ### Calls -/

/-- A call for an argument structure: `appendArgument(pa, zArg)` or
    `setArgument(pa, 0, zArg)`. -/
inductive ArgCall
  | append (zArg : String)
  | set (zArg : Option String)
  deriving DecidableEq, Repr

/-- The call on the array. -/
def ArgCall.apply {w : Nat} (pa : ArgArray w) : ArgCall → Except ArgFault (ArgArray w)
  | .append zArg => pa.appendArgument zArg
  | .set zArg => pa.setArgument 0 zArg

/-- The call on the strings. -/
def ArgCall.meaning (pa : Args) : ArgCall → Args
  | .append zArg => appendArgument pa zArg
  | .set zArg => setArgument pa zArg

/-- `createArguments(zArg)`, and then these calls. -/
def runArgCalls {w : Nat} (zArg : Option String) (calls : List ArgCall) :
    Except ArgFault (ArgArray w) := do
  let pa ← ArgArray.createArguments zArg
  calls.foldlM ArgCall.apply pa

/-- The strings that the calls append. -/
def appended (calls : List ArgCall) : List String :=
  calls.filterMap fun
    | .append zArg => some zArg
    | .set _ => none

/-- Every write of the calls is inside the block, and afterwards the strings that were appended
    stand in `azArgs[1]`, …, `azArgs[nArgs - 1]`, with `NULL` in `azArgs[nArgs]`. -/
def KeepsArguments (w : Nat) (zArg : Option String) (calls : List ArgCall) : Prop :=
  ∃ pa : ArgArray w, runArgCalls zArg calls = .ok pa ∧
    pa.nArgs = (appended calls).length + 1 ∧
    (∀ i s, (appended calls)[i]? = some s → pa.azArgs.load (i + 1) = some (some s)) ∧
    pa.azArgs.load pa.nArgs = some none

/-! ### One call -/

variable {w : Nat}

/-- The array holds the strings of `pa`, with `NULL` behind them. -/
structure HoldsArgs (a : ArgArray w) (pa : Args) : Prop where
  nArgs : a.nArgs = pa.nArgs
  zero : a.azArgs.load 0 = some pa.zero
  params : ∀ i s, pa.params[i]? = some s → a.azArgs.load (i + 1) = some (some s)
  last : a.azArgs.load pa.nArgs = some none

/-- The slots of the block as `createArguments` allocates it, or after it has grown once. -/
inductive Capacity (a : ArgArray w) : Prop
  | initial (hmax : a.nMaxArgs = 8) (hslots : a.azArgs.slots = 9) (hargs : a.nArgs ≤ 8)
  | grown (hmax : a.nMaxArgs = 16) (hslots : a.azArgs.slots = 16) (hargs : 9 ≤ a.nArgs)

theorem write_ok {b : Block (Option String) w} {n : Nat} (h : n < b.slots)
    (zArg : Option String) : ∃ b', ArgArray.write b n zArg = .ok b' ∧ b'.slots = b.slots ∧
      ∀ j, b'.load j = if j = n then some zArg else b.load j := by
  obtain ⟨b', hb'⟩ := Block.exists_store h zArg
  refine ⟨b', by rw [ArgArray.write, hb'], (Block.store_eq_some hb').2, Block.load_store hb'⟩

theorem write_outside {b : Block (Option String) w} {n : Nat} (h : b.slots ≤ n)
    (zArg : Option String) : ArgArray.write b n zArg = .error (.outside n) := by
  have hstore : b.store n zArg = none := if_neg (by omega)
  rw [ArgArray.write, hstore]

/-- **A new structure** has no arguments. -/
theorem createArguments_represents (hw : 0 < w) (zArg : Option String) :
    ∃ a : ArgArray w, ArgArray.createArguments zArg = .ok a ∧
      HoldsArgs a (createArguments zArg) ∧ Capacity a := by
  have hslots : (Block.calloc (ArgArray.DEFAULT_MAXARGS + 1) none :
      Block (Option String) w).slots = 9 := Block.slots_calloc hw _ _
  have hload : ∀ i < 9, (Block.calloc (ArgArray.DEFAULT_MAXARGS + 1) none :
      Block (Option String) w).load i = some none := fun i hi => Block.load_calloc hw hi _
  obtain ⟨b, hb, hbslots, hbload⟩ := write_ok
    (b := Block.calloc (ArgArray.DEFAULT_MAXARGS + 1) none)
    (by rw [hslots]; decide : 1 < _) none
  refine ⟨⟨1, 8, b⟩, ?_, ⟨rfl, ?_, ?_, ?_⟩, .initial rfl (hbslots.trans hslots)
    (by show 1 ≤ 8; decide)⟩
  · -- the array has just been cleared, so its first element is not set
    rw [ArgArray.createArguments, hload 0 (by decide), if_neg (by simp)]
    show (do
      let azArgs ← ArgArray.write _ 1 none
      Except.ok (ArgArray.mk 1 ArgArray.DEFAULT_MAXARGS azArgs)) = _
    rw [hb]
    rfl
  · rw [hbload, if_neg (by decide), hload 0 (by decide)]
    rfl
  · intro i s hs
    exact absurd hs (by simp [createArguments])
  · rw [hbload]
    exact if_pos rfl

/-- **`setArgument(pa, 0, zArg)`** -/
theorem HoldsArgs.set {a : ArgArray w} {pa : Args} (h : HoldsArgs a pa) (hcap : Capacity a)
    (zArg : Option String) : ∃ a', a.setArgument 0 zArg = .ok a' ∧
      HoldsArgs a' (setArgument pa zArg) ∧ Capacity a' := by
  have hpos : 0 < a.azArgs.slots := by
    cases hcap with
    | initial _ hslots _ => omega
    | grown _ hslots _ => omega
  obtain ⟨b, hb, hbslots, hbload⟩ := write_ok hpos zArg
  refine ⟨{ a with azArgs := b }, ?_, ⟨h.nArgs, ?_, ?_, ?_⟩, ?_⟩
  · rw [ArgArray.setArgument, if_pos (Nat.zero_le _), hb]
    rfl
  · rw [hbload]
    exact if_pos rfl
  · intro i s hs
    rw [hbload, if_neg (Nat.succ_ne_zero i)]
    exact h.params i s hs
  · show b.load (pa.params.length + 1) = some none
    rw [hbload, if_neg (Nat.succ_ne_zero _)]
    exact h.last
  · cases hcap with
    | initial hmax hslots hargs => exact .initial hmax (hbslots.trans hslots) hargs
    | grown hmax hslots hargs => exact .grown hmax (hbslots.trans hslots) hargs

/-- Making room keeps what is in the array, and there is a slot for one more argument. -/
theorem Capacity.grow (hw : 1 < w) {a : ArgArray w} (hcap : Capacity a) (hlen : a.nArgs < 16) :
    ∃ max b, a.grow = .ok (max, b) ∧ Capacity (⟨a.nArgs + 1, max, b⟩ : ArgArray w) ∧
      a.nArgs < b.slots ∧ ∀ j ≤ a.nArgs, b.load j = a.azArgs.load j := by
  unfold ArgArray.grow
  cases hcap with
  | initial hmax hslots hargs =>
    by_cases hfull : a.nArgs = 8
    · -- the ninth argument: 16 slots and a byte
      rw [if_pos (by rw [hfull, hmax])]
      have hnew : (a.azArgs.realloc (w * (a.nMaxArgs * 2) + 1)).slots = 16 := by
        rw [Block.slots_realloc_add _ _ hw, hmax]
      refine ⟨_, _, rfl, .grown (by show a.nMaxArgs * 2 = 16; omega) hnew
        (by show 9 ≤ a.nArgs + 1; omega), by omega, fun j hj => ?_⟩
      exact Block.load_realloc (by omega) (by omega)
    · rw [if_neg (by omega), if_pos (by omega)]
      exact ⟨_, _, rfl, .initial hmax hslots (by show a.nArgs + 1 ≤ 8; omega),
        by omega, fun j _ => rfl⟩
  | grown hmax hslots hargs =>
    rw [if_neg (by omega), if_pos (by omega)]
    exact ⟨_, _, rfl, .grown hmax hslots (by show 9 ≤ a.nArgs + 1; omega), by omega,
      fun j _ => rfl⟩

/-- `appendArgument` behind the first of its two writes. -/
theorem appendArgument_of_grow {a : ArgArray w} {max : Nat} {b b₁ : Block (Option String) w}
    {zArg : String} (hgrow : a.grow = .ok (max, b))
    (hb₁ : ArgArray.write b a.nArgs (some zArg) = .ok b₁) :
    a.appendArgument zArg =
      (ArgArray.write b₁ (a.nArgs + 1) none).map fun azArgs => ⟨a.nArgs + 1, max, azArgs⟩ := by
  simp only [ArgArray.appendArgument, hgrow, hb₁, bind, Except.bind]
  cases ArgArray.write b₁ (a.nArgs + 1) none <;> rfl

/-- **`appendArgument(pa, zArg)`** writes inside the block while there are fewer than 14
    parameters. -/
theorem HoldsArgs.append (hw : 1 < w) {a : ArgArray w} {pa : Args} (h : HoldsArgs a pa)
    (hcap : Capacity a) (hlen : pa.params.length < 14) (zArg : String) :
    ∃ a', a.appendArgument zArg = .ok a' ∧ HoldsArgs a' (appendArgument pa zArg) ∧
      Capacity a' := by
  have hn : a.nArgs = pa.params.length + 1 := h.nArgs
  obtain ⟨max, b, hgrow, hcap', hroom, hkeeps⟩ := hcap.grow hw (by omega)
  obtain ⟨b₁, hb₁, hslots₁, hload₁⟩ := write_ok hroom (some zArg)
  have hlast : a.nArgs + 1 < b₁.slots := by
    rw [hslots₁]
    cases hcap' with
    | initial _ hslots hargs => simp only at hslots hargs; omega
    | grown _ hslots _ => simp only at hslots; omega
  obtain ⟨b₂, hb₂, hslots₂, hload₂⟩ := write_ok hlast none
  refine ⟨⟨a.nArgs + 1, max, b₂⟩, ?_, ⟨?_, ?_, ?_, ?_⟩, ?_⟩
  · rw [appendArgument_of_grow hgrow hb₁, hb₂]
    rfl
  · show a.nArgs + 1 = (pa.params ++ [zArg]).length + 1
    rw [hn, List.length_append]
    rfl
  · rw [hload₂, if_neg (by omega), hload₁, if_neg (by omega), hkeeps 0 (by omega)]
    exact h.zero
  · intro i s hs
    have hs' : (pa.params ++ [zArg])[i]? = some s := hs
    obtain ⟨hi, -⟩ := List.getElem?_eq_some_iff.mp hs'
    rw [List.length_append, List.length_singleton] at hi
    show b₂.load (i + 1) = some (some s)
    rw [hload₂, if_neg (by omega), hload₁]
    -- the new string, or one that was there
    by_cases heq : i = pa.params.length
    · rw [if_pos (by omega)]
      rw [heq, List.getElem?_concat_length] at hs'
      rw [Option.some.inj hs']
    · rw [if_neg (by omega), hkeeps (i + 1) (by omega)]
      rw [List.getElem?_append_left (by omega)] at hs'
      exact h.params i s hs'
  · show b₂.load ((pa.params ++ [zArg]).length + 1) = some none
    rw [hload₂, List.length_append, List.length_singleton, if_pos (by omega)]
  · cases hcap' with
    | initial hmax hslots hargs =>
      exact .initial hmax ((hslots₂.trans hslots₁).trans hslots) hargs
    | grown hmax hslots hargs =>
      exact .grown hmax ((hslots₂.trans hslots₁).trans hslots) hargs

/-- The fifteenth string has a slot, and its terminator has none. -/
theorem appendArgument_full (hw : 1 < w) {a : ArgArray w} {pa : Args} (h : HoldsArgs a pa)
    (hcap : Capacity a) (hlen : pa.params.length = 14) (zArg : String) :
    a.appendArgument zArg = .error (.outside 16) := by
  have hn : a.nArgs = 15 := by rw [h.nArgs, Args.nArgs, hlen]
  obtain ⟨max, b, hgrow, hcap', hroom, -⟩ := hcap.grow hw (by omega)
  obtain ⟨b₁, hb₁, hslots₁, -⟩ := write_ok hroom (some zArg)
  have hslots : b.slots = 16 := by
    cases hcap' with
    | initial _ _ hargs => simp only at hargs; omega
    | grown _ hslots _ => exact hslots
  have hb₂ := write_outside (b := b₁) (n := a.nArgs + 1) (by omega) none
  rw [appendArgument_of_grow hgrow hb₁, hb₂, hn]
  rfl

/-! ### Runs of calls -/

/-- What the calls leave in the strings. -/
theorem params_foldl_meaning (calls : List ArgCall) (pa : Args) :
    (calls.foldl ArgCall.meaning pa).params = pa.params ++ appended calls := by
  induction calls generalizing pa with
  | nil => simp [appended]
  | cons call calls ih =>
    rw [List.foldl_cons, ih]
    cases call with
    | append zArg => simp [ArgCall.meaning, appendArgument, appended]
    | set zArg => rfl

/-- The calls on the array follow those on the strings up to the fifteenth `appendArgument`,
    which writes outside the block. -/
theorem foldlM_apply (hw : 1 < w) (calls : List ArgCall) {a : ArgArray w} {pa : Args}
    (h : HoldsArgs a pa) (hcap : Capacity a) (hlen : pa.params.length < 15) :
    (pa.params.length + (appended calls).length < 15 →
      ∃ a', calls.foldlM ArgCall.apply a = .ok a' ∧
        HoldsArgs a' (calls.foldl ArgCall.meaning pa)) ∧
    (15 ≤ pa.params.length + (appended calls).length →
      calls.foldlM ArgCall.apply a = .error (.outside 16)) := by
  induction calls generalizing a pa with
  | nil => exact ⟨fun _ => ⟨a, rfl, h⟩, fun hge => by simp [appended] at hge; omega⟩
  | cons call calls ih =>
    rw [List.foldlM_cons, List.foldl_cons]
    cases call with
    | set zArg =>
      obtain ⟨a', ha', hrep, hcap'⟩ := h.set hcap zArg
      have hset : ArgCall.apply a (.set zArg) = .ok a' := ha'
      rw [hset]
      exact ih hrep hcap' hlen
    | append zArg =>
      have hcount : (appended (.append zArg :: calls)).length = (appended calls).length + 1 := rfl
      rw [hcount]
      by_cases hroom : pa.params.length < 14
      · obtain ⟨a', ha', hrep, hcap'⟩ := h.append hw hcap hroom zArg
        have happend : ArgCall.apply a (.append zArg) = .ok a' := ha'
        have hparams : (ArgCall.meaning pa (.append zArg)).params.length =
            pa.params.length + 1 := List.length_append
        rw [happend]
        obtain ⟨hok, hfull⟩ := @ih a' (ArgCall.meaning pa (.append zArg)) hrep hcap' (by omega)
        exact ⟨fun hlt => hok (by omega), fun hge => hfull (by omega)⟩
      · have hfull : ArgCall.apply a (.append zArg) = .error (.outside 16) :=
          appendArgument_full hw h hcap (by omega) zArg
        rw [hfull]
        exact ⟨fun hlt => by omega, fun _ => rfl⟩

/-- **The array holds the strings of the calls** as long as they are fewer than 15; the
    fifteenth call of `appendArgument` writes its terminator outside the block. -/
theorem runArgCalls_represents (hw : 1 < w) (zArg : Option String) (calls : List ArgCall) :
    ((appended calls).length < 15 → ∃ a : ArgArray w, runArgCalls zArg calls = .ok a ∧
      HoldsArgs a (calls.foldl ArgCall.meaning (createArguments zArg))) ∧
    (15 ≤ (appended calls).length →
      (runArgCalls zArg calls : Except ArgFault (ArgArray w)) = .error (.outside 16)) := by
  obtain ⟨a, ha, hrep, hcap⟩ := createArguments_represents (w := w) (by omega) zArg
  have hnone : (createArguments zArg).params.length = 0 := rfl
  obtain ⟨hok, hfull⟩ := foldlM_apply hw calls hrep hcap (by omega)
  rw [hnone, Nat.zero_add] at hok hfull
  unfold runArgCalls
  rw [ha]
  exact ⟨hok, hfull⟩

/-- **Where the arguments are kept.**  For any sequence of calls, every write is inside the
    block and the strings are in the array exactly if there are fewer than 15 of them. -/
theorem keepsArguments_iff (hw : 1 < w) (zArg : Option String) (calls : List ArgCall) :
    KeepsArguments w zArg calls ↔ (appended calls).length < 15 := by
  obtain ⟨hok, hfull⟩ := runArgCalls_represents hw zArg calls
  constructor
  · rintro ⟨a, ha, -⟩
    by_contra hge
    rw [hfull (by omega)] at ha
    cases ha
  · intro hlt
    obtain ⟨a, ha, hrep⟩ := hok hlt
    have hparams : (calls.foldl ArgCall.meaning (createArguments zArg)).params =
        appended calls := params_foldl_meaning calls _
    refine ⟨a, ha, ?_, ?_, ?_⟩
    · rw [hrep.nArgs, Args.nArgs, hparams]
    · intro i s hs
      exact hrep.params i s (hparams ▸ hs)
    · rw [hrep.nArgs]
      exact hrep.last

/-- The calls for a command `echo` with `n` parameters, the short name last. -/
def echoCalls (n : Nat) : List ArgCall :=
  List.replicate n (.append "a") ++ [.set (some "echo")]

/-- Two parameters are kept. -/
theorem keepsArguments_iff_two :
    KeepsArguments 8 none (echoCalls 2) ↔ (appended (echoCalls 2)).length < 15 :=
  keepsArguments_iff (by decide) none (echoCalls 2)

/-- With 15, `azArgs[16]` is written, and the block has 16 whole slots. -/
theorem fifteen_parameters_overflow :
    (runArgCalls none (echoCalls 15) : Except ArgFault (ArgArray 8)) = .error (.outside 16) ∧
      ¬ KeepsArguments 8 none (echoCalls 15) := by
  have hrun : (runArgCalls none (echoCalls 15) : Except ArgFault (ArgArray 8)) =
      .error (.outside 16) := rfl
  refine ⟨hrun, ?_⟩
  rintro ⟨a, ha, -⟩
  rw [hrun] at ha
  cases ha

end OSPortfolio.Ish
