import OSPortfolio.Ish.ParserHeap

namespace OSPortfolio.Ish.OnHeap

open OSPortfolio.Memory OSPortfolio.LR OSPortfolio.Flex

/-!
# Sessions on the heap

`processCommands` walks along the commands of a line on the heap: `func_aliasing` frees the name
of a command and puts another one in its place, `ExecCommand` reads the command, and at the end
of the line `destroyCommand` frees all of them.

* `readCommand`, `triple_readCommand` — what `ExecCommand` sees at a pointer;
* `funcAliasing`, `executeLine`, `processCommandsHeap`, `sessionHeap` — the loops on the heap;
* `triple_executeLine` — a line is executed as its value says, and nothing of it is left;
* `sessionHeap_spec` — **for every two texts the shell on the heap is the shell on values, with no
  access to a block that is not allocated**, and leaves nothing behind if no line has an error.
-/

variable {w : Nat} (A : Allocator)

/-! ### Reading a command -/

/-- The strings in the slots from `i` on. -/
def readParams (azArgs : Ptr) : Nat → Nat → Prog w (List String)
  | 0, _ => pure []
  | n + 1, i => do
    let q ← loadSlot azArgs i
    let s ← loadChars q
    let ss ← readParams azArgs n (i + 1)
    pure (s :: ss)

/-- The string at `q`, if there is one. -/
def readOptional (q : Ptr) : Prog w (Option String) :=
  if q = 0 then pure none
  else do
    let s ← loadChars q
    pure (some s)

def readArgs (pa : Ptr) : Prog w Args := do
  let f ← loadArgs pa
  let q ← loadSlot f.azArgs 0
  let zero ← readOptional q
  let params ← readParams f.azArgs (f.nArgs - 1) 1
  pure ⟨zero, params⟩

mutual

/-- The command at a pointer, with the commands behind it. -/
def readCommandUpTo : Nat → Ptr → Prog w Command
  | 0, _ => failure
  | n + 1, pc =>
    if pc = 0 then pure .null
    else do
      let f ← loadCommand pc
      let z ← loadChars f.zCmd
      let pa ← readArgs f.pa
      let r ← readRedirectUpTo n f.prRedirects
      let next ← readCommandUpTo n f.pcNext
      pure (.mk z pa f.fBackground r next)

def readRedirectUpTo : Nat → Ptr → Prog w Redirect
  | 0, _ => failure
  | n + 1, pr =>
    if pr = 0 then pure .null
    else do
      let f ← loadRedirect pr
      match f.fType with
      | .file t => do
        let s ← loadChars f.u
        let next ← readRedirectUpTo n f.prNext
        pure (.file t s next)
      | .pipe t => do
        let pc ← readCommandUpTo n f.u
        let next ← readRedirectUpTo n f.prNext
        pure (.pipe t pc next)

end

def readCommand (pc : Ptr) : Prog w Command := do
  let n ← size
  readCommandUpTo (n + 1) pc

section
variable {γ : Type} {m o : Blocks w} {Q : γ → Blocks w → Prop}

/-- Read the parameters behind `azArgs[0]`. -/
theorem triple_readParams {k : List String → Prog w γ} {b : Block Ptr w} {p : Ptr} {qs : List Ptr}
    {ss : List String} {ms : Blocks w} (i : Nat) (hm : m = {(p, .array b)} + ms + o)
    (hslots : HoldsSlots qs (ss.map some) ms)
    (hload : ∀ j q, qs[j]? = some q → b.load (i + j) = some q) (h : Triple m (k ss) Q) :
    Triple m (readParams p ss.length i >>= k) Q := by
  induction ss generalizing i qs ms o k with
  | nil => exact h
  | cons s ss ih =>
    cases hslots with
    | @chars q _ qs _ ms hq hslots =>
      rw [List.length_cons, readParams]
      simp only [bind_assoc, pure_bind]
      refine triple_loadSlot (b := b) (q := q) (o := {(q, .chars s)} + ms + o)
        (by rw [hm]; abel) (hload 0 q rfl) ?_
      refine triple_loadChars (s := s) (o := {(p, .array b)} + ms + o) (by rw [hm]; abel) ?_
      refine ih (i + 1) (o := {(q, .chars s)} + o) (by rw [hm]; abel) hslots
        (fun j q hj => ?_) h
      rw [Nat.add_right_comm, Nat.add_assoc]
      exact hload (j + 1) q hj

/-- Read the arguments. -/
theorem triple_readArgs {k : Args → Prog w γ} {p : Ptr} {pa : Args} {ma : Blocks w}
    (hm : m = ma + o) (hargs : HoldsArgs p pa ma) (h : Triple m (k pa) Q) :
    Triple m (readArgs p >>= k) Q := by
  obtain ⟨zero, params⟩ := pa
  obtain ⟨-, f, b, qs, ms, rfl, harray, hslots⟩ := hargs
  have hlength : qs.length = params.length + 1 := by
    rw [hslots.length_eq, List.length_cons, List.length_map]
  have hn : f.nArgs - 1 = params.length := by
    rw [harray.nArgs]
    omega
  rw [readArgs]
  simp only [bind_assoc, pure_bind]
  refine triple_loadArgs (c := f) (o := {(f.azArgs, .array b)} + ms + o) (by rw [hm]; abel) ?_
  rw [hn]
  cases hslots with
  | @null qs _ ms hslots =>
    refine triple_loadSlot (b := b) (q := 0) (o := {(p, .args f)} + ms + o) (by rw [hm]; abel)
      (harray.slots 0 0 rfl) ?_
    rw [readOptional, if_pos rfl, pure_bind]
    refine triple_readParams 1 (o := {(p, .args f)} + o) (by rw [hm]; abel) hslots
      (fun j q hj => ?_) h
    rw [Nat.add_comm]
    exact harray.slots (j + 1) q hj
  | @chars q s qs _ ms hq hslots =>
    refine triple_loadSlot (b := b) (q := q) (o := {(p, .args f)} + ({(q, .chars s)} + ms) + o)
      (by rw [hm]; abel) (harray.slots 0 q rfl) ?_
    rw [readOptional, if_neg hq]
    simp only [bind_assoc, pure_bind]
    refine triple_loadChars (s := s) (o := {(p, .args f)} + {(f.azArgs, .array b)} + ms + o)
      (by rw [hm]; abel) ?_
    refine triple_readParams 1 (o := {(p, .args f)} + {(q, .chars s)} + o) (by rw [hm]; abel)
      hslots (fun j q hj => ?_) h
    rw [Nat.add_comm]
    exact harray.slots (j + 1) q hj

end

mutual

/-- Read a command. -/
theorem triple_readCommandUpTo {γ : Type} {m o mc : Blocks w} {Q : γ → Blocks w → Prop}
    {k : Command → Prog w γ} {n : Nat} {p : Ptr} {pc : Command} (hm : m = mc + o)
    (hc : HoldsCommand p pc mc) (hn : commandDepth pc < n)
    (h : Triple m (k pc) Q) : Triple m (readCommandUpTo n p >>= k) Q := by
  obtain ⟨n, rfl⟩ : ∃ j, n = j + 1 := ⟨n - 1, by omega⟩
  match pc, hc, hn with
  | .null, hc, _ =>
    rw [readCommandUpTo, if_pos hc.1, pure_bind]
    exact h
  | .mk z pa b r next, ⟨hp, f, ma, mr, mn, hmc, hz, hb, ha, hr, hnext⟩, hn =>
    rw [commandDepth] at hn
    subst hmc
    rw [readCommandUpTo, if_neg hp]
    simp only [bind_assoc, pure_bind]
    refine triple_loadCommand (c := f) (o := {(f.zCmd, .chars z)} + ma + mr + mn + o)
      (by rw [hm]; abel) ?_
    refine triple_loadChars (s := z) (o := {(p, .command f)} + ma + mr + mn + o)
      (by rw [hm]; abel) ?_
    refine triple_readArgs (o := {(p, .command f)} + {(f.zCmd, .chars z)} + mr + mn + o)
      (by rw [hm]; abel) ha ?_
    refine triple_readRedirectUpTo (o := {(p, .command f)} + {(f.zCmd, .chars z)} + ma + mn + o)
      (by rw [hm]; abel) hr (by omega) ?_
    refine triple_readCommandUpTo (o := {(p, .command f)} + {(f.zCmd, .chars z)} + ma + mr + o)
      (by rw [hm]; abel) hnext (by omega) ?_
    rw [hb]
    exact h

/-- Read a redirect list. -/
theorem triple_readRedirectUpTo {γ : Type} {m o mr : Blocks w} {Q : γ → Blocks w → Prop}
    {k : Redirect → Prog w γ} {n : Nat} {p : Ptr} {r : Redirect} (hm : m = mr + o)
    (hr : HoldsRedirect p r mr) (hn : redirectDepth r < n)
    (h : Triple m (k r) Q) : Triple m (readRedirectUpTo n p >>= k) Q := by
  obtain ⟨n, rfl⟩ : ∃ j, n = j + 1 := ⟨n - 1, by omega⟩
  match r, hr, hn with
  | .null, hr, _ =>
    rw [readRedirectUpTo, if_pos hr.1, pure_bind]
    exact h
  | .file t s next, ⟨hp, f, mn, hmr, ht, hnext⟩, hn =>
    rw [redirectDepth] at hn
    subst hmr
    rw [readRedirectUpTo, if_neg hp, bind_assoc]
    refine triple_loadRedirect (c := f) (o := {(f.u, .chars s)} + mn + o) (by rw [hm]; abel) ?_
    simp only [ht, bind_assoc, pure_bind]
    refine triple_loadChars (s := s) (o := {(p, .redirect f)} + mn + o) (by rw [hm]; abel) ?_
    exact triple_readRedirectUpTo (o := {(p, .redirect f)} + {(f.u, .chars s)} + o)
      (by rw [hm]; abel) hnext (by omega) h
  | .pipe t c next, ⟨hp, f, mc, mn, hmr, ht, _, hc, hnext⟩, hn =>
    rw [redirectDepth] at hn
    subst hmr
    rw [readRedirectUpTo, if_neg hp, bind_assoc]
    refine triple_loadRedirect (c := f) (o := mc + mn + o) (by rw [hm]; abel) ?_
    simp only [ht, bind_assoc, pure_bind]
    refine triple_readCommandUpTo (o := {(p, .redirect f)} + mn + o) (by rw [hm]; abel) hc
      (by omega) ?_
    exact triple_readRedirectUpTo (o := {(p, .redirect f)} + mc + o) (by rw [hm]; abel) hnext
      (by omega) h

end

section
variable {γ : Type} {m o : Blocks w} {Q : γ → Blocks w → Prop}

/-- **The command is read back** as it was built. -/
theorem triple_readCommand {k : Command → Prog w γ} {p : Ptr} {pc : Command} {mc : Blocks w}
    (hm : m = mc + o) (hc : HoldsCommand p pc mc) (h : Triple m (k pc) Q) :
    Triple m (readCommand p >>= k) Q := by
  rw [readCommand, bind_assoc]
  refine triple_size fun n hn => ?_
  have hdepth := hc.depth_le
  rw [hm, Multiset.card_add] at hn
  exact triple_readCommandUpTo hm hc (by omega) h

end

/-! ### A line -/

section
variable {σ : Type} (S : ShellParts σ) (interactive : Bool)

/-- `func_aliasing(pc)` -/
def funcAliasing (aliases : List (String × String)) (pc : Ptr) : Prog w Unit := do
  let f ← loadCommand pc
  let z ← loadChars f.zCmd
  match aliases.find? (fun a => a.1 = z) with
  | some a => do
    free f.zCmd
    let q ← strdup A a.2
    setCommand pc fun f => { f with zCmd := q }
  | none => pure ()

/-- The loop over the commands of a line. -/
def executeCommandsUpTo : Nat → Ptr → Option Ret → σ → Prog w (Processed σ)
  | 0, _, _, _ => failure
  | n + 1, pc, ret, s =>
    if pc = 0 then pure ⟨[], ret, s⟩
    else do
      -- what the log has for this call
      let parsed ← readCommand pc
      funcAliasing A (S.aliases s) pc
      let c ← readCommand pc
      let (ret, s) := S.execCommand c interactive s
      if ret = .QUIT then pure ⟨[(parsed, ret)], some ret, s⟩
      else do
        let f ← loadCommand pc
        let rest ← executeCommandsUpTo n f.pcNext (some ret) s
        pure { rest with log := (parsed, ret) :: rest.log }

/-- The commands of a line, and the `destroyCommand` behind them. -/
def executeLine (pc : Ptr) (ret : Option Ret) (s : σ) : Prog w (Processed σ) :=
  if pc = 0 then pure ⟨[], ret, s⟩
  else do
    let n ← size
    let r ← executeCommandsUpTo A S interactive (n + 1) pc ret s
    destroyCommand pc
    pure r

/-- **`func_aliasing`** replaces the name of the command in place. -/
theorem triple_funcAliasing {γ : Type} {m o mc : Blocks w} {Q : γ → Blocks w → Prop}
    {k : Unit → Prog w γ} {p : Ptr} {pc : Command} (aliases : List (String × String))
    (hm : m = mc + o) (hc : HoldsCommand p pc mc) (hne : pc ≠ .null)
    (h : ∀ m', HoldsCommand p (Ish.funcAliasing aliases pc) m' → Triple (m' + o) (k ()) Q) :
    Triple m (funcAliasing A aliases p >>= k) Q := by
  cases pc with
  | null => exact absurd rfl hne
  | mk z pa b r next =>
    have hc' := hc
    obtain ⟨hp, f, ma, mr, mn, rfl, hz, hb, ha, hr, hnext⟩ := hc
    rw [funcAliasing]
    simp only [bind_assoc]
    refine triple_loadCommand (c := f) (o := {(f.zCmd, .chars z)} + ma + mr + mn + o)
      (by rw [hm]; abel) ?_
    refine triple_loadChars (s := z) (o := {(p, .command f)} + ma + mr + mn + o)
      (by rw [hm]; abel) ?_
    rw [Ish.funcAliasing] at h
    cases hfind : aliases.find? (fun a => a.1 = z) with
    | none =>
      rw [hfind] at h
      simp only [pure_bind]
      rw [hm]
      exact h _ hc'
    | some a =>
      rw [hfind] at h
      simp only [bind_assoc]
      refine triple_free (c := .chars z) (o := {(p, .command f)} + ma + mr + mn + o)
        (by rw [hm]; abel) ?_
      refine triple_malloc fun q hq => ?_
      refine triple_setCommand (c := f) (o := {(q, .chars a.2)} + ma + mr + mn + o)
        (by abel) ?_
      rw [← add_assoc, ← add_assoc, ← add_assoc, ← add_assoc]
      exact h _ ⟨hp, { f with zCmd := q }, ma, mr, mn, rfl, hq, hb, ha, hr, hnext⟩

/-- The blocks of a list of commands stay its blocks, with the aliases put in. -/
theorem triple_executeCommandsUpTo {n : Nat} {p : Ptr} {pc : Command} {m : Blocks w}
    (hc : HoldsCommand p pc m) (hn : commandDepth pc < n) (ret : Option Ret) (s : σ) :
    Triple m (executeCommandsUpTo A S interactive n p ret s) fun r m' =>
      r = executeCommands S interactive pc ret s ∧
        ∃ pc', HoldsCommand p pc' m' ∧ (pc' = .null ↔ pc = .null) := by
  induction pc using Command.nextInduction generalizing n p m ret s with
  | null =>
    obtain ⟨n, rfl⟩ : ∃ j, n = j + 1 := ⟨n - 1, by omega⟩
    rw [executeCommandsUpTo, if_pos hc.1]
    exact triple_pure ⟨rfl, .null, hc, Iff.rfl⟩
  | mk z pa b r next ih =>
    obtain ⟨n, rfl⟩ : ∃ j, n = j + 1 := ⟨n - 1, by omega⟩
    rw [commandDepth] at hn
    rw [executeCommandsUpTo, if_neg hc.1]
    refine triple_readCommand (add_zero _).symm hc ?_
    refine triple_funcAliasing A _ (add_zero _).symm hc (by simp) fun m' hm' => ?_
    refine triple_readCommand rfl hm' ?_
    obtain ⟨ret', s', hexec⟩ : ∃ ret' s',
        S.execCommand (Ish.funcAliasing (S.aliases s) (.mk z pa b r next)) interactive s =
          (ret', s') := ⟨_, _, rfl⟩
    rw [add_zero, executeCommands]
    simp only [hexec]
    -- the alias has changed the name only
    obtain ⟨z', haliased⟩ : ∃ z', Ish.funcAliasing (S.aliases s) (.mk z pa b r next) =
        .mk z' pa b r next := by
      rw [Ish.funcAliasing]
      split
      · exact ⟨_, rfl⟩
      · exact ⟨_, rfl⟩
    rw [haliased] at hm'
    by_cases hquit : ret' = .QUIT
    · rw [if_pos hquit, if_pos hquit]
      exact triple_pure ⟨rfl, _, hm', by simp⟩
    · rw [if_neg hquit, if_neg hquit]
      obtain ⟨hp, f, ma, mr, mn, rfl, hz, hb, ha, hr, hnext⟩ := hm'
      refine triple_loadCommand (c := f) (o := {(f.zCmd, .chars z')} + ma + mr + mn) (by abel) ?_
      refine Triple.call (o := {(p, .command f)} + {(f.zCmd, .chars z')} + ma + mr)
        (ih hnext (by omega) (some ret') s') (by abel) fun r' m'' hr' => ?_
      obtain ⟨rfl, pc', hpc', hnull⟩ := hr'
      refine triple_pure ⟨rfl, .mk z' pa b r pc', ?_, by simp⟩
      exact ⟨hp, f, ma, mr, m'', by abel, hz, hb, ha, hr, hpc'⟩

/-- **A line** is executed as its value says, and its blocks are freed. -/
theorem triple_executeLine {p : Ptr} {pc : Command} {m : Blocks w} (hc : HoldsCommand p pc m)
    (ret : Option Ret) (s : σ) :
    Triple m (executeLine A S interactive p ret s) fun r m' =>
      r = executeCommands S interactive pc ret s ∧ m' = 0 := by
  by_cases hp : p = 0
  · obtain rfl := hc.eq_null.mp hp
    rw [executeLine, if_pos hp]
    exact triple_pure ⟨rfl, hc.2⟩
  · have hne : pc ≠ .null := fun h => hp (hc.eq_null.mpr h)
    rw [executeLine, if_neg hp]
    refine triple_size fun n hn => ?_
    have hdepth := hc.depth_le
    refine Triple.call (o := 0) (triple_executeCommandsUpTo A S interactive hc (by omega) ret s)
      (add_zero _).symm fun r m' hr => ?_
    obtain ⟨rfl, pc', hpc', hnull⟩ := hr
    exact triple_destroyCommand rfl hpc' (fun h => hne (hnull.mp h)) (triple_pure ⟨rfl, rfl⟩)

/-! ### The loop -/

variable (requests : Nat → Nat) (fuel : Nat)

/-- The loop `while(1)` of `processCommands`, for at most `lines` lines. -/
def commandLoopHeap : Nat → Option Ret → FrontHeap w → σ → Option (Processed σ × FrontHeap w)
  | 0, _, _, _ => none
  | lines + 1, ret, p, s =>
    let s := beforeLine S interactive s
    (nextCommandHeap A requests fuel p).bind fun p =>
      if p.globals.fEndOfFile then some (⟨[], ret, s⟩, p)
      else
        (executeLine A S interactive p.globals.pcGlobalCommand ret s p.heap).bind fun r =>
          let p := { p with heap := r.2 }
          if r.1.ret = some .QUIT then some (r.1, p)
          else
            (commandLoopHeap lines r.1.ret p r.1.state).map fun rest =>
              ({ rest.1 with log := r.1.log ++ rest.1.log }, rest.2)

/-- `resetParser(pf)` -/
def resetParserHeap (file : List UInt8) (p : FrontHeap w) : FrontHeap w :=
  { p with
    scanner := (p.scanner.1, yyrestart file p.scanner.2)
    globals := { p.globals with fEndOfFile := false } }

/-- `processCommands(pf, interactive)` -/
def processCommandsHeap (file : List UInt8) (ret : Option Ret) (p : FrontHeap w) (s : σ) :
    Option (Processed σ × FrontHeap w) :=
  commandLoopHeap A S interactive requests fuel (file.length + 1) ret (resetParserHeap file p) s

/-- The shell, from its start on: `.ishrc`, if there is one, and then the standard input. -/
def sessionHeap (startUp : σ → σ) (ishrc : Option (List UInt8)) (stdin : List UInt8)
    (ret ret' : Option Ret) (heap : Heap (Cell w)) (s : σ) :
    Option ((Processed σ × Processed σ) × Heap (Cell w)) :=
  let p : FrontHeap w := ⟨(.INITIAL, newBuffer), heap, ⟨0, false⟩⟩
  let first : Option (Processed σ × FrontHeap w) := match ishrc with
    | none => some (⟨[], ret, s⟩, p)
    | some file => processCommandsHeap A S false requests fuel file ret p s
  first.bind fun r =>
    (processCommandsHeap A S interactive requests fuel stdin ret' r.2 (startUp r.1.state)).map
      fun r' => ((r.1, r'.1), r'.2.heap)

/-- No line has a syntax error, and the one that the end of the file ends is empty. -/
def Tidy (lexer : Scanner) : Prop :=
  ∀ i, ∀ l ∈ firstLines i lexer, Parses l ∧ (l.eof = true → l.tokens = [])

/-- The first line is tidy, and so are those behind it. -/
theorem Tidy.rest {lexer : Scanner} (h : Tidy lexer) :
    (Parses (readLine lexer) ∧ ((readLine lexer).eof = true → (readLine lexer).tokens = [])) ∧
      Tidy (readLine lexer).rest :=
  ⟨h 1 _ List.mem_cons_self, fun i l hl => h (i + 1) l (List.mem_cons_of_mem _ hl)⟩

/-- What a part of the session leaves: the state of the values, and blocks that are lost, none of
    them if the text is tidy. -/
structure Leaves (lexer : Scanner) (p p' : FrontHeap w) : Prop where
  heap : ∃ lost, p'.heap.contents = lost + p.heap.contents ∧ (Tidy lexer → lost = 0)
  start : p'.scanner.1 = .INITIAL
  fits : p'.scanner.2.Fits

/-- **The loop** on the heap is the loop on values. -/
theorem commandLoopHeap_eq (hw : 1 < w) {lines : Nat} {lexer : Scanner} (hfits : LinesFit lexer)
    (hparams : LinesShort lexer) (hlines : lexer.text.length < lines) (ret : Option Ret) (s : σ) :
    ∃ fuel, ∀ fuel' ≥ fuel, ∀ p : FrontHeap w, InFront lexer p.scanner →
      p.globals.fEndOfFile = false → ∃ p',
        commandLoopHeap A S interactive requests fuel' lines ret p s =
          some (commandLoop S interactive lines ret lexer s, p') ∧ Leaves lexer p p' := by
  induction lines generalizing lexer ret s with
  | zero => omega
  | succ lines ih =>
    obtain ⟨hline, hrest⟩ := hfits.rest
    obtain ⟨hshortLine, hshortRest⟩ := hparams.rest
    obtain ⟨fuel₁, hcall⟩ := nextCommandHeap_spec A hw requests hline hshortLine
    have hshort : (nextCommand lexer).2.1 = false →
        (nextCommand lexer).2.2.text.length < lexer.text.length := (readLine_spec lexer).shorter
    have hstart : ∀ b, InFront (nextCommand lexer).2.2 b → b.1 = .INITIAL := by
      intro b hb
      rw [← (show (nextCommand lexer).2.2.start = .INITIAL from (reads_readLine lexer).2.2), hb.eq]
    have hbehind : LinesFit (nextCommand lexer).2.2 ∧ LinesShort (nextCommand lexer).2.2 :=
      ⟨hrest, hshortRest⟩
    have htidy : Tidy lexer → Parses (readLine lexer) ∧
        ((nextCommand lexer).2.1 = true → (nextCommand lexer).1 = .null) ∧
        Tidy (nextCommand lexer).2.2 := by
      intro h
      obtain ⟨⟨hparses, hlast⟩, htidy⟩ := h.rest
      refine ⟨hparses, fun heof => ?_, htidy⟩
      show (parseLine (readLine lexer).tokens).getD .null = .null
      rw [hlast heof]
      rfl
    rw [commandLoop]
    generalize nextCommand lexer = r at hcall hshort hstart hbehind htidy ⊢
    obtain ⟨pc, eof, lexer'⟩ := r
    dsimp only at hcall hshort hstart hbehind htidy ⊢
    cases eof with
    | true =>
      refine ⟨fuel₁, fun fuel' hle p hp hpeof => ?_⟩
      obtain ⟨p', m, lost, hp', hfront, heof', hc, hcontents, hlost⟩ := hcall fuel' hle p hp hpeof
      refine ⟨p', ?_, ⟨m + lost, hcontents, fun h => ?_⟩, hstart _ hfront, hfront.fits⟩
      · rw [commandLoopHeap]
        simp only [hp', Option.bind_some, heof', if_true]
      · obtain ⟨hparses, hnull, -⟩ := htidy h
        rw [hnull rfl] at hc
        rw [hc.2, hlost hparses, add_zero]
    | false =>
      -- what a turn does, up to the next one
      have hturn : ∀ fuel' ≥ fuel₁, ∀ p : FrontHeap w, InFront lexer p.scanner →
          p.globals.fEndOfFile = false → ∃ p' heap, nextCommandHeap A requests fuel' p = some p' ∧
            executeLine A S interactive p'.globals.pcGlobalCommand ret
                (beforeLine S interactive s) p'.heap =
              some (executeCommands S interactive pc ret
                (beforeLine S interactive s), heap) ∧
            InFront lexer' p'.scanner ∧ p'.globals.fEndOfFile = false ∧
            ∃ lost, heap.contents = lost + p.heap.contents ∧
              (Parses (readLine lexer) → lost = 0) := by
        intro fuel' hle p hp hpeof
        obtain ⟨p', m, lost, hp', hfront, heof', hc, hcontents, hlost⟩ := hcall fuel' hle p hp hpeof
        obtain ⟨r, heap, m', hexec, ⟨rfl, rfl⟩, hheap⟩ := triple_executeLine A S interactive hc ret
          (beforeLine S interactive s) (lost + p.heap.contents) p'.heap
          (by rw [hcontents, add_assoc])
        rw [zero_add] at hheap
        exact ⟨p', heap, hp', hexec, hfront, heof', lost, hheap, hlost⟩
      generalize executeCommands S interactive pc ret
        (beforeLine S interactive s) = line at hturn ⊢
      by_cases hquit : line.ret = some .QUIT
      · refine ⟨fuel₁, fun fuel' hle p hp hpeof => ?_⟩
        obtain ⟨p', heap, hp', hexec, hfront, heof', lost, hheap, hlost⟩ :=
          hturn fuel' hle p hp hpeof
        refine ⟨{ p' with heap := heap }, ?_, ⟨lost, hheap, fun h => hlost (htidy h).1⟩,
          hstart _ hfront, hfront.fits⟩
        rw [commandLoopHeap]
        simp only [hp', Option.bind_some, heof', Bool.false_eq_true, if_false, hexec, hquit,
          if_true]
      · have hlt := hshort rfl
        obtain ⟨fuel₂, hloop⟩ := ih hbehind.1 hbehind.2 (by omega) line.ret line.state
        refine ⟨max fuel₁ fuel₂, fun fuel' hle p hp hpeof => ?_⟩
        obtain ⟨p', heap, hp', hexec, hfront, heof', lost, hheap, hlost⟩ :=
          hturn fuel' (by omega) p hp hpeof
        obtain ⟨p'', hp'', ⟨lost', hcontents', hlost'⟩, hstart', hfits'⟩ :=
          hloop fuel' (by omega) { p' with heap := heap } hfront heof'
        refine ⟨p'', ?_, ⟨lost' + lost, ?_, fun h => ?_⟩, hstart', hfits'⟩
        · rw [commandLoopHeap]
          simp only [hp', Option.bind_some, heof', Bool.false_eq_true, if_false, hexec, hquit,
            hp'']
          rfl
        · rw [hcontents', hheap, add_assoc]
        · rw [hlost' (htidy h).2.2, hlost (htidy h).1, add_zero]

/-- **One file**, with what is left of the file before in the buffer. -/
theorem processCommandsHeap_eq (hw : 1 < w) {file : List UInt8}
    (hfits : LinesFit ⟨.INITIAL, file.map byteChar⟩)
    (hparams : LinesShort ⟨.INITIAL, file.map byteChar⟩) (ret : Option Ret) (s : σ) :
    ∃ fuel, ∀ fuel' ≥ fuel, ∀ p : FrontHeap w, p.scanner.1 = .INITIAL → 0 < p.scanner.2.size → ∃ p',
      processCommandsHeap A S interactive requests fuel' file ret p s =
          some (processCommands S interactive .INITIAL ret (file.map byteChar) s, p') ∧
        Leaves ⟨.INITIAL, file.map byteChar⟩ p p' := by
  obtain ⟨fuel, hloop⟩ := commandLoopHeap_eq A S interactive requests hw hfits hparams
    (show (file.map byteChar).length < file.length + 1 by simp) ret s
  refine ⟨fuel, fun fuel' hle p hstart hsize => ?_⟩
  have hfront : InFront ⟨.INITIAL, file.map byteChar⟩ (resetParserHeap file p).scanner := by
    refine ⟨⟨⟨hsize, fun h => by cases h⟩, Nat.le_refl 0⟩, ?_⟩
    rw [show (resetParserHeap file p).scanner.1 = p.scanner.1 from rfl, hstart]
    rfl
  have hsame : processCommands S interactive .INITIAL ret (file.map byteChar) s =
      commandLoop S interactive (file.length + 1) ret ⟨.INITIAL, file.map byteChar⟩ s := by
    rw [processCommands, List.length_map]
    rfl
  obtain ⟨p', hp', hheap, hstart', hfits'⟩ := hloop fuel' hle (resetParserHeap file p) hfront rfl
  rw [hsame]
  exact ⟨p', hp', hheap, hstart', hfits'⟩

/-- **A session on the heap.**  For every `.ishrc` and every text on the standard input, every
    division of them into reads and every allocator that does not run out of memory, as long as
    the stack of the parser and the arrays of the arguments have room for each line: no block is
    used that is not allocated or no longer is, `ExecCommand` gets the commands that it gets on
    values, the blocks from before are as they were, and no others are left if both texts are
    tidy. -/
theorem sessionHeap_spec (hw : 1 < w) (startUp : σ → σ) (ishrc : Option (List UInt8))
    (stdin : List UInt8)
    (hishrc : ∀ file ∈ ishrc, LinesFit ⟨.INITIAL, file.map byteChar⟩ ∧
      LinesShort ⟨.INITIAL, file.map byteChar⟩)
    (hstdin : LinesFit ⟨.INITIAL, stdin.map byteChar⟩)
    (hparams : LinesShort ⟨.INITIAL, stdin.map byteChar⟩) (ret ret' : Option Ret) (s : σ) :
    ∃ fuel, ∀ fuel' ≥ fuel, ∀ heap : Heap (Cell w), ∃ heap' lost,
      sessionHeap A S interactive requests fuel' startUp ishrc stdin ret ret' heap s =
          some (session S interactive startUp (ishrc.map (List.map byteChar)) (stdin.map byteChar)
            ret ret' s, heap') ∧
        heap'.contents = lost + heap.contents ∧
        ((∀ file ∈ ishrc, Tidy ⟨.INITIAL, file.map byteChar⟩) →
          Tidy ⟨.INITIAL, stdin.map byteChar⟩ → lost = 0) := by
  cases ishrc with
  | none =>
    obtain ⟨fuel, hsecond⟩ := processCommandsHeap_eq A S interactive requests hw hstdin hparams ret'
      (startUp s)
    refine ⟨fuel, fun fuel' hle heap => ?_⟩
    obtain ⟨p, hp, ⟨lost, hcontents, hlost⟩, -⟩ := hsecond fuel' hle
      ⟨(.INITIAL, newBuffer), heap, ⟨0, false⟩⟩ rfl (show 0 < newBuffer.size by decide)
    refine ⟨p.heap, lost, ?_, hcontents, fun _ htidy => hlost htidy⟩
    rw [sessionHeap]
    simp only [Option.bind_some, hp]
    rfl
  | some file =>
    obtain ⟨hfile, hfileParams⟩ := hishrc file rfl
    obtain ⟨fuel₁, hfirst⟩ := processCommandsHeap_eq A S false requests hw hfile hfileParams ret s
    obtain ⟨fuel₂, hsecond⟩ := processCommandsHeap_eq A S interactive requests hw hstdin hparams ret'
      (startUp (processCommands S false .INITIAL ret (file.map byteChar) s).state)
    refine ⟨max fuel₁ fuel₂, fun fuel' hle heap => ?_⟩
    obtain ⟨p₁, hp₁, ⟨lost₁, hcontents₁, hlost₁⟩, hstart, hfits⟩ := hfirst fuel' (by omega)
      ⟨(.INITIAL, newBuffer), heap, ⟨0, false⟩⟩ rfl (show 0 < newBuffer.size by decide)
    obtain ⟨p₂, hp₂, ⟨lost₂, hcontents₂, hlost₂⟩, -⟩ := hsecond fuel' (by omega) p₁ hstart
      (Nat.zero_lt_of_lt hfits.lt_size)
    refine ⟨p₂.heap, lost₂ + lost₁, ?_, ?_, fun htidy htidy' => ?_⟩
    · rw [sessionHeap]
      simp only [hp₁, Option.bind_some, hp₂]
      rfl
    · rw [hcontents₂, hcontents₁, add_assoc]
    · rw [hlost₁ (htidy file rfl), hlost₂ htidy', add_zero]

end

/-- `ls` in `.ishrc` and a pipeline on the standard input, with pointers of 8 bytes. -/
theorem sessionHeap_spec_short :
    ∃ fuel, ∀ fuel' ≥ fuel, ∀ heap : Heap (Cell 8), ∃ heap' lost,
      sessionHeap .above succeeding true (fun _ => 0) fuel' id (some [108, 115, 10])
          [108, 115, 124, 119, 99, 10] none none heap () =
          some (session succeeding true id (some ['l', 's', '\n'])
            ['l', 's', '|', 'w', 'c', '\n'] none none (), heap') ∧
        heap'.contents = lost + heap.contents ∧
        ((∀ file ∈ some [108, 115, 10], Tidy ⟨.INITIAL, file.map byteChar⟩) →
          Tidy ⟨.INITIAL, ['l', 's', '|', 'w', 'c', '\n']⟩ → lost = 0) :=
  sessionHeap_spec .above succeeding true (fun _ => 0) (by decide) id (some [108, 115, 10])
    [108, 115, 124, 119, 99, 10]
    (fun file hfile => by
      obtain rfl := Option.some.inj hfile
      exact ⟨linesFit_of_length_lt (by decide), linesShort_of_length_le (by decide)⟩)
    (linesFit_of_length_lt (by decide)) (linesShort_of_length_le (by decide)) none none ()

end OSPortfolio.Ish.OnHeap
