import Mathlib.Data.List.Basic

namespace OSPortfolio.Flex

/-!
# Scanners driven by the tables of flex

The scanner that flex puts around its tables, for any tables: the automaton they pack, and the
buffer that is filled from the input while a token is matched.

* `Tables.next` — the transitions, through the chains of `yy_def`;
* `Tables.longest` — the longest match of a text, and the number of the rule it is of;
* `Tables.step` — the scanner: match, back up, pass over a NUL, fill the buffer;
* `Tables.Valid` — a check of the tables;
* `Tables.scan_spec` — **the scanner finds the longest match of what has not been scanned**,
  however the reads divide the input, and stays inside its buffer.

A character read from behind the two that end the buffer, a write behind them, and a back up
to a position that no state of the token has set, make `step` fail.
-/

/-! ### The tables -/

/-- The tables of a scanner, with their sizes (of `yy_accept`, `yy_meta` and `yy_nxt`) and
    constants: the state that jams, its `yy_base`, and `YY_END_OF_BUFFER`. -/
structure Tables where
  accept : Nat → Nat
  ec : Nat → Nat
  metaEc : Nat → Nat
  base : Nat → Nat
  dflt : Nat → Nat
  nxt : Nat → Nat
  chk : Nat → Nat
  lastDfa : Nat
  classes : Nat
  tableSize : Nat
  jamState : Nat
  jamBase : Nat
  endOfBuffer : Nat

/-- A table as flex prints it: a 0, and rows of ten entries. -/
def table (rows : List (List Nat)) : Nat → Nat
  | 0 => 0
  | n + 1 => (rows.getD (n / 10) []).getD (n % 10) 0

/-- The two characters that end the buffer are NULs. -/
abbrev EOB : UInt8 := 0

namespace Tables

variable (T : Tables)

/-- The loop over `yy_def`, and the transition it ends with; `none` if it goes on. -/
def follow : Nat → Nat → Nat → Option Nat
  | 0, _, _ => none
  | fuel + 1, q, c =>
    if T.chk (T.base q + c) = q then some (T.nxt (T.base q + c))
    else
      let q' := T.dflt q
      follow fuel q' (if T.lastDfa ≤ q' then T.metaEc c else c)

/-- The transition from a state on a class of characters. -/
def next (q c : Nat) : Nat := (T.follow T.lastDfa q c).getD 0

/-- No transition leaves the state but to the one that jams: the match ends there. -/
def dead (q : Nat) : Bool := T.base q = T.jamBase

/-- The class of a character in a text; a NUL has the class 1 there. -/
def classOf (b : UInt8) : Nat := if b = 0 then 1 else T.ec b.toNat

/-- The automaton. -/
def delta (q : Nat) (b : UInt8) : Nat := T.next q (T.classOf b)

/-- The number of the rule that a state accepts, and 0 characters behind it. -/
def accepted (q : Nat) : Option (Nat × Nat) :=
  if T.accept q = 0 then none else some (0, T.accept q)

/-- The longest match from a state on: its length and the number of its rule. -/
def longest : Nat → List UInt8 → Option (Nat × Nat)
  | q, [] => T.accepted q
  | q, b :: bs => ((longest (T.delta q b) bs).map fun r => (r.1 + 1, r.2)).or (T.accepted q)

/-! ### The scanner -/

end Tables

/-- `yy_buffer_status` -/
inductive BufferStatus
  | NEW
  | NORMAL
  | EOF_PENDING
  deriving DecidableEq, Repr

/-- The buffer: `yy_ch_buf` up to `yy_n_chars`, `yy_buf_size`, `yy_buffer_status` and
    `yy_c_buf_p`; and its file: what has not been read, and the number of reads so far. -/
structure Buffer where
  chars : List UInt8
  size : Nat
  status : BufferStatus
  pos : Nat
  unread : List UInt8
  reads : Nat
  deriving DecidableEq, Repr

/-- The labels of `yylex`. -/
inductive Label
  | yy_match
  | yy_find_action
  deriving DecidableEq, Repr

/-- The local variables of `yylex`: `yy_bp`, `yy_cp` and `yy_current_state`; and the last
    accepting state with its position, `none` until they are set for the text that the token
    has in the buffer. -/
structure Frame where
  label : Label
  buf : Buffer
  bp : Nat
  cp : Nat
  state : Nat
  last : Option (Nat × Nat)
  deriving DecidableEq, Repr

/-- What a token is: the end of the file, or a rule and its `yytext`. -/
inductive Result
  | eof (buf : Buffer)
  | rule (act : Nat) (yytext : List UInt8) (buf : Buffer)
  deriving DecidableEq, Repr

/-- What has not been scanned. -/
def Buffer.text (buf : Buffer) : List UInt8 := buf.chars.drop buf.pos ++ buf.unread

/-- The buffer has room for a character more, and its file has ended when it says so. -/
structure Buffer.Room (buf : Buffer) : Prop where
  lt_size : buf.chars.length < buf.size
  eof : buf.status = .EOF_PENDING → buf.unread = []

/-- The buffer between two tokens. -/
structure Buffer.Fits (buf : Buffer) : Prop extends buf.Room where
  pos_le : buf.pos ≤ buf.chars.length

/-- The text from the start of the token on. -/
def Frame.text (f : Frame) : List UInt8 := f.buf.chars.drop f.bp ++ f.buf.unread

namespace Tables

variable (T : Tables)

/-- `if ( yy_accept[yy_current_state] )`: the position is kept, to back up to. -/
def keep (q p : Nat) (last : Option (Nat × Nat)) : Option (Nat × Nat) :=
  if T.accept q = 0 then last else some (q, p)

/-- The loop at `yy_match`, over the characters from `yy_cp` on with the two that end the
    buffer: `yy_current_state`, `yy_cp`, and the position to back up to. -/
def matchLoop : Nat → Nat → Option (Nat × Nat) → List UInt8 →
    Option (Nat × Nat × Option (Nat × Nat))
  | _, _, _, [] => none
  | q, p, last, b :: bs =>
    let q' := T.next q (T.ec b.toNat)
    if T.dead q' = true then some (q', p + 1, T.keep q p last)
    else matchLoop q' (p + 1) (T.keep q p last) bs

/-- `yy_get_previous_state` -/
def previousState : Nat → Nat → Option (Nat × Nat) → List UInt8 → Nat × Option (Nat × Nat)
  | q, _, last, [] => (q, last)
  | q, p, last, b :: bs => previousState (T.delta q b) (p + 1) (T.keep q p last) bs

/-- The characters of the buffer from `a` up to `b`. -/
def slice (chars : List UInt8) (a b : Nat) : List UInt8 := (chars.take b).drop a

/-- `while ( num_to_read <= 0 )`: grow the buffer until there is room to read. -/
def grow (size moved : Nat) : Nat :=
  if size = moved + 1 then grow (2 * size) moved else size
termination_by if size = moved + 1 then 1 else 0
decreasing_by
  rename_i h
  subst h
  rw [if_pos rfl, if_neg (by omega)]
  exact Nat.one_pos

/-- `YY_READ_BUF_SIZE` -/
def READ_BUF_SIZE : Nat := 8192

/-- `YY_INPUT`: a read returns what there is of the next `request + 1` characters, and of the
    `room` it has; nothing only at the end of the file. -/
def input (request room : Nat) (unread : List UInt8) : List UInt8 × List UInt8 :=
  (unread.take (min (request + 1) room), unread.drop (min (request + 1) room))

/-- What `yy_get_next_buffer` returns. -/
inductive Act
  | END_OF_FILE
  | LAST_MATCH
  | CONTINUE_SCAN
  deriving DecidableEq, Repr

/-- `yy_get_next_buffer`, when `yytext` starts at `bp`; `requests` says how much each read
    returns.  The block has two characters more than `yy_buf_size`. -/
def getNextBuffer (requests : Nat → Nat) (bp : Nat) (buf : Buffer) : Option (Act × Buffer) :=
  let moved := buf.chars.drop bp
  if buf.status = .EOF_PENDING then
    if moved = [] then some (.END_OF_FILE, { buf with chars := [], status := .NEW, pos := 0 })
    else if moved.length + 1 < buf.size + 2 then some (.LAST_MATCH, { buf with chars := moved })
    else none
  else
    let size := grow buf.size moved.length
    let r := input (requests buf.reads) (min (size - moved.length - 1) READ_BUF_SIZE) buf.unread
    let chars := moved ++ r.1
    if size + 2 ≤ chars.length + 1 then none
    else
      let buf := { buf with chars := chars, size := size, unread := r.2, reads := buf.reads + 1 }
      if r.1 = [] then
        -- `yyrestart( yyin )`
        if moved = [] then some (.END_OF_FILE, { buf with status := .NEW, pos := 0 })
        else some (.LAST_MATCH, { buf with status := .EOF_PENDING })
      else some (.CONTINUE_SCAN, { buf with status := .NORMAL })

/-- `case YY_END_OF_BUFFER`, with `yy_cp` behind a NUL of the buffer or the first of the two
    that end it, in the start state `start`. -/
def endOfBufferCase (requests : Nat → Nat) (start : Nat) (f : Frame) : Option (Frame ⊕ Result) :=
  if f.cp ≤ f.buf.chars.length then
    -- this was really a NUL
    let p := f.bp + (f.cp - f.bp - 1)
    let r := T.previousState start f.bp none (slice f.buf.chars f.bp p)
    let last := T.keep r.1 p r.2
    if T.next r.1 1 = T.jamState then
      some (.inl { f with label := .yy_find_action, cp := p, state := r.1, last := last })
    else
      some (.inl { f with label := .yy_match, cp := p + 1, state := T.next r.1 1, last := last })
  else
    match getNextBuffer requests f.bp f.buf with
    | none => none
    | some (.END_OF_FILE, buf) => some (.inr (.eof buf))
    | some (.CONTINUE_SCAN, buf) =>
      let p := f.cp - f.bp - 1
      let r := T.previousState start 0 none (slice buf.chars 0 p)
      some (.inl ⟨.yy_match, buf, 0, p, r.1, r.2⟩)
    | some (.LAST_MATCH, buf) =>
      let p := buf.chars.length
      let r := T.previousState start 0 none (slice buf.chars 0 p)
      some (.inl ⟨.yy_find_action, buf, 0, p, r.1, r.2⟩)

/-- From one label to the next, or to the end of the token. -/
def step (requests : Nat → Nat) (start : Nat) (f : Frame) : Option (Frame ⊕ Result) :=
  match f.label with
  | .yy_match =>
    (T.matchLoop f.state f.cp f.last (f.buf.chars.drop f.cp ++ [EOB, EOB])).map fun r =>
      .inl { f with label := .yy_find_action, state := r.1, cp := r.2.1, last := r.2.2 }
  | .yy_find_action =>
    -- have to back up, if the state accepts nothing
    match T.keep f.state f.cp f.last with
    | none => none
    | some (q, p) =>
      if T.accept q = T.endOfBuffer then
        T.endOfBufferCase requests start { f with cp := p, state := q }
      else
        some (.inr (.rule (T.accept q) (slice f.buf.chars f.bp p) { f.buf with pos := p }))

/-- The steps of a token; `none` if they are used up, or one fails. -/
def steps (requests : Nat → Nat) (start : Nat) : Nat → Frame → Option Result
  | 0, _ => none
  | fuel + 1, f =>
    match T.step requests start f with
    | none => none
    | some (.inl f) => steps requests start fuel f
    | some (.inr r) => some r

/-- One round of the loop of `yylex`: the next token in the start state `start`. -/
def scan (requests : Nat → Nat) (start : Nat) (buf : Buffer) : Option Result :=
  T.steps requests start (4 * buf.unread.length + 2 * (buf.chars.length - buf.pos) + 4)
    ⟨.yy_match, buf, buf.pos, buf.pos, start, none⟩

/-! ### A check of the tables -/

/-- The states; the number 0 is none. -/
def IsState (q : Nat) : Prop := 0 < q ∧ q < T.lastDfa

instance (q : Nat) : Decidable (T.IsState q) := inferInstanceAs (Decidable (_ ∧ _))

/-- What the scanner relies on, for the states that may start a token. -/
structure Valid (starts : List Nat) : Prop where
  ec_zero : T.ec 0 = 0
  ec_pos : ∀ n < 256, n ≠ 0 → 0 < T.ec n ∧ T.ec n < T.classes
  classes : 1 < T.classes
  /-- No index is out of the tables. -/
  tables : ∀ q < T.lastDfa, T.base q + T.classes ≤ T.tableSize
  /-- The loop over `yy_def` comes to an end. -/
  follow : ∀ q < T.lastDfa, 0 < q → ∀ c < T.classes,
    (T.follow T.lastDfa q c).isSome = true
  isState : ∀ q < T.lastDfa, 0 < q → ∀ c < T.classes, 0 < c → T.IsState (T.next q c)
  jam : T.IsState T.jamState ∧ T.dead T.jamState = true ∧ T.accept T.jamState = 0
  jam_of_dead : ∀ q < T.lastDfa, 0 < q → T.dead q = true → ∀ c < T.classes, 0 < c →
    T.next q c = T.jamState
  /-- The first of the two characters that end the buffer is matched, and the second jams. -/
  eob : ∀ q < T.lastDfa, 0 < q → T.accept q ≠ T.endOfBuffer →
    T.dead (T.next q 0) = false ∧ T.accept (T.next q 0) = T.endOfBuffer ∧
      ∀ c < T.classes, T.next (T.next q 0) c = T.jamState
  eob_pos : T.endOfBuffer ≠ 0
  not_eob : ∀ q < T.lastDfa, 0 < q → ∀ c < T.classes, 0 < c →
    T.accept (T.next q c) ≠ T.endOfBuffer
  /-- A token has a character. -/
  starts : ∀ q ∈ starts, T.IsState q ∧ T.accept q ≠ T.endOfBuffer ∧
    ∀ c < T.classes, 0 < c → T.accept (T.next q c) ≠ 0

set_option synthInstance.maxSize 512 in
instance (starts : List Nat) : Decidable (T.Valid starts) :=
  decidable_of_iff (_ ∧ _ ∧ _ ∧ _ ∧ _ ∧ _ ∧ _ ∧ _ ∧ _ ∧ _ ∧ _ ∧ _)
    ⟨fun ⟨h₁, h₂, h₃, h₄, h₅, h₆, h₇, h₈, h₉, h₁₀, h₁₁, h₁₂⟩ =>
      ⟨h₁, h₂, h₃, h₄, h₅, h₆, h₇, h₈, h₉, h₁₀, h₁₁, h₁₂⟩,
    fun ⟨h₁, h₂, h₃, h₄, h₅, h₆, h₇, h₈, h₉, h₁₀, h₁₁, h₁₂⟩ =>
      ⟨h₁, h₂, h₃, h₄, h₅, h₆, h₇, h₈, h₉, h₁₀, h₁₁, h₁₂⟩⟩

variable {T} {starts : List Nat}

/-- A byte other than 0 has a class. -/
theorem Valid.ec_lt (h : T.Valid starts) {b : UInt8} (hb : b ≠ 0) :
    0 < T.ec b.toNat ∧ T.ec b.toNat < T.classes := by
  refine h.ec_pos b.toNat b.toNat_lt fun h0 => hb ?_
  exact UInt8.toNat_inj.mp h0

/-- Every byte has one, in a text also 0. -/
theorem Valid.classOf_lt (h : T.Valid starts) (b : UInt8) :
    0 < T.classOf b ∧ T.classOf b < T.classes := by
  unfold classOf
  split
  · exact ⟨Nat.one_pos, h.classes⟩
  · rename_i hb
    exact h.ec_lt hb

/-- A state behind characters of the text. -/
structure Inner (T : Tables) (q : Nat) : Prop where
  isState : T.IsState q
  not_eob : T.accept q ≠ T.endOfBuffer

/-- A transition of an inner state stays inside the tables. -/
theorem Inner.delta (h : T.Valid starts) {q : Nat} (hq : T.Inner q) (b : UInt8) :
    T.Inner (T.delta q b) :=
  have hclass := h.classOf_lt b
  ⟨h.isState q hq.isState.2 hq.isState.1 _ hclass.2 hclass.1,
    h.not_eob q hq.isState.2 hq.isState.1 _ hclass.2 hclass.1⟩

/-! ### What has been matched -/

/-- The state behind a text. -/
def run (T : Tables) (q : Nat) (u : List UInt8) : Nat := u.foldl T.delta q

@[simp] theorem run_nil (q : Nat) : T.run q [] = q := rfl

@[simp] theorem run_cons (q : Nat) (b : UInt8) (u : List UInt8) :
    T.run q (b :: u) = T.run (T.delta q b) u := rfl

/-- A run over two texts, one after the other. -/
theorem run_append (q : Nat) (u v : List UInt8) : T.run q (u ++ v) = T.run (T.run q u) v :=
  List.foldl_append

/-- The state that is computed again is the one that was reached. -/
theorem previousState_fst (q p : Nat) (last : Option (Nat × Nat)) (u : List UInt8) :
    (T.previousState q p last u).1 = T.run q u := by
  induction u generalizing q p last with
  | nil => rfl
  | cons b u ih => exact ih _ _ _

/-- It may be computed in two parts. -/
theorem previousState_append (q p : Nat) (last : Option (Nat × Nat)) (u v : List UInt8) :
    T.previousState q p last (u ++ v) =
      T.previousState (T.previousState q p last u).1 (p + u.length)
        (T.previousState q p last u).2 v := by
  induction u generalizing q p last with
  | nil => rfl
  | cons b u ih =>
    rw [List.cons_append, previousState, ih, List.length_cons, Nat.add_right_comm, Nat.add_assoc]
    rfl

/-- What a position to back up to is worth, for a token that starts at `bp`. -/
def worth (T : Tables) (bp : Nat) (last : Option (Nat × Nat)) : Option (Nat × Nat) :=
  last.map fun r => (r.2 - bp, T.accept r.1)

/-- A match `k` characters further on. -/
def shift (k : Nat) (r : Option (Nat × Nat)) : Option (Nat × Nat) :=
  r.map fun r => (r.1 + k, r.2)

/-- The last accepting state that is kept, against the longest match. -/
theorem worth_keep (bp q k : Nat) (last : Option (Nat × Nat)) :
    T.worth bp (T.keep q (bp + k) last) = (shift k (T.accepted q)).or (T.worth bp last) := by
  unfold keep accepted shift
  split
  · rfl
  · simp [worth]

/-- **What `yy_get_previous_state` keeps**: the longest match of a text goes on from where the
    text has been matched, or is the one that is kept. -/
theorem longest_append (bp q k : Nat) (last : Option (Nat × Nat)) (u t : List UInt8) :
    (shift k (T.longest q (u ++ t))).or (T.worth bp last) =
      (shift (k + u.length) (T.longest (T.run q u) t)).or
        (T.worth bp (T.previousState q (bp + k) last u).2) := by
  induction u generalizing q k last with
  | nil => rfl
  | cons b u ih =>
    have hrec := ih (T.delta q b) (k + 1) (T.keep q (bp + k) last)
    rw [worth_keep] at hrec
    rw [List.cons_append, longest, run_cons, previousState, List.length_cons,
      show k + (u.length + 1) = k + 1 + u.length by omega, show bp + k + 1 = bp + (k + 1) by omega,
      ← hrec]
    cases T.longest (T.delta q b) (u ++ t) with
    | none => rfl
    | some r => simp [shift, Nat.add_assoc, Nat.add_comm 1 k]

/-- A run stays inside the tables. -/
theorem Inner.run (h : T.Valid starts) {q : Nat} (hq : T.Inner q) (u : List UInt8) :
    T.Inner (T.run q u) := by
  induction u generalizing q with
  | nil => exact hq
  | cons b u ih => exact ih (hq.delta h b)

/-- A dead state goes to the jam state only. -/
theorem Valid.delta_dead (h : T.Valid starts) {q : Nat} (hq : T.IsState q)
    (hdead : T.dead q = true) (b : UInt8) : T.delta q b = T.jamState :=
  h.jam_of_dead q hq.2 hq.1 hdead _ (h.classOf_lt b).2 (h.classOf_lt b).1

/-- In the jam state nothing is matched any more. -/
theorem Valid.longest_jam (h : T.Valid starts) (t : List UInt8) :
    T.longest T.jamState t = none := by
  obtain ⟨hlt, hdead, haccept⟩ := h.jam
  have hnone : T.accepted T.jamState = none := if_pos haccept
  induction t with
  | nil => exact hnone
  | cons b t ih => rw [longest, h.delta_dead hlt hdead, ih, hnone]; rfl

/-- The longest match of a dead state is its own. -/
theorem Valid.longest_dead (h : T.Valid starts) {q : Nat} (hq : T.IsState q)
    (hdead : T.dead q = true) (t : List UInt8) : T.longest q t = T.accepted q := by
  cases t with
  | nil => rfl
  | cons b t => rw [longest, h.delta_dead hq hdead, h.longest_jam]; rfl

/-- What is kept has been accepted on the way. -/
theorem previousState_last (h : T.Valid starts) {q bp p : Nat} (hq : T.Inner q)
    {last : Option (Nat × Nat)} (u : List UInt8) (hp : bp ≤ p)
    (hlast : ∀ r ∈ last, T.Inner r.1 ∧ bp ≤ r.2 ∧ r.2 ≤ p) :
    ∀ r ∈ (T.previousState q p last u).2, T.Inner r.1 ∧ bp ≤ r.2 ∧ r.2 ≤ p + u.length := by
  induction u generalizing q p last with
  | nil => exact hlast
  | cons b u ih =>
    intro r hr
    have hkeep : ∀ r ∈ T.keep q p last, T.Inner r.1 ∧ bp ≤ r.2 ∧ r.2 ≤ p + 1 := by
      intro r hr
      unfold keep at hr
      split at hr
      · obtain ⟨hinner, hle, hge⟩ := hlast r hr
        exact ⟨hinner, hle, by omega⟩
      · obtain rfl := Option.some.inj hr
        exact ⟨hq, hp, Nat.le_succ p⟩
    obtain ⟨hinner, hle, hge⟩ := ih (hq.delta h b) (by omega) hkeep r hr
    exact ⟨hinner, hle, by rw [List.length_cons]; omega⟩

/-! ### The loop -/

/-- The loop goes through a text: no NUL, and no state that ends it. -/
def Passes (T : Tables) : Nat → List UInt8 → Prop
  | _, [] => True
  | q, b :: u => b ≠ 0 ∧ T.dead (T.delta q b) = false ∧ Passes T (T.delta q b) u

/-- The transition on a byte other than 0. -/
theorem delta_of_ne {b : UInt8} (hb : b ≠ 0) (q : Nat) :
    T.next q (T.ec b.toNat) = T.delta q b := by
  rw [delta, classOf, if_neg hb]

/-- The loop goes over the characters at which it does not stop. -/
theorem matchLoop_passes {q : Nat} {u : List UInt8} (hu : T.Passes q u) (p : Nat)
    (last : Option (Nat × Nat)) (w : List UInt8) :
    T.matchLoop q p last (u ++ w) =
      T.matchLoop (T.run q u) (p + u.length) (T.previousState q p last u).2 w := by
  induction u generalizing q p last with
  | nil => rfl
  | cons b u ih =>
    obtain ⟨hb, halive, hu⟩ := hu
    rw [List.cons_append, matchLoop]
    simp only [delta_of_ne hb, halive, Bool.false_eq_true, if_false]
    rw [ih hu, List.length_cons, show p + 1 + u.length = p + (u.length + 1) by omega]
    rfl

/-- The loop ends at the end of the text, at a NUL, or at a state that ends it. -/
theorem exists_passes (T : Tables) (q : Nat) (cs : List UInt8) :
    ∃ u w, cs = u ++ w ∧ T.Passes q u ∧
      (w = [] ∨ (∃ w', w = 0 :: w') ∨
        ∃ b w', b ≠ 0 ∧ w = b :: w' ∧ T.dead (T.delta (T.run q u) b) = true) := by
  induction cs generalizing q with
  | nil => exact ⟨[], [], rfl, trivial, Or.inl rfl⟩
  | cons b cs ih =>
    by_cases hb : b = 0
    · subst hb
      exact ⟨[], 0 :: cs, rfl, trivial, Or.inr (Or.inl ⟨cs, rfl⟩)⟩
    · cases hdead : T.dead (T.delta q b) with
      | true => exact ⟨[], b :: cs, rfl, trivial, Or.inr (Or.inr ⟨b, cs, hb, rfl, hdead⟩)⟩
      | false =>
        obtain ⟨u, w, rfl, hu, hw⟩ := ih (T.delta q b)
        exact ⟨b :: u, w, rfl, ⟨hb, hdead, hu⟩, hw⟩

/-- At a NUL the loop takes the state for the end of the buffer, and jams behind it. -/
theorem Valid.matchLoop_nul (h : T.Valid starts) {q : Nat} (hq : T.Inner q) (p : Nat)
    (last : Option (Nat × Nat)) (c : UInt8) (w : List UInt8) :
    ∃ e, T.accept e = T.endOfBuffer ∧
      T.matchLoop q p last (0 :: c :: w) = some (T.jamState, p + 2, some (e, p + 1)) := by
  obtain ⟨halive, haccept, hjam⟩ := h.eob q hq.isState.2 hq.isState.1 hq.not_eob
  have hclass : T.ec c.toNat < T.classes := by
    by_cases hc : c = 0
    · subst hc
      have := h.classes
      rw [show (0 : UInt8).toNat = 0 from rfl, h.ec_zero]
      omega
    · exact (h.ec_lt hc).2
  refine ⟨T.next q 0, haccept, ?_⟩
  rw [matchLoop]
  simp only [show (0 : UInt8).toNat = 0 from rfl, h.ec_zero, halive, Bool.false_eq_true, if_false]
  rw [matchLoop]
  simp only [hjam _ hclass, h.jam.2.1, if_true]
  rw [keep, if_neg (by rw [haccept]; exact h.eob_pos)]

/-! ### The buffer -/

/-- A slice, and what is behind it. -/
theorem slice_append {chars : List UInt8} {a b : Nat} (hab : a ≤ b) (hb : b ≤ chars.length) :
    slice chars a b ++ chars.drop b = chars.drop a := by
  conv_rhs => rw [← List.take_append_drop b chars]
  rw [List.drop_append_of_le_length (by rw [List.length_take]; omega), slice]

/-- A slice that is longer by the text behind it. -/
theorem slice_add {chars u w : List UInt8} {a b : Nat} (hab : a ≤ b) (hb : b ≤ chars.length)
    (hu : chars.drop b = u ++ w) : slice chars a (b + u.length) = slice chars a b ++ u := by
  rw [slice, slice, List.take_add, hu, List.take_left' rfl,
    List.drop_append_of_le_length (by rw [List.length_take]; omega)]

/-- The length of a slice inside the buffer. -/
theorem length_slice {chars : List UInt8} {a b : Nat} (hb : b ≤ chars.length) :
    (slice chars a b).length = b - a := by
  rw [slice, List.length_drop, List.length_take]
  omega

/-- A slice of `n` characters. -/
theorem slice_eq_take {chars : List UInt8} {a n : Nat} :
    slice chars a (a + n) = (chars.drop a).take n := by
  rw [slice, List.drop_take, Nat.add_sub_cancel_left]

/-- The growing buffer has room for one more character, and for the two that end it. -/
theorem lt_grow {size moved : Nat} (h : moved < size) : moved + 1 < grow size moved := by
  unfold grow
  split
  · unfold grow
    split <;> omega
  · omega

/-- What `yy_get_next_buffer` makes of a buffer in which a token starts at `bp`. -/
inductive Refilled (bp : Nat) (buf : Buffer) : Act → Buffer → Prop
  | eof {buf' : Buffer} (hmoved : buf.chars.drop bp = []) (hunread : buf.unread = [])
      (hfits : buf'.Fits) (htext : buf'.text = []) : Refilled bp buf .END_OF_FILE buf'
  | last {buf' : Buffer} (hmoved : buf.chars.drop bp ≠ []) (hunread : buf.unread = [])
      (hroom : buf'.Room) (hchars : buf'.chars = buf.chars.drop bp) (hunread' : buf'.unread = []) :
      Refilled bp buf .LAST_MATCH buf'
  | more {buf' : Buffer} (chunk : List UInt8) (hchunk : chunk ≠ [])
      (hunread : buf.unread = chunk ++ buf'.unread) (hroom : buf'.Room)
      (hchars : buf'.chars = buf.chars.drop bp ++ chunk) : Refilled bp buf .CONTINUE_SCAN buf'

/-- A read returns a part of what there is, which fits, and nothing only at the end. -/
theorem input_spec (request : Nat) {room : Nat} (hroom : 0 < room) (unread : List UInt8) :
    unread = (input request room unread).1 ++ (input request room unread).2 ∧
      (input request room unread).1.length ≤ room ∧
      ((input request room unread).1 = [] → unread = []) := by
  refine ⟨(List.take_append_drop _ _).symm, ?_, fun h => ?_⟩
  · rw [input, List.length_take]
    omega
  · rcases List.take_eq_nil_iff.mp h with h0 | h0
    · omega
    · exact h0

/-- **Filling the buffer** keeps what has been matched, and stays inside the block. -/
theorem getNextBuffer_spec (requests : Nat → Nat) (bp : Nat) {buf : Buffer} (hroom : buf.Room) :
    ∃ act buf', getNextBuffer requests bp buf = some (act, buf') ∧ Refilled bp buf act buf' := by
  obtain ⟨hsize, heof⟩ := hroom
  have hmoved : (buf.chars.drop bp).length < buf.size := by
    rw [List.length_drop]
    omega
  unfold getNextBuffer
  by_cases hpending : buf.status = .EOF_PENDING
  · rw [if_pos hpending]
    have hunread := heof hpending
    by_cases hnil : buf.chars.drop bp = []
    · rw [if_pos hnil]
      refine ⟨_, _, rfl, .eof hnil hunread ⟨⟨?_, ?_⟩, ?_⟩ ?_⟩
      · exact Nat.lt_of_le_of_lt (Nat.zero_le _) hsize
      · exact fun h => by simp at h
      · exact Nat.le_refl 0
      · exact hunread
    · rw [if_neg hnil, if_pos (by omega)]
      exact ⟨_, _, rfl, .last hnil hunread ⟨hmoved, fun _ => hunread⟩ rfl hunread⟩
  · rw [if_neg hpending]
    dsimp only
    have hgrow := lt_grow hmoved
    have hpos : 0 < min (grow buf.size (buf.chars.drop bp).length - (buf.chars.drop bp).length - 1)
        READ_BUF_SIZE := by
      unfold READ_BUF_SIZE
      omega
    obtain ⟨happend, hle, hnil⟩ := input_spec (requests buf.reads) hpos buf.unread
    generalize input (requests buf.reads) _ buf.unread = r at happend hle hnil ⊢
    have hfit : (buf.chars.drop bp ++ r.1).length < grow buf.size (buf.chars.drop bp).length := by
      rw [List.length_append]
      omega
    rw [if_neg (by omega)]
    by_cases hread : r.1 = []
    · have hunread := hnil hread
      have hrest : r.2 = [] := (List.append_eq_nil_iff.mp (happend ▸ hunread)).2
      rw [if_pos hread]
      rw [hread, List.append_nil] at hfit ⊢
      by_cases hnil : buf.chars.drop bp = []
      · rw [if_pos hnil]
        refine ⟨_, _, rfl, .eof hnil hunread ⟨⟨hfit, fun _ => hrest⟩, Nat.zero_le _⟩ ?_⟩
        show (buf.chars.drop bp).drop 0 ++ r.2 = []
        rw [hnil, hrest]
        rfl
      · rw [if_neg hnil]
        exact ⟨_, _, rfl, .last hnil hunread ⟨hfit, fun _ => hrest⟩ rfl hrest⟩
    · rw [if_neg hread]
      exact ⟨_, _, rfl, .more r.1 hread happend ⟨hfit, fun h => by simp at h⟩ rfl⟩

/-! ### The scanner finds the longest match -/

/-- The scanner stands at `yy_match`, in the state behind what it has matched. -/
structure Matching (T : Tables) (start : Nat) (f : Frame) : Prop where
  label : f.label = .yy_match
  bp_le : f.bp ≤ f.cp
  cp_le : f.cp ≤ f.buf.chars.length
  room : f.buf.Room
  previous : T.previousState start f.bp none (slice f.buf.chars f.bp f.cp) = (f.state, f.last)

/-- The scanner stands at `yy_find_action`, and the longest match is the one it will find. -/
structure Matched (T : Tables) (start : Nat) (f : Frame) : Prop where
  label : f.label = .yy_find_action
  bp_le : f.bp ≤ f.buf.chars.length
  room : f.buf.Room
  longest : T.longest start f.text = T.worth f.bp (T.keep f.state f.cp f.last)
  inner : ∀ r ∈ T.keep f.state f.cp f.last,
    T.Inner r.1 ∧ f.bp ≤ r.2 ∧ r.2 ≤ f.buf.chars.length

/-- What is to be found: the end of the file, or the longest match. -/
inductive Scanned (T : Tables) (start : Nat) (text : List UInt8) : Result → Prop
  | eof {buf : Buffer} (htext : text = []) (hfits : buf.Fits) (hrest : buf.text = []) :
      Scanned T start text (.eof buf)
  | rule {n act : Nat} {buf : Buffer} (hlongest : T.longest start text = some (n, act))
      (hpos : 0 < n) (hfits : buf.Fits) (hrest : buf.text = text.drop n) :
      Scanned T start text (.rule act (text.take n) buf)

/-- A text that is not empty begins with a token. -/
theorem Valid.exists_longest (h : T.Valid starts) {start : Nat} (hstart : start ∈ starts)
    {t : List UInt8} (ht : t ≠ []) :
    ∃ n act, T.longest start t = some (n + 1, act) := by
  obtain ⟨b, t, rfl⟩ := List.exists_cons_of_ne_nil ht
  obtain ⟨-, -, haccept⟩ := h.starts start hstart
  have hne : T.accept (T.delta start b) ≠ 0 :=
    haccept _ (h.classOf_lt b).2 (h.classOf_lt b).1
  have hsome : ∃ r, T.longest (T.delta start b) t = some r := by
    cases t with
    | nil => exact ⟨_, if_neg hne⟩
    | cons b' t =>
      rw [longest, accepted, if_neg hne]
      cases T.longest _ t <;> exact ⟨_, rfl⟩
  obtain ⟨r, hr⟩ := hsome
  exact ⟨r.1, r.2, by rw [longest, hr]; rfl⟩

/-- What is kept behind a text that has been gone through. -/
theorem Inner.keep {bp p len : Nat} {q : Nat} (hq : T.Inner q) (hbp : bp ≤ p) (hp : p ≤ len)
    {last : Option (Nat × Nat)} (hlast : ∀ r ∈ last, T.Inner r.1 ∧ bp ≤ r.2 ∧ r.2 ≤ len) :
    ∀ r ∈ T.keep q p last, T.Inner r.1 ∧ bp ≤ r.2 ∧ r.2 ≤ len := by
  intro r hr
  unfold Tables.keep at hr
  split at hr
  · exact hlast r hr
  · obtain rfl := Option.some.inj hr
    exact ⟨hq, hbp, hp⟩

@[simp] theorem keep_keep (q p : Nat) (last : Option (Nat × Nat)) :
    T.keep q p (T.keep q p last) = T.keep q p last := by
  unfold keep
  split <;> rfl

/-- The scanner has matched `v` and can match no more. -/
theorem Valid.matched (h : T.Valid starts) {start : Nat} (hstart : start ∈ starts) {f : Frame}
    {v t : List UInt8} {last : Option (Nat × Nat)} (hlabel : f.label = .yy_find_action)
    (hroom : f.buf.Room) (htext : f.text = v ++ t) (hcp : f.cp = f.bp + v.length)
    (hle : f.cp ≤ f.buf.chars.length)
    (hprevious : T.previousState start f.bp none v = (f.state, last))
    (hlast : T.keep f.state f.cp f.last = T.keep f.state f.cp last)
    (hend : T.longest f.state t = T.accepted f.state) : T.Matched start f := by
  obtain ⟨hlt, heob, -⟩ := h.starts start hstart
  have hstate : T.run start v = f.state := by rw [← previousState_fst, hprevious]
  have hinner : ∀ r ∈ (T.previousState start f.bp none v).2,
      T.Inner r.1 ∧ f.bp ≤ r.2 ∧ r.2 ≤ f.bp + v.length :=
    previousState_last h ⟨hlt, heob⟩ v (Nat.le_refl _) (by simp)
  rw [hprevious] at hinner
  refine ⟨hlabel, by omega, hroom, ?_, ?_⟩
  · have hlongest := longest_append (T := T) f.bp start 0 none v t
    rw [Nat.add_zero, hprevious, hstate, hend, Nat.zero_add, ← worth_keep, ← hcp,
      ← htext] at hlongest
    rw [hlast, ← hlongest]
    cases T.longest start f.text <;> rfl
  · rw [hlast]
    refine Inner.keep (hstate ▸ Inner.run h ⟨hlt, heob⟩ v) (by omega) hle fun r hr => ?_
    obtain ⟨hinner, hge, hr⟩ := hinner r hr
    exact ⟨hinner, hge, by omega⟩

/-- **At `yy_find_action`** the longest match is returned. -/
theorem Matched.step (h : T.Valid starts) {start : Nat} (hstart : start ∈ starts) {f : Frame}
    (hf : T.Matched start f) (htext : f.text ≠ []) (requests : Nat → Nat) :
    ∃ r, T.step requests start f = some (.inr r) ∧ T.Scanned start f.text r := by
  obtain ⟨hlabel, hbp, hroom, hlongest, hinner⟩ := hf
  obtain ⟨n, act, hsome⟩ := h.exists_longest hstart htext
  rw [hsome] at hlongest
  obtain ⟨⟨q, p⟩, hkeep, hr⟩ := Option.map_eq_some_iff.mp hlongest.symm
  obtain ⟨hn, rfl⟩ := Prod.mk.inj hr
  obtain ⟨hq, hge, hle⟩ := hinner (q, p) hkeep
  dsimp only at hn hq hge hle
  have hp : p = f.bp + (n + 1) := by omega
  have hslice : slice f.buf.chars f.bp p = f.text.take (n + 1) := by
    rw [hp, slice_eq_take, Frame.text, List.take_append_of_le_length]
    rw [List.length_drop]
    omega
  have hfits : Buffer.Fits { f.buf with pos := p } := ⟨⟨hroom.lt_size, hroom.eof⟩, hle⟩
  refine ⟨_, ?_, .rule hsome (Nat.succ_pos n) hfits ?_⟩
  · rw [Tables.step, hlabel]
    simp only [hkeep, if_neg hq.not_eob, hslice]
  · show f.buf.chars.drop p ++ f.buf.unread = f.text.drop (n + 1)
    rw [hp, Frame.text, List.drop_append_of_le_length, List.drop_drop]
    rw [List.length_drop]
    omega

/-- What the scanner makes of a frame at `yy_match`, in two steps: it has found the longest
    match, is at `yy_match` again with less to read, or at the end of the file. -/
inductive Turned (T : Tables) (start : Nat) (f : Frame) : Frame ⊕ Result → Prop
  | matched {f' : Frame} (hmatched : T.Matched start f') (htext : f'.text = f.text)
      (hne : f.text ≠ []) : Turned T start f (.inl f')
  | matching {f' : Frame} (hmatching : T.Matching start f') (htext : f'.text = f.text)
      (hless : 2 * f'.buf.unread.length + (f'.buf.chars.length - f'.cp) <
        2 * f.buf.unread.length + (f.buf.chars.length - f.cp)) : Turned T start f (.inl f')
  | eof {r : Result} (hscanned : T.Scanned start f.text r) : Turned T start f (.inr r)

/-- What comes behind `u`, which stands at `yy_cp` in front of `w`. -/
theorem Frame.text_eq {f : Frame} (hle : f.bp ≤ f.cp) (hlen : f.cp ≤ f.buf.chars.length)
    {u w : List UInt8} (hchars : f.buf.chars.drop f.cp = u ++ w) :
    f.text = slice f.buf.chars f.bp (f.cp + u.length) ++ (w ++ f.buf.unread) := by
  rw [Frame.text, ← slice_append hle hlen, hchars, slice_add hle hlen hchars]
  simp

/-- `case YY_END_OF_BUFFER` for a NUL of the text: the automaton makes the transition. -/
theorem Valid.realNul (h : T.Valid starts) {start : Nat} (hstart : start ∈ starts) {f : Frame}
    (hf : T.Matching start f) {u w : List UInt8} (hchars : f.buf.chars.drop f.cp = u ++ 0 :: w)
    (requests : Nat → Nat) {g : Frame} (hbuf : g.buf = f.buf) (hbp : g.bp = f.bp)
    (hcp : g.cp = f.cp + u.length + 1) :
    ∃ f', T.endOfBufferCase requests start g = some (.inl f') ∧ T.Turned start f (.inl f') := by
  obtain ⟨-, hle, hlen, hroom, -⟩ := hf
  have hlength : f.buf.chars.length = f.cp + (u.length + (w.length + 1)) := by
    have := congrArg List.length hchars
    rw [List.length_drop, List.length_append, List.length_cons] at this
    omega
  have htext := Frame.text_eq hle hlen hchars
  have hpos : f.bp + (f.cp + u.length + 1 - f.bp - 1) = f.cp + u.length := by omega
  have hv : (slice f.buf.chars f.bp (f.cp + u.length)).length = f.cp + u.length - f.bp :=
    length_slice (by omega)
  unfold endOfBufferCase
  rw [hbuf, hbp, hcp, if_pos (by omega), hpos]
  dsimp only
  generalize hprevious :
    T.previousState start f.bp none (slice f.buf.chars f.bp (f.cp + u.length)) = r
  by_cases hjam : T.next r.1 1 = T.jamState
  · rw [if_pos hjam]
    refine ⟨_, rfl, .matched ?_ rfl (by rw [htext]; simp)⟩
    refine h.matched hstart rfl hroom htext ?_ ?_ hprevious (keep_keep _ _ _) ?_
    · dsimp only
      omega
    · dsimp only
      omega
    · -- the state jams on the NUL
      have hdelta : T.delta r.1 0 = T.jamState := hjam
      show T.longest r.1 (0 :: (w ++ f.buf.unread)) = T.accepted r.1
      rw [longest, hdelta, h.longest_jam]
      rfl
  · rw [if_neg hjam]
    refine ⟨_, rfl, .matching ⟨rfl, ?_, ?_, hroom, ?_⟩ rfl ?_⟩
    · dsimp only
      omega
    · dsimp only
      omega
    · have hnul : f.buf.chars.drop f.cp = (u ++ [0]) ++ w := by rw [hchars]; simp
      have hslice := slice_add hle hlen hnul
      rw [List.length_append, List.length_singleton, ← Nat.add_assoc, ← List.append_assoc,
        ← slice_add hle hlen hchars] at hslice
      show T.previousState start f.bp none (slice f.buf.chars f.bp (f.cp + u.length + 1)) = _
      rw [hslice, previousState_append, hprevious, hv,
        show f.bp + (f.cp + u.length - f.bp) = f.cp + u.length by omega]
      rfl
    · dsimp only
      omega

/-- `case YY_END_OF_BUFFER` at the end of the buffer: it is filled, and the token matched again up
    to where it was. -/
theorem Valid.fill (h : T.Valid starts) {start : Nat} (hstart : start ∈ starts) {f : Frame}
    (hf : T.Matching start f) (requests : Nat → Nat) {g : Frame} (hbuf : g.buf = f.buf)
    (hbp : g.bp = f.bp) (hcp : g.cp = f.buf.chars.length + 1) :
    ∃ r, T.endOfBufferCase requests start g = some r ∧ T.Turned start f r := by
  obtain ⟨-, hle, hlen, hroom, -⟩ := hf
  obtain ⟨act, buf', hget, hrefilled⟩ := getNextBuffer_spec requests f.bp hroom
  unfold endOfBufferCase
  rw [hbuf, hbp, hcp, if_neg (by omega), hget]
  cases hrefilled with
  | eof hmoved hunread hfits htext =>
    have hnil : f.text = [] := by rw [Frame.text, hmoved, hunread]; rfl
    exact ⟨_, rfl, .eof (hnil ▸ .eof rfl hfits htext)⟩
  | last hmoved hunread hroom' hchars hunread' =>
    have htext : buf'.chars ++ buf'.unread = f.text := by
      rw [hchars, hunread', Frame.text, hunread]
    have hslice : slice buf'.chars 0 buf'.chars.length = buf'.chars := by
      rw [slice, List.take_length]
      rfl
    refine ⟨_, rfl, .matched ?_ htext ?_⟩
    · refine h.matched hstart (t := []) rfl hroom' ?_ ?_ (Nat.le_refl _) rfl rfl rfl
      · show buf'.chars ++ buf'.unread = _
        rw [hslice, hunread']
      · rw [hslice, Nat.zero_add]
    · rw [Frame.text, hunread, List.append_nil]
      exact hmoved
  | more chunk hchunk hunread hroom' hchars =>
    have hp : f.buf.chars.length + 1 - f.bp - 1 = (f.buf.chars.drop f.bp).length := by
      rw [List.length_drop]
      omega
    have hpos := List.length_pos_iff.mpr hchunk
    refine ⟨_, rfl, .matching ⟨rfl, Nat.zero_le _, ?_, hroom', rfl⟩ ?_ ?_⟩
    · show f.buf.chars.length + 1 - f.bp - 1 ≤ buf'.chars.length
      rw [hp, hchars, List.length_append]
      omega
    · show buf'.chars ++ buf'.unread = f.text
      rw [hchars, Frame.text, hunread, List.append_assoc]
    · show 2 * buf'.unread.length + (buf'.chars.length - (f.buf.chars.length + 1 - f.bp - 1)) < _
      rw [hp, hchars, hunread, List.length_append, List.length_append]
      omega

/-- The step at `yy_match`, when the loop ends. -/
theorem step_match {requests : Nat → Nat} {start : Nat} {f : Frame}
    {r : Nat × Nat × Option (Nat × Nat)} (hlabel : f.label = .yy_match)
    (hloop : T.matchLoop f.state f.cp f.last (f.buf.chars.drop f.cp ++ [EOB, EOB]) = some r) :
    T.step requests start f = some (.inl ⟨.yy_find_action, f.buf, f.bp, r.2.1, r.1, r.2.2⟩) := by
  rw [step, hlabel]
  simp only [hloop, Option.map_some]

/-- **One round**: the loop at `yy_match`, and what follows from where it ends. -/
theorem Matching.turn (h : T.Valid starts) {start : Nat} (hstart : start ∈ starts) {f : Frame}
    (hf : T.Matching start f) (requests : Nat → Nat) :
    ∃ f', T.step requests start f = some (.inl f') ∧
      (T.Turned start f (.inl f') ∨
        ∃ r, T.step requests start f' = some r ∧ T.Turned start f r) := by
  obtain ⟨hlabel, hle, hlen, hroom, hprevious⟩ := id hf
  obtain ⟨hlt, heob, -⟩ := h.starts start hstart
  have hstate : T.run start (slice f.buf.chars f.bp f.cp) = f.state := by
    rw [← previousState_fst, hprevious]
  have hinner : T.Inner f.state := hstate ▸ Inner.run h ⟨hlt, heob⟩ _
  obtain ⟨u, w, hchars, hu, hw⟩ := exists_passes T f.state (f.buf.chars.drop f.cp)
  -- the loop as far as `u` goes
  have hloop := matchLoop_passes hu f.cp f.last (w ++ [EOB, EOB])
  rw [← List.append_assoc, ← hchars] at hloop
  -- a NUL, of the text or of the end of the buffer, is found to be the end of the buffer
  have hnul : ∀ {c : UInt8} {v : List UInt8}, w ++ [EOB, EOB] = 0 :: c :: v →
      ∃ f' g, T.step requests start f = some (.inl f') ∧ g.buf = f.buf ∧ g.bp = f.bp ∧
        g.cp = f.cp + u.length + 1 ∧
        T.step requests start f' = T.endOfBufferCase requests start g := by
    intro c v hwindow
    obtain ⟨e, haccept, hjam⟩ := h.matchLoop_nul (hinner.run h u) (f.cp + u.length)
      (T.previousState f.state f.cp f.last u).2 c v
    rw [hwindow, hjam] at hloop
    refine ⟨_, ⟨.yy_find_action, f.buf, f.bp, f.cp + u.length + 1, e,
      some (e, f.cp + u.length + 1)⟩, step_match hlabel hloop, rfl, rfl, rfl, ?_⟩
    rw [step]
    simp only [keep, h.jam.2.2, if_true, haccept]
  rcases hw with rfl | ⟨w', rfl⟩ | ⟨b, w', hb, rfl, hdead⟩
  · -- the end of the buffer
    obtain ⟨f', g, hstep, hbuf, hbp, hcp, hstep'⟩ := hnul (c := 0) (v := []) rfl
    have hlength : f.cp + u.length = f.buf.chars.length := by
      have := congrArg List.length hchars
      rw [List.length_drop, List.append_nil] at this
      omega
    obtain ⟨r, hcase, hturned⟩ := h.fill hstart hf requests hbuf hbp (by rw [hcp, hlength])
    exact ⟨f', hstep, Or.inr ⟨r, hstep'.trans hcase, hturned⟩⟩
  · -- a NUL of the text
    obtain ⟨c, v, hwindow⟩ : ∃ c v, w' ++ [EOB, EOB] = c :: v := by
      cases w' with
      | nil => exact ⟨_, _, rfl⟩
      | cons c v => exact ⟨_, _, rfl⟩
    obtain ⟨f', g, hstep, hbuf, hbp, hcp, hstep'⟩ := hnul (by rw [List.cons_append, hwindow])
    obtain ⟨f'', hcase, hturned⟩ := h.realNul hstart hf hchars requests hbuf hbp hcp
    exact ⟨f', hstep, Or.inr ⟨_, hstep'.trans hcase, hturned⟩⟩
  · -- the state behind `b` ends the match
    have hb' : f.buf.chars.drop f.cp = (u ++ [b]) ++ w' := by rw [hchars]; simp
    have hlength := congrArg List.length hb'
    rw [List.length_drop, List.length_append] at hlength
    have hslice := slice_add hle hlen hb'
    have htext := Frame.text_eq hle hlen hb'
    have hv : (slice f.buf.chars f.bp f.cp).length = f.cp - f.bp := length_slice hlen
    rw [List.length_append, List.length_singleton] at hlength hslice htext
    rw [List.cons_append, matchLoop] at hloop
    simp only [delta_of_ne hb, hdead, if_true] at hloop
    refine ⟨_, step_match hlabel hloop, Or.inl (.matched ?_ rfl (by rw [htext, hslice]; simp))⟩
    refine h.matched hstart rfl hroom htext ?_ ?_ ?_ rfl ?_
    · show f.cp + u.length + 1 = _
      rw [length_slice (by omega)]
      show _ = f.bp + _
      omega
    · show f.cp + u.length + 1 ≤ f.buf.chars.length
      omega
    · show T.previousState start f.bp none (slice f.buf.chars f.bp (f.cp + (u.length + 1))) = _
      rw [hslice, previousState_append, hprevious, hv, previousState_append, previousState_fst,
        show f.bp + (f.cp - f.bp) = f.cp by omega]
      rfl
    · exact h.longest_dead ((hinner.run h u).delta h b).isState hdead _

/-- The steps of a token, from `yy_match` on. -/
theorem Matching.steps (h : T.Valid starts) {start : Nat} (hstart : start ∈ starts)
    (requests : Nat → Nat) (n : Nat) {f : Frame} (hf : T.Matching start f)
    (hn : 2 * f.buf.unread.length + (f.buf.chars.length - f.cp) ≤ n) {fuel : Nat}
    (hfuel : 2 * n + 3 ≤ fuel) :
    ∃ r, T.steps requests start fuel f = some r ∧ T.Scanned start f.text r := by
  induction n using Nat.strongRecOn generalizing f fuel with
  | ind n ih =>
    obtain ⟨fuel, rfl⟩ : ∃ k, fuel = k + 2 := ⟨fuel - 2, by omega⟩
    -- what is left to do behind a turn, with steps to spare
    have hrest : ∀ r, T.Turned start f r → ∀ k, 2 * n + 1 ≤ k →
        ∃ r', (match r with
          | .inl f' => T.steps requests start k f'
          | .inr r' => some r') = some r' ∧ T.Scanned start f.text r' := by
      intro r hr k hk
      cases hr with
      | @matched f' hmatched htext hne =>
        obtain ⟨k, rfl⟩ : ∃ m, k = m + 1 := ⟨k - 1, by omega⟩
        obtain ⟨r', hstep, hscanned⟩ := hmatched.step h hstart (htext ▸ hne) requests
        refine ⟨r', ?_, htext ▸ hscanned⟩
        show T.steps requests start (k + 1) f' = some r'
        rw [Tables.steps, hstep]
      | matching hmatching htext hless =>
        obtain ⟨r', hsteps, hscanned⟩ := ih _ (Nat.lt_of_lt_of_le hless hn) hmatching
          (Nat.le_refl _) (show _ ≤ k by omega)
        exact ⟨r', hsteps, htext ▸ hscanned⟩
      | eof hscanned => exact ⟨_, rfl, hscanned⟩
    obtain ⟨f', hstep, hturned | ⟨r, hstep', hturned⟩⟩ := hf.turn h hstart requests
    · obtain ⟨r', hr', hscanned⟩ := hrest _ hturned (fuel + 1) (by omega)
      refine ⟨r', ?_, hscanned⟩
      rw [Tables.steps, hstep]
      exact hr'
    · obtain ⟨r', hr', hscanned⟩ := hrest _ hturned fuel (by omega)
      refine ⟨r', ?_, hscanned⟩
      rw [Tables.steps, hstep]
      show T.steps requests start (fuel + 1) f' = some r'
      rw [Tables.steps, hstep']
      cases r <;> exact hr'

/-- **The scanner finds the longest match** of what has not been scanned, for every division of
    the input into reads, and leaves behind what follows it. -/
theorem Valid.scan_spec (h : T.Valid starts) {start : Nat} (hstart : start ∈ starts) {buf : Buffer}
    (hbuf : buf.Fits) (requests : Nat → Nat) :
    ∃ r, T.scan requests start buf = some r ∧ T.Scanned start buf.text r := by
  have hslice : slice buf.chars buf.pos buf.pos = [] := by
    rw [slice, List.drop_take, Nat.sub_self, List.take_zero]
  have hmatching : T.Matching start ⟨.yy_match, buf, buf.pos, buf.pos, start, none⟩ :=
    ⟨rfl, Nat.le_refl _, hbuf.pos_le, hbuf.toRoom, by dsimp only; rw [hslice]; rfl⟩
  exact hmatching.steps h hstart requests _ (Nat.le_refl _) (by dsimp only; omega)

end Tables

end OSPortfolio.Flex
