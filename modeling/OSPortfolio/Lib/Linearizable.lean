import Mathlib.Data.List.Basic
import Mathlib.Data.List.Nodup
import OSPortfolio.Lib.Run

namespace OSPortfolio.Linearizability

open OSPortfolio.Lts

/-!
# Linearizability

Clients call operations of a shared object concurrently; a history is the sequence of their
calls and responses.  It is linearizable when the operations can be put in one order, which
respects real time, and in which running them one after the other explains every response.

* `Linearization` — such an order for a history, with the state it ends in.  Every completed
  operation is in it, and a pending one may be;
* `AtomicStep` — the machine in which each operation takes effect at one moment between its
  call and its response;
* `Linearization.snoc_call`, `Linearization.snoc_effect`, `Linearization.snoc_response` — an
  order for a longer history from one for a shorter one;
* `AtomicStep.run_linearization` — every run of that machine has a linearization that ends in
  its state, so a system is linearizable once it refines the machine.
-/

universe u v w

variable {σ : Type u} {Req : Type v} {Res : Type w}

/-- A call or a response; operations are numbered. -/
inductive Event (Req : Type v) (Res : Type w)
  | call (i : Nat) (q : Req)
  | response (i : Nat) (r : Res)
  deriving DecidableEq, Repr

/-- An operation in a linearization: its number, request and response. -/
@[ext]
structure Op (Req : Type v) (Res : Type w) where
  id : Nat
  req : Req
  res : Res
  deriving DecidableEq, Repr

/-- Run the operations one after the other from `s`: each gets the response it is listed
    with, and the last one leaves the state `t`. -/
def Replays (apply : Req → σ → Res × σ) : σ → List (Op Req Res) → σ → Prop
  | s, [], t => s = t
  | s, o :: os, t => (apply o.req s).1 = o.res ∧ Replays apply (apply o.req s).2 os t

/-- In the history `h`, operation `i` has responded before `j` is called. -/
def Precedes (h : List (Event Req Res)) (i j : Nat) : Prop :=
  ∃ h₁ h₂ r q, h = h₁ ++ .response i r :: h₂ ∧ .call j q ∈ h₂

/-- `ops` explains the history `h` of an object that goes from `s` to `t`. -/
structure Linearization (apply : Req → σ → Res × σ) (h : List (Event Req Res)) (s t : σ)
    (ops : List (Op Req Res)) : Prop where
  nodup : (ops.map Op.id).Nodup
  called : ∀ o ∈ ops, .call o.id o.req ∈ h
  completed : ∀ i r, .response i r ∈ h → ∃ o ∈ ops, o.id = i ∧ o.res = r
  realTime : ∀ i j, Precedes h i j → j ∈ ops.map Op.id →
    (ops.map Op.id).idxOf i < (ops.map Op.id).idxOf j
  legal : Replays apply s ops t

/-! ### The atomic machine -/

/-- Where an operation is. -/
inductive Phase (Req : Type v) (Res : Type w)
  | idle
  | called (q : Req)
  | effected (q : Req) (r : Res)
  | responded (q : Req) (r : Res)
  deriving DecidableEq, Repr

/-- The object and the phases of the operations. -/
structure AtomicState (σ : Type u) (Req : Type v) (Res : Type w) where
  obj : σ
  phase : Nat → Phase Req Res

/-- Set the phase of one operation. -/
def setPhase (f : Nat → Phase Req Res) (i : Nat) (p : Phase Req Res) : Nat → Phase Req Res :=
  fun j => if j = i then p else f j

@[simp] theorem setPhase_same (f : Nat → Phase Req Res) (i : Nat) (p : Phase Req Res) :
    setPhase f i p i = p := if_pos rfl

theorem setPhase_ne (f : Nat → Phase Req Res) {i j : Nat} (p : Phase Req Res) (h : j ≠ i) :
    setPhase f i p j = f j := if_neg h

/-- A phase after the change is the new one, or an old one of another operation. -/
theorem setPhase_cases {f : Nat → Phase Req Res} {i j : Nat} {p p' : Phase Req Res}
    (h : setPhase f i p j = p') : j = i ∧ p = p' ∨ j ≠ i ∧ f j = p' := by
  by_cases hji : j = i
  · exact Or.inl ⟨hji, by rw [← h, hji, setPhase_same]⟩
  · exact Or.inr ⟨hji, by rw [← h, setPhase_ne f p hji]⟩

/-- A step of the machine, labelled with the event it is, if it is one: a call, the moment at
    which an operation takes effect, or a response. -/
inductive AtomicStep (apply : Req → σ → Res × σ) :
    AtomicState σ Req Res → Option (Event Req Res) → AtomicState σ Req Res → Prop
  | call (s : AtomicState σ Req Res) (i : Nat) (q : Req) (h : s.phase i = .idle) :
      AtomicStep apply s (some (.call i q)) { s with phase := setPhase s.phase i (.called q) }
  | effect (s : AtomicState σ Req Res) (i : Nat) (q : Req) (h : s.phase i = .called q) :
      AtomicStep apply s none
        ⟨(apply q s.obj).2, setPhase s.phase i (.effected q (apply q s.obj).1)⟩
  | response (s : AtomicState σ Req Res) (i : Nat) (q : Req) (r : Res)
      (h : s.phase i = .effected q r) :
      AtomicStep apply s (some (.response i r))
        { s with phase := setPhase s.phase i (.responded q r) }

/-- The history of a run, from its labels. -/
def historyOf (as : List (Option (Event Req Res))) : List (Event Req Res) := as.filterMap id

/-- No operation has been called. -/
def AtomicState.start (s : σ) : AtomicState σ Req Res := ⟨s, fun _ => .idle⟩

/-! ### Replaying and preceding -/

theorem Replays.snoc {apply : Req → σ → Res × σ} {s t : σ} {ops : List (Op Req Res)}
    (h : Replays apply s ops t) (i : Nat) (q : Req) :
    Replays apply s (ops ++ [⟨i, q, (apply q t).1⟩]) (apply q t).2 := by
  induction ops generalizing s with
  | nil => cases h; exact ⟨rfl, rfl⟩
  | cons o ops ih => exact ⟨h.1, ih h.2⟩

/-- A new call is preceded by the operations that have responded. -/
theorem Precedes.snoc_call {h : List (Event Req Res)} {i j k : Nat} {q : Req}
    (hp : Precedes (h ++ [.call k q]) i j) : Precedes h i j ∨ j = k ∧ ∃ r, .response i r ∈ h := by
  obtain ⟨h₁, h₂, r, q', heq, hmem⟩ := hp
  rcases List.eq_nil_or_concat h₂ with rfl | ⟨h₂, e, rfl⟩
  · exact absurd hmem (by simp)
  · rw [List.concat_eq_append, ← List.cons_append, ← List.append_assoc] at heq
    obtain ⟨rfl, he⟩ := List.append_inj' heq rfl
    obtain rfl : Event.call k q = e := by simpa using he
    rw [List.concat_eq_append, List.mem_append] at hmem
    -- the call of `j` is an old one, or the new one
    rcases hmem with hmem | hmem
    · exact Or.inl ⟨h₁, h₂, r, q', rfl, hmem⟩
    · obtain ⟨rfl, -⟩ : j = k ∧ q' = q := by simpa using hmem
      exact Or.inr ⟨rfl, r, by simp⟩

/-- A response precedes nothing that has been called. -/
theorem Precedes.snoc_response {h : List (Event Req Res)} {i j k : Nat} {r : Res}
    (hp : Precedes (h ++ [.response k r]) i j) : Precedes h i j := by
  obtain ⟨h₁, h₂, r', q', heq, hmem⟩ := hp
  -- the new event is the response itself, or stands behind it and is no call
  rcases List.eq_nil_or_concat h₂ with rfl | ⟨h₂, e, rfl⟩
  · exact absurd hmem (by simp)
  · rw [List.concat_eq_append, ← List.cons_append, ← List.append_assoc] at heq
    obtain ⟨rfl, he⟩ := List.append_inj' heq rfl
    obtain rfl : Event.response k r = e := by simpa using he
    rw [List.concat_eq_append, List.mem_append] at hmem
    rcases hmem with hmem | hmem
    · exact ⟨h₁, h₂, r', q', rfl, hmem⟩
    · exact absurd hmem (by simp)

/-! ### Growing a history -/

section
variable {apply : Req → σ → Res × σ} {h : List (Event Req Res)} {s t : σ}
  {ops : List (Op Req Res)}

/-- The call of an operation that is not in the order yet. -/
theorem Linearization.snoc_call (hlin : Linearization apply h s t ops) {i : Nat} (q : Req)
    (hnew : i ∉ ops.map Op.id) : Linearization apply (h ++ [.call i q]) s t ops where
  nodup := hlin.nodup
  called o ho := List.mem_append_left _ (hlin.called o ho)
  completed j r hmem := hlin.completed j r (by simpa using hmem)
  realTime j k hp hk := by
    rcases hp.snoc_call with hp | ⟨rfl, -⟩
    · exact hlin.realTime j k hp hk
    · exact absurd hk hnew
  legal := hlin.legal

/-- The response of an operation that is in the order with it. -/
theorem Linearization.snoc_response (hlin : Linearization apply h s t ops) {i : Nat} {q : Req}
    {r : Res} (hin : ⟨i, q, r⟩ ∈ ops) : Linearization apply (h ++ [.response i r]) s t ops where
  nodup := hlin.nodup
  called o ho := List.mem_append_left _ (hlin.called o ho)
  completed j r' hmem := by
    rcases List.mem_append.mp hmem with hmem | hmem
    · exact hlin.completed j r' hmem
    · obtain ⟨rfl, rfl⟩ : j = i ∧ r' = r := by simpa using hmem
      exact ⟨_, hin, rfl, rfl⟩
  realTime j k hp hk := hlin.realTime j k hp.snoc_response hk
  legal := hlin.legal

/-- A pending operation joins the order at its end. -/
theorem Linearization.snoc_effect (hlin : Linearization apply h s t ops) {i : Nat} {q : Req}
    (hcall : .call i q ∈ h) (hnew : i ∉ ops.map Op.id) :
    Linearization apply h s (apply q t).2 (ops ++ [⟨i, q, (apply q t).1⟩]) where
  nodup := by
    rw [List.map_append]
    refine List.nodup_append.mpr ⟨hlin.nodup, by simp, ?_⟩
    intro a ha b hb
    obtain rfl : b = i := by simpa using hb
    exact fun heq => hnew (heq ▸ ha)
  called o ho := by
    rcases List.mem_append.mp ho with ho | ho
    · exact hlin.called o ho
    · obtain rfl := List.mem_singleton.mp ho
      exact hcall
  completed j r hmem := by
    obtain ⟨o, ho, hid⟩ := hlin.completed j r hmem
    exact ⟨o, List.mem_append_left _ ho, hid⟩
  realTime j k hp hk := by
    rw [List.map_append, List.map_singleton] at hk ⊢
    -- what has responded is in the order already, so the new operation comes after it
    obtain ⟨h₁, h₂, r, q', rfl, -⟩ := id hp
    obtain ⟨o, ho, rfl, -⟩ := hlin.completed j r (by simp)
    have hj : o.id ∈ ops.map Op.id := List.mem_map_of_mem ho
    rw [List.idxOf_append_of_mem hj]
    by_cases hkin : k ∈ ops.map Op.id
    · rw [List.idxOf_append_of_mem hkin]
      exact hlin.realTime _ k hp hkin
    · rw [List.idxOf_append_of_notMem hkin]
      exact Nat.lt_of_lt_of_le (List.idxOf_lt_length_of_mem hj) (Nat.le_add_right _ _)
  legal := hlin.legal.snoc i q

end

/-! ### Runs of the machine -/

/-- What a run of the machine has established: the order in which operations took effect is a
    linearization, and the phases say who is in it. -/
structure Explained (apply : Req → σ → Res × σ) (s₀ : σ) (h : List (Event Req Res))
    (s : AtomicState σ Req Res) (ops : List (Op Req Res)) : Prop where
  lin : Linearization apply h s₀ s.obj ops
  pending : ∀ i, (s.phase i = .idle ∨ ∃ q, s.phase i = .called q) → i ∉ ops.map Op.id
  calledIn : ∀ i q, s.phase i = .called q → .call i q ∈ h
  effectedIn : ∀ i q r, s.phase i = .effected q r → ⟨i, q, r⟩ ∈ ops

/-- One step of the machine: it moves one operation to its next phase, and the others stay
    where they are. -/
theorem Explained.step {apply : Req → σ → Res × σ} {s₀ : σ} {h : List (Event Req Res)}
    {s s' : AtomicState σ Req Res} {ops : List (Op Req Res)} {a : Option (Event Req Res)}
    (hs : Explained apply s₀ h s ops) (hstep : AtomicStep apply s a s') :
    ∃ ops', Explained apply s₀ (h ++ a.toList) s' ops' := by
  cases hstep with
  | call i q hidle =>
    have hnew : i ∉ ops.map Op.id := hs.pending i (Or.inl hidle)
    refine ⟨ops, hs.lin.snoc_call q hnew, ?_, ?_, ?_⟩
    · intro j hj
      by_cases hji : j = i
      · rw [hji]; exact hnew
      · simp only [setPhase_ne _ _ hji] at hj
        exact hs.pending j hj
    · intro j q' hj
      rcases setPhase_cases hj with ⟨rfl, heq⟩ | ⟨-, hj⟩
      · rw [Phase.called.inj heq]
        exact List.mem_append_right _ List.mem_cons_self
      · exact List.mem_append_left _ (hs.calledIn j q' hj)
    · intro j q' r hj
      rcases setPhase_cases hj with ⟨-, heq⟩ | ⟨-, hj⟩
      · cases heq
      · exact hs.effectedIn j q' r hj
  | effect i q hcalled =>
    have hnew : i ∉ ops.map Op.id := hs.pending i (Or.inr ⟨q, hcalled⟩)
    rw [Option.toList_none, List.append_nil]
    refine ⟨_, hs.lin.snoc_effect (hs.calledIn i q hcalled) hnew, ?_, ?_, ?_⟩
    · intro j hj
      by_cases hji : j = i
      · subst hji; simp at hj
      · simp only [setPhase_ne _ _ hji] at hj
        simpa [hji] using hs.pending j hj
    · intro j q' hj
      rcases setPhase_cases hj with ⟨-, heq⟩ | ⟨-, hj⟩
      · cases heq
      · exact hs.calledIn j q' hj
    · intro j q' r hj
      rcases setPhase_cases hj with ⟨rfl, heq⟩ | ⟨-, hj⟩
      · obtain ⟨rfl, rfl⟩ := Phase.effected.inj heq
        exact List.mem_append_right _ List.mem_cons_self
      · exact List.mem_append_left _ (hs.effectedIn j q' r hj)
  | response i q r heffected =>
    refine ⟨ops, hs.lin.snoc_response (hs.effectedIn i q r heffected), ?_, ?_, ?_⟩
    · intro j hj
      by_cases hji : j = i
      · subst hji; simp at hj
      · simp only [setPhase_ne _ _ hji] at hj
        exact hs.pending j hj
    · intro j q' hj
      rcases setPhase_cases hj with ⟨-, heq⟩ | ⟨-, hj⟩
      · cases heq
      · exact List.mem_append_left _ (hs.calledIn j q' hj)
    · intro j q' r' hj
      rcases setPhase_cases hj with ⟨-, heq⟩ | ⟨-, hj⟩
      · cases heq
      · exact hs.effectedIn j q' r' hj

/-- **Every run of the atomic machine is linearizable**, in the order in which its operations
    take effect. -/
theorem AtomicStep.run_linearization {apply : Req → σ → Res × σ} {s₀ : σ}
    {as : List (Option (Event Req Res))} {s : AtomicState σ Req Res}
    (h : Run (AtomicStep apply) (AtomicState.start s₀) as s) :
    ∃ ops, Linearization apply (historyOf as) s₀ s.obj ops := by
  have hex : ∃ ops, Explained apply s₀ (historyOf as) s ops := by
    refine h.invariantTrace (fun as s => ∃ ops, Explained apply s₀ (historyOf as) s ops) ?_ ?_
    · rintro as s a t ⟨ops, hs⟩ hstep
      obtain ⟨ops', hs'⟩ := hs.step hstep
      refine ⟨ops', ?_⟩
      cases a <;> simpa [historyOf] using hs'
    -- before the first step no operation is in the order
    · refine ⟨[], ⟨by simp, by simp, by simp [historyOf], by simp, rfl⟩, by simp, ?_, ?_⟩
      · intro i q hi; simp [AtomicState.start] at hi
      · intro i q r hi; simp [AtomicState.start] at hi
  obtain ⟨ops, hs⟩ := hex
  exact ⟨ops, hs.lin⟩

end OSPortfolio.Linearizability
