import Mathlib.Data.List.Induction
import Mathlib.Logic.Function.Basic
import OSPortfolio.Lib.Run

namespace OSPortfolio.ReplicatedLog

open OSPortfolio.Lts

/-!
# Reads from a replicated log

A log of commands grows at its end, and each of several nodes has applied a prefix of it.  A
command writes one key.  A command is acknowledged when some node has applied it, and keys are
read from the state of any node.

* `Object` — what the commands that are `ok` do to a state, and what is read from one;
* `step` — a command is committed, applied by a node, acknowledged, or a key is read;
* `ReadsFresh` — a read behind the acknowledgement of a write to its key returns that write or a
  later one;
* `Current` — a read is made where every acknowledged write to its key was applied, and the
  commands are `ok`;
* `exists_write_of_replay` — what a state reads as was written by the last write to the key;
* `run_readsFresh` — if every read of a run is current, every read of it is fresh.
-/

universe u

variable {ι C K V S : Type u} [DecidableEq K]

/-- States that commands write key by key, as far as the commands are `ok`. -/
structure Object (C K V S : Type u) [DecidableEq K] where
  init : S
  apply : S → C → S
  read : K → S → V
  /-- the key a command writes -/
  target : C → K
  /-- what it reads as behind the command -/
  result : C → V
  /-- the commands that write their key and no other -/
  ok : C → Prop
  read_apply : ∀ s c k, ok c → read k (apply s c) = if target c = k then result c else read k s

/-- The state after some commands. -/
def Object.replay (O : Object C K V S) (l : List C) : S := l.foldl O.apply O.init

/-- The log, how much of it each node has applied, and the places of the acknowledged
    commands. -/
structure Cluster (ι C : Type u) where
  log : List C
  applied : ι → Nat
  acked : List Nat

/-- What happens. -/
inductive Event (ι C K V : Type u)
  | commit (c : C)
  | apply (i : ι)
  | ack (i : ι) (p : Nat)
  | read (i : ι) (k : K) (v : V)

/-- One step of the cluster. -/
def step [DecidableEq ι] [DecidableEq V] (O : Object C K V S) (s : Cluster ι C) : 
    Event ι C K V → Option (Cluster ι C)
  | .commit c => some { s with log := s.log ++ [c] }
  | .apply i =>
    if s.applied i < s.log.length then
      some { s with applied := Function.update s.applied i (s.applied i + 1) }
    else none
  | .ack i p => if p < s.applied i then some { s with acked := p :: s.acked } else none
  | .read i k v =>
    if v = O.read k (O.replay (s.log.take (s.applied i))) then some s else none

/-- `step` as a relation. -/
def Step [DecidableEq ι] [DecidableEq V] (O : Object C K V S) (s : Cluster ι C)
    (e : Event ι C K V) (t : Cluster ι C) : Prop :=
  step O s e = some t

/-- Nothing happened yet. -/
def Cluster.start : Cluster ι C := { log := [], applied := fun _ => 0, acked := [] }

section

variable [DecidableEq ι] [DecidableEq V] (O : Object C K V S) (s : Cluster ι C)

theorem step_commit (c : C) : Step O s (.commit c : Event ι C K V) { s with log := s.log ++ [c] } :=
  rfl

theorem step_apply {i : ι} (h : s.applied i < s.log.length) :
    Step O s (.apply i : Event ι C K V)
      { s with applied := Function.update s.applied i (s.applied i + 1) } := if_pos h

theorem step_ack {i : ι} {p : Nat} (h : p < s.applied i) :
    Step O s (.ack i p : Event ι C K V) { s with acked := p :: s.acked } := if_pos h

theorem step_read (i : ι) (k : K) :
    Step O s (.read i k (O.read k (O.replay (s.log.take (s.applied i))))) s := if_pos rfl

end

/-! ### The last write to a key -/

/-- A key that is written in the log reads as one of the writes from there on. -/
theorem exists_write_of_replay (O : Object C K V S) {l : List C} (hok : ∀ d ∈ l, O.ok d) {p : Nat}
    {c : C} {k : K} (hp : l[p]? = some c) (hc : O.target c = k) :
    ∃ q c', p ≤ q ∧ l[q]? = some c' ∧ O.target c' = k ∧ O.read k (O.replay l) = O.result c' := by
  -- from the end of the log, where the last write is found
  induction l using List.reverseRecOn generalizing p c with
  | nil => simp at hp
  | append_singleton l d ih =>
    have hreplay : O.replay (l ++ [d]) = O.apply (O.replay l) d := by
      rw [Object.replay, List.foldl_append]
      rfl
    have hpl : p < (l ++ [d]).length := (List.getElem?_eq_some_iff.mp hp).1
    rw [List.length_append, List.length_singleton] at hpl
    rw [hreplay, O.read_apply _ _ _ (hok d (by simp))]
    by_cases hd : O.target d = k
    · rw [if_pos hd]
      exact ⟨l.length, d, by omega, List.getElem?_concat_length, hd, rfl⟩
    · rw [if_neg hd]
      have hlt : p < l.length := by
        refine Nat.lt_of_le_of_ne (by omega) fun heq => hd ?_
        rw [heq, List.getElem?_concat_length] at hp
        exact Option.some.inj hp ▸ hc
      rw [List.getElem?_append_left hlt] at hp
      obtain ⟨q, c', hpq, hq, hc', hread⟩ :=
        ih (fun e he => hok e (List.mem_append_left _ he)) hp hc
      have hql : q < l.length := (List.getElem?_eq_some_iff.mp hq).1
      exact ⟨q, c', hpq, by rw [List.getElem?_append_left hql, hq], hc', hread⟩

/-! ### Fresh reads -/

/-- The value is that of the write at `p` or of a later write to the key. -/
def FreshAt (O : Object C K V S) (log : List C) (p : Nat) (k : K) (v : V) : Prop :=
  ∃ q c, p ≤ q ∧ log[q]? = some c ∧ O.target c = k ∧ v = O.result c

/-- Every read of the events that comes behind the acknowledgement of a write to its key returns
    that write or a later one. -/
def ReadsFresh (O : Object C K V S) (log : List C) (as : List (Event ι C K V)) : Prop :=
  ∀ as₁ as₂ i k v, as = as₁ ++ .read i k v :: as₂ →
    ∀ j p c, .ack j p ∈ as₁ → log[p]? = some c → O.target c = k → FreshAt O log p k v

/-- A read is made where every acknowledged write to its key was applied, and a command that is
    committed is `ok`. -/
def Current (O : Object C K V S) (s : Cluster ι C) : Event ι C K V → Prop
  | .commit c => O.ok c
  | .read i k _ => ∀ p ∈ s.acked, ∀ c, s.log[p]? = some c → O.target c = k → p < s.applied i
  | _ => True

/-- What is fresh in a log is fresh in a longer one. -/
theorem FreshAt.append {O : Object C K V S} {log : List C} {p : Nat} {k : K} {v : V}
    (h : FreshAt O log p k v) (l : List C) : FreshAt O (log ++ l) p k v := by
  obtain ⟨q, c, hpq, hq, hc, hv⟩ := h
  have hlt : q < log.length := (List.getElem?_eq_some_iff.mp hq).1
  exact ⟨q, c, hpq, by rw [List.getElem?_append_left hlt, hq], hc, hv⟩

/-- A node that has applied a write to the key reads that write or a later one. -/
theorem freshAt_of_applied (O : Object C K V S) {log : List C} (hok : ∀ d ∈ log, O.ok d)
    {n p : Nat} {c : C} {k : K} (hlt : p < n) (hp : log[p]? = some c) (hc : O.target c = k) :
    FreshAt O log p k (O.read k (O.replay (log.take n))) := by
  have hp' : (log.take n)[p]? = some c := by rw [List.getElem?_take_of_lt hlt, hp]
  obtain ⟨q, c', hpq, hq, hc', hread⟩ :=
    exists_write_of_replay O (fun d hd => hok d (List.mem_of_mem_take hd)) hp' hc
  refine ⟨q, c', hpq, ?_, hc', hread⟩
  have hqlt : q < n := by
    have hlen := (List.getElem?_eq_some_iff.mp hq).1
    rw [List.length_take] at hlen
    omega
  rwa [List.getElem?_take_of_lt hqlt] at hq

/-- What was read so far stays fresh when the log grows behind the acknowledged commands. -/
theorem ReadsFresh.append {O : Object C K V S} {log : List C} {as : List (Event ι C K V)}
    (h : ReadsFresh O log as) (hacked : ∀ j p, .ack j p ∈ as → p < log.length) (l : List C) :
    ReadsFresh O (log ++ l) as := by
  intro as₁ as₂ i k v hsplit j p c hack hp hc
  -- the acknowledged command is in the old part of the log
  have hmem : (.ack j p : Event ι C K V) ∈ as := hsplit ▸ List.mem_append_left _ hack
  rw [List.getElem?_append_left (hacked j p hmem)] at hp
  exact (h as₁ as₂ i k v hsplit j p c hack hp hc).append l

/-- One more event. -/
theorem ReadsFresh.snoc {O : Object C K V S} {log : List C} {as : List (Event ι C K V)}
    {a : Event ι C K V} (h : ReadsFresh O log as)
    (ha : ∀ i k v, a = .read i k v → ∀ j p c, .ack j p ∈ as → log[p]? = some c →
      O.target c = k → FreshAt O log p k v) : ReadsFresh O log (as ++ [a]) := by
  intro as₁ as₂ i k v hsplit
  rcases List.eq_nil_or_concat as₂ with rfl | ⟨as₂, b, rfl⟩
  · obtain ⟨rfl, hlast⟩ := List.append_inj' hsplit rfl
    exact ha i k v (List.cons.inj hlast).1
  · rw [List.concat_eq_append, ← List.cons_append, ← List.append_assoc] at hsplit
    obtain ⟨hinit, -⟩ := List.append_inj' hsplit rfl
    exact h as₁ as₂ i k v hinit

/-- What holds in every state: the commands of the log are `ok`, acknowledged commands are in
    it, nodes are not ahead of it, and the reads so far were fresh. -/
structure Inv (O : Object C K V S) (as : List (Event ι C K V)) (s : Cluster ι C) : Prop where
  log_ok : ∀ c ∈ s.log, O.ok c
  acked : ∀ j p, .ack j p ∈ as → p ∈ s.acked
  acked_lt : ∀ p ∈ s.acked, p < s.log.length
  applied_le : ∀ i, s.applied i ≤ s.log.length
  fresh : ReadsFresh O s.log as

theorem Inv.start (O : Object C K V S) : Inv O [] (.start : Cluster ι C) where
  log_ok _ h := absurd h List.not_mem_nil
  acked _ _ h := absurd h List.not_mem_nil
  acked_lt _ h := absurd h List.not_mem_nil
  applied_le _ := Nat.le_refl 0
  fresh as₁ as₂ i k v h := by simp at h

variable [DecidableEq ι] [DecidableEq V]

/-- One step keeps it. -/
theorem Inv.step {O : Object C K V S} {as : List (Event ι C K V)} {s t : Cluster ι C}
    {a : Event ι C K V} (h : Inv O as s) (hstep : guarded (Step O) (Current O) s a t) :
    Inv O (as ++ [a]) t := by
  obtain ⟨hcurrent, hstep⟩ := hstep
  -- only a read can make a read that is not fresh
  have hacked : ∀ j p, .ack j p ∈ as ++ [a] → p ∈ s.acked ∨ a = .ack j p := by
    intro j p hmem
    rcases List.mem_append.mp hmem with hmem | hmem
    · exact Or.inl (h.acked j p hmem)
    · exact Or.inr (List.mem_singleton.mp hmem).symm
  cases a with
  | commit c =>
    obtain rfl := Option.some.inj hstep
    have hlen : s.log.length ≤ (s.log ++ [c]).length := by simp
    have hok : ∀ d ∈ s.log ++ [c], O.ok d := by
      intro d hd
      rcases List.mem_append.mp hd with hd | hd
      · exact h.log_ok d hd
      · obtain rfl := List.mem_singleton.mp hd
        exact hcurrent
    refine ⟨hok, fun j p hmem => (hacked j p hmem).resolve_right (by simp),
      fun p hp => Nat.lt_of_lt_of_le (h.acked_lt p hp) hlen,
      fun i => Nat.le_trans (h.applied_le i) hlen, ReadsFresh.snoc ?_ (by simp)⟩
    exact h.fresh.append (fun j p hack => h.acked_lt p (h.acked j p hack)) [c]
  | apply i =>
    obtain ⟨hlt, ht⟩ := Option.ite_none_right_eq_some.mp hstep
    obtain rfl := Option.some.inj ht
    refine ⟨h.log_ok, fun j p hmem => (hacked j p hmem).resolve_right (by simp), h.acked_lt,
      fun i' => ?_, h.fresh.snoc (by simp)⟩
    show Function.update s.applied i (s.applied i + 1) i' ≤ s.log.length
    by_cases hi : i' = i
    · rw [hi, Function.update_self]
      exact hlt
    · rw [Function.update_of_ne hi]
      exact h.applied_le i'
  | ack i p =>
    obtain ⟨hlt, ht⟩ := Option.ite_none_right_eq_some.mp hstep
    obtain rfl := Option.some.inj ht
    refine ⟨h.log_ok, fun j p' hmem => ?_, fun p' hp' => ?_, h.applied_le,
      h.fresh.snoc (by simp)⟩
    · rcases hacked j p' hmem with hmem | heq
      · exact List.mem_cons_of_mem p hmem
      · obtain ⟨-, rfl⟩ := Event.ack.inj heq
        exact List.mem_cons_self
    · rcases List.mem_cons.mp hp' with rfl | hp'
      · exact Nat.lt_of_lt_of_le hlt (h.applied_le i)
      · exact h.acked_lt p' hp'
  | read i k v =>
    obtain ⟨hv, ht⟩ := Option.ite_none_right_eq_some.mp hstep
    obtain rfl := Option.some.inj ht
    refine ⟨h.log_ok, fun j p hmem => (hacked j p hmem).resolve_right (by simp), h.acked_lt,
      h.applied_le, h.fresh.snoc fun i' k' v' heq j p c hack hp hc => ?_⟩
    obtain ⟨rfl, rfl, rfl⟩ := Event.read.inj heq
    -- the node has applied the write, so it reads the last one from there on
    have hlt : p < s.applied i := hcurrent p (h.acked j p hack) c hp hc
    rw [hv]
    exact freshAt_of_applied O h.log_ok hlt hp hc

/-- **If every read of a run is current, every read of it is fresh.** -/
theorem run_readsFresh {O : Object C K V S} {as : List (Event ι C K V)} {s : Cluster ι C}
    (h : Run (guarded (Step O) (Current O)) .start as s) : ReadsFresh O s.log as :=
  (h.invariantTrace (Inv O) (fun _ _ _ _ hinv hstep => hinv.step hstep) (Inv.start O)).fresh

end OSPortfolio.ReplicatedLog
