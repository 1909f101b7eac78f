import Mathlib.Logic.Function.Basic
import OSPortfolio.Lib.Run

namespace OSPortfolio.Replication

open OSPortfolio.Lts

/-!
# Replicated state machines with snapshots

A log of commands grows at its end, and the processes of several nodes apply it in order.  A
process takes a snapshot of its state, which is written to a file later, while it applies more of
the log.  A node that fails starts again from its newest file, and may get that of another node.

* `Machine` — the states, and what commands do to them;
* `Implementation`, `Implementation.Lawful` — processes that implement a machine, with the
  snapshots they take and the files they restore;
* `Replica`, `Cluster`, `Event`, `step` — the nodes, and what happens to them in any order;
* `Replays` — a process has the state that the log makes of the first one;
* `step_replays`, `run_replays` — **no step fails, and every node replays the log**.
-/

universe u

/-- States, and what commands do to them. -/
structure Machine (C S : Type u) where
  init : S
  apply : S → C → S

/-- The state after some commands. -/
def Machine.replay {C S : Type u} (M : Machine C S) (l : List C) : S := l.foldl M.apply M.init

theorem Machine.replay_snoc {C S : Type u} (M : Machine C S) (l : List C) (c : C) :
    M.replay (l ++ [c]) = M.apply (M.replay l) c := by
  rw [replay, List.foldl_append]
  rfl

/-- Processes: how one starts, applies a command, takes a snapshot, writes it to a file and
    restores one.  A command may end the process, a write to a file may fail (`io` says how), and
    so may a restore. -/
structure Implementation (C P B O : Type u) where
  start : P
  apply : P → C → Option P
  snapshot : P → P
  persist : O → P → Option (Option B)
  restore : P → B → Option P

variable {ι C S P B O : Type u}

/-- The process has the state `s`, and if there is a `t`, a snapshot of that; `encodes b t` says
    that the file `b` holds `t`. -/
structure Implementation.Lawful (I : Implementation C P B O) (M : Machine C S)
    (rep : P → S → Option S → Prop) (encodes : B → S → Prop) : Prop where
  start : rep I.start M.init none
  apply : ∀ {p s t} (c : C), rep p s t → ∃ p', I.apply p c = some p' ∧ rep p' (M.apply s c) t
  snapshot : ∀ {p s t}, rep p s t → rep (I.snapshot p) s (some s)
  persist : ∀ {p s t} (o : O), rep p s (some t) → ∃ b, I.persist o p = some b ∧
    ∀ b' ∈ b, encodes b' t
  release : ∀ {p s t}, rep p s t → rep p s none
  restore : ∀ {p s t b s'}, rep p s t → encodes b s' → ∃ p', I.restore p b = some p' ∧ rep p' s' t

/-! ### Nodes -/

/-- A node: its process, how much of the log that has applied, how much it had applied when it
    took the snapshot that is not yet in a file, and the files with the same number for each,
    newest first. -/
structure Replica (P B : Type u) where
  process : P
  applied : Nat
  taken : Option Nat
  files : List (Nat × B)

/-- The committed log and the nodes. -/
structure Cluster (ι C P B : Type u) where
  log : List C
  node : ι → Replica P B

/-- What happens. -/
inductive Event (ι C O : Type u)
  | commit (c : C)
  | apply (i : ι)
  | snapshot (i : ι)
  | persist (i : ι) (o : O)
  | restart (i : ι)
  | install (i j : ι)

/-- What can go wrong. -/
inductive Fault
  | panic
  | nothingTaken
  | notRestored
  deriving DecidableEq

section
variable [DecidableEq ι] (I : Implementation C P B O) (retain : Nat)

/-- The newest file that can be restored. -/
def restoreNewest (p : P) : List (Nat × B) → Option (Nat × P)
  | [] => none
  | f :: fs =>
    match I.restore p f.2 with
    | some q => some (f.1, q)
    | none => restoreNewest p fs

/-- A node that starts, with the files it has. -/
def startNode (files : List (Nat × B)) : Except Fault (Replica P B) :=
  if files.isEmpty then .ok ⟨I.start, 0, none, []⟩
  else
    match restoreNewest I I.start files with
    | some (n, p) => .ok ⟨p, n, none, files⟩
    | none => .error .notRestored

/-- The nodes with another one for `i`. -/
def Cluster.setNode (s : Cluster ι C P B) (i : ι) (r : Replica P B) : Cluster ι C P B :=
  { s with node := Function.update s.node i r }

/-- One step; none if it cannot happen. -/
def step (s : Cluster ι C P B) : Event ι C O → Option (Except Fault (Cluster ι C P B))
  | .commit c => some (.ok { s with log := s.log ++ [c] })
  | .apply i =>
    (s.log[(s.node i).applied]?).map fun c =>
      match I.apply (s.node i).process c with
      | some p =>
        .ok (s.setNode i { s.node i with process := p, applied := (s.node i).applied + 1 })
      | none => .error .panic
  | .snapshot i =>
    -- one snapshot at a time
    if (s.node i).taken = none then
      some (.ok (s.setNode i { s.node i with
        process := I.snapshot (s.node i).process
        taken := some (s.node i).applied }))
    else none
  | .persist i o =>
    (s.node i).taken.map fun n =>
      match I.persist o (s.node i).process with
      | none => .error .nothingTaken
      | some none => .ok (s.setNode i { s.node i with taken := none })
      | some (some b) =>
        .ok (s.setNode i { s.node i with
          taken := none
          files := ((n, b) :: (s.node i).files).take retain })
  | .restart i => some ((startNode I (s.node i).files).map (s.setNode i))
  | .install i j =>
    (s.node j).files.head?.map fun f =>
      match I.restore (s.node i).process f.2 with
      | some p =>
        .ok (s.setNode i { s.node i with
          process := p
          applied := f.1
          files := (f :: (s.node i).files).take retain })
      | none => .error .notRestored

/-- `step` as a relation. -/
def Step (s : Cluster ι C P B) (e : Event ι C O) (t : Cluster ι C P B) : Prop :=
  step I retain s e = some (.ok t)

/-- All nodes have started, and nothing else has happened. -/
def Cluster.start : Cluster ι C P B := ⟨[], fun _ => ⟨I.start, 0, none, []⟩⟩

end

/-! ### Replaying the log -/

section
variable (M : Machine C S) (rep : P → S → Option S → Prop) (encodes : B → S → Prop)

/-- The process has the state that the log makes of the first one, as far as it has applied it,
    and so have its snapshots. -/
structure Replays (log : List C) (r : Replica P B) : Prop where
  applied_le : r.applied ≤ log.length
  taken_le : ∀ n ∈ r.taken, n ≤ log.length
  process : rep r.process (M.replay (log.take r.applied))
    (r.taken.map fun n => M.replay (log.take n))
  files : ∀ f ∈ r.files, f.1 ≤ log.length ∧ encodes f.2 (M.replay (log.take f.1))

variable {M rep encodes} {I : Implementation C P B O} (hI : I.Lawful M rep encodes)
  {log : List C} {r : Replica P B}

/-- The log may grow. -/
theorem Replays.append (h : Replays M rep encodes log r) (l : List C) :
    Replays M rep encodes (log ++ l) r where
  applied_le := Nat.le_trans h.applied_le (by simp)
  taken_le n hn := Nat.le_trans (h.taken_le n hn) (by simp)
  process := by
    have htaken : (r.taken.map fun n => M.replay ((log ++ l).take n)) =
        r.taken.map fun n => M.replay (log.take n) := by
      cases hn : r.taken with
      | none => rfl
      | some n => rw [Option.map_some, List.take_append_of_le_length (h.taken_le n hn)]; rfl
    rw [htaken, List.take_append_of_le_length h.applied_le]
    exact h.process
  files f hf := by
    obtain ⟨hle, hencodes⟩ := h.files f hf
    rw [List.take_append_of_le_length hle]
    exact ⟨Nat.le_trans hle (by simp), hencodes⟩

/-- A file is added, and the oldest ones may be dropped. -/
theorem Replays.keep (h : Replays M rep encodes log r) {f : Nat × B}
    (hf : f.1 ≤ log.length ∧ encodes f.2 (M.replay (log.take f.1))) (retain : Nat) :
    ∀ f' ∈ (f :: r.files).take retain,
      f'.1 ≤ log.length ∧ encodes f'.2 (M.replay (log.take f'.1)) := by
  intro f' hmem
  rcases List.mem_cons.mp (List.mem_of_mem_take hmem) with rfl | hmem
  · exact hf
  · exact h.files f' hmem

include hI

/-- A new replica has replayed nothing. -/
theorem replays_start : Replays M rep encodes log ⟨I.start, 0, none, []⟩ where
  applied_le := Nat.zero_le _
  taken_le _ hn := absurd hn (by simp)
  process := hI.start
  files _ hf := absurd hf (by simp)

/-- **The next entry of the log is applied without fault.** -/
theorem Replays.apply (h : Replays M rep encodes log r) {c : C} (hc : log[r.applied]? = some c) :
    ∃ p, I.apply r.process c = some p ∧
      Replays M rep encodes log { r with process := p, applied := r.applied + 1 } := by
  obtain ⟨p, hp, hrep⟩ := hI.apply c h.process
  obtain ⟨hlt, hget⟩ := List.getElem?_eq_some_iff.mp hc
  refine ⟨p, hp, ⟨hlt, h.taken_le, ?_, h.files⟩⟩
  show rep p (M.replay (log.take (r.applied + 1))) _
  rw [List.take_succ_eq_append_getElem hlt, Machine.replay_snoc, hget]
  exact hrep

/-- A node starts from any files that replay the log. -/
theorem Replays.restart (h : Replays M rep encodes log r) :
    ∃ r', startNode I r.files = .ok r' ∧ Replays M rep encodes log r' := by
  rw [startNode]
  cases hfiles : r.files with
  | nil => exact ⟨_, rfl, replays_start hI⟩
  | cons f fs =>
    obtain ⟨hle, hencodes⟩ := h.files f (hfiles ▸ List.mem_cons_self)
    obtain ⟨p, hp, hrep⟩ := hI.restore hI.start hencodes
    refine ⟨⟨p, f.1, none, f :: fs⟩, ?_, ⟨hle, fun _ hn => absurd hn (by simp), hrep, ?_⟩⟩
    · rw [if_neg (by simp), restoreNewest, hp]
    · rw [← hfiles]
      exact h.files

/-- A node restores a file of another one. -/
theorem Replays.install (h : Replays M rep encodes log r) {f : Nat × B}
    (hf : f.1 ≤ log.length ∧ encodes f.2 (M.replay (log.take f.1))) (retain : Nat) :
    ∃ p, I.restore r.process f.2 = some p ∧ Replays M rep encodes log
      { r with process := p, applied := f.1, files := (f :: r.files).take retain } := by
  obtain ⟨p, hp, hrep⟩ := hI.restore h.process hf.2
  exact ⟨p, hp, ⟨hf.1, h.taken_le, hrep, h.keep hf retain⟩⟩

/-- A snapshot is written to a file, or is lost. -/
theorem Replays.persist (h : Replays M rep encodes log r) {n : Nat} (hn : r.taken = some n) (o : O)
    (retain : Nat) :
    ∃ b, I.persist o r.process = some b ∧ Replays M rep encodes log { r with taken := none } ∧
      ∀ b' ∈ b, Replays M rep encodes log
        { r with taken := none, files := ((n, b') :: r.files).take retain } := by
  have hprocess := h.process
  rw [hn] at hprocess
  obtain ⟨b, hb, hencodes⟩ := hI.persist o hprocess
  have hnone : ∀ n : Nat, n ∈ (none : Option Nat) → n ≤ log.length :=
    fun _ hn => absurd hn (by simp)
  refine ⟨b, hb, ⟨h.applied_le, hnone, hI.release hprocess, h.files⟩, fun b' hb' => ?_⟩
  exact ⟨h.applied_le, hnone, hI.release hprocess,
    h.keep ⟨h.taken_le n hn, hencodes b' hb'⟩ retain⟩

variable [DecidableEq ι]

omit hI in
theorem Replays.setNode {s : Cluster ι C P B} (h : ∀ i, Replays M rep encodes s.log (s.node i))
    {r : Replica P B} (hr : Replays M rep encodes s.log r) (i : ι) :
    ∀ j, Replays M rep encodes (s.setNode i r).log ((s.setNode i r).node j) := by
  intro j
  show Replays M rep encodes s.log (Function.update s.node i r j)
  by_cases hj : j = i
  · rw [hj, Function.update_self]
    exact hr
  · rw [Function.update_of_ne hj]
    exact h j

/-- **One step** does not fail, and the nodes replay the log behind it. -/
theorem step_replays (retain : Nat) {s : Cluster ι C P B}
    (h : ∀ i, Replays M rep encodes s.log (s.node i)) {e : Event ι C O}
    {x : Except Fault (Cluster ι C P B)} (hstep : step I retain s e = some x) :
    ∃ t, x = .ok t ∧ ∀ i, Replays M rep encodes t.log (t.node i) := by
  cases e with
  | commit c =>
    obtain rfl := Option.some.inj hstep
    exact ⟨_, rfl, fun i => (h i).append [c]⟩
  | apply i =>
    obtain ⟨c, hc, rfl⟩ := Option.map_eq_some_iff.mp hstep
    obtain ⟨p, hp, hr⟩ := (h i).apply hI hc
    rw [hp]
    exact ⟨_, rfl, Replays.setNode h hr i⟩
  | snapshot i =>
    obtain ⟨htaken, heq⟩ := Option.ite_none_right_eq_some.mp hstep
    obtain rfl := Option.some.inj heq
    have hr : Replays M rep encodes s.log { s.node i with
        process := I.snapshot (s.node i).process
        taken := some (s.node i).applied } := by
      refine ⟨(h i).applied_le, fun n hn => ?_, hI.snapshot (h i).process, (h i).files⟩
      obtain rfl := Option.some.inj hn
      exact (h i).applied_le
    exact ⟨_, rfl, Replays.setNode h hr i⟩
  | persist i o =>
    obtain ⟨n, hn, rfl⟩ := Option.map_eq_some_iff.mp hstep
    obtain ⟨b, hb, hlost, hkept⟩ := (h i).persist hI hn o retain
    rw [hb]
    cases b with
    | none => exact ⟨_, rfl, Replays.setNode h hlost i⟩
    | some b => exact ⟨_, rfl, Replays.setNode h (hkept b rfl) i⟩
  | restart i =>
    obtain rfl := Option.some.inj hstep
    obtain ⟨r, hr, hreplays⟩ := (h i).restart hI
    rw [hr]
    exact ⟨_, rfl, Replays.setNode h hreplays i⟩
  | install i j =>
    obtain ⟨f, hf, rfl⟩ := Option.map_eq_some_iff.mp hstep
    obtain ⟨p, hp, hreplays⟩ := (h i).install hI ((h j).files f (List.mem_of_mem_head? hf)) retain
    rw [hp]
    exact ⟨_, rfl, Replays.setNode h hreplays i⟩

/-- **Every node of every run replays the log.** -/
theorem run_replays (retain : Nat) {es : List (Event ι C O)} {s : Cluster ι C P B}
    (h : Run (Step I retain) (Cluster.start I) es s) :
    ∀ i, Replays M rep encodes s.log (s.node i) := by
  have hlast : ∀ (s : Cluster ι C P B) e t, (∀ i, Replays M rep encodes s.log (s.node i)) →
      Step I retain s e t → ∀ i, Replays M rep encodes t.log (t.node i) := by
    intro s e t hs hstep
    obtain ⟨t', heq, ht⟩ := step_replays hI retain hs hstep
    obtain rfl := Except.ok.inj heq
    exact ht
  exact h.invariant hlast fun _ => replays_start hI

end

end OSPortfolio.Replication
